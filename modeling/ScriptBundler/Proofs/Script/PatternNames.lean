import ScriptBundler.Proofs.Script.ModuleSites

/-!
# Names that declarations bind, in source order

A pattern binds names at any depth: in arrays and objects, behind keys, before first values, and
under `...`.  What the parser reads as a declaration binds them in the order in which they stand in
the source, none over another.

Keys and first values are expressions, and whatever stands in them, the pattern does not bind it.
-/

namespace ScriptBundler
namespace Script

open Std.Do

set_option mvcgen.warning false

/-- The names that a pattern binds. -/
inductive Pattern.Binds : Pattern → Ident → Prop where
  | ident (id : Ident) : Pattern.Binds (.ident id) id
  | array {elements : List Pattern} {element : Pattern} {id : Ident} (span : Span)
      (helement : element ∈ elements) (hid : element.Binds id) :
      Pattern.Binds (.array elements span) id
  | object {members : List Pattern} {member : Pattern} {id : Ident} (span : Span)
      (hmember : member ∈ members) (hid : member.Binds id) :
      Pattern.Binds (.object members span) id
  | shorthand (id : Ident) (value : Option Expr) : Pattern.Binds (.shorthand id value) id
  | keyed {value : Pattern} {id : Ident} (key : Option Expr) (hid : value.Binds id) :
      Pattern.Binds (.keyed key value) id
  | rest {inner : Pattern} {id : Ident} (span : Span) (hid : inner.Binds id) :
      Pattern.Binds (.rest inner span) id
  | withDefault {inner : Pattern} {id : Ident} (value : Expr) (span : Span)
      (hid : inner.Binds id) : Pattern.Binds (.withDefault inner value span) id

mutual

/-- The names that a pattern binds, from left to right. -/
def Pattern.idents : Pattern → List Ident
  | .ident id | .shorthand id _ => [id]
  | .hole | .target _ => []
  | .array parts _ | .object parts _ => Pattern.identsOf parts
  | .keyed _ inner | .rest inner _ | .withDefault inner _ _ => inner.idents

/-- The names that patterns bind, from left to right. -/
def Pattern.identsOf : List Pattern → List Ident
  | [] => []
  | first :: others => first.idents ++ Pattern.identsOf others

end

attribute [grind =] Pattern.idents Pattern.identsOf

@[grind =] theorem Pattern.identsOf_eq_flatMap (patterns : List Pattern) :
    Pattern.identsOf patterns = patterns.flatMap Pattern.idents := by
  induction patterns with
  | nil => rfl
  | cons first others ih => rw [Pattern.identsOf, ih, List.flatMap_cons]

mutual

theorem Pattern.mem_idents {id : Ident} : ∀ pattern : Pattern,
    id ∈ pattern.idents ↔ pattern.Binds id
  | .ident _ | .shorthand _ _ => by
    constructor
    · intro hid
      obtain rfl := List.mem_singleton.mp hid
      constructor
    · rintro ⟨⟩
      exact List.mem_singleton_self _
  | .hole | .target _ => by
    constructor
    · intro hid
      exact absurd hid List.not_mem_nil
    · rintro ⟨⟩
  | .array elements _ => by
    rw [Pattern.idents, Pattern.mem_identsOf elements]
    constructor
    · rintro ⟨element, helement, hid⟩
      exact .array _ helement hid
    · rintro (_ | ⟨_, helement, hid⟩)
      exact ⟨_, helement, hid⟩
  | .object members _ => by
    rw [Pattern.idents, Pattern.mem_identsOf members]
    constructor
    · rintro ⟨member, hmember, hid⟩
      exact .object _ hmember hid
    · rintro (_ | _ | ⟨_, hmember, hid⟩)
      exact ⟨_, hmember, hid⟩
  | .keyed _ inner => by
    rw [Pattern.idents, Pattern.mem_idents inner]
    exact ⟨.keyed _, fun | .keyed _ hid => hid⟩
  | .rest inner _ => by
    rw [Pattern.idents, Pattern.mem_idents inner]
    exact ⟨.rest _, fun | .rest _ hid => hid⟩
  | .withDefault inner _ _ => by
    rw [Pattern.idents, Pattern.mem_idents inner]
    exact ⟨.withDefault _ _, fun | .withDefault _ _ hid => hid⟩

theorem Pattern.mem_identsOf {id : Ident} : ∀ patterns : List Pattern,
    id ∈ Pattern.identsOf patterns ↔ ∃ pattern ∈ patterns, pattern.Binds id
  | [] => by simp [Pattern.identsOf]
  | first :: others => by
    rw [Pattern.identsOf, List.mem_append, first.mem_idents, Pattern.mem_identsOf others,
      List.exists_mem_cons_iff]

end

mutual

theorem Pattern.bindings_eq : ∀ pattern : Pattern, pattern.bindings = pattern.idents.map (·.name)
  | .ident _ | .shorthand _ _ | .hole | .target _ => rfl
  | .array elements _ | .object elements _ => Pattern.bindingsOf_eq elements
  | .keyed _ inner | .rest inner _ | .withDefault inner _ _ => Pattern.bindings_eq inner

theorem Pattern.bindingsOf_eq : ∀ patterns : List Pattern,
    Pattern.bindingsOf patterns = (Pattern.identsOf patterns).map (·.name)
  | [] => rfl
  | first :: others => by
    rw [Pattern.bindingsOf, Pattern.identsOf, List.map_append, first.bindings_eq,
      Pattern.bindingsOf_eq others]

end

/-! ## Names one after the other -/

/-- Whether names stand between two offsets, each of them before the next. -/
structure InOrder (start stop : Nat) (ids : List Ident) : Prop where
  lies : ∀ id ∈ ids, start ≤ id.span.start ∧ id.span.start < id.span.stop ∧ id.span.stop ≤ stop
  ordered : ids.Pairwise fun id later => id.span.stop ≤ later.span.start

namespace InOrder

variable {start middle later stop : Nat} {ids others : List Ident}

@[grind ←] theorem nil (start stop : Nat) : InOrder start stop [] :=
  ⟨by simp, .nil⟩

theorem mono (hids : InOrder middle later ids) (hstart : start ≤ middle) (hstop : later ≤ stop) :
    InOrder start stop ids := by
  refine ⟨fun id hid => ?_, hids.ordered⟩
  obtain ⟨hlower, hlt, hupper⟩ := hids.lies id hid
  exact ⟨by omega, hlt, by omega⟩

/-- Names that are read one after the other. -/
theorem append (hids : InOrder start middle ids) (hothers : InOrder later stop others)
    (hle : middle ≤ later) (hstart : start ≤ later) (hstop : middle ≤ stop) :
    InOrder start stop (ids ++ others) where
  lies := by
    intro id hid
    rcases List.mem_append.mp hid with hfirst | hsecond
    · exact (hids.mono (Nat.le_refl _) hstop).lies id hfirst
    · exact (hothers.mono hstart (Nat.le_refl _)).lies id hsecond
  ordered := List.pairwise_append.mpr ⟨hids.ordered, hothers.ordered, fun id hid other hother =>
    Nat.le_trans (hids.lies id hid).2.2 (Nat.le_trans hle (hothers.lies other hother).1)⟩

/-- A name by itself. -/
theorem of_arranged {source : List Char} {id : Ident}
    (hid : Arranged source start stop [.name id]) : InOrder start stop [id] := by
  refine ⟨fun other hother => ?_, List.pairwise_singleton _ _⟩
  obtain rfl := List.mem_singleton.mp hother
  obtain ⟨hlower, hlt, hupper, -⟩ := hid.lies _ (List.mem_singleton_self _)
  exact ⟨hlower, hlt, hupper⟩

end InOrder

grind_pattern InOrder.mono => InOrder middle later ids, InOrder start stop ids
grind_pattern InOrder.append =>
  InOrder start middle ids, InOrder later stop others, ids ++ others
grind_pattern InOrder.of_arranged => Arranged source start stop [.name id]

namespace Parser

open Mark Text

variable {α : Type} (s : State)

/-- Whether a step of the parser does not go back, and the names that its result binds stand, one
after the other, between the token that it starts at and the end of the last one that it reads. -/
abbrev BindsAlong (s : State) (step : Parser α) (ids : α → List Ident) : Prop :=
  ⦃fun _ state => ⌜state = s⌝⦄ step
  ⦃⇓? value _ state => ⌜Leads s.mark state.mark ∧ ∀ source, s.mark.Right source →
    InOrder s.current.span.start state.previous.stop (ids value)⌝⦄

/-- Whether a step of the parser reads something, and the names that its result binds stand, one
after the other, in what it has read. -/
abbrev BindsInOrder (s : State) (step : Parser α) (ids : α → List Ident) : Prop :=
  ⦃fun _ state => ⌜state = s⌝⦄ step
  ⦃⇓? value _ state => ⌜Moves s.mark state.mark ∧ ∀ source, s.mark.Right source →
    InOrder s.current.span.start state.previous.stop (ids value)⌝⦄

theorem loop_bindsAlong (stop : Parser Bool) (step : Parser α) (ids : α → List Ident)
    (hround : ∀ s, BindsAlong s (round stop step) fun found => found.toList.flatMap ids)
    (rounds : Nat) :
    BindsAlong s (repeatUntil.loop stop step rounds) fun values => values.flatMap ids := by
  induction rounds generalizing s with
  | zero =>
      mvcgen [repeatUntil.loop]
      grind -ring -linarith
  | succ rounds ih =>
      rw [loop_succ]
      mvcgen [hround, ih, -round] <;> grind -ring -linarith

theorem repeatUntil_bindsAlong (stop : Parser Bool) (step : Parser α) (ids : α → List Ident)
    (hround : ∀ s, BindsAlong s (round stop step) fun found => found.toList.flatMap ids) :
    BindsAlong s (repeatUntil stop step) fun values => values.flatMap ids := by
  have hloop := fun rounds s => loop_bindsAlong s stop step ids hround rounds
  mvcgen [repeatUntil, hloop, -repeatUntil_leads]

theorem commaList_bindsInOrder (close : String) (step : Parser α) (ids : α → List Ident)
    (hstep : ∀ s, BindsAlong s step ids) :
    BindsInOrder s (commaList close step) fun result => result.1.flatMap ids := by
  have hrounds : ∀ s stop (step : Parser (α × Option Nat)),
      (∀ s, BindsAlong s (round stop step) fun found =>
        found.toList.flatMap fun element => ids element.1) →
      BindsAlong s (repeatUntil stop step) fun elements =>
        elements.flatMap fun element => ids element.1 :=
    fun s stop step hround => repeatUntil_bindsAlong s stop step _ hround
  mvcgen [commaList, hstep, hrounds, -repeatUntil_leads, -commaList_moves] <;>
    grind -ring -linarith [List.flatMap_map]

/-! ## Parts of a grammar -/

/-- Whether what each part of a grammar gives lies in what it reads, and the patterns that it gives
bind names one after the other. -/
structure Grammar.Binding (g : Grammar) : Prop extends g.Arranging where
  bindsInOrder : ∀ s, BindsInOrder s g.bindingTarget Pattern.idents

attribute [grind →] Grammar.Binding.toArranging

variable {g : Grammar} (hg : g.Binding)

include hg

theorem bindingElement_bindsInOrder : BindsInOrder s (bindingElement g) Pattern.idents := by
  have htarget := hg.bindsInOrder
  refine triple_of fun holds hholds => ?_
  mvcgen [bindingElement, htarget, -bindingElement_advances, -bindingElement_arranges,
    -Grammar.bindingTarget_arranges, -Grammar.bindingTarget_advances] <;> grind -ring -linarith

theorem arrayPatternElement_bindsInOrder :
    BindsInOrder s (arrayPatternElement g) Pattern.idents := by
  have htarget := hg.bindsInOrder
  have helement := fun s => bindingElement_bindsInOrder s hg
  refine triple_of fun holds hholds => ?_
  mvcgen [arrayPatternElement, htarget, helement, -arrayPatternElement_advances,
    -arrayPatternElement_arranges, -bindingElement_advances, -bindingElement_arranges,
    -Grammar.bindingTarget_arranges, -Grammar.bindingTarget_advances] <;> grind -ring -linarith

theorem objectPatternMember_bindsInOrder :
    BindsInOrder s (objectPatternMember g) Pattern.idents := by
  have htarget := hg.bindsInOrder
  have helement := fun s => bindingElement_bindsInOrder s hg
  refine triple_of fun holds hholds => ?_
  mvcgen [objectPatternMember, htarget, helement, -objectPatternMember_advances,
    -objectPatternMember_arranges, -bindingElement_advances, -bindingElement_arranges,
    -Grammar.bindingTarget_arranges, -Grammar.bindingTarget_advances] <;> grind -ring -linarith

theorem bindingTarget_bindsInOrder : BindsInOrder s (bindingTarget g) Pattern.idents := by
  have helement := fun s => arrayPatternElement_bindsInOrder s hg
  have hmember := fun s => objectPatternMember_bindsInOrder s hg
  have hlist := fun s stop step => repeatUntil_bindsAlong s stop step Pattern.idents
  have hcommas := fun s step => commaList_bindsInOrder s "\x7d" step Pattern.idents
  refine triple_of fun holds hholds => ?_
  mvcgen [bindingTarget, helement, hmember, hlist, hcommas, -bindingTarget_advances,
    -bindingTarget_arranges, -arrayPatternElement_advances, -arrayPatternElement_arranges,
    -objectPatternMember_advances, -objectPatternMember_arranges, -repeatUntil_leads,
    -commaList_moves] <;> grind -ring -linarith

omit hg in
/-- The patterns of every grammar bind names in source order, for any depth of nesting. -/
theorem grammarOfDepth_binding (depth : Nat) : (grammarOfDepth depth).Binding := by
  induction depth with
  | zero =>
      refine ⟨grammarOfDepth_arranging 0, fun s => ?_⟩
      unfold grammarOfDepth
      mvcgen
      grind -ring -linarith
  | succ depth ih =>
      exact ⟨grammarOfDepth_arranging _, fun s => bindingTarget_bindsInOrder s ih⟩

/-! ## Declarations -/

theorem declarator_bindsInOrder (kind : VariableKind) (inHead : Bool) :
    BindsInOrder s (declarator g kind inHead) Pattern.idents := by
  have htarget := hg.bindsInOrder
  refine triple_of fun holds hholds => ?_
  mvcgen [declarator, htarget, -declarator_advances, -declarator_arranges,
    -Grammar.bindingTarget_arranges, -Grammar.bindingTarget_advances] <;> grind -ring -linarith

theorem moreDeclarators_bindsAlong (kind : VariableKind) (inHead : Bool) (rounds : Nat) :
    BindsAlong s (moreDeclarators g kind inHead rounds) Pattern.identsOf := by
  have hdeclarator := fun s => declarator_bindsInOrder s hg kind inHead
  induction rounds generalizing s with
  | zero =>
      mvcgen [moreDeclarators, -moreDeclarators_leads, -moreDeclarators_follows]
      grind -ring -linarith
  | succ rounds ih =>
      refine triple_of fun holds hholds => ?_
      mvcgen [moreDeclarators, hdeclarator, ih, -moreDeclarators_leads, -moreDeclarators_follows,
        -declarator_advances, -declarator_arranges] <;> grind -ring -linarith

end Parser

/-- The declarators of a variable declaration; no other statement has any. -/
@[grind =] def Stmt.declarators : Stmt → List Pattern
  | .variableDecl _ declarators _ => declarators
  | _ => []

/-- The names that a variable declaration behind `export` binds, from left to right. -/
@[grind =] def ItemForm.exportedIdents : ItemForm → List Ident
  | .exportDecl declaration => Pattern.identsOf declaration.declarators
  | _ => []

namespace Parser

open Mark

variable (s : State) {g : Grammar} (hg : g.Binding)

include hg

theorem variableDeclaration_bindsInOrder (kind : VariableKind) (inHead : Bool)
    (hproper : s.current.token.isProper = true) :
    BindsInOrder s (variableDeclaration g kind inHead) fun body =>
      Pattern.identsOf body.declarators := by
  have hfirst := fun s => declarator_bindsInOrder s hg kind inHead
  have hmore := fun s rounds => moreDeclarators_bindsAlong s hg kind inHead rounds
  refine triple_of fun holds hholds => ?_
  mvcgen [variableDeclaration, hfirst, hmore, -variableDeclaration_advances,
    -variableDeclaration_arranges, -moreDeclarators_leads, -moreDeclarators_follows,
    -declarator_advances, -declarator_arranges] <;> grind -ring -linarith

theorem functionDeclaration_bindsInOrder (start : Nat) (isAsync : Bool) :
    BindsInOrder s (functionDeclaration g start isAsync) fun body =>
      Pattern.identsOf body.declarators := by
  have hhead := fun s start isAsync =>
    functionHead_arranges s hg.toArranging start isAsync bindingIdentifier _ fun s =>
      follows_of_arranges s (bindingIdentifier_arranges s)
  refine triple_of fun holds hholds => ?_
  mvcgen [functionDeclaration, hhead, -functionDeclaration_advances,
    -functionDeclaration_arranges, -functionHead_advances]
  grind -ring -linarith

theorem classDeclaration_bindsInOrder (hproper : s.current.token.isProper = true) :
    BindsInOrder s (classDeclaration g) fun body => Pattern.identsOf body.declarators := by
  refine triple_of fun holds hholds => ?_
  mvcgen [classDeclaration, -classDeclaration_advances, -classDeclaration_arranges] <;>
    grind -ring -linarith

omit hg in
theorem exportList_bindsInOrder : BindsInOrder s exportList ItemForm.exportedIdents := by
  refine triple_of fun holds hholds => ?_
  mvcgen [exportList, -exportList_advances, -exportList_exports] <;> grind -ring -linarith

omit hg in
theorem exportEverything_bindsInOrder :
    BindsInOrder s exportEverything ItemForm.exportedIdents := by
  refine triple_of fun holds hholds => ?_
  mvcgen [exportEverything, -exportEverything_advances, -exportEverything_exports] <;>
    grind -ring -linarith

theorem exportDefault_bindsInOrder :
    BindsInOrder s (exportDefault g) ItemForm.exportedIdents := by
  have hhead := fun s start isAsync =>
    functionHead_arranges s hg.toArranging start isAsync optionalName _ optionalName_follows
  refine triple_of fun holds hholds => ?_
  mvcgen [exportDefault, hhead, -exportDefault_advances, -exportDefault_exports,
    -functionHead_advances] <;> grind -ring -linarith

theorem exportDeclaration_bindsInOrder (hproper : s.current.token.isProper = true) :
    BindsInOrder s (exportDeclaration g) ItemForm.exportedIdents := by
  have hvariables := fun s kind => variableDeclaration_bindsInOrder s hg kind false
  have hfunction := fun s => functionDeclaration_bindsInOrder s hg
  have hclass := fun s => classDeclaration_bindsInOrder s hg
  have hdefault := fun s => exportDefault_bindsInOrder s hg
  have hlist := fun s => exportList_bindsInOrder s
  have heverything := fun s => exportEverything_bindsInOrder s
  refine triple_of fun holds hholds => ?_
  mvcgen [exportDeclaration, hvariables, hfunction, hclass, hdefault, hlist, heverything,
    -exportDeclaration_advances, -exportDeclaration_exports, -variableDeclaration_advances,
    -variableDeclaration_arranges, -functionDeclaration_advances, -functionDeclaration_arranges,
    -classDeclaration_advances, -classDeclaration_arranges, -exportDefault_advances,
    -exportDefault_exports, -exportList_advances, -exportList_exports, -exportEverything_advances,
    -exportEverything_exports] <;> grind -ring -linarith

omit hg in
theorem importDeclaration_bindsInOrder (hproper : s.current.token.isProper = true) :
    BindsInOrder s importDeclaration ItemForm.exportedIdents := by
  refine triple_of fun holds hholds => ?_
  mvcgen [importDeclaration, -importDeclaration_advances, -importDeclaration_arranges] <;>
    grind -ring -linarith

theorem moduleItem_bindsInOrder :
    ⦃fun _ state => ⌜state = s⌝⦄ moduleItem g
    ⦃⇓? item _ state => ⌜Moves s.mark state.mark ∧ ∀ source, s.mark.Right source →
      InOrder item.span.start item.span.stop item.form.exportedIdents⌝⦄ := by
  have hexport := fun s => exportDeclaration_bindsInOrder s hg
  have himport := fun s => importDeclaration_bindsInOrder s
  refine triple_of fun holds hholds => ?_
  mvcgen [moduleItem, hexport, himport, -moduleItem_advances, -exportDeclaration_advances,
    -exportDeclaration_exports, -importDeclaration_advances, -importDeclaration_arranges] <;>
    grind -ring -linarith

theorem loop_inOrder (rounds : Nat) :
    ⦃fun _ state => ⌜state = s⌝⦄ repeatUntil.loop atEnd (moduleItem g) rounds
    ⦃⇓? items _ state => ⌜Leads s.mark state.mark ∧ ∀ source, s.mark.Right source →
      ∀ item ∈ items, InOrder item.span.start item.span.stop item.form.exportedIdents⌝⦄ := by
  have hitem := fun s => moduleItem_bindsInOrder s hg
  induction rounds generalizing s with
  | zero =>
      mvcgen [repeatUntil.loop]
      grind -ring -linarith
  | succ rounds ih =>
      rw [loop_succ]
      mvcgen [round, hitem, ih, -moduleItem_advances] <;> grind -ring -linarith

end Parser

/-- The names that an exported variable declaration binds stand in its statement one after the
other, from left to right. -/
theorem parse_inOrder {source : List Char} {tree : Tree} (hparse : parse source = .ok tree) :
    ∀ item ∈ tree.items, InOrder item.span.start item.span.stop item.form.exportedIdents := by
  unfold parse at hparse
  dsimp only at hparse
  split at hparse
  · contradiction
  · rename_i items state hrun
    split at hparse
    · contradiction
    · obtain rfl := Except.ok.inj hparse
      have hitems := Parser.of_triple (Parser.loop_inOrder (.ofSource source)
        (Parser.grammarOfDepth_binding _) (source.length + 2)) hrun
      exact hitems.2 source (Parser.ofSource_right source)

end Script
end ScriptBundler

import ScriptBundler.Proofs.Module.Analysis
import ScriptBundler.Proofs.Scope.Trees
import ScriptBundler.Proofs.Script.Declarations
import ScriptBundler.Proofs.Script.ModuleSites

/-!
# The scopes of a module

What the first walk leaves behind.  Every function, block and catch clause of a statement has a
scope, inside the scope of the nearest such node around it or at the top level, and this scope
declares exactly what its node declares.  Declarations that are hoisted reach scopes whose parts
have been walked over in part only, so that a scope fits its node when the walk has left it and not
before; but nothing that is walked over later declares anything in a scope that has been left.
-/

namespace ScriptBundler

open Script Text

/-! ## Walks that are not ended -/

namespace Script.Visitor

variable {σ : Type} {visitor : Visitor σ}

mutual

theorem walk_steady (hsteady : ∀ shape state, (visitor.enter shape state).1 ≠ .abort) :
    ∀ (outline : Outline) (state : σ), (visitor.walk outline state).2 = false
  | .node shape parts, state => by
    have henter := hsteady shape state
    have hparts := walkAll_steady hsteady parts
    unfold walk
    generalize visitor.enter shape state = entered at henter
    obtain ⟨control, next⟩ := entered
    cases control with
    | abort => exact absurd rfl henter
    | skip => rfl
    | proceed =>
        have hended := hparts next
        dsimp only
        generalize visitor.walkAll parts next = result at hended
        obtain ⟨last, ended⟩ := result
        obtain rfl : ended = false := hended
        rfl

/-- A walk that no node ends comes to its end. -/
theorem walkAll_steady (hsteady : ∀ shape state, (visitor.enter shape state).1 ≠ .abort) :
    ∀ (forest : List Outline) (state : σ), (visitor.walkAll forest state).2 = false
  | [], _ => rfl
  | first :: rest, state => by
    have hfirst := walk_steady hsteady first state
    have hrest := walkAll_steady hsteady rest
    unfold walkAll
    generalize visitor.walk first state = result at hfirst
    obtain ⟨next, ended⟩ := result
    obtain rfl : ended = false := hfirst
    exact hrest next

end

variable (hsteady : ∀ shape state, (visitor.enter shape state).1 ≠ .abort)

include hsteady

theorem walkAll_eq_run (forest : List Outline) (state : σ) :
    visitor.walkAll forest state = (visitor.run forest state, false) :=
  Prod.ext rfl (walkAll_steady hsteady forest state)

theorem run_cons (first : Outline) (rest : List Outline) (state : σ) :
    visitor.run (first :: rest) state = visitor.run rest (visitor.run [first] state) := by
  have hfirst := walk_steady hsteady first state
  have hrun : visitor.run [first] state = (visitor.walk first state).1 := by
    unfold run walkAll
    generalize visitor.walk first state = result
    obtain ⟨next, _ | _⟩ := result <;> rfl
  rw [hrun, run, walkAll]
  generalize visitor.walk first state = result at hfirst
  obtain ⟨next, ended⟩ := result
  obtain rfl : ended = false := hfirst
  rfl

/-- A node whose parts are walked over. -/
theorem run_node {shape : Node} {parts : List Outline} {state next : σ}
    (henter : visitor.enter shape state = (.proceed, next)) :
    visitor.run [.node shape parts] state = visitor.leave shape (visitor.run parts next) := by
  rw [run, walkAll, walk, henter]
  dsimp only
  rw [walkAll_eq_run hsteady]
  rfl

end Script.Visitor

/-! ## The keys of an outline -/

namespace Script

/-- The key of a place that is a scope. -/
def Site.key? : Site → Option ScopeKey
  | .name _ => none
  | .scope key => some key

/-- The keys of the nodes in outlines that open scopes. -/
def Outline.keysOf (forest : List Outline) : List ScopeKey :=
  (Outline.sitesOf forest).filterMap Site.key?

theorem Node.filterMap_sites (shape : Node) :
    shape.sites.filterMap Site.key? = shape.scopeKey?.toList := by
  cases shape <;> rfl

theorem Outline.keysOf_cons (first : Outline) (rest : List Outline) :
    keysOf (first :: rest) = keysOf [first] ++ keysOf rest := by
  simp [keysOf, sitesOf]

theorem Outline.keysOf_node (shape : Node) (parts : List Outline) :
    keysOf [.node shape parts] = shape.scopeKey?.toList ++ keysOf parts := by
  simp [keysOf, sitesOf, sites, Node.filterMap_sites]

/-- Places that stand apart have different keys. -/
theorem Arranged.keysOf_nodup {source : List Char} {start stop : Nat} {forest : List Outline}
    (harranged : Script.Arranged source start stop (Outline.sitesOf forest)) :
    (Outline.keysOf forest).Nodup := by
  refine List.Pairwise.filterMap _ (fun site other hapart key hkey found hfound => ?_)
    harranged.apart
  cases site with
  | name => contradiction
  | scope =>
      cases other with
      | name => contradiction
      | scope =>
          obtain rfl := Option.some.inj hkey
          obtain rfl := Option.some.inj hfound
          exact hapart

end Script

namespace Module

open Script.Outline (hoistedOf letsOf keysOf PlainAll)

/-! ## Declarations -/

namespace Building

variable {state middle after : Building} {hoists lets : List String}

/-- Whether a walk is in a scope of a sound tree. -/
structure Proper (state : Building) : Prop where
  sound : state.tree.Sound
  current : state.current < state.tree.scopes.length

/-- Whether a name lands in a scope, if some names are hoisted and others are not. -/
def Lands (state : Building) (hoists lets : List String) (id : ScopeId) (name : String) : Prop :=
  state.tree.landing state.current false = id ∧ name ∈ hoists ∨ state.current = id ∧ name ∈ lets

/-- Whether all that has happened to the scopes that were there is that names have landed in them. -/
structure Adds (hoists lets : List String) (state after : Building) : Prop where
  current : after.current = state.current
  sound : after.tree.Sound
  grows : state.tree.Grows after.tree
  declares : ∀ id < state.tree.scopes.length, ∀ name, after.tree.declares id name = true ↔
    state.tree.declares id name = true ∨ state.Lands hoists lets id name
  defines : ∀ name, name ∈ after.defines ↔
    name ∈ state.defines ∨ state.Lands hoists lets ScopeTree.root name

theorem Adds.proper (hadds : state.Adds hoists lets after) (hproper : state.Proper) :
    after.Proper :=
  ⟨hadds.sound, hadds.current ▸ Nat.lt_of_lt_of_le hproper.current hadds.grows.length⟩

theorem Adds.refl (hproper : state.Proper) : state.Adds [] [] state where
  current := rfl
  sound := hproper.sound
  grows := .refl _
  declares := by simp [Lands]
  defines := by simp [Lands]

/-- Names go on to land where they did. -/
theorem Adds.lands_iff (hadds : state.Adds hoists lets after) (hproper : state.Proper)
    {hoists' lets' : List String} {id : ScopeId} {name : String} :
    after.Lands hoists' lets' id name ↔ state.Lands hoists' lets' id name := by
  unfold Lands
  rw [hadds.current, hadds.grows.landing hproper.sound hadds.sound hproper.current]

theorem Lands.append {hoists' lets' : List String} {id : ScopeId} {name : String} :
    state.Lands (hoists ++ hoists') (lets ++ lets') id name ↔
      state.Lands hoists lets id name ∨ state.Lands hoists' lets' id name := by
  unfold Lands
  rw [List.mem_append, List.mem_append]
  tauto

theorem Adds.trans {hoists' lets' : List String} (hproper : state.Proper)
    (hfirst : state.Adds hoists lets middle) (hsecond : middle.Adds hoists' lets' after) :
    state.Adds (hoists ++ hoists') (lets ++ lets') after where
  current := hsecond.current.trans hfirst.current
  sound := hsecond.sound
  grows := hfirst.grows.trans hsecond.grows
  declares := fun id hlt name => by
    rw [hsecond.declares id (Nat.lt_of_lt_of_le hlt hfirst.grows.length),
      hfirst.declares id hlt, hfirst.lands_iff hproper, Lands.append, or_assoc]
  defines := fun name => by
    rw [hsecond.defines, hfirst.defines, hfirst.lands_iff hproper, Lands.append, or_assoc]

/-- A scope that lies behind the current one gets no more names. -/
theorem Adds.declares_eq (hadds : state.Adds hoists lets after) (hproper : state.Proper)
    {id : ScopeId} (hlt : state.current < id) (hid : id < state.tree.scopes.length)
    (name : String) : after.tree.declares id name = state.tree.declares id name := by
  have hlands : ¬ state.Lands hoists lets id name := by
    rintro (⟨rfl, -⟩ | ⟨rfl, -⟩)
    · exact Nat.not_lt.mpr (ScopeTree.landing_le hproper.sound state.current false) hlt
    · exact Nat.lt_irrefl _ hlt
  exact Bool.eq_iff_iff.mpr (by rw [hadds.declares id hid, or_iff_left hlands])

theorem declare_adds (hproper : state.Proper) (blockScoped : Bool) (name : String) :
    state.Adds (if blockScoped then [] else [name]) (if blockScoped then [name] else [])
      (state.declare blockScoped name) := by
  have hle := ScopeTree.landing_le hproper.sound state.current blockScoped
  have hlt := Nat.lt_of_le_of_lt hle hproper.current
  have hlands : ∀ id found, state.Lands (if blockScoped then [] else [name])
      (if blockScoped then [name] else []) id found ↔
      state.tree.landing state.current blockScoped = id ∧ found = name := by
    intro id found
    cases blockScoped <;> simp [Lands, ScopeTree.landing]
  refine ⟨rfl, ScopeTree.add_sound hproper.sound _ _ _, ScopeTree.add_grows _ _ _ _,
    fun id _ found => ?_, fun found => ?_⟩
  · rw [hlands]
    exact ScopeTree.declares_add hlt id found
  · rw [hlands]
    show found ∈ (if state.tree.landing state.current blockScoped = ScopeTree.root then _ else _) ↔ _
    split
    · rename_i hroot
      simp [hroot]
    · rename_i hother
      simp [hother]

theorem foldl_declare_adds (hproper : state.Proper) (blockScoped : Bool) (names : List String) :
    state.Adds (if blockScoped then [] else names) (if blockScoped then names else [])
      (names.foldl (fun state name => state.declare blockScoped name) state) := by
  induction names generalizing state with
  | nil => cases blockScoped <;> exact .refl hproper
  | cons first rest ih =>
      have hfirst := declare_adds hproper blockScoped first
      have hboth := hfirst.trans hproper (ih (hfirst.proper hproper))
      cases blockScoped <;> exact hboth

/-! ## Recorded scopes -/

end Building

theorem OpenedScopes.lookup_record (scopes : OpenedScopes) (key other : ScopeKey) (id : ScopeId) :
    (scopes.record key id).lookup other = if other = key then some id else scopes.lookup other := by
  unfold OpenedScopes.record
  induction scopes with
  | nil =>
      by_cases hkey : other = key
      · simp [hkey]
      · simp [hkey, List.lookup_cons, beq_eq_false_iff_ne.mpr hkey]
  | cons entry rest ih =>
      obtain ⟨first, scope⟩ := entry
      by_cases hfirst : first = key
      · subst hfirst
        rw [List.filter_cons_of_neg (by simp), ih, List.lookup_cons]
        by_cases hkey : other = first
        · simp [hkey]
        · simp [hkey, beq_eq_false_iff_ne.mpr hkey]
      · rw [List.filter_cons_of_pos (by simpa using hfirst), List.cons_append, List.lookup_cons, ih,
          List.lookup_cons]
        by_cases hother : other = first
        · subst hother
          simp [hfirst]
        · simp [beq_eq_false_iff_ne.mpr hother]

namespace Building

variable {state middle after : Building} {hoists lets : List String}

/-! ## Opening a scope -/

/-- Whether a scope has been opened, of a function or of some other node. -/
structure Opens (key : ScopeKey) (isFunction : Bool) (names : List String)
    (state inner : Building) : Prop where
  proper : inner.Proper
  current : inner.current = state.tree.scopes.length
  grows : state.tree.Grows inner.tree
  parent : inner.tree.parent? inner.current = some state.current
  /-- A function keeps what is hoisted; out of other scopes it lands around them. -/
  landing : inner.tree.landing inner.current false =
    if isFunction then inner.current else state.tree.landing state.current false
  names : ∀ name, inner.tree.declares inner.current name = true ↔ name ∈ names
  declares : ∀ id < state.tree.scopes.length, ∀ name,
    inner.tree.declares id name = state.tree.declares id name
  defines : inner.defines = state.defines
  lookup : ∀ other, inner.scopes.lookup other =
    if other = key then some inner.current else state.scopes.lookup other

theorem openScope_opens (hproper : state.Proper) (key : ScopeKey) (isFunction : Bool)
    (names : List String) :
    state.Opens key isFunction names (state.openScope key (!isFunction) names) := by
  obtain ⟨depth, hself, -⟩ := state.tree.get?_push_self state.current (!isFunction) names
  have hsound := ScopeTree.push_sound hproper.sound hproper.current (!isFunction) names
  have hgrows := ScopeTree.push_grows state.tree state.current (!isFunction) names
  have hparent : (state.tree.push state.current (!isFunction) names).1.parent?
      state.tree.scopes.length = some state.current := by
    rw [ScopeTree.parent?, hself]
    rfl
  refine ⟨⟨hsound, by simp [openScope, ScopeTree.push]⟩, rfl, hgrows, hparent, ?_,
    ScopeTree.declares_push_self _ _ _ _, fun id hlt name => ?_, rfl,
    fun other => state.scopes.lookup_record key other _⟩
  · have hblock : (state.tree.push state.current (!isFunction) names).1.isInnerBlock
        state.tree.scopes.length = !isFunction := by
      rw [ScopeTree.isInnerBlock, hself]
      exact Bool.and_true _
    cases isFunction with
    | true => exact ScopeTree.landing_of_not_isInnerBlock hblock
    | false =>
        exact (ScopeTree.landing_of_isInnerBlock hsound hparent hblock).trans
          (hgrows.landing hproper.sound hsound hproper.current false)
  · show (state.tree.push state.current (!isFunction) names).1.declares id name = _
    rw [ScopeTree.declares, ScopeTree.declares, ScopeTree.get?_push _ _ _ _ hlt]

/-- Only what is hoisted out of a scope lands in the scopes that were there before. -/
theorem Opens.lands_iff {key : ScopeKey} {isFunction : Bool} {names : List String}
    {inner : Building} (hopens : state.Opens key isFunction names inner) {id : ScopeId}
    (hlt : id < state.tree.scopes.length) {name : String} :
    inner.Lands hoists lets id name ↔
      state.Lands (if isFunction then [] else hoists) [] id name := by
  have hne : state.tree.scopes.length ≠ id := Nat.ne_of_gt hlt
  unfold Lands
  rw [hopens.landing, hopens.current]
  cases isFunction <;> simp [hne]

/-- A function keeps what is hoisted in it, any other scope what is not. -/
theorem Opens.declares_current {key : ScopeKey} {isFunction : Bool} {names : List String}
    {inner : Building} (hopens : state.Opens key isFunction names inner) (hproper : state.Proper)
    (hadds : inner.Adds hoists lets after) (hplain : isFunction = true → lets = [])
    (name : String) : after.tree.declares inner.current name = true ↔
      name ∈ names ∨ name ∈ if isFunction then hoists else lets := by
  have hle := ScopeTree.landing_le hproper.sound state.current false
  have hne : state.tree.landing state.current false ≠ state.tree.scopes.length :=
    Nat.ne_of_lt (Nat.lt_of_le_of_lt hle hproper.current)
  rw [hadds.declares _ hopens.proper.current, hopens.names, Lands, hopens.landing, hopens.current]
  cases isFunction with
  | true => simp [hplain rfl]
  | false => simp [hne]

end Building

/-! ## Scopes that fit their nodes -/

mutual

/-- Whether the scopes that an outline has opened, numbered from some number on, fit its nodes: each
lies in the scope of the node around it and declares what its node declares. -/
def Fits (tree : ScopeTree) (opened : OpenedScopes) (low : Nat) (around : ScopeId) :
    Outline → Prop
  | .node shape parts =>
    match shape.scopeKey? with
    | none => FitsAll tree opened low around parts
    | some key => ∃ id, low ≤ id ∧ id < tree.scopes.length ∧ opened.lookup key = some id ∧
      tree.parent? id = some around ∧
      (∀ name, tree.declares id name = true ↔ name ∈ shape.declared parts) ∧
      FitsAll tree opened low id parts

/-- Whether the scopes that outlines have opened fit their nodes. -/
def FitsAll (tree : ScopeTree) (opened : OpenedScopes) (low : Nat) (around : ScopeId) :
    List Outline → Prop
  | [] => True
  | first :: rest => Fits tree opened low around first ∧ FitsAll tree opened low around rest

end

section Mono

variable {tree after : ScopeTree} {opened others : OpenedScopes} {low low' : Nat}

mutual

theorem Fits.mono (hgrows : tree.Grows after) (hle : low' ≤ low)
    (hdeclares : ∀ id, low ≤ id → id < tree.scopes.length → ∀ name,
      after.declares id name = tree.declares id name) :
    ∀ (outline : Outline) (around : ScopeId),
      (∀ key ∈ keysOf [outline], others.lookup key = opened.lookup key) →
      Fits tree opened low around outline → Fits after others low' around outline
  | .node shape parts, around, hkeys, hfits => by
    rw [Outline.keysOf_node] at hkeys
    have hparts := FitsAll.mono hgrows hle hdeclares parts
    unfold Fits at hfits ⊢
    cases hkey : shape.scopeKey? with
    | none =>
        simp only [hkey] at hfits ⊢
        exact hparts around (fun key hmem => hkeys key (List.mem_append_right _ hmem)) hfits
    | some key =>
        simp only [hkey] at hfits ⊢
        obtain ⟨id, hlow, hlt, hlookup, hparent, hnames, hall⟩ := hfits
        refine ⟨id, Nat.le_trans hle hlow, Nat.lt_of_lt_of_le hlt hgrows.length, ?_, ?_, ?_, ?_⟩
        · exact (hkeys key (by simp [hkey])).trans hlookup
        · exact (hgrows.parent id hlt).trans hparent
        · exact fun name => by rw [hdeclares id hlow hlt, hnames]
        · exact hparts id (fun key hmem => hkeys key (List.mem_append_right _ hmem)) hall

/-- Scopes go on to fit their nodes while others are opened, as long as they get no more names. -/
theorem FitsAll.mono (hgrows : tree.Grows after) (hle : low' ≤ low)
    (hdeclares : ∀ id, low ≤ id → id < tree.scopes.length → ∀ name,
      after.declares id name = tree.declares id name) :
    ∀ (forest : List Outline) (around : ScopeId),
      (∀ key ∈ keysOf forest, others.lookup key = opened.lookup key) →
      FitsAll tree opened low around forest → FitsAll after others low' around forest
  | [], _, _, _ => trivial
  | first :: rest, around, hkeys, ⟨hfirst, hrest⟩ => by
    rw [Outline.keysOf_cons] at hkeys
    exact ⟨Fits.mono hgrows hle hdeclares first around
        (fun key hmem => hkeys key (List.mem_append_left _ hmem)) hfirst,
      FitsAll.mono hgrows hle hdeclares rest around
        (fun key hmem => hkeys key (List.mem_append_right _ hmem)) hrest⟩

end

end Mono

/-! ## The first walk -/

/-- What the first walk over outlines does. -/
structure Walked (forest : List Outline) (state after : Building) : Prop where
  adds : state.Adds (hoistedOf forest) (letsOf forest) after
  kept : ∀ key, key ∉ keysOf forest → after.scopes.lookup key = state.scopes.lookup key
  fits : (keysOf forest).Nodup →
    FitsAll after.tree after.scopes state.tree.scopes.length state.current forest

theorem scopeBuilder_steady (shape : Node) (state : Building) :
    (scopeBuilder.enter shape state).1 ≠ .abort :=
  Control.noConfusion

theorem scopeBuilder_enter (shape : Node) (state : Building) :
    scopeBuilder.enter shape state = (.proceed, state.visit shape) :=
  rfl

/-- A node without a scope declares its names where it stands. -/
theorem visit_adds {state : Building} (hproper : state.Proper) {shape : Node}
    (hkey : shape.scopeKey? = none) :
    state.Adds shape.hoists shape.lets (state.visit shape) ∧
      (state.visit shape).scopes = state.scopes := by
  have hscopes : ∀ (blockScoped : Bool) (names : List String) (state : Building),
      (names.foldl (fun state name => state.declare blockScoped name) state).scopes =
        state.scopes := by
    intro blockScoped names
    induction names with
    | nil => exact fun _ => rfl
    | cons first rest ih => exact fun state => ih (state.declare blockScoped first)
  cases shape with
  | variableDecl kind declarators =>
      cases kind with
      | letKind => exact ⟨Building.foldl_declare_adds hproper true _, hscopes true _ state⟩
      | varKind => exact ⟨Building.foldl_declare_adds hproper false _, hscopes false _ state⟩
      | constKind => exact ⟨Building.foldl_declare_adds hproper false _, hscopes false _ state⟩
  | classDecl name => exact ⟨Building.declare_adds hproper false name.name, rfl⟩
  | function | block | catchClause => contradiction
  | _ => exact ⟨.refl hproper, rfl⟩

/-- A node with a scope declares its hoisted names where it stands and opens its scope then. -/
theorem visit_opens {state : Building} (hproper : state.Proper) {shape : Node} {key : ScopeKey}
    (hkey : shape.scopeKey? = some key) : ∃ middle names,
      state.Adds shape.hoists [] middle ∧ middle.scopes = state.scopes ∧
      middle.Opens key shape.isFunction names (state.visit shape) ∧
      ∀ parts name, name ∈ shape.declared parts ↔
        name ∈ names ∨ name ∈ if shape.isFunction then hoistedOf parts else letsOf parts := by
  cases shape with
  | function kind name params span =>
      obtain rfl := Option.some.inj hkey
      cases kind with
      | declaration =>
          cases name with
          | none =>
              exact ⟨state, _, .refl hproper, rfl, Building.openScope_opens hproper _ true _,
                by simp [Node.declared, Node.isFunction]⟩
          | some name =>
              have hadds := Building.declare_adds hproper false name.name
              exact ⟨_, _, hadds, rfl,
                Building.openScope_opens (hadds.proper hproper) _ true _,
                by simp [Node.declared, Node.isFunction]⟩
      | expression =>
          cases name with
          | none =>
              exact ⟨state, _, .refl hproper, rfl, Building.openScope_opens hproper _ true _,
                by simp [Node.declared, Node.isFunction]⟩
          | some name =>
              exact ⟨state, _, .refl hproper, rfl, Building.openScope_opens hproper _ true _,
                by simp [Node.declared, Node.isFunction, or_assoc]⟩
      | arrow | method =>
          exact ⟨state, _, .refl hproper, rfl, Building.openScope_opens hproper _ true _,
            by simp [Node.declared, Node.isFunction]⟩
  | block span =>
      obtain rfl := Option.some.inj hkey
      exact ⟨state, _, .refl hproper, rfl, Building.openScope_opens hproper _ false _,
        by simp [Node.declared, Node.isFunction]⟩
  | catchClause param span =>
      obtain rfl := Option.some.inj hkey
      refine ⟨state, _, .refl hproper, rfl, Building.openScope_opens hproper _ false _, ?_⟩
      cases param <;> simp [Node.declared, Node.isFunction]
  | _ => contradiction

theorem lets_of_scopeKey? {shape : Node} {key : ScopeKey} (hkey : shape.scopeKey? = some key) :
    shape.lets = [] := by
  cases shape <;> first | rfl | contradiction

namespace Walked

variable {state middle after : Building} {first : Outline} {rest parts : List Outline}
    {shape : Node}

theorem nil (hproper : state.Proper) : Walked [] state state :=
  ⟨.refl hproper, fun _ _ => rfl, fun _ => trivial⟩

/-- What is walked over later leaves the scopes alone that were opened before. -/
theorem cons (hproper : state.Proper) (hfirst : Walked [first] state middle)
    (hrest : Walked rest middle after) : Walked (first :: rest) state after where
  adds := by
    have hboth := hfirst.adds.trans hproper hrest.adds
    simpa [hoistedOf, letsOf] using hboth
  kept := fun key hkey => by
    rw [Outline.keysOf_cons, List.mem_append, not_or] at hkey
    rw [hrest.kept key hkey.2, hfirst.kept key hkey.1]
  fits := fun hnodup => by
    rw [Outline.keysOf_cons, List.nodup_append] at hnodup
    obtain ⟨hfirst', hrest', hapart⟩ := hnodup
    have hmiddle := hfirst.adds.proper hproper
    have hlow := hrest.fits hrest'
    rw [hfirst.adds.current] at hlow
    refine ⟨?_, FitsAll.mono (.refl _) hfirst.adds.grows.length (fun _ _ _ _ => rfl) rest _
      (fun _ _ => rfl) hlow⟩
    refine Fits.mono hrest.adds.grows (Nat.le_refl _) (fun id hle hlt => ?_) first _
      (fun key hkey => hrest.kept key fun hmem => hapart key hkey key hmem rfl)
      (hfirst.fits hfirst').1
    refine hrest.adds.declares_eq hmiddle ?_ hlt
    rw [hfirst.adds.current]
    exact Nat.lt_of_lt_of_le hproper.current hle

/-- A node without a scope. -/
theorem node (hproper : state.Proper) (hkey : shape.scopeKey? = none)
    (hparts : Walked parts (state.visit shape) after) :
    Walked [.node shape parts] state after := by
  obtain ⟨hadds, hscopes⟩ := visit_adds hproper hkey
  have hfunction : shape.isFunction = false := by cases shape <;> first | rfl | contradiction
  refine ⟨?_, fun key hmem => ?_, fun hnodup => ⟨?_, trivial⟩⟩
  · have hboth := hadds.trans hproper hparts.adds
    simpa [hoistedOf, letsOf, Outline.hoisted, Outline.lets, hfunction, hkey] using hboth
  · rw [hparts.kept key (fun hpart => hmem ?_), hscopes]
    rw [Outline.keysOf_node]
    exact List.mem_append_right _ hpart
  · rw [Outline.keysOf_node, hkey] at hnodup
    have hall := hparts.fits hnodup
    rw [hadds.current] at hall
    simp only [Fits, hkey]
    exact FitsAll.mono (.refl _) hadds.grows.length (fun _ _ _ _ => rfl) parts _ (fun _ _ => rfl)
      hall

/-- A node with a scope.  Its scope has all its names when it is left, and what it has hoisted out
of it has landed around it. -/
theorem scope {last : Building} {key : ScopeKey} (hproper : state.Proper)
    (hkey : shape.scopeKey? = some key)
    (hplain : shape.isFunction = true → letsOf parts = [])
    (hparts : Walked parts (state.visit shape) last) :
    Walked [.node shape parts] state (scopeBuilder.leave shape last) := by
  obtain ⟨middle, names, hadds, hscopes, hopens, hnames⟩ := visit_opens hproper hkey
  generalize state.visit shape = inner at hparts hopens
  have hmiddle := hadds.proper hproper
  have hinner := hopens.proper
  -- the walk goes back to where the scope was opened
  have hparent : last.tree.parent? inner.current = some state.current := by
    rw [hparts.adds.grows.parent _ hinner.current, hopens.parent, hadds.current]
  have hleave : scopeBuilder.leave shape last = { last with current := state.current } := by
    simp [scopeBuilder, hkey, hparts.adds.current, hparent]
  have hlets := lets_of_scopeKey? hkey
  have hbefore : ∀ id, id < state.tree.scopes.length → ∀ name,
      state.Lands (shape.hoists ++ if shape.isFunction then [] else hoistedOf parts) [] id name ↔
        state.Lands shape.hoists [] id name ∨
          inner.Lands (hoistedOf parts) (letsOf parts) id name := by
    intro id hlt name
    have hlt' := Nat.lt_of_lt_of_le hlt hadds.grows.length
    rw [hopens.lands_iff hlt', hadds.lands_iff hproper, ← Building.Lands.append, List.append_nil]
  have hroot := Nat.lt_of_le_of_lt (Nat.zero_le state.current) hproper.current
  have houtline : hoistedOf [.node shape parts] =
      shape.hoists ++ if shape.isFunction then [] else hoistedOf parts := by
    simp [hoistedOf, Outline.hoisted]
  have houtline' : letsOf [.node shape parts] = [] := by
    simp [letsOf, Outline.lets, hlets, hkey]
  rw [hleave]
  refine ⟨⟨rfl, hparts.adds.sound, (hadds.grows.trans hopens.grows).trans hparts.adds.grows,
    fun id hlt name => ?_, fun name => ?_⟩, fun other hmem => ?_, fun hnodup => ⟨?_, trivial⟩⟩
  · have hlt' := Nat.lt_of_lt_of_le hlt hadds.grows.length
    rw [houtline, houtline', hbefore id hlt, ← or_assoc, ← hadds.declares id hlt,
      ← hopens.declares id hlt',
      ← hparts.adds.declares id (Nat.lt_of_lt_of_le hlt' hopens.grows.length)]
  · rw [houtline, houtline', hbefore ScopeTree.root hroot, ← or_assoc, ← hadds.defines,
      ← hopens.defines, ← hparts.adds.defines]
  · rw [Outline.keysOf_node, hkey, List.mem_append, not_or] at hmem
    have hne : other ≠ key := by simpa using hmem.1
    rw [← hscopes, ← (hopens.lookup other).trans (if_neg hne)]
    exact hparts.kept other hmem.2
  · rw [Outline.keysOf_node, hkey] at hnodup
    obtain ⟨hkey', hnodup'⟩ := List.nodup_cons.mp hnodup
    simp only [Fits, hkey]
    refine ⟨inner.current, ?_, Nat.lt_of_lt_of_le hinner.current hparts.adds.grows.length, ?_,
      hparent, fun name => ?_, ?_⟩
    · exact hopens.current ▸ hadds.grows.length
    · rw [hparts.kept key hkey', hopens.lookup, if_pos rfl]
    · rw [hopens.declares_current hmiddle hparts.adds hplain, hnames]
    · exact FitsAll.mono (.refl _) (hadds.grows.trans hopens.grows).length
        (fun _ _ _ _ => rfl) parts
        _ (fun _ _ => rfl) (hparts.fits hnodup')

end Walked

mutual

theorem walked : ∀ (outline : Outline) (state : Building), state.Proper → outline.Plain →
    Walked [outline] state (scopeBuilder.run [outline] state)
  | .node shape parts, state, hproper, ⟨_, hplain, hparts⟩ => by
    rw [Visitor.run_node scopeBuilder_steady (scopeBuilder_enter shape state)]
    cases hkey : shape.scopeKey? with
    | none =>
        have hadds := (visit_adds hproper hkey).1
        have hall := walked_all parts (state.visit shape) (hadds.proper hproper) hparts
        have hleave : ∀ after, scopeBuilder.leave shape after = after := by
          simp [scopeBuilder, hkey]
        rw [hleave]
        exact .node hproper hkey hall
    | some key =>
        obtain ⟨middle, names, -, -, hopens, -⟩ := visit_opens hproper hkey
        exact .scope hproper hkey hplain
          (walked_all parts (state.visit shape) hopens.proper hparts)

/-- What the first walk does at all nodes of outlines. -/
theorem walked_all : ∀ (forest : List Outline) (state : Building), state.Proper →
    PlainAll forest → Walked forest state (scopeBuilder.run forest state)
  | [], _, hproper, _ => .nil hproper
  | first :: rest, state, hproper, ⟨hfirst, hrest⟩ => by
    have hmiddle := walked first state hproper hfirst
    rw [Visitor.run_cons scopeBuilder_steady]
    exact .cons hproper hmiddle (walked_all rest _ (hmiddle.adds.proper hproper) hrest)

end

/-- What the first walk does in a top-level statement. -/
theorem walked_item (item : Item) {state : Building} (hproper : state.Proper) :
    Walked item.outline state (scopeBuilder.run item.outline state) := by
  by_cases himport : ∃ specifiers text, item.form = .importDecl specifiers text
  · obtain ⟨specifiers, text, hform⟩ := himport
    obtain ⟨parts, houtline, hparts⟩ := Item.outline_importDecl hform
    rw [houtline, Visitor.run_node scopeBuilder_steady (scopeBuilder_enter _ state)]
    exact .node hproper rfl (walked_all parts state hproper hparts)
  · exact walked_all item.outline state hproper
      (Item.plain fun specifiers text hform => himport ⟨specifiers, text, hform⟩)

/-! ## All statements -/

/-- Whether a statement defines what is declared outside of all its scopes, and its scopes fit its
nodes. -/
structure Statement.Scoped (tree : ScopeTree) (statement : Statement) : Prop where
  defines : ∀ name, name ∈ statement.defines ↔
    name ∈ hoistedOf statement.outline ∨ name ∈ letsOf statement.outline
  fits : (keysOf statement.outline).Nodup →
    FitsAll tree statement.scopes 1 ScopeTree.root statement.outline

/-- What the first walks over statements do to the scopes of a module. -/
structure Scoping (tree : ScopeTree) (statements : List Statement) (after : ScopeTree) : Prop where
  sound : after.Sound
  grows : tree.Grows after
  root : ∀ name, after.declares ScopeTree.root name = true ↔
    tree.declares ScopeTree.root name = true ∨ ∃ statement ∈ statements, name ∈ statement.defines
  inner : ∀ id, 1 ≤ id → id < tree.scopes.length → ∀ name,
    after.declares id name = tree.declares id name
  fits : ∀ statement ∈ statements, statement.Scoped after

/-- At the top level everything lands there. -/
theorem Building.lands_root {state : Building} (hroot : state.current = ScopeTree.root)
    {hoists lets : List String} {name : String} :
    state.Lands hoists lets ScopeTree.root name ↔ name ∈ hoists ∨ name ∈ lets := by
  simp [Building.Lands, hroot, ScopeTree.landing_root]

theorem buildScopes_scoping (source : List Char) (index : Nat) (placed : List Placed)
    {tree : ScopeTree} (hsound : tree.Sound) :
    Scoping tree (buildScopes source index placed tree).1
      (buildScopes source index placed tree).2 := by
  induction placed generalizing index tree with
  | nil =>
      exact ⟨hsound, .refl tree, by simp [buildScopes], fun _ _ _ _ => rfl, by simp [buildScopes]⟩
  | cons first rest ih =>
      have hproper : Building.Proper ⟨tree, ScopeTree.root, [], []⟩ := ⟨hsound, hsound.root_lt⟩
      have hfirst := walked_item first.item hproper
      rw [buildScopes]
      dsimp only
      generalize scopeBuilder.run first.item.outline ⟨tree, ScopeTree.root, [], []⟩ =
        built at hfirst
      have hrest := ih (index + 1) hfirst.adds.sound
      have hdefines : ∀ name, name ∈ built.defines ↔
          name ∈ hoistedOf first.item.outline ∨ name ∈ letsOf first.item.outline := by
        intro name
        rw [hfirst.adds.defines, Building.lands_root rfl]
        simp
      refine ⟨hrest.sound, hfirst.adds.grows.trans hrest.grows, fun name => ?_,
        fun id hle hlt name => ?_,
        List.forall_mem_cons.mpr ⟨⟨hdefines, fun hnodup => ?_⟩, hrest.fits⟩⟩
      · rw [hrest.root, hfirst.adds.declares _ hsound.root_lt, Building.lands_root rfl, ← hdefines,
          or_assoc, List.exists_mem_cons_iff]
      · rw [hrest.inner id hle (Nat.lt_of_lt_of_le hlt hfirst.adds.grows.length) name,
          hfirst.adds.declares_eq hproper hle hlt]
      · exact FitsAll.mono hrest.grows hsound.root_lt
          (fun id hle => hrest.inner id (Nat.le_trans hsound.root_lt hle)) _ _ (fun _ _ => rfl)
          (hfirst.fits hnodup)

/-- No two nodes of a statement open a scope under one key. -/
theorem keysOf_nodup {source : List Char} {item : Item} (harranged : item.Arranged source) :
    (keysOf item.outline).Nodup := by
  cases hstart : item.codeStart? with
  | some start => exact (harranged start hstart).2.2.2.keysOf_nodup
  | none =>
      have hnames : ∀ ids : List Ident,
          (keysOf (ids.map fun id => .leaf (.ident id))).Nodup := by
        intro ids
        induction ids with
        | nil => exact .nil
        | cons first rest ih => exact ih
      unfold Item.codeStart? at hstart
      split at hstart <;> try contradiction
      · rename_i specifiers text hform
        have hids := hnames (specifiers.map ImportSpecifier.binding)
        rw [List.map_map] at hids
        simp only [Item.outline, hform, Outline.keysOf_node]
        exact hids
      · rename_i specifiers text hform
        obtain ⟨ids, hids, -⟩ := exportList_outline hform
        rw [hids]
        exact hnames ids
      · rename_i text hform
        simp [Item.outline, hform, keysOf, Outline.sitesOf]

/-- Second walks do not change what first walks have left. -/
theorem Scoping.collected {tree after : ScopeTree} {statements : List Statement}
    (hscoping : Scoping tree statements after) :
    Scoping tree (statements.map (collectDependencies after)) after where
  sound := hscoping.sound
  grows := hscoping.grows
  root := fun name => by simp [hscoping.root, collectDependencies]
  inner := hscoping.inner
  fits := List.forall_mem_map.mpr fun statement hmem =>
    ⟨(hscoping.fits statement hmem).defines, (hscoping.fits statement hmem).fits⟩

/-- The scopes of a module that has been read fit the nodes of its statements. -/
theorem ofSource_scoping {path : Files.Path} {source : List Char} {module : Module}
    (hsource : Module.ofSource path source = .ok module) :
    Scoping .empty module.statements module.scopes ∧
      ∀ statement ∈ module.statements,
        FitsAll module.scopes statement.scopes 1 ScopeTree.root statement.outline := by
  obtain ⟨tree, hparse, rfl⟩ := ofSource_eq_ofTree hsource
  have hscoping : Scoping .empty (ofTree path source tree).statements
      (ofTree path source tree).scopes :=
    (buildScopes_scoping source 0 (place source tree.items tree.comments)
      ScopeTree.empty_sound).collected
  refine ⟨hscoping, fun statement hmem => (hscoping.fits statement hmem).fits ?_⟩
  obtain ⟨entry, hentry, hfrom⟩ := exists_mem_of_forall₂ (ofTree_statements path source tree) hmem
  rw [hfrom.outline]
  exact keysOf_nodup (parse_arranged hparse entry.1 (List.fst_mem_of_mem_zipIdx hentry))

end Module
end ScriptBundler

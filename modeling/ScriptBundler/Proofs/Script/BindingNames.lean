import ScriptBundler.Proofs.Script.Modules
import ScriptBundler.Proofs.Script.Scanning

/-!
# Names that strict code can bind

The parser goes on after some names that nothing can be bound to, and only notes a fault.  So what
an import declaration binds is a proper name if no fault has been noted when the parser is done.
Every step says what it gives on that condition, and a fault that is noted stays.
-/

namespace ScriptBundler
namespace Script

open Std.Do

set_option mvcgen.warning false

/-- Whether strict code cannot bind a word, because it means something else there. -/
def isUnbindable (word : String) : Bool :=
  isReserved word || Parser.isFutureWord word || Parser.isRestricted word

/-- Whether strict code can bind a name: it is spelled like one, and means nothing else. -/
def isBindingName (name : String) : Bool :=
  isName name.toList && !isUnbindable name

/-- Whether an import specifier binds a name, or a word that its source can export. -/
@[grind =] def ImportSpecifier.Sound : ImportSpecifier → Prop
  | .named none id => isName id.name.toList = true ∧ isReserved id.name = false
  | .named (some _) id | .byDefault id | .everything id => isBindingName id.name = true

/-- What a top-level statement imports by an import declaration. -/
@[grind =] def ItemForm.imported : ItemForm → List ImportSpecifier
  | .importDecl specifiers _ => specifiers
  | _ => []

namespace Parser

open Mark

variable {mark after : Mark}

/-- Whether the current token, if it is a word, is spelled like a name. -/
def Mark.Worded (mark : Mark) : Prop :=
  ∀ name escaped, mark.current.token = .word name escaped → isName name.toList = true

@[grind →] theorem Mark.Leads.worded (hleads : Leads mark after) (hworded : mark.Worded) :
    after.Worded := by
  induction hleads with
  | refl => exact hworded
  | tail _ hstep ih =>
      cases hstep with
      | complain => exact ih
      | move start hends =>
          intro name escaped hword
          exact (nextLexeme_right _ false).scanned.named hword

theorem ofSource_worded (source : List Char) : (State.ofSource source).mark.Worded :=
  fun _ _ hword => (nextLexeme_right _ true).scanned.named hword

/-- Whether a step of the parser gives something of which a property holds, unless a fault has been
noted by then. -/
abbrev Assures {α : Type} (s : State) (step : Parser α) (holds : α → Prop) : Prop :=
  ⦃fun _ state => ⌜state = s⌝⦄ step
  ⦃⇓? value _ state => ⌜Leads s.mark state.mark ∧
    (s.mark.Worded → state.mark.faulty = false → holds value)⌝⦄

variable {α : Type} (s : State)

theorem loop_assures {stop : Parser Bool} {step : Parser α} {holds : α → Prop}
    (hround : ∀ s, Assures s (round stop step) fun found => ∀ value ∈ found, holds value)
    (rounds : Nat) :
    Assures s (repeatUntil.loop stop step rounds) fun values => ∀ value ∈ values, holds value := by
  induction rounds generalizing s with
  | zero =>
      mvcgen [repeatUntil.loop]
      grind -ring -linarith
  | succ rounds ih =>
      rw [loop_succ]
      mvcgen [hround, ih, -round] <;> grind -ring -linarith

theorem repeatUntil_assures {stop : Parser Bool} {step : Parser α} {holds : α → Prop}
    (hround : ∀ s, Assures s (round stop step) fun found => ∀ value ∈ found, holds value) :
    Assures s (repeatUntil stop step) fun values => ∀ value ∈ values, holds value := by
  have hloop := fun rounds s => loop_assures s hround rounds
  mvcgen [repeatUntil, hloop, -repeatUntil_leads]

theorem commaList_assures (close : String) {step : Parser α} {holds : α → Prop}
    (hstep : ∀ s, Assures s step holds) :
    Assures s (commaList close step) fun result => ∀ value ∈ result.1, holds value := by
  have hrounds : ∀ s stop (step : Parser (α × Option Nat)),
      (∀ s, Assures s (round stop step) fun found => ∀ element ∈ found, holds element.1) →
      Assures s (repeatUntil stop step) fun elements => ∀ element ∈ elements, holds element.1 :=
    fun s _ _ hround => repeatUntil_assures s hround
  mvcgen [commaList, hstep, hrounds, -repeatUntil_leads, -commaList_moves] <;> grind -ring -linarith

/-! ## Import declarations -/

theorem identifier_assures :
    ⦃fun _ state => ⌜state = s⌝⦄ identifier
    ⦃⇓? id _ state => ⌜Moves s.mark state.mark ∧ (s.mark.Worded → state.mark.faulty = false →
      isName id.name.toList = true ∧ isReserved id.name = false ∧
        isFutureWord id.name = false)⌝⦄ := by
  refine triple_of fun holds hholds => ?_
  mvcgen [identifier, -identifier_advances] <;> grind -ring -linarith [Mark.Worded]

theorem bindingIdentifier_assures :
    ⦃fun _ state => ⌜state = s⌝⦄ bindingIdentifier
    ⦃⇓? id _ state => ⌜Moves s.mark state.mark ∧
      (s.mark.Worded → state.mark.faulty = false → isBindingName id.name = true)⌝⦄ := by
  have hidentifier := identifier_assures
  refine triple_of fun holds hholds => ?_
  mvcgen [bindingIdentifier, hidentifier, -bindingIdentifier_advances, -identifier_advances] <;>
    grind -ring -linarith [isBindingName, isUnbindable]

/-- A name in a list is a word or stands in quotes. -/
theorem moduleName_assures :
    ⦃fun _ state => ⌜state = s⌝⦄ moduleName
    ⦃⇓? name _ state => ⌜Moves s.mark state.mark ∧
      (s.mark.Worded → ∀ id, name = .ident id → isName id.name.toList = true)⌝⦄ := by
  refine triple_of fun holds hholds => ?_
  mvcgen [moduleName, identifierName, -moduleName_advances, -identifierName_advances] <;>
    grind -ring -linarith [Mark.Worded]

theorem importName_assures : Assures s importName ImportSpecifier.Sound := by
  have hname := moduleName_assures
  have hidentifier := bindingIdentifier_assures
  mvcgen [importName, hname, hidentifier, -importName_advances, -moduleName_advances,
    -bindingIdentifier_advances] <;> grind -ring -linarith

theorem importNames_assures :
    Assures s importNames fun names => ∀ specifier ∈ names, specifier.Sound := by
  have hidentifier := bindingIdentifier_assures
  have hlist := fun s => commaList_assures s "\x7d" importName_assures
  mvcgen [importNames, hidentifier, hlist, -importNames_leads, -bindingIdentifier_advances,
    -commaList_moves] <;> grind -ring -linarith

theorem importDeclaration_assures (hproper : s.current.token.isProper = true) :
    Assures s importDeclaration fun form => ∀ specifier ∈ form.imported, specifier.Sound := by
  have hidentifier := bindingIdentifier_assures
  have hnames := importNames_assures
  mvcgen [importDeclaration, hidentifier, hnames, -importDeclaration_advances,
    -bindingIdentifier_advances, -importNames_leads] <;> grind -ring -linarith

/-! ## Other statements -/

/-- Whether a step of the parser does not go back, and gives no import declaration. -/
abbrev Foreign (s : State) (step : Parser ItemForm) : Prop :=
  ⦃fun _ state => ⌜state = s⌝⦄ step
  ⦃⇓? form _ state => ⌜Leads s.mark state.mark ∧ form.imported = []⌝⦄

theorem exportList_foreign : Foreign s exportList := by
  mvcgen [exportList, -exportList_advances] <;> grind -ring -linarith

theorem exportEverything_foreign : Foreign s exportEverything := by
  mvcgen [exportEverything, -exportEverything_advances] <;> grind -ring -linarith

variable {g : Grammar} (hg : g.Advancing)

include hg

theorem exportDefault_foreign : Foreign s (exportDefault g) := by
  mvcgen [exportDefault, -exportDefault_advances] <;> grind -ring -linarith

theorem exportDeclaration_foreign (hproper : s.current.token.isProper = true) :
    Foreign s (exportDeclaration g) := by
  have hlist := exportList_foreign
  have heverything := exportEverything_foreign
  have hdefault := fun s => exportDefault_foreign s hg
  refine triple_of fun holds hholds => ?_
  mvcgen [exportDeclaration, hlist, heverything, hdefault, -exportDeclaration_advances,
    -exportList_advances, -exportEverything_advances, -exportDefault_advances] <;>
    grind -ring -linarith

/-- What a top-level statement imports can be bound, unless a fault has been noted. -/
theorem moduleItem_assures :
    Assures s (moduleItem g) fun item => ∀ specifier ∈ item.form.imported, specifier.Sound := by
  have himport := importDeclaration_assures
  have hexport := fun s => exportDeclaration_foreign s hg
  mvcgen [moduleItem, himport, hexport, -moduleItem_advances, -importDeclaration_advances,
    -exportDeclaration_advances] <;> grind -ring -linarith

theorem module_assures : Assures s (module g) fun items =>
    ∀ item ∈ items, ∀ specifier ∈ item.form.imported, specifier.Sound := by
  have hitem := fun s => moduleItem_assures s hg
  refine repeatUntil_assures s fun s => ?_
  mvcgen [round, hitem, -moduleItem_advances] <;> grind -ring -linarith

end Parser

/-- What the import declarations of a module that has been parsed bind are proper names. -/
theorem parse_sound {source : List Char} {tree : Tree} (hparse : parse source = .ok tree) :
    ∀ item ∈ tree.items, ∀ specifier ∈ item.form.imported, specifier.Sound := by
  unfold parse at hparse
  dsimp only at hparse
  split at hparse
  · contradiction
  · rename_i items state hrun
    split at hparse
    · contradiction
    · rename_i hfault
      obtain rfl := Except.ok.inj hparse
      have hitems := Parser.of_triple
        (Parser.module_assures (.ofSource source) (Parser.grammarOfDepth_advancing _)) hrun
      refine hitems.2 (Parser.ofSource_worded source) ?_
      rw [Parser.State.mark, hfault]
      rfl

end Script
end ScriptBundler

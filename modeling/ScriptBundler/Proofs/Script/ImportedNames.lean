import ScriptBundler.Script.Outline
import ScriptBundler.Script.Parser.Module

/-!
# Names that import declarations bind

An import declaration binds identifiers, and `default` is none.  Only an export list with a source
can put `default` into the table of imports.

The parser reads import declarations in one place.  What a step of the parser yields is taken apart
along the steps that it is put together from.
-/

namespace ScriptBundler
namespace Script
namespace Parser

variable {α β : Type} {holds : α → Prop}

/-- Whether what a step of the parser gives has a property, whenever it gives something. -/
def Yields (holds : α → Prop) (step : Parser α) : Prop :=
  ∀ setting state value after, step setting state = .ok (value, after) → holds value

theorem yields_pure {value : α} (hvalue : holds value) : Yields holds (pure value) := by
  intro setting state found after hrun
  obtain ⟨rfl, -⟩ := Prod.mk.inj (Except.ok.inj hrun)
  exact hvalue

theorem yields_throw (offset : Nat) : Yields holds (throw offset) := by
  intro setting state value after hrun
  contradiction

theorem yields_bind_of (inner : β → Prop) {first : Parser β} {next : β → Parser α}
    (hfirst : Yields inner first) (hnext : ∀ value, inner value → Yields holds (next value)) :
    Yields holds (first >>= next) := by
  intro setting state value after hrun
  change (first setting state >>= fun result => next result.1 setting result.2) =
    .ok (value, after) at hrun
  cases hresult : first setting state with
  | error offset =>
      rw [hresult] at hrun
      contradiction
  | ok result =>
      obtain ⟨found, middle⟩ := result
      rw [hresult] at hrun
      exact hnext found (hfirst setting state found middle hresult) setting middle value after hrun

/-- A step whose last part yields the property whatever comes before. -/
theorem yields_bind {first : Parser β} {next : β → Parser α}
    (hnext : ∀ value, Yields holds (next value)) : Yields holds (first >>= next) :=
  yields_bind_of (fun _ => True) (fun _ _ _ _ _ => trivial) fun value _ => hnext value

theorem yields_refuse (offset : Nat) : Yields holds (refuse offset : Parser α) := by
  unfold refuse
  refine yields_bind fun found => ?_
  split <;> exact yields_throw _

theorem yields_unexpected : Yields holds (unexpected : Parser α) := by
  unfold unexpected
  refine yields_bind fun found => ?_
  split
  · exact yields_bind fun _ => yields_throw _
  · exact yields_bind fun offset => yields_refuse offset

theorem yields_repeatUntil {stop : Parser Bool} {step : Parser α} (hstep : Yields holds step) :
    Yields (fun values => ∀ value ∈ values, holds value) (repeatUntil stop step) := by
  have hloop : ∀ rounds, Yields (fun values => ∀ value ∈ values, holds value)
      (repeatUntil.loop stop step rounds) := by
    intro rounds
    induction rounds with
    | zero => exact yields_unexpected
    | succ rounds ih =>
        unfold repeatUntil.loop
        refine yields_bind fun stopped => ?_
        split
        · exact yields_pure (by simp)
        · refine yields_bind_of _ hstep fun first hfirst => yields_bind_of _ ih fun rest hrest => ?_
          exact yields_pure (List.forall_mem_cons.mpr ⟨hfirst, hrest⟩)
  exact yields_bind fun setting => hloop setting.budget

theorem yields_commaList {close : String} {step : Parser α} (hstep : Yields holds step) :
    Yields (fun result => ∀ value ∈ result.1, holds value) (commaList close step) := by
  unfold commaList
  refine yields_bind_of (fun elements => ∀ element ∈ elements, holds element.1)
    (yields_repeatUntil ?_) fun elements helements => yields_bind fun _ => yields_pure ?_
  · refine yields_bind_of _ hstep fun element helement => yields_bind fun closes => ?_
    split
    · exact yields_pure helement
    · exact yields_bind fun _ => yields_bind fun _ => yields_pure helement
  · intro value hvalue
    obtain ⟨element, helement, rfl⟩ := List.mem_map.mp hvalue
    exact helements element helement

/-! ## Import declarations -/

/-- An identifier is not `default`. -/
theorem yields_identifier : Yields (fun id => id.name ≠ "default") identifier := by
  unfold identifier
  refine yields_bind fun _ => yields_bind fun found => ?_
  split
  · rename_i name escaped
    refine yields_bind fun state => ?_
    dsimp only
    by_cases hname : name = "default"
    · have hfuture : isFutureWord name = false := by rw [hname]; decide
      have hreserved : isReserved name = true := by rw [hname]; decide
      rw [hfuture, hreserved]
      exact yields_bind_of (fun _ => False) (yields_refuse _) fun _ h => h.elim
    · have hlast : Yields (fun id : Ident => id.name ≠ "default") (do
          advance
          pure ⟨name, state.current.span⟩) :=
        yields_bind fun _ => yields_pure hname
      have hrest : Yields (fun id : Ident => id.name ≠ "default") (do
          let setting ← read
          if name == "arguments" && setting.inField then
            refuse state.current.span.start
            advance
            pure ⟨name, state.current.span⟩
          else
            advance
            pure ⟨name, state.current.span⟩) := by
        refine yields_bind fun setting => ?_
        split
        · exact yields_bind fun _ => hlast
        · exact hlast
      split
      · exact yields_bind fun _ => hrest
      · split
        · exact yields_bind fun _ => hrest
        · exact hrest
  · exact yields_unexpected

theorem yields_bindingIdentifier : Yields (fun id => id.name ≠ "default") bindingIdentifier := by
  unfold bindingIdentifier
  refine yields_bind_of _ yields_identifier fun id hid => ?_
  split
  · exact yields_bind fun _ => yields_pure hid
  · exact yields_pure hid

theorem yields_importName :
    Yields (fun specifier => specifier.binding.name ≠ "default") importName := by
  unfold importName
  refine yields_bind fun start => yields_bind fun name => yields_bind fun renamed => ?_
  split
  · exact yields_bind_of _ yields_bindingIdentifier fun id hid => yields_pure hid
  · split
    · rename_i id
      split
      · exact yields_refuse start
      · rename_i hreserved
        -- a name that is bound as it is exported must not be reserved
        refine yields_pure fun hdefault => hreserved ?_
        rw [show id.name = "default" from hdefault]
        decide
    · exact yields_refuse start

/-- Whether no import specifier of a list binds `default`. -/
def SparingDefault (specifiers : List ImportSpecifier) : Prop :=
  ∀ specifier ∈ specifiers, specifier.binding.name ≠ "default"

theorem yields_importNames : Yields SparingDefault importNames := by
  unfold importNames
  refine yields_bind fun star => ?_
  split
  · refine yields_bind fun _ => yields_bind_of _ yields_bindingIdentifier fun id hid => ?_
    exact yields_pure (by simpa [SparingDefault, ImportSpecifier.binding] using hid)
  · refine yields_bind fun list => ?_
    split
    · exact yields_bind_of _ (yields_commaList yields_importName) fun result hresult =>
        yields_pure hresult
    · exact yields_pure (by simp [SparingDefault])

/-- Whether a statement is no import declaration that binds `default`. -/
def SparesDefault (form : ItemForm) : Prop :=
  ∀ specifiers source, form = .importDecl specifiers source → SparingDefault specifiers

theorem sparesDefault_importDecl {specifiers : List ImportSpecifier} (source : String)
    (hspecifiers : SparingDefault specifiers) : SparesDefault (.importDecl specifiers source) := by
  rintro _ _ hform
  obtain ⟨rfl, -⟩ := ItemForm.importDecl.inj hform
  exact hspecifiers

theorem yields_importDeclaration : Yields SparesDefault importDeclaration := by
  unfold importDeclaration
  -- what comes after the default import, if there is one
  have hlast : ∀ byDefault, SparingDefault byDefault → ∀ names, SparingDefault names →
      Yields SparesDefault (do
        expectWord "from"
        let source ← sourceText
        pure (.importDecl (byDefault ++ names) source)) := by
    intro byDefault hbyDefault names hnames
    refine yields_bind fun _ => yields_bind fun source => yields_pure ?_
    refine sparesDefault_importDecl source fun specifier hspecifier => ?_
    exact (List.mem_append.mp hspecifier).elim (hbyDefault specifier) (hnames specifier)
  have hnames : ∀ byDefault, SparingDefault byDefault → ∀ more : Bool,
      Yields SparesDefault (if more = true then do
          let names ← importNames
          expectWord "from"
          let source ← sourceText
          pure (.importDecl (byDefault ++ names) source)
        else do
          let names ← pure []
          expectWord "from"
          let source ← sourceText
          pure (.importDecl (byDefault ++ names) source)) := by
    intro byDefault hbyDefault more
    split
    · exact yields_bind_of _ yields_importNames (hlast byDefault hbyDefault)
    · exact yields_bind_of SparingDefault (yields_pure (by simp [SparingDefault]))
        (hlast byDefault hbyDefault)
  refine yields_bind fun _ => yields_bind fun _ => yields_bind fun found => ?_
  split
  · refine yields_bind fun _ => yields_bind fun _ => yields_pure ?_
    exact sparesDefault_importDecl _ (by simp [SparingDefault])
  · refine yields_bind fun word => ?_
    dsimp only
    split
    · refine yields_bind_of _ yields_bindingIdentifier fun id hid =>
        yields_bind_of SparingDefault (yields_pure ?_) fun byDefault hbyDefault => ?_
      · simpa [SparingDefault, ImportSpecifier.binding] using hid
      · split <;> exact yields_bind (hnames byDefault hbyDefault)
    · refine yields_bind_of SparingDefault (yields_pure (by simp [SparingDefault]))
        fun byDefault hbyDefault => ?_
      split <;> exact yields_bind (hnames byDefault hbyDefault)

/-! ## Other declarations -/

theorem yields_exportList : Yields SparesDefault exportList := by
  unfold exportList
  refine yields_bind fun _ => yields_bind fun names => ?_
  dsimp only
  refine yields_bind fun reexports => ?_
  split
  · exact yields_bind fun source => yields_pure (by rintro _ _ ⟨⟩)
  · exact yields_bind fun _ => yields_bind fun _ => yields_pure (by rintro _ _ ⟨⟩)

theorem yields_exportEverything : Yields SparesDefault exportEverything := by
  unfold exportEverything
  refine yields_bind fun named => ?_
  split
  · exact yields_bind fun name => yields_bind fun _ => yields_bind fun source =>
      yields_pure (by rintro _ _ ⟨⟩)
  · exact yields_bind fun _ => yields_bind fun source => yields_pure (by rintro _ _ ⟨⟩)

theorem yields_exportDefault (g : Grammar) : Yields SparesDefault (exportDefault g) := by
  unfold exportDefault
  refine yields_bind fun start => yields_bind fun isClass => ?_
  split
  · refine yields_bind fun _ => yields_bind fun name => yields_bind fun rest => ?_
    exact yields_bind fun span => yields_pure (by rintro _ _ ⟨⟩)
  · have hrest : ∀ isAsync : Bool, Yields SparesDefault (do
        if isAsync || (← isWord "function") then
          let head ← functionHead g start isAsync optionalName
          pure (.exportDefaultFunction head.1 head.2)
        else
          let value ← g.value
          expectSemicolon
          pure (.exportDefaultExpr value)) := by
      intro isAsync
      refine yields_bind fun isFunction => ?_
      split
      · exact yields_bind fun head => yields_pure (by rintro _ _ ⟨⟩)
      · exact yields_bind fun value => yields_bind fun _ => yields_pure (by rintro _ _ ⟨⟩)
    refine yields_bind fun isAsync => ?_
    dsimp only
    split
    · exact yields_bind fun _ => hrest isAsync
    · exact hrest isAsync

theorem yields_exportDeclaration (g : Grammar) : Yields SparesDefault (exportDeclaration g) := by
  unfold exportDeclaration
  refine yields_bind fun _ => yields_bind fun _ => yields_bind fun start =>
    yields_bind fun star => ?_
  have hdeclaration : ∀ declaration : Parser Stmt,
      Yields SparesDefault (do pure (.exportDecl (← declaration))) :=
    fun declaration => yields_bind fun _ => yields_pure (by rintro _ _ ⟨⟩)
  split
  · exact yields_exportEverything
  refine yields_bind fun isDefault => ?_
  split
  · exact yields_exportDefault g
  refine yields_bind fun isClass => ?_
  split
  · exact hdeclaration _
  refine yields_bind fun isFunction => ?_
  split
  · exact hdeclaration _
  refine yields_bind fun isAsync => ?_
  split
  · exact yields_bind fun _ => hdeclaration _
  refine yields_bind fun word => ?_
  split
  · exact hdeclaration _
  · exact hdeclaration _
  · exact hdeclaration _
  · exact yields_exportList

/-- No statement of a module is an import declaration that binds `default`. -/
theorem yields_moduleItem (g : Grammar) :
    Yields (fun item => SparesDefault item.form) (moduleItem g) := by
  unfold moduleItem
  have hitem : ∀ start form, SparesDefault form →
      Yields (fun item : Item => SparesDefault item.form) (do
        settlePending start
        let span ← spanFrom start
        pure ⟨form, span⟩) :=
    fun start form hform => yields_bind fun _ => yields_bind fun _ => yields_pure hform
  have hstatement : ∀ start, Yields (fun item : Item => SparesDefault item.form) (do
      let body ← g.statement true
      let form ← pure (.statement body)
      settlePending start
      let span ← spanFrom start
      pure ⟨form, span⟩) := by
    refine fun start => yields_bind fun body => ?_
    exact yields_bind_of _ (yields_pure (by rintro _ _ ⟨⟩)) (hitem start)
  refine yields_bind fun start => yields_bind fun isImport => yields_bind fun isExport => ?_
  dsimp only
  split
  · refine yields_bind fun next => ?_
    split
    · exact hstatement start
    · exact hstatement start
    · exact yields_bind_of _ yields_importDeclaration (hitem start)
  · split
    · exact yields_bind_of _ (yields_exportDeclaration g) (hitem start)
    · exact hstatement start

end Parser

/-- No import declaration of a module that is parsed binds `default`. -/
theorem parse_sparesDefault {source : List Char} {tree : Tree} (hparse : parse source = .ok tree) :
    ∀ item ∈ tree.items, Parser.SparesDefault item.form := by
  unfold parse at hparse
  dsimp only at hparse
  split at hparse
  · contradiction
  · rename_i items state hrun
    split at hparse
    · contradiction
    · obtain rfl := Except.ok.inj hparse
      exact Parser.yields_repeatUntil (Parser.yields_moduleItem _) _ _ _ _ hrun

end Script
end ScriptBundler

import ScriptBundler.Proofs.Output.Rewriting

/-!
# Names that the language binds in a statement

A name that nothing in a statement binds is one that the statement depends on or defines, and one
that something in the statement binds is not to be replaced when it is rendered.  This holds for all
names but strays: what `let` declares in the head of a loop or in a `switch` is declared in the
function, block or catch clause around that, or at the top level, and the name of a class expression
is declared nowhere.  For a stray it is a matter of luck.
-/

namespace ScriptBundler

open Files Script ScriptBundler.Module Text

theorem Script.Spot.place?_of_name? {spot : Spot} {id : Ident} (hname : spot.name? = some id) :
    ∃ shape isShorthand, spot.place? = some ⟨shape, spot.taken⟩ ∧
      shape.name? = some (id, isShorthand) := by
  obtain ⟨region, bound, taken⟩ := spot
  rcases region with ⟨_⟩ | _ | _ | _ <;> first | contradiction | skip
  rename_i shape
  cases shape <;> first | contradiction | skip
  all_goals
    obtain rfl := Option.some.inj hname
    exact ⟨_, _, rfl, rfl⟩

namespace Assembly

variable {graph : Graph} {id : Nat} {module : Module} {statement : Statement} {draft final : Draft}
  {snippet : Snippet} {spot : Spot} {ident : Ident}

/-- Whether a name in a statement is treated as the language has it.  If nothing in the statement
binds it, the statement depends on it or defines it; and if something does, it is not replaced when
the statement is rendered in a draft. -/
def Honours (graph : Graph) (id : Nat) (module : Module) (statement : Statement) (draft : Draft)
    (spot : Spot) : Prop :=
  ∀ ident ∈ spot.name?,
    (ident.name ∉ spot.bound → ident.name ∈ statement.dependsOn ++ statement.defines) ∧
    (ident.name ∈ spot.bound →
      ∀ rewrite, Rewrites graph id module statement draft rewrite → rewrite.occurrence.id ≠ ident)

/-- Whether no harm comes from a name that only the language binds, or only the outline.  It is
among what the statement depends on or defines all the same, or its canonical name is the name
itself. -/
def Harmless (id : Nat) (statement : Statement) (naming : Naming) (spot : Spot) : Prop :=
  ∀ ident ∈ spot.name?,
    (ident.name ∉ spot.bound → ident.name ∈ spot.taken →
      ident.name ∈ statement.dependsOn ++ statement.defines) ∧
    (ident.name ∈ spot.bound → ident.name ∉ spot.taken →
      naming.get? id ident.name = some ident.name)

instance (id : Nat) (statement : Statement) (naming : Naming) (spot : Spot) :
    Decidable (Harmless id statement naming spot) :=
  inferInstanceAs (Decidable (∀ ident ∈ spot.name?,
    (ident.name ∉ spot.bound → ident.name ∈ spot.taken →
      ident.name ∈ statement.dependsOn ++ statement.defines) ∧
    (ident.name ∈ spot.bound → ident.name ∉ spot.taken →
      naming.get? id ident.name = some ident.name)))

/-! ## Names as the outline takes them -/

/-- A name is one of the top level for renaming and for the second walk if the outline does not take
it to be bound. -/
theorem exists_reference {source : List Char} {tree : ScopeTree} {item : Item}
    (hread : statement.Read source tree item) (hspot : spot ∈ statement.spots)
    (hname : spot.name? = some ident) :
    ∃ isShorthand, ⟨ident, isShorthand, decide (ident.name ∉ spot.taken)⟩ ∈
      Outline.references [] item.outline := by
  obtain ⟨shape, isShorthand, hplace, hshape⟩ := Spot.place?_of_name? hname
  have hmem : ⟨shape, spot.taken⟩ ∈ Outline.placesOf [] item.outline :=
    hread.places_spots ▸ List.mem_filterMap.mpr ⟨spot, hspot, hplace⟩
  exact ⟨isShorthand, List.mem_filterMap.mpr ⟨_, hmem, by simp [Place.reference?, hshape]⟩⟩

theorem mem_of_not_taken {source : List Char} {tree : ScopeTree} {item : Item}
    (hread : statement.Read source tree item) (hspot : spot ∈ statement.spots)
    (hname : spot.name? = some ident) (hfree : ident.name ∉ spot.taken) :
    ident.name ∈ statement.dependsOn ++ statement.defines := by
  obtain ⟨isShorthand, hreference⟩ := exists_reference hread hspot hname
  exact hread.mem_of_isTopLevel hreference (decide_eq_true hfree)

/-- What is replaced is in a statement that has a text. -/
theorem exists_render_of_rewrites {item : Item}
    (hread : statement.Read module.source module.scopes item) {rewrite : Rewrite}
    (hrewrite : Rewrites graph id module statement draft rewrite) :
    ∃ snippet final, (renderStatement graph id module statement).run draft =
      .ok (some snippet) final := by
  obtain ⟨stripped, middle, table, final, hstrip, htable, -⟩ := hrewrite
  have hrun : (renderStatement graph id module statement).run draft =
      ((some ∘ Snippet.trim) <$> edited
        (renameWithin module.scopes statement table stripped)).run final :=
    (run_bind_of_ok hstrip).trans (run_bind_of_ok htable)
  rcases renderStatement_cases hread graph id draft with
    ⟨text, -, herror⟩ | ⟨-, last, hnone⟩ | ⟨snippet, last, hsome, -⟩
  · rw [hrun] at herror
    cases hrenamed : renameWithin module.scopes statement table stripped <;>
      (rw [hrenamed] at herror; exact nomatch herror)
  · rw [hrun] at hnone
    cases hrenamed : renameWithin module.scopes statement table stripped <;>
      (rw [hrenamed] at hnone; exact nomatch hnone)
  · exact ⟨snippet, last, hsome⟩

theorem codeStart?_of_stripExport {source : List Char} {tree : ScopeTree} {item : Item}
    (hread : statement.Read source tree item) {stripped : Snippet}
    (hstrip : (stripExport graph id module statement).run draft = .ok (some stripped) final) :
    ∃ start, item.codeStart? = some start := by
  rcases stripExport_cases graph id module statement draft with
    ⟨text, -, hrun⟩ | ⟨after, hrun⟩ | ⟨⟨start, hcode⟩, -⟩
  · exact nomatch hstrip.symm.trans hrun
  · exact nomatch hstrip.symm.trans hrun
  · exact ⟨start, hread.item_eq ▸ hcode⟩

/-- Names lie apart, so that there is only one of them at a place. -/
theorem reference_eq_of_id {source : List Char} {tree : ScopeTree} {item : Item}
    (hread : statement.Read source tree item) {start : Nat} (hcode : item.codeStart? = some start)
    {reference other : Reference} (hreference : reference ∈ Outline.references [] item.outline)
    (hother : other ∈ Outline.references [] item.outline) (hid : reference.id = other.id) :
    reference = other := by
  obtain ⟨hlies, hapart⟩ := references_lie hread hcode
  by_contra hne
  have : Std.Symm fun reference other : Reference =>
      (Site.name reference.id).Apart (.name other.id) := ⟨fun _ _ => Site.Apart.symm⟩
  obtain ⟨-, hlt, -⟩ := hlies other hother
  have hboth := hapart.forall hreference hother hne
  rw [hid] at hboth
  exact hboth.elim (Nat.not_le.mpr hlt) (Nat.not_le.mpr hlt)

/-- What the outline takes to be bound is not replaced. -/
theorem id_ne_of_taken {item : Item} (hread : statement.Read module.source module.scopes item)
    (hspot : spot ∈ statement.spots) (hname : spot.name? = some ident)
    (htaken : ident.name ∈ spot.taken) {rewrite : Rewrite}
    (hrewrite : Rewrites graph id module statement draft rewrite) :
    rewrite.occurrence.id ≠ ident := by
  intro hid
  obtain ⟨snippet, final, hrender⟩ := exists_render_of_rewrites hread hrewrite
  obtain ⟨hoccurrence, -, hsees, -⟩ := (rewrites_iff hrender).mp hrewrite
  obtain ⟨stripped, middle, table, last, hstrip, -⟩ := hrewrite
  obtain ⟨start, hcode⟩ := codeStart?_of_stripExport hread hstrip
  obtain ⟨isShorthand, hreference⟩ := exists_reference hread hspot hname
  have hother : rewrite.occurrence.reference module.scopes ∈ Outline.references [] item.outline :=
    (hread.reference_eq (hread.not_import_of_codeStart hcode)).1 ▸ List.mem_map_of_mem hoccurrence
  have hsame := reference_eq_of_id hread hcode hother hreference hid
  have htop := congrArg Reference.isTopLevel hsame
  simp [Occurrence.reference, hsees, htaken] at htop

/-- What the outline does not take to be bound is replaced unless its canonical name is the name
itself. -/
theorem id_ne_iff_of_not_taken {item : Item}
    (hread : statement.Read module.source module.scopes item)
    (hrender : (renderStatement graph id module statement).run draft = .ok (some snippet) final)
    (hspot : spot ∈ statement.spots) (hname : spot.name? = some ident)
    (hfree : ident.name ∉ spot.taken) :
    (∀ rewrite, Rewrites graph id module statement draft rewrite → rewrite.occurrence.id ≠ ident) ↔
      final.naming.get? id ident.name = some ident.name := by
  constructor
  · intro hkept
    have hmem := mem_of_not_taken hread hspot hname hfree
    obtain ⟨stripped, middle, table, renamed, hstrip, htable, -⟩ := renderStatement_ok hrender
    obtain ⟨start, hcode⟩ := codeStart?_of_stripExport hread hstrip
    obtain ⟨found, last, hrun, hsettled⟩ :=
      exists_replacements graph id (statement.dependsOn ++ statement.defines) middle
    obtain ⟨rfl, rfl⟩ := EStateM.Result.ok.inj (htable.symm.trans hrun)
    obtain ⟨canonical, hcanonical⟩ := hsettled _ hmem
    obtain ⟨isShorthand, hreference⟩ := exists_reference hread hspot hname
    rw [← (hread.reference_eq (hread.not_import_of_codeStart hcode)).1] at hreference
    obtain ⟨occurrence, hoccurrence, heq⟩ := List.mem_map.mp hreference
    obtain ⟨rfl, -, hsees⟩ := Reference.mk.inj heq
    have hsees := of_decide_eq_true (hsees.trans (decide_eq_true hfree))
    by_contra hother
    refine hkept ⟨occurrence, canonical⟩ ((rewrites_iff hrender).mpr
      ⟨hoccurrence, hmem, hsees, hcanonical, fun hsame => hother ?_⟩) rfl
    exact hcanonical.trans (congrArg some hsame)
  · rintro hsettled rewrite hrewrite rfl
    obtain ⟨-, -, -, hcanonical, hother⟩ := (rewrites_iff hrender).mp hrewrite
    rw [hsettled] at hcanonical
    exact hother (Option.some.inj hcanonical).symm

/-! ## Names as the language has them -/

/-- A name that is no stray is treated as the language has it. -/
theorem honours_of_not_stray {item : Item}
    (hread : statement.Read module.source module.scopes item) (graph : Graph) (id : Nat)
    (draft : Draft) (hspot : spot ∈ statement.spots)
    (hstray : ∀ ident ∈ spot.name?, ident.name ∉ statement.strays) :
    Honours graph id module statement draft spot := by
  intro ident hname
  have hagree := Layout.agree_all statement.layout [] [] (hstray ident hname) Iff.rfl spot hspot
  exact ⟨fun hfree => mem_of_not_taken hread hspot hname (mt hagree.mpr hfree),
    fun hbound _ hrewrite => id_ne_of_taken hread hspot hname (hagree.mp hbound) hrewrite⟩

/-- A name is treated as the language has it exactly if no harm comes from it. -/
theorem honours_iff {item : Item} (hread : statement.Read module.source module.scopes item)
    (hrender : (renderStatement graph id module statement).run draft = .ok (some snippet) final)
    (hspot : spot ∈ statement.spots) :
    Honours graph id module statement draft spot ↔ Harmless id statement final.naming spot := by
  refine forall₂_congr fun ident hname => and_congr ⟨fun h hfree _ => h hfree, fun h hfree => ?_⟩
    (forall_congr' fun hbound => ?_)
  · by_cases htaken : ident.name ∈ spot.taken
    · exact h hfree htaken
    · exact mem_of_not_taken hread hspot hname htaken
  · by_cases htaken : ident.name ∈ spot.taken
    · exact iff_of_true (fun _ => id_ne_of_taken hread hspot hname htaken)
        fun hnot => absurd htaken hnot
    · rw [id_ne_iff_of_not_taken hread hrender hspot hname htaken]
      exact ⟨fun h _ => h, fun h => h htaken⟩

/-- All names in a statement but strays are treated as the language has them: what nothing in the
statement binds is among what it depends on or defines, and what something binds is never replaced.
A stray is treated so exactly if no harm comes from it. -/
theorem honours_of_sourced (hsourced : module.Sourced) {index : Nat}
    (hstatement : module.statement? index = some statement) (graph : Graph) (id : Nat)
    (draft : Draft) :
    ∀ spot ∈ statement.spots,
      ((∀ ident ∈ spot.name?, ident.name ∉ statement.strays) →
        Honours graph id module statement draft spot) ∧
      ∀ snippet final,
        (renderStatement graph id module statement).run draft = .ok (some snippet) final →
        (Honours graph id module statement draft spot ↔
          Harmless id statement final.naming spot) := by
  obtain ⟨item, hread⟩ := hsourced.read hstatement
  exact fun spot hspot => ⟨honours_of_not_stray hread graph id draft hspot,
    fun snippet final hrender => honours_iff hread hrender hspot⟩

/-- A function with a loop and a class expression that bind names of their own, beside an imported
name. -/
def regionDisk : Disk where
  workingDirectory := []
  files :=
    [(["main.js"], .text
        ("import \x7b x \x7d from './lib';\nexport function f(a) \x7b " ++
          "for (let i = 0; i < a; i++) \x7b\x7d return class y \x7b m() \x7b return [x, y]; \x7d " ++
          "\x7d; \x7d\n").toList),
      (["lib.js"], .text "var z = 1;\nexport \x7b z as x \x7d;\n".toList)]
  directories := []

theorem honours_regionDisk : ∃ bundle log,
    (Bundle.build regionDisk ⟨"main.js"⟩).run [] = .ok bundle log ∧
      ∃ module statement, bundle.graph.module? 0 = some module ∧
        bundle.graph.statement? ⟨0, 1⟩ = some statement ∧ statement.strays = ["i", "y"] ∧
        statement.spots.filterMap (·.name?.map (·.name)) =
          ["f", "a", "i", "i", "a", "i", "x", "y"] ∧
        ∀ spot ∈ statement.spots,
          Honours bundle.graph 0 module statement ⟨bundle.naming, []⟩ spot := by
  obtain ⟨bundle, log, hbuild, hcheck⟩ := Bundle.exists_of_passes regionDisk ⟨"main.js"⟩
    (fun bundle => (rendered? bundle ⟨0, 1⟩).any
      fun entry : Module × Statement × Snippet × Draft => decide (entry.2.1.strays = ["i", "y"] ∧
        entry.2.1.spots.filterMap (·.name?.map (·.name)) =
          ["f", "a", "i", "i", "a", "i", "x", "y"] ∧
        ∀ spot ∈ entry.2.1.spots, Harmless 0 entry.2.1 entry.2.2.2.naming spot))
    (by decide +kernel)
  obtain ⟨⟨module, statement, snippet, final⟩, hrendered, hcond⟩ :=
    (Option.any_eq_true _ _).mp hcheck
  obtain ⟨hmodule, hstatement, hrender⟩ := rendered?_eq_some hrendered
  obtain ⟨hstrays, hnames, hharmless⟩ := of_decide_eq_true hcond
  refine ⟨bundle, log, hbuild, module, statement, hmodule, hstatement, hstrays, hnames, ?_⟩
  intro spot hspot
  obtain ⟨other, hother, hindex⟩ := Graph.statement?_eq_some_iff.mp hstatement
  obtain rfl := Option.some.inj (hmodule.symm.trans hother)
  have hsourced := (Bundle.built_of_build hbuild).traced.sourced _ _ hmodule
  have hexact := honours_of_sourced hsourced hindex bundle.graph 0 ⟨bundle.naming, []⟩ spot hspot
  exact (hexact.2 snippet final hrender).mpr (hharmless spot hspot)

/-- A function that returns an imported name behind a loop that has a variable of the same name. -/
def leakingDisk : Disk where
  workingDirectory := []
  files :=
    [(["main.js"], .text
        ("import \x7b x \x7d from './lib';\n" ++
          "export function f() \x7b for (let x = 0; x < 1; x++) \x7b\x7d return x; \x7d\n").toList),
      (["lib.js"], .text "export var x = 5;\n".toList)]
  directories := []

/-- The name is not bound where it is returned, but the statement does not depend on it, and the
bundle has nothing of the module that it is imported from. -/
theorem not_honours_leakingDisk : ∃ bundle log,
    (Bundle.build leakingDisk ⟨"main.js"⟩).run [] = .ok bundle log ∧
      bundle.statements = [⟨0, 1⟩] ∧
      ∃ module statement, bundle.graph.module? 0 = some module ∧
        bundle.graph.statement? ⟨0, 1⟩ = some statement ∧
        ∃ spot ∈ statement.spots, ∃ ident ∈ spot.name?, ident.name = "x" ∧ spot.bound = [] ∧
          ident.name ∉ statement.dependsOn ++ statement.defines ∧
          ∀ draft, ¬ Honours bundle.graph 0 module statement draft spot := by
  obtain ⟨bundle, log, hbuild, hcheck⟩ := Bundle.exists_of_passes leakingDisk ⟨"main.js"⟩
    (fun bundle => decide (bundle.statements = [⟨0, 1⟩]) &&
      (rendered? bundle ⟨0, 1⟩).any fun entry => entry.2.1.spots.any fun spot =>
        spot.name?.any fun ident => decide (ident.name = "x" ∧ spot.bound = [] ∧
          ident.name ∉ entry.2.1.dependsOn ++ entry.2.1.defines))
    (by decide +kernel)
  obtain ⟨hemitted, hcheck⟩ := Bool.and_eq_true_iff.mp hcheck
  obtain ⟨⟨module, statement, snippet, final⟩, hrendered, hany⟩ :=
    (Option.any_eq_true _ _).mp hcheck
  obtain ⟨hmodule, hstatement, -⟩ := rendered?_eq_some hrendered
  obtain ⟨spot, hspot, hident⟩ := List.any_eq_true.mp hany
  obtain ⟨ident, hname, hcond⟩ := (Option.any_eq_true _ _).mp hident
  obtain ⟨hx, hbound, hmissed⟩ := of_decide_eq_true hcond
  refine ⟨bundle, log, hbuild, of_decide_eq_true hemitted, module, statement, hmodule, hstatement,
    spot, hspot, ident, hname, hx, hbound, hmissed, fun draft hhonours => hmissed ?_⟩
  exact (hhonours ident hname).1 (by rw [hbound]; exact List.not_mem_nil)

end Assembly
end ScriptBundler

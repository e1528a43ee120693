import ScriptBundler.Proofs.Builds
import ScriptBundler.Proofs.Computations
import ScriptBundler.Proofs.Graph.Settling
import ScriptBundler.Proofs.Output.Occurrences

/-!
# Capture

A statement is rendered with the canonical names put in for its references.  A canonical name is
captured if a scope around the occurrence declares it; what then stands there is a local name and
no longer the one of the top level.

Renaming asks whether a scope declares the name that is replaced.  It does not ask whether one
declares the name that takes its place, so that a statement keeps its meaning exactly if no scope
happens to do so.
-/

namespace ScriptBundler

open Files Script ScriptBundler.Module Text

/-- The identifier that a canonical name begins with: an export of an external module is written as
a property of it. -/
def rootOf (canonical : String) : String :=
  String.ofList (canonical.toList.takeWhile (· != '.'))

namespace Assembly

/-- The replacements that are made when a statement is rendered in a draft. -/
def Rewrites (graph : Graph) (id : Nat) (module : Module) (statement : Statement) (draft : Draft)
    (rewrite : Rewrite) : Prop :=
  ∃ stripped middle table final,
    (stripExport graph id module statement).run draft = .ok (some stripped) middle ∧
    (replacements graph id (statement.dependsOn ++ statement.defines)).run middle =
      .ok table final ∧
    rewrite ∈ rewritesWithin module.scopes statement table stripped

/-- Whether the canonical names can be seen where they take the place of top-level names: no scope
around such a place declares the name that the canonical name begins with. -/
def CanonicalsVisible (id : Nat) (module : Module) (statement : Statement) (naming : Naming) :
    Prop :=
  ∀ occurrence ∈ statement.occurrences,
    occurrence.id.name ∈ statement.dependsOn ++ statement.defines →
    occurrence.Sees module.scopes occurrence.id.name →
    ∀ canonical ∈ naming.get? id occurrence.id.name, canonical ≠ occurrence.id.name →
      occurrence.Sees module.scopes (rootOf canonical)

instance (id : Nat) (module : Module) (statement : Statement) (naming : Naming) :
    Decidable (CanonicalsVisible id module statement naming) :=
  inferInstanceAs (Decidable (∀ occurrence ∈ statement.occurrences,
    occurrence.id.name ∈ statement.dependsOn ++ statement.defines →
    occurrence.Sees module.scopes occurrence.id.name →
    ∀ canonical ∈ naming.get? id occurrence.id.name, canonical ≠ occurrence.id.name →
      occurrence.Sees module.scopes (rootOf canonical)))

variable {graph : Graph} {id : Nat} {module : Module} {statement : Statement}
  {draft middle final : Draft} {snippet : Snippet}

theorem run_canonicalName (graph : Graph) (id : Nat) (name : String) (draft : Draft) :
    (canonicalName graph id name).run draft =
      .ok (draft.naming.canonicalName graph id name).1
        { draft with naming := (draft.naming.canonicalName graph id name).2 } := rfl

/-- The table of replacements holds the canonical names that are settled in the end, of those names
that they differ from. -/
theorem replacements_ok {names : List String} {table : Replacements}
    (hrun : (replacements graph id names).run draft = .ok table final) :
    draft.naming.Extends final.naming ∧ ∀ name canonical,
      table.get? name = some canonical ↔
        name ∈ names ∧ final.naming.get? id name = some canonical ∧ canonical ≠ name := by
  induction names generalizing draft table final with
  | nil =>
      rw [replacements, run_pure] at hrun
      obtain ⟨rfl, rfl⟩ := EStateM.Result.ok.inj hrun
      exact ⟨.refl _, by simp⟩
  | cons first rest ih =>
      rw [replacements] at hrun
      rw [run_bind_of_ok (run_canonicalName graph id first draft)] at hrun
      obtain ⟨others, middle, hrest, hrun⟩ := run_bind_eq_ok hrun
      obtain ⟨hextends, hothers⟩ := ih hrest
      -- the name stays settled while the others are asked for
      have hsettled := hextends id first _ (draft.naming.canonicalName_settles graph id first)
      have hfirst := draft.naming.canonicalName_extends graph id first
      generalize (draft.naming.canonicalName graph id first).1 = canonical at hsettled hrun
      rw [run_pure] at hrun
      obtain ⟨rfl, rfl⟩ := EStateM.Result.ok.inj hrun
      refine ⟨hfirst.trans hextends, fun name found => ?_⟩
      rw [List.mem_cons]
      by_cases hsame : canonical = first
      · rw [if_pos (beq_iff_eq.mpr hsame), hothers]
        constructor
        · rintro ⟨hmem, hget, hother⟩
          exact ⟨Or.inr hmem, hget, hother⟩
        · rintro ⟨rfl | hmem, hget, hother⟩
          · rw [hsettled] at hget
            obtain rfl := Option.some.inj hget
            exact absurd hsame hother
          · exact ⟨hmem, hget, hother⟩
      · rw [if_neg (by simpa using hsame), Table.get?_cons]
        by_cases hname : first = name
        · subst hname
          rw [if_pos rfl]
          constructor
          · intro heq
            obtain rfl := Option.some.inj heq
            exact ⟨Or.inl rfl, hsettled, hsame⟩
          · rintro ⟨-, hget, -⟩
            exact hsettled.symm.trans hget
        · rw [if_neg hname, hothers]
          constructor
          · rintro ⟨hmem, hget, hother⟩
            exact ⟨Or.inr hmem, hget, hother⟩
          · rintro ⟨rfl | hmem, hget, hother⟩
            · exact absurd rfl hname
            · exact ⟨hmem, hget, hother⟩

theorem edited_ok {outcome : Except RefusedEdit Snippet}
    (hrun : (edited outcome).run draft = .ok snippet final) :
    outcome = .ok snippet ∧ final = draft := by
  cases outcome with
  | ok result =>
      rw [edited, run_pure] at hrun
      obtain ⟨rfl, rfl⟩ := EStateM.Result.ok.inj hrun
      exact ⟨rfl, rfl⟩
  | error refused =>
      rw [edited, run_throw] at hrun
      contradiction

/-- A statement that has a text in the bundle is stripped of its export syntax, and then its
references are renamed. -/
theorem renderStatement_ok
    (hrender : (renderStatement graph id module statement).run draft = .ok (some snippet) final) :
    ∃ stripped middle table renamed,
      (stripExport graph id module statement).run draft = .ok (some stripped) middle ∧
      (replacements graph id (statement.dependsOn ++ statement.defines)).run middle =
        .ok table final ∧
      renameWithin module.scopes statement table stripped = .ok renamed ∧
      snippet = renamed.trim := by
  obtain ⟨stripped, middle, hstrip, hrest⟩ := run_bind_eq_ok hrender
  cases stripped with
  | none =>
      rw [run_pure] at hrest
      cases hrest
  | some stripped =>
      obtain ⟨table, last, htable, hedits⟩ := run_bind_eq_ok hrest
      obtain ⟨renamed, edit, hedited, hpure⟩ := run_bind_eq_ok hedits
      obtain ⟨hrenamed, rfl⟩ := edited_ok hedited
      rw [run_pure] at hpure
      obtain ⟨hsnippet, rfl⟩ := EStateM.Result.ok.inj hpure
      exact ⟨stripped, middle, table, renamed, hstrip, htable, hrenamed,
        (Option.some.inj hsnippet).symm⟩

/-- The replacements in a statement are those of the occurrences of the top-level names that it
refers to or defines, where no scope declares them, by the canonical names that differ from them. -/
theorem rewrites_iff
    (hrender : (renderStatement graph id module statement).run draft = .ok (some snippet) final)
    {rewrite : Rewrite} :
    Rewrites graph id module statement draft rewrite ↔
      rewrite.occurrence ∈ statement.occurrences ∧
      rewrite.occurrence.id.name ∈ statement.dependsOn ++ statement.defines ∧
      rewrite.occurrence.Sees module.scopes rewrite.occurrence.id.name ∧
      final.naming.get? id rewrite.occurrence.id.name = some rewrite.canonical ∧
      rewrite.canonical ≠ rewrite.occurrence.id.name := by
  obtain ⟨stripped, middle, table, renamed, hstrip, htable, hrenamed, -⟩ :=
    renderStatement_ok hrender
  obtain ⟨-, hget⟩ := replacements_ok htable
  have hwithin : Rewrites graph id module statement draft rewrite ↔
      rewrite ∈ statement.occurrences.filterMap (Occurrence.rewrite? module.scopes table) := by
    rw [← rewritesWithin_eq hrenamed]
    constructor
    · rintro ⟨stripped', middle', table', final', hstrip', htable', hmem⟩
      obtain ⟨heq, rfl⟩ := EStateM.Result.ok.inj (hstrip.symm.trans hstrip')
      obtain rfl := Option.some.inj heq
      obtain ⟨rfl, rfl⟩ := EStateM.Result.ok.inj (htable.symm.trans htable')
      exact hmem
    · intro hmem
      exact ⟨stripped, middle, table, final, hstrip, htable, hmem⟩
  rw [hwithin, List.mem_filterMap]
  constructor
  · rintro ⟨occurrence, hmem, hrewrite⟩
    obtain rfl := rewrite?_eq_some hrewrite
    unfold Occurrence.rewrite? at hrewrite
    split at hrewrite
    · rename_i hsees
      obtain ⟨canonical, htable', heq⟩ := Option.map_eq_some_iff.mp hrewrite
      obtain rfl : canonical = rewrite.canonical := congrArg Rewrite.canonical heq
      obtain ⟨hname, hsettled, hother⟩ := (hget _ _).mp htable'
      exact ⟨hmem, hname, hsees, hsettled, hother⟩
    · contradiction
  · rintro ⟨hmem, hname, hsees, hsettled, hother⟩
    refine ⟨rewrite.occurrence, hmem, ?_⟩
    rw [Occurrence.rewrite?, if_pos hsees, (hget _ _).mpr ⟨hname, hsettled, hother⟩]
    rfl

/-- Rendering a statement captures nothing exactly if the canonical names that it ends with can be
seen where they are put in. -/
theorem sees_rootOf_rewrites_iff
    (hrender : (renderStatement graph id module statement).run draft = .ok (some snippet) final) :
    (∀ rewrite, Rewrites graph id module statement draft rewrite →
      rewrite.occurrence.Sees module.scopes (rootOf rewrite.canonical)) ↔
    CanonicalsVisible id module statement final.naming := by
  constructor
  · intro hsees occurrence hmem hname hfree canonical hsettled hother
    exact hsees ⟨occurrence, canonical⟩
      ((rewrites_iff hrender).mpr ⟨hmem, hname, hfree, hsettled, hother⟩)
  · intro hall rewrite hrewrite
    obtain ⟨hmem, hname, hfree, hsettled, hother⟩ := (rewrites_iff hrender).mp hrewrite
    exact hall rewrite.occurrence hmem hname hfree rewrite.canonical hsettled hother

/-- A statement of a bundle with its text, and the draft in which the text is made first. -/
def rendered? (bundle : Bundle) (address : Address) :
    Option (Module × Statement × Snippet × Draft) := do
  let module ← bundle.graph.module? address.module
  let statement ← bundle.graph.statement? address
  match (renderStatement bundle.graph address.module module statement).run ⟨bundle.naming, []⟩ with
  | .ok (some snippet) final => some (module, statement, snippet, final)
  | _ => none

theorem rendered?_eq_some {bundle : Bundle} {address : Address}
    (hrendered : rendered? bundle address = some (module, statement, snippet, final)) :
    bundle.graph.module? address.module = some module ∧
      bundle.graph.statement? address = some statement ∧
      (renderStatement bundle.graph address.module module statement).run ⟨bundle.naming, []⟩ =
        .ok (some snippet) final := by
  obtain ⟨found, hmodule, hrest⟩ := Option.bind_eq_some_iff.mp hrendered
  obtain ⟨other, hstatement, hrun⟩ := Option.bind_eq_some_iff.mp hrest
  split at hrun
  · rename_i text last hrender
    obtain ⟨rfl, rfl, rfl, rfl⟩ :
        found = module ∧ other = statement ∧ text = snippet ∧ last = final := by
      simpa using hrun
    exact ⟨hmodule, hstatement, hrender⟩
  · contradiction

/-- A function that refers to an export of an external module, where another name is declared. -/
def qualifyingDisk : Disk where
  workingDirectory := []
  files :=
    [(["main.js"], .text
      ("import \x7b join \x7d from 'path';\n" ++
        "export function f(y) \x7b return [join, y]; \x7d\n").toList)]
  directories := []

theorem sees_rootOf_qualifyingDisk : ∃ bundle log,
    (Bundle.build qualifyingDisk ⟨"main.js"⟩).run [] = .ok bundle log ∧
      ∃ module statement snippet final,
        (renderStatement bundle.graph 0 module statement).run ⟨bundle.naming, []⟩ =
          .ok (some snippet) final ∧
        final.naming.get? 0 "join" = some "path.join" ∧
        ∀ rewrite, Rewrites bundle.graph 0 module statement ⟨bundle.naming, []⟩ rewrite →
          rewrite.occurrence.Sees module.scopes (rootOf rewrite.canonical) := by
  obtain ⟨bundle, log, hbuild, hcheck⟩ := Bundle.exists_of_passes qualifyingDisk ⟨"main.js"⟩
    (fun bundle => (rendered? bundle ⟨0, 1⟩).any fun entry =>
      entry.2.2.2.naming.get? 0 "join" == some "path.join" &&
        decide (CanonicalsVisible 0 entry.1 entry.2.1 entry.2.2.2.naming))
    (by decide +kernel)
  obtain ⟨⟨module, statement, snippet, final⟩, hrendered, hcond⟩ :=
    (Option.any_eq_true _ _).mp hcheck
  obtain ⟨-, -, hrender⟩ := rendered?_eq_some hrendered
  obtain ⟨hjoin, hvisible⟩ := Bool.and_eq_true_iff.mp hcond
  exact ⟨bundle, log, hbuild, module, statement, snippet, final, hrender, beq_iff_eq.mp hjoin,
    (sees_rootOf_rewrites_iff hrender).mpr (of_decide_eq_true hvisible)⟩

/-- A function with a parameter that is called like what an import means. -/
def capturingDisk : Disk where
  workingDirectory := []
  files :=
    [(["main.js"], .text
        "import \x7b x \x7d from './lib';\nexport function f(y) \x7b return [x, y]; \x7d\n".toList),
      (["lib.js"], .text "var y = 1;\nexport \x7b y as x \x7d;\n".toList)]
  directories := []

/-- The parameter captures what takes the place of the imported name. -/
theorem not_sees_rootOf_capturingDisk : ∃ bundle log,
    (Bundle.build capturingDisk ⟨"main.js"⟩).run [] = .ok bundle log ∧
      ∃ module statement, ⟨0, 1⟩ ∈ bundle.statements ∧
        bundle.graph.module? 0 = some module ∧ bundle.graph.statement? ⟨0, 1⟩ = some statement ∧
        ∃ rewrite, Rewrites bundle.graph 0 module statement ⟨bundle.naming, []⟩ rewrite ∧
          ¬ rewrite.occurrence.Sees module.scopes (rootOf rewrite.canonical) := by
  obtain ⟨bundle, log, hbuild, hcheck⟩ := Bundle.exists_of_passes capturingDisk ⟨"main.js"⟩
    (fun bundle => decide (⟨0, 1⟩ ∈ bundle.statements) && (rendered? bundle ⟨0, 1⟩).any fun entry =>
      entry.2.1.occurrences.any fun occurrence => decide
        (occurrence.id.name ∈ entry.2.1.dependsOn ++ entry.2.1.defines ∧
          occurrence.Sees entry.1.scopes occurrence.id.name ∧
          entry.2.2.2.naming.get? 0 occurrence.id.name = some "y" ∧
          "y" ≠ occurrence.id.name ∧ ¬ occurrence.Sees entry.1.scopes (rootOf "y")))
    (by decide +kernel)
  obtain ⟨hemitted, hcheck⟩ := Bool.and_eq_true_iff.mp hcheck
  obtain ⟨⟨module, statement, snippet, final⟩, hrendered, hany⟩ :=
    (Option.any_eq_true _ _).mp hcheck
  obtain ⟨hmodule, hstatement, hrender⟩ := rendered?_eq_some hrendered
  obtain ⟨occurrence, hmem, hcond⟩ := List.any_eq_true.mp hany
  obtain ⟨hname, hfree, hsettled, hother, hcaptured⟩ := of_decide_eq_true hcond
  exact ⟨bundle, log, hbuild, module, statement, of_decide_eq_true hemitted, hmodule, hstatement,
    ⟨occurrence, "y"⟩, (rewrites_iff hrender).mpr ⟨hmem, hname, hfree, hsettled, hother⟩, hcaptured⟩

end Assembly

end ScriptBundler

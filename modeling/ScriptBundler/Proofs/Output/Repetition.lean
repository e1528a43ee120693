import ScriptBundler.Bundle
import ScriptBundler.Proofs.Builds
import ScriptBundler.Proofs.Graph.Aliases
import ScriptBundler.Proofs.Output.Capture

/-!
# Repeated calls

A bundle can be asked for canonical names, for the text of statements and for the whole text, as
often as one likes.  Each call leaves behind the canonical names that it settled, also if it ends
with a fault, and the next call starts from those.  Without circles of aliases this does not show:
every call is answered as if it were the first one after the build.

All of assembling reads the settled names through one step only, so that this is shown for that step
and carried over to whatever is put together from it.
-/

namespace ScriptBundler

open Files Script ScriptBundler.Module Text

namespace Assembly

variable {α β : Type} {graph : Graph} {base : Naming}

/-- How a computation that started from a draft ends: with a result, with what has been settled by
then, and with more entries in the log. -/
def ending (result : Except Fault α) (naming : Naming) (log : List Log.Entry) :
    EStateM.Result Fault Draft α :=
  match result with
  | .ok value => .ok value ⟨naming, log⟩
  | .error fault => .error fault ⟨naming, log⟩

/-- A computation gives and reports the same whatever has been asked for since some naming, and it
settles only what that naming determines. -/
def Repeats (graph : Graph) (base : Naming) (computation : Assembly α) : Prop :=
  ∃ result entries, ∀ draft, base.Caches graph draft.naming →
    ∃ naming, base.Caches graph naming ∧
      computation.run draft = ending result naming (draft.log ++ entries)

theorem Repeats.pure (value : α) : Repeats graph base (pure value) :=
  ⟨.ok value, [], fun draft hcaches => ⟨draft.naming, hcaches, by rw [List.append_nil]; rfl⟩⟩

theorem Repeats.throw (fault : Fault) : Repeats graph base (throw fault : Assembly α) :=
  ⟨.error fault, [], fun draft hcaches => ⟨draft.naming, hcaches, by rw [List.append_nil]; rfl⟩⟩

theorem Repeats.report (entry : Log.Entry) : Repeats graph base (report entry) :=
  ⟨.ok (), [entry], fun draft hcaches => ⟨draft.naming, hcaches, rfl⟩⟩

theorem Repeats.bind {first : Assembly α} {next : α → Assembly β}
    (hfirst : Repeats graph base first) (hnext : ∀ value, Repeats graph base (next value)) :
    Repeats graph base (first >>= next) := by
  obtain ⟨result, entries, hfirst⟩ := hfirst
  cases result with
  | ok value =>
      obtain ⟨final, others, hnext⟩ := hnext value
      refine ⟨final, entries ++ others, fun draft hcaches => ?_⟩
      obtain ⟨middle, hmiddle, hrun⟩ := hfirst draft hcaches
      obtain ⟨naming, hnaming, hrest⟩ := hnext ⟨middle, draft.log ++ entries⟩ hmiddle
      exact ⟨naming, hnaming, by rw [run_bind_of_ok hrun, hrest, List.append_assoc]⟩
  | error fault =>
      refine ⟨.error fault, entries, fun draft hcaches => ?_⟩
      obtain ⟨naming, hnaming, hrun⟩ := hfirst draft hcaches
      exact ⟨naming, hnaming, run_bind_of_error hrun⟩

theorem Repeats.map {computation : Assembly α} (change : α → β)
    (hrepeats : Repeats graph base computation) : Repeats graph base (change <$> computation) := by
  rw [map_eq_pure_bind]
  exact hrepeats.bind fun value => .pure (change value)

/-- The one step that reads and writes settled names. -/
theorem repeats_canonicalName (hacyclic : graph.AcyclicAliases) (id : Nat) (name : String) :
    Repeats graph base (canonicalName graph id name) := by
  have hbase := (Naming.Caches.refl graph base).canonicalName hacyclic id name
  refine ⟨.ok (base.canonicalName graph id name).1, [], fun draft hcaches => ?_⟩
  obtain ⟨hresolves, hcached⟩ := hcaches.canonicalName hacyclic id name
  refine ⟨_, hcached, ?_⟩
  rw [run_canonicalName, hresolves.unique hbase.1, List.append_nil]
  rfl

theorem repeats_edited (outcome : Except RefusedEdit Snippet) :
    Repeats graph base (edited outcome) := by
  cases outcome with
  | ok snippet => exact .pure snippet
  | error refused => exact .throw _

theorem repeats_stripDefault (hacyclic : graph.AcyclicAliases) (id : Nat) (name : Option Ident)
    (snippet : Snippet) (span : Span) (declarationStart : Nat) :
    Repeats graph base (stripDefault graph id name snippet span declarationStart) := by
  cases name with
  | some name => exact (repeats_edited _).map _
  | none =>
      exact (repeats_canonicalName hacyclic id "default").bind fun _ => (repeats_edited _).map _

theorem repeats_stripExport (hacyclic : graph.AcyclicAliases) (id : Nat) (module : Module)
    (statement : Statement) : Repeats graph base (stripExport graph id module statement) := by
  unfold stripExport
  cases statement.form with
  | statement | importDecl | exportList => exact .pure _
  | exportDecl => exact (repeats_edited _).map _
  | exportDefaultFunction => exact repeats_stripDefault hacyclic ..
  | exportDefaultClass => exact repeats_stripDefault hacyclic ..
  | exportAll => exact .throw _
  | exportDefaultExpr value =>
      refine (repeats_canonicalName hacyclic id "default").bind fun canonical => ?_
      split
      · refine (repeats_canonicalName hacyclic id _).bind fun other => ?_
        split
        · exact .pure none
        · exact (repeats_edited _).map _
      · exact (repeats_edited _).map _

theorem repeats_replacements (hacyclic : graph.AcyclicAliases) (id : Nat) (names : List String) :
    Repeats graph base (replacements graph id names) := by
  induction names with
  | nil => exact .pure []
  | cons name rest ih =>
      exact (repeats_canonicalName hacyclic id name).bind fun _ => ih.bind fun _ => .pure _

theorem repeats_renderStatement (hacyclic : graph.AcyclicAliases) (id : Nat) (module : Module)
    (statement : Statement) :
    Repeats graph base (renderStatement graph id module statement) := by
  refine (repeats_stripExport hacyclic id module statement).bind fun stripped => ?_
  cases stripped with
  | none => exact .pure none
  | some snippet =>
      exact (repeats_replacements hacyclic id _).bind fun _ =>
        (repeats_edited _).bind fun _ => .pure _

theorem repeats_joinStatements (hacyclic : graph.AcyclicAliases) (statements : List Address)
    (margin : Nat) (composition : Composition) :
    Repeats graph base (joinStatements graph statements margin composition) := by
  induction statements generalizing margin composition with
  | nil => exact .pure composition
  | cons address rest ih =>
      rw [joinStatements]
      split
      · rename_i module statement _ _
        refine (repeats_renderStatement hacyclic address.module module statement).bind
          fun rendered => ?_
        cases rendered with
        | none => exact (Repeats.report _).bind fun _ => ih margin composition
        | some snippet => exact ih _ _
      · exact ih margin composition

theorem repeats_getters (hacyclic : graph.AcyclicAliases) (id : Nat) (indent : String)
    (exports : Table Export) : Repeats graph base (getters graph id indent exports) := by
  induction exports with
  | nil => exact .pure []
  | cons entry rest ih =>
      exact (repeats_canonicalName hacyclic id _).bind fun _ => ih.bind fun _ => .pure _

theorem repeats_namespaceObjects (hacyclic : graph.AcyclicAliases) (indent : String)
    (namespaces : List Nat) :
    Repeats graph base (namespaceObjects graph indent namespaces) := by
  induction namespaces with
  | nil => exact .pure ""
  | cons id rest ih =>
      rw [namespaceObjects]
      split
      · exact ih
      · exact (repeats_canonicalName hacyclic id "*").bind fun _ =>
          (Repeats.report _).bind fun _ => (repeats_getters hacyclic id indent _).bind fun _ =>
            ih.bind fun _ => .pure _

theorem repeats_body (hacyclic : graph.AcyclicAliases) (statements : List Address) :
    Repeats graph base (body graph statements) :=
  (repeats_joinStatements hacyclic statements 0 .empty).bind fun _ =>
    (repeats_namespaceObjects hacyclic _ _).bind fun _ => .pure _

theorem repeats_namedExports (hacyclic : graph.AcyclicAliases) (id : Nat)
    (exports : Table Export) : Repeats graph base (namedExports graph id exports) := by
  induction exports with
  | nil => exact .pure []
  | cons entry rest ih =>
      exact (repeats_canonicalName hacyclic id _).bind fun _ => ih.bind fun _ => .pure _

theorem repeats_closing (hacyclic : graph.AcyclicAliases) (entry : Nat) (mode : ExportMode) :
    Repeats graph base (closing graph entry mode) := by
  unfold closing
  split
  · exact .pure ""
  · split
    · split
      · exact (repeats_canonicalName hacyclic entry "default").bind fun _ => .pure _
      · exact .pure ""
    · exact (repeats_namedExports hacyclic entry _).map _
    · exact .pure ""
    · exact .pure ""

theorem repeats_commonJs (hacyclic : graph.AcyclicAliases) (entry : Nat) (mode : ExportMode)
    (text : Composition) : Repeats graph base (commonJs graph entry mode text) :=
  (repeats_closing hacyclic entry mode).bind fun _ => (Repeats.report _).bind fun _ => .pure _

end Assembly

namespace Bundle

open Assembly

/-- A call that reads a bundle. -/
inductive Call where
  /-- The canonical name of a name of a module. -/
  | canonicalName (id : Nat) (name : String)
  /-- The body that is made of some statements. -/
  | render (statements : List Address)
  /-- The whole text in an export mode. -/
  | generate (requested : ExportMode)

/-- What a call gives. -/
inductive Answer where
  | name (canonical : String)
  | body (text : Composition)
  | code (text : List Char)
deriving DecidableEq

/-- A step of a bundle that reports, as a step of assembling. -/
def reporting {α : Type} (computation : Reporting α) : Assembly α := fun draft =>
  match computation.run draft.log with
  | .ok value log => .ok value { draft with log }
  | .error fault log => .error fault { draft with log }

/-- What is done for a call. -/
def perform (bundle : Bundle) : Call → Assembly Answer
  | .canonicalName id name => .name <$> Assembly.canonicalName bundle.graph id name
  | .render statements => .body <$> Assembly.body bundle.graph statements
  | .generate requested => do
    let mode ← reporting (bundle.exportMode requested)
    .code <$> bundle.assemble mode

/-- A reply to a call: its answer or a fault, and what it reports. -/
structure Reply where
  answer : Except Fault Answer
  entries : List Log.Entry

/-- The reply to a call when some names have been settled, and the names that are settled after
it. -/
def reply (bundle : Bundle) (call : Call) (naming : Naming) : Reply × Naming :=
  match (bundle.perform call).run ⟨naming, []⟩ with
  | .ok answer draft => (⟨.ok answer, draft.log⟩, draft.naming)
  | .error fault draft => (⟨.error fault, draft.log⟩, draft.naming)

/-- The replies to calls that come one after the other. -/
def replies (bundle : Bundle) : List Call → Naming → List Reply
  | [], _ => []
  | call :: rest, naming =>
    (bundle.reply call naming).1 :: bundle.replies rest (bundle.reply call naming).2

/-- The reply to a call that comes first after the build. -/
def firstReply (bundle : Bundle) (call : Call) : Reply :=
  (bundle.reply call bundle.naming).1

variable {bundle : Bundle}

theorem run_reporting_of_ok {α : Type} {computation : Reporting α} {draft : Draft} {value : α}
    {log : List Log.Entry} (hrun : computation.run draft.log = .ok value log) :
    (reporting computation).run draft = .ok value ⟨draft.naming, log⟩ := by
  show reporting computation draft = _
  rw [reporting, hrun]

theorem run_reporting_of_error {α : Type} {computation : Reporting α} {draft : Draft}
    {fault : Fault} {log : List Log.Entry}
    (hrun : computation.run draft.log = .error fault log) :
    (reporting computation).run draft = .error fault ⟨draft.naming, log⟩ := by
  show reporting computation draft = _
  rw [reporting, hrun]

/-- Choosing the export mode reports one entry, or ends with a fault. -/
theorem run_exportMode_cases (bundle : Bundle) (requested : ExportMode) :
    (∃ mode entry, ∀ log, (bundle.exportMode requested).run log = .ok mode (log ++ [entry])) ∨
      ∃ fault, ∀ log, (bundle.exportMode requested).run log = .error fault log := by
  unfold exportMode
  cases hmode : requested.resolve bundle.exportNames with
  | ok mode =>
      simp only [hmode]
      exact Or.inl ⟨mode, _, fun _ => rfl⟩
  | error refused =>
      simp only [hmode]
      exact Or.inr ⟨.refusedMode refused, fun _ => rfl⟩

theorem repeats_exportMode {graph : Graph} {base : Naming} (bundle : Bundle)
    (requested : ExportMode) :
    Repeats graph base (reporting (bundle.exportMode requested)) := by
  rcases bundle.run_exportMode_cases requested with ⟨mode, entry, hrun⟩ | ⟨fault, hrun⟩
  · exact ⟨.ok mode, [entry], fun draft hcaches =>
      ⟨draft.naming, hcaches, run_reporting_of_ok (hrun draft.log)⟩⟩
  · refine ⟨.error fault, [], fun draft hcaches => ⟨draft.naming, hcaches, ?_⟩⟩
    rw [run_reporting_of_error (hrun draft.log), List.append_nil]
    rfl

theorem repeats_assemble (hacyclic : bundle.graph.AcyclicAliases) (base : Naming)
    (mode : ExportMode) : Repeats bundle.graph base (bundle.assemble mode) :=
  (repeats_body hacyclic _).bind fun text =>
    (repeats_commonJs hacyclic _ mode text).bind fun _ => .pure _

theorem repeats_perform (hacyclic : bundle.graph.AcyclicAliases) (base : Naming) (call : Call) :
    Repeats bundle.graph base (bundle.perform call) := by
  cases call with
  | canonicalName id name => exact (repeats_canonicalName hacyclic id name).map _
  | render statements => exact (repeats_body hacyclic statements).map _
  | generate requested =>
      exact (repeats_exportMode bundle requested).bind fun mode =>
        (repeats_assemble hacyclic base mode).map _

/-- One call: it is answered as if it were the first one, and leaves nothing behind that would
change a later answer. -/
theorem reply_of_caches (hacyclic : bundle.graph.AcyclicAliases) {naming : Naming}
    (hcaches : bundle.naming.Caches bundle.graph naming) (call : Call) :
    (bundle.reply call naming).1 = bundle.firstReply call ∧
      bundle.naming.Caches bundle.graph (bundle.reply call naming).2 := by
  obtain ⟨result, entries, hrepeats⟩ :=
    repeats_perform hacyclic bundle.naming call
  obtain ⟨later, hlater, hrun⟩ := hrepeats ⟨naming, []⟩ hcaches
  obtain ⟨first, -, hfirst⟩ := hrepeats ⟨bundle.naming, []⟩ (.refl _ _)
  unfold firstReply reply
  rw [hrun, hfirst]
  cases result with
  | ok answer => exact ⟨rfl, hlater⟩
  | error fault => exact ⟨rfl, hlater⟩

theorem replies_of_caches (hacyclic : bundle.graph.AcyclicAliases) {naming : Naming}
    (hcaches : bundle.naming.Caches bundle.graph naming) (calls : List Call) :
    bundle.replies calls naming = calls.map bundle.firstReply := by
  induction calls generalizing naming with
  | nil => rfl
  | cons call rest ih =>
      obtain ⟨hreply, hcached⟩ := reply_of_caches hacyclic hcaches call
      rw [replies, List.map_cons, hreply, ih hcached]

/-- The first reply to a call to generate is what generating gives and reports. -/
theorem firstReply_generate (hacyclic : bundle.graph.AcyclicAliases) (requested : ExportMode) :
    bundle.firstReply (.generate requested) =
      match (bundle.generate requested).run [] with
      | .ok text entries => ⟨.ok (.code text), entries⟩
      | .error fault entries => ⟨.error fault, entries⟩ := by
  unfold firstReply reply generate perform
  rcases bundle.run_exportMode_cases requested with ⟨mode, entry, hmode⟩ | ⟨fault, hmode⟩
  · have hchosen : (reporting (bundle.exportMode requested)).run ⟨bundle.naming, []⟩ =
        .ok mode ⟨bundle.naming, [entry]⟩ := run_reporting_of_ok (hmode [])
    -- the two ways to assemble differ in the entry that the log holds before
    obtain ⟨result, entries, hrepeats⟩ := repeats_assemble hacyclic bundle.naming mode
    obtain ⟨first, -, hfirst⟩ := hrepeats ⟨bundle.naming, []⟩ (.refl _ _)
    obtain ⟨second, -, hsecond⟩ := hrepeats ⟨bundle.naming, [entry]⟩ (.refl _ _)
    rw [run_bind_of_ok hchosen, run_bind_of_ok (hmode []), hfirst, map_eq_pure_bind]
    cases result with
    | ok text =>
        rw [run_bind_of_ok hsecond]
        rfl
    | error fault =>
        rw [run_bind_of_error hsecond]
        rfl
  · have hrefused : (reporting (bundle.exportMode requested)).run ⟨bundle.naming, []⟩ =
        .error fault ⟨bundle.naming, []⟩ := run_reporting_of_error (hmode [])
    rw [run_bind_of_error hrefused, run_bind_of_error (hmode [])]

/-- Calls are answered as if each of them were the first one after the build, in any order and with
any repetitions; and the first reply to a call to generate is what generating the bundle gives and
reports. -/
theorem replies_eq_firstReplies (hacyclic : bundle.graph.AcyclicAliases) (calls : List Call) :
    bundle.replies calls bundle.naming = calls.map bundle.firstReply ∧
      ∀ requested, bundle.firstReply (.generate requested) =
        match (bundle.generate requested).run [] with
        | .ok text entries => ⟨.ok (.code text), entries⟩
        | .error fault entries => ⟨.error fault, entries⟩ :=
  ⟨replies_of_caches hacyclic (.refl _ _) calls, firstReply_generate hacyclic⟩

/-- A module that is imported in different ways: its names are reached over several aliases. -/
def queriedDisk : Disk where
  workingDirectory := []
  files := [(["main.js"], .text ("import * as all from './mid';\n".toList ++
      "import value, \x7b first as start \x7d from './mid';\n".toList ++
      "export var r = [all, value, start];\nexport \x7b value \x7d;\n".toList)),
    (["mid.js"], .text ("export \x7b first \x7d from './end';\n".toList ++
      "var value = 1;\nexport default value;\n".toList)),
    (["end.js"], .text "export var first = 2, value = 3;\n".toList)]
  directories := []

theorem replies_queriedDisk : ∃ bundle log,
    (build queriedDisk ⟨"main.js"⟩).run [] = .ok bundle log ∧
      bundle.graph.AcyclicAliases ∧
      bundle.replies [.canonicalName 0 "start", .generate .named, .generate .default,
          .render bundle.statements, .generate .named] bundle.naming =
        [.canonicalName 0 "start", .generate .named, .generate .default,
          .render bundle.statements, .generate .named].map bundle.firstReply ∧
      bundle.firstReply (.generate .named) =
        match (bundle.generate .named).run [] with
        | .ok text entries => ⟨.ok (.code text), entries⟩
        | .error fault entries => ⟨.error fault, entries⟩ := by
  obtain ⟨bundle, log, hbuild, hcheck⟩ := exists_of_passes queriedDisk ⟨"main.js"⟩
    (fun bundle => decide bundle.graph.AcyclicAliases) (by decide +kernel)
  have hacyclic : bundle.graph.AcyclicAliases := of_decide_eq_true hcheck
  obtain ⟨hreplies, hfirst⟩ := replies_eq_firstReplies hacyclic _
  exact ⟨bundle, log, hbuild, hacyclic, hreplies, hfirst .named⟩

end Bundle
end ScriptBundler

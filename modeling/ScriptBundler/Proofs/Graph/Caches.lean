import ScriptBundler.Proofs.Graph.Following

/-!
# Numbers of paths and specifiers

A graph is asked for modules one by one: for its entry by a path, and for what a specifier leads to.
A path that has been read and a specifier that has been registered are found in a table of numbers;
everything else gets the next number, unless its file cannot be read.

The tables are kept next to the lists that the numbers count.  `Graph.Exact` says that they agree
with each other after any calls, on disks that may change in between, and that a call that fails
leaves nothing behind that a later one could come across.
-/

namespace ScriptBundler

open Files ScriptBundler.Module

/-- The module that a path leads to, or the fault that reading it ends with. -/
def Files.Disk.module (disk : Disk) (path : Path) : Except Fault Module :=
  match disk.read path with
  | .error cause => .error (.unreadableModule path cause)
  | .ok source =>
    match Module.ofSource path source with
    | .error fault => .error (.syntaxError path (Text.position source fault.offset))
    | .ok module => .ok module

theorem Files.Disk.module_eq_ok {disk : Disk} {path : Path} {module : Module}
    (hmodule : disk.module path = .ok module) :
    ∃ source, disk.read path = .ok source ∧ Module.ofSource path source = .ok module := by
  unfold Files.Disk.module at hmodule
  cases hread : disk.read path with
  | error cause =>
      rw [hread] at hmodule
      contradiction
  | ok source =>
      rw [hread] at hmodule
      cases hsource : Module.ofSource path source with
      | error fault =>
          simp only [hsource] at hmodule
          contradiction
      | ok found =>
          simp only [hsource] at hmodule
          obtain rfl := Except.ok.inj hmodule
          exact ⟨source, rfl, hsource⟩

/-- Reading a module fails with a fault of the disk, or because the text is no module. -/
theorem Files.Disk.module_eq_error {disk : Disk} {path : Path} {fault : Fault}
    (hmodule : disk.module path = .error fault) :
    (∃ cause, fault = .unreadableModule path cause) ∨
      ∃ position, fault = .syntaxError path position := by
  unfold Files.Disk.module at hmodule
  cases hread : disk.read path with
  | error cause =>
      rw [hread] at hmodule
      exact Or.inl ⟨cause, (Except.error.inj hmodule).symm⟩
  | ok source =>
      rw [hread] at hmodule
      cases hsource : Module.ofSource path source with
      | error wrong =>
          simp only [hsource] at hmodule
          exact Or.inr ⟨_, (Except.error.inj hmodule).symm⟩
      | ok found =>
          simp only [hsource] at hmodule
          contradiction

theorem Files.Disk.module_of_read {disk : Disk} {path : Path} {source : List Char}
    {module : Module} (hread : disk.read path = .ok source)
    (hsource : Module.ofSource path source = .ok module) : disk.module path = .ok module := by
  unfold Files.Disk.module
  simp only [hread, hsource]

theorem Files.Disk.module_path {disk : Disk} {path : Path} {module : Module}
    (hmodule : disk.module path = .ok module) : module.path = path := by
  obtain ⟨source, -, hsource⟩ := disk.module_eq_ok hmodule
  exact ofSource_path hsource

namespace Files.Path

variable {first second third : Path}

@[simp] theorem same_self (path : Path) : path.same path = true := by simp [same]

theorem same_symm (hsame : first.same second = true) : second.same first = true := by
  simp only [same, beq_iff_eq] at hsame ⊢
  exact hsame.symm

theorem same_trans (hfirst : first.same second = true) (hsecond : second.same third = true) :
    first.same third = true := by
  simp only [same, beq_iff_eq] at hfirst hsecond ⊢
  exact hfirst.trans hsecond

end Files.Path

/-! ## Calls -/

/-- A call that asks a graph for a module. -/
inductive Call where
  | load (path : Path)
  /-- What a specifier leads to, seen from an importer. -/
  | fetch (specifier : String) (importer : Path)

/-- What a call asks for. -/
inductive Wanted where
  | file (path : Path)
  | external (specifier : String)

/-- Whether the same thing is asked for.  Two texts can be the same path. -/
def Wanted.Same : Wanted → Wanted → Prop
  | .file first, .file second => first.same second = true
  | .external first, .external second => first = second
  | _, _ => False

/-- What a call asks for. -/
def Call.wanted : Call → Wanted
  | .load path => .file path
  | .fetch specifier importer =>
    match resolveFrom (directoryOf importer) specifier with
    | .file path => .file path
    | .external => .external specifier

/-- How a call is answered. -/
def Call.answer (disk : Disk) : Call → Build Target
  | .load path => Target.internal <$> Build.load disk path
  | .fetch specifier importer => Build.fetch disk specifier importer

namespace Graph

/-- The outcome of a call. -/
def perform (graph : Graph) (disk : Disk) (call : Call) : Outcome Target :=
  graph.run (call.answer disk)

/-- The graph after some calls, each with the disk as it is then.  Some of them may have failed. -/
def after (graph : Graph) : List (Disk × Call) → Graph
  | [] => graph
  | (disk, call) :: rest => (graph.perform disk call).graph.after rest

/-- The number that the tables have for what is asked for. -/
def known? (graph : Graph) : Wanted → Option Target
  | .file path => (graph.idOf? path).map .internal
  | .external specifier => (graph.externalIdOf? specifier).map .external

/-- Whether a number stands for what is asked for. -/
def Denotes (graph : Graph) : Target → Wanted → Prop
  | .internal id, .file path =>
    ∃ module, graph.module? id = some module ∧ module.path.same path = true
  | .external id, .external specifier =>
    ∃ external, graph.external? id = some external ∧ external.specifier = specifier
  | _, _ => False

/-- A graph whose modules, external modules and tables of numbers are those of another one. -/
structure Unchanged (before after : Graph) : Prop where
  modules : after.modules = before.modules
  externals : after.externals = before.externals
  paths : after.paths = before.paths
  specifiers : after.specifiers = before.specifiers

/-- The tables list the paths of the modules and the specifiers of the external modules, each with
its place, and none of them twice. -/
structure Indexed (graph : Graph) : Prop where
  paths : graph.paths = graph.modules.zipIdx.map fun entry => (entry.1.path, entry.2)
  apart : graph.modules.Pairwise fun first second => first.path.same second.path = false
  specifiers : graph.specifiers =
    graph.externals.zipIdx.map fun entry => (entry.1.specifier, entry.2)
  distinct : (graph.externals.map (·.specifier)).Nodup

/-- Whether a call reads the disk: it succeeds with a new number if the file is a module, and fails
with the fault of reading it if not. -/
def Attempts (graph : Graph) (disk : Disk) (call : Call) (path : Path) : Prop :=
  match disk.module path with
  | .ok module =>
    (graph.perform disk call).result = .ok (.internal graph.modules.length) ∧
      (graph.perform disk call).graph.modules = graph.modules ++ [module]
  | .error fault =>
    (graph.perform disk call).result = .error fault ∧
      graph.Unchanged (graph.perform disk call).graph

/-- The numbers of a graph are exact, whatever calls come next. -/
structure Exact (graph : Graph) : Prop where
  indexed : graph.Indexed
  /-- A number is found for what it stands for, and for nothing else. -/
  known : ∀ wanted target, graph.known? wanted = some target ↔ graph.Denotes target wanted
  /-- Every number goes on standing for the same. -/
  lasting : ∀ calls wanted target, graph.Denotes target wanted →
    (graph.after calls).Denotes target wanted
  /-- What a call has succeeded with stands for what it asked for, and every later call for that
  succeeds with it again, and creates nothing. -/
  repeated : ∀ disk call target, (graph.perform disk call).result = .ok target →
    (graph.perform disk call).graph.Denotes target call.wanted ∧
    ∀ calls later again, call.wanted.Same again.wanted →
      let earlier := (graph.perform disk call).graph.after calls
      (earlier.perform later again).result = .ok target ∧
        earlier.Unchanged (earlier.perform later again).graph
  /-- A call fails only for a file, and leaves nothing behind, so that calling again reads the disk
  as it is then. -/
  failed : ∀ disk call fault, (graph.perform disk call).result = .error fault →
    graph.Unchanged (graph.perform disk call).graph ∧
    ∃ path, call.wanted = .file path ∧
      ∀ later, (graph.perform disk call).graph.Attempts later call path

/-! ## Tables that list what is there -/

variable {graph before middle after : Graph} {disk : Disk} {call : Call} {path : Path}
  {specifier : String} {wanted other : Wanted} {target : Target}

theorem Unchanged.refl (graph : Graph) : graph.Unchanged graph := ⟨rfl, rfl, rfl, rfl⟩

theorem indexed_empty : Graph.empty.Indexed := ⟨rfl, .nil, rfl, .nil⟩

theorem Indexed.of_unchanged (hindexed : before.Indexed) (hunchanged : before.Unchanged after) :
    after.Indexed where
  paths := by rw [hunchanged.paths, hunchanged.modules, hindexed.paths]
  apart := hunchanged.modules ▸ hindexed.apart
  specifiers := by rw [hunchanged.specifiers, hunchanged.externals, hindexed.specifiers]
  distinct := hunchanged.externals ▸ hindexed.distinct

theorem known?_of_unchanged (hunchanged : before.Unchanged after) (wanted : Wanted) :
    after.known? wanted = before.known? wanted := by
  cases wanted with
  | file path => simp only [known?, Graph.idOf?, hunchanged.paths]
  | external specifier => simp only [known?, externalIdOf?, hunchanged.specifiers]

theorem Indexed.mem_paths (hindexed : graph.Indexed) {id : Nat} :
    (path, id) ∈ graph.paths ↔ ∃ module, graph.module? id = some module ∧ module.path = path := by
  rw [hindexed.paths, List.mem_map]
  constructor
  · rintro ⟨⟨module, position⟩, hmem, heq⟩
    obtain ⟨rfl, rfl⟩ := Prod.mk.inj heq
    exact ⟨module, List.mem_zipIdx_iff_getElem?.mp hmem, rfl⟩
  · rintro ⟨module, hmodule, rfl⟩
    exact ⟨(module, id), List.mem_zipIdx_iff_getElem?.mpr hmodule, rfl⟩

theorem Indexed.mem_specifiers (hindexed : graph.Indexed) {id : Nat} :
    (specifier, id) ∈ graph.specifiers ↔
      ∃ external, graph.external? id = some external ∧ external.specifier = specifier := by
  rw [hindexed.specifiers, List.mem_map]
  constructor
  · rintro ⟨⟨external, position⟩, hmem, heq⟩
    obtain ⟨rfl, rfl⟩ := Prod.mk.inj heq
    exact ⟨external, List.mem_zipIdx_iff_getElem?.mp hmem, rfl⟩
  · rintro ⟨external, hexternal, rfl⟩
    exact ⟨(external, id), List.mem_zipIdx_iff_getElem?.mpr hexternal, rfl⟩

/-- Two modules with the same path are one. -/
theorem Indexed.eq_of_same (hindexed : graph.Indexed) {first second : Nat}
    {module found : Module} (hmodule : graph.module? first = some module)
    (hfound : graph.module? second = some found)
    (hsame : module.path.same found.path = true) : first = second := by
  obtain ⟨hfirst, rfl⟩ := List.getElem?_eq_some_iff.mp hmodule
  obtain ⟨hsecond, rfl⟩ := List.getElem?_eq_some_iff.mp hfound
  have hapart := List.pairwise_iff_getElem.mp hindexed.apart
  rcases Nat.lt_trichotomy first second with hless | heq | hgreater
  · rw [hapart first second hfirst hsecond hless] at hsame
    contradiction
  · exact heq
  · have hother := Path.same_symm hsame
    rw [hapart second first hsecond hfirst hgreater] at hother
    contradiction

/-- A path has the number of the module that was read from it. -/
theorem Indexed.idOf?_eq_some_iff (hindexed : graph.Indexed) {id : Nat} :
    graph.idOf? path = some id ↔
      ∃ module, graph.module? id = some module ∧ module.path.same path = true := by
  constructor
  · intro hid
    obtain ⟨⟨found, position⟩, hfind, rfl⟩ := Option.map_eq_some_iff.mp hid
    obtain ⟨module, hmodule, rfl⟩ := hindexed.mem_paths.mp (List.mem_of_find?_eq_some hfind)
    have hsame := List.find?_some hfind
    exact ⟨module, hmodule, hsame⟩
  · rintro ⟨module, hmodule, hsame⟩
    have hmem := hindexed.mem_paths.mpr ⟨module, hmodule, rfl⟩
    cases hfind : graph.paths.find? (·.1.same path) with
    | none => exact absurd hsame (List.find?_eq_none.mp hfind _ hmem)
    | some entry =>
        obtain ⟨found, position⟩ := entry
        obtain ⟨other, hother, rfl⟩ := hindexed.mem_paths.mp (List.mem_of_find?_eq_some hfind)
        have hagain := List.find?_some hfind
        obtain rfl :=
          hindexed.eq_of_same hother hmodule (Path.same_trans hagain (Path.same_symm hsame))
        unfold Graph.idOf?
        rw [hfind]
        rfl

theorem Indexed.map_fst_specifiers (hindexed : graph.Indexed) :
    graph.specifiers.map (·.1) = graph.externals.map (·.specifier) := by
  rw [hindexed.specifiers, List.map_map]
  calc graph.externals.zipIdx.map (fun entry => entry.1.specifier)
      = (graph.externals.zipIdx.map (·.1)).map (·.specifier) := by rw [List.map_map]; rfl
    _ = graph.externals.map (·.specifier) := by rw [List.zipIdx_map_fst]

/-- A specifier has the number of its external module. -/
theorem Indexed.externalIdOf?_eq_some_iff (hindexed : graph.Indexed) {id : Nat} :
    graph.externalIdOf? specifier = some id ↔
      ∃ external, graph.external? id = some external ∧ external.specifier = specifier := by
  rw [← hindexed.mem_specifiers]
  refine ⟨Table.mem_of_get?, Table.get?_eq_some_of_mem ?_⟩
  rw [hindexed.map_fst_specifiers]
  exact hindexed.distinct

theorem Indexed.known?_eq_some_iff (hindexed : graph.Indexed) :
    graph.known? wanted = some target ↔ graph.Denotes target wanted := by
  cases wanted with
  | file path =>
      simp only [known?, Option.map_eq_some_iff, hindexed.idOf?_eq_some_iff]
      cases target with
      | internal id => simp [Denotes]
      | external id => simp [Denotes]
  | external specifier =>
      simp only [known?, Option.map_eq_some_iff, hindexed.externalIdOf?_eq_some_iff]
      cases target with
      | internal id => simp [Denotes]
      | external id => simp [Denotes]

/-- A path that has no number is not that of a module. -/
theorem Indexed.not_same_of_none (hindexed : graph.Indexed) (hnone : graph.idOf? path = none)
    {id : Nat} {module : Module} (hmodule : graph.module? id = some module) :
    module.path.same path = false := by
  rw [← Bool.not_eq_true]
  intro hsame
  rw [hindexed.idOf?_eq_some_iff.mpr ⟨module, hmodule, hsame⟩] at hnone
  contradiction

/-- A module that is read under a new path gets the next number. -/
theorem Indexed.addModule (hindexed : graph.Indexed) (hnone : graph.idOf? path = none)
    {module : Module} (hpath : module.path = path) : (graph.addModule path module).Indexed where
  paths := by
    show graph.paths ++ [(path, graph.modules.length)] = _
    rw [hindexed.paths, show (graph.addModule path module).modules = graph.modules ++ [module]
      from rfl, List.zipIdx_append, List.map_append]
    simp [hpath]
  apart := by
    refine List.pairwise_append.mpr ⟨hindexed.apart, List.pairwise_singleton _ _, ?_⟩
    intro found hfound last hlast
    obtain rfl := List.mem_singleton.mp hlast
    obtain ⟨id, hid⟩ := List.mem_iff_getElem?.mp hfound
    rw [hpath]
    exact hindexed.not_same_of_none hnone hid
  specifiers := hindexed.specifiers
  distinct := hindexed.distinct

/-- A new specifier gets the next number. -/
theorem Indexed.addExternal (hindexed : graph.Indexed)
    (hnone : graph.externalIdOf? specifier = none) : (graph.addExternal specifier).Indexed := by
  have hnew : specifier ∉ graph.externals.map (·.specifier) := by
    intro hmem
    obtain ⟨external, hfound, hspecifier⟩ := List.mem_map.mp hmem
    obtain ⟨id, hid⟩ := List.mem_iff_getElem?.mp hfound
    rw [hindexed.externalIdOf?_eq_some_iff.mpr ⟨external, hid, hspecifier⟩] at hnone
    contradiction
  constructor
  case paths => exact hindexed.paths
  case apart => exact hindexed.apart
  case specifiers =>
    show graph.specifiers.set specifier graph.externals.length =
      (graph.externals ++ [External.ofSpecifier specifier]).zipIdx.map _
    rw [Table.set_eq_append hnone, hindexed.specifiers, List.zipIdx_append, List.map_append]
    simp [External.ofSpecifier]
  case distinct =>
    show ((graph.externals ++ [External.ofSpecifier specifier]).map (·.specifier)).Nodup
    rw [List.map_append, List.nodup_append]
    refine ⟨hindexed.distinct, by simp, ?_⟩
    intro found hfound last hlast
    obtain rfl : last = specifier := List.mem_singleton.mp hlast
    rintro rfl
    exact hnew hfound

/-! ## One call -/

/-- The resolver has only given right answers. -/
def ResolvesRight (graph : Graph) : Prop :=
  ∀ directory specifier answer, ((directory, specifier), answer) ∈ graph.resolver.answers →
    answer = resolveFrom directory specifier

/-- What one call does: it finds what it asks for, reads a module, fails to read one, or registers
an external module. -/
inductive Answered (graph : Graph) (disk : Disk) (wanted : Wanted) : Outcome Target → Prop where
  | known {target : Target} {after : Graph} {log : List Log.Entry}
      (hknown : graph.known? wanted = some target) (hunchanged : graph.Unchanged after) :
      Answered graph disk wanted ⟨after, log, .ok target⟩
  | read {path : Path} {module : Module} {after : Graph} {log : List Log.Entry}
      (hwanted : wanted = .file path) (hnew : graph.idOf? path = none)
      (hmodule : disk.module path = .ok module)
      (hafter : (graph.addModule path module).Unchanged after) :
      Answered graph disk wanted ⟨after, log, .ok (.internal graph.modules.length)⟩
  | failed {path : Path} {fault : Fault} {after : Graph} {log : List Log.Entry}
      (hwanted : wanted = .file path) (hnew : graph.idOf? path = none)
      (hmodule : disk.module path = .error fault) (hunchanged : graph.Unchanged after) :
      Answered graph disk wanted ⟨after, log, .error fault⟩
  | registered {specifier : String} {after : Graph} {log : List Log.Entry}
      (hwanted : wanted = .external specifier) (hnew : graph.externalIdOf? specifier = none)
      (hafter : (graph.addExternal specifier).Unchanged after) :
      Answered graph disk wanted ⟨after, log, .ok (.external graph.externals.length)⟩

end Graph

namespace Build

variable {disk : Disk} {before : Progress} {path : Path} {specifier : String}

theorem run_load_known {id : Nat} (hid : before.graph.idOf? path = some id) :
    (load disk path).run before = .ok id before := by
  rw [load, run_get_bind]
  simp only [hid, run_pure]

theorem run_load_read {module : Module} (hnew : before.graph.idOf? path = none)
    (hmodule : disk.module path = .ok module) :
    ∃ log, (load disk path).run before = .ok before.graph.modules.length
      { before with graph := before.graph.addModule path module, log } := by
  obtain ⟨source, hread, hsource⟩ := disk.module_eq_ok hmodule
  rw [load, run_get_bind]
  simp only [hnew, run_report_bind, hread, hsource, run_change_bind, run_pure]
  exact ⟨_, rfl⟩

theorem run_load_failed {fault : Fault} (hnew : before.graph.idOf? path = none)
    (hmodule : disk.module path = .error fault) :
    ∃ log, (load disk path).run before = .error fault { before with log } := by
  rw [load, run_get_bind]
  simp only [hnew, run_report_bind]
  unfold Files.Disk.module at hmodule
  cases hread : disk.read path with
  | error cause =>
      rw [hread] at hmodule
      obtain rfl := Except.error.inj hmodule
      exact ⟨_, rfl⟩
  | ok source =>
      rw [hread] at hmodule
      cases hsource : Module.ofSource path source with
      | error wrong =>
          simp only [hsource] at hmodule
          obtain rfl := Except.error.inj hmodule
          simp only [hsource, run_throw]
          exact ⟨_, rfl⟩
      | ok module =>
          simp only [hsource] at hmodule
          contradiction

theorem run_register_known {id : Nat} (hid : before.graph.externalIdOf? specifier = some id) :
    (register specifier).run before = .ok id before := by
  rw [register, run_get_bind]
  simp only [hid, run_pure]

theorem run_register_new (hnew : before.graph.externalIdOf? specifier = none) :
    ∃ log, (register specifier).run before = .ok before.graph.externals.length
      { before with graph := before.graph.addExternal specifier, log } := by
  rw [register, run_get_bind]
  simp only [hnew, run_report_bind, run_change_bind, run_pure]
  exact ⟨_, rfl⟩

/-- What a specifier leads to is loaded or registered, once the resolver knows it. -/
theorem run_fetch (hright : before.graph.ResolvesRight) (importer : Path) :
    ∃ resolver log, Graph.ResolvesRight { before.graph with resolver } ∧
      (fetch disk specifier importer).run before =
        EStateM.run
          (match resolveFrom (directoryOf importer) specifier with
          | .file path => Target.internal <$> load disk path
          | .external => Target.external <$> register specifier)
          { before with graph := { before.graph with resolver }, log } := by
  obtain ⟨hresolution, hanswers⟩ := Resolver.resolve_right hright specifier importer
  rw [fetch, run_get_bind]
  generalize before.graph.resolver.resolve specifier importer = resolved at *
  obtain ⟨resolver, resolution, entries⟩ := resolved
  refine ⟨resolver, before.log ++ entries, hanswers, ?_⟩
  simp only [run_change_bind, run_report_bind]
  obtain rfl := hresolution
  rfl

/-- The outcome that a run ends with. -/
def outcomeOf {α : Type} : EStateM.Result Fault Progress α → Outcome α
  | .ok value progress => ⟨progress.graph, progress.log, .ok value⟩
  | .error fault progress => ⟨progress.graph, progress.log, .error fault⟩

variable {graph : Graph}

theorem answered_load (hsame : graph.Unchanged before.graph)
    (hright : before.graph.ResolvesRight) (path : Path) :
    let outcome := outcomeOf ((Target.internal <$> load disk path).run before)
    graph.Answered disk (.file path) outcome ∧ outcome.graph.ResolvesRight := by
  have hids : before.graph.idOf? path = graph.idOf? path := by
    unfold Graph.idOf?
    rw [hsame.paths]
  rw [map_eq_pure_bind]
  cases hid : graph.idOf? path with
  | some id =>
      rw [run_bind_of_ok (run_load_known (hids.trans hid))]
      exact ⟨.known (by simp [Graph.known?, hid]) hsame, hright⟩
  | none =>
      cases hmodule : disk.module path with
      | ok module =>
          obtain ⟨log, hrun⟩ := run_load_read (hids.trans hid) hmodule
          rw [run_bind_of_ok hrun, run_pure, hsame.modules]
          have hafter : (graph.addModule path module).Unchanged
              (before.graph.addModule path module) := by
            unfold Graph.addModule
            exact ⟨by rw [hsame.modules], hsame.externals, by rw [hsame.paths, hsame.modules],
              hsame.specifiers⟩
          exact ⟨.read rfl hid hmodule hafter, hright⟩
      | error fault =>
          obtain ⟨log, hrun⟩ := run_load_failed (hids.trans hid) hmodule
          rw [run_bind_of_error hrun]
          exact ⟨.failed rfl hid hmodule hsame, hright⟩

theorem answered_register (hsame : graph.Unchanged before.graph)
    (hright : before.graph.ResolvesRight) (specifier : String) :
    let outcome := outcomeOf ((Target.external <$> register specifier).run before)
    graph.Answered disk (.external specifier) outcome ∧ outcome.graph.ResolvesRight := by
  have hids : before.graph.externalIdOf? specifier = graph.externalIdOf? specifier := by
    unfold Graph.externalIdOf?
    rw [hsame.specifiers]
  rw [map_eq_pure_bind]
  cases hid : graph.externalIdOf? specifier with
  | some id =>
      rw [run_bind_of_ok (run_register_known (hids.trans hid))]
      exact ⟨.known (by simp [Graph.known?, hid]) hsame, hright⟩
  | none =>
      obtain ⟨log, hrun⟩ := run_register_new (hids.trans hid)
      rw [run_bind_of_ok hrun, run_pure, hsame.externals]
      have hafter : (graph.addExternal specifier).Unchanged
          (before.graph.addExternal specifier) := by
        unfold Graph.addExternal
        exact ⟨hsame.modules, by rw [hsame.externals], hsame.paths,
          by rw [hsame.specifiers, hsame.externals]⟩
      exact ⟨.registered rfl hid hafter, hright⟩

end Build

namespace Graph

variable {graph : Graph} {disk : Disk} {wanted : Wanted} {outcome : Outcome Target}

theorem answered_perform (hright : graph.ResolvesRight) (disk : Disk) (call : Call) :
    graph.Answered disk call.wanted (graph.perform disk call) ∧
      (graph.perform disk call).graph.ResolvesRight := by
  show graph.Answered disk call.wanted
      (Build.outcomeOf ((call.answer disk).run { graph, emitted := [], log := [] })) ∧
    Graph.ResolvesRight
      (Build.outcomeOf ((call.answer disk).run { graph, emitted := [], log := [] })).graph
  cases call with
  | load path => exact Build.answered_load (.refl graph) hright path
  | fetch specifier importer =>
      have hstart : Progress.graph { graph, emitted := [], log := [] } |>.ResolvesRight := hright
      obtain ⟨resolver, log, hright', hrun⟩ := Build.run_fetch hstart importer
      rw [Call.answer, hrun, Call.wanted]
      have hsame : graph.Unchanged { graph with resolver } := ⟨rfl, rfl, rfl, rfl⟩
      cases resolveFrom (directoryOf importer) specifier with
      | file path => exact Build.answered_load hsame hright' path
      | external => exact Build.answered_register hsame hright' specifier

/-- A call keeps the tables in step with what they count. -/
theorem Answered.indexed (hanswered : graph.Answered disk wanted outcome)
    (hindexed : graph.Indexed) : outcome.graph.Indexed := by
  cases hanswered with
  | known _ hunchanged => exact hindexed.of_unchanged hunchanged
  | read _ hnew hmodule hafter =>
      exact (hindexed.addModule hnew (disk.module_path hmodule)).of_unchanged hafter
  | failed _ _ _ hunchanged => exact hindexed.of_unchanged hunchanged
  | registered _ hnew hafter => exact (hindexed.addExternal hnew).of_unchanged hafter

/-- A call takes away nothing that has a number. -/
theorem Answered.isPrefix (hanswered : graph.Answered disk wanted outcome) :
    graph.modules <+: outcome.graph.modules ∧ graph.externals <+: outcome.graph.externals := by
  cases hanswered with
  | known _ hunchanged =>
      rw [hunchanged.modules, hunchanged.externals]
      exact ⟨List.prefix_refl _, List.prefix_refl _⟩
  | read _ _ _ hafter =>
      rw [hafter.modules, hafter.externals]
      exact ⟨List.prefix_append _ _, List.prefix_refl _⟩
  | failed _ _ _ hunchanged =>
      rw [hunchanged.modules, hunchanged.externals]
      exact ⟨List.prefix_refl _, List.prefix_refl _⟩
  | registered _ _ hafter =>
      rw [hafter.modules, hafter.externals]
      exact ⟨List.prefix_refl _, List.prefix_append _ _⟩

/-- What stands in a list stands in a longer one. -/
theorem getElem?_of_isPrefix {α : Type} {short long : List α} (hshort : short <+: long)
    {position : Nat} {item : α} (hitem : short[position]? = some item) :
    long[position]? = some item := by
  obtain ⟨rest, rfl⟩ := hshort
  rw [List.getElem?_append_left (List.getElem?_eq_some_iff.mp hitem).1, hitem]

theorem Denotes.of_isPrefix {before after : Graph} {target : Target}
    (hdenotes : before.Denotes target wanted) (hmodules : before.modules <+: after.modules)
    (hexternals : before.externals <+: after.externals) : after.Denotes target wanted := by
  cases target <;> cases wanted
  case internal.file id path =>
    obtain ⟨module, hmodule, hsame⟩ := hdenotes
    exact ⟨module, getElem?_of_isPrefix hmodules hmodule, hsame⟩
  case external.external id specifier =>
    obtain ⟨external, hexternal, hspecifier⟩ := hdenotes
    exact ⟨external, getElem?_of_isPrefix hexternals hexternal, hspecifier⟩
  all_goals exact hdenotes.elim

theorem Denotes.of_same {target : Target} {other : Wanted} (hsame : wanted.Same other)
    (hdenotes : graph.Denotes target wanted) : graph.Denotes target other := by
  cases wanted <;> cases other
  case file.file first second =>
    cases target with
    | internal id =>
        obtain ⟨module, hmodule, hpath⟩ := hdenotes
        exact ⟨module, hmodule, Path.same_trans hpath hsame⟩
    | external id => exact hdenotes.elim
  case external.external first second =>
    obtain rfl : first = second := hsame
    exact hdenotes
  all_goals exact hsame.elim

/-- What a call succeeds with stands for what it asks for. -/
theorem Answered.denotes (hanswered : graph.Answered disk wanted outcome)
    (hindexed : graph.Indexed) {target : Target} (hresult : outcome.result = .ok target) :
    outcome.graph.Denotes target wanted := by
  have hlater := hanswered.indexed hindexed
  rw [← hlater.known?_eq_some_iff]
  cases hanswered with
  | known hknown hunchanged =>
      obtain rfl := Except.ok.inj hresult
      rw [known?_of_unchanged hunchanged, hknown]
  | read hwanted hnew hmodule hafter =>
      obtain rfl := Except.ok.inj hresult
      subst hwanted
      rw [known?_of_unchanged hafter, known?, idOf?_addModule, hnew, Option.none_or,
        if_pos (Path.same_self _), Option.map_some]
  | failed => contradiction
  | registered hwanted hnew hafter =>
      obtain rfl := Except.ok.inj hresult
      subst hwanted
      rw [known?_of_unchanged hafter, known?, externalIdOf?_addExternal, if_pos rfl,
        Option.map_some]

/-- A call for what has a number finds it. -/
theorem Answered.of_known (hanswered : graph.Answered disk wanted outcome) {target : Target}
    (hknown : graph.known? wanted = some target) :
    outcome.result = .ok target ∧ graph.Unchanged outcome.graph := by
  cases hanswered with
  | known hfound hunchanged =>
      obtain rfl := Option.some.inj (hfound.symm.trans hknown)
      exact ⟨rfl, hunchanged⟩
  | read hwanted hnew | failed hwanted hnew | registered hwanted hnew =>
      subst hwanted
      simp [known?, hnew] at hknown

/-- A call fails only for a file that is not there as a module. -/
theorem Answered.of_error (hanswered : graph.Answered disk wanted outcome) {fault : Fault}
    (hresult : outcome.result = .error fault) :
    graph.Unchanged outcome.graph ∧
      ∃ path, wanted = .file path ∧ graph.idOf? path = none := by
  cases hanswered with
  | known | read | registered => contradiction
  | failed hwanted hnew hmodule hunchanged => exact ⟨hunchanged, _, hwanted, hnew⟩

/-- A call for a path that has no number reads the disk. -/
theorem attempts_of_none (hright : graph.ResolvesRight) {call : Call} {path : Path}
    (hwanted : call.wanted = .file path) (hnew : graph.idOf? path = none) (disk : Disk) :
    graph.Attempts disk call path := by
  obtain ⟨hanswered, -⟩ := answered_perform hright disk call
  unfold Attempts
  rw [hwanted] at hanswered
  generalize graph.perform disk call = outcome at *
  cases hanswered with
  | known hknown => simp [known?, hnew] at hknown
  | read hsame _ hmodule hafter =>
      obtain rfl := Wanted.file.inj hsame
      rw [hmodule]
      exact ⟨rfl, hafter.modules⟩
  | failed hsame _ hmodule hunchanged =>
      obtain rfl := Wanted.file.inj hsame
      rw [hmodule]
      exact ⟨rfl, hunchanged⟩
  | registered hsame => contradiction

/-! ## Several calls -/

theorem after_spec (hright : graph.ResolvesRight) (hindexed : graph.Indexed)
    (calls : List (Disk × Call)) :
    (graph.after calls).ResolvesRight ∧ (graph.after calls).Indexed ∧
      graph.modules <+: (graph.after calls).modules ∧
      graph.externals <+: (graph.after calls).externals := by
  induction calls generalizing graph with
  | nil => exact ⟨hright, hindexed, List.prefix_refl _, List.prefix_refl _⟩
  | cons first rest ih =>
      obtain ⟨disk, call⟩ := first
      obtain ⟨hanswered, hright'⟩ := answered_perform hright disk call
      obtain ⟨hmodules, hexternals⟩ := hanswered.isPrefix
      obtain ⟨hlast, hlastIndexed, hmodules', hexternals'⟩ :=
        ih hright' (hanswered.indexed hindexed)
      exact ⟨hlast, hlastIndexed, hmodules.trans hmodules', hexternals.trans hexternals'⟩

/-- Whatever calls a graph has answered, with or without success, its numbers are exact. -/
theorem exact_after (calls : List (Disk × Call)) : (Graph.empty.after calls).Exact := by
  have hstart : Graph.empty.ResolvesRight := fun _ _ _ h => absurd h List.not_mem_nil
  obtain ⟨hright, hindexed, -, -⟩ := after_spec hstart indexed_empty calls
  generalize Graph.empty.after calls = graph at *
  constructor
  case indexed => exact hindexed
  case known => exact fun _ _ => hindexed.known?_eq_some_iff
  case lasting =>
    intro more wanted target hdenotes
    obtain ⟨-, -, hmodules, hexternals⟩ := after_spec hright hindexed more
    exact hdenotes.of_isPrefix hmodules hexternals
  case repeated =>
    intro disk call target hresult
    obtain ⟨hanswered, hright'⟩ := answered_perform hright disk call
    have hdenotes := hanswered.denotes hindexed hresult
    refine ⟨hdenotes, fun more later again hsame => ?_⟩
    obtain ⟨hlast, hlastIndexed, hmodules, hexternals⟩ :=
      after_spec hright' (hanswered.indexed hindexed) more
    have hknown := hlastIndexed.known?_eq_some_iff.mpr
      ((hdenotes.of_isPrefix hmodules hexternals).of_same hsame)
    exact (answered_perform hlast later again).1.of_known hknown
  case failed =>
    intro disk call fault hresult
    obtain ⟨hanswered, hright'⟩ := answered_perform hright disk call
    obtain ⟨hunchanged, path, hwanted, hnew⟩ := hanswered.of_error hresult
    refine ⟨hunchanged, path, hwanted, attempts_of_none hright' hwanted ?_⟩
    unfold Graph.idOf? at hnew ⊢
    rw [hunchanged.paths, hnew]

end Graph

end ScriptBundler

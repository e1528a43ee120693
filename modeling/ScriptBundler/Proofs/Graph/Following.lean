import ScriptBundler.Proofs.Files.Resolving
import ScriptBundler.Proofs.Graph.Growth

/-!
# Following specifiers and imports

What a graph looks like after a specifier has been followed: the module or external module that it
leads to is there, under the number that comes back, and nothing has been included or requested.
The cache of the resolver does not show.
-/

namespace ScriptBundler

open Files ScriptBundler.Module Script

namespace Graph

/-- The module that an import of a module leads to; there is none if it leads outside the project,
or to a file that has not been read. -/
def leadsTo (graph : Graph) (module : Module) (entry : Import) : Option Nat :=
  match resolveFrom (directoryOf module.path) entry.source with
  | .file path => graph.idOf? path
  | .external => none

/-! ## More modules -/

/-- What stands at a position of a list with one more element. -/
theorem getElem?_append_singleton {α : Type} (items : List α) (last : α) (position : Nat) :
    (items ++ [last])[position]? =
      if position = items.length then some last else items[position]? := by
  rw [List.getElem?_append]
  rcases Nat.lt_trichotomy position items.length with hless | heq | hgreater
  · rw [if_pos hless, if_neg (by omega)]
  · simp [heq]
  · rw [if_neg (by omega), if_neg (by omega), List.getElem?_singleton, if_neg (by omega),
      List.getElem?_eq_none (by omega)]

variable {graph : Graph} {path : Path} {module : Module}

theorem module?_addModule (graph : Graph) (path : Path) (module : Module) (id : Nat) :
    (graph.addModule path module).module? id =
      if id = graph.modules.length then some module else graph.module? id := by
  show (graph.modules ++ [module])[id]? = _
  rw [getElem?_append_singleton]
  rfl

theorem idOf?_addModule (graph : Graph) (path : Path) (module : Module) (other : Path) :
    (graph.addModule path module).idOf? other =
      (graph.idOf? other).or (if path.same other then some graph.modules.length else none) := by
  show ((graph.paths ++ [(path, graph.modules.length)]).find? _).map _ = _
  rw [List.find?_append, Option.map_or]
  cases hsame : path.same other <;> simp [hsame, Graph.idOf?]

/-- A module that is there is not the one that is added. -/
theorem ne_length_of_module? {id : Nat} (hmodule : graph.module? id = some module) :
    id ≠ graph.modules.length :=
  Nat.ne_of_lt (List.getElem?_eq_some_iff.mp hmodule).1

theorem extends_addModule (graph : Graph) (path : Path) (module : Module) :
    graph.Extends (graph.addModule path module) where
  module := fun id found hfound => by
    refine ⟨found, ?_, .refl found⟩
    rw [module?_addModule, if_neg (ne_length_of_module? hfound), hfound]
  idOf? := fun hid => by rw [idOf?_addModule, hid, Option.some_or]

/-- Nothing of a module that has just been read is included or requested. -/
theorem quiet_addModule {source : List Char} (graph : Graph)
    (hsource : Module.ofSource path source = .ok module) :
    graph.Quiet (graph.addModule path module) := by
  have hmodule : ∀ id found, (graph.addModule path module).module? id = some found →
      graph.module? id = some found ∨ found = module := by
    intro id found hfound
    rw [module?_addModule] at hfound
    split at hfound
    · exact Or.inr (Option.some.inj hfound).symm
    · exact Or.inl hfound
  constructor
  case toExtends => exact extends_addModule graph path module
  case includes =>
    rintro address ⟨found, hfound, hincludes⟩
    rcases hmodule _ found hfound with hold | rfl
    · exact ⟨found, hold, hincludes⟩
    · exact absurd hincludes (ofSource_not_includes hsource _)
  case requested =>
    rintro id name ⟨found, hfound, hname⟩
    rcases hmodule _ found hfound with hold | rfl
    · exact ⟨found, hold, hname⟩
    · rw [ofSource_requested hsource] at hname
      exact absurd hname List.not_mem_nil
  case wellFormed =>
    intro hwf
    refine ⟨fun id found hfound => ?_, fun other id hid => ?_, hwf.resolver⟩
    · rcases hmodule _ found hfound with hold | rfl
      · exact hwf.module id found hold
      · exact ofSource_wellFormed hsource
    · rw [idOf?_addModule] at hid
      rcases Option.or_eq_some_iff.mp hid with hold | ⟨-, hnew⟩
      · obtain ⟨found, hfound, hsame⟩ := hwf.ofPath other id hold
        rw [module?_addModule, if_neg (ne_length_of_module? hfound)]
        exact ⟨found, hfound, hsame⟩
      · obtain ⟨hsame, hlength⟩ := Option.ite_none_right_eq_some.mp hnew
        obtain rfl := Option.some.inj hlength
        exact ⟨module, by rw [module?_addModule, if_pos rfl], ofSource_path hsource ▸ hsame⟩

/-! ## More external modules -/

theorem external?_addExternal (graph : Graph) (specifier : String) (id : Nat) :
    (graph.addExternal specifier).external? id =
      if id = graph.externals.length then some (.ofSpecifier specifier)
        else graph.external? id := by
  show (graph.externals ++ [_])[id]? = _
  rw [getElem?_append_singleton]
  rfl

theorem externalIdOf?_addExternal (graph : Graph) (specifier other : String) :
    (graph.addExternal specifier).externalIdOf? other =
      if specifier = other then some graph.externals.length else graph.externalIdOf? other :=
  Table.get?_set _ _ _ _

end Graph

namespace Build

variable {disk : Disk} {before after : Progress}

/-- Loading a path finds its module, or reads it. -/
theorem load_cases {path : Path} {id : Nat} (hrun : (load disk path).run before = .ok id after) :
    (after = before ∧ before.graph.idOf? path = some id) ∨
      ∃ source module, before.graph.idOf? path = none ∧ disk.read path = .ok source ∧
        Module.ofSource path source = .ok module ∧ id = before.graph.modules.length ∧
        after.graph = before.graph.addModule path module := by
  rw [load, run_get_bind] at hrun
  cases hid : before.graph.idOf? path with
  | some known =>
      simp only [hid, run_pure] at hrun
      obtain ⟨rfl, rfl⟩ := EStateM.Result.ok.inj hrun
      exact Or.inl ⟨rfl, rfl⟩
  | none =>
      simp only [hid, run_report_bind] at hrun
      cases hread : disk.read path with
      | error cause =>
          rw [hread] at hrun
          contradiction
      | ok source =>
          cases hsource : Module.ofSource path source with
          | error fault =>
              simp only [hread, hsource] at hrun
              contradiction
          | ok module =>
              simp only [hread, hsource, run_report_bind, run_change_bind, run_pure] at hrun
              obtain ⟨rfl, rfl⟩ := EStateM.Result.ok.inj hrun
              exact Or.inr ⟨source, module, rfl, rfl, hsource, rfl, rfl⟩

/-- Registering a specifier finds its external module, or adds it. -/
theorem register_cases {specifier : String} {id : Nat}
    (hrun : (register specifier).run before = .ok id after) :
    (after = before ∧ before.graph.externalIdOf? specifier = some id) ∨
      (before.graph.externalIdOf? specifier = none ∧ id = before.graph.externals.length ∧
        after.graph = before.graph.addExternal specifier) := by
  rw [register, run_get_bind] at hrun
  cases hid : before.graph.externalIdOf? specifier with
  | some known =>
      simp only [hid, run_pure] at hrun
      obtain ⟨rfl, rfl⟩ := EStateM.Result.ok.inj hrun
      exact Or.inl ⟨rfl, rfl⟩
  | none =>
      simp only [hid, run_report_bind, run_change_bind, run_pure] at hrun
      obtain ⟨rfl, rfl⟩ := EStateM.Result.ok.inj hrun
      exact Or.inr ⟨rfl, rfl, rfl⟩

theorem load_ok {path : Path} {id : Nat} (hrun : (load disk path).run before = .ok id after) :
    before.graph.Quiet after.graph ∧ after.graph.idOf? path = some id := by
  rcases load_cases hrun with ⟨rfl, hid⟩ | ⟨source, module, hnone, -, hsource, rfl, hafter⟩
  · exact ⟨.refl _, hid⟩
  · rw [hafter]
    refine ⟨Graph.quiet_addModule _ hsource, ?_⟩
    have hsame : path.same path = true := by simp [Path.same]
    rw [Graph.idOf?_addModule, hnone, if_pos hsame, Option.none_or]

/-- Following a specifier is quiet, and gives what the specifier leads to. -/
theorem fetch_ok {specifier : String} {importer : Path} {target : Target}
    (hwf : before.graph.WellFormed)
    (hrun : (fetch disk specifier importer).run before = .ok target after) :
    before.graph.Quiet after.graph ∧
      match resolveFrom (directoryOf importer) specifier with
      | .file path => ∃ id, target = .internal id ∧ after.graph.idOf? path = some id
      | .external => ∃ id, target = .external id := by
  obtain ⟨hresolution, hanswers⟩ := Resolver.resolve_right hwf.resolver specifier importer
  rw [fetch, run_get_bind] at hrun
  generalize before.graph.resolver.resolve specifier importer = resolved at *
  obtain ⟨resolver, resolution, entries⟩ := resolved
  simp only [run_change_bind, run_report_bind] at hrun hresolution hanswers
  have hcached : before.graph.Quiet { before.graph with resolver } :=
    .of_modules_eq rfl rfl fun _ => hanswers
  rw [← hresolution]
  cases resolution with
  | file path =>
      obtain ⟨id, hload, rfl⟩ := run_map_eq_ok hrun
      obtain ⟨hquiet, hid⟩ := load_ok hload
      exact ⟨hcached.trans hquiet, id, rfl, hid⟩
  | external =>
      obtain ⟨id, hregister, rfl⟩ := run_map_eq_ok hrun
      refine ⟨hcached.trans ?_, id, rfl⟩
      rcases register_cases hregister with ⟨rfl, -⟩ | ⟨-, -, hafter⟩
      · exact .refl _
      · rw [hafter]
        exact .of_modules_eq rfl rfl fun h => h.resolver

end Build

end ScriptBundler

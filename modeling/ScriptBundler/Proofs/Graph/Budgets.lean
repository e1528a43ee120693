import Mathlib.Algebra.Order.BigOperators.Group.List
import Mathlib.Algebra.GroupWithZero.Nat
import Mathlib.Algebra.Order.Group.Nat
import Mathlib.Data.List.Perm.Subperm
import ScriptBundler.Proofs.Files.Places
import ScriptBundler.Proofs.Graph.Aliases
import ScriptBundler.Proofs.Graph.Pursuits

/-!
# What can be read from a disk

A file can be read under several paths: an absolute specifier is a path as it stands, and a relative
one leads to a path in normal form, of which there are few for each file.  So the paths that imports
can lead to are bounded, whatever directories the importers are in, and with them the weights of all
modules that can still be read.
-/

namespace ScriptBundler

open Files ScriptBundler.Module

/-! ## Sums -/

section Total

variable {α β : Type} {bound : Nat}

theorem total_eq_sum (counts : List Nat) : total counts = counts.sum := by
  induction counts with
  | nil => rfl
  | cons count rest ih => rw [total, ih, List.sum_cons]

theorem total_append (left right : List Nat) :
    total (left ++ right) = total left + total right := by
  simp only [total_eq_sum, List.sum_append]

theorem le_total_of_mem {count : Nat} {counts : List Nat} (hmem : count ∈ counts) :
    count ≤ total counts := by
  rw [total_eq_sum]
  exact List.single_le_sum (fun _ _ => Nat.zero_le _) count hmem

theorem total_map_le_mul {items : List α} {count : α → Nat}
    (hbound : ∀ item ∈ items, count item ≤ bound) :
    total (items.map count) ≤ items.length * bound := by
  induction items with
  | nil => simp [total]
  | cons first rest ih =>
      have hfirst := hbound first List.mem_cons_self
      have hrest := ih fun item hmem => hbound item (List.mem_cons_of_mem _ hmem)
      rw [List.map_cons, total, List.length_cons, Nat.succ_mul]
      omega

theorem total_map_mono {items : List α} {count other : α → Nat}
    (hle : ∀ item ∈ items, count item ≤ other item) :
    total (items.map count) ≤ total (items.map other) := by
  induction items with
  | nil => exact Nat.le_refl _
  | cons first rest ih =>
      have hfirst := hle first List.mem_cons_self
      have hrest := ih fun item hmem => hle item (List.mem_cons_of_mem _ hmem)
      simp only [List.map_cons, total]
      omega

theorem total_map_flatMap (items : List α) (parts : α → List β) (count : β → Nat) :
    total ((items.flatMap parts).map count) =
      total (items.map fun item => total ((parts item).map count)) := by
  induction items with
  | nil => rfl
  | cons first rest ih =>
      rw [List.flatMap_cons, List.map_append, total_append, ih, List.map_cons, total]

theorem total_map_mul (items : List α) (count : α → Nat) (factor : Nat) :
    total (items.map fun item => factor * count item) = factor * total (items.map count) := by
  induction items with
  | nil => rfl
  | cons first rest ih => rw [List.map_cons, total, ih, List.map_cons, total, Nat.mul_add]

/-- Different items of a list do not count for more than the list. -/
theorem total_map_le_of_subset {items others : List α} (hnodup : items.Nodup)
    (hsubset : items ⊆ others) (count : α → Nat) :
    total (items.map count) ≤ total (others.map count) := by
  obtain ⟨same, hperm, hsublist⟩ := hnodup.subperm hsubset
  rw [total_eq_sum, total_eq_sum, ← (hperm.map count).sum_eq]
  exact (hsublist.map count).sum_le_sum fun _ _ => Nat.zero_le _

end Total

/-! ## Weights -/

/-- A source holds the same module under every path. -/
theorem Module.ofSource_other {path : Path} {source : List Char} {module : Module}
    (hsource : Module.ofSource path source = .ok module) (other : Path) :
    Module.ofSource other source = .ok { module with path := other } := by
  unfold Module.ofSource at hsource ⊢
  cases hparse : Script.parse source with
  | error fault =>
      rw [hparse] at hsource
      contradiction
  | ok tree =>
      rw [hparse] at hsource
      obtain rfl := Except.ok.inj hsource
      rfl

theorem Module.weight_asRead (module : Module) : module.asRead.weight = module.weight := by
  unfold weight asRead
  simp only [List.length_map, List.map_map]
  rfl

namespace Files.Disk

variable {disk : Disk} {path : Path} {module : Module}

/-- The modules that the files of a disk hold. -/
def sources (disk : Disk) : List Module :=
  disk.files.filterMap fun file =>
    match file.2 with
    | .text chars => (Module.ofSource ⟨""⟩ chars).toOption
    | .binary => none

/-- The weight of the module that a path leads to, if there is one. -/
def weightAt (disk : Disk) (path : Path) : Nat :=
  match disk.module path with
  | .ok module => module.weight
  | .error _ => 0

/-- The paths that imports can lead to, from modules that are read from the disk. -/
def offers (disk : Disk) : List Path :=
  (disk.sources.flatMap fun module => module.imports.map fun entry => ⟨entry.2.source⟩) ++
    disk.files.flatMap fun file => (disk.routes file.1).filter fun path =>
      disk.locate path = .ok file.1 ∧ disk.content? file.1 = some file.2

/-- A module that a path leads to stems from a file of the disk. -/
theorem module_eq_ok_file (hmodule : disk.module path = .ok module) :
    ∃ place chars, disk.locate path = .ok place ∧ disk.content? place = some (.text chars) ∧
      Module.ofSource path chars = .ok module := by
  obtain ⟨source, hread, hsource⟩ := disk.module_eq_ok hmodule
  unfold Disk.read at hread
  cases hlocate : disk.locate path with
  | error fault =>
      rw [hlocate] at hread
      contradiction
  | ok place =>
      rw [hlocate] at hread
      cases hcontent : disk.content? place with
      | none => simp [hcontent] at hread
      | some content =>
          cases content with
          | binary => simp [hcontent] at hread
          | text chars =>
              simp only [hcontent, Except.ok.injEq] at hread
              exact ⟨place, chars, rfl, hcontent, hread ▸ hsource⟩

theorem mem_files {place : Place} {content : Content}
    (hcontent : disk.content? place = some content) : (place, content) ∈ disk.files := by
  obtain ⟨earlier, later, hfiles, -⟩ := List.lookup_eq_some_iff.mp hcontent
  rw [hfiles]
  exact List.mem_append_right _ List.mem_cons_self

/-- A module that a path leads to is among those that the files hold, but for its path. -/
theorem mem_sources (hmodule : disk.module path = .ok module) :
    { module with path := ⟨""⟩ } ∈ disk.sources := by
  obtain ⟨place, chars, -, hcontent, hsource⟩ := module_eq_ok_file hmodule
  refine List.mem_filterMap.mpr ⟨(place, .text chars), mem_files hcontent, ?_⟩
  dsimp only
  rw [Module.ofSource_other hsource ⟨""⟩]
  rfl

theorem weightAt_le (disk : Disk) (path : Path) :
    disk.weightAt path ≤ total (disk.sources.map Module.weight) := by
  unfold weightAt
  cases hmodule : disk.module path with
  | error fault => exact Nat.zero_le _
  | ok module => exact le_total_of_mem (List.mem_map.mpr ⟨_, mem_sources hmodule, rfl⟩)

/-- The weight of the module that a file holds, if it holds one. -/
def fileWeight (file : Place × Content) : Nat :=
  match file.2 with
  | .text chars =>
    match Module.ofSource ⟨""⟩ chars with
    | .ok module => module.weight
    | .error _ => 0
  | .binary => 0

theorem total_fileWeight (disk : Disk) :
    total (disk.files.map fileWeight) = total (disk.sources.map Module.weight) := by
  unfold sources
  induction disk.files with
  | nil => rfl
  | cons file rest ih =>
      obtain ⟨place, content⟩ := file
      rw [List.map_cons, total, ih, List.filterMap_cons]
      cases content with
      | binary => simp [fileWeight]
      | text chars =>
          cases hsource : Module.ofSource ⟨""⟩ chars with
          | error fault => simp [fileWeight, hsource, Except.toOption]
          | ok module => simp [fileWeight, hsource, Except.toOption, total]

/-- A path that leads to a file has its weight. -/
theorem weightAt_le_fileWeight {file : Place × Content} (hlocate : disk.locate path = .ok file.1)
    (hcontent : disk.content? file.1 = some file.2) : disk.weightAt path ≤ fileWeight file := by
  unfold weightAt
  cases hmodule : disk.module path with
  | error fault => exact Nat.zero_le _
  | ok module =>
      obtain ⟨place, chars, hplace, hchars, hsource⟩ := module_eq_ok_file hmodule
      obtain rfl := Except.ok.inj (hlocate.symm.trans hplace)
      have hfile := Option.some.inj (hcontent.symm.trans hchars)
      unfold fileWeight
      rw [hfile]
      dsimp only
      rw [Module.ofSource_other hsource ⟨""⟩]
      exact Nat.le_refl _

/-- All that imports can lead to weighs no more than the budget provides for. -/
theorem total_weightAt_offers (disk : Disk) :
    total (disk.offers.map disk.weightAt) ≤
      (total (disk.sources.map (·.imports.length)) + 4) *
        total (disk.sources.map Module.weight) := by
  have habsolute : total ((disk.sources.flatMap fun module =>
      module.imports.map fun entry => (⟨entry.2.source⟩ : Path)).map disk.weightAt) ≤
        total (disk.sources.map (·.imports.length)) * total (disk.sources.map Module.weight) := by
    refine Nat.le_trans (total_map_le_mul fun path _ => disk.weightAt_le path) ?_
    rw [Graph.length_flatMap_eq_total]
    simp only [List.length_map, Nat.le_refl]
  have hnormal : total ((disk.files.flatMap fun file => (disk.routes file.1).filter fun path =>
      disk.locate path = .ok file.1 ∧ disk.content? file.1 = some file.2).map disk.weightAt) ≤
        4 * total (disk.sources.map Module.weight) := by
    rw [total_map_flatMap, ← total_fileWeight, ← total_map_mul]
    refine total_map_mono fun file _ => ?_
    have hfour : (disk.routes file.1).length = 4 := rfl
    refine Nat.le_trans (total_map_le_mul fun path hpath => ?_)
      (Nat.mul_le_mul_right (fileWeight file) (hfour ▸ List.length_filter_le _ _))
    obtain ⟨-, hleads⟩ := List.mem_filter.mp hpath
    obtain ⟨hlocate, hcontent⟩ := of_decide_eq_true hleads
    exact weightAt_le_fileWeight hlocate hcontent
  rw [offers, List.map_append, total_append, Nat.add_mul]
  exact Nat.add_le_add habsolute hnormal

/-- A path that a module resolves one of its imports to is among the offers, if it leads to a
module. -/
theorem mem_offers {importer found : Module} {name : String} {entry : Import} {other : Path}
    (himporter : disk.module other = .ok importer)
    (hentry : importer.imports.get? name = some entry)
    (hresolve : resolveFrom (directoryOf other) entry.source = .file path)
    (hmodule : disk.module path = .ok found) : path ∈ disk.offers := by
  rcases resolveFrom_cases hresolve with rfl | ⟨components, hnormal, rfl⟩
  · refine List.mem_append_left _ (List.mem_flatMap.mpr ⟨_, mem_sources himporter, ?_⟩)
    exact List.mem_map.mpr ⟨_, Table.mem_of_get? hentry, rfl⟩
  · obtain ⟨place, chars, hlocate, hcontent, -⟩ := module_eq_ok_file hmodule
    refine List.mem_append_right _
      (List.mem_flatMap.mpr ⟨(place, .text chars), mem_files hcontent, ?_⟩)
    exact List.mem_filter.mpr
      ⟨Disk.mem_routes hnormal hlocate, decide_eq_true ⟨hlocate, hcontent⟩⟩

end Files.Disk

end ScriptBundler

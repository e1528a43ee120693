import ScriptBundler.Proofs.Files.Places

/-!
# Where normalized paths lead to

From a directory a path leads up some steps and then down over some names, whatever the order in
which they are written: this is its course.  Normalizing keeps the names of the course.  Of the
steps up it keeps one if their number is odd, and none if it is even, because `..` is taken back by
another `..` just as a name is.

So a normalized path leads elsewhere exactly if two or more steps up are left of the path and the
directory is deep enough to tell.  At the root, where `..` leads nowhere, it makes no difference.
-/

namespace ScriptBundler
namespace Files

/-- The place that a path leads to from a directory: a name leads down, `..` leads up and stays at
the root, and a slash at the start leads to the root. -/
def Path.landing (path : Path) (base : Place) : Place :=
  path.components.foldl Component.land base

/-! ## Courses -/

/-- Steps up from a directory, and names down from there. -/
structure Course where
  climbs : Nat
  names : List String
deriving Repr, DecidableEq

/-- The course with one more step: a step up takes back the name before it, if there is one. -/
def Course.step (course : Course) : Component → Course
  | .root | .current => course
  | .parent =>
    if course.names = [] then { course with climbs := course.climbs + 1 }
    else { course with names := course.names.dropLast }
  | .name text => { course with names := course.names ++ [text] }

/-- The course of a path. -/
def Path.course (path : Path) : Course :=
  path.components.foldl Course.step ⟨0, []⟩

/-- The steps up of a path that no name before them takes back. -/
def Path.climbs (path : Path) : Nat :=
  path.course.climbs

/-- The place that a course leads to from a directory. -/
def Course.landing (course : Course) (base : Place) : Place :=
  base.take (base.length - course.climbs) ++ course.names

/-- The components that are left of a course when dots are folded. -/
def Course.folded (absolute : Bool) (course : Course) : List Component :=
  normalForm absolute (course.climbs % 2 == 1) course.names

variable {course : Course} {components : List Component} {base : Place} {path : Path}

theorem Course.step_parent_of_nil (hnames : course.names = []) :
    course.step .parent = { course with climbs := course.climbs + 1 } :=
  if_pos hnames

theorem Course.step_parent_of_ne_nil (hnames : course.names ≠ []) :
    course.step .parent = { course with names := course.names.dropLast } :=
  if_neg hnames

/-- A step of a course leads where the component leads. -/
theorem Course.landing_step {next : Component} (hroot : next ≠ .root) :
    (course.step next).landing base = next.land (course.landing base) := by
  cases next with
  | root => exact absurd rfl hroot
  | current => rfl
  | name text => exact (List.append_assoc _ _ _).symm
  | parent =>
      by_cases hnames : course.names = []
      · rw [Course.step_parent_of_nil hnames]
        have hshorter : base.length - (course.climbs + 1) = base.length - course.climbs - 1 := by
          omega
        simp [Course.landing, Component.land, hnames, List.dropLast_eq_take, List.take_take,
          hshorter]
      · rw [Course.step_parent_of_ne_nil hnames]
        exact (List.dropLast_append_of_ne_nil hnames).symm

theorem Course.landing_foldl (hroot : .root ∉ components) :
    (components.foldl Course.step course).landing base =
      components.foldl Component.land (course.landing base) := by
  induction components generalizing course with
  | nil => rfl
  | cons first rest ih =>
      rw [List.foldl_cons, ih fun hmem => hroot (List.mem_cons_of_mem _ hmem),
        Course.landing_step fun heq => hroot (heq ▸ List.mem_cons_self)]
      rfl

/-- Folding a step into what is left of a course is what is left of the course with the step. -/
theorem Course.folded_step (absolute : Bool) {next : Component} (hroot : next ≠ .root) :
    (course.step next).folded absolute = foldStep (course.folded absolute) next := by
  cases next with
  | root => exact absurd rfl hroot
  | current => rfl
  | name text => simp [Course.step, Course.folded, foldStep, normalForm]
  | parent =>
      rcases List.eq_nil_or_concat course.names with hnames | ⟨before, text, hconcat⟩
      · -- without names it depends on the steps up whether `..` stays or takes one of them back
        rw [Course.step_parent_of_nil hnames]
        rcases Nat.mod_two_eq_zero_or_one course.climbs with heven | hodd
        · have hnext : (course.climbs + 1) % 2 = 1 := by omega
          cases absolute <;> simp [Course.folded, foldStep, normalForm, hnames, heven, hnext]
        · have hnext : (course.climbs + 1) % 2 = 0 := by omega
          cases absolute <;> simp [Course.folded, foldStep, normalForm, hnames, hodd, hnext]
      · rw [List.concat_eq_append] at hconcat
        rw [Course.step_parent_of_ne_nil (by simp [hconcat])]
        simp [Course.folded, foldStep, normalForm, hconcat, ← List.append_assoc]

theorem Course.folded_foldl (absolute : Bool) (hroot : .root ∉ components) :
    (components.foldl Course.step course).folded absolute =
      components.foldl foldStep (course.folded absolute) := by
  induction components generalizing course with
  | nil => rfl
  | cons first rest ih =>
      rw [List.foldl_cons, ih fun hmem => hroot (List.mem_cons_of_mem _ hmem),
        Course.folded_step absolute fun heq => hroot (heq ▸ List.mem_cons_self)]
      rfl

/-- The names of a course are names among its components. -/
theorem Course.mem_names_foldl {text : String}
    (hmem : text ∈ (components.foldl Course.step course).names) :
    text ∈ course.names ∨ .name text ∈ components := by
  induction components generalizing course with
  | nil => exact Or.inl hmem
  | cons first rest ih =>
      rcases ih hmem with hcourse | hrest
      · cases first with
        | root | current => exact Or.inl hcourse
        | name added =>
            rcases List.mem_append.mp hcourse with hold | hnew
            · exact Or.inl hold
            · obtain rfl := List.mem_singleton.mp hnew
              exact Or.inr List.mem_cons_self
        | parent =>
            by_cases hnames : course.names = []
            · rw [Course.step_parent_of_nil hnames] at hcourse
              exact Or.inl hcourse
            · rw [Course.step_parent_of_ne_nil hnames] at hcourse
              exact Or.inl ((List.dropLast_sublist _).subset hcourse)
      · exact Or.inr (List.mem_cons_of_mem _ hrest)

theorem Course.foldl_names (names : List String) :
    (names.map Component.name).foldl Course.step course =
      { course with names := course.names ++ names } := by
  induction names generalizing course with
  | nil => simp
  | cons first rest ih => rw [List.map_cons, List.foldl_cons, ih]; simp [Course.step]

/-- What is left of a course has a course of its own. -/
theorem Course.foldl_folded (absolute : Bool) :
    (course.folded absolute).foldl Course.step ⟨0, []⟩ = ⟨course.climbs % 2, course.names⟩ := by
  unfold Course.folded normalForm
  rw [List.foldl_append, Course.foldl_names]
  rcases Nat.mod_two_eq_zero_or_one course.climbs with heven | hodd
  · cases absolute <;> simp [heven, Course.step]
  · cases absolute <;> simp [hodd, Course.step]

/-! ## Components of paths -/

/-- A path is absolute if its components start with the root, which stands nowhere else. -/
theorem Path.components_cases (path : Path) :
    ∃ rest, .root ∉ rest ∧
      path.components = (if path.isAbsolute then [.root] else []) ++ rest := by
  obtain ⟨hroot, -, hrelative⟩ := componentsOf_spec path.text.toList
  by_cases habsolute : path.isAbsolute = true
  · have hcons : path.components = .root :: path.components.tail := by
      unfold Path.isAbsolute at habsolute
      unfold Path.components
      generalize path.text.toList = text at habsolute
      cases text with
      | nil => contradiction
      | cons first rest =>
          obtain rfl : first = '/' := by simpa using habsolute
          rfl
    exact ⟨_, hroot, by rw [if_pos habsolute]; exact hcons⟩
  · refine ⟨path.components, hrelative ?_, by rw [if_neg habsolute]; rfl⟩
    simpa [Path.isAbsolute] using habsolute

theorem Path.isAbsolute_iff : path.isAbsolute = true ↔ .root ∈ path.components := by
  obtain ⟨rest, hroot, hcomponents⟩ := path.components_cases
  rw [hcomponents]
  by_cases habsolute : path.isAbsolute = true <;> simp [habsolute, hroot]

/-- A path leads where its course leads, from the directory or from the root. -/
theorem Path.landing_eq (path : Path) (base : Place) :
    path.landing base = path.course.landing (if path.isAbsolute then [] else base) := by
  obtain ⟨rest, hroot, hcomponents⟩ := path.components_cases
  have hlanding : ∀ start : Place, (rest.foldl Course.step ⟨0, []⟩).landing start =
      rest.foldl Component.land start := by
    intro start
    rw [Course.landing_foldl hroot]
    simp [Course.landing]
  unfold Path.landing Path.course
  rw [hcomponents, List.foldl_append, List.foldl_append]
  by_cases habsolute : path.isAbsolute = true <;> simp only [habsolute]
  · exact (hlanding []).symm
  · exact (hlanding base).symm

theorem Path.foldDots_components (path : Path) :
    foldDots path.components = path.course.folded path.isAbsolute := by
  obtain ⟨rest, hroot, hcomponents⟩ := path.components_cases
  unfold foldDots Path.course
  rw [hcomponents, List.foldl_append, List.foldl_append, Course.folded_foldl _ hroot]
  cases path.isAbsolute <;> rfl

/-- The components of a path in normal form. -/
theorem Path.components_normalize (path : Path) :
    path.normalize.components = path.course.folded path.isAbsolute := by
  unfold Path.normalize
  rw [Path.foldDots_components]
  refine components_ofComponents (fun text hmem => ?_) _
  rcases Course.mem_names_foldl hmem with hnil | hname
  · exact absurd hnil List.not_mem_nil
  · exact (componentsOf_spec path.text.toList).2.1 text hname

theorem Path.isAbsolute_normalize (path : Path) : path.normalize.isAbsolute = path.isAbsolute := by
  rw [Bool.eq_iff_iff, Path.isAbsolute_iff, Path.components_normalize]
  cases path.isAbsolute <;> simp [Course.folded, normalForm]

/-- Normalizing keeps the names of a course, and of its steps up whether their number is odd. -/
theorem Path.course_normalize (path : Path) :
    path.normalize.course = ⟨path.climbs % 2, path.course.names⟩ := by
  unfold Path.course
  rw [Path.components_normalize]
  exact Course.foldl_folded _

/-! ## Normalizing -/

theorem Path.normalize_normalize (path : Path) : path.normalize.normalize = path.normalize := by
  have hfolded : foldDots path.normalize.components = foldDots path.components := by
    rw [Path.foldDots_components, Path.foldDots_components, Path.isAbsolute_normalize,
      Path.course_normalize]
    simp [Course.folded, Path.climbs]
  exact congrArg Path.ofComponents hfolded

/-- A course leads to the same place without pairs of its steps up exactly if it has none, or if
the steps that are left lead to the root. -/
theorem Course.landing_mod_two_iff (course : Course) (base : Place) :
    (⟨course.climbs % 2, course.names⟩ : Course).landing base = course.landing base ↔
      course.climbs ≤ 1 ∨ base.length ≤ course.climbs % 2 := by
  unfold Course.landing
  rw [List.append_left_inj]
  constructor
  · intro heq
    have hlength := congrArg List.length heq
    simp only [List.length_take] at hlength
    omega
  · intro hfew
    have hsteps : base.length - course.climbs % 2 = base.length - course.climbs := by omega
    rw [hsteps]

/-- A path and its normal form lead to the same place from a directory exactly if the path is
absolute, leads up one step at most, or leads to the root even with the steps up that are kept.
Normalizing twice is normalizing once, and there is no dot in a normal form, and no `..` behind a
name. -/
theorem Path.landing_normalize_iff (path : Path) :
    (∀ base : Place, path.normalize.landing base = path.landing base ↔
      path.isAbsolute = true ∨ path.climbs ≤ 1 ∨ base.length ≤ path.climbs % 2) ∧
    path.normalize.normalize = path.normalize ∧
    .current ∉ path.normalize.components ∧
    path.normalize.components.Pairwise fun earlier later =>
      later = .parent → ∀ text, earlier ≠ .name text := by
  refine ⟨fun base => ?_, path.normalize_normalize, ?_, ?_⟩
  · rw [Path.landing_eq, Path.landing_eq, Path.isAbsolute_normalize, Path.course_normalize,
      Path.climbs, Course.landing_mod_two_iff]
    cases path.isAbsolute <;> simp
  · rw [Path.components_normalize]
    cases path.isAbsolute <;> simp [Course.folded, normalForm]
  · rw [Path.components_normalize]
    unfold Course.folded normalForm
    rw [List.pairwise_append]
    refine ⟨?_, ?_, ?_⟩
    · cases path.isAbsolute <;> by_cases hodd : path.course.climbs % 2 = 1 <;> simp [hodd]
    · exact List.pairwise_of_forall_mem_list fun earlier _ later hlater heq => by simp_all
    · intro earlier hearlier later hlater heq
      simp_all

/-- Two steps up are folded into none. -/
theorem Path.not_landing_normalize_twoParents :
    ¬ ∀ (path : Path) (base : Place), (∀ text ∈ base, IsName text) →
      path.normalize.landing base = path.landing base :=
  fun hkeeps => absurd (hkeeps ⟨"../.."⟩ ["home", "project"] (by simp [IsName]))
    (by decide +kernel)

end Files
end ScriptBundler

import ScriptBundler.Files.Disk
import ScriptBundler.Files.Resolver

/-!
# Places that paths lead to

Whether a path leads to a place depends on the directories on the way.  Where it leads to, if it
leads anywhere, depends on its components alone: two texts that are the same path cannot lead to
different places.

What a relative specifier resolves to is written in a normal form, with a root, a step to the parent
directory, and names, in this order.  Only few paths in this form lead to one place.
-/

namespace ScriptBundler
namespace Files

/-! ## From components to a place -/

/-- The place after the step that a component stands for. -/
def Component.land (place : Place) : Component → Place
  | .root => []
  | .current => place
  | .parent => place.dropLast
  | .name text => place ++ [text]

/-- The place that components lead to, if there is a way. -/
def Disk.landing (disk : Disk) (components : List Component) : Place :=
  components.foldl Component.land disk.workingDirectory

variable {disk : Disk} {place last : Place} {piece : List Char} {path other : Path}

theorem Disk.step_ok (hstep : disk.step place piece = .ok last) :
    last = ([piece].filterMap pieceComponent).foldl Component.land place := by
  unfold Disk.step at hstep
  split at hstep
  · contradiction
  · split at hstep
    · contradiction
    · unfold pieceComponent
      split at hstep
      all_goals
        obtain rfl := Except.ok.inj hstep
        simp_all [Component.land]

theorem Disk.follow_ok {steps : List (List Char)} (hfollow : disk.follow place steps = .ok last) :
    last = (steps.filterMap pieceComponent).foldl Component.land place := by
  induction steps generalizing place with
  | nil => exact (Except.ok.inj hfollow).symm
  | cons piece rest ih =>
      rw [Disk.follow] at hfollow
      cases hstep : disk.step place piece with
      | ok next =>
          rw [hstep] at hfollow
          rw [← List.singleton_append, List.filterMap_append, List.foldl_append,
            ← Disk.step_ok hstep]
          exact ih hfollow
      | error fault =>
          rw [hstep] at hfollow
          contradiction

theorem pieces_cons_slash (text : List Char) : pieces ('/' :: text) = [] :: pieces text := by
  have hsplit : pieces ([] ++ '/' :: text) = pieces [] ++ pieces text :=
    List.splitOn_append_cons_self [] text
  exact hsplit

/-- A path that leads to a place leads to that of its components. -/
theorem Disk.locate_ok (hlocate : disk.locate path = .ok place) :
    place = disk.landing path.components := by
  unfold Disk.locate at hlocate
  unfold Disk.landing Path.components
  cases htext : path.text.toList with
  | nil =>
      rw [htext] at hlocate
      contradiction
  | cons first rest =>
      rw [htext] at hlocate
      by_cases hroot : first = '/'
      · subst hroot
        rw [Disk.follow_ok hlocate]
        unfold componentsOf
        rw [pieces_cons_slash]
        rfl
      · have hroute :
            disk.route (first :: rest) = (disk.workingDirectory, pieces (first :: rest)) := by
          simp [Disk.route, hroot]
        simp only [hroute] at hlocate
        rw [Disk.follow_ok hlocate]
        -- a dot at the start counts as a component, but does not lead anywhere
        unfold componentsOf
        split
        · rename_i heq
          exact absurd (List.cons.inj heq).1 hroot
        · rfl
        · rfl
        · rfl

/-- Two texts that are the same path do not lead to different places. -/
theorem Disk.locate_of_same {second : Place} (hsame : path.same other = true)
    (hpath : disk.locate path = .ok place) (hother : disk.locate other = .ok second) :
    place = second := by
  have hcomponents : path.components = other.components := by simpa [Path.same] using hsame
  rw [Disk.locate_ok hpath, Disk.locate_ok hother, hcomponents]

/-- Two texts that are the same path and can both be read hold the same. -/
theorem Disk.read_of_same {first second : List Char} (hsame : path.same other = true)
    (hpath : disk.read path = .ok first) (hother : disk.read other = .ok second) :
    first = second := by
  unfold Disk.read at hpath hother
  cases hplace : disk.locate path with
  | error fault =>
      rw [hplace] at hpath
      contradiction
  | ok place =>
      cases hagain : disk.locate other with
      | error fault =>
          rw [hagain] at hother
          contradiction
      | ok second =>
          rw [hplace] at hpath
          rw [hagain] at hother
          obtain rfl := Disk.locate_of_same hsame hplace hagain
          exact Except.ok.inj (hpath.symm.trans hother)

/-! ## Paths in normal form -/

/-- Whether a text can stand between slashes, and is no step of another kind. -/
def IsName (text : String) : Prop :=
  '/' ∉ text.toList ∧ text ≠ "" ∧ text ≠ "." ∧ text ≠ ".."

/-- The components of a path in normal form: a root, a step to the parent directory, and names. -/
def normalForm (absolute climbs : Bool) (names : List String) : List Component :=
  (if absolute then [.root] else []) ++ (if climbs then [.parent] else []) ++
    names.map Component.name

/-- Whether components are those of a path in normal form. -/
def IsNormal (components : List Component) : Prop :=
  ∃ absolute climbs names, (∀ text ∈ names, IsName text) ∧
    components = normalForm absolute climbs names

theorem not_mem_of_mem_pieces {text piece : List Char} (hmem : piece ∈ pieces text) :
    '/' ∉ piece := by
  unfold pieces at hmem
  induction text generalizing piece with
  | nil =>
      obtain rfl : piece = [] := by simpa using hmem
      exact List.not_mem_nil
  | cons first rest ih =>
      rw [List.splitOn_cons_eq_if_modifyHead] at hmem
      split at hmem
      · rcases List.mem_cons.mp hmem with rfl | hrest
        · exact List.not_mem_nil
        · exact ih hrest
      · rename_i hfirst
        cases hsplit : rest.splitOn '/' with
        | nil => simp [hsplit] at hmem
        | cons head others =>
            rw [hsplit, List.modifyHead_cons] at hmem
            rcases List.mem_cons.mp hmem with rfl | hother
            · have hhead := ih (hsplit ▸ List.mem_cons_self)
              rintro (_ | ⟨_, hslash⟩)
              · exact hfirst rfl
              · exact hhead hslash
            · exact ih (hsplit ▸ List.mem_cons_of_mem _ hother)

/-- A component that is written between slashes is a name or a step to the parent directory. -/
theorem pieceComponent_cases {text piece : List Char} {component : Component}
    (hmem : piece ∈ pieces text) (hcomponent : pieceComponent piece = some component) :
    component = .parent ∨ ∃ name, component = .name name ∧ IsName name := by
  unfold pieceComponent at hcomponent
  split at hcomponent
  · contradiction
  · contradiction
  · exact Or.inl (Option.some.inj hcomponent).symm
  · rename_i hempty hdot hdots
    refine Or.inr ⟨_, (Option.some.inj hcomponent).symm, ?_, ?_, ?_, ?_⟩
    · rw [String.toList_ofList]
      exact not_mem_of_mem_pieces hmem
    · intro heq
      exact hempty (by simpa using congrArg String.toList heq)
    · intro heq
      exact hdot (by simpa using congrArg String.toList heq)
    · intro heq
      exact hdots (by simpa using congrArg String.toList heq)

/-- Folding one more step keeps the normal form. -/
theorem IsNormal.foldStep {steps : List Component} (hnormal : IsNormal steps)
    {next : Component} (hroot : next ≠ .root) (hname : ∀ text, next = .name text → IsName text) :
    IsNormal (foldStep steps next) := by
  obtain ⟨absolute, climbs, names, hnames, rfl⟩ := hnormal
  cases next with
  | root => exact absurd rfl hroot
  | current => exact ⟨absolute, climbs, names, hnames, rfl⟩
  | name text =>
      refine ⟨absolute, climbs, names ++ [text], fun found hfound => ?_, ?_⟩
      · rcases List.mem_append.mp hfound with hold | hnew
        · exact hnames found hold
        · obtain rfl := List.mem_singleton.mp hnew
          exact hname found rfl
      · simp [Files.foldStep, normalForm]
  | parent =>
      rcases List.eq_nil_or_concat names with rfl | ⟨before, text, hconcat⟩
      · -- without names, `..` is taken back by another one, and stays else
        cases climbs with
        | true =>
            refine ⟨absolute, false, [], by simp, ?_⟩
            cases absolute <;> rfl
        | false =>
            refine ⟨absolute, true, [], by simp, ?_⟩
            cases absolute <;> rfl
      · rw [List.concat_eq_append] at hconcat
        subst hconcat
        refine ⟨absolute, climbs, before, fun found hfound => ?_, ?_⟩
        · exact hnames found (List.mem_append_left _ hfound)
        · simp [Files.foldStep, normalForm, ← List.append_assoc]

theorem isNormal_foldl {steps : List Component} (hnormal : IsNormal steps)
    {components : List Component} (hroot : .root ∉ components)
    (hname : ∀ text, .name text ∈ components → IsName text) :
    IsNormal (components.foldl Files.foldStep steps) := by
  induction components generalizing steps with
  | nil => exact hnormal
  | cons first rest ih =>
      refine ih (hnormal.foldStep (fun heq => hroot (heq ▸ List.mem_cons_self)) fun text heq => ?_)
        (fun hmem => hroot (List.mem_cons_of_mem _ hmem))
        fun text hmem => hname text (List.mem_cons_of_mem _ hmem)
      exact hname text (heq ▸ List.mem_cons_self)

/-- Folding dots gives a normal form, if a root comes first or not at all. -/
theorem isNormal_foldDots {components : List Component} (hroot : .root ∉ components.tail)
    (hname : ∀ text, .name text ∈ components → IsName text) : IsNormal (foldDots components) := by
  have hempty : IsNormal [] := ⟨false, false, [], by simp, rfl⟩
  cases components with
  | nil => exact hempty
  | cons first rest =>
      by_cases hfirst : first = .root
      · subst hfirst
        have habsolute : IsNormal [.root] := ⟨true, false, [], by simp, rfl⟩
        exact isNormal_foldl habsolute hroot
          fun text hmem => hname text (List.mem_cons_of_mem _ hmem)
      · refine isNormal_foldl hempty (fun hmem => ?_) hname
        rcases List.mem_cons.mp hmem with heq | hrest
        · exact hfirst heq.symm
        · exact hroot hrest

/-- The components of a text: a root or a dot at most at the start, and names between slashes. -/
theorem componentsOf_spec (text : List Char) :
    .root ∉ (componentsOf text).tail ∧ (∀ name, .name name ∈ componentsOf text → IsName name) ∧
      (text.head? ≠ some '/' → .root ∉ componentsOf text) := by
  have hstep : ∀ component ∈ (pieces text).filterMap pieceComponent,
      component = .parent ∨ ∃ name, component = .name name ∧ IsName name := by
    intro component hmem
    obtain ⟨piece, hpiece, hcomponent⟩ := List.mem_filterMap.mp hmem
    exact pieceComponent_cases hpiece hcomponent
  unfold componentsOf
  generalize (pieces text).filterMap pieceComponent = steps at *
  have hroot : .root ∉ steps := fun hmem => by simpa using hstep _ hmem
  have hname : ∀ name, .name name ∈ steps → IsName name := fun name hmem => by
    simpa using hstep _ hmem
  dsimp only
  split
  · exact ⟨hroot, fun name hmem => hname name (by simpa using hmem), fun h => absurd rfl h⟩
  · exact ⟨hroot, fun name hmem => hname name (by simpa using hmem), fun _ => by simpa using hroot⟩
  · exact ⟨hroot, fun name hmem => hname name (by simpa using hmem), fun _ => by simpa using hroot⟩
  · exact ⟨fun hmem => hroot (List.mem_of_mem_tail hmem), hname, fun _ => hroot⟩

theorem head?_withExtension {specifier : String} {first : Char}
    (hhead : specifier.toList.head? = some first) :
    (withExtension specifier).toList.head? = some first := by
  unfold withExtension
  dsimp only
  split
  · exact hhead
  · rw [String.toList_append, List.head?_append, hhead, Option.some_or]

/-- A directory is made of the components of a path, without the last one. -/
theorem directoryOf_spec (importer : Path) :
    .root ∉ (directoryOf importer).tail ∧
      ∀ name, .name name ∈ directoryOf importer → IsName name := by
  obtain ⟨hroot, hname, -⟩ := componentsOf_spec importer.text.toList
  unfold directoryOf Path.parent? Path.components
  generalize componentsOf importer.text.toList = components at *
  split
  · simp
  · simp
  · rw [Option.getD_some, List.tail_dropLast]
    exact ⟨fun hmem => hroot ((List.dropLast_sublist _).subset hmem),
      fun name hmem => hname name ((List.dropLast_sublist _).subset hmem)⟩

/-- What a relative specifier resolves to is in normal form; an absolute one is a path as it is. -/
theorem resolveFrom_cases {importer : Path} {specifier : String}
    (hresolve : resolveFrom (directoryOf importer) specifier = .file path) :
    path = ⟨specifier⟩ ∨ ∃ components, IsNormal components ∧ path = .ofComponents components := by
  unfold resolveFrom at hresolve
  split at hresolve
  · exact Or.inl (Resolution.file.inj hresolve).symm
  · rename_i hdot
    refine Or.inr ⟨_, ?_, (Resolution.file.inj hresolve).symm⟩
    obtain ⟨hroot, hnames⟩ := directoryOf_spec importer
    obtain ⟨-, hothers, hrelative⟩ := componentsOf_spec (withExtension specifier).toList
    have hnoRoot := hrelative (by rw [head?_withExtension hdot]; simp)
    generalize directoryOf importer = directory at *
    refine isNormal_foldDots ?_ fun name hmem => ?_
    · cases directory with
      | nil => exact fun hmem => hnoRoot (List.mem_of_mem_tail hmem)
      | cons first rest =>
          intro hmem
          rcases List.mem_append.mp hmem with hrest | hstep
          · exact hroot hrest
          · exact hnoRoot hstep
    · exact (List.mem_append.mp hmem).elim (hnames name) (hothers name)
  · contradiction

/-! ## The normal forms of a place -/

/-- A text that starts with neither a slash nor a dot alone has the components of its pieces. -/
theorem componentsOf_of_pieces {text first : List Char} {rest : List (List Char)}
    (hpieces : pieces text = first :: rest) (hempty : first ≠ []) (hdot : first ≠ ['.']) :
    componentsOf text = (first :: rest).filterMap pieceComponent := by
  unfold componentsOf
  rw [hpieces]
  dsimp only
  split
  · rename_i after
    rw [pieces_cons_slash] at hpieces
    exact absurd (List.cons.inj hpieces).1.symm hempty
  · exact absurd (List.cons.inj hpieces).1.symm hdot
  · rename_i after
    have hsplit : pieces (['.'] ++ '/' :: after) = pieces ['.'] ++ pieces after :=
      List.splitOn_append_cons_self ['.'] after
    exact absurd (List.cons.inj (hpieces.symm.trans hsplit)).1 hdot
  · rfl

/-- The steps of a path in normal form, after the root. -/
def stepsOf (climbs : Bool) (names : List String) : List String :=
  (if climbs then [".."] else []) ++ names

section Steps

variable {climbs : Bool} {names : List String} (hnames : ∀ text ∈ names, IsName text)

include hnames

theorem ne_of_mem_stepsOf {step : String} (hstep : step ∈ stepsOf climbs names) :
    '/' ∉ step.toList ∧ step ≠ "" ∧ step ≠ "." := by
  have hcases : step = ".." ∨ step ∈ names := by
    cases climbs with
    | false => exact Or.inr hstep
    | true => exact List.mem_cons.mp hstep
  rcases hcases with rfl | hname
  · decide
  · obtain ⟨hslash, hempty, hdot, -⟩ := hnames step hname
    exact ⟨hslash, hempty, hdot⟩

theorem filterMap_stepsOf : ((stepsOf climbs names).map String.toList).filterMap pieceComponent =
    normalForm false climbs names := by
  have hall : (names.map String.toList).filterMap pieceComponent = names.map Component.name := by
    induction names with
    | nil => rfl
    | cons first rest ih =>
        have hfirst : pieceComponent first.toList = some (.name first) := by
          obtain ⟨-, hempty, hdot, hdots⟩ := hnames first List.mem_cons_self
          unfold pieceComponent
          split
          · rename_i heq
            exact absurd (String.toList_injective heq) hempty
          · rename_i heq
            exact absurd (String.toList_injective heq) hdot
          · rename_i heq
            exact absurd (String.toList_injective heq) hdots
          · rw [String.ofList_toList]
        rw [List.map_cons, List.filterMap_cons_some hfirst,
          ih fun text hmem => hnames text (List.mem_cons_of_mem _ hmem), List.map_cons]
  cases climbs
  · exact hall
  · show Component.parent :: (names.map String.toList).filterMap pieceComponent = _
    rw [hall]
    rfl

/-- The steps of a path, written with slashes between them. -/
theorem pieces_stepsOf {first : String} {rest : List String}
    (hsteps : stepsOf climbs names = first :: rest) :
    pieces (("/".intercalate (stepsOf climbs names)).toList) =
      (stepsOf climbs names).map String.toList := by
  rw [String.toList_intercalate]
  refine List.splitOn_intercalate '/' (fun piece hmem => ?_) (by simp [hsteps])
  obtain ⟨step, hstep, rfl⟩ := List.mem_map.mp hmem
  exact (ne_of_mem_stepsOf hnames hstep).1

theorem filterMap_pieces_stepsOf :
    (pieces ("/".intercalate (stepsOf climbs names)).toList).filterMap pieceComponent =
      normalForm false climbs names := by
  rw [← filterMap_stepsOf hnames]
  cases hsteps : stepsOf climbs names with
  | nil => rfl
  | cons first rest => rw [← hsteps, pieces_stepsOf hnames hsteps]

/-- Writing a path in normal form and reading it again gives its components. -/
theorem components_ofComponents (absolute : Bool) :
    (Path.ofComponents (normalForm absolute climbs names)).components =
      normalForm absolute climbs names := by
  have hsteps : (pieces ("/".intercalate (stepsOf climbs names)).toList).filterMap pieceComponent =
      normalForm false climbs names := filterMap_pieces_stepsOf hnames
  have htext : (normalForm false climbs names).map Component.text = stepsOf climbs names := by
    have hall : (names.map Component.name).map Component.text = names := by
      rw [List.map_map]
      exact List.map_id names
    cases climbs with
    | false => exact hall
    | true => exact congrArg (".." :: ·) hall
  cases absolute with
  | true =>
      have hpath : Path.ofComponents (normalForm true climbs names) =
          ⟨"/" ++ "/".intercalate (stepsOf climbs names)⟩ := by
        rw [← htext]
        rfl
      rw [hpath, Path.components, String.toList_append]
      show Component.root :: (pieces ('/' :: _)).filterMap pieceComponent = _
      rw [pieces_cons_slash]
      exact congrArg (Component.root :: ·) hsteps
  | false =>
      have hpath : Path.ofComponents (normalForm false climbs names) =
          ⟨"/".intercalate (stepsOf climbs names)⟩ := by
        rw [← htext]
        cases climbs with
        | true => rfl
        | false => cases names <;> rfl
      rw [hpath, Path.components]
      cases hfirst : stepsOf climbs names with
      | nil =>
          rw [hfirst] at hsteps
          exact hsteps
      | cons first rest =>
          have hpieces := pieces_stepsOf hnames hfirst
          rw [← hsteps, hpieces, hfirst]
          rw [hfirst] at hpieces
          obtain ⟨-, hempty, hdot⟩ := ne_of_mem_stepsOf hnames (hfirst ▸ List.mem_cons_self)
          refine componentsOf_of_pieces hpieces (fun heq => hempty ?_) fun heq => hdot ?_
          · exact String.toList_injective heq
          · exact String.toList_injective heq

end Steps

/-- Where a path in normal form starts from. -/
def Disk.base (disk : Disk) (absolute climbs : Bool) : Place :=
  disk.landing (normalForm absolute climbs [])

/-- The paths in normal form that can lead to a place. -/
def Disk.routes (disk : Disk) (place : Place) : List Path :=
  [(false, false), (false, true), (true, false), (true, true)].map fun form =>
    .ofComponents (normalForm form.1 form.2 (place.drop (disk.base form.1 form.2).length))

/-- A path in normal form leads to the place with its names, from where it starts. -/
theorem Disk.landing_normalForm (disk : Disk) (absolute climbs : Bool) (names : List String) :
    disk.landing (normalForm absolute climbs names) = disk.base absolute climbs ++ names := by
  have hfold : ∀ start : Place,
      (names.map Component.name).foldl Component.land start = start ++ names := by
    induction names with
    | nil => exact fun start => (List.append_nil start).symm
    | cons first rest ih =>
        intro start
        rw [List.map_cons, List.foldl_cons, ih, Component.land, List.append_assoc,
          List.singleton_append]
  have hsplit : normalForm absolute climbs names =
      normalForm absolute climbs [] ++ names.map Component.name := by
    simp [normalForm]
  rw [Disk.base, Disk.landing, hsplit, List.foldl_append, hfold]
  rfl

/-- A path in normal form that leads to a place is one of few. -/
theorem Disk.mem_routes {components : List Component} (hnormal : IsNormal components)
    (hlocate : disk.locate (.ofComponents components) = .ok place) :
    Path.ofComponents components ∈ disk.routes place := by
  obtain ⟨absolute, climbs, names, hnames, rfl⟩ := hnormal
  have hlanding := Disk.locate_ok hlocate
  rw [components_ofComponents hnames, Disk.landing_normalForm] at hlanding
  refine List.mem_map.mpr ⟨(absolute, climbs), ?_, ?_⟩
  · cases absolute <;> cases climbs <;> simp
  · rw [hlanding, List.drop_left]

end Files
end ScriptBundler

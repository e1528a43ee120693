import Mathlib.Data.List.Forall2
import Mathlib.Data.List.TakeWhile
import ScriptBundler.CommandLine
import ScriptBundler.Proofs.Builds
import ScriptBundler.Proofs.Settings.Documents

/-!
# Layers of a run

The settings of a run are made of layers: those of its settings files, that of the environment, and
that of its arguments.  For each setting the last layer that sets it counts.  A settings file that
is no layer ends the run.  It leaves the settings as they were before, so that a caller who goes on
after it has the settings that it would have without that file.
-/

namespace ScriptBundler

open Files

namespace Settings

variable {disk : Disk} {environment : Environment} {path : Path} {layer : Layer}
  {layers : List Layer} {settings : Settings} {log : List Log.Entry}

/-! ## Settings files -/

theorem layerOf_eq_ok_iff : layerOf disk path = .ok layer ↔
    ∃ text, disk.read path = .ok text ∧ Layer.ofText? text = some layer := by
  unfold layerOf
  cases disk.read path with
  | error cause => simp
  | ok text => cases htext : Layer.ofText? text <;> simp [htext]

/-- Whether a settings file is no layer, and why. -/
inductive Unusable (disk : Disk) (path : Path) : Prop where
  | unreadable {cause : DiskFault} (hread : disk.read path = .error cause)
  | malformed {text : List Char} (hread : disk.read path = .ok text)
      (hdocument : Toml.readDocument text = none)
  | unknownKey {text : List Char} {members : Toml.Members} {member : String × Toml.Value}
      (hread : disk.read path = .ok text) (hdocument : Toml.readDocument text = some members)
      (hmember : member ∈ members) (hkey : member.1 ∉ keys)
  /-- A setting has a value that does not fit it. -/
  | misfit {text : List Char} {members : Toml.Members} {member : String × Toml.Value}
      (hread : disk.read path = .ok text) (hdocument : Toml.readDocument text = some members)
      (hmember : member ∈ members) (hrefused : Refused member.1 member.2)

theorem ofText?_eq_none_iff {text : List Char} : Layer.ofText? text = none ↔
    Toml.readDocument text = none ∨ ∃ members, Toml.readDocument text = some members ∧
      ∃ member ∈ members, Refused member.1 member.2 := by
  unfold Layer.ofText?
  cases Toml.readDocument text with
  | none => simp
  | some members => simp [addAll_eq_none_iff]

theorem unusable_iff : Unusable disk path ↔ ∃ fault, layerOf disk path = .error fault := by
  constructor
  · intro hunusable
    cases hlayer : layerOf disk path with
    | error fault => exact ⟨fault, rfl⟩
    | ok layer =>
        obtain ⟨text, hread, htext⟩ := layerOf_eq_ok_iff.mp hlayer
        have hno : Layer.ofText? text ≠ none := by simp [htext]
        rw [Ne, ofText?_eq_none_iff] at hno
        cases hunusable with
        | unreadable hread' => simp [hread] at hread'
        | malformed hread' hdocument =>
            obtain rfl := Except.ok.inj (hread.symm.trans hread')
            exact absurd (Or.inl hdocument) hno
        | unknownKey hread' hdocument hmember hkey =>
            obtain rfl := Except.ok.inj (hread.symm.trans hread')
            exact absurd (Or.inr ⟨_, hdocument, _, hmember, refused_of_not_mem hkey _⟩) hno
        | misfit hread' hdocument hmember hrefused =>
            obtain rfl := Except.ok.inj (hread.symm.trans hread')
            exact absurd (Or.inr ⟨_, hdocument, _, hmember, hrefused⟩) hno
  · rintro ⟨fault, hlayer⟩
    cases hread : disk.read path with
    | error cause => exact .unreadable hread
    | ok text =>
        cases htext : Layer.ofText? text with
        | some layer =>
            rw [layerOf_eq_ok_iff.mpr ⟨text, hread, htext⟩] at hlayer
            contradiction
        | none =>
            rcases ofText?_eq_none_iff.mp htext with
              hdocument | ⟨members, hdocument, member, hmember, hrefused⟩
            · exact .malformed hread hdocument
            · exact .misfit hread hdocument hmember hrefused

/-! ## The environment -/

/-- What a variable of the environment chooses.  One that is blank chooses nothing. -/
inductive Chooses {α : Type} (environment : Environment) (name : String) (choices : List α)
    (label : α → String) : Option α → Prop where
  | unset (hget : environment.get? name = none) : Chooses environment name choices label none
  | blank {value : String} (hget : environment.get? name = some value)
      (hblank : ∀ c ∈ value.toList, Text.isBlank c = true) :
      Chooses environment name choices label none
  | choice {value : String} {choice : α} (hget : environment.get? name = some value)
      (hvisible : ∃ c ∈ value.toList, Text.isBlank c = false) (hchoice : choice ∈ choices)
      (hlabel : label choice = String.ofList ((Text.trim value.toList).map Char.toLower)) :
      Chooses environment name choices label (some choice)

/-- Nothing is left of a blank text. -/
theorem trim_eq_nil_iff {text : List Char} :
    Text.trim text = [] ↔ ∀ c ∈ text, Text.isBlank c = true := by
  unfold Text.trim
  rw [List.reverse_eq_nil_iff, List.dropWhile_eq_nil_iff]
  simp only [List.mem_reverse]
  constructor
  · intro hblank
    by_contra hvisible
    have hne : text.dropWhile Text.isBlank ≠ [] := mt List.dropWhile_eq_nil_iff.mp hvisible
    have hhead := List.head_dropWhile_not Text.isBlank hne
    rw [hblank _ (List.head_mem hne)] at hhead
    contradiction
  · exact fun hblank c hc => hblank c ((List.dropWhile_sublist _).subset hc)

theorem choice?_eq_some_iff {α : Type} {choices : List α} {label : α → String}
    (hlabels : Function.Injective label) {name : String} {choice : α} :
    choice? choices label name = some choice ↔ choice ∈ choices ∧ label choice = name := by
  unfold choice?
  constructor
  · intro hfind
    exact ⟨List.mem_of_find?_eq_some hfind, by simpa using List.find?_some hfind⟩
  · rintro ⟨hmem, rfl⟩
    cases hfind : choices.find? fun other => label other == label choice with
    | none => simpa using List.find?_eq_none.mp hfind choice hmem
    | some other =>
        have hsame : label other = label choice := by simpa using List.find?_some hfind
        rw [hlabels hsame]

theorem Chooses.variableChoice_eq {α : Type} {name : String} {choices : List α}
    {label : α → String} (hlabels : Function.Injective label) {chosen : Option α}
    (hchooses : Chooses environment name choices label chosen) :
    variableChoice environment name choices label = .ok chosen := by
  unfold variableChoice
  cases hchooses with
  | unset hget => simp [hget]
  | blank hget hblank => simp [hget, trim_eq_nil_iff.mpr hblank]
  | choice hget hvisible hchoice hlabel =>
      have hshown : Text.trim _ ≠ [] := fun hblank => by
        obtain ⟨c, hc, hvisible⟩ := hvisible
        exact absurd (trim_eq_nil_iff.mp hblank c hc) (by simp [hvisible])
      simp [hget, hshown, (choice?_eq_some_iff hlabels).mpr ⟨hchoice, hlabel⟩]

/-- Whether a layer is that of the environment. -/
structure EnvironmentSets (environment : Environment) (layer : Layer) : Prop where
  entry : layer.entry = none
  output : layer.output = none
  exports : Chooses environment "ESROLL_EXPORTS" ExportMode.all ExportMode.text layer.exports
  format : Chooses environment "ESROLL_FORMAT" OutputFormat.all OutputFormat.text layer.format

theorem EnvironmentSets.environmentLayer_eq (hsets : EnvironmentSets environment layer) :
    environmentLayer environment = .ok layer := by
  have hexports : Function.Injective ExportMode.text := by
    intro mode other hsame
    cases mode <;> cases other <;> simp_all [ExportMode.text]
  have hformat : Function.Injective OutputFormat.text := fun _ _ _ => rfl
  unfold environmentLayer
  rw [hsets.exports.variableChoice_eq hexports, hsets.format.variableChoice_eq hformat]
  obtain ⟨entry, output, exports, format⟩ := layer
  obtain rfl : entry = none := hsets.entry
  obtain rfl : output = none := hsets.output
  rfl

/-! ## Layers over each other -/

/-- The value from the last layer that sets it. -/
def lastSet {α : Type} (field : Layer → Option α) (layers : List Layer) : Option α :=
  layers.reverse.findSome? field

/-- What layers amount to, each one over those before it. -/
def effective (layers : List Layer) : Settings :=
  { entry := (lastSet (·.entry) layers).or Settings.default.entry
    output := (lastSet (·.output) layers).or Settings.default.output
    exports := (lastSet (·.exports) layers).getD Settings.default.exports
    format := (lastSet (·.format) layers).getD Settings.default.format }

theorem lastSet_append_singleton {α : Type} (field : Layer → Option α) (layers : List Layer)
    (layer : Layer) :
    lastSet field (layers ++ [layer]) = (field layer).or (lastSet field layers) := by
  unfold lastSet
  rw [List.reverse_append, List.reverse_singleton, List.singleton_append, List.findSome?_cons]
  cases field layer <;> rfl

/-- A layer over others counts where it sets something. -/
theorem apply_effective (layers : List Layer) (layer : Layer) :
    (effective layers).apply layer = effective (layers ++ [layer]) := by
  unfold effective apply
  simp only [lastSet_append_singleton]
  congr 1
  · exact (Option.or_assoc ..).symm
  · exact (Option.or_assoc ..).symm
  · cases layer.exports <;> rfl

theorem foldl_apply (layers others : List Layer) :
    others.foldl apply (effective layers) = effective (layers ++ others) := by
  induction others generalizing layers with
  | nil => rw [List.foldl_nil, List.append_nil]
  | cons first rest ih =>
      rw [List.foldl_cons, apply_effective, ih, List.append_assoc, List.singleton_append]

/-! ## Work on settings -/

namespace Editing

theorem run_merge_of_ok (hlayer : layerOf disk path = .ok layer)
    (state : Settings × List Log.Entry) : ∃ entry,
    (merge disk path).run state = .ok () (state.1.apply layer, state.2 ++ [entry]) := by
  unfold merge
  rw [hlayer]
  exact ⟨_, rfl⟩

theorem run_merge_of_error {fault : Fault} (hlayer : layerOf disk path = .error fault)
    (state : Settings × List Log.Entry) :
    (merge disk path).run state = .error fault state := by
  unfold merge
  rw [hlayer]
  rfl

/-- A settings file that cannot be put over the settings leaves them, and the log, as they are. -/
theorem merge_cases (disk : Disk) (path : Path) (state : Settings × List Log.Entry) :
    (∃ layer entry, layerOf disk path = .ok layer ∧
      (merge disk path).run state = .ok () (state.1.apply layer, state.2 ++ [entry])) ∨
    ∃ fault, layerOf disk path = .error fault ∧
      (merge disk path).run state = .error fault state := by
  cases hlayer : layerOf disk path with
  | ok layer =>
      obtain ⟨entry, hrun⟩ := run_merge_of_ok hlayer state
      exact Or.inl ⟨layer, entry, rfl, hrun⟩
  | error fault => exact Or.inr ⟨fault, rfl, run_merge_of_error hlayer state⟩

theorem forM_cons (work : Path → Editing Unit) (first : Path) (rest : List Path) :
    (first :: rest).forM work = work first >>= fun _ => rest.forM work := rfl

/-- Settings files that are all layers are put over the settings in their order. -/
theorem run_merges {paths : List Path}
    (hlayers : List.Forall₂ (fun path layer => layerOf disk path = .ok layer) paths layers)
    (state : Settings × List Log.Entry) : ∃ entries, (paths.forM (merge disk)).run state =
      .ok () (layers.foldl apply state.1, state.2 ++ entries) := by
  induction hlayers generalizing state with
  | nil => exact ⟨[], by rw [List.append_nil]; rfl⟩
  | @cons path layer paths layers hlayer _ ih =>
      obtain ⟨entry, hmerge⟩ := run_merge_of_ok hlayer state
      obtain ⟨entries, hrest⟩ := ih (state.1.apply layer, state.2 ++ [entry])
      refine ⟨entry :: entries, ?_⟩
      rw [forM_cons, run_bind_of_ok hmerge, hrest, List.foldl_cons, List.append_assoc]
      rfl

/-- One that is no layer ends the work. -/
theorem run_merges_of_error {paths : List Path} {fault : Fault} (hmem : path ∈ paths)
    (hlayer : layerOf disk path = .error fault) (state : Settings × List Log.Entry) :
    ∃ other after, (∃ path ∈ paths, layerOf disk path = .error other) ∧
      (paths.forM (merge disk)).run state = .error other after := by
  induction paths generalizing state with
  | nil => contradiction
  | cons first rest ih =>
      rw [forM_cons]
      rcases merge_cases disk first state with ⟨layer, entry, hfirst, hrun⟩ | ⟨other, hfirst, hrun⟩
      · have hrest : path ∈ rest := by
          rcases List.mem_cons.mp hmem with rfl | hrest
          · rw [hfirst] at hlayer
            contradiction
          · exact hrest
        obtain ⟨other, after, ⟨found, hfound, hother⟩, hafter⟩ := ih hrest _
        refine ⟨other, after, ⟨found, List.mem_cons_of_mem _ hfound, hother⟩, ?_⟩
        rw [run_bind_of_ok hrun]
        exact hafter
      · exact ⟨other, state, ⟨first, List.mem_cons_self, hfirst⟩, run_bind_of_error hrun⟩

/-- Puts settings files over the settings, one after the other, and passes over those that are no
layers. -/
def mergeEach (disk : Disk) (paths : List Path) : Editing Unit :=
  paths.forM fun path => tryCatch (merge disk path) fun _ => pure ()

/-- One that fails is passed over. -/
theorem run_mergeEach_cons (disk : Disk) (first : Path) (rest : List Path)
    (state : Settings × List Log.Entry) :
    (mergeEach disk (first :: rest)).run state =
      match (merge disk first).run state with
      | .ok _ after => (mergeEach disk rest).run after
      | .error _ after => (mergeEach disk rest).run after := by
  have hattempt : (tryCatch (merge disk first) fun _ => pure () : Editing Unit).run state =
      match (merge disk first).run state with
      | .ok _ after => .ok () after
      | .error _ after => .ok () after := by
    show EStateM.tryCatch _ _ state = _
    unfold EStateM.tryCatch
    rw [EStateM.run]
    cases merge disk first state <;> rfl
  unfold mergeEach
  rw [forM_cons]
  cases hfirst : (merge disk first).run state with
  | ok _ after =>
      rw [hfirst] at hattempt
      exact run_bind_of_ok hattempt
  | error _ after =>
      rw [hfirst] at hattempt
      exact run_bind_of_ok hattempt

theorem run_mergeEach_append {before : List Path} {state middle : Settings × List Log.Entry}
    (hbefore : (mergeEach disk before).run state = .ok () middle) (others : List Path) :
    (mergeEach disk (before ++ others)).run state = (mergeEach disk others).run middle := by
  induction before generalizing state with
  | nil =>
      obtain ⟨-, rfl⟩ := EStateM.Result.ok.inj hbefore
      rfl
  | cons first rest ih =>
      rw [run_mergeEach_cons] at hbefore
      rw [List.cons_append, run_mergeEach_cons]
      cases hfirst : (merge disk first).run state with
      | ok _ after =>
          rw [hfirst] at hbefore
          exact ih hbefore
      | error _ after =>
          rw [hfirst] at hbefore
          exact ih hbefore

/-- A settings file that fails leaves everything as it was, and nothing that comes later is changed
by it. -/
theorem run_mergeEach_of_error {before after : List Path} {fault : Fault}
    {state middle failed : Settings × List Log.Entry}
    (hbefore : (mergeEach disk before).run state = .ok () middle)
    (hfails : (merge disk path).run middle = .error fault failed) :
    failed = middle ∧ (mergeEach disk (before ++ path :: after)).run state =
      (mergeEach disk (before ++ after)).run state := by
  obtain rfl : failed = middle := by
    rcases merge_cases disk path middle with ⟨layer, entry, -, hrun⟩ | ⟨other, -, hrun⟩
    · rw [hrun] at hfails
      contradiction
    · rw [hrun] at hfails
      exact (EStateM.Result.error.inj hfails).2.symm
  refine ⟨rfl, ?_⟩
  rw [run_mergeEach_append hbefore, run_mergeEach_append hbefore, run_mergeEach_cons, hfails]

/-- Work on settings of one's own. -/
theorem run_on (work : Editing Unit) (settings : Settings) (log : List Log.Entry) :
    (work.on settings).run log =
      match work.run (settings, log) with
      | .ok _ after => .ok after.1 after.2
      | .error fault after => .error fault after.2 := rfl

end Editing

/-! ## Runs -/

/-- Whether a layer is that of a settings file. -/
def FileSets (disk : Disk) (path : Path) (layer : Layer) : Prop :=
  ∃ text members, disk.read path = .ok text ∧ Toml.readDocument text = some members ∧
    SetsOver .empty members layer

theorem fileSets_iff : FileSets disk path layer ↔ layerOf disk path = .ok layer := by
  rw [layerOf_eq_ok_iff]
  constructor
  · rintro ⟨text, members, hread, hdocument, hsets⟩
    exact ⟨text, hread, ofText?_eq_some_iff.mpr ⟨members, hdocument, hsets⟩⟩
  · rintro ⟨text, hread, htext⟩
    obtain ⟨members, hdocument, hsets⟩ := ofText?_eq_some_iff.mp htext
    exact ⟨text, members, hread, hdocument, hsets⟩

/-- The settings files of a run are that of the user, that of the project, and the one that is
named. -/
theorem forall₂_files {explicit : Option Path} {user project named : Option Layer}
    (huser : Option.Rel (FileSets disk) ((userFile? environment).filter disk.hasFile) user)
    (hproject : Option.Rel (FileSets disk) ((some (projectFile disk)).filter disk.hasFile) project)
    (hnamed : Option.Rel (FileSets disk) explicit named) :
    List.Forall₂ (FileSets disk) (files disk environment explicit)
      (user.toList ++ project.toList ++ named.toList) := by
  have htoList : ∀ {paths : Option Path} {layer : Option Layer},
      Option.Rel (FileSets disk) paths layer →
        List.Forall₂ (FileSets disk) paths.toList layer.toList := by
    rintro _ _ (hsets | _)
    · exact .cons hsets .nil
    · exact .nil
  have hfiles : files disk environment explicit =
      ((userFile? environment).filter disk.hasFile).toList ++
        ((some (projectFile disk)).filter disk.hasFile).toList ++ explicit.toList := by
    simp [files, optionalFiles, Option.toList_filter]
  rw [hfiles]
  exact List.rel_append (List.rel_append (htoList huser) (htoList hproject)) (htoList hnamed)

/-- Loading gives what the layers of the settings files and the environment amount to. -/
theorem run_load {explicit : Option Path} {top : Layer}
    (hlayers : List.Forall₂ (FileSets disk) (files disk environment explicit) layers)
    (htop : EnvironmentSets environment top) (log : List Log.Entry) :
    ∃ entries, (load disk environment explicit).run log =
      .ok (effective (layers ++ [top])) (log ++ entries) := by
  obtain ⟨entries, hmerges⟩ := Editing.run_merges
    (hlayers.imp fun _ _ hsets => fileSets_iff.mp hsets) (Settings.default, log)
  have hfold : layers.foldl apply Settings.default = effective layers := by
    have hempty : effective [] = Settings.default := rfl
    rw [← hempty, foldl_apply, List.nil_append]
  have hvariables : ∀ state : Settings × List Log.Entry,
      (Editing.mergeEnvironment environment).run state = .ok () (state.1.apply top, state.2) := by
    intro state
    unfold Editing.mergeEnvironment
    rw [htop.environmentLayer_eq]
    rfl
  refine ⟨entries ++ [⟨.debug, .settings,
    s!"Effective configuration: {(effective (layers ++ [top])).description}"⟩], ?_⟩
  unfold load
  rw [Editing.run_on, run_bind_of_ok hmerges, run_bind_of_ok (hvariables _), hfold, apply_effective,
    ← List.append_assoc]
  rfl

/-- Loading fails if one of the settings files is no layer. -/
theorem run_load_of_unusable {explicit : Option Path}
    (hmem : path ∈ files disk environment explicit) (hunusable : Unusable disk path)
    (log : List Log.Entry) : ∃ fault after,
      (∃ path ∈ files disk environment explicit, layerOf disk path = .error fault) ∧
      (load disk environment explicit).run log = .error fault after := by
  obtain ⟨fault, hlayer⟩ := unusable_iff.mp hunusable
  obtain ⟨other, after, hother, hmerges⟩ :=
    Editing.run_merges_of_error hmem hlayer (Settings.default, log)
  refine ⟨other, after.2, hother, ?_⟩
  unfold load
  rw [Editing.run_on, run_bind_of_error hmerges]

end Settings

namespace CommandLine

open Settings

/-- The settings of a run whose layers are given: printing takes the place of a file. -/
def settingsOf (layers : List Layer) (stdout : Bool) : Settings :=
  { effective layers with output := if stdout then none else (effective layers).output }

theorem applyTo_effective (arguments : Arguments) (layers : List Layer) :
    arguments.applyTo (effective layers) =
      settingsOf (layers ++ [arguments.layer]) arguments.stdout := by
  unfold Arguments.applyTo settingsOf
  rw [apply_effective]
  cases arguments.stdout <;> rfl

/-- A run that ends with a fault prints nothing and writes nothing. -/
theorem run_of_error {disk : Disk} {environment : Environment} {words : List String}
    {arguments : Arguments} (hread : Arguments.read words = some arguments) {fault : Fault}
    {after : List Log.Entry}
    (hperform : (perform disk environment arguments).run [] = .error fault after) :
    (run disk environment words).exitCode = 1 ∧ (run disk environment words).printed = [] ∧
      (run disk environment words).disk = disk := by
  have hrun : EStateM.run (perform disk environment arguments) [] = .error fault after := hperform
  unfold run
  rw [hread]
  simp only [hrun, and_self]

/-- If no layer is invalid, the settings of a run are for each field those of the last layer that
sets it: of the settings file of the user, that of the project, the one that is named, the
environment and the arguments, in this order.  A settings file that is named, or one of the other two
that is there, makes the run fail if it is no layer.  And wherever settings files are put over
settings one after the other, one that fails leaves them as they were, and is as good as left out. -/
theorem perform_layers (disk : Disk) (environment : Environment) (arguments : Arguments)
    (log : List Log.Entry) :
    (∀ user project named top,
      Option.Rel (FileSets disk) ((userFile? environment).filter disk.hasFile) user →
      Option.Rel (FileSets disk) ((some (projectFile disk)).filter disk.hasFile) project →
      Option.Rel (FileSets disk) arguments.config named → EnvironmentSets environment top →
        ∃ entries, (perform disk environment arguments).run log =
          (bundle disk (settingsOf (user.toList ++ project.toList ++ named.toList ++
            [top, arguments.layer]) arguments.stdout)).run (log ++ entries)) ∧
    (∀ path, (arguments.config = some path ∨ (userFile? environment = some path ∨
        path = projectFile disk) ∧ disk.hasFile path = true) →
      Unusable disk path →
        (∃ fault after, (perform disk environment arguments).run log = .error fault after) ∧
        ∀ words, Arguments.read words = some arguments →
          (run disk environment words).exitCode = 1 ∧ (run disk environment words).printed = [] ∧
            (run disk environment words).disk = disk) ∧
    ∀ before path after state middle fault failed,
      (Editing.mergeEach disk before).run state = .ok () middle →
        (Editing.merge disk path).run middle = .error fault failed →
          failed = middle ∧ (Editing.mergeEach disk (before ++ path :: after)).run state =
            (Editing.mergeEach disk (before ++ after)).run state := by
  refine ⟨fun user project named top huser hproject hnamed htop => ?_,
    fun path hpath hunusable => ?_, ?_⟩
  · obtain ⟨entries, hload⟩ := run_load (forall₂_files huser hproject hnamed) htop log
    refine ⟨entries, ?_⟩
    unfold perform
    rw [run_bind_of_ok hload, applyTo_effective, List.append_assoc]
    rfl
  · have hmem : path ∈ files disk environment arguments.config := by
      rcases hpath with hnamed | ⟨hplace, hfile⟩
      · exact List.mem_append_right _ (Option.mem_toList.mpr hnamed)
      · refine List.mem_append_left _ (List.mem_filter.mpr ⟨?_, hfile⟩)
        simpa [optionalFiles, Option.mem_toList] using hplace
    have hfails : ∀ log, ∃ fault after,
        (perform disk environment arguments).run log = .error fault after := by
      intro log
      obtain ⟨fault, after, -, hload⟩ := run_load_of_unusable hmem hunusable log
      exact ⟨fault, after, run_bind_of_error hload⟩
    refine ⟨hfails log, fun words hread => ?_⟩
    obtain ⟨fault, after, hperform⟩ := hfails []
    exact run_of_error hread hperform
  · intro before path after state middle fault failed hbefore hfails
    exact Editing.run_mergeEach_of_error hbefore hfails

/-- A user who settles the entry and the exports, a project that settles the output, and a settings
file beside it with a key that is no setting. -/
def layeredDisk : Disk where
  workingDirectory := ["p"]
  files := [
    (["home", "u", ".config", "esroll", "esroll.toml"],
      .text "entry = 'a.js'\nexports = 'named'\n".toList),
    (["p", "esroll.toml"], .text "output = 'o.js'\n".toList),
    (["p", "extra.toml"], .text "exports = 'none'\nminify = 'yes'\n".toList)]
  directories := []

/-- An environment with a blank choice. -/
def layeredEnvironment : Environment :=
  [("HOME", "/home/u"), ("ESROLL_EXPORTS", "  "), ("ESROLL_FORMAT", " CJS ")]

/-- The entry is that of the arguments, the exports are those of the user, and the bundle is
printed.  The third settings file ends a run that names it, and is otherwise as good as absent. -/
theorem perform_layers_layered :
    (∃ entries, (perform layeredDisk layeredEnvironment
        { Arguments.none with layer.entry := some ⟨"b.js"⟩, stdout := true }).run [] =
      (bundle layeredDisk ⟨some ⟨"b.js"⟩, none, .named, .commonJs⟩).run ([] ++ entries)) ∧
    (run layeredDisk layeredEnvironment ["--config", "extra.toml"]).exitCode = 1 ∧
    (Editing.mergeEach layeredDisk [⟨"esroll.toml"⟩, ⟨"extra.toml"⟩]).run (.default, []) =
      (Editing.mergeEach layeredDisk [⟨"esroll.toml"⟩]).run (.default, []) := by
  have hunknown : Unusable layeredDisk ⟨"extra.toml"⟩ :=
    unusable_iff.mpr ⟨.invalidSettings ⟨"extra.toml"⟩, by decide +kernel⟩
  refine ⟨?_, ?_, ?_⟩
  · refine (perform_layers layeredDisk layeredEnvironment
      { Arguments.none with layer.entry := some ⟨"b.js"⟩, stdout := true } []).1
      (some ⟨some ⟨"a.js"⟩, none, some .named, none⟩) (some ⟨none, some ⟨"o.js"⟩, none, none⟩) none
      ⟨none, none, none, some .commonJs⟩ ?_ ?_ .none ?_
    · have huser : (userFile? layeredEnvironment).filter layeredDisk.hasFile =
          some ⟨"/home/u/.config/esroll/esroll.toml"⟩ := by decide +kernel
      rw [huser]
      exact .some (fileSets_iff.mpr (by decide +kernel))
    · have hproject : (some (projectFile layeredDisk)).filter layeredDisk.hasFile =
          some ⟨"/p/esroll.toml"⟩ := by decide +kernel
      rw [hproject]
      exact .some (fileSets_iff.mpr (by decide +kernel))
    · have hexports : layeredEnvironment.get? "ESROLL_EXPORTS" = some "  " := by decide +kernel
      have hformat : layeredEnvironment.get? "ESROLL_FORMAT" = some " CJS " := by decide +kernel
      have hblank : ∀ c ∈ "  ".toList, Text.isBlank c = true :=
        List.all_eq_true.mp (by decide +kernel)
      exact ⟨rfl, rfl, .blank hexports hblank,
        .choice hformat ⟨'C', by decide +kernel, by decide +kernel⟩ (by decide +kernel)
          (by decide +kernel)⟩
  · exact ((perform_layers layeredDisk layeredEnvironment
      { Arguments.none with config := some ⟨"extra.toml"⟩ } []).2.1 ⟨"extra.toml"⟩ (Or.inl rfl)
      hunknown).2 ["--config", "extra.toml"] (by decide +kernel) |>.1
  · have hlayer : layerOf layeredDisk ⟨"esroll.toml"⟩ = .ok ⟨none, some ⟨"o.js"⟩, none, none⟩ := by
      decide +kernel
    obtain ⟨entry, hmerge⟩ := Editing.run_merge_of_ok hlayer (.default, [])
    have hbefore : (Editing.mergeEach layeredDisk [⟨"esroll.toml"⟩]).run (.default, []) =
        .ok () (Settings.default.apply ⟨none, some ⟨"o.js"⟩, none, none⟩, [] ++ [entry]) := by
      rw [Editing.run_mergeEach_cons, hmerge]
      rfl
    exact ((perform_layers layeredDisk layeredEnvironment Arguments.none []).2.2
      [⟨"esroll.toml"⟩] ⟨"extra.toml"⟩ [] _ _ (.invalidSettings ⟨"extra.toml"⟩) _ hbefore
      (Editing.run_merge_of_error (by decide +kernel) _)).2

end CommandLine
end ScriptBundler

import ScriptBundler.Proofs.Graph.Interop
import ScriptBundler.Proofs.Output.Capture
import Mathlib.Data.List.TakeWhile

/-!
# The preamble of a bundle

A bundle requires its external modules in lines of their own.  Which lines there are for a module
depends on what it knows of its imports, and what stands for an export of the module depends on it
as well.  In every reached graph both agree: what stands for an import is bound in the preamble, and
the module itself is given up for its default export only if nothing else of it is imported.
-/

namespace ScriptBundler

open Files ScriptBundler.Module

/-- Whether a line stands in some text, and neither in its first nor its last line. -/
def HasLine (text line : String) : Prop :=
  ∃ before after, text = before ++ "\n" ++ line ++ "\n" ++ after

theorem HasLine.append {text line : String} (hline : HasLine text line) (before after : String) :
    HasLine (before ++ text ++ after) line := by
  obtain ⟨first, last, rfl⟩ := hline
  exact ⟨before ++ first, last ++ after, by simp only [String.append_assoc]⟩

/-- Lines that are put one below the other are lines of the text. -/
theorem hasLine_intercalate {lines : List String} {line : String} (hmem : line ∈ lines) :
    HasLine ("\n" ++ "\n".intercalate lines ++ "\n") line := by
  induction lines with
  | nil => exact absurd hmem List.not_mem_nil
  | cons first rest ih =>
      cases rest with
      | nil =>
          obtain rfl := List.mem_singleton.mp hmem
          exact ⟨"", "", by simp⟩
      | cons second rest =>
          rw [String.intercalate_cons_cons]
          rcases List.mem_cons.mp hmem with rfl | hmem
          · exact ⟨"", "\n".intercalate (second :: rest) ++ "\n",
              by simp only [String.append_assoc, String.empty_append]⟩
          · have hbelow := (ih hmem).append ("\n" ++ first) ""
            simpa only [String.append_assoc, String.append_empty] using hbelow

theorem HasLine.of_block {text block line : String} (hblock : HasLine text block)
    (hline : HasLine ("\n" ++ block ++ "\n") line) : HasLine text line := by
  obtain ⟨before, after, rfl⟩ := hblock
  simpa only [String.append_assoc] using hline.append before after

/-! ## Names that canonical names begin with -/

theorem isNameChar_of_mem_madeName {text : String} {c : Char}
    (hc : c ∈ (Text.madeName text).toList) : Text.isNameChar c = true := by
  have hkept : ∀ c ∈ text.toList.map fun c => if Text.isNameChar c then c else '_',
      Text.isNameChar c = true := by
    intro c hmem
    obtain ⟨other, -, rfl⟩ := List.mem_map.mp hmem
    split
    · assumption
    · decide
  unfold Text.madeName at hc
  dsimp only at hc
  split at hc
  · have hall : "_".toList.all Text.isNameChar = true := by decide
    exact List.all_eq_true.mp hall c hc
  · rename_i heq
    rw [heq] at hkept
    split at hc
    · rw [String.toList_ofList] at hc
      rcases List.mem_cons.mp hc with rfl | hc
      · decide
      · exact hkept c (heq ▸ hc)
    · rw [String.toList_ofList] at hc
      exact hkept c (heq ▸ hc)

variable {name : String}

theorem rootOf_of_plain (hplain : ∀ c ∈ name.toList, Text.isNameChar c = true) :
    rootOf name = name := by
  unfold rootOf
  rw [List.takeWhile_eq_self_iff.mpr, String.ofList_toList]
  intro c hc
  rw [bne_iff_ne]
  rintro rfl
  exact absurd (hplain _ hc) (by decide)

theorem rootOf_property (hplain : ∀ c ∈ name.toList, Text.isNameChar c = true)
    (property : String) : rootOf (name ++ "." ++ property) = name := by
  have hname : ∀ c ∈ name.toList, (c != '.') = true := by
    intro c hc
    rw [bne_iff_ne]
    rintro rfl
    exact absurd (hplain _ hc) (by decide)
  unfold rootOf
  rw [String.toList_append, String.toList_append, List.append_assoc,
    List.takeWhile_append_of_pos hname]
  simp

/-! ## The lines for an external module -/

namespace External

/-- The expression that gives the module. -/
def required (external : External) : String :=
  "require('" ++ external.specifier ++ "')"

/-- The expression that gives the default export, or the module if it has none. -/
def interop (external : External) : String :=
  "'default' in " ++ external.name ++ " ? " ++ external.name ++ "['default'] : " ++ external.name

/-- The lines that require the module. -/
def lines (external : External) : List String :=
  ("var " ++ external.name ++ " = " ++ external.required) ::
    if external.needsDefault then
      if external.needsNamed then ["var " ++ external.defaultName ++ " = " ++ external.interop]
      else [external.name ++ " = " ++ external.interop]
    else []

theorem require_eq_lines (external : External) :
    external.require = "\n".intercalate external.lines := by
  apply String.toList_injective
  unfold require lines required interop defaultName
  cases external.needsDefault <;> cases external.needsNamed <;>
    simp [toString, String.intercalate_cons_cons]

variable {external : External} {exported : String}

/-- What stands for an export is the module, its default export beside others, or a property. -/
theorem canonicalName_cases (external : External) (exported : String) :
    external.canonicalName exported = external.name ∨
      (exported = "default" ∧ external.needsNamed = true ∧
        external.canonicalName exported = external.defaultName) ∨
      external.canonicalName exported = external.name ++ "." ++ exported := by
  unfold canonicalName
  by_cases hwhole : exported = "*"
  · simp [hwhole]
  · by_cases hdefault : exported = "default"
    · cases hnamed : external.needsNamed <;> simp [hdefault]
    · simp [hwhole, hdefault]

theorem plain_defaultName (hplain : ∀ c ∈ external.name.toList, Text.isNameChar c = true) :
    ∀ c ∈ external.defaultName.toList, Text.isNameChar c = true := by
  unfold defaultName
  intro c hc
  rw [String.toList_append, List.mem_append] at hc
  rcases hc with hc | hc
  · exact hplain c hc
  · have hall : "__default".toList.all Text.isNameChar = true := by decide
    exact List.all_eq_true.mp hall c hc

theorem defaultName_ne_name (external : External) : external.defaultName ≠ external.name := by
  intro heq
  have hlength := congrArg (·.toList.length) heq
  simp [defaultName] at hlength

/-- The default export has a line of its own if it is imported beside others. -/
theorem defaultLine_mem_lines (hdefault : external.needsDefault = true)
    (hnamed : external.needsNamed = true) :
    "var " ++ external.defaultName ++ " = " ++ external.interop ∈ external.lines := by
  simp [lines, hdefault, hnamed]

/-- The name that an export begins with is bound, if the module knows that it is imported. -/
theorem Provides.rootLine_mem_lines (hprovides : external.Provides exported)
    (hplain : ∀ c ∈ external.name.toList, Text.isNameChar c = true) :
    ∃ value ∈ [external.required, external.interop],
      "var " ++ rootOf (external.canonicalName exported) ++ " = " ++ value ∈ external.lines := by
  rcases canonicalName_cases external exported with hname | ⟨rfl, hnamed, hname⟩ | hname
  · rw [hname, rootOf_of_plain hplain]
    exact ⟨external.required, List.mem_cons_self, List.mem_cons_self⟩
  · rw [hname, rootOf_of_plain (plain_defaultName hplain)]
    exact ⟨external.interop, by simp, defaultLine_mem_lines hprovides hnamed⟩
  · rw [hname, rootOf_property hplain]
    exact ⟨external.required, List.mem_cons_self, List.mem_cons_self⟩

/-- What stands for an export begins with the name of the default export only if it is that, and
other exports are imported as well. -/
theorem defaultName_eq_rootOf (hplain : ∀ c ∈ external.name.toList, Text.isNameChar c = true)
    (huses : rootOf (external.canonicalName exported) = external.defaultName) :
    exported = "default" ∧ external.needsNamed = true := by
  rcases canonicalName_cases external exported with hname | ⟨hdefault, hnamed, -⟩ | hname
  · rw [hname, rootOf_of_plain hplain] at huses
    exact absurd huses.symm external.defaultName_ne_name
  · exact ⟨hdefault, hnamed⟩
  · rw [hname, rootOf_property hplain] at huses
    exact absurd huses.symm external.defaultName_ne_name

/-- The module is given up for its default export only if nothing else of it is imported. -/
theorem needsNamed_of_overwritten
    (hplain : ∀ c ∈ external.name.toList, Text.isNameChar c = true)
    (hoverwritten : external.name ++ " = " ++ external.interop ∈ external.lines) :
    external.needsNamed = false := by
  rcases List.mem_cons.mp hoverwritten with hfirst | hsecond
  · -- up to its first blank, the line that declares the name is `var`
    have hline := congrArg String.toList hfirst
    have hword := congrArg (List.takeWhile (· != ' ')) hline
    have hname : ∀ c ∈ external.name.toList, (c != ' ') = true := by
      intro c hc
      rw [bne_iff_ne]
      rintro rfl
      exact absurd (hplain _ hc) (by decide)
    simp only [String.toList_append, List.append_assoc,
      List.takeWhile_append_of_pos hname] at hword
    have hvar : external.name.toList = "var".toList := by simpa using hword
    simp only [String.toList_append, hvar] at hline
    simp at hline
  · by_contra hnamed
    rw [Bool.not_eq_false] at hnamed
    rw [if_pos hnamed] at hsecond
    split at hsecond
    · have hlength := congrArg String.length (List.mem_singleton.mp hsecond)
      simp only [defaultName, String.length_append] at hlength
      have hvar : "var ".length = 4 := rfl
      omega
    · contradiction

end External

/-! ## The preamble -/

namespace Assembly

/-- The lines of all external modules are in the preamble. -/
theorem hasLine_opening {externals : List External} {external : External} {line : String}
    (hmem : external ∈ externals) (hline : line ∈ external.lines) :
    HasLine (opening externals) line := by
  have hblock : HasLine ("\n" ++ "\n".intercalate (externals.map External.require) ++ "\n")
      external.require := hasLine_intercalate (List.mem_map_of_mem hmem)
  have hwithin : HasLine ("\n" ++ external.require ++ "\n") line := by
    rw [External.require_eq_lines]
    exact hasLine_intercalate hline
  have hopening : opening externals = "'use strict'\n" ++
      ("\n" ++ "\n".intercalate (externals.map External.require) ++ "\n") ++ "\n" := by
    apply String.toList_injective
    cases externals with
    | nil => contradiction
    | cons first rest => simp [opening]
  rw [hopening]
  exact (hblock.of_block hwithin).append _ _

end Assembly

namespace Graph

open Assembly

/-- In every reached graph, an external module knows of each import that is bound to it.  The
preamble binds the name that the import is replaced by, the default export has a name there if it
is used, and the module is given up for its default export only if nothing else is imported. -/
theorem interop_of_reached {disk : Disk} {graph : Graph} {id number : Nat} {module : Module}
    {name : String} {entry : Import} (hreached : Reached disk graph)
    (hmodule : graph.module? id = some module) (hentry : module.imports.get? name = some entry)
    (htarget : entry.target = some (.external number)) :
    ∃ external, graph.external? number = some external ∧
      (if entry.name = "default" then external.needsDefault = true
        else external.needsNamed = true) ∧
      (∃ value ∈ [external.required, external.interop], HasLine (opening graph.externals)
        ("var " ++ rootOf (external.canonicalName entry.name) ++ " = " ++ value)) ∧
      (rootOf (external.canonicalName entry.name) = external.defaultName →
        HasLine (opening graph.externals)
          ("var " ++ external.defaultName ++ " = " ++ external.interop)) ∧
      (external.name ++ " = " ++ external.interop ∈ external.lines → entry.name = "default") := by
  have hserved := hreached.of_lasting (lasting_served disk)
  obtain ⟨external, hexternal, hprovides⟩ :=
    hserved.provides id module name entry number hmodule hentry htarget
  have hmem : external ∈ graph.externals := List.mem_of_getElem? hexternal
  have hplain : ∀ c ∈ external.name.toList, Text.isNameChar c = true := by
    rw [hserved.made number external hexternal]
    exact fun c => isNameChar_of_mem_madeName
  refine ⟨external, hexternal, hprovides, ?_, fun huses => ?_, fun hoverwritten => ?_⟩
  · obtain ⟨value, hvalue, hline⟩ := hprovides.rootLine_mem_lines hplain
    exact ⟨value, hvalue, hasLine_opening hmem hline⟩
  · obtain ⟨hdefault, hnamed⟩ := External.defaultName_eq_rootOf hplain huses
    rw [hdefault] at hprovides
    exact hasLine_opening hmem (External.defaultLine_mem_lines hprovides hnamed)
  · by_contra hother
    have hnamed : external.needsNamed = true := by
      unfold External.Provides at hprovides
      rwa [if_neg hother] at hprovides
    rw [External.needsNamed_of_overwritten hplain hoverwritten] at hnamed
    contradiction

/-- A module that imports from two external modules, and from a file that is not there. -/
def brokenDisk : Disk where
  workingDirectory := []
  files :=
    [(["main.js"], .text ("import fs from 'fs';\nimport path, \x7b join \x7d from 'path';\n" ++
      "import \x7b gone \x7d from './gone';\nexport var r = [fs, join, path, gone];\n").toList)]
  directories := []

/-- The request fails, and what external modules have come to know by then remains. -/
theorem interop_brokenDisk : ∃ graph, Reached brokenDisk graph ∧
    opening graph.externals = "'use strict'\n\n" ++
      "var fs = require('fs')\nfs = 'default' in fs ? fs['default'] : fs\n" ++
      "var path = require('path')\n" ++
      "var path__default = 'default' in path ? path['default'] : path\n\n" ∧
    ∃ module entry, graph.module? 0 = some module ∧ module.imports.get? "path" = some entry ∧
      entry.name = "default" ∧ ∃ external, graph.external? 1 = some external ∧
        external.needsDefault = true ∧
        ∃ value ∈ [external.required, external.interop], HasLine (opening graph.externals)
          ("var " ++ rootOf (external.canonicalName "default") ++ " = " ++ value) := by
  have hreached := ((Reached.start : Reached brokenDisk .empty).loaded ⟨"/main.js"⟩).requested
    (.everything 0 true)
  refine ⟨_, hreached, by decide +kernel, ?_⟩
  obtain ⟨module, hmodule, hcheck⟩ := (Option.any_eq_true
    (fun module : Module => (module.imports.get? "path").any fun entry : Import =>
      decide (entry.name = "default") && decide (entry.target = some (.external 1)))
    (((Graph.empty.run (Build.load brokenDisk ⟨"/main.js"⟩)).graph.request brokenDisk
      (.everything 0 true)).graph.module? 0)).mp (by decide +kernel)
  obtain ⟨entry, hentry, hcheck⟩ := (Option.any_eq_true _ _).mp hcheck
  rw [Bool.and_eq_true, decide_eq_true_iff, decide_eq_true_iff] at hcheck
  obtain ⟨hname, htarget⟩ := hcheck
  obtain ⟨external, hexternal, hknows, hbound, -⟩ :=
    interop_of_reached hreached hmodule hentry htarget
  rw [hname] at hknows hbound
  exact ⟨module, entry, hmodule, hentry, hname, external, hexternal, hknows, hbound⟩

end Graph

end ScriptBundler

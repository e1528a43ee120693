import Mathlib.Tactic.MkIffOfInductiveProp
import ScriptBundler.Proofs.Tables
import ScriptBundler.Settings.Layer

/-!
# Documents of settings

No key stands twice in a table of a document, so that a settings file gives each setting one value
or none.  What it sets is read off its keys: a key that is no setting, or a value that does not fit
its key, makes the whole file invalid.
-/

namespace ScriptBundler

namespace Toml

/-! ## Keys of a table -/

/-- Whether no key stands twice in a table. -/
def Members.Apart (members : Members) : Prop :=
  (members.map Prod.fst).Nodup

namespace Members

variable {members result : Members} {key : String} {path current : KeyPath} {value : Value}

theorem keys_replace (members : Members) (key : String) (value : Value) :
    (replace members key value).map Prod.fst = members.map Prod.fst := by
  unfold replace
  rw [List.map_map]
  refine List.map_congr_left fun member _ => ?_
  by_cases hkey : member.1 = key
  · simp [hkey]
  · simp [hkey]

theorem Apart.replace (hapart : members.Apart) (key : String) (value : Value) :
    (replace members key value).Apart := by
  unfold Apart
  rw [keys_replace]
  exact hapart

theorem lookup_eq_none_iff : members.lookup key = none ↔ key ∉ members.map Prod.fst :=
  (Table.get?_eq_none_iff : Table.get? members key = none ↔ _).trans (by simp)

/-- A key that is not in a table yet can be added. -/
theorem Apart.append (hapart : members.Apart) (hnone : members.lookup key = none)
    (value : Value) : (members ++ [(key, value)]).Apart := by
  have hnew := lookup_eq_none_iff.mp hnone
  unfold Apart
  rw [List.map_append]
  refine List.nodup_append.mpr ⟨hapart, List.pairwise_singleton _ _, ?_⟩
  rintro other hother found hfound rfl
  obtain rfl := List.mem_singleton.mp hfound
  exact hnew hother

theorem Apart.add (hapart : members.Apart) (hadd : add path value members = some result) :
    result.Apart := by
  unfold Members.add at hadd
  split at hadd
  · contradiction
  · split at hadd
    · rename_i hnone
      obtain rfl := Option.some.inj hadd
      exact hapart.append hnone value
    · contradiction
  · split at hadd
    · rename_i hnone
      obtain ⟨inner, -, hresult⟩ := Option.bind_eq_some_iff.mp hadd
      obtain rfl := Option.some.inj hresult
      exact hapart.append hnone _
    · obtain ⟨inner, -, hresult⟩ := Option.bind_eq_some_iff.mp hadd
      obtain rfl := Option.some.inj hresult
      exact hapart.replace _ _
    · obtain ⟨inner, -, hresult⟩ := Option.bind_eq_some_iff.mp hadd
      obtain rfl := Option.some.inj hresult
      exact hapart.replace _ _
    · contradiction

theorem Apart.openTable (hapart : members.Apart) (hopen : openTable path members = some result) :
    result.Apart := by
  unfold Members.openTable at hopen
  split at hopen
  · contradiction
  · split at hopen
    · rename_i hnone
      obtain rfl := Option.some.inj hopen
      exact hapart.append hnone _
    · obtain rfl := Option.some.inj hopen
      exact hapart.replace _ _
    · contradiction
  · split at hopen
    · rename_i hnone
      obtain ⟨inner, -, hresult⟩ := Option.bind_eq_some_iff.mp hopen
      obtain rfl := Option.some.inj hresult
      exact hapart.append hnone _
    · contradiction
    · obtain ⟨inner, -, hresult⟩ := Option.bind_eq_some_iff.mp hopen
      obtain rfl := Option.some.inj hresult
      exact hapart.replace _ _
    · contradiction

theorem Apart.addWithin (hapart : members.Apart)
    (hadd : addWithin current path value members = some result) : result.Apart := by
  unfold Members.addWithin at hadd
  split at hadd
  · exact hapart.add hadd
  · split at hadd
    · obtain ⟨inner, -, hresult⟩ := Option.bind_eq_some_iff.mp hadd
      obtain rfl := Option.some.inj hresult
      exact hapart.replace _ _
    · contradiction

end Members

/-- Lines put new keys into the table that they find. -/
theorem readLines_apart {members result : Members} {current : KeyPath} {fuel : Nat}
    {text : List Char} (hapart : members.Apart)
    (hread : readLines fuel current members text = some result) : result.Apart := by
  induction fuel generalizing members current text with
  | zero => contradiction
  | succ fuel ih =>
      unfold readLines at hread
      obtain ⟨rest, -, hrest⟩ := Option.bind_eq_some_iff.mp hread
      split at hrest
      · obtain rfl := Option.some.inj hrest
        exact hapart
      · contradiction
      · obtain ⟨header, -, hheader⟩ := Option.bind_eq_some_iff.mp hrest
        obtain ⟨opened, hopened, hlines⟩ := Option.bind_eq_some_iff.mp hheader
        exact ih (hapart.openTable hopened) hlines
      · obtain ⟨entry, -, hentry⟩ := Option.bind_eq_some_iff.mp hrest
        obtain ⟨added, hadded, hlines⟩ := Option.bind_eq_some_iff.mp hentry
        exact ih (hapart.addWithin hadded) hlines

/-- No key stands twice in a document. -/
theorem readDocument_apart {members : Members} {text : List Char}
    (hread : readDocument text = some members) : members.Apart := by
  unfold readDocument at hread
  have hempty : Members.Apart [] := List.nodup_nil
  split at hread <;> exact readLines_apart hempty hread

end Toml

namespace Settings

/-! ## Layers -/

/-- The keys that a settings file may have. -/
def keys : List String :=
  ["entry", "output", "exports", "format"]

/-- Whether no layer takes a value for a key. -/
def Refused (key : String) (value : Toml.Value) : Prop :=
  ∀ layer : Layer, layer.add key value = none

/-- Which values are taken for a key does not depend on what has been set before. -/
theorem refused_of_add {before : Layer} {key : String} {value : Toml.Value}
    (hadd : before.add key value = none) : Refused key value := by
  intro layer
  unfold Layer.add at hadd ⊢
  split at hadd <;> simp_all

/-- Only settings have values. -/
theorem refused_of_not_mem {key : String} (hkey : key ∉ keys) (value : Toml.Value) :
    Refused key value := by
  intro layer
  unfold Layer.add
  split <;> first | rfl | exact absurd (by decide) hkey

/-- Whether a layer is what the members of a document set, over a layer that is there before: each
setting has the value of its key, if the document has that key. -/
@[mk_iff setsOver_iff]
structure SetsOver (before : Layer) (members : Toml.Members) (layer : Layer) : Prop where
  known : ∀ member ∈ members, member.1 ∈ keys
  entry : layer.entry.map some =
    ((members.lookup "entry").map pathOf?).or (before.entry.map some)
  output : layer.output.map some =
    ((members.lookup "output").map pathOf?).or (before.output.map some)
  exports : layer.exports.map some =
    ((members.lookup "exports").map (choiceOf? ExportMode.all ExportMode.text)).or
      (before.exports.map some)
  format : layer.format.map some =
    ((members.lookup "format").map (choiceOf? OutputFormat.all OutputFormat.text)).or
      (before.format.map some)

/-- The first member of a document goes over the layer before the others do. -/
theorem setsOver_cons_iff {before layer : Layer} {key : String} {value : Toml.Value}
    {rest : Toml.Members} (hnew : rest.lookup key = none) :
    SetsOver before ((key, value) :: rest) layer ↔
      ∃ middle, before.add key value = some middle ∧ SetsOver middle rest layer := by
  by_cases hkey : key ∈ keys
  · simp only [keys, List.mem_cons, List.not_mem_nil, or_false] at hkey
    rcases hkey with rfl | rfl | rfl | rfl
    · cases hvalue : pathOf? value <;>
        simp [setsOver_iff, Layer.add, List.lookup_cons, keys, hnew, hvalue]
    · cases hvalue : pathOf? value <;>
        simp [setsOver_iff, Layer.add, List.lookup_cons, keys, hnew, hvalue]
    · cases hvalue : choiceOf? ExportMode.all ExportMode.text value <;>
        simp [setsOver_iff, Layer.add, List.lookup_cons, keys, hnew, hvalue]
    · cases hvalue : choiceOf? OutputFormat.all OutputFormat.text value <;>
        simp [setsOver_iff, Layer.add, List.lookup_cons, keys, hnew, hvalue]
  · simp [setsOver_iff, refused_of_not_mem hkey value before, hkey]

/-- Going through a document sets what its members say. -/
theorem addAll_eq_some_iff {members : Toml.Members} (hapart : members.Apart)
    {before layer : Layer} :
    Layer.addAll members before = some layer ↔ SetsOver before members layer := by
  induction members generalizing before with
  | nil =>
      have hsame : ∀ {α : Type} (found other : Option α),
          found.map some = other.map some ↔ other = found := fun found other =>
        (Option.map_injective (fun _ _ => Option.some.inj)).eq_iff.trans eq_comm
      cases before
      cases layer
      simp [Layer.addAll, setsOver_iff, hsame]
  | cons first rest ih =>
      obtain ⟨key, value⟩ := first
      obtain ⟨hkey, hrest⟩ := List.nodup_cons.mp hapart
      rw [setsOver_cons_iff (Toml.Members.lookup_eq_none_iff.mpr hkey), Layer.addAll]
      cases hadd : before.add key value with
      | none => simp
      | some middle => simp [ih hrest]

theorem addAll_eq_none_iff {members : Toml.Members} {before : Layer} :
    Layer.addAll members before = none ↔ ∃ member ∈ members, Refused member.1 member.2 := by
  induction members generalizing before with
  | nil => simp [Layer.addAll]
  | cons first rest ih =>
      obtain ⟨key, value⟩ := first
      rw [Layer.addAll, List.exists_mem_cons_iff]
      cases hadd : before.add key value with
      | none => simp [refused_of_add hadd]
      | some middle =>
          have hnot : ¬ Refused key value := fun hrefused => by
            rw [hrefused before] at hadd
            contradiction
          simp [ih, hnot]

/-- The layer of a settings file is what its document sets. -/
theorem ofText?_eq_some_iff {text : List Char} {layer : Layer} :
    Layer.ofText? text = some layer ↔
      ∃ members, Toml.readDocument text = some members ∧ SetsOver .empty members layer := by
  unfold Layer.ofText?
  rw [Option.bind_eq_some_iff]
  exact exists_congr fun members => and_congr_right fun hread =>
    addAll_eq_some_iff (Toml.readDocument_apart hread)

end Settings

end ScriptBundler

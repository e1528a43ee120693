import Mathlib.Data.List.Nodup
import ScriptBundler.Table

/-!
# Tables after many settings

What a table holds after several names have been set, one after the other: for each name the value
of its last setting.  A table whose names are all different holds every one of its entries.
-/

namespace ScriptBundler
namespace Table

variable {α β : Type}

theorem mem_of_get? {table : Table α} {name : String} {value : α}
    (hget : table.get? name = some value) : (name, value) ∈ table := by
  induction table with
  | nil => simp at hget
  | cons entry rest ih =>
      obtain ⟨key, first⟩ := entry
      rw [get?_cons] at hget
      by_cases hkey : key = name
      · rw [if_pos hkey] at hget
        obtain rfl := Option.some.inj hget
        exact hkey ▸ List.mem_cons_self
      · rw [if_neg hkey] at hget
        exact List.mem_cons_of_mem _ (ih hget)

theorem get?_eq_none_iff {table : Table α} {name : String} :
    table.get? name = none ↔ ∀ value, (name, value) ∉ table := by
  constructor
  · intro hnone value hmem
    induction table with
    | nil => simp at hmem
    | cons entry rest ih =>
        obtain ⟨key, first⟩ := entry
        rw [get?_cons] at hnone
        by_cases hkey : key = name
        · rw [if_pos hkey] at hnone
          contradiction
        · rw [if_neg hkey] at hnone
          rcases List.mem_cons.mp hmem with hfirst | hrest
          · exact hkey (congrArg Prod.fst hfirst).symm
          · exact ih hnone hrest
  · intro habsent
    cases hget : table.get? name with
    | none => rfl
    | some value => exact absurd (mem_of_get? hget) (habsent value)

/-- Among entries with different names, each one is the value of its name. -/
theorem get?_eq_some_of_mem {table : Table α} {name : String} {value : α}
    (hnodup : (table.map (·.1)).Nodup) (hmem : (name, value) ∈ table) :
    table.get? name = some value := by
  induction table with
  | nil => simp at hmem
  | cons entry rest ih =>
      obtain ⟨key, first⟩ := entry
      rw [List.map_cons, List.nodup_cons] at hnodup
      rw [get?_cons]
      rcases List.mem_cons.mp hmem with hfirst | hrest
      · obtain ⟨rfl, rfl⟩ := Prod.mk.inj hfirst
        rw [if_pos rfl]
      · have hkey : key ≠ name := by
          rintro rfl
          exact hnodup.1 (List.mem_map.mpr ⟨_, hrest, rfl⟩)
        rw [if_neg hkey]
        exact ih hnodup.2 hrest

theorem get?_append (left right : Table α) (name : String) :
    Table.get? (left ++ right) name = (left.get? name).or (right.get? name) :=
  List.lookup_append

/-- After several settings the last one of a name counts, and what the table held before them if
there is none. -/
theorem get?_setAll (table entries : Table α) (name : String) :
    (table.setAll entries).get? name = (Table.get? entries.reverse name).or (table.get? name) := by
  induction entries generalizing table with
  | nil => rfl
  | cons entry rest ih =>
      obtain ⟨key, value⟩ := entry
      show ((table.set key value).setAll rest).get? name = _
      rw [ih, get?_set, List.reverse_cons, get?_append, get?_cons, Option.or_assoc]
      by_cases hkey : key = name <;> simp [hkey]

theorem mem_of_get?_setAll {entries : Table α} {name : String} {value : α}
    (hget : (Table.setAll [] entries).get? name = some value) : (name, value) ∈ entries := by
  rw [get?_setAll, get?_nil, Option.or_none] at hget
  exact List.mem_reverse.mp (mem_of_get? hget)

theorem get?_setAll_eq_none_iff {entries : Table α} {name : String} :
    (Table.setAll [] entries).get? name = none ↔ ∀ value, (name, value) ∉ entries := by
  rw [get?_setAll, get?_nil, Option.or_none, get?_eq_none_iff]
  simp

/-- Settings of different names do not get in each other's way. -/
theorem get?_setAll_of_mem {entries : Table α} {name : String} {value : α}
    (hnodup : (entries.map (·.1)).Nodup) (hmem : (name, value) ∈ entries) :
    (Table.setAll [] entries).get? name = some value := by
  rw [get?_setAll, get?_nil, Option.or_none]
  refine get?_eq_some_of_mem ?_ (List.mem_reverse.mpr hmem)
  rw [List.map_reverse]
  exact List.nodup_reverse.mpr hnodup

/-- Later settings count before earlier ones. -/
theorem get?_setAll_append (earlier later : Table α) (name : String) :
    (Table.setAll [] (earlier ++ later)).get? name =
      ((Table.setAll [] later).get? name).or ((Table.setAll [] earlier).get? name) := by
  simp only [get?_setAll, get?_nil, Option.or_none, List.reverse_append, get?_append]

/-- Setting a name adds it to the names of the table. -/
theorem map_fst_set (table : Table α) (name : String) (value : α) :
    (table.set name value).map (·.1) = insertName (table.map (·.1)) name := by
  induction table with
  | nil => rfl
  | cons entry rest ih =>
      obtain ⟨key, first⟩ := entry
      by_cases hkey : key = name
      · subst hkey
        simp [set, insertName]
      · rw [set, if_neg hkey, List.map_cons, ih, List.map_cons]
        unfold insertName
        rw [List.contains_cons]
        have hother : (name == key) = false := by simpa using fun h => hkey h.symm
        rw [hother, Bool.false_or]
        split <;> rfl

/-- A new name goes to the end. -/
theorem set_eq_append {table : Table α} {name : String} (hnew : table.get? name = none)
    (value : α) : table.set name value = table ++ [(name, value)] := by
  induction table with
  | nil => rfl
  | cons entry rest ih =>
      obtain ⟨key, first⟩ := entry
      rw [get?_cons] at hnew
      by_cases hkey : key = name
      · rw [if_pos hkey] at hnew
        contradiction
      · rw [if_neg hkey] at hnew
        rw [set, if_neg hkey, ih hnew, List.cons_append]

/-- Settings of new names that are all different go to the end, in their order. -/
theorem setAll_eq_append {table entries : Table α}
    (hnodup : ((table ++ entries).map (·.1)).Nodup) : table.setAll entries = table ++ entries := by
  induction entries generalizing table with
  | nil => exact (List.append_nil table).symm
  | cons entry rest ih =>
      have hnew : table.get? entry.1 = none := by
        rw [get?_eq_none_iff]
        intro value hvalue
        rw [List.map_append, List.nodup_append] at hnodup
        exact hnodup.2.2 _ (List.mem_map_of_mem hvalue) _ (List.mem_cons_self ..) rfl
      have hset : table.set entry.1 entry.2 = table ++ [entry] := set_eq_append hnew entry.2
      show (table.set entry.1 entry.2).setAll rest = _
      rw [hset, ih (by simpa using hnodup), List.append_assoc, List.singleton_append]

/-- Filtering by name keeps the values of the names that pass. -/
theorem get?_filter (keep : String → Bool) (table : Table α) (name : String) :
    Table.get? (table.filter fun entry => keep entry.1) name =
      if keep name then table.get? name else none := by
  induction table with
  | nil => simp
  | cons entry rest ih =>
      obtain ⟨key, first⟩ := entry
      rw [List.filter_cons, get?_cons]
      by_cases hkey : key = name
      · subst hkey
        cases hkeep : keep key with
        | true => simp [get?_cons]
        | false =>
            rw [hkeep] at ih
            simpa [hkeep] using ih
      · rw [if_neg hkey]
        cases hkeep : keep key with
        | true =>
            rw [if_pos rfl, get?_cons, if_neg hkey]
            exact ih
        | false =>
            rw [if_neg (by simp)]
            exact ih

theorem get?_map (table : Table α) (change : α → β) (name : String) :
    Table.get? (table.map fun entry => (entry.1, change entry.2)) name =
      (table.get? name).map change := by
  induction table with
  | nil => rfl
  | cons entry rest ih =>
      obtain ⟨key, value⟩ := entry
      rw [List.map_cons, get?_cons, get?_cons, ih]
      by_cases hkey : key = name <;> simp [hkey]

/-- Setting a name does not show in a view that does not see the difference to its old value. -/
theorem map_set_eq_self {table : Table α} {change : α → β} {name : String} {value : α}
    (hsame : (table.get? name).map change = some (change value)) :
    (table.set name value).map (fun entry => (entry.1, change entry.2)) =
      table.map fun entry => (entry.1, change entry.2) := by
  induction table with
  | nil => simp at hsame
  | cons entry rest ih =>
      obtain ⟨key, old⟩ := entry
      rw [get?_cons] at hsame
      by_cases hkey : key = name
      · rw [if_pos hkey] at hsame
        have hvalue : change old = change value := Option.some.inj hsame
        simp [set, hkey, hvalue]
      · rw [if_neg hkey] at hsame
        simp only [set, if_neg hkey, List.map_cons, ih hsame]

end Table
end ScriptBundler

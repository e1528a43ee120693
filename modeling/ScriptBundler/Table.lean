/-!
# Tables and sets in order of insertion

A table maps names to values and remembers in which order the names came in; setting a name again
keeps its place.  A set of names is a list without repetitions, in the order of insertion.
-/

namespace ScriptBundler

/-- A map from names that remembers the order of its first insertions. -/
abbrev Table (α : Type) := List (String × α)

namespace Table

variable {α : Type}

/-- The value of a name. -/
def get? (table : Table α) (name : String) : Option α :=
  List.lookup name table

/-- Whether a name has a value. -/
def has (table : Table α) (name : String) : Bool :=
  (table.get? name).isSome

/-- Sets the value of a name.  A new name goes to the end. -/
def set (table : Table α) (name : String) (value : α) : Table α :=
  match table with
  | [] => [(name, value)]
  | (key, old) :: rest =>
    if key = name then (key, value) :: rest else (key, old) :: Table.set rest name value

/-- Sets several names, one after the other. -/
def setAll (table entries : Table α) : Table α :=
  entries.foldl (fun table entry => table.set entry.1 entry.2) table

/-- Sets the value of a name unless it has one. -/
def setNew (table : Table α) (name : String) (value : α) : Table α :=
  if table.has name then table else table.set name value

@[simp] theorem get?_nil (name : String) : Table.get? ([] : Table α) name = none := rfl

theorem get?_cons (key name : String) (value : α) (rest : Table α) :
    Table.get? ((key, value) :: rest) name =
      if key = name then some value else Table.get? rest name := by
  by_cases h : key = name
  · subst h; simp [get?]
  · have other : (name == key) = false := by simpa using fun e => h e.symm
    simp [get?, List.lookup_cons, h, other]

theorem get?_set (table : Table α) (key name : String) (value : α) :
    (table.set key value).get? name = if key = name then some value else table.get? name := by
  induction table with
  | nil => simp [set, get?_cons]
  | cons entry rest ih =>
    obtain ⟨first, old⟩ := entry
    by_cases h : first = key
    · subst h; by_cases h' : first = name <;> simp [set, get?_cons, h']
    · by_cases h' : first = name
      · subst h'; simp [set, get?_cons, h, Ne.symm h]
      · simp [set, get?_cons, h, h', ih]

@[simp] theorem get?_set_self (table : Table α) (name : String) (value : α) :
    (table.set name value).get? name = some value := by
  simp [get?_set]

/-- A name that has a value keeps it. -/
theorem get?_setNew (table : Table α) (key name : String) (value : α) :
    (table.setNew key value).get? name =
      if key = name then some ((table.get? key).getD value) else table.get? name := by
  unfold setNew has
  by_cases h : key = name
  · subst h
    cases found : table.get? key <;> simp [found]
  · cases found : table.get? key <;> simp [get?_set, h]

end Table

/-- Adds a name to a set of names. -/
def insertName (names : List String) (name : String) : List String :=
  if names.contains name then names else names ++ [name]

@[simp] theorem mem_insertName {names : List String} {name other : String} :
    other ∈ insertName names name ↔ other ∈ names ∨ other = name := by
  unfold insertName
  split
  · rename_i h
    have present : name ∈ names := by simpa using h
    constructor
    · exact Or.inl
    · rintro (h | h)
      · exact h
      · exact h ▸ present
  · simp

theorem nodup_insertName {names : List String} (h : names.Nodup) (name : String) :
    (insertName names name).Nodup := by
  unfold insertName
  split
  · exact h
  · rename_i missing
    have absent : name ∉ names := by simpa using missing
    rw [List.nodup_append]
    refine ⟨h, by simp, ?_⟩
    intro a ha b hb
    simp only [List.mem_singleton] at hb
    subst hb
    exact fun e => absent (e ▸ ha)

end ScriptBundler

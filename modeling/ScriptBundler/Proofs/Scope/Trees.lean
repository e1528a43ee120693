import ScriptBundler.Proofs.Tables
import ScriptBundler.Scope.Tree

/-!
# Lexical scopes

Scopes are only added, each behind the scope around it, and names are only added to scopes.  So the
chain from a scope outward never changes, and what a name means in a scope is what it means in the
scope around it, unless the scope declares the name itself.
-/

namespace ScriptBundler
namespace ScopeTree

variable {tree after : ScopeTree} {id parent : ScopeId} {name : String}

/-! ## Sound trees -/

/-- What is true of all trees that are built: the top level stands alone, and every other scope
comes behind the scope around it and lies one deeper. -/
structure Sound (tree : ScopeTree) : Prop where
  top : ∃ scope, tree.get? root = some scope ∧ scope.parent = none ∧ scope.depth = 0
  inner : ∀ id scope, id ≠ root → tree.get? id = some scope →
    ∃ parent outer, scope.parent = some parent ∧ parent < id ∧
      tree.get? parent = some outer ∧ scope.depth = outer.depth + 1

theorem get?_eq_some_iff : (∃ scope, tree.get? id = some scope) ↔ id < tree.scopes.length := by
  constructor
  · rintro ⟨scope, hget⟩
    exact (List.getElem?_eq_some_iff.mp hget).1
  · exact fun hlt => ⟨_, List.getElem?_eq_getElem hlt⟩

theorem empty_sound : empty.Sound where
  top := ⟨_, rfl, rfl, rfl⟩
  inner := by
    intro id scope hid hget
    have hlt : id < 1 := get?_eq_some_iff.mp ⟨scope, hget⟩
    exact absurd (Nat.lt_one_iff.mp hlt) hid

namespace Sound

variable (hsound : tree.Sound)

include hsound

theorem root_lt : root < tree.scopes.length := by
  obtain ⟨scope, hget, -⟩ := hsound.top
  exact get?_eq_some_iff.mp ⟨scope, hget⟩

theorem parent?_root : tree.parent? root = none := by
  obtain ⟨scope, hget, hparent, -⟩ := hsound.top
  rw [parent?, hget]
  exact hparent

theorem parent_lt (hparent : tree.parent? id = some parent) : parent < id := by
  obtain ⟨scope, hget, hscope⟩ := Option.bind_eq_some_iff.mp hparent
  have hinner : id ≠ root := by
    rintro rfl
    rw [hsound.parent?_root] at hparent
    contradiction
  obtain ⟨other, -, hother, hlt, -⟩ := hsound.inner id scope hinner hget
  obtain rfl := Option.some.inj (hother.symm.trans hscope)
  exact hlt

theorem depth_root : tree.depth root = 0 := by
  obtain ⟨scope, hget, -, hdepth⟩ := hsound.top
  rw [depth, hget]
  exact hdepth

theorem depth_ne_zero (hlt : id < tree.scopes.length) (hinner : id ≠ root) :
    tree.depth id ≠ 0 := by
  obtain ⟨scope, hget⟩ := get?_eq_some_iff.mpr hlt
  obtain ⟨-, outer, -, -, -, hdepth⟩ := hsound.inner id scope hinner hget
  rw [depth, hget]
  exact ne_of_eq_of_ne hdepth (Nat.succ_ne_zero outer.depth)

end Sound

/-! ## Chains -/

/-- As many steps as the number of a scope lead to the top, and more do not lead further. -/
theorem chain_go (hsound : tree.Sound) {steps others : Nat} (hsteps : id ≤ steps)
    (hothers : id ≤ others) : chain.go tree steps id = chain.go tree others id := by
  induction steps generalizing id others with
  | zero =>
      obtain rfl := Nat.le_zero.mp hsteps
      cases others with
      | zero => rfl
      | succ others => rw [chain.go, chain.go, show tree.parent? 0 = none from hsound.parent?_root]
  | succ steps ih =>
      cases others with
      | zero =>
          obtain rfl := Nat.le_zero.mp hothers
          rw [chain.go, chain.go, show tree.parent? 0 = none from hsound.parent?_root]
      | succ others =>
          rw [chain.go, chain.go]
          cases hparent : tree.parent? id with
          | none => rfl
          | some parent =>
              have hlt := hsound.parent_lt hparent
              exact congrArg (id :: ·) (ih (Nat.le_of_lt_succ (Nat.lt_of_lt_of_le hlt hsteps))
                (Nat.le_of_lt_succ (Nat.lt_of_lt_of_le hlt hothers)))

theorem chain_root (tree : ScopeTree) : tree.chain root = [root] := rfl

/-- The chain from a scope goes on with the chain from the scope around it. -/
theorem chain_eq_cons (hsound : tree.Sound) (hparent : tree.parent? id = some parent) :
    tree.chain id = id :: tree.chain parent := by
  have hlt := hsound.parent_lt hparent
  cases id with
  | zero => contradiction
  | succ id =>
      rw [chain, chain.go, hparent]
      exact congrArg (_ :: ·) (chain_go hsound (Nat.le_of_lt_succ hlt) (Nat.le_refl _))

/-! ## What a name means -/

/-- Nothing is nearer to the top level than the top level itself. -/
theorem isTopLevelReference_root {tree : ScopeTree} (hdepth : tree.depth root = 0) (name : String) :
    tree.isTopLevelReference root name = true := by
  unfold isTopLevelReference definingScope?
  rw [chain_root, List.find?_singleton]
  cases tree.declares root name with
  | true => simp [hdepth]
  | false => rfl

/-- A name that a scope declares is none of the top level there; any other name means what it means
in the scope around. -/
theorem isTopLevelReference_inner (hsound : tree.Sound) (hparent : tree.parent? id = some parent)
    (hlt : id < tree.scopes.length) (name : String) :
    tree.isTopLevelReference id name = true ↔
      tree.declares id name = false ∧ tree.isTopLevelReference parent name = true := by
  have hinner : id ≠ root := by
    rintro rfl
    rw [hsound.parent?_root] at hparent
    contradiction
  unfold isTopLevelReference definingScope?
  rw [chain_eq_cons hsound hparent, List.find?_cons]
  cases hdeclares : tree.declares id name with
  | true => simp [hsound.depth_ne_zero hlt hinner]
  | false => simp

/-! ## Where declarations land -/

/-- What is declared at the top level lands there. -/
theorem landing_root (tree : ScopeTree) (blockScoped : Bool) :
    tree.landing root blockScoped = root := by
  unfold landing
  rw [chain_root, List.find?_singleton]
  split <;> [rfl; split <;> rfl]

theorem chain_head (tree : ScopeTree) (id : ScopeId) : ∃ rest, tree.chain id = id :: rest := by
  cases id with
  | zero => exact ⟨[], rfl⟩
  | succ id =>
      rw [chain, chain.go]
      split <;> exact ⟨_, rfl⟩

theorem exists_parent_of_isInnerBlock (hblock : tree.isInnerBlock id = true) :
    ∃ parent, tree.parent? id = some parent := by
  unfold isInnerBlock at hblock
  split at hblock
  · rename_i scope hget
    obtain ⟨parent, hparent⟩ := Option.isSome_iff_exists.mp (Bool.and_eq_true_iff.mp hblock).2
    exact ⟨parent, by rw [parent?, hget]; exact hparent⟩
  · contradiction

/-- Some scope around a scope is not a block within another one. -/
theorem exists_find?_chain (hsound : tree.Sound) (id : ScopeId) :
    ∃ found, (tree.chain id).find? (fun scope => !tree.isInnerBlock scope) = some found ∧
      found ≤ id := by
  induction id using Nat.strongRecOn with
  | ind id ih =>
      cases hblock : tree.isInnerBlock id with
      | false =>
          obtain ⟨rest, hchain⟩ := tree.chain_head id
          exact ⟨id, by simp [hchain, hblock], Nat.le_refl _⟩
      | true =>
          obtain ⟨parent, hparent⟩ := exists_parent_of_isInnerBlock hblock
          have hlt := hsound.parent_lt hparent
          obtain ⟨found, hfound, hle⟩ := ih parent hlt
          refine ⟨found, ?_, Nat.le_trans hle (Nat.le_of_lt hlt)⟩
          rw [chain_eq_cons hsound hparent, List.find?_cons, hblock]
          exact hfound

theorem landing_of_not_isInnerBlock (hblock : tree.isInnerBlock id = false) :
    tree.landing id false = id := by
  obtain ⟨rest, hchain⟩ := tree.chain_head id
  simp [landing, hchain, hblock]

/-- What a block does not keep lands where it would land if it stood around the block. -/
theorem landing_of_isInnerBlock (hsound : tree.Sound) (hparent : tree.parent? id = some parent)
    (hblock : tree.isInnerBlock id = true) : tree.landing id false = tree.landing parent false := by
  obtain ⟨found, hfound, -⟩ := exists_find?_chain hsound parent
  simp [landing, chain_eq_cons hsound hparent, hblock, hfound]

theorem landing_le (hsound : tree.Sound) (id : ScopeId) (blockScoped : Bool) :
    tree.landing id blockScoped ≤ id := by
  obtain ⟨found, hfound, hle⟩ := exists_find?_chain hsound id
  cases blockScoped with
  | true => exact Nat.le_refl id
  | false => simpa [landing, hfound] using hle

/-! ## Growth -/

/-- Whether a tree has grown: no scope has gone, and none has moved. -/
structure Grows (tree after : ScopeTree) : Prop where
  length : tree.scopes.length ≤ after.scopes.length
  parent : ∀ id < tree.scopes.length, after.parent? id = tree.parent? id
  block : ∀ id < tree.scopes.length, after.isInnerBlock id = tree.isInnerBlock id

theorem Grows.refl (tree : ScopeTree) : tree.Grows tree :=
  ⟨Nat.le_refl _, fun _ _ => rfl, fun _ _ => rfl⟩

theorem Grows.trans {middle : ScopeTree} (hfirst : tree.Grows middle)
    (hsecond : middle.Grows after) :
    tree.Grows after where
  length := Nat.le_trans hfirst.length hsecond.length
  parent := fun id hlt => by
    rw [hsecond.parent id (Nat.lt_of_lt_of_le hlt hfirst.length), hfirst.parent id hlt]
  block := fun id hlt => by
    rw [hsecond.block id (Nat.lt_of_lt_of_le hlt hfirst.length), hfirst.block id hlt]

/-- Declarations go on to land where they did. -/
theorem Grows.landing (hgrows : tree.Grows after) (hsound : tree.Sound) (hafter : after.Sound)
    (hlt : id < tree.scopes.length) (blockScoped : Bool) :
    after.landing id blockScoped = tree.landing id blockScoped := by
  cases blockScoped with
  | true => rfl
  | false =>
      induction id using Nat.strongRecOn with
      | ind id ih =>
          have hsame := hgrows.block id hlt
          cases hblock : tree.isInnerBlock id with
          | false =>
              rw [landing_of_not_isInnerBlock hblock,
                landing_of_not_isInnerBlock (hsame.trans hblock)]
          | true =>
              obtain ⟨parent, hparent⟩ := exists_parent_of_isInnerBlock hblock
              have hparent' := (hgrows.parent id hlt).trans hparent
              have hle := hsound.parent_lt hparent
              rw [landing_of_isInnerBlock hsound hparent hblock,
                landing_of_isInnerBlock hafter hparent' (hsame.trans hblock)]
              exact ih parent hle (Nat.lt_trans hle hlt)

/-! ## New scopes and new names -/

theorem get?_push (tree : ScopeTree) (parent : ScopeId) (isBlock : Bool) (names : List String)
    (hlt : id < tree.scopes.length) :
    (tree.push parent isBlock names).1.get? id = tree.get? id :=
  List.getElem?_append_left hlt

theorem get?_push_self (tree : ScopeTree) (parent : ScopeId) (isBlock : Bool)
    (names : List String) : ∃ depth,
    (tree.push parent isBlock names).1.get? tree.scopes.length = some
      { parent := some parent, depth, names := names.foldl insertName [], isBlock } ∧
    ∀ outer, tree.get? parent = some outer → depth = outer.depth + 1 := by
  refine ⟨_, List.getElem?_concat_length, fun outer houter => ?_⟩
  rw [houter]

theorem push_sound (hsound : tree.Sound) (hlt : parent < tree.scopes.length) (isBlock : Bool)
    (names : List String) : (tree.push parent isBlock names).1.Sound where
  top := by
    obtain ⟨scope, hget, hscope⟩ := hsound.top
    refine ⟨scope, ?_, hscope⟩
    rw [get?_push _ _ _ _ (get?_eq_some_iff.mp ⟨scope, hget⟩), hget]
  inner := by
    intro id scope hinner hget
    have hlength : (tree.push parent isBlock names).1.scopes.length = tree.scopes.length + 1 := by
      simp [push]
    have hid : id < tree.scopes.length + 1 := hlength ▸ get?_eq_some_iff.mp ⟨scope, hget⟩
    rcases Nat.lt_succ_iff_lt_or_eq.mp hid with hold | rfl
    · rw [get?_push _ _ _ _ hold] at hget
      obtain ⟨other, outer, hparent, hle, houter, hdepth⟩ := hsound.inner id scope hinner hget
      refine ⟨other, outer, hparent, hle, ?_, hdepth⟩
      rw [get?_push _ _ _ _ (Nat.lt_trans hle hold), houter]
    · obtain ⟨depth, hself, hdepth⟩ := tree.get?_push_self parent isBlock names
      obtain rfl := Option.some.inj (hget.symm.trans hself)
      obtain ⟨outer, houter⟩ := get?_eq_some_iff.mpr hlt
      refine ⟨parent, outer, rfl, hlt, ?_, hdepth outer houter⟩
      rw [get?_push _ _ _ _ hlt, houter]

theorem push_grows (tree : ScopeTree) (parent : ScopeId) (isBlock : Bool) (names : List String) :
    tree.Grows (tree.push parent isBlock names).1 where
  length := by simp [push]
  parent := fun id hlt => by rw [parent?, parent?, get?_push _ _ _ _ hlt]
  block := fun id hlt => by rw [isInnerBlock, isInnerBlock, get?_push _ _ _ _ hlt]

theorem get?_add (tree : ScopeTree) (id other : ScopeId) (name : String) (blockScoped : Bool) :
    (tree.add id name blockScoped).1.get? other =
      (tree.get? other).map fun scope => if tree.landing id blockScoped = other then
        { scope with names := insertName scope.names name } else scope := by
  simp only [add, get?, List.getElem?_modify]
  split <;> simp_all

theorem length_add (tree : ScopeTree) (id : ScopeId) (name : String) (blockScoped : Bool) :
    (tree.add id name blockScoped).1.scopes.length = tree.scopes.length := by
  simp [add]

theorem add_sound (hsound : tree.Sound) (id : ScopeId) (name : String) (blockScoped : Bool) :
    (tree.add id name blockScoped).1.Sound where
  top := by
    obtain ⟨scope, hget, hscope⟩ := hsound.top
    rw [get?_add, hget]
    refine ⟨_, rfl, ?_⟩
    split <;> exact hscope
  inner := by
    intro other scope hinner hget
    rw [get?_add] at hget
    obtain ⟨old, hold, rfl⟩ := Option.map_eq_some_iff.mp hget
    obtain ⟨parent, outer, hparent, hle, houter, hdepth⟩ := hsound.inner other old hinner hold
    have hbound := get?_add tree id parent name blockScoped
    rw [houter] at hbound
    exact ⟨parent, _, by split <;> exact hparent, hle, hbound, by split <;> split <;> exact hdepth⟩

theorem add_grows (tree : ScopeTree) (id : ScopeId) (name : String) (blockScoped : Bool) :
    tree.Grows (tree.add id name blockScoped).1 where
  length := Nat.le_of_eq (tree.length_add id name blockScoped).symm
  parent := fun other _ => by
    rw [parent?, parent?, get?_add]
    cases tree.get? other with
    | none => rfl
    | some scope => simp only [Option.map_some, Option.bind_some]; split <;> rfl
  block := fun other _ => by
    rw [isInnerBlock, isInnerBlock, get?_add]
    cases tree.get? other with
    | none => rfl
    | some scope => simp only [Option.map_some]; split <;> rfl

/-- A declaration adds its name to the scope where it lands, and to no other. -/
theorem declares_add (hlt : tree.landing id blockScoped < tree.scopes.length) (other : ScopeId)
    (found : String) : (tree.add id name blockScoped).1.declares other found = true ↔
      tree.declares other found = true ∨
        tree.landing id blockScoped = other ∧ found = name := by
  rw [declares, declares, get?_add]
  cases hget : tree.get? other with
  | none =>
      have hne : tree.landing id blockScoped ≠ other := by
        rintro rfl
        obtain ⟨scope, hscope⟩ := get?_eq_some_iff.mpr hlt
        rw [hget] at hscope
        contradiction
      simp [hne]
  | some scope =>
      by_cases hlands : tree.landing id blockScoped = other
      · simp [hlands, Scope.declares, mem_insertName]
      · simp [hlands, Scope.declares]

theorem mem_foldl_insertName {names added : List String} :
    name ∈ added.foldl insertName names ↔ name ∈ names ∨ name ∈ added := by
  induction added generalizing names with
  | nil => simp
  | cons first rest ih => rw [List.foldl_cons, ih, mem_insertName, List.mem_cons, or_assoc]

/-- A new scope declares the names that it is opened with. -/
theorem declares_push_self (tree : ScopeTree) (parent : ScopeId) (isBlock : Bool)
    (names : List String) (name : String) :
    (tree.push parent isBlock names).1.declares tree.scopes.length name = true ↔ name ∈ names := by
  obtain ⟨depth, hself, -⟩ := tree.get?_push_self parent isBlock names
  rw [declares, hself]
  simp [Scope.declares, mem_foldl_insertName]

end ScopeTree
end ScriptBundler

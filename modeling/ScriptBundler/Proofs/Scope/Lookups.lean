import Mathlib.Data.List.Find
import Mathlib.Logic.Relation
import ScriptBundler.Proofs.Scope.Trees

/-!
# Look-ups in a tree of scopes

A tree of scopes comes about by opening scopes and declaring names, each in a scope that is there.
What its operations say about such a tree is stated here in terms of which scopes lie around which:
a look-up follows the parents until it comes to a scope that declares the name, and a declaration
changes the look-ups of its name from those scopes from which it is the nearest one, and no others.
-/

namespace ScriptBundler
namespace ScopeTree

variable {tree after : ScopeTree} {id other parent outer inner between found : ScopeId}
  {name : String}

/-! ## Trees that are built -/

/-- Whether a tree comes about by opening scopes and declaring names, each in a scope that is
there. -/
inductive Built : ScopeTree → Prop where
  | empty : Built .empty
  | push {tree : ScopeTree} (hbuilt : Built tree) {parent : ScopeId}
      (hlt : parent < tree.scopes.length) (isBlock : Bool) (names : List String) :
      Built (tree.push parent isBlock names).1
  | add {tree : ScopeTree} (hbuilt : Built tree) {id : ScopeId} (hlt : id < tree.scopes.length)
      (name : String) (blockScoped : Bool) : Built (tree.add id name blockScoped).1

/-- Whether a scope is there and no block. -/
def KeepsHoisted (tree : ScopeTree) (id : ScopeId) : Prop :=
  ∃ scope, tree.get? id = some scope ∧ scope.isBlock = false

theorem Built.sound (hbuilt : tree.Built) : tree.Sound := by
  induction hbuilt with
  | empty => exact empty_sound
  | push _ hlt isBlock names ih => exact push_sound ih hlt isBlock names
  | add _ _ name blockScoped ih => exact add_sound ih _ name blockScoped

/-- The top level is no block. -/
theorem Built.root_keepsHoisted (hbuilt : tree.Built) : tree.KeepsHoisted root := by
  induction hbuilt with
  | empty => exact ⟨_, rfl, rfl⟩
  | push hbuilt hlt isBlock names ih =>
      obtain ⟨scope, hget, hblock⟩ := ih
      exact ⟨scope, (get?_push _ _ _ _ hbuilt.sound.root_lt).trans hget, hblock⟩
  | add hbuilt hlt name blockScoped ih =>
      obtain ⟨scope, hget, hblock⟩ := ih
      refine ⟨_, by rw [get?_add, hget]; rfl, ?_⟩
      split <;> exact hblock

/-- The blocks with a scope around them are all blocks that there are. -/
theorem Built.keepsHoisted_iff (hbuilt : tree.Built) (hlt : id < tree.scopes.length) :
    tree.KeepsHoisted id ↔ tree.isInnerBlock id = false := by
  obtain ⟨scope, hget⟩ := get?_eq_some_iff.mpr hlt
  have hkeeps : tree.KeepsHoisted id ↔ scope.isBlock = false := by
    unfold KeepsHoisted
    rw [hget]
    simp
  unfold isInnerBlock
  rw [hkeeps, hget]
  by_cases hroot : id = root
  · subst hroot
    obtain ⟨top, htop, hblock⟩ := hbuilt.root_keepsHoisted
    obtain rfl := Option.some.inj (hget.symm.trans htop)
    simp [hblock]
  · obtain ⟨parent, -, hparent, -⟩ := hbuilt.sound.inner id scope hroot hget
    simp [hparent]

/-! ## The scopes around a scope -/

/-- Whether a scope is another one or lies around it. -/
def Around (tree : ScopeTree) (outer inner : ScopeId) : Prop :=
  Relation.ReflTransGen (fun id parent => tree.parent? id = some parent) inner outer

theorem Around.refl (id : ScopeId) : tree.Around id id :=
  Relation.ReflTransGen.refl

theorem Around.trans (houter : tree.Around outer between) (hinner : tree.Around between inner) :
    tree.Around outer inner :=
  Relation.ReflTransGen.trans hinner houter

theorem around_iff_of_parent? (hparent : tree.parent? inner = some parent) :
    tree.Around outer inner ↔ outer = inner ∨ tree.Around outer parent := by
  unfold Around
  rw [Relation.ReflTransGen.cases_head_iff, hparent]
  simp [eq_comm]

theorem around_iff_of_top (hparent : tree.parent? inner = none) :
    tree.Around outer inner ↔ outer = inner := by
  unfold Around
  rw [Relation.ReflTransGen.cases_head_iff, hparent]
  simp [eq_comm]

theorem Sound.around_le (hsound : tree.Sound) (haround : tree.Around outer inner) :
    outer ≤ inner := by
  induction haround with
  | refl => exact Nat.le_refl _
  | tail _ hparent ih => exact Nat.le_trans (Nat.le_of_lt (hsound.parent_lt hparent)) ih

theorem Sound.around_antisymm (hsound : tree.Sound) (hleft : tree.Around outer inner)
    (hright : tree.Around inner outer) : outer = inner :=
  Nat.le_antisymm (hsound.around_le hleft) (hsound.around_le hright)

/-- Every scope but the top level has a scope around it. -/
theorem Sound.parent?_cases (hsound : tree.Sound) (hlt : id < tree.scopes.length) :
    id = root ∧ tree.parent? id = none ∨
      id ≠ root ∧ ∃ parent < id, tree.parent? id = some parent ∧
        tree.depth id = tree.depth parent + 1 := by
  by_cases hroot : id = root
  · exact Or.inl ⟨hroot, hroot ▸ hsound.parent?_root⟩
  · obtain ⟨scope, hget⟩ := get?_eq_some_iff.mpr hlt
    obtain ⟨parent, outer, hparent, hlt', houter, hdepth⟩ := hsound.inner id scope hroot hget
    refine Or.inr ⟨hroot, parent, hlt', ?_, ?_⟩
    · rw [parent?, hget]
      exact hparent
    · rw [depth, depth, hget, houter]
      exact hdepth

theorem chain_of_top (hparent : tree.parent? id = none) : tree.chain id = [id] := by
  cases id with
  | zero => rfl
  | succ id => rw [chain, chain.go, hparent]

/-- The chain of a scope holds the scopes around it. -/
theorem Sound.mem_chain_iff (hsound : tree.Sound) (hlt : inner < tree.scopes.length) :
    outer ∈ tree.chain inner ↔ tree.Around outer inner := by
  induction inner using Nat.strongRecOn with
  | ind inner ih =>
      rcases hsound.parent?_cases hlt with ⟨rfl, hparent⟩ | ⟨-, parent, hle, hparent, -⟩
      · rw [chain_root, List.mem_singleton, around_iff_of_top hparent]
      · rw [chain_eq_cons hsound hparent, List.mem_cons, around_iff_of_parent? hparent,
          ih parent hle (Nat.lt_trans hle hlt)]

/-! ## The nearest scope -/

/-- Whether a scope is the nearest one, from a scope outward, of those that are sought. -/
structure Nearest (tree : ScopeTree) (sought : ScopeId → Prop) (inner found : ScopeId) :
    Prop where
  around : tree.Around found inner
  isSought : sought found
  nearer : ∀ between, tree.Around between inner → tree.Around found between → between ≠ found →
    ¬ sought between

variable {sought : ScopeId → Prop}

theorem Sound.nearest_self (hsound : tree.Sound) (hsought : sought id) :
    tree.Nearest sought id id :=
  ⟨.refl id, hsought, fun _ hinner houter hne =>
    absurd (hsound.around_antisymm hinner houter) hne⟩

theorem Nearest.outward (hparent : tree.parent? inner = some parent) (hnot : ¬ sought inner)
    (hnearest : tree.Nearest sought parent found) : tree.Nearest sought inner found where
  around := (around_iff_of_parent? hparent).mpr (Or.inr hnearest.around)
  isSought := hnearest.isSought
  nearer := by
    intro between hinner houter hne
    rcases (around_iff_of_parent? hparent).mp hinner with rfl | haround
    · exact hnot
    · exact hnearest.nearer between haround houter hne

/-- Of two scopes around a scope one lies around the other. -/
theorem Around.total (hfirst : tree.Around outer inner) (hsecond : tree.Around found inner) :
    tree.Around outer found ∨ tree.Around found outer :=
  (Relation.ReflTransGen.total_of_right_unique
    (fun _ _ _ hleft hright => Option.some.inj (hleft.symm.trans hright)) hfirst hsecond).symm

/-- No two scopes are the nearest one. -/
theorem Nearest.unique (hfirst : tree.Nearest sought inner found)
    (hsecond : tree.Nearest sought inner other) : found = other := by
  by_contra hne
  rcases hfirst.around.total hsecond.around with haround | haround
  · exact hfirst.nearer other hsecond.around haround (Ne.symm hne) hsecond.isSought
  · exact hsecond.nearer found hfirst.around haround hne hfirst.isSought

/-- Searching a chain finds the nearest scope that is sought. -/
theorem Sound.nearest_of_find? (hsound : tree.Sound) (hlt : id < tree.scopes.length)
    {search : ScopeId → Bool} (hfind : (tree.chain id).find? search = some found) :
    tree.Nearest (fun scope => search scope = true) id found := by
  induction id using Nat.strongRecOn with
  | ind id ih =>
      obtain ⟨rest, hchain⟩ := tree.chain_head id
      cases hsearch : search id with
      | true =>
          rw [hchain, List.find?_cons, hsearch] at hfind
          obtain rfl := Option.some.inj hfind
          exact hsound.nearest_self hsearch
      | false =>
          rcases hsound.parent?_cases hlt with ⟨rfl, -⟩ | ⟨-, parent, hle, hparent, -⟩
          · rw [chain_root, List.find?_singleton, hsearch] at hfind
            contradiction
          · rw [chain_eq_cons hsound hparent, List.find?_cons, hsearch] at hfind
            exact (ih parent hle (Nat.lt_trans hle hlt) hfind).outward hparent (by simp [hsearch])

theorem Sound.find?_chain_eq_some_iff (hsound : tree.Sound) (hlt : id < tree.scopes.length)
    {search : ScopeId → Bool} : (tree.chain id).find? search = some found ↔
      tree.Nearest (fun scope => search scope = true) id found := by
  refine ⟨hsound.nearest_of_find? hlt, fun hnearest => ?_⟩
  have hmem := (hsound.mem_chain_iff hlt).mpr hnearest.around
  cases hfind : (tree.chain id).find? search with
  | none => exact absurd hnearest.isSought (List.find?_eq_none.mp hfind found hmem)
  | some other => rw [(hsound.nearest_of_find? hlt hfind).unique hnearest]

/-! ## Look-ups -/

/-- Whether the search for a name, from a scope outward, ends with an answer: at the first scope
that declares the name, or behind the last one. -/
inductive Finds (tree : ScopeTree) (name : String) : ScopeId → Option ScopeId → Prop where
  | here {id : ScopeId} (hdeclares : tree.declares id name = true) : Finds tree name id (some id)
  | outward {id parent : ScopeId} {answer : Option ScopeId}
      (hdeclares : tree.declares id name = false) (hparent : tree.parent? id = some parent)
      (hfinds : Finds tree name parent answer) : Finds tree name id answer
  | nowhere {id : ScopeId} (hdeclares : tree.declares id name = false)
      (hparent : tree.parent? id = none) : Finds tree name id none

theorem Finds.unique {answer answer' : Option ScopeId} (hfinds : tree.Finds name id answer)
    (hfinds' : tree.Finds name id answer') : answer = answer' := by
  induction hfinds with
  | here hdeclares =>
      cases hfinds' with
      | here => rfl
      | outward hnot | nowhere hnot => exact absurd (hdeclares.symm.trans hnot) Bool.noConfusion
  | outward hnot hparent _ ih =>
      cases hfinds' with
      | here hdeclares => exact absurd (hdeclares.symm.trans hnot) Bool.noConfusion
      | outward _ hparent' hfinds' =>
          obtain rfl := Option.some.inj (hparent.symm.trans hparent')
          exact ih hfinds'
      | nowhere _ htop => exact absurd (hparent.symm.trans htop) (Option.some_ne_none _)
  | nowhere hnot htop =>
      cases hfinds' with
      | here hdeclares => exact absurd (hdeclares.symm.trans hnot) Bool.noConfusion
      | outward _ hparent => exact absurd (hparent.symm.trans htop) (Option.some_ne_none _)
      | nowhere => rfl

/-- A look-up goes on with the scope around. -/
theorem definingScope?_of_parent? (hsound : tree.Sound) (hparent : tree.parent? id = some parent) :
    tree.definingScope? id name =
      if tree.declares id name then some id else tree.definingScope? parent name := by
  unfold definingScope?
  rw [chain_eq_cons hsound hparent, List.find?_cons]
  cases tree.declares id name <;> rfl

/-- The search from any scope ends, and its answer is that of the look-up. -/
theorem Sound.finds_definingScope? (hsound : tree.Sound) (hlt : id < tree.scopes.length)
    (name : String) : tree.Finds name id (tree.definingScope? id name) := by
  induction id using Nat.strongRecOn with
  | ind id ih =>
      rcases hsound.parent?_cases hlt with ⟨rfl, hparent⟩ | ⟨-, parent, hle, hparent, -⟩
      · unfold definingScope?
        rw [chain_root, List.find?_singleton]
        cases hdeclares : tree.declares root name with
        | true => exact .here hdeclares
        | false => exact .nowhere hdeclares hparent
      · rw [definingScope?_of_parent? hsound hparent]
        cases hdeclares : tree.declares id name with
        | true => exact .here hdeclares
        | false => exact .outward hdeclares hparent (ih parent hle (Nat.lt_trans hle hlt))

theorem Sound.definingScope?_eq_some_iff (hsound : tree.Sound) (hlt : id < tree.scopes.length) :
    tree.definingScope? id name = some found ↔
      tree.Nearest (fun scope => tree.declares scope name = true) id found :=
  hsound.find?_chain_eq_some_iff hlt

/-- A name is one of the top level if no scope on the way there declares it. -/
theorem Sound.isTopLevelReference_iff (hsound : tree.Sound) (hlt : id < tree.scopes.length) :
    tree.isTopLevelReference id name = true ↔
      ∀ scope, tree.Around scope id → scope ≠ root → tree.declares scope name = false := by
  induction id using Nat.strongRecOn with
  | ind id ih =>
      rcases hsound.parent?_cases hlt with ⟨rfl, hparent⟩ | ⟨hinner, parent, hle, hparent, -⟩
      · simp only [isTopLevelReference_root hsound.depth_root, around_iff_of_top hparent, true_iff]
        exact fun scope hroot hother => absurd hroot hother
      · rw [isTopLevelReference_inner hsound hparent hlt, ih parent hle (Nat.lt_trans hle hlt)]
        simp only [around_iff_of_parent? hparent, or_imp, forall_and, forall_eq,
          forall_prop_of_true hinner]

/-! ## Declarations -/

/-- What is not bound to its block lands in the nearest scope that is no block. -/
theorem Built.nearest_landing (hbuilt : tree.Built) (hlt : id < tree.scopes.length) :
    tree.Nearest tree.KeepsHoisted id (tree.landing id false) := by
  obtain ⟨found, hfind, -⟩ := exists_find?_chain hbuilt.sound id
  have hnearest := hbuilt.sound.nearest_of_find? hlt hfind
  have hlanding : tree.landing id false = found := by simp [landing, hfind]
  have hkeeps : ∀ scope, tree.Around scope id →
      (tree.KeepsHoisted scope ↔ (!tree.isInnerBlock scope) = true) := fun scope haround => by
    rw [hbuilt.keepsHoisted_iff (Nat.lt_of_le_of_lt (hbuilt.sound.around_le haround) hlt),
      Bool.not_eq_true']
  rw [hlanding]
  refine ⟨hnearest.around, (hkeeps _ hnearest.around).mpr hnearest.isSought, ?_⟩
  intro between hinner houter hne
  rw [hkeeps between hinner]
  exact hnearest.nearer between hinner houter hne

theorem parent?_add (tree : ScopeTree) (id : ScopeId) (name : String) (blockScoped : Bool)
    (other : ScopeId) : (tree.add id name blockScoped).1.parent? other = tree.parent? other := by
  rw [parent?, parent?, get?_add]
  cases tree.get? other with
  | none => rfl
  | some scope => simp only [Option.map_some, Option.bind_some]; split <;> rfl

/-- Declarations do not move scopes. -/
theorem around_add (tree : ScopeTree) (id : ScopeId) (name : String) (blockScoped : Bool) :
    (tree.add id name blockScoped).1.Around outer inner ↔ tree.Around outer inner := by
  unfold Around
  simp only [parent?_add]

theorem chain_add (tree : ScopeTree) (id : ScopeId) (name : String) (blockScoped : Bool)
    (other : ScopeId) : (tree.add id name blockScoped).1.chain other = tree.chain other := by
  have hgo : ∀ steps scope, chain.go (tree.add id name blockScoped).1 steps scope =
      chain.go tree steps scope := by
    intro steps
    induction steps with
    | zero => exact fun _ => rfl
    | succ steps ih =>
        intro scope
        rw [chain.go, chain.go, parent?_add]
        cases tree.parent? scope with
        | none => rfl
        | some parent => exact congrArg (scope :: ·) (ih parent)
  exact hgo other other

/-- Whether a scope lies around another one, or is the same, with no scope in between that declares
a name. -/
structure Exposed (tree : ScopeTree) (name : String) (inner outer : ScopeId) : Prop where
  around : tree.Around outer inner
  nearer : ∀ between, tree.Around between inner → tree.Around outer between → between ≠ outer →
    tree.declares between name = false

section Declaring

variable (hsound : tree.Sound) (hid : id < tree.scopes.length)
  (hother : other < tree.scopes.length) (name : String) (blockScoped : Bool)

include hsound hid hother

/-- A name that is declared is found where it has landed, if that scope is exposed. -/
theorem Sound.definingScope?_add_of_exposed
    (hexposed : tree.Exposed name other (tree.landing id blockScoped)) :
    (tree.add id name blockScoped).1.definingScope? other name =
      some (tree.landing id blockScoped) := by
  have hlanding := Nat.lt_of_le_of_lt (landing_le hsound id blockScoped) hid
  have hafter := add_sound hsound id name blockScoped
  have hlength := tree.length_add id name blockScoped
  refine (hafter.definingScope?_eq_some_iff (hlength ▸ hother)).mpr ⟨?_, ?_, ?_⟩
  · exact (around_add tree id name blockScoped).mpr hexposed.around
  · exact (declares_add hlanding _ _).mpr (Or.inr ⟨rfl, rfl⟩)
  · intro between hinner houter hne hdeclares
    rw [around_add] at hinner houter
    rcases (declares_add hlanding _ _).mp hdeclares with hold | ⟨hsame, -⟩
    · exact Bool.noConfusion (hold.symm.trans (hexposed.nearer between hinner houter hne))
    · exact hne hsame.symm

/-- A declaration changes no look-up of another name, and none from a scope to which the scope where
the name has landed is not exposed. -/
theorem Sound.definingScope?_add_of_not (sought : String)
    (hnot : ¬ (sought = name ∧ tree.Exposed name other (tree.landing id blockScoped))) :
    (tree.add id name blockScoped).1.definingScope? other sought =
      tree.definingScope? other sought := by
  have hlanding := Nat.lt_of_le_of_lt (landing_le hsound id blockScoped) hid
  have hdeclares : ∀ scope, (tree.add id name blockScoped).1.declares scope sought = true ↔
      tree.declares scope sought = true ∨
        tree.landing id blockScoped = scope ∧ sought = name :=
    fun scope => declares_add hlanding scope sought
  by_cases hhere : sought = name ∧ tree.Around (tree.landing id blockScoped) other
  -- a nearer scope declares the name, so that what was found is nearer as well
  · obtain ⟨rfl, haround⟩ := hhere
    obtain ⟨between, hinner, houter, hne, hbetween⟩ : ∃ between, tree.Around between other ∧
        tree.Around (tree.landing id blockScoped) between ∧
        between ≠ tree.landing id blockScoped ∧ tree.declares between sought = true := by
      by_contra hnone
      refine hnot ⟨rfl, haround, fun between hinner houter hne => ?_⟩
      by_contra hbetween
      exact hnone ⟨between, hinner, houter, hne, by simpa using hbetween⟩
    obtain ⟨found, hfound⟩ : ∃ found, tree.definingScope? other sought = some found :=
      Option.isSome_iff_exists.mp
        (List.find?_isSome.mpr ⟨between, (hsound.mem_chain_iff hother).mpr hinner, hbetween⟩)
    have hnearest := hsound.nearest_of_find? hother hfound
    have hafter := add_sound hsound id sought blockScoped
    have hlength := tree.length_add id sought blockScoped
    refine ((hafter.definingScope?_eq_some_iff (hlength ▸ hother)).mpr ⟨?_, ?_, ?_⟩).trans
      hfound.symm
    · exact (around_add tree id sought blockScoped).mpr hnearest.around
    · exact (hdeclares found).mpr (Or.inl hnearest.isSought)
    · intro scope hscope hout hother' hscope'
      rw [around_add] at hscope hout
      rcases (hdeclares scope).mp hscope' with hold | ⟨rfl, -⟩
      · exact hnearest.nearer scope hscope hout hother' hold
      · refine hnearest.nearer between hinner (hout.trans houter) ?_ hbetween
        rintro rfl
        exact hother' (hsound.around_antisymm houter hout)
  · unfold definingScope?
    rw [chain_add]
    refine List.find?_congr fun scope hscope => Bool.eq_iff_iff.mpr ?_
    rw [hdeclares, or_iff_left]
    rintro ⟨rfl, rfl⟩
    exact hhere ⟨rfl, (hsound.mem_chain_iff hother).mp hscope⟩

end Declaring

/-! ## All operations -/

/-- Whether the scopes of a tree lie in each other, and all that its operations answer is what this
says. -/
structure Exact (tree : ScopeTree) : Prop where
  top : tree.parent? root = none ∧ tree.depth root = 0
  inner : ∀ id < tree.scopes.length, id ≠ root → ∃ parent < id, tree.parent? id = some parent ∧
    tree.depth id = tree.depth parent + 1
  flat : ∀ id < tree.scopes.length, tree.depth id = 0 → id = root
  /-- Every search ends, and its answer is that of the look-up. -/
  lookup : ∀ id < tree.scopes.length, ∀ name answer,
    tree.Finds name id answer ↔ tree.definingScope? id name = answer
  topLevel : ∀ id < tree.scopes.length, ∀ name, tree.isTopLevelReference id name = true ↔
    ∀ scope, tree.Around scope id → scope ≠ root → tree.declares scope name = false
  bound : ∀ id < tree.scopes.length, ∀ name, (tree.add id name true).2 = id
  hoisted : ∀ id < tree.scopes.length, ∀ name,
    tree.Nearest tree.KeepsHoisted id (tree.add id name false).2
  /-- After a declaration its name is found where it has landed, from the scopes to which that scope
  is exposed. -/
  declared : ∀ id < tree.scopes.length, ∀ name blockScoped, ∀ other < tree.scopes.length,
    tree.Exposed name other (tree.add id name blockScoped).2 →
      (tree.add id name blockScoped).1.definingScope? other name =
        some (tree.add id name blockScoped).2
  /-- From other scopes it is found where it was before, and so is every other name. -/
  kept : ∀ id < tree.scopes.length, ∀ name blockScoped, ∀ other < tree.scopes.length, ∀ sought,
    ¬ (sought = name ∧ tree.Exposed name other (tree.add id name blockScoped).2) →
      (tree.add id name blockScoped).1.definingScope? other sought =
        tree.definingScope? other sought

/-- However a tree has been built, its scopes lie in each other and its operations answer by what
they declare. -/
theorem exact_of_built (hbuilt : tree.Built) : tree.Exact where
  top := ⟨hbuilt.sound.parent?_root, hbuilt.sound.depth_root⟩
  inner := by
    intro id hlt hinner
    rcases hbuilt.sound.parent?_cases hlt with ⟨hroot, -⟩ | ⟨-, hparent⟩
    · exact absurd hroot hinner
    · exact hparent
  flat := by
    intro id hlt hdepth
    by_contra hinner
    exact hbuilt.sound.depth_ne_zero hlt hinner hdepth
  lookup := by
    intro id hlt name answer
    have hfinds := hbuilt.sound.finds_definingScope? hlt name
    exact ⟨hfinds.unique, fun hanswer => hanswer ▸ hfinds⟩
  topLevel := fun id hlt name => hbuilt.sound.isTopLevelReference_iff hlt
  bound := fun _ _ _ => rfl
  hoisted := fun id hlt name => hbuilt.nearest_landing hlt
  declared := fun id hlt name blockScoped other hother =>
    hbuilt.sound.definingScope?_add_of_exposed hlt hother name blockScoped
  kept := fun id hlt name blockScoped other hother =>
    hbuilt.sound.definingScope?_add_of_not hlt hother name blockScoped

/-- A function with the parameter `x`, and a block in it with a block of its own, in which `y` is
declared for the function and then `x` for the block. -/
def nestedBlocks : ScopeTree :=
  let function := (empty.push root false ["x"]).1
  let block := (function.push 1 true []).1
  let inner := (block.push 2 true []).1
  ((inner.add 3 "y" false).1.add 3 "x" true).1

theorem exact_nestedBlocks : nestedBlocks.Built ∧ nestedBlocks.Exact ∧
    nestedBlocks.definingScope? 3 "y" = some 1 ∧ nestedBlocks.definingScope? 3 "x" = some 3 ∧
      nestedBlocks.definingScope? 2 "x" = some 1 := by
  have hbuilt : nestedBlocks.Built :=
    ((((Built.empty.push (by decide) false ["x"]).push (by decide) true []).push (by decide) true
      []).add (by decide) "y" false).add (by decide) "x" true
  exact ⟨hbuilt, exact_of_built hbuilt, by decide +kernel⟩

end ScopeTree
end ScriptBundler

import ScriptBundler.Proofs.Module.Reentry
import ScriptBundler.Proofs.Output.Occurrences

/-!
# Frames of replacements

The walk that renames keeps a stack of frames.  At each moment, also behind a scope that has been
passed over, the stack holds one frame for each open function, block or catch clause and one for the
statement itself, and the frame at its top holds the replacements of the names that none of their
scopes declares.  So all walks over a statement are in the same scopes.
-/

namespace ScriptBundler

open Script ScriptBundler.Module

variable {tree : ScopeTree} {scopes : OpenedScopes} {replacements : Replacements} {shape : Node}

/-! ## Steps of the walk that renames -/

theorem Renaming.frames_replace (state : Renaming) (id : Ident) (isShorthand : Bool) :
    (state.replace id isShorthand).2.frames = state.frames := by
  unfold replace
  split
  · rfl
  · dsimp only
    split <;> rfl

theorem frames_enter_of_none (hkey : shape.scopeKey? = none) (state : Renaming) :
    ((renamer tree scopes).perform state (.enter shape)).frames = state.frames := by
  show ((renamer tree scopes).enter shape state).2.frames = _
  cases hname : shape.name? with
  | some name =>
      rw [renamer_enter_name hname]
      exact state.frames_replace _ _
  | none => rw [renamer_enter_other hname, hkey]

theorem frames_enter_of_scope {key : ScopeKey} (hkey : shape.scopeKey? = some key)
    (state : Renaming) : ((renamer tree scopes).perform state (.enter shape)).frames =
      Renaming.within state.current tree (scopes.lookup key) :: state.frames := by
  have hname : shape.name? = none := by
    cases hname : shape.name? with
    | none => rfl
    | some name =>
        rw [scopeKey?_of_name? hname] at hkey
        contradiction
  show ((renamer tree scopes).enter shape state).2.frames = _
  rw [renamer_enter_other hname, hkey]
  rfl

theorem frames_leave_of_none (hkey : shape.scopeKey? = none) (state : Renaming) :
    ((renamer tree scopes).perform state (.leave shape)).frames = state.frames := by
  simp [Visitor.perform, renamer, hkey]

theorem frames_leave_of_scope {key : ScopeKey} (hkey : shape.scopeKey? = some key)
    (state : Renaming) :
    ((renamer tree scopes).perform state (.leave shape)).frames = state.frames.tail := by
  simp [Visitor.perform, renamer, hkey]

/-! ## The whole stack -/

/-- The frames within some open nodes, the innermost first. -/
def framesWithin (tree : ScopeTree) (scopes : OpenedScopes) (replacements : Replacements)
    (keys : List ScopeKey) : List Replacements :=
  keys.tails.map fun keys =>
    frameWithin tree replacements (keys.filterMap fun key => scopes.lookup key)

theorem framesWithin_nil : framesWithin tree scopes replacements [] = [replacements] := by
  simp [framesWithin, frameWithin_nil]

theorem framesWithin_cons (key : ScopeKey) (keys : List ScopeKey) :
    framesWithin tree scopes replacements (key :: keys) =
      frameWithin tree replacements ((key :: keys).filterMap fun key => scopes.lookup key) ::
        framesWithin tree scopes replacements keys := by
  simp [framesWithin]

theorem head?_framesWithin (keys : List ScopeKey) :
    (framesWithin tree scopes replacements keys).head? =
      some (frameWithin tree replacements (keys.filterMap fun key => scopes.lookup key)) := by
  cases keys <;> simp [framesWithin]

theorem length_framesWithin (keys : List ScopeKey) :
    (framesWithin tree scopes replacements keys).length = keys.length + 1 := by
  simp [framesWithin]

/-- At each moment of a renaming the frames are those within the open nodes. -/
theorem foldl_renamer_frames {start : Renaming} (hstart : start.frames = [replacements])
    {past : List Event} {nodes : List Node} (hopening : Opening past nodes) :
    (past.foldl (renamer tree scopes).perform start).frames =
      framesWithin tree scopes replacements (nodes.filterMap Node.scopeKey?) := by
  induction hopening with
  | nil =>
      rw [List.foldl_nil, hstart]
      exact framesWithin_nil.symm
  | @enter past nodes shape _ ih =>
      rw [List.foldl_append, List.foldl_cons, List.foldl_nil]
      cases hkey : shape.scopeKey? with
      | none => rw [frames_enter_of_none hkey, ih, List.filterMap_cons_none hkey]
      | some key =>
          rw [frames_enter_of_scope hkey, Renaming.current, ih, head?_framesWithin,
            Option.getD_some, within_frameWithin, List.filterMap_cons_some hkey,
            framesWithin_cons, List.filterMap_cons]
          cases scopes.lookup key <;> rfl
  | @leave past nodes shape _ ih =>
      rw [List.foldl_append, List.foldl_cons, List.foldl_nil]
      cases hkey : shape.scopeKey? with
      | none => rw [frames_leave_of_none hkey, ih, List.filterMap_cons_none hkey]
      | some key =>
          rw [frames_leave_of_scope hkey, ih, List.filterMap_cons_some hkey, framesWithin_cons,
            List.tail_cons]

/-- Whether frames are those of a renaming within some open nodes: one for each of them and one
more, of which the first holds the replacements of the names that none of their scopes declares. -/
def Stacked (tree : ScopeTree) (scopes : OpenedScopes) (replacements : Replacements)
    (keys : List ScopeKey) (frames : List Replacements) : Prop :=
  ∃ ids : List ScopeId, (keys.map fun key => scopes.lookup key) = ids.map some ∧
    frames.length = keys.length + 1 ∧ frames.head? = some (frameWithin tree replacements ids)

theorem stacked_framesWithin {keys : List ScopeKey}
    (hkeys : ∀ key ∈ keys, ∃ id, scopes.lookup key = some id) :
    Stacked tree scopes replacements keys (framesWithin tree scopes replacements keys) := by
  refine ⟨keys.filterMap fun key => scopes.lookup key, ?_, length_framesWithin keys,
    head?_framesWithin keys⟩
  induction keys with
  | nil => rfl
  | cons first rest ih =>
      obtain ⟨id, hid⟩ := hkeys first List.mem_cons_self
      have hrest := ih fun key hkey => hkeys key (List.mem_cons_of_mem _ hkey)
      simp only [List.map_cons, List.filterMap_cons, hid, hrest]

/-! ## All walks over a statement -/

namespace Module

/-- Whether the frames of every renaming of a statement are at each moment those within the open
nodes. -/
def Statement.KeepsFrames (statement : Statement) (tree : ScopeTree) : Prop :=
  ∀ (replacements : Replacements) (snippet : Text.Snippet) (past : List Event),
    let walk := renamer tree statement.scopes
    let start : Renaming := { frames := [replacements], snippet, refused := none }
    past <+: walk.calls statement.outline start →
      Stacked tree statement.scopes replacements (openKeys past)
        (past.foldl walk.perform start).frames

/-- If the nodes of a statement can be told apart, all walks over it are in the same scopes: the
second walk enters those again that the first one has opened, and a renaming holds the frames of
those that are open. -/
theorem ofTree_reenters {path : Files.Path} {source : List Char} {tree : Tree} {index : Nat}
    {statement : Statement}
    (hstatement : (ofTree path source tree).statement? index = some statement)
    (hapart : (Outline.keysOf statement.outline).Nodup) :
    Reenters (buildingAt source tree index) (ofTree path source tree).scopes statement ∧
      statement.KeepsFrames (ofTree path source tree).scopes := by
  have hscoping := buildScopes_scoping source 0 (place source tree.items tree.comments)
    ScopeTree.empty_sound
  obtain ⟨built, hget, rfl⟩ : ∃ built, (buildScopes source 0
      (place source tree.items tree.comments) .empty).1[index]? = some built ∧
      collectDependencies (ofTree path source tree).scopes built = statement := by
    rw [← Option.map_eq_some_iff, ← List.getElem?_map]
    exact hstatement
  have hbuilt := buildScopes_builtAt source 0 ScopeTree.empty_sound hget
  refine ⟨hbuilt.reenters hscoping.sound hapart, fun replacements snippet past hpast => ?_⟩
  have hopening := Visitor.opening_of_prefix_calls hpast
  rw [foldl_renamer_frames rfl hopening]
  refine stacked_framesWithin fun key hkey => hbuilt.lookup_isSome hscoping.sound hapart ?_
  exact openKeys_subset_keysOf hopening
    (List.Subset.trans hpast.subset (Visitor.calls_sublist _ _ _).subset) hkey

/-- A function with a `try` statement, whose clauses have names of their own, behind an import. -/
def guardedSource : List Char :=
  ("import \x7b g \x7d from './g';\n" ++
    "export function f(a) \x7b\n" ++
    "  try \x7b let g = a; return g; \x7d catch (e) \x7b return (b => g(b, e))(a); \x7d\n" ++
    "\x7d\n").toList

/-- Its function, the three blocks in it, the catch clause and the arrow function are scopes. -/
theorem ofTree_reenters_guarded : ∃ tree statement, parse guardedSource = .ok tree ∧
    (ofTree ⟨"main.js"⟩ guardedSource tree).statement? 1 = some statement ∧
    (Outline.keysOf statement.outline).map (·.kind) =
      [.function, .block, .block, .catchClause, .block, .function] ∧
    Reenters (buildingAt guardedSource tree 1) (ofTree ⟨"main.js"⟩ guardedSource tree).scopes
      statement ∧
    statement.KeepsFrames (ofTree ⟨"main.js"⟩ guardedSource tree).scopes := by
  obtain ⟨module, hsource, hcheck⟩ := exists_ofSource_of_check ⟨"main.js"⟩ guardedSource
    (fun module => (module.statement? 1).any fun statement => decide
      ((Outline.keysOf statement.outline).map (·.kind) =
        [.function, .block, .block, .catchClause, .block, .function] ∧
      (Outline.keysOf statement.outline).Nodup)) (by decide +kernel)
  obtain ⟨tree, hparse, rfl⟩ := ofSource_eq_ofTree hsource
  rw [Option.any_eq_true] at hcheck
  obtain ⟨statement, hstatement, hkeys⟩ := hcheck
  obtain ⟨hkinds, hapart⟩ := of_decide_eq_true hkeys
  exact ⟨tree, statement, hparse, hstatement, hkinds, ofTree_reenters hstatement hapart⟩

end Module

end ScriptBundler

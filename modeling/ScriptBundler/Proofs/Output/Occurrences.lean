import ScriptBundler.Output.Renaming
import ScriptBundler.Proofs.Script.Steering
import ScriptBundler.Proofs.Tables

/-!
# Occurrences of names

The names that occur in a statement, each with the scopes that are open around it, and what renaming
does with them.  `watchedRenamer` is the walk that renames with a record of what it replaces: it
goes on as before, and notes for each replacement which scopes are open.  It replaces exactly the
occurrences of names with replacements that no open scope declares.
-/

namespace ScriptBundler

open Script ScriptBundler.Module

/-- The name that a node is, and whether it is a key as well. -/
def Script.Node.name? : Node → Option (Ident × Bool)
  | .ident id => some (id, false)
  | .shorthand id => some (id, true)
  | _ => none

/-- A name in a statement, with the scopes around it, the innermost first. -/
structure Occurrence where
  id : Ident
  isShorthand : Bool
  opened : List ScopeId
deriving Repr, DecidableEq

/-- Whether no scope around an occurrence declares a name. -/
def Occurrence.Sees (occurrence : Occurrence) (tree : ScopeTree) (name : String) : Prop :=
  ∀ scope ∈ occurrence.opened, tree.declares scope name = false

instance (occurrence : Occurrence) (tree : ScopeTree) (name : String) :
    Decidable (occurrence.Sees tree name) :=
  inferInstanceAs (Decidable (∀ scope ∈ occurrence.opened, tree.declares scope name = false))

mutual

/-- The occurrences of names in an outline, within some open scopes. -/
def Script.Outline.occurrences (scopes : OpenedScopes) (opened : List ScopeId) :
    Outline → List Occurrence
  | .node shape parts =>
    (shape.name?.map fun name => (⟨name.1, name.2, opened⟩ : Occurrence)).toList ++
      Script.Outline.occurrencesOf scopes ((scopes.of? shape).toList ++ opened) parts

/-- The occurrences of names in outlines. -/
def Script.Outline.occurrencesOf (scopes : OpenedScopes) (opened : List ScopeId) :
    List Outline → List Occurrence
  | [] => []
  | first :: rest => first.occurrences scopes opened ++ occurrencesOf scopes opened rest

end

/-- The occurrences of names in a statement. -/
def Module.Statement.occurrences (statement : Statement) : List Occurrence :=
  Outline.occurrencesOf statement.scopes [] statement.outline

/-- A replacement of an occurrence. -/
structure Rewrite where
  occurrence : Occurrence
  canonical : String
deriving Repr, DecidableEq

/-- What takes the place of the occurrence: a name that is also a key is written as both. -/
def Rewrite.content (rewrite : Rewrite) : String :=
  if rewrite.occurrence.isShorthand then
    rewrite.occurrence.id.name ++ ": " ++ rewrite.canonical
  else rewrite.canonical

/-- Makes a replacement in the text of a statement. -/
def Rewrite.apply (snippet : Text.Snippet) (rewrite : Rewrite) :
    Except Text.RefusedEdit Text.Snippet :=
  snippet.overwrite rewrite.occurrence.id.span.start rewrite.occurrence.id.span.stop
    rewrite.content.toList

/-- The replacement of an occurrence, if its name has one and is not declared around it. -/
def Occurrence.rewrite? (tree : ScopeTree) (replacements : Replacements) (occurrence : Occurrence) :
    Option Rewrite :=
  if occurrence.Sees tree occurrence.id.name then
    (replacements.get? occurrence.id.name).map fun canonical => ⟨occurrence, canonical⟩
  else none

/-- What a watched renaming has shown. -/
structure Watch where
  opened : List ScopeId
  rewrites : List Rewrite

/-- Notes that a name is replaced, or that a scope is opened. -/
def Watch.enter (scopes : OpenedScopes) (shape : Node) (state : Renaming) (watch : Watch) : Watch :=
  match shape.name? with
  | some (id, isShorthand) =>
    match state.current.get? id.name with
    | some canonical =>
      { watch with rewrites := watch.rewrites ++ [⟨⟨id, isShorthand, watch.opened⟩, canonical⟩] }
    | none => watch
  | none => { watch with opened := (scopes.of? shape).toList ++ watch.opened }

/-- Notes that a scope is closed. -/
def Watch.leave (scopes : OpenedScopes) (shape : Node) (watch : Watch) : Watch :=
  { watch with opened := watch.opened.drop (scopes.of? shape).toList.length }

/-- The walk that renames, with a record of its replacements. -/
def watchedRenamer (tree : ScopeTree) (scopes : OpenedScopes) : Visitor (Renaming × Watch) :=
  (renamer tree scopes).watched (Watch.enter scopes) (Watch.leave scopes)

/-- The replacements that renaming makes in a statement. -/
def rewritesWithin (tree : ScopeTree) (statement : Statement) (replacements : Replacements)
    (snippet : Text.Snippet) : List Rewrite :=
  ((watchedRenamer tree statement.scopes).run statement.outline
    ({ frames := [replacements], snippet, refused := none }, ⟨[], []⟩)).2.rewrites

/-! ## Frames -/

/-- The replacements of names that no open scope declares. -/
def frameWithin (tree : ScopeTree) (replacements : Replacements) (opened : List ScopeId) :
    Replacements :=
  replacements.filter fun entry => opened.all fun scope => !tree.declares scope entry.1

theorem frameWithin_nil (tree : ScopeTree) (replacements : Replacements) :
    frameWithin tree replacements [] = replacements := by
  simp [frameWithin]

/-- Opening a scope takes the names that it declares out of the frame. -/
theorem within_frameWithin (tree : ScopeTree) (replacements : Replacements) (opened : List ScopeId)
    (scope : Option ScopeId) :
    Renaming.within (frameWithin tree replacements opened) tree scope =
      frameWithin tree replacements (scope.toList ++ opened) := by
  cases scope with
  | none => rfl
  | some id =>
      show List.filter _ (List.filter _ replacements) = _
      rw [List.filter_filter]
      rfl

/-- The frame gives a name what its replacement is. -/
theorem get?_frameWithin (tree : ScopeTree) (replacements : Replacements) (id : Ident)
    (isShorthand : Bool) (opened : List ScopeId) :
    (frameWithin tree replacements opened).get? id.name =
      ((⟨id, isShorthand, opened⟩ : Occurrence).rewrite? tree replacements).map (·.canonical) := by
  have hall : (opened.all fun scope => !tree.declares scope id.name) = true ↔
      (⟨id, isShorthand, opened⟩ : Occurrence).Sees tree id.name := by
    rw [List.all_eq_true]
    exact forall₂_congr fun _ _ => by rw [Bool.not_eq_true']
  unfold frameWithin Occurrence.rewrite?
  rw [Table.get?_filter fun name => opened.all fun scope => !tree.declares scope name]
  by_cases hsees : (⟨id, isShorthand, opened⟩ : Occurrence).Sees tree id.name
  · rw [if_pos (hall.mpr hsees), if_pos hsees, Option.map_map]
    exact Option.map_id'.symm
  · rw [if_neg (mt hall.mp hsees), if_neg hsees]
    rfl

mutual

/-- The scopes around an occurrence are those that are open there and those that are opened on the
way. -/
theorem opened_of_mem_occurrences {scopes : OpenedScopes} {occurrence : Occurrence} :
    ∀ (outline : Outline) (opened : List ScopeId),
      occurrence ∈ outline.occurrences scopes opened →
        ∃ inner, occurrence.opened = inner ++ opened
  | .node shape parts, opened, hmem => by
    rw [Outline.occurrences, List.mem_append] at hmem
    rcases hmem with hname | hparts
    · obtain ⟨name, -, rfl⟩ := Option.map_eq_some_iff.mp (Option.mem_toList.mp hname)
      exact ⟨[], rfl⟩
    · obtain ⟨inner, heq⟩ := opened_of_mem_occurrencesOf parts _ hparts
      exact ⟨inner ++ (scopes.of? shape).toList, by rw [heq, List.append_assoc]⟩

theorem opened_of_mem_occurrencesOf {scopes : OpenedScopes} {occurrence : Occurrence} :
    ∀ (forest : List Outline) (opened : List ScopeId),
      occurrence ∈ Outline.occurrencesOf scopes opened forest →
        ∃ inner, occurrence.opened = inner ++ opened
  | [], _, hmem => absurd hmem List.not_mem_nil
  | first :: rest, opened, hmem => by
    rw [Outline.occurrencesOf, List.mem_append] at hmem
    rcases hmem with hfirst | hrest
    · exact opened_of_mem_occurrences first opened hfirst
    · exact opened_of_mem_occurrencesOf rest opened hrest

end

/-- Where the frame is empty, nothing further inside is replaced. -/
theorem filterMap_rewrite?_eq_nil {tree : ScopeTree} {replacements : Replacements}
    {scopes : OpenedScopes} {opened : List ScopeId} {forest : List Outline}
    (hempty : frameWithin tree replacements opened = []) :
    (Outline.occurrencesOf scopes opened forest).filterMap
      (Occurrence.rewrite? tree replacements) = [] := by
  rw [List.filterMap_eq_nil_iff]
  intro occurrence hmem
  obtain ⟨inner, hopened⟩ := opened_of_mem_occurrencesOf forest opened hmem
  unfold Occurrence.rewrite?
  cases hget : replacements.get? occurrence.id.name with
  | none => simp
  | some canonical =>
      refine if_neg fun hsees => ?_
      have hfree : (opened.all fun scope => !tree.declares scope occurrence.id.name) = true := by
        rw [List.all_eq_true]
        intro scope hscope
        rw [hsees scope (hopened ▸ List.mem_append_right _ hscope)]
        rfl
      have hentry : (occurrence.id.name, canonical) ∈ frameWithin tree replacements opened :=
        List.mem_filter.mpr ⟨Table.mem_of_get? hget, hfree⟩
      rw [hempty] at hentry
      contradiction

/-! ## What a walk replaces -/

/-- The result of a watched walk over some occurrences: either it has made their replacements, one
after the other, and is in the same scopes as before; or the text has refused one of them. -/
inductive Replaces (tree : ScopeTree) (replacements : Replacements) (occurrences : List Occurrence)
    (before : Renaming × Watch) : (Renaming × Watch) × Bool → Prop where
  | through {snippet : Text.Snippet} {watch : Watch}
      (hedits : (occurrences.filterMap (Occurrence.rewrite? tree replacements)).foldlM Rewrite.apply
        before.1.snippet = .ok snippet)
      (hopened : watch.opened = before.2.opened)
      (hrewrites : watch.rewrites = before.2.rewrites ++
        occurrences.filterMap (Occurrence.rewrite? tree replacements)) :
      Replaces tree replacements occurrences before (({ before.1 with snippet }, watch), false)
  | refused {after : Renaming × Watch} {fault : Text.RefusedEdit}
      (hedits : (occurrences.filterMap (Occurrence.rewrite? tree replacements)).foldlM Rewrite.apply
        before.1.snippet = .error fault) (hrefused : after.1.refused = some fault) :
      Replaces tree replacements occurrences before (after, true)

section Walk

variable {tree : ScopeTree} {scopes : OpenedScopes} {replacements : Replacements}

theorem Replaces.nil {before : Renaming × Watch} {occurrences : List Occurrence}
    (hnone : occurrences.filterMap (Occurrence.rewrite? tree replacements) = []) :
    Replaces tree replacements occurrences before (before, false) :=
  .through (by rw [hnone]; rfl) rfl (by rw [hnone, List.append_nil])

/-- After its replacements a walk is in the same scopes as before. -/
theorem Replaces.opened {before after : Renaming × Watch} {occurrences : List Occurrence}
    (hreplaces : Replaces tree replacements occurrences before (after, false)) :
    after.2.opened = before.2.opened ∧ after.1.frames = before.1.frames := by
  cases hreplaces with
  | through hedits hopened hrewrites => exact ⟨hopened, rfl⟩

/-- Replacements that are made in two parts. -/
theorem Replaces.append {first second : List Occurrence} {before middle : Renaming × Watch}
    {result : (Renaming × Watch) × Bool}
    (hfirst : Replaces tree replacements first before (middle, false))
    (hsecond : Replaces tree replacements second middle result) :
    Replaces tree replacements (first ++ second) before result := by
  cases hfirst with
  | through hedits hopened hrewrites =>
      cases hsecond with
      | through hedits' hopened' hrewrites' =>
          refine .through ?_ (hopened'.trans hopened) ?_
          · rw [List.filterMap_append, List.foldlM_append, hedits]
            exact hedits'
          · rw [hrewrites', hrewrites, List.filterMap_append, List.append_assoc]
      | refused hedits' hrefused =>
          refine .refused ?_ hrefused
          rw [List.filterMap_append, List.foldlM_append, hedits]
          exact hedits'

theorem Replaces.append_refused {first second : List Occurrence} {before after : Renaming × Watch}
    (hfirst : Replaces tree replacements first before (after, true)) :
    Replaces tree replacements (first ++ second) before (after, true) := by
  cases hfirst with
  | refused hedits hrefused =>
      refine .refused ?_ hrefused
      rw [List.filterMap_append, List.foldlM_append, hedits]
      rfl

theorem rewrite?_eq_some {occurrence : Occurrence} {rewrite : Rewrite}
    (hrewrite : occurrence.rewrite? tree replacements = some rewrite) :
    rewrite.occurrence = occurrence := by
  unfold Occurrence.rewrite? at hrewrite
  split at hrewrite
  · obtain ⟨canonical, -, rfl⟩ := Option.map_eq_some_iff.mp hrewrite
    rfl
  · contradiction

theorem scopeKey?_of_name? {shape : Node} {name : Ident × Bool} (hname : shape.name? = some name) :
    shape.scopeKey? = none := by
  cases shape <;> first | rfl | contradiction

/-- At a name, renaming replaces it. -/
theorem renamer_enter_name {shape : Node} {id : Ident} {isShorthand : Bool}
    (hname : shape.name? = some (id, isShorthand)) (state : Renaming) :
    (renamer tree scopes).enter shape state = state.replace id isShorthand := by
  cases shape <;> first | contradiction | cases hname; rfl

/-- At any other node, renaming opens the scope of the node, if it has one. -/
theorem renamer_enter_other {shape : Node} (hname : shape.name? = none) (state : Renaming) :
    (renamer tree scopes).enter shape state =
      match shape.scopeKey? with
      | some key => state.openScope tree (scopes.lookup key)
      | none => (.proceed, state) := by
  cases shape <;> first | rfl | contradiction

theorem watchedRenamer_enter (shape : Node) (state : Renaming) (watch : Watch) :
    (watchedRenamer tree scopes).enter shape (state, watch) =
      (((renamer tree scopes).enter shape state).1, ((renamer tree scopes).enter shape state).2,
        watch.enter scopes shape state) := rfl

/-- A name is replaced, if it has a replacement there. -/
theorem enter_name_replaces (scopes : OpenedScopes) {shape : Node} {id : Ident} {isShorthand : Bool}
    (hname : shape.name? = some (id, isShorthand)) {state : Renaming} {watch : Watch}
    (hframe : state.current = frameWithin tree replacements watch.opened) :
    ∃ after,
      ((watchedRenamer tree scopes).enter shape (state, watch) = (.proceed, after) ∧
        Replaces tree replacements [⟨id, isShorthand, watch.opened⟩] (state, watch)
          (after, false)) ∨
      ((watchedRenamer tree scopes).enter shape (state, watch) = (.abort, after) ∧
        Replaces tree replacements [⟨id, isShorthand, watch.opened⟩] (state, watch)
          (after, true)) := by
  have hget := get?_frameWithin tree replacements id isShorthand watch.opened
  rw [← hframe] at hget
  rw [watchedRenamer_enter, renamer_enter_name hname]
  unfold Renaming.replace Watch.enter
  cases hrewrite : (⟨id, isShorthand, watch.opened⟩ : Occurrence).rewrite? tree replacements with
  | none =>
      rw [hrewrite] at hget
      simp only [hname, hget, Option.map_none]
      exact ⟨_, Or.inl ⟨rfl, .nil (by simp [hrewrite])⟩⟩
  | some rewrite =>
      have hedits : [(⟨id, isShorthand, watch.opened⟩ : Occurrence)].filterMap
          (Occurrence.rewrite? tree replacements) = [rewrite] := by
        simp [hrewrite]
      have happly : ∀ snippet : Text.Snippet,
          [rewrite].foldlM Rewrite.apply snippet = rewrite.apply snippet := by
        intro snippet
        rw [List.foldlM_cons]
        exact bind_pure _
      obtain ⟨occurrence, canonical⟩ := rewrite
      obtain rfl : occurrence = ⟨id, isShorthand, watch.opened⟩ := rewrite?_eq_some hrewrite
      rw [hrewrite] at hget
      simp only [hname, hget, Option.map_some]
      cases hoverwrite : state.snippet.overwrite id.span.start id.span.stop
          (if isShorthand then id.name ++ ": " ++ canonical else canonical).toList with
      | ok snippet =>
          refine ⟨_, Or.inl ⟨rfl, .through ?_ rfl (by rw [hedits])⟩⟩
          rw [hedits, happly]
          exact hoverwrite
      | error fault =>
          refine ⟨_, Or.inr ⟨rfl, .refused ?_ rfl⟩⟩
          rw [hedits, happly]
          exact hoverwrite

/-- Leaving a node that opens no scope changes nothing. -/
theorem watchedRenamer_leave {shape : Node} (hkey : shape.scopeKey? = none)
    (after : Renaming × Watch) : (watchedRenamer tree scopes).leave shape after = after := by
  simp [watchedRenamer, Visitor.watched, renamer, hkey, Watch.leave, OpenedScopes.of?]

/-- Leaving a scope goes back to where it was opened. -/
theorem watchedRenamer_leave_scope {shape : Node} {key : ScopeKey}
    (hkey : shape.scopeKey? = some key) (state : Renaming) (frame : Replacements)
    (opened : List ScopeId) (rewrites : List Rewrite) :
    (watchedRenamer tree scopes).leave shape ({ state with frames := frame :: state.frames },
      ⟨(scopes.of? shape).toList ++ opened, rewrites⟩) = (state, ⟨opened, rewrites⟩) := by
  simp [watchedRenamer, Visitor.watched, renamer, hkey, Watch.leave]

/-- What is replaced within a scope is replaced when the scope has been left. -/
theorem Replaces.leave {shape : Node} {key : ScopeKey} (hkey : shape.scopeKey? = some key)
    {occurrences : List Occurrence} {parts : List Outline} {state inside : Renaming}
    {watch within : Watch} {frame : Replacements}
    (hinside : inside = { state with frames := frame :: state.frames })
    (hwithin : within = { watch with opened := (scopes.of? shape).toList ++ watch.opened })
    (henter : (watchedRenamer tree scopes).enter shape (state, watch) = (.proceed, inside, within))
    (hparts : Replaces tree replacements occurrences (inside, within)
      ((watchedRenamer tree scopes).walkAll parts (inside, within))) :
    Replaces tree replacements occurrences (state, watch)
      ((watchedRenamer tree scopes).walk (.node shape parts) (state, watch)) := by
  rw [Visitor.walk, henter]
  dsimp only
  generalize (watchedRenamer tree scopes).walkAll parts (inside, within) = result at hparts ⊢
  subst hinside hwithin
  cases hparts with
  | @through snippet seen hedits hopened hrewrites =>
      obtain ⟨opened, rewrites⟩ := seen
      dsimp only at hedits hopened hrewrites ⊢
      subst hopened
      have hback : (watchedRenamer tree scopes).leave shape
          ({ state with snippet, frames := frame :: state.frames },
            ⟨(scopes.of? shape).toList ++ watch.opened, rewrites⟩) =
          ({ state with snippet }, ⟨watch.opened, rewrites⟩) :=
        watchedRenamer_leave_scope hkey { state with snippet } frame watch.opened rewrites
      rw [hback]
      exact .through hedits rfl hrewrites
  | refused hedits hrefused => exact .refused hedits hrefused

mutual

/-- A watched walk makes the replacements of the occurrences that it passes.  What carries the
induction is the frame: it holds the replacements of the names that no open scope declares. -/
theorem walk_watchedRenamer : ∀ (outline : Outline) (state : Renaming) (watch : Watch),
    state.current = frameWithin tree replacements watch.opened →
      Replaces tree replacements (outline.occurrences scopes watch.opened) (state, watch)
        ((watchedRenamer tree scopes).walk outline (state, watch))
  | .node shape parts, state, watch, hframe => by
    rw [Outline.occurrences]
    cases hname : shape.name? with
    -- a name opens no scope; if the text refuses the replacement, the walk ends here
    | some name =>
        obtain ⟨id, isShorthand⟩ := name
        have hkey := scopeKey?_of_name? hname
        have hscope : scopes.of? shape = none := by simp [OpenedScopes.of?, hkey]
        rw [hscope]
        obtain ⟨⟨next, seen⟩, ⟨henter, hhere⟩ | ⟨henter, hhere⟩⟩ :=
          enter_name_replaces scopes hname hframe
        · obtain ⟨hopened, hframes⟩ := hhere.opened
          have hcurrent : next.current = frameWithin tree replacements seen.opened := by
            rw [hopened, ← hframe, Renaming.current, hframes]
            rfl
          have hparts := walkAll_watchedRenamer parts next seen hcurrent
          rw [hopened] at hparts
          rw [Visitor.walk_eq_walkAll _ henter (watchedRenamer_leave hkey)]
          exact hhere.append hparts
        · rw [Visitor.walk, henter]
          exact hhere.append_refused
    | none =>
        cases hkey : shape.scopeKey? with
        | none =>
            have hscope : scopes.of? shape = none := by simp [OpenedScopes.of?, hkey]
            have henter : (watchedRenamer tree scopes).enter shape (state, watch) =
                (.proceed, state, watch) := by
              rw [watchedRenamer_enter, renamer_enter_other hname, hkey, Watch.enter, hname, hscope]
              rfl
            rw [Visitor.walk_eq_walkAll _ henter (watchedRenamer_leave hkey), hscope]
            exact walkAll_watchedRenamer parts state watch hframe
        | some key =>
            have hscope : scopes.lookup key = scopes.of? shape := by simp [OpenedScopes.of?, hkey]
            have henter : (watchedRenamer tree scopes).enter shape (state, watch) =
                ((state.openScope tree (scopes.lookup key)).1,
                  (state.openScope tree (scopes.lookup key)).2,
                  { watch with opened := (scopes.of? shape).toList ++ watch.opened }) := by
              rw [watchedRenamer_enter, renamer_enter_other hname, hkey, Watch.enter, hname]
            rw [Renaming.openScope, hframe, hscope, within_frameWithin] at henter
            cases hempty : (frameWithin tree replacements
                ((scopes.of? shape).toList ++ watch.opened)).isEmpty with
            -- renaming skips the parts, where nothing would be replaced anyway
            | true =>
                simp only [hempty, if_true] at henter
                rw [Visitor.walk, henter]
                dsimp only
                rw [watchedRenamer_leave_scope hkey]
                exact .nil (filterMap_rewrite?_eq_nil (List.isEmpty_iff.mp hempty))
            | false =>
                simp only [hempty, Bool.false_eq_true, if_false] at henter
                refine .leave hkey rfl rfl henter ?_
                exact walkAll_watchedRenamer parts _
                  { watch with opened := (scopes.of? shape).toList ++ watch.opened } rfl

theorem walkAll_watchedRenamer : ∀ (forest : List Outline) (state : Renaming) (watch : Watch),
    state.current = frameWithin tree replacements watch.opened →
      Replaces tree replacements (Outline.occurrencesOf scopes watch.opened forest) (state, watch)
        ((watchedRenamer tree scopes).walkAll forest (state, watch))
  | [], state, watch, _ => .nil rfl
  | first :: rest, state, watch, hframe => by
    have hfirst := walk_watchedRenamer first state watch hframe
    rw [Visitor.walkAll, Outline.occurrencesOf]
    generalize (watchedRenamer tree scopes).walk first (state, watch) = result at hfirst ⊢
    obtain ⟨⟨next, seen⟩, ended⟩ := result
    cases ended with
    | true => exact hfirst.append_refused
    | false =>
        obtain ⟨hopened, hframes⟩ := hfirst.opened
        have hcurrent : next.current = frameWithin tree replacements seen.opened := by
          rw [hopened, ← hframe, Renaming.current, hframes]
          rfl
        have hrest := walkAll_watchedRenamer rest next seen hcurrent
        rw [hopened] at hrest
        exact hfirst.append hrest

end

end Walk

/-- The walk that renames a statement. -/
theorem replaces_statement (tree : ScopeTree) (statement : Statement) (replacements : Replacements)
    (snippet : Text.Snippet) :
    Replaces tree replacements statement.occurrences
      ({ frames := [replacements], snippet, refused := none }, ⟨[], []⟩)
      ((watchedRenamer tree statement.scopes).walkAll statement.outline
        ({ frames := [replacements], snippet, refused := none }, ⟨[], []⟩)) :=
  walkAll_watchedRenamer statement.outline _ ⟨[], []⟩ (frameWithin_nil tree replacements).symm

/-- Renaming makes the replacements of all occurrences in a statement, one after the other. -/
theorem renameWithin_eq (tree : ScopeTree) (statement : Statement) (replacements : Replacements)
    (snippet : Text.Snippet) :
    renameWithin tree statement replacements snippet =
      (statement.occurrences.filterMap (Occurrence.rewrite? tree replacements)).foldlM Rewrite.apply
        snippet := by
  unfold renameWithin
  cases hempty : replacements.isEmpty with
  -- renaming does not walk at all, and there is nothing to replace
  | true =>
      have hnil : frameWithin tree replacements [] = [] := by
        rw [frameWithin_nil]
        exact List.isEmpty_iff.mp hempty
      rw [if_pos rfl, Statement.occurrences, filterMap_rewrite?_eq_nil hnil]
      rfl
  | false =>
      rw [if_neg (by simp)]
      have hreplaces := replaces_statement tree statement replacements snippet
      have hsame := (Visitor.walkAll_watched (renamer tree statement.scopes)
        (Watch.enter statement.scopes) (Watch.leave statement.scopes) statement.outline
        ({ frames := [replacements], snippet, refused := none }, ⟨[], []⟩)).1
      dsimp only
      unfold Visitor.run
      unfold watchedRenamer at hreplaces
      rw [← hsame]
      generalize ((renamer tree statement.scopes).watched (Watch.enter statement.scopes)
        (Watch.leave statement.scopes)).walkAll statement.outline _ = result at hreplaces ⊢
      cases hreplaces with
      | through hedits hopened hrewrites => exact hedits.symm
      | refused hedits hrefused =>
          rw [hrefused]
          exact hedits.symm

/-- What renaming replaces in a statement, if the text takes it all. -/
theorem rewritesWithin_eq {tree : ScopeTree} {statement : Statement} {replacements : Replacements}
    {snippet renamed : Text.Snippet}
    (hrenamed : renameWithin tree statement replacements snippet = .ok renamed) :
    rewritesWithin tree statement replacements snippet =
      statement.occurrences.filterMap (Occurrence.rewrite? tree replacements) := by
  rw [renameWithin_eq] at hrenamed
  have hreplaces := replaces_statement tree statement replacements snippet
  unfold rewritesWithin Visitor.run
  generalize (watchedRenamer tree statement.scopes).walkAll statement.outline _ = result
    at hreplaces ⊢
  cases hreplaces with
  | through hedits hopened hrewrites => exact hrewrites
  | refused hedits hrefused =>
      rw [hrenamed] at hedits
      contradiction

end ScriptBundler

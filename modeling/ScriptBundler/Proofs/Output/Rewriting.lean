import ScriptBundler.Proofs.Output.Built
import ScriptBundler.Proofs.Output.Capture
import ScriptBundler.Proofs.Output.Denotations
import ScriptBundler.Proofs.Output.Resolutions

/-!
# Which edits make the text of a statement

The text of a statement in a bundle is its range in the source with some edits: one takes export
syntax off the front, and the others replace names of the top level.  None of these edits is ever
refused, because the names of a statement lie apart from each other and behind the export syntax.
-/

namespace ScriptBundler

open Files Script ScriptBundler.Module Text

/-- The edit that takes the export syntax off a statement.  What has no name is declared under the
canonical name of the default export. -/
def Module.Statement.prefixEdit? (statement : Statement) (canonical : String) : Option Edit :=
  let declared := s!"var {canonical} = ".toList
  match statement.form with
  | .exportDecl declaration => some ⟨statement.span.start, declaration.span.start, []⟩
  | .exportDefaultFunction name body =>
    some ⟨statement.span.start, body.span.start, if name.isSome then [] else declared⟩
  | .exportDefaultClass name _ _ extent =>
    some ⟨statement.span.start, extent.start, if name.isSome then [] else declared⟩
  | .exportDefaultExpr value => some ⟨statement.span.start, value.span.start, declared⟩
  | .statement _ | .importDecl _ _ | .exportList _ _ | .exportAll _ => none

/-- The edit that replaces a name of the top level by its canonical name, if that is another one.  A
name that is also a key is written as both. -/
def Reference.edit? (canonical : String → String) (reference : Reference) : Option Edit :=
  let name := reference.id.name
  if reference.isTopLevel = true ∧ canonical name ≠ name then
    some ⟨reference.id.span.start, reference.id.span.stop,
      (if reference.isShorthand then name ++ ": " ++ canonical name else canonical name).toList⟩
  else none

/-- Whether a snippet is the text of a statement, given the canonical names of its module: its range
in the source without export syntax, and with canonical names for the names that the second walk
finds to be ones of the top level. -/
structure Module.Statement.RenderedAs (source : List Char) (scopes : ScopeTree)
    (statement : Statement) (canonical : String → String) (snippet : Snippet) : Prop where
  edits : snippet.edits.Perm ((statement.prefixEdit? (canonical "default")).toList ++
    (statement.resolutions scopes).filterMap fun resolution =>
      (resolution.reference scopes).edit? canonical)
  sorted : Sorted snippet.edits
  /-- The names lie behind the export syntax. -/
  behind : ∀ edit ∈ statement.prefixEdit? (canonical "default"),
    ∀ resolution ∈ statement.resolutions scopes, edit.stop ≤ resolution.id.span.start
  render : snippet.render = Text.trim
    (substitute snippet.edits (slice source statement.range.start statement.range.stop)
      statement.range.start)

/-- What a replacement does to the text. -/
def Rewrite.edit (rewrite : Rewrite) : Edit :=
  ⟨rewrite.occurrence.id.span.start, rewrite.occurrence.id.span.stop, rewrite.content.toList⟩

theorem foldlM_apply (rewrites : List Rewrite) (snippet : Snippet) :
    rewrites.foldlM Rewrite.apply snippet = snippet.overwriteAll (rewrites.map Rewrite.edit) := by
  induction rewrites generalizing snippet with
  | nil => rfl
  | cons first rest ih =>
      rw [List.foldlM_cons, List.map_cons, Snippet.overwriteAll]
      show (first.apply snippet >>= fun edited => rest.foldlM Rewrite.apply edited) = _
      unfold Rewrite.apply Rewrite.edit
      dsimp only
      cases snippet.overwrite first.occurrence.id.span.start first.occurrence.id.span.stop
          first.content.toList with
      | ok edited => exact ih edited
      | error refused => rfl

theorem Text.Snippet.overwriteAll_append (snippet : Snippet) (edits others : List Edit) :
    snippet.overwriteAll (edits ++ others) =
      (snippet.overwriteAll edits).bind (·.overwriteAll others) := by
  induction edits generalizing snippet with
  | nil => rfl
  | cons first rest ih =>
      rw [List.cons_append, Snippet.overwriteAll, Snippet.overwriteAll]
      cases snippet.overwrite first.start first.stop first.content with
      | ok edited => exact ih edited
      | error refused => rfl

theorem Text.Snippet.overwriteAll_singleton (snippet : Snippet) (edit : Edit) :
    snippet.overwriteAll [edit] = snippet.overwrite edit.start edit.stop edit.content := by
  unfold Snippet.overwriteAll
  cases snippet.overwrite edit.start edit.stop edit.content <;> rfl

theorem Text.perm_insertEdit {edit : Edit} {edits : List Edit}
    (hapart : ∀ other ∈ edits, other.start ≠ edit.start) :
    (insertEdit edit edits).Perm (edit :: edits) := by
  induction edits with
  | nil => exact .refl _
  | cons first rest ih =>
      obtain ⟨hfirst, hrest⟩ := List.forall_mem_cons.mp hapart
      rw [insertEdit]
      split
      · exact .refl _
      · rw [if_neg (Ne.symm hfirst)]
        exact ((ih hrest).cons first).trans (.swap edit first rest)

/-- Edits that start at different places are all there when they have been put in. -/
theorem Text.perm_foldl_insertEdit {edits others : List Edit}
    (hapart : (others ++ edits).Pairwise fun first second => first.start ≠ second.start) :
    (edits.foldl (fun edits edit => insertEdit edit edits) others).Perm (others ++ edits) := by
  induction edits generalizing others with
  | nil => simp
  | cons first rest ih =>
      have hmiddle : (first :: (others ++ rest)).Pairwise fun first second =>
          first.start ≠ second.start :=
        (List.perm_middle.pairwise_iff fun h => Ne.symm h).mp hapart
      have hfirst : (insertEdit first others).Perm (first :: others) :=
        perm_insertEdit fun other hother => Ne.symm
          ((List.pairwise_cons.mp hmiddle).1 other (List.mem_append_left _ hother))
      have hperm := hfirst.append_right rest
      rw [List.foldl_cons]
      exact (ih ((hperm.pairwise_iff fun h => Ne.symm h).mpr hmiddle)).trans
        (hperm.trans List.perm_middle.symm)

/-- Edits that stand apart are all there when they have been put in. -/
theorem Text.perm_of_apart {edits : List Edit} (hapart : edits.Pairwise Edit.Apart)
    (hnonempty : ∀ edit ∈ edits, edit.start < edit.stop) :
    (edits.foldl (fun edits edit => insertEdit edit edits) []).Perm edits := by
  refine perm_foldl_insertEdit (hapart.imp_of_mem fun {first second} hfirst hsecond hboth => ?_)
  have := hnonempty first hfirst
  have := hnonempty second hsecond
  unfold Edit.Apart at hboth
  omega

/-- A replacement is the edit of a reference. -/
theorem rewrite?_edit {tree : ScopeTree} {table : Replacements} {canonical : String → String}
    {occurrence : Occurrence} (htable : occurrence.Sees tree occurrence.id.name →
      table.get? occurrence.id.name = if canonical occurrence.id.name ≠ occurrence.id.name
        then some (canonical occurrence.id.name) else none) :
    (occurrence.rewrite? tree table).map Rewrite.edit =
      (occurrence.reference tree).edit? canonical := by
  unfold Occurrence.rewrite? Reference.edit? Occurrence.reference
  by_cases hsees : occurrence.Sees tree occurrence.id.name
  · rw [if_pos hsees, htable hsees]
    by_cases hother : canonical occurrence.id.name ≠ occurrence.id.name
    · simp [hsees, hother, Rewrite.edit, Rewrite.content]
    · simp [hother]
  · simp [hsees]

namespace Assembly

variable {graph : Graph} {id : Nat} {module : Module} {statement : Statement} {draft : Draft}

/-! ## Export syntax -/

/-- What taking off export syntax does if it makes an edit, or none is needed: a later canonical
name of the default export is the one that has been put in. -/
structure Strips (graph : Graph) (id : Nat) (module : Module) (statement : Statement)
    (draft : Draft)
    (canonical : String) (after : Draft) : Prop where
  keeps : ∀ naming, after.naming.Extends naming →
    statement.prefixEdit? (naming.canonicalName graph id "default").1 =
      statement.prefixEdit? canonical
  run : (stripExport graph id module statement).run draft =
    (some <$> edited (statement.snippet.overwriteAll
      (statement.prefixEdit? canonical).toList)).run after

/-- Export syntax that is removed. -/
theorem Strips.removed (start : Nat) (hedit : ∀ canonical,
      statement.prefixEdit? canonical = some ⟨statement.span.start, start, []⟩)
    (hrun : (stripExport graph id module statement).run draft =
      (withoutKeyword statement.snippet statement.span start).run draft) :
    Strips graph id module statement draft "" draft := by
  refine ⟨fun _ _ => by rw [hedit, hedit], ?_⟩
  rw [hrun, hedit, Option.toList_some, Snippet.overwriteAll_singleton]
  rfl

/-- Export syntax in whose place a variable is declared. -/
theorem Strips.declared (start : Nat) {after : Draft} (hedit : ∀ canonical,
      statement.prefixEdit? canonical =
        some ⟨statement.span.start, start, s!"var {canonical} = ".toList⟩)
    (hextends : (draft.naming.canonicalName graph id "default").2.Extends after.naming)
    (hrun : (stripExport graph id module statement).run draft =
      (declareValue statement.snippet statement.span start
        (draft.naming.canonicalName graph id "default").1).run after) :
    Strips graph id module statement draft (draft.naming.canonicalName graph id "default").1
      after := by
  refine ⟨fun naming hlater => ?_, ?_⟩
  · rw [Naming.canonicalName_of_settled (hlater id "default" _
      (hextends id "default" _ (draft.naming.canonicalName_settles graph id "default")))]
  · rw [hrun, hedit, Option.toList_some, Snippet.overwriteAll_singleton]
    rfl

/-- Taking off export syntax fails at `export *` only.  Otherwise it leaves nothing behind, or it
makes the edit for it. -/
theorem stripExport_cases (graph : Graph) (id : Nat) (module : Module) (statement : Statement)
    (draft : Draft) :
    (∃ text, statement.form = .exportAll text ∧ (stripExport graph id module statement).run draft =
      .error (.exportEverything module.path) draft) ∨
    (∃ after, (stripExport graph id module statement).run draft = .ok none after) ∨
    (∃ start, (Item.mk statement.form statement.span).codeStart? = some start) ∧
      ∃ canonical after, Strips graph id module statement draft canonical after := by
  obtain ⟨settled, hsettled, hdefault⟩ : ∃ settled : Draft,
      (draft.naming.canonicalName graph id "default").2.Extends settled.naming ∧
      (canonicalName graph id "default").run draft =
        .ok (draft.naming.canonicalName graph id "default").1 settled :=
    ⟨_, .refl _, run_canonicalName graph id "default" draft⟩
  unfold stripExport
  cases hform : statement.form with
  | exportAll text => exact Or.inl ⟨text, rfl, rfl⟩
  | importDecl | exportList => exact Or.inr (Or.inl ⟨draft, rfl⟩)
  | statement body =>
      refine Or.inr (Or.inr ⟨⟨_, rfl⟩, "", draft, fun _ _ => ?_, ?_⟩)
      · simp only [Statement.prefixEdit?, hform]
      · simp only [stripExport, Statement.prefixEdit?, hform]
        rfl
  | exportDecl declaration =>
      exact Or.inr (Or.inr ⟨⟨_, rfl⟩, _, _, .removed declaration.span.start
        (by simp [Statement.prefixEdit?, hform]) (by simp only [stripExport, hform])⟩)
  | exportDefaultFunction name body =>
      cases name with
      | some name =>
          exact Or.inr (Or.inr ⟨⟨_, rfl⟩, _, _, .removed body.span.start
            (by simp [Statement.prefixEdit?, hform]) (by simp only [stripExport, hform]; rfl)⟩)
      | none =>
          exact Or.inr (Or.inr ⟨⟨_, rfl⟩, _, _, .declared body.span.start
            (by simp [Statement.prefixEdit?, hform]) hsettled
            (by simp only [stripExport, hform]; exact run_bind_of_ok hdefault)⟩)
  | exportDefaultClass name heritage members extent =>
      cases name with
      | some name =>
          exact Or.inr (Or.inr ⟨⟨_, rfl⟩, _, _, .removed extent.start
            (by simp [Statement.prefixEdit?, hform]) (by simp only [stripExport, hform]; rfl)⟩)
      | none =>
          exact Or.inr (Or.inr ⟨⟨_, rfl⟩, _, _, .declared extent.start
            (by simp [Statement.prefixEdit?, hform]) hsettled
            (by simp only [stripExport, hform]; exact run_bind_of_ok hdefault)⟩)
  | exportDefaultExpr value =>
      have hdeclared : ∀ after : Draft,
          (draft.naming.canonicalName graph id "default").2.Extends after.naming →
          (stripExport graph id module statement).run draft =
            (declareValue statement.snippet statement.span value.span.start
              (draft.naming.canonicalName graph id "default").1).run after →
          Strips graph id module statement draft (draft.naming.canonicalName graph id "default").1
            after :=
        fun after => .declared value.span.start (by simp [Statement.prefixEdit?, hform])
      cases value with
      | ident name =>
          obtain ⟨last, hlast, hname⟩ : ∃ last : Draft, settled.naming.Extends last.naming ∧
              (canonicalName graph id name.name).run settled =
                .ok (settled.naming.canonicalName graph id name.name).1 last :=
            ⟨_, Naming.canonicalName_extends _ graph id name.name,
              run_canonicalName graph id name.name settled⟩
          -- an export of a name that is the default export itself leaves nothing to declare
          by_cases hsame : (settled.naming.canonicalName graph id name.name).1 =
              (draft.naming.canonicalName graph id "default").1
          · refine Or.inr (Or.inl ⟨last, ?_⟩)
            refine (run_bind_of_ok hdefault).trans ((run_bind_of_ok hname).trans ?_)
            rw [if_pos (beq_iff_eq.mpr hsame), run_pure]
          · refine Or.inr (Or.inr ⟨⟨_, rfl⟩, _, _, hdeclared last (hsettled.trans hlast) ?_⟩)
            simp only [stripExport, hform]
            refine (run_bind_of_ok hdefault).trans ((run_bind_of_ok hname).trans ?_)
            rw [if_neg (by simpa using hsame)]
      | _ =>
          refine Or.inr (Or.inr ⟨⟨_, rfl⟩, _, _, hdeclared settled hsettled ?_⟩)
          simp only [stripExport, hform]
          exact run_bind_of_ok hdefault

/-! ## All edits -/

/-- The names in the code of a statement lie in it, apart from each other. -/
theorem references_lie {source : List Char} {tree : ScopeTree} {item : Item}
    (hread : statement.Read source tree item) {start : Nat} (hcode : item.codeStart? = some start) :
    (∀ reference ∈ Outline.references [] item.outline,
      (Site.name reference.id).Lies source start item.span.stop) ∧
    (Outline.references [] item.outline).Pairwise fun reference other =>
      (Site.name reference.id).Apart (.name other.id) := by
  have himport := hread.not_import_of_codeStart hcode
  obtain ⟨-, -, -, hlies, hapart⟩ := hread.arranged start hcode
  have hids : (Outline.references [] item.outline).map (·.id) =
      (Outline.sitesOf item.outline).filterMap Site.name? := by
    rw [← (hread.reference_eq himport).1, List.map_map, ← occurrencesOf_ids item.outline [],
      Statement.occurrences, hread.names.outline]
    rfl
  have hname : ∀ site id, Site.name? site = some id → site = .name id := by
    intro site id hsite
    cases site with
    | name => exact congrArg Site.name (Option.some.inj hsite)
    | scope => contradiction
  constructor
  · intro reference hreference
    obtain ⟨site, hsite, hid⟩ := List.mem_filterMap.mp (hids ▸ List.mem_map_of_mem hreference)
    exact hname site _ hid ▸ hlies site hsite
  · have hpairs : ((Outline.references [] item.outline).map (·.id)).Pairwise fun id other =>
        (Site.name id).Apart (.name other) := by
      rw [hids]
      refine List.Pairwise.filterMap _ (fun site other hboth id hid found hfound => ?_) hapart
      rw [hname site id hid, hname other found hfound] at hboth
      exact hboth
    rwa [List.pairwise_map] at hpairs

theorem edit?_eq_some {canonical : String → String} {reference : Reference} {edit : Edit}
    (hedit : reference.edit? canonical = some edit) :
    edit.start = reference.id.span.start ∧ edit.stop = reference.id.span.stop := by
  unfold Reference.edit? at hedit
  dsimp only at hedit
  split at hedit
  · obtain rfl := Option.some.inj hedit
    exact ⟨rfl, rfl⟩
  · contradiction

/-- The export syntax of a statement ends where its code starts. -/
theorem prefixEdit?_eq_some {canonical : String} {edit : Edit}
    (hedit : statement.prefixEdit? canonical = some edit) :
    edit.start = statement.span.start ∧
      (Item.mk statement.form statement.span).codeStart? = some edit.stop ∧
      ∀ body, statement.form ≠ .statement body := by
  unfold Statement.prefixEdit? at hedit
  unfold Item.codeStart?
  dsimp only at hedit ⊢
  split at hedit <;> first | contradiction | skip
  all_goals
    rename_i hform
    obtain rfl := Option.some.inj hedit
    rw [hform]
    exact ⟨rfl, rfl, nofun⟩

/-- All edits of a statement can be made, in any order, and they stand apart. -/
theorem edits_fit {source : List Char} {tree : ScopeTree} {item : Item}
    (hread : statement.Read source tree item) {start : Nat} (hcode : item.codeStart? = some start)
    (canonical : String) (names : String → String) :
    let edits := (statement.prefixEdit? canonical).toList ++
      (Outline.references [] item.outline).filterMap (·.edit? names)
    edits.Pairwise Edit.Apart ∧
      (∀ edit ∈ edits, statement.snippet.Accepts edit.start edit.stop) ∧
      ∀ edit ∈ edits, Boundary source edit.start ∧ Boundary source edit.stop := by
  intro edits
  obtain ⟨hlies, hapart⟩ := references_lie hread hcode
  obtain ⟨hfront, hle, hboundary, -, -⟩ := hread.arranged start hcode
  have hstarts := hread.starts
  have hstops := hread.stops
  have hlower := hread.codeStart_le hcode
  have hbounds : statement.snippet.start = statement.range.start ∧
      statement.snippet.stop = statement.range.stop ∧ statement.snippet.edits = [] := by
    rw [hread.snippet]
    exact ⟨rfl, rfl, rfl⟩
  -- the export syntax stands before all code of the statement, and so before all its references
  have hstrip : ∀ edit ∈ (statement.prefixEdit? canonical).toList,
      edit.start = item.span.start ∧ edit.stop = start ∧ item.span.start < start := by
    intro edit hedit
    obtain ⟨hstart, hstop, hform⟩ := prefixEdit?_eq_some (Option.mem_toList.mp hedit)
    rw [hread.item_eq, hcode] at hstop
    refine ⟨hread.span ▸ hstart, (Option.some.inj hstop).symm, hfront.resolve_right ?_⟩
    rintro ⟨body, hbody⟩
    exact hform body (hread.form.trans hbody)
  have hname : ∀ edit ∈ (Outline.references [] item.outline).filterMap (·.edit? names),
      start ≤ edit.start ∧ edit.start < edit.stop ∧ edit.stop ≤ item.span.stop ∧
        Boundary source edit.start ∧ Boundary source edit.stop := by
    intro edit hedit
    obtain ⟨reference, hreference, hsome⟩ := List.mem_filterMap.mp hedit
    obtain ⟨hstart, hstop⟩ := edit?_eq_some hsome
    rw [hstart, hstop]
    exact hlies reference hreference
  refine ⟨List.pairwise_append.mpr ⟨?_, ?_, ?_⟩, ?_, ?_⟩
  · cases statement.prefixEdit? canonical <;> simp
  · refine List.Pairwise.filterMap _
      (fun reference other hboth edit hedit found hfound => ?_) hapart
    obtain ⟨hstart, hstop⟩ := edit?_eq_some hedit
    obtain ⟨hstart', hstop'⟩ := edit?_eq_some hfound
    unfold Edit.Apart
    rw [hstart, hstop, hstart', hstop']
    exact hboth
  · intro edit hedit other hother
    exact Or.inl ((hstrip edit hedit).2.1 ▸ (hname other hother).1)
  · intro edit hedit
    refine (List.mem_append.mp hedit).elim (fun hfirst => ?_) fun hrest => ?_
    · obtain ⟨hstart, hstop, hlt⟩ := hstrip edit hfirst
      exact ⟨by omega, by omega, by omega, by simp [hbounds]⟩
    · obtain ⟨hbehind, hlt, hupper, -⟩ := hname edit hrest
      exact ⟨hlt, by omega, by omega, by simp [hbounds]⟩
  · intro edit hedit
    refine (List.mem_append.mp hedit).elim (fun hfirst => ?_) fun hrest => ?_
    · obtain ⟨hstart, hstop, -⟩ := hstrip edit hfirst
      exact hstart ▸ hstop ▸ ⟨hread.start, hboundary⟩
    · exact (hname edit hrest).2.2.2

/-- Looking for replacements settles the canonical names of all names that are asked for. -/
theorem exists_replacements (graph : Graph) (id : Nat) (names : List String) (draft : Draft) :
    ∃ table final, (replacements graph id names).run draft = .ok table final ∧
      ∀ name ∈ names, ∃ canonical, final.naming.get? id name = some canonical := by
  induction names generalizing draft with
  | nil => exact ⟨_, _, rfl, by simp⟩
  | cons first rest ih =>
      obtain ⟨table, final, hrest, hsettled⟩ :=
        ih { draft with naming := (draft.naming.canonicalName graph id first).2 }
      obtain ⟨hextends, -⟩ := replacements_ok hrest
      refine ⟨_, final, (run_bind_of_ok (run_canonicalName graph id first draft)).trans
        ((run_bind_of_ok hrest).trans (run_pure _ _)), List.forall_mem_cons.mpr ⟨?_, hsettled⟩⟩
      exact ⟨_, hextends id first _ (draft.naming.canonicalName_settles graph id first)⟩

/-- The replacements in a statement are the edits of its references. -/
theorem map_edit_rewrites {source : List Char} {tree : ScopeTree} {item : Item}
    (hread : statement.Read source tree item)
    (himport : ∀ specifiers text, statement.form ≠ .importDecl specifiers text)
    {table : Replacements} {middle final : Draft}
    (htable : (replacements graph id (statement.dependsOn ++ statement.defines)).run middle =
      .ok table final)
    (hsettled : ∀ name ∈ statement.dependsOn ++ statement.defines,
      ∃ canonical, final.naming.get? id name = some canonical) :
    (statement.occurrences.filterMap (Occurrence.rewrite? tree table)).map Rewrite.edit =
      (Outline.references [] item.outline).filterMap
        (·.edit? fun name => (final.naming.canonicalName graph id name).1) := by
  obtain ⟨-, hget⟩ := replacements_ok htable
  have hreferences := (hread.reference_eq himport).1
  rw [← hreferences, List.map_filterMap, List.filterMap_map]
  refine List.filterMap_congr fun occurrence hoccurrence => ?_
  simp only [Function.comp_apply]
  refine rewrite?_edit fun hsees => ?_
  have hname : occurrence.id.name ∈ statement.dependsOn ++ statement.defines :=
    hread.mem_of_isTopLevel (hreferences ▸ List.mem_map_of_mem hoccurrence) (decide_eq_true hsees)
  obtain ⟨canonical, hcanonical⟩ := hsettled _ hname
  rw [Naming.canonicalName_of_settled hcanonical]
  split
  · rename_i hother
    exact (hget _ _).mpr ⟨hname, hcanonical, hother⟩
  · rename_i hsame
    rw [Option.eq_none_iff_forall_ne_some]
    intro found hfound
    obtain ⟨-, hfound, hother⟩ := (hget _ _).mp hfound
    rw [hcanonical] at hfound
    exact hsame (Option.some.inj hfound ▸ hother)

/-- A snippet that all edits of a statement have been made in is its text. -/
theorem renderedAs_of_edits {source : List Char} {tree : ScopeTree} {item : Item}
    (hread : statement.Read source tree item) {start : Nat} (hcode : item.codeStart? = some start)
    {canonical : String} (names : String → String)
    (hstrip : statement.prefixEdit? (names "default") = statement.prefixEdit? canonical) :
    ∃ stripped renamed, statement.snippet.overwriteAll (statement.prefixEdit? canonical).toList =
        .ok stripped ∧
      stripped.overwriteAll ((Outline.references [] item.outline).filterMap (·.edit? names)) =
        .ok renamed ∧
      statement.RenderedAs source tree names renamed.trim := by
  obtain ⟨hapart, haccepts, hboundaries⟩ := edits_fit hread hcode canonical names
  obtain ⟨-, hle, -, -, -⟩ := hread.arranged start hcode
  have himport := hread.not_import_of_codeStart hcode
  have hreferences := (hread.reference_eq himport).2
  have horderly : statement.snippet.Orderly source := by
    rw [hread.snippet]
    refine (Snippet.orderly_ofSource source).snip hread.opens hread.closes ?_
    exact (hread.starts.trans (hread.codeStart_le hcode)).trans (hle.trans hread.stops)
  obtain ⟨renamed, hrenamed, hafter, heq⟩ := horderly.overwriteAll_eq_ok hapart haccepts hboundaries
  rw [Snippet.overwriteAll_append] at hrenamed
  cases hstripped : statement.snippet.overwriteAll (statement.prefixEdit? canonical).toList with
  | error refused =>
      rw [hstripped] at hrenamed
      contradiction
  | ok stripped =>
      rw [hstripped] at hrenamed
      refine ⟨stripped, renamed, rfl, hrenamed, ?_, hafter.sorted, ?_, ?_⟩
      · have hempty : statement.snippet.edits = [] := by rw [hread.snippet]; rfl
        have hperm := perm_of_apart hapart fun edit hedit => (haccepts edit hedit).1
        rw [← hreferences, List.filterMap_map] at hperm
        rw [heq, hstrip, ← hreferences, List.filterMap_map, hempty]
        exact hperm
      · intro edit hedit resolution hresolution
        have hlies := (references_lie hread hcode).1 (resolution.reference tree)
          (hreferences ▸ List.mem_map_of_mem hresolution)
        obtain ⟨-, hstop, -⟩ := prefixEdit?_eq_some hedit
        rw [hread.item_eq, hcode] at hstop
        exact Option.some.inj hstop ▸ hlies.1
      · have htrim : renamed.trim.render = Text.trim renamed.untrimmed := rfl
        have hview : renamed.intro = [] ∧ renamed.outro = [] ∧
            renamed.start = statement.range.start ∧ renamed.stop = statement.range.stop := by
          rw [heq, hread.snippet]
          exact ⟨rfl, rfl, rfl, rfl⟩
        obtain ⟨hintro, houtro, hstart, hstop⟩ := hview
        rw [htrim, hafter.untrimmed_eq, hintro, houtro, hstart, hstop, List.nil_append,
          List.append_nil]
        rfl

/-- Rendering a statement fails at `export *` only.  Otherwise it leaves out a statement that may be
left out, or its text is made by exactly the edit for its export syntax and those for names of the
top level. -/
theorem renderStatement_cases {item : Item}
    (hread : statement.Read module.source module.scopes item)
    (graph : Graph) (id : Nat) (draft : Draft) :
    (∃ text, statement.form = .exportAll text ∧
      (renderStatement graph id module statement).run draft =
        .error (.exportEverything module.path) draft) ∨
    (isVoid statement.form = true ∧
      ∃ final, (renderStatement graph id module statement).run draft = .ok none final) ∨
    ∃ snippet final, (renderStatement graph id module statement).run draft =
        .ok (some snippet) final ∧
      statement.RenderedAs module.source module.scopes
        (fun name => (final.naming.canonicalName graph id name).1) snippet := by
  rcases stripExport_cases graph id module statement draft with
    ⟨text, hform, hrun⟩ | ⟨after, hrun⟩ | ⟨⟨start, hcode⟩, canonical, after, hkeeps, hrun⟩
  · exact Or.inl ⟨text, hform, run_bind_of_error hrun⟩
  · exact Or.inr (Or.inl ⟨isVoid_of_stripExport hrun, after, run_bind_of_ok hrun⟩)
  · rw [hread.item_eq] at hcode
    have himport := hread.not_import_of_codeStart hcode
    obtain ⟨table, final, htable, hsettled⟩ :=
      exists_replacements graph id (statement.dependsOn ++ statement.defines) after
    have hrewrites := map_edit_rewrites hread himport htable hsettled
    obtain ⟨stripped, renamed, hstripped, hrenamed, hrendered⟩ :=
      renderedAs_of_edits hread hcode (fun name => (final.naming.canonicalName graph id name).1)
        (hkeeps final.naming (replacements_ok htable).1)
    rw [← hrewrites, ← foldlM_apply, ← renameWithin_eq] at hrenamed
    refine Or.inr (Or.inr ⟨renamed.trim, final, ?_, hrendered⟩)
    rw [hstripped] at hrun
    refine (run_bind_of_ok hrun).trans ((run_bind_of_ok htable).trans ?_)
    rw [hrenamed]
    rfl

end Assembly
end ScriptBundler

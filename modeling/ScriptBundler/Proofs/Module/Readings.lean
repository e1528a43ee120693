import ScriptBundler.Proofs.Module.Definitions
import ScriptBundler.Proofs.Module.Ranges
import ScriptBundler.Proofs.Script.Regions

/-!
# Statements that have been read

What is known of a statement of a module of a graph: where it lies in its source with its names,
that its scopes fit its nodes, and that the analysis has found its free names.
-/

namespace ScriptBundler
namespace Module

open Script Text

/-- The layout of a statement. -/
def Statement.layout (statement : Statement) : List Layout :=
  Item.layout ⟨statement.form, statement.span⟩

/-- The regions in a statement. -/
def Statement.spots (statement : Statement) : List Spot :=
  Layout.spotsOf [] [] statement.layout

/-- The names that are bound in a statement by `let` in the head of a loop or in a `switch`, or as
the name of a class expression. -/
def Statement.strays (statement : Statement) : List String :=
  Layout.straysOf statement.layout

/-- What is known of a statement that has been read as an item. -/
structure Statement.Read (source : List Char) (scopes : ScopeTree) (item : Item)
    (statement : Statement) : Prop where
  form : statement.form = item.form
  span : statement.span = item.span
  /-- Its names and scopes lie in its code. -/
  arranged : item.Arranged source
  /-- The text of its range is not edited yet. -/
  snippet : statement.snippet =
    (Snippet.ofSource source).snip statement.range.start statement.range.stop
  opens : Boundary source statement.range.start
  closes : Boundary source statement.range.stop
  /-- Its range covers it. -/
  starts : statement.range.start ≤ item.span.start
  stops : item.span.stop ≤ statement.range.stop
  start : Boundary source item.span.start
  sound : scopes.Sound
  fits : FitsAll scopes statement.scopes 1 ScopeTree.root item.outline
  names : FreeNames item statement

theorem Statement.Read.item_eq {source : List Char} {scopes : ScopeTree} {item : Item}
    {statement : Statement} (hread : statement.Read source scopes item) :
    ⟨statement.form, statement.span⟩ = item := by
  rw [hread.form, hread.span]

/-- The regions in a statement that are nodes are those of its outline. -/
theorem Statement.Read.places_spots {source : List Char} {scopes : ScopeTree} {item : Item}
    {statement : Statement} (hread : statement.Read source scopes item) :
    statement.spots.filterMap Spot.place? = Outline.placesOf [] item.outline := by
  rw [Statement.spots, Statement.layout, hread.item_eq, Item.places_spots]

/-- A statement starts with its export syntax. -/
theorem Statement.Read.codeStart_le {source : List Char} {scopes : ScopeTree} {item : Item}
    {statement : Statement} (hread : statement.Read source scopes item) {start : Nat}
    (hcode : item.codeStart? = some start) : item.span.start ≤ start := by
  rcases (hread.arranged start hcode).1 with hlt | ⟨body, hbody⟩
  · exact Nat.le_of_lt hlt
  · rw [Item.codeStart?, hbody] at hcode
    exact Nat.le_of_eq (Option.some.inj hcode)

/-- An import declaration has no code. -/
theorem Statement.Read.not_import_of_codeStart {source : List Char} {scopes : ScopeTree}
    {item : Item} {statement : Statement} (hread : statement.Read source scopes item) {start : Nat}
    (hcode : item.codeStart? = some start) :
    ∀ specifiers text, statement.form ≠ .importDecl specifiers text := by
  intro specifiers text hform
  simp [Item.codeStart?, hread.form.symm.trans hform] at hcode

theorem rangeWith_covers {comments : List Comment} {span : Span} {attached : Attached}
    {source : List Char} (hcomments : ∀ comment ∈ comments, Comment.Stands ⟨source, 0⟩ comment)
    (hright : attached.Right comments span) :
    (rangeWith span attached).start ≤ span.start ∧ span.stop ≤ (rangeWith span attached).stop := by
  constructor
  · refine rangeWith_start_le fun found hfound => ?_
    obtain ⟨comment, hmem, rfl, hstop⟩ := hright.leading found hfound
    obtain ⟨-, -, horder⟩ := hcomments comment hmem
    omega
  · refine le_rangeWith_stop fun found hfound => ?_
    obtain ⟨comment, hmem, rfl, hbehind⟩ := hright.trailing found hfound
    obtain ⟨-, -, horder⟩ := hcomments comment hmem
    omega

theorem FreeNames.of_outline_eq {item other : Item} {statement : Statement}
    (hnames : FreeNames item statement) (houtline : statement.outline = other.outline) :
    FreeNames other statement := by
  have heq := hnames.outline.symm.trans houtline
  exact ⟨houtline, heq ▸ hnames.defines, heq ▸ hnames.dependsOn, heq ▸ hnames.modifies⟩

theorem ofTree_read (path : Files.Path) {source : List Char} {tree : Tree}
    (hparse : parse source = .ok tree) {statement : Statement}
    (hstatement : statement ∈ (ofTree path source tree).statements) :
    ∃ item, statement.Read source (ofTree path source tree).scopes item := by
  have hsource : Module.ofSource path source = .ok (ofTree path source tree) := by
    rw [Module.ofSource, hparse]
    rfl
  obtain ⟨hscoping, hfits⟩ := ofSource_scoping hsource
  obtain ⟨hlaid, hcomments⟩ := parse_laid hparse
  have hattached := place_attached source tree.items tree.comments
  obtain ⟨placed, hplaced, hstated⟩ :=
    exists_mem_of_forall₂ (ofTree_placed path source tree) hstatement
  obtain ⟨item, hitem, rfl, hright⟩ := exists_mem_of_forall₂ hattached hplaced
  obtain ⟨entry, -, hfrom⟩ := exists_mem_of_forall₂ (ofTree_statements path source tree) hstatement
  obtain ⟨c, front, back, hstart, hsolid, hcloses⟩ := hlaid.mem hitem
  obtain ⟨⟨d, text, later, hfirst, -, hlast, hlt⟩, -⟩ :=
    rangeWith_framed hcomments hright ⟨c, front, back, hstart, hsolid, hcloses⟩
  obtain ⟨hstarts, hstops⟩ := rangeWith_covers hcomments hright
  rw [← hstated.range] at hfirst hlast hstarts hstops
  have hfit := hfits statement hstatement
  have hnames := hfrom.freeNames hscoping.sound (hscoping.fits _ hstatement) hfit
  rw [hstated.outline] at hfit
  exact ⟨placed.item, hstated.form, hstated.span, parse_arranged hparse _ hitem, hstated.snippet,
    hfirst.boundary, (hfirst.trans hlast).boundary, hstarts, hstops, hstart.boundary,
    hscoping.sound, hfit, hnames.of_outline_eq hstated.outline⟩

/-- Whether the bundle holds a statement does not matter for this. -/
theorem Statement.Read.of_asRead {source : List Char} {scopes : ScopeTree} {item : Item}
    {statement later : Statement} (hread : statement.Read source scopes item)
    (hrest : later.asRead = statement.asRead) : later.Read source scopes item := by
  have hsame : later = { statement with included := later.included } := by
    cases later
    cases statement
    simpa [Statement.asRead] using hrest
  have hnames := hread.names
  rw [hsame]
  exact { hread with
    names := ⟨hnames.outline, hnames.defines, hnames.dependsOn, hnames.modifies⟩ }

/-- Every statement of a module in a graph has been read as some item. -/
theorem Sourced.read {module : Module} (hsourced : module.Sourced) {index : Nat}
    {statement : Statement} (hstatement : module.statement? index = some statement) :
    ∃ item, statement.Read module.source module.scopes item := by
  obtain ⟨path, source, earlier, hsource, hrest⟩ := hsourced
  obtain ⟨tree, hparse, rfl⟩ := ofSource_eq_ofTree hsource
  obtain ⟨found, hfound, heq⟩ := statement?_of_asRead hrest.symm hstatement
  obtain ⟨item, hread⟩ := ofTree_read path hparse (List.mem_of_getElem? hfound)
  have hsame : module.source = source ∧ module.scopes = (ofTree path source tree).scopes :=
    ⟨(congrArg Module.source hrest :), (congrArg Module.scopes hrest :)⟩
  rw [hsame.1, hsame.2]
  exact ⟨item, hread.of_asRead heq.symm⟩

end Module
end ScriptBundler

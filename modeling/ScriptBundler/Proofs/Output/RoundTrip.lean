import ScriptBundler.Proofs.Module.Ranges
import ScriptBundler.Proofs.Output.Capture
import ScriptBundler.Proofs.Output.Scripts

/-!
# Scripts that come back as they are

The bundle of a script is the directive, a blank line, and then the text of the script from its
first statement to its last one, byte for byte.  This is so if nothing but line ends stands between
the statements with their comments, no comment at the end of a range ends in white space, and
expansion keeps the order of the source.  The name `default` has to be left alone: the bundle takes
it for the default export, also where the script has a variable of that name.
-/

namespace ScriptBundler

open Files ScriptBundler.Module Script Text

/-! ## Text without white space around it -/

theorem Text.trim_eq_self {text : List Char} (hstart : ∀ c ∈ text.head?, isBlank c = false)
    (hends : EndsSolid text) : trim text = text := by
  have hdrop : ∀ {text : List Char}, (∀ c ∈ text.head?, isBlank c = false) →
      text.dropWhile isBlank = text := by
    intro text hhead
    cases text with
    | nil => rfl
    | cons c rest => exact List.dropWhile_cons_of_neg (by simp [hhead c rfl])
  unfold trim
  rw [hdrop hstart, hdrop (fun c hc => hends c ?_), List.reverse_reverse]
  rwa [List.head?_reverse] at hc

/-- A stretch that is framed has some text, which does not start with white space. -/
theorem Module.Framed.slice_eq_cons {source : List Char} {range : Span}
    (hframed : Framed source range) :
    ∃ c more, slice source range.start range.stop = c :: more ∧ isBlank c = false := by
  obtain ⟨c, front, back, hplace, hsolid, ⟨text, hrest, hoffset⟩, hlt⟩ := hframed
  have hslice := slice_of_reaches hplace hrest hoffset
  dsimp only at hslice hrest hoffset
  cases text with
  | nil =>
      rw [byteLength_nil] at hoffset
      omega
  | cons d text =>
      obtain ⟨rfl, -⟩ := List.cons.inj hrest
      exact ⟨c, text, hslice, hsolid⟩

/-! ## Names -/

/-- Whether all names that are settled for a module are settled as they are. -/
def Naming.Faithful (naming : Naming) (id : Nat) : Prop :=
  ∀ name canonical, naming.get? id name = some canonical → canonical = name

theorem Naming.faithful_empty (id : Nat) : Naming.empty.Faithful id := by
  intro name canonical hget
  contradiction

theorem Naming.Faithful.settle {naming : Naming} {id : Nat} (hfaithful : naming.Faithful id)
    (name : String) : (naming.settle id name name).Faithful id := by
  intro other canonical hget
  unfold Naming.settle Naming.get? at hget
  rw [List.lookup_cons] at hget
  split at hget
  · rename_i heq
    have hother : other = name := by simpa using heq
    rw [hother]
    exact (Option.some.inj hget).symm
  · exact hfaithful other canonical hget

namespace Graph

variable {graph : Graph} {module : Module}

/-- A name of a script means itself, apart from `default`. -/
theorem Lone.meaning (hlone : graph.Lone module) (himports : module.imports = []) {name : String}
    (hname : name ≠ "default") : graph.meaning 0 name = .here name := by
  unfold Graph.meaning
  cases hfound : graph.module? 0 with
  | none => rfl
  | some found =>
      obtain ⟨-, hsame, hsuggested⟩ := hlone.module? hfound
      have hown : found.imports.get? name = none :=
        get?_imports_eq_none_of_asRead hsame (by rw [himports]; rfl)
      simp only [hsuggested, hown, beq_iff_eq, if_neg hname]
      split
      · rename_i hwhole
        rw [hwhole]
        rfl
      · rfl

theorem Lone.canonicalName (hlone : graph.Lone module) (himports : module.imports = [])
    {name : String} (hname : name ≠ "default") {naming : Naming} (hfaithful : naming.Faithful 0) :
    (naming.canonicalName graph 0 name).1 = name ∧
      (naming.canonicalName graph 0 name).2.Faithful 0 := by
  unfold Naming.canonicalName Graph.chainBound
  rw [Naming.follow]
  cases hget : naming.get? 0 name with
  | some canonical => exact ⟨hfaithful name canonical hget, hfaithful⟩
  | none =>
      rw [hlone.meaning himports hname]
      exact ⟨rfl, hfaithful.settle name⟩

end Graph

namespace Assembly

variable {graph : Graph} {module : Module} {draft : Draft}

section Faithful

variable (hlone : graph.Lone module) (himports : module.imports = [])

include hlone himports

theorem replacements_faithful {names : List String} (hnames : "default" ∉ names)
    (hfaithful : draft.naming.Faithful 0) :
    ∃ final, (replacements graph 0 names).run draft = .ok [] final ∧ final.naming.Faithful 0 := by
  induction names generalizing draft with
  | nil => exact ⟨draft, rfl, hfaithful⟩
  | cons name rest ih =>
      obtain ⟨hname, hrest⟩ := List.ne_and_not_mem_of_not_mem_cons hnames
      obtain ⟨hcanonical, hnaming⟩ := hlone.canonicalName himports hname.symm hfaithful
      have hnamed : ({ draft with naming := (draft.naming.canonicalName graph 0 name).2 } :
          Draft).naming.Faithful 0 := hnaming
      obtain ⟨final, hrun, hfinal⟩ := ih hrest hnamed
      refine ⟨final, ?_, hfinal⟩
      rw [replacements, run_bind_of_ok (run_canonicalName graph 0 name draft),
        run_bind_of_ok hrun, hcanonical, run_pure, if_pos (by simp)]

/-- A statement of a script is printed as it stands, if it leaves `default` alone. -/
theorem renderStatement_faithful (other : Module) {statement : Statement} {body : Stmt}
    (hform : statement.form = .statement body)
    (hnames : "default" ∉ statement.dependsOn ++ statement.defines)
    (hfaithful : draft.naming.Faithful 0) :
    ∃ final, (renderStatement graph 0 other statement).run draft =
      .ok (some statement.snippet.trim) final ∧ final.naming.Faithful 0 := by
  obtain ⟨final, hrun, hfinal⟩ := replacements_faithful hlone himports hnames hfaithful
  refine ⟨final, ?_, hfinal⟩
  have hstrip : (stripExport graph 0 other statement).run draft =
      .ok (some statement.snippet) draft := by
    simp only [stripExport, hform]
    rfl
  rw [renderStatement, run_bind_of_ok hstrip]
  dsimp only
  rw [run_bind_of_ok hrun]
  rfl

/-- The parts that statements are printed as, behind a margin. -/
def partsOf : Nat → List Statement → List Part
  | _, [] => []
  | margin, statement :: rest =>
    ⟨separator statement.marginBefore margin, statement.snippet.trim.render⟩ ::
      partsOf statement.marginAfter rest

/-- Statements of a script are joined as they stand. -/
theorem joinStatements_faithful {statements : List Statement}
    (hstatements : ∀ statement ∈ statements, ∃ found,
      graph.statement? ⟨0, statement.index⟩ = some found ∧ found.asRead = statement.asRead ∧
        (∃ body, statement.form = .statement body) ∧
        "default" ∉ statement.dependsOn ++ statement.defines)
    (hfaithful : draft.naming.Faithful 0) (margin : Nat) (composition : Composition) :
    ∃ final, (joinStatements graph (statements.map fun statement => ⟨0, statement.index⟩) margin
        composition).run draft =
      .ok { composition with parts := composition.parts ++ partsOf margin statements } final ∧
        final.naming.Faithful 0 := by
  induction statements generalizing draft margin composition with
  | nil => exact ⟨draft, by simp [joinStatements, partsOf], hfaithful⟩
  | cons statement rest ih =>
      obtain ⟨⟨found, hfound, hsame, ⟨body, hbody⟩, hnames⟩, hrest⟩ :=
        List.forall_mem_cons.mp hstatements
      obtain ⟨other, hother, hget⟩ := Graph.statement?_eq_some_iff.mp hfound
      have hform : found.form = .statement body :=
        (Statement.form_eq_of_asRead hsame).trans hbody
      obtain ⟨middle, hrun, hmiddle⟩ := renderStatement_faithful hlone himports other hform
        (by rwa [Statement.dependsOn_eq_of_asRead hsame, Statement.defines_eq_of_asRead hsame])
        hfaithful
      have hsnippet : found.snippet = statement.snippet := (congrArg Statement.snippet hsame :)
      have hbefore : found.marginBefore = statement.marginBefore :=
        (congrArg Statement.marginBefore hsame :)
      have hafter : found.marginAfter = statement.marginAfter :=
        (congrArg Statement.marginAfter hsame :)
      rw [List.map_cons, joinStatements, hother, hfound]
      dsimp only
      rw [run_bind_of_ok hrun]
      dsimp only
      obtain ⟨final, hothers, hfinal⟩ := ih hrest hmiddle statement.marginAfter
        (composition.add statement.snippet.trim (separator statement.marginBefore margin))
      refine ⟨final, ?_, hfinal⟩
      rw [hbefore, hafter, hsnippet, hothers]
      simp [partsOf, Composition.add]

end Faithful

end Assembly

/-! ## Scripts that are neatly laid out -/

/-- Whether one line end or more stands between two ranges, and nothing else. -/
def Module.Spaced (source : List Char) (first second : Span) : Prop :=
  ∃ count, slice source first.stop second.start = List.replicate (count + 1) '\n'

theorem Module.Spaced.lt {source : List Char} {first second : Span}
    (hspaced : Spaced source first second) : first.stop < second.start := by
  obtain ⟨count, hgap⟩ := hspaced
  have hne : slice source first.stop second.start ≠ [] := by simp [hgap]
  exact lt_of_slice_ne_nil hne

/-- Whether a script starts with one statement and ends with another one, has nothing but line ends
between its statements, and no comment at the end of a range that ends in white space. -/
structure Module.Neat (module : Module) (first last : Statement) : Prop where
  script : module.IsScript
  first : module.statements.head? = some first
  last : module.statements.getLast? = some last
  spaced : (module.statements.map Statement.range).IsChain (Spaced module.source)
  comments : ∀ comment ∈ module.statements.filterMap (·.trailing),
    EndsSolid (slice module.source comment.start comment.stop)

namespace Module

variable {source : List Char}

/-- Between two statements with nothing but line ends between them, the bundle prints just these. -/
theorem Statement.Follows.separator {first second : Statement}
    (hfollows : first.Follows source second)
    (hspaced : Spaced source first.range second.range) :
    Assembly.separator second.marginBefore first.marginAfter =
      slice source first.range.stop second.range.start := by
  obtain ⟨hafter, hbefore⟩ := hfollows
  have hlt := hspaced.lt
  obtain ⟨count, hgap⟩ := hspaced
  rw [Nat.min_eq_left (Nat.le_of_lt hlt), hgap] at hbefore
  have hcount : newlines (List.replicate (count + 1) '\n') = count + 1 := by
    simp [newlines]
  unfold Assembly.separator
  rw [hafter, Nat.max_self, hbefore, hgap, hcount, Nat.max_eq_left (by omega)]
  rfl

/-- A statement of a script is printed as the text of its range without white space around it. -/
theorem Statement.Placed.render_eq_trim {statement : Statement}
    (hplaced : statement.Placed source) :
    statement.snippet.trim.render =
      Text.trim (slice source statement.range.start statement.range.stop) := by
  rw [hplaced.snippet]
  show Text.trim _ = _
  congr 1
  simp [Snippet.untrimmed, Snippet.trim, Snippet.snip, Snippet.ofSource, Snippet.applyEdits]

/-- A statement of a script is printed as the text of its range. -/
theorem Statement.Placed.render {statement : Statement} (hplaced : statement.Placed source)
    (hcomments : ∀ comment ∈ statement.trailing,
      EndsSolid (slice source comment.start comment.stop)) :
    statement.snippet.trim.render = slice source statement.range.start statement.range.stop := by
  obtain ⟨c, more, hslice, hsolid⟩ := hplaced.framed.slice_eq_cons
  rw [hplaced.render_eq_trim]
  refine Text.trim_eq_self (fun d hd => ?_) (hplaced.endsSolid hcomments)
  rw [hslice] at hd
  obtain rfl := Option.some.inj hd
  exact hsolid

/-- The text of two framed stretches with a gap between them. -/
theorem Framed.join {first second : Span} (hfirst : Framed source first)
    (hsecond : Framed source second) (hlt : first.stop < second.start) :
    Framed source ⟨first.start, second.stop⟩ ∧
      slice source first.start second.stop = slice source first.start first.stop ++
        (slice source first.stop second.start ++ slice source second.start second.stop) := by
  obtain ⟨c, front, back, hplace, hsolid, hwithin, hle⟩ := hfirst
  obtain ⟨d, text, later, hplace', -, hwithin', hle'⟩ := hsecond
  have hgap := (hplace.trans hwithin).of_le hplace' (Nat.le_of_lt hlt)
  have hrest := hgap.trans hwithin'
  refine ⟨⟨c, front, later, hplace, hsolid, hwithin.trans hrest, by dsimp only; omega⟩, ?_⟩
  exact (slice_split hplace hwithin hrest).trans
    (congrArg _ (slice_split (hplace.trans hwithin) hgap hwithin'))

/-- The statements of a neat script, joined by the bundle, are its text. -/
theorem joined_partsOf {first last : Statement} {statements : List Statement} (margin : Nat)
    (hplaced : ∀ statement ∈ first :: statements, statement.Placed source)
    (hcomments : ∀ comment ∈ (first :: statements).filterMap (·.trailing),
      EndsSolid (slice source comment.start comment.stop))
    (hfollow : (first :: statements).IsChain (Statement.Follows source))
    (hspaced : ((first :: statements).map Statement.range).IsChain (Spaced source))
    (hlast : (first :: statements).getLast? = some last) :
    let text := slice source first.range.start last.range.stop
    Composition.joined (Assembly.partsOf margin (first :: statements)) = text ∧
      Framed source ⟨first.range.start, last.range.stop⟩ ∧ EndsSolid text := by
  have hown : ∀ comment ∈ first.trailing, EndsSolid (slice source comment.start comment.stop) :=
    fun comment hcomment => hcomments comment
      (List.mem_filterMap.mpr ⟨first, List.mem_cons_self, hcomment⟩)
  induction statements generalizing first margin with
  | nil =>
      obtain rfl := Option.some.inj hlast
      have hfirst := hplaced first List.mem_cons_self
      refine ⟨?_, hfirst.framed, hfirst.endsSolid hown⟩
      simp [Assembly.partsOf, Composition.joined, hfirst.render hown]
  | cons second rest ih =>
      obtain ⟨hfirst, hothers⟩ := List.forall_mem_cons.mp hplaced
      obtain ⟨hfollows, hfollow⟩ := List.isChain_cons_cons.mp hfollow
      obtain ⟨hgap, hspaced⟩ := List.isChain_cons_cons.mp hspaced
      have hleft : ∀ comment ∈ (second :: rest).filterMap (·.trailing),
          EndsSolid (slice source comment.start comment.stop) := by
        intro comment hcomment
        obtain ⟨statement, hmem, htrailing⟩ := List.mem_filterMap.mp hcomment
        exact hcomments comment
          (List.mem_filterMap.mpr ⟨statement, List.mem_cons_of_mem _ hmem, htrailing⟩)
      obtain ⟨hjoined, hframed, hends⟩ := ih first.marginAfter hothers hleft hfollow hspaced
        (by rwa [List.getLast?_cons_cons] at hlast) fun comment hcomment => hleft comment
          (List.mem_filterMap.mpr ⟨second, List.mem_cons_self, hcomment⟩)
      obtain ⟨hwhole, hsplit⟩ := hfirst.framed.join hframed hgap.lt
      refine ⟨?_, hwhole, ?_⟩
      · have hparts : Composition.joined (Assembly.partsOf margin (first :: second :: rest)) =
            first.snippet.trim.render ++
              (Assembly.separator second.marginBefore first.marginAfter ++
                Composition.joined (Assembly.partsOf first.marginAfter (second :: rest))) := by
          simp [Assembly.partsOf, Composition.joined]
        rw [hparts, hfirst.render hown, hfollows.separator hgap, hjoined]
        exact hsplit.symm
      · obtain ⟨c, more, hslice, -⟩ := hframed.slice_eq_cons
        intro d hd
        dsimp only at hsplit hslice
        rw [hsplit, hslice, ← List.append_assoc,
          List.getLast?_append_of_ne_nil _ (List.cons_ne_nil c more), ← hslice] at hd
        exact hends d hd

end Module

namespace Bundle

variable {disk : Disk} {entry : Path} {bundle : Bundle} {log later : List Log.Entry}
  {source : List Char} {module : Module} {first last : Statement}

/-- The directive that a bundle starts with, and a blank line. -/
def directive : List Char :=
  "'use strict'\n\n".toList

/-- White space is trimmed neither before the directive nor after a text that does not end in it. -/
theorem trim_directive {text : List Char} (hne : text ≠ []) (hends : EndsSolid text) :
    Text.trim (directive ++ text) = directive ++ text := by
  obtain ⟨rest, hdirective⟩ : ∃ rest, directive = '\'' :: rest := ⟨directive.tail, by decide⟩
  refine Text.trim_eq_self (fun c hc => ?_) fun c hc => hends c ?_
  · rw [hdirective] at hc
    obtain rfl := Option.some.inj hc
    decide
  · rwa [List.getLast?_append_of_ne_nil _ hne] at hc

theorem render_parts (parts : List Part) :
    ({ Composition.empty with parts := Composition.empty.parts ++ parts }.prepend
      directive).trim.render = Text.trim (directive ++ Composition.joined parts) := by
  simp [Composition.render, Composition.prepend, Composition.trim, Composition.empty]

section Scripts

variable (hlone : bundle.graph.Lone module) (hexports : module.exports = [])

include hlone hexports

theorem exportNames_of_lone : bundle.exportNames = [] := by
  unfold exportNames
  split
  · rename_i found hfound
    rw [exports_eq_of_asRead (hlone.module? hfound).2.1, hexports]
    rfl
  · rfl

/-- Without exports, the mode `auto` is the mode `none`. -/
theorem run_exportMode_of_lone (before : List Log.Entry) :
    ∃ after, (bundle.exportMode .auto).run before = .ok .none after := by
  unfold exportMode
  rw [exportNames_of_lone hlone hexports]
  exact ⟨_, rfl⟩

/-- Without exports and external modules, the bundle is the directive and its body. -/
theorem run_assemble_of_lone (mode : ExportMode) {draft final : Draft} {composition : Composition}
    (hjoin : (Assembly.joinStatements bundle.graph bundle.statements 0 .empty).run draft =
      .ok composition final) :
    ∃ after, (bundle.assemble mode).run draft =
      .ok ((composition.prepend directive).trim.render) after := by
  have hbody : (Assembly.body bundle.graph bundle.statements).run draft =
      .ok (composition.prepend []).trim final := by
    rw [Assembly.body, run_bind_of_ok hjoin, hlone.namespaces]
    rfl
  have hclosing : (Assembly.closing bundle.graph bundle.entry mode).run final = .ok "" final := by
    unfold Assembly.closing
    split
    · rfl
    · rename_i found hfound
      rw [exports_eq_of_asRead (hlone.module? hfound).2.1, hexports]
      cases mode <;> rfl
  unfold assemble
  rw [run_bind_of_ok hbody]
  unfold Assembly.commonJs
  rw [hlone.externals, bind_assoc, run_bind_of_ok hclosing]
  exact ⟨_, rfl⟩

end Scripts

/-- Whatever the order of its statements, the bundle of a script that does not mention `default` is
made of their texts as they stand. -/
theorem run_assemble_of_script (hbuild : (build disk entry).run log = .ok bundle later)
    (hread : disk.read (entryPathOf disk entry) = .ok source)
    (hsource : Module.ofSource (entryPathOf disk entry) source = .ok module)
    (hscript : module.IsScript)
    (hdefault : ∀ statement ∈ module.statements,
      "default" ∉ statement.dependsOn ++ statement.defines)
    {emitted : List Statement} (hmem : ∀ statement ∈ emitted, statement ∈ module.statements)
    (hemitted : bundle.statements = emitted.map fun statement => ⟨0, statement.index⟩)
    (mode : ExportMode) :
    ∃ after, (bundle.assemble mode).run ⟨bundle.naming, []⟩ =
      .ok (Text.trim (directive ++ Composition.joined (Assembly.partsOf 0 emitted))) after := by
  obtain ⟨himports, hexports, -⟩ := hscript.tables hsource
  obtain ⟨-, hlone, hnaming⟩ := lone_of_build hbuild hread hsource hscript
  have hheld : ∀ statement ∈ emitted, ∃ found,
      bundle.graph.statement? ⟨0, statement.index⟩ = some found ∧
        found.asRead = statement.asRead ∧ (∃ body, statement.form = .statement body) ∧
        "default" ∉ statement.dependsOn ++ statement.defines := by
    intro statement hstatement
    have hown := hmem statement hstatement
    obtain ⟨found, hfound, hread⟩ := statement?_of_lone hlone hsource hown
    exact ⟨found, hfound, hread, hscript statement hown, hdefault statement hown⟩
  have hfaithful : (⟨bundle.naming, []⟩ : Draft).naming.Faithful 0 :=
    hnaming ▸ Naming.faithful_empty 0
  obtain ⟨final, hjoin, -⟩ :=
    Assembly.joinStatements_faithful hlone himports hheld hfaithful 0 .empty
  rw [← render_parts]
  exact run_assemble_of_lone hlone hexports mode (hemitted ▸ hjoin)

/-- A neat script that does not mention `default` comes back byte for byte behind the directive, if
expansion keeps the order of its statements. -/
theorem generate_eq_source (hbuild : (build disk entry).run log = .ok bundle later)
    (hread : disk.read (entryPathOf disk entry) = .ok source)
    (hsource : Module.ofSource (entryPathOf disk entry) source = .ok module)
    (hneat : module.Neat first last)
    (hdefault : ∀ statement ∈ module.statements,
      "default" ∉ statement.dependsOn ++ statement.defines)
    (hordered : bundle.InSourceOrder)
    (before : List Log.Entry) :
    ∃ after, (bundle.generate .auto).run before =
      .ok (directive ++ slice source first.range.start last.range.stop) after := by
  obtain ⟨-, hexports, -⟩ := hneat.script.tables hsource
  obtain ⟨-, hlone, -⟩ := lone_of_build hbuild hread hsource hneat.script
  have hstatements := statements_eq_of_ordered hbuild hread hsource hneat.script hordered
  rw [← ofSource_indices hsource, List.map_map] at hstatements
  obtain ⟨after, hassemble⟩ := run_assemble_of_script hbuild hread hsource hneat.script hdefault
    (fun _ h => h) hstatements .none
  -- what the statements are joined to is their text
  obtain ⟨tree, hparse, rfl⟩ := ofSource_eq_ofTree hsource
  obtain ⟨hplaced, hfollow⟩ := ofTree_ranges (entryPathOf disk entry) hparse
  obtain ⟨-, hfirst, hlast, hspaced, hcomments⟩ := hneat
  change ((ofTree _ source tree).statements.map Statement.range).IsChain (Spaced source) at hspaced
  change ∀ comment ∈ (ofTree _ source tree).statements.filterMap (·.trailing),
    EndsSolid (slice source comment.start comment.stop) at hcomments
  generalize (ofTree _ source tree).statements = statements at *
  obtain ⟨rest, rfl⟩ := List.head?_eq_some_iff.mp hfirst
  obtain ⟨hjoined, hframed, hends⟩ := joined_partsOf 0 hplaced hcomments hfollow hspaced hlast
  obtain ⟨c, more, hslice, -⟩ := hframed.slice_eq_cons
  dsimp only at hjoined hslice hends
  rw [hjoined, trim_directive (by simp [hslice]) hends] at hassemble
  obtain ⟨middle, hmode⟩ := run_exportMode_of_lone hlone hexports before
  unfold generate
  rw [run_bind_of_ok hmode, hassemble]
  exact ⟨_, rfl⟩

/-- A script is neat if its ranges are spaced and the comments at the end of them are solid. -/
theorem neat_of_ranges {path : Path} (hsource : Module.ofSource path source = .ok module)
    (hscript : module.IsScript) {range : Span} {ranges comments : List Span}
    (hranges : module.statements.map Statement.range = range :: ranges)
    (hspaced : (range :: ranges).IsChain (Spaced source))
    (hcomments : module.statements.filterMap (·.trailing) = comments)
    (hsolid : ∀ comment ∈ comments, EndsSolid (slice source comment.start comment.stop)) :
    ∃ first last, module.Neat first last ∧ (range :: ranges).head? = some first.range ∧
      (range :: ranges).getLast? = some last.range := by
  obtain ⟨tree, -, rfl⟩ := ofSource_eq_ofTree hsource
  obtain ⟨first, rest, hstatements, -⟩ := List.map_eq_cons_iff.mp hranges
  have hlast : (ofTree path source tree).statements.getLast? =
      some ((first :: rest).getLast (List.cons_ne_nil first rest)) := by
    rw [hstatements, List.getLast?_eq_some_getLast]
  refine ⟨first, _, ⟨hscript, by rw [hstatements]; rfl, hlast, ?_, ?_⟩, ?_, ?_⟩
  · rw [hranges]
    exact hspaced
  · rw [hcomments]
    exact hsolid
  · rw [← hranges, hstatements]
    rfl
  · rw [← hranges, List.getLast?_map, hlast]
    rfl

/-- Whether a bundle is generated as some text. -/
def generates (bundle : Bundle) (requested : ExportMode) (text : List Char) : Bool :=
  match (bundle.generate requested).run [] with
  | .ok code _ => code == text
  | .error _ _ => false

theorem run_generate_of_generates {requested : ExportMode} {text : List Char}
    (hgenerates : bundle.generates requested text = true) :
    ∃ after, (bundle.generate requested).run [] = .ok text after := by
  unfold generates at hgenerates
  split at hgenerates
  · rename_i code after hrun
    obtain rfl := eq_of_beq hgenerates
    exact ⟨after, hrun⟩
  · contradiction

/-- Three statements with comments before, between and behind them. -/
def commentedText : List Char :=
  ("// start\nvar a = 1 // one\n\n\n/* two */\na = [a,\n  a]\n" ++
    "print('a', a) /* three */\n").toList

def commentedDisk : Disk where
  workingDirectory := []
  files := [(["main.js"], .text commentedText)]
  directories := []

theorem generate_commentedDisk : ∃ bundle log module first last,
    (build commentedDisk ⟨"main.js"⟩).run [] = .ok bundle log ∧
      Module.ofSource (entryPathOf commentedDisk ⟨"main.js"⟩) commentedText = .ok module ∧
      module.Neat first last ∧ ∃ after, (bundle.generate .auto).run [] =
        .ok (directive ++ slice commentedText first.range.start last.range.stop) after := by
  obtain ⟨bundle, log, hbuild, hbundle⟩ := exists_of_passes commentedDisk ⟨"main.js"⟩
    (fun bundle => decide bundle.InSourceOrder) (by decide +kernel)
  obtain ⟨module, hsource, hmodule⟩ := exists_ofSource_of_check
    (entryPathOf commentedDisk ⟨"main.js"⟩) commentedText
    (fun module => decide (module.IsScript ∧
      module.statements.map Statement.range = [⟨0, 25⟩, ⟨28, 50⟩, ⟨51, 76⟩] ∧
      module.statements.filterMap (·.trailing) = [⟨19, 25⟩, ⟨65, 76⟩] ∧
      ∀ statement ∈ module.statements, "default" ∉ statement.dependsOn ++ statement.defines))
    (by decide +kernel)
  obtain ⟨hscript, hranges, hcomments, hdefault⟩ := of_decide_eq_true hmodule
  have hspaced : [⟨0, 25⟩, ⟨28, 50⟩, ⟨51, 76⟩].IsChain (Spaced commentedText) :=
    .cons_cons ⟨2, by decide +kernel⟩ (.cons_cons ⟨0, by decide +kernel⟩ (.singleton _))
  have hone : slice commentedText 19 25 = "// one".toList := by decide +kernel
  have hthree : slice commentedText 65 76 = "/* three */".toList := by decide +kernel
  have hsolid : ∀ comment ∈ ([⟨19, 25⟩, ⟨65, 76⟩] : List Span),
      EndsSolid (slice commentedText comment.start comment.stop) := by
    refine List.forall_mem_cons.mpr ⟨?_, List.forall_mem_singleton.mpr ?_⟩
    · rw [hone]
      intro last hlast
      obtain rfl : 'e' = last := Option.some.inj hlast
      decide
    · rw [hthree]
      intro last hlast
      obtain rfl : '/' = last := Option.some.inj hlast
      decide
  obtain ⟨first, last, hneat, -⟩ := neat_of_ranges hsource hscript hranges hspaced hcomments hsolid
  exact ⟨bundle, log, module, first, last, hbuild, hsource, hneat, generate_eq_source hbuild
    (by decide +kernel) hsource hneat hdefault (of_decide_eq_true hbundle) []⟩

/-- A script that declares `default`, which the parser accepts in the short form of a pattern. -/
def defaultNameText : List Char :=
  "var \x7bdefault = 1\x7d = \x7b\x7d;\n".toList

def defaultNameDisk : Disk where
  workingDirectory := []
  files := [(["main.js"], .text defaultNameText)]
  directories := []

/-- Its name is replaced by the one for the default export. -/
theorem not_generate_eq_source_defaultNameDisk : ∃ bundle log module first last code after,
    (build defaultNameDisk ⟨"main.js"⟩).run [] = .ok bundle log ∧
      Module.ofSource (entryPathOf defaultNameDisk ⟨"main.js"⟩) defaultNameText = .ok module ∧
      module.Neat first last ∧ bundle.InSourceOrder ∧
      (bundle.generate .auto).run [] = .ok code after ∧
      code ≠ directive ++ slice defaultNameText first.range.start last.range.stop := by
  obtain ⟨bundle, log, hbuild, hbundle⟩ := exists_of_passes defaultNameDisk ⟨"main.js"⟩
    (fun bundle => decide (bundle.InSourceOrder) &&
      bundle.generates .auto "'use strict'\n\nvar \x7bdefault: main = 1\x7d = \x7b\x7d;".toList)
    (by decide +kernel)
  obtain ⟨module, hsource, hmodule⟩ := exists_ofSource_of_check
    (entryPathOf defaultNameDisk ⟨"main.js"⟩) defaultNameText
    (fun module => decide (module.IsScript ∧ module.statements.map Statement.range = [⟨0, 23⟩] ∧
      module.statements.filterMap (·.trailing) = []))
    (by decide +kernel)
  obtain ⟨hordered, hcode⟩ := Bool.and_eq_true_iff.mp hbundle
  obtain ⟨after, hgenerate⟩ := run_generate_of_generates hcode
  obtain ⟨hscript, hranges, hcomments⟩ := of_decide_eq_true hmodule
  obtain ⟨first, last, hneat, hfirst, hlast⟩ := neat_of_ranges hsource hscript hranges
    (.singleton _) hcomments (by simp)
  refine ⟨bundle, log, module, first, last, _, after, hbuild, hsource, hneat,
    of_decide_eq_true hordered, hgenerate, ?_⟩
  rw [← Option.some.inj hfirst, ← Option.some.inj hlast]
  decide +kernel

end Bundle

end ScriptBundler

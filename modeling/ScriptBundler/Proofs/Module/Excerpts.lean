import ScriptBundler.Proofs.Module.Ranges
import ScriptBundler.Proofs.Script.Transcripts

/-!
# Statements as excerpts

The text that a bundle prints for a statement of a script is an excerpt of its source: the comments
that lead the statement, its own text, and the comment that trails it, without the white space at
the end of that.
-/

namespace ScriptBundler

open Script Text

/-- Behind text that does not end in white space, trimming takes something off the end only. -/
theorem Text.trim_append {front : List Char} (hne : front ≠ [])
    (hstart : ∀ c ∈ front.head?, isBlank c = false) (hends : Module.EndsSolid front)
    (rest : List Char) :
    ∃ body, trim (front ++ rest) = front ++ body ∧ body <+: rest := by
  obtain ⟨c, more, rfl⟩ := List.exists_cons_of_ne_nil hne
  have hfirst : (c :: more ++ rest).dropWhile isBlank = c :: more ++ rest :=
    List.dropWhile_cons_of_neg (by simp [hstart c rfl])
  have hlast : (c :: more).reverse.dropWhile isBlank = (c :: more).reverse := by
    obtain ⟨d, others, heq⟩ := List.exists_cons_of_ne_nil (List.reverse_ne_nil_iff.mpr hne)
    have hd : (c :: more).getLast? = some d := by
      rw [← List.head?_reverse, heq]
      rfl
    rw [heq]
    exact List.dropWhile_cons_of_neg (by simp [hends d hd])
  unfold trim
  rw [hfirst, List.reverse_append, List.dropWhile_append]
  split
  · exact ⟨[], by rw [hlast, List.reverse_reverse, List.append_nil], List.nil_prefix⟩
  · refine ⟨(rest.reverse.dropWhile isBlank).reverse, by simp, ?_⟩
    have hsuffix : rest.reverse.dropWhile isBlank <:+ rest.reverse := List.dropWhile_suffix isBlank
    simpa using List.reverse_prefix.mpr hsuffix

theorem Module.endsSolid_trim (text : List Char) : EndsSolid (trim text) := by
  intro last hlast
  rw [trim, List.getLast?_reverse] at hlast
  have hsolid := List.head?_dropWhile_not isBlank (text.dropWhile isBlank).reverse
  rw [Option.mem_def.mp hlast] at hsolid
  simpa using hsolid

namespace Module

open ScriptBundler.Script.Parser

variable {source : List Char} {comments : List Comment} {s t final : State}

/-! ## Comments around a statement -/

/-- Whether an item has been read in its source with the comments that go with it: those that lead
it have been found right before its first token, and the one that trails it right behind it. -/
structure ReadsWith (source : List Char) (item : Item) (attached : Attached) (s t : State) : Prop
    extends ReadsItem source item s t where
  leading : ∀ found ∈ attached.leading, ∃ comment ∈ s.current.comments, comment.span = found
  trailing : ∀ found ∈ attached.trailing, ∃ comment ∈ t.current.comments, comment.span = found

/-- All items of a source are read with the comments that are attached to them. -/
theorem attachAfter_reads {items : List Item} (hfresh : s.mark.Fresh source)
    (hreads : ReadsItems (sourceGrammar source) (.top (source.length + 2)) s items final)
    (hclean : final.mark.faulty = false) (hknown : comments ⊆ final.comments)
    (hstands : ∀ comment ∈ comments, comment.span.start < comment.span.stop) {before : Option Nat}
    (hbefore : ∀ start, (∀ stop ∈ before, stop ≤ start) → s.previous.stop ≤ start) :
    let attached := attachAfter source before (items.map (·.span)) comments
    (∀ found ∈ attached.1, ∃ comment ∈ s.current.comments, comment.span = found) ∧
      List.Forall₂ (fun item attached => ∃ s t, ReadsWith source item attached s t) items
        attached.2 := by
  induction hreads generalizing before comments with
  | finish hend =>
      obtain ⟨hown, -⟩ := attachAfter_right source before [] comments
      refine ⟨fun found hfound => ?_, ?_⟩
      · obtain ⟨comment, hcomment, rfl, hstop⟩ := hown found hfound
        exact ⟨comment, hfresh.mem_comments (hknown hcomment) (hstands comment hcomment)
          (hbefore _ hstop), rfl⟩
      · cases before <;> exact .nil
  | @item s t final item items hitem hrest ih =>
      obtain ⟨hmoves, hspan⟩ := of_triple (moduleItem_advances s (grammarOfDepth_advancing _)) hitem
      have hlater := hrest.leads (grammarOfDepth_advancing _)
      have hnext := (hmoves.leads.fresh hfresh).1
      have hitemRead : ReadsItem source item s t := {
        run := hitem
        fresh := hfresh
        next := hnext
        clean := hlater.faulty hclean
        stray := hrest.not_isStray (Nat.succ_pos _) hclean
        valid := hrest.not_invalid (grammarOfDepth_advancing _) hnext.right }
      -- the item claims what stands between the one before it and its own start
      have hclaimed := claim_right source before item.span.start before.isSome comments
      have hfound : ∀ {found}, Between comments before item.span.start found →
          ∃ comment ∈ s.current.comments, comment.span = found := by
        rintro _ ⟨comment, hcomment, rfl, hstop, hstart⟩
        rw [hspan] at hstart
        exact ⟨comment, (hmoves.leads.trans hlater).mem_comments hfresh hitemRead.proper
          (hknown hcomment) (hstands comment hcomment) (hbefore _ hstop) hstart, rfl⟩
      have hstop : ∀ start,
        (∀ stop ∈ some item.span.stop, stop ≤ start) → t.previous.stop ≤ start :=
        fun start h => by
          rw [hspan] at h
          exact h _ rfl
      obtain ⟨hown, hothers⟩ := ih hitemRead.next hclean
        (fun _ h => hknown (hclaimed.later h)) (fun _ h => hstands _ (hclaimed.later h)) hstop
      dsimp only
      rw [List.map_cons, attachAfter_cons]
      exact ⟨fun found h => hfound (hclaimed.trailing found h), .cons ⟨s, t, {
        toReadsItem := hitemRead
        leading := fun found h => hfound (hclaimed.leading found h)
        trailing := hown }⟩ hothers⟩

theorem place_reads {tree : Tree} (hparse : parse source = .ok tree) :
    List.Forall₂ (fun item placed => placed.item = item ∧
        ∃ s t, ReadsWith source item placed.attached s t) tree.items
      (place source tree.items tree.comments) := by
  obtain ⟨final, hreads, hclean, hcomments⟩ := exists_readsItems hparse
  refine place_forall₂ (attachAfter_reads (ofSource_fresh source) hreads hclean ?_ ?_ ?_).2
  · rw [hcomments]
    exact fun comment hcomment => List.mem_reverse.mp hcomment
  · exact fun comment hcomment => ((parse_laid hparse).2 comment hcomment).order
  · exact fun start _ => Nat.zero_le start

theorem EndsSolid.append {front back : List Char} (hfront : EndsSolid front)
    (hback : EndsSolid back) : EndsSolid (front ++ back) := by
  intro last hlast
  rw [List.getLast?_append, Option.mem_def, Option.or_eq_some_iff] at hlast
  exact hlast.elim (hback last) fun h => hfront last h.2

namespace ReadsWith

variable {item : Item} {attached : Attached}

/-- Before the text of an item its range has spacing, which starts with a comment. -/
theorem exists_lead (hreads : ReadsWith source item attached s t) :
    ∃ lead, Cursor.Reaches ⟨source, 0⟩
        ⟨lead ++ s.current.start, (rangeWith item.span attached).start⟩ ∧
      Spacing s.current.start lead ∧
      (rangeWith item.span attached).start + byteLength lead = item.span.start ∧
      ∀ c ∈ (lead ++ s.current.start).head?, isBlank c = false := by
  obtain ⟨hmoves, hspan⟩ := hreads.moves
  have hproper := hreads.proper
  unfold rangeWith
  cases hleading : attached.leading with
  | nil =>
      obtain ⟨rest, hplace, hright⟩ := hreads.fresh.right.current
      refine ⟨[], ?_, .nil, rfl, fun c hc => ?_⟩
      · rw [hspan]
        exact hplace.trans hright.start
      · exact Bool.eq_false_iff.mpr fun hblank =>
          absurd (isGap_of_isBlank hblank) (Bool.eq_false_iff.mp (hright.first hproper c hc))
  | cons found others =>
      obtain ⟨comment, hcomment, rfl⟩ := hreads.leading found (by rw [hleading]; simp)
      obtain ⟨origin, first, horigin, hcurrent, -⟩ := hreads.fresh.lexeme
      have hlegacy := hreads.fresh.legacy (hmoves.leads.faulty hreads.clean)
      have hcurrent : s.current = nextLexeme origin first := hcurrent
      have hvalid : ∀ place, (nextLexeme origin first).token ≠ .invalid place := by
        rintro place hinvalid
        rw [hcurrent, hinvalid] at hproper
        contradiction
      obtain ⟨lead, hlead, hspacing, hoffset, hhead⟩ := Script.exists_lead hvalid
        (hcurrent ▸ hlegacy) (hcurrent ▸ hcomment)
      rw [← hcurrent] at hlead hspacing hoffset hhead
      refine ⟨lead, horigin.trans hlead, hspacing, by rw [hspan]; exact hoffset, fun c hc => ?_⟩
      rw [hhead] at hc
      exact Option.some.inj hc ▸ by decide

/-- Behind the text of an item its range has spacing, too.  It ends with a comment, and stays
spacing before the end of a line if the last part of that is cut off. -/
theorem exists_trail (hreads : ReadsWith source item attached s t) {tail : List Char}
    (hnext : t.current = nextLexeme ⟨tail, t.previous.stop⟩ false) :
    ∃ solid loose back, tail = solid ++ (loose ++ back) ∧
      (rangeWith item.span attached).stop = t.previous.stop + byteLength (solid ++ loose) ∧
      EndsSolid solid ∧ ∀ kept, kept <+: loose → ∀ rest, (∀ c ∈ rest.head?, isLineEnd c = true) →
        Spacing rest (solid ++ kept) := by
  obtain ⟨hmoves, hspan⟩ := hreads.moves
  unfold rangeWith
  cases htrailing : attached.trailing with
  | none =>
      refine ⟨[], [], tail, rfl, by rw [hspan]; rfl, nofun, fun kept hkept rest _ => ?_⟩
      rw [List.prefix_nil.mp hkept]
      exact .nil
  | some found =>
      obtain ⟨comment, hcomment, rfl⟩ := hreads.trailing found htrailing
      have hlegacy := hreads.next.legacy hreads.clean
      have hvalid := hreads.valid
      replace hlegacy : t.current.legacyComment = none := hlegacy
      rw [hnext] at hcomment hlegacy hvalid
      obtain ⟨front, body, back, hrest, hfront, hbody, hstop⟩ := Script.exists_trail hvalid hlegacy
        hcomment
      obtain ⟨solid, loose, rfl, hlast, hcut⟩ := hbody.exists_cut
      refine ⟨front ++ solid, loose, back, hrest.trans (by simp), ?_, ?_, ?_⟩
      · simp only [hstop, byteLength_append, Nat.add_assoc]
      · intro c hc
        rw [List.getLast?_append, hlast] at hc
        exact Option.some.inj hc ▸ by decide
      · intro kept hkept rest hend
        have hkeeps := hcut kept hkept rest hend
        rw [List.append_assoc]
        refine .append (hfront.congr ?_) (List.append_nil (solid ++ kept) ▸ .comment hkeeps .nil)
        rw [hbody.head?_append, hkeeps.head?_append]

/-- A statement that has been read with its comments is an excerpt of its source. -/
theorem exists_excerpt {body : Stmt} {span : Span}
    (hreads : ReadsWith source ⟨.statement body, span⟩ attached s t) :
    ∃ e : Excerpt, e.Right source ∧ e.body = body ∧ e.span = span ∧
      slice source span.start span.stop = e.text ∧
      trim (slice source (rangeWith span attached).start (rangeWith span attached).stop) =
        e.lead ++ (e.text ++ e.trail) := by
  obtain ⟨hmoves, hspan⟩ := hreads.moves
  obtain ⟨text, tail, hstart, hstop, hnext, front, last, htext, hlast⟩ := hreads.exists_text
  obtain ⟨lead, hplace, hlead, hoffset, hhead⟩ := hreads.exists_lead
  obtain ⟨solid, loose, back, rfl, hrange, hsolid, htrail⟩ := hreads.exists_trail hnext
  obtain ⟨rest, hfirst, hright⟩ := hreads.fresh.right.current
  have hown := hfirst.trans hright.start
  change Cursor.Reaches _ ⟨s.current.start, s.current.span.start⟩ at hown
  obtain rfl : span = ⟨s.current.span.start, t.previous.stop⟩ := hspan
  dsimp only at hplace hoffset hrange
  generalize rangeWith _ attached = range at hplace hoffset hrange ⊢
  rw [hstart] at hplace hlead hhead hown
  have hne : text ≠ [] := by simp [htext]
  have hends : EndsSolid (lead ++ (text ++ solid)) := by
    have htext : EndsSolid (lead ++ text) := by
      intro c hc
      rw [htext, ← List.append_assoc, List.getLast?_concat] at hc
      exact Option.some.inj hc ▸ hlast
    rw [← List.append_assoc]
    exact htext.append hsolid
  have hslice : slice source range.start range.stop = lead ++ (text ++ solid) ++ loose := by
    have hwhole : lead ++ (text ++ (solid ++ (loose ++ back))) =
        lead ++ (text ++ solid) ++ loose ++ back := by simp
    have hlength : range.start + byteLength (lead ++ (text ++ solid) ++ loose) = range.stop := by
      simp only [hrange, hstop, byteLength_append] at hoffset ⊢
      omega
    exact @slice_of_reaches source ⟨_, range.start⟩ ⟨back, range.stop⟩ _ hplace hwhole hlength
  -- trimming takes nothing at the start, where the range starts with what is attached, and only
  -- white space at the end
  have hsame : (lead ++ (text ++ solid)).head? =
      (lead ++ (text ++ (solid ++ (loose ++ back)))).head? := by
    rw [← List.append_assoc, ← List.append_assoc,
      List.head?_append_of_ne_nil (lead ++ text) (by simp [hne]),
      List.head?_append_of_ne_nil (lead ++ text) (by simp [hne])]
  obtain ⟨kept, htrim, hkept⟩ := trim_append (by simp [hne]) (hsame ▸ hhead) hends loose
  refine ⟨⟨body, _, lead, text, solid ++ kept, solid ++ (loose ++ back)⟩,
    ⟨⟨s, t, Excerpt.reads_of_item hreads.toReadsItem hstart hstop hnext⟩, hlead, htrail kept hkept,
      ?_, ?_⟩, rfl, rfl, ?_, ?_⟩
  · obtain ⟨more, rfl⟩ := hkept
    exact ⟨more ++ back, by simp⟩
  · obtain ⟨before, hsource, -⟩ := hown
    have hlength := congrArg List.length hsource
    simp only [List.length_append] at hlength ⊢
    omega
  · exact @slice_of_reaches source ⟨_, s.current.span.start⟩ ⟨_, t.previous.stop⟩ _ hown rfl
      hstop.symm
  · rw [hslice, htrim]
    simp

end ReadsWith

/-! ## Statements -/

namespace Statement

/-- The text of a statement, without the comments around it. -/
def text (source : List Char) (statement : Statement) : List Char :=
  slice source statement.span.start statement.span.stop

/-- The token that a statement starts with. -/
def opening (source : List Char) (statement : Statement) : Token :=
  (nextLexeme ⟨statement.text source, statement.span.start⟩ true).token

/-- Whether a statement is over before another one that is printed behind it: that one starts with a
token that goes on with no statement, or this one ends with a semicolon or a brace. -/
def EndsBefore (source : List Char) (statement next : Statement) : Prop :=
  (next.opening source).continuesStatement = false ∨ (statement.text source).getLast? = some ';' ∨
    ∃ body, statement.form = .statement body ∧ body.isClosed = true

/-- Whether an item of a text is a statement of a source again: it is read from the same text, and
its tree is the same but for the places. -/
def Reappears (source code : List Char) (statement : Statement) (item : Item) : Prop :=
  ∃ body front back, statement.form = .statement body ∧
    code = front ++ (statement.text source ++ back) ∧
    item = ⟨.statement (body.relocate (Excerpt.moved statement.span.start (byteLength front))),
      ⟨byteLength front, byteLength (front ++ statement.text source)⟩⟩

/-- Whether a statement is an excerpt of its source. -/
structure IsExcerpt (source : List Char) (statement : Statement) (e : Excerpt) : Prop where
  right : e.Right source
  form : statement.form = .statement e.body
  span : statement.span = e.span
  text : statement.text source = e.text
  printed : trim (slice source statement.range.start statement.range.stop) =
    e.lead ++ (e.text ++ e.trail)

variable {statement next : Statement} {e other : Excerpt}

theorem IsExcerpt.opening (hstatement : statement.IsExcerpt source e) :
    statement.opening source = e.opening := by
  rw [Statement.opening, hstatement.text, hstatement.span, Excerpt.opening]

theorem IsExcerpt.endsBefore (hstatement : statement.IsExcerpt source e)
    (hnext : next.IsExcerpt source other) (hends : statement.EndsBefore source next) :
    e.EndsBefore other := by
  refine hends.imp (hnext.opening ▸ ·) (Or.imp (hstatement.text ▸ ·) ?_)
  rintro ⟨body, hform, hclosed⟩
  obtain rfl := ItemForm.statement.inj (hstatement.form.symm.trans hform)
  exact hclosed

theorem IsExcerpt.reappears {code : List Char} {item : Item}
    (hstatement : statement.IsExcerpt source e) (hitem : e.Reappears code item) :
    statement.Reappears source code item := by
  obtain ⟨front, back, hcode, hitem⟩ := hitem
  refine ⟨e.body, front, back, hstatement.form, ?_, ?_⟩
  · rw [hstatement.text, hcode]
  · rw [hstatement.text, hstatement.span, hitem]

variable {statements : List Statement} {es : List Excerpt}

theorem exists_excerpts
    (hstatements : ∀ statement ∈ statements, ∃ e, IsExcerpt source statement e) :
    ∃ es, List.Forall₂ (IsExcerpt source) statements es := by
  induction statements with
  | nil => exact ⟨[], .nil⟩
  | cons first rest ih =>
      obtain ⟨⟨e, hfirst⟩, hrest⟩ := List.forall_mem_cons.mp hstatements
      obtain ⟨es, hes⟩ := ih hrest
      exact ⟨e :: es, .cons hfirst hes⟩

theorem isChain_excerpts (hes : List.Forall₂ (IsExcerpt source) statements es)
    (hends : statements.IsChain (EndsBefore source)) : es.IsChain Excerpt.EndsBefore := by
  induction hes with
  | nil => exact .nil
  | cons hfirst hrest ih =>
      cases hrest with
      | nil => exact .singleton _
      | cons hsecond hrest =>
          obtain ⟨hends, hothers⟩ := List.isChain_cons_cons.mp hends
          exact .cons_cons (hfirst.endsBefore hsecond hends) (ih hothers)

theorem forall₂_reappears {code : List Char} {items : List Item}
    (hes : List.Forall₂ (IsExcerpt source) statements es)
    (hitems : List.Forall₂ (Excerpt.Reappears code) es items) :
    List.Forall₂ (Reappears source code) statements items := by
  induction hes generalizing items with
  | nil =>
      cases hitems
      exact .nil
  | cons hfirst _ ih =>
      cases hitems with
      | cons hitem hitems => exact .cons (hfirst.reappears hitem) (ih hitems)

end Statement

/-- The statements of a script are excerpts of its source. -/
theorem ofTree_excerpts (path : Files.Path) {tree : Tree} (hparse : parse source = .ok tree)
    {statement : Statement} (hstatement : statement ∈ (ofTree path source tree).statements)
    {body : Stmt} (hform : statement.form = .statement body) :
    ∃ e, statement.IsExcerpt source e := by
  obtain ⟨placed, hplaced, hstated⟩ :=
    exists_mem_of_forall₂ (ofTree_placed path source tree) hstatement
  obtain ⟨item, -, rfl, s, t, hreads⟩ := exists_mem_of_forall₂ (place_reads hparse) hplaced
  have hitem : placed.item = ⟨.statement body, statement.span⟩ := by
    rw [hstated.span, ← hform, hstated.form]
  rw [hitem] at hreads
  obtain ⟨e, hright, rfl, hspan, htext, hprinted⟩ := hreads.exists_excerpt
  refine ⟨e, hright, hform, hspan.symm, htext, ?_⟩
  rw [hstated.range, hitem, hprinted]

end Module
end ScriptBundler

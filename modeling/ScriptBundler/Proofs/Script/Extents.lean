import ScriptBundler.Proofs.Script.Modules
import ScriptBundler.Proofs.Script.Scanning

/-!
# Extents of top-level statements

Whatever the parser has read lies in the source, one piece behind the other.  So do the statements
of a module that has been parsed: each of them starts with a character that is not white space, ends
behind one, and comes after the one before it.
-/

namespace ScriptBundler
namespace Script

open Text Std.Do Cursor

set_option mvcgen.warning false

variable {origin cursor : Cursor} {source : List Char}

/-! ## Places of one source -/

/-- Of two places that are read from a third one on, the one that is not behind leads to the
other. -/
theorem Cursor.Reaches.of_le {first second : Cursor} (hfirst : origin.Reaches first)
    (hsecond : origin.Reaches second) (hle : first.offset ≤ second.offset) :
    first.Reaches second := by
  obtain ⟨front, hfront, hoffset⟩ := hfirst
  obtain ⟨more, hmore, hmoreOffset⟩ := hsecond
  rcases List.append_eq_append_iff.mp (hfront.symm.trans hmore) with
    ⟨middle, rfl, hmiddle⟩ | ⟨middle, rfl, hmiddle⟩
  · rw [byteLength_append] at hmoreOffset
    exact ⟨middle, hmiddle, by omega⟩
  · rw [byteLength_append] at hoffset
    cases middle with
    | nil => exact ⟨[], hmiddle.symm, by simp at hoffset ⊢; omega⟩
    | cons c middle =>
        have := byteLength_pos c middle
        omega

theorem Comment.Stands.of_reaches {comment : Comment} (hplace : origin.Reaches cursor)
    (hstands : Comment.Stands cursor comment) : Comment.Stands origin comment := by
  obtain ⟨⟨rest, hstart⟩, ⟨more, hstop⟩, horder⟩ := hstands
  exact ⟨⟨rest, hplace.trans hstart⟩, ⟨more, hplace.trans hstop⟩, horder⟩

theorem ofSource_reaches (source : List Char) :
    Reaches ⟨source, 0⟩ (Cursor.ofSource source) := by
  unfold Cursor.ofSource
  split
  · rename_i rest
    refine ⟨'#' :: '!' :: rest.takeWhile fun c => !isLineEnd c, ?_, ?_⟩
    · simp
    · simp only [byteLength_cons, ← Nat.add_assoc]
      rfl
  · exact .refl _

namespace Parser

open Mark

variable {mark after : Mark}

/-- What is right of a mark of the parser in a source: where text has been read, and the token that
comes next. -/
structure Mark.Right (source : List Char) (mark : Mark) : Prop where
  current : ∃ rest, Reaches ⟨source, 0⟩ ⟨rest, mark.previous.stop⟩ ∧
    mark.current.Right ⟨rest, mark.previous.stop⟩
  comments : ∀ comment ∈ mark.comments, Comment.Stands ⟨source, 0⟩ comment

/-- Text that is read at a mark starts with the current token. -/
theorem Mark.Ends.closes (hends : mark.Ends cursor) (hright : mark.current.Right origin) :
    mark.current.token.isProper = true ∧
      Closes ⟨mark.current.start, mark.current.span.start⟩ cursor := by
  cases hends with
  | token hproper => exact ⟨hproper, hright.scanned.closes hproper⟩
  | template hquote hscan =>
      have hproper : mark.current.token.isProper = true := by
        rcases hquote with h | h <;> rw [h] <;> rfl
      refine ⟨hproper, (hright.scanned.closes hproper).reaches.closes ?_⟩
      exact scanTemplate_closes _ _ _ (.refl _) hscan
  | regExp hslash hscan =>
      have hspelled : ∃ rest, mark.current.start = '/' :: rest := by
        rcases hslash with h | h
        · exact ⟨_, hright.scanned.spelled h⟩
        · exact ⟨_, hright.scanned.spelled h⟩
      obtain ⟨rest, hrest⟩ := hspelled
      rw [hrest] at hscan ⊢
      refine ⟨by rcases hslash with h | h <;> rw [h] <;> rfl, ?_⟩
      exact (reaches_next '/' rest _).closes (scanRegExp_closes (.refl _) hscan)

/-- Whether text has been read between two marks: from the token of the first one on, up to where
the second one is. -/
def Mark.Reads (mark after : Mark) : Prop :=
  mark.current.token.isProper = true ∧
    ∃ rest, Closes ⟨mark.current.start, mark.current.span.start⟩ ⟨rest, after.previous.stop⟩ ∧
      after.current = nextLexeme ⟨rest, after.previous.stop⟩ false

/-- Whether text has been read between two marks, or they are at the same place. -/
def Mark.Covers (mark after : Mark) : Prop :=
  (after.current = mark.current ∧ after.previous = mark.previous) ∨ mark.Reads after

theorem Mark.Right.resumed (hright : mark.Right source) (start : Nat) (hends : mark.Ends cursor) :
    (mark.resumed start cursor).Right source := by
  obtain ⟨⟨rest, hplace, hcurrent⟩, hcomments⟩ := hright
  have hcursor : Reaches ⟨source, 0⟩ cursor :=
    hplace.trans (hcurrent.start.closes (hends.closes hcurrent).2).reaches
  have hnext := nextLexeme_right cursor false
  refine ⟨⟨cursor.rest, hcursor, hnext⟩, fun comment hcomment => ?_⟩
  rcases List.mem_append.mp hcomment with hnew | hold
  · exact .of_reaches hcursor (hnext.comments comment (List.mem_reverse.mp hnew))
  · exact hcomments comment hold

theorem Mark.Covers.resumed {middle : Mark} (hcovers : mark.Covers middle)
    (hmiddle : middle.Right source) (start : Nat) (hends : middle.Ends cursor) :
    mark.Reads (middle.resumed start cursor) := by
  obtain ⟨place, -, hlexeme⟩ := hmiddle.current
  obtain ⟨hproper, hends⟩ := hends.closes hlexeme
  rcases hcovers with ⟨hcurrent, -⟩ | ⟨hfirst, rest, hcloses, hnext⟩
  · rw [hcurrent] at hproper hends
    exact ⟨hproper, cursor.rest, hends, rfl⟩
  · have hstart := (hnext ▸ nextLexeme_right _ _ : middle.current.Right _).start
    exact ⟨hfirst, cursor.rest, (hcloses.reaches.trans hstart).closes hends, rfl⟩

theorem Mark.Leads.covers (hleads : Leads mark after) (hright : mark.Right source) :
    after.Right source ∧ mark.Covers after := by
  induction hleads with
  | refl => exact ⟨hright, Or.inl ⟨rfl, rfl⟩⟩
  | tail _ hstep ih =>
      obtain ⟨hmiddle, hcovers⟩ := ih
      cases hstep with
      | complain => exact ⟨⟨hmiddle.current, hmiddle.comments⟩, hcovers⟩
      | move start hends =>
          exact ⟨hmiddle.resumed start hends, Or.inr (hcovers.resumed hmiddle start hends)⟩

theorem Mark.Moves.reads (hmoves : Moves mark after) (hright : mark.Right source) :
    after.Right source ∧ mark.Reads after := by
  obtain ⟨middle, start, cursor, hfirst, hends, hlast⟩ := hmoves
  obtain ⟨hmiddle, hcovers⟩ := hfirst.covers hright
  have hreads := hcovers.resumed hmiddle start hends
  -- what is read after that does not undo it
  obtain ⟨hafter, hmore⟩ := hlast.covers (hmiddle.resumed start hends)
  refine ⟨hafter, ?_⟩
  rcases hmore with ⟨hcurrent, hprevious⟩ | ⟨-, rest, hcloses, hlexeme⟩
  · unfold Reads
    rw [hcurrent, hprevious]
    exact hreads
  · obtain ⟨hproper, place, hfront, hnext⟩ := hreads
    have hstart :=
      (nextLexeme_right ⟨place, (middle.resumed start cursor).previous.stop⟩ false).start
    rw [← hnext] at hstart
    exact ⟨hproper, rest, (hfront.reaches.trans hstart).closes hcloses, hlexeme⟩

/-! ## Statements -/

theorem ofSource_current (source : List Char) :
    (State.ofSource source).current.Right ⟨source, 0⟩ := by
  have hplace := ofSource_reaches source
  have hfirst := nextLexeme_right (Cursor.ofSource source) true
  exact ⟨hplace.trans hfirst.start, hfirst.scanned, hfirst.first,
    fun comment hcomment => .of_reaches hplace (hfirst.comments comment hcomment)⟩

theorem ofSource_right (source : List Char) : (State.ofSource source).mark.Right source :=
  ⟨⟨source, .refl _, ofSource_current source⟩, fun comment hcomment =>
    (ofSource_current source).comments comment (List.mem_reverse.mp hcomment)⟩

end Parser

/-- Whether statements are read one after the other from a place on, each from a character that is
not white space to another one. -/
def Laid (origin : Cursor) : List Item → Prop
  | [] => True
  | item :: rest =>
    ∃ c front back, origin.Reaches ⟨c :: front, item.span.start⟩ ∧ isBlank c = false ∧
      Closes ⟨c :: front, item.span.start⟩ ⟨back, item.span.stop⟩ ∧
      Laid ⟨back, item.span.stop⟩ rest

/-- Each of them is a stretch of its own. -/
theorem Laid.mem {origin : Cursor} {items : List Item} (hlaid : Laid origin items)
    {item : Item} (hitem : item ∈ items) :
    ∃ c front back, origin.Reaches ⟨c :: front, item.span.start⟩ ∧ isBlank c = false ∧
      Cursor.Closes ⟨c :: front, item.span.start⟩ ⟨back, item.span.stop⟩ := by
  induction items generalizing origin with
  | nil => contradiction
  | cons first rest ih =>
      obtain ⟨c, front, back, hstart, hsolid, hcloses, hrest⟩ := hlaid
      rcases List.mem_cons.mp hitem with rfl | hmem
      · exact ⟨c, front, back, hstart, hsolid, hcloses⟩
      · obtain ⟨d, text, later, hplace, hfirst⟩ := ih hrest hmem
        exact ⟨d, text, later, (hstart.closes hcloses).reaches.trans hplace, hfirst⟩

namespace Parser

open Mark

/-- A statement that is read at a place, before others that are read behind it. -/
theorem laid_cons {mark after : Mark} {item : Item} {rest : List Item}
    (hright : mark.Right source) (hmoves : Moves mark after)
    (hspan : item.span = ⟨mark.current.span.start, after.previous.stop⟩)
    (hcurrent : mark.current.Right origin)
    (hrest : ∀ text, after.current.Right ⟨text, after.previous.stop⟩ →
      Laid ⟨text, after.previous.stop⟩ rest) : Laid origin (item :: rest) := by
  obtain ⟨-, hproper, back, hcloses, hnext⟩ := hmoves.reads hright
  obtain ⟨front, last, -, hfront, -⟩ := id hcloses
  obtain ⟨c, more, hstart⟩ : ∃ c more, mark.current.start = c :: more := by
    dsimp only at hfront
    rw [hfront]
    cases front <;> exact ⟨_, _, rfl⟩
  have hgap := hcurrent.first hproper c (by rw [hstart]; rfl)
  rw [hstart] at hcloses
  refine ⟨c, more, back, ?_, ?_, ?_, ?_⟩
  · rw [hspan, ← hstart]
    exact hcurrent.start
  · exact Bool.eq_false_iff.mpr fun hblank => by simp [isGap_of_isBlank hblank] at hgap
  · rw [hspan]
    exact hcloses
  · rw [hspan]
    exact hrest back (hnext ▸ nextLexeme_right _ _)

theorem loop_laid {g : Grammar} (hg : g.Advancing) (rounds : Nat) (s : State)
    (hright : s.mark.Right source) :
    ⦃fun _ state => ⌜state = s⌝⦄ repeatUntil.loop atEnd (moduleItem g) rounds
    ⦃⇓? items _ state => ⌜(∀ text, s.current.Right ⟨text, s.previous.stop⟩ →
      Laid ⟨text, s.previous.stop⟩ items) ∧ state.mark.Right source⌝⦄ := by
  induction rounds generalizing s with
  | zero =>
      mvcgen [repeatUntil.loop]
      grind
  | succ rounds ih =>
      rw [loop_succ]
      mvcgen [round, ih]
      case vc1.succ.post.success.isTrue =>
        rename_i hsame _ _ _ _ hread
        rw [hread.2, hsame]
        exact ⟨fun _ _ => trivial, hright⟩
      case vc3.hright =>
        rename_i hsame _ _ _ _ hread _ _ _ hitem
        rw [hread.2, hsame] at hitem
        exact (hitem.1.reads hright).1
      case vc4.succ.post.success.isFalse.post.success.post.success =>
        rename_i hsame _ _ _ _ hread _ _ _ hitem _ _ _ hrest
        rw [hread.2, hsame] at hitem
        exact ⟨fun text hcurrent => laid_cons hright hitem.1 hitem.2 hcurrent hrest.1, hrest.2⟩

end Parser

/-- The statements of a module that has been parsed are laid out in its source, and so are its
comments. -/
theorem parse_laid {tree : Tree} (hparse : parse source = .ok tree) :
    Laid ⟨source, 0⟩ tree.items ∧ ∀ comment ∈ tree.comments,
      Comment.Stands ⟨source, 0⟩ comment := by
  unfold parse at hparse
  dsimp only at hparse
  split at hparse
  · contradiction
  · rename_i items state hrun
    split at hparse
    · contradiction
    · obtain rfl := Except.ok.inj hparse
      have hright := Parser.ofSource_right source
      have hlaid := Parser.of_triple (Parser.loop_laid (Parser.grammarOfDepth_advancing _)
        (source.length + 2) (.ofSource source) hright) hrun
      obtain ⟨hitems, hafter⟩ := hlaid
      exact ⟨hitems source (Parser.ofSource_current source),
        fun comment hcomment => hafter.comments comment (List.mem_reverse.mp hcomment)⟩

end Script
end ScriptBundler

import ScriptBundler.Proofs.Script.Lexemes
import ScriptBundler.Proofs.Script.Literals

/-!
# Spacing

White space and comments between two tokens are spacing.  What a gap skips is spacing, wherever it
stands: only the character behind it matters, and that only to a comment up to the end of its line.
-/

namespace ScriptBundler
namespace Script

open Text

/-- Whether a text before another one is a comment: up to the end of a line, or up to a mark that
closes it. -/
inductive IsComment (rest : List Char) : List Char → Prop where
  | line (content : List Char) (hcontent : ∀ c ∈ content, isLineEnd c = false)
      (hrest : ∀ c ∈ rest.head?, isLineEnd c = true) : IsComment rest ('/' :: '/' :: content)
  | block (content : List Char) (hcontent : ¬['*', '/'] <:+: content) :
      IsComment rest ('/' :: '*' :: (content ++ ['*', '/']))

/-- Whether a text before another one is white space and comments. -/
inductive Spacing (rest : List Char) : List Char → Prop where
  | nil : Spacing rest []
  | blank {gap : List Char} (c : Char) (hblank : isGap c = true) (hgap : Spacing rest gap) :
      Spacing rest (c :: gap)
  | comment {gap body : List Char} (hbody : IsComment (gap ++ rest) body)
      (hgap : Spacing rest gap) :
      Spacing rest (body ++ gap)

variable {rest other gap back body text : List Char}

theorem isGap_of_isLineEnd {c : Char} (hend : isLineEnd c = true) : isGap c = true := by
  refine isGap_of_isBlank ?_
  simp only [isLineEnd, isBlank, Bool.or_eq_true, Bool.and_eq_true, beq_iff_eq,
    decide_eq_true_eq] at hend ⊢
  omega

/-! ## Spacing before other texts -/

theorem IsComment.congr (hsame : rest.head? = other.head?) (hbody : IsComment rest body) :
    IsComment other body := by
  cases hbody with
  | line content hcontent hrest => exact .line content hcontent (hsame ▸ hrest)
  | block content hcontent => exact .block content hcontent

theorem IsComment.ne_nil (hbody : IsComment rest body) : body ≠ [] := by
  cases hbody <;> exact List.cons_ne_nil _ _

theorem IsComment.head?_append (hbody : IsComment rest body) (other : List Char) :
    (body ++ other).head? = some '/' := by
  cases hbody <;> rfl

/-- Before the end of a line, a comment stays one if the end of its text is cut off, unless it has a
mark that closes it. -/
theorem IsComment.exists_cut (hbody : IsComment rest body) :
    ∃ solid loose, body = solid ++ loose ∧ solid.getLast? = some '/' ∧
      ∀ kept, kept <+: loose → ∀ other, (∀ c ∈ other.head?, isLineEnd c = true) →
        IsComment other (solid ++ kept) := by
  cases hbody with
  | line content hcontent _ =>
      refine ⟨['/', '/'], content, rfl, rfl, fun kept hkept other hother => ?_⟩
      exact .line kept (fun c hc => hcontent c (hkept.subset hc)) hother
  | block content hcontent =>
      refine ⟨'/' :: '*' :: (content ++ ['*', '/']), [], by simp, ?_, fun kept hkept other _ => ?_⟩
      · have hlast : '/' :: '*' :: (content ++ ['*', '/']) =
            ('/' :: '*' :: (content ++ ['*'])) ++ ['/'] := by simp
        rw [hlast, List.getLast?_concat]
      · rw [List.prefix_nil.mp hkept, List.append_nil]
        exact .block content hcontent

/-- Of the text behind a spacing only the first character matters. -/
theorem Spacing.congr (hsame : rest.head? = other.head?) (hgap : Spacing rest gap) :
    Spacing other gap := by
  induction hgap with
  | nil => exact .nil
  | blank c hblank _ ih => exact .blank c hblank ih
  | comment hbody _ ih =>
      refine .comment (hbody.congr ?_) ih
      rw [List.head?_append, List.head?_append, hsame]

theorem Spacing.append (hgap : Spacing (back ++ rest) gap) (hback : Spacing rest back) :
    Spacing rest (gap ++ back) := by
  induction hgap with
  | nil => exact hback
  | blank c hblank _ ih => exact .blank c hblank ih
  | comment hbody _ ih =>
      rw [List.append_assoc]
      exact .comment (by rwa [List.append_assoc]) ih

theorem Spacing.head (hgap : Spacing rest gap) : ∀ c ∈ gap.head?, isGap c = true ∨ c = '/' := by
  intro c hc
  cases hgap with
  | nil => contradiction
  | blank d hblank _ => exact Or.inl (Option.some.inj hc ▸ hblank)
  | comment hbody _ =>
      refine Or.inr ?_
      cases hbody <;> exact (Option.some.inj hc).symm

theorem spacing_replicate (rest : List Char) (count : Nat) :
    Spacing rest (List.replicate count '\n') := by
  induction count with
  | zero => exact .nil
  | succ count ih => exact .blank '\n' (by decide) ih

/-! ## What a gap skips -/

theorem skipGap_line {content : List Char} (hcontent : ∀ c ∈ content, isLineEnd c = false)
    (hrest : ∀ c ∈ rest.head?, isLineEnd c = true) (start offset : Nat) (newline : Bool)
    (comments : List Comment) (legacy : Option Nat) :
    skipGap (.line start false) (content ++ rest) offset newline comments legacy =
      skipGap .between rest (offset + byteLength content) newline
        (⟨false, ⟨start, offset + byteLength content⟩⟩ :: comments) legacy := by
  induction content generalizing offset with
  | nil =>
      rw [List.nil_append, byteLength_nil, Nat.add_zero]
      cases rest with
      | nil =>
          rw [skipGap.eq_def, skipGap.eq_def]
          rfl
      | cons c rest =>
          have hend := hrest c rfl
          rw [skipGap_of_isGap (isGap_of_isLineEnd hend), skipGap.eq_def]
          simp [hend]
  | cons c content ih =>
      obtain ⟨hfirst, hcontent⟩ := List.forall_mem_cons.mp hcontent
      rw [List.cons_append, skipGap.eq_def]
      simp only [hfirst, Bool.false_eq_true, if_false]
      rw [ih hcontent, byteLength_cons, Nat.add_assoc]

theorem skipGap_block {content : List Char} (hcontent : ¬['*', '/'] <:+: content)
    (start offset : Nat) (newline : Bool) (comments : List Comment) (legacy : Option Nat) :
    skipGap (.block start) (content ++ '*' :: '/' :: rest) offset newline comments legacy =
      skipGap .between rest (offset + byteLength content + 2) (newline || content.any isLineEnd)
        (⟨true, ⟨start, offset + byteLength content + 2⟩⟩ :: comments) legacy := by
  induction content generalizing offset newline with
  | nil =>
      rw [List.nil_append, byteLength_nil, Nat.add_zero, skipGap.eq_def]
      simp
  | cons c content ih =>
      have hrest : ¬['*', '/'] <:+: content :=
        fun h => hcontent (h.trans (List.suffix_cons c content).isInfix)
      -- no star of the content closes the comment, for its first star and slash are the ones
      -- behind it
      have hopen : ∀ more, c = '*' → content ++ '*' :: '/' :: rest ≠ '/' :: more := by
        rintro more rfl heq
        cases content with
        | nil => exact absurd (List.cons.inj heq).1 (by decide)
        | cons d content =>
            obtain rfl := (List.cons.inj heq).1
            exact hcontent (List.prefix_append ['*', '/'] content).isInfix
      rw [List.cons_append, skipGap.eq_def]
      have hnext := ih hrest (offset + c.utf8Size) (newline || isLineEnd c)
      rw [byteLength_cons, ← Nat.add_assoc, List.any_cons, ← Bool.or_assoc, ← hnext]
      split <;> simp_all

/-- A comment that is skipped. -/
theorem IsComment.skipGap (hbody : IsComment rest body) (offset : Nat) (newline : Bool)
    (comments : List Comment) : ∃ newline' block,
      skipGap .between (body ++ rest) offset newline comments none =
        skipGap .between rest (offset + byteLength body) newline'
          (⟨block, ⟨offset, offset + byteLength body⟩⟩ :: comments) none := by
  cases hbody with
  | line content hcontent hrest =>
      refine ⟨newline, false, ?_⟩
      rw [List.cons_append, List.cons_append, skipGap.eq_def]
      have hlength : byteLength ('/' :: '/' :: content) = 2 + byteLength content := by
        rw [byteLength_cons, byteLength_cons, ← Nat.add_assoc]
        rfl
      rw [hlength, ← Nat.add_assoc]
      exact skipGap_line hcontent hrest _ _ _ _ _
  | block content hcontent =>
      refine ⟨newline || content.any isLineEnd, true, ?_⟩
      have hlength : byteLength ('/' :: '*' :: (content ++ ['*', '/'])) =
          2 + byteLength content + 2 := by
        rw [byteLength_cons, byteLength_cons, byteLength_append, ← Nat.add_assoc, ← Nat.add_assoc]
        rfl
      rw [hlength, ← Nat.add_assoc, ← Nat.add_assoc, List.cons_append, List.cons_append,
        List.append_assoc, skipGap.eq_def]
      exact skipGap_block hcontent _ _ _ _ _

/-- Spacing is skipped before whatever it stands. -/
theorem Spacing.skipGap (hgap : Spacing rest gap) (offset : Nat) (newline : Bool)
    (comments : List Comment) : ∃ newline' found,
      skipGap .between (gap ++ rest) offset newline comments none =
        skipGap .between rest (offset + byteLength gap) newline' found none := by
  induction hgap generalizing offset newline comments with
  | nil => exact ⟨newline, comments, rfl⟩
  | blank c hblank _ ih =>
      obtain ⟨newline', found, hskip⟩ := ih (offset + c.utf8Size) (newline || isLineEnd c) comments
      refine ⟨newline', found, ?_⟩
      rw [List.cons_append, skipGap_of_isGap hblank, hskip, byteLength_cons, Nat.add_assoc]
  | @comment gap body hbody _ ih =>
      obtain ⟨between, block, hfirst⟩ := hbody.skipGap offset newline comments
      obtain ⟨newline', found, hskip⟩ := ih (offset + byteLength body) between
        (⟨block, ⟨offset, offset + byteLength body⟩⟩ :: comments)
      refine ⟨newline', found, ?_⟩
      rw [List.append_assoc, hfirst, hskip, byteLength_append, Nat.add_assoc]

/-- A block comment that is skipped to its end has one. -/
theorem exists_block (text : List Char) (start offset : Nat) (newline : Bool)
    (comments : List Comment) (legacy : Option Nat)
    (hclosed : (skipGap (.block start) text offset newline comments legacy).unclosed = none) :
    ∃ content rest, text = content ++ '*' :: '/' :: rest ∧ ¬['*', '/'] <:+: content := by
  induction text generalizing offset newline with
  | nil =>
      rw [skipGap.eq_def] at hclosed
      contradiction
  | cons c text ih =>
      by_cases hend : ['*', '/'] <+: c :: text
      · obtain ⟨more, hmore⟩ := hend
        exact ⟨[], more, hmore.symm, by simp⟩
      have hopen : ∀ more, c = '*' → text ≠ '/' :: more := by
        rintro more rfl rfl
        exact hend (List.prefix_append ['*', '/'] more)
      have hnext : skipGap (.block start) (c :: text) offset newline comments legacy =
          skipGap (.block start) text (offset + c.utf8Size)
            (newline || isLineEnd c) comments legacy := by
        rw [skipGap.eq_def]
        split <;> simp_all
      rw [hnext] at hclosed
      obtain ⟨content, rest, rfl, hcontent⟩ := ih _ _ hclosed
      refine ⟨c :: content, rest, rfl, fun hinner => ?_⟩
      rcases List.infix_cons_iff.mp hinner with ⟨more, hmore⟩ | hinner
      · refine hend ⟨more ++ '*' :: '/' :: rest, ?_⟩
        rw [← List.cons_append, ← hmore, List.append_assoc]
      · exact hcontent hinner

/-- How a gap starts that is skipped: nothing is left of it, or it starts with white space or with a
comment. -/
theorem skipGap_cases {offset : Nat} {newline : Bool} {comments : List Comment} {skipped : Skipped}
    (hskip : skipGap .between text offset newline comments none = skipped)
    (hclosed : skipped.unclosed = none) (hlegacy : skipped.legacyComment = none) :
    skipped.cursor = ⟨text, offset⟩ ∧ skipped.comments = comments ∨
    (∃ c rest, text = c :: rest ∧ isGap c = true ∧
      skipGap .between rest (offset + c.utf8Size) (newline || isLineEnd c) comments none =
        skipped) ∨
    ∃ body rest newline' block, text = body ++ rest ∧ IsComment rest body ∧
      skipGap .between rest (offset + byteLength body) newline'
        (⟨block, ⟨offset, offset + byteLength body⟩⟩ :: comments) none = skipped := by
  have hcomment : ∀ body rest, text = body ++ rest → IsComment rest body →
      ∃ body rest newline' block, text = body ++ rest ∧ IsComment rest body ∧
        skipGap .between rest (offset + byteLength body) newline'
          (⟨block, ⟨offset, offset + byteLength body⟩⟩ :: comments) none = skipped := by
    rintro body rest rfl hbody
    obtain ⟨newline', block, hnext⟩ := hbody.skipGap offset newline comments
    exact ⟨body, rest, newline', block, rfl, hbody, hnext.symm.trans hskip⟩
  rw [skipGap.eq_def] at hskip
  split at hskip
  · rename_i rest _
    refine Or.inr (Or.inr (hcomment ('/' :: '/' :: rest.takeWhile (!isLineEnd ·))
      (rest.dropWhile (!isLineEnd ·)) (by simp) (.line _ (fun c hc => ?_) fun c hc => ?_)))
    · simpa using List.mem_takeWhile_imp hc
    · have hnot := List.head?_dropWhile_not (!isLineEnd ·) rest
      rw [Option.mem_def.mp hc] at hnot
      simpa using hnot
  · obtain ⟨content, rest, rfl, hcontent⟩ := exists_block _ _ _ _ _ _ (hskip ▸ hclosed)
    exact Or.inr (Or.inr (hcomment _ rest (by simp) (.block content hcontent)))
  · exact absurd (legacy_eq_none _ _ _ _ _ _ hskip hlegacy) (by simp)
  · split at hskip
    · exact absurd (legacy_eq_none _ _ _ _ _ _ hskip hlegacy) (by simp)
    · obtain rfl := hskip
      exact Or.inl ⟨rfl, rfl⟩
  · rename_i c rest _ _ _ _ _
    split at hskip
    · rename_i hgap
      exact Or.inr (Or.inl ⟨c, rest, rfl, hgap, hskip⟩)
    · obtain rfl := hskip
      exact Or.inl ⟨rfl, rfl⟩
  all_goals first
    | contradiction
    | (obtain rfl := hskip; exact Or.inl ⟨rfl, rfl⟩)

/-- What a gap skips is spacing. -/
theorem exists_spacing {offset : Nat} {newline : Bool} {comments : List Comment} {skipped : Skipped}
    (hskip : skipGap .between text offset newline comments none = skipped)
    (hclosed : skipped.unclosed = none) (hlegacy : skipped.legacyComment = none) :
    ∃ gap, text = gap ++ skipped.cursor.rest ∧ Spacing skipped.cursor.rest gap ∧
      offset + byteLength gap = skipped.cursor.offset := by
  -- a comment takes several characters at once, so the induction is on the length of the text
  induction hlength : text.length using Nat.strong_induction_on
    generalizing text offset newline comments with
  | _ length ih =>
    rcases skipGap_cases hskip hclosed hlegacy with ⟨hcursor, -⟩ | ⟨c, rest, rfl, hblank, hrest⟩ |
      ⟨body, rest, newline', block, rfl, hbody, hrest⟩
    · exact ⟨[], by rw [hcursor]; rfl, .nil, by rw [hcursor]; rfl⟩
    · obtain ⟨gap, hgap, hspacing, hoffset⟩ := ih _ (by simp [← hlength]) hrest rfl
      refine ⟨c :: gap, by rw [List.cons_append, ← hgap], .blank c hblank hspacing, ?_⟩
      rw [byteLength_cons, ← Nat.add_assoc, hoffset]
    · have hpos := List.length_pos_iff.mpr hbody.ne_nil
      obtain ⟨gap, hgap, hspacing, hoffset⟩ := ih _ (by
        rw [List.length_append] at hlength
        omega) hrest rfl
      refine ⟨body ++ gap, by rw [List.append_assoc, ← hgap], .comment (hgap ▸ hbody) hspacing, ?_⟩
      rw [byteLength_append, ← Nat.add_assoc, hoffset]

/-- A comment that is found in a gap stands behind spacing, and the gap goes on from there. -/
theorem exists_comment {offset : Nat} {newline : Bool} {comments : List Comment} {skipped : Skipped}
    (hskip : skipGap .between text offset newline comments none = skipped)
    (hclosed : skipped.unclosed = none) (hlegacy : skipped.legacyComment = none)
    {comment : Comment} (hcomment : comment ∈ skipped.comments) :
    comment ∈ comments ∨ ∃ front body back newline' found, text = front ++ (body ++ back) ∧
      Spacing (body ++ back) front ∧ IsComment back body ∧
      comment.span = ⟨offset + byteLength front, offset + byteLength front + byteLength body⟩ ∧
      skipGap .between (body ++ back) (offset + byteLength front) newline' found none =
        skipped := by
  induction hlength : text.length using Nat.strong_induction_on
    generalizing text offset newline comments with
  | _ length ih =>
    rcases skipGap_cases hskip hclosed hlegacy with ⟨-, hsame⟩ | ⟨c, rest, rfl, hblank, hrest⟩ |
      ⟨body, rest, newline', block, rfl, hbody, hrest⟩
    · exact Or.inl (hsame ▸ hcomment)
    · refine (ih _ (by simp [← hlength]) hrest rfl).imp_right ?_
      rintro ⟨front, body, back, newline', found, rfl, hspacing, hbody, hspan, hnext⟩
      refine ⟨c :: front, body, back, newline', found, rfl, .blank c hblank hspacing, hbody, ?_⟩
      rw [byteLength_cons, ← Nat.add_assoc]
      exact ⟨hspan, hnext⟩
    · have hpos := List.length_pos_iff.mpr hbody.ne_nil
      rcases ih _ (by
        rw [List.length_append] at hlength
        omega) hrest rfl with hfound | ⟨front, inner, back, newline'', found, rfl, hspacing, hinner,
        hspan, hnext⟩
      · rcases List.mem_cons.mp hfound with rfl | hold
        · exact Or.inr ⟨[], body, rest, newline, comments, rfl, .nil, hbody, rfl, hskip⟩
        · exact Or.inl hold
      · refine Or.inr ⟨body ++ front, inner, back, newline'', found, by rw [List.append_assoc],
          .comment hbody hspacing, hinner, ?_⟩
        rw [byteLength_append, ← Nat.add_assoc]
        exact ⟨hspan, hnext⟩

/-! ## Tokens behind other spacing -/

/-- What a gap leads to starts with no white space and no comment. -/
theorem not_opensComment_skipGap {c : Char} (gap : Gap) (text : List Char) (offset : Nat)
    (newline : Bool) (comments : List Comment) (legacy : Option Nat)
    (hrest : (skipGap gap text offset newline comments legacy).cursor.rest = c :: back) :
    isGap c = false ∧
      ¬OpensComment (skipGap gap text offset newline comments legacy).newline (c :: back) := by
  fun_induction skipGap gap text offset newline comments legacy with
  | case5 offset newline comments legacy rest hline =>
      obtain ⟨rfl, rfl⟩ := List.cons.inj hrest
      exact ⟨by decide, by simp [OpensComment, hline]⟩
  | case7 offset newline comments legacy d rest h1 h2 h3 h4 hgap =>
      obtain ⟨rfl, rfl⟩ := List.cons.inj hrest
      refine ⟨by simpa using hgap, ?_⟩
      rintro (⟨more, hmore⟩ | ⟨more, hmore⟩ | ⟨more, hmore⟩ | ⟨-, more, hmore⟩) <;>
        obtain ⟨hfirst, hnext⟩ := List.cons.inj hmore
      · exact h1 more hfirst.symm hnext.symm
      · exact h2 more hfirst.symm hnext.symm
      · exact h3 more hfirst.symm hnext.symm
      · exact h4 more hfirst.symm hnext.symm
  | case12 | case13 | case14 => contradiction
  | _ => simp_all

/-- A token is read again behind other spacing, unless it is taken to end a comment there. -/
theorem nextLexeme_behind {lexeme : Lexeme} {origin : Cursor} {first : Bool}
    (hnext : nextLexeme origin first = lexeme) (hproper : lexeme.token.isProper = true)
    (harrow : ¬['-', '-', '>'] <+: lexeme.start) :
    ∃ word, word ≠ [] ∧ lexeme.start = word ++ lexeme.rest ∧
      lexeme.span.stop = lexeme.span.start + byteLength word ∧
      ∀ {other gap : List Char} (place : Nat) (first : Bool), Replaces lexeme.rest other →
        KeepsPoint lexeme.token lexeme.rest other → Spacing (word ++ other) gap →
        ∃ newline comments, nextLexeme ⟨gap ++ (word ++ other), place⟩ first =
          { token := lexeme.token
            span := ⟨place + byteLength gap, place + byteLength gap + byteLength word⟩
            afterNewline := newline, start := word ++ other, rest := other
            comments, legacyComment := none } := by
  obtain ⟨start, comments, c, inner, hskip, hstart, hspan, hagain⟩ := exists_reread hnext hproper
  have hopens := not_opensComment_skipGap .between origin.rest origin.offset first [] none
    (by rw [hskip]; rfl)
  rw [hskip] at hopens
  refine ⟨c :: inner, List.cons_ne_nil c inner, hstart, by rw [hspan], ?_⟩
  intro other gap place first hother hpoint hgap
  -- `-->` is a comment only at the start of a line, where the token may not have stood before
  have hsolid : ∀ newline, ¬OpensComment newline (c :: (inner ++ other)) := by
    intro newline hopen
    rcases (hother.append inner).opensComment hopen with h | h | h | ⟨-, h⟩
    · exact hopens.2 (Or.inl h)
    · exact hopens.2 (Or.inr (Or.inl h))
    · exact hopens.2 (Or.inr (Or.inr (Or.inl h)))
    · exact harrow (hstart ▸ h)
  obtain ⟨line, others, hskips⟩ := hgap.skipGap place first []
  have hstop :=
    skipGap_of_not_opensComment hopens.1 (hsolid line) (place + byteLength gap) others none
  exact ⟨line, others.reverse, hagain hother hpoint (hskips.trans hstop)⟩

/-- Behind spacing and a line end comes a token on a line of its own. -/
theorem afterNewline_behind {trail : List Char} (htrail : Spacing ('\n' :: text) trail)
    (place : Nat) (first : Bool) :
    (nextLexeme ⟨trail ++ '\n' :: text, place⟩ first).afterNewline = true := by
  obtain ⟨newline, found, hskip⟩ := htrail.skipGap place first []
  rw [skipGap_of_isGap (by decide), show isLineEnd '\n' = true by decide, Bool.or_true] at hskip
  change (skipGap .between (trail ++ '\n' :: text) place first [] none).newline = true
  rw [hskip]
  exact newline_skipGap _ _ _ _ _

/-- Behind spacing at the end of a source there is no other token. -/
theorem nextLexeme_finish (hgap : Spacing [] gap) (place : Nat) (first : Bool) :
    (nextLexeme ⟨gap, place⟩ first).token = .finish ∧
      (nextLexeme ⟨gap, place⟩ first).legacyComment = none := by
  obtain ⟨newline, found, hskip⟩ := hgap.skipGap place first []
  have hend : skipGap .between [] (place + byteLength gap) newline found none =
      ⟨⟨[], place + byteLength gap⟩, newline, found, none, none⟩ := by
    rw [skipGap.eq_def]
  rw [List.append_nil, hend] at hskip
  have hscan : scanToken [] (place + byteLength gap) = (.finish, ⟨[], place + byteLength gap⟩) :=
    rfl
  rw [nextLexeme_of_scanToken ⟨gap, place⟩ hskip hscan (fun _ h => by simp at h)]
  exact ⟨rfl, rfl⟩

end Script
end ScriptBundler

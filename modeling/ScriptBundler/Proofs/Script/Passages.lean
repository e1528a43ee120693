import ScriptBundler.Proofs.Script.Endings
import ScriptBundler.Proofs.Script.Openings
import ScriptBundler.Proofs.Script.Relocation

/-!
# Text that stands in two sources

A passage is a text that stands in two sources, with other text before and behind it.  Two parsers
that read it are abreast as long as they are at the same token of the text, or both at its end.
What the first parser does is known: it ends the text with a token and notes no fault.  So it is
lost as soon as it cannot end the text anymore, because it reads a token across the end, say.

Reading on from the same place of the text, the parsers stay abreast, or the first one is lost.
-/

namespace ScriptBundler
namespace Script

open Text

namespace Parser

open Mark Cursor

/-! ## Places that a parser gets to -/

/-- Whether a mark is where text has been read, and the next token is what follows it. -/
def Mark.Placed (mark : Mark) : Prop :=
  ∃ rest, mark.current.Right ⟨rest, mark.previous.stop⟩

variable {mark after : Mark} {origin cursor : Cursor}

/-- The current token is read whole. -/
theorem Mark.Ends.stop_le (hends : mark.Ends cursor) (hright : mark.current.Right origin) :
    mark.current.span.stop ≤ cursor.offset := by
  cases hends with
  | token => exact le_rfl
  | template _ hscan => exact (scanTemplate_closes _ _ _ (.refl _) hscan).lt.le
  | regExp hslash hscan =>
      have hlater := (scanRegExp_closes (.refl _) hscan).lt
      have hproper : mark.current.token.isProper = true := by
        rcases hslash with h | h <;> rw [h] <;> rfl
      obtain ⟨front, hfront, hoffset⟩ := (hright.scanned.closes hproper).reaches
      dsimp only at hlater hfront hoffset
      -- the token is `/` or `/=`, and what is scanned of a literal starts behind the slash
      have hlength : byteLength front ≤ 2 := by
        rcases hslash with h | h <;>
        · have hspelled := hright.scanned.spelled h
          rw [← List.append_cancel_right (hspelled.symm.trans hfront)]
          decide
      omega

theorem Mark.Placed.lt (hplaced : mark.Placed) (hproper : mark.current.token.isProper = true) :
    mark.previous.stop < mark.current.span.stop := by
  obtain ⟨rest, hright⟩ := hplaced
  exact hright.start.le.trans_lt (hright.scanned.closes hproper).lt

/-- Behind a mark the parser is at the same place, or it has read at least the current token. -/
theorem Mark.Leads.placed (hleads : Leads mark after) (hplaced : mark.Placed) :
    after.Placed ∧ (after.current = mark.current ∧ after.previous = mark.previous ∨
      mark.current.token.isProper = true ∧ mark.current.span.stop ≤ after.previous.stop) := by
  induction hleads with
  | refl => exact ⟨hplaced, Or.inl ⟨rfl, rfl⟩⟩
  | tail _ hstep ih =>
      obtain ⟨hmiddle, hreads⟩ := ih
      cases hstep with
      | complain => exact ⟨hmiddle, hreads⟩
      | @move cursor start hends =>
          obtain ⟨rest, hright⟩ := hmiddle
          have hproper := (hends.closes hright).1
          have hstop := hends.stop_le hright
          refine ⟨⟨cursor.rest, nextLexeme_right cursor false⟩, Or.inr ?_⟩
          rcases hreads with ⟨hcurrent, -⟩ | ⟨hfirst, hread⟩
          · rw [← hcurrent]
            exact ⟨hproper, hstop⟩
          · have hlater := Mark.Placed.lt ⟨rest, hright⟩ hproper
            exact ⟨hfirst, hread.trans (hlater.le.trans hstop)⟩

/-- What is read behind a mark ends behind its current token. -/
theorem Mark.Moves.stop_le (hmoves : Moves mark after) (hplaced : mark.Placed) :
    after.Placed ∧ mark.current.token.isProper = true ∧
      mark.current.span.stop ≤ after.previous.stop := by
  obtain ⟨middle, start, cursor, hfirst, hends, hlast⟩ := hmoves
  obtain ⟨hmiddle, hread⟩ := hfirst.placed hplaced
  obtain ⟨rest, hright⟩ := hmiddle
  have hproper := (hends.closes hright).1
  have hnext : (middle.resumed start cursor).Placed := ⟨cursor.rest, nextLexeme_right cursor false⟩
  have hstop : middle.current.span.stop ≤ cursor.offset := hends.stop_le hright
  obtain ⟨hafter, hlater⟩ := hlast.placed hnext
  have hbehind : cursor.offset ≤ after.previous.stop := by
    rcases hlater with ⟨-, hprevious⟩ | ⟨hmore, hlater⟩
    · rw [hprevious]
      exact le_rfl
    · exact (hnext.lt hmore).le.trans hlater
  refine ⟨hafter, ?_⟩
  -- the step that moves is the first one that does, or an earlier one has read the token already
  rcases hread with ⟨hcurrent, -⟩ | ⟨hfirst, hread⟩
  · rw [← hcurrent]
    exact ⟨hproper, hstop.trans hbehind⟩
  · have hmiddle := Mark.Placed.lt ⟨rest, hright⟩ hproper
    exact ⟨hfirst, hread.trans (hmiddle.le.trans (hstop.trans hbehind))⟩

/-- The state behind text that ends at a cursor. -/
def State.resumed (s : State) (start : Nat) (cursor : Cursor) : State :=
  let next := nextLexeme cursor false
  { s with
    current := next
    previous := ⟨start, cursor.offset⟩
    comments := next.comments.reverse ++ s.comments
    fault := s.fault.or next.legacyComment }

theorem run_resume {setting : Setting} {s : State} (start : Nat) (cursor : Cursor) :
    resume start cursor setting s = .ok ((), s.resumed start cursor) := rfl

/-! ## Passages -/

/-- A text with the places at which it stands in two sources, what follows it there, and the bounds
on the rounds of loops in both. -/
structure Transfer where
  text : List Char
  start : Nat
  tail : List Char
  budget : Nat
  newStart : Nat
  newTail : List Char
  newBudget : Nat

namespace Transfer

/-- Where the text ends in the first source. -/
def stop (p : Transfer) : Nat :=
  p.start + byteLength p.text

/-- Where the text ends in the second source. -/
def newStop (p : Transfer) : Nat :=
  p.newStart + byteLength p.text

/-- What comes next behind the text in the first source. -/
def next (p : Transfer) : Lexeme :=
  nextLexeme ⟨p.tail, p.stop⟩ false

/-- What comes next behind the text in the second source. -/
def newNext (p : Transfer) : Lexeme :=
  nextLexeme ⟨p.newTail, p.newStop⟩ false

/-- Where an offset of the first source is in the second one; what is before the text stays before
it. -/
def relocate (p : Transfer) (place : Nat) : Nat :=
  if p.start ≤ place then place - p.start + p.newStart else p.newStart - 1

/-- The setting of the second parser, if the first one has another one. -/
def setting (p : Transfer) (setting : Setting) : Setting :=
  { setting with budget := p.newBudget, arrowStart := setting.arrowStart.map p.relocate }

/-- Whether the token behind the text in the second source does not go on with a statement. -/
def Apart (p : Transfer) : Prop :=
  p.newNext.token.continuesStatement = false

/-- Whether the places that the second parser has noted are those of the first one, or lie before
the text. -/
def Carries (p : Transfer) (places newPlaces : List Nat) : Prop :=
  ∀ newPlace ∈ newPlaces, newPlace + 1 < p.newStart ∨
    ∃ place ∈ places, p.start ≤ place ∧ place < p.stop ∧ newPlace = p.relocate place

/-- Whether the second parser has noted nothing about the text that the first one has not. -/
structure Alike (p : Transfer) (s s' : State) : Prop where
  fault : s'.fault = none
  pending : p.Carries s.pending s'.pending
  commas : p.Carries (s.commas.map (·.1)) (s'.commas.map (·.1))
  suspension : p.Carries s.suspension.toList s'.suspension.toList

/-- Whether both parsers are at the same token of the text, between some text before it and the rest
of the text. -/
structure Meets (p : Transfer) (front word back : List Char) (s s' : State) : Prop where
  text : p.text = front ++ (word ++ back)
  nonempty : word ≠ []
  proper : s.current.token.isProper = true
  token : s'.current.token = s.current.token
  span : s.current.span =
    ⟨p.start + byteLength front, p.start + byteLength front + byteLength word⟩
  newSpan : s'.current.span =
    ⟨p.newStart + byteLength front, p.newStart + byteLength front + byteLength word⟩
  start : s.current.start = word ++ (back ++ p.tail)
  newStart : s'.current.start = word ++ (back ++ p.newTail)
  rest : s.current.rest = back ++ p.tail
  newRest : s'.current.rest = back ++ p.newTail
  spelled : ∀ {text}, s.current.token = .punctuator text → word = text.toList
  ending : s.current.token ≠ .punctuator ";" → word.getLast? ≠ some ';'
  behind : s.previous.stop ≤ s.current.span.start
  /-- What comes before the first token of the text is not the same. -/
  inner : front ≠ [] → s'.current.afterNewline = s.current.afterNewline ∧
    p.start < s.previous.stop ∧ s'.previous.stop = p.relocate s.previous.stop

/-- Whether both parsers are at the same token of the text, with so many characters still to be
read. -/
def Within (p : Transfer) (left : Nat) (s s' : State) : Prop :=
  ∃ front word back, p.Meets front word back s s' ∧ (word ++ back).length ≤ left

/-- Whether both parsers are at the end of the text. -/
structure AtEnd (p : Transfer) (s s' : State) : Prop where
  current : s.current = p.next
  previous : s.previous.stop = p.stop
  newCurrent : s'.current = p.newNext
  newPrevious : s'.previous.stop = p.newStop

/-- Whether the first parser cannot end the text with a token anymore, unless it notes a fault. -/
def Doomed (p : Transfer) (mark : Mark) : Prop :=
  ∀ after, Leads mark after → after.faulty = false → after.previous.stop ≠ p.stop

/-- Whether the first parser has ended the text. -/
def Over (p : Transfer) (mark : Mark) : Prop :=
  mark.previous.stop = p.stop ∧ mark.Placed

end Transfer

/-- What is promised of parsers that have read a part of a text. -/
structure Mode where
  /-- Whether they are kept abreast at the end of the text. -/
  keeps : Prop
  /-- Whether it counts if the first one gets to the end of the text. -/
  wants : Prop
  /-- What is known of the token that is read next. -/
  known : Token → Prop

/-- The mode before something that has to follow: nothing may end the text here. -/
def Mode.inner : Mode :=
  ⟨False, False, fun _ => True⟩

/-- The mode before a token that is going to be read. -/
def Mode.before (known : Token → Prop) : Mode :=
  ⟨False, False, known⟩

namespace Transfer

/-- Whether both parsers are at the same place of the text, which may be its end in some modes. -/
structure Abreast (p : Transfer) (mode : Mode) (left : Nat) (s s' : State) : Prop where
  alike : p.Alike s s'
  place : p.Within left s s' ∨ mode.keeps ∧ p.AtEnd s s'
  known : mode.known s.current.token

/-- Whether the first parser cannot end the text anymore, or has ended it where that does not
count. -/
structure Lost (p : Transfer) (mode : Mode) (s : State) : Prop where
  place : p.Doomed s.mark ∨ p.Over s.mark ∧ ¬mode.wants
  known : mode.known s.current.token

end Transfer

/-- A text whose last token is read whole in the second source, too, with room for the rounds that
it may take.  What follows it starts another statement, or the source ends there. -/
structure Passage extends Transfer where
  room : text.length + 1 < budget ∧ text.length + 1 < newBudget
  pos : 0 < newStart
  joint : ∀ c ∈ newTail.head?, isGap c = true ∨ c = '/' ∧ tail.head? = some '/'
  stray : toTransfer.next.token.isStray = false
  newStray : toTransfer.newNext.token.isStray = false
  newApart : toTransfer.newNext.StandsApart
  newLegacy : toTransfer.newNext.legacyComment = none

variable {p : Passage} {mode other : Mode} {s t s' t' : State} {left : Nat}

namespace Passage

/-! ## Places -/

theorem relocate_add (place : Nat) : p.relocate (p.start + place) = p.newStart + place := by
  unfold Transfer.relocate
  rw [if_pos (Nat.le_add_right _ _)]
  omega

theorem relocate_stop : p.relocate p.stop = p.newStop :=
  relocate_add _

theorem relocate_pred {place : Nat} (hplace : p.start < place) :
    p.relocate (place - 1) = p.relocate place - 1 := by
  have hpos := p.pos
  unfold Transfer.relocate
  rw [if_pos (by omega), if_pos hplace.le]
  omega

theorem newStart_le (place : Nat) : p.newStart ≤ p.relocate place + 1 := by
  unfold Transfer.relocate
  split <;> omega

theorem relocate_le_iff {place : Nat} (hplace : p.start ≤ place) (another : Nat) :
    p.relocate another ≤ p.relocate place ↔ another ≤ place := by
  have hpos := p.pos
  unfold Transfer.relocate
  rw [if_pos hplace]
  split <;> omega

theorem le_relocate_iff {place : Nat} (hplace : p.start ≤ place) (another : Nat) :
    p.relocate place ≤ p.relocate another ↔ place ≤ another := by
  have hpos := p.pos
  unfold Transfer.relocate
  rw [if_pos hplace]
  split <;> omega

theorem relocate_inj {place another : Nat} (hplace : p.start ≤ place) :
    p.relocate another = p.relocate place ↔ another = place := by
  rw [le_antisymm_iff, le_antisymm_iff, relocate_le_iff hplace, le_relocate_iff hplace]

/-! ## Parsers that are lost -/

theorem doomed_of_fault (hfault : mark.faulty = true) : p.Doomed mark := by
  intro after hleads hclean
  rw [hleads.faulty hclean] at hfault
  contradiction

/-- Behind the end of the text nothing is the end of it. -/
theorem doomed_of_lt (hplaced : mark.Placed) (hlater : p.stop < mark.previous.stop) :
    p.Doomed mark := by
  intro after hleads _
  rcases (hleads.placed hplaced).2 with ⟨-, hprevious⟩ | ⟨hproper, hstop⟩
  · rw [hprevious]
    exact hlater.ne'
  · exact ((hlater.trans (hplaced.lt hproper)).trans_le hstop).ne'

/-- A token across the end of the text, or one that cannot be read, keeps the parser from it. -/
theorem doomed_of_stop (hplaced : mark.Placed) (hother : mark.previous.stop ≠ p.stop)
    (hover : mark.current.token.isProper = true → p.stop < mark.current.span.stop) :
    p.Doomed mark := by
  intro after hleads _
  rcases (hleads.placed hplaced).2 with ⟨-, hprevious⟩ | ⟨hproper, hstop⟩
  · rw [hprevious]
    exact hother
  · exact ((hover hproper).trans_le hstop).ne'

/-- Before the end of the text the parser is doomed if it is behind whatever it reads next. -/
theorem doomed_of_ends (hother : mark.previous.stop ≠ p.stop)
    (hends : ∀ start cursor, mark.Ends cursor → p.Doomed (mark.resumed start cursor)) :
    p.Doomed mark := by
  intro after hleads hclean
  rcases hleads.cases_head with rfl | ⟨middle, hstep, hleads⟩
  · exact hother
  · cases hstep with
    | move start hcursor => exact hends start _ hcursor after hleads hclean
    | complain =>
        have := Mark.Leads.faulty hleads hclean
        contradiction

theorem doomed_leads (hdoomed : p.Doomed mark) (hleads : Leads mark after) : p.Doomed after :=
  fun later hlater => hdoomed later (hleads.trans hlater)

theorem over_moves (hover : p.Over mark) (hmoves : Moves mark after) : p.Doomed after := by
  obtain ⟨hstop, hplaced⟩ := hover
  obtain ⟨hafter, hproper, hlater⟩ := hmoves.stop_le hplaced
  refine doomed_of_lt hafter ?_
  rw [← hstop]
  exact (hplaced.lt hproper).trans_le hlater

theorem over_leads (hover : p.Over mark) (hleads : Leads mark after) :
    p.Doomed after ∨ p.Over after := by
  obtain ⟨hafter, ⟨-, hprevious⟩ | ⟨hproper, hlater⟩⟩ := hleads.placed hover.2
  · exact Or.inr ⟨(congrArg Span.stop hprevious).trans hover.1, hafter⟩
  · refine Or.inl (doomed_of_lt hafter ?_)
    rw [← hover.1]
    exact (hover.2.lt hproper).trans_le hlater

theorem lost_leads (hlost : p.Lost mode s) (hwants : other.wants → mode.wants)
    (hleads : Leads s.mark t.mark) (hknown : other.known t.current.token) : p.Lost other t := by
  refine ⟨?_, hknown⟩
  rcases hlost.place with hdoomed | ⟨hover, hnot⟩
  · exact Or.inl (doomed_leads hdoomed hleads)
  · exact (over_leads hover hleads).imp_right fun h => ⟨h, fun hother => hnot (hwants hother)⟩

theorem lost_moves (hlost : p.Lost mode s) (hmoves : Moves s.mark t.mark)
    (hknown : other.known t.current.token) : p.Lost other t := by
  refine ⟨Or.inl ?_, hknown⟩
  rcases hlost.place with hdoomed | ⟨hover, -⟩
  · exact doomed_leads hdoomed hmoves.leads
  · exact over_moves hover hmoves

theorem over_of_atEnd (hend : p.AtEnd s s') : p.Over s.mark := by
  refine ⟨hend.previous, p.tail, ?_⟩
  change s.current.Right ⟨p.tail, s.previous.stop⟩
  rw [hend.current, hend.previous]
  exact nextLexeme_right _ _

/-! ## Landing -/

/-- A fraction takes a digit behind its point. -/
theorem nextLexeme_fraction {d : Char} (hdigit : d.isDigit = true) (more : List Char)
    (offset : Nat) (hproper : (nextLexeme ⟨'.' :: d :: more, offset⟩ false).token.isProper = true) :
    offset + 2 ≤ (nextLexeme ⟨'.' :: d :: more, offset⟩ false).span.stop := by
  have hskip : skipGap .between ('.' :: d :: more) offset false [] none =
      ⟨⟨'.' :: d :: more, offset⟩, false, [], none, none⟩ :=
    skipGap_of_not_opensComment (by decide) (by simp [OpensComment]) offset [] none
  obtain ⟨start, newline, comments, legacy, token, cursor, hfound, hscan, hkeyword⟩ :=
    exists_scanToken hproper
  obtain ⟨rfl, -⟩ := Skipped.mk.inj (hskip.symm.trans hfound)
  rw [nextLexeme_of_scanToken _ hskip hscan hkeyword] at hproper ⊢
  have hnumber : scanFraction offset (d :: more) (offset + 1) = (token, cursor) := by
    rw [← hscan, scanToken_fraction hdigit]
  obtain ⟨word, -, hoffset, hreads⟩ := scanFraction_rereads_digit hdigit hnumber hproper
  have hhead := (hreads [] 0 (.cut (by simp))).1
  rw [List.append_nil] at hhead
  obtain ⟨others, rfl⟩ := List.head?_eq_some_iff.mp hhead
  have := byteLength_pos d others
  change offset + 2 ≤ cursor.offset
  omega

/-- A question mark is no part of the text if the fraction behind it runs across the end. -/
theorem doomed_of_question (hplaced : mark.Placed) (htoken : mark.current.token = .punctuator "?")
    (hrest : mark.current.rest = '.' :: p.tail) (hstop : mark.current.span.stop + 1 = p.stop)
    {d : Char} (htail : p.tail.head? = some d) (hdigit : d.isDigit = true) : p.Doomed mark := by
  have hproper : mark.current.token.isProper = true := by rw [htoken]; rfl
  obtain ⟨more, htail⟩ := List.head?_eq_some_iff.mp htail
  refine doomed_of_ends ?_ fun start cursor hends => ?_
  · have := hplaced.lt hproper
    omega
  have hnext : (mark.resumed start cursor).Placed := ⟨cursor.rest, nextLexeme_right cursor false⟩
  cases hends with
  | token =>
      rw [hrest, htail] at hnext ⊢
      refine doomed_of_stop hnext ?_ fun hproper => ?_
      · change mark.current.span.stop ≠ p.stop
        omega
      · have := nextLexeme_fraction hdigit more _ hproper
        change p.stop < (nextLexeme _ false).span.stop
        omega
  | template hquote => rw [htoken] at hquote; simp at hquote
  | regExp hslash => rw [htoken] at hslash; simp at hslash

/-- A question mark is no part of `?.` only before a digit. -/
theorem isDigit_of_question {origin : Cursor} {first : Bool} {rest : List Char}
    (htoken : (nextLexeme origin first).token = .punctuator "?")
    (hrest : (nextLexeme origin first).rest = '.' :: rest) :
    ∃ d, rest.head? = some d ∧ d.isDigit = true := by
  have hproper : (nextLexeme origin first).token.isProper = true := by rw [htoken]; rfl
  obtain ⟨start, newline, comments, legacy, token, cursor, hskip, hscan, hkeyword⟩ :=
    exists_scanToken hproper
  rw [nextLexeme_of_scanToken _ hskip hscan hkeyword] at htoken hrest
  obtain rfl : token = .punctuator "?" := htoken
  have hspelled := (scanToken_scanned start.rest start.offset).spelled (by rw [hscan])
  rw [hscan, show cursor.rest = '.' :: rest from hrest] at hspelled
  by_contra hnone
  have hother : ∀ d ∈ rest.head?, d.isDigit = false := by
    intro d hd
    by_contra hdigit
    exact hnone ⟨d, hd, Bool.not_eq_false _ ▸ hdigit⟩
  have hfind : punctuators.find? (·.isPrefixOf ('?' :: '.' :: rest)) = some ['?', '.'] := rfl
  have hwhole : scanPunctuator (['?', '.'] ++ rest) start.offset =
      (.punctuator (String.ofList ['?', '.']), ⟨rest, start.offset + 2⟩) :=
    scanPunctuator_of_find? hfind (fun _ => hother) start.offset
  rw [hspelled, show "?".toList ++ '.' :: rest = '?' :: '.' :: rest from rfl,
    scanToken_punctuator (by decide) (by decide) (by decide) (by simp)] at hscan
  have hsame : Token.punctuator (String.ofList ['?', '.']) = .punctuator "?" :=
    congrArg Prod.fst (hwhole.symm.trans hscan)
  exact absurd hsame (by decide)

theorem carries_nil (places : List Nat) : p.Carries places [] := by
  simp [Transfer.Carries]

theorem alike_resumed (halike : p.Alike s s') (first newFirst : Nat) (cursor newCursor : Cursor)
    (hlegacy : (nextLexeme newCursor false).legacyComment = none) :
    p.Alike (s.resumed first cursor) (s'.resumed newFirst newCursor) where
  fault := by
    change s'.fault.or (nextLexeme newCursor false).legacyComment = none
    rw [hlegacy, halike.fault]
    rfl
  pending := halike.pending
  commas := halike.commas
  suspension := halike.suspension

/-- A comment in the style of markup is a fault. -/
theorem doomed_of_legacy {first : Nat} {cursor : Cursor}
    (hlegacy : (nextLexeme cursor false).legacyComment ≠ none) :
    p.Doomed (s.resumed first cursor).mark := by
  obtain ⟨place, hplace⟩ := Option.ne_none_iff_exists'.mp hlegacy
  refine doomed_of_fault ?_
  change (s.fault.or (nextLexeme cursor false).legacyComment).isSome = true
  rw [hplace]
  cases s.fault <;> rfl

/-- A word that starts within a text ends there, or runs across the end of the text. -/
theorem ends_or_crosses {gap word rest back tail : List Char}
    (hsplit : back ++ tail = gap ++ (word ++ rest)) :
    (∃ inner, back = gap ++ (word ++ inner) ∧ rest = inner ++ tail) ∨
      byteLength back < byteLength gap + byteLength word := by
  rw [← List.append_assoc, List.append_eq_append_iff] at hsplit
  rcases hsplit with ⟨_ | ⟨d, inner⟩, hread, htail⟩ | ⟨inner, hback, hrest⟩
  · exact Or.inl ⟨[], by rw [← List.append_assoc, hread]; simp, htail.symm⟩
  · refine Or.inr ?_
    have := byteLength_pos d inner
    rw [← byteLength_append, hread, byteLength_append]
    omega
  · exact Or.inl ⟨inner, by rw [← List.append_assoc, hback], hrest⟩

/-- A question mark at the end of the text may be read as another token behind it. -/
theorem doomed_of_not_keepsPoint {origin : Cursor} {first : Bool} {inner : List Char}
    (hcurrent : mark.current = nextLexeme origin first) (hplaced : mark.Placed)
    (hrest : mark.current.rest = inner ++ p.tail)
    (hstop : mark.current.span.stop + byteLength inner = p.stop)
    (hpoint : ¬KeepsPoint mark.current.token mark.current.rest (inner ++ p.newTail)) :
    p.Doomed mark := by
  simp only [KeepsPoint, Classical.not_imp] at hpoint
  obtain ⟨htoken, hhead, hnext⟩ := hpoint
  rw [hrest] at hnext
  rcases inner with _ | ⟨d, _ | ⟨e, inner⟩⟩
  · have hsolid : isGap '.' = false := by decide
    have := p.joint '.' hhead
    simp [hsolid] at this
  · obtain rfl : d = '.' := by simpa using hhead
    obtain ⟨d, hd, hdigit⟩ := isDigit_of_question (hcurrent ▸ htoken) (hcurrent ▸ hrest)
    exact doomed_of_question hplaced htoken hrest hstop hd hdigit
  · exact absurd rfl hnext

/-- Behind a token of the text both parsers land on the next one, or the first one is doomed. -/
theorem lands {front back : List Char} (htext : p.text = front ++ back) (hfront : front ≠ [])
    (halike : p.Alike s s') (first newFirst : Nat) :
    let t := s.resumed first ⟨back ++ p.tail, p.start + byteLength front⟩
    let t' := s'.resumed newFirst ⟨back ++ p.newTail, p.newStart + byteLength front⟩
    p.Doomed t.mark ∨ p.Alike t t' ∧ (p.Within back.length t t' ∨ back = [] ∧ p.AtEnd t t') := by
  intro t t'
  have hplaced : t.mark.Placed := ⟨back ++ p.tail, nextLexeme_right _ _⟩
  have hlater : p.start < t.previous.stop := by
    obtain ⟨c, inner, rfl⟩ := List.exists_cons_of_ne_nil hfront
    exact Nat.lt_add_of_pos_right (byteLength_pos c inner)
  have hstop : p.stop = p.start + byteLength front + byteLength back := by
    rw [Transfer.stop, htext, byteLength_append, Nat.add_assoc]
  have hcurrent : t.current =
    nextLexeme ⟨back ++ p.tail, p.start + byteLength front⟩ false := rfl
  have hnewCurrent : t'.current =
    nextLexeme ⟨back ++ p.newTail, p.newStart + byteLength front⟩ false := rfl
  rcases back with _ | ⟨c, back⟩
  · obtain rfl : p.text = front := by rw [htext, List.append_nil]
    exact Or.inr ⟨alike_resumed halike _ _ _ _ p.newLegacy, Or.inr ⟨rfl, rfl, rfl, rfl, rfl⟩⟩
  have hother : t.previous.stop ≠ p.stop := by
    have := byteLength_pos c back
    change p.start + byteLength front ≠ _
    omega
  -- the next token of the first parser has to be one that can be read without a fault
  by_cases hproper : t.current.token.isProper = true
  swap
  · exact Or.inl (doomed_of_stop hplaced hother fun h => absurd h hproper)
  by_cases hlegacy : t.current.legacyComment = none
  swap
  · exact Or.inl (doomed_of_legacy hlegacy)
  obtain ⟨gap, word, hsplit, hword, hstart, hspan, hrereads⟩ :=
    nextLexeme_rereads hcurrent.symm hproper hlegacy
  rcases ends_or_crosses hsplit with ⟨inner, hback, hrest⟩ | hcrosses
  swap
  · refine Or.inl (doomed_of_stop hplaced hother fun _ => ?_)
    change p.stop < t.current.span.stop
    rw [hspan]
    dsimp only
    omega
  rw [hback] at htext hstop hnewCurrent
  rw [byteLength_append, byteLength_append] at hstop
  -- only a question mark is read in another way before other text
  by_cases hpoint : KeepsPoint t.current.token t.current.rest (inner ++ p.newTail)
  swap
  · refine Or.inl (doomed_of_not_keepsPoint hcurrent hplaced hrest ?_ hpoint)
    change t.current.span.stop + _ = _
    rw [hspan, hstop]
    dsimp only
    omega
  have hreplaces : Replaces t.current.rest (inner ++ p.newTail) := by
    rw [hrest]
    exact (Replaces.cut p.joint).append inner
  obtain ⟨comments, hmoved⟩ := hrereads _ (p.newStart + byteLength front) hreplaces hpoint
  rw [List.append_assoc, List.append_assoc, hmoved] at hnewCurrent
  have halike' := alike_resumed halike first newFirst
    ⟨c :: back ++ p.tail, p.start + byteLength front⟩
    ⟨c :: back ++ p.newTail, p.newStart + byteLength front⟩
    (congrArg Lexeme.legacyComment hnewCurrent)
  refine Or.inr ⟨halike', Or.inl ⟨front ++ gap, word, inner, ?_, by rw [hback]; simp⟩⟩
  have hfronts := byteLength_append front gap
  exact {
    text := by rw [htext, List.append_assoc]
    nonempty := hword
    proper := hproper
    token := by rw [hnewCurrent]
    span := by rw [hspan, hfronts, Nat.add_assoc p.start]
    newSpan := by rw [hnewCurrent, hfronts, Nat.add_assoc p.newStart]
    start := by rw [hstart, hrest]
    newStart := by rw [hnewCurrent]
    rest := hrest
    newRest := by rw [hnewCurrent]
    spelled := word_of_punctuator hstart
    ending := getLast?_ne_semicolon hproper hstart
    behind := by
      rw [hspan]
      exact Nat.le_add_right _ _
    inner := fun _ => ⟨by rw [hnewCurrent], hlater, (relocate_add _).symm⟩ }

end Passage

end Parser
end Script
end ScriptBundler

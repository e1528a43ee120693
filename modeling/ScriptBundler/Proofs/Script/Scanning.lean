import ScriptBundler.Proofs.Script.Progress

/-!
# Places in a source

A cursor is a place in a source: the text that is left, and the number of bytes before it.  The
scanners give places further on, and a token that is not malformed ends behind a character that is
not white space.
-/

namespace ScriptBundler

open Text

/-! ## White space -/

/-- The code points of white space. -/
def blankCodes : List Nat :=
  [0x9, 0xA, 0xB, 0xC, 0xD, 0x20, 0x85, 0xA0, 0x1680, 0x2000, 0x2001, 0x2002, 0x2003, 0x2004,
    0x2005, 0x2006, 0x2007, 0x2008, 0x2009, 0x200A, 0x2028, 0x2029, 0x202F, 0x205F, 0x3000]

theorem Text.mem_blankCodes_of_isBlank {c : Char} (hblank : isBlank c = true) :
    c.toNat ∈ blankCodes := by
  simp only [isBlank, Bool.or_eq_true, Bool.and_eq_true, decide_eq_true_eq, beq_iff_eq] at hblank
  simp only [blankCodes, List.mem_cons, List.not_mem_nil, or_false]
  generalize c.toNat = code at hblank
  omega

theorem Text.blankCodes_apart :
    (blankCodes.all fun code => !isIdentifierPart (Char.ofNat code)) = true := by
  decide +kernel

theorem Text.not_isBlank_of_isIdentifierPart {c : Char} (hpart : isIdentifierPart c = true) :
    isBlank c = false := by
  by_contra hblank
  have hmember := mem_blankCodes_of_isBlank (Bool.not_eq_false _ ▸ hblank)
  have hother := List.all_eq_true.mp blankCodes_apart c.toNat hmember
  rw [Char.ofNat_toNat, hpart] at hother
  contradiction

namespace Script

/-! ## Places -/

/-- Whether reading on from a cursor leads to another one. -/
def Cursor.Reaches (origin cursor : Cursor) : Prop :=
  ∃ front, origin.rest = front ++ cursor.rest ∧ origin.offset + byteLength front = cursor.offset

/-- Whether reading on from a cursor leads to another one, right behind a character that is not
white space. -/
def Cursor.Closes (origin cursor : Cursor) : Prop :=
  ∃ front c, isBlank c = false ∧ origin.rest = front ++ c :: cursor.rest ∧
    origin.offset + byteLength front + c.utf8Size = cursor.offset

variable {origin middle cursor : Cursor} {text rest : List Char} {offset : Nat} {c : Char}

namespace Cursor

theorem Reaches.refl (cursor : Cursor) : cursor.Reaches cursor :=
  ⟨[], rfl, rfl⟩

theorem Reaches.trans (hfirst : origin.Reaches middle) (hsecond : middle.Reaches cursor) :
    origin.Reaches cursor := by
  obtain ⟨front, hfront, hoffset⟩ := hfirst
  obtain ⟨more, hmore, hmoreOffset⟩ := hsecond
  refine ⟨front ++ more, ?_, ?_⟩
  · rw [hfront, hmore, List.append_assoc]
  · rw [byteLength_append, ← hmoreOffset, ← hoffset, Nat.add_assoc]

theorem Reaches.closes (hfirst : origin.Reaches middle) (hsecond : middle.Closes cursor) :
    origin.Closes cursor := by
  obtain ⟨front, hfront, hoffset⟩ := hfirst
  obtain ⟨more, c, hsolid, hmore, hmoreOffset⟩ := hsecond
  refine ⟨front ++ more, c, hsolid, ?_, ?_⟩
  · rw [hfront, hmore, List.append_assoc]
  · rw [byteLength_append, ← hmoreOffset, ← hoffset]
    omega

theorem Closes.reaches (hcloses : origin.Closes cursor) : origin.Reaches cursor := by
  obtain ⟨front, c, -, hrest, hoffset⟩ := hcloses
  refine ⟨front ++ [c], by simp [hrest], ?_⟩
  simp [byteLength_append, ← hoffset, Nat.add_assoc]

theorem Reaches.le (hreaches : origin.Reaches cursor) : origin.offset ≤ cursor.offset := by
  obtain ⟨front, -, hoffset⟩ := hreaches
  omega

theorem Closes.lt (hcloses : origin.Closes cursor) : origin.offset < cursor.offset := by
  obtain ⟨front, c, -, -, hoffset⟩ := hcloses
  have := c.utf8Size_pos
  omega

/-- The place behind the next characters. -/
theorem reaches_append (front rest : List Char) (offset : Nat) :
    Reaches ⟨front ++ rest, offset⟩ ⟨rest, offset + byteLength front⟩ :=
  ⟨front, rfl, rfl⟩

theorem reaches_next (c : Char) (rest : List Char) (offset : Nat) :
    Reaches ⟨c :: rest, offset⟩ ⟨rest, offset + c.utf8Size⟩ := by
  simpa using reaches_append [c] rest offset

theorem closes_next (rest : List Char) (offset : Nat) (hsolid : isBlank c = false) :
    Closes ⟨c :: rest, offset⟩ ⟨rest, offset + c.utf8Size⟩ :=
  ⟨[], c, hsolid, rfl, rfl⟩

/-- The place behind the next characters, the last of which is not white space. -/
theorem closes_append (front rest : List Char) (offset : Nat) (hsolid : isBlank c = false) :
    Closes ⟨front ++ c :: rest, offset⟩ ⟨rest, offset + byteLength front + c.utf8Size⟩ :=
  (reaches_append front _ offset).closes (closes_next rest _ hsolid)

/-- The place behind the next characters, which take so many bytes. -/
theorem Reaches.skip {size : Nat} (front : List Char)
    (hplace : origin.Reaches ⟨front ++ rest, offset⟩) (hsize : byteLength front = size) :
    origin.Reaches ⟨rest, offset + size⟩ :=
  hsize ▸ hplace.trans (reaches_append front rest offset)

/-- The place behind the next character, if it is a visible one below 128. -/
theorem Reaches.closes_solid (hplace : origin.Reaches ⟨c :: rest, offset⟩)
    (hsolid : c.utf8Size = 1 ∧ isBlank c = false) : origin.Closes ⟨rest, offset + 1⟩ :=
  hsolid.1 ▸ hplace.closes (closes_next rest offset hsolid.2)

/-- The place behind visible characters below 128. -/
theorem Reaches.closes_visible {front : List Char}
    (hplace : origin.Reaches ⟨front ++ rest, offset⟩) (hne : front ≠ [])
    (hsolid : ∀ c ∈ front, c.utf8Size = 1 ∧ isBlank c = false) :
    origin.Closes ⟨rest, offset + front.length⟩ := by
  induction front generalizing offset with
  | nil => contradiction
  | cons c front ih =>
      obtain ⟨hfirst, hothers⟩ := List.forall_mem_cons.mp hsolid
      have hnext := hplace.closes_solid hfirst
      cases front with
      | nil => exact hnext
      | cons d front =>
          have hcloses := ih hnext.reaches (List.cons_ne_nil d front) hothers
          rwa [Nat.add_assoc, Nat.add_comm 1] at hcloses

end Cursor

open Cursor

/-! ## Gaps -/

/-- Whether a comment is a stretch of a text that starts with `/`. -/
structure Comment.Stands (origin : Cursor) (comment : Comment) : Prop where
  start : ∃ rest, origin.Reaches ⟨'/' :: rest, comment.span.start⟩
  stop : ∃ rest, origin.Reaches ⟨rest, comment.span.stop⟩
  order : comment.span.start < comment.span.stop

/-- Whether the comment that a scanner of gaps is inside of starts before an offset. -/
def Gap.Opens (origin : Cursor) (offset : Nat) : Gap → Prop
  | .between | .line _ true => True
  | .line start false | .block start =>
    (∃ rest, origin.Reaches ⟨'/' :: rest, start⟩) ∧ start < offset

/-- What is right of a gap that has been skipped. -/
structure Skipped.Right (origin : Cursor) (skipped : Skipped) : Prop where
  place : origin.Reaches skipped.cursor
  comments : ∀ comment ∈ skipped.comments, ScriptBundler.Script.Comment.Stands origin comment
  /-- The gap goes on as long as white space does. -/
  next : skipped.unclosed = none → ∀ c ∈ skipped.cursor.rest.head?, isGap c = false

theorem Gap.Opens.mono {gap : Gap} {later : Nat} (hopens : gap.Opens origin offset)
    (hle : offset ≤ later) : gap.Opens origin later := by
  cases gap with
  | between => trivial
  | line start markup =>
      cases markup with
      | true => trivial
      | false => exact ⟨hopens.1, Nat.lt_of_lt_of_le hopens.2 hle⟩
  | block start => exact ⟨hopens.1, Nat.lt_of_lt_of_le hopens.2 hle⟩

/-- A comment from where it starts to where the scanner has got. -/
theorem Comment.stands_of_opens {start : Nat} (block : Bool)
    (hopens : (∃ rest, origin.Reaches ⟨'/' :: rest, start⟩) ∧ start < offset)
    (hplace : origin.Reaches ⟨text, offset⟩) :
    Comment.Stands origin ⟨block, ⟨start, offset⟩⟩ :=
  ⟨hopens.1, ⟨text, hplace⟩, hopens.2⟩

theorem lineComments_stand {start : Nat} {markup : Bool} {comments : List Comment}
    (hopens : Gap.Opens origin offset (.line start markup))
    (hplace : origin.Reaches ⟨text, offset⟩)
    (hcomments : ∀ comment ∈ comments, Comment.Stands origin comment) :
    ∀ comment ∈ if markup then comments else ⟨false, ⟨start, offset⟩⟩ :: comments,
      Comment.Stands origin comment := by
  cases markup with
  | true => exact hcomments
  | false =>
      exact List.forall_mem_cons.mpr ⟨Comment.stands_of_opens false hopens hplace, hcomments⟩

theorem skipGap_right (gap : Gap) (text : List Char) (offset : Nat) (newline : Bool)
    (comments : List Comment) (legacy : Option Nat) (hplace : origin.Reaches ⟨text, offset⟩)
    (hopens : gap.Opens origin offset)
    (hcomments : ∀ comment ∈ comments, Comment.Stands origin comment) :
    (skipGap gap text offset newline comments legacy).Right origin := by
  -- one case for each equation of the scanner
  fun_induction skipGap gap text offset newline comments legacy with
  | case1 | case2 =>
      rename_i ih
      have hnext := hplace.trans (reaches_append (_ :: _ :: []) _ _)
      exact ih hnext ⟨⟨_, hplace⟩, by omega⟩ hcomments
  | case3 =>
      rename_i ih
      have hnext := hplace.trans (reaches_append ('<' :: '!' :: '-' :: '-' :: []) _ _)
      exact ih hnext trivial hcomments
  | case4 =>
      rename_i ih
      have hnext := hplace.trans (reaches_append ('-' :: '-' :: '>' :: []) _ _)
      exact ih hnext trivial hcomments
  | case5 =>
      exact ⟨hplace, hcomments, fun _ c hc => by simp at hc; subst hc; decide⟩
  | case6 =>
      rename_i ih
      exact ih (hplace.trans (reaches_next _ _ _)) trivial hcomments
  | case7 =>
      rename_i hgap
      refine ⟨hplace, hcomments, fun _ c hc => ?_⟩
      simp at hc
      subst hc
      simpa using hgap
  | case8 =>
      rename_i ih
      have hnext := hplace.trans (reaches_next _ _ _)
      exact ih hnext trivial (lineComments_stand hopens hplace hcomments)
  | case9 =>
      rename_i ih
      have hnext := hplace.trans (reaches_next _ _ _)
      exact ih hnext (hopens.mono (by omega)) hcomments
  | case10 =>
      rename_i ih
      have hnext := hplace.trans (reaches_append ('*' :: '/' :: []) _ _)
      have hcomment := Comment.stands_of_opens true ⟨hopens.1, Nat.lt_add_right 2 hopens.2⟩ hnext
      exact ih hnext trivial (List.forall_mem_cons.mpr ⟨hcomment, hcomments⟩)
  | case11 =>
      rename_i ih
      have hnext := hplace.trans (reaches_next _ _ _)
      exact ih hnext (hopens.mono (by omega)) hcomments
  | case12 => exact ⟨hplace, hcomments, fun _ c hc => by simp at hc⟩
  | case13 =>
      exact ⟨hplace, lineComments_stand hopens hplace hcomments,
        fun _ c hc => by simp at hc⟩
  | case14 => exact ⟨hplace, hcomments, fun _ c hc => by simp at hc⟩

/-! ## Words, strings and templates -/

/-- Whether characters spell a name. -/
def isName : List Char → Bool
  | [] => false
  | first :: rest => isIdentifierStart first && rest.all isIdentifierPart

theorem isName_concat {front : List Char} (hnamed : front = [] ∨ isName front = true)
    (hpart : (if front.isEmpty then isIdentifierStart c else isIdentifierPart c) = true) :
    isName (front ++ [c]) = true := by
  cases front with
  | nil => simpa [isName] using hpart
  | cons first rest =>
      have hfront := hnamed.resolve_left (List.cons_ne_nil first rest)
      simp only [isName, Bool.and_eq_true] at hfront
      simp only [isName, List.cons_append, List.all_append, Bool.and_eq_true]
      exact ⟨hfront.1, hfront.2, by simpa using hpart⟩

/-- What is right of a scanned token and the cursor behind it: a token that is not malformed ends at
a place where text closes, a word is a name, and a punctuator is the text before the cursor. -/
structure Scanned (origin : Cursor) (result : Token × Cursor) : Prop where
  closes : result.1.isProper = true → origin.Closes result.2
  named : ∀ {name : String} {escaped : Bool}, result.1 = .word name escaped →
    isName name.toList = true
  spelled : ∀ {spelling : String}, result.1 = .punctuator spelling →
    origin.rest = spelling.toList ++ result.2.rest

theorem scanned_invalid (fault : Nat) (cursor : Cursor) :
    Scanned origin (.invalid fault, cursor) :=
  ⟨fun h => (by contradiction), fun h => (by contradiction), fun h => (by contradiction)⟩

/-- The place of a scanner of words: the name so far, and where it has got. -/
structure WordPlace (origin : Cursor) (braces : Option (Nat × Nat)) (read : List Char)
    (cursor : Cursor) : Prop where
  named : read.reverse = [] ∨ isName read.reverse = true
  reaches : origin.Reaches cursor
  /-- An escape in braces may still be open. -/
  closes : braces = none → read ≠ [] → origin.Closes cursor
  first : braces = none → read = [] →
    ∃ c rest, cursor.rest = c :: rest ∧ (isIdentifierStart c = true ∨ c = '\\')

/-- Visible characters below 128 are a byte long and not white space. -/
theorem solid_of_toNat (hlower : 32 < c.toNat) (hupper : c.toNat < 128) :
    c.utf8Size = 1 ∧ isBlank c = false := by
  constructor
  · rw [Char.utf8Size_eq_one_iff]
    exact UInt32.le_iff_toNat_le.mpr (show c.toNat ≤ 127 by omega)
  · simp only [isBlank]
    grind

/-- Hexadecimal digits are a byte long and not white space. -/
theorem solid_of_hexValue {digit : Nat} (hdigit : hexValue c = some digit) :
    c.utf8Size = 1 ∧ isBlank c = false := by
  unfold hexValue at hdigit
  simp only [Bool.and_eq_true, decide_eq_true_eq, Char.le_def, UInt32.le_iff_toNat_le] at hdigit
  change (if 48 ≤ c.toNat ∧ c.toNat ≤ 57 then some _ else if 97 ≤ c.toNat ∧ c.toNat ≤ 102 then
    some _ else if 65 ≤ c.toNat ∧ c.toNat ≤ 70 then some _ else none) = _ at hdigit
  split at hdigit
  · exact solid_of_toNat (by omega) (by omega)
  split at hdigit
  · exact solid_of_toNat (by omega) (by omega)
  split at hdigit
  · exact solid_of_toNat (by omega) (by omega)
  · contradiction

/-- Behind another character of a word. -/
theorem WordPlace.after {read : List Char} {later : Cursor}
    (hnamed : read.reverse = [] ∨ isName read.reverse = true) (hcloses : origin.Closes later)
    (hpart : (if read.isEmpty then isIdentifierStart c else isIdentifierPart c) = true) :
    WordPlace origin none (c :: read) later where
  named := by
    rw [List.reverse_cons]
    exact Or.inr (isName_concat hnamed (by simpa using hpart))
  reaches := hcloses.reaches
  closes := fun _ _ => hcloses
  first := fun _ h => absurd h (List.cons_ne_nil c read)

/-- Within an escape in braces. -/
theorem WordPlace.within {read : List Char} {later : Cursor} (escape : Nat × Nat)
    (hnamed : read.reverse = [] ∨ isName read.reverse = true) (hreaches : origin.Reaches later) :
    WordPlace origin (some escape) read later :=
  ⟨hnamed, hreaches, fun h => (by contradiction), fun h => (by contradiction)⟩

theorem wordChar_eq_some {code : Nat} {first : Bool} (hchar : wordChar code first = some c) :
    (if first then isIdentifierStart c else isIdentifierPart c) = true := by
  unfold wordChar at hchar
  obtain ⟨hpart, hsame⟩ := Option.ite_none_right_eq_some.mp hchar
  rw [← Option.some.inj hsame]
  exact hpart

theorem hexValue4_eq_some {a b d : Char} {code : Nat} (hcode : hexValue4 a b c d = some code) :
    ∀ digit ∈ [a, b, c, d], digit.utf8Size = 1 ∧ isBlank digit = false := by
  simp only [hexValue4, bind, Option.bind_eq_some_iff] at hcode
  obtain ⟨_, ha, _, hb, _, hc, _, hd, -⟩ := hcode
  simp only [List.forall_mem_cons]
  exact ⟨solid_of_hexValue ha, solid_of_hexValue hb, solid_of_hexValue hc, solid_of_hexValue hd,
    by simp⟩

/-- A word that ends here. -/
theorem WordPlace.scanned {read : List Char} {escaped : Bool}
    (hplace : WordPlace origin none read cursor)
    (hstop : ∀ c ∈ cursor.rest.head?, isIdentifierStart c = false ∧ c ≠ '\\') :
    Scanned origin (.word (String.ofList read.reverse) escaped, cursor) := by
  have hread : read ≠ [] := by
    intro hempty
    obtain ⟨c, rest, hrest, hstart⟩ := hplace.first rfl hempty
    obtain ⟨hother, hescape⟩ := hstop c (by rw [hrest]; rfl)
    rcases hstart with hstart | hstart
    · rw [hother] at hstart
      contradiction
    · exact hescape hstart
  refine ⟨fun _ => hplace.closes rfl hread, fun hword => ?_, fun h => (by contradiction)⟩
  obtain ⟨rfl, -⟩ := Token.word.inj hword
  rw [String.toList_ofList]
  exact hplace.named.resolve_left (by simpa using hread)

theorem scanWord_scanned (text : List Char) (offset : Nat) (braces : Option (Nat × Nat))
    (read : List Char) (escaped : Bool) (hplace : WordPlace origin braces read ⟨text, offset⟩) :
    Scanned origin (scanWord text offset braces read escaped) := by
  fun_induction scanWord text offset braces read escaped with
  | case1 | case4 | case6 | case9 | case10 => exact scanned_invalid _ _
  | case2 => exact hplace.scanned (by simp)
  | case3 offset read escaped c rest value start hclose part hpart ih =>
      obtain rfl : c = '}' := by simpa using hclose
      refine ih (.after hplace.named (hplace.reaches.closes ?_) (wordChar_eq_some hpart))
      exact closes_next rest offset (by decide)
  | case5 offset read escaped c rest value start _ digit hdigit ih =>
      refine ih (.within _ hplace.named (hplace.reaches.trans ?_))
      simpa [(solid_of_hexValue hdigit).1] using reaches_next c rest offset
  | case7 offset read escaped c hescape rest ih =>
      obtain rfl : c = '\\' := by simpa using hescape
      refine ih (.within _ hplace.named (hplace.reaches.trans ?_))
      exact reaches_append ('\\' :: 'u' :: '{' :: []) rest offset
  | case8 offset read escaped c hescape h1 h2 h3 h4 rest _ part hpart ih =>
      obtain rfl : c = '\\' := by simpa using hescape
      obtain ⟨code, hcode, hchar⟩ := Option.bind_eq_some_iff.mp hpart
      have hdigits := hexValue4_eq_some hcode
      simp only [List.forall_mem_cons] at hdigits
      obtain ⟨⟨hs1, -⟩, ⟨hs2, -⟩, ⟨hs3, -⟩, ⟨hs4, hsolid⟩, -⟩ := hdigits
      refine ih (.after hplace.named (hplace.reaches.closes ?_) (wordChar_eq_some hchar))
      have hcloses := closes_append ('\\' :: 'u' :: h1 :: h2 :: h3 :: []) rest offset hsolid
      have hsize : byteLength ['\\', 'u', h1, h2, h3] + h4.utf8Size = 6 := by
        simp only [byteLength_cons, byteLength_nil, hs1, hs2, hs3, hs4]
        decide
      rw [Nat.add_assoc, hsize] at hcloses
      exact hcloses
  | case11 offset read escaped c rest hescape hpart ih =>
      have hcloses := hplace.reaches.closes
        (closes_next rest offset (not_isBlank_of_isIdentifierPart hpart))
      refine ih (.after hplace.named hcloses ?_)
      split
      · rename_i hempty
        obtain ⟨first, more, hmore, hstart⟩ := hplace.first rfl (List.isEmpty_iff.mp hempty)
        obtain ⟨rfl, -⟩ := List.cons.inj hmore
        exact hstart.resolve_right (by simpa using hescape)
      · exact hpart
  | case12 offset read escaped c rest hescape hpart =>
      refine hplace.scanned fun other hother => ?_
      obtain rfl : c = other := by simpa using hother
      refine ⟨?_, by simpa using hescape⟩
      rw [Bool.eq_false_iff]
      exact fun hstart => hpart (isIdentifierPart_of_isIdentifierStart hstart)

theorem scanString_scanned {quote : Char} (hquote : quote.utf8Size = 1 ∧ isBlank quote = false)
    (opening : Nat) (text : List Char) (offset : Nat) (braces : Option (Nat × Nat))
    (read : List Char) (hplace : origin.Reaches ⟨text, offset⟩) :
    Scanned origin (scanString quote opening text offset braces read) := by
  fun_induction scanString quote opening text offset braces read with
  | case1 | case3 | case5 | case7 | case11 | case13 | case14 | case16 | case17 | case19 | case21 =>
      exact scanned_invalid _ _
  | case2 offset read c rest value start hclose _ ih =>
      exact ih (hplace.skip [c] (by simp [eq_of_beq hclose]; decide))
  | case4 offset read c rest value start _ digit hdigit ih =>
      exact ih (hplace.skip [c] (by simp [solid_of_hexValue hdigit]))
  | case6 offset read c rest hclose =>
      obtain rfl : c = quote := eq_of_beq hclose
      have hcloses := closes_next rest offset hquote.2
      rw [hquote.1] at hcloses
      exact ⟨fun _ => hplace.closes hcloses, fun h => (by contradiction),
        fun h => (by contradiction)⟩
  | case8 offset read c _ _ hescape rest ih =>
      exact ih (hplace.skip [c, '\r', '\n'] (by rw [eq_of_beq hescape]; decide))
  | case9 offset read c _ _ hescape rest ih =>
      exact ih (hplace.skip [c, 'u', '{'] (by rw [eq_of_beq hescape]; decide))
  | case10 offset read c _ _ hescape h1 h2 h3 h4 rest _ code hcode ih =>
      have hdigits := hexValue4_eq_some hcode
      simp only [List.forall_mem_cons] at hdigits
      refine ih (hplace.skip [c, 'u', h1, h2, h3, h4] ?_)
      simp only [byteLength_cons, hdigits, eq_of_beq hescape]
      decide
  | case12 offset read c _ _ hescape h1 h2 rest a b hb ha ih =>
      refine ih (hplace.skip [c, 'x', h1, h2] ?_)
      simp only [byteLength_cons, solid_of_hexValue ha, solid_of_hexValue hb, eq_of_beq hescape]
      decide
  | case15 offset read c _ _ hescape e rest _ _ _ _ _ _ ih
  | case20 offset read c _ _ hescape e rest _ _ _ _ _ _ _ _ ih =>
      have hplace := hplace.skip [c, e]
        (show byteLength [c, e] = 1 + e.utf8Size by rw [eq_of_beq hescape]; simp; decide)
      exact ih (by rwa [Nat.add_assoc])
  | case18 offset read c _ _ hescape e _ _ _ hzero d rest _ _ _ _ _ ih =>
      exact ih (hplace.skip [c, e] (by rw [eq_of_beq hescape, eq_of_beq hzero]; decide))
  | case22 offset read c rest _ _ _ ih => exact ih (hplace.skip [c] (by simp))

/-- Template text ends behind a quote or a brace. -/
theorem scanTemplate_closes {chunk : TemplateChunk} (text : List Char) (offset : Nat)
    (bad : Option Nat) (hplace : origin.Reaches ⟨text, offset⟩)
    (hscan : scanTemplate text offset bad = some chunk) : origin.Closes chunk.cursor := by
  fun_induction scanTemplate text offset bad with
  | case1 | case4 => contradiction
  | case2 offset bad c rest hquote =>
      obtain rfl := Option.some.inj hscan
      exact hplace.closes_solid (by rw [eq_of_beq hquote]; decide)
  | case3 offset bad c _ hescape e rest ih =>
      have hplace := hplace.skip [c, e]
        (show byteLength [c, e] = 1 + e.utf8Size by rw [eq_of_beq hescape]; simp; decide)
      exact ih (by rwa [Nat.add_assoc]) hscan
  | case5 offset bad c _ _ hdollar rest =>
      obtain rfl := Option.some.inj hscan
      exact (hplace.skip [c] (by rw [eq_of_beq hdollar]; decide)).closes_solid (by decide)
  | case6 offset bad c _ _ hdollar rest _ ih =>
      exact ih (hplace.skip [c] (by rw [eq_of_beq hdollar]; decide)) hscan
  | case7 offset bad c rest _ _ _ ih => exact ih (hplace.skip [c] (by simp)) hscan

/-! ## Regular expressions -/

theorem scanRegExpBody_closes (text : List Char) (offset : Nat) (inClass : Bool)
    (hplace : origin.Reaches ⟨text, offset⟩)
    (hscan : scanRegExpBody text offset inClass = some cursor) : origin.Closes cursor := by
  fun_induction scanRegExpBody text offset inClass with
  | case1 | case2 | case3 | case5 => contradiction
  | case4 offset inClass c _ hescape e rest _ ih =>
      have hplace := hplace.skip [c, e]
        (show byteLength [c, e] = 1 + e.utf8Size by rw [eq_of_beq hescape]; simp; decide)
      exact ih (by rwa [Nat.add_assoc]) hscan
  | case6 offset inClass c rest _ _ hslash =>
      obtain rfl := Option.some.inj hscan
      have hslash : c = '/' := by simpa using (Bool.and_eq_true_iff.mp hslash).1
      exact hplace.closes_solid (by rw [hslash]; decide)
  | case7 offset inClass c rest _ _ _ ih => exact ih (hplace.skip [c] (by simp)) hscan

/-- Behind parts of a word the text closes if it does before them. -/
theorem Cursor.Closes.takeWhile (hplace : origin.Closes ⟨text, offset⟩) :
    origin.Closes ⟨text.dropWhile isIdentifierPart,
      offset + byteLength (text.takeWhile isIdentifierPart)⟩ := by
  induction text generalizing offset with
  | nil => exact hplace
  | cons c rest ih =>
      by_cases hpart : isIdentifierPart c = true
      · rw [List.dropWhile_cons_of_pos hpart, List.takeWhile_cons_of_pos hpart, byteLength_cons,
          ← Nat.add_assoc]
        refine ih (hplace.reaches.closes (closes_next rest offset ?_))
        exact not_isBlank_of_isIdentifierPart hpart
      · rw [List.dropWhile_cons_of_neg hpart, List.takeWhile_cons_of_neg hpart]
        exact hplace

theorem scanRegExp_closes {valid : Bool} (hplace : origin.Reaches ⟨text, offset⟩)
    (hscan : scanRegExp text offset = some (valid, cursor)) : origin.Closes cursor := by
  simp only [scanRegExp, bind, Option.bind_eq_some_iff] at hscan
  obtain ⟨body, hbody, hresult⟩ := hscan
  obtain ⟨-, rfl⟩ := Prod.mk.inj (Option.some.inj hresult)
  exact (scanRegExpBody_closes text offset false hplace hbody).takeWhile

/-! ## Numbers -/

theorem solid_of_digitValue {base : Nat} (hdigit : (digitValue base c).isSome = true) :
    c.utf8Size = 1 ∧ isBlank c = false := by
  unfold digitValue at hdigit
  split at hdigit
  · exact solid_of_hexValue ‹_›
  · contradiction

theorem scanDigits_closes {base count total : Nat} {after : Bool}
    (hplace : origin.Closes ⟨text, offset⟩)
    (hscan : scanDigits base text count after = some (total, rest)) :
    ∃ more, total = count + more ∧ origin.Closes ⟨rest, offset + more⟩ := by
  fun_induction scanDigits base text count after generalizing offset with
  | case1 | case6 =>
      obtain ⟨rfl, rfl⟩ := Prod.mk.inj (Option.some.inj hscan)
      exact ⟨0, rfl, hplace⟩
  | case2 count after c hseparator d rest _ ih =>
      have hnext := hplace.reaches.closes_solid (by rw [eq_of_beq hseparator]; decide)
      obtain ⟨more, htotal, hcloses⟩ := ih hnext hscan
      exact ⟨1 + more, by omega, by rwa [← Nat.add_assoc]⟩
  | case3 | case4 => contradiction
  | case5 count after c rest _ hdigit ih =>
      obtain ⟨more, htotal, hcloses⟩ :=
        ih (hplace.reaches.closes_solid (solid_of_digitValue hdigit)) hscan
      exact ⟨1 + more, by omega, by rwa [← Nat.add_assoc]⟩

theorem scanned_number (hplace : origin.Closes cursor) : Scanned origin (.number, cursor) :=
  ⟨fun _ => hplace, fun h => (by contradiction), fun h => (by contradiction)⟩

theorem finishNumber_scanned (hplace : origin.Closes ⟨text, offset⟩) :
    Scanned origin (finishNumber text offset) := by
  unfold finishNumber
  split
  · split
    · exact scanned_invalid _ _
    · exact scanned_number hplace
  · exact scanned_number hplace

/-- A number that ends with its next digits. -/
theorem scanned_digits {base opening : Nat} (next : List Char → Nat → Token × Cursor)
    (hnext : ∀ {rest offset}, origin.Closes ⟨rest, offset⟩ → Scanned origin (next rest offset))
    (hplace : origin.Closes ⟨text, offset⟩) :
    Scanned origin
      (match scanDigits base text 0 false with
      | some (0, rest) => (.invalid opening, ⟨rest, offset⟩)
      | some (count, rest) => next rest (offset + count)
      | none => (.invalid opening, ⟨text, offset⟩)) := by
  split
  · exact scanned_invalid _ _
  · rename_i count rest _ hscan
    obtain ⟨more, rfl, hcloses⟩ := scanDigits_closes hplace hscan
    rw [Nat.zero_add]
    exact hnext hcloses
  · exact scanned_invalid _ _

theorem scanExponent_scanned (opening : Nat) (hplace : origin.Closes ⟨text, offset⟩) :
    Scanned origin (scanExponent opening text offset) := by
  unfold scanExponent
  dsimp only
  split
  · rename_i e sign rest
    split
    · rename_i hexponent
      have hsolid : e.utf8Size = 1 ∧ isBlank e = false := by
        rcases Bool.or_eq_true_iff.mp hexponent with he | he <;> rw [eq_of_beq he] <;> decide
      have hsign := hplace.reaches.closes_solid hsolid
      split
      · rename_i hsigned
        refine scanned_digits finishNumber finishNumber_scanned (hsign.reaches.closes_solid ?_)
        rcases Bool.or_eq_true_iff.mp hsigned with h | h <;> rw [eq_of_beq h] <;> decide
      · exact scanned_digits finishNumber finishNumber_scanned hsign
    · exact finishNumber_scanned hplace
  · exact scanned_invalid _ _
  · exact scanned_invalid _ _
  · exact finishNumber_scanned hplace

theorem scanFraction_scanned (opening : Nat) (hplace : origin.Closes ⟨text, offset⟩) :
    Scanned origin (scanFraction opening text offset) := by
  unfold scanFraction
  split
  · rename_i count rest hscan
    obtain ⟨more, rfl, hcloses⟩ := scanDigits_closes hplace hscan
    rw [Nat.zero_add]
    exact scanExponent_scanned opening hcloses
  · exact scanned_invalid _ _

theorem scanInteger_scanned (base opening : Nat) (hplace : origin.Closes ⟨text, offset⟩) :
    Scanned origin (scanInteger base opening text offset) := by
  unfold scanInteger
  split
  · exact scanned_invalid _ _
  · rename_i count rest _ hscan
    obtain ⟨more, rfl, hcloses⟩ := scanDigits_closes hplace hscan
    rw [Nat.zero_add]
    exact finishNumber_scanned (hcloses.reaches.closes_solid (by decide))
  · rename_i count rest _ _ hscan
    obtain ⟨more, rfl, hcloses⟩ := scanDigits_closes hplace hscan
    rw [Nat.zero_add]
    exact finishNumber_scanned hcloses
  · exact scanned_invalid _ _

/-- The digits of decimal numbers. -/
theorem digitValue_of_isDigit (hdigit : c.isDigit = true) :
    c ≠ '_' ∧ (digitValue 10 c).isSome = true := by
  obtain ⟨hlower, hupper⟩ : 48 ≤ c.toNat ∧ c.toNat ≤ 57 := by
    simpa [Char.isDigit, UInt32.le_iff_toNat_le, ge_iff_le] using hdigit
  refine ⟨?_, ?_⟩
  · rintro rfl
    contradiction
  · have hhex : hexValue c = some (c.toNat - 48) := by
      unfold hexValue
      rw [if_pos]
      · rfl
      · simpa [Char.le_def, UInt32.le_iff_toNat_le] using ⟨hlower, hupper⟩
    unfold digitValue
    rw [hhex]
    have : c.toNat - 48 < 10 := by omega
    simp [this]

theorem scanNumber_scanned (hplace : origin.Reaches ⟨c :: rest, offset⟩)
    (hfirst : c.isDigit = true ∨ c = '.') : Scanned origin (scanNumber (c :: rest) offset) := by
  have hnext : origin.Closes ⟨rest, offset + 1⟩ := by
    refine hplace.closes_solid ?_
    rcases hfirst with hdigit | rfl
    · exact solid_of_digitValue (digitValue_of_isDigit hdigit).2
    · decide
  unfold scanNumber
  split
  · rename_i marker rest heq
    obtain ⟨-, rfl⟩ := List.cons.inj heq
    -- the marker of a base, of an integer or of a fraction is a visible character
    have hmarker : ∀ visible : Char, visible.utf8Size = 1 ∧ isBlank visible = false →
        marker = visible → origin.Closes ⟨rest, offset + 2⟩ := by
      rintro visible hvisible rfl
      exact hnext.reaches.closes_solid hvisible
    have heither : ∀ first second : Char, first.utf8Size = 1 ∧ isBlank first = false →
        second.utf8Size = 1 ∧ isBlank second = false →
        (marker == first || marker == second) = true → origin.Closes ⟨rest, offset + 2⟩ := by
      intro first second hfirst hsecond hor
      rcases Bool.or_eq_true_iff.mp hor with h | h
      · exact hmarker first hfirst (eq_of_beq h)
      · exact hmarker second hsecond (eq_of_beq h)
    split
    · exact scanInteger_scanned 16 offset (heither 'x' 'X' (by decide) (by decide) ‹_›)
    split
    · exact scanInteger_scanned 8 offset (heither 'o' 'O' (by decide) (by decide) ‹_›)
    split
    · exact scanInteger_scanned 2 offset (heither 'b' 'B' (by decide) (by decide) ‹_›)
    split
    · exact scanned_invalid _ _
    split
    · exact finishNumber_scanned (hmarker 'n' (by decide) (eq_of_beq ‹_›))
    split
    · exact scanFraction_scanned offset (hmarker '.' (by decide) (eq_of_beq ‹_›))
    · exact scanExponent_scanned offset hnext
  · rename_i rest heq
    obtain ⟨-, rfl⟩ := List.cons.inj heq
    exact scanFraction_scanned offset hnext
  · rename_i hzero hpoint
    have hdigit := digitValue_of_isDigit (hfirst.resolve_right fun h => hpoint rest (by rw [h]))
    have hstep : scanDigits 10 (c :: rest) 0 false = scanDigits 10 rest 1 true := by
      rw [scanDigits.eq_def]
      dsimp only
      rw [if_neg (by simpa using hdigit.1), if_pos hdigit.2]
    have hcloses : ∀ count later, scanDigits 10 (c :: rest) 0 false = some (count, later) →
        origin.Closes ⟨later, offset + count⟩ := by
      intro count later hscan
      obtain ⟨more, rfl, hcloses⟩ := scanDigits_closes hnext (hstep ▸ hscan)
      rwa [← Nat.add_assoc]
    split
    · exact finishNumber_scanned ((hcloses _ _ ‹_›).reaches.closes_solid (by decide))
    · exact scanFraction_scanned offset ((hcloses _ _ ‹_›).reaches.closes_solid (by decide))
    · exact scanExponent_scanned offset (hcloses _ _ ‹_›)
    · exact scanned_invalid _ _

/-! ## Punctuators -/

theorem punctuators_visible : (punctuators.all fun found =>
    !found.isEmpty && found.all fun c => 32 < c.toNat && c.toNat < 128) = true := by
  decide +kernel

theorem solid_of_mem_punctuators {found : List Char} (hfound : found ∈ punctuators) :
    found ≠ [] ∧ ∀ c ∈ found, c.utf8Size = 1 ∧ isBlank c = false := by
  have hvisible := List.all_eq_true.mp punctuators_visible found hfound
  rw [Bool.and_eq_true, List.all_eq_true] at hvisible
  refine ⟨by simpa using hvisible.1, fun c hc => ?_⟩
  obtain ⟨hlower, hupper⟩ := Bool.and_eq_true_iff.mp (hvisible.2 c hc)
  exact solid_of_toNat (of_decide_eq_true hlower) (of_decide_eq_true hupper)

theorem scanPunctuator_scanned (text : List Char) (offset : Nat) :
    Scanned ⟨text, offset⟩ (scanPunctuator text offset) := by
  unfold scanPunctuator
  cases hfind : punctuators.find? (·.isPrefixOf text) with
  | none => exact scanned_invalid _ _
  | some found =>
      have hstarts := List.find?_some (p := fun front : List Char => front.isPrefixOf text) hfind
      obtain ⟨hne, hsolid⟩ := solid_of_mem_punctuators (List.mem_of_find?_eq_some hfind)
      obtain ⟨rest, rfl⟩ := List.isPrefixOf_iff_prefix.mp hstarts
      -- a punctuator that is read as it is found
      have hspelled : ∀ (front later : List Char) (spelling : String), front ≠ [] →
          (∀ c ∈ front, c.utf8Size = 1 ∧ isBlank c = false) → spelling.toList = front →
          Scanned ⟨front ++ later, offset⟩
            (.punctuator spelling, ⟨later, offset + front.length⟩) := by
        intro front later spelling hne hsolid hspelling
        refine ⟨fun _ => (Reaches.refl _).closes_visible hne hsolid, fun h => (by contradiction),
          fun h => ?_⟩
        rw [← Token.punctuator.inj h, hspelling]
      dsimp only
      split
      · rename_i first second d later heq
        obtain ⟨rfl, rfl, rfl⟩ : '?' = first ∧ '.' = second ∧ rest = d :: later := by
          simpa using heq
        split
        · have hquestion : ∀ c ∈ ['?'], c.utf8Size = 1 ∧ isBlank c = false :=
            List.forall_mem_singleton.mpr (solid_of_toNat (by decide) (by decide))
          exact hspelled ['?'] ('.' :: d :: later) "?" (by simp) hquestion rfl
        · exact hspelled ['?', '.'] (d :: later) "?." hne hsolid rfl
      · rw [List.drop_left]
        exact hspelled _ rest _ hne hsolid String.toList_ofList

theorem scanToken_scanned (text : List Char) (offset : Nat) :
    Scanned ⟨text, offset⟩ (scanToken text offset) := by
  unfold scanToken
  split
  · exact ⟨fun h => (by contradiction), fun h => (by contradiction), fun h => (by contradiction)⟩
  · rename_i c rest
    split
    · rename_i hstart
      refine scanWord_scanned _ _ _ _ _ ⟨Or.inl rfl, .refl _, fun _ h => absurd rfl h, ?_⟩
      exact fun _ _ => ⟨c, rest, rfl, (Bool.or_eq_true_iff.mp hstart).imp_right eq_of_beq⟩
    split
    · exact scanNumber_scanned (.refl _) (Or.inl ‹_›)
    split
    · rename_i hquote
      have hsolid : c.utf8Size = 1 ∧ isBlank c = false := by
        rcases Bool.or_eq_true_iff.mp hquote with h | h <;> rw [eq_of_beq h] <;> decide
      exact scanString_scanned hsolid _ _ _ _ _ ((Reaches.refl _).closes_solid hsolid).reaches
    split
    · rename_i heq
      obtain ⟨rfl, rfl⟩ := List.cons.inj heq
      split
      · exact scanNumber_scanned (.refl _) (Or.inr rfl)
      · exact scanPunctuator_scanned _ _
    · exact scanPunctuator_scanned _ _

/-! ## Lexemes -/

/-- What is right of a lexeme that is read from a place on. -/
structure Lexeme.Right (origin : Cursor) (lexeme : Lexeme) : Prop where
  start : origin.Reaches ⟨lexeme.start, lexeme.span.start⟩
  scanned : Scanned ⟨lexeme.start, lexeme.span.start⟩
    (lexeme.token, ⟨lexeme.rest, lexeme.span.stop⟩)
  /-- Nothing stands before a token that could be skipped. -/
  first : lexeme.token.isProper = true → ∀ c ∈ lexeme.start.head?, isGap c = false
  comments : ∀ comment ∈ lexeme.comments, Comment.Stands origin comment

theorem nextLexeme_right (cursor : Cursor) (first : Bool) :
    (nextLexeme cursor first).Right cursor := by
  have hgap := skipGap_right .between cursor.rest cursor.offset first [] none (.refl cursor) trivial
    (by simp)
  unfold nextLexeme
  generalize skipGap .between cursor.rest cursor.offset first [] none = gap at hgap ⊢
  have hscanned := scanToken_scanned gap.cursor.rest gap.cursor.offset
  have hcomments : ∀ comment ∈ gap.comments.reverse, Comment.Stands cursor comment :=
    fun comment hcomment => hgap.comments comment (List.mem_reverse.mp hcomment)
  dsimp only
  cases hunclosed : gap.unclosed with
  | some opening =>
      exact ⟨hgap.place, scanned_invalid _ _, fun h => (by contradiction), hcomments⟩
  | none =>
      refine ⟨hgap.place, ?_, fun _ => hgap.next hunclosed, hcomments⟩
      dsimp only
      split
      · rename_i name finish hword
        rw [hword] at hscanned
        split
        · exact scanned_invalid _ _
        · exact hscanned
      · exact hscanned

end Script
end ScriptBundler

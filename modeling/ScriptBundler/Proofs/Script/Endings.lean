import ScriptBundler.Proofs.Script.Lexemes

/-!
# How tokens end

A semicolon within a token is a part of a string, a template or a regular expression, and those go
on behind it.  So no token ends with a semicolon but the semicolon itself.
-/

namespace ScriptBundler
namespace Script

open Text

/-- Whether a text is read up to the rest of it without ending behind a semicolon. -/
def Spares (text rest : List Char) : Prop :=
  ∃ word, text = word ++ rest ∧ word.getLast? ≠ some ';'

variable {text middle rest : List Char} {offset : Nat} {token : Token} {cursor : Cursor}

namespace Spares

theorem refl (text : List Char) : Spares text text :=
  ⟨[], rfl, by simp⟩

theorem trans (hfirst : Spares text middle) (hsecond : Spares middle rest) : Spares text rest := by
  obtain ⟨word, rfl, hword⟩ := hfirst
  obtain ⟨more, rfl, hmore⟩ := hsecond
  refine ⟨word ++ more, (List.append_assoc _ _ _).symm, ?_⟩
  cases more with
  | nil => rwa [List.append_nil]
  | cons c more =>
      rw [List.getLast?_append, List.getLast?_cons]
      rwa [List.getLast?_cons] at hmore

/-- A text that is read up to another character. -/
theorem of_append (front : List Char) {c : Char} (hother : c ≠ ';') :
    Spares (front ++ c :: rest) rest :=
  ⟨front ++ [c], by simp, by simpa using hother⟩

theorem next {c : Char} (hother : c ≠ ';') : Spares (c :: rest) rest :=
  of_append [] hother

end Spares

theorem ne_semicolon_of_isIdentifierPart {c : Char} (hpart : isIdentifierPart c = true) :
    c ≠ ';' := by
  rintro rfl
  exact absurd hpart (by decide)

theorem ne_semicolon_of_hexValue {c : Char} {digit : Nat} (hdigit : hexValue c = some digit) :
    c ≠ ';' := by
  rintro rfl
  rw [show hexValue ';' = none by decide] at hdigit
  contradiction

theorem ne_semicolon_of_digitValue {base : Nat} {c : Char}
    (hdigit : (digitValue base c).isSome = true) : c ≠ ';' := by
  rintro rfl
  exact absurd hdigit (by simp [digitValue, show hexValue ';' = none by decide])

theorem scanWord_spares (text : List Char) (offset : Nat) (braces : Option (Nat × Nat))
    (read : List Char) (escaped : Bool)
    (hscan : scanWord text offset braces read escaped = (token, cursor))
    (hproper : token.isProper = true) : Spares text cursor.rest := by
  fun_induction scanWord text offset braces read escaped with
  | case1 | case4 | case6 | case9 | case10 =>
      obtain ⟨rfl, -⟩ := Prod.mk.inj hscan
      contradiction
  | case2 | case12 =>
      obtain ⟨-, rfl⟩ := Prod.mk.inj hscan
      exact .refl _
  | case3 _ _ _ _ _ _ _ hclose _ _ ih =>
      exact (Spares.next (by rw [eq_of_beq hclose]; decide)).trans (ih hscan)
  | case5 _ _ _ _ _ _ _ _ _ hdigit ih =>
      exact (Spares.next (ne_semicolon_of_hexValue hdigit)).trans (ih hscan)
  | case7 _ _ _ c _ rest ih => exact (Spares.of_append [c, 'u'] (by decide)).trans (ih hscan)
  | case8 _ _ _ c _ h1 h2 h3 h4 rest _ _ hpart ih =>
      obtain ⟨code, hcode, -⟩ := Option.bind_eq_some_iff.mp hpart
      have hlast : h4 ≠ ';' := by
        rintro rfl
        simp [hexValue4, show hexValue ';' = none by decide] at hcode
      exact (Spares.of_append [c, 'u', h1, h2, h3] hlast).trans (ih hscan)
  | case11 _ _ _ _ _ _ hpart ih =>
      exact (Spares.next (ne_semicolon_of_isIdentifierPart hpart)).trans (ih hscan)

/-- A string ends with its quote. -/
theorem exists_of_scanString {quote : Char} (opening : Nat) (text : List Char) (offset : Nat)
    (braces : Option (Nat × Nat)) (read : List Char)
    (hscan : scanString quote opening text offset braces read = (token, cursor))
    (hproper : token.isProper = true) : ∃ front, text = front ++ quote :: cursor.rest := by
  fun_induction scanString quote opening text offset braces read with
  | case1 | case3 | case5 | case7 | case11 | case13 | case14 | case16 | case17 | case19 | case21 =>
      obtain ⟨rfl, -⟩ := Prod.mk.inj hscan
      contradiction
  | case6 offset read c rest hclose =>
      obtain ⟨-, rfl⟩ := Prod.mk.inj hscan
      exact ⟨[], by rw [eq_of_beq hclose]; rfl⟩
  | case2 _ _ c _ _ _ _ _ ih | case4 _ _ c _ _ _ _ _ _ ih | case22 _ _ c _ _ _ _ ih =>
      obtain ⟨front, rfl⟩ := ih hscan
      exact ⟨c :: front, rfl⟩
  | case8 _ _ c _ _ _ _ ih =>
      obtain ⟨front, rfl⟩ := ih hscan
      exact ⟨c :: '\r' :: '\n' :: front, rfl⟩
  | case9 _ _ c _ _ _ _ ih =>
      obtain ⟨front, rfl⟩ := ih hscan
      exact ⟨c :: 'u' :: '{' :: front, rfl⟩
  | case10 _ _ c _ _ _ h1 h2 h3 h4 _ _ _ _ ih =>
      obtain ⟨front, rfl⟩ := ih hscan
      exact ⟨c :: 'u' :: h1 :: h2 :: h3 :: h4 :: front, rfl⟩
  | case12 _ _ c _ _ _ h1 h2 _ _ _ _ _ ih =>
      obtain ⟨front, rfl⟩ := ih hscan
      exact ⟨c :: 'x' :: h1 :: h2 :: front, rfl⟩
  | case15 _ _ c _ _ _ e _ _ _ _ _ _ _ ih | case20 _ _ c _ _ _ e _ _ _ _ _ _ _ _ _ ih =>
      obtain ⟨front, rfl⟩ := ih hscan
      exact ⟨c :: e :: front, rfl⟩
  | case18 _ _ c _ _ _ e _ _ _ _ _ _ _ _ _ _ _ ih =>
      obtain ⟨front, hfront⟩ := ih hscan
      exact ⟨c :: e :: front, by rw [hfront]; rfl⟩

/-- Template text ends with a quote or the opening brace of a substitution. -/
theorem scanTemplate_spares {chunk : TemplateChunk} (text : List Char) (offset : Nat)
    (bad : Option Nat) (hscan : scanTemplate text offset bad = some chunk) :
    ∃ front c, c ≠ ';' ∧ text = front ++ c :: chunk.cursor.rest := by
  fun_induction scanTemplate text offset bad with
  | case1 | case4 => contradiction
  | case2 _ _ c _ hquote =>
      obtain rfl := Option.some.inj hscan
      exact ⟨[], c, by rw [eq_of_beq hquote]; decide, rfl⟩
  | case5 _ _ c _ _ _ _ =>
      obtain rfl := Option.some.inj hscan
      exact ⟨[c], '{', by decide, rfl⟩
  | case3 _ _ c _ _ e _ ih =>
      obtain ⟨front, d, hother, rfl⟩ := ih hscan
      exact ⟨c :: e :: front, d, hother, rfl⟩
  | case6 _ _ c _ _ _ _ _ ih | case7 _ _ c _ _ _ _ ih =>
      obtain ⟨front, d, hother, rfl⟩ := ih hscan
      exact ⟨c :: front, d, hother, rfl⟩

theorem exists_of_scanRegExpBody (text : List Char) (offset : Nat) (inClass : Bool)
    (hscan : scanRegExpBody text offset inClass = some cursor) :
    ∃ front, text = front ++ '/' :: cursor.rest := by
  fun_induction scanRegExpBody text offset inClass with
  | case1 | case2 | case3 | case5 => contradiction
  | case4 _ _ c _ _ e _ _ ih =>
      obtain ⟨front, rfl⟩ := ih hscan
      exact ⟨c :: e :: front, rfl⟩
  | case6 _ _ c _ _ _ hslash =>
      obtain rfl := Option.some.inj hscan
      exact ⟨[], by rw [eq_of_beq (Bool.and_eq_true_iff.mp hslash).1]; rfl⟩
  | case7 _ _ c _ _ _ _ ih =>
      obtain ⟨front, rfl⟩ := ih hscan
      exact ⟨c :: front, rfl⟩

theorem scanRegExp_spares {valid : Bool} (hscan : scanRegExp text offset = some (valid, cursor)) :
    Spares text cursor.rest := by
  simp only [scanRegExp, bind, Option.bind_eq_some_iff] at hscan
  obtain ⟨body, hbody, hresult⟩ := hscan
  obtain ⟨-, rfl⟩ := Prod.mk.inj (Option.some.inj hresult)
  obtain ⟨front, rfl⟩ := exists_of_scanRegExpBody text offset false hbody
  refine (Spares.of_append front (by decide)).trans ⟨_, List.takeWhile_append_dropWhile.symm, ?_⟩
  intro hlast
  exact ne_semicolon_of_isIdentifierPart
    (List.mem_takeWhile_imp (List.mem_of_getLast? hlast)) rfl

/-! ## Numbers -/

theorem scanDigits_spares {base count total : Nat} {after : Bool}
    (hscan : scanDigits base text count after = some (total, rest)) : Spares text rest := by
  fun_induction scanDigits base text count after with
  | case1 | case6 =>
      obtain ⟨-, rfl⟩ := Prod.mk.inj (Option.some.inj hscan)
      exact .refl _
  | case2 _ _ c hseparator _ _ _ ih =>
      exact (Spares.next (by rw [eq_of_beq hseparator]; decide)).trans (ih hscan)
  | case3 | case4 => contradiction
  | case5 _ _ _ _ _ hdigit ih =>
      exact (Spares.next (ne_semicolon_of_digitValue hdigit)).trans (ih hscan)

theorem finishNumber_spares (hscan : finishNumber text offset = (token, cursor)) :
    Spares text cursor.rest := by
  unfold finishNumber at hscan
  split at hscan
  · split at hscan <;>
    · obtain ⟨-, rfl⟩ := Prod.mk.inj hscan
      exact .refl _
  · obtain ⟨-, rfl⟩ := Prod.mk.inj hscan
    exact .refl _

theorem exponentDigits_spares {opening : Nat}
    (hscan : (match scanDigits 10 text 0 false with
      | some (0, rest) => (.invalid opening, ⟨rest, offset⟩)
      | some (count, rest) => finishNumber rest (offset + count)
      | none => (.invalid opening, ⟨text, offset⟩)) = (token, cursor)) :
    Spares text cursor.rest := by
  split at hscan
  · rename_i hdigits
    obtain ⟨-, rfl⟩ := Prod.mk.inj hscan
    exact scanDigits_spares hdigits
  · rename_i hdigits
    exact (scanDigits_spares hdigits).trans (finishNumber_spares hscan)
  · obtain ⟨-, rfl⟩ := Prod.mk.inj hscan
    exact .refl _

theorem scanExponent_spares {opening : Nat}
    (hscan : scanExponent opening text offset = (token, cursor)) : Spares text cursor.rest := by
  unfold scanExponent at hscan
  dsimp only at hscan
  split at hscan
  · rename_i e sign more
    split at hscan
    · rename_i hexponent
      have hother : e ≠ ';' := by
        rintro rfl
        exact absurd hexponent (by decide)
      split at hscan
      · rename_i hsign
        have hsigned : sign ≠ ';' := by
          rintro rfl
          exact absurd hsign (by decide)
        exact (Spares.of_append [e] hsigned).trans (exponentDigits_spares hscan)
      · exact (Spares.next hother).trans (exponentDigits_spares hscan)
    · exact finishNumber_spares hscan
  · obtain ⟨-, rfl⟩ := Prod.mk.inj hscan
    exact .next (by decide)
  · obtain ⟨-, rfl⟩ := Prod.mk.inj hscan
    exact .next (by decide)
  · exact finishNumber_spares hscan

theorem scanFraction_spares {opening : Nat}
    (hscan : scanFraction opening text offset = (token, cursor)) : Spares text cursor.rest := by
  unfold scanFraction at hscan
  split at hscan
  · rename_i hdigits
    exact (scanDigits_spares hdigits).trans (scanExponent_spares hscan)
  · obtain ⟨-, rfl⟩ := Prod.mk.inj hscan
    exact .refl _

theorem scanInteger_spares {base opening : Nat}
    (hscan : scanInteger base opening text offset = (token, cursor)) :
    Spares text cursor.rest := by
  unfold scanInteger at hscan
  split at hscan
  · rename_i hdigits
    obtain ⟨-, rfl⟩ := Prod.mk.inj hscan
    exact scanDigits_spares hdigits
  · rename_i hdigits
    exact (scanDigits_spares hdigits).trans
      ((Spares.next (by decide)).trans (finishNumber_spares hscan))
  · rename_i hdigits
    exact (scanDigits_spares hdigits).trans (finishNumber_spares hscan)
  · obtain ⟨-, rfl⟩ := Prod.mk.inj hscan
    exact .refl _

theorem scanNumber_spares (hscan : scanNumber text offset = (token, cursor)) :
    Spares text cursor.rest := by
  unfold scanNumber at hscan
  split at hscan
  · rename_i marker more
    have hinteger : ∀ {base}, scanInteger base offset more (offset + 2) = (token, cursor) →
        marker ≠ ';' → Spares ('0' :: marker :: more) cursor.rest :=
      fun hscan hother => (Spares.of_append ['0'] hother).trans (scanInteger_spares hscan)
    -- a marker is spelled in two ways, and neither is a semicolon
    have hmarker : ∀ {c d : Char}, (marker == c || marker == d) = true → c ≠ ';' → d ≠ ';' →
        marker ≠ ';' := by
      rintro c d hmarker hc hd rfl
      rcases Bool.or_eq_true_iff.mp hmarker with h | h
      · exact hc (eq_of_beq h).symm
      · exact hd (eq_of_beq h).symm
    split at hscan
    · exact hinteger hscan (hmarker ‹_› (by decide) (by decide))
    split at hscan
    · exact hinteger hscan (hmarker ‹_› (by decide) (by decide))
    split at hscan
    · exact hinteger hscan (hmarker ‹_› (by decide) (by decide))
    split at hscan
    · obtain ⟨-, rfl⟩ := Prod.mk.inj hscan
      exact .next (by decide)
    split at hscan
    · rename_i hlong
      have hother : marker ≠ ';' := by rw [eq_of_beq hlong]; decide
      exact (Spares.of_append ['0'] hother).trans (finishNumber_spares hscan)
    split at hscan
    · rename_i hpoint
      have hother : marker ≠ ';' := by rw [eq_of_beq hpoint]; decide
      exact (Spares.of_append ['0'] hother).trans (scanFraction_spares hscan)
    · exact (Spares.next (by decide)).trans (scanExponent_spares hscan)
  · exact (Spares.next (by decide)).trans (scanFraction_spares hscan)
  · split at hscan
    · rename_i hdigits
      exact (scanDigits_spares hdigits).trans
        ((Spares.next (by decide)).trans (finishNumber_spares hscan))
    · rename_i hdigits
      exact (scanDigits_spares hdigits).trans
        ((Spares.next (by decide)).trans (scanFraction_spares hscan))
    · rename_i hdigits
      exact (scanDigits_spares hdigits).trans (scanExponent_spares hscan)
    · obtain ⟨-, rfl⟩ := Prod.mk.inj hscan
      exact .refl _

/-! ## Tokens -/

theorem punctuators_endings : (punctuators.all fun found =>
    found == [';'] || found.getLast? != some ';') = true := by
  decide +kernel

theorem scanPunctuator_spares (hscan : scanPunctuator text offset = (token, cursor))
    (hproper : token.isProper = true) (hother : token ≠ .punctuator ";") :
    Spares text cursor.rest := by
  have hspelled : ∀ {spelling}, token = .punctuator spelling →
      text = spelling.toList ++ cursor.rest := by
    intro spelling htoken
    have hspelled := (scanPunctuator_scanned text offset).spelled (by rw [hscan]; exact htoken)
    rwa [hscan] at hspelled
  cases hfind : punctuators.find? (·.isPrefixOf text) with
  | none =>
      unfold scanPunctuator at hscan
      rw [hfind] at hscan
      obtain ⟨rfl, -⟩ := Prod.mk.inj hscan
      contradiction
  | some found =>
      have hmember := List.all_eq_true.mp punctuators_endings found
        (List.mem_of_find?_eq_some hfind)
      have htoken : token = .punctuator (String.ofList found) ∨ token = .punctuator "?" := by
        unfold scanPunctuator at hscan
        rw [hfind] at hscan
        dsimp only at hscan
        split at hscan
        · split at hscan
          · exact Or.inr (Prod.mk.inj hscan).1.symm
          · exact Or.inl (Prod.mk.inj hscan).1.symm
        · exact Or.inl (Prod.mk.inj hscan).1.symm
      rcases htoken with htoken | htoken
      · refine ⟨found, by rw [hspelled htoken, String.toList_ofList], ?_⟩
        rcases Bool.or_eq_true_iff.mp hmember with hsame | hends
        · rw [eq_of_beq hsame] at htoken
          exact absurd htoken hother
        · simpa using hends
      · exact ⟨['?'], hspelled htoken, by decide⟩

/-- No token ends with a semicolon but the semicolon itself. -/
theorem scanToken_spares (hscan : scanToken text offset = (token, cursor))
    (hproper : token.isProper = true) (hother : token ≠ .punctuator ";") :
    Spares text cursor.rest := by
  unfold scanToken at hscan
  split at hscan
  · obtain ⟨rfl, -⟩ := Prod.mk.inj hscan
    contradiction
  split at hscan
  · exact scanWord_spares _ _ _ _ _ hscan hproper
  split at hscan
  · exact scanNumber_spares hscan
  split at hscan
  · rename_i c rest _ _ hquote
    obtain ⟨front, rfl⟩ := exists_of_scanString _ _ _ _ _ hscan hproper
    refine Spares.of_append (c :: front) ?_
    rcases Bool.or_eq_true_iff.mp hquote with h | h <;> rw [eq_of_beq h] <;> decide
  split at hscan
  · split at hscan
    · exact scanNumber_spares hscan
    · exact scanPunctuator_spares hscan hproper hother
  · exact scanPunctuator_spares hscan hproper hother

theorem nextLexeme_spares {origin : Cursor} {first : Bool}
    (hproper : (nextLexeme origin first).token.isProper = true)
    (hother : (nextLexeme origin first).token ≠ .punctuator ";") :
    Spares (nextLexeme origin first).start (nextLexeme origin first).rest := by
  obtain ⟨start, newline, comments, legacy, token, cursor, hskip, hscan, hkeyword⟩ :=
    exists_scanToken hproper
  rw [nextLexeme_of_scanToken _ hskip hscan hkeyword] at hproper hother ⊢
  exact scanToken_spares hscan hproper hother

/-- The characters of a punctuator are its name. -/
theorem word_of_punctuator {origin : Cursor} {first : Bool} {word : List Char} {text : String}
    (hstart : (nextLexeme origin first).start = word ++ (nextLexeme origin first).rest)
    (htoken : (nextLexeme origin first).token = .punctuator text) : word = text.toList :=
  List.append_cancel_right
    (hstart.symm.trans ((nextLexeme_right origin first).scanned.spelled htoken))

theorem getLast?_ne_semicolon {origin : Cursor} {first : Bool} {word : List Char}
    (hproper : (nextLexeme origin first).token.isProper = true)
    (hstart : (nextLexeme origin first).start = word ++ (nextLexeme origin first).rest)
    (hother : (nextLexeme origin first).token ≠ .punctuator ";") : word.getLast? ≠ some ';' := by
  obtain ⟨found, hfound, hlast⟩ := nextLexeme_spares hproper hother
  rwa [← List.append_cancel_right (hfound.symm.trans hstart)]

end Script
end ScriptBundler

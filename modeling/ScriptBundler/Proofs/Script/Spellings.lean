import ScriptBundler.Proofs.Script.Literals

/-!
# How names and strings are spelled

A text spells a name out, in that the scanner reads it as that name, exactly if it is made of the
characters of names.  Between single quotes it spells itself out if there is no quote, no backslash
and no line end in it, and for the most part only then: a backslash before a `u` may be part of the
spelling that a surrogate keeps.
-/

namespace ScriptBundler
namespace Script

open Text

/-- Whether a text begins with a token, behind a gap perhaps, and goes on with another text. -/
def Next (text : List Char) (token : Token) (rest : List Char) : Prop :=
  ∀ offset, (nextLexeme ⟨text, offset⟩ false).token = token ∧
    (nextLexeme ⟨text, offset⟩ false).rest = rest

/-- Whether a text begins with some tokens, one behind the other, and goes on with another text. -/
inductive Reads : List Char → List Token → List Char → Prop where
  | done (text : List Char) : Reads text [] text
  | next {text middle rest : List Char} {token : Token} {others : List Token}
      (hnext : Next text token middle) (hrest : Reads middle others rest) :
      Reads text (token :: others) rest

variable {text middle other rest back chars : List Char} {token : Token} {others : List Token}

theorem Next.unique (hfirst : Next text token middle) {found : Token}
    (hsecond : Next text found other) : found = token ∧ other = middle :=
  ⟨(hsecond 0).1.symm.trans (hfirst 0).1, (hsecond 0).2.symm.trans (hfirst 0).2⟩

theorem Reads.uncons (hreads : Reads text (token :: others) rest) :
    ∃ middle, Next text token middle ∧ Reads middle others rest := by
  cases hreads with
  | next hnext hrest => exact ⟨_, hnext, hrest⟩

/-- Behind a token that is known to be there. -/
theorem Reads.behind (hreads : Reads text (token :: others) rest) {found : Token}
    (hnext : Next text found middle) : Reads middle others rest := by
  obtain ⟨other, hfirst, hrest⟩ := hreads.uncons
  exact (hfirst.unique hnext).2 ▸ hrest

/-- Only names are read as words. -/
theorem Next.isName {name : String} {escaped : Bool} (hnext : Next text (.word name escaped) rest) :
    isName name.toList = true :=
  (nextLexeme_right ⟨text, 0⟩ false).scanned.named (hnext 0).1

/-! ## Gaps -/

theorem not_isGap_of_isIdentifierStart {c : Char} (hstart : isIdentifierStart c = true) :
    isGap c = false := by
  have hblank := not_isBlank_of_isIdentifierPart (isIdentifierPart_of_isIdentifierStart hstart)
  have hmark : c.toNat ≠ 0xFEFF := by
    intro hcode
    rw [isIdentifierStart, hcode, if_neg (by decide)] at hstart
    exact absurd hstart (by decide +kernel)
  simp [isGap, hblank, hmark]

theorem not_isDigit_of_isIdentifierStart {c : Char} (hstart : isIdentifierStart c = true) :
    c.isDigit = false := by
  rw [Bool.eq_false_iff]
  intro hdigit
  have hcode : 48 ≤ c.toNat ∧ c.toNat ≤ 57 := by
    simpa [Char.isDigit, UInt32.le_iff_toNat_le, ge_iff_le] using hdigit
  rw [isIdentifierStart, if_pos (by omega)] at hstart
  simp only [Char.isAlpha, Char.isUpper, Char.isLower, Bool.or_eq_true, Bool.and_eq_true,
    decide_eq_true_eq, UInt32.le_iff_toNat_le, beq_iff_eq] at hstart
  rcases hstart with (hletter | rfl) | rfl
  · change 65 ≤ c.toNat ∧ c.toNat ≤ 90 ∨ 97 ≤ c.toNat ∧ c.toNat ≤ 122 at hletter
    omega
  · exact absurd hcode (by decide)
  · exact absurd hcode (by decide)

/-- A token that stands at once. -/
theorem next_of_scanToken {c : Char} (hgap : isGap c = false) (hslash : c ≠ '/') (hless : c ≠ '<')
    (hdash : c ≠ '-') (hscan : ∀ offset, (scanToken (c :: text) offset).1 = token ∧
      (scanToken (c :: text) offset).2.rest = rest)
    (hplain : ∀ name, token ≠ .word name true) : Next (c :: text) token rest := by
  intro offset
  have hstays : skipGap .between (c :: text) offset false [] none =
      ⟨⟨c :: text, offset⟩, false, [], none, none⟩ := by
    rw [skipGap.eq_def]
    simp [hgap, hslash, hless, hdash]
  obtain ⟨htoken, hrest⟩ := hscan offset
  unfold nextLexeme
  rw [hstays]
  dsimp only
  generalize scanToken (c :: text) offset = scanned at htoken hrest
  obtain ⟨found, finish⟩ := scanned
  dsimp only at htoken hrest
  subst htoken
  split
  · rename_i name _ heq
    exact absurd (congrArg Prod.fst heq) (hplain name)
  · rename_i heq
    exact ⟨rfl, hrest⟩

/-- A space before a token is skipped. -/
theorem Next.space (hnext : Next text token rest) : Next (' ' :: text) token rest := by
  intro offset
  have hskip : skipGap .between (' ' :: text) offset false [] none =
      skipGap .between text (offset + 1) false [] none := by
    rw [skipGap.eq_def]
    rfl
  have hsame : nextLexeme ⟨' ' :: text, offset⟩ false = nextLexeme ⟨text, offset + 1⟩ false := by
    unfold nextLexeme
    rw [hskip]
  rw [hsame]
  exact hnext (offset + 1)

/-! ## Names -/

/-- Whether a name that stands before a text ends there. -/
def EndsName (back : List Char) : Prop :=
  ∀ c ∈ back.head?, isIdentifierPart c = false ∧ c ≠ '\\'

theorem endsName_cons {c : Char} (hends : isIdentifierPart c = false ∧ c ≠ '\\')
    (back : List Char) : EndsName (c :: back) :=
  fun _ hd => Option.some.inj hd ▸ hends

theorem scanWord_name (hparts : ∀ c ∈ chars, isIdentifierPart c = true) (hback : EndsName back)
    (offset : Nat) (read : List Char) :
    (scanWord (chars ++ back) offset none read false).1 =
        .word (String.ofList (read.reverse ++ chars)) false ∧
      (scanWord (chars ++ back) offset none read false).2.rest = back := by
  induction chars generalizing offset read with
  | nil =>
      cases back with
      | nil => simp [scanWord]
      | cons c back =>
          obtain ⟨hpart, hescape⟩ := hback c rfl
          rw [List.nil_append, scanWord.eq_def]
          simp [hpart, hescape]
  | cons c chars ih =>
      obtain ⟨hpart, hparts⟩ := List.forall_mem_cons.mp hparts
      have hescape : c ≠ '\\' := by
        rintro rfl
        exact absurd hpart (by decide)
      rw [List.cons_append, scanWord.eq_def]
      simpa [hpart, hescape] using ih hparts (offset + c.utf8Size) (c :: read)

theorem next_name (name : String) (hname : isName name.toList = true) (hback : EndsName back) :
    Next (name.toList ++ back) (.word name false) back := by
  obtain ⟨chars, rfl⟩ : ∃ chars, name = String.ofList chars := ⟨_, String.ofList_toList.symm⟩
  rw [String.toList_ofList] at hname ⊢
  cases chars with
  | nil => contradiction
  | cons c chars =>
      obtain ⟨hstart, hparts⟩ := Bool.and_eq_true_iff.mp hname
      have hother : ∀ d, isIdentifierStart d = false → c ≠ d := by
        rintro d hd rfl
        rw [hd] at hstart
        contradiction
      refine next_of_scanToken (not_isGap_of_isIdentifierStart hstart) (hother _ (by decide))
        (hother _ (by decide)) (hother _ (by decide)) (fun offset => ?_) (by simp)
      have hall : ∀ d ∈ c :: chars, isIdentifierPart d = true := List.forall_mem_cons.mpr
        ⟨isIdentifierPart_of_isIdentifierStart hstart, List.all_eq_true.mp hparts⟩
      rw [scanToken, if_pos (by simp [hstart])]
      exact scanWord_name hall hback offset []

/-! ## Punctuators -/

theorem next_open (text : List Char) : Next ('(' :: text) (.punctuator "(") text :=
  next_of_scanToken (by decide) (by decide) (by decide) (by decide)
    (fun _ => ⟨rfl, rfl⟩) (by simp)

theorem next_close (text : List Char) : Next (')' :: text) (.punctuator ")") text :=
  next_of_scanToken (by decide) (by decide) (by decide) (by decide)
    (fun _ => ⟨rfl, rfl⟩) (by simp)

theorem next_brace (text : List Char) : Next ('\x7b' :: text) (.punctuator "\x7b") text :=
  next_of_scanToken (by decide) (by decide) (by decide) (by decide)
    (fun _ => ⟨rfl, rfl⟩) (by simp)

theorem next_equals (text : List Char) (hspace : ∀ c ∈ text.head?, c = ' ') :
    Next ('=' :: text) (.punctuator "=") text := by
  have hscan : ∀ offset, (scanToken ('=' :: text) offset).1 = .punctuator "=" ∧
      (scanToken ('=' :: text) offset).2.rest = text := by
    intro offset
    cases text with
    | nil => exact ⟨rfl, rfl⟩
    | cons c text =>
        obtain rfl := hspace c rfl
        exact ⟨rfl, rfl⟩
  exact next_of_scanToken (by decide) (by decide) (by decide) (by decide) hscan (by simp)

theorem next_dot (hname : isName chars = true) (back : List Char) :
    Next ('.' :: (chars ++ back)) (.punctuator ".") (chars ++ back) := by
  cases chars with
  | nil => contradiction
  | cons c chars =>
      obtain ⟨hstart, -⟩ := Bool.and_eq_true_iff.mp hname
      have hdot : c ≠ '.' := by
        rintro rfl
        exact absurd hstart (by decide)
      have hdigit := not_isDigit_of_isIdentifierStart hstart
      refine next_of_scanToken (by decide) (by decide) (by decide) (by decide) (fun offset => ?_)
        (by simp)
      have hfind : punctuators.find? (·.isPrefixOf ('.' :: c :: (chars ++ back))) = some ['.'] := by
        simp [punctuators, List.isPrefixOf, hdot.symm]
      have htoken : scanToken ('.' :: c :: (chars ++ back)) offset =
          scanPunctuator ('.' :: c :: (chars ++ back)) offset := by
        simp [scanToken, hdigit, show isIdentifierStart '.' = false by decide]
      rw [List.cons_append, htoken, scanPunctuator, hfind]
      exact ⟨rfl, rfl⟩

/-! ## Strings in single quotes -/

theorem next_quote {value : String} (hplain : ∀ c ∈ value.toList, isPlain c = true)
    (back : List Char) : Next ('\'' :: (value.toList ++ '\'' :: back)) (.quoted value) back := by
  intro offset
  rw [nextLexeme_quote hplain, String.ofList_toList]
  exact ⟨rfl, rfl⟩

/-- What is behind a specifier: the end of the call, and then the end of its line or of the text. -/
def EndsCall (back : List Char) : Prop :=
  ∀ c ∈ back.head?, c = '\n'

/-- A string that takes in the quote behind a specifier does not end on the line. -/
theorem scanString_unclosed (hback : EndsCall back) (opening offset : Nat) (read : List Char)
    (value : String) :
    (scanString '\'' opening (')' :: back) offset none read).1 ≠ .quoted value := by
  cases back with
  | nil => simp [scanString]
  | cons c back =>
      obtain rfl := hback c rfl
      rw [scanString.eq_def]
      change (scanString '\'' opening ('\n' :: back) (offset + 1) none (')' :: read)).1 ≠ _
      rw [scanString.eq_def]
      simp

/-- Whether a string has no more characters than are written, and just as many only if each of them
stands for itself. -/
def Shrinks (read written : List Char) (value : String) : Prop :=
  value.toList.length ≤ read.length + written.length ∧
    (value.toList.length = read.length + written.length → ∀ c ∈ written, isPlain c = true)

/-- Behind an escape, which is written with more characters than it stands for. -/
theorem Shrinks.behind_escape {value : String} {read more written : List Char}
    (hshrinks : Shrinks more written value) (escape : List Char)
    (hless : more.length < read.length + escape.length) :
    Shrinks read (escape ++ written) value := by
  obtain ⟨hle, -⟩ := hshrinks
  rw [Shrinks, List.length_append]
  omega

/-- The string that a specifier is read as shrinks, unless there is a backslash before a `u` in it. -/
theorem scanString_shrinks (hback : EndsCall back) (opening : Nat) {written : List Char}
    (hescape : ¬ ['\\', 'u'] <:+: written) (offset : Nat) (read : List Char) {value : String}
    (hscan : (scanString '\'' opening (written ++ '\'' :: ')' :: back) offset none read).1 =
      .quoted value) : Shrinks read written value := by
  generalize htext : written ++ '\'' :: ')' :: back = text at hscan
  generalize hbraces : (none : Option (Nat × Nat)) = braces at hscan
  -- the induction is on the scanner, and each step takes some of what is written
  have hpeel : ∀ {c : Char} {written rest : List Char}, written ++ '\'' :: ')' :: back = c :: rest →
      c ≠ '\'' → ∃ others, written = c :: others ∧ others ++ '\'' :: ')' :: back = rest := by
    intro c written rest htext hother
    rcases List.append_eq_cons_iff.mp htext with ⟨-, heq⟩ | ⟨others, hwritten, hrest⟩
    · exact absurd (List.cons.inj heq).1.symm hother
    · exact ⟨others, hwritten, hrest.symm⟩
  have hfewer : ∀ (front : List Char) {others : List Char}, ¬ ['\\', 'u'] <:+: front ++ others →
      ¬ ['\\', 'u'] <:+: others := fun front others hnone hsome =>
    hnone (hsome.trans (List.suffix_append front others).isInfix)
  fun_induction scanString '\'' opening text offset braces read generalizing written with
  | case1 => simp at htext
  | case2 | case3 | case4 | case5 => contradiction
  | case7 | case11 | case13 | case14 | case16 | case17 | case19 | case21 => contradiction
  | case6 offset read c rest hclose =>
      obtain rfl := Token.quoted.inj hscan
      refine ⟨by simp, fun heq => ?_⟩
      obtain rfl : written = [] := by simpa using heq
      simp
  | case8 offset read c hquote _ hslash rest ih =>
      obtain ⟨behind, rfl, hfirst⟩ := hpeel htext (by simpa using hquote)
      obtain ⟨later, rfl, hsecond⟩ := hpeel hfirst (by decide)
      obtain ⟨others, rfl, hthird⟩ := hpeel hsecond (by decide)
      exact (ih (hfewer [_, _, _] hescape) hthird rfl hscan).behind_escape [_, _, _] (by simp)
  | case9 offset read c hquote _ hslash
  | case10 offset read c hquote _ hslash =>
      obtain ⟨behind, rfl, hfirst⟩ := hpeel htext (by simpa using hquote)
      obtain ⟨others, rfl, -⟩ := hpeel hfirst (by decide)
      rw [eq_of_beq hslash] at hescape
      exact absurd ⟨[], others, rfl⟩ hescape
  | case12 offset read c hquote _ hslash h1 h2 rest a b hb ha ih =>
      obtain ⟨behind, rfl, hfirst⟩ := hpeel htext (by simpa using hquote)
      obtain ⟨later, rfl, hsecond⟩ := hpeel hfirst (by decide)
      have hnone : hexValue '\'' = none := by decide
      obtain ⟨further, rfl, hthird⟩ := hpeel hsecond (by rintro rfl; simp [hnone] at ha)
      obtain ⟨others, rfl, hfourth⟩ := hpeel hthird (by rintro rfl; simp [hnone] at hb)
      exact (ih (hfewer [_, _, _, _] hescape) hfourth rfl hscan).behind_escape [_, _, _, _]
        (by simp)
  | case15 offset read c hquote _ hslash e rest _ _ _ _ hother hend ih =>
      obtain ⟨behind, rfl, hfirst⟩ := hpeel htext (by simpa using hquote)
      obtain ⟨others, rfl, hsecond⟩ := hpeel hfirst (by rintro rfl; exact absurd hend (by decide))
      exact (ih (hfewer [_, _] hescape) hsecond rfl hscan).behind_escape [_, _] (by simp)
  | case18 offset read c hquote _ hslash e _ _ _ hzero d rest _ _ _ _ _ ih =>
      obtain ⟨behind, rfl, hfirst⟩ := hpeel htext (by simpa using hquote)
      obtain ⟨others, rfl, hsecond⟩ := hpeel hfirst (by rw [eq_of_beq hzero]; decide)
      exact (ih (hfewer [_, _] hescape) hsecond rfl hscan).behind_escape [_, _] (by simp)
  | case20 offset read c hquote _ hslash e rest _ _ _ _ _ _ _ _ ih =>
      obtain ⟨behind, rfl, hfirst⟩ := hpeel htext (by simpa using hquote)
      rcases List.append_eq_cons_iff.mp hfirst with ⟨-, heq⟩ | ⟨others, rfl, hrest⟩
      · -- the backslash stands before the quote that is to end the specifier
        rw [← (List.cons.inj heq).2] at hscan
        exact absurd hscan (scanString_unclosed hback _ _ _ _)
      · exact (ih (hfewer [_, _] hescape) hrest.symm rfl hscan).behind_escape [_, _] (by simp)
  | case22 offset read c rest hquote hline hslash ih =>
      obtain ⟨others, rfl, hrest⟩ := hpeel htext (by simpa using hquote)
      obtain ⟨hle, hplain⟩ := ih (hfewer [_] hescape) hrest rfl hscan
      simp only [List.length_cons] at hle hplain
      refine ⟨by simp only [List.length_cons]; omega, fun heq => List.forall_mem_cons.mpr ⟨?_, ?_⟩⟩
      · simp only [Bool.or_eq_true, not_or, beq_iff_eq] at hquote hline hslash
        simp [isPlain, hquote, hline, hslash]
      · refine hplain ?_
        simp only [List.length_cons] at heq
        omega

/-- What is read as itself between single quotes stands for itself, unless there is a backslash
before a `u` in it. -/
theorem isPlain_of_next (hback : EndsCall back) {value : String} {rest : List Char}
    (hnext : Next ('\'' :: (value.toList ++ '\'' :: ')' :: back)) (.quoted value) rest) :
    (∀ c ∈ value.toList, isPlain c = true) ∨ ['\\', 'u'] <:+: value.toList := by
  by_cases hescape : ['\\', 'u'] <:+: value.toList
  · exact Or.inr hescape
  have hstays : ∀ text, skipGap .between ('\'' :: text) 0 false [] none =
      ⟨⟨'\'' :: text, 0⟩, false, [], none, none⟩ := by
    intro text
    rw [skipGap.eq_def]
    rfl
  have htoken := (hnext 0).1
  unfold nextLexeme at htoken
  rw [hstays] at htoken
  have hscan : (scanString '\'' 0 (value.toList ++ '\'' :: ')' :: back) 1 none []).1 =
      .quoted value := by
    dsimp only at htoken
    split at htoken
    · split at htoken <;> contradiction
    · exact htoken
  exact Or.inl ((scanString_shrinks hback 0 hescape 1 [] hscan).2 (by simp))

end Script
end ScriptBundler

import ScriptBundler.Proofs.Script.Scanning

/-!
# Words and literals in other surroundings

The scanner cannot look behind it, and looks ahead no further than to the end of a token.  So a
token is read in the same way wherever it stands, if what follows it ends it: white space does, a
slash does, and so does what has ended it before.  Here this is said of words, strings, templates
and regular expressions.
-/

namespace ScriptBundler

open Text

theorem Text.not_isIdentifierPart_of_isGap {c : Char} (hgap : isGap c = true) :
    isIdentifierPart c = false := by
  rw [isGap, Bool.or_eq_true] at hgap
  rcases hgap with hblank | hmark
  · by_contra hpart
    rw [not_isBlank_of_isIdentifierPart (Bool.not_eq_false _ ▸ hpart)] at hblank
    contradiction
  · have hcode : c = Char.ofNat 0xFEFF := by rw [← eq_of_beq hmark, Char.ofNat_toNat]
    rw [hcode]
    decide +kernel

theorem Text.not_isDigit_of_isGap {c : Char} (hgap : isGap c = true) : c.isDigit = false := by
  by_contra hdigit
  have hpart := not_isIdentifierPart_of_isGap hgap
  rw [Bool.not_eq_false] at hdigit
  have hupper : 48 ≤ c.toNat ∧ c.toNat ≤ 57 := by
    simpa [Char.isDigit, UInt32.le_iff_toNat_le, ge_iff_le] using hdigit
  have hsmall : c.toNat < 128 := by omega
  simp [isIdentifierPart, hsmall, Char.isAlphanum, hdigit] at hpart

theorem Text.byteLength_eq_length {text : List Char} (hsize : ∀ c ∈ text, c.utf8Size = 1) :
    byteLength text = text.length := by
  induction text with
  | nil => rfl
  | cons c rest ih =>
      obtain ⟨hfirst, hrest⟩ := List.forall_mem_cons.mp hsize
      rw [byteLength_cons, List.length_cons, hfirst, ih hrest, Nat.add_comm]

namespace Script

/-- Whether a text can take the place of another one behind a token: they are the same up to some
place, where the second one goes on with white space or, if the first one does so, with a slash. -/
inductive Replaces : List Char → List Char → Prop where
  | same (back : List Char) : Replaces back back
  | cut {back other : List Char}
      (hhead : ∀ c ∈ other.head?, isGap c = true ∨ c = '/' ∧ back.head? = some '/') :
      Replaces back other
  | behind (c : Char) {back other : List Char} (hback : Replaces back other) :
      Replaces (c :: back) (c :: other)

variable {back other text : List Char} {offset : Nat} {token : Token} {cursor : Cursor}

theorem Replaces.append (front : List Char) (hback : Replaces back other) :
    Replaces (front ++ back) (front ++ other) := by
  induction front with
  | nil => exact hback
  | cons c front ih => exact .behind c ih

/-- What is true of white space, of a slash and of the next character is true of the next character
of the other text. -/
theorem Replaces.head {holds : Char → Prop} (hback : Replaces back other)
    (hhead : ∀ c ∈ back.head?, holds c) (hgap : ∀ c, isGap c = true → holds c)
    (hslash : holds '/') : ∀ c ∈ other.head?, holds c := by
  cases hback with
  | same => exact hhead
  | cut hcut =>
      intro c hc
      rcases hcut c hc with hblank | ⟨rfl, -⟩
      · exact hgap c hblank
      · exact hslash
  | behind d _ => exact fun c hc => hhead c hc

/-- Whether a scan takes a word off its text, and does the same wherever the word stands, whatever
what is behind it is replaced by.  `reads` says what a scan of a text at an offset ends at. -/
def Rereads (reads : List Char → Nat → Cursor → Prop) (text : List Char) (offset : Nat)
    (cursor : Cursor) : Prop :=
  ∃ word, text = word ++ cursor.rest ∧ offset + byteLength word = cursor.offset ∧
    ∀ other place, Replaces cursor.rest other →
      reads (word ++ other) place ⟨other, place + byteLength word⟩

theorem Rereads.done {reads : List Char → Nat → Cursor → Prop}
    (hreads : ∀ other place, Replaces text other → reads other place ⟨other, place⟩) :
    Rereads reads text offset ⟨text, offset⟩ :=
  ⟨[], rfl, rfl, hreads⟩

/-- A scan that goes on behind some characters. -/
theorem Rereads.step {reads next : List Char → Nat → Cursor → Prop} {size : Nat}
    (hnext : Rereads next text (offset + size) cursor) (front : List Char)
    (hsize : byteLength front = size)
    (hstep : ∀ other place cursor, Replaces text other → next other (place + size) cursor →
      reads (front ++ other) place cursor) : Rereads reads (front ++ text) offset cursor := by
  obtain ⟨word, htext, hoffset, hscan⟩ := hnext
  refine ⟨front ++ word, by rw [htext, List.append_assoc], ?_, fun other place hother => ?_⟩
  · rw [byteLength_append, hsize, ← hoffset, Nat.add_assoc]
  · rw [List.append_assoc, byteLength_append, hsize, ← Nat.add_assoc]
    exact hstep _ _ _ (htext ▸ hother.append word) (hscan other _ hother)

/-! ## Words -/

/-- Whether a text ends a word that stands before it. -/
def EndsWord (back : List Char) : Prop :=
  ∀ c ∈ back.head?, isIdentifierPart c = false ∧ c ≠ '\\'

theorem Replaces.endsWord (hback : Replaces back other) (hends : EndsWord back) :
    EndsWord other :=
  hback.head hends
    (fun _ hgap => ⟨not_isIdentifierPart_of_isGap hgap, by
      rintro rfl
      exact absurd hgap (by decide)⟩)
    (by decide)

theorem scanWord_of_endsWord (hends : EndsWord text) (offset : Nat) (read : List Char)
    (escaped : Bool) : scanWord text offset none read escaped =
      (.word (String.ofList read.reverse) escaped, ⟨text, offset⟩) := by
  cases text with
  | nil => rw [scanWord.eq_def]
  | cons c rest =>
      obtain ⟨hpart, hescape⟩ := hends c rfl
      rw [scanWord.eq_def]
      simp [hpart, hescape]

theorem byteLength_escape {h1 h2 h3 h4 : Char} {code : Nat}
    (hcode : hexValue4 h1 h2 h3 h4 = some code) :
    byteLength ['\\', 'u', h1, h2, h3, h4] = 6 := by
  have hdigits := hexValue4_eq_some hcode
  simp only [List.forall_mem_cons] at hdigits
  simp only [byteLength_cons, byteLength_nil, hdigits]
  decide

theorem scanWord_rereads (text : List Char) (offset : Nat) (braces : Option (Nat × Nat))
    (read : List Char) (escaped : Bool)
    (hscan : scanWord text offset braces read escaped = (token, cursor))
    (hproper : token.isProper = true) :
    Rereads (fun text place cursor => ∀ start, scanWord text place
      (braces.map fun escape => (escape.1, start)) read escaped = (token, cursor))
      text offset cursor := by
  fun_induction scanWord text offset braces read escaped with
  | case1 | case4 | case6 | case9 | case10 =>
      obtain ⟨rfl, -⟩ := Prod.mk.inj hscan
      contradiction
  | case2 offset read escaped =>
      obtain ⟨rfl, rfl⟩ := Prod.mk.inj hscan
      refine .done fun other place hother start => ?_
      exact scanWord_of_endsWord (hother.endsWord (by simp [EndsWord])) _ _ _
  | case3 offset read escaped c rest value start hclose part hpart ih =>
      obtain rfl : c = '}' := by simpa using hclose
      refine (ih hscan).step ['}'] rfl fun text place cursor _ hnext start => ?_
      rw [List.singleton_append, scanWord.eq_def]
      simpa [hpart] using hnext 0
  | case5 offset read escaped c rest value start hother digit hdigit ih =>
      refine (ih hscan).step [c] (by simp [solid_of_hexValue hdigit]) ?_
      intro text place cursor _ hnext start
      rw [List.singleton_append, scanWord.eq_def]
      simpa [hother, hdigit] using hnext start
  | case7 offset read escaped c hescape rest ih =>
      obtain rfl : c = '\\' := by simpa using hescape
      refine (ih hscan).step ['\\', 'u', '{'] rfl ?_
      intro text place cursor _ hnext start
      rw [scanWord.eq_def]
      simpa using hnext place
  | case8 offset read escaped c hescape h1 h2 h3 h4 rest hbrace part hpart ih =>
      obtain rfl : c = '\\' := by simpa using hescape
      obtain ⟨code, hcode, hchar⟩ := Option.bind_eq_some_iff.mp hpart
      refine (ih hscan).step ['\\', 'u', h1, h2, h3, h4] (byteLength_escape hcode) ?_
      intro text place cursor _ hnext start
      have hopen : h1 ≠ '{' := hbrace
      rw [scanWord.eq_def]
      simpa [hopen, hpart] using hnext 0
  | case11 offset read escaped c rest hescape hpart ih =>
      refine (ih hscan).step [c] (by simp) fun text place cursor _ hnext start => ?_
      rw [List.singleton_append, scanWord.eq_def]
      simpa [hescape, hpart] using hnext 0
  | case12 offset read escaped c rest hescape hpart =>
      obtain ⟨rfl, rfl⟩ := Prod.mk.inj hscan
      refine .done fun other place hother start => scanWord_of_endsWord (hother.endsWord ?_) _ _ _
      intro d hd
      obtain rfl : c = d := by simpa using hd
      exact ⟨by simpa using hpart, by simpa using hescape⟩

/-! ## Strings -/

theorem ne_nil_of_scanString {quote : Char} {opening : Nat} {read : List Char}
    (hscan : scanString quote opening text offset none read = (token, cursor))
    (hproper : token.isProper = true) : text ≠ [] := by
  rintro rfl
  rw [scanString.eq_def] at hscan
  obtain ⟨rfl, -⟩ := Prod.mk.inj hscan
  contradiction

/-- No line ends in a string. -/
theorem not_lineFeed_of_scanString {quote : Char} (hquote : quote ≠ '\n') {opening : Nat}
    {read : List Char} (hscan : scanString quote opening text offset none read = (token, cursor))
    (hproper : token.isProper = true) : text.head? ≠ some '\n' := by
  intro hhead
  obtain ⟨back, rfl⟩ := List.head?_eq_some_iff.mp hhead
  rw [scanString.eq_def] at hscan
  simp only [beq_iff_eq, hquote.symm, if_false, beq_self_eq_true, Bool.true_or, if_true] at hscan
  obtain ⟨rfl, -⟩ := Prod.mk.inj hscan
  contradiction

theorem Replaces.not_octal (hback : Replaces back other)
    (hhead : ∀ d ∈ back.head?, ¬('0' ≤ d ∧ d ≤ '7')) :
    ∀ d ∈ other.head?, ¬('0' ≤ d ∧ d ≤ '7') := by
  refine hback.head hhead (fun c hgap hoctal => ?_) (by decide)
  have hdigit : c.isDigit = true := by
    simp only [Char.le_def, UInt32.le_iff_toNat_le] at hoctal
    simp only [Char.isDigit, ge_iff_le, UInt32.le_iff_toNat_le, Bool.and_eq_true, decide_eq_true_eq]
    exact ⟨hoctal.1, hoctal.2.trans (by decide)⟩
  rw [not_isDigit_of_isGap hgap] at hdigit
  contradiction

theorem scanString_rereads {quote : Char} (hquote : quote.utf8Size = 1 ∧ quote ≠ '\n')
    (opening : Nat)
    (text : List Char) (offset : Nat) (braces : Option (Nat × Nat)) (read : List Char)
    (hscan : scanString quote opening text offset braces read = (token, cursor))
    (hproper : token.isProper = true) :
    Rereads (fun text place cursor => ∀ opening others,
      Option.Rel (fun escape other => other.1 = escape.1 ∧ other.2 + offset = escape.2 + place)
        braces others → scanString quote opening text place others read = (token, cursor))
      text offset cursor := by
  fun_induction scanString quote opening text offset braces read with
  | case1 | case3 | case5 | case7 | case11 | case13 | case14 | case16 | case17 | case19 | case21 =>
      obtain ⟨rfl, -⟩ := Prod.mk.inj hscan
      contradiction
  | case2 offset read c rest value start hclose hvalue ih =>
      obtain rfl : c = '}' := by simpa using hclose
      refine (ih hscan).step ['}'] rfl fun other place cursor _ hnext opening others => ?_
      rintro (⟨hsame, hmoved⟩ | _)
      obtain ⟨hlimit, hdigits⟩ := Bool.and_eq_true_iff.mp hvalue
      rw [decide_eq_true_eq] at hdigits
      rw [List.singleton_append, scanString.eq_def]
      simp only [beq_self_eq_true, if_true, hsame, hlimit, Bool.true_and]
      rw [if_pos (by simp; omega)]
      exact hnext _ _ .none
  | case4 offset read c rest value start hother digit hdigit ih =>
      refine (ih hscan).step [c] (by simp [solid_of_hexValue hdigit]) ?_
      intro other place cursor _ hnext opening others
      rintro (⟨hsame, hmoved⟩ | _)
      rw [List.singleton_append, scanString.eq_def]
      simp only [hother, hdigit, hsame]
      exact hnext _ _ (.some ⟨rfl, by dsimp only; omega⟩)
  | case6 offset read c rest hclose =>
      obtain ⟨rfl, rfl⟩ := Prod.mk.inj hscan
      refine ⟨[c], rfl, by simp [eq_of_beq hclose, hquote.1], ?_⟩
      rintro other place - opening others ⟨⟩
      rw [List.singleton_append, scanString.eq_def]
      simp [eq_of_beq hclose, hquote.1]
  | case8 offset read c hclose hline hescape rest ih =>
      obtain rfl : c = '\\' := by simpa using hescape
      refine (ih hscan).step ['\\', '\r', '\n'] rfl ?_
      rintro other place cursor - hnext opening others ⟨⟩
      rw [scanString.eq_def]
      simpa [hclose] using hnext opening none .none
  | case9 offset read c hclose hline hescape rest ih =>
      obtain rfl : c = '\\' := by simpa using hescape
      refine (ih hscan).step ['\\', 'u', '{'] rfl ?_
      rintro other place cursor - hnext opening others ⟨⟩
      rw [scanString.eq_def]
      simpa [hclose] using hnext opening (some (0, place)) (.some ⟨rfl, by dsimp only; omega⟩)
  | case10 offset read c hclose hline hescape h1 h2 h3 h4 rest hopen code hcode ih =>
      obtain rfl : c = '\\' := by simpa using hescape
      refine (ih hscan).step ['\\', 'u', h1, h2, h3, h4] (byteLength_escape hcode) ?_
      rintro other place cursor - hnext opening others ⟨⟩
      have hopen : h1 ≠ '{' := hopen
      rw [scanString.eq_def]
      simpa [hclose, hopen, hcode] using hnext opening none .none
  | case12 offset read c hclose hline hescape h1 h2 rest a b hb ha ih =>
      obtain rfl : c = '\\' := by simpa using hescape
      refine (ih hscan).step ['\\', 'x', h1, h2] ?_ ?_
      · simp only [byteLength_cons, byteLength_nil, solid_of_hexValue ha, solid_of_hexValue hb]
        decide
      · rintro other place cursor - hnext opening others ⟨⟩
        rw [scanString.eq_def]
        simpa [hclose, ha, hb] using hnext opening none .none
  | case15 offset read c hclose _ hescape e rest hreturn _ _ _ hmarker hend ih
  | case20 offset read c hclose _ hescape e rest hreturn _ _ _ hmarker hend hoctal hzero ih =>
      obtain rfl : c = '\\' := by simpa using hescape
      rw [Nat.add_assoc] at hscan ih
      refine (ih hscan).step ['\\', e] (by simp; decide) ?_
      rintro other place cursor - hnext opening others ⟨⟩
      have hnext := hnext opening none .none
      -- an escaped line end is one of two characters if a line feed follows, which no string goes
      -- on with
      have hreturn : ∀ back, e = '\r' → other ≠ '\n' :: back := fun back _ hother =>
        not_lineFeed_of_scanString hquote.2 hnext hproper (by rw [hother]; rfl)
      rw [scanString.eq_def]
      simp_all [Nat.add_assoc]
  | case18 offset read c hclose _ hescape e hmarker hend hoctal hzero d rest hdigit _ _ _ _ ih =>
      obtain rfl : c = '\\' := by simpa using hescape
      obtain rfl : e = '0' := by simpa using hzero
      refine (ih hscan).step ['\\', '0'] rfl ?_
      rintro other place cursor hother hnext opening others ⟨⟩
      have hnext := hnext opening none .none
      have hhead := hother.not_octal (by simpa using hdigit)
      obtain ⟨d, back, rfl⟩ := List.exists_cons_of_ne_nil (ne_nil_of_scanString hnext hproper)
      have hline : isLineEnd '0' = false := by decide
      rw [scanString.eq_def]
      simpa [hclose, hhead d rfl, hline] using hnext
  | case22 offset read c rest hclose hline hescape ih =>
      refine (ih hscan).step [c] (by simp) ?_
      rintro other place cursor - hnext opening others ⟨⟩
      rw [List.singleton_append, scanString.eq_def]
      simpa [hclose, hline, hescape] using hnext opening none .none

/-! ## Templates -/

theorem bracedCode_append {d : Char} (hother : hexValue d = none) (hopen : d ≠ '}')
    (front back other : List Char) (value digits : Nat) :
    bracedCode (front ++ d :: back) value digits =
      bracedCode (front ++ d :: other) value digits := by
  induction front generalizing value digits with
  | nil => simp [bracedCode, hother, hopen]
  | cons c front ih =>
      simp only [List.cons_append, bracedCode]
      split
      · rfl
      · split
        · exact ih _ _
        · rfl

/-- Whether a text starts with so many hexadecimal digits. -/
def startsHex : Nat → List Char → Bool
  | 0, _ => true
  | _ + 1, [] => false
  | count + 1, c :: rest => (hexValue c).isSome && startsHex count rest

theorem startsHex_append {d : Char} (hother : hexValue d = none) (count : Nat)
    (front back other : List Char) :
    startsHex count (front ++ d :: back) = startsHex count (front ++ d :: other) := by
  induction front generalizing count with
  | nil => cases count <;> simp [startsHex, hother]
  | cons c front ih => cases count <;> simp [startsHex, ih]

theorem isSome_hexValue4 (a b c d : Char) (rest : List Char) :
    (hexValue4 a b c d).isSome = startsHex 4 (a :: b :: c :: d :: rest) := by
  simp only [hexValue4, startsHex, bind]
  cases hexValue a <;> cases hexValue b <;> cases hexValue c <;> cases hexValue d <;> rfl

theorem validEscape_unicode {text : List Char} (hopen : text.head? ≠ some '{') :
    validEscape ('u' :: text) = startsHex 4 text := by
  rcases text with _ | ⟨h1, _ | ⟨h2, _ | ⟨h3, _ | ⟨h4, rest⟩⟩⟩⟩
  · simp [validEscape.eq_def, startsHex]
  · simp [validEscape.eq_def, startsHex, show h1 ≠ '{' by simpa using hopen]
  · simp [validEscape.eq_def, startsHex, show h1 ≠ '{' by simpa using hopen]
  · simp [validEscape.eq_def, startsHex, show h1 ≠ '{' by simpa using hopen]
  · rw [← isSome_hexValue4]
    simp [validEscape.eq_def, show h1 ≠ '{' by simpa using hopen]

theorem validEscape_hex (text : List Char) : validEscape ('x' :: text) = startsHex 2 text := by
  rcases text with _ | ⟨h1, _ | ⟨h2, rest⟩⟩ <;> simp [validEscape.eq_def, startsHex]

/-- Whether an escape is valid is decided before the next character that is part of no escape. -/
theorem validEscape_append {d : Char} (hother : hexValue d = none)
    (hbrace : d ≠ '{' ∧ d ≠ '}') (e : Char) (front back other : List Char) :
    validEscape (e :: (front ++ d :: back)) = validEscape (e :: (front ++ d :: other)) := by
  obtain ⟨hopen, hclose⟩ := hbrace
  by_cases hunicode : e = 'u'
  · subst hunicode
    by_cases hbraces : (front ++ d :: back).head? = some '{'
    · obtain ⟨more, rfl⟩ : ∃ more, front = '{' :: more := by
        cases front <;> simp_all
      have := bracedCode_append hother hclose more back other 0 0
      simpa [validEscape.eq_def] using this
    · have hbraces' : (front ++ d :: other).head? ≠ some '{' := by
        cases front <;> simp_all
      rw [validEscape_unicode hbraces, validEscape_unicode hbraces', startsHex_append hother]
  by_cases hhex : e = 'x'
  · subst hhex
    rw [validEscape_hex, validEscape_hex, startsHex_append hother]
  by_cases hzero : e = '0'
  · subst hzero
    cases front <;> simp [validEscape.eq_def]
  · simp [validEscape.eq_def, hunicode, hhex, hzero]

/-- Template text ends with a quote or a substitution. -/
theorem exists_of_scanTemplate {text : List Char} {offset : Nat} {bad : Option Nat}
    {chunk : TemplateChunk} (hscan : scanTemplate text offset bad = some chunk) :
    ∃ d ∈ text, hexValue d = none ∧ d ≠ '{' ∧ d ≠ '}' := by
  fun_induction scanTemplate text offset bad with
  | case1 | case4 => contradiction
  | case2 _ _ c _ hquote => exact ⟨c, by simp, eq_of_beq hquote ▸ by decide⟩
  | case5 _ _ c _ _ hdollar => exact ⟨c, by simp, eq_of_beq hdollar ▸ by decide⟩
  | case3 offset bad c _ _ e rest ih =>
      obtain ⟨d, hd, hother⟩ := ih hscan
      exact ⟨d, by simp [hd], hother⟩
  | case6 _ _ c _ _ _ rest _ ih | case7 _ _ c rest _ _ _ ih =>
      obtain ⟨d, hd, hother⟩ := ih hscan
      exact ⟨d, by simp [hd], hother⟩

/-- Template text is read again in the same way up to its end. -/
theorem scanTemplate_rereads {chunk : TemplateChunk} (text : List Char) (offset : Nat)
    (bad : Option Nat) (hscan : scanTemplate text offset bad = some chunk) :
    Rereads (fun text place cursor => ∀ other, other.isSome = bad.isSome →
      ∃ fault, fault.isSome = chunk.badEscape.isSome ∧
        scanTemplate text place other = some ⟨chunk.last, fault, cursor⟩)
      text offset chunk.cursor := by
  fun_induction scanTemplate text offset bad with
  | case1 | case4 => contradiction
  | case2 offset bad c rest hquote =>
      obtain rfl := Option.some.inj hscan
      obtain rfl : c = '\x60' := eq_of_beq hquote
      refine ⟨['\x60'], rfl, rfl, fun other place _ fault hfault => ⟨fault, hfault, ?_⟩⟩
      simp [scanTemplate.eq_def]
      rfl
  | case3 offset bad c hquote hescape e rest ih =>
      obtain rfl : c = '\\' := eq_of_beq hescape
      obtain ⟨word, rfl, hoffset, hreads⟩ := ih hscan
      -- whether the escape is valid is decided by the characters before the end of the template
      -- text
      obtain ⟨fault, -, hword⟩ := hreads [] 0 (.cut (by simp)) _ rfl
      obtain ⟨d, hd, hstops⟩ := exists_of_scanTemplate hword
      obtain ⟨front, later, rfl⟩ := List.append_of_mem (List.append_nil word ▸ hd)
      have hsize : ∀ place, place + byteLength ('\\' :: e :: (front ++ d :: later)) =
          place + 1 + e.utf8Size + byteLength (front ++ d :: later) := by
        intro place
        rw [byteLength_cons, byteLength_cons, show '\\'.utf8Size = 1 by decide]
        omega
      have hvalid : ∀ back, validEscape (e :: (front ++ d :: later ++ back)) =
          validEscape (e :: (front ++ d :: later ++ chunk.cursor.rest)) := by
        intro back
        rw [List.append_assoc, List.append_assoc]
        exact validEscape_append hstops.1 hstops.2 e front _ _
      refine ⟨'\\' :: e :: (front ++ d :: later), rfl, by rw [hsize, hoffset], ?_⟩
      intro other place hother bad' hbad
      obtain ⟨fault, hfault, hrest⟩ := hreads other (place + 1 + e.utf8Size) hother
        (if validEscape (e :: (front ++ d :: later ++ other)) then bad' else bad'.or (some place))
        (by rw [hvalid other]; split <;> simp [hbad])
      refine ⟨fault, hfault, ?_⟩
      rw [List.cons_append, List.cons_append, scanTemplate.eq_def, hsize]
      simpa using hrest
  | case5 offset bad c hquote hescape hdollar rest =>
      obtain rfl := Option.some.inj hscan
      obtain rfl : c = '$' := eq_of_beq hdollar
      exact ⟨['$', '{'], rfl, rfl, fun other place _ fault hfault => ⟨fault, hfault, rfl⟩⟩
  | case6 offset bad c hquote hescape hdollar rest hopen ih =>
      obtain rfl : c = '$' := eq_of_beq hdollar
      refine (ih hscan).step ['$'] rfl ?_
      intro other place cursor hother hnext fault hfault
      have hhead : ∀ d ∈ other.head?, d ≠ '{' := by
        refine hother.head ?_ (fun d hgap => ?_) (by decide)
        · rintro d hd rfl
          obtain ⟨more, rfl⟩ := List.head?_eq_some_iff.mp hd
          exact hopen more rfl
        · rintro rfl
          exact absurd hgap (by decide)
      rw [List.singleton_append, scanTemplate.eq_def]
      have := hnext fault hfault
      cases other <;> simp_all
  | case7 offset bad c rest hquote hescape hdollar ih =>
      refine (ih hscan).step [c] (by simp) ?_
      intro other place cursor _ hnext fault hfault
      rw [List.singleton_append, scanTemplate.eq_def]
      simpa [hquote, hescape, hdollar] using hnext fault hfault

/-! ## Regular expressions -/

theorem scanRegExpBody_rereads (text : List Char) (offset : Nat) (inClass : Bool)
    (hscan : scanRegExpBody text offset inClass = some cursor) :
    Rereads (fun text place cursor => scanRegExpBody text place inClass = some cursor)
      text offset cursor := by
  fun_induction scanRegExpBody text offset inClass with
  | case1 | case2 | case3 | case5 => contradiction
  | case4 offset inClass c hline hescape e rest hnext ih =>
      obtain rfl : c = '\\' := eq_of_beq hescape
      rw [Nat.add_assoc] at hscan ih
      refine (ih hscan).step ['\\', e] (by simp; decide) ?_
      intro other place cursor _ hread
      rw [scanRegExpBody.eq_def]
      simpa [hnext, Nat.add_assoc, show isLineEnd '\\' = false by decide] using hread
  | case6 offset inClass c rest hline hescape hslash =>
      obtain rfl := Option.some.inj hscan
      obtain ⟨hslash, hclass⟩ := Bool.and_eq_true_iff.mp hslash
      obtain rfl : c = '/' := eq_of_beq hslash
      refine ⟨['/'], rfl, rfl, fun other place _ => ?_⟩
      dsimp only
      rw [List.singleton_append, scanRegExpBody.eq_def]
      simp [hclass, show isLineEnd '/' = false by decide]
      rfl
  | case7 offset inClass c rest hline hescape hslash ih =>
      refine (ih hscan).step [c] (by simp) fun other place cursor _ hread => ?_
      rw [List.singleton_append, scanRegExpBody.eq_def]
      simpa [hline, hescape, hslash] using hread

theorem scanRegExp_rereads {valid : Bool} {text : List Char} {offset : Nat}
    (hscan : scanRegExp text offset = some (valid, cursor)) :
    Rereads (fun text place cursor => scanRegExp text place = some (valid, cursor))
      text offset cursor := by
  simp only [scanRegExp, bind, Option.bind_eq_some_iff] at hscan
  obtain ⟨body, hbody, hresult⟩ := hscan
  obtain ⟨rfl, rfl⟩ := Prod.mk.inj (Option.some.inj hresult)
  obtain ⟨word, rfl, hoffset, hreads⟩ := scanRegExpBody_rereads text offset false hbody
  have hflags : ∀ c ∈ body.rest.takeWhile isIdentifierPart, isIdentifierPart c = true :=
    fun c hc => List.mem_takeWhile_imp hc
  refine ⟨word ++ body.rest.takeWhile isIdentifierPart, ?_, ?_, fun other place hother => ?_⟩
  · simp
  · rw [byteLength_append, ← hoffset, Nat.add_assoc]
  · -- what follows the flags goes on with them nowhere
    have hend : ∀ c ∈ other.head?, isIdentifierPart c = false := by
      refine hother.head (fun c hc => ?_) (fun c => not_isIdentifierPart_of_isGap) (by decide)
      have hnot := List.head?_dropWhile_not isIdentifierPart body.rest
      rw [Option.mem_def.mp hc] at hnot
      simpa using hnot
    have hnone : other.takeWhile isIdentifierPart = [] ∧
        other.dropWhile isIdentifierPart = other := by
      cases other with
      | nil => exact ⟨rfl, rfl⟩
      | cons c back => simp [hend c rfl]
    have hback : Replaces body.rest (body.rest.takeWhile isIdentifierPart ++ other) := by
      have := hother.append (body.rest.takeWhile isIdentifierPart)
      rwa [List.takeWhile_append_dropWhile] at this
    have htake : (body.rest.takeWhile isIdentifierPart ++ other).takeWhile isIdentifierPart =
        body.rest.takeWhile isIdentifierPart := by
      rw [List.takeWhile_append_of_pos hflags, hnone.1, List.append_nil]
    have hdrop : (body.rest.takeWhile isIdentifierPart ++ other).dropWhile isIdentifierPart =
        other := by
      rw [List.dropWhile_append_of_pos hflags, hnone.2]
    simp only [scanRegExp, bind, Option.bind_eq_some_iff]
    refine ⟨_, by rw [List.append_assoc]; exact hreads _ place hback, ?_⟩
    rw [htake, hdrop, byteLength_append, Nat.add_assoc]
    rfl

end Script
end ScriptBundler

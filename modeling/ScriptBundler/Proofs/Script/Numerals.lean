import ScriptBundler.Proofs.Script.Surroundings

/-!
# Numbers in other surroundings

A number is read in the same way wherever it stands.  Its digits end where something stands that is
no digit of its base, and white space and a slash are none of any base.
-/

namespace ScriptBundler

open Text

namespace Script

variable {back other text : List Char} {offset : Nat} {token : Token} {cursor : Cursor}

/-- Whether a text ends digits that stand before it. -/
def EndsDigits (base : Nat) (back : List Char) : Prop :=
  ∀ c ∈ back.head?, c ≠ '_' ∧ (digitValue base c).isSome = false

theorem not_isSome_digitValue_of_isGap {base : Nat} {c : Char} (hgap : isGap c = true) :
    (digitValue base c).isSome = false := by
  by_contra hdigit
  obtain ⟨hsize, hsolid⟩ := solid_of_digitValue (Bool.not_eq_false _ ▸ hdigit)
  rw [isGap, hsolid, Bool.false_or, beq_iff_eq] at hgap
  rw [show c = Char.ofNat 0xFEFF by rw [← hgap, Char.ofNat_toNat]] at hsize
  contradiction

theorem Replaces.endsDigits {base : Nat} (hback : Replaces back other)
    (hends : EndsDigits base back) : EndsDigits base other := by
  refine hback.head hends (fun c hgap => ⟨?_, not_isSome_digitValue_of_isGap hgap⟩) ⟨by decide, ?_⟩
  · rintro rfl
    exact absurd hgap (by decide)
  · rfl

theorem scanDigits_of_endsDigits {base : Nat} (hends : EndsDigits base text) (count : Nat)
    (after : Bool) : scanDigits base text count after = some (count, text) := by
  cases text with
  | nil => rw [scanDigits.eq_def]
  | cons c rest =>
      obtain ⟨hseparator, hdigit⟩ := hends c rfl
      rw [scanDigits.eq_def]
      simp [hseparator, hdigit]

theorem scanDigits_rereads {base count total : Nat} {after : Bool} {text back : List Char}
    (hscan : scanDigits base text count after = some (total, back)) :
    ∃ word, text = word ++ back ∧ total = count + word.length ∧ byteLength word = word.length ∧
      EndsDigits base back ∧ ∀ other, EndsDigits base other →
        scanDigits base (word ++ other) count after = some (total, other) := by
  fun_induction scanDigits base text count after with
  | case1 | case6 =>
      obtain ⟨rfl, rfl⟩ := Prod.mk.inj (Option.some.inj hscan)
      refine ⟨[], rfl, rfl, rfl, ?_, fun other hother => ?_⟩
      · simp_all [EndsDigits]
      · rw [List.nil_append, scanDigits_of_endsDigits hother]
  | case2 count after c hseparator d rest hafter ih =>
      obtain rfl : c = '_' := eq_of_beq hseparator
      obtain ⟨word, hword, htotal, hlength, hends, hreads⟩ := ih hscan
      cases word with
      | nil =>
          obtain rfl : d :: rest = back := hword
          simp_all [(hends d rfl).2]
      | cons c word =>
          obtain ⟨rfl, hword⟩ := List.cons.inj hword
          refine ⟨'_' :: d :: word, by rw [hword]; rfl, ?_, ?_, hends, fun other hother => ?_⟩
          · simp only [List.length_cons] at htotal ⊢
            omega
          · rw [byteLength_cons, hlength, List.length_cons, Nat.add_comm]
            rfl
          · rw [List.cons_append, List.cons_append, scanDigits.eq_def]
            simpa [hafter] using hreads other hother
  | case3 | case4 => contradiction
  | case5 count after c rest hseparator hdigit ih =>
      obtain ⟨word, rfl, htotal, hlength, hends, hreads⟩ := ih hscan
      refine ⟨c :: word, rfl, ?_, ?_, hends, fun other hother => ?_⟩
      · rw [List.length_cons]
        omega
      · rw [byteLength_cons, List.length_cons, hlength, (solid_of_digitValue hdigit).1,
          Nat.add_comm]
      · rw [List.cons_append, scanDigits.eq_def]
        simpa [hseparator, hdigit] using hreads other hother

/-- A scan that goes on behind digits. -/
theorem Rereads.digits {reads next : List Char → Nat → Cursor → Prop} {base count : Nat}
    (hscan : scanDigits base text 0 false = some (count, back))
    (hnext : Rereads next back (offset + count) cursor)
    (hstep : ∀ word other place cursor, text = word ++ back → EndsDigits base back →
      Replaces back other → scanDigits base (word ++ other) 0 false = some (count, other) →
      next other (place + count) cursor → reads (word ++ other) place cursor) :
    Rereads reads text offset cursor := by
  obtain ⟨word, rfl, hcount, hlength, hends, hreads⟩ := scanDigits_rereads hscan
  refine hnext.step word (by omega) fun other place cursor hother => ?_
  exact hstep word other place cursor rfl hends hother (hreads other (hother.endsDigits hends))

/-- Whether a text ends a number that stands before it. -/
def EndsNumber (back : List Char) : Prop :=
  ∀ c ∈ back.head?, isIdentifierStart c = false

theorem Replaces.endsNumber (hback : Replaces back other) (hends : EndsNumber back) :
    EndsNumber other := by
  refine hback.head hends (fun c hgap => ?_) (by decide)
  rw [Bool.eq_false_iff]
  intro hstart
  have := not_isIdentifierPart_of_isGap hgap
  rw [isIdentifierPart_of_isIdentifierStart hstart] at this
  contradiction

theorem finishNumber_of_endsNumber (hends : EndsNumber text) (offset : Nat) :
    finishNumber text offset = (.number, ⟨text, offset⟩) := by
  cases text with
  | nil => rfl
  | cons c rest => simp [finishNumber, hends c rfl]

theorem endsNumber_of_finishNumber (hscan : finishNumber text offset = (token, cursor))
    (hproper : token.isProper = true) : EndsNumber text := by
  intro c hc
  obtain ⟨rest, rfl⟩ := List.head?_eq_some_iff.mp hc
  unfold finishNumber at hscan
  dsimp only at hscan
  split at hscan
  · obtain ⟨rfl, -⟩ := Prod.mk.inj hscan
    contradiction
  · rename_i hother
    simpa using hother

theorem finishNumber_rereads (hscan : finishNumber text offset = (token, cursor))
    (hproper : token.isProper = true) :
    Rereads (fun text place cursor => finishNumber text place = (token, cursor))
      text offset cursor := by
  have hends := endsNumber_of_finishNumber hscan hproper
  obtain ⟨rfl, rfl⟩ := Prod.mk.inj (finishNumber_of_endsNumber hends offset ▸ hscan)
  exact .done fun other place hother => finishNumber_of_endsNumber (hother.endsNumber hends) place

/-- The digits of an exponent, of which there is at least one. -/
theorem exponentDigits_rereads {opening : Nat}
    (hscan : (match scanDigits 10 text 0 false with
      | some (0, rest) => (.invalid opening, ⟨rest, offset⟩)
      | some (count, rest) => finishNumber rest (offset + count)
      | none => (.invalid opening, ⟨text, offset⟩)) = (token, cursor))
    (hproper : token.isProper = true) :
    Rereads (fun text place cursor => ∀ opening,
      (match scanDigits 10 text 0 false with
        | some (0, rest) => (.invalid opening, ⟨rest, place⟩)
        | some (count, rest) => finishNumber rest (place + count)
        | none => (.invalid opening, ⟨text, place⟩)) = (token, cursor)) text offset cursor := by
  split at hscan
  · obtain ⟨rfl, -⟩ := Prod.mk.inj hscan
    contradiction
  · rename_i count rest hsome hdigits
    refine (finishNumber_rereads hscan hproper).digits hdigits ?_
    intro word other place cursor _ _ _ hother hread opening
    obtain ⟨lower, rfl⟩ := Nat.exists_eq_succ_of_ne_zero hsome
    rw [hother]
    exact hread
  · obtain ⟨rfl, -⟩ := Prod.mk.inj hscan
    contradiction

theorem scanExponent_of_endsNumber (hends : EndsNumber text) (opening offset : Nat) :
    scanExponent opening text offset = (.number, ⟨text, offset⟩) := by
  have hfinish := finishNumber_of_endsNumber hends offset
  unfold scanExponent
  dsimp only
  split
  · rename_i e sign rest
    have := hends e rfl
    rw [if_neg]
    · exact hfinish
    · intro hexponent
      rcases Bool.or_eq_true_iff.mp hexponent with h | h <;> rw [eq_of_beq h] at this <;>
        contradiction
  · exact absurd (hends 'e' rfl) (by decide)
  · exact absurd (hends 'E' rfl) (by decide)
  · exact hfinish

theorem scanExponent_rereads {opening : Nat}
    (hscan : scanExponent opening text offset = (token, cursor)) (hproper : token.isProper = true) :
    Rereads (fun text place cursor => ∀ opening, scanExponent opening text place = (token, cursor))
      text offset cursor := by
  by_cases hends : EndsNumber text
  · obtain ⟨rfl, rfl⟩ := Prod.mk.inj (scanExponent_of_endsNumber hends opening offset ▸ hscan)
    exact .done fun other place hother opening =>
      scanExponent_of_endsNumber (hother.endsNumber hends) opening place
  unfold scanExponent at hscan
  dsimp only at hscan
  split at hscan
  · rename_i e sign rest
    split at hscan
    · rename_i hexponent
      have hsize : e.utf8Size = 1 := by
        rcases Bool.or_eq_true_iff.mp hexponent with h | h <;> rw [eq_of_beq h] <;> decide
      split at hscan
      · rename_i hsign
        refine (exponentDigits_rereads hscan hproper).step [e, sign] ?_ ?_
        · rcases Bool.or_eq_true_iff.mp hsign with h | h <;> simp [eq_of_beq h, hsize] <;> decide
        · intro other place cursor _ hread opening
          simp only [scanExponent, hexponent, hsign, if_true, List.cons_append, List.nil_append]
          exact hread opening
      · rename_i hsign
        refine (exponentDigits_rereads hscan hproper).step [e] (by simp [hsize]) ?_
        intro other place cursor hother hread opening
        cases other with
        | nil =>
            obtain ⟨rfl, -⟩ := Prod.mk.inj (hread opening)
            contradiction
        | cons c back =>
            -- a sign in the other text would be read as that of the exponent, but digits are
            -- known to stand there
            have hplain : ¬(c == '+' || c == '-') = true := by
              intro hsign
              have hnone : EndsDigits 10 (c :: back) := by
                rintro d ⟨⟩
                rcases Bool.or_eq_true_iff.mp hsign with h | h <;> rw [eq_of_beq h] <;> decide
              have hread := hread opening
              rw [scanDigits_of_endsDigits hnone] at hread
              obtain ⟨rfl, -⟩ := Prod.mk.inj hread
              contradiction
            simp only [scanExponent, hexponent, hplain, if_true, if_false, List.cons_append,
              List.nil_append, Bool.false_eq_true]
            exact hread opening
    · exact absurd (endsNumber_of_finishNumber hscan hproper) hends
  · obtain ⟨rfl, -⟩ := Prod.mk.inj hscan
    contradiction
  · obtain ⟨rfl, -⟩ := Prod.mk.inj hscan
    contradiction
  · exact absurd (endsNumber_of_finishNumber hscan hproper) hends

theorem scanFraction_rereads {opening : Nat}
    (hscan : scanFraction opening text offset = (token, cursor)) (hproper : token.isProper = true) :
    Rereads (fun text place cursor => ∀ opening, scanFraction opening text place = (token, cursor))
      text offset cursor := by
  unfold scanFraction at hscan
  split at hscan
  · rename_i count rest hdigits
    refine (scanExponent_rereads hscan hproper).digits hdigits ?_
    intro word other place cursor _ _ _ hother hread opening
    rw [scanFraction, hother]
    exact hread opening
  · obtain ⟨rfl, -⟩ := Prod.mk.inj hscan
    contradiction

theorem scanInteger_rereads {base opening : Nat}
    (hscan : scanInteger base opening text offset = (token, cursor))
    (hproper : token.isProper = true) :
    Rereads (fun text place cursor => ∀ opening,
      scanInteger base opening text place = (token, cursor)) text offset cursor := by
  unfold scanInteger at hscan
  split at hscan
  · obtain ⟨rfl, -⟩ := Prod.mk.inj hscan
    contradiction
  · rename_i count rest hsome hdigits
    have hnext : Rereads (fun text place cursor => text.head? = some 'n' ∧
        finishNumber text.tail (place + 1) = (token, cursor)) ('n' :: rest) (offset + count)
        cursor := by
      refine (finishNumber_rereads hscan hproper).step ['n'] rfl ?_
      exact fun other place cursor _ hread => ⟨rfl, hread⟩
    refine hnext.digits hdigits fun word other place cursor _ _ _ hother hread opening => ?_
    obtain ⟨hhead, hread⟩ := hread
    obtain ⟨back, rfl⟩ := List.head?_eq_some_iff.mp hhead
    obtain ⟨lower, rfl⟩ := Nat.exists_eq_succ_of_ne_zero hsome
    rw [scanInteger, hother]
    exact hread
  · rename_i count rest hsome hplain hdigits
    refine (finishNumber_rereads hscan hproper).digits hdigits ?_
    intro word other place cursor _ _ _ hother hread opening
    have hends := endsNumber_of_finishNumber hread hproper
    obtain ⟨lower, rfl⟩ := Nat.exists_eq_succ_of_ne_zero hsome
    rw [scanInteger, hother]
    cases other with
    | nil => exact hread
    | cons c back =>
        have hc : c ≠ 'n' := by
          rintro rfl
          exact absurd (hends 'n' rfl) (by decide)
        simpa [hc] using hread
  · obtain ⟨rfl, -⟩ := Prod.mk.inj hscan
    contradiction

/-- Whether a text, behind a leading zero, is no marker of a base, an integer or a fraction. -/
def EndsZero (back : List Char) : Prop :=
  ∀ c ∈ back.head?, ¬(c.isDigit = true ∨ c ∈ ['x', 'X', 'o', 'O', 'b', 'B', '_', 'n', '.'])

theorem Replaces.endsZero (hback : Replaces back other) (hends : EndsZero back) :
    EndsZero other := by
  refine hback.head hends (fun c hgap => ?_) (by decide)
  rintro (hdigit | hmarker)
  · rw [not_isDigit_of_isGap hgap] at hdigit
    contradiction
  · have hsolid : (['x', 'X', 'o', 'O', 'b', 'B', '_', 'n', '.'].all fun d => !isGap d) = true := by
      decide
    have := List.all_eq_true.mp hsolid c hmarker
    rw [hgap] at this
    contradiction

theorem scanNumber_zero (hends : EndsZero text) (offset : Nat) :
    scanNumber ('0' :: text) offset = scanExponent offset text (offset + 1) := by
  cases text with
  | nil => rfl
  | cons c rest =>
      have hc := hends c rfl
      simp only [List.mem_cons, List.not_mem_nil, or_false, not_or] at hc
      simp [scanNumber, hc]

/-- What a number goes on with behind the digits it starts with. -/
def scanBehindDigits (place : Nat) (text : List Char) : Option (Nat × List Char) → Token × Cursor
  | some (count, 'n' :: rest) => finishNumber rest (place + count + 1)
  | some (count, '.' :: rest) => scanFraction place rest (place + count + 1)
  | some (count, rest) => scanExponent place rest (place + count)
  | none => (.invalid place, ⟨text, place⟩)

theorem scanNumber_eq {c : Char} (hzero : c ≠ '0') (hpoint : c ≠ '.') (text : List Char)
    (place : Nat) : scanNumber (c :: text) place =
      scanBehindDigits place (c :: text) (scanDigits 10 (c :: text) 0 false) := by
  unfold scanNumber
  split
  · simp_all
  · simp_all
  · rfl

theorem scanNumber_rereads_zero {rest : List Char}
    (hscan : scanNumber ('0' :: rest) offset = (token, cursor)) (hproper : token.isProper = true) :
    Rereads (fun text place cursor => scanNumber text place = (token, cursor))
      ('0' :: rest) offset cursor := by
  by_cases hends : EndsZero rest
  · rw [scanNumber_zero hends] at hscan
    refine (scanExponent_rereads hscan hproper).step ['0'] rfl ?_
    intro other place cursor hother hread
    rw [List.singleton_append, scanNumber_zero (hother.endsZero hends)]
    exact hread place
  -- behind the zero is a character that decides what is read, and it is one byte long
  obtain ⟨marker, rest, rfl⟩ : ∃ marker more, rest = marker :: more := by
    refine List.exists_cons_of_ne_nil ?_
    rintro rfl
    exact hends (by simp [EndsZero])
  have hmarked : marker.isDigit = true ∨
      marker ∈ ['x', 'X', 'o', 'O', 'b', 'B', '_', 'n', '.'] := by
    by_contra hother
    exact hends fun d hd => Option.some.inj hd ▸ hother
  have hsize : byteLength ['0', marker] = 2 := by
    have : marker.utf8Size = 1 := by
      rcases hmarked with hdigit | hmember
      · exact (solid_of_digitValue (digitValue_of_isDigit hdigit).2).1
      · have hsizes : (['x', 'X', 'o', 'O', 'b', 'B', '_', 'n', '.'].all fun d =>
            d.utf8Size == 1) = true := by decide
        exact eq_of_beq (List.all_eq_true.mp hsizes marker hmember)
    rw [byteLength_cons, byteLength_cons, this]
    rfl
  simp only [scanNumber] at hscan
  split at hscan
  · refine (scanInteger_rereads hscan hproper).step ['0', marker] hsize ?_
    intro other place cursor _ hread
    simp [scanNumber, *]
  split at hscan
  · refine (scanInteger_rereads hscan hproper).step ['0', marker] hsize ?_
    intro other place cursor _ hread
    simp [scanNumber, *]
  split at hscan
  · refine (scanInteger_rereads hscan hproper).step ['0', marker] hsize ?_
    intro other place cursor _ hread
    simp [scanNumber, *]
  split at hscan
  · obtain ⟨rfl, -⟩ := Prod.mk.inj hscan
    contradiction
  split at hscan
  · refine (finishNumber_rereads hscan hproper).step ['0', marker] hsize ?_
    intro other place cursor _ hread
    simp [scanNumber, *]
  split at hscan
  · refine (scanFraction_rereads hscan hproper).step ['0', marker] hsize ?_
    intro other place cursor _ hread
    simp [scanNumber, *]
  · simp_all

theorem scanNumber_rereads_digits {c : Char} {rest : List Char} (hdigit : c.isDigit = true)
    (hzero : c ≠ '0') (hscan : scanNumber (c :: rest) offset = (token, cursor))
    (hproper : token.isProper = true) :
    Rereads (fun text place cursor => scanNumber text place = (token, cursor))
      (c :: rest) offset cursor := by
  have hpoint : c ≠ '.' := by
    rintro rfl
    exact absurd hdigit (by decide)
  -- the digits start with the first character of the number
  have hword : ∀ {count back word other place}, c :: rest = word ++ back → EndsDigits 10 back →
      scanDigits 10 (word ++ other) 0 false = some (count, other) →
      scanNumber (word ++ other) place =
        scanBehindDigits place (word ++ other) (some (count, other)) := by
    intro count back word other place hsame hends hdigits
    cases word with
    | nil =>
        have hvalue := digitValue_of_isDigit hdigit
        rw [(hends c (by rw [← show _ = back from hsame]; rfl)).2] at hvalue
        exact absurd hvalue.2 Bool.false_ne_true
    | cons d word =>
        obtain ⟨rfl, -⟩ := List.cons.inj hsame
        rw [← hdigits]
        exact scanNumber_eq hzero hpoint _ place
  rw [scanNumber_eq hzero hpoint] at hscan
  unfold scanBehindDigits at hscan
  split at hscan
  · rename_i count rest hdigits
    have hnext : Rereads (fun text place cursor => text.head? = some 'n' ∧
        finishNumber text.tail (place + 1) = (token, cursor)) ('n' :: rest) (offset + count)
        cursor := by
      refine (finishNumber_rereads hscan hproper).step ['n'] rfl ?_
      exact fun other place cursor _ hread => ⟨rfl, hread⟩
    refine hnext.digits hdigits fun word other place cursor hsame hends _ hother hread => ?_
    obtain ⟨more, rfl⟩ := List.head?_eq_some_iff.mp hread.1
    rw [hword hsame hends hother]
    exact hread.2
  · rename_i count rest hdigits
    have hnext : Rereads (fun text place cursor => text.head? = some '.' ∧
        ∀ opening, scanFraction opening text.tail (place + 1) = (token, cursor)) ('.' :: rest)
        (offset + count) cursor := by
      refine (scanFraction_rereads hscan hproper).step ['.'] rfl ?_
      exact fun other place cursor _ hread => ⟨rfl, hread⟩
    refine hnext.digits hdigits fun word other place cursor hsame hends _ hother hread => ?_
    obtain ⟨more, rfl⟩ := List.head?_eq_some_iff.mp hread.1
    rw [hword hsame hends hother]
    exact hread.2 place
  · rename_i count rest hinteger hfraction hdigits
    refine (scanExponent_rereads hscan hproper).digits hdigits ?_
    intro word other place cursor hsame hends hback hother hread
    have hplain : ∀ d ∈ other.head?, d ≠ 'n' ∧ d ≠ '.' := by
      refine hback.head (fun d hd => ?_) (fun d hgap => ?_) (by decide)
      · obtain ⟨more, rfl⟩ := List.head?_eq_some_iff.mp hd
        exact ⟨by rintro rfl; exact hinteger _ rfl, by rintro rfl; exact hfraction _ rfl⟩
      · constructor <;> rintro rfl <;> exact absurd hgap (by decide)
    rw [hword hsame hends hother]
    cases other with
    | nil => exact hread place
    | cons d more => simpa [scanBehindDigits, hplain d rfl] using hread place
  · obtain ⟨rfl, -⟩ := Prod.mk.inj hscan
    contradiction

theorem scanNumber_rereads {c : Char} {rest : List Char} (hfirst : c.isDigit = true ∨ c = '.')
    (hscan : scanNumber (c :: rest) offset = (token, cursor)) (hproper : token.isProper = true) :
    Rereads (fun text place cursor => scanNumber text place = (token, cursor))
      (c :: rest) offset cursor := by
  by_cases hzero : c = '0'
  · subst hzero
    exact scanNumber_rereads_zero hscan hproper
  rcases hfirst with hdigit | rfl
  · exact scanNumber_rereads_digits hdigit hzero hscan hproper
  · refine (scanFraction_rereads hscan hproper).step ['.'] rfl ?_
    exact fun other place cursor _ hread => hread place

/-- A fraction that starts with a digit. -/
theorem scanFraction_rereads_digit {opening : Nat} {d : Char} {more : List Char}
    (hdigit : d.isDigit = true) (hscan : scanFraction opening (d :: more) offset = (token, cursor))
    (hproper : token.isProper = true) :
    Rereads (fun text place cursor => text.head? = some d ∧
      ∀ opening, scanFraction opening text place = (token, cursor)) (d :: more) offset cursor := by
  unfold scanFraction at hscan
  split at hscan
  · rename_i count rest hdigits
    refine (scanExponent_rereads hscan hproper).digits hdigits ?_
    intro word other place cursor hsame hends _ hother hread
    refine ⟨?_, fun opening => ?_⟩
    · cases word with
      | nil =>
          have hnot := (hends d (by rw [← show _ = rest from hsame]; rfl)).2
          rw [(digitValue_of_isDigit hdigit).2] at hnot
          contradiction
      | cons e word => exact congrArg some (List.cons.inj hsame).1.symm
    · rw [scanFraction, hother]
      exact hread opening
  · obtain ⟨rfl, -⟩ := Prod.mk.inj hscan
    contradiction

end Script
end ScriptBundler

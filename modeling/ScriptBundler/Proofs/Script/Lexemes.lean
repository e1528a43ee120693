import ScriptBundler.Proofs.Script.Numerals

/-!
# Lexemes in other surroundings

A punctuator is read in the same way wherever it stands, except for a question mark: whether it and
a point behind it are one punctuator is decided by the character behind the point.  A lexeme, the
gap before it included, is read again with the same token, at the place to which it has been moved.
-/

namespace ScriptBundler

open Text

namespace Script

variable {back other text : List Char} {offset : Nat} {token : Token} {cursor : Cursor}

/-! ## Punctuators -/

/-- The parts of a punctuator behind its first character are no slashes, nor white space. -/
theorem punctuators_inner : (punctuators.all fun found =>
    found.tail.all fun c => c != '/' && !isGap c) = true := by
  decide +kernel

/-- A text of neither slashes nor white space that stands before the other text stands before the
first one. -/
theorem Replaces.isPrefix {front : List Char} (hback : Replaces back other)
    (hfront : ∀ c ∈ front, c ≠ '/' ∧ isGap c = false) (hstarts : front <+: other) :
    front <+: back := by
  induction hback generalizing front with
  | same => exact hstarts
  | cut hhead =>
      cases front with
      | nil => exact List.nil_prefix
      | cons d front =>
          obtain ⟨later, rfl⟩ := hstarts
          obtain ⟨hslash, hsolid⟩ := hfront d List.mem_cons_self
          -- the other text starts with white space or a slash here, so nothing of `front` is left
          rcases hhead d rfl with hgap | ⟨rfl, -⟩
          · rw [hsolid] at hgap
            contradiction
          · contradiction
  | behind c _ ih =>
      cases front with
      | nil => exact List.nil_prefix
      | cons d front =>
          rw [List.cons_prefix_cons] at hstarts ⊢
          exact ⟨hstarts.1, ih (fun e he => hfront e (List.mem_cons_of_mem d he)) hstarts.2⟩

theorem Replaces.find?_punctuators {c : Char} {found : List Char} (hback : Replaces back other)
    (hfind : punctuators.find? (·.isPrefixOf (c :: back)) = some found)
    (hfound : found <+: c :: other) :
    punctuators.find? (·.isPrefixOf (c :: other)) = some found := by
  rw [List.find?_eq_some_iff_append] at hfind ⊢
  obtain ⟨hstarts, earlier, later, hlist, hnone⟩ := hfind
  refine ⟨List.isPrefixOf_iff_prefix.mpr hfound, earlier, later, hlist, fun first hfirst => ?_⟩
  have hmember : first ∈ punctuators := hlist ▸ List.mem_append_left _ hfirst
  have hinner := List.all_eq_true.mp (List.all_eq_true.mp punctuators_inner first hmember)
  have hother : ¬first <+: c :: back := by
    have hnot := hnone first hfirst
    rw [Bool.not_eq_true'] at hnot
    rw [← List.isPrefixOf_iff_prefix, hnot]
    exact Bool.false_ne_true
  rw [Bool.not_eq_true', Bool.eq_false_iff, ne_eq, List.isPrefixOf_iff_prefix]
  refine fun hlonger => hother ?_
  cases first with
  | nil => exact List.nil_prefix
  | cons d inner =>
      rw [List.cons_prefix_cons] at hlonger ⊢
      exact ⟨hlonger.1, hback.isPrefix (fun e he => by simpa using hinner e he) hlonger.2⟩

/-- A punctuator that is found is read as it is, unless it is `?.` before a digit. -/
theorem scanPunctuator_of_find? {found : List Char}
    (hfind : punctuators.find? (·.isPrefixOf (found ++ text)) = some found)
    (hdigit : found = ['?', '.'] → ∀ d ∈ text.head?, d.isDigit = false) (offset : Nat) :
    scanPunctuator (found ++ text) offset =
      (.punctuator (String.ofList found), ⟨text, offset + found.length⟩) := by
  unfold scanPunctuator
  rw [hfind]
  dsimp only
  split
  · rename_i d rest heq
    obtain ⟨-, -, rfl⟩ : _ ∧ _ ∧ text = d :: rest := by simpa using heq
    rw [if_neg (by simp [hdigit rfl d rfl])]
    rfl
  · rw [List.drop_left]

/-- A question mark before white space is a punctuator. -/
theorem scanPunctuator_question (hgap : ∀ c ∈ text.head?, isGap c = true) (offset : Nat) :
    scanPunctuator ('?' :: text) offset = (.punctuator "?", ⟨text, offset + 1⟩) := by
  have hsplit : punctuators = punctuators.take 53 ++ ['?'] :: punctuators.drop 54 := by decide
  have hearlier : ((punctuators.take 53).all fun found =>
      !found.isEmpty && found != ['?']) = true := by
    decide
  refine scanPunctuator_of_find? ?_ (fun h : ['?'] = ['?', '.'] => by contradiction) offset
  rw [List.find?_eq_some_iff_append]
  refine ⟨by simp, _, _, hsplit, fun first hfirst => ?_⟩
  have hmember : first ∈ punctuators := List.mem_of_mem_take hfirst
  have hinner := List.all_eq_true.mp (List.all_eq_true.mp punctuators_inner first hmember)
  obtain ⟨hne, hother⟩ := Bool.and_eq_true_iff.mp (List.all_eq_true.mp hearlier first hfirst)
  rw [Bool.not_eq_true', Bool.eq_false_iff, ne_eq, List.isPrefixOf_iff_prefix]
  rintro ⟨more, hmore⟩
  -- a longer punctuator would go on with its second character, which is no white space
  rcases first with _ | ⟨d, _ | ⟨e, inner⟩⟩
  · contradiction
  · obtain rfl : d = '?' := (List.cons.inj hmore).1
    contradiction
  · obtain ⟨-, rfl⟩ := List.cons.inj hmore
    have hsolid := hinner e List.mem_cons_self
    rw [hgap e rfl] at hsolid
    simp at hsolid

/-- A question mark before a fraction is a punctuator. -/
theorem scanPunctuator_fraction {d : Char} {rest : List Char}
    (hfind : punctuators.find? (·.isPrefixOf ('?' :: '.' :: d :: rest)) = some ['?', '.'])
    (hdigit : d.isDigit = true) (offset : Nat) :
    scanPunctuator ('?' :: '.' :: d :: rest) offset =
      (.punctuator "?", ⟨'.' :: d :: rest, offset + 1⟩) := by
  unfold scanPunctuator
  rw [hfind]
  simp [hdigit]

/-- Whether a point that comes behind a token is the same one as before, if the token is a question
mark: what comes behind that point decides whether they are one token. -/
def KeepsPoint (token : Token) (back other : List Char) : Prop :=
  token = .punctuator "?" → other.head? = some '.' → other.tail.head? = back.tail.head?

/-- A punctuator is read again, unless it is a question mark before another fraction. -/
theorem scanPunctuator_rereads (hscan : scanPunctuator text offset = (token, cursor))
    (hproper : token.isProper = true) :
    Rereads (fun text place after => KeepsPoint token cursor.rest after.rest →
      scanPunctuator text place = (token, after)) text offset cursor := by
  cases hfind : punctuators.find? (·.isPrefixOf text) with
  | none =>
      unfold scanPunctuator at hscan
      rw [hfind] at hscan
      obtain ⟨rfl, -⟩ := Prod.mk.inj hscan
      contradiction
  | some found =>
      have hstarts := List.find?_some (p := fun front : List Char => front.isPrefixOf text) hfind
      obtain ⟨hne, hsolid⟩ := solid_of_mem_punctuators (List.mem_of_find?_eq_some hfind)
      obtain ⟨back, rfl⟩ := List.isPrefixOf_iff_prefix.mp hstarts
      -- `?.` before a digit is read as `?`, and every other punctuator as it is found
      by_cases hdigit : found = ['?', '.'] → ∀ d ∈ back.head?, d.isDigit = false
      · rw [scanPunctuator_of_find? hfind hdigit] at hscan
        obtain ⟨rfl, rfl⟩ := Prod.mk.inj hscan
        have hlength : byteLength found = found.length :=
          byteLength_eq_length fun c hc => (hsolid c hc).1
        refine ⟨found, rfl, by rw [hlength], fun other place hother _ => ?_⟩
        rw [hlength]
        refine scanPunctuator_of_find? ?_ (fun hsame => ?_) place
        · obtain ⟨c, inner, rfl⟩ := List.exists_cons_of_ne_nil hne
          exact (hother.append inner).find?_punctuators hfind (List.prefix_append _ other)
        · exact hother.head (hdigit hsame) (fun _ => not_isDigit_of_isGap) (by decide)
      · push Not at hdigit
        obtain ⟨rfl, d, hd, hdigit⟩ := hdigit
        obtain ⟨more, rfl⟩ := List.head?_eq_some_iff.mp hd
        rw [Bool.ne_false_iff] at hdigit
        rw [show ['?', '.'] ++ d :: more = '?' :: '.' :: d :: more from rfl] at hscan hfind ⊢
        rw [scanPunctuator_fraction hfind hdigit] at hscan
        obtain ⟨rfl, rfl⟩ := Prod.mk.inj hscan
        refine ⟨['?'], rfl, rfl, fun other place hother hpoint => ?_⟩
        cases hother with
        | same => exact scanPunctuator_fraction hfind hdigit place
        | cut hhead =>
            refine scanPunctuator_question (fun c hc => ?_) place
            exact (hhead c hc).resolve_right fun h => by simp at h
        | behind _ hback =>
            rename_i other
            obtain ⟨back, rfl⟩ := List.head?_eq_some_iff.mp (hpoint rfl rfl)
            refine scanPunctuator_fraction ?_ hdigit place
            exact (hback.behind '.').find?_punctuators hfind ⟨d :: back, rfl⟩

/-! ## Tokens -/

theorem scanToken_punctuator {c : Char} {rest : List Char}
    (hword : ¬(isIdentifierStart c || c == '\\') = true) (hnumber : ¬c.isDigit = true)
    (hquote : ¬(c == '\x22' || c == '\x27') = true)
    (hpoint : c = '.' → ∀ d ∈ rest.head?, d.isDigit = false) (offset : Nat) :
    scanToken (c :: rest) offset = scanPunctuator (c :: rest) offset := by
  unfold scanToken
  dsimp only
  rw [if_neg hword, if_neg hnumber, if_neg hquote]
  split
  · rename_i d more heq
    obtain ⟨rfl, rfl⟩ := List.cons.inj heq
    rw [if_neg (by simp [hpoint rfl d rfl])]
  · rfl

theorem scanToken_word {c : Char} {rest : List Char}
    (hword : (isIdentifierStart c || c == '\\') = true) (offset : Nat) :
    scanToken (c :: rest) offset = scanWord (c :: rest) offset none [] false := by
  unfold scanToken
  exact if_pos hword

theorem scanToken_number {c : Char} {rest : List Char}
    (hword : ¬(isIdentifierStart c || c == '\\') = true) (hnumber : c.isDigit = true)
    (offset : Nat) : scanToken (c :: rest) offset = scanNumber (c :: rest) offset := by
  unfold scanToken
  exact (if_neg hword).trans (if_pos hnumber)

theorem scanToken_quote {c : Char} {rest : List Char}
    (hword : ¬(isIdentifierStart c || c == '\\') = true) (hnumber : ¬c.isDigit = true)
    (hquote : (c == '\x22' || c == '\x27') = true) (offset : Nat) :
    scanToken (c :: rest) offset = scanString c offset rest (offset + 1) none [] := by
  unfold scanToken
  exact (if_neg hword).trans ((if_neg hnumber).trans (if_pos hquote))

theorem scanToken_fraction {d : Char} (hdigit : d.isDigit = true) (rest : List Char)
    (offset : Nat) :
    scanToken ('.' :: d :: rest) offset = scanFraction offset (d :: rest) (offset + 1) := by
  have hpoint : isIdentifierStart '.' = false := by decide
  simp [scanToken, scanNumber, hdigit, hpoint]

/-- A token is read again if what its first character decides is. -/
theorem scanToken_rereads_of {reads : List Char → Nat → Cursor → Prop} {c : Char}
    {rest : List Char} (hscan : scanToken (c :: rest) offset = (token, cursor))
    (hproper : token.isProper = true) (hrereads : Rereads reads (c :: rest) offset cursor)
    (hreads : ∀ other place after, Replaces rest other → reads (c :: other) place after →
      KeepsPoint token cursor.rest after.rest → scanToken (c :: other) place = (token, after)) :
    Rereads (fun text place after => KeepsPoint token cursor.rest after.rest →
      scanToken text place = (token, after)) (c :: rest) offset cursor := by
  have hcloses := (scanToken_scanned (c :: rest) offset).closes
  rw [hscan] at hcloses
  have hlater := (hcloses hproper).lt
  obtain ⟨word, hword, hoffset, hagain⟩ := hrereads
  cases word with
  | nil => exact absurd hoffset (by simpa using hlater.ne)
  | cons d word =>
      obtain ⟨rfl, hrest⟩ := List.cons.inj hword
      refine ⟨c :: word, hword, hoffset, fun other place hother => ?_⟩
      exact hreads _ place _ (hrest ▸ hother.append word) (hagain other place hother)

theorem scanToken_rereads {c : Char} {rest : List Char}
    (hscan : scanToken (c :: rest) offset = (token, cursor)) (hproper : token.isProper = true) :
    Rereads (fun text place after => KeepsPoint token cursor.rest after.rest →
      scanToken text place = (token, after)) (c :: rest) offset cursor := by
  have hfirst := @scanToken_rereads_of offset token cursor
  by_cases hword : (isIdentifierStart c || c == '\\') = true
  · have hscan' := scanToken_word hword offset ▸ hscan
    refine hfirst hscan hproper (scanWord_rereads _ _ _ _ _ hscan' hproper) ?_
    intro other place after _ hread _
    rw [scanToken_word hword]
    exact hread 0
  by_cases hnumber : c.isDigit = true
  · have hscan' := scanToken_number hword hnumber offset ▸ hscan
    refine hfirst hscan hproper (scanNumber_rereads (Or.inl hnumber) hscan' hproper) ?_
    intro other place after _ hread _
    rw [scanToken_number hword hnumber]
    exact hread
  by_cases hquote : (c == '\x22' || c == '\x27') = true
  · have hscan' := scanToken_quote hword hnumber hquote offset ▸ hscan
    have hsize : c.utf8Size = 1 ∧ c ≠ '\n' := by
      rcases Bool.or_eq_true_iff.mp hquote with h | h <;> rw [eq_of_beq h] <;> decide
    have hstring : Rereads (fun text place cursor => text.head? = some c ∧
        scanString c place text.tail (place + 1) none [] = (token, cursor)) (c :: rest) offset
        cursor :=
      (scanString_rereads hsize _ _ _ _ _ hscan' hproper).step [c] (by simp [hsize.1])
        fun other place cursor _ hread => ⟨rfl, hread place none .none⟩
    refine hfirst hscan hproper hstring fun other place after _ hread _ => ?_
    rw [scanToken_quote hword hnumber hquote]
    exact hread.2
  by_cases hpoint : c = '.' ∧ ∃ d more, rest = d :: more ∧ d.isDigit = true
  · obtain ⟨rfl, d, more, rfl, hdigit⟩ := hpoint
    have hscan' := scanToken_fraction hdigit more offset ▸ hscan
    have hnumeral : Rereads (fun text place cursor => text.tail.head? = some d ∧
        scanFraction place text.tail (place + 1) = (token, cursor)) ('.' :: d :: more) offset
        cursor :=
      (scanFraction_rereads_digit hdigit hscan' hproper).step ['.'] rfl
        fun other place cursor _ hread => ⟨hread.1, hread.2 place⟩
    refine hfirst hscan hproper hnumeral fun other place after _ hread _ => ?_
    obtain ⟨back, rfl⟩ := List.head?_eq_some_iff.mp hread.1
    rw [scanToken_fraction hdigit]
    exact hread.2
  · have hother : c = '.' → ∀ d ∈ rest.head?, d.isDigit = false := by
      intro hc d hd
      obtain ⟨more, rfl⟩ := List.head?_eq_some_iff.mp hd
      exact Bool.eq_false_iff.mpr fun hdigit => hpoint ⟨hc, d, more, rfl, hdigit⟩
    have hscan' := scanToken_punctuator hword hnumber hquote hother offset ▸ hscan
    refine hfirst hscan hproper (scanPunctuator_rereads hscan' hproper) ?_
    intro other place after hreplaces hread hkeeps
    rw [scanToken_punctuator hword hnumber hquote fun hc =>
      hreplaces.head (hother hc) (fun _ => not_isDigit_of_isGap) (by decide)]
    exact hread hkeeps

/-! ## Gaps -/

/-- Whether two gaps are of the same kind. -/
inductive Gap.Alike : Gap → Gap → Prop where
  | between : Gap.Alike .between .between
  | line (start other : Nat) (legacy : Bool) : Gap.Alike (.line start legacy) (.line other legacy)
  | block (start other : Nat) : Gap.Alike (.block start) (.block other)

/-- Whether a comment starts a text. -/
def OpensComment (newline : Bool) (text : List Char) : Prop :=
  ['/', '/'] <+: text ∨ ['/', '*'] <+: text ∨ ['<', '!', '-', '-'] <+: text ∨
    newline = true ∧ ['-', '-', '>'] <+: text

theorem Replaces.slash (hback : Replaces back other) (hother : ['/'] <+: other) :
    ['/'] <+: back := by
  obtain ⟨more, rfl⟩ := hother
  cases hback with
  | same => exact List.prefix_append _ _
  | cut hhead =>
      rcases hhead '/' rfl with hgap | ⟨-, hslash⟩
      · exact absurd hgap (by decide)
      · obtain ⟨rest, rfl⟩ := List.head?_eq_some_iff.mp hslash
        exact List.prefix_append ['/'] rest
  | behind => exact List.prefix_append ['/'] _

theorem Replaces.opensComment {c : Char} {newline : Bool} (hback : Replaces back other)
    (hopens : OpensComment newline (c :: other)) : OpensComment newline (c :: back) := by
  simp only [OpensComment, List.cons_prefix_cons] at hopens ⊢
  refine hopens.imp (fun h => ⟨h.1, ?_⟩) (Or.imp (fun h => ⟨h.1, ?_⟩) (Or.imp (fun h => ⟨h.1, ?_⟩)
    fun h => ⟨h.1, h.2.1, ?_⟩))
  · exact hback.slash h.2
  · exact hback.isPrefix (by simp; decide) h.2
  · exact hback.isPrefix (by simp; decide) h.2
  · exact hback.isPrefix (by simp; decide) h.2.2

theorem skipGap_of_not_opensComment {c : Char} {newline : Bool} (hsolid : isGap c = false)
    (hopens : ¬OpensComment newline (c :: text)) (offset : Nat) (comments : List Comment)
    (legacy : Option Nat) : skipGap .between (c :: text) offset newline comments legacy =
      ⟨⟨c :: text, offset⟩, newline, comments, legacy, none⟩ := by
  rw [skipGap.eq_def]
  split <;> simp_all [OpensComment]

/-- White space before a gap is a part of it. -/
theorem skipGap_of_isGap {c : Char} (hgap : isGap c = true) (offset : Nat) (newline : Bool)
    (comments : List Comment) (legacy : Option Nat) :
    skipGap .between (c :: text) offset newline comments legacy =
      skipGap .between text (offset + c.utf8Size) (newline || isLineEnd c) comments legacy := by
  have hother : ∀ d ∈ ['/', '<', '-'], c ≠ d := by
    rintro d hd rfl
    have hsolid : (['/', '<', '-'].all fun d => !isGap d) = true := by decide
    have := List.all_eq_true.mp hsolid c hd
    rw [hgap] at this
    contradiction
  rw [skipGap.eq_def]
  simp_all

/-- A comment in the style of markup is not forgotten. -/
theorem legacy_eq_none {skipped : Skipped} (gap : Gap) (text : List Char) (offset : Nat)
    (newline : Bool) (comments : List Comment) (legacy : Option Nat)
    (hskip : skipGap gap text offset newline comments legacy = skipped)
    (hlegacy : skipped.legacyComment = none) : legacy = none := by
  fun_induction skipGap gap text offset newline comments legacy <;> subst_vars <;> simp_all

/-- A gap is skipped again before the same token, wherever it stands. -/
theorem skipGap_rereads {skipped : Skipped} {c : Char} (gap : Gap) (text : List Char) (offset : Nat)
    (newline : Bool) (comments : List Comment) (legacy : Option Nat)
    (hskip : skipGap gap text offset newline comments legacy = skipped)
    (hrest : skipped.cursor.rest = c :: back) (hclosed : skipped.unclosed = none)
    (hlegacy : skipped.legacyComment = none) :
    Rereads (fun text place cursor => ∀ others other comments, cursor.rest = c :: others →
        Replaces back others → gap.Alike other →
        ∃ found, skipGap other text place newline comments none =
          ⟨cursor, skipped.newline, found, none, none⟩) text offset skipped.cursor := by
  fun_induction skipGap gap text offset newline comments legacy with
  | case1 offset newline comments legacy rest ih =>
      refine (ih hskip).step ['/', '/'] rfl ?_
      rintro text place cursor - hnext others _ comments hother hback ⟨⟩
      rw [skipGap.eq_def]
      exact hnext others (.line place false) comments hother hback (.line _ _ false)
  | case2 offset newline comments legacy rest ih =>
      refine (ih hskip).step ['/', '*'] rfl ?_
      rintro text place cursor - hnext others _ comments hother hback ⟨⟩
      rw [skipGap.eq_def]
      exact hnext others (.block place) comments hother hback (.block _ _)
  | case3 offset newline comments legacy rest =>
      exact absurd (legacy_eq_none _ _ _ _ _ _ hskip hlegacy) (by simp)
  | case4 offset comments legacy rest =>
      exact absurd (legacy_eq_none _ _ _ _ _ _ hskip hlegacy) (by simp)
  | case5 offset newline comments legacy rest hline =>
      obtain rfl := hskip
      obtain ⟨rfl, -⟩ := List.cons.inj hrest
      refine .done ?_
      rintro _ place - others _ comments rfl hback ⟨⟩
      refine ⟨comments, skipGap_of_not_opensComment (by decide) ?_ place comments none⟩
      simp [OpensComment, hline]
  | case6 offset newline comments legacy d rest h1 h2 h3 h4 hgap ih =>
      refine (ih hskip).step [d] (by simp) ?_
      rintro text place cursor - hnext others _ comments hother hback ⟨⟩
      obtain ⟨found, hnext⟩ := hnext others .between comments hother hback .between
      refine ⟨found, ?_⟩
      rw [List.singleton_append, skipGap_of_isGap hgap]
      exact hnext
  | case7 offset newline comments legacy d rest h1 h2 h3 h4 hgap =>
      obtain rfl := hskip
      obtain ⟨rfl, rfl⟩ := List.cons.inj hrest
      refine .done ?_
      rintro _ place - others _ comments rfl hback ⟨⟩
      refine ⟨comments, skipGap_of_not_opensComment (by simpa using hgap) (fun hopens => ?_) place
        comments none⟩
      rcases hback.opensComment hopens with ⟨more, hmore⟩ | ⟨more, hmore⟩ | ⟨more, hmore⟩ |
        ⟨hline, more, hmore⟩
      · exact h1 more (List.cons.inj hmore).1.symm (List.cons.inj hmore).2.symm
      · exact h2 more (List.cons.inj hmore).1.symm (List.cons.inj hmore).2.symm
      · exact h3 more (List.cons.inj hmore).1.symm (List.cons.inj hmore).2.symm
      · exact h4 more (List.cons.inj hmore).1.symm (List.cons.inj hmore).2.symm
  | case8 offset newline comments legacy start markup d rest hend ih =>
      refine (ih hskip).step [d] (by simp) ?_
      rintro text place cursor - hnext others _ comments hother hback ⟨⟩
      rw [List.singleton_append, skipGap.eq_def]
      simpa [hend] using hnext others .between _ hother hback .between
  | case9 offset newline comments legacy start markup d rest hend ih =>
      refine (ih hskip).step [d] (by simp) ?_
      rintro text place cursor - hnext others _ comments hother hback ⟨⟩
      rw [List.singleton_append, skipGap.eq_def]
      simpa [hend] using hnext others (.line _ markup) comments hother hback (.line _ _ markup)
  | case10 offset newline comments legacy start rest ih =>
      refine (ih hskip).step ['*', '/'] rfl ?_
      rintro text place cursor - hnext others _ comments hother hback ⟨⟩
      rw [skipGap.eq_def]
      exact hnext others .between _ hother hback .between
  | case11 offset newline comments legacy start d rest hend ih =>
      refine (ih hskip).step [d] (by simp) ?_
      intro text place cursor htext hnext others other comments hother hback halike
      cases halike with
      | block _ opening =>
      -- a star before the cut does not get a slash behind it that was not there
      have hopen : ∀ more, d = '*' → text ≠ '/' :: more := by
        rintro more hstar rfl
        obtain ⟨first, hfirst⟩ := htext.slash ⟨more, rfl⟩
        exact hend first hstar hfirst.symm
      rw [List.singleton_append, skipGap.eq_def]
      have hnext := hnext others (.block opening) comments hother hback (.block _ opening)
      simp_all
  | case12 | case13 =>
      obtain rfl := hskip
      contradiction
  | case14 =>
      obtain rfl := hskip
      contradiction

/-! ## Lexemes -/

/-- A lexeme that is read behind a gap. -/
theorem nextLexeme_of_scanToken (origin : Cursor) {first newline : Bool} {start : Cursor}
    {comments : List Comment} {legacy : Option Nat}
    (hskip : skipGap .between origin.rest origin.offset first [] none =
      ⟨start, newline, comments, legacy, none⟩)
    (hscan : scanToken start.rest start.offset = (token, cursor))
    (hkeyword : ∀ name, token = .word name true → isReserved name = false) :
    nextLexeme origin first = { token, span := ⟨start.offset, cursor.offset⟩
                                afterNewline := newline, start := start.rest, rest := cursor.rest
                                comments := comments.reverse, legacyComment := legacy } := by
  unfold nextLexeme
  rw [hskip]
  dsimp only
  rw [hscan]
  split
  · rename_i name finish heq
    obtain ⟨rfl, rfl⟩ := Prod.mk.inj heq
    rw [hkeyword name rfl]
    rfl
  · rfl

/-- What is right of a lexeme is read behind a gap. -/
theorem exists_scanToken {first : Bool} {origin : Cursor}
    (hproper : (nextLexeme origin first).token.isProper = true) :
    ∃ start newline comments legacy token cursor,
      skipGap .between origin.rest origin.offset first [] none =
        ⟨start, newline, comments, legacy, none⟩ ∧
      scanToken start.rest start.offset = (token, cursor) ∧
      ∀ name, token = .word name true → isReserved name = false := by
  unfold nextLexeme at hproper
  rcases hskip : skipGap .between origin.rest origin.offset first [] none with
    ⟨start, newline, comments, legacy, _ | opening⟩
  · rcases hscan : scanToken start.rest start.offset with ⟨token, cursor⟩
    refine ⟨start, newline, comments, legacy, token, cursor, rfl, hscan, ?_⟩
    rintro name rfl
    rw [hskip] at hproper
    dsimp only at hproper
    rw [hscan] at hproper
    by_contra hreserved
    rw [Bool.not_eq_false] at hreserved
    simp [hreserved, Token.isProper] at hproper
  · rw [hskip] at hproper
    contradiction

/-- A token starts behind a gap, and is read again behind any gap that leads to its text. -/
theorem exists_reread {origin : Cursor} {first : Bool} {lexeme : Lexeme}
    (hnext : nextLexeme origin first = lexeme) (hproper : lexeme.token.isProper = true) :
    ∃ place comments c inner,
      skipGap .between origin.rest origin.offset first [] none =
        ⟨⟨c :: inner ++ lexeme.rest, place⟩, lexeme.afterNewline, comments, lexeme.legacyComment,
          none⟩ ∧
      lexeme.start = c :: inner ++ lexeme.rest ∧
      lexeme.span = ⟨place, place + byteLength (c :: inner)⟩ ∧
      ∀ {other : List Char} {place : Nat} {origin : Cursor} {first newline : Bool}
        {comments : List Comment}, Replaces lexeme.rest other →
        KeepsPoint lexeme.token lexeme.rest other →
        skipGap .between origin.rest origin.offset first [] none =
          ⟨⟨c :: inner ++ other, place⟩, newline, comments, none, none⟩ →
        nextLexeme origin first =
          { token := lexeme.token, span := ⟨place, place + byteLength (c :: inner)⟩
            afterNewline := newline, start := c :: inner ++ other, rest := other
            comments := comments.reverse, legacyComment := none } := by
  obtain ⟨⟨text, place⟩, newline, comments, legacy, token, cursor, hskip, hscan, hkeyword⟩ :=
    exists_scanToken (hnext ▸ hproper)
  obtain rfl := (nextLexeme_of_scanToken _ hskip hscan hkeyword).symm.trans hnext
  obtain ⟨c, back, rfl⟩ : ∃ c back, text = c :: back := by
    refine List.exists_cons_of_ne_nil ?_
    rintro rfl
    obtain ⟨rfl, -⟩ := Prod.mk.inj hscan
    contradiction
  have hlater := ((scanToken_scanned (c :: back) place).closes (hscan ▸ hproper)).lt
  rw [hscan] at hlater
  obtain ⟨word, hword, hoffset, hscans⟩ := scanToken_rereads hscan hproper
  dsimp only at hlater hoffset hword
  obtain ⟨d, inner, rfl⟩ : ∃ d inner, word = d :: inner := by
    refine List.exists_cons_of_ne_nil ?_
    rintro rfl
    rw [byteLength_nil, Nat.add_zero] at hoffset
    exact absurd hoffset hlater.ne
  obtain ⟨rfl, rfl⟩ := List.cons.inj hword
  refine ⟨place, comments, c, inner, hskip, rfl, by rw [hoffset], ?_⟩
  intro other place origin first newline comments hother hpoint hskip
  exact nextLexeme_of_scanToken origin hskip (hscans other place hother hpoint) hkeyword

/-- A lexeme is read again wherever the text stands that it is read from, and whatever follows
it. -/
theorem nextLexeme_rereads {lexeme : Lexeme} {first : Bool}
    (hnext : nextLexeme ⟨text, offset⟩ first = lexeme) (hproper : lexeme.token.isProper = true)
    (hlegacy : lexeme.legacyComment = none) :
    ∃ gap word, text = gap ++ (word ++ lexeme.rest) ∧ word ≠ [] ∧
      lexeme.start = word ++ lexeme.rest ∧
      lexeme.span = ⟨offset + byteLength gap, offset + byteLength gap + byteLength word⟩ ∧
      ∀ other place, Replaces lexeme.rest other → KeepsPoint lexeme.token lexeme.rest other →
        ∃ comments,
        nextLexeme ⟨gap ++ (word ++ other), place⟩ first =
          { token := lexeme.token
            span := ⟨place + byteLength gap, place + byteLength gap + byteLength word⟩
            afterNewline := lexeme.afterNewline, start := word ++ other, rest := other
            comments, legacyComment := none } := by
  obtain ⟨start, comments, c, inner, hskip, hstart, hspan, hagain⟩ := exists_reread hnext hproper
  obtain ⟨gap, htext, hgap, hskips⟩ := skipGap_rereads _ _ _ _ _ _ hskip rfl rfl hlegacy
  dsimp only at htext hgap hskips
  refine ⟨gap, c :: inner, htext, List.cons_ne_nil c inner, hstart, by rw [hspan, hgap], ?_⟩
  intro other place hother hpoint
  have hback := hother.append inner
  obtain ⟨found, hskipped⟩ := hskips (c :: (inner ++ other)) place (hback.behind c) _ .between []
    rfl hback .between
  exact ⟨found.reverse, hagain hother hpoint hskipped⟩

end Script
end ScriptBundler

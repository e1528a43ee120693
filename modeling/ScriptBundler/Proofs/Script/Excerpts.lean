import ScriptBundler.Proofs.Script.Passages
import ScriptBundler.Proofs.Script.Spacing

/-!
# Excerpts

An excerpt is the text of a top-level statement with the comments around it, as they stand in the
source that the statement has been read from.  Comments between two statements have been found in
one gap, so that what is left of it before or behind a comment is spacing by itself.
-/

namespace ScriptBundler
namespace Script

open Text Cursor Std.Do

set_option mvcgen.warning false

/-! ## Comments before a token -/

theorem skipGap_stop_le (gap : Gap) (text : List Char) (offset : Nat) (newline : Bool)
    (comments : List Comment) (legacy : Option Nat)
    (hcomments : ∀ comment ∈ comments, comment.span.stop ≤ offset) :
    ∀ comment ∈ (skipGap gap text offset newline comments legacy).comments,
      comment.span.stop ≤ (skipGap gap text offset newline comments legacy).cursor.offset := by
  fun_induction skipGap gap text offset newline comments legacy <;> grind

/-- The comments before a token stand between where reading has started and where it starts. -/
theorem nextLexeme_comments (origin : Cursor) (first : Bool) :
    ∀ comment ∈ (nextLexeme origin first).comments, origin.offset ≤ comment.span.start ∧
      comment.span.stop ≤ (nextLexeme origin first).span.start := by
  intro comment hcomment
  obtain ⟨⟨rest, hplace⟩, -, -⟩ := (nextLexeme_right origin first).comments comment hcomment
  exact ⟨hplace.le, skipGap_stop_le _ _ _ _ _ _ (by simp) comment (List.mem_reverse.mp hcomment)⟩

/-- Before a token that is not malformed, a gap is closed. -/
theorem closed_of_ne_invalid {origin : Cursor} {first : Bool}
    (htoken : ∀ place, (nextLexeme origin first).token ≠ .invalid place) :
    (skipGap .between origin.rest origin.offset first [] none).unclosed = none := by
  by_contra hopen
  obtain ⟨opening, hopening⟩ := Option.ne_none_iff_exists'.mp hopen
  refine htoken opening ?_
  unfold nextLexeme
  dsimp only
  rw [hopening]

/-- From a comment on, what is left of the gap before a token is spacing. -/
theorem exists_lead {origin : Cursor} {first : Bool}
    (htoken : ∀ place, (nextLexeme origin first).token ≠ .invalid place)
    (hlegacy : (nextLexeme origin first).legacyComment = none) {comment : Comment}
    (hcomment : comment ∈ (nextLexeme origin first).comments) :
    ∃ lead, origin.Reaches ⟨lead ++ (nextLexeme origin first).start, comment.span.start⟩ ∧
      Spacing (nextLexeme origin first).start lead ∧
      comment.span.start + byteLength lead = (nextLexeme origin first).span.start ∧
      (lead ++ (nextLexeme origin first).start).head? = some '/' := by
  have hclosed := closed_of_ne_invalid htoken
  rcases exists_comment rfl hclosed hlegacy (List.mem_reverse.mp hcomment) with
    hnone | ⟨front, body, back, newline, found, hrest, -, hbody, hspan, hskip⟩
  · contradiction
  obtain ⟨lead, hlead, hspacing, hoffset⟩ := exists_spacing hskip hclosed hlegacy
  have hstart : comment.span.start = origin.offset + byteLength front := congrArg Span.start hspan
  have hwhole : body ++ back = lead ++ (nextLexeme origin first).start := hlead
  rw [hstart]
  refine ⟨lead, ⟨front, hwhole ▸ hrest, rfl⟩, hspacing, hoffset, hwhole ▸ ?_⟩
  cases hbody <;> rfl

/-- Up to the end of a comment, what is behind a token is spacing and that comment. -/
theorem exists_trail {origin : Cursor} {first : Bool}
    (htoken : ∀ place, (nextLexeme origin first).token ≠ .invalid place)
    (hlegacy : (nextLexeme origin first).legacyComment = none) {comment : Comment}
    (hcomment : comment ∈ (nextLexeme origin first).comments) :
    ∃ front body back, origin.rest = front ++ (body ++ back) ∧ Spacing (body ++ back) front ∧
      IsComment back body ∧
      comment.span.stop = origin.offset + byteLength front + byteLength body := by
  rcases exists_comment rfl (closed_of_ne_invalid htoken) hlegacy
    (List.mem_reverse.mp hcomment) with
    hnone | ⟨front, body, back, newline, found, hrest, hfront, hbody, hspan, -⟩
  · contradiction
  · exact ⟨front, body, back, hrest, hfront, hbody, congrArg Span.stop hspan⟩

/-! ## Arrows -/

/-- Punctuators that start with `>` start no statement. -/
theorem strayPunctuators_greater : (punctuators.all fun found =>
    found.head? != some '>' || strayPunctuators.contains (String.ofList found)) = true := by
  decide

theorem isStray_greater (more : List Char) (offset : Nat) :
    (nextLexeme ⟨'>' :: more, offset⟩ false).token.isStray = true := by
  have hsome : (punctuators.find? (·.isPrefixOf ('>' :: more))).isSome = true :=
    List.find?_isSome.mpr ⟨['>'], by decide, rfl⟩
  obtain ⟨found, hfind⟩ := Option.isSome_iff_exists.mp hsome
  have hstarts := List.find?_some hfind
  obtain ⟨text, htext⟩ := List.isPrefixOf_iff_prefix.mp hstarts
  obtain ⟨inner, rfl⟩ : ∃ inner, found = '>' :: inner := by
    cases found with
    | nil => exact absurd (List.mem_of_find?_eq_some hfind) (by decide)
    | cons c inner => exact ⟨inner, by rw [(List.cons.inj htext).1]⟩
  have hstray := List.all_eq_true.mp strayPunctuators_greater _ (List.mem_of_find?_eq_some hfind)
  have hskip : skipGap .between ('>' :: more) offset false [] none =
      ⟨⟨'>' :: more, offset⟩, false, [], none, none⟩ :=
    skipGap_of_not_opensComment (by decide) (by simp [OpensComment]) offset [] none
  have hscan : scanToken ('>' :: more) offset =
      (.punctuator (String.ofList ('>' :: inner)), ⟨text, offset + ('>' :: inner).length⟩) := by
    rw [scanToken_punctuator (by decide) (by decide) (by decide) (fun h => absurd h (by decide)),
      ← htext]
    exact scanPunctuator_of_find? (htext ▸ hfind) (fun h => absurd h (by simp)) offset
  rw [nextLexeme_of_scanToken ⟨'>' :: more, offset⟩ hskip hscan (fun _ h => by simp at h)]
  exact (Bool.or_eq_true_iff.mp hstray).resolve_left (by simp)

/-- An arrow is a decrement before another punctuator. -/
theorem nextLexeme_arrow {origin : Cursor} {first : Bool} {more : List Char}
    (hproper : (nextLexeme origin first).token.isProper = true)
    (harrow : (nextLexeme origin first).start = '-' :: '-' :: '>' :: more) :
    (nextLexeme origin first).token = .punctuator "--" ∧
      (nextLexeme origin first).rest = '>' :: more := by
  obtain ⟨start, newline, comments, legacy, token, cursor, hskip, hscan, hkeyword⟩ :=
    exists_scanToken hproper
  rw [nextLexeme_of_scanToken _ hskip hscan hkeyword] at harrow ⊢
  have hfind : punctuators.find? (·.isPrefixOf ('-' :: '-' :: '>' :: more)) = some ['-', '-'] := rfl
  have hwhole : scanPunctuator (['-', '-'] ++ '>' :: more) start.offset =
      (.punctuator (String.ofList ['-', '-']), ⟨'>' :: more, start.offset + 2⟩) :=
    scanPunctuator_of_find? hfind (fun h => absurd h (by decide)) _
  rw [show start.rest = '-' :: '-' :: '>' :: more from harrow, scanToken_punctuator (by decide)
    (by decide) (by decide) (fun h => absurd h (by decide))] at hscan
  obtain ⟨rfl, rfl⟩ := Prod.mk.inj (hwhole.symm.trans hscan)
  exact ⟨rfl, rfl⟩

namespace Parser

open Mark

variable {g : Grammar} {setting : Setting} {s t : State} {mark after : Mark} {source : List Char}

/-- Whether the token at a mark has been read in its source, and all comments that are known stand
right before it or before what has been read. -/
structure Mark.Fresh (source : List Char) (mark : Mark) : Prop where
  right : mark.Right source
  lexeme : ∃ origin first, Reaches ⟨source, 0⟩ origin ∧ mark.current = nextLexeme origin first ∧
    mark.previous.stop ≤ origin.offset
  comments : ∀ comment ∈ mark.comments,
    comment ∈ mark.current.comments ∨ comment.span.stop ≤ mark.previous.stop
  legacy : mark.faulty = false → mark.current.legacyComment = none

theorem Mark.Fresh.placed (hfresh : mark.Fresh source) : mark.Placed :=
  hfresh.right.current.imp fun _ h => h.2

/-- All comments that are known at a mark stand before the end of its token. -/
theorem Mark.Fresh.stop_le (hfresh : mark.Fresh source)
    (hproper : mark.current.token.isProper = true) :
    ∀ comment ∈ mark.comments, comment.span.stop ≤ mark.current.span.stop := by
  intro comment hcomment
  rcases hfresh.comments comment hcomment with hnew | hold
  · obtain ⟨origin, first, -, hcurrent, -⟩ := hfresh.lexeme
    obtain ⟨rest, -, hright⟩ := hfresh.right.current
    have hstart := (nextLexeme_comments origin first comment (hcurrent ▸ hnew)).2
    rw [← hcurrent] at hstart
    exact hstart.trans (hright.scanned.closes hproper).lt.le
  · exact hold.trans (hfresh.placed.lt hproper).le

theorem ofSource_fresh (source : List Char) : (State.ofSource source).mark.Fresh source where
  right := ofSource_right source
  lexeme := ⟨Cursor.ofSource source, true, ofSource_reaches source, rfl, Nat.zero_le _⟩
  comments := fun _ hcomment => Or.inl (List.mem_reverse.mp hcomment)
  legacy := fun hclean => Option.not_isSome_iff_eq_none.mp (Bool.eq_false_iff.mp hclean)

/-- Behind a mark all comments that have been known are left, and those that are new stand behind
its token. -/
theorem Mark.Leads.fresh (hleads : Leads mark after) (hfresh : mark.Fresh source) :
    after.Fresh source ∧ ∀ comment ∈ after.comments,
      comment ∈ mark.comments ∨ mark.current.span.stop ≤ comment.span.start := by
  induction hleads with
  | refl => exact ⟨hfresh, fun _ => Or.inl⟩
  | @tail middle after hfirst hstep ih =>
      obtain ⟨hmiddle, hknown⟩ := ih
      cases hstep with
      | complain =>
          obtain ⟨hright, hlexeme, hcomments, -⟩ := hmiddle
          exact ⟨⟨⟨hright.current, hright.comments⟩, hlexeme, hcomments, nofun⟩, hknown⟩
      | @move cursor start hends =>
          obtain ⟨rest, hplace, hright⟩ := hmiddle.right.current
          obtain ⟨hproper, hcloses⟩ := hends.closes hright
          have hstop := hends.stop_le hright
          have hlater : mark.current.span.stop ≤ cursor.offset := by
            rcases (Leads.placed hfirst hfresh.placed).2 with ⟨hcurrent, -⟩ | ⟨-, hread⟩
            · exact hcurrent ▸ hstop
            · exact hread.trans ((hmiddle.placed.lt hproper).le.trans hstop)
          -- what has been read before is behind the new mark, and the new comments are right
          -- before its token
          refine ⟨⟨hmiddle.right.resumed start hends, ⟨cursor, false, ?_, rfl, le_rfl⟩,
            fun comment hcomment => ?_, fun hclean => ?_⟩, fun comment hcomment => ?_⟩
          · exact hplace.trans (hright.start.closes hcloses).reaches
          · rcases List.mem_append.mp hcomment with hnew | hold
            · exact Or.inl (List.mem_reverse.mp hnew)
            · exact Or.inr ((hmiddle.stop_le hproper comment hold).trans hstop)
          · exact Option.not_isSome_iff_eq_none.mp
              (Bool.eq_false_iff.mp (Bool.or_eq_false_iff.mp hclean).2)
          · rcases List.mem_append.mp hcomment with hnew | hold
            · exact Or.inr (hlater.trans
                (nextLexeme_comments cursor false comment (List.mem_reverse.mp hnew)).1)
            · exact hknown comment hold

/-- A comment behind what has been read at a mark has been found right before its token. -/
theorem Mark.Fresh.mem_comments (hfresh : mark.Fresh source) {comment : Comment}
    (hcomment : comment ∈ mark.comments) (horder : comment.span.start < comment.span.stop)
    (hbehind : mark.previous.stop ≤ comment.span.start) : comment ∈ mark.current.comments :=
  (hfresh.comments comment hcomment).resolve_right (hbehind.trans_lt horder).not_ge

/-- So has one that is known later, if it stands before the token. -/
theorem Mark.Leads.mem_comments (hleads : Leads mark after) (hfresh : mark.Fresh source)
    (hproper : mark.current.token.isProper = true) {comment : Comment}
    (hcomment : comment ∈ after.comments) (horder : comment.span.start < comment.span.stop)
    (hbehind : mark.previous.stop ≤ comment.span.start)
    (hbefore : comment.span.stop ≤ mark.current.span.start) : comment ∈ mark.current.comments := by
  refine hfresh.mem_comments (((hleads.fresh hfresh).2 comment hcomment).resolve_right ?_) horder
    hbehind
  obtain ⟨rest, -, hright⟩ := hfresh.right.current
  have hlater := (hright.scanned.closes hproper).lt
  exact (horder.trans_le (hbefore.trans hlater.le)).not_ge

/-! ## Top-level statements -/

/-- Whether a token starts a declaration of imports or exports before another one. -/
def declares (token next : Token) : Bool :=
  token == .word "export" false ||
    token == .word "import" false && next != .punctuator "(" && next != .punctuator "."

/-- Reads what such a token starts, or a statement. -/
def itemForm (g : Grammar) (token next : Token) : Parser ItemForm :=
  if declares token next then
    if token == .word "export" false then exportDeclaration g else importDeclaration
  else ItemForm.statement <$> g.statement true

/-- Reads the end of a top-level statement. -/
def settleItem (start : Nat) (form : ItemForm) : Parser Item := do
  settlePending start
  pure ⟨form, ← spanFrom start⟩

theorem run_moduleItem_eq :
    moduleItem g setting s = (itemForm g s.current.token s.advanced.current.token >>=
      settleItem s.current.span.start) setting s := by
  rw [moduleItem, run_bind run_here, run_bind (run_isWord _), run_bind (run_isWord _), itemForm,
    declares]
  by_cases hexport : s.current.token = .word "export" false
  · simp only [hexport, beq_self_eq_true, Bool.true_or, if_true]
    rfl
  rw [beq_false_of_ne hexport]
  split
  · rename_i hword
    rw [hword, run_bind run_peek, Bool.true_and, Bool.false_or]
    generalize s.advanced.current.token = next
    by_cases hopen : next = .punctuator "("
    · simp [hopen, settleItem]
    by_cases hpoint : next = .punctuator "."
    · simp [hpoint, settleItem]
    · have hother : (next != .punctuator "(" && next != .punctuator ".") = true := by
        simp [hopen, hpoint]
      rw [hother]
      split <;> first | contradiction | rfl
  · rename_i hword
    rw [Bool.eq_false_iff.mpr hword]
    simp [settleItem]

theorem importDeclaration_form (hproper : s.current.token.isProper = true) :
    ⦃fun _ state => ⌜state = s⌝⦄ importDeclaration
    ⦃⇓? form _ _ => ⌜∀ body, form ≠ .statement body⌝⦄ := by
  mvcgen [importDeclaration, -importDeclaration_advances] <;> grind -ring -linarith

theorem exportDeclaration_form (hg : g.Advancing) (hproper : s.current.token.isProper = true) :
    ⦃fun _ state => ⌜state = s⌝⦄ exportDeclaration g
    ⦃⇓? form _ _ => ⌜∀ body, form ≠ .statement body⌝⦄ := by
  mvcgen [exportDeclaration, exportEverything, exportList, exportDefault,
    -exportDeclaration_advances, -exportEverything_advances, -exportList_advances,
    -exportDefault_advances] <;>
      grind -ring -linarith

/-- Reads a statement at the top level, with its extent. -/
def topStatement (g : Grammar) (start : Nat) : Parser (Stmt × Span) := do
  let body ← g.statement true
  settlePending start
  pure (body, ← spanFrom start)

/-- What declares no imports or exports is a statement. -/
theorem moduleItem_eq (hother : declares s.current.token s.advanced.current.token = false) :
    moduleItem g setting s = (do
      let found ← topStatement g s.current.span.start
      pure (Item.mk (.statement found.1) found.2)) setting s := by
  rw [run_moduleItem_eq, itemForm, hother, if_neg Bool.false_ne_true]
  simp [topStatement, settleItem]

theorem run_moduleItem_iff {body : Stmt} {span : Span}
    (hother : declares s.current.token s.advanced.current.token = false) :
    moduleItem g setting s = .ok (⟨.statement body, span⟩, t) ↔
      topStatement g s.current.span.start setting s = .ok ((body, span), t) := by
  rw [moduleItem_eq hother]
  constructor
  · intro hrun
    obtain ⟨⟨value, extent⟩, u, hfirst, hlast⟩ := exists_of_bind hrun
    obtain ⟨hitem, rfl⟩ := Prod.mk.inj (Except.ok.inj hlast)
    obtain ⟨hform, rfl⟩ := Item.mk.inj hitem
    obtain rfl := ItemForm.statement.inj hform
    exact hfirst
  · intro hrun
    rw [run_bind hrun]
    rfl

/-- A top-level statement declares no imports or exports. -/
theorem not_declares {body : Stmt} {span : Span} (hg : g.Advancing)
    (hrun : moduleItem g setting s = .ok (⟨.statement body, span⟩, t)) :
    declares s.current.token s.advanced.current.token = false := by
  by_contra hdeclares
  rw [Bool.not_eq_false] at hdeclares
  have hproper : s.current.token.isProper = true := by
    simp only [declares, Bool.or_eq_true, Bool.and_eq_true, beq_iff_eq] at hdeclares
    rcases hdeclares with h | ⟨⟨h, -⟩, -⟩ <;> rw [h] <;> rfl
  rw [run_moduleItem_eq, itemForm, hdeclares, if_pos rfl] at hrun
  obtain ⟨form, u, hform, hrest⟩ := exists_of_bind hrun
  have hother : ∀ body, form ≠ .statement body := by
    split at hform
    · exact of_triple (exportDeclaration_form hg hproper) hform
    · exact of_triple (importDeclaration_form hproper) hform
  obtain ⟨_, v, -, hrest⟩ := exists_of_bind hrest
  obtain ⟨_, w, -, hlast⟩ := exists_of_bind hrest
  obtain ⟨hitem, -⟩ := Prod.mk.inj (Except.ok.inj hlast)
  exact hother body (congrArg Item.form hitem)

/-! ## The first token -/

theorem Falters.topStatement {start : Nat} (hfalters : Falters s (g.statement true setting s)) :
    Falters s (topStatement g start setting s) := by
  refine hfalters.bind fun body s => triple_of fun holds hholds => ?_
  mvcgen
  grind -ring -linarith

/-- A top-level statement that falters is not read without a fault. -/
theorem Falters.faulty_item (hfalters : Falters s (g.statement true setting s)) {item : Item}
    (hexport : s.current.token ≠ .word "export" false)
    (himport : s.current.token ≠ .word "import" false)
    (hrun : moduleItem g setting s = .ok (item, t)) : t.mark.faulty = true := by
  have hother : declares s.current.token s.advanced.current.token = false := by
    simp [declares, hexport, himport]
  rw [moduleItem_eq hother] at hrun
  obtain ⟨found, u, hfirst, hlast⟩ := exists_of_bind hrun
  obtain ⟨-, rfl⟩ := Prod.mk.inj (Except.ok.inj hlast)
  exact (hfalters.topStatement found u hfirst).resolve_right fun h => himport h.1

/-- A token that only goes on with a statement starts none. -/
theorem not_isStray {item : Item} (depth : Nat) (hbudget : 0 < setting.budget)
    (hrun : moduleItem (grammarOfDepth (depth + 1)) setting s = .ok (item, t))
    (hclean : t.mark.faulty = false) : s.current.token.isStray = false := by
  by_contra hstray
  rw [Bool.not_eq_false] at hstray
  have hpartial := Token.isPartial_of_isStray hstray
  have hname : ∀ name escaped, name ∉ ["in", "else", "catch", "finally"] →
      s.current.token ≠ .word name escaped := by
    rintro name escaped hname hword
    rw [hword] at hstray
    exact hname (List.contains_iff_mem.mp hstray)
  have hfalters : Falters s ((grammarOfDepth (depth + 1)).statement true setting s) :=
    statement_falters hpartial (grammarOfDepth_advancing depth)
      (grammarOfDepth_falters hpartial depth).2 hbudget (hname "let" false (by decide)) true
  rw [hfalters.faulty_item (hname "export" false (by decide)) (hname "import" false (by decide))
    hrun] at hclean
  contradiction

/-- A statement starts with no arrow `-->`. -/
theorem not_isStray_of_decrement {item : Item} (depth : Nat) (hbudget : 0 < setting.budget)
    (hrun : moduleItem (grammarOfDepth depth) setting s = .ok (item, t))
    (hclean : t.mark.faulty = false) (hdecrement : s.current.token = .punctuator "--") :
    s.advanced.current.token.isStray = false := by
  by_contra hstray
  rw [Bool.not_eq_false] at hstray
  have hpartial := Token.isPartial_of_isStray hstray
  have himport : s.advanced.current.token ≠ .word "import" false := by
    intro hword
    rw [hword] at hstray
    contradiction
  have hfalters : Falters s ((grammarOfDepth depth).statement true setting s) :=
    statement_decrement hdecrement hpartial himport depth true hbudget
  rw [hfalters.faulty_item (by simp [hdecrement]) (by simp [hdecrement]) hrun] at hclean
  contradiction

theorem not_arrow {item : Item} (depth : Nat) (hbudget : 0 < setting.budget)
    (hrun : moduleItem (grammarOfDepth depth) setting s = .ok (item, t))
    (hclean : t.mark.faulty = false) {origin : Cursor} {first : Bool}
    (hcurrent : s.current = nextLexeme origin first)
    (hproper : s.current.token.isProper = true) : ¬['-', '-', '>'] <+: s.current.start := by
  rintro ⟨more, hmore⟩
  obtain ⟨hdecrement, hrest⟩ := nextLexeme_arrow (hcurrent ▸ hproper) (hcurrent ▸ hmore.symm)
  have hstray := not_isStray_of_decrement depth hbudget hrun hclean (hcurrent ▸ hdecrement)
  rw [current_advanced, hcurrent, hrest, isStray_greater] at hstray
  contradiction

/-! ## Statements of a source -/

/-- Whether items are read one after the other from a state on, up to the end of the source. -/
inductive ReadsItems (g : Grammar) (setting : Setting) : State → List Item → State → Prop where
  | finish {s : State} (hend : s.current.token = .finish) : ReadsItems g setting s [] s
  | item {s t final : State} {item : Item} {items : List Item}
      (hitem : moduleItem g setting s = .ok (item, t))
      (hrest : ReadsItems g setting t items final) :
      ReadsItems g setting s (item :: items) final

theorem readsItems_of_loop {items : List Item} {final : State} (rounds : Nat)
    (hrun : repeatUntil.loop atEnd (moduleItem g) rounds setting s = .ok (items, final)) :
    ReadsItems g setting s items final := by
  induction rounds generalizing s items with
  | zero => exact absurd hrun (not_run_of_fails (unexpected_fails s))
  | succ rounds ih =>
      rw [repeatUntil.loop, run_bind run_atEnd] at hrun
      split at hrun
      · rename_i hfinish
        obtain ⟨rfl, rfl⟩ := Prod.mk.inj (Except.ok.inj hrun)
        exact .finish (eq_of_beq hfinish)
      · obtain ⟨first, between, hfirst, hrun⟩ := exists_of_bind hrun
        obtain ⟨rest, last, hrest, hlast⟩ := exists_of_bind hrun
        obtain ⟨rfl, rfl⟩ := Prod.mk.inj (Except.ok.inj hlast)
        exact .item hfirst (ih hrest)

theorem ReadsItems.leads {items : List Item} {final : State} (hg : g.Advancing)
    (hreads : ReadsItems g setting s items final) : Leads s.mark final.mark := by
  induction hreads with
  | finish => exact .refl _
  | item hitem _ ih => exact (of_triple (moduleItem_advances _ hg) hitem).1.leads.trans ih

/-- The token behind a statement starts another one, or there is none. -/
theorem ReadsItems.not_isStray {items : List Item} {final : State} {depth : Nat}
    (hreads : ReadsItems (grammarOfDepth (depth + 1)) setting s items final)
    (hbudget : 0 < setting.budget) (hclean : final.mark.faulty = false) :
    s.current.token.isStray = false := by
  cases hreads with
  | finish hend =>
      rw [hend]
      rfl
  | item hitem hrest =>
      exact Parser.not_isStray depth hbudget hitem
        ((hrest.leads (grammarOfDepth_advancing _)).faulty hclean)

/-- What comes behind a statement can be read. -/
theorem ReadsItems.not_invalid {items : List Item} {final : State} (hg : g.Advancing)
    (hreads : ReadsItems g setting s items final) (hright : s.mark.Right source) (place : Nat) :
    s.current.token ≠ .invalid place := by
  cases hreads with
  | finish hend =>
      rw [hend]
      exact nofun
  | item hitem hrest =>
      have hproper := ((of_triple (moduleItem_advances s hg) hitem).1.reads hright).2.1
      rintro hinvalid
      rw [show s.mark.current.token = .invalid place from hinvalid] at hproper
      contradiction

end Parser

/-- The grammar that a source is parsed with. -/
def sourceGrammar (source : List Char) : Parser.Grammar :=
  Parser.grammarOfDepth (4 * (source.length + 2))

/-- The statements of a source that is parsed are read one after the other, without a fault. -/
theorem exists_readsItems {source : List Char} {tree : Tree} (hparse : parse source = .ok tree) :
    ∃ final, Parser.ReadsItems (sourceGrammar source) (.top (source.length + 2)) (.ofSource source)
      tree.items final ∧ final.mark.faulty = false ∧ tree.comments = final.comments.reverse := by
  unfold parse at hparse
  dsimp only at hparse
  split at hparse
  · contradiction
  rename_i items state hrun
  split at hparse
  · contradiction
  rename_i hfault
  obtain rfl := Except.ok.inj hparse
  rw [Parser.module, Parser.repeatUntil, Parser.run_bind Parser.run_read] at hrun
  exact ⟨state, Parser.readsItems_of_loop _ hrun, by rw [Parser.State.mark, hfault]; rfl, rfl⟩

/-- Whether an item is read in a source between two states, without a fault. -/
structure ReadsItem (source : List Char) (item : Item) (s t : Parser.State) : Prop where
  run : Parser.moduleItem (sourceGrammar source) (.top (source.length + 2)) s = .ok (item, t)
  fresh : s.mark.Fresh source
  next : t.mark.Fresh source
  clean : t.mark.faulty = false
  stray : t.current.token.isStray = false
  valid : ∀ place, t.current.token ≠ .invalid place

namespace ReadsItem

variable {source : List Char} {item : Item} {s t : Parser.State}
    (hreads : ReadsItem source item s t)

include hreads

theorem moves : Parser.Mark.Moves s.mark t.mark ∧
    item.span = ⟨s.current.span.start, t.previous.stop⟩ :=
  Parser.of_triple (Parser.moduleItem_advances s (Parser.grammarOfDepth_advancing _)) hreads.run

theorem proper : s.current.token.isProper = true :=
  (hreads.moves.1.reads hreads.fresh.right).2.1

/-- An item is read from a text that ends with a character that is not white space. -/
theorem exists_text : ∃ text tail, s.current.start = text ++ tail ∧
    t.previous.stop = s.current.span.start + byteLength text ∧
    t.current = nextLexeme ⟨tail, t.previous.stop⟩ false ∧
    ∃ front c, text = front ++ [c] ∧ isBlank c = false := by
  obtain ⟨-, -, tail, ⟨front, c, hsolid, hrest, hoffset⟩, hnext⟩ :=
    hreads.moves.1.reads hreads.fresh.right
  refine ⟨front ++ [c], tail, by rw [List.append_assoc]; exact hrest, ?_, hnext, front, c, rfl,
    hsolid⟩
  rw [byteLength_append, ← Nat.add_assoc]
  exact hoffset.symm

end ReadsItem

/-! ## Excerpts -/

/-- A top-level statement with the text that it is read from, the comments before and behind it that
go with it, and all that comes behind it in its source. -/
structure Excerpt where
  body : Stmt
  span : Span
  lead : List Char
  text : List Char
  trail : List Char
  tail : List Char

namespace Excerpt

open ScriptBundler.Script.Parser

/-- Whether the statement of an excerpt is read from its text between two states. -/
structure Reads (source : List Char) (e : Excerpt) (s t : State) : Prop where
  run : moduleItem (sourceGrammar source) (.top (source.length + 2)) s =
    .ok (⟨.statement e.body, e.span⟩, t)
  clean : t.mark.faulty = false
  lexeme : ∃ origin first, s.current = nextLexeme origin first
  proper : s.current.token.isProper = true
  behind : s.previous.stop ≤ s.current.span.start
  within : s.current.span.stop ≤ t.previous.stop
  start : s.current.span.start = e.span.start
  text : s.current.start = e.text ++ e.tail
  stop : t.previous.stop = e.span.start + byteLength e.text
  next : t.current = nextLexeme ⟨e.tail, t.previous.stop⟩ false
  stray : t.current.token.isStray = false

theorem reads_of_item {source : List Char} {e : Excerpt} {s t : State}
    (hreads : ReadsItem source ⟨.statement e.body, e.span⟩ s t)
    (htext : s.current.start = e.text ++ e.tail)
    (hstop : t.previous.stop = s.current.span.start + byteLength e.text)
    (hnext : t.current = nextLexeme ⟨e.tail, t.previous.stop⟩ false) : e.Reads source s t := by
  obtain ⟨hmoves, hspan⟩ := hreads.moves
  obtain ⟨origin, first, -, hcurrent, -⟩ := hreads.fresh.lexeme
  obtain ⟨rest, -, hright⟩ := hreads.fresh.right.current
  have hstart : s.current.span.start = e.span.start := (congrArg Span.start hspan).symm
  exact {
    run := hreads.run
    clean := hreads.clean
    lexeme := ⟨origin, first, hcurrent⟩
    proper := hreads.proper
    behind := hright.start.le
    within := (hmoves.stop_le hreads.fresh.placed).2.2
    start := hstart
    text := htext
    stop := hstart ▸ hstop
    next := hnext
    stray := hreads.stray }

/-- What is right of an excerpt of a source: its text is read as its statement, and what stands
before and behind it is spacing. -/
structure Right (source : List Char) (e : Excerpt) : Prop where
  reads : ∃ s t, e.Reads source s t
  lead : Spacing (e.text ++ e.tail) e.lead
  trail : ∀ rest, (∀ c ∈ rest.head?, isLineEnd c = true) → Spacing rest e.trail
  joint : e.trail <+: e.tail
  bound : e.text.length ≤ source.length

end Excerpt

end Script
end ScriptBundler

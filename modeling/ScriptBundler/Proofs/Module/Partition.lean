import ScriptBundler.Proofs.Module.Ranges

/-!
# How statements and comments share a source

The comments between two statements are handed out from the first to the last: at most one trails
the statement before them, and the others lead the one behind.  So the ranges of statements keep the
order of the source and never overlap, and no comment is handed out twice or left over before the
last statement.
-/

namespace ScriptBundler

open Script Text

namespace Script

/-- Whether a stretch of a source lies within another one. -/
def Span.Within (inner outer : Span) : Prop :=
  outer.start ≤ inner.start ∧ inner.stop ≤ outer.stop

/-- Whether a stretch of a source ends before another one starts. -/
def Span.Before (first second : Span) : Prop :=
  first.stop ≤ second.start

instance (inner outer : Span) : Decidable (inner.Within outer) :=
  inferInstanceAs (Decidable (_ ∧ _))

instance (first second : Span) : Decidable (first.Before second) :=
  inferInstanceAs (Decidable (_ ≤ _))

/-- Whether comments stand one behind the other.  A comment has some text. -/
def Comment.InOrder (comments : List Comment) : Prop :=
  (∀ comment ∈ comments, comment.span.start < comment.span.stop) ∧
    comments.Pairwise fun first second => first.span.Before second.span

/-- Whether statements stand one behind the other. -/
def Span.InOrder (spans : List Span) : Prop :=
  (∀ span ∈ spans, span.start ≤ span.stop) ∧ spans.Pairwise Span.Before

/-- A stretch that has some text lies within at most one of several ones in order. -/
theorem Span.InOrder.index_eq {spans : List Span} (hinorder : InOrder spans) {inner : Span}
    (hproper : inner.start < inner.stop) {i j : Nat} {first second : Span}
    (hfirst : spans[i]? = some first) (hsecond : spans[j]? = some second)
    (hwithin : inner.Within first) (hother : inner.Within second) : i = j := by
  have hapart : ∀ {i j : Nat} {first second : Span}, spans[i]? = some first →
      spans[j]? = some second → inner.Within first → inner.Within second → ¬ i < j := by
    intro i j first second hfirst hsecond hwithin hother hlt
    obtain ⟨hi, rfl⟩ := List.getElem?_eq_some_iff.mp hfirst
    obtain ⟨hj, rfl⟩ := List.getElem?_eq_some_iff.mp hsecond
    have hbefore : spans[i].stop ≤ spans[j].start :=
      List.pairwise_iff_getElem.mp hinorder.2 i j hi hj hlt
    exact absurd (hwithin.2.trans (hbefore.trans hother.1)) (Nat.not_le_of_lt hproper)
  exact Nat.le_antisymm (Nat.le_of_not_lt (hapart hsecond hfirst hother hwithin))
    (Nat.le_of_not_lt (hapart hfirst hsecond hwithin hother))

/-- Whether the statements and the comments of a source stand in order, and each comment either in
one statement or outside all of them. -/
structure Tree.Orderly (tree : Tree) : Prop where
  items : Span.InOrder (tree.items.map (·.span))
  comments : Comment.InOrder tree.comments
  apart : ∀ comment ∈ tree.comments, (∃ item ∈ tree.items, comment.span.Within item.span) ∨
    ∀ item ∈ tree.items, comment.span.Before item.span ∨ item.span.Before comment.span

instance (comments : List Comment) : Decidable (Comment.InOrder comments) :=
  inferInstanceAs (Decidable (_ ∧ _))

instance (spans : List Span) : Decidable (Span.InOrder spans) :=
  inferInstanceAs (Decidable (_ ∧ _))

instance (tree : Tree) : Decidable tree.Orderly :=
  decidable_of_iff
    (Span.InOrder (tree.items.map (·.span)) ∧ Comment.InOrder tree.comments ∧
      ∀ comment ∈ tree.comments, (∃ item ∈ tree.items, comment.span.Within item.span) ∨
        ∀ item ∈ tree.items, comment.span.Before item.span ∨ item.span.Before comment.span)
    ⟨fun h => ⟨h.1, h.2.1, h.2.2⟩, fun h => ⟨h.items, h.comments, h.apart⟩⟩

theorem Comment.InOrder.tail {comment : Comment} {rest : List Comment}
    (hinorder : InOrder (comment :: rest)) : InOrder rest :=
  ⟨fun other hother => hinorder.1 other (List.mem_cons_of_mem _ hother),
    (List.pairwise_cons.mp hinorder.2).2⟩

theorem Comment.InOrder.lt {comments : List Comment} (hinorder : InOrder comments)
    {comment : Comment} (hcomment : comment ∈ comments) : comment.span.start < comment.span.stop :=
  hinorder.1 comment hcomment

theorem Comment.InOrder.lt_of_mem {comments : List Comment} (hinorder : InOrder comments)
    {found : Span} (hfound : found ∈ comments.map (·.span)) : found.start < found.stop := by
  obtain ⟨comment, hcomment, rfl⟩ := List.mem_map.mp hfound
  exact hinorder.lt hcomment

/-- Comments stand in order when their places are some of those of comments in order. -/
theorem Comment.InOrder.of_sublist {comments fewer : List Comment} (hinorder : InOrder comments)
    (hsublist : (fewer.map (·.span)).Sublist (comments.map (·.span))) : InOrder fewer where
  left := fun _ hcomment => hinorder.lt_of_mem (hsublist.subset (List.mem_map_of_mem hcomment))
  right := List.pairwise_map.mp ((List.pairwise_map.mpr hinorder.2).sublist hsublist)

/-- No two comments stand at the same place. -/
theorem Comment.InOrder.nodup {comments : List Comment} (hinorder : InOrder comments) :
    (comments.map (·.span)).Nodup := by
  rw [List.Nodup, List.pairwise_map]
  refine hinorder.2.imp_of_mem fun {first second} hfirst _ hbefore heq => ?_
  have := hinorder.lt hfirst
  unfold Span.Before at hbefore
  rw [← heq] at hbefore
  omega

end Script

namespace Module

/-! ## Comments between two statements -/

/-- How the comments before a statement are handed out.  Those that start before the end of the
statement before them have been skipped; then come the comment that trails that statement and those
that lead the next one, and then those that come later. -/
structure Claimed.Splits (source : List Char) (before : Option Nat) (start : Nat) (mayTrail : Bool)
    (comments : List Comment) (claimed : Claimed) : Prop where
  split : ∃ skipped : List Comment,
    comments.map (·.span) = skipped.map (·.span) ++ (claimed.trailing.toList ++ claimed.leading) ++
      claimed.later.map (·.span) ∧
    ∀ comment ∈ skipped, ∃ stop ∈ before, comment.span.start < stop
  attached : ∀ found ∈ claimed.trailing.toList ++ claimed.leading,
    found.stop ≤ start ∧ ∀ stop ∈ before, stop ≤ found.start
  later : ∀ comment ∈ claimed.later, start < comment.span.stop
  trails : ∀ found ∈ claimed.trailing, mayTrail = true ∧
    ∃ stop ∈ before, newlineBetween source stop found.start = false

variable {source : List Char} {before : Option Nat} {start : Nat} {mayTrail : Bool}
  {comments rest : List Comment} {comment : Comment} {claimed : Claimed}

/-- Once a comment has been handed out, none trails the statement before. -/
theorem Claimed.Splits.trailing (hsplits : claimed.Splits source before start mayTrail comments)
    (hmay : mayTrail = false) : claimed.trailing = none :=
  Option.eq_none_iff_forall_ne_some.mpr fun found hfound =>
    absurd (hsplits.trails found hfound).1 (by simp [hmay])

/-- One more comment is handed out, before all others. -/
theorem Claimed.Splits.cons (hsplits : claimed.Splits source before start false rest)
    (hinorder : Comment.InOrder (comment :: rest)) (hstop : comment.span.stop ≤ start)
    (hstart : ∀ stop ∈ before, stop ≤ comment.span.start) {trailing : Option Span}
    {leading : List Span} (hattached : trailing.toList ++ leading = comment.span :: claimed.leading)
    (htrails : ∀ found ∈ trailing, mayTrail = true ∧
      ∃ stop ∈ before, newlineBetween source stop found.start = false) :
    (⟨trailing, leading, claimed.later⟩ : Claimed).Splits source before start mayTrail
      (comment :: rest) := by
  have htrailing := hsplits.trailing rfl
  obtain ⟨⟨skipped, hrest, hskipped⟩, hothers, hlater, -⟩ := hsplits
  -- nothing is skipped behind a comment that is not
  obtain rfl : skipped = [] := by
    refine List.eq_nil_iff_forall_not_mem.mpr fun other hother => ?_
    obtain ⟨stop, hbefore, hlt⟩ := hskipped other hother
    have hmem : other.span ∈ rest.map (·.span) := by
      rw [hrest]
      simp [List.mem_map_of_mem hother]
    obtain ⟨later, hmem, hspan⟩ := List.mem_map.mp hmem
    have hbehind : comment.span.stop ≤ later.span.start :=
      (List.pairwise_cons.mp hinorder.2).1 later hmem
    have := hinorder.lt List.mem_cons_self
    have := hstart stop hbefore
    rw [hspan] at hbehind
    omega
  rw [htrailing] at hrest hothers
  refine ⟨⟨[], ?_, by simp⟩, ?_, hlater, htrails⟩
  · rw [List.map_cons, hrest, hattached]
    rfl
  · rw [hattached]
    exact List.forall_mem_cons.mpr ⟨⟨hstop, hstart⟩, hothers⟩

theorem claim_splits (source : List Char) (before : Option Nat) (start : Nat) (mayTrail : Bool)
    (comments : List Comment) (hinorder : Comment.InOrder comments) :
    (claim source before start mayTrail comments).Splits source before start mayTrail comments := by
  fun_induction claim source before start mayTrail comments with
  | case1 => exact ⟨⟨[], by simp, by simp⟩, by simp, by simp, by simp⟩
  | case2 mayTrail comment rest hlt =>
      refine ⟨⟨[], by simp, by simp⟩, by simp,
        List.forall_mem_cons.mpr ⟨hlt, fun other hother => ?_⟩,
        by simp⟩
      have hbehind : comment.span.stop ≤ other.span.start :=
        (List.pairwise_cons.mp hinorder.2).1 other hother
      have := hinorder.tail.lt hother
      omega
  | case3 mayTrail comment rest hstop hbefore ih =>
      subst hbefore
      have hrest := ih hinorder.tail
      exact hrest.cons hinorder (Nat.le_of_not_lt hstop) (by simp) (by rw [hrest.trailing rfl]; rfl)
        fun found hfound => by rw [hrest.trailing rfl] at hfound; contradiction
  | case4 mayTrail comment rest _ stop hbefore hskip ih =>
      subst hbefore
      obtain ⟨⟨skipped, hrest, hskipped⟩, hattached, hlater, htrails⟩ := ih hinorder.tail
      refine ⟨⟨comment :: skipped, ?_, List.forall_mem_cons.mpr ⟨⟨stop, rfl, hskip⟩, hskipped⟩⟩,
        hattached, hlater, htrails⟩
      rw [List.map_cons, hrest]
      rfl
  | case5 mayTrail comment rest hstop stop hbefore hstart hmay ih =>
      subst hbefore
      rw [Bool.and_eq_true, Bool.not_eq_true'] at hmay
      refine (ih hinorder.tail).cons hinorder (Nat.le_of_not_lt hstop) (fun other hother => ?_) rfl
        fun found hfound => ?_
      · obtain rfl := Option.some.inj hother
        exact Nat.le_of_not_lt hstart
      · obtain rfl := Option.some.inj hfound
        exact ⟨hmay.1, stop, rfl, hmay.2⟩
  | case6 mayTrail comment rest hstop stop hbefore hstart _ ih =>
      subst hbefore
      have hrest := ih hinorder.tail
      refine hrest.cons hinorder (Nat.le_of_not_lt hstop) (fun other hother => ?_)
        (by rw [hrest.trailing rfl]; rfl)
        fun found hfound => by rw [hrest.trailing rfl] at hfound; contradiction
      obtain rfl := Option.some.inj hother
      exact Nat.le_of_not_lt hstart

/-! ## Comments of all statements -/

/-- All comments that go with a statement, in source order. -/
def Attached.all (attached : Attached) : List Span :=
  attached.leading ++ attached.trailing.toList

/-- Whether a comment leads the first statement behind it. -/
def LeadsNext (entries : List (Span × Attached)) (found : Span) : Prop :=
  ∃ earlier next later, entries = earlier ++ next :: later ∧ found ∈ next.2.leading ∧
    ∀ entry ∈ earlier, entry.1.Before found

/-- How comments are shared by statements from the end of a statement on: one may go to that
statement, and the others go to the statements behind it. -/
structure Shares (source : List Char) (before : Option Nat) (comments : List Comment)
    (own : Option Span) (entries : List (Span × Attached)) : Prop where
  /-- No comment is handed out twice. -/
  sublist : (own.toList ++ entries.flatMap (·.2.all)).Sublist (comments.map (·.span))
  trails : ∀ found ∈ own, ∃ stop ∈ before,
    stop ≤ found.start ∧ newlineBetween source stop found.start = false
  trailing : ∀ entry ∈ entries, ∀ found ∈ entry.2.trailing,
    entry.1.Before found ∧ newlineBetween source entry.1.stop found.start = false
  leading : ∀ entry ∈ entries, ∀ found ∈ entry.2.leading, found.Before entry.1
  behind : ∀ entry ∈ entries, (∀ stop ∈ before, stop ≤ (rangeWith entry.1 entry.2).start) ∧
    ∀ found ∈ own, found.Before (rangeWith entry.1 entry.2)
  ranges : Span.InOrder (entries.map fun entry => rangeWith entry.1 entry.2)
  /-- No comment before a statement is left over: unless it trails a statement, it leads the next. -/
  complete : ∀ comment ∈ comments, (∀ stop ∈ before, stop ≤ comment.span.start) →
    (∀ entry ∈ entries, comment.span.Before entry.1 ∨ entry.1.Before comment.span) →
    (∃ entry ∈ entries, comment.span.Before entry.1) →
    comment.span ∉ own → (∀ entry ∈ entries, comment.span ∉ entry.2.trailing) →
    LeadsNext entries comment.span

variable {span : Span} {own : Option Span} {others : List (Span × Attached)}

theorem shares_nil (source : List Char) (before : Option Nat) (comments : List Comment) :
    Shares source before comments (attachAfter source before [] comments).1 [] where
  sublist := by
    cases before with
    | none => simp [attachAfter]
    | some stop =>
        cases hfound : trailsLast source stop comments with
        | none => simp [attachAfter, hfound]
        | some found =>
            obtain ⟨comment, hmem, rfl, -⟩ := trailsLast_right hfound
            simpa [attachAfter, hfound] using ⟨comment, hmem, rfl⟩
  trails := by
    intro found hfound
    cases before with
    | none => contradiction
    | some stop =>
        obtain ⟨comment, -, rfl, hstop⟩ := trailsLast_right hfound
        refine ⟨stop, rfl, hstop, ?_⟩
        change trailsLast source stop comments = some comment.span at hfound
        unfold trailsLast at hfound
        split at hfound
        · split at hfound
          · contradiction
          · rename_i hline
            rw [Option.some.inj hfound] at hline
            exact Bool.eq_false_of_not_eq_true hline
        · contradiction
  trailing := by simp
  leading := by simp
  behind := by simp
  ranges := ⟨by simp, by simp⟩
  complete := by simp

theorem Claimed.Splits.sublist (hsplits : claimed.Splits source before start mayTrail comments) :
    (claimed.trailing.toList ++ claimed.leading ++ claimed.later.map (·.span)).Sublist
      (comments.map (·.span)) := by
  obtain ⟨skipped, hsplit, -⟩ := hsplits.split
  rw [hsplit, List.append_assoc (skipped.map _)]
  exact List.sublist_append_right _ _

/-- The comments that lead a statement stand between it and the statement before. -/
theorem Claimed.Splits.leading_bounds
    (hsplits : claimed.Splits source before start mayTrail comments)
    (hinorder : Comment.InOrder comments) {found : Span} (hfound : found ∈ claimed.leading) :
    found.start < found.stop ∧ found.stop ≤ start ∧ ∀ stop ∈ before, stop ≤ found.start := by
  have hmem := List.mem_append_right claimed.trailing.toList hfound
  exact ⟨hinorder.lt_of_mem (hsplits.sublist.subset (List.mem_append_left _ hmem)),
    hsplits.attached found hmem⟩

/-- The comment that trails the statement before stands before those that lead the next one. -/
theorem Claimed.Splits.trailing_bounds
    (hsplits : claimed.Splits source before start mayTrail comments)
    (hinorder : Comment.InOrder comments) {found : Span} (hfound : found ∈ claimed.trailing) :
    found.stop ≤ start ∧ ∀ other ∈ claimed.leading, found.Before other := by
  have hmem := Option.mem_toList.mpr hfound
  have hordered := (List.pairwise_map.mpr hinorder.2).sublist hsplits.sublist
  exact ⟨(hsplits.attached found (List.mem_append_left _ hmem)).1,
    (List.pairwise_append.mp (List.pairwise_append.mp hordered).1).2.2 found hmem⟩

/-- The comment that trails a statement stands behind it, on the line on which it ends. -/
theorem Shares.own_bounds (hshares : Shares source (some span.stop) comments own others)
    (hinorder : Comment.InOrder comments) {found : Span} (hfound : found ∈ own) :
    span.stop ≤ found.start ∧ found.start < found.stop ∧
      newlineBetween source span.stop found.start = false := by
  obtain ⟨stop, hstop, hbehind, hline⟩ := hshares.trails found hfound
  obtain rfl := Option.some.inj hstop
  exact ⟨hbehind, hinorder.lt_of_mem
    (hshares.sublist.subset (List.mem_append_left _ (Option.mem_toList.mpr hfound))), hline⟩

/-- A comment that is left over before a statement leads it, or the statements behind leave it over. -/
theorem Shares.complete_cons (hsplits : claimed.Splits source before span.start mayTrail comments)
    (hshares : Shares source (some span.stop) claimed.later own others)
    (hcomment : comment ∈ comments) (hbehind : ∀ stop ∈ before, stop ≤ comment.span.start)
    (hapart : ∀ entry ∈ (span, ⟨claimed.leading, own⟩) :: others,
      comment.span.Before entry.1 ∨ entry.1.Before comment.span)
    (hsome : ∃ entry ∈ (span, ⟨claimed.leading, own⟩) :: others, comment.span.Before entry.1)
    (hnot : comment.span ∉ claimed.trailing)
    (htrails : ∀ entry ∈ (span, ⟨claimed.leading, own⟩) :: others,
      comment.span ∉ entry.2.trailing) :
    LeadsNext ((span, ⟨claimed.leading, own⟩) :: others) comment.span := by
  obtain ⟨skipped, hsplit, hskipped⟩ := hsplits.split
  obtain ⟨hfirst, hrest⟩ := List.forall_mem_cons.mp hapart
  obtain ⟨hown, htrails⟩ := List.forall_mem_cons.mp htrails
  have hmem : comment.span ∈ comments.map (·.span) := List.mem_map_of_mem hcomment
  rw [hsplit, List.mem_append, List.mem_append, List.mem_append] at hmem
  rcases hmem with (hmem | hmem | hmem) | hmem
  · obtain ⟨other, hother, heq⟩ := List.mem_map.mp hmem
    obtain ⟨stop, hstop, hskip⟩ := hskipped other hother
    rw [heq] at hskip
    exact absurd hskip (Nat.not_lt_of_le (hbehind stop hstop))
  · exact absurd (Option.mem_toList.mp hmem) hnot
  · exact ⟨[], _, others, rfl, hmem, by simp⟩
  · obtain ⟨other, hother, heq⟩ := List.mem_map.mp hmem
    have hpast := hsplits.later other hother
    rw [heq] at hpast
    have hafter : span.Before comment.span :=
      hfirst.resolve_left (Nat.not_le_of_lt hpast)
    have hlater : ∃ entry ∈ others, comment.span.Before entry.1 := by
      obtain ⟨entry, hentry, hbefore⟩ := hsome
      rcases List.mem_cons.mp hentry with rfl | hentry
      · exact absurd hbefore (Nat.not_le_of_lt hpast)
      · exact ⟨entry, hentry, hbefore⟩
    rw [← heq] at hrest hlater hown htrails hafter ⊢
    obtain ⟨earlier, next, later, rfl, hleads, hearlier⟩ := hshares.complete other hother
      (fun stop hstop => Option.some.inj hstop ▸ hafter) hrest hlater hown htrails
    exact ⟨_ :: earlier, next, later, rfl, hleads, List.forall_mem_cons.mpr ⟨hafter, hearlier⟩⟩

/-- One more statement: the first of the comments before it may trail the statement before, the
others lead it, and what trails it is what is handed out first behind it. -/
theorem Shares.cons (hsplits : claimed.Splits source before span.start mayTrail comments)
    (hshares : Shares source (some span.stop) claimed.later own others)
    (hinorder : Comment.InOrder comments) (hle : span.start ≤ span.stop)
    (hbefore : ∀ stop ∈ before, stop ≤ span.start) :
    Shares source before comments claimed.trailing ((span, ⟨claimed.leading, own⟩) :: others) := by
  have hleading := fun found (hfound : found ∈ claimed.leading) =>
    hsplits.leading_bounds hinorder hfound
  have htrailing := fun found (hfound : found ∈ claimed.trailing) =>
    hsplits.trailing_bounds hinorder hfound
  have hlater : Comment.InOrder claimed.later :=
    hinorder.of_sublist ((List.sublist_append_right _ _).trans hsplits.sublist)
  have hown := fun found (hfound : found ∈ own) => hshares.own_bounds hlater hfound
  -- the range of the statement, and those behind it
  have hstart : (rangeWith span ⟨claimed.leading, own⟩).start ≤ span.start :=
    rangeWith_start_le fun found hfound => by
      obtain ⟨hproper, hstop, -⟩ := hleading found hfound
      omega
  have hstop : span.stop ≤ (rangeWith span ⟨claimed.leading, own⟩).stop :=
    le_rangeWith_stop fun found hfound => by
      obtain ⟨hbehind, hproper, -⟩ := hown found hfound
      omega
  have hnext : ∀ entry ∈ others,
      (rangeWith span ⟨claimed.leading, own⟩).Before (rangeWith entry.1 entry.2) :=
    fun entry hentry => rangeWith_stop_le ((hshares.behind entry hentry).1 span.stop rfl)
      (hshares.behind entry hentry).2
  constructor
  case sublist =>
    have hall := (List.Sublist.refl (claimed.trailing.toList ++ claimed.leading)).append
      hshares.sublist
    simpa [Attached.all] using hall.trans hsplits.sublist
  case trails =>
    intro found hfound
    obtain ⟨-, stop, hmem, hline⟩ := hsplits.trails found hfound
    exact ⟨stop, hmem, (hsplits.attached found
      (List.mem_append_left _ (Option.mem_toList.mpr hfound))).2 stop hmem, hline⟩
  case trailing =>
    refine List.forall_mem_cons.mpr ⟨fun found hfound => ?_, hshares.trailing⟩
    exact ⟨(hown found hfound).1, (hown found hfound).2.2⟩
  case leading =>
    exact List.forall_mem_cons.mpr
      ⟨fun found hfound => (hleading found hfound).2.1, hshares.leading⟩
  case behind =>
    refine List.forall_mem_cons.mpr
      ⟨⟨fun stop hmem => ?_, fun found hmem => ?_⟩, fun entry hentry => ?_⟩
    · exact le_rangeWith_start (hbefore stop hmem) fun found hfound =>
        (hleading found hfound).2.2 stop hmem
    · exact le_rangeWith_start (htrailing found hmem).1 (htrailing found hmem).2
    · have hbehind := (hshares.behind entry hentry).1 span.stop rfl
      refine ⟨fun stop hmem => ?_, fun found hmem => ?_⟩
      · exact (hbefore stop hmem).trans (hle.trans hbehind)
      · exact (htrailing found hmem).1.trans (hle.trans hbehind)
  case ranges =>
    refine ⟨List.forall_mem_cons.mpr ⟨hstart.trans (hle.trans hstop), hshares.ranges.1⟩, ?_⟩
    exact List.pairwise_cons.mpr ⟨List.forall_mem_map.mpr hnext, hshares.ranges.2⟩
  case complete =>
    exact fun comment => hshares.complete_cons hsplits

theorem attachAfter_shares (source : List Char) (before : Option Nat) (spans : List Span)
    (comments : List Comment) (hspans : Span.InOrder spans)
    (hbefore : ∀ stop ∈ before, ∀ span ∈ spans, stop ≤ span.start)
    (hinorder : Comment.InOrder comments) :
    Shares source before comments (attachAfter source before spans comments).1
      (spans.zip (attachAfter source before spans comments).2) := by
  induction spans generalizing before comments with
  | nil => exact shares_nil source before comments
  | cons span rest ih =>
      obtain ⟨hproper, hordered⟩ := hspans
      obtain ⟨hle, hproper⟩ := List.forall_mem_cons.mp hproper
      obtain ⟨hnext, hordered⟩ := List.pairwise_cons.mp hordered
      have hsplits := claim_splits source before span.start before.isSome comments hinorder
      have hlater := hinorder.of_sublist ((List.sublist_append_right _ _).trans hsplits.sublist)
      have hothers := ih (some span.stop) _ ⟨hproper, hordered⟩
        (fun stop hstop other hother => Option.some.inj hstop ▸ hnext other hother) hlater
      rw [attachAfter_cons]
      exact Shares.cons hsplits hothers hinorder hle
        fun stop hstop => hbefore stop hstop span List.mem_cons_self

section Within

variable {entries : List (Span × Attached)} {entry : Span × Attached} {found : Span}

/-- The range of a statement covers the statement. -/
theorem Shares.span_within (hshares : Shares source before comments own entries)
    (hinorder : Comment.InOrder comments) (hentry : entry ∈ entries) :
    entry.1.Within (rangeWith entry.1 entry.2) := by
  have hproper : ∀ found ∈ entry.2.all, found.start < found.stop := fun found hfound =>
    hinorder.lt_of_mem (hshares.sublist.subset
      (List.mem_append_right _ (List.mem_flatMap.mpr ⟨entry, hentry, hfound⟩)))
  constructor
  · refine rangeWith_start_le fun found hfound => ?_
    have hbefore : found.stop ≤ entry.1.start := hshares.leading entry hentry found hfound
    have := hproper found (List.mem_append_left _ hfound)
    omega
  · refine le_rangeWith_stop fun found hfound => ?_
    have hafter : entry.1.stop ≤ found.start := (hshares.trailing entry hentry found hfound).1
    have := hproper found (List.mem_append_right _ (Option.mem_toList.mpr hfound))
    omega

/-- The range of a statement covers the comments that go with it. -/
theorem Shares.attached_within (hshares : Shares source before comments own entries)
    (hinorder : Comment.InOrder comments) (hentry : entry ∈ entries)
    (hle : entry.1.start ≤ entry.1.stop) (hfound : found ∈ entry.2.all) :
    found.Within (rangeWith entry.1 entry.2) := by
  obtain ⟨hstart, hstop⟩ := hshares.span_within hinorder hentry
  have hordered : (own.toList ++ entries.flatMap (·.2.all)).Pairwise Span.Before :=
    (List.pairwise_map.mpr hinorder.2).sublist hshares.sublist
  have hall := (List.pairwise_flatMap.mp (List.pairwise_append.mp hordered).2.1).1 entry hentry
  rcases List.mem_append.mp hfound with hleading | htrailing
  · have hbefore : found.stop ≤ entry.1.start := hshares.leading entry hentry found hleading
    refine ⟨?_, hbefore.trans (hle.trans hstop)⟩
    -- the first of the comments that lead a statement stands before the others
    have hfirst := (List.pairwise_append.mp hall).1
    have hproper : ∀ other ∈ entry.2.leading, other.start < other.stop := fun other hother =>
      hinorder.lt_of_mem (hshares.sublist.subset (List.mem_append_right _
        (List.mem_flatMap.mpr ⟨entry, hentry, List.mem_append_left _ hother⟩)))
    dsimp only [rangeWith]
    split
    · rename_i heq
      rw [heq] at hleading
      contradiction
    · rename_i first others heq
      rw [heq] at hleading hfirst hproper
      rcases List.mem_cons.mp hleading with rfl | hmem
      · exact Nat.le_refl _
      · have hbehind : first.stop ≤ found.start := (List.pairwise_cons.mp hfirst).1 found hmem
        have := hproper first List.mem_cons_self
        omega
  · have hmem := Option.mem_toList.mp htrailing
    refine ⟨hstart.trans (hle.trans (hshares.trailing entry hentry found hmem).1), ?_⟩
    simp only [rangeWith, Option.mem_def.mp hmem, Nat.le_refl]

end Within

/-! ## The statements of a module -/

/-- The comments that go with a statement. -/
def Statement.attached (statement : Statement) : Attached :=
  ⟨statement.leading, statement.trailing⟩

/-- How the statements of a module partition a source and its comments. -/
structure Partitions (source : List Char) (tree : Tree) (statements : List Statement) : Prop where
  spans : statements.map (·.span) = tree.items.map (·.span)
  /-- Each statement prints what its source has in its range. -/
  snippets : ∀ statement ∈ statements, statement.snippet =
    (Snippet.ofSource source).snip statement.range.start statement.range.stop
  ranges : Span.InOrder (statements.map Statement.range)
  /-- No comment goes with two statements, or twice with one. -/
  attached : (statements.flatMap (·.attached.all)).Sublist (tree.comments.map (·.span)) ∧
    (statements.flatMap (·.attached.all)).Nodup
  within : ∀ comment ∈ tree.comments,
    ((∃ statement ∈ statements, comment.span.Within statement.span) ∨
      ∃ statement ∈ statements, comment.span.Before statement.span) →
    ∃! index : Nat, ∃ statement : Statement, statements[index]? = some statement ∧
      comment.span.Within statement.range
  trailing : ∀ statement ∈ statements, ∀ found ∈ statement.trailing,
    statement.span.Before found ∧ newlineBetween source statement.span.stop found.start = false
  /-- A comment before a statement that trails none leads the first statement behind it. -/
  leading : ∀ comment ∈ tree.comments,
    (∀ statement ∈ statements, ¬ comment.span.Within statement.span) →
    (∃ statement ∈ statements, comment.span.Before statement.span) →
    (∀ statement ∈ statements, comment.span ∉ statement.trailing) →
    ∃ earlier next later, statements = earlier ++ next :: later ∧
      comment.span ∈ next.leading ∧ comment.span.Before next.span ∧
      ∀ statement ∈ earlier, statement.span.Before comment.span
  margins : statements.IsChain fun (first second : Statement) =>
    first.marginAfter = second.marginBefore ∧
      second.marginBefore = newlines (slice source first.range.stop second.range.start) + 1

theorem withMargins_entries (source : List Char) (before : Nat) (both : List (Item × Attached)) :
    (withMargins source before both).map (fun placed => (placed.item, placed.attached)) = both := by
  induction both generalizing before with
  | nil => rfl
  | cons first rest ih => rw [withMargins, List.map_cons, ih]

/-- The statements of a module have the comments that the source hands out to their places. -/
theorem ofTree_entries (path : Files.Path) (source : List Char) (tree : Tree) :
    (ofTree path source tree).statements.map
    (fun statement => (statement.span, statement.attached)) =
      (tree.items.map (·.span)).zip
        (attachComments source (tree.items.map (·.span)) tree.comments) := by
  have hplaced := (ofTree_placed path source tree).imp
    fun placed statement (h : PlacedAs source placed statement) =>
      show (statement.span, statement.attached) = (placed.item.span, placed.attached) by
        rw [h.span, ← h.attached]
        rfl
  have hentries := withMargins_entries source 0
    (tree.items.zip (attachComments source (tree.items.map (·.span)) tree.comments))
  rw [← place_eq_withMargins] at hentries
  calc (ofTree path source tree).statements.map (fun statement => (statement.span, statement.attached))
      = (place source tree.items tree.comments).map
          (fun placed => (placed.item.span, placed.attached)) := by
        generalize place source tree.items tree.comments = placed at hplaced
        generalize (ofTree path source tree).statements = statements at hplaced
        induction hplaced with
        | nil => rfl
        | cons hfirst _ ih => rw [List.map_cons, List.map_cons, hfirst, ih]
    _ = ((place source tree.items tree.comments).map
          (fun placed => (placed.item, placed.attached))).map (Prod.map (·.span) id) := by
        rw [List.map_map]
        rfl
    _ = _ := by rw [hentries, List.zip_map_left]

theorem ofTree_shares (path : Files.Path) (source : List Char) {tree : Tree}
    (horderly : tree.Orderly) :
    Shares source none tree.comments
      (attachAfter source none (tree.items.map (·.span)) tree.comments).1
      ((ofTree path source tree).statements.map
        fun statement => (statement.span, statement.attached)) := by
  rw [ofTree_entries]
  exact attachAfter_shares source none _ _ horderly.items (by simp) horderly.comments

theorem ofTree_spans (path : Files.Path) (source : List Char) (tree : Tree) :
    (ofTree path source tree).statements.map (·.span) = tree.items.map (·.span) := by
  have hlength :=
    (attachAfter_right source none (tree.items.map (·.span)) tree.comments).2.length_eq
  have hentries := congrArg (List.map Prod.fst) (ofTree_entries path source tree)
  rw [List.map_map, attachComments, List.map_fst_zip (Nat.le_of_eq hlength)] at hentries
  exact hentries

section Statements

variable {tree : Tree} {statements : List Statement}
  (hspans : statements.map (·.span) = tree.items.map (·.span))
  (hshares : Shares source none tree.comments own
    (statements.map fun statement => (statement.span, statement.attached)))

include hspans

/-- A comment lies within a statement or outside all of them. -/
theorem apart_of_orderly (horderly : tree.Orderly) (hcomment : comment ∈ tree.comments) :
    (∃ statement ∈ statements, comment.span.Within statement.span) ∨
      ∀ statement ∈ statements,
        comment.span.Before statement.span ∨ statement.span.Before comment.span := by
  have hspan : ∀ span, span ∈ statements.map (·.span) ↔ span ∈ tree.items.map (·.span) := by
    rw [hspans]
    exact fun _ => Iff.rfl
  rcases horderly.apart comment hcomment with ⟨item, hitem, hwithin⟩ | houtside
  · obtain ⟨statement, hstatement, heq⟩ :=
      List.mem_map.mp ((hspan item.span).mpr (List.mem_map_of_mem hitem))
    exact .inl ⟨statement, hstatement, heq ▸ hwithin⟩
  · refine .inr fun statement hstatement => ?_
    obtain ⟨item, hitem, heq⟩ :=
      List.mem_map.mp ((hspan statement.span).mp (List.mem_map_of_mem hstatement))
    exact heq ▸ houtside item hitem

include hshares

/-- A comment before a statement that neither lies within a statement nor trails one leads the first
statement behind it. -/
theorem leads_of_orderly (horderly : tree.Orderly) (hcomment : comment ∈ tree.comments)
    (houtside : ∀ statement ∈ statements, ¬ comment.span.Within statement.span)
    (hsome : ∃ statement ∈ statements, comment.span.Before statement.span)
    (hnot : ∀ statement ∈ statements, comment.span ∉ statement.trailing) :
    ∃ earlier next later, statements = earlier ++ next :: later ∧
      comment.span ∈ next.leading ∧ comment.span.Before next.span ∧
      ∀ statement ∈ earlier, statement.span.Before comment.span := by
  have hapart := (apart_of_orderly hspans horderly hcomment).resolve_left
    fun ⟨statement, hstatement, hwithin⟩ => houtside statement hstatement hwithin
  obtain ⟨statement, hstatement, hbefore⟩ := hsome
  obtain ⟨earlier, next, later, hsplit, hleads, hearlier⟩ := hshares.complete comment hcomment
    (by simp) (List.forall_mem_map.mpr hapart)
    ⟨_, List.mem_map_of_mem hstatement, hbefore⟩
    (fun hown => (hshares.trails _ hown).elim fun _ h => absurd h.1 (by simp))
    (List.forall_mem_map.mpr hnot)
  have hstatements := hsplit
  rw [List.map_eq_append_iff] at hsplit
  obtain ⟨front, back, rfl, rfl, hback⟩ := hsplit
  obtain ⟨first, rest, rfl, rfl, rfl⟩ := List.map_eq_cons_iff.mp hback
  have hfirst : comment.span.Before first.span := hshares.leading _
    (List.mem_map_of_mem (List.mem_append_right _ List.mem_cons_self)) _ hleads
  exact ⟨front, first, rest, rfl, hleads, hfirst, List.forall_mem_map.mp hearlier⟩

/-- A comment that lies within a statement or before one is in the range of a statement. -/
theorem covered_of_orderly (horderly : tree.Orderly) (hcomment : comment ∈ tree.comments)
    (hplace : (∃ statement ∈ statements, comment.span.Within statement.span) ∨
      ∃ statement ∈ statements, comment.span.Before statement.span) :
    ∃ statement ∈ statements, comment.span.Within statement.range := by
  have hproper : ∀ statement ∈ statements, statement.span.start ≤ statement.span.stop := by
    have := horderly.items.1
    rw [← hspans] at this
    exact List.forall_mem_map.mp this
  have hattached : ∀ statement ∈ statements, comment.span ∈ statement.attached.all →
      comment.span.Within statement.range := fun statement hstatement hfound =>
    hshares.attached_within horderly.comments (List.mem_map_of_mem hstatement)
      (hproper statement hstatement) hfound
  by_cases hwithin : ∃ statement ∈ statements, comment.span.Within statement.span
  · obtain ⟨statement, hstatement, hstart, hstop⟩ := hwithin
    obtain ⟨hbegin, hend⟩ :=
      hshares.span_within horderly.comments (List.mem_map_of_mem hstatement)
    exact ⟨statement, hstatement, hbegin.trans hstart, hstop.trans hend⟩
  by_cases htrails : ∃ statement ∈ statements, comment.span ∈ statement.trailing
  · obtain ⟨statement, hstatement, hfound⟩ := htrails
    exact ⟨statement, hstatement, hattached statement hstatement
      (List.mem_append_right _ (Option.mem_toList.mpr hfound))⟩
  · obtain ⟨earlier, next, later, rfl, hleads, -⟩ :=
      leads_of_orderly hspans hshares horderly hcomment
      (fun statement hstatement h => hwithin ⟨statement, hstatement, h⟩)
      (hplace.resolve_left hwithin)
      (fun statement hstatement h => htrails ⟨statement, hstatement, h⟩)
    have hnext := List.mem_append_right earlier (List.mem_cons_self (a := next) (l := later))
    exact ⟨next, hnext, hattached next hnext (List.mem_append_left _ hleads)⟩

end Statements

/-- Statements and comments in order partition their source. -/
theorem ofTree_partitions (path : Files.Path) (source : List Char) (tree : Tree)
    (horderly : tree.Orderly) : Partitions source tree (ofTree path source tree).statements := by
  have hspans := ofTree_spans path source tree
  have hshares := ofTree_shares path source horderly
  have hranges := hshares.ranges
  have hsublist := (List.sublist_append_right _ _).trans hshares.sublist
  rw [List.map_map] at hranges
  rw [List.flatMap_map] at hsublist
  have hplaced := ofTree_placed path source tree
  have hfollow := PlacedAs.follow hplaced (place_follow _ _ _)
  generalize (ofTree path source tree).statements = statements at *
  refine ⟨hspans, fun statement hstatement => ?_, hranges,
    ⟨hsublist, horderly.comments.nodup.sublist hsublist⟩, fun comment hcomment hplace => ?_,
    List.forall_mem_map.mp hshares.trailing,
    fun comment hcomment => leads_of_orderly hspans hshares horderly hcomment, ?_⟩
  · obtain ⟨placed, -, h⟩ := exists_mem_of_forall₂ hplaced hstatement
    exact h.snippet
  · obtain ⟨statement, hstatement, hwithin⟩ :=
      covered_of_orderly hspans hshares horderly hcomment hplace
    obtain ⟨index, hindex⟩ := List.getElem?_of_mem hstatement
    refine ⟨index, ⟨statement, hindex, hwithin⟩, fun other ⟨second, hother, hin⟩ => ?_⟩
    exact hranges.index_eq (horderly.comments.lt hcomment) (by rw [List.getElem?_map, hother]; rfl)
      (by rw [List.getElem?_map, hindex]; rfl) hin hwithin
  · have hapart := List.pairwise_map.mp hranges.2
    rw [List.isChain_iff_getElem] at hfollow ⊢
    refine fun index hindex => ⟨(hfollow index hindex).1, ?_⟩
    have hbefore : statements[index].range.stop ≤ statements[index + 1].range.start :=
      List.pairwise_iff_getElem.mp hapart _ _ _ _ (Nat.lt_succ_self index)
    rw [(hfollow index hindex).2, Nat.min_eq_left hbefore]

/-- A source with comments before, in, between and behind its statements. -/
def annotatedSource : List Char :=
  "// leading\nvar a = 1; /* trailing */ // next\n\n\nvar b /* inner */ = a; // last\n// left".toList

theorem annotatedSource_partitions : ∃ tree, parse annotatedSource = .ok tree ∧ tree.Orderly ∧
    tree.comments.length = 6 ∧
    Partitions annotatedSource tree (ofTree ⟨"main.js"⟩ annotatedSource tree).statements := by
  have hcheck : (parse annotatedSource).toOption.any (fun tree =>
      decide tree.Orderly && tree.comments.length == 6) = true := by decide +kernel
  cases hparse : parse annotatedSource with
  | error fault => simp [hparse, Except.toOption] at hcheck
  | ok tree =>
      obtain ⟨horderly, hlength⟩ : tree.Orderly ∧ tree.comments.length = 6 := by
        simpa [hparse, Except.toOption] using hcheck
      exact ⟨tree, rfl, horderly, hlength, ofTree_partitions ⟨"main.js"⟩ _ tree horderly⟩

end Module
end ScriptBundler

import ScriptBundler.Proofs.Module.Analysis
import ScriptBundler.Proofs.Script.Extents

/-!
# Ranges of statements

The range of a statement is the stretch of its source that a bundle prints: the statement with the
comments that go with it.  It begins with a character that is not white space.  It ends behind one
as well, unless it ends with a comment that ends in white space.  The margins of a statement tell
the lines between its range and the ones around it.
-/

namespace ScriptBundler

open Script Text

/-! ## Stretches of a text -/

section Stretches

variable {source : List Char} {first second third : Cursor}

/-- The text between two places. -/
theorem Text.slice_of_reaches {front : List Char} (hfirst : Cursor.Reaches ⟨source, 0⟩ first)
    (hrest : first.rest = front ++ second.rest)
    (hoffset : first.offset + byteLength front = second.offset) :
    slice source first.offset second.offset = front := by
  obtain ⟨before, hbefore, hstart⟩ := hfirst
  dsimp only at hbefore hstart
  rw [Nat.zero_add] at hstart
  rw [hbefore, hrest, ← List.append_assoc, ← hoffset, ← hstart]
  exact slice_append before front second.rest

/-- The text between two places is the text up to a place in between, and from there on. -/
theorem Text.slice_split (hfirst : Cursor.Reaches ⟨source, 0⟩ first)
    (hsecond : first.Reaches second) (hthird : second.Reaches third) :
    slice source first.offset third.offset =
      slice source first.offset second.offset ++ slice source second.offset third.offset := by
  obtain ⟨front, hfront, hoffset⟩ := id hsecond
  obtain ⟨more, hmore, hmoreOffset⟩ := id hthird
  rw [slice_of_reaches hfirst hfront hoffset,
    slice_of_reaches (hfirst.trans hsecond) hmore hmoreOffset]
  refine slice_of_reaches hfirst ?_ ?_
  · rw [hfront, hmore, List.append_assoc]
  · rw [byteLength_append]
    omega

/-- Only a stretch that ends behind its start has any text. -/
theorem Text.lt_of_slice_ne_nil {start stop : Nat} (hne : slice source start stop ≠ []) :
    start < stop := by
  by_contra hle
  rw [slice, Nat.sub_eq_zero_of_le (Nat.le_of_not_lt hle), takeBytes_zero] at hne
  contradiction

end Stretches

namespace Module

/-! ## Comments that go with statements -/

/-- What is right of the comments that go with a statement: they are some of those that the source
has, before the statement and behind it. -/
structure Attached.Right (comments : List Comment) (span : Span) (attached : Attached) : Prop where
  leading : ∀ found ∈ attached.leading, ∃ comment ∈ comments,
    comment.span = found ∧ found.stop ≤ span.start
  trailing : ∀ found ∈ attached.trailing, ∃ comment ∈ comments,
    comment.span = found ∧ span.stop ≤ found.start

theorem Attached.Right.mono {comments more : List Comment} {span : Span} {attached : Attached}
    (hright : attached.Right comments span) (hsubset : comments ⊆ more) :
    attached.Right more span where
  leading := fun found hfound =>
    (hright.leading found hfound).imp fun _ h => ⟨hsubset h.1, h.2⟩
  trailing := fun found hfound =>
    (hright.trailing found hfound).imp fun _ h => ⟨hsubset h.1, h.2⟩

/-- Whether a stretch is a comment behind the end of a statement and before the start of the next
one. -/
def Between (comments : List Comment) (before : Option Nat) (start : Nat) (found : Span) : Prop :=
  ∃ comment ∈ comments, comment.span = found ∧ (∀ stop ∈ before, stop ≤ found.start) ∧
    found.stop ≤ start

theorem Between.mono {comments more : List Comment} {before : Option Nat} {start : Nat}
    {found : Span}
    (hbetween : Between comments before start found) (hsubset : comments ⊆ more) :
    Between more before start found :=
  hbetween.imp fun _ h => ⟨hsubset h.1, h.2⟩

/-- What is right of comments that have been handed out to the statement before them and to the one
after them. -/
structure Claimed.Right (comments : List Comment) (before : Option Nat) (start : Nat)
    (claimed : Claimed) : Prop where
  trailing : ∀ found ∈ claimed.trailing, Between comments before start found
  leading : ∀ found ∈ claimed.leading, Between comments before start found
  later : claimed.later ⊆ comments

theorem Claimed.Right.mono {comments more : List Comment} {before : Option Nat} {start : Nat}
    {claimed : Claimed} (hright : claimed.Right comments before start)
    (hsubset : comments ⊆ more) : claimed.Right more before start where
  trailing := fun found hfound => (hright.trailing found hfound).mono hsubset
  leading := fun found hfound => (hright.leading found hfound).mono hsubset
  later := fun _ h => hsubset (hright.later h)

/-- One more comment leads the statement after it. -/
theorem Claimed.Right.cons_leading {comment : Comment} {rest : List Comment} {before : Option Nat}
    {start : Nat} {claimed : Claimed} (hright : claimed.Right rest before start)
    (hstart : ∀ stop ∈ before, stop ≤ comment.span.start) (hstop : comment.span.stop ≤ start) :
    { claimed with leading := comment.span :: claimed.leading : Claimed }.Right (comment :: rest)
      before start := by
  obtain ⟨htrailing, hleading, hlater⟩ := hright.mono (List.subset_cons_self comment rest)
  refine ⟨htrailing, List.forall_mem_cons.mpr ⟨?_, hleading⟩, hlater⟩
  exact ⟨comment, List.mem_cons_self, rfl, hstart, hstop⟩

theorem claim_right (source : List Char) (before : Option Nat) (start : Nat) (mayTrail : Bool)
    (comments : List Comment) :
    (claim source before start mayTrail comments).Right comments before start := by
  fun_induction claim source before start mayTrail comments with
  | case1 => exact ⟨by simp, by simp, by simp⟩
  | case2 => exact ⟨by simp, by simp, by simp⟩
  | case3 mayTrail comment rest hstop hbefore ih =>
      subst hbefore
      exact ih.cons_leading nofun (Nat.le_of_not_lt hstop)
  | case4 mayTrail comment rest _ stop hbefore _ ih =>
      subst hbefore
      exact ih.mono (List.subset_cons_self comment rest)
  | case5 mayTrail comment rest hstop stop hbefore hstart _ ih =>
      subst hbefore
      obtain ⟨-, hleading, hlater⟩ := ih.mono (List.subset_cons_self comment rest)
      refine ⟨fun found hfound => ?_, hleading, hlater⟩
      obtain rfl := Option.some.inj hfound
      refine ⟨comment, List.mem_cons_self, rfl, fun other hother => ?_, Nat.le_of_not_lt hstop⟩
      obtain rfl := Option.some.inj hother
      exact Nat.le_of_not_lt hstart
  | case6 mayTrail comment rest hstop stop hbefore hstart _ ih =>
      subst hbefore
      refine ih.cons_leading (fun other hother => ?_) (Nat.le_of_not_lt hstop)
      obtain rfl := Option.some.inj hother
      exact Nat.le_of_not_lt hstart

theorem trailsLast_right {source : List Char} {stop : Nat} {comments : List Comment} {found : Span}
    (hfound : trailsLast source stop comments = some found) :
    ∃ comment ∈ comments, comment.span = found ∧ stop ≤ found.start := by
  unfold trailsLast at hfound
  split at hfound
  · rename_i comment hfind
    split at hfound
    · contradiction
    · obtain rfl := Option.some.inj hfound
      exact ⟨comment, List.mem_of_find?_eq_some hfind, rfl, by simpa using List.find?_some hfind⟩
  · contradiction

theorem attachAfter_cons (source : List Char) (before : Option Nat) (span : Span)
    (spans : List Span)
    (comments : List Comment) :
    attachAfter source before (span :: spans) comments =
      let claimed := claim source before span.start before.isSome comments
      let rest := attachAfter source (some span.stop) spans claimed.later
      (claimed.trailing, ⟨claimed.leading, rest.1⟩ :: rest.2) := by
  cases before <;> rfl

/-- All statements have the comments that go with them right, and so has the one before them. -/
theorem attachAfter_right (source : List Char) (before : Option Nat) (spans : List Span)
    (comments : List Comment) :
    (∀ found ∈ (attachAfter source before spans comments).1, ∃ comment ∈ comments,
        comment.span = found ∧ ∀ stop ∈ before, stop ≤ found.start) ∧
      List.Forall₂ (fun span attached => attached.Right comments span) spans
        (attachAfter source before spans comments).2 := by
  induction spans generalizing before comments with
  | nil =>
      cases before with
      | none => exact ⟨by simp [attachAfter], .nil⟩
      | some stop =>
          refine ⟨fun found hfound => ?_, .nil⟩
          obtain ⟨comment, hcomment, hspan, hstop⟩ := trailsLast_right hfound
          refine ⟨comment, hcomment, hspan, fun other hother => ?_⟩
          obtain rfl := Option.some.inj hother
          exact hstop
  | cons span rest ih =>
      have hclaimed := claim_right source before span.start before.isSome comments
      obtain ⟨hown, hothers⟩ := ih (some span.stop)
        (claim source before span.start before.isSome comments).later
      rw [attachAfter_cons]
      refine ⟨fun found hfound => ?_, .cons ⟨fun found hfound => ?_, fun found hfound => ?_⟩ ?_⟩
      · obtain ⟨comment, hcomment, hspan, hstop, -⟩ := hclaimed.trailing found hfound
        exact ⟨comment, hcomment, hspan, hstop⟩
      · obtain ⟨comment, hcomment, hspan, -, hstop⟩ := hclaimed.leading found hfound
        exact ⟨comment, hcomment, hspan, hstop⟩
      · obtain ⟨comment, hcomment, hspan, hstop⟩ := hown found hfound
        exact ⟨comment, hclaimed.later hcomment, hspan, hstop _ rfl⟩
      · exact hothers.imp fun _ _ h => h.mono hclaimed.later

/-! ## Ranges -/

/-- The range of a statement, with the comments that go with it. -/
def Statement.range (statement : Statement) : Span :=
  rangeWith statement.span ⟨statement.leading, statement.trailing⟩

section Bounds

variable {span : Span} {attached : Attached} {bound : Nat}

theorem rangeWith_start_le (hleading : ∀ found ∈ attached.leading, found.start ≤ span.start) :
    (rangeWith span attached).start ≤ span.start := by
  dsimp only [rangeWith]
  split
  · exact Nat.le_refl _
  · rename_i first others heq
    exact hleading first (heq ▸ List.mem_cons_self)

theorem le_rangeWith_start (hspan : bound ≤ span.start)
    (hleading : ∀ found ∈ attached.leading, bound ≤ found.start) :
    bound ≤ (rangeWith span attached).start := by
  dsimp only [rangeWith]
  split
  · exact hspan
  · rename_i first others heq
    exact hleading first (heq ▸ List.mem_cons_self)

theorem le_rangeWith_stop (htrailing : ∀ found ∈ attached.trailing, span.stop ≤ found.stop) :
    span.stop ≤ (rangeWith span attached).stop := by
  dsimp only [rangeWith]
  split
  · exact Nat.le_refl _
  · rename_i found heq
    exact htrailing found heq

theorem rangeWith_stop_le (hspan : span.stop ≤ bound)
    (htrailing : ∀ found ∈ attached.trailing, found.stop ≤ bound) :
    (rangeWith span attached).stop ≤ bound := by
  dsimp only [rangeWith]
  split
  · exact hspan
  · rename_i found heq
    exact htrailing found heq

end Bounds

/-- A statement after both walks over a placed item. -/
structure PlacedAs (source : List Char) (placed : Placed) (statement : Statement) : Prop where
  span : statement.span = placed.item.span
  form : statement.form = placed.item.form
  outline : statement.outline = placed.item.outline
  attached : ⟨statement.leading, statement.trailing⟩ = placed.attached
  marginBefore : statement.marginBefore = placed.marginBefore
  marginAfter : statement.marginAfter = placed.marginAfter
  snippet : statement.snippet =
    (Snippet.ofSource source).snip statement.range.start statement.range.stop

theorem ofTree_placed (path : Files.Path) (source : List Char) (tree : Tree) :
    List.Forall₂ (PlacedAs source) (place source tree.items tree.comments)
      (ofTree path source tree).statements := by
  have hbuilt : ∀ (placed : List Placed) index scopes,
      List.Forall₂ (PlacedAs source) placed (buildScopes source index placed scopes).1 := by
    intro placed
    induction placed with
    | nil => exact fun _ _ => .nil
    | cons first rest ih =>
        exact fun index scopes => .cons ⟨rfl, rfl, rfl, rfl, rfl, rfl, rfl⟩ (ih _ _)
  show List.Forall₂ _ _ (List.map _ (buildScopes source 0 _ .empty).1)
  rw [List.forall₂_map_right_iff]
  exact (hbuilt _ 0 .empty).imp fun _ _ h =>
    ⟨h.span, h.form, h.outline, h.attached, h.marginBefore, h.marginAfter, h.snippet⟩

/-- The margins between a placed item and the one after it tell the lines between their ranges. -/
def Placed.Follows (source : List Char) (first second : Placed) : Prop :=
  let stop := (rangeWith first.item.span first.attached).stop
  let start := (rangeWith second.item.span second.attached).start
  first.marginAfter = second.marginBefore ∧
    second.marginBefore = newlines (slice source (min stop start) start) + 1

/-- Items with their comments, and with the margins around them, from an offset on. -/
def withMargins (source : List Char) : Nat → List (Item × Attached) → List Placed
  | _, [] => []
  | before, (item, attached) :: rest =>
    let range := rangeWith item.span attached
    let others := withMargins source range.stop rest
    ⟨item, attached, newlines (slice source (min before range.start) range.start) + 1,
      (others.head?.map (·.marginBefore)).getD 0⟩ :: others

theorem withMargins_follow (source : List Char) (before : Nat) (both : List (Item × Attached)) :
    (withMargins source before both).IsChain (Placed.Follows source) := by
  induction both generalizing before with
  | nil => exact .nil
  | cons first rest ih =>
      have hrest := ih (rangeWith first.1.span first.2).stop
      cases rest with
      | nil => exact .singleton _
      | cons second rest =>
          rw [withMargins] at hrest ⊢
          rw [withMargins]
          exact .cons_cons ⟨rfl, rfl⟩ hrest

theorem place_eq_withMargins (source : List Char) (items : List Item) (comments : List Comment) :
    place source items comments =
      withMargins source 0 (items.zip (attachComments source (items.map (·.span)) comments)) := by
  have hmargins : ∀ (both : List (Item × Attached)) start,
      (both.zip ((gaps source start (both.map fun entry => rangeWith entry.1.span entry.2)).zip
        ((gaps source start (both.map fun entry => rangeWith entry.1.span entry.2)).drop 1 ++
          [0]))).map (fun entry => ⟨entry.1.1, entry.1.2, entry.2.1, entry.2.2⟩) =
        withMargins source start both := by
    intro both
    induction both with
    | nil => exact fun _ => rfl
    | cons first rest ih =>
        intro start
        have hrest := ih (rangeWith first.1.span first.2).stop
        rw [withMargins, ← hrest]
        rcases rest with _ | ⟨second, _ | ⟨third, rest⟩⟩ <;> rfl
  exact hmargins _ 0

theorem place_follow (source : List Char) (items : List Item) (comments : List Comment) :
    (place source items comments).IsChain (Placed.Follows source) := by
  rw [place_eq_withMargins]
  exact withMargins_follow source 0 _

/-- Items are placed with the comments that are attached to them. -/
theorem place_forall₂ {source : List Char} {items : List Item} {comments : List Comment}
    {relates : Item → Attached → Prop}
    (hattached : List.Forall₂ relates items
      (attachComments source (items.map (·.span)) comments)) :
    List.Forall₂ (fun item placed => placed.item = item ∧ relates item placed.attached) items
      (place source items comments) := by
  rw [place_eq_withMargins]
  generalize attachComments source (items.map (·.span)) comments = attached at hattached ⊢
  generalize 0 = before
  induction hattached generalizing before with
  | nil => exact .nil
  | cons hfirst _ ih => exact .cons ⟨rfl, hfirst⟩ (ih _)

theorem place_attached (source : List Char) (items : List Item) (comments : List Comment) :
    List.Forall₂ (fun item placed => placed.item = item ∧ placed.attached.Right comments item.span)
      items (place source items comments) :=
  place_forall₂ (List.forall₂_map_left_iff.mp
    (attachAfter_right source none (items.map (·.span)) comments).2)

/-- Whether a range is a stretch of a source that starts with a character that is not white
space. -/
def Framed (source : List Char) (range : Span) : Prop :=
  ∃ c front back, Cursor.Reaches ⟨source, 0⟩ ⟨c :: front, range.start⟩ ∧ isBlank c = false ∧
    Cursor.Reaches ⟨c :: front, range.start⟩ ⟨back, range.stop⟩ ∧ range.start < range.stop

/-- Whether a text does not end in white space. -/
def EndsSolid (text : List Char) : Prop :=
  ∀ last ∈ text.getLast?, isBlank last = false

variable {source : List Char} {comments : List Comment} {span : Span} {attached : Attached}

/-- A stretch that closes does not end in white space. -/
theorem endsSolid_of_closes {first second : Cursor} (hfirst : Cursor.Reaches ⟨source, 0⟩ first)
    (hcloses : first.Closes second) : EndsSolid (slice source first.offset second.offset) := by
  obtain ⟨front, c, hsolid, hrest, hoffset⟩ := hcloses
  have hslice : slice source first.offset second.offset = front ++ [c] :=
    slice_of_reaches hfirst (by simp [hrest])
      (by simp [byteLength_append, ← hoffset, Nat.add_assoc])
  intro last hlast
  rw [hslice, List.getLast?_append] at hlast
  obtain rfl := Option.some.inj hlast
  exact hsolid

section Frames

variable (hcomments : ∀ comment ∈ comments, Comment.Stands ⟨source, 0⟩ comment)
  (hright : attached.Right comments span)

include hcomments hright

/-- A range starts with the statement or with the comment that leads it first. -/
theorem rangeWith_start {c : Char} {front : List Char}
    (hstart : Cursor.Reaches ⟨source, 0⟩ ⟨c :: front, span.start⟩) (hsolid : isBlank c = false) :
    ∃ c front, Cursor.Reaches ⟨source, 0⟩ ⟨c :: front, (rangeWith span attached).start⟩ ∧
      isBlank c = false ∧ (rangeWith span attached).start ≤ span.start := by
  unfold rangeWith
  cases hleading : attached.leading with
  | nil => exact ⟨c, front, hstart, hsolid, Nat.le_refl _⟩
  | cons found rest =>
      obtain ⟨comment, hmem, rfl, hstop⟩ := hright.leading found (by rw [hleading]; simp)
      obtain ⟨⟨text, hplace⟩, -, horder⟩ := hcomments comment hmem
      exact ⟨'/', text, hplace, by decide, by dsimp only; omega⟩

/-- A range stops with the statement or with the comment that trails it. -/
theorem rangeWith_stop {first : Cursor} {back : List Char}
    (hfirst : Cursor.Reaches ⟨source, 0⟩ first) (hcloses : first.Closes ⟨back, span.stop⟩) :
    ∃ back, first.Reaches ⟨back, (rangeWith span attached).stop⟩ ∧
      first.offset < (rangeWith span attached).stop ∧
      ((∀ found ∈ attached.trailing, EndsSolid (slice source found.start found.stop)) →
        EndsSolid (slice source first.offset (rangeWith span attached).stop)) := by
  unfold rangeWith
  cases htrailing : attached.trailing with
  | none =>
      exact ⟨back, hcloses.reaches, hcloses.lt, fun _ => endsSolid_of_closes hfirst hcloses⟩
  | some found =>
      obtain ⟨comment, hmem, rfl, hbehind⟩ := hright.trailing found htrailing
      obtain ⟨⟨text, hbegin⟩, ⟨later, hend⟩, horder⟩ := hcomments comment hmem
      have hcomment := hbegin.of_le hend (Nat.le_of_lt horder)
      have hbefore := Nat.lt_of_lt_of_le hcloses.lt hbehind
      have hmiddle := hfirst.of_le hbegin (Nat.le_of_lt hbefore)
      refine ⟨later, hmiddle.trans hcomment, hbefore.trans horder, fun hends last hlast => ?_⟩
      -- the range ends with the comment, which is not empty
      have hsplit := slice_split hfirst hmiddle hcomment
      obtain ⟨whole, hwhole, hlength⟩ := id hcomment
      have hslice := slice_of_reaches hbegin hwhole hlength
      dsimp only at hsplit hslice hlength
      have hne : whole ≠ [] := by
        rintro rfl
        rw [byteLength_nil] at hlength
        omega
      refine hends comment.span rfl last ?_
      rw [hsplit, hslice, List.getLast?_append_of_ne_nil _ hne] at hlast
      rwa [hslice]

/-- A range is a stretch of the source, and ends in white space only if the comment that trails the
statement does. -/
theorem rangeWith_framed
    (hspan : ∃ c front back, Cursor.Reaches ⟨source, 0⟩ ⟨c :: front, span.start⟩ ∧
      isBlank c = false ∧ Cursor.Closes ⟨c :: front, span.start⟩ ⟨back, span.stop⟩) :
    let range := rangeWith span attached
    Framed source range ∧
      ((∀ found ∈ attached.trailing, EndsSolid (slice source found.start found.stop)) →
        EndsSolid (slice source range.start range.stop)) := by
  obtain ⟨c, front, back, hstart, hsolid, hcloses⟩ := hspan
  obtain ⟨d, text, hplace, hfresh, hle⟩ := rangeWith_start hcomments hright hstart hsolid
  obtain ⟨later, hstop, hlt, hends⟩ :=
    rangeWith_stop hcomments hright hplace ((hplace.of_le hstart hle).closes hcloses)
  exact ⟨⟨d, text, later, hplace, hfresh, hstop, hlt⟩, hends⟩

end Frames

/-! ## The statements of a module -/

/-- What is right of the place of a statement in the source of its module. -/
structure Statement.Placed (source : List Char) (statement : Statement) : Prop where
  framed : Framed source statement.range
  endsSolid : (∀ comment ∈ statement.trailing,
      EndsSolid (slice source comment.start comment.stop)) →
    EndsSolid (slice source statement.range.start statement.range.stop)
  snippet : statement.snippet =
    (Snippet.ofSource source).snip statement.range.start statement.range.stop

/-- The margins between a statement and the one after it tell the lines between their ranges. -/
def Statement.Follows (source : List Char) (first second : Statement) : Prop :=
  let stop := first.range.stop
  let start := second.range.start
  first.marginAfter = second.marginBefore ∧
    second.marginBefore = newlines (slice source (min stop start) start) + 1

theorem PlacedAs.range {placed : Placed} {statement : Statement}
    (hplaced : PlacedAs source placed statement) :
    statement.range = rangeWith placed.item.span placed.attached := by
  unfold Statement.range
  rw [hplaced.span, hplaced.attached]

/-- A chain of placed items gives a chain of statements. -/
theorem PlacedAs.follow {placed : List Placed} {statements : List Statement}
    (hplaced : List.Forall₂ (PlacedAs source) placed statements)
    (hfollow : placed.IsChain (Placed.Follows source)) :
    statements.IsChain (Statement.Follows source) := by
  induction hplaced with
  | nil => exact .nil
  | cons hfirst hrest ih =>
      cases hrest with
      | nil => exact .singleton _
      | cons hsecond hrest =>
          obtain ⟨⟨hafter, hbefore⟩, hfollow⟩ := List.isChain_cons_cons.mp hfollow
          refine .cons_cons ⟨?_, ?_⟩ (ih hfollow)
          · rw [hfirst.marginAfter, hsecond.marginBefore, hafter]
          · rw [hfirst.range, hsecond.range, hsecond.marginBefore, hbefore]

/-- The statements of a module that has been parsed lie in its source one after the other. -/
theorem ofTree_ranges (path : Files.Path) {tree : Tree} (hparse : parse source = .ok tree) :
    (∀ statement ∈ (ofTree path source tree).statements, statement.Placed source) ∧
      (ofTree path source tree).statements.IsChain (Statement.Follows source) := by
  obtain ⟨hlaid, hcomments⟩ := parse_laid hparse
  have hplaced := ofTree_placed path source tree
  refine ⟨fun statement hstatement => ?_, PlacedAs.follow hplaced (place_follow _ _ _)⟩
  have hattached := place_attached source tree.items tree.comments
  generalize place source tree.items tree.comments = placed at hplaced hattached
  obtain ⟨entry, hentry, hstated⟩ := exists_mem_of_forall₂ hplaced hstatement
  obtain ⟨item, hitem, rfl, hright⟩ := exists_mem_of_forall₂ hattached hentry
  obtain ⟨hframed, hends⟩ := rangeWith_framed hcomments hright (hlaid.mem hitem)
  rw [← hstated.range] at hframed hends
  rw [← hstated.attached] at hends
  exact ⟨hframed, hends, hstated.snippet⟩

end Module
end ScriptBundler

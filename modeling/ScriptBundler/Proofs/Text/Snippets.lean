import Mathlib.Data.List.Pairwise
import Mathlib.Data.List.Perm.Basic
import ScriptBundler.Text.Snippet

/-!
# Snippets as an editor

The edits of a snippet stand apart from each other, lie within its range, and are sorted by their
places.  Cutting, cloning and editing keep this, whatever the order.  So it is enough to look at one
neighbour to tell whether an edit overlaps another one, and one pass over the source puts all edits
in at once: each character of the range is replaced or kept, whatever happens to the others.
-/

namespace ScriptBundler
namespace Text

/-! ## Offsets on character boundaries -/

/-- Whether an offset lies between two characters of a text, or at one of its ends. -/
def Boundary (text : List Char) (offset : Nat) : Prop :=
  ∃ front back, text = front ++ back ∧ byteLength front = offset

variable {source : List Char} {start middle stop offset : Nat}

theorem boundary_iff (text : List Char) (offset : Nat) :
    Boundary text offset ↔ byteLength (takeBytes text offset) = offset := by
  constructor
  · rintro ⟨front, back, rfl, rfl⟩
    rw [takeBytes_append]
  · exact fun hlength => ⟨_, _, (takeBytes_append_dropBytes text offset).symm, hlength⟩

instance (text : List Char) (offset : Nat) : Decidable (Boundary text offset) :=
  decidable_of_iff _ (boundary_iff text offset).symm

theorem boundary_zero (source : List Char) : Boundary source 0 :=
  ⟨[], source, rfl, rfl⟩

theorem boundary_byteLength (source : List Char) : Boundary source (byteLength source) :=
  ⟨source, [], by simp, rfl⟩

/-- Of two boundaries, the one that is not behind cuts the text before the other one. -/
theorem Boundary.between (hstart : Boundary source start) (hstop : Boundary source stop)
    (hle : start ≤ stop) : ∃ front inner back, source = front ++ inner ++ back ∧
      byteLength front = start ∧ start + byteLength inner = stop := by
  obtain ⟨front, rest, hfront, rfl⟩ := hstart
  obtain ⟨longer, back, hlonger, rfl⟩ := hstop
  rcases List.append_eq_append_iff.mp (hfront.symm.trans hlonger) with
    ⟨inner, rfl, -⟩ | ⟨inner, rfl, hback⟩
  · exact ⟨front, inner, back, hlonger, rfl, (byteLength_append front inner).symm⟩
  · rw [byteLength_append] at hle
    cases inner with
    | nil => exact ⟨longer ++ [], [], rest, by simpa using hfront, by simp, by simp⟩
    | cons c inner =>
        have := byteLength_pos c inner
        omega

theorem byteLength_slice (hstart : Boundary source start) (hstop : Boundary source stop)
    (hle : start ≤ stop) : start + byteLength (slice source start stop) = stop := by
  obtain ⟨front, inner, back, rfl, rfl, rfl⟩ := hstart.between hstop hle
  rw [slice_append]

theorem slice_eq_append (hstart : Boundary source start) (hmiddle : Boundary source middle)
    (hstop : Boundary source stop) (hle : start ≤ middle) (hle' : middle ≤ stop) :
    slice source start stop = slice source start middle ++ slice source middle stop := by
  obtain ⟨front, inner, back, hsource, hfront, hinner⟩ := hstart.between hmiddle hle
  obtain ⟨longer, outer, rest, hsource', hlonger, houter⟩ := hmiddle.between hstop hle'
  -- both ways to cut the text cut it at `middle`
  have hlength : byteLength (front ++ inner) = middle := by rw [byteLength_append, hfront, hinner]
  obtain rfl : front ++ inner = longer := by
    rw [← takeBytes_append (front ++ inner) back, ← hsource, hlength, hsource', List.append_assoc,
      ← hlonger, takeBytes_append]
  subst hfront hinner houter
  have hwhole : source = front ++ (inner ++ outer) ++ rest := by simpa using hsource'
  have hall : slice source (byteLength front)
      (byteLength front + byteLength (inner ++ outer)) = inner ++ outer := by
    rw [hwhole, slice_append]
  have hfirst : slice source (byteLength front) (byteLength front + byteLength inner) = inner := by
    rw [hsource, slice_append]
  have hsecond : slice source (byteLength (front ++ inner))
      (byteLength (front ++ inner) + byteLength outer) = outer := by
    rw [hsource', slice_append]
  rw [byteLength_append] at hall hsecond
  rw [Nat.add_assoc, hall, hfirst, ← Nat.add_assoc, hsecond]

/-! ## Simultaneous substitution -/

/-- What some edits put in at an offset. -/
def putIn (edits : List Edit) (offset : Nat) : List Char :=
  (edits.filter (·.start = offset)).flatMap (·.content)

/-- Whether some edit replaces what stands at an offset. -/
def isReplaced (edits : List Edit) (offset : Nat) : Bool :=
  edits.any fun edit => edit.start ≤ offset && offset < edit.stop

/-- A text that stands at an offset of the source, with all edits substituted at once: what becomes
of a character is a matter of its own offset only. -/
def substitute (edits : List Edit) : List Char → Nat → List Char
  | [], _ => []
  | c :: rest, offset =>
    putIn edits offset ++ (if isReplaced edits offset then [] else [c]) ++
      substitute edits rest (offset + c.utf8Size)

variable {edits rest : List Edit} {edit first : Edit} {text : List Char}

theorem putIn_cons (first : Edit) (rest : List Edit) (offset : Nat) :
    putIn (first :: rest) offset =
      (if first.start = offset then first.content else []) ++ putIn rest offset := by
  by_cases hstart : first.start = offset <;> simp [putIn, hstart]

theorem putIn_eq_nil (hapart : ∀ edit ∈ edits, edit.start ≠ offset) : putIn edits offset = [] := by
  rw [putIn, List.filter_eq_nil_iff.mpr (by simpa using hapart), List.flatMap_nil]

theorem isReplaced_eq_false_iff : isReplaced edits offset = false ↔
    ∀ edit ∈ edits, edit.start ≤ offset → edit.stop ≤ offset := by
  simp [isReplaced]

theorem substitute_append (edits : List Edit) (front back : List Char) (offset : Nat) :
    substitute edits (front ++ back) offset =
      substitute edits front offset ++ substitute edits back (offset + byteLength front) := by
  induction front generalizing offset with
  | nil => simp [substitute]
  | cons c front ih =>
      rw [List.cons_append, substitute, substitute, ih, byteLength_cons, Nat.add_assoc]
      simp only [List.append_assoc]

/-- Text that no edit meets stays as it is. -/
theorem substitute_eq_self (hapart : ∀ edit ∈ edits, edit.start < edit.stop ∧
      (edit.stop ≤ offset ∨ offset + byteLength text ≤ edit.start)) :
    substitute edits text offset = text := by
  induction text generalizing offset with
  | nil => rfl
  | cons c rest ih =>
      have hsize := c.utf8Size_pos
      rw [byteLength_cons] at hapart
      have hnothing : putIn edits offset = [] := by
        refine putIn_eq_nil fun edit hedit => ?_
        have := hapart edit hedit
        omega
      have hkept : isReplaced edits offset = false := by
        refine isReplaced_eq_false_iff.mpr fun edit hedit hle => ?_
        have := hapart edit hedit
        omega
      rw [substitute, hnothing, hkept, ih]
      · rfl
      · intro edit hedit
        have := hapart edit hedit
        omega

/-- An edit before some text has nothing to do with it. -/
theorem substitute_cons_of_le (hnonempty : first.start < first.stop) (hle : first.stop ≤ offset) :
    substitute (first :: rest) text offset = substitute rest text offset := by
  induction text generalizing offset with
  | nil => rfl
  | cons c more ih =>
      have hnothing : putIn (first :: rest) offset = putIn rest offset := by
        rw [putIn_cons, if_neg (by omega), List.nil_append]
      have hkept : isReplaced (first :: rest) offset = isReplaced rest offset := by
        simp [isReplaced, Nat.not_lt.mpr hle]
      rw [substitute, substitute, hnothing, hkept, ih (Nat.le_add_right_of_le hle)]

/-- Within an edit nothing is left, if other edits come after it. -/
theorem substitute_eq_nil (hafter : ∀ edit ∈ rest, first.stop ≤ edit.start)
    (hlt : first.start < offset) (hle : offset + byteLength text ≤ first.stop) :
    substitute (first :: rest) text offset = [] := by
  induction text generalizing offset with
  | nil => rfl
  | cons c more ih =>
      have hsize := c.utf8Size_pos
      rw [byteLength_cons] at hle
      have hnothing : putIn (first :: rest) offset = [] := by
        refine putIn_eq_nil (List.forall_mem_cons.mpr ⟨by omega, fun edit hedit => ?_⟩)
        have := hafter edit hedit
        omega
      have hreplaced : isReplaced (first :: rest) offset = true := by
        simp only [isReplaced, List.any_cons, Bool.or_eq_true, Bool.and_eq_true,
          decide_eq_true_eq]
        omega
      rw [substitute, hnothing, hreplaced, ih (by omega) (by omega)]
      rfl

/-- The text of an edit becomes its content, if other edits come after it. -/
theorem substitute_eq_content (hnonempty : first.start < first.stop)
    (hafter : ∀ edit ∈ rest, first.stop ≤ edit.start)
    (hlength : first.start + byteLength text = first.stop) :
    substitute (first :: rest) text first.start = first.content := by
  cases text with
  | nil => simp at hlength; omega
  | cons c more =>
      have hsize := c.utf8Size_pos
      rw [byteLength_cons] at hlength
      have hputIn : putIn (first :: rest) first.start = first.content := by
        rw [putIn_cons, if_pos rfl, putIn_eq_nil, List.append_nil]
        intro edit hedit
        have := hafter edit hedit
        omega
      have hreplaced : isReplaced (first :: rest) first.start = true := by
        simp [isReplaced, hnonempty]
      rw [substitute, hputIn, hreplaced, substitute_eq_nil hafter (by omega) (by omega)]
      simp

/-! ## Orderly snippets -/

/-- Whether an edit replaces some characters of a stretch of the source. -/
structure Edit.Fits (source : List Char) (start stop : Nat) (edit : Edit) : Prop where
  nonempty : edit.start < edit.stop
  lower : start ≤ edit.start
  upper : edit.stop ≤ stop
  opens : Boundary source edit.start
  closes : Boundary source edit.stop

/-- Whether edits are sorted by their places, each of them behind the one before. -/
def Sorted (edits : List Edit) : Prop :=
  edits.Pairwise fun first second => first.stop ≤ second.start

/-- Whether two edits stand apart. -/
def Edit.Apart (edit other : Edit) : Prop :=
  edit.stop ≤ other.start ∨ other.stop ≤ edit.start

instance : Std.Symm Edit.Apart :=
  ⟨fun _ _ => Or.symm⟩

/-- What is true of all snippets that are cut from a source and edited. -/
structure Snippet.Orderly (source : List Char) (snippet : Snippet) : Prop where
  opens : Boundary source snippet.start
  closes : Boundary source snippet.stop
  le : snippet.start ≤ snippet.stop
  fits : ∀ edit ∈ snippet.edits, edit.Fits source snippet.start snippet.stop
  sorted : Sorted snippet.edits
  source : snippet.source = source

/-- One pass over the source puts sorted edits in all at once. -/
theorem applyEdits_eq_substitute (hsorted : Sorted edits)
    (hfits : ∀ edit ∈ edits, edit.Fits source start stop) (hopens : Boundary source start)
    (hcloses : Boundary source stop) (hle : start ≤ stop) :
    Snippet.applyEdits source stop edits start =
      substitute edits (slice source start stop) start := by
  -- the induction is on the edits, and `start` is where the pass has got to
  induction edits generalizing start with
  | nil => exact (substitute_eq_self (by simp)).symm
  | cons first rest ih =>
      obtain ⟨hfirst, hrest⟩ := List.forall_mem_cons.mp hfits
      obtain ⟨hafter, hsorted⟩ := List.pairwise_cons.mp hsorted
      obtain ⟨hnonempty, hlower, hupper, hstart, hstop⟩ := hfirst
      have hbefore := slice_eq_append hopens hstart hcloses hlower (by omega)
      have hbehind := slice_eq_append hstart hstop hcloses (by omega) hupper
      have hlength := byteLength_slice hopens hstart hlower
      have hinner := byteLength_slice hstart hstop (by omega)
      have hall : ∀ edit ∈ first :: rest, edit.start < edit.stop ∧
          (edit.stop ≤ start ∨ start + byteLength (slice source start first.start) ≤
            edit.start) := by
        refine List.forall_mem_cons.mpr ⟨⟨hnonempty, by omega⟩, fun edit hedit => ?_⟩
        have := hafter edit hedit
        have := (hrest edit hedit).nonempty
        omega
      have hlater : ∀ edit ∈ rest, edit.Fits source first.stop stop := fun edit hedit =>
        { hrest edit hedit with lower := hafter edit hedit }
      rw [Snippet.applyEdits, if_neg (by omega), ih hsorted hlater hstop hupper, hbefore, hbehind,
        substitute_append, substitute_append, substitute_eq_self hall, hlength,
        substitute_eq_content hnonempty hafter hinner, hinner,
        substitute_cons_of_le hnonempty (Nat.le_refl _), List.append_assoc]

/-- The text of an orderly snippet is its range with all edits substituted at once. -/
theorem Snippet.Orderly.untrimmed_eq {snippet : Snippet} (horderly : snippet.Orderly source) :
    snippet.untrimmed = snippet.intro ++
      substitute snippet.edits (slice source snippet.start snippet.stop) snippet.start ++
      snippet.outro := by
  have hall : snippet.edits.filter (fun edit =>
      snippet.start ≤ edit.start && edit.start < snippet.stop) = snippet.edits := by
    refine List.filter_eq_self.mpr fun edit hedit => ?_
    obtain ⟨hnonempty, hlower, hupper, -, -⟩ := horderly.fits edit hedit
    simp only [Bool.and_eq_true, decide_eq_true_eq]
    omega
  rw [untrimmed, hall, horderly.source,
    applyEdits_eq_substitute horderly.sorted horderly.fits horderly.opens horderly.closes
      horderly.le]

/-! ## Edits -/

/-- Whether an edit of a range can be made: the range is not empty, lies within the view, and meets
no earlier edit. -/
def Snippet.Accepts (snippet : Snippet) (start stop : Nat) : Prop :=
  start < stop ∧ snippet.start ≤ start ∧ stop ≤ snippet.stop ∧
    ∀ edit ∈ snippet.edits, edit.stop ≤ start ∨ stop ≤ edit.start

instance (snippet : Snippet) (start stop : Nat) : Decidable (snippet.Accepts start stop) :=
  inferInstanceAs (Decidable (start < stop ∧ snippet.start ≤ start ∧ stop ≤ snippet.stop ∧
    ∀ edit ∈ snippet.edits, edit.stop ≤ start ∨ stop ≤ edit.start))

/-- Among sorted edits, the one that starts last before the end of a range is the one to look at. -/
theorem any_lastBefore (hsorted : Sorted edits) (hnonempty : ∀ edit ∈ edits, edit.start < edit.stop)
    (start stop : Nat) : (lastBefore edits stop).any (start < ·.stop) = true ↔
      ∃ edit ∈ edits, edit.start < stop ∧ start < edit.stop := by
  have hsorted := hsorted.sublist (List.filter_sublist (p := (·.start < stop)))
  have hmem : ∀ edit, edit ∈ edits.filter (·.start < stop) ↔ edit ∈ edits ∧ edit.start < stop := by
    simp
  unfold lastBefore
  generalize edits.filter (·.start < stop) = before at hsorted hmem
  rcases List.eq_nil_or_concat before with rfl | ⟨others, last, rfl⟩
  · simp only [List.getLast?_nil, Option.any_none, Bool.false_eq_true, false_iff]
    rintro ⟨edit, hedit, hlt, -⟩
    exact absurd ((hmem edit).mpr ⟨hedit, hlt⟩) List.not_mem_nil
  · rw [List.concat_eq_append] at hsorted hmem ⊢
    have hlast := (hmem last).mp (by simp)
    have := hnonempty last hlast.1
    simp only [List.getLast?_concat, Option.any_some, decide_eq_true_eq]
    constructor
    · exact fun hlt => ⟨last, hlast.1, hlast.2, hlt⟩
    · rintro ⟨edit, hedit, hlt, hmeets⟩
      rcases List.mem_append.mp ((hmem edit).mpr ⟨hedit, hlt⟩) with hother | hsame
      · have := (List.pairwise_append.mp hsorted).2.2 edit hother last (by simp)
        omega
      · rwa [List.mem_singleton.mp hsame] at hmeets

theorem mem_insertEdit (hapart : ∀ other ∈ edits, other.start ≠ edit.start) (other : Edit) :
    other ∈ insertEdit edit edits ↔ other = edit ∨ other ∈ edits := by
  induction edits with
  | nil => simp [insertEdit]
  | cons first rest ih =>
      obtain ⟨hfirst, hrest⟩ := List.forall_mem_cons.mp hapart
      rw [insertEdit, if_neg hfirst.symm]
      split
      · simp
      · simp only [List.mem_cons, ih hrest]
        exact or_left_comm

theorem sorted_insertEdit (hsorted : Sorted edits)
    (hnonempty : ∀ other ∈ edits, other.start < other.stop) (hedit : edit.start < edit.stop)
    (hapart : ∀ other ∈ edits, other.stop ≤ edit.start ∨ edit.stop ≤ other.start) :
    Sorted (insertEdit edit edits) := by
  induction edits with
  | nil => exact List.pairwise_singleton _ _
  | cons first rest ih =>
      obtain ⟨hafter, hsorted⟩ := List.pairwise_cons.mp hsorted
      obtain ⟨hfirst, hrest⟩ := List.forall_mem_cons.mp hnonempty
      obtain ⟨hnear, hfar⟩ := List.forall_mem_cons.mp hapart
      rw [insertEdit]
      split
      · refine List.pairwise_cons.mpr ⟨List.forall_mem_cons.mpr ⟨by omega, fun other hother => ?_⟩,
          List.pairwise_cons.mpr ⟨hafter, hsorted⟩⟩
        have := hafter other hother
        omega
      · rw [if_neg (by omega)]
        refine List.pairwise_cons.mpr ⟨fun other hother => ?_, ih hsorted hrest hfar⟩
        have hdistinct : ∀ other ∈ rest, other.start ≠ edit.start := fun other h => by
          have := hafter other h
          have := hrest other h
          have := hfar other h
          omega
        rcases (mem_insertEdit hdistinct other).mp hother with rfl | hother
        · omega
        · exact hafter other hother

/-- Edits that start at different places go in in any order. -/
theorem insertEdit_comm {second : Edit} (hne : first.start ≠ second.start) (edits : List Edit) :
    insertEdit first (insertEdit second edits) = insertEdit second (insertEdit first edits) := by
  induction edits with
  | nil => simp only [insertEdit]; grind
  | cons other rest ih => simp only [insertEdit]; grind [insertEdit]

namespace Snippet

variable {snippet : Snippet} {content : List Char}

theorem Orderly.nonempty (horderly : snippet.Orderly source) :
    ∀ edit ∈ snippet.edits, edit.start < edit.stop :=
  fun edit hedit => (horderly.fits edit hedit).nonempty

/-- An edit of an orderly snippet is made if and only if it is acceptable. -/
theorem Orderly.overwrite_eq_ok_iff (horderly : snippet.Orderly source) (start stop : Nat)
    (content : List Char) (edited : Snippet) :
    snippet.overwrite start stop content = .ok edited ↔ snippet.Accepts start stop ∧
      edited = { snippet with edits := insertEdit ⟨start, stop, content⟩ snippet.edits } := by
  have hoverlap := any_lastBefore horderly.sorted horderly.nonempty start stop
  unfold overwrite Accepts
  split
  · simp; omega
  split
  · rename_i houtside
    simp only [Bool.or_eq_true, decide_eq_true_eq] at houtside
    simp; omega
  split
  · rename_i hmeets
    obtain ⟨edit, hedit, hlt, hmeets⟩ := hoverlap.mp hmeets
    simp only [reduceCtorEq, false_iff, not_and]
    rintro ⟨-, -, -, hapart⟩
    have := hapart edit hedit
    omega
  · rename_i hnonempty houtside hclear
    simp only [Bool.or_eq_true, decide_eq_true_eq, not_or] at houtside
    rw [hoverlap] at hclear
    have hapart : ∀ edit ∈ snippet.edits, edit.stop ≤ start ∨ stop ≤ edit.start := by
      intro edit hedit
      by_contra hmeets
      exact hclear ⟨edit, hedit, by omega⟩
    simp only [Except.ok.injEq, eq_comm (a := edited), iff_and_self]
    exact fun _ => ⟨by omega, by omega, by omega, hapart⟩

theorem Accepts.start_ne (haccepts : snippet.Accepts start stop)
    (hnonempty : ∀ edit ∈ snippet.edits, edit.start < edit.stop) :
    ∀ edit ∈ snippet.edits, edit.start ≠ start := by
  intro edit hedit
  have := haccepts.1
  have := haccepts.2.2.2 edit hedit
  have := hnonempty edit hedit
  omega

/-! ## What cutting and editing keep -/

theorem orderly_ofSource (source : List Char) : (ofSource source).Orderly source where
  opens := boundary_zero source
  closes := boundary_byteLength source
  le := Nat.zero_le _
  fits := by simp [ofSource]
  sorted := List.Pairwise.nil
  source := rfl

theorem Orderly.overwrite {edited : Snippet} (horderly : snippet.Orderly source)
    (hopens : Boundary source start) (hcloses : Boundary source stop)
    (hedited : snippet.overwrite start stop content = .ok edited) : edited.Orderly source := by
  obtain ⟨haccepts, rfl⟩ := (horderly.overwrite_eq_ok_iff start stop content edited).mp hedited
  have hmem : ∀ edit, edit ∈ insertEdit ⟨start, stop, content⟩ snippet.edits ↔
      edit = ⟨start, stop, content⟩ ∨ edit ∈ snippet.edits :=
    mem_insertEdit (haccepts.start_ne horderly.nonempty)
  obtain ⟨hlt, hlower, hupper, hapart⟩ := haccepts
  refine { horderly with fits := fun edit hedit => ?_, sorted := ?_ }
  · rcases (hmem edit).mp hedit with rfl | hold
    · exact ⟨hlt, hlower, hupper, hopens, hcloses⟩
    · exact horderly.fits edit hold
  · exact sorted_insertEdit horderly.sorted horderly.nonempty hlt hapart

theorem Orderly.mem_edits_snip (horderly : snippet.Orderly source) (start stop : Nat)
    (edit : Edit) : edit ∈ (snippet.snip start stop).edits ↔
      edit ∈ snippet.edits ∧ start ≤ edit.start ∧ edit.stop ≤ stop := by
  simp only [snip, List.mem_filter, Bool.and_eq_true, decide_eq_true_eq]
  constructor
  · exact fun ⟨hedit, ⟨hlower, _⟩, hupper⟩ => ⟨hedit, hlower, hupper⟩
  · rintro ⟨hedit, hlower, hupper⟩
    have := horderly.nonempty edit hedit
    exact ⟨hedit, ⟨hlower, by omega⟩, hupper⟩

theorem Orderly.snip (horderly : snippet.Orderly source) (hopens : Boundary source start)
    (hcloses : Boundary source stop) (hle : start ≤ stop) :
    (snippet.snip start stop).Orderly source where
  opens := hopens
  closes := hcloses
  le := hle
  fits := fun edit hedit => by
    obtain ⟨hold, hlower, hupper⟩ := (horderly.mem_edits_snip start stop edit).mp hedit
    exact { horderly.fits edit hold with lower := hlower, upper := hupper }
  sorted := horderly.sorted.sublist List.filter_sublist
  source := horderly.source

/-! ## Many edits of one snippet -/
/-- Makes some edits, one after the other. -/
def overwriteAll (snippet : Snippet) : List Edit → Except RefusedEdit Snippet
  | [] => .ok snippet
  | edit :: rest =>
    match snippet.overwrite edit.start edit.stop edit.content with
    | .ok edited => edited.overwriteAll rest
    | .error refused => .error refused

/-- Edits that stand apart from each other and from earlier ones are all made. -/
theorem Orderly.overwriteAll_eq_ok (horderly : snippet.Orderly source) {edits : List Edit}
    (hapart : edits.Pairwise Edit.Apart)
    (haccepts : ∀ edit ∈ edits, snippet.Accepts edit.start edit.stop)
    (hboundaries : ∀ edit ∈ edits, Boundary source edit.start ∧ Boundary source edit.stop) :
    ∃ edited, snippet.overwriteAll edits = .ok edited ∧ edited.Orderly source ∧
      edited = { snippet with
        edits := edits.foldl (fun edits edit => insertEdit edit edits) snippet.edits } := by
  induction edits generalizing snippet with
  | nil => exact ⟨snippet, rfl, horderly, rfl⟩
  | cons first rest ih =>
      obtain ⟨hfirst, hrest⟩ := List.forall_mem_cons.mp haccepts
      obtain ⟨hclear, hapart⟩ := List.pairwise_cons.mp hapart
      obtain ⟨⟨hopens, hcloses⟩, hboundaries⟩ := List.forall_mem_cons.mp hboundaries
      have hedited := (horderly.overwrite_eq_ok_iff first.start first.stop first.content _).mpr
        ⟨hfirst, rfl⟩
      have hmem := mem_insertEdit (hfirst.start_ne horderly.nonempty)
      rw [overwriteAll, hedited]
      refine ih (horderly.overwrite hopens hcloses hedited) hapart (fun edit hedit => ?_)
        hboundaries
      obtain ⟨hlt, hlower, hupper, hold⟩ := hrest edit hedit
      refine ⟨hlt, hlower, hupper, fun other hother => ?_⟩
      rcases (hmem other).mp hother with rfl | hother
      · exact hclear edit hedit
      · exact hold other hother

/-- The order in which edits that stand apart are made does not matter. -/
theorem Orderly.overwriteAll_perm (horderly : snippet.Orderly source) {edits others : List Edit}
    (hperm : edits.Perm others)
    (hapart : edits.Pairwise Edit.Apart)
    (haccepts : ∀ edit ∈ edits, snippet.Accepts edit.start edit.stop)
    (hboundaries : ∀ edit ∈ edits, Boundary source edit.start ∧ Boundary source edit.stop) :
    ∃ edited, snippet.overwriteAll edits = .ok edited ∧ edited.Orderly source ∧
      snippet.overwriteAll others = .ok edited := by
  obtain ⟨edited, hedited, hright, heq⟩ :=
    horderly.overwriteAll_eq_ok hapart haccepts hboundaries
  refine ⟨edited, hedited, hright, ?_⟩
  obtain ⟨edited', hedited', -, heq'⟩ := horderly.overwriteAll_eq_ok
    ((hperm.pairwise_iff symm).mp hapart)
    (fun edit hedit => haccepts edit (hperm.mem_iff.mpr hedit))
    (fun edit hedit => hboundaries edit (hperm.mem_iff.mpr hedit))
  rw [hedited', heq', heq]
  have hfold : edits.foldl (fun edits edit => insertEdit edit edits) snippet.edits =
      others.foldl (fun edits edit => insertEdit edit edits) snippet.edits := by
    refine hperm.foldl_eq' (fun edit hedit other hother edits => ?_) _
    by_cases hsame : edit = other
    · rw [hsame]
    · have hclear : edit.Apart other := hapart.forall hedit hother hsame
      unfold Edit.Apart at hclear
      have := (haccepts edit hedit).1
      have := (haccepts other hother).1
      exact insertEdit_comm (by omega) edits
  rw [hfold]

end Snippet

/-! ## An editor -/

/-- What can be done with snippets of one source, which are numbered as they come up. -/
inductive Action where
  | snip (subject start stop : Nat)
  | clone (subject : Nat)
  | overwrite (subject start stop : Nat) (content : List Char)
  | remove (subject start stop : Nat)
  | prepend (subject : Nat) (content : List Char)
  | append (subject : Nat) (content : List Char)
  | trim (subject : Nat)
deriving Repr, DecidableEq

namespace Action

/-- The snippet that an action changes, if it changes one. -/
def changes : Action → Option Nat
  | .snip _ _ _ | .clone _ => none
  | .overwrite subject _ _ _ | .remove subject _ _ | .prepend subject _ | .append subject _
  | .trim subject => some subject

/-- Whether the offsets of an action lie on character boundaries of the source, and those of a cut
are in order. -/
def Fits (source : List Char) : Action → Prop
  | .snip _ start stop => start ≤ stop ∧ Boundary source start ∧ Boundary source stop
  | .overwrite _ start stop _ | .remove _ start stop =>
    Boundary source start ∧ Boundary source stop
  | .clone _ | .prepend _ _ | .append _ _ | .trim _ => True

instance (source : List Char) : (action : Action) → Decidable (action.Fits source)
  | .snip _ start stop =>
    inferInstanceAs (Decidable (start ≤ stop ∧ Boundary source start ∧ Boundary source stop))
  | .overwrite _ start stop _ | .remove _ start stop =>
    inferInstanceAs (Decidable (Boundary source start ∧ Boundary source stop))
  | .clone _ | .prepend _ _ | .append _ _ | .trim _ => inferInstanceAs (Decidable True)

/-- Changes one of some snippets, unless the change is refused. -/
def changing (views : List Snippet) (subject : Nat)
    (change : Snippet → Except RefusedEdit Snippet) : List Snippet :=
  match views[subject]? with
  | none => views
  | some view =>
    match change view with
    | .ok changed => views.set subject changed
    | .error _ => views

/-- The snippets after an action. -/
def perform (views : List Snippet) : Action → List Snippet
  | .snip subject start stop => views ++ (views[subject]?.map (·.snip start stop)).toList
  | .clone subject => views ++ views[subject]?.toList
  | .overwrite subject start stop content => changing views subject (·.overwrite start stop content)
  | .remove subject start stop => changing views subject (·.remove start stop)
  | .prepend subject content => changing views subject fun view => .ok (view.prepend content)
  | .append subject content => changing views subject fun view => .ok (view.append content)
  | .trim subject => changing views subject fun view => .ok view.trim

/-- The snippets of a source after some actions.  The first one is the view of the whole source. -/
def performAll (source : List Char) (actions : List Action) : List Snippet :=
  actions.foldl perform [.ofSource source]

variable {views : List Snippet} {subject : Nat} {change : Snippet → Except RefusedEdit Snippet}

theorem forall_mem_changing {holds : Snippet → Prop} (hviews : ∀ view ∈ views, holds view)
    (hchange : ∀ view changed, holds view → change view = .ok changed → holds changed) :
    ∀ view ∈ changing views subject change, holds view := by
  unfold changing
  split
  · exact hviews
  · rename_i view hview
    split
    · rename_i changed hchanged
      intro other hother
      rcases List.mem_or_eq_of_mem_set hother with hold | rfl
      · exact hviews other hold
      · exact hchange view other (hviews view (List.mem_of_getElem? hview)) hchanged
    · exact hviews

theorem getElem?_changing {other : Nat} (hother : subject ≠ other) :
    (changing views subject change)[other]? = views[other]? := by
  unfold changing
  split
  · rfl
  · split
    · exact List.getElem?_set_ne hother
    · rfl

/-- An action with orderly snippets leaves orderly snippets. -/
theorem perform_orderly {action : Action} (hfits : action.Fits source)
    (hviews : ∀ view ∈ views, view.Orderly source) :
    ∀ view ∈ action.perform views, view.Orderly source := by
  cases action with
  | snip subject start stop =>
      obtain ⟨hle, hopens, hcloses⟩ := hfits
      intro view hview
      rcases List.mem_append.mp hview with hold | hnew
      · exact hviews view hold
      · obtain ⟨parent, hparent, rfl⟩ := Option.map_eq_some_iff.mp (Option.mem_toList.mp hnew)
        exact (hviews parent (List.mem_of_getElem? hparent)).snip hopens hcloses hle
  | clone subject =>
      intro view hview
      rcases List.mem_append.mp hview with hold | hnew
      · exact hviews view hold
      · exact hviews view (List.mem_of_getElem? (Option.mem_toList.mp hnew))
  | overwrite subject start stop content =>
      exact forall_mem_changing hviews fun _ _ horderly hedited =>
        horderly.overwrite hfits.1 hfits.2 hedited
  | remove subject start stop =>
      exact forall_mem_changing hviews fun _ _ horderly hedited =>
        horderly.overwrite hfits.1 hfits.2 hedited
  | prepend | append | trim =>
      unfold perform
      refine forall_mem_changing hviews fun view changed horderly hchanged => ?_
      obtain rfl := Except.ok.inj hchanged
      exact { horderly with }

/-- Every snippet that comes up is orderly. -/
theorem performAll_orderly {actions : List Action}
    (hfits : ∀ action ∈ actions, action.Fits source) :
    ∀ view ∈ performAll source actions, view.Orderly source := by
  have hstart : ∀ view ∈ [Snippet.ofSource source], view.Orderly source :=
    List.forall_mem_singleton.mpr (Snippet.orderly_ofSource source)
  unfold performAll
  generalize [Snippet.ofSource source] = views at hstart
  induction actions generalizing views with
  | nil => exact hstart
  | cons first rest ih =>
      obtain ⟨hfirst, hrest⟩ := List.forall_mem_cons.mp hfits
      exact ih hrest _ (perform_orderly hfirst hstart)

/-- An action leaves all snippets alone but the one that it changes. -/
theorem getElem?_perform (action : Action) {other : Nat} (hother : action.changes ≠ some other)
    (hlt : other < views.length) : (action.perform views)[other]? = views[other]? := by
  cases action with
  | snip | clone => exact List.getElem?_append_left hlt
  | overwrite | remove | prepend | append | trim =>
      unfold perform
      exact getElem?_changing fun hsame => hother (congrArg some hsame)

/-- Snippets are an editor: an edit is made if and only if its range is not empty, lies within the
view and meets no earlier edit, and a refused edit changes nothing; a removal is an edit that puts
nothing in; a cut carries the edits that lie in it; what is done with one snippet leaves the others
alone; the text of a view is its range with all edits substituted at once; and edits that stand
apart can be made in any order. -/
theorem edits_of_performAll {actions : List Action}
    (hfits : ∀ action ∈ actions, action.Fits source) {subject : Nat} {view : Snippet}
    (hview : (performAll source actions)[subject]? = some view) :
    (∀ start stop content,
      ((∃ edited, view.overwrite start stop content = .ok edited) ↔ view.Accepts start stop) ∧
      (view.Accepts start stop → ∃ edited, view.overwrite start stop content = .ok edited ∧
        edited = { view with edits := edited.edits } ∧
        ∀ edit, edit ∈ edited.edits ↔ edit = ⟨start, stop, content⟩ ∨ edit ∈ view.edits) ∧
      (¬ view.Accepts start stop →
        (overwrite subject start stop content).perform (performAll source actions) =
          performAll source actions)) ∧
    (∀ start stop, view.remove start stop = view.overwrite start stop [] ∧
      (remove subject start stop).perform (performAll source actions) =
        (overwrite subject start stop []).perform (performAll source actions)) ∧
    (∀ start stop, (view.snip start stop).start = start ∧ (view.snip start stop).stop = stop ∧
      ∀ edit, edit ∈ (view.snip start stop).edits ↔
        edit ∈ view.edits ∧ start ≤ edit.start ∧ edit.stop ≤ stop) ∧
    (∀ action : Action, action.changes ≠ some subject →
      (action.perform (performAll source actions))[subject]? = some view) ∧
    view.untrimmed = view.intro ++
      substitute view.edits (slice source view.start view.stop) view.start ++ view.outro ∧
    ∀ edits others : List Edit, edits.Perm others →
      edits.Pairwise Edit.Apart →
      (∀ edit ∈ edits, view.Accepts edit.start edit.stop) →
      (∀ edit ∈ edits, Boundary source edit.start ∧ Boundary source edit.stop) →
      ∃ edited, view.overwriteAll edits = .ok edited ∧ view.overwriteAll others = .ok edited := by
  have horderly := performAll_orderly hfits view (List.mem_of_getElem? hview)
  refine ⟨fun start stop content => ?_, fun start stop => ⟨view.remove_eq_overwrite start stop, ?_⟩,
    fun start stop => ?_, fun action hother => ?_, horderly.untrimmed_eq,
    fun edits others hperm hapart haccepts hboundaries => ?_⟩
  · have hiff := horderly.overwrite_eq_ok_iff start stop content
    refine ⟨⟨fun ⟨edited, hedited⟩ => ((hiff edited).mp hedited).1,
      fun haccepts => ⟨_, (hiff _).mpr ⟨haccepts, rfl⟩⟩⟩, fun haccepts => ?_, fun hrefused => ?_⟩
    · refine ⟨_, (hiff _).mpr ⟨haccepts, rfl⟩, rfl, fun edit => ?_⟩
      exact mem_insertEdit (haccepts.start_ne horderly.nonempty) edit
    · show changing _ _ _ = _
      unfold changing
      rw [hview]
      dsimp only
      split
      · rename_i edited hedited
        exact absurd ((hiff edited).mp hedited).1 hrefused
      · rfl
  · simp only [perform, Snippet.remove_eq_overwrite]
  · exact ⟨rfl, rfl, horderly.mem_edits_snip start stop⟩
  · rw [getElem?_perform action hother (List.getElem?_eq_some_iff.mp hview).1, hview]
  · obtain ⟨edited, hedited, -, hothers⟩ :=
      horderly.overwriteAll_perm hperm hapart haccepts hboundaries
    exact ⟨edited, hedited, hothers⟩

/-- A text with a character of two bytes. -/
def accentedText : List Char :=
  "aéz+b".toList

/-- One of these actions is refused.  The cut is edited after it has been made, and so is the
whole. -/
def accentedActions : List Action :=
  [.overwrite 0 1 3 ['e'], .remove 0 0 4, .snip 0 1 6, .overwrite 1 4 5 ['-', '-'], .remove 0 5 6]

/-- The cut after these actions. -/
def accentedCut : Snippet where
  source := accentedText
  start := 1
  stop := 6
  edits := [⟨1, 3, ['e']⟩, ⟨4, 5, ['-', '-']⟩]
  intro := []
  outro := []
  trimmed := false

theorem edits_of_accentedActions :
    (∀ action ∈ accentedActions, action.Fits accentedText) ∧
    (performAll accentedText accentedActions)[1]? = some accentedCut ∧
    (∃ edited, accentedCut.overwrite 3 4 ['y'] = .ok edited) ∧
    (¬ ∃ edited, accentedCut.overwrite 0 3 ['y'] = .ok edited) ∧
    accentedCut.untrimmed = substitute accentedCut.edits (slice accentedText 1 6) 1 ∧
    substitute accentedCut.edits (slice accentedText 1 6) 1 = "ez--b".toList := by
  have hfits : ∀ action ∈ accentedActions, action.Fits accentedText := by decide +kernel
  have hcut : (performAll accentedText accentedActions)[1]? = some accentedCut := by
    decide +kernel
  obtain ⟨hedits, -, -, -, htext, -⟩ := edits_of_performAll hfits hcut
  refine ⟨hfits, hcut, (hedits 3 4 ['y']).1.mpr (by decide), fun hedited => ?_, ?_,
    by decide +kernel⟩
  · exact absurd ((hedits 0 3 ['y']).1.mp hedited) (by decide)
  · simpa [accentedCut] using htext

end Action

end Text
end ScriptBundler

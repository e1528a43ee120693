import ScriptBundler.Proofs.Script.Retracing

/-!
# Notes about a passage

Besides faults the parser notes where object literals spell patterns, where a comma follows a last
spread, and where a function has been suspended.  The second parser notes nothing about a passage
that the first one has not noted, so whatever the first one is not stopped by does not stop the
second one.
-/

namespace ScriptBundler
namespace Script
namespace Parser

open Mark Std.Do

set_option mvcgen.warning false

/-- The extent of an expression is moved along, unless it has none. -/
theorem span_relocate (move : Nat → Nat) : ∀ value : Expr,
    (value.relocate move).span = value.span.relocate move ∨
      value.span = default ∧ (value.relocate move).span = default
  | .hole => Or.inr ⟨rfl, rfl⟩
  | .spread value => span_relocate move value
  | .function _ (.block _ _ _) | .function _ (.value _ _ _) | .arrow (.block _ _ _)
  | .arrow (.value _ _ _) | .ident _ | .atom _ | .paren _ _ | .array _ _ | .object _ _
  | .classExpr _ _ _ _ | .member _ _ _ | .call _ _ _ | .new _ _ _ | .chainMember _ _ _
  | .chainCall _ _ _ | .update _ _ _ | .assign _ _ _ _ | .compound _ _ _ => Or.inl rfl

variable {p : Passage} {pre : Mode} {k : Nat} {places newPlaces : List Nat}

namespace Passage

/-! ## Places -/

theorem carries_cons {place : Nat} (hstart : p.start ≤ place) (hstop : place < p.stop)
    (hcarries : p.Carries places newPlaces) :
    p.Carries (place :: places) (p.relocate place :: newPlaces) := by
  intro newPlace hnew
  rcases List.mem_cons.mp hnew with rfl | hnew
  · exact Or.inr ⟨place, List.mem_cons_self, hstart, hstop, rfl⟩
  · refine (hcarries newPlace hnew).imp_right ?_
    rintro ⟨old, hold, hinside⟩
    exact ⟨old, List.mem_cons_of_mem place hold, hinside⟩

/-- Places are left out for the second parser only if they are for the first one. -/
theorem carries_filter {keeps keeps' : Nat → Bool}
    (hkeeps : ∀ place, p.start ≤ place → keeps' (p.relocate place) = true → keeps place = true)
    (hcarries : p.Carries places newPlaces) :
    p.Carries (places.filter keeps) (newPlaces.filter keeps') := by
  intro newPlace hnew
  obtain ⟨hmem, hkept⟩ := List.mem_filter.mp hnew
  refine (hcarries newPlace hmem).imp_right ?_
  rintro ⟨place, hplace, hstart, hstop, rfl⟩
  exact ⟨place, List.mem_filter.mpr ⟨hplace, hkeeps place hstart hkept⟩, hstart, hstop, rfl⟩

/-- A place from the start of the text on that the second parser has noted is one of the first. -/
theorem carries_of_le {start newPlace : Nat} (hcarries : p.Carries places newPlaces)
    (hnew : newPlace ∈ newPlaces) (hstart : p.start ≤ start) (hle : p.relocate start ≤ newPlace) :
    ∃ place ∈ places, start ≤ place ∧ newPlace = p.relocate place := by
  rcases hcarries newPlace hnew with hbefore | ⟨place, hplace, hinside, -, rfl⟩
  · have := newStart_le (p := p) start
    omega
  · exact ⟨place, hplace, (le_relocate_iff hstart place).mp hle, rfl⟩

/-- A place is outside an expression if it is so where the expression has been moved to. -/
theorem outside_relocate (value : Expr) {place : Nat} (hplace : p.start ≤ place)
    (houtside : p.relocate place < (value.relocate p.relocate).span.start ∨
      (value.relocate p.relocate).span.stop ≤ p.relocate place) :
    place < value.span.start ∨ value.span.stop ≤ place := by
  rcases span_relocate p.relocate value with hspan | ⟨hspan, -⟩
  · rw [hspan] at houtside
    refine houtside.imp (fun h => ?_) (relocate_le_iff hplace _).mp
    exact lt_of_not_ge fun hle => (not_le_of_gt h) ((relocate_le_iff hplace _).mpr hle)
  · rw [hspan]
    exact Or.inr (Nat.zero_le place)

/-! ## Patterns that have been literals -/

theorem notesFewer_of_carries {commas newCommas : List (Nat × Nat)}
    (hcarries : p.Carries (commas.map (·.1)) (newCommas.map (·.1))) :
    NotesFewer p.relocate commas newCommas := by
  intro place hnone
  by_contra hsome
  obtain ⟨comma, hcomma⟩ := Option.ne_none_iff_exists'.mp hsome
  obtain ⟨earlier, later, rfl, -⟩ := List.lookup_eq_some_iff.mp hcomma
  rcases hcarries (p.relocate place) (by simp) with hbefore | ⟨old, hold, hstart, -, hsame⟩
  · have := newStart_le (p := p) place
    omega
  · obtain rfl := (relocate_inj hstart).mp hsame
    obtain ⟨entry, hentry, rfl⟩ := List.mem_map.mp hold
    simpa using List.lookup_eq_none_iff.mp hnone entry hentry

theorem asPattern_retraces (role : Role) (value : Expr) :
    p.Retraces pre k (fun _ => pre) k (asPattern role value)
      (asPattern role (value.relocate p.relocate)) (Pattern.relocate p.relocate) := by
  refine .of_remarks (fun s => asPattern_remarks s role value) ?_
  intro setting s s' hbudget habreast
  have hfewer := notesFewer_of_carries habreast.alike.commas
  refine .get_bind (Retraces.follows ?_ _ _ _ hbudget habreast)
  refine .bind (check_retraces fun _ => reinterpret_relocate hfewer role) fun pattern => ?_
  refine .bind (.modify (fun _ => rfl) (fun _ => ⟨rfl, rfl⟩) ?_) fun _ => .pure rfl le_rfl
  intro s s' halike
  refine { halike with pending := carries_filter (fun place hplace hkept => ?_) halike.pending }
  simp only [Bool.or_eq_true, decide_eq_true_eq] at hkept ⊢
  exact outside_relocate value hplace hkept

theorem asParameters_retraces (items : List Expr) (comma : Option Nat) :
    p.Retraces pre k (fun _ => pre) k (asParameters items comma)
      (asParameters (items.map (Expr.relocate p.relocate)) (comma.map p.relocate))
      (List.map (Pattern.relocate p.relocate)) := by
  refine .of_remarks (fun s => asParameters_remarks s items comma) ?_
  intro setting s s' hbudget habreast
  have hrest : p.FollowsAt setting s s' (fun _ => pre) k
      (do
        let patterns ← check (reinterpretElements (← get).commas .binding items)
        modify fun state =>
          { state with
            pending := state.pending.filter fun at_ =>
              items.all fun item => at_ < item.span.start || item.span.stop ≤ at_ }
        pure patterns)
      (do
        let patterns ← check (reinterpretElements (← get).commas .binding
          (items.map (Expr.relocate p.relocate)))
        modify fun state =>
          { state with
            pending := state.pending.filter fun at_ =>
              (items.map (Expr.relocate p.relocate)).all fun item =>
                at_ < item.span.start || item.span.stop ≤ at_ }
        pure patterns) (List.map (Pattern.relocate p.relocate)) := by
    have hfewer := notesFewer_of_carries habreast.alike.commas
    have hmoved : ∀ patterns, reinterpretElements s.commas .binding items = .ok patterns →
        reinterpretElements s'.commas .binding (items.map (Expr.relocate p.relocate)) =
          .ok (patterns.map (Pattern.relocate p.relocate)) := by
      intro patterns hpatterns
      rw [← Expr.relocateAll_eq_map, ← Pattern.relocateAll_eq_map]
      exact reinterpretElements_relocate hfewer .binding hpatterns
    refine .get_bind (Retraces.follows ?_ _ _ _ hbudget habreast)
    refine .bind (check_retraces hmoved) fun patterns => ?_
    refine .bind (.modify (fun _ => rfl) (fun _ => ⟨rfl, rfl⟩) ?_) fun _ => .pure rfl le_rfl
    intro s s' halike
    refine { halike with pending := carries_filter (fun place hplace hkept => ?_) halike.pending }
    simp only [List.all_eq_true, List.forall_mem_map, Bool.or_eq_true, decide_eq_true_eq] at hkept ⊢
    exact fun item hitem => outside_relocate item hplace (hkept item hitem)
  unfold asParameters
  rw [List.getLast?_map]
  rcases items.getLast? with _ | last
  · exact hrest
  · cases last with
    | spread value =>
        rcases comma with _ | comma
        · exact hrest
        · exact (refuse_bind _).follows _ _ _ hbudget habreast
    | _ => exact hrest

/-! ## Suspensions -/

/-- What is not refused has not been suspended since the start. -/
theorem refuseSuspension_keeps (s : State) (start : Nat) :
    ⦃fun _ state => ⌜state = s⌝⦄ refuseSuspension start
    ⦃⇓? _ _ state => ⌜state = s ∧ ∀ place ∈ s.suspension, place < start⌝⦄ := by
  mvcgen [refuseSuspension, -refuseSuspension_reads] <;> grind -ring -linarith

theorem run_refuseSuspension {start : Nat} {setting : Setting} {s : State}
    (hkept : ∀ place ∈ s.suspension, place < start) :
    refuseSuspension start setting s = .ok ((), s) := by
  have hget : (get : Parser State) setting s = .ok (s, s) := rfl
  rw [refuseSuspension, run_bind hget]
  cases hfound : s.suspension with
  | none => rfl
  | some place =>
      dsimp only
      rw [if_neg (Nat.not_le_of_lt (hkept place hfound))]
      rfl

theorem refuseSuspension_retraces {start : Nat} (hstart : p.start ≤ start) :
    p.Retraces pre k (fun _ => pre) k (refuseSuspension start) (refuseSuspension (p.relocate start))
      id := by
  refine .of_remarks (fun s => triple_of fun holds hholds => ?_) ?_
  · mvcgen
    grind -ring -linarith
  intro setting s s' hbudget habreast value t hrun
  obtain ⟨rfl, hkept⟩ := of_triple (refuseSuspension_keeps s start) hrun
  refine Or.inr ⟨s', run_refuseSuspension fun newPlace hnew => lt_of_not_ge fun hle => ?_, habreast⟩
  obtain ⟨place, hplace, hle, -⟩ :=
    carries_of_le habreast.alike.suspension (Option.mem_toList.mpr hnew) hstart hle
  exact absurd (hkept place (Option.mem_toList.mp hplace)) (Nat.not_lt_of_le hle)

theorem checkSimpleTarget_retraces (value : Expr) :
    p.Retraces pre k (fun _ => pre) k (checkSimpleTarget value)
      (checkSimpleTarget (value.relocate p.relocate)) id := by
  unfold checkSimpleTarget
  rw [isSimpleTarget_relocate]
  exact .ite (fun _ => complain_retraces _ _) fun _ => .pure rfl le_rfl

/-! ## Literals that have to spell patterns -/

theorem settlePending_retraces {start : Nat} (hstart : p.start ≤ start) :
    p.Retraces pre k (fun _ => pre) k (settlePending start)
      (settlePending (p.relocate start)) id := by
  refine .of_remarks (fun s => settlePending_notes s start) ?_
  intro setting s s' hbudget habreast
  refine .get_bind (Retraces.follows ?_ _ _ _ hbudget habreast)
  have hpending := habreast.alike.pending
  rw [List.partition_eq_filter_filter, List.partition_eq_filter_filter]
  dsimp only
  refine .bind (.modify (fun _ => rfl) (fun _ => ⟨rfl, rfl⟩) fun s s' halike => ?_) fun _ => ?_
  · refine { halike with pending := carries_filter (fun place hplace hkept => ?_) hpending }
    simp only [Function.comp_apply, Bool.not_eq_true', decide_eq_false_iff_not] at hkept ⊢
    exact fun hle => hkept ((relocate_le_iff hplace _).mpr hle)
  -- what the first parser has noted since the start decides whether it notes a fault now
  rcases hown : (s.pending.filter (start ≤ ·)).reverse with _ | ⟨place, more⟩
  · have hnone : s'.pending.filter (p.relocate start ≤ ·) = [] := by
      rw [List.filter_eq_nil_iff]
      intro newPlace hnew hle
      obtain ⟨place, hplace, hle, -⟩ := carries_of_le hpending hnew hstart (of_decide_eq_true hle)
      have hmem : place ∈ s.pending.filter (start ≤ ·) :=
        List.mem_filter.mpr ⟨hplace, decide_eq_true hle⟩
      rw [List.reverse_eq_nil_iff.mp hown] at hmem
      contradiction
    rw [hnone]
    exact .pure rfl le_rfl
  · have hmore : p.Retraces pre k (fun _ => pre) k (more.forM complain)
        ((more.map p.relocate).forM complain) id :=
      forM_retraces (fun place => complain_retraces place (p.relocate place)) more
    exact hmore.of_complains (Or.inr ⟨place, rfl⟩)

end Passage

end Parser
end Script
end ScriptBundler

import Mathlib.Data.List.Dedup
import Mathlib.Data.Nat.Find
import ScriptBundler.Proofs.Graph.Replacements

/-!
# Crowded names

Which names the resolution of conflicts makes up, by the claims alone.  A claim that is renamed
moves on from its name to the first name with more `_` in front that is free, so that the claims to
a name and to those with more `_` overflow into the ones after them.  A name that nothing claims is
made up exactly if some stretch of names right before it has more claims than names.

In which order the conflicts are resolved does not matter for this.
-/

namespace ScriptBundler

/-! ## Names with `_` in front -/

theorem underscored_zero (name : String) : underscored 0 name = name := by
  simp [underscored]

theorem underscored_add (count more : Nat) (name : String) :
    underscored (count + more) name = underscored count (underscored more name) := by
  rw [← String.toList_inj]
  simp only [toList_underscored, List.replicate_add, List.append_assoc]

theorem underscored_right_injective {count : Nat} {first second : String}
    (heq : underscored count first = underscored count second) : first = second := by
  rw [← String.toList_inj, toList_underscored, toList_underscored] at heq
  exact String.toList_inj.mp (List.append_cancel_left heq)

/-- A name is not shorter than the `_` in front of it. -/
theorem le_length_of_eq_underscored {count : Nat} {name base : String}
    (heq : name = underscored count base) : count ≤ name.length := by
  have hlength := congrArg (fun text : String => text.toList.length) heq
  simp only [toList_underscored, List.length_append, List.length_replicate,
    String.length_toList] at hlength
  omega

namespace Conflict

/-- The claims to a base name and to those names that have some `_` in front of it, fewer than a
count. -/
def claimsBelow (claims : List Claim) (count : Nat) (base : String) : List Claim :=
  claims.dedup.filter fun claim =>
    (List.range count).any fun fewer => claim.name == underscored fewer base

/-- Whether some names right before a name, which differ from it only by fewer `_` in front, have
more claims than there are of them. -/
def Crowded (claims : List Claim) (name : String) : Prop :=
  ∃ count base, name = underscored count base ∧ count < (claimsBelow claims count base).length

variable {claims : List Claim} {claim : Claim} {name base : String} {count : Nat}

theorem mem_claimsBelow :
    claim ∈ claimsBelow claims count base ↔
      claim ∈ claims ∧ ∃ fewer < count, claim.name = underscored fewer base := by
  simp [claimsBelow, List.mem_filter, List.mem_dedup]

/-- A claim is assigned its name with some `_` in front, and all names on the way there are assigned
to claims. -/
theorem exists_count_assigned (hclaim : claim ∈ claims) :
    ∃ count, assigned (ofClaims claims) claim = underscored count claim.name ∧
      ∀ fewer < count, ∃ other ∈ claims,
        assigned (ofClaims claims) other = underscored fewer claim.name := by
  by_cases hkept : assigned (ofClaims claims) claim = claim.name
  · exact ⟨0, hkept.trans (underscored_zero _).symm, fun _ h => absurd h (Nat.not_lt_zero _)⟩
  · obtain ⟨-, count, heq, hfewer⟩ := firstFree_assigned hclaim hkept
    refine ⟨count + 1, heq, fun fewer hless => ?_⟩
    cases fewer with
    | zero =>
        obtain ⟨keeper, hkeeper, -, hassigned⟩ := exists_assigned_eq_name hclaim
        exact ⟨keeper, hkeeper, hassigned.trans (underscored_zero _).symm⟩
    | succ fewer =>
        obtain ⟨other, hother, hassigned⟩ := List.mem_map.mp (hfewer fewer (by omega))
        exact ⟨other, hother, hassigned⟩

/-- The claims to some names are assigned as many different names. -/
theorem nodup_map_assigned_claimsBelow (claims : List Claim) (count : Nat) (base : String) :
    ((claimsBelow claims count base).map (assigned (ofClaims claims))).Nodup := by
  refine List.Nodup.map_on (fun first hfirst second hsecond heq => ?_)
    ((List.nodup_dedup claims).filter _)
  exact assigned_injective (mem_claimsBelow.mp hfirst).1 (mem_claimsBelow.mp hsecond).1 heq

/-- A crowded name is assigned: if it were free, then more claims would share the names before it
than there are such names. -/
theorem exists_assigned_of_crowded (hcrowded : Crowded claims name) :
    ∃ claim ∈ claims, assigned (ofClaims claims) claim = name := by
  obtain ⟨count, base, rfl, hmore⟩ := hcrowded
  by_contra hfree
  have hbelow : (claimsBelow claims count base).map (assigned (ofClaims claims)) ⊆
      (List.range count).map fun fewer => underscored fewer base := by
    intro final hfinal
    obtain ⟨claim, hclaim, rfl⟩ := List.mem_map.mp hfinal
    obtain ⟨hclaim, start, hstart, hname⟩ := mem_claimsBelow.mp hclaim
    obtain ⟨moved, hassigned, hway⟩ := exists_count_assigned hclaim
    rw [hname, ← underscored_add] at hassigned
    have hshort : moved + start < count := by
      -- to get as far as the name, the claim would have come upon it
      by_contra hfar
      rcases Nat.lt_or_ge (count - start) moved with hpast | hhere
      · obtain ⟨other, hother, hthere⟩ := hway (count - start) hpast
        rw [hname, ← underscored_add, show count - start + start = count by omega] at hthere
        exact hfree ⟨other, hother, hthere⟩
      · rw [show moved + start = count by omega] at hassigned
        exact hfree ⟨claim, hclaim, hassigned⟩
    exact List.mem_map.mpr ⟨moved + start, List.mem_range.mpr hshort, hassigned.symm⟩
  have hlength := ((nodup_map_assigned_claimsBelow claims count base).subperm hbelow).length_le
  rw [List.length_map, List.length_map, List.length_range] at hlength
  omega

/-- Whether all names right before a name, from a base name on, are assigned to claims. -/
def Blocked (claims : List Claim) (name : String) (count : Nat) : Prop :=
  ∃ base, name = underscored count base ∧ ∀ fewer < count, ∃ claim ∈ claims,
    assigned (ofClaims claims) claim = underscored fewer base

/-- Of the assigned names right before a name, there is a longest row. -/
theorem exists_longest_blocked (hblocked : Blocked claims name count) :
    ∃ longest ≥ count, Blocked claims name longest ∧ ¬ Blocked claims name (longest + 1) := by
  classical
  have hbound : ∀ count, Blocked claims name count → count ≤ name.length := by
    rintro count ⟨base, heq, -⟩
    exact le_length_of_eq_underscored heq
  refine ⟨Nat.findGreatest (Blocked claims name) name.length,
    Nat.le_findGreatest (hbound count hblocked) hblocked,
    Nat.findGreatest_spec (hbound count hblocked) hblocked, fun hlonger => ?_⟩
  have hle := Nat.le_findGreatest (hbound _ hlonger) hlonger
  omega

/-- A claim that starts before a row of assigned names makes the row longer. -/
theorem blocked_succ {position moved : Nat} {start : String}
    (hrow : ∀ fewer < count, ∃ claim ∈ claims,
      assigned (ofClaims claims) claim = underscored fewer base)
    (hway : ∀ fewer < moved, ∃ claim ∈ claims,
      assigned (ofClaims claims) claim = underscored fewer start)
    (hpast : position < moved) (hsame : underscored moved start = underscored position base) :
    Blocked claims (underscored count base) (count + 1) := by
  -- the name right before the base is on the way of the claim
  have hbase : base = underscored 1 (underscored (moved - position - 1) start) := by
    refine underscored_right_injective (hsame.symm.trans ?_)
    rw [← underscored_add, ← underscored_add,
      show position + 1 + (moved - position - 1) = moved by omega]
  refine ⟨underscored (moved - position - 1) start, ?_, fun fewer hfewer => ?_⟩
  · rw [underscored_add, ← hbase]
  · cases fewer with
    | zero =>
        rw [underscored_zero]
        exact hway (moved - position - 1) (by omega)
    | succ fewer =>
        rw [underscored_add, ← hbase]
        exact hrow fewer (by omega)

/-- A name that nothing claims is crowded if it is assigned: the claims that are assigned the
longest row of names up to it all start within that row. -/
theorem crowded_of_assigned (hunclaimed : ∀ other ∈ claims, other.name ≠ name)
    (hclaim : claim ∈ claims) (hassigned : assigned (ofClaims claims) claim = name) :
    Crowded claims name := by
  obtain ⟨moved, heq, hway⟩ := exists_count_assigned hclaim
  have hblocked : Blocked claims name moved := ⟨claim.name, hassigned.symm.trans heq, hway⟩
  obtain ⟨count, -, ⟨base, rfl, hrow⟩, hlongest⟩ := exists_longest_blocked hblocked
  refine ⟨count, base, rfl, ?_⟩
  have hall : ∀ position ≤ count, ∃ other ∈ claims,
      assigned (ofClaims claims) other = underscored position base := by
    intro position hposition
    rcases Nat.lt_or_eq_of_le hposition with hless | rfl
    · exact hrow position hless
    · exact ⟨claim, hclaim, hassigned⟩
  have hbelow : ((List.range (count + 1)).map fun position => underscored position base) ⊆
      (claimsBelow claims count base).map (assigned (ofClaims claims)) := by
    intro final hfinal
    obtain ⟨position, hposition, rfl⟩ := List.mem_map.mp hfinal
    have hposition : position ≤ count := Nat.lt_succ_iff.mp (List.mem_range.mp hposition)
    obtain ⟨other, hother, hthere⟩ := hall position hposition
    obtain ⟨moved, hmoved, hway⟩ := exists_count_assigned hother
    refine List.mem_map.mpr ⟨other, mem_claimsBelow.mpr ⟨hother, ?_⟩, hthere⟩
    have hsame := hmoved.symm.trans hthere
    rcases Nat.lt_or_ge position moved with hpast | hwithin
    · exact absurd (blocked_succ hrow hway hpast hsame) hlongest
    · have hname : other.name = underscored (position - moved) base := by
        refine underscored_right_injective (hsame.trans ?_)
        rw [← underscored_add, show moved + (position - moved) = position by omega]
      refine ⟨position - moved, ?_, hname⟩
      have hne : position - moved ≠ count := fun heq => hunclaimed other hother (heq ▸ hname)
      omega
  have hnodup : ((List.range (count + 1)).map fun position => underscored position base).Nodup :=
    List.Nodup.map_on (fun first _ second _ heq => underscored_injective heq) List.nodup_range
  have hlength := (hnodup.subperm hbelow).length_le
  rw [List.length_map, List.length_map, List.length_range] at hlength
  omega

/-- Which names are assigned: those that are claimed, and those that are crowded. -/
theorem exists_assigned_eq_iff :
    (∃ claim ∈ claims, assigned (ofClaims claims) claim = name) ↔
      (∃ claim ∈ claims, claim.name = name) ∨ Crowded claims name := by
  constructor
  · rintro ⟨claim, hclaim, hassigned⟩
    by_cases hclaimed : ∃ other ∈ claims, other.name = name
    · exact Or.inl hclaimed
    · have hunclaimed : ∀ other ∈ claims, other.name ≠ name := fun other hother heq =>
        hclaimed ⟨other, hother, heq⟩
      exact Or.inr (crowded_of_assigned hunclaimed hclaim hassigned)
  · rintro (⟨claim, hclaim, rfl⟩ | hcrowded)
    · obtain ⟨keeper, hkeeper, -, hassigned⟩ := exists_assigned_eq_name hclaim
      exact ⟨keeper, hkeeper, hassigned⟩
    · exact exists_assigned_of_crowded hcrowded

end Conflict

end ScriptBundler

import Mathlib.Data.List.Induction
import Mathlib.Data.List.Nodup
import Mathlib.Data.List.Perm.Subperm
import ScriptBundler.Graph.Conflicts
import ScriptBundler.Proofs.Tables

/-!
# Resolving conflicts

What resolving the conflicts among claims comes down to: every claim is assigned a name, and
different claims are assigned different names.

A replacement is looked for only among the names that differ from the claimed one in `_` at most.
That is enough: a name with more `_` in front can equal no other.
-/

namespace ScriptBundler

variable {taken : List String} {name : String}

/-! ## Fresh names -/

theorem toList_underscored (count : Nat) (name : String) :
    (underscored count name).toList = List.replicate count '_' ++ name.toList := by
  simp [underscored]

theorem bareName_underscored (count : Nat) (name : String) :
    bareName (underscored count name) = bareName name := by
  unfold bareName
  rw [toList_underscored]
  induction count with
  | zero => rfl
  | succ count ih =>
      rw [List.replicate_succ, List.cons_append, List.dropWhile_cons_of_pos (by simp)]
      exact ih

theorem underscored_injective {first second : Nat}
    (heq : underscored first name = underscored second name) : first = second := by
  have hlength := congrArg (fun text : String => text.toList.length) heq
  simp only [toList_underscored, List.length_append, List.length_replicate] at hlength
  omega

theorem mem_rivalsOf {other : String} :
    other ∈ rivalsOf name taken ↔ other ∈ taken ∧ bareName other = bareName name := by
  simp [rivalsOf, List.mem_filter]

/-- The candidates for a replacement outnumber the names that are taken. -/
theorem exists_candidate (taken : List String) (name : String) :
    ∃ count ≤ taken.length, underscored (count + 1) name ∉ taken := by
  by_contra hnone
  have hall : ∀ count ≤ taken.length, underscored (count + 1) name ∈ taken := by
    intro count hcount
    by_contra habsent
    exact hnone ⟨count, hcount, habsent⟩
  -- so many different names would be more than all that are taken
  have hnodup : ((List.range (taken.length + 1)).map fun count =>
      underscored (count + 1) name).Nodup := by
    refine List.Nodup.map_on (fun first _ second _ heq => ?_) List.nodup_range
    have hcount := underscored_injective heq
    omega
  have hsubset : ((List.range (taken.length + 1)).map fun count =>
      underscored (count + 1) name) ⊆ taken := by
    intro candidate hcandidate
    obtain ⟨count, hcount, rfl⟩ := List.mem_map.mp hcandidate
    exact hall count (by simpa [Nat.lt_succ_iff] using hcount)
  have hlength := (hnodup.subperm hsubset).length_le
  rw [List.length_map, List.length_range] at hlength
  omega

/-- The fresh name for a name has the fewest `_` in front of it that are not taken. -/
theorem freshName_eq (taken : List String) (name : String) :
    ∃ count, freshName taken name = underscored (count + 1) name ∧
      freshName taken name ∉ taken ∧ ∀ fewer < count, underscored (fewer + 1) name ∈ taken := by
  obtain ⟨count, hcount, habsent⟩ := exists_candidate taken name
  have hfind : (List.range (taken.length + 1)).find?
      (fun count => !taken.contains (underscored (count + 1) name)) ≠ none := by
    intro hnone
    have hcontains := List.find?_eq_none.mp hnone count (List.mem_range.mpr (by omega))
    exact habsent (by simpa using hcontains)
  obtain ⟨found, hfound⟩ := Option.ne_none_iff_exists'.mp hfind
  obtain ⟨hfree, -, hfewer⟩ := List.find?_range_eq_some.mp hfound
  have hfresh : freshName taken name = underscored (found + 1) name := by
    have hcandidate : ((List.range (taken.length + 1)).map fun count =>
        underscored (count + 1) name).find? (fun candidate => !taken.contains candidate) =
          some (underscored (found + 1) name) := by
      rw [List.find?_map]
      exact Option.map_eq_some_iff.mpr ⟨found, hfound, rfl⟩
    unfold freshName
    dsimp only
    rw [hcandidate]
    rfl
  refine ⟨found, hfresh, ?_, fun fewer hless => ?_⟩
  · rw [hfresh]
    simpa using hfree
  · simpa using hfewer fewer hless

theorem freshName_not_mem (taken : List String) (name : String) : freshName taken name ∉ taken := by
  obtain ⟨_, -, hfresh, -⟩ := freshName_eq taken name
  exact hfresh

theorem bareName_freshName (taken : List String) (name : String) :
    bareName (freshName taken name) = bareName name := by
  obtain ⟨count, hfresh, -, -⟩ := freshName_eq taken name
  rw [hfresh, bareName_underscored]

namespace Conflict

/-! ## Replacements -/

/-- The replacements that conflicts make: the name, its owner, and what the owner gets instead. -/
def renamings (conflicts : List Conflict) : List (Claim × String) :=
  conflicts.flatMap fun conflict =>
    conflict.renamed.map fun entry => (⟨conflict.name, entry.1⟩, entry.2)

theorem map_fst_replace (name : String) (owners : List Owner) (taken : List String) :
    (replace name owners taken).map (·.1) = owners := by
  induction owners generalizing taken with
  | nil => rfl
  | cons first rest ih => rw [replace, List.map_cons, ih]

/-- The replacements of one name are different from each other and from all rivals. -/
theorem map_snd_replace (name : String) (owners : List Owner) (taken : List String) :
    ((replace name owners taken).map (·.2)).Nodup ∧
      ∀ replacement ∈ (replace name owners taken).map (·.2),
        replacement ∉ taken ∧ bareName replacement = bareName name := by
  induction owners generalizing taken with
  | nil => exact ⟨List.nodup_nil, by simp [replace]⟩
  | cons first rest ih =>
      obtain ⟨hnodup, hrest⟩ := ih (taken ++ [freshName taken name])
      rw [replace, List.map_cons, List.nodup_cons]
      refine ⟨⟨fun hmem => ?_, hnodup⟩, fun replacement hmem => ?_⟩
      · exact (hrest _ hmem).1 (List.mem_append_right _ (List.mem_singleton.mpr rfl))
      · rcases List.mem_cons.mp hmem with rfl | hmem
        · exact ⟨freshName_not_mem taken name, bareName_freshName taken name⟩
        · obtain ⟨habsent, hbare⟩ := hrest _ hmem
          exact ⟨fun h => habsent (List.mem_append_left _ h), hbare⟩

/-- No two replacements are the same, and none is taken. -/
theorem map_snd_renamings_resolve (table : Table (List Owner)) (taken : List String) :
    ((renamings (resolve table taken)).map (·.2)).Nodup ∧
      ∀ replacement ∈ (renamings (resolve table taken)).map (·.2), replacement ∉ taken := by
  induction table generalizing taken with
  | nil => exact ⟨List.nodup_nil, by simp [resolve, renamings]⟩
  | cons entry rest ih =>
      obtain ⟨name, owners⟩ := entry
      rw [resolve]
      split
      · rename_i keeper first others hkeeper hothers
        obtain ⟨hnodup, hfree⟩ := map_snd_replace name (first :: others) (rivalsOf name taken)
        generalize replace name (first :: others) (rivalsOf name taken) = renamed at hnodup hfree ⊢
        -- later conflicts take the replacements made here into account
        obtain ⟨hrest, habsent⟩ := ih (taken ++ renamed.map (·.2))
        have hfree' : ∀ replacement ∈ renamed.map (·.2), replacement ∉ taken := by
          intro replacement hmem htaken
          -- a taken name could only be the replacement if it were a rival
          obtain ⟨hrival, hbare⟩ := hfree replacement hmem
          exact hrival (mem_rivalsOf.mpr ⟨htaken, hbare⟩)
        have hmap : (renamings (⟨name, keeper, renamed⟩ ::
            resolve rest (taken ++ renamed.map (·.2)))).map (·.2) =
              renamed.map (·.2) ++
                (renamings (resolve rest (taken ++ renamed.map (·.2)))).map (·.2) := by
          simp [renamings]
        rw [hmap, List.nodup_append']
        refine ⟨⟨hnodup, hrest, fun replacement hfirst hlater => ?_⟩, fun replacement hmem => ?_⟩
        · exact habsent replacement hlater (List.mem_append_right _ hfirst)
        · rcases List.mem_append.mp hmem with hfirst | hlater
          · exact hfree' replacement hfirst
          · exact fun htaken => habsent replacement hlater (List.mem_append_left _ htaken)
      · exact ih taken

/-- All owners of a name but the last one are renamed. -/
theorem map_fst_renamings_resolve (table : Table (List Owner)) (taken : List String) :
    (renamings (resolve table taken)).map (·.1) =
      table.flatMap fun entry => entry.2.dropLast.map (⟨entry.1, ·⟩) := by
  induction table generalizing taken with
  | nil => rfl
  | cons entry rest ih =>
      obtain ⟨name, owners⟩ := entry
      rw [resolve, List.flatMap_cons]
      split
      · rename_i keeper first others hkeeper hothers
        have hfst := map_fst_replace name (first :: others) (rivalsOf name taken)
        generalize replace name (first :: others) (rivalsOf name taken) = renamed at hfst ⊢
        rw [← ih (taken ++ renamed.map (·.2)), hothers, ← hfst]
        simp [renamings]
      -- a name with one owner has nothing to rename
      · rename_i hnone
        have hempty : owners.dropLast = [] := by
          cases hdrop : owners.dropLast with
          | nil => rfl
          | cons first others =>
              have hne : owners ≠ [] := by
                rintro rfl
                contradiction
              exact absurd hdrop (hnone _ first others (List.getLast?_eq_some_getLast hne))
        rw [ih, hempty]
        rfl

/-! ## Owners -/

/-- The owners of a name, in the order of their claims. -/
def ownersOf (claims : List Claim) (name : String) : List Owner :=
  ((owners claims).get? name).getD []

theorem ownersOf_concat (claims : List Claim) (claim : Claim) (name : String) :
    ownersOf (claims ++ [claim]) name =
      if claim.name = name ∧ claim.owner ∉ ownersOf claims name then
        ownersOf claims name ++ [claim.owner]
      else ownersOf claims name := by
  unfold ownersOf owners
  rw [List.foldl_append, List.foldl_cons, List.foldl_nil]
  generalize claims.foldl _ [] = table
  dsimp only
  by_cases hname : claim.name = name
  · subst hname
    by_cases hknown : claim.owner ∈ (Table.get? table claim.name).getD []
    · have hsame : ¬ (claim.name = claim.name ∧
          claim.owner ∉ (Table.get? table claim.name).getD []) := fun h => h.2 hknown
      rw [if_pos (List.contains_iff_mem.mpr hknown), if_neg hsame]
    · rw [if_neg (mt List.contains_iff_mem.mp hknown), if_pos ⟨rfl, hknown⟩, Table.get?_set_self]
      rfl
  · have hsame : ¬ (claim.name = name ∧ claim.owner ∉ (Table.get? table name).getD []) :=
      fun h => hname h.1
    rw [if_neg hsame]
    split
    · rfl
    · rw [Table.get?_set, if_neg hname]

theorem mem_ownersOf {claims : List Claim} {name : String} {owner : Owner} :
    owner ∈ ownersOf claims name ↔ ⟨name, owner⟩ ∈ claims := by
  induction claims using List.reverseRecOn with
  | nil => simp [ownersOf, owners]
  | append_singleton claims claim ih =>
      rw [ownersOf_concat, List.mem_append, List.mem_singleton]
      split
      · rename_i hnew
        obtain ⟨rfl, -⟩ := hnew
        rw [List.mem_append, List.mem_singleton, ih]
        refine or_congr_right ⟨fun h => by rw [h], fun h => congrArg Claim.owner h⟩
      · rename_i hold
        rw [ih]
        refine ⟨Or.inl, fun h => h.elim id fun h => ?_⟩
        subst h
        by_contra habsent
        exact hold ⟨rfl, fun hmem => habsent (ih.mp hmem)⟩

theorem nodup_ownersOf (claims : List Claim) (name : String) : (ownersOf claims name).Nodup := by
  induction claims using List.reverseRecOn with
  | nil => exact List.nodup_nil
  | append_singleton claims claim ih =>
      rw [ownersOf_concat]
      split
      · rename_i hnew
        rw [List.nodup_append']
        exact ⟨ih, List.nodup_singleton _, by simpa using hnew.2⟩
      · exact ih

theorem nodup_keys_owners (claims : List Claim) : ((owners claims).map (·.1)).Nodup := by
  induction claims using List.reverseRecOn with
  | nil => exact List.nodup_nil
  | append_singleton claims claim ih =>
      unfold owners at ih ⊢
      rw [List.foldl_append, List.foldl_cons, List.foldl_nil]
      generalize claims.foldl _ [] = table at ih ⊢
      dsimp only
      split
      · exact ih
      · rw [Table.map_fst_set]
        exact nodup_insertName ih _

/-- The table of owners lists the owners of each name. -/
theorem eq_ownersOf_of_mem {claims : List Claim} {name : String} {owners : List Owner} :
    (name, owners) ∈ Conflict.owners claims → owners = ownersOf claims name := by
  intro hmem
  rw [ownersOf, Table.get?_eq_some_of_mem (nodup_keys_owners claims) hmem]
  rfl

theorem mem_owners_of_mem {claims : List Claim} {claim : Claim} (hmem : claim ∈ claims) :
    (claim.name, ownersOf claims claim.name) ∈ Conflict.owners claims := by
  have howner : claim.owner ∈ ownersOf claims claim.name := mem_ownersOf.mpr hmem
  unfold ownersOf at howner ⊢
  cases hget : (Conflict.owners claims).get? claim.name with
  | none =>
      rw [hget] at howner
      contradiction
  | some owners => exact Table.mem_of_get? hget

/-! ## Assigned names -/

/-- The name that a claim is assigned in the end. -/
def assigned (conflicts : List Conflict) (claim : Claim) : String :=
  ((renamings conflicts).lookup claim).getD claim.name

/-- All claims to a name but the last one are renamed. -/
theorem mem_renamed_ofClaims {claims : List Claim} {claim : Claim} :
    claim ∈ (renamings (ofClaims claims)).map (·.1) ↔
      claim.owner ∈ (ownersOf claims claim.name).dropLast := by
  rw [ofClaims, map_fst_renamings_resolve, List.mem_flatMap]
  constructor
  · rintro ⟨⟨name, owners⟩, hmem, hclaim⟩
    obtain ⟨owner, howner, rfl⟩ := List.mem_map.mp hclaim
    rw [← eq_ownersOf_of_mem hmem]
    exact howner
  · intro howner
    have hclaim : claim ∈ claims := mem_ownersOf.mp (List.dropLast_subset _ howner)
    exact ⟨_, mem_owners_of_mem hclaim, List.mem_map.mpr ⟨claim.owner, howner, rfl⟩⟩

/-- No claim is renamed twice. -/
theorem nodup_renamed_ofClaims (claims : List Claim) :
    ((renamings (ofClaims claims)).map (·.1)).Nodup := by
  rw [ofClaims, map_fst_renamings_resolve, List.nodup_flatMap]
  constructor
  · rintro ⟨name, owners⟩ hmem
    refine List.Nodup.map (fun first second heq => congrArg Claim.owner heq) ?_
    dsimp only
    rw [eq_ownersOf_of_mem hmem]
    exact (nodup_ownersOf claims name).sublist (List.dropLast_sublist _)
  · refine (List.pairwise_map.mp (nodup_keys_owners claims)).imp ?_
    intro first second hne claim hfirst hsecond
    obtain ⟨_, -, rfl⟩ := List.mem_map.mp hfirst
    obtain ⟨_, -, heq⟩ := List.mem_map.mp hsecond
    exact hne (congrArg Claim.name heq).symm

/-- Only claims are renamed. -/
theorem mem_claims_of_mem_renamings {claims : List Claim} {entry : Claim × String}
    (hentry : entry ∈ renamings (ofClaims claims)) : entry.1 ∈ claims :=
  mem_ownersOf.mp (List.dropLast_subset _ (mem_renamed_ofClaims.mp (List.mem_map_of_mem hentry)))

/-- A claim that is not renamed keeps its name, and is the last one to it. -/
theorem assigned_cases {claims : List Claim} {claim : Claim} (hclaim : claim ∈ claims) :
    (assigned (ofClaims claims) claim = claim.name ∧
        (ownersOf claims claim.name).getLast? = some claim.owner ∧
        claim ∉ (renamings (ofClaims claims)).map (·.1)) ∨
      (claim, assigned (ofClaims claims) claim) ∈ renamings (ofClaims claims) := by
  unfold assigned
  cases hlookup : (renamings (ofClaims claims)).lookup claim with
  | some replacement =>
      obtain ⟨earlier, later, heq, -⟩ := List.lookup_eq_some_iff.mp hlookup
      refine Or.inr ?_
      rw [heq]
      exact List.mem_append_right _ List.mem_cons_self
  | none =>
      have habsent : claim ∉ (renamings (ofClaims claims)).map (·.1) := by
        intro hmem
        obtain ⟨entry, hentry, rfl⟩ := List.mem_map.mp hmem
        have hother := List.lookup_eq_none_iff.mp hlookup entry hentry
        simp at hother
      refine Or.inl ⟨rfl, ?_, habsent⟩
      have howner : claim.owner ∈ ownersOf claims claim.name := mem_ownersOf.mpr hclaim
      have hne : ownersOf claims claim.name ≠ [] := List.ne_nil_of_mem howner
      rw [← List.dropLast_append_getLast hne, List.mem_append, List.mem_singleton] at howner
      rw [List.getLast?_eq_some_getLast hne,
        howner.resolve_left (mt mem_renamed_ofClaims.mpr habsent)]

/-- Different claims are assigned different names. -/
theorem assigned_injective {claims : List Claim} {first second : Claim} (hfirst : first ∈ claims)
    (hsecond : second ∈ claims)
    (heq : assigned (ofClaims claims) first = assigned (ofClaims claims) second) :
    first = second := by
  obtain ⟨hnodup, hfree⟩ := map_snd_renamings_resolve (owners claims) ((owners claims).map (·.1))
  rw [← show ofClaims claims = resolve (owners claims) ((owners claims).map (·.1)) from rfl]
    at hnodup hfree
  -- a replacement is not the name of any claim
  have hother : ∀ claim replacement kept, (claim, replacement) ∈ renamings (ofClaims claims) →
      kept ∈ claims → replacement ≠ kept.name := by
    rintro claim replacement kept hrenamed hkept rfl
    refine hfree _ (List.mem_map.mpr ⟨_, hrenamed, rfl⟩) ?_
    exact List.mem_map.mpr ⟨_, mem_owners_of_mem hkept, rfl⟩
  rcases assigned_cases hfirst with ⟨hname, hlast, -⟩ | hrenamed <;>
    rcases assigned_cases hsecond with ⟨hname', hlast', -⟩ | hrenamed'
  -- two claims that keep their names: a name has only one last owner
  · obtain ⟨name, owner⟩ := first
    obtain ⟨name', owner'⟩ := second
    obtain rfl : name = name' := hname.symm.trans (heq.trans hname')
    obtain rfl : owner = owner' := Option.some.inj (hlast.symm.trans hlast')
    rfl
  · exact absurd (heq.symm.trans hname) (hother second _ first hrenamed' hfirst)
  · exact absurd (heq.trans hname') (hother first _ second hrenamed hsecond)
  -- two claims that are renamed: no replacement is made twice
  · rw [heq] at hrenamed
    exact congrArg Prod.fst (List.inj_on_of_nodup_map hnodup hrenamed hrenamed' rfl)

end Conflict

end ScriptBundler

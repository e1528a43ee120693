import ScriptBundler.Proofs.Graph.Conflicts

/-!
# Replacements

Which names the resolution of conflicts makes up.  A claim keeps its name exactly if its owner is
the last one of that name.  Every other claim gets the name with `_` in front, as few as were free:
each smaller number of them gives a name that some claim is assigned in the end.
-/

namespace ScriptBundler

/-- Whether a replacement is a name with `_` in front, where any smaller number of them gives one of
some other names. -/
def FirstFree (names : List String) (name replacement : String) : Prop :=
  ∃ count, replacement = underscored (count + 1) name ∧
    ∀ fewer < count, underscored (fewer + 1) name ∈ names

theorem FirstFree.mono {names more : List String} {name replacement : String}
    (hsub : ∀ other ∈ names, other ∈ more) (hfirst : FirstFree names name replacement) :
    FirstFree more name replacement := by
  obtain ⟨count, heq, hfewer⟩ := hfirst
  exact ⟨count, heq, fun fewer hless => hsub _ (hfewer fewer hless)⟩

theorem firstFree_freshName (taken : List String) (name : String) :
    FirstFree taken name (freshName taken name) := by
  obtain ⟨count, heq, -, hfewer⟩ := freshName_eq taken name
  exact ⟨count, heq, hfewer⟩

namespace Conflict

/-! ## Replacements of one name and of all -/

theorem firstFree_replace (name : String) (owners : List Owner) (taken : List String) :
    ∀ replacement ∈ (replace name owners taken).map (·.2),
      FirstFree (taken ++ (replace name owners taken).map (·.2)) name replacement := by
  induction owners generalizing taken with
  | nil => simp [replace]
  | cons first rest ih =>
      intro replacement hmem
      have hrest := ih (taken ++ [freshName taken name])
      rw [replace, List.map_cons] at hmem ⊢
      rcases List.mem_cons.mp hmem with rfl | hmem
      · exact (firstFree_freshName taken name).mono fun _ h => List.mem_append_left _ h
      · refine (hrest replacement hmem).mono fun other hother => ?_
        rwa [List.append_assoc, List.singleton_append] at hother

theorem firstFree_resolve (table : Table (List Owner)) (taken : List String) :
    ∀ entry ∈ renamings (resolve table taken),
      FirstFree (taken ++ (renamings (resolve table taken)).map (·.2)) entry.1.name entry.2 := by
  induction table generalizing taken with
  | nil => simp [resolve, renamings]
  | cons entry rest ih =>
      obtain ⟨name, owners⟩ := entry
      rw [resolve]
      split
      · rename_i keeper first others hkeeper hothers
        have hfirst := firstFree_replace name (first :: others) (rivalsOf name taken)
        generalize replace name (first :: others) (rivalsOf name taken) = renamed at hfirst ⊢
        have hrest := ih (taken ++ renamed.map (·.2))
        have hcons : renamings (⟨name, keeper, renamed⟩ ::
            resolve rest (taken ++ renamed.map (·.2))) =
              renamed.map (fun entry => (⟨name, entry.1⟩, entry.2)) ++
                renamings (resolve rest (taken ++ renamed.map (·.2))) := by
          simp [renamings]
        rw [hcons, List.map_append, List.map_map]
        intro entry hentry
        rcases List.mem_append.mp hentry with hentry | hentry
        · obtain ⟨found, hfound, rfl⟩ := List.mem_map.mp hentry
          refine (hfirst found.2 (List.mem_map_of_mem hfound)).mono fun other hother => ?_
          rcases List.mem_append.mp hother with hrival | hmade
          · exact List.mem_append_left _ (mem_rivalsOf.mp hrival).1
          · exact List.mem_append_right _ (List.mem_append_left _ hmade)
        · refine (hrest entry hentry).mono fun other hother => ?_
          rwa [List.append_assoc] at hother
      · exact ih taken

/-! ## Owners in the order of their claims -/

theorem eraseDups_concat {α : Type} [DecidableEq α] (items : List α) (item : α) :
    (items ++ [item]).eraseDups =
      if item ∈ items then items.eraseDups else items.eraseDups ++ [item] := by
  rw [List.eraseDups_append]
  by_cases hmem : item ∈ items
  · have hremove : [item].removeAll items = [] := by simp [List.removeAll, hmem]
    rw [hremove, if_pos hmem]
    simp
  · have hremove : [item].removeAll items = [item] := by simp [List.removeAll, hmem]
    rw [hremove, if_neg hmem]
    rfl

/-- The owners of a name are those of the claims to it, each one once. -/
theorem ownersOf_eq_eraseDups (claims : List Claim) (name : String) :
    ownersOf claims name = ((claims.filter (·.name == name)).map (·.owner)).eraseDups := by
  induction claims using List.reverseRecOn with
  | nil => rfl
  | append_singleton claims claim ih =>
      rw [ownersOf_concat, List.filter_append, List.map_append, ih]
      by_cases hname : claim.name = name
      · have hfilter : [claim].filter (·.name == name) = [claim] := by simp [hname]
        rw [hfilter, List.map_singleton, eraseDups_concat]
        simp only [hname, true_and, ite_not, List.mem_eraseDups]
      · have hfilter : [claim].filter (·.name == name) = [] := by simp [hname]
        rw [hfilter, if_neg fun h => hname h.1, List.map_nil, List.append_nil]

/-- The names in the table of owners are claimed. -/
theorem exists_claim_of_mem_keys {claims : List Claim} {name : String}
    (hmem : name ∈ (owners claims).map (·.1)) : ∃ claim ∈ claims, claim.name = name := by
  induction claims using List.reverseRecOn with
  | nil => contradiction
  | append_singleton claims claim ih =>
      have hearlier : name ∈ (owners claims).map (·.1) →
          ∃ other ∈ claims ++ [claim], other.name = name := by
        intro hmem
        obtain ⟨other, hother, hname⟩ := ih hmem
        exact ⟨other, List.mem_append_left _ hother, hname⟩
      unfold owners at hmem hearlier
      rw [List.foldl_append, List.foldl_cons, List.foldl_nil] at hmem
      generalize claims.foldl _ [] = table at hmem hearlier
      dsimp only at hmem
      split at hmem
      · exact hearlier hmem
      · rw [Table.map_fst_set] at hmem
        rcases mem_insertName.mp hmem with hold | rfl
        · exact hearlier hold
        · exact ⟨claim, List.mem_append_right _ List.mem_cons_self, rfl⟩

/-! ## Assigned names -/

variable {claims : List Claim} {claim : Claim}

theorem assigned_of_mem_renamings {replacement : String}
    (hmem : (claim, replacement) ∈ renamings (ofClaims claims)) :
    assigned (ofClaims claims) claim = replacement := by
  have hclaim : claim ∈ claims := mem_claims_of_mem_renamings hmem
  rcases assigned_cases hclaim with ⟨-, -, habsent⟩ | hassigned
  · exact absurd (List.mem_map_of_mem hmem) habsent
  · have heq := List.inj_on_of_nodup_map (nodup_renamed_ofClaims claims) hassigned hmem rfl
    exact congrArg Prod.snd heq

/-- No replacement is the name of a claim. -/
theorem ne_name_of_mem_renamings {entry : Claim × String} {kept : Claim}
    (hentry : entry ∈ renamings (ofClaims claims)) (hkept : kept ∈ claims) :
    entry.2 ≠ kept.name := by
  obtain ⟨-, hfree⟩ := map_snd_renamings_resolve (owners claims) ((owners claims).map (·.1))
  intro heq
  refine hfree entry.2 (List.mem_map_of_mem hentry) ?_
  rw [heq]
  exact List.mem_map.mpr ⟨_, mem_owners_of_mem hkept, rfl⟩

/-- A claim keeps its name exactly if its owner is the last one of the name. -/
theorem assigned_eq_name_iff (hclaim : claim ∈ claims) :
    assigned (ofClaims claims) claim = claim.name ↔
      (ownersOf claims claim.name).getLast? = some claim.owner := by
  constructor
  · intro hkept
    rcases assigned_cases hclaim with ⟨-, hlast, -⟩ | hrenamed
    · exact hlast
    · exact absurd hkept (ne_name_of_mem_renamings hrenamed hclaim)
  · intro hlast
    rcases assigned_cases hclaim with ⟨hkept, -, -⟩ | hrenamed
    · exact hkept
    · exfalso
      have hdrop := mem_renamed_ofClaims.mp (List.mem_map_of_mem hrenamed)
      have hnodup := nodup_ownersOf claims claim.name
      obtain ⟨earlier, heq⟩ := List.getLast?_eq_some_iff.mp hlast
      rw [heq, List.dropLast_concat] at hdrop
      rw [heq, List.nodup_append'] at hnodup
      exact hnodup.2.2 hdrop (List.mem_singleton.mpr rfl)

/-- The renamed claims are those that do not keep their names. -/
theorem mem_renamed_iff :
    claim ∈ (renamings (ofClaims claims)).map (·.1) ↔
      claim ∈ claims ∧ assigned (ofClaims claims) claim ≠ claim.name := by
  constructor
  · intro hmem
    obtain ⟨⟨_, replacement⟩, hentry, rfl⟩ := List.mem_map.mp hmem
    have hclaim := mem_claims_of_mem_renamings hentry
    refine ⟨hclaim, ?_⟩
    rw [assigned_of_mem_renamings hentry]
    exact ne_name_of_mem_renamings hentry hclaim
  · rintro ⟨hclaim, hrenamed⟩
    rcases assigned_cases hclaim with ⟨hkept, -, -⟩ | hentry
    · exact absurd hkept hrenamed
    · exact List.mem_map_of_mem hentry

/-- Every claimed name is assigned to a claim that keeps it. -/
theorem exists_assigned_eq_name (hclaim : claim ∈ claims) :
    ∃ keeper ∈ claims, keeper.name = claim.name ∧
      assigned (ofClaims claims) keeper = claim.name := by
  have howner : claim.owner ∈ ownersOf claims claim.name := mem_ownersOf.mpr hclaim
  have hne : ownersOf claims claim.name ≠ [] := List.ne_nil_of_mem howner
  have hkeeper : ⟨claim.name, (ownersOf claims claim.name).getLast hne⟩ ∈ claims :=
    mem_ownersOf.mp (List.getLast_mem hne)
  exact ⟨_, hkeeper, rfl,
    (assigned_eq_name_iff hkeeper).mpr (List.getLast?_eq_some_getLast hne)⟩

/-- A claim that is renamed gets a name that nothing claims, with as few `_` as the assigned names
leave free. -/
theorem firstFree_assigned (hclaim : claim ∈ claims)
    (hrenamed : assigned (ofClaims claims) claim ≠ claim.name) :
    (∀ other ∈ claims, other.name ≠ assigned (ofClaims claims) claim) ∧
      FirstFree (claims.map (assigned (ofClaims claims))) claim.name
        (assigned (ofClaims claims) claim) := by
  have hentry := (assigned_cases hclaim).resolve_left fun h => hrenamed h.1
  refine ⟨fun other hother heq => ne_name_of_mem_renamings hentry hother heq.symm, ?_⟩
  refine (firstFree_resolve _ _ _ hentry).mono fun name hname => ?_
  rw [List.mem_map]
  rcases List.mem_append.mp hname with hclaimed | hmade
  · obtain ⟨other, hother, rfl⟩ := exists_claim_of_mem_keys hclaimed
    obtain ⟨keeper, hkeeper, -, hassigned⟩ := exists_assigned_eq_name hother
    exact ⟨keeper, hkeeper, hassigned⟩
  · obtain ⟨⟨other, replacement⟩, hother, rfl⟩ := List.mem_map.mp hmade
    exact ⟨other, mem_claims_of_mem_renamings hother, assigned_of_mem_renamings hother⟩

end Conflict

end ScriptBundler

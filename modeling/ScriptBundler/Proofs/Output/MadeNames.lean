import ScriptBundler.Proofs.Graph.Hints
import ScriptBundler.Proofs.Output.Built

/-!
# Names that a bundle makes

A bundle declares variables of its own: for default exports without a name, for the objects of whole
modules, and for external modules.  Their names come from the local names that importers use, from
specifiers, or from the names of files.  Endings and `_` in front keep them apart.

What import declarations name can be bound by strict code.  What re-exports pass on need not be a
name at all, and a name that is made from a specifier or a file can be a reserved word, or hold
letters and digits that names do not.  So whether a name can be bound depends on where it comes
from: `isBindingName_nameOf_iff` says how.
-/

namespace ScriptBundler

open Files ScriptBundler.Module Script Text

/-! ## Spelling -/

section Spelling

variable {front behind : Nat} {name text : String} {c : Char}

theorem isName_iff (chars : List Char) : isName chars = true ↔
    chars ≠ [] ∧ (∀ c ∈ chars.head?, isIdentifierStart c = true) ∧
      ∀ c ∈ chars, isIdentifierPart c = true := by
  cases chars with
  | nil => simp [isName]
  | cons first rest =>
      simp only [isName, Bool.and_eq_true, List.all_eq_true, List.head?_cons, Option.mem_some_iff,
        forall_eq', List.forall_mem_cons]
      constructor
      · rintro ⟨hfirst, hrest⟩
        exact ⟨List.cons_ne_nil _ _, hfirst, isIdentifierPart_of_isIdentifierStart hfirst, hrest⟩
      · rintro ⟨-, hfirst, -, hrest⟩
        exact ⟨hfirst, hrest⟩

/-- Words that mean something else consist of letters. -/
theorem isAlpha_of_isUnbindable (hword : isUnbindable text = true) :
    text ≠ "" ∧ ∀ c ∈ text.toList, c.isAlpha = true := by
  have hall : ∀ words : List String,
      (words.all fun word => word != "" && word.toList.all Char.isAlpha) = true →
      words.contains text = true → text ≠ "" ∧ ∀ c ∈ text.toList, c.isAlpha = true := by
    intro words hwords htext
    have hcheck := List.all_eq_true.mp hwords text (List.contains_iff_mem.mp htext)
    rw [Bool.and_eq_true, bne_iff_ne, List.all_eq_true] at hcheck
    exact hcheck
  rcases Bool.or_eq_true_iff.mp hword with hword | hrestricted
  · rcases Bool.or_eq_true_iff.mp hword with hreserved | hfuture
    · exact hall reservedWords (by decide +kernel) hreserved
    · exact hall _ (by decide +kernel) hfuture
  · exact hall ["eval", "arguments"] (by decide +kernel)
      (by simpa [Parser.isRestricted] using hrestricted)

/-! ### Endings, and `_` in front -/

theorem mem_underscored :
    c ∈ (underscored front name).toList ↔ (0 < front ∧ c = '_') ∨ c ∈ name.toList := by
  rw [underscored, String.toList_ofList, List.mem_append, List.mem_replicate, Nat.pos_iff_ne_zero]

theorem head?_underscored :
    (underscored front name).toList.head? = if front = 0 then name.toList.head? else some '_' := by
  cases front with
  | zero => simp [underscored]
  | succ front => simp [underscored, List.replicate_succ]

theorem mem_suffixed :
    c ∈ (suffixed behind name).toList ↔
      c ∈ name.toList ∨ (0 < behind ∧ c ∈ "__default".toList) := by
  induction behind with
  | zero => simp [suffixed]
  | succ behind ih =>
      rw [suffixed, String.toList_append, List.mem_append, ih]
      simp only [Nat.succ_pos, true_and]
      tauto

theorem head?_suffixed :
    (suffixed behind name).toList.head? =
      name.toList.head?.or (if behind = 0 then none else some '_') := by
  induction behind with
  | zero => simp [suffixed]
  | succ behind ih =>
      rw [suffixed, String.toList_append, List.head?_append, ih, Option.or_assoc]
      cases behind <;> simp

/-- Whether names with some endings and `_` in front can be bound: each character can be within a
name, and if nothing stands before the first one, that can start a name; and if nothing stands
behind either, the name means nothing else. -/
def Spelled (front behind : Nat) (name : String) : Prop :=
  (∀ c ∈ name.toList, isIdentifierPart c = true) ∧
    (front = 0 → (∀ c ∈ name.toList.head?, isIdentifierStart c = true) ∧
      (behind = 0 → name ≠ "" ∧ isUnbindable name = false))

theorem isUnbindable_of_underscore (hmem : '_' ∈ name.toList) : isUnbindable name = false := by
  by_contra hword
  rw [Bool.not_eq_false] at hword
  exact absurd ((isAlpha_of_isUnbindable hword).2 '_' hmem) (by decide)

theorem isBindingName_iff_spelled :
    isBindingName (underscored front (suffixed behind name)) = true ↔
      Spelled front behind name := by
  have hending : ∀ c ∈ "__default".toList, isIdentifierPart c = true :=
    List.all_eq_true.mp (by decide)
  have hplain : front = 0 → behind = 0 → underscored front (suffixed behind name) = name := by
    rintro rfl rfl
    exact underscored_zero name
  -- a name to which something is added has an underscore, which no reserved word has
  have hmark : 0 < front ∨ 0 < behind →
      '_' ∈ (underscored front (suffixed behind name)).toList := by
    rintro (hfront | hbehind)
    · exact mem_underscored.mpr (Or.inl ⟨hfront, rfl⟩)
    · exact mem_underscored.mpr (Or.inr (mem_suffixed.mpr (Or.inr ⟨hbehind, by decide⟩)))
  rw [isBindingName, Bool.and_eq_true, isName_iff, Bool.not_eq_true']
  constructor
  · rintro ⟨⟨hne, hhead, hall⟩, hfree⟩
    refine ⟨fun c hc => hall c (mem_underscored.mpr (Or.inr (mem_suffixed.mpr (Or.inl hc)))),
      fun hfront => ⟨fun c hc => hhead c ?_, fun hbehind => ?_⟩⟩
    · rw [head?_underscored, if_pos hfront, head?_suffixed, Option.mem_def.mp hc]
      rfl
    · rw [hplain hfront hbehind] at hne hfree
      exact ⟨fun h => hne (by rw [h]; rfl), hfree⟩
  · rintro ⟨hall, hbare⟩
    refine ⟨⟨?_, fun c hc => ?_, fun c hc => ?_⟩, ?_⟩
    · by_cases hmarked : 0 < front ∨ 0 < behind
      · exact List.ne_nil_of_mem (hmark hmarked)
      · obtain ⟨hfront, hbehind⟩ : front = 0 ∧ behind = 0 := by omega
        rw [hplain hfront hbehind]
        exact fun h => ((hbare hfront).2 hbehind).1 (String.toList_eq_nil_iff.mp h)
    · rw [head?_underscored] at hc
      split at hc
      · rename_i hfront
        rw [head?_suffixed] at hc
        cases hfirst : name.toList.head? with
        | some first =>
            rw [hfirst] at hc
            obtain rfl := Option.some.inj hc
            exact (hbare hfront).1 first hfirst
        | none =>
            rw [hfirst, Option.none_or] at hc
            split at hc
            · exact absurd hc (Option.not_mem_none c)
            · obtain rfl := Option.some.inj hc
              decide
      · obtain rfl := Option.some.inj hc
        decide
    · rcases mem_underscored.mp hc with ⟨-, rfl⟩ | hc
      · decide
      · exact (mem_suffixed.mp hc).elim (hall c) fun h => hending c h.2
    · by_cases hmarked : 0 < front ∨ 0 < behind
      · exact isUnbindable_of_underscore (hmark hmarked)
      · obtain ⟨hfront, hbehind⟩ : front = 0 ∧ behind = 0 := by omega
        rw [hplain hfront hbehind]
        exact ((hbare hfront).2 hbehind).2

/-! ### Names made from other text -/

/-- What a character of some text becomes in a name. -/
def keptChar (c : Char) : Char :=
  if isNameChar c then c else '_'

theorem toList_madeName (text : String) : (madeName text).toList =
    match text.toList with
    | [] => ['_']
    | first :: rest =>
      if (keptChar first).isDigit then '_' :: keptChar first :: rest.map keptChar
      else keptChar first :: rest.map keptChar := by
  unfold madeName
  cases text.toList with
  | nil => rfl
  | cons first rest =>
      dsimp only [List.map_cons]
      show (if (keptChar first).isDigit = true then _ else _ : String).toList = _
      split <;> exact String.toList_ofList

theorem isDigit_keptChar (c : Char) : (keptChar c).isDigit = c.isDigit := by
  unfold keptChar
  split
  · rfl
  · rename_i hother
    have hdigit : ¬ c.isDigit = true := by
      intro hdigit
      refine hother ?_
      have hsmall : c.toNat < 128 := by
        simp only [Char.isDigit, Bool.and_eq_true, decide_eq_true_eq] at hdigit
        have := UInt32.le_iff_toNat_le.mp hdigit.2
        simp only [Char.toNat]
        exact lt_of_le_of_lt this (by decide)
      simp [isNameChar, isAlphanumeric, hsmall, Char.isAlphanum, hdigit]
    rw [Bool.not_eq_true] at hdigit
    rw [hdigit]
    rfl

/-- Of the characters of a text only letters and digits decide about a name made from it. -/
theorem keptChar_cases (c : Char) : isAlphanumeric c = true ∧ keptChar c = c ∨
    isAlphanumeric c = false ∧ (keptChar c = '_' ∨ keptChar c = '$') := by
  unfold keptChar
  cases halnum : isAlphanumeric c with
  | true => exact Or.inl ⟨rfl, if_pos (by simp [isNameChar, halnum])⟩
  | false =>
      refine Or.inr ⟨rfl, ?_⟩
      split
      · rename_i hname
        simpa [isNameChar, halnum] using hname
      · exact Or.inl rfl

theorem isIdentifierPart_keptChar : isIdentifierPart (keptChar c) = true ↔
    (isAlphanumeric c = true → isIdentifierPart c = true) := by
  rcases keptChar_cases c with ⟨halnum, hkept⟩ | ⟨halnum, hkept⟩
  · rw [hkept, halnum]
    simp
  · rw [halnum]
    rcases hkept with hkept | hkept <;> rw [hkept] <;> simp <;> decide

theorem isIdentifierStart_keptChar : isIdentifierStart (keptChar c) = true ↔
    (isAlphanumeric c = true → isIdentifierStart c = true) := by
  rcases keptChar_cases c with ⟨halnum, hkept⟩ | ⟨halnum, hkept⟩
  · rw [hkept, halnum]
    simp
  · rw [halnum]
    rcases hkept with hkept | hkept <;> rw [hkept] <;> simp <;> decide

theorem not_isDigit_of_isAlpha (hletter : c.isAlpha = true) : ¬ c.isDigit = true := by
  simp only [Char.isAlpha, Char.isUpper, Char.isLower, Char.isDigit, Bool.or_eq_true,
    Bool.and_eq_true, decide_eq_true_eq, UInt32.le_iff_toNat_le] at hletter ⊢
  simp at hletter ⊢
  omega

theorem keptChar_of_isAlpha (hletter : c.isAlpha = true) : keptChar c = c := by
  rcases keptChar_cases c with ⟨-, hkept⟩ | ⟨halnum, -⟩
  · exact hkept
  · have hsmall : c.toNat < 128 := by
      simp only [Char.isAlpha, Char.isUpper, Char.isLower, Bool.or_eq_true, Bool.and_eq_true,
        decide_eq_true_eq, UInt32.le_iff_toNat_le] at hletter
      simp only [Char.toNat]
      rcases hletter with ⟨-, h⟩ | ⟨-, h⟩ <;> exact lt_of_le_of_lt h (by decide)
    simp [isAlphanumeric, hsmall, Char.isAlphanum, hletter] at halnum

/-- A name that is made from a word is that word, and if it means something else, then that word
does. -/
theorem isUnbindable_madeName (text : String) :
    isUnbindable (madeName text) = isUnbindable text := by
  rw [Bool.eq_iff_iff]
  have hmade := toList_madeName text
  constructor
  · intro hword
    have hletters := (isAlpha_of_isUnbindable hword).2
    -- no character has been replaced, as that would have left a mark
    have hsame : ∀ c, (keptChar c).isAlpha = true → keptChar c = c := by
      intro c hletter
      rcases keptChar_cases c with ⟨-, hkept⟩ | ⟨-, hkept | hkept⟩
      · exact hkept
      all_goals
        rw [hkept] at hletter
        contradiction
    suffices heq : madeName text = text by rwa [heq] at hword
    refine String.toList_injective ?_
    rw [hmade] at hletters ⊢
    cases htext : text.toList with
    | nil =>
        rw [htext] at hletters
        exact absurd (hletters '_' List.mem_cons_self) (by decide)
    | cons first rest =>
        rw [htext] at hletters
        dsimp only at hletters ⊢
        split at hletters
        · exact absurd (hletters '_' List.mem_cons_self) (by decide)
        · rename_i hdigit
          obtain ⟨hfirst, hrest⟩ := List.forall_mem_cons.mp hletters
          rw [if_neg hdigit, hsame first hfirst]
          refine congrArg (first :: ·) ((List.map_congr_left fun c hc => ?_).trans (List.map_id _))
          exact hsame c (hrest _ (List.mem_map_of_mem hc))
  · intro hword
    obtain ⟨hne, hletters⟩ := isAlpha_of_isUnbindable hword
    suffices heq : madeName text = text by rwa [heq]
    refine String.toList_injective ?_
    rw [hmade]
    cases htext : text.toList with
    | nil => exact absurd (String.toList_eq_nil_iff.mp htext) hne
    | cons first rest =>
        rw [htext] at hletters
        obtain ⟨hfirst, hrest⟩ := List.forall_mem_cons.mp hletters
        have hdigit : ¬ (keptChar first).isDigit = true := by
          rw [isDigit_keptChar]
          exact not_isDigit_of_isAlpha hfirst
        dsimp only
        rw [if_neg hdigit, keptChar_of_isAlpha hfirst]
        refine congrArg (first :: ·) ((List.map_congr_left fun c hc => ?_).trans (List.map_id _))
        exact keptChar_of_isAlpha (hrest c hc)

theorem spelled_madeName_iff : Spelled front behind (madeName text) ↔
    (∀ c ∈ text.toList, isAlphanumeric c = true → isIdentifierPart c = true) ∧
      (front = 0 → (∀ c ∈ text.toList.head?, isAlphanumeric c = true → c.isDigit = false →
          isIdentifierStart c = true) ∧
        (behind = 0 → isUnbindable text = false)) := by
  have hmade := toList_madeName text
  have hne : madeName text ≠ "" := by
    intro h
    rw [h] at hmade
    split at hmade
    · contradiction
    · split at hmade <;> contradiction
  unfold Spelled
  rw [isUnbindable_madeName]
  have hparts : (∀ c ∈ (madeName text).toList, isIdentifierPart c = true) ↔
      ∀ c ∈ text.toList, isAlphanumeric c = true → isIdentifierPart c = true := by
    simp only [← isIdentifierPart_keptChar]
    rw [hmade]
    cases text.toList with
    | nil => simp; decide
    | cons first rest =>
        have hmark : isIdentifierPart '_' = true := by decide
        dsimp only
        split <;> simp [hmark]
  have hfirst : (∀ c ∈ (madeName text).toList.head?, isIdentifierStart c = true) ↔
      ∀ c ∈ text.toList.head?, isAlphanumeric c = true → c.isDigit = false →
        isIdentifierStart c = true := by
    rw [hmade]
    cases text.toList with
    | nil => simp; decide
    | cons first rest =>
        have hmark : isIdentifierStart '_' = true := by decide
        dsimp only
        rw [isDigit_keptChar]
        cases hdigit : first.isDigit with
        | true => simp [hmark, hdigit]
        | false => simp [hdigit, isIdentifierStart_keptChar]
  rw [hparts, hfirst]
  simp only [hne, ne_eq, not_false_eq_true, true_and]

end Spelling

/-! ## Origins -/

/-- Where the name of a binding comes from that a bundle makes. -/
inductive Origin where
  /-- An import declaration names something nameless so. -/
  | declared (name : String)
  /-- A re-export passes something nameless on under this name. -/
  | passedOn (name : String)
  /-- The name is made from a specifier, or from the name of a file. -/
  | made (text : String)

namespace Origin

/-- The name as it comes from its origin. -/
def name : Origin → String
  | declared name | passedOn name => name
  | made text => madeName text

/-- Whether strict code can bind the name, with some `_` in front and some endings behind.  Of a
name that is made only the letters and digits count, and whether it can start with the first one. -/
def Fits (front behind : Nat) : Origin → Prop
  | declared _ => True
  | passedOn name => Spelled front behind name
  | made text =>
    (∀ c ∈ text.toList, isAlphanumeric c = true → isIdentifierPart c = true) ∧
      (front = 0 → (∀ c ∈ text.toList.head?, isAlphanumeric c = true → c.isDigit = false →
          isIdentifierStart c = true) ∧
        (behind = 0 → isUnbindable text = false))

theorem fits_iff {origin : Origin} (front behind : Nat)
    (hdeclared : ∀ name, origin = declared name → isBindingName name = true) :
    isBindingName (underscored front (suffixed behind origin.name)) = true ↔
      origin.Fits front behind := by
  rw [isBindingName_iff_spelled]
  cases origin with
  | passedOn name => exact Iff.rfl
  | made text => exact spelled_madeName_iff
  | declared name =>
      -- what can be bound by itself can be bound with more around it
      refine iff_of_true ?_ trivial
      have hbare : Spelled 0 0 name := isBindingName_iff_spelled.mp (by
        rw [underscored_zero]
        exact hdeclared name rfl)
      exact ⟨hbare.1, fun _ => ⟨(hbare.2 rfl).1, fun _ => (hbare.2 rfl).2 rfl⟩⟩

end Origin

namespace Graph

variable {graph before after : Graph} {binding : Binding} {origin : Origin} {text : String}

/-- Whether the name of a binding can have an origin: local names of any module, the specifier of
the external module, or the name of the file that the default export is in. -/
def Offers (graph : Graph) : Binding → Origin → Prop
  | _, .declared name => ∃ id module, graph.module? id = some module ∧ module.Declares name
  | _, .passedOn name => ∃ id module, graph.module? id = some module ∧ module.PassesOn name
  | .anonymousDefault id, .made text =>
      ∃ module ∈ graph.module? id, text = module.path.fileStem?.getD ""
  | .external id, .made text | .interop id, .made text =>
      ∃ external ∈ graph.external? id, text = external.specifier
  | _, .made _ => False

theorem Suggests.exists_origin (hsuggests : graph.Suggests text) (binding : Binding) :
    ∃ origin behind, graph.Offers binding origin ∧ text = suffixed behind origin.name := by
  obtain ⟨name, behind, ⟨id, module, hmodule, hdeclares | hpasses⟩, rfl⟩ := hsuggests
  · exact ⟨.declared name, behind, by cases binding <;> exact ⟨id, module, hmodule, hdeclares⟩, rfl⟩
  · exact ⟨.passedOn name, behind, by cases binding <;> exact ⟨id, module, hmodule, hpasses⟩, rfl⟩

/-- Objects claim the names that have been suggested for their modules. -/
theorem meaning_of_namespaceClaims (ids : List Nat) (naming : Naming)
    (hmeant : ∀ id name, naming.get? id "*" = some name → graph.meaning id "*" = .here name)
    {id : Nat} {name : String}
    (hget : (graph.namespaceClaims ids naming).2.get? id "*" = some name) :
    graph.meaning id "*" = .here name := by
  induction ids generalizing naming with
  | nil => exact hmeant id name hget
  | cons first rest ih =>
      refine ih (naming.canonicalName graph first "*").2 ?_ hget
      intro other found hfound
      cases hold : naming.get? first "*" with
      | some canonical =>
          rw [Naming.canonicalName_of_settled hold] at hfound
          exact hmeant other found hfound
      | none =>
          obtain ⟨text, hhere⟩ := graph.meaning_star first
          rw [Naming.canonicalName_of_here hold hhere, Naming.get?_settle] at hfound
          split at hfound
          · rename_i hplace
            obtain rfl := Option.some.inj hfound
            exact hplace.1 ▸ hhere
          · exact hmeant other found hfound

/-- External modules are called otherwise. -/
theorem Hinted.of_renamed (hhinted : before.Hinted) (hmodules : after.modules = before.modules)
    (hnamespaces : after.namespaces = before.namespaces)
    (hexternal : ∀ id, (after.external? id).map (·.rename "") =
      (before.external? id).map (·.rename "")) : after.Hinted := by
  have hmodule : ∀ id, after.module? id = before.module? id := fun id => congrArg (·[id]?) hmodules
  have hsuggests : ∀ text, before.Suggests text → after.Suggests text := by
    rintro text ⟨name, times, ⟨id, module, hfound, hgiven⟩, rfl⟩
    exact ⟨name, times, ⟨id, module, (hmodule id).trans hfound, hgiven⟩, rfl⟩
  constructor
  case sourced => exact fun id module h => hhinted.sourced id module ((hmodule id).symm.trans h)
  case module =>
    intro id module key text hfound htext
    exact hsuggests _ (hhinted.module id module key text ((hmodule id).symm.trans hfound) htext)
  case external =>
    intro id later key text hlater htext
    have hsame := hexternal id
    rw [hlater] at hsame
    obtain ⟨external, hfound, hrename⟩ := Option.map_eq_some_iff.mp hsame.symm
    have hnames : external.suggestedNames = later.suggestedNames :=
      congrArg (·.suggestedNames) hrename
    exact hsuggests _ (hhinted.external id external key text hfound (hnames ▸ htext))
  case wholes =>
    intro id hid
    obtain ⟨module, text, hfound, htext⟩ := hhinted.wholes id (hnamespaces ▸ hid)
    exact ⟨module, text, (hmodule id).trans hfound, htext⟩

/-- Whatever does not claim its name for a declaration has it from an origin. -/
theorem Hinted.exists_origin (hhinted : graph.Hinted) {statements : List Address} {claim : Claim}
    (hclaim : claim ∈ graph.claims statements) (hmade : ∀ id, claim.owner ≠ .module id) :
    ∃ origin behind, graph.Offers claim.binding origin ∧
      claim.name = suffixed behind origin.name := by
  obtain ⟨name, owner⟩ := claim
  cases owner with
  | module id => exact absurd rfl (hmade id)
  | anonymousDefault id =>
      obtain ⟨_, -, -, module, hmodule, -, rfl⟩ := mem_claims_anonymousDefault.mp hclaim
      unfold anonymousDefaultName
      cases htext : module.suggestedNames.get? "default" with
      | some text => exact (hhinted.module id module _ text hmodule htext).exists_origin _
      | none => exact ⟨.made _, 0, ⟨module, hmodule, rfl⟩, rfl⟩
  | namespaceObject id =>
      obtain ⟨hid, hget⟩ := mem_claims_namespaceObject.mp hclaim
      obtain ⟨module, text, hmodule, htext⟩ := hhinted.wholes id hid
      have hmeaning := meaning_of_namespaceClaims _ .empty (fun _ _ h => by contradiction) hget
      simp only [meaning, hmodule, htext, beq_self_eq_true, if_true, Option.getD_some,
        Meaning.here.injEq] at hmeaning
      subst hmeaning
      exact (hhinted.module id module _ text hmodule htext).exists_origin _
  | external id =>
      obtain ⟨external, hexternal, rfl⟩ := mem_claims_external.mp hclaim
      unfold External.preferredName
      cases htext : external.suggestedNames.get? "*" with
      | some text => exact (hhinted.external id external _ text hexternal htext).exists_origin _
      | none =>
          cases htext : external.suggestedNames.get? "default" with
          | some text => exact (hhinted.external id external _ text hexternal htext).exists_origin _
          | none => exact ⟨.made _, 0, ⟨external, hexternal, rfl⟩, rfl⟩

/-- What an import declaration names can be bound. -/
theorem Hinted.isBindingName (hhinted : graph.Hinted) {name : String}
    (hoffers : graph.Offers binding (.declared name)) : isBindingName name = true := by
  obtain ⟨id, module, hmodule, hdeclares⟩ :
      ∃ id module, graph.module? id = some module ∧ module.Declares name := by
    cases binding <;> exact hoffers
  exact hdeclares.isBindingName (hhinted.sourced id module hmodule)

end Graph

namespace Bundle

variable {bundle : Bundle} {binding : Binding}

/-- Whether a bundle gives a name of its own to a binding. -/
@[reducible]
def Coins (bundle : Bundle) : Binding → Prop
  | .declared _ _ => False
  | .interop _ => True
  | .anonymousDefault id => bundle.Plain (.anonymousDefault id)
  | .namespaceObject id => bundle.Plain (.namespaceObject id)
  | .external id => bundle.Plain (.external id)

/-- Whether strict code can bind all names that a bundle makes. -/
def CoinsBindable (bundle : Bundle) : Prop :=
  ∀ binding, bundle.Binds binding → bundle.Coins binding →
    isBindingName (bundle.nameOf binding) = true

/-- The name of a binding that has a claim is its origin, with what keeps it apart from others. -/
theorem exists_origin_of_plain {graph : Graph} (hnamed : bundle.Deconflicts graph)
    (hhinted : bundle.graph.Hinted) (hbinds : bundle.Binds binding)
    (hplain : bundle.Plain binding) (hmade : ∀ id name, binding ≠ .declared id name) :
    ∃ origin front behind, bundle.graph.Offers binding origin ∧
      bundle.nameOf binding = underscored front (suffixed behind origin.name) := by
  have hclaimed : ∀ id, binding ≠ .interop id := by
    rintro id rfl
    exact hplain
  obtain ⟨claim, hclaim, rfl⟩ := exists_claim hnamed hbinds hclaimed
  have howner : ∀ id, claim.owner ≠ .module id := by
    intro id howner
    refine hmade id claim.name ?_
    rw [Claim.binding, howner]
  have hbundle : claim ∈ bundle.claims := hnamed.claims_eq ▸ hclaim
  obtain ⟨origin, behind, hoffers, hname⟩ := hhinted.exists_origin hbundle howner
  rw [nameOf_binding hnamed hclaim hplain]
  by_cases hkept : Conflict.assigned (Conflict.ofClaims (graph.claims bundle.statements)) claim =
      claim.name
  · exact ⟨origin, 0, behind, hoffers, by rw [hkept, underscored_zero, hname]⟩
  · obtain ⟨-, count, hfresh, -⟩ := Conflict.firstFree_assigned hclaim hkept
    exact ⟨origin, count + 1, behind, hoffers, by rw [hfresh, hname]⟩

theorem exists_origin_of_coins {graph : Graph} (hnamed : bundle.Deconflicts graph)
    (hhinted : bundle.graph.Hinted) (hbinds : bundle.Binds binding)
    (hcoins : bundle.Coins binding) :
    ∃ origin front behind, bundle.graph.Offers binding origin ∧
      bundle.nameOf binding = underscored front (suffixed behind origin.name) := by
  cases binding with
  | declared id name => exact False.elim hcoins
  | anonymousDefault id | namespaceObject id | external id =>
      exact exists_origin_of_plain hnamed hhinted hbinds hcoins fun _ _ h => by contradiction
  | interop id =>
      -- it has the name of its module, with one more ending
      obtain ⟨external, hexternal, -⟩ := hbinds
      have hmodule : bundle.Binds (.external id) :=
        Option.isSome_iff_exists.mpr ⟨external, hexternal⟩
      obtain ⟨origin, front, behind, hoffers, hname⟩ :=
        exists_origin_of_plain hnamed hhinted hmodule trivial fun _ _ h => by contradiction
      refine ⟨origin, front, behind + 1, by cases origin <;> exact hoffers, ?_⟩
      have hlonger : bundle.nameOf (.interop id) = bundle.nameOf (.external id) ++ "__default" := by
        simp only [nameOf, Option.mem_def.mp hexternal, Option.map_some, Option.getD_some,
          External.defaultName]
      rw [hlonger, hname, suffixed]
      exact String.toList_injective (by simp [underscored])

/-- The name of each binding that a bundle makes is a local name of something nameless, a specifier
or the name of a file, with `_` in front and endings that keep it apart.  Strict code can bind it if
an import declaration has given it.  Else it depends on the characters, and on words that mean
something else if nothing stands around them. -/
theorem isBindingName_nameOf_iff {disk : Disk} {entry : Path} {log later : List Log.Entry}
    (hbuild : (build disk entry).run log = .ok bundle later) (hbinds : bundle.Binds binding)
    (hcoins : bundle.Coins binding) :
    ∃ origin front behind, bundle.graph.Offers binding origin ∧
      bundle.nameOf binding = underscored front (suffixed behind origin.name) ∧
      (isBindingName (bundle.nameOf binding) = true ↔ origin.Fits front behind) := by
  obtain ⟨loaded, expanded, hloaded, -, hexpanded, -, hnamed⟩ := build_ok hbuild
  have hnamed : bundle.Deconflicts expanded := hnamed
  have hreached : Graph.Reached disk expanded := by
    rw [← hexpanded, ← hloaded]
    exact (Graph.Reached.start.loaded (entryPathOf disk entry)).requested
      (.everything bundle.entry true)
  have hhinted : bundle.graph.Hinted := by
    have hexternal := NamedGraph.external?_deconflict expanded bundle.statements
    rw [hnamed.eq] at hexternal
    obtain ⟨externals, hgraph⟩ := hnamed.exists_externals
    dsimp only at hexternal
    rw [hgraph] at hexternal ⊢
    exact (hreached.of_lasting (Graph.lasting_hinted disk)).of_renamed rfl rfl hexternal
  obtain ⟨origin, front, behind, hoffers, hname⟩ :=
    exists_origin_of_coins hnamed hhinted hbinds hcoins
  refine ⟨origin, front, behind, hoffers, hname, ?_⟩
  rw [hname]
  refine Origin.fits_iff front behind fun name horigin => ?_
  subst horigin
  exact hhinted.isBindingName hoffers

/-- A project with a default export without a name.  It is imported through a re-export, under a
name that a variable beside it has as well. -/
def relayedDisk : Disk where
  workingDirectory := []
  files :=
    [(["main.js"], .text ("import five from './relay';\n" ++
      "import \x7b five as other \x7d from './class';\nexport var r = [five, other];\n").toList),
      (["relay.js"], .text "export \x7b default \x7d from './class';\n".toList),
      (["class.js"], .text "export default 4;\nexport var five = 5;\n".toList)]
  directories := []

theorem isBindingName_nameOf_relayedDisk : ∃ bundle log,
    (build relayedDisk ⟨"main.js"⟩).run [] = .ok bundle log ∧
      bundle.nameOf (.anonymousDefault 2) = "_five" ∧
      ∃ origin front behind, bundle.graph.Offers (.anonymousDefault 2) origin ∧
        "_five" = underscored front (suffixed behind origin.name) ∧ origin.Fits front behind := by
  obtain ⟨bundle, log, hbuild, hcheck⟩ := exists_of_passes relayedDisk ⟨"main.js"⟩
    (fun bundle => decide (bundle.Binds (.anonymousDefault 2) ∧
      bundle.Plain (.anonymousDefault 2) ∧ bundle.nameOf (.anonymousDefault 2) = "_five"))
    (by decide +kernel)
  obtain ⟨hbinds, hcoins, hname⟩ := of_decide_eq_true hcheck
  obtain ⟨origin, front, behind, hoffers, hcoined, hfits⟩ :=
    isBindingName_nameOf_iff hbuild hbinds hcoins
  rw [hname] at hcoined hfits
  exact ⟨bundle, log, hbuild, hname, origin, front, behind, hoffers, hcoined,
    hfits.mp (by decide +kernel)⟩

/-- A project with a default export without a name, in a file that is called like a keyword. -/
def keywordDisk : Disk where
  workingDirectory := []
  files := [(["class.js"], .text "export default 5;\n".toList)]
  directories := []

/-- The default export is declared as `class`. -/
theorem not_coinsBindable_keywordDisk : ∃ bundle log,
    (build keywordDisk ⟨"class.js"⟩).run [] = .ok bundle log ∧
      bundle.nameOf (.anonymousDefault 0) = "class" ∧ ¬ bundle.CoinsBindable := by
  obtain ⟨bundle, log, hbuild, hcheck⟩ := exists_of_passes keywordDisk ⟨"class.js"⟩
    (fun bundle => decide (bundle.Binds (.anonymousDefault 0) ∧
      bundle.Plain (.anonymousDefault 0) ∧ bundle.nameOf (.anonymousDefault 0) = "class"))
    (by decide +kernel)
  obtain ⟨hbinds, hcoins, hname⟩ := of_decide_eq_true hcheck
  refine ⟨bundle, log, hbuild, hname, fun hall => ?_⟩
  have hbindable := hall _ hbinds hcoins
  rw [hname] at hbindable
  exact absurd hbindable (by decide +kernel)

end Bundle

end ScriptBundler

import ScriptBundler.Proofs.Graph.Needs

/-!
# Marking demands

Expansion sets a mark before it looks at what the marked demand calls for, and it goes round in
circles if the modules do.  So in the middle of it there are marked demands that are not settled.
What holds throughout is that such a demand was marked before: `Graph.Expands` says so of any part
of an expansion, and it is kept when parts are put together.
-/

namespace ScriptBundler

open Files ScriptBundler.Module Script Relation

namespace Graph

/-- Whether a later graph comes from an earlier one by expansion for a demand: what is marked since
then is called for by the demand, and is settled. -/
structure Expands (before : Graph) (demand : Demand) (after : Graph) : Prop
    extends Extends before after where
  includes : ∀ address, after.Includes address → before.Includes address ∨
    ReflTransGen after.Calls demand (.statement address)
  requested : ∀ id name, after.Requested id name → before.Requested id name ∨
    ReflTransGen after.Calls demand (.name id name)
  settled : ∀ other, after.Marks other → before.Marks other ∨ after.Settled other
  wellFormed : before.WellFormed → after.WellFormed

/-- Whether a later graph differs from an earlier one at most in the mark of one demand. -/
structure Notes (before : Graph) (demand : Demand) (after : Graph) : Prop
    extends Extends before after where
  includes : ∀ address, after.Includes address →
    before.Includes address ∨ demand = .statement address
  requested : ∀ id name, after.Requested id name → before.Requested id name ∨ demand = .name id name
  wellFormed : before.WellFormed → after.WellFormed

variable {graph before middle after : Graph} {demand called : Demand}

/-! ## Parts of an expansion -/

theorem reach_mono (hextends : before.Extends after)
    (hreach : ReflTransGen before.Calls demand called) :
    ReflTransGen after.Calls demand called :=
  ReflTransGen.mono (fun _ _ hcalls => Calls.mono hextends hcalls) _ _ hreach

theorem Notes.trans_quiet (hnotes : before.Notes demand middle) (hquiet : middle.Quiet after) :
    before.Notes demand after :=
  ⟨hnotes.toExtends.trans hquiet.toExtends,
    fun address h => hnotes.includes address (hquiet.includes address h),
    fun id name h => hnotes.requested id name (hquiet.requested id name h),
    fun h => hquiet.wellFormed (hnotes.wellFormed h)⟩

theorem Expands.refl (graph : Graph) (demand : Demand) : graph.Expands demand graph :=
  ⟨.refl graph, fun _ h => Or.inl h, fun _ _ h => Or.inl h, fun _ h => Or.inl h, fun h => h⟩

theorem Expands.trans (hfirst : before.Expands demand middle)
    (hsecond : middle.Expands demand after) : before.Expands demand after where
  toExtends := hfirst.toExtends.trans hsecond.toExtends
  includes := by
    intro address h
    rcases hsecond.includes address h with hmiddle | hreach
    · have hold := hfirst.includes address hmiddle
      exact hold.imp_right (reach_mono hsecond.toExtends)
    · exact Or.inr hreach
  requested := by
    intro id name h
    rcases hsecond.requested id name h with hmiddle | hreach
    · have hold := hfirst.requested id name hmiddle
      exact hold.imp_right (reach_mono hsecond.toExtends)
    · exact Or.inr hreach
  settled := by
    intro other h
    rcases hsecond.settled other h with hmiddle | hsettled
    -- what was settled half way is still settled at the end
    · have hold := hfirst.settled other hmiddle
      exact hold.imp_right fun h => h.mono hsecond.toExtends hmiddle
    · exact Or.inr hsettled
  wellFormed := fun h => hsecond.wellFormed (hfirst.wellFormed h)

/-- Expansion for a demand is part of the expansion for another one that calls for it. -/
theorem Expands.of_calls (hcalls : after.Calls demand called)
    (hexpands : before.Expands called after) : before.Expands demand after where
  toExtends := hexpands.toExtends
  includes := fun address h => (hexpands.includes address h).imp_right (.head hcalls)
  requested := fun id name h => (hexpands.requested id name h).imp_right (.head hcalls)
  settled := hexpands.settled
  wellFormed := hexpands.wellFormed

/-- Setting a mark is part of an expansion that settles what is marked. -/
theorem Expands.of_notes (hnotes : before.Notes called middle)
    (hreach : ReflTransGen after.Calls demand called) (hexpands : middle.Expands demand after)
    (hsettled : after.Settled called) : before.Expands demand after where
  toExtends := hnotes.toExtends.trans hexpands.toExtends
  includes := by
    intro address h
    rcases hexpands.includes address h with hmiddle | hother
    · rcases hnotes.includes address hmiddle with hbefore | rfl
      · exact Or.inl hbefore
      · exact Or.inr hreach
    · exact Or.inr hother
  requested := by
    intro id name h
    rcases hexpands.requested id name h with hmiddle | hother
    · rcases hnotes.requested id name hmiddle with hbefore | rfl
      · exact Or.inl hbefore
      · exact Or.inr hreach
    · exact Or.inr hother
  settled := by
    intro other h
    rcases hexpands.settled other h with hmiddle | hother
    · cases other with
      | statement address =>
          rcases hnotes.includes address hmiddle with hbefore | rfl
          · exact Or.inl hbefore
          · exact Or.inr hsettled
      | name id name =>
          rcases hnotes.requested id name hmiddle with hbefore | rfl
          · exact Or.inl hbefore
          · exact Or.inr hsettled
      -- this mark is not a flag, so that it may have come about with that of a statement
      | everything id isEntry => exact Or.inr (settled_everything h)
    · exact Or.inr hother
  wellFormed := fun h => hexpands.wellFormed (hnotes.wellFormed h)

/-- Marking a statement. -/
theorem notes_includeStatement (graph : Graph) (address : Address) :
    graph.Notes (.statement address)
      (graph.updateModule address.module (·.includeStatement address.index)) := by
  have hrest := fun module => asRead_includeStatement module address.index
  constructor
  case toExtends =>
    refine extends_updateModule fun module _ => ⟨hrest module, fun index h => ?_, fun name h => h⟩
    exact includes_includeStatement.mpr (Or.inl h)
  case includes =>
    rintro other ⟨module, hmodule, h⟩
    rcases module?_updateModule_cases hmodule with hold | ⟨hid, earlier, hearlier, rfl⟩
    · exact Or.inl ⟨module, hold, h⟩
    · rcases includes_includeStatement.mp h with hold | ⟨hindex, -⟩
      · exact Or.inl ⟨earlier, hearlier, hold⟩
      · obtain ⟨id, index⟩ := other
        obtain ⟨id', index'⟩ := address
        obtain rfl : id' = id := hid
        obtain rfl : index = index' := hindex
        exact Or.inr rfl
  case requested =>
    rintro id name ⟨module, hmodule, h⟩
    rcases module?_updateModule_cases hmodule with hold | ⟨-, earlier, hearlier, rfl⟩
    · exact Or.inl ⟨module, hold, h⟩
    · exact Or.inl ⟨earlier, hearlier, h⟩
  case wellFormed =>
    exact wellFormed_updateModule hrest

/-- A statement that is marked is included. -/
theorem includes_includeStatement_self {address : Address} {statement : Statement}
    (hstatement : graph.statement? address = some statement) :
    (graph.updateModule address.module (·.includeStatement address.index)).Includes address := by
  obtain ⟨module, hmodule, hget⟩ := statement?_eq_some_iff.mp hstatement
  refine ⟨module.includeStatement address.index, ?_, includes_includeStatement.mpr (Or.inr ?_)⟩
  · rw [module?_updateModule, if_pos rfl, hmodule]
    rfl
  · exact ⟨rfl, by rw [hget]; rfl⟩

/-- Asking for a name. -/
theorem notes_request (graph : Graph) (id : Nat) (name : String) :
    graph.Notes (.name id name) (graph.updateModule id (·.request name)) := by
  constructor
  case toExtends =>
    refine extends_updateModule fun module _ => ⟨rfl, fun index h => h, fun name h => ?_⟩
    exact List.mem_append_left _ h
  case includes =>
    rintro address ⟨module, hmodule, h⟩
    rcases module?_updateModule_cases hmodule with hold | ⟨-, earlier, hearlier, rfl⟩
    · exact Or.inl ⟨module, hold, h⟩
    · exact Or.inl ⟨earlier, hearlier, h⟩
  case requested =>
    rintro other asked ⟨module, hmodule, h⟩
    rcases module?_updateModule_cases hmodule with hold | ⟨hid, earlier, hearlier, rfl⟩
    · exact Or.inl ⟨module, hold, h⟩
    · rcases List.mem_append.mp h with hold | hnew
      · exact Or.inl ⟨earlier, hearlier, hold⟩
      · exact Or.inr (by rw [hid, List.mem_singleton.mp hnew])
  case wellFormed =>
    exact wellFormed_updateModule fun _ => rfl

/-- A name that has been asked for is requested. -/
theorem requested_request_self {id : Nat} {module : Module} (name : String)
    (hmodule : graph.module? id = some module) :
    (graph.updateModule id (·.request name)).Requested id name := by
  refine ⟨module.request name, ?_, List.mem_append_right _ List.mem_cons_self⟩
  rw [module?_updateModule, if_pos rfl, hmodule]
  rfl

end Graph

end ScriptBundler

import ScriptBundler.Proofs.Module.FreeNames
import ScriptBundler.Proofs.Scope.Lookups
import ScriptBundler.Proofs.Script.OpenNodes

/-!
# Scopes that are entered again

The first walk over a statement opens a scope for each function, block and catch clause, and goes
back by the scope around the current one.  The second walk finds the scope of a node by its kind and
extent.  As long as no two nodes share these, both walks are at each moment in the same scope: the
chain from there consists of the scopes of the open nodes.
-/

namespace ScriptBundler

open Script

mutual

theorem Script.Outline.flatMap_opens_events : ∀ outline : Outline,
    outline.events.flatMap Event.opens = Outline.keysOf [outline]
  | .node shape parts => by
    have hparts := Outline.flatMap_opens_eventsOf parts
    rw [Outline.keysOf_node, Outline.events, List.flatMap_cons, List.flatMap_append, hparts]
    exact congrArg (_ ++ ·) (List.append_nil _)

/-- A walk that goes on at each node opens the scopes of all nodes. -/
theorem Script.Outline.flatMap_opens_eventsOf : ∀ forest : List Outline,
    (Outline.eventsOf forest).flatMap Event.opens = Outline.keysOf forest
  | [] => rfl
  | first :: rest => by
    rw [Outline.eventsOf, List.flatMap_append, Outline.flatMap_opens_events first,
      Outline.flatMap_opens_eventsOf rest, ← Outline.keysOf_cons]

end

namespace Module

variable {tree : ScopeTree} {scopes : OpenedScopes} {keys : List ScopeKey} {id other : ScopeId}

/-! ## The scopes of open nodes -/

/-- Whether a scope is that of the innermost of some open nodes, and the scopes around it are those
of the other ones. -/
def Within (tree : ScopeTree) (scopes : OpenedScopes) (keys : List ScopeKey) (id : ScopeId) :
    Prop :=
  ∃ ids : List ScopeId, (keys.map fun key => scopes.lookup key) = ids.map some ∧
    tree.chain id = ids ++ [ScopeTree.root]

namespace Within

theorem root (tree : ScopeTree) (scopes : OpenedScopes) : Within tree scopes [] ScopeTree.root :=
  ⟨[], rfl, rfl⟩

/-- The open nodes tell which scope it is. -/
theorem unique (hwithin : Within tree scopes keys id) (hother : Within tree scopes keys other) :
    id = other := by
  obtain ⟨ids, hids, hchain⟩ := hwithin
  obtain ⟨others, hothers, hchain'⟩ := hother
  obtain rfl : ids = others :=
    List.map_injective_iff.mpr (Option.some_injective _) (hids.symm.trans hothers)
  obtain ⟨rest, hhead⟩ := tree.chain_head id
  obtain ⟨rest', hhead'⟩ := tree.chain_head other
  rw [hhead] at hchain
  rw [hhead', ← hchain] at hchain'
  exact (List.cons.inj hchain').1.symm

theorem inner (hsound : tree.Sound) (hwithin : Within tree scopes keys id) {key : ScopeKey}
    (hlookup : scopes.lookup key = some other) (hparent : tree.parent? other = some id) :
    Within tree scopes (key :: keys) other := by
  obtain ⟨ids, hids, hchain⟩ := hwithin
  refine ⟨other :: ids, ?_, ?_⟩
  · rw [List.map_cons, List.map_cons, hids, hlookup]
  · rw [ScopeTree.chain_eq_cons hsound hparent, hchain]
    rfl

/-- It is the scope that the innermost open node has opened. -/
theorem lookup_eq {key : ScopeKey} (hwithin : Within tree scopes (key :: keys) id) :
    scopes.lookup key = some id := by
  obtain ⟨ids, hids, hchain⟩ := hwithin
  obtain ⟨rest, hhead⟩ := tree.chain_head id
  cases ids with
  | nil => contradiction
  | cons first others =>
      rw [hhead] at hchain
      obtain rfl : id = first := (List.cons.inj hchain).1
      exact (List.cons.inj hids).1

/-- Around it is the scope of the next open node. -/
theorem outer (hsound : tree.Sound) {key : ScopeKey}
    (hwithin : Within tree scopes (key :: keys) id) :
    ∃ around, tree.parent? id = some around ∧ Within tree scopes keys around := by
  obtain ⟨ids, hids, hchain⟩ := hwithin
  cases ids with
  | nil => contradiction
  | cons first others =>
      cases hparent : tree.parent? id with
      | none =>
          rw [ScopeTree.chain_of_top hparent] at hchain
          simp at hchain
      | some around =>
          rw [ScopeTree.chain_eq_cons hsound hparent] at hchain
          exact ⟨around, rfl, others, (List.cons.inj hids).2, (List.cons.inj hchain).2⟩

/-- The innermost open node has no scope, or it has opened this one. -/
theorem leave_cases (hsound : tree.Sound) {shape : Node} {nodes : List Node}
    (hwithin : Within tree scopes ((shape :: nodes).filterMap Node.scopeKey?) id) :
    shape.scopeKey? = none ∧ Within tree scopes (nodes.filterMap Node.scopeKey?) id ∨
      ∃ key around, shape.scopeKey? = some key ∧ scopes.lookup key = some id ∧
        tree.parent? id = some around ∧
          Within tree scopes (nodes.filterMap Node.scopeKey?) around := by
  cases hkey : shape.scopeKey? with
  | none =>
      rw [List.filterMap_cons_none hkey] at hwithin
      exact Or.inl ⟨rfl, hwithin⟩
  | some key =>
      rw [List.filterMap_cons_some hkey] at hwithin
      obtain ⟨around, hparent, houter⟩ := hwithin.outer hsound
      exact Or.inr ⟨key, around, rfl, hwithin.lookup_eq, hparent, houter⟩

end Within

/-! ## The first walk -/

namespace Building

variable {state after : Building}

/-- Whether all that has happened is that scopes have been opened for some nodes, and names have
been declared. -/
structure Extends (keys : List ScopeKey) (state after : Building) : Prop where
  proper : after.Proper
  grows : state.tree.Grows after.tree
  kept : ∀ key ∉ keys, after.scopes.lookup key = state.scopes.lookup key

theorem Extends.refl (hproper : state.Proper) : state.Extends [] state :=
  ⟨hproper, .refl _, fun _ _ => rfl⟩

theorem Extends.trans {middle : Building} {others : List ScopeKey}
    (hfirst : state.Extends keys middle) (hsecond : middle.Extends others after) :
    state.Extends (keys ++ others) after where
  proper := hsecond.proper
  grows := hfirst.grows.trans hsecond.grows
  kept := fun key hkey => by
    rw [List.mem_append, not_or] at hkey
    rw [hsecond.kept key hkey.2, hfirst.kept key hkey.1]

/-- What the first walk does when it enters a node with a scope. -/
structure EntersScope (key : ScopeKey) (state after : Building) : Prop extends
    Extends [key] state after where
  lookup : after.scopes.lookup key = some after.current
  parent : after.tree.parent? after.current = some state.current

theorem perform_enter_of_scope (hproper : state.Proper) {shape : Node} {key : ScopeKey}
    (hkey : shape.scopeKey? = some key) :
    state.EntersScope key (scopeBuilder.perform state (.enter shape)) := by
  obtain ⟨middle, names, hadds, hscopes, hopens, -⟩ := visit_opens hproper hkey
  refine ⟨⟨hopens.proper, hadds.grows.trans hopens.grows, fun other hother => ?_⟩, ?_, ?_⟩
  · rw [← hscopes]
    exact (hopens.lookup other).trans (if_neg fun heq => hother (List.mem_singleton.mpr heq))
  · exact (hopens.lookup key).trans (if_pos rfl)
  · rw [← hadds.current]
    exact hopens.parent

theorem perform_enter_of_none (hproper : state.Proper) {shape : Node}
    (hkey : shape.scopeKey? = none) :
    state.Extends [] (scopeBuilder.perform state (.enter shape)) ∧
      (scopeBuilder.perform state (.enter shape)).current = state.current := by
  obtain ⟨hadds, hscopes⟩ := visit_adds hproper hkey
  exact ⟨⟨hadds.proper hproper, hadds.grows, fun key _ => congrArg (·.lookup key) hscopes⟩,
    hadds.current⟩

theorem perform_leave_of_scope {shape : Node} {key : ScopeKey} (hkey : shape.scopeKey? = some key) :
    scopeBuilder.perform state (.leave shape) =
      { state with current := (state.tree.parent? state.current).getD state.current } := by
  simp [Visitor.perform, scopeBuilder, hkey]

theorem perform_leave_of_none {shape : Node} (hkey : shape.scopeKey? = none) :
    scopeBuilder.perform state (.leave shape) = state := by
  simp [Visitor.perform, scopeBuilder, hkey]

theorem perform_extends (hproper : state.Proper) (event : Event) :
    state.Extends event.opens (scopeBuilder.perform state event) := by
  cases event with
  | enter shape =>
      rw [Event.opens_enter]
      cases hkey : shape.scopeKey? with
      | none => exact (perform_enter_of_none hproper hkey).1
      | some key => exact (perform_enter_of_scope hproper hkey).toExtends
  | leave shape =>
      cases hkey : shape.scopeKey? with
      | none =>
          rw [perform_leave_of_none hkey]
          exact .refl hproper
      | some key =>
          rw [perform_leave_of_scope hkey]
          refine ⟨⟨hproper.sound, ?_⟩, .refl _, fun _ _ => rfl⟩
          show (state.tree.parent? state.current).getD state.current < state.tree.scopes.length
          cases hparent : state.tree.parent? state.current with
          | none => exact hproper.current
          | some around => exact Nat.lt_trans (hproper.sound.parent_lt hparent) hproper.current

/-- Later events leave the scopes alone that have been opened. -/
theorem foldl_perform_extends (hproper : state.Proper) (events : List Event) :
    state.Extends (events.flatMap Event.opens) (events.foldl scopeBuilder.perform state) := by
  induction events generalizing state with
  | nil => exact .refl hproper
  | cons event rest ih =>
      have hfirst := perform_extends hproper event
      exact hfirst.trans (ih hfirst.proper)

/-- A node that is entered gets a scope within the current one, and keeps it if none of the nodes
that are entered later has its key. -/
theorem within_enter {before last : Building} {shape : Node} {nodes : List Node}
    {others : List ScopeKey} (hproper : before.Proper)
    (hlater : (scopeBuilder.perform before (.enter shape)).Extends others last)
    (hnew : ∀ key ∈ (Event.enter shape).opens, key ∉ others) (hsound : tree.Sound)
    (hgrows : last.tree.Grows tree)
    (hwithin : Within tree last.scopes (nodes.filterMap Node.scopeKey?) before.current) :
    Within tree last.scopes ((shape :: nodes).filterMap Node.scopeKey?)
      (scopeBuilder.perform before (.enter shape)).current := by
  cases hkey : shape.scopeKey? with
  | none =>
      rw [List.filterMap_cons_none hkey, (perform_enter_of_none hproper hkey).2]
      exact hwithin
  | some key =>
      have henters := perform_enter_of_scope hproper hkey
      rw [List.filterMap_cons_some hkey]
      refine hwithin.inner hsound ?_ ?_
      · rw [hlater.kept key (hnew key (by rw [Event.opens_enter, hkey]; exact List.mem_cons_self))]
        exact henters.lookup
      · rw [(hlater.grows.trans hgrows).parent _ henters.proper.current]
        exact henters.parent

/-- Leaving a node leads back into the scope around it. -/
theorem within_leave {before : Building} {shape : Node} {nodes : List Node}
    (hproper : before.Proper) (hsound : tree.Sound) (hgrows : before.tree.Grows tree)
    (hwithin : Within tree scopes ((shape :: nodes).filterMap Node.scopeKey?) before.current) :
    Within tree scopes (nodes.filterMap Node.scopeKey?)
      (scopeBuilder.perform before (.leave shape)).current := by
  rcases hwithin.leave_cases hsound with ⟨hkey, hsame⟩ | ⟨key, around, hkey, -, hparent, houter⟩
  · rw [perform_leave_of_none hkey]
    exact hsame
  · rw [hgrows.parent _ hproper.current] at hparent
    rw [perform_leave_of_scope hkey, hparent]
    exact houter

end Building

/-- At each moment of the first walk the current scope is that of the innermost open node. -/
theorem within_foldl_scopeBuilder {start : Building} (hproper : start.Proper)
    (hroot : start.current = ScopeTree.root) {events : List Event}
    (hapart : (events.flatMap Event.opens).Nodup) (hsound : tree.Sound)
    (hgrows : (events.foldl scopeBuilder.perform start).tree.Grows tree) {past : List Event}
    {nodes : List Node} (hopening : Opening past nodes) (hpast : past <+: events) :
    Within tree (events.foldl scopeBuilder.perform start).scopes
      (nodes.filterMap Node.scopeKey?) (past.foldl scopeBuilder.perform start).current := by
  induction hopening with
  | nil =>
      rw [List.foldl_nil, hroot]
      exact .root _ _
  | @enter past nodes shape _ ih =>
      have houter := ih ((List.prefix_append _ _).trans hpast)
      have hbefore := (Building.foldl_perform_extends hproper past).proper
      obtain ⟨later, rfl⟩ := hpast
      simp only [List.foldl_append, List.foldl_cons, List.foldl_nil] at houter hgrows ⊢
      have hentered := Building.perform_extends hbefore (.enter shape)
      refine Building.within_enter hbefore (Building.foldl_perform_extends hentered.proper later)
        (fun key hkey hmem => ?_) hsound hgrows houter
      -- a later node with this key would be a second one
      rw [List.flatMap_append, List.nodup_append] at hapart
      refine hapart.2.2 key ?_ key hmem rfl
      rw [List.flatMap_append, List.flatMap_singleton]
      exact List.mem_append_right _ hkey
  | @leave past nodes shape _ ih =>
      have hinner := ih ((List.prefix_append _ _).trans hpast)
      have hbefore := (Building.foldl_perform_extends hproper past).proper
      obtain ⟨later, rfl⟩ := hpast
      simp only [List.foldl_append, List.foldl_cons, List.foldl_nil] at hinner hgrows ⊢
      have hleft := Building.perform_extends hbefore (.leave shape)
      have hlater := Building.foldl_perform_extends hleft.proper later
      exact Building.within_leave hbefore hsound ((hleft.grows.trans hlater.grows).trans hgrows)
        hinner

/-! ## The second walk -/

section Collecting

variable {defines : List String} {state : Collecting} {shape : Node}

theorem visit_current (state : Collecting) (tree : ScopeTree) (defines : List String)
    (shape : Node) : (state.visit tree defines shape).current = state.current := by
  cases shape with
  | ident | shorthand => exact reads_current ..
  | assign | update => exact (writes_current ..).1
  | call arguments =>
      unfold Collecting.visit
      dsimp only
      induction arguments generalizing state with
      | nil => rfl
      | cons first rest ih => exact (ih _).trans (writes_current ..).1
  | _ => rfl

theorem dependencyCollector_enter_current :
    ((dependencyCollector tree scopes defines).perform state (.enter shape)).current =
      (scopes.of? shape).getD state.current := by
  unfold Visitor.perform dependencyCollector
  dsimp only
  cases scopes.of? shape with
  | none => split <;> [rfl; exact visit_current ..]
  | some id => split <;> [rfl; exact visit_current ..]

theorem dependencyCollector_leave_of_none (hkey : shape.scopeKey? = none) :
    (dependencyCollector tree scopes defines).perform state (.leave shape) = state := by
  simp [Visitor.perform, dependencyCollector, OpenedScopes.of?, hkey]

theorem dependencyCollector_leave_of_scope {key : ScopeKey} (hkey : shape.scopeKey? = some key)
    (hlookup : scopes.lookup key = some id) :
    (dependencyCollector tree scopes defines).perform state (.leave shape) =
      { state with current := (tree.parent? state.current).getD state.current } := by
  simp [Visitor.perform, dependencyCollector, OpenedScopes.of?, hkey, hlookup]

/-- A node that is entered leads into its scope, if it has one. -/
theorem Collecting.within_enter {nodes : List Node}
    (hscope : ∃ id, Within tree scopes ((shape :: nodes).filterMap Node.scopeKey?) id)
    (hwithin : Within tree scopes (nodes.filterMap Node.scopeKey?) state.current) :
    Within tree scopes ((shape :: nodes).filterMap Node.scopeKey?)
      ((dependencyCollector tree scopes defines).perform state (.enter shape)).current := by
  rw [dependencyCollector_enter_current, OpenedScopes.of?]
  cases hkey : shape.scopeKey? with
  | none =>
      rw [List.filterMap_cons_none hkey]
      exact hwithin
  | some key =>
      obtain ⟨id, hinner⟩ := hscope
      rw [List.filterMap_cons_some hkey] at hinner ⊢
      rw [Option.bind_some, hinner.lookup_eq]
      exact hinner

/-- Leaving a node leads back into the scope around it. -/
theorem Collecting.within_leave {nodes : List Node} (hsound : tree.Sound)
    (hwithin : Within tree scopes ((shape :: nodes).filterMap Node.scopeKey?) state.current) :
    Within tree scopes (nodes.filterMap Node.scopeKey?)
      ((dependencyCollector tree scopes defines).perform state (.leave shape)).current := by
  rcases hwithin.leave_cases hsound with
    ⟨hkey, hsame⟩ | ⟨key, around, hkey, hlookup, hparent, houter⟩
  · rw [dependencyCollector_leave_of_none hkey]
    exact hsame
  · rw [dependencyCollector_leave_of_scope hkey hlookup, hparent]
    exact houter

end Collecting

/-- As long as there are scopes in which the open nodes can be, the second walk is in them. -/
theorem within_foldl_dependencyCollector {defines : List String} {start : Collecting}
    (hroot : start.current = ScopeTree.root) (hsound : tree.Sound) {past : List Event}
    {nodes : List Node} (hopening : Opening past nodes)
    (hscopes : ∀ before, before <+: past → ∃ id, Within tree scopes (openKeys before) id) :
    Within tree scopes (nodes.filterMap Node.scopeKey?)
      (past.foldl (dependencyCollector tree scopes defines).perform start).current := by
  induction hopening with
  | nil =>
      rw [List.foldl_nil, hroot]
      exact .root _ _
  | @enter past nodes shape hopening ih =>
      have houter := ih fun before hbefore =>
        hscopes before (hbefore.trans (List.prefix_append _ _))
      have hscope := hscopes _ (List.prefix_refl _)
      rw [openKeys, (hopening.enter shape).openNodes_eq] at hscope
      rw [List.foldl_append]
      exact Collecting.within_enter hscope houter
  | leave _ ih =>
      have hinner := ih fun before hbefore =>
        hscopes before (hbefore.trans (List.prefix_append _ _))
      rw [List.foldl_append]
      exact Collecting.within_leave hsound hinner

/-! ## Both walks over a statement -/

/-- The second walk does not look into imports. -/
def skipsImports (shape : Node) : Control :=
  if shape.isImport then .skip else .proceed

theorem dependencyCollector_answers (tree : ScopeTree) (scopes : OpenedScopes)
    (defines : List String) :
    (dependencyCollector tree scopes defines).Answers skipsImports := by
  intro shape state
  cases shape <;> rfl

theorem calls_scopeBuilder (forest : List Outline) (start : Building) :
    scopeBuilder.calls forest start = Outline.eventsOf forest :=
  Visitor.calls_of_proceed (fun _ _ => rfl) forest start

theorem run_scopeBuilder (forest : List Outline) (start : Building) :
    scopeBuilder.run forest start = (Outline.eventsOf forest).foldl scopeBuilder.perform start := by
  rw [Visitor.run_eq_foldl_calls, calls_scopeBuilder]

/-- The second walk is called for what the first one is called for, but not within imports. -/
theorem calls_dependencyCollector (tree : ScopeTree) (scopes : OpenedScopes)
    (defines : List String) (forest : List Outline) (start : Collecting) :
    (dependencyCollector tree scopes defines).calls forest start =
      unskipped skipsImports 0 (Outline.eventsOf forest) := by
  rw [Visitor.calls_eq (dependencyCollector_answers tree scopes defines), upToEnd_of_not_any]
  rw [List.any_eq_false]
  rintro (shape | shape) -
  · rw [Event.ends_enter, skipsImports]
    split <;> simp
  · simp [Event.ends]

theorem opening_of_prefix_eventsOf {forest : List Outline} {past : List Event}
    (hpast : past <+: Outline.eventsOf forest) : Opening past (openNodes past) := by
  rw [← calls_scopeBuilder forest ⟨.empty, ScopeTree.root, [], []⟩] at hpast
  exact Visitor.opening_of_prefix_calls hpast

theorem opening_unskipped {forest : List Outline} {past : List Event}
    (hpast : past <+: Outline.eventsOf forest) :
    Opening (unskipped skipsImports 0 past) (openNodes (unskipped skipsImports 0 past)) := by
  obtain ⟨later, hlater⟩ := hpast
  have hreached := unskipped_prefix skipsImports 0 past later
  rw [hlater, ← calls_dependencyCollector .empty [] [] forest ⟨ScopeTree.root, [], []⟩] at hreached
  exact Visitor.opening_of_prefix_calls hreached

mutual

theorem not_isImport_of_events {shape : Node} : ∀ outline : Outline, outline.Plain →
    Event.enter shape ∈ outline.events → shape.isImport = false
  | .node other parts, hplain, hmem => by
    rw [Outline.events, List.mem_cons, List.mem_append, List.mem_singleton] at hmem
    rcases hmem with heq | hparts | heq
    · obtain rfl := Event.enter.inj heq
      exact hplain.1
    · exact not_isImport_of_eventsOf parts hplain.2.2 hparts
    · contradiction

/-- No import is entered in a statement of another kind. -/
theorem not_isImport_of_eventsOf {shape : Node} : ∀ forest : List Outline, Outline.PlainAll forest →
    Event.enter shape ∈ Outline.eventsOf forest → shape.isImport = false
  | [], _, hmem => absurd hmem List.not_mem_nil
  | first :: rest, hplain, hmem => by
    rw [Outline.eventsOf, List.mem_append] at hmem
    rcases hmem with hfirst | hrest
    · exact not_isImport_of_events first hplain.1 hfirst
    · exact not_isImport_of_eventsOf rest hplain.2 hrest

end

theorem keysOf_importDecl {item : Item} {specifiers : List ImportSpecifier} {text : String}
    (hform : item.form = .importDecl specifiers text) : Outline.keysOf item.outline = [] := by
  have hnames : ∀ specifiers : List ImportSpecifier, Outline.keysOf
      (specifiers.map fun specifier => .leaf (.ident specifier.binding)) = [] := by
    intro specifiers
    induction specifiers with
    | nil => rfl
    | cons first rest ih => exact ih
  rw [Item.outline, hform, Outline.keysOf_node]
  exact hnames specifiers

/-- The open nodes are among those of the statement. -/
theorem openKeys_subset_keysOf {forest : List Outline} {past : List Event}
    (hopening : Opening past (openNodes past)) (hpast : past ⊆ Outline.eventsOf forest) :
    openKeys past ⊆ Outline.keysOf forest := by
  intro key hkey
  obtain ⟨event, hevent, hopens⟩ := List.mem_flatMap.mp (hopening.subset_opens hkey)
  rw [← Outline.flatMap_opens_eventsOf]
  exact List.mem_flatMap.mpr ⟨event, hpast hevent, hopens⟩

theorem openKeys_eq_nil {forest : List Outline} (hkeys : Outline.keysOf forest = [])
    {past : List Event} (hopening : Opening past (openNodes past))
    (hpast : past ⊆ Outline.eventsOf forest) : openKeys past = [] := by
  have hsubset := openKeys_subset_keysOf hopening hpast
  rw [hkeys] at hsubset
  exact List.subset_nil.mp hsubset

/-- Only imports are left out by the second walk, and they have no scopes. -/
theorem unskipped_or_keysOf_eq_nil (item : Item) :
    (∀ past, past <+: Outline.eventsOf item.outline → unskipped skipsImports 0 past = past) ∨
      Outline.keysOf item.outline = [] := by
  by_cases himport : ∃ specifiers text, item.form = .importDecl specifiers text
  · obtain ⟨specifiers, text, hform⟩ := himport
    exact Or.inr (keysOf_importDecl hform)
  · have hplain := Item.plain fun specifiers text hform => himport ⟨specifiers, text, hform⟩
    refine Or.inl fun past hpast => unskipped_eq_self fun shape hmem => ?_
    have hshape := not_isImport_of_eventsOf item.outline hplain (hpast.subset hmem)
    simp [skipsImports, hshape]

/-- Whether a statement has been walked over for the first time from some state on, in a module that
has some scopes in the end. -/
structure BuiltAt (start : Building) (tree : ScopeTree) (statement : Statement) : Prop where
  proper : start.Proper
  current : start.current = ScopeTree.root
  scopes : statement.scopes = (scopeBuilder.run statement.outline start).scopes
  defines : statement.defines = (scopeBuilder.run statement.outline start).defines
  grows : (scopeBuilder.run statement.outline start).tree.Grows tree
  outline : ∃ item : Item, statement.outline = item.outline

/-- The state in which the second walk over a statement starts. -/
def Collecting.start : Collecting :=
  { current := ScopeTree.root, dependsOn := [], modifies := [] }

/-- The walk that collects the dependencies of a statement. -/
def Statement.collector (statement : Statement) (tree : ScopeTree) : Visitor Collecting :=
  dependencyCollector tree statement.scopes statement.defines

/-- The state of the second walk over a statement after the events that the first walk has come to
at some moment.  Of these, the second walk leaves out what is within an import. -/
def Statement.collecting (statement : Statement) (tree : ScopeTree) (past : List Event) :
    Collecting :=
  (unskipped skipsImports 0 past).foldl (statement.collector tree).perform .start

theorem Statement.run_collector (statement : Statement) (tree : ScopeTree) :
    (statement.collector tree).run statement.outline .start =
      statement.collecting tree (Outline.eventsOf statement.outline) := by
  rw [Visitor.run_eq_foldl_calls, collecting, collector, calls_dependencyCollector]

/-- Whether the second walk over a statement enters the scopes again that the first one has opened,
from some state on. -/
structure Reenters (start : Building) (tree : ScopeTree) (statement : Statement) : Prop where
  /-- The first walk has left what is known of the scopes and names of the statement. -/
  built : statement.scopes = (scopeBuilder.run statement.outline start).scopes ∧
    statement.defines = (scopeBuilder.run statement.outline start).defines
  /-- The second walk has left what is known of its dependencies. -/
  collected :
    statement.dependsOn = ((statement.collector tree).run statement.outline .start).dependsOn ∧
      statement.modifies = ((statement.collector tree).run statement.outline .start).modifies
  calls : (statement.collector tree).calls statement.outline .start =
    unskipped skipsImports 0 (scopeBuilder.calls statement.outline start)
  current : ∀ past, past <+: scopeBuilder.calls statement.outline start →
    (statement.collecting tree past).current = (past.foldl scopeBuilder.perform start).current
  within : ∀ past, past <+: scopeBuilder.calls statement.outline start →
    Within tree statement.scopes (openKeys past) (statement.collecting tree past).current
  ends : (scopeBuilder.run statement.outline start).current = ScopeTree.root ∧
    ((statement.collector tree).run statement.outline .start).current = ScopeTree.root

namespace BuiltAt

variable {start : Building} {statement : Statement} {past : List Event}
  (hbuilt : BuiltAt start tree statement) (hsound : tree.Sound)
  (hapart : (Outline.keysOf statement.outline).Nodup)

include hbuilt hsound hapart

theorem within_building (hpast : past <+: Outline.eventsOf statement.outline) :
    Within tree statement.scopes (openKeys past)
      (past.foldl scopeBuilder.perform start).current := by
  have hgrows := hbuilt.grows
  rw [hbuilt.scopes]
  rw [run_scopeBuilder] at hgrows ⊢
  refine within_foldl_scopeBuilder hbuilt.proper hbuilt.current ?_ hsound hgrows
    (opening_of_prefix_eventsOf hpast) hpast
  rw [Outline.flatMap_opens_eventsOf]
  exact hapart

/-- Each node with a scope is entered at some moment. -/
theorem lookup_isSome {key : ScopeKey} (hkey : key ∈ Outline.keysOf statement.outline) :
    ∃ id, statement.scopes.lookup key = some id := by
  rw [← Outline.flatMap_opens_eventsOf] at hkey
  obtain ⟨event, hevent, hopens⟩ := List.mem_flatMap.mp hkey
  cases event with
  | leave shape => exact absurd hopens List.not_mem_nil
  | enter shape =>
      obtain ⟨past, later, hevents⟩ := List.append_of_mem hevent
      have hpast : past ++ [.enter shape] <+: Outline.eventsOf statement.outline :=
        ⟨later, by rw [hevents, List.append_assoc]; rfl⟩
      have hbefore := opening_of_prefix_eventsOf ((List.prefix_append _ _).trans hpast)
      have hwithin := hbuilt.within_building hsound hapart hpast
      rw [openKeys, (hbefore.enter shape).openNodes_eq,
        List.filterMap_cons_some (Option.mem_toList.mp hopens)] at hwithin
      exact ⟨_, hwithin.lookup_eq⟩

theorem within_collecting (hpast : past <+: Outline.eventsOf statement.outline) :
    Within tree statement.scopes (openKeys past) (statement.collecting tree past).current := by
  obtain ⟨item, houtline⟩ := hbuilt.outline
  rcases houtline ▸ unskipped_or_keysOf_eq_nil item with hsame | hkeys
  · rw [Statement.collecting, hsame past hpast]
    exact within_foldl_dependencyCollector rfl hsound (opening_of_prefix_eventsOf hpast)
      fun before hbefore => ⟨_, hbuilt.within_building hsound hapart (hbefore.trans hpast)⟩
  · -- within an import nothing is open, whichever events are left out
    have hreached := opening_unskipped hpast
    have hsubset := List.Subset.trans (unskipped_sublist skipsImports 0 past).subset hpast.subset
    rw [openKeys_eq_nil hkeys (opening_of_prefix_eventsOf hpast) hpast.subset,
      ← openKeys_eq_nil hkeys hreached hsubset]
    refine within_foldl_dependencyCollector rfl hsound hreached fun before hbefore => ?_
    rw [openKeys_eq_nil hkeys (hreached.of_prefix hbefore)
      (List.Subset.trans hbefore.subset hsubset)]
    exact ⟨_, .root _ _⟩

theorem current_collecting (hpast : past <+: Outline.eventsOf statement.outline) :
    (statement.collecting tree past).current = (past.foldl scopeBuilder.perform start).current :=
  (hbuilt.within_collecting hsound hapart hpast).unique
    (hbuilt.within_building hsound hapart hpast)

/-- When all nodes have been left the first walk is at the top level. -/
theorem current_run : (scopeBuilder.run statement.outline start).current = ScopeTree.root := by
  have hlast := hbuilt.within_building hsound hapart (List.prefix_refl _)
  have hleft : openKeys (Outline.eventsOf statement.outline) = [] := by
    rw [openKeys, ← calls_scopeBuilder statement.outline start,
      Visitor.openNodes_calls (Visitor.walkAll_steady scopeBuilder_steady _ _)]
    rfl
  rw [hleft] at hlast
  rw [run_scopeBuilder]
  exact hlast.unique (.root _ _)

/-- If the nodes of a statement can be told apart, the second walk over it enters the scopes again
that the first one has opened. -/
theorem reenters : Reenters start tree (collectDependencies tree statement) := by
  have hcurrent : ∀ past, past <+: Outline.eventsOf statement.outline →
      (statement.collecting tree past).current = (past.foldl scopeBuilder.perform start).current :=
    fun past => hbuilt.current_collecting hsound hapart
  have hend := hbuilt.current_run hsound hapart
  refine ⟨⟨hbuilt.scopes, hbuilt.defines⟩, ⟨rfl, rfl⟩, ?_, fun past hpast => ?_,
    fun past hpast => ?_, hend, ?_⟩
  · rw [calls_scopeBuilder]
    exact calls_dependencyCollector ..
  · rw [calls_scopeBuilder] at hpast
    exact hcurrent past hpast
  · rw [calls_scopeBuilder] at hpast
    exact hbuilt.within_collecting hsound hapart hpast
  · rw [run_scopeBuilder] at hend
    rw [Statement.run_collector, ← hend]
    exact hcurrent _ (List.prefix_refl _)

end BuiltAt

/-- The state in which the first walk comes to a statement of a module: the statements before it
have been walked over. -/
def buildingAt (source : List Char) (tree : Tree) (index : Nat) : Building :=
  { tree := (buildScopes source 0
      ((place source tree.items tree.comments).take index) ScopeTree.empty).2
    current := ScopeTree.root, scopes := [], defines := [] }

/-- The statements before a statement have been walked over when the first walk comes to it, and
those behind it let the scopes grow. -/
theorem buildScopes_builtAt (source : List Char) (index : Nat) {placed : List Placed}
    {tree : ScopeTree} (hsound : tree.Sound) {position : Nat} {statement : Statement}
    (hstatement : (buildScopes source index placed tree).1[position]? = some statement) :
    BuiltAt ⟨(buildScopes source index (placed.take position) tree).2, ScopeTree.root, [], []⟩
      (buildScopes source index placed tree).2 statement := by
  induction placed generalizing index tree position with
  | nil => simp [buildScopes] at hstatement
  | cons first rest ih =>
      have hproper : Building.Proper ⟨tree, ScopeTree.root, [], []⟩ := ⟨hsound, hsound.root_lt⟩
      have hfirst := (walked_item first.item hproper).adds.sound
      cases position with
      | zero =>
          rw [buildScopes] at hstatement ⊢
          obtain rfl := Option.some.inj hstatement
          exact ⟨hproper, rfl, rfl, rfl, (buildScopes_scoping source (index + 1) rest hfirst).grows,
            first.item, rfl⟩
      | succ position =>
          rw [buildScopes] at hstatement
          rw [List.take_succ_cons, buildScopes, buildScopes]
          exact ih (index + 1) hfirst hstatement

end Module
end ScriptBundler

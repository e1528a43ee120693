import Mathlib.Logic.Relation
import ScriptBundler.Proofs.Graph.Following

/-!
# Demands

What must go into a bundle, as a closure.  A demand is for a statement, for a name of a module, or
for everything in a module; `Graph.Calls` says, by the tables of the modules alone, which demands
another one makes at once.  The statements that a bundle holds are meant to be those that are
demanded, over any number of such steps.

The flags that expansion sets are marks of demands.  A marked demand is `Settled` when all that it
calls for is marked as well.  Expansion sets a mark before it follows it, so that in the middle of
it some marked demands are not settled; `Graph.Expands` says that each of these is an old one.
-/

namespace ScriptBundler

open Files ScriptBundler.Module Script

/-- What can be demanded of a graph. -/
inductive Demand where
  | statement (address : Address)
  | name (module : Nat) (name : String)
  /-- Everything in a module, for the entry module with its export lists. -/
  | everything (module : Nat) (isEntry : Bool)
deriving Repr, DecidableEq

/-- The module that a demand is about. -/
def Demand.home : Demand → Nat
  | .statement address => address.module
  | .name id _ => id
  | .everything id _ => id

/-- Whether a statement is an import declaration. -/
def Module.isImport : ItemForm → Bool
  | .importDecl _ _ => true
  | _ => false

namespace Graph

/-- The demands that a demand makes at once. -/
inductive Calls (graph : Graph) : Demand → Demand → Prop where
  /-- Everything in a module are its statements other than imports and export lists. -/
  | plain {id index : Nat} {isEntry : Bool} {statement : Statement}
      (hstatement : graph.statement? ⟨id, index⟩ = some statement)
      (himport : isImport statement.form = false) (hlisted : listedNames statement.form = []) :
      Calls graph (.everything id isEntry) (.statement ⟨id, index⟩)
  /-- For the entry module, the export lists as well. -/
  | listing {id index : Nat} {statement : Statement}
      (hstatement : graph.statement? ⟨id, index⟩ = some statement)
      (hlisted : listedNames statement.form ≠ []) :
      Calls graph (.everything id true) (.statement ⟨id, index⟩)
  /-- For the entry module, the names in its export lists. -/
  | listed {id index : Nat} {statement : Statement} {name : String}
      (hstatement : graph.statement? ⟨id, index⟩ = some statement)
      (hname : name ∈ listedNames statement.form) :
      Calls graph (.everything id true) (.name id name)
  /-- A statement needs the names that it depends on. -/
  | dependency {address : Address} {statement : Statement} {name : String}
      (hstatement : graph.statement? address = some statement)
      (hname : name ∈ statement.dependsOn) :
      Calls graph (.statement address) (.name address.module name)
  /-- A statement brings the statements that modify a name which it defines. -/
  | modifier {address : Address} {statement : Statement} {module : Module} {name : String}
      {index : Nat} (hstatement : graph.statement? address = some statement)
      (hname : name ∈ statement.defines) (hmodule : graph.module? address.module = some module)
      (hindex : index ∈ module.modifiersOf name) :
      Calls graph (.statement address) (.statement ⟨address.module, index⟩)
  /-- A name for a whole module needs everything in that module. -/
  | wholeImport {id : Nat} {module : Module} {name : String} {entry : Import} {target : Nat}
      (hmodule : graph.module? id = some module)
      (hentry : module.imports.get? name = some entry) (hwhole : entry.name = "*")
      (htarget : graph.leadsTo module entry = some target) :
      Calls graph (.name id name) (.everything target false)
  /-- Any other imported name needs what the module that it comes from exports under its name. -/
  | namedImport {id : Nat} {module : Module} {name : String} {entry : Import} {target : Nat}
      {exporter : Module} {exported : Export} (hmodule : graph.module? id = some module)
      (hentry : module.imports.get? name = some entry) (hnamed : entry.name ≠ "*")
      (htarget : graph.leadsTo module entry = some target)
      (hexporter : graph.module? target = some exporter)
      (hexported : exporter.exports.get? entry.name = some exported) :
      Calls graph (.name id name) (.name target exported.localName)
  /-- The default export of a declaration needs the name that is declared. -/
  | declaredDefault {id : Nat} {module : Module} {entry : Export}
      (hmodule : graph.module? id = some module) (hown : module.imports.get? "default" = none)
      (hentry : module.exports.get? "default" = some entry)
      (hdeclared : entry.isDeclaration = true) :
      Calls graph (.name id "default") (.name id entry.localName)
  /-- Any other default export needs its statement. -/
  | defaultStatement {id : Nat} {module : Module} {entry : Export} {index : Nat}
      (hmodule : graph.module? id = some module) (hown : module.imports.get? "default" = none)
      (hentry : module.exports.get? "default" = some entry)
      (hdeclared : entry.isDeclaration = false) (hindex : entry.statement = some index) :
      Calls graph (.name id "default") (.statement ⟨id, index⟩)
  /-- A name of the module itself needs the statement that defines it. -/
  | definition {id : Nat} {module : Module} {name : String} {index : Nat}
      (hmodule : graph.module? id = some module) (hown : module.imports.get? name = none)
      (hname : name ≠ "default") (hindex : module.definitions.get? name = some index) :
      Calls graph (.name id name) (.statement ⟨id, index⟩)

/-- Whether expansion has marked a demand.  Everything in a module is marked if all that it calls
for is. -/
def Marks (graph : Graph) : Demand → Prop
  | .statement address => graph.Includes address
  | .name id name => graph.Requested id name
  | .everything id isEntry =>
    (∃ module, graph.module? id = some module) ∧
      ∀ demand, graph.Calls (.everything id isEntry) demand →
        match demand with
        | .statement address => graph.Includes address
        | .name id name => graph.Requested id name
        | .everything _ _ => True

/-- Whether an import has been followed without a fault: the module that it leads to is there, and
exports the name that is imported. -/
def Followed (graph : Graph) (module : Module) (entry : Import) : Prop :=
  ∀ path, resolveFrom (directoryOf module.path) entry.source = .file path →
    ∃ target exporter, graph.idOf? path = some target ∧ graph.module? target = some exporter ∧
      (entry.name ≠ "*" → ∃ exported, exporter.exports.get? entry.name = some exported)

/-- Whether all that a demand calls for is marked.  This counts an import only if it has been
followed, and for an export list also the names that it lists. -/
structure Settled (graph : Graph) (demand : Demand) : Prop where
  calls : ∀ called, graph.Calls demand called → graph.Marks called
  followed : ∀ id name module entry, demand = .name id name → graph.module? id = some module →
    module.imports.get? name = some entry → graph.Followed module entry
  listed : ∀ address statement name, demand = .statement address →
    graph.statement? address = some statement → name ∈ listedNames statement.form →
    graph.Requested address.module name

/-- Whether a graph has what is demanded: the module is there, and the statement, if it is one, is
there and no export list. -/
def Has (graph : Graph) : Demand → Prop
  | .statement address =>
    ∃ statement, graph.statement? address = some statement ∧ listedNames statement.form = []
  | .name id _ => ∃ module, graph.module? id = some module
  | .everything id _ => ∃ module, graph.module? id = some module

/-! ## Statements of a growing graph -/

variable {graph before middle after : Graph}

theorem statement?_eq_some_iff {address : Address} {statement : Statement} :
    graph.statement? address = some statement ↔
      ∃ module, graph.module? address.module = some module ∧
        module.statement? address.index = some statement :=
  Option.bind_eq_some_iff

theorem includes_iff {address : Address} :
    graph.Includes address ↔
      ∃ statement, graph.statement? address = some statement ∧ statement.included = true := by
  constructor
  · rintro ⟨module, hmodule, statement, hstatement, hincluded⟩
    exact ⟨statement, statement?_eq_some_iff.mpr ⟨module, hmodule, hstatement⟩, hincluded⟩
  · rintro ⟨statement, hstatement, hincluded⟩
    obtain ⟨module, hmodule, hget⟩ := statement?_eq_some_iff.mp hstatement
    exact ⟨module, hmodule, statement, hget, hincluded⟩

theorem includes_iff_of_statement? {address : Address} {statement : Statement}
    (hstatement : graph.statement? address = some statement) :
    graph.Includes address ↔ statement.included = true := by
  simp [includes_iff, hstatement]

theorem requested_iff_of_module? {id : Nat} {module : Module} {name : String}
    (hmodule : graph.module? id = some module) :
    graph.Requested id name ↔ name ∈ module.requested := by
  simp [Requested, hmodule]

theorem has_statement_iff {address : Address} {statement : Statement}
    (hstatement : graph.statement? address = some statement) :
    graph.Has (.statement address) ↔ listedNames statement.form = [] := by
  simp [Has, hstatement]

/-- A module that is there early on and later on has grown. -/
theorem Extends.grows (hextends : before.Extends after) {id : Nat} {module later : Module}
    (hmodule : before.module? id = some module) (hlater : after.module? id = some later) :
    module.Grows later := by
  obtain ⟨found, hfound, hgrows⟩ := hextends.module id module hmodule
  obtain rfl := Option.some.inj (hfound.symm.trans hlater)
  exact hgrows

theorem Extends.statement? (hextends : before.Extends after) {address : Address}
    {statement : Statement} (hstatement : before.statement? address = some statement) :
    ∃ later, after.statement? address = some later ∧ later.asRead = statement.asRead := by
  obtain ⟨module, hmodule, hget⟩ := statement?_eq_some_iff.mp hstatement
  obtain ⟨found, hfound, hgrows⟩ := hextends.module _ module hmodule
  obtain ⟨later, hlater, heq⟩ := statement?_of_asRead hgrows.asRead hget
  exact ⟨later, statement?_eq_some_iff.mpr ⟨found, hfound, hlater⟩, heq⟩

/-- A module that is there early on has all its statements then. -/
theorem Extends.statement?_back (hextends : before.Extends after) {address : Address}
    {module : Module} (hmodule : before.module? address.module = some module)
    {later : Statement} (hlater : after.statement? address = some later) :
    ∃ statement, before.statement? address = some statement ∧
      statement.asRead = later.asRead := by
  obtain ⟨found, hfound, hget⟩ := statement?_eq_some_iff.mp hlater
  obtain ⟨statement, hstatement, heq⟩ :=
    statement?_of_asRead (hextends.grows hmodule hfound).asRead.symm hget
  exact ⟨statement, statement?_eq_some_iff.mpr ⟨module, hmodule, hstatement⟩, heq⟩

/-- An import leads to the same module later on. -/
theorem Extends.leadsTo (hextends : before.Extends after) {module later : Module}
    (hpath : later.path = module.path) {entry other : Import}
    (hsource : other.source = entry.source) {target : Nat}
    (htarget : before.leadsTo module entry = some target) :
    after.leadsTo later other = some target := by
  unfold Graph.leadsTo at htarget ⊢
  rw [hpath, hsource]
  cases hresolve : resolveFrom (directoryOf module.path) entry.source with
  | file path =>
      rw [hresolve] at htarget
      exact hextends.idOf? htarget
  | external =>
      rw [hresolve] at htarget
      contradiction

/-- An import that has been followed leads where it led early on, to a module that was there then. -/
theorem Extends.leadsTo_back (hextends : before.Extends after) {module later : Module}
    (hpath : module.path = later.path) {entry other : Import}
    (hsource : entry.source = other.source) (hfollowed : before.Followed module entry)
    {target : Nat} (htarget : after.leadsTo later other = some target) :
    before.leadsTo module entry = some target ∧
      ∃ exporter, before.module? target = some exporter := by
  unfold Graph.leadsTo at htarget ⊢
  rw [hpath, hsource]
  cases hresolve : resolveFrom (directoryOf later.path) other.source with
  | file path =>
      rw [hresolve] at htarget
      -- the file had been read by then, and keeps its number
      obtain ⟨id, exporter, hid, hexporter, -⟩ := hfollowed path (by rw [hpath, hsource, hresolve])
      obtain rfl := Option.some.inj ((hextends.idOf? hid).symm.trans htarget)
      exact ⟨hid, exporter, hexporter⟩
  | external =>
      rw [hresolve] at htarget
      contradiction

theorem module?_of_leadsTo (hwf : graph.WellFormed) {module : Module} {entry : Import}
    {target : Nat} (htarget : graph.leadsTo module entry = some target) :
    ∃ found, graph.module? target = some found := by
  unfold Graph.leadsTo at htarget
  cases hresolve : resolveFrom (directoryOf module.path) entry.source with
  | file path =>
      rw [hresolve] at htarget
      obtain ⟨found, hfound, -⟩ := hwf.ofPath _ target htarget
      exact ⟨found, hfound⟩
  | external =>
      rw [hresolve] at htarget
      contradiction

/-- What a demand calls for is there, apart from the export lists of the entry module. -/
theorem Calls.has (hwf : graph.WellFormed) {demand called : Demand}
    (hcalls : graph.Calls demand called) (hinner : ∀ id, demand ≠ .everything id true) :
    graph.Has called := by
  -- the tables of a module refer to statements that are there
  have hstatement : ∀ id module index, graph.module? id = some module →
      (∃ statement, module.statement? index = some statement ∧ listedNames statement.form = []) →
      graph.Has (.statement ⟨id, index⟩) := by
    rintro id module index hmodule ⟨statement, hget, hform⟩
    exact ⟨statement, statement?_eq_some_iff.mpr ⟨module, hmodule, hget⟩, hform⟩
  cases hcalls with
  | plain hget himport hlisted => exact ⟨_, hget, hlisted⟩
  | listing | listed => exact absurd rfl (hinner _)
  | dependency hget hname =>
      obtain ⟨module, hmodule, -⟩ := statement?_eq_some_iff.mp hget
      exact ⟨module, hmodule⟩
  | modifier hget hname hmodule hindex =>
      exact hstatement _ _ _ hmodule ((hwf.module _ _ hmodule).modifier _ _ hindex)
  | wholeImport hmodule hentry hwhole htarget => exact module?_of_leadsTo hwf htarget
  | namedImport hmodule hentry hnamed htarget hexporter hexported => exact ⟨_, hexporter⟩
  | declaredDefault hmodule hown hentry hdeclared => exact ⟨_, hmodule⟩
  | defaultStatement hmodule hown hentry hdeclared hindex =>
      exact hstatement _ _ _ hmodule ((hwf.module _ _ hmodule).defaultExport _ _ hentry hindex)
  | definition hmodule hown hname hindex =>
      exact hstatement _ _ _ hmodule ((hwf.module _ _ hmodule).definition _ _ hindex)

theorem Calls.mono (hextends : before.Extends after) {demand called : Demand}
    (hcalls : before.Calls demand called) : after.Calls demand called := by
  cases hcalls with
  | plain hstatement himport hlisted =>
      obtain ⟨later, hlater, heq⟩ := hextends.statement? hstatement
      have hform := Statement.form_eq_of_asRead heq
      exact .plain hlater (hform ▸ himport) (hform ▸ hlisted)
  | listing hstatement hlisted =>
      obtain ⟨later, hlater, heq⟩ := hextends.statement? hstatement
      exact .listing hlater (Statement.form_eq_of_asRead heq ▸ hlisted)
  | listed hstatement hname =>
      obtain ⟨later, hlater, heq⟩ := hextends.statement? hstatement
      exact .listed hlater (Statement.form_eq_of_asRead heq ▸ hname)
  | dependency hstatement hname =>
      obtain ⟨later, hlater, heq⟩ := hextends.statement? hstatement
      exact .dependency hlater (Statement.dependsOn_eq_of_asRead heq ▸ hname)
  | modifier hstatement hname hmodule hindex =>
      obtain ⟨later, hlater, heq⟩ := hextends.statement? hstatement
      obtain ⟨found, hfound, hgrows⟩ := hextends.module _ _ hmodule
      have hdefines := Statement.defines_eq_of_asRead heq
      have hmodifiers := modifiersOf_eq_of_asRead hgrows.asRead
      exact .modifier hlater (hdefines ▸ hname) hfound (hmodifiers ▸ hindex)
  | wholeImport hmodule hentry hwhole htarget =>
      obtain ⟨found, hfound, hgrows⟩ := hextends.module _ _ hmodule
      obtain ⟨other, hother, hsource, hname⟩ := get?_imports_eq_some_of_asRead hgrows.asRead hentry
      have hleads := hextends.leadsTo (path_eq_of_asRead hgrows.asRead) hsource htarget
      exact .wholeImport hfound hother (hname.trans hwhole) hleads
  | namedImport hmodule hentry hnamed htarget hexporter hexported =>
      obtain ⟨found, hfound, hgrows⟩ := hextends.module _ _ hmodule
      obtain ⟨other, hother, hsource, hname⟩ := get?_imports_eq_some_of_asRead hgrows.asRead hentry
      obtain ⟨exporter, hexporter', hgrows'⟩ := hextends.module _ _ hexporter
      have hleads := hextends.leadsTo (path_eq_of_asRead hgrows.asRead) hsource htarget
      refine .namedImport hfound hother (hname ▸ hnamed) hleads hexporter' ?_
      rw [exports_eq_of_asRead hgrows'.asRead, hname]
      exact hexported
  | declaredDefault hmodule hown hentry hdeclared =>
      obtain ⟨found, hfound, hgrows⟩ := hextends.module _ _ hmodule
      exact .declaredDefault hfound (get?_imports_eq_none_of_asRead hgrows.asRead hown)
        (exports_eq_of_asRead hgrows.asRead ▸ hentry) hdeclared
  | defaultStatement hmodule hown hentry hdeclared hindex =>
      obtain ⟨found, hfound, hgrows⟩ := hextends.module _ _ hmodule
      exact .defaultStatement hfound (get?_imports_eq_none_of_asRead hgrows.asRead hown)
        (exports_eq_of_asRead hgrows.asRead ▸ hentry) hdeclared hindex
  | definition hmodule hown hname hindex =>
      obtain ⟨found, hfound, hgrows⟩ := hextends.module _ _ hmodule
      exact .definition hfound (get?_imports_eq_none_of_asRead hgrows.asRead hown) hname
        (definitions_eq_of_asRead hgrows.asRead ▸ hindex)

/-! ## Marks of a growing graph -/

/-- A name whose imports have been followed calls for nothing new in a later graph, and neither does
a demand for statements. -/
theorem Calls.back (hextends : before.Extends after) {demand called : Demand} {module : Module}
    (hmodule : before.module? demand.home = some module)
    (hfollowed : ∀ id name entry, demand = .name id name →
      module.imports.get? name = some entry → before.Followed module entry)
    (hcalls : after.Calls demand called) : before.Calls demand called := by
  obtain ⟨later, hlater, hgrows⟩ := hextends.module _ module hmodule
  have hrest := hgrows.asRead.symm
  -- the module of the demand is the one that it calls about
  have hsame : ∀ found, after.module? demand.home = some found → found = later := fun found h =>
    Option.some.inj (h.symm.trans hlater)
  cases hcalls with
  | plain hstatement himport hlisted =>
      obtain ⟨earlier, hearlier, heq⟩ := hextends.statement?_back hmodule hstatement
      have hform := Statement.form_eq_of_asRead heq
      exact .plain hearlier (hform ▸ himport) (hform ▸ hlisted)
  | listing hstatement hlisted =>
      obtain ⟨earlier, hearlier, heq⟩ := hextends.statement?_back hmodule hstatement
      exact .listing hearlier (Statement.form_eq_of_asRead heq ▸ hlisted)
  | listed hstatement hname =>
      obtain ⟨earlier, hearlier, heq⟩ := hextends.statement?_back hmodule hstatement
      exact .listed hearlier (Statement.form_eq_of_asRead heq ▸ hname)
  | dependency hstatement hname =>
      obtain ⟨earlier, hearlier, heq⟩ := hextends.statement?_back hmodule hstatement
      exact .dependency hearlier (Statement.dependsOn_eq_of_asRead heq ▸ hname)
  | modifier hstatement hname hfound hindex =>
      obtain ⟨earlier, hearlier, heq⟩ := hextends.statement?_back hmodule hstatement
      obtain rfl := hsame _ hfound
      have hdefines := Statement.defines_eq_of_asRead heq
      have hmodifiers := modifiersOf_eq_of_asRead hrest
      exact .modifier hearlier (hdefines ▸ hname) hmodule (hmodifiers ▸ hindex)
  | @wholeImport id found name entry target hfound hentry hwhole htarget =>
      obtain rfl := hsame _ hfound
      obtain ⟨other, hother, hsource, hname⟩ := get?_imports_eq_some_of_asRead hrest hentry
      refine .wholeImport hmodule hother (hname.trans hwhole) ?_
      exact (hextends.leadsTo_back (path_eq_of_asRead hrest) hsource
        (hfollowed id name other rfl hother) htarget).1
  | @namedImport id found name entry target exporter exported hfound hentry hnamed htarget hexporter
      hexported =>
      obtain rfl := hsame _ hfound
      obtain ⟨other, hother, hsource, hname⟩ := get?_imports_eq_some_of_asRead hrest hentry
      -- without this the exporter might be a module that is only read later on
      have hthere := hfollowed id name other rfl hother
      obtain ⟨hback, earlier, hearlier⟩ :=
        hextends.leadsTo_back (path_eq_of_asRead hrest) hsource hthere htarget
      have hrest' := (hextends.grows hearlier hexporter).asRead.symm
      refine .namedImport hmodule hother (hname ▸ hnamed) hback hearlier ?_
      rw [exports_eq_of_asRead hrest', hname]
      exact hexported
  | declaredDefault hfound hown hentry hdeclared =>
      obtain rfl := hsame _ hfound
      exact .declaredDefault hmodule (get?_imports_eq_none_of_asRead hrest hown)
        (exports_eq_of_asRead hrest ▸ hentry) hdeclared
  | defaultStatement hfound hown hentry hdeclared hindex =>
      obtain rfl := hsame _ hfound
      exact .defaultStatement hmodule (get?_imports_eq_none_of_asRead hrest hown)
        (exports_eq_of_asRead hrest ▸ hentry) hdeclared hindex
  | definition hfound hown hname hindex =>
      obtain rfl := hsame _ hfound
      exact .definition hmodule (get?_imports_eq_none_of_asRead hrest hown) hname
        (definitions_eq_of_asRead hrest ▸ hindex)

theorem Followed.mono (hextends : before.Extends after) {module later : Module}
    {entry other : Import} (hpath : later.path = module.path)
    (hsource : other.source = entry.source) (hname : other.name = entry.name)
    (hfollowed : before.Followed module entry) :
    after.Followed later other := by
  intro path hresolve
  rw [hpath, hsource] at hresolve
  obtain ⟨target, exporter, hid, hexporter, hexports⟩ := hfollowed path hresolve
  obtain ⟨found, hfound, hgrows⟩ := hextends.module _ exporter hexporter
  refine ⟨target, found, hextends.idOf? hid, hfound, fun hnamed => ?_⟩
  rw [exports_eq_of_asRead hgrows.asRead, hname]
  exact hexports (hname ▸ hnamed)

/-- The module of a marked demand has been read. -/
theorem Marks.home {demand : Demand} (hmarks : graph.Marks demand) :
    ∃ module, graph.module? demand.home = some module := by
  cases demand with
  | statement address => exact ⟨hmarks.choose, hmarks.choose_spec.1⟩
  | name id name => exact ⟨hmarks.choose, hmarks.choose_spec.1⟩
  | everything id isEntry => exact hmarks.1

theorem Marks.mono (hextends : before.Extends after) {demand : Demand}
    (hmarks : before.Marks demand) : after.Marks demand := by
  cases demand with
  | statement address => exact hextends.includes hmarks
  | name id name => exact hextends.requested hmarks
  | everything id isEntry =>
      obtain ⟨⟨module, hmodule⟩, hcalls⟩ := hmarks
      obtain ⟨later, hlater, -⟩ := hextends.module _ module hmodule
      refine ⟨⟨later, hlater⟩, fun called hcalled => ?_⟩
      -- a module gets no more statements, so that everything in it stays the same
      have hearlier := hcalls called (hcalled.back hextends hmodule (by simp))
      cases called with
      | statement address => exact hextends.includes hearlier
      | name id name => exact hextends.requested hearlier
      | everything id isEntry => trivial

/-- What is settled stays so. -/
theorem Settled.mono (hextends : before.Extends after) {demand : Demand}
    (hmarks : before.Marks demand) (hsettled : before.Settled demand) : after.Settled demand := by
  obtain ⟨module, hmodule⟩ := hmarks.home
  obtain ⟨later, hlater, hgrows⟩ := hextends.module _ module hmodule
  constructor
  case calls =>
    intro called hcalls
    refine (hsettled.calls called (hcalls.back hextends hmodule ?_)).mono hextends
    rintro id name entry rfl hentry
    exact hsettled.followed id name module entry rfl hmodule hentry
  case followed =>
    rintro id name found entry rfl hfound hentry
    obtain rfl := Option.some.inj (hlater.symm.trans hfound)
    obtain ⟨other, hother, hsource, hname⟩ :=
      get?_imports_eq_some_of_asRead hgrows.asRead.symm hentry
    have hfollowed := hsettled.followed id name module other rfl hmodule hother
    exact hfollowed.mono hextends (path_eq_of_asRead hgrows.asRead) hsource.symm hname.symm
  case listed =>
    rintro address statement name rfl hstatement hname
    obtain ⟨earlier, hearlier, heq⟩ := hextends.statement?_back hmodule hstatement
    have hform := Statement.form_eq_of_asRead heq
    exact hextends.requested
      (hsettled.listed address earlier name rfl hearlier (hform ▸ hname))

/-- All statements of a module are marked together. -/
theorem settled_everything {id : Nat} {isEntry : Bool}
    (hmarks : graph.Marks (.everything id isEntry)) : graph.Settled (.everything id isEntry) := by
  refine ⟨fun called hcalls => ?_, by simp, by simp⟩
  have hcalled := hmarks.2 called hcalls
  cases hcalls <;> exact hcalled

end Graph

end ScriptBundler

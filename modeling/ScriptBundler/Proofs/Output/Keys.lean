import ScriptBundler.Proofs.Output.Denotations
import ScriptBundler.Proofs.Output.Directive
import ScriptBundler.Proofs.Output.Preamble
import ScriptBundler.Proofs.Script.Spellings

/-!
# Keys and specifiers in the text of a bundle

The key of an export, the name of an import and the specifier of an external module can be any
string.  A bundle writes keys and names where names are expected, and specifiers between single
quotes, without looking at what is in them.  So a key is read back exactly if it is a name, and a
specifier if there is nothing in it that has a meaning of its own between quotes.
-/

namespace ScriptBundler

open Files ScriptBundler.Module Script Text

/-- A piece of text that is made around a string, with the tokens that it is meant to be. -/
structure Phrase where
  text : String
  tokens : List Token

namespace Phrase

/-- Whether a phrase is read as it is meant if some text follows it. -/
def ReadBefore (phrase : Phrase) (back : List Char) : Prop :=
  Reads (phrase.text.toList ++ back) phrase.tokens back

/-- Whether a phrase stands at the start of a line, behind white space at most, and something holds
of what follows it. -/
def OpensLine (phrase : Phrase) (code : List Char) (fate : List Char → Prop) : Prop :=
  ∃ front indent back, code = front ++ '\n' :: indent ++ phrase.text.toList ++ back ∧
    (∀ c ∈ indent, isBlank c = true) ∧ fate back

/-- Whether a phrase stands at the end of a line, and something holds of what follows it. -/
def ClosesLine (phrase : Phrase) (code : List Char) (fate : List Char → Prop) : Prop :=
  ∃ front back, code = front ++ phrase.text.toList ++ back ∧ EndsCall back ∧ fate back

/-- The beginning of the accessor for an export. -/
def accessor (key : String) : Phrase where
  text := "get " ++ key ++ " () \x7b"
  tokens := [.word "get" false, .word key false, .punctuator "(", .punctuator ")",
    .punctuator "\x7b"]

/-- The beginning of the line that hands on an export. -/
def assignment (key : String) : Phrase where
  text := "exports." ++ key ++ " ="
  tokens := [.word "exports" false, .punctuator ".", .word key false, .punctuator "="]

/-- What makes the name of an external module into one of its exports. -/
def property (name : String) : Phrase where
  text := "." ++ name
  tokens := [.punctuator ".", .word name false]

/-- The expression that gives an external module. -/
def required (specifier : String) : Phrase where
  text := "require('" ++ specifier ++ "')"
  tokens := [.word "require" false, .punctuator "(", .quoted specifier, .punctuator ")"]

variable {key name specifier : String} {back : List Char}

theorem OpensLine.imp {phrase : Phrase} {code : List Char} {fate other : List Char → Prop}
    (hopens : phrase.OpensLine code fate) (hfate : ∀ back, fate back → other back) :
    phrase.OpensLine code other := by
  obtain ⟨front, indent, back, hcode, hindent, hback⟩ := hopens
  exact ⟨front, indent, back, hcode, hindent, hfate back hback⟩

/-! ## How phrases are read -/

theorem accessor_iff (key : String) (back : List Char) :
    (accessor key).ReadBefore back ↔ isName key.toList = true := by
  have htext : (accessor key).text.toList ++ back = "get".toList ++
      ' ' :: (key.toList ++ ' ' :: '(' :: ')' :: ' ' :: '\x7b' :: back) := by
    simp [accessor]
  rw [ReadBefore, htext]
  constructor
  · intro hreads
    obtain ⟨_, -, hreads⟩ := hreads.uncons
    obtain ⟨_, hkey, -⟩ := hreads.uncons
    exact hkey.isName
  · intro hname
    exact .next (next_name _ (by decide) (endsName_cons (by decide) _)) <|
      .next (next_name _ hname (endsName_cons (by decide) _)).space <|
      .next (next_open _).space <| .next (next_close _) <| .next (next_brace _).space <| .done back

theorem property_iff (name : String) (hback : EndsName back) :
    (property name).ReadBefore back ↔ isName name.toList = true := by
  have htext : (property name).text.toList ++ back = '.' :: (name.toList ++ back) := by
    simp [property]
  rw [ReadBefore, htext]
  constructor
  · intro hreads
    obtain ⟨_, -, hreads⟩ := hreads.uncons
    obtain ⟨_, hname, -⟩ := hreads.uncons
    exact hname.isName
  · intro hname
    exact .next (next_dot hname back) <| .next (next_name _ hname hback) <| .done back

theorem assignment_text (key : String) (back : List Char) :
    (assignment key).text.toList ++ back =
      "exports".toList ++ '.' :: (key.toList ++ ' ' :: '=' :: back) := by
  simp [assignment]

theorem isName_of_assignment (hreads : (assignment key).ReadBefore back) :
    isName key.toList = true := by
  rw [ReadBefore, assignment_text] at hreads
  obtain ⟨_, -, hreads⟩ := hreads.uncons
  obtain ⟨_, -, hreads⟩ := hreads.uncons
  obtain ⟨_, hkey, -⟩ := hreads.uncons
  exact hkey.isName

theorem assignment_iff (key : String) (hback : ∀ c ∈ back.head?, c = ' ') :
    (assignment key).ReadBefore back ↔ isName key.toList = true := by
  refine ⟨isName_of_assignment, fun hname => ?_⟩
  rw [ReadBefore, assignment_text]
  exact .next (next_name _ (by decide) (endsName_cons (by decide) _)) <| .next (next_dot hname _) <|
    .next (next_name _ hname (endsName_cons (by decide) _)) <|
    .next (next_equals _ hback).space <| .done back

theorem required_text (specifier : String) (back : List Char) :
    (required specifier).text.toList ++ back = "require".toList ++
      '(' :: '\'' :: (specifier.toList ++ '\'' :: ')' :: back) := by
  simp [required]

theorem required_of_isPlain (hplain : ∀ c ∈ specifier.toList, isPlain c = true) (back : List Char) :
    (required specifier).ReadBefore back := by
  rw [ReadBefore, required_text]
  exact .next (next_name _ (by decide) (endsName_cons (by decide) _)) <| .next (next_open _) <|
    .next (next_quote hplain _) <| .next (next_close back) <| .done back

/-- A specifier that is read back has no character with a meaning of its own, unless there is a
backslash before a `u` in it. -/
theorem isPlain_of_required (hback : EndsCall back)
    (hreads : (required specifier).ReadBefore back) :
    (∀ c ∈ specifier.toList, isPlain c = true) ∨ ['\\', 'u'] <:+: specifier.toList := by
  rw [ReadBefore, required_text] at hreads
  have hopened := hreads.behind (next_name "require" (by decide) (endsName_cons (by decide) _))
  obtain ⟨_, hquoted, -⟩ := (hopened.behind (next_open _)).uncons
  exact isPlain_of_next hback hquoted

end Phrase

/-! ## Where phrases stand -/

/-- A line is in a text of lines, with its line break before it. -/
theorem infix_intercalate (separator : String) {lines : List String} {line : String}
    (hmem : line ∈ lines) :
    '\n' :: line.toList <:+: '\n' :: ((separator ++ "\n").intercalate lines).toList := by
  induction lines with
  | nil => exact absurd hmem List.not_mem_nil
  | cons first rest ih =>
      cases rest with
      | nil =>
          obtain rfl := List.mem_singleton.mp hmem
          simp
      | cons second rest =>
          rw [String.intercalate_cons_cons]
          rcases List.mem_cons.mp hmem with rfl | hmem
          · exact List.IsPrefix.isInfix ⟨_, by
              simp only [String.toList_append, List.cons_append, List.append_assoc]; rfl⟩
          · refine (ih hmem).trans (List.IsSuffix.isInfix ⟨'\n' :: (first ++ separator).toList, ?_⟩)
            simp

theorem isBlank_of_mem_indent {composition : Composition} {c : Char}
    (hc : c ∈ composition.indent) : isBlank c = true := by
  unfold Composition.indent at hc
  dsimp only at hc
  split at hc
  · rw [List.mem_singleton.mp hc]
    decide
  · split at hc
    · rw [List.mem_singleton.mp hc]
      decide
    · rw [List.eq_of_mem_replicate hc]
      decide

namespace Assembly

variable {graph : Graph} {id : Nat} {indent key : String} {module : Module} {draft after : Draft}

theorem exists_accessor_line {exports : Table Export} {lines : List String}
    (hrun : (getters graph id indent exports).run draft = .ok lines after)
    (hkey : key ∈ exports.map (·.1)) :
    ∃ line ∈ lines, (indent ++ (Phrase.accessor key).text).toList <+: line.toList := by
  induction exports generalizing draft lines with
  | nil => exact absurd hkey List.not_mem_nil
  | cons first rest ih =>
      obtain ⟨canonical, _, -, hrest⟩ := run_bind_eq_ok hrun
      obtain ⟨others, _, hothers, hlines⟩ := run_bind_eq_ok hrest
      obtain ⟨rfl, rfl⟩ := EStateM.Result.ok.inj hlines
      rcases List.mem_cons.mp hkey with rfl | hkey
      · refine ⟨_, List.mem_cons_self, (" return " ++ canonical ++ " \x7d").toList, ?_⟩
        simp [Phrase.accessor, toString]
      · obtain ⟨line, hline, htail⟩ := ih hothers hkey
        exact ⟨line, List.mem_cons_of_mem _ hline, htail⟩

theorem exists_assignment_line {exports : Table Export} {lines : List String}
    (hrun : (namedExports graph id exports).run draft = .ok lines after)
    (hkey : key ∈ exports.map (·.1)) :
    ∃ line ∈ lines, ((Phrase.assignment key).text ++ " ").toList <+: line.toList := by
  induction exports generalizing draft lines with
  | nil => exact absurd hkey List.not_mem_nil
  | cons first rest ih =>
      obtain ⟨canonical, _, -, hrest⟩ := run_bind_eq_ok hrun
      obtain ⟨others, _, hothers, hlines⟩ := run_bind_eq_ok hrest
      obtain ⟨rfl, rfl⟩ := EStateM.Result.ok.inj hlines
      rcases List.mem_cons.mp hkey with rfl | hkey
      · refine ⟨_, List.mem_cons_self, canonical.toList, ?_⟩
        simp [Phrase.assignment, toString]
      · obtain ⟨line, hline, htail⟩ := ih hothers hkey
        exact ⟨line, List.mem_cons_of_mem _ hline, htail⟩

/-- The object for a module has an accessor for each export of the module. -/
theorem accessor_within {namespaces : List Nat} {objects : String}
    (hrun : (namespaceObjects graph indent namespaces).run draft = .ok objects after)
    (hid : id ∈ namespaces) (hmodule : graph.module? id = some module)
    (hkey : key ∈ module.exports.map (·.1)) :
    '\n' :: (indent ++ (Phrase.accessor key).text).toList <:+: objects.toList := by
  induction namespaces generalizing draft objects with
  | nil => exact absurd hid List.not_mem_nil
  | cons first rest ih =>
      rw [namespaceObjects] at hrun
      cases hfirst : graph.module? first with
      | none =>
          rw [hfirst] at hrun
          rcases List.mem_cons.mp hid with rfl | hid
          · exact nomatch hmodule.symm.trans hfirst
          · exact ih hrun hid
      | some found =>
          rw [hfirst] at hrun
          obtain ⟨name, _, -, hrest⟩ := run_bind_eq_ok hrun
          obtain ⟨_, _, -, hrest⟩ := run_bind_eq_ok hrest
          obtain ⟨lines, _, hlines, hrest⟩ := run_bind_eq_ok hrest
          obtain ⟨others, _, hothers, hobjects⟩ := run_bind_eq_ok hrest
          obtain ⟨rfl, rfl⟩ := EStateM.Result.ok.inj hobjects
          rcases List.mem_cons.mp hid with rfl | hid
          · obtain rfl := Option.some.inj (hmodule.symm.trans hfirst)
            obtain ⟨line, hline, hstarts⟩ := exists_accessor_line hlines hkey
            refine (List.cons_prefix_cons.mpr ⟨rfl, hstarts⟩).isInfix.trans
              ((infix_intercalate "," hline).trans
                ⟨("var " ++ name ++ " = \x7b").toList, ("\n\x7d\n\n" ++ others).toList, ?_⟩)
            simp [toString]
          · exact (ih hothers hid).trans
              (List.IsSuffix.isInfix ⟨_, (String.toList_append (t := others)).symm⟩)

/-- The text that hands on exports by name has a line for each export. -/
theorem assignment_within {exports : String}
    (hrun : (closing graph id .named).run draft = .ok exports after)
    (hmodule : graph.module? id = some module) (hkey : key ∈ module.exports.map (·.1)) :
    '\n' :: ((Phrase.assignment key).text ++ " ").toList <:+: '\n' :: exports.toList := by
  rw [closing, hmodule] at hrun
  obtain ⟨lines, hlines, rfl⟩ := run_map_eq_ok hrun
  obtain ⟨line, hline, hstarts⟩ := exists_assignment_line hlines hkey
  exact (List.cons_prefix_cons.mpr ⟨rfl, hstarts⟩).isInfix.trans (infix_intercalate "" hline)

end Assembly

namespace Bundle

variable {bundle : Bundle} {requested : ExportMode} {before after : List Log.Entry}
  {code : List Char}

/-- Text that stands in a bundle before white space is taken off is there afterwards, if it does not
end in white space itself.  Behind it is still what was behind it, if anything. -/
theorem exists_of_within {externals : List External} {rest lead text tail : List Char} {c : Char}
    (hwithin : lead ++ text ++ tail <:+: (Assembly.opening externals).toList ++ rest)
    (hlast : [c] <:+ text) (hsolid : isBlank c = false) :
    ∃ front body, Text.trim ((Assembly.opening externals).toList ++ rest) =
      front ++ lead ++ text ++ body ∧ ∀ d ∈ tail.head?, ∀ e ∈ body.head?, e = d := by
  obtain ⟨front, back, heq⟩ := hwithin
  obtain ⟨init, rfl⟩ := hlast
  obtain ⟨more, hopening⟩ := exists_opening externals
  have hne : front ++ lead ++ (init ++ [c]) ≠ [] := by simp
  have hwhole : front ++ lead ++ (init ++ [c]) ++ (tail ++ back) =
      (Assembly.opening externals).toList ++ rest := by
    simpa only [List.append_assoc] using heq
  have hquote : ∀ d ∈ some '\'', isBlank d = false := fun d hd => Option.some.inj hd ▸ by decide
  have hhead : (front ++ lead ++ (init ++ [c])).head? = some '\'' := by
    rw [← List.head?_append_of_ne_nil _ hne, hwhole, hopening, List.append_assoc,
      List.head?_append_of_ne_nil _ (by decide)]
    decide
  have hends : EndsSolid (front ++ lead ++ (init ++ [c])) := by
    intro d hd
    rw [← List.append_assoc, List.getLast?_concat] at hd
    exact Option.some.inj hd ▸ hsolid
  obtain ⟨body, htrim, hbody⟩ := Text.trim_append hne (hhead ▸ hquote) hends (tail ++ back)
  refine ⟨front, body, by rw [← hwhole, htrim], fun d hd e he => ?_⟩
  obtain ⟨others, hothers⟩ := hbody
  cases tail with
  | nil => exact absurd hd (Option.not_mem_none d)
  | cons first tail =>
      cases body with
      | nil => exact absurd he (Option.not_mem_none e)
      | cons second body =>
          obtain rfl := Option.some.inj hd
          obtain rfl := Option.some.inj he
          exact (List.cons.inj hothers).1

theorem opensLine_accessor (hgenerate : (bundle.generate requested).run before = .ok code after)
    {id : Nat} (hid : id ∈ bundle.graph.namespaces) {module : Module}
    (hmodule : bundle.graph.module? id = some module) {key : String}
    (hkey : key ∈ module.exports.map (·.1)) :
    (Phrase.accessor key).OpensLine code fun back =>
      (Phrase.accessor key).ReadBefore back ↔ isName key.toList = true := by
  obtain ⟨_, _, _, -, hassemble⟩ := exists_assemble_of_generate hgenerate
  obtain ⟨composition, objects, exports, middle, _, _, _, _, hobjects, -, rfl⟩ :=
    eq_of_assemble hassemble
  have hobject := Assembly.accessor_within hobjects hid hmodule hkey
  rw [String.toList_append, String.toList_ofList, ← List.cons_append, ← List.append_nil (_ ++ _)]
    at hobject
  obtain ⟨front, back, hcode, -⟩ := exists_of_within
    ((hobject.trans (List.prefix_append _ _).isInfix).trans (List.suffix_append _ _).isInfix)
    (c := '\x7b') ⟨("get " ++ key ++ " () ").toList, by simp [Phrase.accessor]⟩ (by decide)
  exact ⟨front, composition.indent, back, hcode, fun c => isBlank_of_mem_indent,
    Phrase.accessor_iff key back⟩

theorem opensLine_assignment (hgenerate : (bundle.generate requested).run before = .ok code after)
    {middle : List Log.Entry}
    (hmode : (bundle.exportMode requested).run before = .ok .named middle) {key : String}
    (hkey : key ∈ bundle.exportNames) :
    (Phrase.assignment key).OpensLine code fun back =>
      (Phrase.assignment key).ReadBefore back ↔ isName key.toList = true := by
  obtain ⟨mode, _, _, hfound, hassemble⟩ := exists_assemble_of_generate hgenerate
  obtain ⟨rfl, rfl⟩ := EStateM.Result.ok.inj (hmode.symm.trans hfound)
  obtain ⟨composition, objects, exports, middle, _, _, _, _, -, hexports, rfl⟩ :=
    eq_of_assemble hassemble
  unfold exportNames at hkey
  cases hmodule : bundle.graph.module? bundle.entry with
  | none =>
      rw [hmodule] at hkey
      contradiction
  | some module =>
      rw [hmodule] at hkey
      have hline := Assembly.assignment_within hexports hmodule hkey
      have hsome : exports.isEmpty = false := by
        by_contra hempty
        rw [Bool.not_eq_false, String.isEmpty_iff] at hempty
        have hlength := hline.length_le
        simp [hempty, Phrase.assignment] at hlength
      rw [hsome, if_neg Bool.false_ne_true]
      have hclosing : '\n' :: exports.toList <:+ ("\n\n" ++ exports).toList := ⟨['\n'], by simp⟩
      have hafter := (hclosing.trans (List.suffix_append middle _)).trans
        (List.suffix_append objects.toList _)
      have hwhole := hline.trans (hafter.trans (List.suffix_append
        (Assembly.opening bundle.graph.externals).toList _)).isInfix
      rw [String.toList_append, ← List.singleton_append, ← List.append_assoc] at hwhole
      obtain ⟨front, back, hcode, hback⟩ := exists_of_within hwhole (c := '=')
        ⟨("exports." ++ key ++ " ").toList, by simp [Phrase.assignment]⟩ (by decide)
      exact ⟨front, [], back, hcode, by simp, Phrase.assignment_iff key (hback ' ' rfl)⟩

theorem closesLine_required (hgenerate : (bundle.generate requested).run before = .ok code after)
    {external : External} (hexternal : external ∈ bundle.graph.externals) :
    (Phrase.required external.specifier).ClosesLine code fun back =>
      ((∀ c ∈ external.specifier.toList, isPlain c = true) →
        (Phrase.required external.specifier).ReadBefore back) ∧
      ((Phrase.required external.specifier).ReadBefore back →
        (∀ c ∈ external.specifier.toList, isPlain c = true) ∨
          ['\\', 'u'] <:+: external.specifier.toList) := by
  obtain ⟨rest, rfl⟩ := exists_of_generate hgenerate
  obtain ⟨first, last, hopening⟩ := Assembly.hasLine_opening hexternal
    (show _ ∈ external.lines from List.mem_cons_self)
  have hline : ("var " ++ external.name ++ " = ").toList ++
      (Phrase.required external.specifier).text.toList ++ ['\n'] <:+:
        (Assembly.opening bundle.graph.externals).toList := by
    rw [hopening]
    exact ⟨(first ++ "\n").toList, last.toList, by simp [External.required, Phrase.required]⟩
  obtain ⟨front, back, hcode, hback⟩ := exists_of_within
    (hline.trans (List.prefix_append _ rest).isInfix) (c := ')')
    ⟨("require('" ++ external.specifier ++ "'").toList, by simp [Phrase.required]⟩ (by decide)
  exact ⟨_, back, hcode, hback _ rfl, fun hplain => Phrase.required_of_isPlain hplain back,
    Phrase.isPlain_of_required (hback _ rfl)⟩

/-- What is imported from an external module is printed as the module has it, unless the name is
blurred. -/
theorem Built.printed_external (hbuilt : bundle.Built) {id number : Nat} {module : Module}
    {name : String} {entry : Import} {external : External}
    (hmodule : bundle.graph.module? id = some module)
    (hentry : module.imports.get? name = some entry)
    (htarget : entry.target = some (.external number))
    (hexternal : bundle.graph.external? number = some external)
    (hclear : ¬ bundle.Blurred id module name) :
    bundle.printed id name = external.canonicalName entry.name := by
  have hforwards : module.forwards name = true := by simp [Module.forwards, hentry]
  have hstar : name ≠ "*" := fun hstar => hclear ⟨hforwards, Or.inl hstar⟩
  have hmeaning : bundle.graph.meaning id name = .here (external.canonicalName entry.name) := by
    simp [Graph.meaning, hmodule, hstar, hentry, Graph.importMeaning, htarget, hexternal]
  cases hget : bundle.naming.get? id name with
  | some canonical =>
      obtain ⟨claim, hclaim, hplace⟩ := hbuilt.settled id name canonical hget
      exact absurd ⟨hforwards, Or.inr ⟨claim, hclaim, hplace⟩⟩ hclear
  | none => exact congrArg Prod.fst (Naming.canonicalName_of_here hget hmeaning)

/-- In what is generated, each export of a module that is imported as a whole has an accessor, and
in named mode each export of the entry module has an assignment; imports from external modules are
printed as properties, and external modules are required by their specifiers.  All these phrases are
read back as what they are meant to be exactly if the keys and names in them are names.  Specifiers
are read back if each of their characters stands for itself between quotes, and for the most part
only then. -/
theorem phrases_read_iff {disk : Disk} {path : Path} {log later : List Log.Entry}
    (hbuild : (build disk path).run log = .ok bundle later)
    (hgenerate : (bundle.generate requested).run before = .ok code after) :
    (∀ id ∈ bundle.graph.namespaces, ∀ module, bundle.graph.module? id = some module →
      ∀ key ∈ module.exports.map (·.1), (Phrase.accessor key).OpensLine code fun back =>
        (Phrase.accessor key).ReadBefore back ↔ isName key.toList = true) ∧
    (∀ middle, (bundle.exportMode requested).run before = .ok .named middle →
      ∀ key ∈ bundle.exportNames, (Phrase.assignment key).OpensLine code fun back =>
        (Phrase.assignment key).ReadBefore back ↔ isName key.toList = true) ∧
    (∀ id module name entry number external, bundle.graph.module? id = some module →
      module.imports.get? name = some entry → entry.target = some (.external number) →
      bundle.graph.external? number = some external → entry.name ≠ "*" → entry.name ≠ "default" →
      ¬ bundle.Blurred id module name →
        bundle.printed id name = external.name ++ (Phrase.property entry.name).text ∧
        ∀ back, EndsName back →
          ((Phrase.property entry.name).ReadBefore back ↔ isName entry.name.toList = true)) ∧
    ∀ external ∈ bundle.graph.externals,
      (Phrase.required external.specifier).ClosesLine code fun back =>
        ((∀ c ∈ external.specifier.toList, isPlain c = true) →
          (Phrase.required external.specifier).ReadBefore back) ∧
        ((Phrase.required external.specifier).ReadBefore back →
          (∀ c ∈ external.specifier.toList, isPlain c = true) ∨
            ['\\', 'u'] <:+: external.specifier.toList) := by
  refine ⟨fun id hid module hmodule key => opensLine_accessor hgenerate hid hmodule,
    fun middle hmode key => opensLine_assignment hgenerate hmode, ?_,
    fun external => closesLine_required hgenerate⟩
  intro id module name entry number external hmodule hentry htarget hexternal hwhole hdefault hclear
  refine ⟨?_, fun back => Phrase.property_iff entry.name⟩
  rw [(built_of_build hbuild).printed_external hmodule hentry htarget hexternal hclear]
  simp [External.canonicalName, hwhole, hdefault, Phrase.property, String.append_assoc]

/-- A module that imports a name from an external module and a module as a whole. -/
def plainDisk : Disk where
  workingDirectory := []
  files := [(["main.js"], .text
      ("import \x7b join \x7d from 'path';\nimport * as all from './lib';\n" ++
        "export var r = [join, all];\n").toList),
    (["lib.js"], .text "var z = 1;\nexport \x7b z as default \x7d;\n".toList)]
  directories := []

/-- What is written for the plain names and the plain specifier is read back. -/
theorem phrases_read_plainDisk : ∃ bundle log code after,
    (build plainDisk ⟨"main.js"⟩).run [] = .ok bundle log ∧
      (bundle.generate .auto).run [] = .ok code after ∧
      ((Phrase.accessor "default").OpensLine code (Phrase.accessor "default").ReadBefore) ∧
      ((Phrase.assignment "r").OpensLine code (Phrase.assignment "r").ReadBefore) ∧
      bundle.printed 0 "join" = "path" ++ (Phrase.property "join").text ∧
      (Phrase.property "join").ReadBefore [] ∧
      (Phrase.required "path").ClosesLine code (Phrase.required "path").ReadBefore := by
  obtain ⟨bundle, log, hbuild, hcheck⟩ := exists_of_passes plainDisk ⟨"main.js"⟩
    (fun bundle => bundle.generates .auto
      ("'use strict'\n\nvar path = require('path')\n\n" ++
        "var all = \x7b\n\tget default () \x7b return z \x7d\n\x7d\n\n" ++
        "var z = 1;\nvar r = [path.join, all];\n\nexports.r = r").toList &&
      decide (bundle.exportNames = ["r"] ∧ 1 ∈ bundle.graph.namespaces ∧
        (∃ module ∈ bundle.graph.module? 1, "default" ∈ module.exports.map (·.1)) ∧
        (∃ external ∈ bundle.graph.external? 0, external.name = "path" ∧
          external.specifier = "path") ∧
        ∃ module ∈ bundle.graph.module? 0, ∃ entry ∈ module.imports.get? "join",
          entry.name = "join" ∧ entry.target = some (.external 0) ∧
          ∀ claim ∈ bundle.claims, claim.place? ≠ some (0, "join")))
    (by decide +kernel)
  obtain ⟨hgenerates, hcheck⟩ := Bool.and_eq_true_iff.mp hcheck
  obtain ⟨hnames, hwhole, ⟨lib, hlib, hkey⟩, ⟨external, hexternal, hname, hspecifier⟩, main, hmain,
    entry, hentry, himported, htarget, hclaims⟩ := of_decide_eq_true hcheck
  obtain ⟨after, hgenerate⟩ := run_generate_of_generates hgenerates
  obtain ⟨haccessors, hassignments, hproperties, hrequired⟩ := phrases_read_iff hbuild hgenerate
  have hmode : ∃ middle, (bundle.exportMode .auto).run [] = .ok .named middle :=
    ⟨_, by rw [exportMode, hnames]; rfl⟩
  have hclear : ¬ bundle.Blurred 0 main "join" := by
    rintro ⟨-, hstar | ⟨claim, hclaim, hplace⟩⟩
    · exact absurd hstar (by decide)
    · exact hclaims claim hclaim hplace
  have hjoin : isName "join".toList = true := by decide
  obtain ⟨middle, hmode⟩ := hmode
  obtain ⟨hprinted, hproperty⟩ := hproperties 0 main "join" entry 0 external hmain hentry htarget
    hexternal (himported ▸ by decide) (himported ▸ by decide) hclear
  obtain ⟨front, back, hcode, hback, hplain, -⟩ :=
    hrequired external (List.mem_of_getElem? hexternal)
  rw [himported, hname] at hprinted
  rw [himported] at hproperty
  rw [hspecifier] at hcode hplain
  exact ⟨bundle, log, _, after, hbuild, hgenerate,
    (haccessors 1 hwhole lib hlib "default" hkey).imp fun back hback => hback.mpr (by decide),
    (hassignments middle hmode "r" (hnames ▸ List.mem_singleton_self "r")).imp
      fun back hback => hback.mpr (by decide),
    hprinted, (hproperty [] (by simp [EndsName])).mpr hjoin,
    front, back, hcode, hback, hplain (List.all_eq_true.mp (by decide))⟩

/-- A module that exports something by a string that is no name. -/
def spacedDisk : Disk where
  workingDirectory := []
  files := [(["main.js"], .text "var x = 1;\nexport \x7b x as 'a b' \x7d;\n".toList)]
  directories := []

/-- The export is assigned as if its key were a name, which is not even a script. -/
theorem not_read_spacedDisk : ∃ bundle log code after,
    (build spacedDisk ⟨"main.js"⟩).run [] = .ok bundle log ∧
      (bundle.generate .auto).run [] = .ok code after ∧ bundle.exportNames = ["a b"] ∧
      code = "'use strict'\n\nvar x = 1;\n\nexports.a b = x".toList ∧
      (∀ back, ¬ (Phrase.assignment "a b").ReadBefore back) ∧
      ∀ tree, Script.parse code ≠ .ok tree := by
  obtain ⟨bundle, log, hbuild, hcheck⟩ := exists_of_passes spacedDisk ⟨"main.js"⟩
    (fun bundle => bundle.generates .auto
      "'use strict'\n\nvar x = 1;\n\nexports.a b = x".toList &&
      decide (bundle.exportNames = ["a b"]))
    (by decide +kernel)
  obtain ⟨hgenerates, hnames⟩ := Bool.and_eq_true_iff.mp hcheck
  obtain ⟨after, hgenerate⟩ := run_generate_of_generates hgenerates
  refine ⟨bundle, log, _, after, hbuild, hgenerate, of_decide_eq_true hnames, rfl, ?_, ?_⟩
  · intro back hreads
    exact absurd (Phrase.isName_of_assignment hreads) (by decide)
  · have hfails : (Script.parse
        "'use strict'\n\nvar x = 1;\n\nexports.a b = x".toList).isOk = false := by
      decide +kernel
    intro tree htree
    rw [htree] at hfails
    exact Bool.noConfusion hfails

end Bundle

end ScriptBundler

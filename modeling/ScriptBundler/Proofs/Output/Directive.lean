import ScriptBundler.Proofs.Module.Excerpts
import ScriptBundler.Proofs.Output.RoundTrip
import ScriptBundler.Proofs.Script.Transcripts

/-!
# The directive of a bundle

Every bundle starts with the directive and a line end, without a semicolon between them.  The
directive is a statement of its own if the first token of the rest does not go on with an
expression; a bundle whose first statement starts with a parenthesis calls the directive instead.
-/

namespace ScriptBundler

open Files ScriptBundler.Module Script Text

namespace Bundle

variable {bundle : Bundle} {requested : ExportMode} {before after : List Log.Entry}
  {code : List Char}

/-- The directive for strict mode, as a bundle writes it. -/
def useStrict : List Char :=
  "'use strict'".toList

/-- The statement that the directive is meant to be. -/
def useStrictItem : Item :=
  ⟨.statement (.expression (.atom ⟨0, 12⟩) ⟨0, 12⟩), ⟨0, 12⟩⟩

theorem exists_opening (externals : List External) :
    ∃ rest, (Assembly.opening externals).toList = useStrict ++ '\n' :: rest := by
  have hdirective : "'use strict'\n\n".toList = useStrict ++ ['\n', '\n'] := by decide
  unfold Assembly.opening
  cases externals with
  | nil => exact ⟨['\n'], hdirective⟩
  | cons first others =>
      refine ⟨'\n' :: ("\n".intercalate ((first :: others).map External.require) ++ "\n\n").toList,
        ?_⟩
      dsimp only
      rw [String.append_assoc, String.toList_append, hdirective]
      rfl

/-- The text of a bundle: the requires, the objects for whole modules, the statements and the
exports, without the white space at both ends. -/
theorem eq_of_assemble {mode : ExportMode} {draft final : Draft}
    (hrun : (bundle.assemble mode).run draft = .ok code final) :
    ∃ composition objects exports middle, ∃ first second third fourth : Draft,
      (Assembly.namespaceObjects bundle.graph (String.ofList (Composition.indent composition))
        bundle.graph.namespaces).run first = .ok objects second ∧
      (Assembly.closing bundle.graph bundle.entry mode).run third = .ok exports fourth ∧
      code = Text.trim ((Assembly.opening bundle.graph.externals).toList ++ (objects.toList ++
        (middle ++ if exports.isEmpty then [] else ("\n\n" ++ exports).toList))) := by
  obtain ⟨body, _, hbody, hrun⟩ := run_bind_eq_ok hrun
  obtain ⟨composition, _, -, hbody⟩ := run_bind_eq_ok hbody
  obtain ⟨objects, _, hobjects, hbody⟩ := run_bind_eq_ok hbody
  obtain ⟨rfl, -⟩ := EStateM.Result.ok.inj hbody
  obtain ⟨whole, _, hwhole, hrender⟩ := run_bind_eq_ok hrun
  obtain ⟨exports, _, hexports, hwhole⟩ := run_bind_eq_ok hwhole
  obtain ⟨_, _, -, hwhole⟩ := run_bind_eq_ok hwhole
  obtain ⟨rfl, -⟩ := EStateM.Result.ok.inj hrender
  refine ⟨composition, objects, exports,
    composition.intro ++ Composition.joined composition.parts ++ composition.outro,
    _, _, _, _, hobjects, hexports, ?_⟩
  obtain ⟨rfl, -⟩ := EStateM.Result.ok.inj hwhole
  cases exports.isEmpty <;>
    simp [Composition.render, Composition.trim, Composition.prepend, Text.Composition.append]

/-- What is generated has been assembled in the mode that is used. -/
theorem exists_assemble_of_generate
    (hgenerate : (bundle.generate requested).run before = .ok code after) :
    ∃ mode middle final, (bundle.exportMode requested).run before = .ok mode middle ∧
      (bundle.assemble mode).run ⟨bundle.naming, []⟩ = .ok code final := by
  obtain ⟨mode, middle, hmode, hrun⟩ := run_bind_eq_ok hgenerate
  refine ⟨mode, middle, ?_⟩
  cases hassemble : (bundle.assemble mode).run ⟨bundle.naming, []⟩ with
  | ok found draft =>
      rw [hassemble] at hrun
      obtain ⟨_, _, -, hpure⟩ := run_bind_eq_ok hrun
      obtain ⟨rfl, -⟩ := EStateM.Result.ok.inj hpure
      exact ⟨draft, hmode, rfl⟩
  | error fault draft =>
      rw [hassemble] at hrun
      obtain ⟨_, _, -, hthrow⟩ := run_bind_eq_ok hrun
      contradiction

/-- A bundle starts with the directive and its requires; nothing but white space is taken off. -/
theorem exists_of_generate (hgenerate : (bundle.generate requested).run before = .ok code after) :
    ∃ rest, code = Text.trim ((Assembly.opening bundle.graph.externals).toList ++ rest) := by
  obtain ⟨_, _, _, -, hassemble⟩ := exists_assemble_of_generate hgenerate
  obtain ⟨_, _, _, _, _, _, _, _, -, -, hcode⟩ := eq_of_assemble hassemble
  exact ⟨_, hcode⟩

/-- The text of a bundle is the directive and, if there is more, a line end behind it. -/
theorem eq_useStrict_append (hgenerate : (bundle.generate requested).run before = .ok code after) :
    ∃ body, code = useStrict ++ body ∧ ∀ c ∈ body.head?, c = '\n' := by
  obtain ⟨rest, rfl⟩ := exists_of_generate hgenerate
  obtain ⟨more, hopening⟩ := exists_opening bundle.graph.externals
  have hquote : ∀ c ∈ some '\'', isBlank c = false := fun c hc => Option.some.inj hc ▸ by decide
  have hhead : useStrict.head? = some '\'' := by decide
  have hlast : useStrict.getLast? = some '\'' := by decide
  obtain ⟨body, htrim, hbody⟩ := Text.trim_append (show useStrict ≠ [] by decide) (hhead ▸ hquote)
    (fun c hc => hquote c (hlast ▸ hc)) ('\n' :: more ++ rest)
  refine ⟨body, by rw [hopening, List.append_assoc, htrim], fun c hc => ?_⟩
  obtain ⟨others, hothers⟩ := hbody
  cases body with
  | nil => cases hc
  | cons d text =>
      obtain rfl := Option.some.inj hc
      exact (List.cons.inj hothers).1

/-! ## The first statement -/

theorem ofSource_useStrict (body : List Char) :
    (Parser.State.ofSource (useStrict ++ body)).current =
      { token := .quoted "use strict", span := ⟨0, 12⟩, afterNewline := true
        start := useStrict ++ body, rest := body, comments := [], legacyComment := none } := by
  have hquote : useStrict = '\'' :: ("use strict".toList ++ ['\'']) := by decide
  have hsource : useStrict ++ body = '\'' :: ("use strict".toList ++ '\'' :: body) := by
    rw [hquote, List.cons_append, List.append_assoc, List.singleton_append]
  have hcursor : ∀ rest, Cursor.ofSource ('\'' :: rest) = ⟨'\'' :: rest, 0⟩ := by
    intro rest
    simp [Cursor.ofSource]
  have hplain : ∀ c ∈ "use strict".toList, isPlain c = true := List.all_eq_true.mp (by decide)
  have hlength : 0 + byteLength "use strict".toList + 2 = 12 := by decide
  have hcurrent : ∀ source, (Parser.State.ofSource source).current =
      nextLexeme (Cursor.ofSource source) true := fun _ => rfl
  rw [hcurrent, hsource, hcursor, nextLexeme_quote hplain, hlength, String.ofList_toList]

/-- The first statement of a bundle that can be parsed is the directive, if and only if what follows
the directive does not go on with it. -/
theorem items_iff {tree : Tree}
    (hgenerate : (bundle.generate requested).run before = .ok code after)
    (hparse : Script.parse code = .ok tree) :
    (∃ rest, tree.items = useStrictItem :: rest) ↔
      (nextLexeme ⟨code.drop 12, 12⟩ false).token.continuesStatement = false := by
  obtain ⟨body, rfl, hbody⟩ := eq_useStrict_append hgenerate
  have hcurrent := ofSource_useStrict body
  have hnext : (Parser.State.ofSource (useStrict ++ body)).advanced.current =
      nextLexeme ⟨body, 12⟩ false := by
    rw [Parser.State.advanced, hcurrent]
  have hapart : (nextLexeme ⟨body, 12⟩ false).StandsApart := by
    cases body with
    | nil => exact Or.inr rfl
    | cons c text =>
        obtain rfl := hbody c rfl
        exact Or.inl (afterNewline_nextLexeme text 12 false)
  have hquoted : (Parser.State.ofSource (useStrict ++ body)).current.token =
      .quoted "use strict" := by rw [hcurrent]
  have hitems := parse_items_iff hparse rfl hquoted
    (hnext ▸ hapart)
  rw [hcurrent, hnext] at hitems
  rw [List.drop_left' (show useStrict.length = 12 by decide)]
  exact hitems

/-! ## Statements of a script -/

/-- The statements of a script are joined on lines of their own. -/
theorem lined_partsOf {source : List Char} {emitted : List Statement} {es : List Excerpt}
    (hexcerpts : List.Forall₂ (Statement.IsExcerpt source) emitted es)
    (hplaced : ∀ statement ∈ emitted, statement.Placed source) (hne : emitted ≠ [])
    (margin count : Nat) :
    let text := Composition.joined (Assembly.partsOf margin emitted)
    Excerpt.Lined es (List.replicate (count + 1) '\n' ++ text) ∧ text ≠ [] ∧ EndsSolid text := by
  induction hexcerpts generalizing margin count with
  | nil => contradiction
  | @cons statement e emitted es hfirst hrest ih =>
      obtain ⟨hplace, hplaced⟩ := List.forall_mem_cons.mp hplaced
      have htrimmed := hplace.render_eq_trim
      have hends : EndsSolid statement.snippet.trim.render := htrimmed ▸ endsSolid_trim _
      rw [hfirst.printed] at htrimmed
      have hprinted : statement.snippet.trim.render ≠ [] := by
        simp [htrimmed, hfirst.right.text_ne_nil]
      have hcons : ∀ {es : List Excerpt} {text : List Char}, Excerpt.Lined es text →
          Excerpt.Lined (e :: es)
            (List.replicate (count + 1) '\n' ++ (statement.snippet.trim.render ++ text)) := by
        intro es text hlined
        have hcons := Excerpt.Lined.cons (e := e) count hlined
        rw [htrimmed]
        simpa [List.replicate_succ] using hcons
      cases hrest with
      | nil =>
          have hjoined : Composition.joined (Assembly.partsOf margin [statement]) =
              statement.snippet.trim.render := by
            simp [Assembly.partsOf, Composition.joined]
          rw [hjoined]
          refine ⟨?_, hprinted, hends⟩
          simpa using hcons .nil
      | @cons second other emitted es hsecond hrest =>
          -- a separator is never empty, so that no two statements share a line
          obtain ⟨gap, hgap⟩ : ∃ gap, Assembly.separator second.marginBefore statement.marginAfter =
              List.replicate (gap + 1) '\n' :=
            ⟨max (max second.marginBefore statement.marginAfter) 2 - 2, by
              rw [Assembly.separator]
              congr 1
              omega⟩
          have hjoined :
              Composition.joined (Assembly.partsOf margin (statement :: second :: emitted)) =
              statement.snippet.trim.render ++ (List.replicate (gap + 1) '\n' ++
                Composition.joined
                  (Assembly.partsOf statement.marginAfter (second :: emitted))) := by
            rw [← hgap]
            simp [Assembly.partsOf, Composition.joined]
          obtain ⟨hlined, hne, hlast⟩ := ih hplaced (List.cons_ne_nil _ _) statement.marginAfter gap
          rw [hjoined]
          refine ⟨hcons hlined, by simp [hprinted], fun c hc => hlast c ?_⟩
          rwa [← List.append_assoc, List.getLast?_append_of_ne_nil _ hne] at hc

section Scripts

variable {disk : Disk} {entry : Path} {log later : List Log.Entry} {source : List Char}
  {module : Module}

/-- What a bundle of a script holds are statements of the script, in some order. -/
theorem exists_emitted (hbuild : (build disk entry).run log = .ok bundle later)
    (hread : disk.read (entryPathOf disk entry) = .ok source)
    (hsource : Module.ofSource (entryPathOf disk entry) source = .ok module)
    (hscript : module.IsScript) :
    ∃ emitted : List Statement, (∀ statement ∈ emitted, statement ∈ module.statements) ∧
      bundle.statements = emitted.map fun statement => ⟨0, statement.index⟩ := by
  have hrange : bundle.statements ∈ Set.range (List.map
      fun statement : { statement // statement ∈ module.statements } =>
        (⟨0, statement.1.index⟩ : Address)) := by
    rw [Set.range_list_map]
    rintro ⟨id, index⟩ haddress
    obtain ⟨rfl, hindex⟩ := (mem_statements_iff hbuild hread hsource hscript _).mp haddress
    exact ⟨⟨module.statements[index], List.getElem_mem hindex⟩, congrArg (Address.mk 0)
      ((ofSource_wellFormed hsource).index index _ (List.getElem?_eq_getElem hindex))⟩
  obtain ⟨emitted, hemitted⟩ := hrange
  refine ⟨emitted.map Subtype.val, fun statement hstatement => ?_, ?_⟩
  · obtain ⟨⟨_, hmem⟩, -, rfl⟩ := List.mem_map.mp hstatement
    exact hmem
  · rw [← hemitted, List.map_map]
    rfl

/-- A bundle of excerpts is parsed as the directive and their statements, if none of them goes on
with what is printed before it. -/
theorem parse_of_excerpts {emitted : List Statement} {es : List Excerpt}
    (hexcerpts : List.Forall₂ (Statement.IsExcerpt source) emitted es)
    (hplaced : ∀ statement ∈ emitted, statement.Placed source)
    (hcode : code = Text.trim (directive ++ Composition.joined (Assembly.partsOf 0 emitted)))
    (hopening : ∀ first ∈ emitted.head?, (first.opening source).continuesStatement = false)
    (hends : emitted.IsChain (Statement.EndsBefore source)) :
    ∃ tree items, Script.parse code = .ok tree ∧ tree.items = useStrictItem :: items ∧
      List.Forall₂ (Statement.Reappears source code) emitted items := by
  have hdirective : directive = useStrict ++ List.replicate 2 '\n' := by decide
  -- without any statement the line ends behind the directive are trimmed
  obtain ⟨text, rfl, hlined⟩ : ∃ text, code = useStrict ++ text ∧ Excerpt.Lined es text := by
    by_cases hne : emitted = []
    · subst hne
      obtain rfl := List.forall₂_nil_left_iff.mp hexcerpts
      exact ⟨[], hcode.trans (by decide), .nil⟩
    · obtain ⟨hlined, hjoined, hlast⟩ := lined_partsOf hexcerpts hplaced hne 0 1
      refine ⟨_, ?_, hlined⟩
      rw [hcode, trim_directive hjoined hlast, hdirective, List.append_assoc]
  have hfirst : ∀ e ∈ es.head?, e.opening.continuesStatement = false := by
    intro e he
    cases hexcerpts with
    | nil => contradiction
    | cons hfirst _ =>
        obtain rfl := Option.some.inj he
        exact hfirst.opening ▸ hopening _ rfl
  have hright : ∀ e ∈ es, e.Right source := fun e he => by
    obtain ⟨statement, -, hstatement⟩ := exists_mem_of_forall₂ hexcerpts he
    exact hstatement.right
  obtain ⟨tree, items, hparse, hitems, hall⟩ := hlined.parse hright
    (Statement.isChain_excerpts hexcerpts hends) (ofSource_useStrict text) hfirst
  exact ⟨tree, items, hparse, hitems, Statement.forall₂_reappears hexcerpts hall⟩

/-- The bundle of a script that does not mention `default` is the directive and then the texts of
all statements in the order in which they are included.  If it can be parsed, its first statement is
the directive, if and only if the first token behind it does not go on with it.  It can be parsed,
and holds exactly the directive and these statements in that order, if neither the first statement
nor any that is printed behind another one goes on with what stands before it. -/
theorem boundaries_of_script (hbuild : (build disk entry).run log = .ok bundle later)
    (hread : disk.read (entryPathOf disk entry) = .ok source)
    (hsource : Module.ofSource (entryPathOf disk entry) source = .ok module)
    (hscript : module.IsScript)
    (hdefault : ∀ statement ∈ module.statements,
      "default" ∉ statement.dependsOn ++ statement.defines)
    (hgenerate : (bundle.generate requested).run before = .ok code after) :
    ∃ emitted : List Statement, (∀ statement ∈ emitted, statement ∈ module.statements) ∧
      (bundle.statements = emitted.map fun statement => ⟨0, statement.index⟩) ∧
      code = Text.trim (directive ++ Composition.joined (Assembly.partsOf 0 emitted)) ∧
      (∀ tree, Script.parse code = .ok tree → ((∃ rest, tree.items = useStrictItem :: rest) ↔
        (nextLexeme ⟨code.drop 12, 12⟩ false).token.continuesStatement = false)) ∧
      ((∀ first ∈ emitted.head?, (first.opening source).continuesStatement = false) →
        emitted.IsChain (Statement.EndsBefore source) →
        ∃ tree items, Script.parse code = .ok tree ∧ tree.items = useStrictItem :: items ∧
          List.Forall₂ (Statement.Reappears source code) emitted items) := by
  obtain ⟨emitted, hmem, hemitted⟩ := exists_emitted hbuild hread hsource hscript
  obtain ⟨mode, middle, -, hrun⟩ := run_bind_eq_ok hgenerate
  obtain ⟨draft, hassemble⟩ :=
    run_assemble_of_script hbuild hread hsource hscript hdefault hmem hemitted mode
  rw [hassemble] at hrun
  obtain ⟨_, _, -, hpure⟩ := run_bind_eq_ok hrun
  have hcode := (EStateM.Result.ok.inj hpure).1.symm
  refine ⟨emitted, hmem, hemitted, hcode, fun tree hparse => items_iff hgenerate hparse, ?_⟩
  obtain ⟨tree, hparse, rfl⟩ := ofSource_eq_ofTree hsource
  obtain ⟨es, hexcerpts⟩ := Statement.exists_excerpts fun statement hstatement => by
    obtain ⟨body, hform⟩ := hscript statement (hmem statement hstatement)
    exact ofTree_excerpts _ hparse (hmem statement hstatement) hform
  exact parse_of_excerpts hexcerpts
    (fun statement hstatement => (ofTree_ranges _ hparse).1 statement (hmem statement hstatement))
    hcode

end Scripts

/-- Whether a text is parsed as statements with some extents. -/
def parsesAs (text : List Char) (spans : List Span) : Bool :=
  match Script.parse text with
  | .ok tree => tree.items.map (·.span) == spans
  | .error _ => false

theorem exists_of_parsesAs (text : List Char) (spans : List Span)
    (hparses : parsesAs text spans = true) :
    ∃ tree, Script.parse text = .ok tree ∧ tree.items.map (·.span) = spans := by
  unfold parsesAs at hparses
  split at hparses
  · rename_i tree hparse
    exact ⟨tree, hparse, eq_of_beq hparses⟩
  · contradiction

theorem boundaries_commentedDisk : ∃ bundle log code after emitted tree items,
    (build commentedDisk ⟨"main.js"⟩).run [] = .ok bundle log ∧
      (bundle.generate .auto).run [] = .ok code after ∧
      bundle.statements = [⟨0, 0⟩, ⟨0, 1⟩, ⟨0, 2⟩] ∧
      (bundle.statements = emitted.map fun statement : Statement => ⟨0, statement.index⟩) ∧
      Script.parse code = .ok tree ∧ tree.items = useStrictItem :: items ∧
      List.Forall₂ (Statement.Reappears commentedText code) emitted items := by
  let text := directive ++ commentedText.take 76
  obtain ⟨bundle, log, hbuild, hbundle⟩ := exists_of_passes commentedDisk ⟨"main.js"⟩
    (fun bundle => decide (bundle.statements = [⟨0, 0⟩, ⟨0, 1⟩, ⟨0, 2⟩]) &&
      bundle.generates .auto text) (by decide +kernel)
  obtain ⟨hstatements, hgenerates⟩ := Bool.and_eq_true_iff.mp hbundle
  obtain ⟨after, hgenerate⟩ := run_generate_of_generates hgenerates
  obtain ⟨module, hsource, hmodule⟩ := exists_ofSource_of_check
    (entryPathOf commentedDisk ⟨"main.js"⟩) commentedText
    (fun module => decide (module.IsScript ∧
      ∀ statement ∈ module.statements, "default" ∉ statement.dependsOn ++ statement.defines ∧
        (statement.opening commentedText).continuesStatement = false))
    (by decide +kernel)
  obtain ⟨hscript, hall⟩ := of_decide_eq_true hmodule
  obtain ⟨emitted, hmem, hemitted, -, -, hreads⟩ := boundaries_of_script hbuild (by decide +kernel)
    hsource hscript (fun statement hstatement => (hall statement hstatement).1) hgenerate
  have hopening : ∀ statement ∈ emitted,
    (statement.opening commentedText).continuesStatement = false :=
    fun statement hstatement => (hall statement (hmem statement hstatement)).2
  have hends : emitted.IsChain (Statement.EndsBefore commentedText) :=
    (List.pairwise_of_forall_mem_list fun _ _ next hnext => Or.inl (hopening next hnext)).isChain
  obtain ⟨tree, items, hparse, hitems, hreappear⟩ := hreads
    (fun first hfirst => hopening first (List.mem_of_mem_head? hfirst)) hends
  exact ⟨bundle, log, text, after, emitted, tree, items, hbuild, hgenerate,
    of_decide_eq_true hstatements, hemitted, hparse, hitems, hreappear⟩

/-- A script with one statement that starts with a parenthesis. -/
def calledDisk : Disk where
  workingDirectory := []
  files := [(["main.js"], .text "(function () \x7b\x7d)();\n".toList)]
  directories := []

/-- A script whose statements are put in another order, so that the last one comes to stand behind
one without a semicolon. -/
def reorderedDisk : Disk where
  workingDirectory := []
  files := [(["main.js"], .text "f()\nvar f = function () \x7b\x7d;\n(f)\n".toList)]
  directories := []

/-- The directive is merged with the one statement of the first script, and two statements of the
second script with each other. -/
theorem not_boundaries_calledDisk :
    (∃ bundle log code after tree, (build calledDisk ⟨"main.js"⟩).run [] = .ok bundle log ∧
      bundle.statements = [⟨0, 0⟩] ∧ (bundle.generate .auto).run [] = .ok code after ∧
      Script.parse code = .ok tree ∧ tree.items.map (·.span) = [⟨0, 33⟩]) ∧
    ∃ bundle log code after tree, (build reorderedDisk ⟨"main.js"⟩).run [] = .ok bundle log ∧
      bundle.statements = [⟨0, 1⟩, ⟨0, 0⟩, ⟨0, 2⟩] ∧
        (bundle.generate .auto).run [] = .ok code after ∧
      Script.parse code = .ok tree ∧
      tree.items.map (·.span) = [⟨0, 12⟩, ⟨14, 37⟩, ⟨38, 45⟩] := by
  constructor
  · obtain ⟨bundle, log, hbuild, hbundle⟩ := exists_of_passes calledDisk ⟨"main.js"⟩
      (fun bundle => decide (bundle.statements = [⟨0, 0⟩]) &&
        bundle.generates .auto "'use strict'\n\n(function () \x7b\x7d)();".toList)
          (by decide +kernel)
    obtain ⟨hstatements, hgenerates⟩ := Bool.and_eq_true_iff.mp hbundle
    obtain ⟨after, hgenerate⟩ := run_generate_of_generates hgenerates
    obtain ⟨tree, hparse, hspans⟩ := exists_of_parsesAs
      "'use strict'\n\n(function () \x7b\x7d)();".toList [⟨0, 33⟩]
      (by decide +kernel)
    exact ⟨bundle, log, _, after, tree, hbuild, of_decide_eq_true hstatements, hgenerate, hparse,
      hspans⟩
  · obtain ⟨bundle, log, hbuild, hbundle⟩ := exists_of_passes reorderedDisk ⟨"main.js"⟩
      (fun bundle => decide (bundle.statements = [⟨0, 1⟩, ⟨0, 0⟩, ⟨0, 2⟩]) &&
        bundle.generates .auto "'use strict'\n\nvar f = function () \x7b\x7d;\nf()\n(f)".toList)
      (by decide +kernel)
    obtain ⟨hstatements, hgenerates⟩ := Bool.and_eq_true_iff.mp hbundle
    obtain ⟨after, hgenerate⟩ := run_generate_of_generates hgenerates
    obtain ⟨tree, hparse, hspans⟩ := exists_of_parsesAs
      "'use strict'\n\nvar f = function () \x7b\x7d;\nf()\n(f)".toList
      [⟨0, 12⟩, ⟨14, 37⟩, ⟨38, 45⟩] (by decide +kernel)
    exact ⟨bundle, log, _, after, tree, hbuild, of_decide_eq_true hstatements, hgenerate, hparse,
      hspans⟩

end Bundle

end ScriptBundler

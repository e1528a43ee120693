import ScriptBundler.Proofs.Script.Excerpts
import ScriptBundler.Proofs.Script.GrammarPassages

/-!
# Transcripts

A transcript is a source that excerpts of another source are copied to, each on lines of its own and
in any order.  Behind a directive, it is parsed as the directive and the statements of the excerpts,
as long as no two neighbours are taken for one statement.
-/

namespace ScriptBundler
namespace Script

open Text Cursor ScriptBundler.Script.Parser

/-! ## Top-level statements as passages -/

namespace Parser

open Mark

variable {p : Passage} {k d : Nat} {g g' : Grammar} {setting : Setting} {s s' t : State}

namespace Passage

/-- A parser that ends a text without a fault is not lost there. -/
theorem not_lost {mode : Mode} (hstop : t.previous.stop = p.stop) (hclean : t.mark.faulty = false)
    (hwants : mode.wants) : ¬p.Lost mode t := by
  rintro ⟨hdoomed | ⟨-, hnot⟩, -⟩
  · exact hdoomed t.mark (.refl _) hclean hstop
  · exact hnot hwants

/-- Parsers that are abreast where the first one has ended the text are at its end. -/
theorem atEnd_of_abreast {mode : Mode} {t' : State} (habreast : p.Abreast mode k t t')
    (hstop : t.previous.stop = p.stop) : p.AtEnd t t' := by
  rcases habreast.place with ⟨front, word, back, hmeets, -⟩ | ⟨-, hend⟩
  · obtain ⟨c, inner, rfl⟩ := List.exists_cons_of_ne_nil hmeets.nonempty
    have hpos := byteLength_pos c inner
    have hbehind := hmeets.behind
    rw [hmeets.span, hstop, Transfer.stop, hmeets.text, byteLength_append,
      byteLength_append] at hbehind
    dsimp only at hbehind
    omega
  · exact hend

theorem topStatement_retraces {start : Nat} (hstart : p.start ≤ start) (hk : k ≤ p.text.length)
    (hstatement : p.Retraces .inner k (Mode.behind p) (k - 1) (g.statement true) (g'.statement true)
      (Stmt.relocate p.relocate)) :
    p.Retraces .inner k (fun found => Mode.behind p found.1) (k - 1) (topStatement g start)
      (topStatement g' (p.relocate start))
      (fun found => (found.1.relocate p.relocate, found.2.relocate p.relocate)) := by
  refine .bind hstatement fun body => .bind (settlePending_retraces hstart) fun _ =>
    .bind (spanFrom_retraces rfl (by omega)) fun span => ?_
  let behind (found : Stmt × Span) : Mode := Mode.behind p found.1
  let relocated (found : Stmt × Span) := (found.1.relocate p.relocate, found.2.relocate p.relocate)
  have hpure : p.Retraces (behind (body, span)) (k - 1) behind (k - 1) (pure (body, span))
    (pure (relocated (body, span))) relocated := .pure_of rfl le_rfl
  exact hpure

/-- What declares nothing of a module for the first parser declares nothing for the second one. -/
theorem Stands.declares_eq_false (hstands : p.Stands setting p.text.length s s')
    (hother : declares s.current.token s.advanced.current.token = false) {depth : Nat}
    {found : Stmt × Span} (htop : topStatement (grammarOfDepth (depth + 1)) s.current.span.start
      setting s = .ok (found, t)) (hleads : Leads s.mark t.mark)
    (hclean : t.mark.faulty = false) (hstop : t.previous.stop = p.stop) :
    declares s'.current.token s'.advanced.current.token = false := by
  -- only behind `import` the next token matters
  by_cases himport : s.current.token = .word "import" false
  swap
  · have hexport : s.current.token ≠ .word "export" false := by
      rintro hexport
      simp [declares, hexport] at hother
    rw [hstands.token]
    simp [declares, himport, hexport]
  have hplain : ∀ text, s.current.token = .punctuator text → text = "(" := by
    intro text h
    rw [himport] at h
    contradiction
  rcases hstands.peeks hplain le_rfl with hdoomed | ⟨hnext, -⟩ | hend
  · exact absurd hstop (hdoomed _ hleads hclean)
  · rw [hstands.token, hnext]
    exact hother
  · have hpartial : s.current.token.isPartial = true := by
      rw [himport]
      rfl
    have hbudget : 0 < setting.budget := hstands.budget ▸ Nat.zero_lt_of_lt p.room.1
    have hfalters : Falters s (statement (grammarOfDepth depth) true setting s) :=
      statement_falters hpartial (grammarOfDepth_advancing depth)
        (grammarOfDepth_falters hpartial depth).2 hbudget (by simp [himport]) true
    have htop' : Falters s
        (topStatement (grammarOfDepth (depth + 1)) s.current.span.start setting s) :=
      Falters.topStatement hfalters
    rcases htop'.overreads _ _ htop with hfaulty | hmoves
    · rw [hclean] at hfaulty
      contradiction
    · exact absurd hstop (over_moves (over_of_atEnd hend) hmoves _ (.refl _) hclean)

/-- A top-level statement that ends the text is read again in the second source. -/
theorem moduleItem_follows (depth depth' : Nat) (hdepth' : 3 * p.text.length + 3 ≤ depth')
    (hstands : p.Stands setting p.text.length s s') {body : Stmt} {span : Span}
    (hrun : moduleItem (grammarOfDepth (depth + 1)) setting s = .ok (⟨.statement body, span⟩, t))
    (hclean : t.mark.faulty = false) (hstop : t.previous.stop = p.stop)
    (hwants : p.Apart ∨ p.text.getLast? = some ';' ∨ body.isClosed = true) :
    ∃ t', moduleItem (grammarOfDepth (depth' + 1)) (p.setting setting) s' =
        .ok (⟨.statement (body.relocate p.relocate), span.relocate p.relocate⟩, t') ∧
      p.Alike t t' ∧ p.AtEnd t t' := by
  have hadvancing := grammarOfDepth_advancing (depth + 1)
  have hbudget : 0 < setting.budget := hstands.budget ▸ Nat.zero_lt_of_lt p.room.1
  have hother := not_declares hadvancing hrun
  have htop := (run_moduleItem_iff hother).mp hrun
  have hleads : Leads s.mark t.mark := (of_triple (moduleItem_advances _ hadvancing) hrun).1.leads
  have hreaches : p.Reaches (3 * p.text.length + 3) (grammarOfDepth depth)
      (grammarOfDepth depth') := reaches_grammarOfDepth depth le_rfl hdepth'
  have hstatement : p.Retraces .inner p.text.length (Mode.behind p) (p.text.length - 1)
      ((grammarOfDepth (depth + 1)).statement true) ((grammarOfDepth (depth' + 1)).statement true)
      (Stmt.relocate p.relocate) := statement_retraces hreaches true fun _ => le_rfl
  -- as long as the second parser declares nothing, either, it follows the first one
  have hsame := hstands.declares_eq_false hother htop hleads hclean hstop
  have hfollows := hstands.follows (topStatement_retraces hstands.start_le le_rfl hstatement)
  rcases hfollows _ _ htop with hlost | ⟨t', hrun', habreast⟩
  · exact absurd hlost (not_lost hstop hclean hwants)
  · refine ⟨t', (run_moduleItem_iff hsame).mpr ?_, habreast.alike, atEnd_of_abreast habreast hstop⟩
    rw [hstands.span]
    exact hrun'

end Passage

end Parser

namespace Excerpt

variable {source text gap : List Char} {e : Excerpt} {es : List Excerpt} {s t s' : State}

/-- The token that the text of an excerpt starts with. -/
def opening (e : Excerpt) : Token :=
  (nextLexeme ⟨e.text, e.span.start⟩ true).token

theorem Reads.not_isStray (hreads : e.Reads source s t) : s.current.token.isStray = false :=
  Parser.not_isStray (4 * source.length + 7) (Nat.succ_pos _) hreads.run hreads.clean

/-- The first token of an excerpt is read again behind other spacing. -/
theorem Reads.exists_word (hreads : e.Reads source s t) :
    ∃ word back, e.text = word ++ back ∧ word ≠ [] ∧ s.current.rest = back ++ e.tail ∧
      s.current.span = ⟨e.span.start, e.span.start + byteLength word⟩ ∧
      ∀ {other gap : List Char} (place : Nat) (first : Bool),
        (∀ c ∈ other.head?, isGap c = true ∨ c = '/' ∧ e.tail.head? = some '/') →
        Spacing (e.text ++ other) gap →
        ∃ newline comments, nextLexeme ⟨gap ++ (e.text ++ other), place⟩ first =
          { token := s.current.token
            span := ⟨place + byteLength gap, place + byteLength gap + byteLength word⟩
            afterNewline := newline, start := e.text ++ other, rest := back ++ other
            comments, legacyComment := none } := by
  obtain ⟨origin, first, hcurrent⟩ := hreads.lexeme
  have harrow := not_arrow _ (Nat.succ_pos _) hreads.run hreads.clean hcurrent hreads.proper
  obtain ⟨word, hword, hstart, hstop, hreread⟩ :=
    nextLexeme_behind hcurrent.symm hreads.proper harrow
  obtain ⟨back, htext, hrest⟩ : ∃ back,
      e.text = word ++ back ∧ s.current.rest = back ++ e.tail := by
    have hwithin := hreads.within
    rw [hstop, hreads.start, hreads.stop] at hwithin
    rcases List.append_eq_append_iff.mp (hstart.symm.trans hreads.text) with
      ⟨back, htext, hrest⟩ | ⟨_ | ⟨c, front⟩, rfl, htail⟩
    · exact ⟨back, htext, hrest⟩
    · exact ⟨[], by simp, by simpa using htail.symm⟩
    · have := byteLength_pos c front
      rw [byteLength_append] at hwithin
      omega
  refine ⟨word, back, htext, hword, hrest, ?_, ?_⟩
  · rw [← hreads.start, ← hstop]
  · intro other gap place first hother hgap
    have hpoint : KeepsPoint s.current.token s.current.rest (back ++ other) := by
      intro hquestion
      have hstray := hreads.not_isStray
      rw [hquestion] at hstray
      contradiction
    have hreplaces : Replaces s.current.rest (back ++ other) := by
      rw [hrest]
      exact (Replaces.cut hother).append back
    rw [htext, List.append_assoc] at hgap ⊢
    exact hreread place first hreplaces hpoint hgap

theorem Reads.span_eq (hreads : e.Reads source s t) :
    e.span = ⟨e.span.start, e.span.start + byteLength e.text⟩ := by
  have hspan := (of_triple (moduleItem_advances s (grammarOfDepth_advancing _)) hreads.run).2
  rw [← hreads.stop, ← hreads.start]
  exact hspan

theorem Reads.token_eq_opening (hreads : e.Reads source s t) : s.current.token = e.opening := by
  obtain ⟨word, back, -, -, -, -, hreread⟩ := hreads.exists_word
  obtain ⟨newline, comments, hnext⟩ := @hreread [] [] e.span.start true (by simp) .nil
  rw [List.nil_append, List.append_nil] at hnext
  rw [opening, hnext]

/-! ## Lines -/

/-- Whether a text is made of excerpts, each of which starts on a line of its own. -/
inductive Lined : List Excerpt → List Char → Prop where
  | nil : Lined [] []
  | cons {e : Excerpt} {es : List Excerpt} {text : List Char} (count : Nat)
      (hrest : Lined es text) :
      Lined (e :: es)
        ('\n' :: (List.replicate count '\n' ++ (e.lead ++ (e.text ++ (e.trail ++ text)))))

theorem Lined.head (hlined : Lined es text) : ∀ c ∈ text.head?, c = '\n' := by
  intro c hc
  cases hlined with
  | nil => contradiction
  | cons => exact (Option.some.inj hc).symm

/-- The comments behind a statement are spacing before the next line. -/
theorem Right.spacing_trail (hright : e.Right source) (hlined : Lined es text) :
    Spacing text e.trail :=
  hright.trail text fun c hc => hlined.head c hc ▸ by decide

theorem Right.text_ne_nil (hright : e.Right source) : e.text ≠ [] := by
  obtain ⟨s, t, hreads⟩ := hright.reads
  obtain ⟨word, back, htext, hword, -⟩ := hreads.exists_word
  rw [htext]
  exact fun h => hword (List.append_eq_nil_iff.mp h).1

/-- Line ends and the comments before a statement are spacing before its text. -/
theorem Right.spacing_lead (hright : e.Right source) (count : Nat) (rest : List Char) :
    Spacing (e.text ++ rest) ('\n' :: (List.replicate count '\n' ++ e.lead)) := by
  have hlead : Spacing (e.text ++ rest) e.lead := by
    refine hright.lead.congr ?_
    rw [List.head?_append_of_ne_nil _ hright.text_ne_nil,
      List.head?_append_of_ne_nil _ hright.text_ne_nil]
  exact .blank '\n' (by decide) ((spacing_replicate _ count).append hlead)

/-- What stands between two statements is spacing before the second one. -/
theorem Right.spacing_between (hright : e.Right source) (count : Nat) {trail rest : List Char}
    (htrail : Spacing ('\n' :: (List.replicate count '\n' ++ (e.lead ++ (e.text ++ rest)))) trail) :
    Spacing (e.text ++ rest) (trail ++ '\n' :: (List.replicate count '\n' ++ e.lead)) :=
  .append (by simpa using htrail) (hright.spacing_lead count rest)

/-- What stands behind the text of an excerpt, if others follow it, starts as it does in its
source. -/
theorem Right.joint_head (hright : e.Right source) (hlined : Lined es text) :
    ∀ c ∈ (e.trail ++ text).head?, isGap c = true ∨ c = '/' ∧ e.tail.head? = some '/' := by
  intro c hc
  cases htrail : e.trail with
  | nil =>
      rw [htrail, List.nil_append] at hc
      exact Or.inl (hlined.head c hc ▸ by decide)
  | cons d trail =>
      rw [htrail] at hc
      obtain rfl := Option.some.inj hc
      obtain ⟨more, hmore⟩ := hright.joint
      refine (hright.spacing_trail hlined).head d (by rw [htrail]; rfl) |>.imp_right
        fun h => ⟨h, ?_⟩
      rw [← hmore, htrail, h]
      rfl

/-- What comes behind the comments after a statement: the next excerpt, or the end. -/
theorem Lined.next (hlined : Lined es text) (hes : ∀ e ∈ es, e.Right source) {trail : List Char}
    (htrail : Spacing text trail) (place : Nat) (first : Bool) :
    (nextLexeme ⟨trail ++ text, place⟩ first).legacyComment = none ∧
      (nextLexeme ⟨trail ++ text, place⟩ first).StandsApart ∧
      (nextLexeme ⟨trail ++ text, place⟩ first).token.isStray = false ∧
      (nextLexeme ⟨trail ++ text, place⟩ first).token = (es.head?.map opening).getD .finish := by
  cases hlined with
  | nil =>
      obtain ⟨htoken, hlegacy⟩ := nextLexeme_finish htrail place first
      rw [List.append_nil]
      exact ⟨hlegacy, Or.inr htoken, by rw [htoken]; rfl, htoken⟩
  | @cons e es text count hrest =>
      have hright := hes e List.mem_cons_self
      obtain ⟨s, t, hreads⟩ := hright.reads
      obtain ⟨word, back, -, -, -, -, hreread⟩ := hreads.exists_word
      obtain ⟨newline, comments, hnext⟩ :=
        hreread place first (hright.joint_head hrest) (hright.spacing_between count htrail)
      have hnewline := afterNewline_behind htrail place first
      rw [List.append_assoc, List.cons_append, List.append_assoc] at hnext
      rw [hnext] at hnewline ⊢
      refine ⟨rfl, Or.inl hnewline, hreads.not_isStray, hreads.token_eq_opening⟩

/-! ## Reading excerpts again -/

/-- The text of an excerpt, as it stands in its source and in a transcript. -/
def transfer (source : List Char) (e : Excerpt) (start : Nat) (rest : List Char) (length : Nat) :
    Parser.Transfer where
  text := e.text
  start := e.span.start
  tail := e.tail
  budget := source.length + 2
  newStart := start
  newTail := e.trail ++ rest
  newBudget := length + 2

/-- Whether a parser is going to read on from a place, and has noted nothing behind it. -/
structure Awaits (s : State) (rest : List Char) (place : Nat) : Prop where
  current : s.current = nextLexeme ⟨rest, place⟩ false
  fault : s.fault = none
  pending : ∀ noted ∈ s.pending, noted < place
  commas : ∀ noted ∈ s.commas.map (·.1), noted < place
  suspension : ∀ noted ∈ s.suspension.toList, noted < place

/-- At the end of a text the second parser has noted nothing behind it. -/
theorem awaits_of_atEnd {p : Passage} {s s' : State} (halike : p.Alike s s') (hend : p.AtEnd s s') :
    Awaits s' p.newTail p.newStop := by
  have hnoted : ∀ {places newPlaces : List Nat}, p.Carries places newPlaces →
      ∀ noted ∈ newPlaces, noted < p.newStop := by
    intro places newPlaces hcarries noted hmem
    rcases hcarries noted hmem with hbefore | ⟨old, -, hfirst, hlast, rfl⟩
    · exact (Nat.lt_of_succ_lt hbefore).trans_le (Nat.le_add_right _ _)
    · exact Passage.relocate_stop ▸ lt_of_not_ge fun hle =>
        hlast.not_ge ((Passage.relocate_le_iff hfirst p.stop).mp hle)
  exact ⟨hend.newCurrent, halike.fault, hnoted halike.pending, hnoted halike.commas,
    hnoted halike.suspension⟩

/-- Text that is read behind all that a parser has noted carries none of it. -/
theorem Awaits.alike {place : Nat} (hawaits : Awaits s' text place) {p : Transfer}
    (hplace : place < p.newStart) (s : State) : p.Alike s s' := by
  have hcarries : ∀ {places newPlaces : List Nat}, (∀ noted ∈ newPlaces, noted < place) →
      p.Carries places newPlaces :=
    fun hnoted noted hmem => Or.inl ((Nat.succ_le_of_lt (hnoted noted hmem)).trans_lt hplace)
  exact ⟨hawaits.fault, hcarries hawaits.pending, hcarries hawaits.commas,
    hcarries hawaits.suspension⟩

/-- A parser that awaits an excerpt behind spacing is at its first token, as the one that has read
it in its source was. -/
theorem Reads.meets (hreads : e.Reads source s t) {rest : List Char} {place start : Nat}
    (length : Nat)
    (hjoint : ∀ c ∈ (e.trail ++ rest).head?, isGap c = true ∨ c = '/' ∧ e.tail.head? = some '/')
    (hgap : Spacing (e.text ++ (e.trail ++ rest)) gap) (hstart : place + byteLength gap = start)
    (hawaits : Awaits s' (gap ++ (e.text ++ (e.trail ++ rest))) place) :
    ∃ word back, (e.transfer source start rest length).Meets [] word back s s' := by
  obtain ⟨word, back, htext, hword, hrest, hspan, hreread⟩ := hreads.exists_word
  obtain ⟨newline, comments, hagain⟩ := hreread place false hjoint hgap
  obtain ⟨origin, first, hcurrent⟩ := hreads.lexeme
  have hnew := hawaits.current.trans hagain
  have hfirst : s.current.start = word ++ s.current.rest := by
    rw [hreads.text, htext, hrest, List.append_assoc]
  exact ⟨word, back, {
    text := htext
    nonempty := hword
    proper := hreads.proper
    token := by rw [hnew]
    span := hspan
    newSpan := by rw [hnew, hstart]; rfl
    start := by rw [hfirst, hrest]; rfl
    newStart := by rw [hnew, htext, List.append_assoc]; rfl
    rest := hrest
    newRest := by rw [hnew]; rfl
    spelled := fun htoken => word_of_punctuator (hcurrent ▸ hfirst) (hcurrent ▸ htoken)
    ending := fun hother => getLast?_ne_semicolon (hcurrent ▸ hreads.proper) (hcurrent ▸ hfirst)
      (hcurrent ▸ hother)
    behind := hreads.behind
    inner := fun h => absurd rfl h }⟩

/-- The text of an excerpt is a passage to a transcript. -/
theorem Right.exists_passage (hright : e.Right source) (hlined : Lined es text)
    (hes : ∀ e ∈ es, e.Right source) {start length : Nat} (hstart : 0 < start)
    (hlength : e.text.length ≤ length) :
    ∃ p : Passage, p.toTransfer = e.transfer source start text length ∧
      p.newNext.token = (es.head?.map opening).getD .finish := by
  obtain ⟨s, t, hreads⟩ := hright.reads
  obtain ⟨hlegacy, hapart, hstray, hnext⟩ := hlined.next hes (hright.spacing_trail hlined)
    (start + byteLength e.text) false
  have hbehind : nextLexeme ⟨e.tail, e.span.start + byteLength e.text⟩ false = t.current :=
    hreads.stop ▸ hreads.next.symm
  have hroom : ∀ {length : Nat}, e.text.length ≤ length → e.text.length + 1 < length + 2 :=
    fun hlength => Nat.succ_lt_succ (Nat.lt_succ_of_le hlength)
  exact ⟨{
    e.transfer source start text length with
    room := ⟨hroom hright.bound, hroom hlength⟩
    pos := hstart
    joint := hright.joint_head hlined
    stray := (congrArg (·.token.isStray) hbehind).trans hreads.stray
    newStray := hstray
    newApart := hapart
    newLegacy := hlegacy }, rfl, hnext⟩

/-- Whether the statement of an excerpt ends before another one that is copied behind it. -/
def EndsBefore (e next : Excerpt) : Prop :=
  next.opening.continuesStatement = false ∨ e.text.getLast? = some ';' ∨ e.body.isClosed = true

/-- Where an offset of a text from one place on is if the text is moved to another place. -/
def moved (start newStart place : Nat) : Nat :=
  if start ≤ place then place - start + newStart else newStart - 1

/-- Behind spacing, an excerpt is read as its statement again if the next one does not go on with
it. -/
theorem Right.reads_again (hright : e.Right source) (hlined : Lined es text)
    (hes : ∀ e ∈ es, e.Right source) (hends : ∀ next ∈ es.head?, e.EndsBefore next)
    {place start length : Nat} (hlength : e.text.length ≤ length)
    (hgap : Spacing (e.text ++ (e.trail ++ text)) gap) (hstart : place + byteLength gap = start)
    (hplace : place < start) (hawaits : Awaits s (gap ++ (e.text ++ (e.trail ++ text))) place) :
    s.current.token.isProper = true ∧
      ∃ t, moduleItem (Parser.grammarOfDepth (4 * (length + 2))) (.top (length + 2)) s =
        .ok (⟨.statement (e.body.relocate (moved e.span.start start)),
          ⟨start, start + byteLength e.text⟩⟩, t) ∧
      Awaits t (e.trail ++ text) (start + byteLength e.text) := by
  obtain ⟨s₀, t₀, hreads⟩ := hright.reads
  obtain ⟨p, htransfer, hnext⟩ :=
    hright.exists_passage hlined hes (Nat.zero_lt_of_lt hplace) hlength
  obtain ⟨word, back, hmeets⟩ :=
    hreads.meets length (hright.joint_head hlined) hgap hstart hawaits
  rw [← htransfer] at hmeets
  have htext : p.text = e.text := congrArg Transfer.text htransfer
  have hwithin : p.Within p.text.length s₀ s :=
    ⟨[], word, back, hmeets, by rw [hmeets.text, List.nil_append]⟩
  have halike : p.Alike s₀ s := hawaits.alike (htransfer ▸ hplace) s₀
  -- the end of the statement counts if the next one does not go on with it
  have hwants : p.Apart ∨ p.text.getLast? = some ';' ∨ e.body.isClosed = true := by
    rw [Transfer.Apart, hnext, htext]
    cases es with
    | nil => exact Or.inl rfl
    | cons next es => exact hends next rfl
  have hstop : t₀.previous.stop = p.stop := htransfer ▸ hreads.stop
  have hbudget : p.setting (.top (source.length + 2)) = .top (length + 2) := htransfer ▸ rfl
  obtain ⟨t, hrun, hsame, hend⟩ := Passage.moduleItem_follows (4 * source.length + 7)
    (4 * length + 7) (by rw [htext]; omega)
    ⟨htransfer ▸ rfl, halike, hwithin⟩ hreads.run hreads.clean hstop hwants
  have hspan : e.span.relocate p.relocate = ⟨start, start + byteLength e.text⟩ := by
    have hfirst : p.start = e.span.start := congrArg Transfer.start htransfer
    have hnew : p.newStart = start := congrArg Transfer.newStart htransfer
    rw [hreads.span_eq, ← hfirst, ← hnew]
    exact congrArg₂ Span.mk (Passage.relocate_add 0) (Passage.relocate_add _)
  have hmoved : p.relocate = moved e.span.start start := congrArg Transfer.relocate htransfer
  rw [hspan, hmoved] at hrun
  have hawaits' := awaits_of_atEnd hsame hend
  rw [show p.newTail = e.trail ++ text from congrArg Transfer.newTail htransfer,
    show p.newStop = start + byteLength e.text from congrArg Transfer.newStop htransfer] at hawaits'
  exact ⟨hmeets.token ▸ hmeets.proper, t, hbudget ▸ hrun, hawaits'⟩

/-- Whether an item of a text is the statement of an excerpt, moved to another place. -/
def Reappears (code : List Char) (e : Excerpt) (item : Item) : Prop :=
  ∃ front back, code = front ++ (e.text ++ back) ∧
    item = ⟨.statement (e.body.relocate (moved e.span.start (byteLength front))),
      ⟨byteLength front, byteLength (front ++ e.text)⟩⟩

/-- Excerpts on lines of their own are read one after the other. -/
theorem Lined.loop {code : List Char} (hlined : Lined es text) (hes : ∀ e ∈ es, e.Right source)
    (hends : es.IsChain EndsBefore) {front trail : List Char} (htrail : Spacing text trail)
    (hcode : code = front ++ (trail ++ text))
    (hawaits : Awaits s (trail ++ text) (byteLength front)) {rounds : Nat}
    (hrounds : es.length < rounds) :
    ∃ items final, repeatUntil.loop atEnd (moduleItem (sourceGrammar code)) rounds
        (.top (code.length + 2)) s = .ok (items, final) ∧ final.fault = none ∧
      List.Forall₂ (Reappears code) es items := by
  induction hlined generalizing s front trail rounds with
  | nil =>
      obtain ⟨rounds, rfl⟩ := Nat.exists_eq_succ_of_ne_zero (Nat.ne_zero_of_lt hrounds)
      have hfinish : s.current.token = .finish := by
        rw [hawaits.current, List.append_nil]
        exact (nextLexeme_finish htrail _ false).1
      have hend : atEnd (.top (code.length + 2)) s = .ok (true, s) := by
        rw [run_atEnd, hfinish]
        rfl
      exact ⟨[], s, by rw [repeatUntil.loop, run_bind hend]; rfl, hawaits.fault, .nil⟩
  | @cons e es text count hrest ih =>
      obtain ⟨rounds, rfl⟩ := Nat.exists_eq_succ_of_ne_zero (Nat.ne_zero_of_lt hrounds)
      obtain ⟨hright, hes⟩ := List.forall_mem_cons.mp hes
      obtain ⟨hnext, hends⟩ := List.isChain_cons.mp hends
      have hgap := hright.spacing_between count htrail
      -- all that stands between the texts of two statements is one gap to the parser
      generalize hbetween : trail ++ '\n' :: (List.replicate count '\n' ++ e.lead) = gap at hgap
      have hwhole : trail ++ '\n' :: (List.replicate count '\n' ++
          (e.lead ++ (e.text ++ (e.trail ++ text)))) = gap ++ (e.text ++ (e.trail ++ text)) := by
        rw [← hbetween]
        simp
      rw [hwhole] at hcode hawaits
      have hne : 0 < byteLength gap := by
        have := byteLength_pos '\n' (List.replicate count '\n' ++ e.lead)
        rw [← hbetween, byteLength_append]
        omega
      obtain ⟨hproper, t, hitem, hawaits'⟩ := hright.reads_again hrest hes hnext
        (show e.text.length ≤ code.length by rw [hcode]; simp; omega) hgap
        (byteLength_append front gap).symm (by rw [byteLength_append]; omega) hawaits
      rw [← byteLength_append] at hitem hawaits'
      have hend : atEnd (.top (code.length + 2)) s = .ok (false, s) := by
        rw [run_atEnd, beq_false_of_ne (by rintro hfinish; rw [hfinish] at hproper; contradiction)]
      have hsplit : code = front ++ gap ++ e.text ++ (e.trail ++ text) := by
        rw [hcode]
        simp
      obtain ⟨items, final, hrun, hclean, hitems⟩ :=
        ih hes hends (hright.spacing_trail hrest) hsplit
        hawaits' (Nat.lt_of_succ_lt_succ hrounds)
      refine ⟨_ :: items, final, ?_, hclean, .cons ⟨front ++ gap, e.trail ++ text, ?_, rfl⟩ hitems⟩
      · rw [repeatUntil.loop, run_bind hend, if_neg Bool.false_ne_true, sourceGrammar,
          run_bind hitem]
        exact run_bind hrun
      · rw [hcode, List.append_assoc]

theorem Lined.length_le (hlined : Lined es text) : es.length ≤ text.length := by
  induction hlined with
  | nil => exact le_rfl
  | cons => simp; omega

/-- Behind a literal at the start of a source the rest of it is awaited. -/
theorem awaits_of_literal {front text : List Char} {literal : String} {newline : Bool}
    {comments : List Comment}
    (hliteral : (State.ofSource (front ++ text)).current =
      { token := .quoted literal, span := ⟨0, byteLength front⟩, afterNewline := newline
        start := front ++ text, rest := text, comments, legacyComment := none })
    (hlegacy : (nextLexeme ⟨text, byteLength front⟩ false).legacyComment = none) :
    Awaits (State.ofSource (front ++ text)).advanced text (byteLength front) where
  current := by rw [current_advanced, hliteral]
  fault := by
    change (State.ofSource (front ++ text)).current.legacyComment.or
      (State.ofSource (front ++ text)).advanced.current.legacyComment = none
    rw [current_advanced, hliteral]
    exact hlegacy
  pending := fun _ h => nomatch h
  commas := fun _ h => nomatch h
  suspension := fun _ h => nomatch h

/-- Behind a literal that is a statement of its own, excerpts on lines of their own are read one
after the other. -/
theorem Lined.parse (hlined : Lined es text) (hes : ∀ e ∈ es, e.Right source)
    (hends : es.IsChain EndsBefore) {front : List Char} {literal : String} {newline : Bool}
    {comments : List Comment}
    (hliteral : (State.ofSource (front ++ text)).current =
      { token := .quoted literal, span := ⟨0, byteLength front⟩, afterNewline := newline
        start := front ++ text, rest := text, comments, legacyComment := none })
    (hopening : ∀ e ∈ es.head?, e.opening.continuesStatement = false) :
    ∃ tree items, Script.parse (front ++ text) = .ok tree ∧
      tree.items = ⟨.statement (.expression (.atom ⟨0, byteLength front⟩) ⟨0, byteLength front⟩),
        ⟨0, byteLength front⟩⟩ :: items ∧
      List.Forall₂ (Reappears (front ++ text)) es items := by
  obtain ⟨hlegacy, hapart, -, htoken⟩ := hlined.next hes .nil (byteLength front) false
  rw [List.nil_append] at hlegacy hapart htoken
  have hawaits := awaits_of_literal hliteral hlegacy
  have hother : (nextLexeme ⟨text, byteLength front⟩ false).token.continuesStatement = false := by
    rw [htoken]
    cases es with
    | nil => rfl
    | cons e es => exact hopening e rfl
  generalize hcode : front ++ text = code at *
  generalize hs : State.ofSource code = s at *
  have hquoted : s.current.token = .quoted literal := by rw [hliteral]
  have hbudget : 0 < (Setting.top (code.length + 2)).budget := Nat.succ_pos _
  -- the literal is an item by itself, for nothing behind it goes on with it
  have hfirst := run_moduleItem hquoted (4 * code.length + 5) hbudget
    (hawaits.current ▸ hapart) (hs ▸ rfl) (hawaits.current ▸ hother)
  rw [show s.current.span = ⟨0, byteLength front⟩ by rw [hliteral]] at hfirst
  generalize (⟨.statement (.expression (.atom ⟨0, byteLength front⟩) ⟨0, byteLength front⟩),
    ⟨0, byteLength front⟩⟩ : Item) = item at hfirst ⊢
  -- the loop has as many rounds as the text has characters, and every excerpt takes a line
  have hrounds : es.length < code.length + 1 := by
    rw [← hcode, List.length_append]
    exact Nat.lt_succ_of_le (hlined.length_le.trans (Nat.le_add_left _ _))
  obtain ⟨items, final, hrun, hclean, hitems⟩ :=
    hlined.loop hes hends .nil hcode.symm hawaits hrounds
  have hend : atEnd (.top (code.length + 2)) s = .ok (false, s) := by
    rw [run_atEnd, hquoted]
    rfl
  have hmodule : Parser.module (sourceGrammar code) (.top (code.length + 2)) s =
      .ok (item :: items, final) := by
    rw [Parser.module, repeatUntil, run_bind run_read]
    change repeatUntil.loop atEnd _ (code.length + 1 + 1) _ _ = _
    rw [repeatUntil.loop, run_bind hend, if_neg Bool.false_ne_true]
    exact (run_bind hfirst).trans (run_bind hrun)
  refine ⟨⟨item :: items, final.comments.reverse⟩, items, ?_, rfl, hitems⟩
  unfold Script.parse
  dsimp only
  rw [hs, ← sourceGrammar, hmodule]
  dsimp only
  rw [hclean]

end Excerpt

end Script
end ScriptBundler

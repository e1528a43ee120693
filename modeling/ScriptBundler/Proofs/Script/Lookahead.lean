import ScriptBundler.Proofs.Script.Retracing

/-!
# Text that is not read token by token

The parser looks one token ahead in some places, and reads the text of templates and regular
expressions without taking it apart into tokens.  Both parsers see the same there, unless the text
ends.
-/

namespace ScriptBundler
namespace Script
namespace Parser

open Mark Std.Do Text

variable {α γ : Type} {p : Passage} {mode : Mode} {setting : Setting} {s s' : State} {k : Nat}

namespace Passage

theorem FollowsAt.of_doomed {post : α → Mode} {later : Nat} {step : Parser α} {step' : Parser γ}
    {f : α → γ} (hdoomed : p.Doomed s.mark)
    (hleads : ∀ value t, step setting s = .ok (value, t) → Leads s.mark t.mark)
    (hknown : ∀ value token, (post value).known token) :
    p.FollowsAt setting s s' post later step step' f :=
  fun value t hrun => Or.inl
    ⟨Or.inl (doomed_leads hdoomed (hleads value t hrun)), hknown value _⟩

/-- Behind the end of the text nothing more is read of it. -/
theorem FollowsAt.of_overreads {post : α → Mode} {later : Nat} {step : Parser α} {step' : Parser γ}
    {f : α → γ} (hend : p.AtEnd s.advanced s'.advanced) (hreads : Overreads s (step setting s))
    (hknown : ∀ value token, (post value).known token) :
    p.FollowsAt setting s s' post later step step' f := by
  intro value t hrun
  refine Or.inl ⟨Or.inl ?_, hknown value _⟩
  rcases hreads value t hrun with hfaulty | hmoves
  · exact doomed_of_fault hfaulty
  · exact over_moves (over_of_atEnd hend) hmoves

/-- Behind a step that is known to be followed, more may be known of the next token. -/
theorem FollowsAt.before {known : Token → Prop} {later : Nat} {step : Parser α} {step' : Parser γ}
    {f : α → γ} (hstep : p.FollowsAt setting s s' (fun _ => .inner) later step step' f)
    (hknown : ∀ value t, step setting s = .ok (value, t) → known t.current.token) :
    p.FollowsAt setting s s' (fun _ => .before known) later step step' f := by
  intro value t hrun
  have htoken := hknown value t hrun
  refine (hstep value t hrun).imp (fun hlost => ⟨hlost.place, htoken⟩) ?_
  rintro ⟨t', hrun', hafter⟩
  exact ⟨t', hrun', hafter.alike, hafter.place, htoken⟩

/-! ## Cursors -/

/-- Whether both parsers can go on with the same rest of the text from two cursors, with less than
so many characters still to be read.  The part before it does not end with a semicolon. -/
def Shares (p : Passage) (left : Nat) (cursor cursor' : Cursor) : Prop :=
  ∃ front back, p.text = front ++ back ∧ front ≠ [] ∧ front.getLast? ≠ some ';' ∧
    back.length < left ∧ cursor = ⟨back ++ p.tail, p.start + byteLength front⟩ ∧
    cursor' = ⟨back ++ p.newTail, p.newStart + byteLength front⟩

variable {cursor cursor' : Cursor}

theorem Stands.shares (hstands : p.Stands setting k s s')
    (hother : s.current.token ≠ .punctuator ";") :
    p.Shares k ⟨s.current.rest, s.current.span.stop⟩ ⟨s'.current.rest, s'.current.span.stop⟩ := by
  obtain ⟨front, word, back, hmeets, hlength⟩ := hstands.within
  refine ⟨front ++ word, back, ?_, ?_, ?_, ?_, ?_, ?_⟩
  · rw [hmeets.text, List.append_assoc]
  · simp [hmeets.nonempty]
  · rw [List.getLast?_append_of_ne_nil _ hmeets.nonempty]
    exact hmeets.ending hother
  · have := List.length_pos_iff.mpr hmeets.nonempty
    rw [List.length_append] at hlength
    omega
  · rw [hmeets.rest, hmeets.span, byteLength_append, ← Nat.add_assoc]
  · rw [hmeets.newRest, hmeets.newSpan, byteLength_append, ← Nat.add_assoc]

/-- Both parsers can read a regular expression at a slash. -/
theorem Stands.shares_slash (hstands : p.Stands setting k s s')
    (hslash : s.current.token = .punctuator "/" ∨ s.current.token = .punctuator "/=") :
    p.Shares k ⟨s.current.start.drop 1, s.current.span.start + 1⟩
      ⟨s'.current.start.drop 1, s'.current.span.start + 1⟩ := by
  obtain ⟨front, word, back, hmeets, hlength⟩ := hstands.within
  obtain ⟨more, rfl⟩ : ∃ more, word = '/' :: more := by
    rcases hslash with h | h
    · exact ⟨[], hmeets.spelled h⟩
    · exact ⟨['='], hmeets.spelled h⟩
  have hsize : byteLength (front ++ ['/']) = byteLength front + 1 := byteLength_append _ _
  refine ⟨front ++ ['/'], more ++ back, ?_, by simp, by simp, ?_, ?_, ?_⟩
  · rw [hmeets.text]
    simp
  · rw [List.cons_append, List.length_cons] at hlength
    omega
  · rw [hmeets.start, hmeets.span, hsize]
    simp [Nat.add_assoc]
  · rw [hmeets.newStart, hmeets.newSpan, hsize]
    simp [Nat.add_assoc]

namespace Shares

variable (hshares : p.Shares k cursor cursor')

include hshares

theorem offset : cursor'.offset = p.relocate cursor.offset := by
  obtain ⟨front, back, -, -, -, -, rfl, rfl⟩ := hshares
  exact (relocate_add _).symm

/-- What the first parser scans from a cursor runs across the end of the text, or the second parser
scans it, too. -/
theorem rereads {reads : List Char → Nat → Cursor → Prop} {next : Cursor}
    (hreads : Rereads reads cursor.rest cursor.offset next)
    (hspares : Spares cursor.rest next.rest) :
    p.stop < next.offset ∨
      ∃ next', reads cursor'.rest cursor'.offset next' ∧ p.Shares k next next' := by
  obtain ⟨front, back, htext, hfront, hlast, hlength, rfl, rfl⟩ := hshares
  obtain ⟨word, hword, hoffset, hscan⟩ := hreads
  obtain ⟨found, hfound, hending⟩ := hspares
  obtain rfl : found = word := List.append_cancel_right (hfound.symm.trans hword)
  have hlast' : (front ++ found).getLast? ≠ some ';' := by
    rcases List.eq_nil_or_concat found with rfl | ⟨_, _, rfl⟩
    · rwa [List.append_nil]
    · rwa [List.getLast?_append_of_ne_nil _ (by simp)]
  have hstop : p.stop = p.start + byteLength front + byteLength back := by
    rw [Transfer.stop, htext, byteLength_append, Nat.add_assoc]
  obtain ⟨rest, place⟩ := next
  dsimp only at hword hoffset hscan ⊢
  subst hoffset
  rw [List.append_eq_append_iff] at hword
  -- what is scanned ends with the text, runs across its end, or ends within it
  rcases hword with ⟨_ | ⟨c, across⟩, rfl, htail⟩ | ⟨inner, rfl, rfl⟩
  · rw [List.nil_append] at htail
    rw [List.append_nil] at hscan hlast' ⊢
    subst htail
    refine Or.inr ⟨_, hscan p.newTail (p.newStart + byteLength front) (Replaces.cut p.joint),
      front ++ back, [], ?_, ?_, hlast', Nat.zero_lt_of_lt hlength, ?_, ?_⟩
    · rw [htext, List.append_nil]
    · simp [hfront]
    · rw [byteLength_append, Nat.add_assoc]
      rfl
    · rw [byteLength_append, Nat.add_assoc]
      rfl
  · refine Or.inl ?_
    have := byteLength_pos c across
    rw [hstop, byteLength_append]
    omega
  · refine Or.inr ⟨_, ?_, front ++ found, inner, ?_, ?_, hlast', ?_, ?_, rfl⟩
    · rw [List.append_assoc, byteLength_append, ← Nat.add_assoc]
      exact hscan _ _ ((Replaces.cut p.joint).append inner)
    · rw [htext, List.append_assoc]
    · simp [hfront]
    · rw [List.length_append] at hlength
      omega
    · rw [byteLength_append, Nat.add_assoc]

/-- Behind text that both parsers have scanned they are abreast, or the first one is lost. -/
theorem follows (halike : p.Alike s s')
    (hmode : mode.wants → mode.keeps ∨ p.text.getLast? = some ';')
    (hknown : ∀ token, mode.known token) (start start' : Nat) :
    p.FollowsAt setting s s' (fun _ => mode) (k - 1) (resume start cursor) (resume start' cursor')
      id := by
  obtain ⟨front, back, htext, hfront, hlast, hlength, rfl, rfl⟩ := hshares
  intro value t hrun
  rw [run_resume] at hrun
  obtain ⟨-, rfl⟩ := Prod.mk.inj (Except.ok.inj hrun)
  rcases lands htext hfront halike start start' with hdoomed | ⟨halike, hwithin | ⟨rfl, hend⟩⟩
  · exact Or.inl ⟨Or.inl hdoomed, hknown _⟩
  · exact Or.inr ⟨_, run_resume _ _, halike, Or.inl (within_mono (by omega) hwithin), hknown _⟩
  · by_cases hkeeps : mode.keeps
    · exact Or.inr ⟨_, run_resume _ _, halike, Or.inr ⟨hkeeps, hend⟩, hknown _⟩
    · refine Or.inl (lost_of_atEnd hend (fun hwants => ?_) (hknown _))
      rw [List.append_nil] at htext
      exact hlast (htext ▸ (hmode hwants).resolve_left hkeeps)

end Shares

/-- A parser that has scanned text across the end of the passage is lost. -/
theorem lost_of_resume {start : Nat} (hlater : p.stop < cursor.offset)
    (hknown : ∀ token, mode.known token) : p.Lost mode (s.resumed start cursor) :=
  ⟨Or.inl (doomed_of_lt ⟨cursor.rest, nextLexeme_right cursor false⟩ hlater), hknown _⟩

/-! ## The next token -/

theorem mark_resumed (start : Nat) :
    (s.resumed start cursor).mark = s.mark.resumed start cursor := by
  simp [State.mark, State.resumed, Mark.resumed]

theorem FollowsAt.peek_bind {β δ : Type} {post : β → Mode} {later : Nat} {next : Lexeme → Parser β}
    {next' : Lexeme → Parser δ} {f : β → δ}
    (hnext : p.FollowsAt setting s s' post later (next s.advanced.current)
      (next' s'.advanced.current) f) :
    p.FollowsAt setting s s' post later (peek >>= next) (peek >>= next') f :=
  .bind_of_reads (f := fun _ => s'.advanced.current) rfl rfl hnext

/-- What the first parser sees behind a word or a parenthesis keeps it from ending the text, or is
the same for the second one, or is behind the text. -/
theorem Stands.peeks (hstands : p.Stands setting k s s')
    (hplain : ∀ text, s.current.token = .punctuator text → text = "(") (hk : k ≤ p.text.length) :
    p.Doomed s.mark ∨
      (s'.advanced.current.token = s.advanced.current.token ∧
        s'.advanced.current.afterNewline = s.advanced.current.afterNewline) ∨
      p.AtEnd s.advanced s'.advanced := by
  have hother : ∀ {text}, text ≠ "(" → s.current.token ≠ .punctuator text :=
    fun htext h => htext (hplain _ h)
  obtain ⟨front, back, htext, hfront, -, hlength, hcursor, hcursor'⟩ :=
    hstands.shares (hother (by decide))
  -- whether reading on dooms the first parser does not depend on where its last token started
  by_cases hdoomed : ∀ first, p.Doomed (s.resumed first ⟨s.current.rest, s.current.span.stop⟩).mark
  · refine Or.inl
      (doomed_of_ends (hstands.behind.trans_lt hstands.lt_stop).ne fun start _ hends => ?_)
    cases hends with
    | token =>
        have hmark := hdoomed start
        rwa [mark_resumed] at hmark
    | template hquote =>
        exact (hquote.elim (hother (by decide)) (hother (by decide))).elim
    | regExp hslash =>
        exact (hslash.elim (hother (by decide)) (hother (by decide))).elim
  obtain ⟨first, hdoomed⟩ := not_forall.mp hdoomed
  rw [hcursor] at hdoomed
  obtain ⟨halike, hplace⟩ :=
    (Passage.lands htext hfront hstands.alike first first).resolve_left hdoomed
  rw [← hcursor, ← hcursor'] at halike hplace
  rcases hplace with hwithin | ⟨-, hend⟩
  · have hnext : p.Stands setting back.length (s.resumed first _) (s'.resumed first _) :=
      ⟨hstands.budget, halike, hwithin⟩
    exact Or.inr (Or.inl ⟨hnext.token, (hnext.inner (by omega)).1⟩)
  · exact Or.inr (Or.inr ⟨hend.current, hend.previous, hend.newCurrent, hend.newPrevious⟩)

/-- What is looked for behind the current token is there for both parsers, or for none of them. -/
theorem Retraces.peek_ite {post : α → Mode} {later : Nat} {yes no : Parser α}
    {yes' no' : Parser γ} {f : α → γ} (test : Token → Bool) (hkeeps : ¬mode.keeps)
    (hplain : ∀ token, mode.known token → ∀ text, token = .punctuator text → text = "(")
    (hk : k ≤ p.text.length) (hend : test p.newNext.token = test p.next.token)
    (hyes : p.Retraces mode k post later yes yes' f) (hno : p.Retraces mode k post later no no' f) :
    p.Retraces mode k post later
      (peek >>= fun after => if test after.token = true then yes else no)
      (peek >>= fun after => if test after.token = true then yes' else no') f where
  lost := by
    intro setting s value t hbudget hlost hrun
    rw [run_bind run_peek] at hrun
    split at hrun
    · exact hyes.lost setting s value t hbudget hlost hrun
    · exact hno.lost setting s value t hbudget hlost hrun
  follows := by
    intro setting s s' hbudget habreast value t hrun
    have hstands : p.Stands setting k s s' :=
      ⟨hbudget, habreast.alike, habreast.place.resolve_right fun h => hkeeps h.1⟩
    rw [run_bind run_peek] at hrun ⊢
    -- the test has one result for both parsers, unless the first one cannot end the text
    have hsame : p.Doomed s.mark ∨
        test s'.advanced.current.token = test s.advanced.current.token := by
      refine (hstands.peeks (hplain _ habreast.known) hk).imp_right ?_
      rintro (⟨hnext, -⟩ | hatEnd)
      · rw [hnext]
      · rw [hatEnd.current, hatEnd.newCurrent, hend]
    rcases hsame with hdoomed | hsame
    · have hlost : p.Lost mode s := ⟨Or.inl hdoomed, habreast.known⟩
      split at hrun
      · exact Or.inl (hyes.lost setting s value t hbudget hlost hrun)
      · exact Or.inl (hno.lost setting s value t hbudget hlost hrun)
    · rw [hsame]
      split at hrun
      · rw [if_pos ‹_›]
        exact hyes.follows setting s s' hbudget habreast value t hrun
      · rw [if_neg ‹_›]
        exact hno.follows setting s s' hbudget habreast value t hrun

end Passage

end Parser
end Script
end ScriptBundler

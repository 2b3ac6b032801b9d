import VerifierClient.Proofs.Session.Closing
import VerifierClient.Proofs.Session.Halves

/-!
# The verifiers of a document do not interfere

What a session writes to one of its verifiers, and what it makes of that verifier's reports,
does not depend on what the other verifier writes, nor on when it exits or stops reading. This
is a statement about two runs: when they differ only in what comes from one verifier, the half
of the other verifier is the same in both.

* `Session.share` — the steps of a run that have to do with one verifier;
* `Session.half_run` — they determine what becomes of its half;
* `Session.settle_congr` — sessions with the same half settle with the same half, however many
  steps each of them takes on the way;
* `Session.verifiers_do_not_interfere` — runs with the same share, and runs with the same input
  from elsewhere, deal with a verifier in the same way.
-/

namespace VerifierClient

namespace Channel

theorem settleWriter_settleWriter (c : Channel) : c.settleWriter.settleWriter = c.settleWriter := by
  cases hwriter : c.writer with
  | opened => simp [settleWriter, hwriter]
  | closed n => simp [settleWriter, hwriter]
  | failing n =>
    by_cases hlost : n < c.accepted.length
    · simp [settleWriter, closeWriter, hwriter, hlost]
    · simp [settleWriter, hwriter, hlost]

end Channel

namespace Session

variable {s t : Session} {role : Role}

-- ---------------------------------------------------------------------------
-- One step
-- ---------------------------------------------------------------------------

theorem settleWriters_settleWriters (s : Session) :
    s.settleWriters.settleWriters = s.settleWriters := by
  have hside : ∀ side : Side,
      (side.onChannel Channel.settleWriter).onChannel Channel.settleWriter =
        side.onChannel Channel.settleWriter := by
    intro side
    simp only [Side.onChannel, Link.onChannel, Channel.settleWriter_settleWriter]
  cases hlax : s.lax with
  | none => simp [settleWriters, hlax, hside]
  | some side => simp [settleWriters, hlax, hside]

theorem settleWriters_step (s : Session) (a : Step) : (s.step a).settleWriters = s.step a :=
  settleWriters_settleWriters _

theorem settleWriters_settle (h : s.settleWriters = s) : s.settle.settleWriters = s.settle :=
  settle_induction (P := fun s s' => s.settleWriters = s → s'.settleWriters = s')
    (fun _ _ h => h) (fun s a _ ih _ => ih (settleWriters_step s a)) s h

/-- A step that has nothing to do with a verifier leaves its half alone. -/
theorem half_step_of_unconcerned {a : Step} (hs : s.settleWriters = s)
    (h : s.concerns role a = false) : (s.step a).half role = s.half role := by
  calc (s.step a).half role
      = s.settleWriters.half role :=
        (settleWriters_follows role).congr (act_half_of_unconcerned h)
    _ = s.half role := by rw [hs]

/-- A step that has to do with a verifier acts on its half by what this half holds. -/
theorem step_congr {a : Step} (h : s.half role = t.half role) (hs : s.concerns role a = true)
    (ht : t.concerns role a = true) : (s.step a).half role = (t.step a).half role :=
  (settleWriters_follows role).congr (act_congr h hs ht)

-- ---------------------------------------------------------------------------
-- Any order of steps
-- ---------------------------------------------------------------------------

/-- The steps of a run that have to do with the verifier of `role`. -/
def share (role : Role) : Session → List Step → List Step
  | _, [] => []
  | s, a :: rest =>
    if s.concerns role a then a :: share role (s.step a) rest else share role (s.step a) rest

/-- A half that takes steps by itself. -/
def replay (role : Role) (half : Session) (steps : List Step) : Session :=
  steps.foldl (fun h a => (h.step a).half role) half

theorem concerns_half {a : Step} (h : s.concerns role a = true) :
    (s.half role).concerns role a = true := by
  cases a with
  | command =>
    unfold concerns at h ⊢
    cases hcommands : s.commands with
    | nil => simp [hcommands] at h
    | cons c rest =>
      rw [hcommands] at h
      rw [(half_pop_command hcommands h).1]
      exact h
  | event =>
    unfold concerns at h ⊢
    cases hinbox : s.inbox with
    | nil => simp [hinbox] at h
    | cons first rest =>
      obtain ⟨origin, event⟩ := first
      obtain rfl : origin = role := by simpa [hinbox] using h
      rw [(half_pop_event hinbox).1]
      simp
  | _ => exact h

/-- What becomes of a half is determined by its share of the run. -/
theorem half_run (hs : s.settleWriters = s) (steps : List Step) :
    (s.run steps).half role = replay role (s.half role) (share role s steps) := by
  induction steps generalizing s with
  | nil => rfl
  | cons a rest ih =>
    have hrest := ih (settleWriters_step s a)
    show ((s.step a).run rest).half role = _
    by_cases hc : s.concerns role a = true
    · have hstep := step_congr (t := s.half role) (half_half s role).symm hc (concerns_half hc)
      rw [share, if_pos hc, hrest, hstep]
      rfl
    · have hstep := half_step_of_unconcerned hs (Bool.eq_false_iff.2 hc)
      rw [share, if_neg hc, hrest, hstep]

-- ---------------------------------------------------------------------------
-- Settling
-- ---------------------------------------------------------------------------

theorem next?_half_strict (s : Session) :
    (s.half .strict).next? =
      if !s.isOpen then none
      else if s.isDue s.reverify.due then some .reverify
      else if s.isDue s.solverRestarts.min? then some .solver
      else if !(s.inbox.filter fun entry => entry.1 = .strict).isEmpty then some .event
      else if !(s.commands.filter fun c => c.concerns .strict).isEmpty then some .command
      else none :=
  rfl

theorem next?_half_lax (s : Session) :
    (s.half .lax).next? =
      if !s.isOpen then none
      else if s.isDue s.flyCheckDue then some .flyCheck
      else if !(s.inbox.filter fun entry => entry.1 = .lax).isEmpty then some .event
      else if !(s.commands.filter fun c => c.concerns .lax).isEmpty then some .command
      else none :=
  rfl

/-- A half has the same thing to do next as the session, if that has to do with it. -/
theorem next?_half_of_concerned {a : Step} (h : s.next? = some a)
    (hc : s.concerns role a = true) : (s.half role).next? = some a := by
  unfold next? at h
  cases role with
  | strict =>
    rw [next?_half_strict]
    cases hinbox : s.inbox <;> cases hcommands : s.commands <;>
      grind [concerns, List.isEmpty_cons, List.isEmpty_nil]
  | lax =>
    rw [next?_half_lax]
    cases hinbox : s.inbox <;> cases hcommands : s.commands <;>
      grind [concerns, List.isEmpty_cons, List.isEmpty_nil]

theorem next?_half_of_none (h : s.next? = none) : (s.half role).next? = none := by
  cases hopen : s.isOpen with
  | false => cases role <;> simp [next?, half, hopen]
  | true =>
    obtain ⟨hcommands, hinbox⟩ := queues_of_next?_none h hopen
    unfold next? at h
    cases role with
    | strict =>
      rw [next?_half_strict, hcommands, hinbox]
      grind
    | lax =>
      rw [next?_half_lax, hcommands, hinbox]
      grind

/-- Sessions with the same half settle with the same half. The steps that have nothing to do
with it are taken first, in either session; then both have the same thing to do. -/
theorem settle_congr (hs : s.settleWriters = s) (ht : t.settleWriters = t)
    (h : s.half role = t.half role) : s.settle.half role = t.settle.half role := by
  induction hwork : s.effort + t.effort using Nat.strongRecOn generalizing s t with
  | ind n ih =>
    -- a step of either session that leaves the half alone
    have hskip : ∀ {s t : Session} {a : Step}, s.settleWriters = s → t.settleWriters = t →
        s.half role = t.half role → s.effort + t.effort = n → s.next? = some a →
        s.concerns role a = false → s.settle.half role = t.settle.half role := by
      intro s t a hs ht h hwork hnext hc
      have hless := step_effort hnext
      rw [settle_of_next? hnext]
      refine ih ((s.step a).effort + t.effort) (by omega) (settleWriters_step s a) ht ?_ rfl
      rw [half_step_of_unconcerned hs hc, h]
    cases hnext : s.next? with
    | none =>
      cases hnext' : t.next? with
      | none => rwa [settle_of_next?_none hnext, settle_of_next?_none hnext']
      | some b =>
        by_cases hc : t.concerns role b = true
        · have hb := next?_half_of_concerned hnext' hc
          rw [← h, next?_half_of_none hnext] at hb
          cases hb
        · exact (hskip ht hs h.symm (by omega) hnext' (Bool.eq_false_iff.2 hc)).symm
    | some a =>
      by_cases hc : s.concerns role a = true
      · have ha := next?_half_of_concerned hnext hc
        cases hnext' : t.next? with
        | none =>
          rw [h, next?_half_of_none hnext'] at ha
          cases ha
        | some b =>
          by_cases hc' : t.concerns role b = true
          · have hb := next?_half_of_concerned hnext' hc'
            obtain rfl : a = b := by
              rw [h, hb] at ha
              exact (Option.some.inj ha).symm
            have hless := step_effort hnext
            have hless' := step_effort hnext'
            rw [settle_of_next? hnext, settle_of_next? hnext']
            exact ih _ (by omega) (settleWriters_step s a) (settleWriters_step t a)
              (step_congr h hc hc') rfl
          · exact (hskip ht hs h.symm (by omega) hnext' (Bool.eq_false_iff.2 hc')).symm
      · exact hskip hs ht h hwork hnext (Bool.eq_false_iff.2 hc)

-- ---------------------------------------------------------------------------
-- Input
-- ---------------------------------------------------------------------------

/-- Whether the step comes from elsewhere than the other verifier. -/
def Step.isApart (role : Role) : Step → Bool
  | .output origin _ | .exit origin _ | .stopReading origin => origin = role
  | _ => true

/-- Takes in one step after the other, and each time does all that follows. -/
def inputs (s : Session) (steps : List Step) : Session := steps.foldl input s

/-- A session between two inputs. -/
structure Resting (s : Session) : Prop where
  writers : s.settleWriters = s
  rest : s.next? = none
  isSealed : s.Sealed

theorem Resting.queues (h : s.Resting) : s.commands = [] ∧ s.inbox = [] := by
  cases hopen : s.isOpen with
  | true => exact queues_of_next?_none h.rest hopen
  | false => exact ⟨h.isSealed.commands hopen, h.isSealed.inbox hopen⟩

theorem Resting.input (h : s.Resting) (a : Step) : (s.input a).Resting where
  writers := settleWriters_settle (settleWriters_step s a)
  rest := next?_settle _
  isSealed := (input_onward h.isSealed a).isSealed

/-- What comes from the other verifier leaves the half alone. -/
theorem Resting.half_input (h : s.Resting) {a : Step} (ha : a.isApart role = false) :
    (s.input a).half role = s.half role := by
  have hc : s.concerns role a = false := by
    cases a with
    | output origin bytes => exact ha
    | exit origin code => exact ha
    | stopReading origin => exact ha
    | _ => cases ha
  have hstep := half_step_of_unconcerned h.writers hc
  calc (s.input a).half role
      = s.settle.half role := settle_congr (settleWriters_step s a) h.writers hstep
    _ = s.half role := by rw [settle_of_next?_none h.rest]

/-- The same input does the same to halves that are the same. -/
theorem Resting.input_congr (hs : s.Resting) (ht : t.Resting) (h : s.half role = t.half role)
    (a : Step) : (s.input a).half role = (t.input a).half role := by
  have hsame : s.concerns role a = t.concerns role a := by
    cases a with
    | command => simp only [concerns, hs.queues.1, ht.queues.1]
    | event => simp only [concerns, hs.queues.2, ht.queues.2]
    | _ => rfl
  refine settle_congr (settleWriters_step s a) (settleWriters_step t a) ?_
  by_cases hc : s.concerns role a = true
  · exact step_congr h hc (hsame ▸ hc)
  · have hc : s.concerns role a = false := Bool.eq_false_iff.2 hc
    rw [half_step_of_unconcerned hs.writers hc, half_step_of_unconcerned ht.writers (hsame ▸ hc), h]

/-- What comes from the other verifier can be left out. -/
theorem Resting.half_inputs (h : s.Resting) (steps : List Step) :
    (s.inputs steps).half role =
      (s.inputs (steps.filter fun a => a.isApart role)).half role := by
  suffices hpair : ∀ t : Session, t.Resting → s.half role = t.half role →
      (s.inputs steps).half role =
        (t.inputs (steps.filter fun a => a.isApart role)).half role from hpair s h rfl
  induction steps generalizing s with
  | nil => exact fun t _ hhalf => hhalf
  | cons a rest ih =>
    intro t ht hhalf
    by_cases ha : a.isApart role = true
    · rw [List.filter_cons_of_pos ha]
      exact ih (h.input a) (t.input a) (ht.input a) (h.input_congr ht hhalf a)
    · rw [List.filter_cons_of_neg ha]
      refine ih (h.input a) t ht ?_
      rw [h.half_input (Bool.eq_false_iff.2 ha), hhalf]

-- ---------------------------------------------------------------------------
-- Whole sessions
-- ---------------------------------------------------------------------------

/-- A session that has just started waits for its verifiers. -/
theorem start_resting (uri : Uri) (text : String) (settings : SessionSettings) (withLax : Bool)
    (now : Nat) : (start uri text settings withLax now).Resting := by
  have hhandled := openDocument_handling (s := new uri text settings withLax now)
  refine ⟨?_, ?_, .of_open hhandled.isOpen⟩
  · let mapped : Session :=
      { new uri text settings withLax now with
        strict := (Side.new .strict uri.toPath text).tell (.vfsAdd text)
        lax := (new uri text settings withLax now).lax.map fun side => side.tell (.vfsAdd text) }
    have hwriters : ∀ kind, (mapped.requestFull kind).settleWriters = mapped.requestFull kind := by
      intro kind
      cases withLax <;> cases kind <;> rfl
    exact hwriters (if settings.verifyOnOpen then .full else .cache)
  · cases hnext : (start uri text settings withLax now).next? with
    | none => rfl
    | some a =>
      have hless := step_effort hnext
      have hle : (start uri text settings withLax now).effort ≤ 0 := handled_effort rfl hhandled
      omega

/-- What was written to a verifier, and the model of what it reported. -/
def dealings (s : Session) (role : Role) : Option (List Envelope × ResultModel) :=
  (s.side? role).map fun side => (side.channel.accepted, side.model)

theorem dealings_of_half (h : s.half role = t.half role) : s.dealings role = t.dealings role := by
  have hside : ∀ s : Session, (s.half role).side? role = s.side? role := by
    intro s
    cases role <;> rfl
  rw [dealings, dealings, ← hside s, ← hside t, h]

theorem startedTo_of_half (h : s.half .strict = t.half .strict) : s.startedTo = t.startedTo := by
  have hhalf : (s.half .strict).startedTo = (t.half .strict).startedTo := by rw [h]
  exact hhalf

/-- The two verifiers of a document do not interfere. Two runs from the start of a session deal
with a verifier in the same way if they take the same steps that have to do with it, in
whatever order they take the others. And if a session does all that can be done after each
input, they do so if they differ only in what the other verifier writes and in when it exits
or stops reading. How far the last bounded request goes belongs to the strict verifier. -/
theorem verifiers_do_not_interfere (uri : Uri) (text : String) (settings : SessionSettings)
    (withLax : Bool) (now : Nat) (role : Role) (a b : List Step) :
    let s := start uri text settings withLax now
    (share role s a = share role s b →
      (s.run a).dealings role = (s.run b).dealings role ∧
        (role = .strict → (s.run a).startedTo = (s.run b).startedTo)) ∧
    (a.filter (fun step => step.isApart role) = b.filter (fun step => step.isApart role) →
      (s.inputs a).dealings role = (s.inputs b).dealings role ∧
        (role = .strict → (s.inputs a).startedTo = (s.inputs b).startedTo)) := by
  intro s
  have hs : s.Resting := start_resting uri text settings withLax now
  have hview : ∀ {s t : Session}, s.half role = t.half role →
      s.dealings role = t.dealings role ∧ (role = .strict → s.startedTo = t.startedTo) := by
    intro s t h
    refine ⟨dealings_of_half h, ?_⟩
    rintro rfl
    exact startedTo_of_half h
  refine ⟨fun hshare => hview ?_, fun hfilter => hview ?_⟩
  · rw [half_run hs.writers, half_run hs.writers, hshare]
  · rw [hs.half_inputs a, hs.half_inputs b, hfilter]

/-- A document with both verifiers. -/
def twoSided : Session := start ⟨"file:///work/A.fst"⟩ "let x = 1" {} true 0

/-- The lax verifier exits after an edit, or stops reading while a command waits. The strict
verifier is written the same as if it had not. -/
theorem laxExit_unnoticed :
    (twoSided.inputs [.post (.textChanged "let x = 2"), .exit .lax (some 1),
      .post (.requestTo ⟨0, 5⟩ false)]).dealings .strict =
        (twoSided.inputs [.post (.textChanged "let x = 2"),
          .post (.requestTo ⟨0, 5⟩ false)]).dealings .strict ∧
    (twoSided.run [.post (.requestTo ⟨0, 5⟩ false), .stopReading .lax, .command]).startedTo =
      (twoSided.run [.post (.requestTo ⟨0, 5⟩ false), .command]).startedTo ∧
    (twoSided.run [.post (.requestTo ⟨0, 5⟩ false), .command]).startedTo = some ⟨0, 5⟩ := by
  have hinputs := verifiers_do_not_interfere ⟨"file:///work/A.fst"⟩ "let x = 1" {} true 0 .strict
    [.post (.textChanged "let x = 2"), .exit .lax (some 1), .post (.requestTo ⟨0, 5⟩ false)]
    [.post (.textChanged "let x = 2"), .post (.requestTo ⟨0, 5⟩ false)]
  have hrun := verifiers_do_not_interfere ⟨"file:///work/A.fst"⟩ "let x = 1" {} true 0 .strict
    [.post (.requestTo ⟨0, 5⟩ false), .stopReading .lax, .command]
    [.post (.requestTo ⟨0, 5⟩ false), .command]
  exact ⟨(hinputs.2 rfl).1, (hrun.1 rfl).2 rfl, by decide +kernel⟩

end Session

end VerifierClient

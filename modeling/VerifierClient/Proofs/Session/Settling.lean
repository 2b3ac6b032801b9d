import VerifierClient.Session.Run

/-!
# Sessions come to rest

A session that settles does one small step after the other until nothing can be done without
the clock moving. The number of steps is limited beforehand. This module shows that the limit
is never reached: every step takes something from the work that lies ahead, and that work is
within the limit from the start.

* `RateLimiter.effort`, `JobLimiter.effort`, `Session.effort` — the work that lies ahead;
* `Session.Handling` — what handling a command or an event may do;
* `Session.Next`, `Session.step_effort` — the steps of a session that settles, and what each
  takes from its work;
* `Session.settle_induction` — induction on the steps until rest;
* `Session.next?_settle` — a session that has settled has nothing left to do.
-/

namespace VerifierClient

-- ---------------------------------------------------------------------------
-- Timers
-- ---------------------------------------------------------------------------

/-- The steps that a planned check costs: its timer runs out, and a command is handled. -/
def Debouncer.effort (d : Debouncer) : Nat := if d.due.isSome then 2 else 0

namespace RateLimiter

/-- The steps that a limiter costs which is not fired again. -/
def effort (l : RateLimiter) : Nat :=
  (if l.missed then 2 else 0) +
    match l.phase with
    | .idle => 0
    | .queued _ => 3
    | .cooling _ => 1

theorem effort_le (l : RateLimiter) : l.effort ≤ 5 := by
  unfold effort
  cases l.phase <;> cases l.missed <;> simp

theorem effort_fire (l : RateLimiter) (now : Nat) : (l.fire now).effort ≤ l.effort + 3 := by
  cases hphase : l.phase <;> cases hmissed : l.missed <;> simp [effort, fire, hphase, hmissed]

/-- A run is paid for by the wake that brings it. -/
theorem effort_wake {l : RateLimiter} {due : Nat} (h : l.due = some due) :
    l.wake.2.effort + l.wake.1.toList.length + 1 ≤ l.effort := by
  cases hphase : l.phase with
  | idle => simp [RateLimiter.due, hphase] at h
  | queued since => simp [effort, wake, hphase]
  | cooling due => cases hmissed : l.missed <;> simp [effort, wake, hphase, hmissed]

end RateLimiter

namespace JobLimiter

variable {α : Type}

def effort (l : JobLimiter α) : Nat :=
  (if l.waiting.isSome then 4 else 0) +
    match l.phase with
    | .idle => 0
    | .starting _ => 4
    | .working _ => 2
    | .spacing _ => 1

theorem effort_le (l : JobLimiter α) : l.effort ≤ 8 := by
  unfold effort
  cases l.phase <;> cases l.waiting <;> simp

theorem effort_fire (l : JobLimiter α) (job : α) : (l.fire job).effort ≤ l.effort + 4 := by
  cases hphase : l.phase <;> cases hwaiting : l.waiting <;>
    simp [effort, fire, hphase, hwaiting]

/-- The start of a job leaves one step over for the command that it posts. -/
theorem effort_start {l : JobLimiter α} {job : α} (h : l.phase = .starting job) :
    l.start.2.effort + 2 ≤ l.effort := by
  simp [effort, start, h]

theorem effort_finish_le (l : JobLimiter α) (now : Nat) : (l.finish now).effort ≤ l.effort := by
  cases hphase : l.phase <;> cases hwaiting : l.waiting <;>
    simp [effort, finish, hphase, hwaiting]

theorem effort_finish {l : JobLimiter α} {job : α} (h : l.phase = .working job) (now : Nat) :
    (l.finish now).effort + 1 ≤ l.effort := by
  cases hwaiting : l.waiting <;> simp [effort, finish, h, hwaiting]

theorem effort_resume {l : JobLimiter α} {due : Nat} (h : l.phase = .spacing due) :
    l.resume.effort + 1 ≤ l.effort := by
  cases hwaiting : l.waiting <;> simp [effort, resume, h, hwaiting]

end JobLimiter

/-- The steps that a command costs, with what it gives the timers to do. -/
def Command.effort : Command → Nat
  | .textChanged _ => 10
  | .requestTo _ _ => 4
  | .restartSolver => 2
  | _ => 1

theorem Command.effort_le (c : Command) : c.effort ≤ 10 := by
  cases c <;> simp [effort]

def Command.isDispose : Command → Bool
  | .dispose _ => true
  | _ => false

namespace Session

-- ---------------------------------------------------------------------------
-- Handling
-- ---------------------------------------------------------------------------

/-- The steps that the timers cost. -/
def pace (s : Session) : Nat :=
  s.reverify.effort + s.publisher.effort + s.flyCheck.effort + s.solverRestarts.length

/-- What handling may do: publish something, and give timers up to `cost` steps to do. -/
structure Handling (cost : Nat) (s s' : Session) : Prop where
  uri : s'.uri = s.uri
  isOpen : s'.isOpen = s.isOpen
  inbox : s'.inbox = s.inbox
  commands : s'.commands = s.commands
  emitted : s.emitted <+: s'.emitted
  pace : s'.pace ≤ s.pace + cost

variable {s s' s'' : Session} {cost cost' : Nat}

theorem Handling.refl (s : Session) : Handling 0 s s :=
  ⟨rfl, rfl, rfl, rfl, List.prefix_refl _, Nat.le_refl _⟩

theorem Handling.trans (h : Handling cost s s') (h' : Handling cost' s' s'') :
    Handling (cost + cost') s s'' where
  uri := h'.uri.trans h.uri
  isOpen := h'.isOpen.trans h.isOpen
  inbox := h'.inbox.trans h.inbox
  commands := h'.commands.trans h.commands
  emitted := h.emitted.trans h'.emitted
  pace := by
    have hfirst := h.pace
    have hsecond := h'.pace
    omega

theorem Handling.mono (h : Handling cost s s') (hle : cost ≤ cost') : Handling cost' s s' :=
  { h with pace := by have := h.pace; omega }

theorem emit_handling (event : SessionEvent) : Handling 0 s (s.emit event) :=
  ⟨rfl, rfl, rfl, rfl, List.prefix_append _ _, Nat.le_refl _⟩

theorem alert_handling (message : String) : Handling 0 s (s.alert message) :=
  emit_handling (.alert message)

theorem publish_handling : Handling 0 s s.publish := by
  have hdiagnostics : Handling 0 s (s.publishDiagnostics s.diagnostics) := by
    unfold publishDiagnostics
    split
    · exact .refl s
    · exact ⟨rfl, rfl, rfl, rfl, List.prefix_append _ _, Nat.le_refl _⟩
  have hstatus : ∀ (s : Session) fragments, Handling 0 s (s.publishStatus fragments) := by
    intro s fragments
    unfold publishStatus
    split
    · exact .refl s
    · exact ⟨rfl, rfl, rfl, rfl, List.prefix_append _ _, Nat.le_refl _⟩
  exact hdiagnostics.trans (hstatus _ s.status)

theorem firePublisher_handling : Handling 3 s s.firePublisher := by
  refine ⟨rfl, rfl, rfl, rfl, List.prefix_refl _, ?_⟩
  have hfire := s.publisher.effort_fire s.now
  simp only [Session.pace, firePublisher]
  omega

theorem verifyStrict_handling (kind : BufferKind) (position : Option Position) :
    Handling 0 s (s.verifyStrict kind position) := by
  unfold verifyStrict
  cases s.strict.issue kind s.text position with
  | mk strict result =>
    have hissued : Handling 0 s { s with reverify := s.reverify.cancel, strict } := by
      refine ⟨rfl, rfl, rfl, rfl, List.prefix_refl _, ?_⟩
      simp only [Session.pace, Debouncer.effort, Debouncer.cancel, Option.isSome_none,
        Bool.false_eq_true, if_false]
      omega
    cases result with
    | ok _ => exact hissued
    | error e => exact hissued.trans (alert_handling _)

theorem refreshLax_handling : Handling 0 s s.refreshLax.1 := by
  unfold refreshLax
  cases s.lax with
  | none => exact .refl s
  | some side =>
    dsimp only
    cases side.issue .lax s.text none with
    | mk side result =>
      have hissued : Handling 0 s { s with lax := some side } :=
        ⟨rfl, rfl, rfl, rfl, List.prefix_refl _, Nat.le_refl _⟩
      cases result with
      | ok _ => exact hissued
      | error e => exact hissued.trans (alert_handling _)

theorem requestFull_handling (kind : BufferKind) : Handling 0 s (s.requestFull kind) := by
  have hmark : Handling 0 s { s with startedTo := none } :=
    ⟨rfl, rfl, rfl, rfl, List.prefix_refl _, Nat.le_refl _⟩
  unfold requestFull
  dsimp only
  split
  · exact hmark.trans refreshLax_handling
  · exact (hmark.trans (verifyStrict_handling kind none)).trans refreshLax_handling

theorem requestTo_handling (position : Position) (lax : Bool) :
    Handling 3 s (s.requestTo position lax) := by
  have hmark : Handling 0 s { s with startedTo := some position } :=
    ⟨rfl, rfl, rfl, rfl, List.prefix_refl _, Nat.le_refl _⟩
  exact (hmark.trans (verifyStrict_handling _ _)).trans firePublisher_handling

theorem editStrict_handling (text : String) : Handling 0 s (s.editStrict text) := by
  unfold editStrict
  dsimp only
  split
  · exact ⟨rfl, rfl, rfl, rfl, List.prefix_refl _, Nat.le_refl _⟩
  · split <;> exact ⟨rfl, rfl, rfl, rfl, List.prefix_refl _, Nat.le_refl _⟩

theorem scheduleReverify_handling : Handling 2 s s.scheduleReverify := by
  unfold scheduleReverify
  split
  · refine ⟨rfl, rfl, rfl, rfl, List.prefix_refl _, ?_⟩
    simp only [Session.pace, Debouncer.effort, Debouncer.fire, Option.isSome_some, if_true]
    omega
  · exact (Handling.refl s).mono (by decide)

theorem scheduleFlyCheck_handling : Handling 4 s s.scheduleFlyCheck := by
  unfold scheduleFlyCheck
  split
  · refine ⟨rfl, rfl, rfl, rfl, List.prefix_refl _, ?_⟩
    have hfire := s.flyCheck.effort_fire ()
    simp only [Session.pace]
    omega
  · exact (Handling.refl s).mono (by decide)

theorem textChanged_handling (text : String) : Handling 9 s (s.textChanged text) := by
  unfold textChanged
  split
  · exact (Handling.refl s).mono (by decide)
  · have htext : Handling 0 s { s with text } :=
      ⟨rfl, rfl, rfl, rfl, List.prefix_refl _, Nat.le_refl _⟩
    have hlax : ∀ s : Session,
        Handling 0 s { s with lax := s.lax.map fun side => Side.edit side text } :=
      fun _ => ⟨rfl, rfl, rfl, rfl, List.prefix_refl _, Nat.le_refl _⟩
    exact ((((htext.trans (editStrict_handling text)).trans (hlax _)).trans
      scheduleReverify_handling).trans scheduleFlyCheck_handling).trans firePublisher_handling

theorem ask_handling (ticket : Nat) (question : Question) (query : Query) :
    Handling 0 s (s.ask ticket question query) := by
  unfold ask
  cases s.strict.channel.send query with
  | mk channel result =>
    cases result <;> exact ⟨rfl, rfl, rfl, rfl, List.prefix_refl _, Nat.le_refl _⟩

theorem lookup_handling (position : Position) (ticket : Nat) :
    Handling 0 s (s.lookup position ticket) := by
  unfold lookup
  cases Text.wordAt s.text position with
  | none => exact ⟨rfl, rfl, rfl, rfl, List.prefix_refl _, Nat.le_refl _⟩
  | some found => exact ask_handling _ _ _

theorem complete_handling (position : Position) (ticket : Nat) :
    Handling 0 s (s.complete position ticket) := by
  unfold complete
  cases Text.wordPrefixAt s.text position with
  | none => exact ⟨rfl, rfl, rfl, rfl, List.prefix_refl _, Nat.le_refl _⟩
  | some start => exact ask_handling _ _ _

theorem startFlyCheck_handling : Handling 0 s s.startFlyCheck := by
  have hrefresh := refreshLax_handling (s := s)
  unfold startFlyCheck
  cases hlax : s.refreshLax with
  | mk t sent =>
    rw [hlax] at hrefresh
    cases sent with
    | true =>
      have hwaiting : Handling 0 t { t with flyWaiting := true } :=
        ⟨rfl, rfl, rfl, rfl, List.prefix_refl _, Nat.le_refl _⟩
      exact hrefresh.trans hwaiting
    | false =>
      have hover : Handling 0 t { t with flyCheck := t.flyCheck.finish t.now } := by
        refine ⟨rfl, rfl, rfl, rfl, List.prefix_refl _, ?_⟩
        have hfinish := t.flyCheck.effort_finish_le t.now
        simp only [Session.pace]
        omega
      exact hrefresh.trans hover

/-- Handling a command that does not close the session. -/
theorem handle_handling {c : Command} (hc : c.isDispose = false) :
    Handling (c.effort - 1) s (s.handle c) := by
  cases c with
  | textChanged text => exact textChanged_handling text
  | requestFull kind => exact requestFull_handling kind
  | requestTo position lax => exact requestTo_handling position lax
  | saved => exact requestFull_handling .full
  | lookup position ticket => exact lookup_handling position ticket
  | complete position ticket => exact complete_handling position ticket
  | proofStates line ticket =>
    exact ⟨rfl, rfl, rfl, rfl, List.prefix_refl _, Nat.le_refl _⟩
  | restartSolver =>
    refine ⟨rfl, rfl, rfl, rfl, List.prefix_refl _, ?_⟩
    simp only [handle, Session.pace, Command.effort, List.length_append, List.length_singleton]
    omega
  | verify => exact verifyStrict_handling .full none
  | publish => exact publish_handling
  | flyCheck => exact startFlyCheck_handling
  | dispose ticket => cases hc

theorem openDocument_handling : Handling 0 s s.openDocument := by
  have hmap : Handling 0 s
      { s with
        strict := s.strict.tell (.vfsAdd s.text)
        lax := s.lax.map fun side => side.tell (.vfsAdd s.text) } :=
    ⟨rfl, rfl, rfl, rfl, List.prefix_refl _, Nat.le_refl _⟩
  exact hmap.trans (requestFull_handling _)

theorem onSide_handling (role : Role) (f : Side → Side) : Handling 0 s (s.onSide role f) := by
  cases role <;> exact ⟨rfl, rfl, rfl, rfl, List.prefix_refl _, Nat.le_refl _⟩

theorem onChannelEvent_handling (role : Role) (event : ChannelEvent) :
    Handling 3 s (s.onChannelEvent role event) := by
  cases event with
  | stream message =>
    have hfold := onSide_handling (s := s) role fun side => side.fold message
    rw [onChannelEvent, onStream]
    dsimp only
    split
    · have hmark : ∀ s : Session,
          Handling 0 s (if role = .strict then { s with startedTo := none } else s) := by
        intro s
        split
        · exact ⟨rfl, rfl, rfl, rfl, List.prefix_refl _, Nat.le_refl _⟩
        · exact .refl s
      exact (((hfold.trans (hmark _)).trans publish_handling).trans (emit_handling _)).mono
        (by decide)
    · exact hfold.trans firePublisher_handling
  | notice n => exact (onSide_handling role _).trans firePublisher_handling
  | exited code =>
    exact (((onSide_handling role _).trans (alert_handling _)).trans publish_handling).mono
      (by decide)

-- ---------------------------------------------------------------------------
-- Steps until rest
-- ---------------------------------------------------------------------------

/-- What the handling of commands comes to. -/
def backlog : List Command → Nat
  | [] => 0
  | c :: rest => c.effort + backlog rest

theorem backlog_append (commands later : List Command) :
    backlog (commands ++ later) = backlog commands + backlog later := by
  induction commands with
  | nil => exact (Nat.zero_add _).symm
  | cons c rest ih =>
    rw [List.cons_append, backlog, backlog, ih]
    omega

theorem backlog_le (commands : List Command) : backlog commands ≤ 10 * commands.length := by
  induction commands with
  | nil => exact Nat.le_refl _
  | cons c rest ih =>
    have hc := c.effort_le
    rw [backlog, List.length_cons]
    omega

/-- The steps that lie ahead of a session; one that is closed does nothing. -/
def effort (s : Session) : Nat :=
  if s.isOpen then s.pace + 4 * s.inbox.length + backlog s.commands else 0

theorem effort_of_open (h : s.isOpen = true) :
    s.effort = s.pace + 4 * s.inbox.length + backlog s.commands :=
  if_pos h

theorem effort_le_workload (s : Session) : s.effort ≤ s.workload := by
  have hbacklog := backlog_le s.commands
  have hpublisher := s.publisher.effort_le
  have hflyCheck := s.flyCheck.effort_le
  have hreverify : s.reverify.effort ≤ 2 := by
    unfold Debouncer.effort
    split <;> omega
  unfold effort pace workload
  split <;> omega

/-- The steps that a session that settles can take. -/
inductive Next (s : Session) : Step → Prop
  | reverify (hdue : s.isDue s.reverify.due = true) : Next s .reverify
  | flyCheck (hdue : s.isDue s.flyCheckDue = true) : Next s .flyCheck
  | publisher (hdue : s.isDue s.publisher.due = true) : Next s .publisher
  | solver (hdue : s.isDue s.solverRestarts.min? = true) : Next s .solver
  | event {role : Role} {event : ChannelEvent} {rest : List (Role × ChannelEvent)}
      (hinbox : s.inbox = (role, event) :: rest) : Next s .event
  | command {c : Command} {rest : List Command} (hinbox : s.inbox = [])
      (hcommands : s.commands = c :: rest) : Next s .command

theorem next_of_next? {a : Step} (h : s.next? = some a) : s.isOpen = true ∧ s.Next a := by
  unfold next? at h
  by_cases hopen : s.isOpen = true
  · refine ⟨hopen, ?_⟩
    rw [if_neg (by simp [hopen])] at h
    by_cases hreverify : s.isDue s.reverify.due = true
    · rw [if_pos hreverify] at h
      cases h
      exact .reverify hreverify
    · rw [if_neg hreverify] at h
      by_cases hflyCheck : s.isDue s.flyCheckDue = true
      · rw [if_pos hflyCheck] at h
        cases h
        exact .flyCheck hflyCheck
      · rw [if_neg hflyCheck] at h
        by_cases hpublisher : s.isDue s.publisher.due = true
        · rw [if_pos hpublisher] at h
          cases h
          exact .publisher hpublisher
        · rw [if_neg hpublisher] at h
          by_cases hsolver : s.isDue s.solverRestarts.min? = true
          · rw [if_pos hsolver] at h
            cases h
            exact .solver hsolver
          · rw [if_neg hsolver] at h
            cases hinbox : s.inbox with
            | cons first rest =>
              rw [hinbox] at h
              cases h
              exact .event hinbox
            | nil =>
              rw [hinbox] at h
              cases hcommands : s.commands with
              | cons c rest =>
                rw [hcommands] at h
                cases h
                exact .command hinbox hcommands
              | nil =>
                rw [hcommands] at h
                cases h
  · rw [if_pos (by simp [hopen])] at h
    cases h

/-- An open session that has nothing to do has no commands or events left. -/
theorem queues_of_next?_none (h : s.next? = none) (hopen : s.isOpen = true) :
    s.commands = [] ∧ s.inbox = [] := by
  cases hinbox : s.inbox with
  | cons first rest => grind [next?, List.isEmpty_cons]
  | nil =>
    cases hcommands : s.commands with
    | cons c rest => grind [next?, List.isEmpty_cons, List.isEmpty_nil]
    | nil => exact ⟨rfl, rfl⟩

theorem isDue_eq_true_iff {time : Option Nat} :
    s.isDue time = true ↔ ∃ t, time = some t ∧ t ≤ s.now := by
  cases time with
  | none => simp [isDue]
  | some t => simp [isDue]

theorem post_of_open (h : s.isOpen = true) (c : Command) :
    s.post c = { s with commands := s.commands ++ [c] } :=
  if_pos h

/-- Solvers are started again without anything else being touched. -/
theorem runSolver_eq (s : Session) : ∃ strict, s.runSolver =
    { s with strict, solverRestarts := s.solverRestarts.filter fun due => s.now < due } := by
  have hrestarts : ∀ (due : List Nat) (s : Session), ∃ strict,
      due.foldl (fun s _ => { s with strict := s.strict.tell .restartSolver }) s =
        { s with strict } := by
    intro due
    induction due with
    | nil => exact fun s => ⟨s.strict, rfl⟩
    | cons time due ih =>
      intro s
      obtain ⟨strict, heq⟩ := ih { s with strict := s.strict.tell .restartSolver }
      exact ⟨strict, heq⟩
  exact hrestarts _ { s with solverRestarts := s.solverRestarts.filter fun due => s.now < due }

/-- What the timers save is saved. -/
theorem effort_of_pace {saved : Nat} (hopen : s.isOpen = true) (hopen' : s'.isOpen = true)
    (hinbox : s'.inbox = s.inbox) (hcommands : s'.commands = s.commands)
    (hpace : s'.pace + saved ≤ s.pace) : s'.effort + saved ≤ s.effort := by
  rw [effort_of_open hopen, effort_of_open hopen', hinbox, hcommands]
  omega

theorem effort_post (hopen : s.isOpen = true) (c : Command) :
    (s.post c).effort = s.effort + c.effort := by
  let posted : Session := { s with commands := s.commands ++ [c] }
  have hposted : posted.effort = s.pace + 4 * s.inbox.length +
      backlog (s.commands ++ [c]) := effort_of_open (s := posted) hopen
  rw [post_of_open hopen, effort_of_open hopen]
  show posted.effort = _
  rw [hposted, backlog_append, backlog, backlog]
  omega

theorem reverify_effort (hopen : s.isOpen = true) (hdue : s.isDue s.reverify.due = true) :
    s.runReverify.effort < s.effort := by
  obtain ⟨t, ht, hle⟩ := isDue_eq_true_iff.1 hdue
  have helapse : s.reverify.elapse s.now = (some t, s.reverify.cancel) := by
    simp [Debouncer.elapse, ht, hle]
  let timed : Session := { s with reverify := s.reverify.cancel }
  have hsaved : timed.effort + 2 ≤ s.effort := by
    refine effort_of_pace hopen hopen rfl rfl ?_
    simp only [pace, timed, Debouncer.effort, Debouncer.cancel, ht, Option.isSome_some,
      Option.isSome_none, if_true, Bool.false_eq_true, if_false]
    omega
  have hpost : (timed.post .verify).effort = timed.effort + 1 :=
      effort_post (s := timed) hopen .verify
  simp only [runReverify, helapse]
  show (timed.post .verify).effort < s.effort
  omega

theorem publisher_effort (hopen : s.isOpen = true) (hdue : s.isDue s.publisher.due = true) :
    s.runPublisher.effort < s.effort := by
  obtain ⟨t, ht, hle⟩ := isDue_eq_true_iff.1 hdue
  have hwake := RateLimiter.effort_wake ht
  simp only [runPublisher, ht, if_pos hle]
  cases hw : s.publisher.wake with
  | mk run limiter =>
    rw [hw] at hwake
    dsimp only at hwake
    let timed : Session := { s with publisher := limiter }
    have hsaved : timed.effort + (run.toList.length + 1) ≤ s.effort := by
      refine effort_of_pace hopen hopen rfl rfl ?_
      simp only [pace, timed]
      omega
    cases run with
    | some time =>
      have hpost : (timed.post .publish).effort = timed.effort + 1 :=
      effort_post (s := timed) hopen .publish
      show (timed.post .publish).effort < s.effort
      simp only [Option.toList_some, List.length_singleton] at hsaved
      omega
    | none =>
      show timed.effort < s.effort
      omega

theorem flyCheck_effort (hopen : s.isOpen = true) (hdue : s.isDue s.flyCheckDue = true) :
    s.runFlyCheck.effort < s.effort := by
  obtain ⟨t, ht, hle⟩ := isDue_eq_true_iff.1 hdue
  unfold runFlyCheck
  unfold flyCheckDue at ht
  cases hphase : s.flyCheck.phase with
  | idle => simp [hphase] at ht
  | starting job =>
    have hstart := JobLimiter.effort_start hphase
    let timed : Session := { s with flyCheck := s.flyCheck.start.2 }
    have hsaved : timed.effort + 2 ≤ s.effort := by
      refine effort_of_pace hopen hopen rfl rfl ?_
      simp only [pace, timed]
      omega
    have hpost : (timed.post .flyCheck).effort = timed.effort + 1 :=
      effort_post (s := timed) hopen .flyCheck
    show (timed.post .flyCheck).effort < s.effort
    omega
  | working job =>
    have hfinish := JobLimiter.effort_finish hphase s.now
    by_cases hover : s.flyCheckOver = true
    · let timed : Session :=
        { s with flyWaiting := false, flyCheck := s.flyCheck.finish s.now }
      have hsaved : timed.effort + 1 ≤ s.effort := by
        refine effort_of_pace hopen hopen rfl rfl ?_
        simp only [pace, timed]
        omega
      simp only [if_pos hover]
      exact hsaved
    · simp [hphase, hover] at ht
  | spacing due =>
    have hresume := JobLimiter.effort_resume hphase
    simp only [hphase, Option.some.injEq] at ht
    subst ht
    let timed : Session := { s with flyCheck := s.flyCheck.resume }
    have hsaved : timed.effort + 1 ≤ s.effort := by
      refine effort_of_pace hopen hopen rfl rfl ?_
      simp only [pace, timed]
      omega
    simp only [if_pos hle]
    exact hsaved

theorem solver_effort (hopen : s.isOpen = true)
    (hdue : s.isDue s.solverRestarts.min? = true) : s.runSolver.effort < s.effort := by
  obtain ⟨t, ht, hle⟩ := isDue_eq_true_iff.1 hdue
  have hmem : t ∈ s.solverRestarts := List.min?_mem ht
  have hfewer : (s.solverRestarts.filter fun due => s.now < due).length <
      s.solverRestarts.length := by
    refine List.length_filter_lt_length_iff_exists.2 ⟨t, hmem, ?_⟩
    simp only [decide_eq_true_eq]
    omega
  obtain ⟨strict, heq⟩ := s.runSolver_eq
  let timed : Session :=
    { s with strict, solverRestarts := s.solverRestarts.filter fun due => s.now < due }
  have hsaved : timed.effort + 1 ≤ s.effort := by
    refine effort_of_pace hopen hopen rfl rfl ?_
    simp only [pace, timed]
    omega
  rw [heq]
  exact hsaved

theorem handled_effort (hopen : s.isOpen = true) (h : Handling cost s s') :
    s'.effort ≤ s.effort + cost := by
  have hpace := h.pace
  rw [effort_of_open hopen, effort_of_open (h.isOpen.trans hopen), h.inbox, h.commands]
  omega

theorem refuse_eq (s : Session) (commands : List Command) :
    ∃ replies, s.refuse commands = { s with replies } := by
  unfold refuse
  induction commands generalizing s with
  | nil => exact ⟨s.replies, rfl⟩
  | cons c rest ih =>
    rw [List.foldl_cons]
    cases c.ticket? with
    | none => exact ih s
    | some ticket =>
      obtain ⟨replies, heq⟩ := ih (s.reply ticket c.refusal)
      exact ⟨replies, heq⟩

theorem isOpen_dispose (ticket : Option Nat) : (s.dispose ticket).isOpen = false := by
  unfold dispose
  extract_lets closing cleared answered
  obtain ⟨replies, heq⟩ :=
    ({ answered with commands := [], inbox := [] } : Session).refuse_eq answered.commands
  rw [heq]
  cases ticket <;> rfl

theorem event_effort {role : Role} {event : ChannelEvent} {rest : List (Role × ChannelEvent)}
    (hopen : s.isOpen = true) (hinbox : s.inbox = (role, event) :: rest) :
    (({ s with inbox := rest } : Session).onChannelEvent role event).effort < s.effort := by
  let taken : Session := { s with inbox := rest }
  have hhandled := handled_effort (s := taken) hopen (onChannelEvent_handling role event)
  have htaken : taken.effort + 4 = s.effort := by
    rw [effort_of_open hopen, effort_of_open (s := taken) hopen, hinbox, List.length_cons]
    simp only [taken, pace]
    omega
  show (taken.onChannelEvent role event).effort < s.effort
  omega

theorem command_effort {c : Command} {rest : List Command} (hopen : s.isOpen = true)
    (hcommands : s.commands = c :: rest) :
    (({ s with commands := rest } : Session).handle c).effort < s.effort := by
  let taken : Session := { s with commands := rest }
  have htaken : taken.effort + c.effort = s.effort := by
    rw [effort_of_open hopen, effort_of_open (s := taken) hopen, hcommands, backlog]
    simp only [taken, pace]
    omega
  have hpositive : 0 < c.effort := by cases c <;> simp [Command.effort]
  cases hc : c.isDispose with
  | true =>
    cases c with
    | dispose ticket =>
      have hclosed : (taken.dispose ticket).effort = 0 := if_neg (by simp [isOpen_dispose])
      show (taken.dispose ticket).effort < s.effort
      omega
    | _ => cases hc
  | false =>
    have hhandled := handled_effort (s := taken) hopen (handle_handling hc)
    show (taken.handle c).effort < s.effort
    omega

/-- Every step that a session takes while it settles costs something. -/
theorem step_effort {a : Step} (h : s.next? = some a) : (s.step a).effort < s.effort := by
  obtain ⟨hopen, hnext⟩ := next_of_next? h
  show (s.act a).effort < s.effort
  cases hnext with
  | reverify hdue =>
    simp only [act, if_pos hopen]
    exact reverify_effort hopen hdue
  | flyCheck hdue =>
    simp only [act, if_pos hopen]
    exact flyCheck_effort hopen hdue
  | publisher hdue =>
    simp only [act, if_pos hopen]
    exact publisher_effort hopen hdue
  | solver hdue => exact solver_effort hopen hdue
  | event hinbox =>
    simp only [act, hinbox]
    exact event_effort hopen hinbox
  | command _ hcommands =>
    simp only [act, hcommands]
    exact command_effort hopen hcommands

-- ---------------------------------------------------------------------------
-- Rest
-- ---------------------------------------------------------------------------

theorem settle_of_next?_none (h : s.next? = none) : s.settle = s := by
  unfold settle
  cases s.workload with
  | zero => rfl
  | succ steps => simp [settleWithin, h]

/-- More steps than are needed make no difference. -/
theorem settleWithin_eq {n m : Nat} (hn : s.effort ≤ n) (hm : s.effort ≤ m) :
    s.settleWithin n = s.settleWithin m := by
  induction n generalizing s m with
  | zero =>
    cases hnext : s.next? with
    | none => cases m <;> simp [settleWithin, hnext]
    | some a =>
      have hlt := step_effort hnext
      omega
  | succ n ih =>
    cases hnext : s.next? with
    | none => cases m <;> simp [settleWithin, hnext]
    | some a =>
      have hlt := step_effort hnext
      cases m with
      | zero => omega
      | succ m =>
        simp only [settleWithin, hnext]
        exact ih (by omega) (by omega)

theorem settle_of_next? {a : Step} (h : s.next? = some a) : s.settle = (s.step a).settle := by
  have hlt := step_effort h
  have hle := s.effort_le_workload
  unfold settle
  cases hwork : s.workload with
  | zero => omega
  | succ steps =>
    simp only [settleWithin, h]
    exact settleWithin_eq (by omega) (effort_le_workload _)

/-- What holds at rest and is passed back over every step on the way there. -/
theorem settle_induction {P : Session → Session → Prop} (hrest : ∀ s, s.next? = none → P s s)
    (hstep : ∀ s a, s.next? = some a → P (s.step a) (s.step a).settle → P s (s.step a).settle)
    (s : Session) : P s s.settle := by
  induction heffort : s.effort using Nat.strongRecOn generalizing s with
  | ind n ih =>
    cases hnext : s.next? with
    | none =>
      rw [settle_of_next?_none hnext]
      exact hrest s hnext
    | some a =>
      rw [settle_of_next? hnext]
      exact hstep s a hnext (ih _ (heffort ▸ step_effort hnext) _ rfl)

/-- A session that has settled has nothing left to do. -/
theorem next?_settle (s : Session) : s.settle.next? = none :=
  settle_induction (P := fun _ s' => s'.next? = none) (fun _ h => h) (fun _ _ _ h => h) s

end Session

end VerifierClient

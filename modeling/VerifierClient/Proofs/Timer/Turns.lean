import VerifierClient.Timer.JobLimit

/-!
# Jobs take turns

Which jobs a limiter executes, and when, is settled by the fires alone: a job that is fired while
the limiter is idle is executed at once, and one that is fired while it is running takes the place
of the job that waits, to be executed an interval after the job before it has ended. So at any time
there is a list of executions, those that have begun followed by the one that waits. A wake leaves
this list as it is; a fire adds an execution at its end or replaces the one that waits.

* `Firing`, `firings` — the jobs of a schedule as they were fired;
* `Execution`, `Plan`, `Plan.fire` — the executions to which the fires lead, and one more fire;
* `Standing` — how the limiter, the clock and the log fit these executions, with
  `Standing.fire`, `Standing.wake`, `Standing.wait` and `Standing.elapseWithin`;
* `Open`, `Settled`, `run_settled` — what every step and every schedule keeps;
* `Settled.settle_eq_sleep` — when a limiter has settled;
* `InTurn`, `jobs_take_turns` — the contract of the limiter.
-/

namespace VerifierClient

namespace JobSchedule

-- ---------------------------------------------------------------------------
-- Fires and executions
-- ---------------------------------------------------------------------------

/-- A job as it was fired. -/
structure Firing where
  /-- the number of the step that fired it; the jobs of one step are fired without a pause -/
  step : Nat
  time : Nat
  job : TimedJob
  /-- whether the limiter was running -/
  busy : Bool
deriving DecidableEq, Repr

/-- The given jobs, fired in order and without a pause. -/
def burst (step now : Nat) : JobLimiter TimedJob → List TimedJob → List Firing
  | _, [] => []
  | l, job :: rest => ⟨step, now, job, l.isRunning⟩ :: burst step now (l.fire job) rest

/-- The jobs that a step fires, which has the given number. -/
def firedBy (step : Nat) (s : JobSchedule) : JobStep → List Firing
  | .fire jobs => s.limiter.elim [] fun l => burst step s.now l jobs
  | .settle => []
  | .drop => []
  | .sleep _ => []

/-- The jobs that are fired in a schedule, the first step of which has the given number. -/
def firings (step : Nat) (s : JobSchedule) : List JobStep → List Firing
  | [] => []
  | next :: rest => s.firedBy step next ++ firings (step + 1) (s.step next) rest

structure Execution where
  /-- which of the fired jobs it is, counted from 0 -/
  number : Nat
  job : TimedJob
  start : Nat
deriving DecidableEq, Repr

namespace Execution

def stop (e : Execution) : Nat := e.start + e.job.duration

/-- What the log tells about an execution that has begun by the time `now`. -/
def account (now : Nat) (e : Execution) : List JobEvent :=
  .started e.job.name e.start :: if e.stop ≤ now then [.ended e.job.name e.stop] else []

/-- What the log tells about an execution in the end. -/
def story (e : Execution) : List JobEvent :=
  [.started e.job.name e.start, .ended e.job.name e.stop]

end Execution

/-- No job is fired after job number `k`, which the given step fired, and before the moment
`start`: neither without a pause, nor while the clock is short of `start`. -/
def Unreplaced (fired : List Firing) (k step start : Nat) : Prop :=
  ∀ m g, k < m → fired[m]? = some g → step < g.step ∧ start ≤ g.time

/-- Job number `k`, fired as `f` tells, is executed an interval after the job before it has ended,
if nothing replaces it until then. -/
def Spaced (interval : Nat) (fired : List Firing) (all : List Execution) (k : Nat) (f : Firing) :
    Prop :=
  ∃ prev ∈ all, prev.number < k ∧ (∀ e ∈ all, e.number < k → e.number ≤ prev.number) ∧
    f.time ≤ prev.stop + interval ∧
    ∀ start, ⟨k, f.job, start⟩ ∈ all ↔
      start = prev.stop + interval ∧ Unreplaced fired k f.step start

/-- The executions to which the fires lead if there are no more of them. -/
structure Plan (interval : Nat) (fired : List Firing) (all : List Execution) : Prop where
  ordered : all.Pairwise fun a b => a.number < b.number ∧ a.stop ≤ b.start
  known : ∀ e ∈ all, ∃ f, fired[e.number]? = some f ∧ f.job = e.job
  newest : ∀ k, k + 1 = fired.length → ∃ e ∈ all, e.number = k
  prompt : ∀ k f, fired[k]? = some f → f.busy = false → ⟨k, f.job, f.time⟩ ∈ all
  spaced : ∀ k f, fired[k]? = some f → f.busy = true → Spaced interval fired all k f

/-- What is known, at a fire of the step with the given number, of an execution that has begun. -/
def Begun (step now : Nat) (fired : List Firing) (e : Execution) : Prop :=
  ∀ f, fired[e.number]? = some f → f.busy = true → f.step < step ∧ e.start ≤ now

/-- What is known there of the execution that waits. -/
def Waits (step now : Nat) (fired : List Firing) (e : Execution) : Prop :=
  e.number + 1 = fired.length ∧
    ∃ f, fired[e.number]? = some f ∧ f.busy = true ∧ (f.step < step → now < e.start)

theorem getElem?_concat_iff {fired : List Firing} {k : Nat} {f g : Firing} :
    (fired ++ [g])[k]? = some f ↔ fired[k]? = some f ∨ k = fired.length ∧ f = g := by
  rcases Nat.lt_trichotomy k fired.length with h | h | h
  · rw [List.getElem?_append_left h]
    simp [Nat.ne_of_lt h]
  · subst h
    simp [eq_comm]
  · rw [List.getElem?_eq_none (by simp; omega), List.getElem?_eq_none (by omega)]
    simp [Nat.ne_of_gt h]

theorem lt_length_of_fired {fired : List Firing} {k : Nat} {f : Firing} (h : fired[k]? = some f) :
    k < fired.length :=
  (List.getElem?_eq_some_iff.1 h).1

theorem unreplaced_concat_iff {fired : List Firing} {k step start : Nat} {g : Firing}
    (hk : k < fired.length) :
    Unreplaced (fired ++ [g]) k step start ↔
      Unreplaced fired k step start ∧ step < g.step ∧ start ≤ g.time := by
  constructor
  · intro h
    exact ⟨fun m f hm hf => h m f hm (getElem?_concat_iff.2 (.inl hf)),
      h fired.length g hk (getElem?_concat_iff.2 (.inr ⟨rfl, rfl⟩))⟩
  · rintro ⟨h, hlast⟩ m f hm hf
    rcases getElem?_concat_iff.1 hf with hf | ⟨-, rfl⟩
    · exact h m f hm hf
    · exact hlast

/-- The job that waits was fired while the limiter was running. -/
theorem Waits.of_fired {step now : Nat} {fired : List Firing} {e : Execution} {f : Firing}
    (h : Waits step now fired e) (hf : fired[e.number]? = some f) :
    f.busy = true ∧ (f.step < step → now < e.start) := by
  obtain ⟨-, f', hf', hwaits⟩ := h
  obtain rfl : f' = f := Option.some.inj (hf'.symm.trans hf)
  exact hwaits

namespace Plan

variable {interval step now start : Nat} {fired : List Firing} {all begun queued : List Execution}
  {job : TimedJob} {busy : Bool} {prev : Execution}

theorem nil (interval : Nat) : Plan interval [] [] := by
  constructor <;> simp

theorem number_lt (h : Plan interval fired all) {e : Execution} (he : e ∈ all) :
    e.number < fired.length := by
  obtain ⟨f, hf, -⟩ := h.known e he
  exact lt_length_of_fired hf

/-- The last of the executions that have begun is also the one that ends last. -/
theorem le_last (h : Plan interval fired (begun ++ queued)) (hlast : begun.getLast? = some prev)
    {e : Execution} (he : e ∈ begun) : e.number ≤ prev.number ∧ e.stop ≤ prev.stop := by
  obtain ⟨earlier, rfl⟩ := List.getLast?_eq_some_iff.1 hlast
  have hordered := (List.pairwise_append.1 (List.pairwise_append.1 h.ordered).1).2.2
  rcases List.mem_append.1 he with he | he
  · obtain ⟨hnumber, hstop⟩ := hordered e he prev (List.mem_singleton_self prev)
    have : prev.start ≤ prev.stop := Nat.le_add_right ..
    omega
  · rw [List.mem_singleton.1 he]
    omega

/-- An execution whose number is not the last one has begun. -/
theorem mem_begun (hqueued : ∀ e ∈ queued, Waits step now fired e) {e : Execution}
    (he : e ∈ begun ++ queued) (hnumber : e.number + 1 < fired.length) : e ∈ begun := by
  refine (List.mem_append.1 he).resolve_right fun hwaits => ?_
  have := (hqueued e hwaits).1
  omega

/-- A fire does not change how the jobs before it are spaced, but for the one that it replaces. -/
theorem spaced_fire (h : Plan interval fired (begun ++ queued))
    (hbegun : ∀ e ∈ begun, Begun step now fired e) (hqueued : ∀ e ∈ queued, Waits step now fired e)
    {k : Nat} {f : Firing} (hf : fired[k]? = some f) (hbusy : f.busy = true) :
    Spaced interval (fired ++ [⟨step, now, job, busy⟩]) (begun ++ [⟨fired.length, job, start⟩])
      k f := by
  have hk : k < fired.length := lt_length_of_fired hf
  obtain ⟨prev, hprev, hbefore, hnext, hsoon, hstarts⟩ := h.spaced k f hf hbusy
  refine ⟨prev, ?_, hbefore, ?_, hsoon, fun start => ?_⟩
  · exact List.mem_append_left _ (mem_begun hqueued hprev (by omega))
  · intro e he hlt
    rcases List.mem_append.1 he with he | he
    · exact hnext e (List.mem_append_left _ he) hlt
    · rw [List.mem_singleton.1 he] at hlt
      exact absurd hlt (Nat.lt_asymm hk)
  · rw [unreplaced_concat_iff hk, ← and_assoc, ← hstarts start]
    constructor
    · intro he
      rcases List.mem_append.1 he with he | he
      · exact ⟨List.mem_append_left _ he, hbegun _ he f hf hbusy⟩
      · have : k = fired.length := congrArg Execution.number (List.mem_singleton.1 he)
        omega
    · rintro ⟨he, hstep, hstart⟩
      rcases List.mem_append.1 he with he | he
      · exact List.mem_append_left _ he
      · exact absurd hstart (Nat.not_le.2 (((hqueued _ he).of_fired hf).2 hstep))

/-- The job that a running limiter is fired with comes an interval after the last that has begun. -/
theorem spaced_new (h : Plan interval fired (begun ++ queued)) (hlast : begun.getLast? = some prev)
    (hsoon : now ≤ prev.stop + interval) :
    Spaced interval (fired ++ [⟨step, now, job, true⟩])
      (begun ++ [⟨fired.length, job, prev.stop + interval⟩])
      fired.length ⟨step, now, job, true⟩ := by
  have hprev : prev ∈ begun := List.mem_of_getLast? hlast
  have hlt : ∀ e ∈ begun, e.number < fired.length := fun e he =>
    h.number_lt (List.mem_append_left _ he)
  refine ⟨prev, List.mem_append_left _ hprev, hlt prev hprev, ?_, hsoon, fun start => ?_⟩
  · intro e he hbefore
    rcases List.mem_append.1 he with he | he
    · exact (h.le_last hlast he).1
    · rw [List.mem_singleton.1 he] at hbefore
      exact absurd hbefore (Nat.lt_irrefl _)
  · have hunreplaced : Unreplaced (fired ++ [⟨step, now, job, true⟩]) fired.length step start := by
      intro m g hm hg
      have := lt_length_of_fired hg
      rw [List.length_append, List.length_singleton] at this
      omega
    rw [List.mem_append, List.mem_singleton, Execution.mk.injEq]
    constructor
    · rintro (he | ⟨-, -, hstart⟩)
      · exact absurd (hlt _ he) (Nat.lt_irrefl _)
      · exact ⟨hstart, hunreplaced⟩
    · rintro ⟨hstart, -⟩
      exact .inr ⟨rfl, rfl, hstart⟩

/-- One more fire: the job is executed after all that have begun, in place of the one that waits. -/
theorem fire (h : Plan interval fired (begun ++ queued))
    (hbegun : ∀ e ∈ begun, Begun step now fired e) (hqueued : ∀ e ∈ queued, Waits step now fired e)
    (hbefore : ∀ e ∈ begun, e.stop ≤ start) (hidle : busy = false → start = now)
    (hbusy : busy = true → ∃ prev, begun.getLast? = some prev ∧ now ≤ prev.stop + interval ∧
      start = prev.stop + interval) :
    Plan interval (fired ++ [⟨step, now, job, busy⟩]) (begun ++ [⟨fired.length, job, start⟩]) := by
  have hlt : ∀ e ∈ begun, e.number < fired.length := fun e he =>
    h.number_lt (List.mem_append_left _ he)
  constructor
  · refine List.pairwise_append.2 ⟨(List.pairwise_append.1 h.ordered).1,
      List.pairwise_singleton _ _, fun e he new hnew => ?_⟩
    rw [List.mem_singleton.1 hnew]
    exact ⟨hlt e he, hbefore e he⟩
  · intro e he
    rcases List.mem_append.1 he with he | he
    · obtain ⟨f, hf, hjob⟩ := h.known e (List.mem_append_left _ he)
      exact ⟨f, getElem?_concat_iff.2 (.inl hf), hjob⟩
    · rw [List.mem_singleton.1 he]
      exact ⟨_, getElem?_concat_iff.2 (.inr ⟨rfl, rfl⟩), rfl⟩
  · intro k hk
    refine ⟨_, List.mem_append_right _ (List.mem_singleton_self _), ?_⟩
    rw [List.length_append, List.length_singleton] at hk
    exact (Nat.succ.inj hk).symm
  · intro k f hf hnot
    rcases getElem?_concat_iff.1 hf with hf | ⟨rfl, rfl⟩
    · refine List.mem_append_left _ ((List.mem_append.1 (h.prompt k f hf hnot)).resolve_right ?_)
      intro hwaits
      exact absurd ((hqueued _ hwaits).of_fired hf).1 (Bool.eq_false_iff.1 hnot)
    · refine List.mem_append_right _ (List.mem_singleton.2 ?_)
      rw [hidle hnot]
  · intro k f hf htrue
    rcases getElem?_concat_iff.1 hf with hf | ⟨rfl, rfl⟩
    · exact h.spaced_fire hbegun hqueued hf htrue
    · obtain rfl : busy = true := htrue
      obtain ⟨prev, hlast, hsoon, rfl⟩ := hbusy rfl
      exact h.spaced_new hlast hsoon

end Plan

-- ---------------------------------------------------------------------------
-- The limiter among its executions
-- ---------------------------------------------------------------------------

/-- The slot for the job that waits: what it holds is executed at the time `due`. -/
inductive Slot (due : Nat) : List Execution → Option TimedJob → Prop where
  | empty : Slot due [] none
  | taken (e : Execution) (hstart : e.start = due) : Slot due [e] (some e.job)

/-- How a limiter, the clock and the log fit the executions that have begun, or begin at once, and
the one that waits. -/
inductive Standing (interval : Nat) : JobSchedule → List Execution → List Execution → Prop where
  | idle {now ends : Nat} {begun : List Execution} (hover : ∀ e ∈ begun, e.stop ≤ now) :
    Standing interval ⟨now, some ⟨interval, .idle, none⟩, ends, begun.flatMap Execution.story⟩
      begun []
  | starting {ends : Nat} {earlier queued : List Execution} {e : Execution}
    {waiting : Option TimedJob} (hover : ∀ e' ∈ earlier, e'.stop ≤ e.start)
    (hslot : Slot (e.stop + interval) queued waiting) :
    Standing interval
      ⟨e.start, some ⟨interval, .starting e.job, waiting⟩, ends, earlier.flatMap Execution.story⟩
      (earlier ++ [e]) queued
  | working {now : Nat} {earlier queued : List Execution} {e : Execution}
    {waiting : Option TimedJob} (hover : ∀ e' ∈ earlier, e'.stop ≤ now) (hstart : e.start ≤ now)
    (hstop : now ≤ e.stop) (hslot : Slot (e.stop + interval) queued waiting) :
    Standing interval
      ⟨now, some ⟨interval, .working e.job, waiting⟩, e.stop,
        earlier.flatMap Execution.story ++ [.started e.job.name e.start]⟩
      (earlier ++ [e]) queued
  | spacing {now ends : Nat} {earlier : List Execution} {e next : Execution}
    (hover : ∀ e' ∈ earlier ++ [e], e'.stop ≤ now) (hnext : next.start = e.stop + interval)
    (hopen : now ≤ next.start) :
    Standing interval
      ⟨now, some ⟨interval, .spacing next.start, some next.job⟩, ends,
        (earlier ++ [e]).flatMap Execution.story⟩
      (earlier ++ [e]) [next]

/-- How many wakes lie ahead. -/
def remaining (s : JobSchedule) : Nat :=
  match s.limiter with
  | none => 0
  | some l =>
    let waiting := if l.waiting.isSome then 3 else 0
    match l.phase with
    | .idle => 0
    | .starting _ => 2 + waiting
    | .working _ => 1 + waiting
    | .spacing _ => if l.waiting.isSome then 3 else 1

namespace Standing

variable {interval due target number : Nat} {s : JobSchedule} {begun queued : List Execution}

theorem remaining_le (h : Standing interval s begun queued) : s.remaining ≤ s.wakesLeft := by
  cases h <;> simp [remaining, wakesLeft]

/-- Nothing that is to be done lies in the past. -/
theorem le_due (h : Standing interval s begun queued) (hdue : s.due = some due) : s.now ≤ due := by
  cases h with
  | idle hover => cases hdue
  | starting hover hslot =>
    cases hdue
    exact Nat.le_refl _
  | working hover hstart hstop hslot =>
    cases hdue
    exact hstop
  | spacing hover hnext hopen =>
    cases hdue
    exact hopen

/-- The clock moves on, but not past the time at which something is to be done. -/
theorem wait (h : Standing interval s begun queued) (hle : s.now ≤ target)
    (hdue : ∀ due, s.due = some due → target ≤ due) :
    Standing interval { s with now := target } begun queued := by
  cases h with
  | idle hover => exact .idle fun e he => Nat.le_trans (hover e he) hle
  | @starting ends earlier queued e waiting hover hslot =>
    obtain rfl : target = e.start := Nat.le_antisymm (hdue e.start rfl) hle
    exact .starting hover hslot
  | working hover hstart hstop hslot =>
    exact .working (fun e he => Nat.le_trans (hover e he) hle) (Nat.le_trans hstart hle)
      (hdue _ rfl) hslot
  | spacing hover hnext hopen =>
    exact .spacing (fun e he => Nat.le_trans (hover e he) hle) hnext (hdue _ rfl)

/-- What is to be done later stays so when the clock moves on. -/
theorem due_wait (h : Standing interval s begun queued) (hle : s.now ≤ target)
    (hlater : ∀ due, s.due = some due → target < due)
    (hdue : ({ s with now := target } : JobSchedule).due = some due) : target < due := by
  cases h with
  | idle hover => cases hdue
  | starting hover hslot => exact absurd (hlater _ rfl) (Nat.not_lt.2 hle)
  | working hover hstart hstop hslot => exact hlater due hdue
  | spacing hover hnext hopen => exact hlater due hdue

/-- A wake at the time at which it is due. The executions stay the same, only that the one that
waits may begin. -/
theorem wake (h : Standing interval s begun queued) (hdue : s.due = some due) :
    ∃ begun' queued', begun' ++ queued' = begun ++ queued ∧ (∀ e ∈ queued', e ∈ queued) ∧
      Standing interval (s.wake due) begun' queued' ∧ (s.wake due).now = due ∧
      (s.wake due).remaining + 1 = s.remaining := by
  cases h with
  | idle hover => cases hdue
  | @starting ends earlier queued e waiting hover hslot =>
    cases hdue
    refine ⟨earlier ++ [e], queued, rfl, fun _ he => he, ?_, rfl, ?_⟩
    · exact .working hover (Nat.le_refl _) (Nat.le_add_right ..) hslot
    · cases hslot <;> rfl
  | @working now earlier queued e waiting hover hstart hstop hslot =>
    cases hdue
    have hstory : earlier.flatMap Execution.story ++ [.started e.job.name e.start] ++
        [.ended e.job.name e.stop] = (earlier ++ [e]).flatMap Execution.story := by
      simp [Execution.story]
    have hover' : ∀ e' ∈ earlier ++ [e], e'.stop ≤ e.stop := by
      intro e' he
      rcases List.mem_append.1 he with he | he
      · exact Nat.le_trans (hover e' he) hstop
      · exact Nat.le_of_eq (congrArg Execution.stop (List.mem_singleton.1 he))
    refine ⟨earlier ++ [e], queued, rfl, fun _ he => he, ?_, rfl, ?_⟩
    · simp only [JobSchedule.wake]
      rw [hstory]
      cases hslot with
      | empty => exact .idle hover'
      | taken next hnext =>
        have hspacing : JobLimiter.finish ⟨interval, .working e.job, some next.job⟩ e.stop =
            ⟨interval, .spacing next.start, some next.job⟩ := by
          rw [hnext]
          rfl
        rw [hspacing]
        exact .spacing hover' hnext (by omega)
    · cases hslot <;> rfl
  | @spacing now ends earlier e next hover hnext hopen =>
    cases hdue
    refine ⟨earlier ++ [e] ++ [next], [], List.append_nil _, by simp, ?_, rfl, rfl⟩
    exact .starting (fun e' he => Nat.le_trans (hover e' he) hopen) .empty

/-- A fire. An idle limiter is to execute the job at once; with a running one it takes the slot. -/
theorem fire (h : Standing interval s begun queued) (number : Nat) (job : TimedJob) :
    ∃ l, s.limiter = some l ∧
      ((l.isRunning = false ∧ (∀ e ∈ begun, e.stop ≤ s.now) ∧ queued = [] ∧
          Standing interval { s with limiter := some (l.fire job) }
            (begun ++ [⟨number, job, s.now⟩]) []) ∨
        (l.isRunning = true ∧ ∃ prev, begun.getLast? = some prev ∧ s.now ≤ prev.stop + interval ∧
          Standing interval { s with limiter := some (l.fire job) } begun
            [⟨number, job, prev.stop + interval⟩])) := by
  cases h with
  | @idle now ends begun hover =>
    refine ⟨_, rfl, .inl ⟨rfl, hover, rfl, ?_⟩⟩
    exact .starting (e := ⟨number, job, now⟩) hover .empty
  | @starting ends earlier queued e waiting hover hslot =>
    refine ⟨_, rfl, .inr ⟨rfl, e, List.getLast?_concat, ?_, ?_⟩⟩
    · have : e.start ≤ e.stop := Nat.le_add_right ..
      simp only
      omega
    · exact .starting hover (.taken ⟨number, job, _⟩ rfl)
  | @working now earlier queued e waiting hover hstart hstop hslot =>
    refine ⟨_, rfl, .inr ⟨rfl, e, List.getLast?_concat, ?_, ?_⟩⟩
    · simp only
      omega
    · exact .working hover hstart hstop (.taken ⟨number, job, _⟩ rfl)
  | @spacing now ends earlier e next hover hnext hopen =>
    refine ⟨_, rfl, .inr ⟨rfl, e, List.getLast?_concat, ?_, ?_⟩⟩
    · simp only
      omega
    · rw [hnext] at hopen ⊢
      exact @Standing.spacing interval now ends earlier e ⟨number, job, _⟩ hover rfl hopen

/-- What is due by the time `target` is done, or, without one, all that lies ahead. -/
theorem elapseWithin (h : Standing interval s begun queued) (target : Option Nat) {wakes : Nat}
    (hwakes : s.remaining ≤ wakes) :
    ∃ begun' queued', begun' ++ queued' = begun ++ queued ∧ (∀ e ∈ queued', e ∈ queued) ∧
      Standing interval (s.elapseWithin target wakes) begun' queued' ∧
      s.now ≤ (s.elapseWithin target wakes).now ∧
      (∀ t, target = some t → s.now ≤ t → (s.elapseWithin target wakes).now ≤ t) ∧
      ∀ due, (s.elapseWithin target wakes).due = some due → ∃ t, target = some t ∧ t < due := by
  induction wakes generalizing s begun queued with
  | zero =>
    refine ⟨begun, queued, rfl, fun _ he => he, h, Nat.le_refl _, fun _ _ hle => hle, ?_⟩
    intro due hdue
    obtain ⟨_, _, -, -, -, -, hless⟩ := h.wake hdue
    omega
  | succ wakes ih =>
    unfold JobSchedule.elapseWithin
    cases hdue : s.due with
    | none =>
      refine ⟨begun, queued, rfl, fun _ he => he, h, Nat.le_refl _, fun _ _ hle => hle, ?_⟩
      intro due hdue'
      rw [hdue] at hdue'
      cases hdue'
    | some due =>
      dsimp only
      by_cases hreached : target.all (due ≤ ·) = true
      · rw [if_pos hreached]
        obtain ⟨begun₁, queued₁, hsame₁, hsub₁, hstanding, hnow, hless⟩ := h.wake hdue
        obtain ⟨begun₂, queued₂, hsame₂, hsub₂, hrest, hlater, hwithin, hdone⟩ :=
          ih hstanding (by omega)
        rw [hnow] at hlater
        refine ⟨begun₂, queued₂, hsame₂.trans hsame₁, fun e he => hsub₁ e (hsub₂ e he), hrest,
          Nat.le_trans (h.le_due hdue) hlater, fun t ht _ => hwithin t ht ?_, hdone⟩
        rw [hnow]
        simpa [ht] using hreached
      · rw [if_neg hreached]
        refine ⟨begun, queued, rfl, fun _ he => he, h, Nat.le_refl _, fun _ _ hle => hle, ?_⟩
        intro due' hdue'
        obtain rfl : due = due' := Option.some.inj (hdue.symm.trans hdue')
        cases target with
        | none => exact absurd rfl hreached
        | some t => exact ⟨t, rfl, by simpa using hreached⟩

/-- The clock comes to `target`, and what is due by then is done. -/
theorem elapse (h : Standing interval s begun queued) (hle : s.now ≤ target) :
    ∃ begun' queued', begun' ++ queued' = begun ++ queued ∧ (∀ e ∈ queued', e ∈ queued) ∧
      Standing interval (s.elapse target) begun' queued' ∧
      ∀ due, (s.elapse target).due = some due → target < due := by
  obtain ⟨begun', queued', hsame, hsub, hstanding, -, hwithin, hdone⟩ :=
    h.elapseWithin (some target) h.remaining_le
  have hlater : ∀ due, (s.elapseWithin (some target) s.wakesLeft).due = some due →
      target < due := by
    intro due hdue
    obtain ⟨t, ht, hlt⟩ := hdone due hdue
    cases ht
    exact hlt
  have hreached := hwithin target rfl hle
  exact ⟨begun', queued', hsame, hsub,
    hstanding.wait hreached fun due hdue => Nat.le_of_lt (hlater due hdue),
    fun _ => hstanding.due_wait hreached hlater⟩

/-- When nothing is left to be done now, what has begun has begun by now, and what waits begins
later. -/
theorem starts (h : Standing interval s begun queued)
    (hlater : ∀ due, s.due = some due → s.now < due) :
    (∀ e ∈ begun, e.start ≤ s.now) ∧ ∀ e ∈ queued, s.now < e.start := by
  have hover : ∀ {e : Execution} {t : Nat}, e.stop ≤ t → e.start ≤ t := fun hstop =>
    Nat.le_trans (Nat.le_add_right ..) hstop
  cases h with
  | idle hstop => exact ⟨fun e he => hover (hstop e he), by simp⟩
  | starting hstop hslot => exact absurd (hlater _ rfl) (Nat.lt_irrefl _)
  | @working now earlier queued e waiting hstop hstart hend hslot =>
    have hnow : now < e.stop := hlater _ rfl
    constructor
    · intro e' he
      rcases List.mem_append.1 he with he | he
      · exact hover (hstop e' he)
      · rw [List.mem_singleton.1 he]
        exact hstart
    · cases hslot with
      | empty => simp
      | taken next hnext =>
        intro e' he
        rw [List.mem_singleton.1 he, hnext]
        exact Nat.lt_of_lt_of_le hnow (Nat.le_add_right ..)
  | spacing hstop hnext hopen =>
    refine ⟨fun e he => hover (hstop e he), fun e he => ?_⟩
    rw [List.mem_singleton.1 he]
    exact hlater _ rfl

/-- When nothing is left to be done now, the log tells what has begun and, as far as the clock has
come, what has ended. -/
theorem log_eq (h : Standing interval s begun queued)
    (hlater : ∀ due, s.due = some due → s.now < due) :
    s.log = begun.flatMap (Execution.account s.now) := by
  have hstory : ∀ (es : List Execution) (now : Nat), (∀ e ∈ es, e.stop ≤ now) →
      es.flatMap Execution.story = es.flatMap (Execution.account now) := by
    intro es now hover
    rw [List.flatMap_def, List.flatMap_def]
    refine congrArg List.flatten (List.map_congr_left fun e he => ?_)
    rw [Execution.account, if_pos (hover e he), Execution.story]
  cases h with
  | idle hover => exact hstory _ _ hover
  | starting hover hslot => exact absurd (hlater _ rfl) (Nat.lt_irrefl _)
  | @working now earlier queued e waiting hover hstart hstop hslot =>
    have hnow : ¬ e.stop ≤ now := Nat.not_le.2 (hlater _ rfl)
    simp only [List.flatMap_append, hstory earlier now hover]
    simp [Execution.account, hnow]
  | spacing hover hnext hopen => exact hstory _ _ hover

/-- The limiter is idle exactly when every execution has ended and none waits. -/
theorem running_eq (h : Standing interval s begun queued)
    (hlater : ∀ due, s.due = some due → s.now < due) :
    ∃ running, s.running = some running ∧
      (running = false ↔ (∀ e ∈ begun, e.stop ≤ s.now) ∧ queued = []) := by
  cases h with
  | idle hover => exact ⟨false, rfl, by simpa using hover⟩
  | starting hover hslot => exact absurd (hlater _ rfl) (Nat.lt_irrefl _)
  | @working now earlier queued e waiting hover hstart hstop hslot =>
    refine ⟨true, rfl, by simp, fun hidle => ?_⟩
    have hended := hidle.1 e (List.mem_append_right _ (List.mem_singleton_self e))
    exact absurd (hlater _ rfl) (Nat.not_lt.2 hended)
  | spacing hover hnext hopen => exact ⟨true, rfl, by simp, by simp⟩

end Standing

-- ---------------------------------------------------------------------------
-- Steps
-- ---------------------------------------------------------------------------

variable {interval step : Nat} {fired : List Firing} {s s' : JobSchedule}
  {begun queued begun' queued' : List Execution}

/-- A schedule inside the step with the given number, which fires jobs. -/
structure Open (interval step : Nat) (fired : List Firing) (s : JobSchedule)
    (begun queued : List Execution) : Prop where
  standing : Standing interval s begun queued
  plan : Plan interval fired (begun ++ queued)
  steps : ∀ f ∈ fired, f.step ≤ step
  begins : ∀ e ∈ begun, Begun step s.now fired e
  waits : ∀ e ∈ queued, Waits step s.now fired e

/-- A schedule before the step with the given number: what was due is done. -/
structure Settled (interval step : Nat) (fired : List Firing) (s : JobSchedule)
    (begun queued : List Execution) : Prop where
  standing : Standing interval s begun queued
  plan : Plan interval fired (begun ++ queued)
  steps : ∀ f ∈ fired, f.step < step
  waits : ∀ e ∈ queued, Waits step s.now fired e
  later : ∀ due, s.due = some due → s.now < due

theorem begin_settled (interval : Nat) : Settled interval 0 [] (begin interval) [] [] where
  standing := @Standing.idle interval 0 0 [] (by simp)
  plan := .nil interval
  steps := by simp
  waits := by simp
  later := fun _ hdue => by cases hdue

theorem Settled.toOpen (h : Settled interval step fired s begun queued) :
    Open interval step fired s begun queued where
  standing := h.standing
  plan := h.plan
  steps := fun f hf => Nat.le_of_lt (h.steps f hf)
  begins := fun e he f hf _ =>
    ⟨h.steps f (List.mem_of_getElem? hf), (h.standing.starts h.later).1 e he⟩
  waits := h.waits

/-- The wakes at the end of a step. -/
theorem Open.settled (h : Open interval step fired s begun queued)
    (hsame : begun' ++ queued' = begun ++ queued) (hsub : ∀ e ∈ queued', e ∈ queued)
    (hstanding : Standing interval s' begun' queued')
    (hlater : ∀ due, s'.due = some due → s'.now < due) :
    Settled interval (step + 1) fired s' begun' queued' where
  standing := hstanding
  plan := hsame ▸ h.plan
  steps := fun f hf => Nat.lt_succ_of_le (h.steps f hf)
  waits := by
    intro e he
    obtain ⟨hnumber, f, hf, hbusy, -⟩ := h.waits e (hsub e he)
    exact ⟨hnumber, f, hf, hbusy, fun _ => (hstanding.starts hlater).2 e he⟩
  later := hlater

/-- One of the fires of a step. -/
theorem Open.fire (h : Open interval step fired s begun queued) (job : TimedJob) :
    ∃ l, s.limiter = some l ∧ ∃ begun' queued',
      Open interval step (fired ++ [⟨step, s.now, job, l.isRunning⟩])
        { s with limiter := some (l.fire job) } begun' queued' := by
  obtain ⟨l, hl, hfire⟩ := h.standing.fire fired.length job
  refine ⟨l, hl, ?_⟩
  have hsteps : ∀ busy, ∀ f ∈ fired ++ [⟨step, s.now, job, busy⟩], f.step ≤ step := by
    intro busy f hf
    rcases List.mem_append.1 hf with hf | hf
    · exact h.steps f hf
    · exact Nat.le_of_eq (congrArg Firing.step (List.mem_singleton.1 hf))
  have hbegun : ∀ g, ∀ e ∈ begun, Begun step s.now (fired ++ [g]) e := by
    intro g e he f hf hbusy
    rcases getElem?_concat_iff.1 hf with hf | ⟨hnumber, -⟩
    · exact h.begins e he f hf hbusy
    · exact absurd hnumber (Nat.ne_of_lt (h.plan.number_lt (List.mem_append_left _ he)))
  rcases hfire with ⟨hrunning, hover, rfl, hstanding⟩ | ⟨hrunning, prev, hlast, hsoon, hstanding⟩
  · rw [hrunning]
    refine ⟨_, [], hstanding, ?_, hsteps _, ?_, by simp⟩
    · rw [List.append_nil]
      exact h.plan.fire h.begins h.waits hover (fun _ => rfl) (fun hbusy => by cases hbusy)
    · intro e he
      rcases List.mem_append.1 he with he | he
      · exact hbegun _ e he
      · intro f hf hbusy
        rw [List.mem_singleton.1 he] at hf
        rcases getElem?_concat_iff.1 hf with hf | ⟨-, rfl⟩
        · exact absurd (lt_length_of_fired hf) (Nat.lt_irrefl _)
        · cases hbusy
  · rw [hrunning]
    refine ⟨begun, _, hstanding, ?_, hsteps _, hbegun _, ?_⟩
    · refine h.plan.fire h.begins h.waits (fun e he => ?_) (fun hidle => by cases hidle)
        (fun _ => ⟨prev, hlast, hsoon, rfl⟩)
      exact Nat.le_trans (h.plan.le_last hlast he).2 (Nat.le_add_right ..)
    · intro e he
      rw [List.mem_singleton.1 he]
      refine ⟨by simp, _, getElem?_concat_iff.2 (.inr ⟨rfl, rfl⟩), rfl, fun hstep => ?_⟩
      exact absurd hstep (Nat.lt_irrefl _)

/-- All fires of a step. -/
theorem Open.burst (h : Open interval step fired s begun queued) {l : JobLimiter TimedJob}
    (hl : s.limiter = some l) (jobs : List TimedJob) :
    ∃ begun' queued', Open interval step (fired ++ JobSchedule.burst step s.now l jobs)
      { s with limiter := some (jobs.foldl JobLimiter.fire l) } begun' queued' := by
  induction jobs generalizing fired s begun queued l with
  | nil =>
    refine ⟨begun, queued, ?_⟩
    rw [JobSchedule.burst, List.append_nil, List.foldl_nil, ← hl]
    exact h
  | cons job rest ih =>
    obtain ⟨l', hl', begun₁, queued₁, hfire⟩ := h.fire job
    obtain rfl : l' = l := Option.some.inj (hl'.symm.trans hl)
    have hrest := ih hfire rfl
    rw [List.append_assoc, List.singleton_append] at hrest
    exact hrest

/-- The clock comes to `target` at the end of a step. -/
theorem Open.elapse (h : Open interval step fired s begun queued) {target : Nat}
    (hle : s.now ≤ target) :
    ∃ begun' queued', Settled interval (step + 1) fired (s.elapse target) begun' queued' := by
  obtain ⟨begun', queued', hsame, hsub, hstanding, hlater⟩ := h.standing.elapse hle
  exact ⟨begun', queued', h.settled hsame hsub hstanding hlater⟩

/-- What a step keeps, for every step that does not drop the limiter. -/
theorem step_settled (h : Settled interval step fired s begun queued) {next : JobStep}
    (hkept : next ≠ .drop) :
    ∃ begun' queued', Settled interval (step + 1) (fired ++ s.firedBy step next) (s.step next)
      begun' queued' := by
  cases next with
  | fire jobs =>
    obtain ⟨l, hl, -⟩ := h.standing.fire 0 default
    obtain ⟨begun₁, queued₁, hopen⟩ := h.toOpen.burst hl jobs
    simp only [firedBy, JobSchedule.step, hl, Option.elim_some, Option.map_some]
    exact hopen.elapse (Nat.le_refl _)
  | settle =>
    obtain ⟨begun', queued', hsame, hsub, hstanding, -, -, hdone⟩ :=
      h.standing.elapseWithin none h.standing.remaining_le
    rw [firedBy, List.append_nil]
    refine ⟨begun', queued', h.toOpen.settled hsame hsub hstanding fun due hdue => ?_⟩
    obtain ⟨t, ht, -⟩ := hdone due hdue
    cases ht
  | drop => exact absurd rfl hkept
  | sleep ms =>
    rw [firedBy, List.append_nil]
    exact h.toOpen.elapse (Nat.le_add_right ..)

/-- What a schedule keeps that does not drop the limiter. -/
theorem run_settled (h : Settled interval step fired s begun queued) {steps : List JobStep}
    (hkept : .drop ∉ steps) :
    ∃ begun' queued', Settled interval (step + steps.length) (fired ++ firings step s steps)
      (s.run steps) begun' queued' := by
  induction steps generalizing step fired s begun queued with
  | nil =>
    rw [firings, List.append_nil]
    exact ⟨begun, queued, h⟩
  | cons next rest ih =>
    rw [List.mem_cons, not_or] at hkept
    obtain ⟨begun₁, queued₁, hstep⟩ := step_settled h (Ne.symm hkept.1)
    obtain ⟨begun₂, queued₂, hrest⟩ := ih hstep hkept.2
    refine ⟨begun₂, queued₂, ?_⟩
    rw [firings, List.length_cons, Nat.add_comm rest.length, ← Nat.add_assoc, ← List.append_assoc]
    exact hrest

-- ---------------------------------------------------------------------------
-- Settling
-- ---------------------------------------------------------------------------

theorem Standing.running_eq_false_iff (h : Standing interval s begun queued) :
    s.running = some false ↔ s.due = none := by
  cases h <;> simp [running, due, JobLimiter.isRunning]

/-- A pause that is long enough does all that lies ahead. -/
theorem Standing.elapseWithin_of_le (h : Standing interval s begun queued) {wakes target : Nat}
    (hwakes : s.remaining ≤ wakes) (hle : (s.elapseWithin none wakes).now ≤ target) :
    s.elapseWithin (some target) wakes = s.elapseWithin none wakes := by
  induction wakes generalizing s begun queued with
  | zero => rfl
  | succ wakes ih =>
    unfold JobSchedule.elapseWithin at hle ⊢
    cases hdue : s.due with
    | none => rfl
    | some due =>
      simp only [hdue, Option.all_none, if_true] at hle ⊢
      obtain ⟨begun', queued', -, -, hstanding, hnow, hless⟩ := h.wake hdue
      have hwakes' : (s.wake due).remaining ≤ wakes := by omega
      obtain ⟨_, _, -, -, -, hlater, -⟩ := hstanding.elapseWithin none hwakes'
      have hreached : due ≤ target := by omega
      rw [if_pos (by simpa using hreached)]
      exact ih hstanding hwakes' hle

/-- A pause after which nothing lies ahead has done all of it. -/
theorem elapseWithin_of_done {wakes target : Nat}
    (hdone : (s.elapseWithin (some target) wakes).due = none) :
    s.elapseWithin none wakes = s.elapseWithin (some target) wakes := by
  induction wakes generalizing s with
  | zero => rfl
  | succ wakes ih =>
    unfold elapseWithin at hdone ⊢
    cases hdue : s.due with
    | none => rfl
    | some due =>
      simp only [hdue, Option.all_none, if_true] at hdone ⊢
      by_cases hreached : (some target).all (due ≤ ·) = true
      · rw [if_pos hreached] at hdone ⊢
        exact ih hdone
      · rw [if_neg hreached, hdue] at hdone
        cases hdone

/-- To wait until the limiter is idle is to wait for the shortest pause after which it is. -/
theorem Settled.settle_eq_sleep (h : Settled interval step fired s begun queued) :
    ∃ ms, s.step .settle = s.step (.sleep ms) ∧
      ∀ pause, (s.step (.sleep pause)).running = some false ↔ ms ≤ pause := by
  have hleft := h.standing.remaining_le
  obtain ⟨_, _, -, -, -, hlater, -, hdone⟩ := h.standing.elapseWithin none hleft
  have hidle : (s.elapseWithin none s.wakesLeft).due = none := by
    cases hdue : (s.elapseWithin none s.wakesLeft).due with
    | none => rfl
    | some due =>
      obtain ⟨t, ht, -⟩ := hdone due hdue
      cases ht
  have hnow : s.now + ((s.elapseWithin none s.wakesLeft).now - s.now) =
      (s.elapseWithin none s.wakesLeft).now := by omega
  refine ⟨(s.elapseWithin none s.wakesLeft).now - s.now, ?_, fun pause => ?_⟩
  · simp only [JobSchedule.step, JobSchedule.elapse, hnow]
    rw [h.standing.elapseWithin_of_le hleft (Nat.le_refl _)]
  · have hrunning : (s.step (.sleep pause)).running =
        (s.elapseWithin (some (s.now + pause)) s.wakesLeft).running := rfl
    obtain ⟨_, _, -, -, hpaused, -, hwithin, -⟩ :=
      h.standing.elapseWithin (some (s.now + pause)) hleft
    rw [hrunning, hpaused.running_eq_false_iff]
    constructor
    · intro hover
      have := hwithin _ rfl (Nat.le_add_right ..)
      rw [← elapseWithin_of_done hover] at this
      omega
    · intro hlong
      rw [h.standing.elapseWithin_of_le hleft (by omega)]
      exact hidle

-- ---------------------------------------------------------------------------
-- The contract
-- ---------------------------------------------------------------------------

/-- What holds of a limiter that is still there, given the jobs it was fired with, one by one, and
the executions that have begun. -/
structure InTurn (interval : Nat) (fired : List Firing) (s : JobSchedule) (runs : List Execution) :
    Prop where
  /-- the log tells of these executions and no others, of each its start and, once the time has
  come, its end -/
  told : s.log = runs.flatMap (Execution.account s.now)
  known : ∀ e ∈ runs, ∃ f, fired[e.number]? = some f ∧ f.job = e.job
  /-- no job is executed twice, and none begins before the one before it has ended -/
  ordered : runs.Pairwise fun a b => a.number < b.number ∧ a.stop ≤ b.start
  /-- a job fired while the limiter is idle begins at once -/
  prompt : ∀ k f, fired[k]? = some f → f.busy = false → ⟨k, f.job, f.time⟩ ∈ runs
  /-- a job fired while it is running begins an interval after the job before it has ended, and
  only then, if the clock gets there and no other job is fired until then -/
  spaced : ∀ k f, fired[k]? = some f → f.busy = true →
    ∃ prev ∈ runs, prev.number < k ∧ (∀ e ∈ runs, e.number < k → e.number ≤ prev.number) ∧
      f.time ≤ prev.stop + interval ∧
      ∀ start, ⟨k, f.job, start⟩ ∈ runs ↔
        start = prev.stop + interval ∧ start ≤ s.now ∧ Unreplaced fired k f.step start
  /-- it is idle exactly when all executions have ended and the job fired last is among them -/
  running : ∃ running, s.running = some running ∧
    (running = false ↔ (∀ e ∈ runs, e.stop ≤ s.now) ∧
      ∀ k, k + 1 = fired.length → ∃ e ∈ runs, e.number = k)
  /-- to wait for it to settle is to wait for the first moment at which it is idle -/
  settles : ∃ ms, s.step .settle = s.step (.sleep ms) ∧
    ∀ pause, (s.step (.sleep pause)).running = some false ↔ ms ≤ pause
  clock : (∀ ms, (s.step (.sleep ms)).now = s.now + ms) ∧
    ∀ jobs, (s.step (.fire jobs)).now = s.now

/-- Nothing waits exactly when the job fired last has begun. -/
theorem Settled.queued_eq_nil_iff (h : Settled interval step fired s begun queued) :
    queued = [] ↔ ∀ k, k + 1 = fired.length → ∃ e ∈ begun, e.number = k := by
  constructor
  · rintro rfl k hk
    obtain ⟨e, he, hnumber⟩ := h.plan.newest k hk
    rw [List.append_nil] at he
    exact ⟨e, he, hnumber⟩
  · intro hbegun
    refine List.eq_nil_iff_forall_not_mem.2 fun e he => ?_
    obtain ⟨e', he', hnumber⟩ := hbegun e.number (h.waits e he).1
    have := ((List.pairwise_append.1 h.plan.ordered).2.2 e' he' e he).1
    omega

theorem Settled.inTurn (h : Settled interval step fired s begun queued) :
    InTurn interval fired s begun := by
  obtain ⟨hstarted, hwaiting⟩ := h.standing.starts h.later
  refine ⟨h.standing.log_eq h.later, fun e he => h.plan.known e (List.mem_append_left _ he),
    (List.pairwise_append.1 h.plan.ordered).1, ?_, ?_, ?_, h.settle_eq_sleep, fun _ => rfl,
    fun _ => rfl⟩
  · intro k f hf hidle
    refine (List.mem_append.1 (h.plan.prompt k f hf hidle)).resolve_right fun hwaits => ?_
    exact absurd ((h.waits _ hwaits).of_fired hf).1 (Bool.eq_false_iff.1 hidle)
  · intro k f hf hbusy
    obtain ⟨prev, hprev, hbefore, hnext, hsoon, hstarts⟩ := h.plan.spaced k f hf hbusy
    have hk := lt_length_of_fired hf
    refine ⟨prev, Plan.mem_begun h.waits hprev (by omega), hbefore,
      fun e he => hnext e (List.mem_append_left _ he), hsoon, fun start => ?_⟩
    constructor
    · intro he
      obtain ⟨hstart, hfree⟩ := (hstarts start).1 (List.mem_append_left _ he)
      exact ⟨hstart, hstarted _ he, hfree⟩
    · rintro ⟨hstart, hreached, hfree⟩
      refine (List.mem_append.1 ((hstarts start).2 ⟨hstart, hfree⟩)).resolve_right fun hwaits => ?_
      exact absurd hreached (Nat.not_le.2 (hwaiting _ hwaits))
  · obtain ⟨running, hrunning, hidle⟩ := h.standing.running_eq h.later
    exact ⟨running, hrunning, by rw [hidle, h.queued_eq_nil_iff]⟩

/-- The contract of a job limiter, for every interval and every schedule after which it is still
there. -/
theorem jobs_take_turns (interval : Nat) {steps : List JobStep} (hkept : .drop ∉ steps) :
    ∃ runs,
      InTurn interval (firings 0 (begin interval) steps) ((begin interval).run steps) runs := by
  obtain ⟨begun, queued, hsettled⟩ := run_settled (begin_settled interval) hkept
  rw [List.nil_append] at hsettled
  exact ⟨begun, hsettled.inTurn⟩

/-- Three jobs without a pause, one more while the delay after the first elapses, and a pause. -/
def replacedTwice : List JobStep :=
  [.fire [⟨"first", 50⟩, ⟨"second", 5⟩, ⟨"third", 5⟩], .sleep 55, .fire [⟨"fourth", 5⟩], .sleep 25]

/-- Only the first job and the last are executed. -/
theorem replacedTwice_in_turn :
    .drop ∉ replacedTwice ∧
    (firings 0 (begin 10) replacedTwice).map (fun f => (f.step, f.time, f.busy)) =
      [(0, 0, false), (0, 0, true), (0, 0, true), (2, 55, true)] ∧
    ((begin 10).run replacedTwice).log =
      [.started "first" 0, .ended "first" 50, .started "fourth" 60, .ended "fourth" 65] ∧
    ∃ runs, InTurn 10 (firings 0 (begin 10) replacedTwice) ((begin 10).run replacedTwice) runs := by
  have hkept : .drop ∉ replacedTwice := by decide
  exact ⟨hkept, by decide, by decide, jobs_take_turns 10 hkept⟩

end JobSchedule

end VerifierClient

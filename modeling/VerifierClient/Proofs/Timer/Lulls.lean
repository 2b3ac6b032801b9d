import VerifierClient.Timer.Debounce

/-!
# The runs of a debouncer

A fire starts the timer, and whatever comes next decides whether it leads to a run: the timer is
stopped by a further fire of the same burst, or by a step that fires, cancels or drops before the
clock has come to the due time. So the runs can be read off the schedule alone. For a timer that
is under way the same holds of the steps that are still to come, which gives the runs that lie
ahead; a step lets the first of them take place or takes it off the list.

* `Fire`, `fires` — the fires of a schedule, each with what follows it;
* `Fire.Holds` — nothing stops the timer before it is due;
* `ahead`, `step_onward`, `run_ahead` — the runs that lie ahead, and what becomes of them;
* `runs_after_lulls` — the contract of the debouncer.
-/

namespace VerifierClient

namespace DebounceStep

/-- How long the step takes. -/
def length : DebounceStep → Nat
  | .sleep ms => ms
  | _ => 0

/-- Whether the step stops a timer that is under way. -/
def stops : DebounceStep → Bool
  | .fire times => times != 0
  | .cancel => true
  | .drop => true
  | .sleep _ => false

end DebounceStep

namespace DebounceSchedule

-- ---------------------------------------------------------------------------
-- Fires and what follows them
-- ---------------------------------------------------------------------------

/-- How long a schedule takes. -/
def duration : List DebounceStep → Nat
  | [] => 0
  | step :: rest => step.length + duration rest

/-- No step stops the timer before `left` more milliseconds have passed. -/
def lull : Nat → List DebounceStep → Bool
  | _, [] => true
  | left, step :: rest => (left == 0 || !step.stops) && lull (left - step.length) rest

theorem lull_zero (steps : List DebounceStep) : lull 0 steps = true := by
  induction steps with
  | nil => rfl
  | cons step rest ih => simp [lull, ih]

theorem lull_iff {left : Nat} {steps : List DebounceStep} :
    lull left steps = true ↔ ∀ before step after, steps = before ++ step :: after →
      step.stops = true → left ≤ duration before := by
  induction steps generalizing left with
  | nil => simp [lull]
  | cons first rest ih =>
    rw [lull, Bool.and_eq_true, ih]
    constructor
    · rintro ⟨hfirst, hrest⟩ before step after hsteps hstops
      cases before with
      | nil =>
        obtain ⟨rfl, -⟩ := List.cons.inj hsteps
        have hleft : left = 0 := by simpa [hstops] using hfirst
        exact Nat.le_of_eq hleft
      | cons head before =>
        obtain ⟨rfl, hrest'⟩ := List.cons.inj hsteps
        have := hrest before step after hrest' hstops
        rw [duration]
        omega
    · intro h
      refine ⟨?_, fun before step after hrest hstops => ?_⟩
      · cases hstops : first.stops with
        | false => simp
        | true => simpa [duration] using h [] first rest rfl hstops
      · have := h (first :: before) step after (by rw [hrest, List.cons_append]) hstops
        rw [duration] at this
        omega

/-- A fire of a schedule. -/
structure Fire where
  time : Nat
  /-- how many fires follow without a pause -/
  more : Nat
  /-- the steps after that -/
  rest : List DebounceStep

/-- Nothing stops the timer that the fire starts until `delay` has passed: neither another fire
without a pause, nor a later step. -/
def Fire.Holds (delay : Nat) (f : Fire) : Prop :=
  f.more = 0 ∧ ∀ before step after, f.rest = before ++ step :: after → step.stops = true →
    delay ≤ duration before

instance (delay : Nat) (f : Fire) : Decidable (f.Holds delay) :=
  decidable_of_iff (f.more = 0 ∧ lull delay f.rest = true) (and_congr_right fun _ => lull_iff)

/-- So many fires at the time `now`, followed by the steps `rest`. -/
def burst (now : Nat) (rest : List DebounceStep) : Nat → List Fire
  | 0 => []
  | more + 1 => ⟨now, more, rest⟩ :: burst now rest more

/-- The fires of a schedule that begins at the time `now`. There are none once the timer was
dropped. -/
def fires (now : Nat) : List DebounceStep → List Fire
  | [] => []
  | .drop :: _ => []
  | .fire times :: rest => burst now rest times ++ fires now rest
  | .cancel :: rest => fires now rest
  | .sleep ms :: rest => fires (now + ms) rest

/-- The times of the runs to which the given fires lead. -/
def dueTimes (delay : Nat) (fires : List Fire) : List Nat :=
  (fires.filter (·.Holds delay)).map (·.time + delay)

theorem dueTimes_append (delay : Nat) (earlier later : List Fire) :
    dueTimes delay (earlier ++ later) = dueTimes delay earlier ++ dueTimes delay later := by
  simp [dueTimes]

/-- Of a burst, only the last fire can lead to a run. -/
theorem dueTimes_burst (delay now : Nat) (rest : List DebounceStep) (more : Nat) :
    dueTimes delay (burst now rest (more + 1)) =
      if lull delay rest = true then [now + delay] else [] := by
  induction more with
  | zero =>
    by_cases hlull : lull delay rest = true
    · have hholds : Fire.Holds delay ⟨now, 0, rest⟩ := ⟨rfl, lull_iff.1 hlull⟩
      simp [dueTimes, burst, hholds, hlull]
    · have hstopped : ¬ Fire.Holds delay ⟨now, 0, rest⟩ := fun h => hlull (lull_iff.2 h.2)
      simp [dueTimes, burst, hstopped, hlull]
  | succ more ih =>
    have hstopped : ¬ Fire.Holds delay ⟨now, more + 1, rest⟩ := fun h => Nat.succ_ne_zero _ h.1
    rw [burst, ← ih, dueTimes, List.filter_cons_of_neg (by simpa using hstopped), dueTimes]

-- ---------------------------------------------------------------------------
-- The runs that lie ahead
-- ---------------------------------------------------------------------------

variable {delay : Nat} {s : DebounceSchedule}

/-- Whatever was due has taken place. -/
def Settled (delay : Nat) (s : DebounceSchedule) : Prop :=
  ∀ timer, s.timer = some timer → timer.delay = delay ∧ ∀ due, timer.due = some due → s.now < due

/-- The run for which the timer was started, unless one of the steps stops it. -/
def underWay (now : Nat) (due : Option Nat) (steps : List DebounceStep) : List Nat :=
  match due with
  | some due => if lull (due - now) steps = true then [due] else []
  | none => []

/-- The times of the runs that lie ahead, under the given steps and any pause after them. -/
def ahead (delay : Nat) (s : DebounceSchedule) (steps : List DebounceStep) : List Nat :=
  match s.timer with
  | none => []
  | some timer => underWay s.now timer.due steps ++ dueTimes delay (fires s.now steps)

/-- A step that stops the timer takes its run off the list. -/
theorem underWay_of_stops {now : Nat} {due : Option Nat} {step : DebounceStep}
    (hahead : ∀ time, due = some time → now < time) (hstops : step.stops = true)
    (rest : List DebounceStep) : underWay now due (step :: rest) = [] := by
  cases due with
  | none => rfl
  | some time =>
    have hleft : time - now ≠ 0 := by
      have := hahead time rfl
      omega
    simp [underWay, lull, hstops, hleft]

theorem underWay_sleep (now ms : Nat) (due : Option Nat) (rest : List DebounceStep) :
    underWay now due (.sleep ms :: rest) = underWay (now + ms) due rest := by
  cases due with
  | none => rfl
  | some time => simp [underWay, lull, DebounceStep.stops, DebounceStep.length, Nat.sub_sub]

theorem fireTimes_succ (timer : Debouncer) (now more : Nat) :
    fireTimes timer now (more + 1) = { timer with due := some (now + timer.delay) } := by
  induction more generalizing timer with
  | zero => rfl
  | succ more ih =>
    rw [fireTimes, ih]
    rfl

/-- A burst puts the run of its last fire in the place of the one that was under way. -/
theorem underWay_fire {timer : Debouncer} {now : Nat}
    (hahead : ∀ time, timer.due = some time → now < time) (times : Nat)
    (rest : List DebounceStep) :
    underWay now timer.due (.fire times :: rest) ++ dueTimes timer.delay (burst now rest times) =
      underWay now (fireTimes timer now times).due rest := by
  cases times with
  | zero =>
    cases hdue : timer.due <;>
      simp [fireTimes, hdue, underWay, lull, burst, dueTimes, DebounceStep.stops,
        DebounceStep.length]
  | succ more =>
    rw [underWay_of_stops hahead rfl, List.nil_append, dueTimes_burst, fireTimes_succ, underWay,
      Nat.add_sub_cancel_left]

theorem fireTimes_delay (timer : Debouncer) (now times : Nat) :
    (fireTimes timer now times).delay = timer.delay := by
  cases times with
  | zero => rfl
  | succ more => rw [fireTimes_succ]

/-- The clock comes to `target`: the run that is under way takes place if it is due by then. -/
theorem elapse_underWay {timer : Debouncer} (htimer : s.timer = some timer) (target : Nat)
    (rest : List DebounceStep) :
    ∃ took due, s.elapse target = ⟨target, some { timer with due }, s.runs ++ took⟩ ∧
      (∀ time ∈ took, time ≤ target) ∧ (∀ time, due = some time → target < time) ∧
      underWay target timer.due rest = took ++ underWay target due rest := by
  obtain ⟨delay, due⟩ := timer
  cases due with
  | none => exact ⟨[], none, by simp [elapse, htimer, Debouncer.elapse], by simp, by simp, rfl⟩
  | some time =>
    by_cases hreached : time ≤ target
    · refine ⟨[time], none, ?_, by simpa using hreached, by simp, ?_⟩
      · simp [elapse, htimer, Debouncer.elapse, hreached, Debouncer.cancel]
      · simp [underWay, Nat.sub_eq_zero_of_le hreached, lull_zero]
    · refine ⟨[], some time, ?_, by simp, by simpa using hreached, rfl⟩
      simp [elapse, htimer, Debouncer.elapse, hreached]

/-- `s'` comes after `s` in a schedule that goes on with `rest`: of the runs that lay ahead, which
were `before`, some have taken place. -/
structure Onward (delay : Nat) (s s' : DebounceSchedule) (before : List Nat)
    (rest : List DebounceStep) : Prop where
  took : ∃ took, s'.runs = s.runs ++ took ∧ before = took ++ ahead delay s' rest ∧
    ∀ time ∈ took, time ≤ s'.now
  settled : s'.Settled delay

theorem elapse_onward {timer : Debouncer} (htimer : s.timer = some timer)
    (hdelay : timer.delay = delay) (target : Nat) (rest : List DebounceStep) :
    Onward delay s (s.elapse target)
      (underWay target timer.due rest ++ dueTimes delay (fires target rest)) rest := by
  obtain ⟨took, due, helapse, hpast, hahead, hruns⟩ := elapse_underWay htimer target rest
  rw [helapse, hruns, List.append_assoc]
  refine ⟨⟨took, rfl, rfl, hpast⟩, ?_⟩
  intro timer' htimer'
  cases htimer'
  exact ⟨hdelay, hahead⟩

/-- What a step does. -/
theorem step_onward (hs : s.Settled delay) (step : DebounceStep) (rest : List DebounceStep) :
    Onward delay s (s.step step) (ahead delay s (step :: rest)) rest ∧
      (s.step step).now = s.now + step.length := by
  cases htimer : s.timer with
  | none =>
    refine ⟨⟨⟨[], ?_⟩, ?_⟩, ?_⟩ <;>
      cases step <;>
        simp [DebounceSchedule.step, elapse, ahead, htimer, DebounceStep.length, Settled]
  | some timer =>
    obtain ⟨rfl, hdue⟩ := hs timer htimer
    simp only [ahead, htimer]
    cases step with
    | fire times =>
      have htimers :
          s.timer.map (fireTimes · s.now times) = some (fireTimes timer s.now times) := by
        rw [htimer, Option.map_some]
      rw [fires, dueTimes_append, ← List.append_assoc, underWay_fire hdue]
      have h := elapse_onward (s := { s with timer := s.timer.map (fireTimes · s.now times) })
        htimers (fireTimes_delay timer s.now times) s.now rest
      refine ⟨⟨h.took, h.settled⟩, ?_⟩
      simp [DebounceSchedule.step, elapse, htimer, DebounceStep.length]
    | cancel =>
      rw [underWay_of_stops hdue rfl, fires]
      refine ⟨⟨⟨[], ?_⟩, ?_⟩, rfl⟩
      · simp [DebounceSchedule.step, ahead, htimer, Debouncer.cancel, underWay]
      · simp [DebounceSchedule.step, Settled, htimer, Debouncer.cancel]
    | drop =>
      rw [underWay_of_stops hdue rfl, fires]
      refine ⟨⟨⟨[], ?_⟩, ?_⟩, rfl⟩
      · simp [DebounceSchedule.step, ahead, dueTimes]
      · simp [DebounceSchedule.step, Settled]
    | sleep ms =>
      rw [underWay_sleep, fires]
      refine ⟨elapse_onward htimer rfl (s.now + ms) rest, ?_⟩
      simp [DebounceSchedule.step, elapse, htimer, DebounceStep.length]

/-- At the end of a schedule a run lies ahead exactly while the timer is pending. -/
theorem pending_iff_ahead (hs : s.Settled delay) :
    (ahead delay s []).filter (· ≤ s.now) = [] ∧
      (s.pending = some true ↔ ∃ due ∈ ahead delay s [], s.now < due) := by
  cases htimer : s.timer with
  | none => simp [ahead, pending, htimer]
  | some timer =>
    obtain ⟨-, hdue⟩ := hs timer htimer
    cases htime : timer.due with
    | none =>
      simp [ahead, pending, htimer, htime, underWay, fires, dueTimes, Debouncer.isPending]
    | some time =>
      have hnow := hdue time htime
      simp [ahead, pending, htimer, htime, underWay, lull, fires, dueTimes, Debouncer.isPending,
        hnow]

/-- A schedule lets those runs take place that lie ahead and come to be due. -/
theorem run_ahead (hs : s.Settled delay) (steps : List DebounceStep) :
    (s.run steps).now = s.now + duration steps ∧
      (s.run steps).runs =
        s.runs ++ (ahead delay s steps).filter (· ≤ s.now + duration steps) ∧
      ((s.run steps).pending = some true ↔
        ∃ due ∈ ahead delay s steps, s.now + duration steps < due) := by
  induction steps generalizing s with
  | nil =>
    obtain ⟨hnone, hpending⟩ := pending_iff_ahead hs
    refine ⟨rfl, ?_, hpending⟩
    rw [duration, Nat.add_zero, hnone, List.append_nil]
    rfl
  | cons step rest ih =>
    obtain ⟨⟨⟨took, hruns, hahead, hpast⟩, hsettled⟩, hnow⟩ := step_onward hs step rest
    obtain ⟨hend, hrest, hpending⟩ := ih hsettled
    have htime : s.now + duration (step :: rest) = (s.step step).now + duration rest := by
      rw [duration, hnow, Nat.add_assoc]
    have hover : ∀ time ∈ took, time ≤ (s.step step).now + duration rest := fun time h =>
      Nat.le_trans (hpast time h) (Nat.le_add_right ..)
    rw [htime, hahead]
    refine ⟨hend, ?_, hpending.trans ?_⟩
    · have htook : took.filter (· ≤ (s.step step).now + duration rest) = took := by
        simpa using hover
      rw [List.filter_append, htook, ← List.append_assoc, ← hruns]
      exact hrest
    · simp only [List.mem_append, or_and_right, exists_or]
      refine ⟨.inr, fun h => h.resolve_left ?_⟩
      rintro ⟨time, htime, hlater⟩
      exact absurd (hover time htime) (Nat.not_le.2 hlater)

/-- The contract of a debouncer, for every delay and every schedule. Its handler runs `delay` after
each fire that nothing stops, in the order of the fires and as far as the clock has come, and not
otherwise. It is pending exactly while such a run is still due. -/
theorem runs_after_lulls (delay : Nat) (steps : List DebounceStep) :
    ((start delay).run steps).now = duration steps ∧
    ((start delay).run steps).runs =
      (dueTimes delay (fires 0 steps)).filter (· ≤ duration steps) ∧
    (((start delay).run steps).pending = some true ↔
      ∃ due ∈ dueTimes delay (fires 0 steps), duration steps < due) := by
  have hsettled : (start delay).Settled delay := by
    intro timer htimer
    cases htimer
    exact ⟨rfl, fun _ h => by cases h⟩
  have hrun := run_ahead hsettled steps
  have hahead : ahead delay (start delay) steps = dueTimes delay (fires 0 steps) :=
    List.nil_append _
  have hnow : (start delay).now + duration steps = duration steps := Nat.zero_add _
  rw [hahead, hnow] at hrun
  exact hrun

-- a fire that is followed too soon, a burst that is cancelled when it has run, a fire still due
example :
    dueTimes 10 (fires 0 [.fire 1, .sleep 6, .fire 3, .sleep 10, .cancel, .fire 1, .sleep 9]) =
      [16, 26] := by decide

end DebounceSchedule

end VerifierClient

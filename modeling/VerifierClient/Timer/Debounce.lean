/-!
# Debouncing

A debouncer runs its handler once, `delay` milliseconds after the last fire.
Time is a number that only moves when a schedule says so.

* `Debouncer` — the timer alone;
* `DebounceSchedule` — a timer under a list of steps on a clock, with the times
  at which its handler ran.
-/

namespace VerifierClient

/-- A timer that is started again by every fire. -/
structure Debouncer where
  delay : Nat
  /-- when the handler is to run -/
  due : Option Nat := none
deriving DecidableEq, Repr, Inhabited

namespace Debouncer

/-- Starts the timer again. -/
def fire (d : Debouncer) (now : Nat) : Debouncer := { d with due := some (now + d.delay) }

def cancel (d : Debouncer) : Debouncer := { d with due := none }

def isPending (d : Debouncer) : Bool := d.due.isSome

/-- The run that is due by the time `now`, if any, and the timer after it. -/
def elapse (d : Debouncer) (now : Nat) : Option Nat × Debouncer :=
  match d.due with
  | some t => if t ≤ now then (some t, d.cancel) else (none, d)
  | none => (none, d)

end Debouncer

-- ---------------------------------------------------------------------------
-- Schedules
-- ---------------------------------------------------------------------------

inductive DebounceStep where
  /-- so many fires without a pause -/
  | fire (times : Nat)
  | cancel
  /-- gives the timer up for good -/
  | drop
  | sleep (ms : Nat)
deriving DecidableEq, Repr

/-- A timer under a schedule; there is none once it was dropped. -/
structure DebounceSchedule where
  now : Nat := 0
  timer : Option Debouncer
  /-- the times at which the handler ran -/
  runs : List Nat := []
deriving DecidableEq, Repr

namespace DebounceSchedule

def start (delay : Nat) : DebounceSchedule := { timer := some { delay } }

/-- Moves the clock to `target` and runs what is due on the way. -/
def elapse (s : DebounceSchedule) (target : Nat) : DebounceSchedule :=
  match s.timer with
  | none => { s with now := target }
  | some timer =>
    let (run, timer) := timer.elapse target
    { now := target, timer := some timer, runs := s.runs ++ run.toList }

/-- The timer after `times` fires at the time `now`. -/
def fireTimes (timer : Debouncer) (now : Nat) : Nat → Debouncer
  | 0 => timer
  | times + 1 => fireTimes (timer.fire now) now times

def step (s : DebounceSchedule) : DebounceStep → DebounceSchedule
  | .fire times =>
    ({ s with timer := s.timer.map fun timer => fireTimes timer s.now times }).elapse s.now
  | .cancel => { s with timer := s.timer.map Debouncer.cancel }
  | .drop => { s with timer := none }
  | .sleep ms => s.elapse (s.now + ms)

/-- Whether a run is due; unknown once the timer was dropped. -/
def pending (s : DebounceSchedule) : Option Bool := s.timer.map Debouncer.isPending

def run (s : DebounceSchedule) (steps : List DebounceStep) : DebounceSchedule := steps.foldl step s

end DebounceSchedule

end VerifierClient

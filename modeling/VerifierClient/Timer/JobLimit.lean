/-!
# Running jobs one at a time

A job limiter runs one job at a time, `interval` milliseconds apart. A job that
is fired while the limiter is busy waits in a single slot, where it replaces the
one that waited before. When a job ends and none waits, the limiter is idle at
once; otherwise the waiting job starts `interval` later.

* `JobLimiter` — the limiter alone, for jobs of any kind;
* `JobSchedule` — a limiter under a list of steps on a clock, for jobs that work
  for a fixed time, with a log of their starts and ends.
-/

namespace VerifierClient

inductive JobPhase (α : Type) where
  | idle
  /-- a job is to start as soon as the action that fired it is over -/
  | starting (job : α)
  | working (job : α)
  /-- the time between two jobs, up to the time `due` -/
  | spacing (due : Nat)
deriving DecidableEq, Repr, Inhabited

structure JobLimiter (α : Type) where
  interval : Nat
  phase : JobPhase α := .idle
  /-- the job that starts next -/
  waiting : Option α := none
deriving DecidableEq, Repr, Inhabited

namespace JobLimiter

variable {α : Type}

def fire (l : JobLimiter α) (job : α) : JobLimiter α :=
  match l.phase with
  | .idle => { l with phase := .starting job }
  | _ => { l with waiting := some job }

def isRunning (l : JobLimiter α) : Bool :=
  match l.phase with
  | .idle => false
  | _ => true

/-- Starts the job that is about to start. -/
def start (l : JobLimiter α) : Option α × JobLimiter α :=
  match l.phase with
  | .starting job => (some job, { l with phase := .working job })
  | _ => (none, l)

/-- The job at work ends at the time `now`. -/
def finish (l : JobLimiter α) (now : Nat) : JobLimiter α :=
  match l.phase, l.waiting with
  | .working _, none => { l with phase := .idle }
  | .working _, some _ => { l with phase := .spacing (now + l.interval) }
  | _, _ => l

/-- The time between two jobs is over. -/
def resume (l : JobLimiter α) : JobLimiter α :=
  match l.phase, l.waiting with
  | .spacing _, some job => { l with phase := .starting job, waiting := none }
  | .spacing _, none => { l with phase := .idle }
  | _, _ => l

end JobLimiter

-- ---------------------------------------------------------------------------
-- Schedules
-- ---------------------------------------------------------------------------

/-- A job that works for `duration` milliseconds. -/
structure TimedJob where
  name : String
  duration : Nat
deriving DecidableEq, Repr, Inhabited

inductive JobEvent where
  | started (name : String) (time : Nat)
  | ended (name : String) (time : Nat)
deriving DecidableEq, Repr

inductive JobStep where
  /-- jobs fired in order without a pause -/
  | fire (jobs : List TimedJob)
  /-- waits until the limiter is idle -/
  | settle
  /-- gives the limiter up for good -/
  | drop
  | sleep (ms : Nat)
deriving DecidableEq, Repr

/-- A limiter under a schedule; there is none once it was dropped. -/
structure JobSchedule where
  now : Nat := 0
  limiter : Option (JobLimiter TimedJob)
  /-- when the job at work ends -/
  ends : Nat := 0
  log : List JobEvent := []
deriving DecidableEq, Repr

namespace JobSchedule

def begin (interval : Nat) : JobSchedule := { limiter := some { interval } }

/-- When the limiter has something to do next. -/
def due (s : JobSchedule) : Option Nat :=
  match s.limiter with
  | none => none
  | some l =>
    match l.phase with
    | .idle => none
    | .starting _ => some s.now
    | .working _ => some s.ends
    | .spacing due => some due

/-- Does what is due at the time `t`. -/
def wake (s : JobSchedule) (t : Nat) : JobSchedule :=
  match s.limiter with
  | none => s
  | some l =>
    match l.phase with
    | .idle => s
    | .starting job =>
      { now := t
        limiter := some l.start.2
        ends := t + job.duration
        log := s.log ++ [.started job.name t] }
    | .working job =>
      { s with now := t, limiter := some (l.finish t), log := s.log ++ [.ended job.name t] }
    | .spacing _ => { s with now := t, limiter := some l.resume }

/-- No more than this many wakes lie ahead of a limiter that is not fired again. -/
def wakesLeft (s : JobSchedule) : Nat :=
  match s.limiter with
  | none => 0
  | some l =>
    let waiting := if l.waiting.isSome then 3 else 0
    match l.phase with
    | .idle => 0
    | .starting _ => 2 + waiting
    | .working _ => 1 + waiting
    | .spacing _ => 1 + waiting

/-- Does everything that is due by the time `target`, or, without one, everything
that lies ahead. -/
def elapseWithin (s : JobSchedule) (target : Option Nat) : Nat → JobSchedule
  | 0 => s
  | wakes + 1 =>
    match s.due with
    | none => s
    | some t =>
      if target.all (t ≤ ·) then (s.wake t).elapseWithin target wakes else s

/-- Moves the clock to `target` and does what is due on the way. -/
def elapse (s : JobSchedule) (target : Nat) : JobSchedule :=
  { s.elapseWithin (some target) s.wakesLeft with now := target }

def step (s : JobSchedule) : JobStep → JobSchedule
  | .fire jobs =>
    ({ s with limiter := s.limiter.map fun l => jobs.foldl JobLimiter.fire l }).elapse s.now
  | .settle => s.elapseWithin none s.wakesLeft
  | .drop => { s with limiter := none }
  | .sleep ms => s.elapse (s.now + ms)

/-- Whether the limiter is busy; unknown once it was dropped. -/
def running (s : JobSchedule) : Option Bool := s.limiter.map JobLimiter.isRunning

def run (s : JobSchedule) (steps : List JobStep) : JobSchedule := steps.foldl step s

end JobSchedule

end VerifierClient

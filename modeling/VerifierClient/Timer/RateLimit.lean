/-!
# Rate limiting

A rate limiter runs its handler at most once in `interval` milliseconds. A fire
while it is idle runs the handler at once and opens a cooldown; the fires during
a cooldown come together in one run at its end, which opens the next one. A run
takes place after the action that asked for it, so of several fires without a
pause the first asks for a run and the others are missed.

* `RateLimiter` — the limiter alone;
* `RateSchedule` — a limiter under a list of steps on a clock. Fires are counted,
  and every run records its time and the count it saw.
-/

namespace VerifierClient

inductive RatePhase where
  | idle
  /-- a run was asked for at the time `since` and has not taken place yet -/
  | queued (since : Nat)
  /-- the cooldown that ends at the time `due` -/
  | cooling (due : Nat)
deriving DecidableEq, Repr, Inhabited

structure RateLimiter where
  interval : Nat
  phase : RatePhase := .idle
  /-- whether there was a fire since the last run -/
  missed : Bool := false
deriving DecidableEq, Repr, Inhabited

namespace RateLimiter

def fire (l : RateLimiter) (now : Nat) : RateLimiter :=
  match l.phase with
  | .idle => { l with phase := .queued now }
  | _ => { l with missed := true }

def isCooling (l : RateLimiter) : Bool := l.phase != .idle

/-- When the limiter has something to do next. -/
def due (l : RateLimiter) : Option Nat :=
  match l.phase with
  | .idle => none
  | .queued since => some since
  | .cooling due => some due

/-- Does it: gives the time of a run, if there is one, and the limiter after it. -/
def wake (l : RateLimiter) : Option Nat × RateLimiter :=
  match l.phase with
  | .idle => (none, l)
  | .queued since => (some since, { l with phase := .cooling (since + l.interval) })
  | .cooling due =>
    if l.missed then (some due, { l with phase := .cooling (due + l.interval), missed := false })
    else (none, { l with phase := .idle })

/-- No more than this many wakes lie ahead of a limiter that is not fired again. -/
def wakesLeft (l : RateLimiter) : Nat :=
  let missed := if l.missed then 1 else 0
  match l.phase with
  | .idle => 0
  | .queued _ => 2 + missed
  | .cooling _ => 1 + missed

/-- The runs that are due by the time `now`, and the limiter after them. -/
def elapseWithin (l : RateLimiter) (now : Nat) : Nat → List Nat × RateLimiter
  | 0 => ([], l)
  | wakes + 1 =>
    match l.due with
    | none => ([], l)
    | some t =>
      if t ≤ now then
        let (run, l) := l.wake
        let (runs, l) := l.elapseWithin now wakes
        (run.toList ++ runs, l)
      else ([], l)

def elapse (l : RateLimiter) (now : Nat) : List Nat × RateLimiter := l.elapseWithin now l.wakesLeft

end RateLimiter

-- ---------------------------------------------------------------------------
-- Schedules
-- ---------------------------------------------------------------------------

inductive RateStep where
  /-- so many fires without a pause -/
  | fire (times : Nat)
  /-- gives the limiter up for good -/
  | drop
  | sleep (ms : Nat)
deriving DecidableEq, Repr

/-- A limiter under a schedule; there is none once it was dropped. -/
structure RateSchedule where
  now : Nat := 0
  limiter : Option RateLimiter
  /-- how often the limiter was fired -/
  fired : Nat := 0
  /-- the runs: time, and number of fires seen -/
  runs : List (Nat × Nat) := []
deriving DecidableEq, Repr

namespace RateSchedule

def start (interval : Nat) : RateSchedule := { limiter := some { interval } }

/-- Moves the clock to `target` and runs what is due on the way. -/
def elapse (s : RateSchedule) (target : Nat) : RateSchedule :=
  match s.limiter with
  | none => { s with now := target }
  | some limiter =>
    let (runs, limiter) := limiter.elapse target
    { s with
      now := target
      limiter := some limiter
      runs := s.runs ++ runs.map fun t => (t, s.fired) }

/-- The limiter after `times` fires at the time `now`. -/
def fireTimes (limiter : RateLimiter) (now : Nat) : Nat → RateLimiter
  | 0 => limiter
  | times + 1 => fireTimes (limiter.fire now) now times

def step (s : RateSchedule) : RateStep → RateSchedule
  | .fire times =>
    match s.limiter with
    | none => s
    | some limiter =>
      ({ s with limiter := some (fireTimes limiter s.now times), fired := s.fired + times }).elapse
        s.now
  | .drop => { s with limiter := none }
  | .sleep ms => s.elapse (s.now + ms)

/-- Whether a cooldown is open; unknown once the limiter was dropped. -/
def cooling (s : RateSchedule) : Option Bool := s.limiter.map RateLimiter.isCooling

def run (s : RateSchedule) (steps : List RateStep) : RateSchedule := steps.foldl step s

end RateSchedule

end VerifierClient

import VerifierClient.Timer.RateLimit

/-!
# The pace of a rate limiter

At any time the runs that lie ahead of a limiter are known, provided that it is not fired again:
they are pledged. A wake turns the first pledged run into one that has taken place, or ends a
cooldown, and so the runs that took place followed by the pledged ones stay the same list. A fire
adds at most one run to the end of that list. What holds of this list at every fire therefore holds
of the runs under every schedule.

* `RateLimiter.pledged`, `wake_pledged` — the runs that lie ahead;
* `Paced`, with `Paced.fire`, `Paced.wake`, `Paced.wait` — what every move keeps;
* `Paced.elapseWithin` — what a stretch of time keeps;
* `RateSchedule.step_fire`, `RateSchedule.step_sleep`, `RateSchedule.run_settled` — what every step
  and every schedule keeps;
* `RateSchedule.handler_is_paced` — the contract of the limiter.
-/

namespace VerifierClient

-- ---------------------------------------------------------------------------
-- Pledged runs
-- ---------------------------------------------------------------------------

namespace RateLimiter

variable {l : RateLimiter}

/-- The times of the runs that lie ahead of a limiter that is not fired again. -/
def pledged (l : RateLimiter) : List Nat :=
  match l.phase with
  | .idle => []
  | .queued since => since :: if l.missed then [since + l.interval] else []
  | .cooling due => if l.missed then [due] else []

/-- A wake brings the first pledged run or none. -/
theorem wake_pledged (l : RateLimiter) : l.wake.1.toList ++ l.wake.2.pledged = l.pledged := by
  cases hphase : l.phase with
  | idle => simp [wake, pledged, hphase]
  | queued since => simp [wake, pledged, hphase]
  | cooling due => cases hmissed : l.missed <;> simp [wake, pledged, hphase, hmissed]

theorem wake_interval (l : RateLimiter) : l.wake.2.interval = l.interval := by
  unfold wake
  cases l.phase with
  | idle => rfl
  | queued since => rfl
  | cooling due => cases hmissed : l.missed <;> simp

/-- A run takes place when the limiter has something to do. -/
theorem wake_time {due time : Nat} (hdue : l.due = some due) (htime : time ∈ l.wake.1.toList) :
    time = due := by
  cases hphase : l.phase with
  | idle => simp [RateLimiter.due, hphase] at hdue
  | queued since =>
    simp only [RateLimiter.due, hphase, Option.some.injEq] at hdue
    simp only [wake, hphase, Option.toList_some, List.mem_singleton] at htime
    omega
  | cooling stop =>
    simp only [RateLimiter.due, hphase, Option.some.injEq] at hdue
    cases hmissed : l.missed <;> simp [wake, hphase, hmissed] at htime
    omega

/-- Every wake counts. -/
theorem wake_wakesLeft {due : Nat} (hdue : l.due = some due) :
    l.wake.2.wakesLeft + 1 ≤ l.wakesLeft := by
  cases hphase : l.phase with
  | idle => simp [RateLimiter.due, hphase] at hdue
  | queued since =>
    simp only [wake, wakesLeft, hphase]
    omega
  | cooling due => cases hmissed : l.missed <;> simp [wake, wakesLeft, hphase, hmissed]

/-- No pledged run comes before the limiter has something to do. -/
theorem due_le_pledged {time : Nat} (h : time ∈ l.pledged) :
    ∃ due, l.due = some due ∧ due ≤ time := by
  cases hphase : l.phase with
  | idle => simp [pledged, hphase] at h
  | queued since =>
    refine ⟨since, by simp [RateLimiter.due, hphase], ?_⟩
    cases hmissed : l.missed <;> simp [pledged, hphase, hmissed] at h <;> omega
  | cooling due =>
    refine ⟨due, by simp [RateLimiter.due, hphase], ?_⟩
    cases hmissed : l.missed <;> simp [pledged, hphase, hmissed] at h
    omega

theorem fire_interval (l : RateLimiter) (now : Nat) : (l.fire now).interval = l.interval := by
  unfold fire
  cases l.phase <;> rfl

end RateLimiter

-- ---------------------------------------------------------------------------
-- What every move keeps
-- ---------------------------------------------------------------------------

/-- How the phase of a limiter and its missed flag fit the clock and the times of its runs. -/
inductive RateLimiter.Timed (interval now : Nat) (times : List Nat) : RatePhase → Bool → Prop where
  | idle (hover : ∀ t ∈ times, t + interval ≤ now) : Timed interval now times .idle false
  | queued (hover : ∀ t ∈ times, t + interval ≤ now) (missed : Bool) :
    Timed interval now times (.queued now) missed
  | cooling {earlier : List Nat} {last : Nat} (htimes : times = earlier ++ [last])
    (hlast : last ≤ now) (hopen : now ≤ last + interval) (missed : Bool) :
    Timed interval now times (.cooling (last + interval)) missed

/-- The run comes within `interval` after a fire at the time `t`, and sees this fire, which is
number `k` from 0 on. -/
def Answers (interval k t : Nat) (run : Nat × Nat) : Prop :=
  t ≤ run.1 ∧ run.1 ≤ t + interval ∧ k < run.2

/-- A limiter at the time `now`, after fires at the given times and with the given runs, each with
the number of fires that it saw. -/
structure Paced (interval : Nat) (fires : List Nat) (now : Nat) (l : RateLimiter)
    (runs : List (Nat × Nat)) : Prop where
  interval_eq : l.interval = interval
  timed : RateLimiter.Timed interval now (runs.map Prod.fst) l.phase l.missed
  past : ∀ t ∈ fires, t ≤ now
  spaced : (runs.map Prod.fst ++ l.pledged).Pairwise fun a b => a + interval ≤ b
  few : (runs.map Prod.fst ++ l.pledged).length ≤ fires.length
  recent : ∀ t ∈ runs.map Prod.fst ++ l.pledged,
    ∃ last, fires.getLast? = some last ∧ t ≤ last + interval
  answered : ∀ k t, fires[k]? = some t →
    (∃ run ∈ runs, Answers interval k t run) ∨ ∃ time ∈ l.pledged, t ≤ time ∧ time ≤ t + interval
  truthful : ∀ run ∈ runs, ∀ k < run.2, ∃ t, fires[k]? = some t ∧ t ≤ run.1

namespace Paced

variable {interval now target due : Nat} {fires : List Nat} {l : RateLimiter}
  {runs : List (Nat × Nat)}

theorem new (interval : Nat) : Paced interval [] 0 { interval } [] where
  interval_eq := rfl
  timed := .idle (by simp)
  past := by simp
  spaced := by simp [RateLimiter.pledged]
  few := by simp [RateLimiter.pledged]
  recent := by simp [RateLimiter.pledged]
  answered := by simp
  truthful := by simp

/-- Nothing that is to be done lies in the past. -/
theorem le_due (h : Paced interval fires now l runs) (hdue : l.due = some due) : now ≤ due := by
  obtain ⟨_, phase, missed⟩ := l
  have htimed := h.timed
  cases htimed with
  | idle hover => cases hdue
  | queued hover missed =>
    cases hdue
    exact Nat.le_refl now
  | cooling htimes hlast hopen missed =>
    cases hdue
    exact hopen

/-- The clock moves on, but not past the time at which something is to be done. -/
theorem wait (h : Paced interval fires now l runs) (hle : now ≤ target)
    (hdue : ∀ due, l.due = some due → target ≤ due) : Paced interval fires target l runs := by
  obtain ⟨_, phase, missed⟩ := l
  refine { h with timed := ?_, past := fun t ht => Nat.le_trans (h.past t ht) hle }
  have htimed := h.timed
  cases htimed with
  | idle hover => exact .idle fun t ht => Nat.le_trans (hover t ht) hle
  | queued hover missed =>
    have hnow : target = now := Nat.le_antisymm (hdue now rfl) hle
    rw [hnow]
    exact .queued hover missed
  | cooling htimes hlast hopen missed =>
    exact .cooling htimes (Nat.le_trans hlast hle) (hdue _ rfl) missed

/-- The last run of a list is the latest. -/
theorem le_of_spaced {earlier : List Nat} {last t : Nat}
    (h : (earlier ++ [last]).Pairwise fun a b => a + interval ≤ b) (ht : t ∈ earlier ++ [last]) :
    t ≤ last := by
  rw [List.pairwise_append] at h
  rcases List.mem_append.1 ht with ht | ht
  · have := h.2.2 t ht last (List.mem_singleton_self last)
    omega
  · exact Nat.le_of_eq (List.mem_singleton.1 ht)

theorem wake_timed (h : Paced interval fires now l runs) (hdue : l.due = some due) :
    RateLimiter.Timed interval due
      ((runs ++ l.wake.1.toList.map fun t => (t, fires.length)).map Prod.fst)
      l.wake.2.phase l.wake.2.missed := by
  obtain ⟨length, phase, missed⟩ := l
  have hlength : length = interval := h.interval_eq
  subst hlength
  have hspaced := (List.pairwise_append.1 h.spaced).1
  have htimed := h.timed
  cases htimed with
  | idle hover => cases hdue
  | queued hover missed =>
    cases hdue
    exact .cooling (List.map_append ..) (Nat.le_refl _) (Nat.le_add_right ..) missed
  | cooling htimes hlast hopen missed =>
    cases hdue
    cases missed with
    | true => exact .cooling (List.map_append ..) (Nat.le_refl _) (Nat.le_add_right ..) false
    | false =>
      refine .idle fun t ht => ?_
      simp only [RateLimiter.wake, Bool.false_eq_true, if_false, Option.toList_none, List.map_nil,
        List.append_nil] at ht
      rw [htimes] at ht hspaced
      exact Nat.add_le_add_right (le_of_spaced hspaced ht) _

/-- A wake at the time at which it is due. -/
theorem wake (h : Paced interval fires now l runs) (hdue : l.due = some due) :
    Paced interval fires due l.wake.2
      (runs ++ l.wake.1.toList.map fun t => (t, fires.length)) := by
  have hnow : now ≤ due := h.le_due hdue
  -- the list of runs, past and pledged, stays as it is
  have htimes : (runs ++ l.wake.1.toList.map fun t => (t, fires.length)).map Prod.fst ++
      l.wake.2.pledged = runs.map Prod.fst ++ l.pledged := by
    rw [← l.wake_pledged, List.map_append, List.map_map, List.append_assoc]
    congr 2
    exact List.map_id _
  have hpast : ∀ t ∈ fires, t ≤ due := fun t ht => Nat.le_trans (h.past t ht) hnow
  refine ⟨l.wake_interval.trans h.interval_eq, ?_, hpast, htimes ▸ h.spaced, htimes ▸ h.few,
    htimes ▸ h.recent, ?_, ?_⟩
  · exact h.wake_timed hdue
  · intro k t hk
    rcases h.answered k t hk with ⟨run, hrun, hanswers⟩ | ⟨time, htime, hlow, hhigh⟩
    · exact .inl ⟨run, List.mem_append_left _ hrun, hanswers⟩
    · rw [← l.wake_pledged, List.mem_append] at htime
      rcases htime with htime | htime
      · -- the pledged run takes place now, and it sees all fires
        refine .inl ⟨(time, fires.length), ?_, hlow, hhigh, ?_⟩
        · exact List.mem_append_right _ (List.mem_map.2 ⟨time, htime, rfl⟩)
        · exact (List.getElem?_eq_some_iff.1 hk).1
      · exact .inr ⟨time, htime, hlow, hhigh⟩
  · intro run hrun k hk
    rcases List.mem_append.1 hrun with hrun | hrun
    · exact h.truthful run hrun k hk
    · obtain ⟨time, htime, rfl⟩ := List.mem_map.1 hrun
      have htime' : time = due := RateLimiter.wake_time hdue htime
      refine ⟨fires[k], List.getElem?_eq_getElem hk, ?_⟩
      rw [htime']
      exact hpast _ (List.getElem_mem hk)

theorem fire_timed (h : Paced interval fires now l runs) :
    RateLimiter.Timed interval now (runs.map Prod.fst) (l.fire now).phase (l.fire now).missed := by
  obtain ⟨_, phase, missed⟩ := l
  have htimed := h.timed
  cases htimed with
  | idle hover => exact .queued hover false
  | queued hover missed => exact .queued hover true
  | cooling htimes hlast hopen missed => exact .cooling htimes hlast hopen true

/-- A fire leads to a run within the interval, which may be one that was pledged before. -/
theorem exists_pledged_fire (h : Paced interval fires now l runs) :
    ∃ time ∈ (l.fire now).pledged, now ≤ time ∧ time ≤ now + interval := by
  obtain ⟨_, phase, missed⟩ := l
  have htimed := h.timed
  cases htimed with
  | idle hover => exact ⟨now, List.mem_cons_self, Nat.le_refl _, Nat.le_add_right ..⟩
  | queued hover missed => exact ⟨now, List.mem_cons_self, Nat.le_refl _, Nat.le_add_right ..⟩
  | @cooling earlier last htimes hlast hopen missed =>
    exact ⟨last + interval, List.mem_cons_self, hopen, by omega⟩

/-- A fire adds at most one run to the pledged ones, an interval after all others. -/
theorem pledged_fire (h : Paced interval fires now l runs) :
    (l.fire now).pledged = l.pledged ∨
      ∃ time, (l.fire now).pledged = l.pledged ++ [time] ∧ time ≤ now + interval ∧
        ∀ t ∈ runs.map Prod.fst ++ l.pledged, t + interval ≤ time := by
  obtain ⟨length, phase, missed⟩ := l
  have hlength : length = interval := h.interval_eq
  subst hlength
  have hspaced := (List.pairwise_append.1 h.spaced).1
  have htimed := h.timed
  cases htimed with
  | idle hover =>
    refine .inr ⟨now, rfl, Nat.le_add_right .., fun t ht => hover t ?_⟩
    simpa [RateLimiter.pledged] using ht
  | queued hover missed =>
    cases missed with
    | true => exact .inl rfl
    | false =>
      refine .inr ⟨now + length, rfl, Nat.le_refl _, fun t ht => ?_⟩
      rcases List.mem_append.1 ht with ht | ht
      · have := hover t ht
        omega
      · have htime : t = now := List.mem_singleton.1 ht
        omega
  | @cooling earlier last htimes hlast hopen missed =>
    cases missed with
    | true => exact .inl rfl
    | false =>
      refine .inr ⟨last + length, rfl, Nat.add_le_add_right hlast _, fun t ht => ?_⟩
      have ht' : t ∈ earlier ++ [last] := by simpa [RateLimiter.pledged, htimes] using ht
      rw [htimes] at hspaced
      exact Nat.add_le_add_right (le_of_spaced hspaced ht') _

/-- A fire at the time `now`. -/
theorem fire (h : Paced interval fires now l runs) :
    Paced interval (fires ++ [now]) now (l.fire now) runs := by
  have hlast : (fires ++ [now]).getLast? = some now := List.getLast?_concat
  have hlength : (fires ++ [now]).length = fires.length + 1 := List.length_append
  have holder : ∀ t ∈ runs.map Prod.fst ++ l.pledged, t ≤ now + interval := by
    intro t ht
    obtain ⟨last, hfire, hle⟩ := h.recent t ht
    have := h.past last (List.mem_of_getLast? hfire)
    omega
  have hpledged : ∀ time ∈ l.pledged, time ∈ (l.fire now).pledged := by
    intro time htime
    rcases h.pledged_fire with hsame | ⟨more, hmore, -⟩
    · rwa [hsame]
    · rw [hmore]
      exact List.mem_append_left _ htime
  refine ⟨(l.fire_interval now).trans h.interval_eq, h.fire_timed, ?_, ?_, ?_, ?_, ?_, ?_⟩
  · intro t ht
    rcases List.mem_append.1 ht with ht | ht
    · exact h.past t ht
    · exact Nat.le_of_eq (List.mem_singleton.1 ht)
  · rcases h.pledged_fire with hsame | ⟨more, hmore, -, hafter⟩
    · rw [hsame]
      exact h.spaced
    · rw [hmore, ← List.append_assoc, List.pairwise_append]
      refine ⟨h.spaced, List.pairwise_singleton _ _, fun t ht time htime => ?_⟩
      rw [List.mem_singleton.1 htime]
      exact hafter t ht
  · have hfew := h.few
    rcases h.pledged_fire with hsame | ⟨more, hmore, -⟩
    · rw [hsame, hlength]
      omega
    · rw [hmore, ← List.append_assoc, List.length_append, hlength]
      exact Nat.add_le_add_right hfew 1
  · intro t ht
    refine ⟨now, hlast, ?_⟩
    rcases h.pledged_fire with hsame | ⟨more, hmore, hsoon, -⟩
    · rw [hsame] at ht
      exact holder t ht
    · rw [hmore, ← List.append_assoc] at ht
      rcases List.mem_append.1 ht with ht | ht
      · exact holder t ht
      · rw [List.mem_singleton.1 ht]
        exact hsoon
  · intro k t hk
    rcases Nat.lt_or_ge k fires.length with hlt | hge
    · rw [List.getElem?_append_left hlt] at hk
      rcases h.answered k t hk with hrun | ⟨time, htime, hbounds⟩
      · exact .inl hrun
      · exact .inr ⟨time, hpledged time htime, hbounds⟩
    · have hnow : now = t := by
        rw [List.getElem?_append_right hge] at hk
        exact (List.mem_singleton.1 (List.mem_of_getElem? hk)).symm
      subst hnow
      exact .inr h.exists_pledged_fire
  · intro run hrun k hk
    obtain ⟨t, hfire, hle⟩ := h.truthful run hrun k hk
    have hlt : k < fires.length := (List.getElem?_eq_some_iff.1 hfire).1
    exact ⟨t, (List.getElem?_append_left hlt).trans hfire, hle⟩

/-- The runs that are due on the way to `target`. -/
theorem elapseWithin (h : Paced interval fires now l runs) (hle : now ≤ target) {wakes : Nat}
    (hwakes : l.wakesLeft ≤ wakes) :
    Paced interval fires target (l.elapseWithin target wakes).2
        (runs ++ (l.elapseWithin target wakes).1.map fun t => (t, fires.length)) ∧
      ∀ due, (l.elapseWithin target wakes).2.due = some due → target < due := by
  induction wakes generalizing now l runs with
  | zero =>
    have hdone : ∀ due, l.due ≠ some due := by
      intro due hdue
      have := RateLimiter.wake_wakesLeft hdue
      omega
    simp only [RateLimiter.elapseWithin, List.map_nil, List.append_nil]
    refine ⟨h.wait hle fun due hdue => ?_, fun due hdue => ?_⟩
    · exact absurd hdue (hdone due)
    · exact absurd hdue (hdone due)
  | succ wakes ih =>
    unfold RateLimiter.elapseWithin
    cases hdue : l.due with
    | none =>
      simp only [List.map_nil, List.append_nil]
      exact ⟨h.wait hle (by simp [hdue]), by simp [hdue]⟩
    | some due =>
      dsimp only
      by_cases hreached : due ≤ target
      · rw [if_pos hreached]
        have hleft := RateLimiter.wake_wakesLeft hdue
        have hrest := ih (h.wake hdue) hreached (by omega)
        simp only [List.map_append]
        rw [← List.append_assoc]
        exact hrest
      · rw [if_neg hreached]
        simp only [List.map_nil, List.append_nil]
        refine ⟨h.wait hle fun due' hdue' => ?_, fun due' hdue' => ?_⟩
        · rw [hdue] at hdue'
          cases hdue'
          omega
        · rw [hdue] at hdue'
          cases hdue'
          omega

end Paced

-- ---------------------------------------------------------------------------
-- Schedules
-- ---------------------------------------------------------------------------

namespace RateSchedule

/-- How long a schedule takes. -/
def duration : List RateStep → Nat
  | [] => 0
  | .sleep ms :: rest => ms + duration rest
  | _ :: rest => duration rest

/-- The times of the fires of a schedule that begins at the time `now`, one entry for each. -/
def fires (now : Nat) : List RateStep → List Nat
  | [] => []
  | .fire times :: rest => List.replicate times now ++ fires now rest
  | .sleep ms :: rest => fires (now + ms) rest
  | .drop :: rest => fires now rest

variable {interval : Nat} {past : List Nat} {s : RateSchedule}

/-- The limiter is paced, and has done what was due. -/
structure Settled (interval : Nat) (past : List Nat) (s : RateSchedule) : Prop where
  fired : s.fired = past.length
  limiter : ∃ l, s.limiter = some l ∧ Paced interval past s.now l s.runs ∧
    ∀ due, l.due = some due → s.now < due

theorem start_settled (interval : Nat) : Settled interval [] (start interval) :=
  ⟨rfl, _, rfl, .new interval, nofun⟩

/-- The clock moves on to `target`. -/
theorem elapse_settled {l : RateLimiter} {target : Nat} (hfired : s.fired = past.length)
    (hlimiter : s.limiter = some l) (h : Paced interval past s.now l s.runs)
    (hle : s.now ≤ target) : Settled interval past (s.elapse target) := by
  have helapsed := h.elapseWithin hle (Nat.le_refl l.wakesLeft)
  simp only [elapse, hlimiter]
  refine ⟨hfired, _, rfl, ?_, helapsed.2⟩
  rw [hfired]
  exact helapsed.1

theorem paced_fireTimes {now : Nat} {l : RateLimiter} {runs : List (Nat × Nat)}
    (h : Paced interval past now l runs) (times : Nat) :
    Paced interval (past ++ List.replicate times now) now (fireTimes l now times) runs := by
  induction times generalizing l past with
  | zero => simpa [fireTimes] using h
  | succ times ih =>
    have hrest := ih h.fire
    rw [List.append_assoc, List.singleton_append, ← List.replicate_succ] at hrest
    exact hrest

theorem elapse_now (s : RateSchedule) (target : Nat) : (s.elapse target).now = target := by
  unfold elapse
  cases s.limiter <;> rfl

theorem step_fire (h : Settled interval past s) (times : Nat) :
    Settled interval (past ++ List.replicate times s.now) (s.step (.fire times)) ∧
      (s.step (.fire times)).now = s.now := by
  obtain ⟨l, hlimiter, hpaced, -⟩ := h.limiter
  simp only [step, hlimiter]
  refine ⟨elapse_settled ?_ rfl (paced_fireTimes hpaced times) (Nat.le_refl _), elapse_now ..⟩
  simp [h.fired]

theorem step_sleep (h : Settled interval past s) (ms : Nat) :
    Settled interval past (s.step (.sleep ms)) ∧ (s.step (.sleep ms)).now = s.now + ms := by
  obtain ⟨l, hlimiter, hpaced, -⟩ := h.limiter
  exact ⟨elapse_settled h.fired hlimiter hpaced (Nat.le_add_right ..), elapse_now ..⟩

/-- Every schedule that does not drop the limiter keeps it paced. -/
theorem run_settled (h : Settled interval past s) {steps : List RateStep}
    (hkept : .drop ∉ steps) :
    Settled interval (past ++ fires s.now steps) (s.run steps) ∧
      (s.run steps).now = s.now + duration steps := by
  induction steps generalizing s past with
  | nil => simpa [fires, duration, run] using h
  | cons step rest ih =>
    rw [List.mem_cons, not_or] at hkept
    show Settled interval _ ((s.step step).run rest) ∧ ((s.step step).run rest).now = _
    cases step with
    | fire times =>
      obtain ⟨hstep, hnow⟩ := step_fire h times
      have hrest := ih hstep hkept.2
      rw [hnow, List.append_assoc] at hrest
      exact hrest
    | sleep ms =>
      obtain ⟨hstep, hnow⟩ := step_sleep h ms
      have hrest := ih hstep hkept.2
      rw [hnow, Nat.add_assoc] at hrest
      exact hrest
    | drop => exact absurd rfl hkept.1

/-- A limiter that has done what was due is in a cooldown for an interval after its last run. -/
theorem Settled.cooling (h : Settled interval past s) :
    ∃ cooling, s.cooling = some cooling ∧
      (cooling = true ↔ ∃ last, s.runs.getLast? = some last ∧ s.now < last.1 + interval) := by
  obtain ⟨⟨length, phase, missed⟩, hlimiter, hpaced, hahead⟩ := h.limiter
  refine ⟨_, by rw [RateSchedule.cooling, hlimiter, Option.map_some], ?_⟩
  have htimed := hpaced.timed
  cases htimed with
  | idle hover =>
    constructor
    · intro hcooling
      cases hcooling
    · rintro ⟨last, hlast, hopen⟩
      have := hover last.1 (List.mem_map_of_mem (List.mem_of_getLast? hlast))
      omega
  | queued hover missed => exact absurd (hahead s.now rfl) (Nat.lt_irrefl _)
  | @cooling earlier time htimes _ _ missed =>
    have hlast : s.runs.getLast?.map Prod.fst = some time := by
      rw [← List.getLast?_map, htimes, List.getLast?_concat]
    obtain ⟨last, hrun, rfl⟩ := Option.map_eq_some_iff.1 hlast
    exact ⟨fun _ => ⟨last, hrun, hahead _ rfl⟩, fun _ => rfl⟩

/-- Once an interval has passed since a fire, it was answered. -/
theorem Settled.answered (h : Settled interval past s) {k t : Nat} (hk : past[k]? = some t)
    (hnow : t + interval ≤ s.now) : ∃ run ∈ s.runs, Answers interval k t run := by
  obtain ⟨l, -, hpaced, hahead⟩ := h.limiter
  rcases hpaced.answered k t hk with hrun | ⟨time, htime, -, hsoon⟩
  · exact hrun
  · obtain ⟨due, hdue, hle⟩ := RateLimiter.due_le_pledged htime
    have := hahead due hdue
    omega

/-- The contract of a rate limiter, for every schedule of fires and pauses after which it is still
there. Any two runs are at least an interval apart. Once an interval has passed since a fire, there
was a run within this interval that saw it, and runs see no fires but those that took place. No
run comes later than an interval after the last fire, there are at most as many runs as fires,
and the limiter is cooling exactly when less than an interval has passed since the last run. -/
theorem handler_is_paced (interval : Nat) {steps : List RateStep} (hkept : .drop ∉ steps) :
    (((start interval).run steps).runs.Pairwise fun a b => a.1 + interval ≤ b.1) ∧
    (∀ k t, (fires 0 steps)[k]? = some t → t + interval ≤ duration steps →
      ∃ run ∈ ((start interval).run steps).runs, Answers interval k t run) ∧
    (∀ run ∈ ((start interval).run steps).runs, ∀ k < run.2,
      ∃ t, (fires 0 steps)[k]? = some t ∧ t ≤ run.1) ∧
    (∀ run ∈ ((start interval).run steps).runs,
      ∃ last, (fires 0 steps).getLast? = some last ∧ run.1 ≤ last + interval) ∧
    ((start interval).run steps).runs.length ≤ (fires 0 steps).length ∧
    ∃ cooling, ((start interval).run steps).cooling = some cooling ∧
      (cooling = true ↔ ∃ last, ((start interval).run steps).runs.getLast? = some last ∧
        duration steps < last.1 + interval) := by
  obtain ⟨hsettled, hnow⟩ := run_settled (start_settled interval) hkept
  have hduration : ((start interval).run steps).now = duration steps := by
    rw [hnow]
    exact Nat.zero_add _
  rw [List.nil_append] at hsettled
  obtain ⟨l, -, hpaced, -⟩ := hsettled.limiter
  have hspaced := (List.pairwise_append.1 hpaced.spaced).1
  have hfew := hpaced.few
  rw [List.length_append, List.length_map] at hfew
  refine ⟨List.pairwise_map.1 hspaced, ?_, hpaced.truthful, ?_, Nat.le_of_add_right_le hfew, ?_⟩
  · intro k t hk hpassed
    rw [← hduration] at hpassed
    exact hsettled.answered hk hpassed
  · intro run hrun
    exact hpaced.recent run.1 (List.mem_append_left _ (List.mem_map_of_mem hrun))
  · rw [← hduration]
    exact hsettled.cooling

/-- A burst, a fire in the cooldown, one exactly at the end of the next one, and a pause. -/
def burstAndFollowers : List RateStep :=
  [.fire 2, .sleep 5, .fire 1, .sleep 15, .fire 1, .sleep 40]

/-- The burst is run at once and together with the fire after it at the end of the cooldown. -/
theorem burstAndFollowers_paced :
    .drop ∉ burstAndFollowers ∧
    fires 0 burstAndFollowers = [0, 0, 5, 20] ∧
    ((start 10).run burstAndFollowers).runs = [(0, 2), (10, 3), (20, 4)] ∧
    (((start 10).run burstAndFollowers).runs.Pairwise fun a b => a.1 + 10 ≤ b.1) ∧
    (∃ run ∈ ((start 10).run burstAndFollowers).runs, Answers 10 2 5 run) ∧
    ((start 10).run burstAndFollowers).runs.length ≤ (fires 0 burstAndFollowers).length := by
  have hkept : .drop ∉ burstAndFollowers := by decide
  obtain ⟨hspaced, hanswered, -, -, hfew, -⟩ := handler_is_paced 10 hkept
  exact ⟨hkept, rfl, rfl, hspaced, hanswered 2 5 rfl (by decide), hfew⟩

end RateSchedule

end VerifierClient

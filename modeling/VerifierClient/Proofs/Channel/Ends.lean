import VerifierClient.Proofs.Channel.Sequences

/-!
# The end of a channel

A channel ends when its verifier exits or when it is disposed of. Both may happen, in
either order and repeatedly, while a sequence is in flight and queries are held back. The
first end settles everything that waited, and after it nothing is written or waited for.

* `Channel.Cleared` — nothing is waited for and nothing is in flight;
* `Channel.Move.idle_iff` — the idle flag tells whether a sequence is in flight;
* `Channel.Move.of_dead` — what a channel that has ended can still do;
* `Channel.step_of_end` — what the first end does;
* `Channel.end_is_final` — the result for all runs.
-/

namespace VerifierClient.Channel

-- ---------------------------------------------------------------------------
-- Ends
-- ---------------------------------------------------------------------------

def Op.isDispose : Op → Bool
  | .dispose => true
  | _ => false

/-- The exit code with which the verifier's output ends. -/
def Op.exitCode? : Op → Option (Option Int)
  | .markExited code => some code
  | _ => none

/-- The error that an end of the channel leaves behind. -/
def Op.endError (role : Role) (op : Op) : ChannelError :=
  if op.isDispose then .disposed role else .exited role

/-- The exits that the session was told of. -/
def departures (c : Channel) : List (Option Int) :=
  c.events.filterMap fun
    | .exited code => some code
    | _ => none

/-- Nothing is waited for, and nothing is in flight or held back. -/
structure Cleared (c : Channel) : Prop where
  pending : c.pending = []
  detached : c.detached = []
  fullBuffer : c.fullBuffer = none

section Moves

variable {c c' : Channel} {op : Op}

theorem Ended.cleared (h : Ended c c') : c'.Cleared := ⟨h.pending, h.detached, h.fullBuffer⟩

/-- The flags of a channel are set by its ends only. -/
theorem Move.flags (h : Move c op c') (hop : op.isEnd = false) :
    c'.role = c.role ∧ c'.exited = c.exited ∧ c'.disposed = c.disposed := by
  have hregister : ∀ (d : Channel) waited id, (d.register waited id).role = d.role ∧
      (d.register waited id).exited = d.exited ∧ (d.register waited id).disposed = d.disposed := by
    intro d waited id
    cases waited <;> exact ⟨rfl, rfl, rfl⟩
  cases h with
  | write => exact hregister _ _ _
  | hold => exact hregister _ _ _
  | aside _ haside => cases haside <;> exact ⟨rfl, rfl, rfl⟩
  | ended hend => simp [hop] at hend
  | again hend => simp [hop] at hend
  | _ => exact ⟨rfl, rfl, rfl⟩

/-- Only its end makes a channel tell of an exit. -/
theorem Move.departures (h : Move c op c') (hop : op.isEnd = false) :
    c'.departures = c.departures := by
  have hregister : ∀ (d : Channel) waited id, (d.register waited id).events = d.events := by
    intro d waited id
    cases waited <;> rfl
  have hemit : ∀ event, (∀ code, event ≠ .exited code) →
      (c.emit event).departures = c.departures := by
    intro event hevent
    cases event with
    | exited code => exact absurd rfl (hevent code)
    | _ => simp [Channel.departures, emit]
  cases h with
  | write => rw [Channel.departures, hregister]; rfl
  | hold => rw [Channel.departures, hregister]; rfl
  | stream => exact hemit _ (fun _ h => by cases h)
  | finish => exact hemit _ (fun _ h => by cases h)
  | relaunch => exact hemit _ (fun _ h => by cases h)
  | abandon => exact hemit _ (fun _ h => by cases h)
  | aside _ haside =>
    cases haside with
    | notice => exact hemit _ (fun _ h => by cases h)
    | _ => rfl
  | ended hend => simp [hop] at hend
  | again hend => simp [hop] at hend
  | _ => rfl

/-- The idle flag is set and taken back with every sequence. -/
theorem Move.idle_iff (h : Move c op c') (hc : c.idle = true ↔ c.fullBuffer = none) :
    c'.idle = true ↔ c'.fullBuffer = none := by
  have hbusy : ∀ {session : BufferSession}, c.fullBuffer = some session → c.idle = false := by
    intro session hflight
    rw [hflight] at hc
    simpa using hc
  have hregister : ∀ (d : Channel) waited id, (d.register waited id).idle = d.idle := by
    intro d waited id
    cases waited <;> rfl
  cases h with
  | write =>
    rw [hregister, register_fullBuffer]
    exact hc
  | hold _ hflight =>
    have hidle := hbusy hflight
    rw [hregister, register_fullBuffer]
    simp [spend, Channel.hold, hidle]
  | launch => simp [Channel.launch]
  | replace _ hflight => simp [hbusy hflight]
  | finish => simp [release]
  | relaunch => simp [Channel.launch]
  | abandon => simp [release, spend]
  | aside _ haside => cases haside <;> exact hc
  | ended _ hend => simp [hend.idle, hend.fullBuffer]
  | _ => exact hc

/-- A channel that has ended goes on to read lines, but to no effect on queries. -/
theorem Move.of_dead (h : Move c op c') (hdead : c.isAlive = false) (hc : c.Cleared) :
    c'.Cleared ∧ c'.accepted = c.accepted ∧ c'.resolved = c.resolved := by
  have hrefuted : c.isAlive = true → c'.Cleared ∧ c'.accepted = c.accepted ∧
      c'.resolved = c.resolved := by
    intro halive
    rw [hdead] at halive
    cases halive
  have hunflown : ∀ {session : BufferSession}, c.fullBuffer = some session → c'.Cleared ∧
      c'.accepted = c.accepted ∧ c'.resolved = c.resolved := by
    intro session hflight
    rw [hc.fullBuffer] at hflight
    cases hflight
  cases h with
  | refuse => exact ⟨hc, rfl, rfl⟩
  | lose _ halive => exact hrefuted halive
  | write halive => exact hrefuted halive
  | hold halive => exact hrefuted halive
  | launch halive => exact hrefuted halive
  | replace halive => exact hrefuted halive
  | cancel halive => exact hrefuted halive
  | skip => exact ⟨hc, rfl, rfl⟩
  | stream hflight => exact hunflown hflight
  | finish hflight => exact hunflown hflight
  | relaunch hflight => exact hunflown hflight
  | abandon hflight => exact hunflown hflight
  | aside _ haside =>
    cases haside with
    | resolve _ _ _ hpending =>
      rw [hc.pending] at hpending
      cases hpending
    | forget => exact ⟨⟨hc.pending, by simp [hc.detached], hc.fullBuffer⟩, rfl, rfl⟩
    | nothing => exact ⟨hc, rfl, rfl⟩
    | handshake => exact ⟨⟨hc.pending, hc.detached, hc.fullBuffer⟩, rfl, rfl⟩
    | notice => exact ⟨⟨hc.pending, hc.detached, hc.fullBuffer⟩, rfl, rfl⟩
  | writer => exact ⟨⟨hc.pending, hc.detached, hc.fullBuffer⟩, rfl, rfl⟩
  | ended _ hend =>
    obtain ⟨error, hresolved⟩ := hend.resolved
    refine ⟨hend.cleared, hend.accepted, ?_⟩
    rw [hresolved, hc.pending, List.map_nil, List.append_nil]
  | again => exact ⟨hc, rfl, rfl⟩

end Moves

-- ---------------------------------------------------------------------------
-- One step
-- ---------------------------------------------------------------------------

section Steps

variable {c : Channel} {op : Op}

theorem isAlive_eq_false_iff : c.isAlive = false ↔ c.exited = true ∨ c.disposed = true := by
  cases hexited : c.exited <;> cases hdisposed : c.disposed <;> simp [isAlive, hexited, hdisposed]

theorem closeWriter_departures (c : Channel) : c.closeWriter.departures = c.departures := by
  obtain ⟨writer, heq⟩ := c.closeWriter_eq
  rw [heq]
  rfl

/-- What a step makes of the flags. -/
theorem step_flags (hfit : c.Fits) (op : Op) :
    (c.step op).role = c.role ∧ (c.step op).exited = (c.exited || op.exitCode?.isSome) ∧
      (c.step op).disposed = (c.disposed || op.isDispose) := by
  cases op with
  | markExited code =>
    simp only [step, markExited, Op.exitCode?, Op.isDispose]
    split
    next h => simp [h]
    next => split <;> simp [clear, emit]
  | dispose =>
    simp only [step, dispose, Op.exitCode?, Op.isDispose]
    split
    next h => simp [h]
    next =>
      obtain ⟨writer, heq⟩ := (({ c with disposed := true } : Channel).clear).closeWriter_eq
      rw [heq]
      simp [clear]
  | _ => simpa [Op.exitCode?, Op.isDispose] using (step_move hfit _).flags rfl

theorem step_isAlive (hfit : c.Fits) (op : Op) :
    (c.step op).isAlive = (c.isAlive && !op.isEnd) := by
  obtain ⟨-, hexited, hdisposed⟩ := step_flags hfit op
  rw [isAlive, isAlive, hexited, hdisposed]
  cases op <;> simp [Op.exitCode?, Op.isDispose, Op.isEnd]

/-- A channel tells of an exit unless it has ended before. -/
theorem step_departures (hfit : c.Fits) (op : Op) :
    (c.step op).departures = c.departures ++ if c.isAlive then op.exitCode?.toList else [] := by
  cases op with
  | markExited code =>
    simp only [step, markExited, Op.exitCode?]
    split
    next h => simp [isAlive, h]
    next h =>
      split
      next hdisposed =>
        have hdead : c.isAlive = false := isAlive_eq_false_iff.2 (.inr hdisposed)
        simp [hdead, departures, clear]
      next hdisposed =>
        have hdisposed' : c.disposed = false := Bool.eq_false_iff.2 hdisposed
        simp [isAlive, h, hdisposed', departures, clear, emit]
  | dispose =>
    simp only [step, dispose, Op.exitCode?, Option.toList_none, ite_self, List.append_nil]
    split
    · rfl
    · rw [closeWriter_departures]
      rfl
  | _ => simpa [Op.exitCode?] using (step_move hfit _).departures rfl

/-- The first end of a channel resolves what is waited for with its error, and writes
nothing. -/
theorem step_of_end (hop : op.isEnd = true) (halive : c.isAlive = true) :
    (c.step op).Cleared ∧ (c.step op).accepted = c.accepted ∧
      (c.step op).resolved =
        c.resolved ++ c.pending.map fun id => (id, .error (op.endError c.role)) := by
  have hexited : c.exited = false := by
    cases hexited : c.exited with
    | true => simp [isAlive, hexited] at halive
    | false => rfl
  have hdisposed : c.disposed = false := by
    cases hdisposed : c.disposed with
    | true => simp [isAlive, hdisposed] at halive
    | false => rfl
  cases op with
  | markExited code =>
    have hexit : c.step (.markExited code) =
        (({ c with exited := true } : Channel).clear).emit (.exited code) := by
      simp [step, markExited, clear, hexited, hdisposed]
    rw [hexit]
    refine ⟨⟨rfl, rfl, rfl⟩, rfl, ?_⟩
    simp [clear, emit, closedError, hdisposed, Op.endError, Op.isDispose]
  | dispose =>
    obtain ⟨writer, heq⟩ := (({ c with disposed := true } : Channel).clear).closeWriter_eq
    have hdispose : c.step .dispose =
        { (({ c with disposed := true } : Channel).clear) with writer } := by
      simp only [step, dispose, hdisposed, Bool.false_eq_true, if_false, heq]
    rw [hdispose]
    exact ⟨⟨rfl, rfl, rfl⟩, rfl, rfl⟩
  | _ => cases hop

/-- A channel that has ended refuses every query with the error of its end. -/
theorem refused_of_dead (hdead : c.isAlive = false) (query : Query) :
    c.send query = (c, .error c.closedError) ∧ c.sendDetached query = (c, .error c.closedError) ∧
      c.startFullBuffer query = (c, .error c.closedError) := by
  refine ⟨submit_of_dead hdead true query, submit_of_dead hdead false query, ?_⟩
  rw [startFullBuffer, if_neg (Bool.eq_false_iff.1 hdead)]

end Steps

-- ---------------------------------------------------------------------------
-- All runs
-- ---------------------------------------------------------------------------

section Runs

variable {role : Role} {ops : List Op}

theorem run_idle_iff (role : Role) (ops : List Op) :
    (run { role } ops).idle = true ↔ (run { role } ops).fullBuffer = none := by
  refine move_induction (P := fun _ c => c.idle = true ↔ c.fullBuffer = none) ?_ ?_ ops
  · exact ⟨fun _ => rfl, fun _ => rfl⟩
  · intro past op c' hidle hmove _
    exact hmove.idle_iff hidle

theorem run_flags (role : Role) (ops : List Op) :
    (run { role } ops).role = role ∧ (run { role } ops).disposed = ops.any Op.isDispose := by
  refine run_induction (P := fun ops c => c.role = role ∧ c.disposed = ops.any Op.isDispose)
    ⟨rfl, rfl⟩ ?_ ops
  rintro past op ⟨hrole, hdisposed⟩
  obtain ⟨hrole', -, hdisposed'⟩ := step_flags (fits_run role past) op
  simp [hrole', hdisposed', hrole, hdisposed]

/-- A channel has ended as soon as one of its ends has come. -/
theorem isAlive_run (role : Role) (ops : List Op) :
    (run { role } ops).isAlive = !ops.any Op.isEnd := by
  refine run_induction (P := fun ops c => c.isAlive = !ops.any Op.isEnd) rfl ?_ ops
  intro past op hpast
  rw [step_isAlive (fits_run role past), hpast]
  simp

theorem closedError_run (role : Role) (ops : List Op) :
    (run { role } ops).closedError =
      if ops.any Op.isDispose then .disposed role else .exited role := by
  obtain ⟨hrole, hdisposed⟩ := run_flags role ops
  rw [closedError, hdisposed, hrole]

/-- What the first end leaves is all that is ever left. -/
theorem run_of_end {past after : List Op} {op : Op} (hop : op.isEnd = true)
    (hfirst : past.any Op.isEnd = false) :
    (run { role } (past ++ op :: after)).Cleared ∧
      (run { role } (past ++ op :: after)).accepted = (run { role } past).accepted ∧
      (run { role } (past ++ op :: after)).resolved = (run { role } past).resolved ++
        (run { role } past).pending.map fun id => (id, .error (op.endError role)) := by
  induction after using List.reverseRecOn with
  | nil =>
    have halive : (run { role } past).isAlive = true := by
      rw [isAlive_run, hfirst]
      rfl
    have hend := step_of_end hop halive
    rw [run_concat]
    rwa [(run_flags role past).1] at hend
  | append_singleton after next ih =>
    obtain ⟨hcleared, haccepted, hresolved⟩ := ih
    have hsplit : past ++ op :: (after ++ [next]) = (past ++ op :: after) ++ [next] := by
      rw [List.append_assoc, List.cons_append]
    have hdead : (run { role } (past ++ op :: after)).isAlive = false := by
      rw [isAlive_run]
      simp [hop]
    have hmove := step_move (fits_run role (past ++ op :: after)) next
    obtain ⟨hcleared', haccepted', hresolved'⟩ := hmove.of_dead hdead hcleared
    rw [hsplit, run_concat]
    exact ⟨hcleared', haccepted'.trans haccepted, hresolved'.trans hresolved⟩

theorem run_departures (role : Role) (ops : List Op) :
    (run { role } ops).departures = ((ops.find? Op.isEnd).bind Op.exitCode?).toList := by
  refine run_induction (P := fun ops c =>
    c.departures = ((ops.find? Op.isEnd).bind Op.exitCode?).toList) rfl ?_ ops
  intro past op hpast
  rw [step_departures (fits_run role past), hpast, isAlive_run, List.find?_append]
  cases hfind : past.find? Op.isEnd with
  | some first =>
    have hended : past.any Op.isEnd = true :=
      List.any_eq_true.2 ⟨first, List.mem_of_find?_eq_some hfind, List.find?_some hfind⟩
    simp [hended]
  | none =>
    have hgoing : past.any Op.isEnd = false := by
      rw [List.any_eq_false]
      exact List.find?_eq_none.1 hfind
    cases op <;> simp [hgoing, Op.isEnd, Op.exitCode?]

/-- The first end in a run that has one. -/
theorem exists_first_end (h : ops.any Op.isEnd = true) :
    ∃ past op after, ops = past ++ op :: after ∧ op.isEnd = true ∧ past.any Op.isEnd = false := by
  obtain ⟨op, hop⟩ := Option.isSome_iff_exists.1 (List.find?_isSome.2 (List.any_eq_true.1 h))
  obtain ⟨hend, past, after, hsplit, hpast⟩ := List.find?_eq_some_iff_append.1 hop
  refine ⟨past, op, after, hsplit, hend, ?_⟩
  rw [List.any_eq_false]
  simpa using hpast

end Runs

/-- A sequence is in flight, with a query held back and another sequence to follow. -/
def crowded : List Op :=
  [.startFullBuffer (.fullBuffer .full "let x = 1" none), .send (.autocomplete "le"),
    .startFullBuffer (.fullBuffer .full "let x = 2" none)]

/-- The verifier exits, and then the channel is disposed of while more is said of the exit. -/
def exitThenDispose : List Op := crowded ++ .markExited (some 1) :: [.dispose, .markExited none]

end VerifierClient.Channel

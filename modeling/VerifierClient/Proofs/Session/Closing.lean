import VerifierClient.Proofs.Session.Settling

/-!
# The last words of a session

What a session emits is never taken back, and a session that is disposed takes its results
back by emitting empty ones. After that it is closed: it has nothing left to handle, takes no
further commands and emits nothing more, whatever its verifiers still write.

* `Session.Sealed` — a closed session has emptied its queues and taken its results back;
* `Session.Onward` — what a step, or many, does to the events of a session;
* `Session.step_onward`, `Session.settle_onward`, `Session.input_onward`;
* `Session.isOpen_input_dispose` — a session that is told to go is closed at once.
-/

namespace VerifierClient

namespace Session

variable {s s' s'' : Session}

/-- The events that take the results of a session back. -/
def farewell : List SessionEvent := [.diagnostics [], .status []]

/-- When the session is closed, its queues are empty and its results are taken back. -/
structure Sealed (s : Session) : Prop where
  commands : s.isOpen = false → s.commands = []
  inbox : s.isOpen = false → s.inbox = []
  emitted : s.isOpen = false → farewell <:+ s.emitted

/-- What happens to a session while it works: events are only added, and none once it is
closed. -/
structure Onward (s s' : Session) : Prop where
  uri : s'.uri = s.uri
  emitted : s.emitted <+: s'.emitted
  closed : s.isOpen = false → s'.isOpen = false ∧ s'.emitted = s.emitted
  isSealed : s'.Sealed

theorem Sealed.of_open (h : s.isOpen = true) : s.Sealed := by
  have hne : ¬ s.isOpen = false := by simp [h]
  exact ⟨fun hclosed => absurd hclosed hne, fun hclosed => absurd hclosed hne,
    fun hclosed => absurd hclosed hne⟩

theorem Onward.refl (h : s.Sealed) : Onward s s :=
  ⟨rfl, List.prefix_refl _, fun hclosed => ⟨hclosed, rfl⟩, h⟩

theorem Onward.trans (h : Onward s s') (h' : Onward s' s'') : Onward s s'' where
  uri := h'.uri.trans h.uri
  emitted := h.emitted.trans h'.emitted
  closed := by
    intro hclosed
    obtain ⟨hmid, hsame⟩ := h.closed hclosed
    obtain ⟨hend, hsame'⟩ := h'.closed hmid
    exact ⟨hend, hsame'.trans hsame⟩
  isSealed := h'.isSealed

-- ---------------------------------------------------------------------------
-- Closed sessions
-- ---------------------------------------------------------------------------

theorem onSide_eq (s : Session) (role : Role) (f : Side → Side) :
    ∃ strict lax, s.onSide role f = { s with strict, lax } := by
  cases role with
  | strict => exact ⟨f s.strict, s.lax, rfl⟩
  | lax => exact ⟨s.strict, s.lax.map f, rfl⟩

theorem onLink_of_closed (h : s.isOpen = false) (role : Role) (f : Link → Link) :
    ∃ strict lax, s.onLink role f = { s with strict, lax } := by
  unfold onLink
  rw [if_neg (by simp [h])]
  exact s.onSide_eq role _

/-- What is left of a closed session: its links, its clock, solvers that are started again, and
refusals. -/
theorem act_of_closed (hs : s.Sealed) (h : s.isOpen = false) (a : Step) :
    ∃ strict lax now solverRestarts replies,
      s.act a = { s with strict, lax, now, solverRestarts, replies } := by
  have hshut : ¬ s.isOpen = true := by simp [h]
  cases a with
  | post c =>
    obtain ⟨replies, heq⟩ := s.refuse_eq [c]
    refine ⟨s.strict, s.lax, s.now, s.solverRestarts, replies, ?_⟩
    simp only [act, post, if_neg hshut, heq]
  | command =>
    have hnone : s.act .command = s := by simp only [act, hs.commands h]
    exact ⟨s.strict, s.lax, s.now, s.solverRestarts, s.replies, hnone⟩
  | event =>
    have hnone : s.act .event = s := by simp only [act, hs.inbox h]
    exact ⟨s.strict, s.lax, s.now, s.solverRestarts, s.replies, hnone⟩
  | reverify =>
    refine ⟨s.strict, s.lax, s.now, s.solverRestarts, s.replies, ?_⟩
    simp only [act, if_neg hshut]
  | publisher =>
    refine ⟨s.strict, s.lax, s.now, s.solverRestarts, s.replies, ?_⟩
    simp only [act, if_neg hshut]
  | flyCheck =>
    refine ⟨s.strict, s.lax, s.now, s.solverRestarts, s.replies, ?_⟩
    simp only [act, if_neg hshut]
  | solver =>
    obtain ⟨strict, heq⟩ := s.runSolver_eq
    exact ⟨strict, s.lax, s.now, _, s.replies, heq⟩
  | output role bytes =>
    obtain ⟨strict, lax, heq⟩ := onLink_of_closed h role fun link => link.feed bytes
    exact ⟨strict, lax, s.now, s.solverRestarts, s.replies, heq⟩
  | exit role code =>
    obtain ⟨strict, lax, heq⟩ := onLink_of_closed h role fun link => link.close code
    exact ⟨strict, lax, s.now, s.solverRestarts, s.replies, heq⟩
  | stopReading role =>
    obtain ⟨strict, lax, heq⟩ :=
      onLink_of_closed h role fun link => link.onChannel Channel.breakWriter
    exact ⟨strict, lax, s.now, s.solverRestarts, s.replies, heq⟩
  | tick ms => exact ⟨s.strict, s.lax, s.now + ms, s.solverRestarts, s.replies, rfl⟩

theorem step_of_closed (hs : s.Sealed) (h : s.isOpen = false) (a : Step) : Onward s (s.step a) := by
  obtain ⟨strict, lax, now, solverRestarts, replies, heq⟩ := act_of_closed hs h a
  unfold step
  rw [heq]
  exact ⟨rfl, List.prefix_refl _, fun _ => ⟨h, rfl⟩, ⟨hs.commands, hs.inbox, hs.emitted⟩⟩

-- ---------------------------------------------------------------------------
-- Open sessions
-- ---------------------------------------------------------------------------

/-- What the steps of an open session keep, other than the handling of a command. -/
structure Going (s s' : Session) : Prop where
  uri : s'.uri = s.uri
  isOpen : s'.isOpen = true
  emitted : s.emitted <+: s'.emitted
  commands : s.commands <+: s'.commands

theorem Going.onward (h : Going s s') (hopen : s.isOpen = true) : Onward s s' where
  uri := h.uri
  emitted := h.emitted
  closed := fun hclosed => by simp [hopen] at hclosed
  isSealed := .of_open h.isOpen

theorem Going.of_same (hopen : s.isOpen = true) (huri : s'.uri = s.uri)
    (hopen' : s'.isOpen = s.isOpen) (hemitted : s'.emitted = s.emitted)
    (hcommands : s'.commands = s.commands) : Going s s' :=
  ⟨huri, hopen'.trans hopen, hemitted ▸ List.prefix_refl _, hcommands ▸ List.prefix_refl _⟩

theorem Going.post (h : Going s s') (c : Command) : Going s (s'.post c) := by
  rw [post_of_open h.isOpen]
  exact ⟨h.uri, h.isOpen, h.emitted, h.commands.trans (List.prefix_append _ _)⟩

theorem Going.handled {cost : Nat} (h : Going s s') (hhandled : Handling cost s' s'') :
    Going s s'' where
  uri := hhandled.uri.trans h.uri
  isOpen := hhandled.isOpen.trans h.isOpen
  emitted := h.emitted.trans hhandled.emitted
  commands := by
    rw [hhandled.commands]
    exact h.commands

theorem onLink_going (hopen : s.isOpen = true) (role : Role) (f : Link → Link) :
    Going s (s.onLink role f) := by
  obtain ⟨strict, lax, heq⟩ := s.onSide_eq role fun side => { side with link := f side.link }
  unfold onLink
  rw [if_pos hopen, heq]
  exact .of_same hopen rfl rfl rfl rfl

/-- Every step but the handling of a command leaves an open session open and its commands
waiting. -/
theorem act_going (hopen : s.isOpen = true) {a : Step} (ha : a ≠ .command) :
    Going s (s.act a) := by
  have hself : Going s s := .of_same hopen rfl rfl rfl rfl
  cases a with
  | post c => exact hself.post c
  | command => exact absurd rfl ha
  | event =>
    cases hinbox : s.inbox with
    | nil => simpa only [act, hinbox] using hself
    | cons first rest =>
      have htaken : Going s { s with inbox := rest } := .of_same hopen rfl rfl rfl rfl
      simp only [act, hinbox]
      exact htaken.handled (onChannelEvent_handling first.1 first.2)
  | reverify =>
    simp only [act, if_pos hopen, runReverify]
    split
    · refine Going.post ?_ .verify
      exact .of_same hopen rfl rfl rfl rfl
    · exact .of_same hopen rfl rfl rfl rfl
  | publisher =>
    simp only [act, if_pos hopen, runPublisher]
    split
    · exact hself
    · split
      · split
        · refine Going.post ?_ .publish
          exact .of_same hopen rfl rfl rfl rfl
        · exact .of_same hopen rfl rfl rfl rfl
      · exact hself
  | flyCheck =>
    simp only [act, if_pos hopen, runFlyCheck]
    split
    · exact hself
    · refine Going.post ?_ .flyCheck
      exact .of_same hopen rfl rfl rfl rfl
    · split
      · exact .of_same hopen rfl rfl rfl rfl
      · exact hself
    · split
      · exact .of_same hopen rfl rfl rfl rfl
      · exact hself
  | solver =>
    obtain ⟨strict, heq⟩ := s.runSolver_eq
    simp only [act, heq]
    exact .of_same hopen rfl rfl rfl rfl
  | output role bytes => exact onLink_going hopen role fun link => link.feed bytes
  | exit role code => exact onLink_going hopen role fun link => link.close code
  | stopReading role => exact onLink_going hopen role fun link => link.onChannel Channel.breakWriter
  | tick ms => exact .of_same hopen rfl rfl rfl rfl

theorem dispose_eq (s : Session) (ticket : Option Nat) :
    (s.dispose ticket).uri = s.uri ∧ (s.dispose ticket).emitted = s.emitted ++ farewell ∧
      (s.dispose ticket).commands = [] ∧ (s.dispose ticket).inbox = [] := by
  unfold dispose
  extract_lets closing cleared answered
  obtain ⟨replies, heq⟩ :=
    ({ answered with commands := [], inbox := [] } : Session).refuse_eq answered.commands
  rw [heq]
  cases ticket with
  | none => exact ⟨rfl, List.append_assoc _ _ _, rfl, rfl⟩
  | some ticket => exact ⟨rfl, List.append_assoc _ _ _, rfl, rfl⟩

/-- Handling a command either leaves the session open, with the other commands waiting, or
disposes it. -/
theorem handle_cases {c : Command} {rest : List Command} (hopen : s.isOpen = true)
    (hcommands : s.commands = c :: rest) :
    Onward s (s.act .command) ∧
      (c.isDispose = true → (s.act .command).isOpen = false) ∧
      (c.isDispose = false → (s.act .command).commands = rest) := by
  let taken : Session := { s with commands := rest }
  have hact : s.act .command = taken.handle c := by simp only [act, hcommands, taken]
  rw [hact]
  cases hc : c.isDispose with
  | false =>
    have hhandled := handle_handling (s := taken) hc
    refine ⟨?_, fun h => (by cases h), fun _ => hhandled.commands⟩
    exact ⟨hhandled.uri, hhandled.emitted, fun hclosed => by simp [hopen] at hclosed,
      .of_open (hhandled.isOpen.trans hopen)⟩
  | true =>
    cases c with
    | dispose ticket =>
      obtain ⟨huri, hemitted, hcommands', hinbox⟩ := taken.dispose_eq ticket
      have hsealed : (taken.dispose ticket).Sealed :=
        ⟨fun _ => hcommands', fun _ => hinbox, fun _ => ⟨s.emitted, hemitted.symm⟩⟩
      refine ⟨⟨huri, ⟨farewell, hemitted.symm⟩, ?_, hsealed⟩, fun _ => isOpen_dispose ticket,
        fun h => by cases h⟩
      intro h
      simp [hopen] at h
    | _ => cases hc

-- ---------------------------------------------------------------------------
-- Steps and runs
-- ---------------------------------------------------------------------------

theorem step_onward (hs : s.Sealed) (a : Step) : Onward s (s.step a) := by
  cases hopen : s.isOpen with
  | false => exact step_of_closed hs hopen a
  | true =>
    have hact : Onward s (s.act a) := by
      by_cases ha : a = .command
      · subst ha
        cases hcommands : s.commands with
        | nil => simpa only [act, hcommands] using Onward.refl hs
        | cons c rest => exact (handle_cases hopen hcommands).1
      · exact (act_going hopen ha).onward hopen
    exact ⟨hact.uri, hact.emitted, hact.closed,
      ⟨hact.isSealed.commands, hact.isSealed.inbox, hact.isSealed.emitted⟩⟩

theorem settle_onward (hs : s.Sealed) : Onward s s.settle := by
  refine settle_induction (P := fun s s' => s.Sealed → Onward s s') (fun s _ hs => .refl hs) ?_ s hs
  intro s a _ ih hs
  have hstep := step_onward hs a
  exact hstep.trans (ih hstep.isSealed)

theorem input_onward (hs : s.Sealed) (a : Step) : Onward s (s.input a) := by
  have hstep := step_onward hs a
  exact hstep.trans (settle_onward hstep.isSealed)

/-- A session that settles handles the disposal that waits. -/
theorem isOpen_settle_of_disposal
    (h : s.isOpen = true → ∃ c ∈ s.commands, c.isDispose = true) : s.settle.isOpen = false := by
  refine settle_induction
    (P := fun s s' => (s.isOpen = true → ∃ c ∈ s.commands, c.isDispose = true) →
      s'.isOpen = false) ?_ ?_ s h
  · intro s hrest hwaits
    cases hopen : s.isOpen with
    | false => rfl
    | true =>
      obtain ⟨c, hmem, -⟩ := hwaits hopen
      rw [(queues_of_next?_none hrest hopen).1] at hmem
      exact absurd hmem List.not_mem_nil
  · intro s a hnext ih hwaits
    refine ih fun hstill => ?_
    obtain ⟨hopen, hcase⟩ := next_of_next? hnext
    obtain ⟨c, hmem, hc⟩ := hwaits hopen
    by_cases ha : a = .command
    · subst ha
      cases hcase with
      | @command first rest hinbox hcommands =>
        obtain ⟨-, hdisposed, hkept⟩ := handle_cases hopen hcommands
        cases hfirst : first.isDispose with
        | true =>
          have hclosed : (s.step .command).isOpen = false := hdisposed hfirst
          simp [hclosed] at hstill
        | false =>
          rw [hcommands] at hmem
          rcases List.mem_cons.1 hmem with rfl | hmem
          · simp [hfirst] at hc
          · exact ⟨c, (hkept hfirst).symm ▸ hmem, hc⟩
    · exact ⟨c, (act_going hopen ha).commands.subset hmem, hc⟩

theorem isOpen_input_dispose (s : Session) (ticket : Option Nat) :
    (s.input (.post (.dispose ticket))).isOpen = false := by
  refine isOpen_settle_of_disposal fun hopen => ?_
  cases hbefore : s.isOpen with
  | true =>
    refine ⟨.dispose ticket, ?_, rfl⟩
    show Command.dispose ticket ∈ (s.post (.dispose ticket)).commands
    rw [post_of_open hbefore]
    exact List.mem_append_right _ List.mem_cons_self
  | false =>
    obtain ⟨replies, heq⟩ := s.refuse_eq [.dispose ticket]
    have hshut : (s.step (.post (.dispose ticket))).isOpen = false := by
      show (s.post (.dispose ticket)).isOpen = false
      rw [post, if_neg (by simp [hbefore]), heq]
      exact hbefore
    simp [hshut] at hopen

end Session

end VerifierClient

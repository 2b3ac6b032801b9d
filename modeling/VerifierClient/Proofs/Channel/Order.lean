import VerifierClient.Proofs.Channel.Journal

/-!
# The order of what is written

While the verifier works on a full-buffer query, ordinary queries are held back,
and go out when it has finished. On a channel that is alive and whose writer stays
open, nothing is lost on this way, and nothing but cancels gets between a
full-buffer query and its end.

* `Channel.Orderly` — the journals in which ordinary queries and new sequences come
  only outside of a sequence, and cancels only inside;
* `Channel.Orderly.window` — what stands in such a journal behind a full-buffer query
  until its end;
* `Channel.move_tidy` — what every move keeps;
* `Channel.ordinary_queries_in_order` — the result for all runs.
-/

namespace VerifierClient.Channel

-- ---------------------------------------------------------------------------
-- Orderly journals
-- ---------------------------------------------------------------------------

/-- How a mark changes which full-buffer query is in flight. -/
inductive Passes : Option QueryId → Mark → Option QueryId → Prop
  | ordinary (e : Envelope) : Passes none (.ordinary e) none
  | launch (e : Envelope) : Passes none (.fullBuffer e) (some e.id)
  | cancel (id : QueryId) (e : Envelope) : Passes (some id) (.cancel e) (some id)
  | finish (id : QueryId) : Passes (some id) (.finished id) none

/-- A journal that leads from no query in flight to the given one. -/
inductive Orderly : List Mark → Option QueryId → Prop
  | nil : Orderly [] none
  | concat {js : List Mark} {m : Mark} {s s' : Option QueryId} :
      Orderly js s → Passes s m s' → Orderly (js ++ [m]) s'

theorem Orderly.ordinaries {js : List Mark} (h : Orderly js none) (envelopes : List Envelope) :
    Orderly (js ++ envelopes.map .ordinary) none := by
  induction envelopes generalizing js with
  | nil => simpa using h
  | cons e rest ih =>
    have hrest := ih (h.concat (.ordinary e))
    rwa [List.append_assoc] at hrest

theorem Orderly.concat_inv {js : List Mark} {m : Mark} {s' : Option QueryId}
    (h : Orderly (js ++ [m]) s') : ∃ s, Orderly js s ∧ Passes s m s' := by
  generalize hks : js ++ [m] = ks at h
  cases h with
  | nil => simp at hks
  | concat hjs hpass =>
    obtain ⟨rfl, hm⟩ := List.append_inj' hks rfl
    cases hm
    exact ⟨_, hjs, hpass⟩

theorem Orderly.of_append {js ks : List Mark} {s : Option QueryId} (h : Orderly (js ++ ks) s) :
    ∃ s', Orderly js s' := by
  induction ks using List.reverseRecOn generalizing s with
  | nil => exact ⟨s, by simpa using h⟩
  | append_singleton ks m ih =>
    rw [← List.append_assoc] at h
    obtain ⟨s', hs', -⟩ := h.concat_inv
    exact ih hs'

/-- Behind a full-buffer query come only cancels, and it stays in flight, until the
message comes that ends it. -/
theorem Orderly.window {before between : List Mark} {e : Envelope} {s : Option QueryId}
    (h : Orderly (before ++ .fullBuffer e :: between) s) (hgoing : .finished e.id ∉ between) :
    s = some e.id ∧ ∀ m ∈ between, ∃ e', m = .cancel e' := by
  induction between using List.reverseRecOn generalizing s with
  | nil =>
    obtain ⟨s', -, hpass⟩ := h.concat_inv
    cases hpass
    exact ⟨rfl, nofun⟩
  | append_singleton between m ih =>
    rw [List.mem_append, not_or, List.mem_singleton] at hgoing
    rw [← List.cons_append, ← List.append_assoc] at h
    obtain ⟨s', hs', hpass⟩ := h.concat_inv
    obtain ⟨rfl, hcancels⟩ := ih hs' hgoing.1
    -- with a query in flight the mark is a cancel or the end
    cases hpass with
    | cancel _ e' =>
      refine ⟨rfl, fun m hm => ?_⟩
      rcases List.mem_append.1 hm with hm | hm
      · exact hcancels m hm
      · exact ⟨e', List.mem_singleton.1 hm⟩
    | finish => exact absurd rfl hgoing.2

-- ---------------------------------------------------------------------------
-- What every move keeps
-- ---------------------------------------------------------------------------

/-- Operations of a session that goes on: requests, and lines from the verifier. -/
def Op.isTraffic : Op → Bool
  | .receive _ => true
  | op => op.isRequest

theorem traffic_goes_on {op : Op} (hop : op.isTraffic = true) :
    op.isWriterChange = false ∧ op.isEnd = false := by
  cases op <;> simp [Op.isTraffic, Op.isRequest, Op.isWriterChange, Op.isEnd] at hop ⊢

/-- The channel is alive and its writer open. -/
def Healthy (c : Channel) : Prop := c.isAlive = true ∧ c.isWritable = true

theorem Move.healthy {c c' : Channel} {op : Op} (h : Move c op c') (hc : c.Healthy)
    (hop : op.isTraffic = true) : c'.Healthy := by
  have hregister : ∀ (d : Channel) waited id, d.Healthy → (d.register waited id).Healthy := by
    intro d waited id hd
    cases waited <;> exact hd
  cases h with
  | write => exact hregister _ _ _ hc
  | hold => exact hregister _ _ _ hc
  | cancel => exact hregister _ _ _ hc
  | aside _ haside => cases haside <;> exact hc
  | writer hchange => simp [(traffic_goes_on hop).1] at hchange
  | ended hend => simp [(traffic_goes_on hop).2] at hend
  | _ => exact hc

/-- A healthy channel after a run with the given journal and the given accepted
queries. -/
structure Tidy (js : List Mark) (submissions : List Envelope) (c : Channel) : Prop where
  healthy : c.Healthy
  /-- the journal lists what was written -/
  complete : js.filterMap Mark.envelope? = c.accepted
  /-- ordinary queries are written or held back, in their order -/
  inOrder : js.filterMap Mark.ordinary? ++ c.heldBack = submissions
  orderly : Orderly js c.current?

section Moves

variable {js : List Mark} {submissions : List Envelope} {c c' : Channel} {op : Op}

/-- What a move adds to the journal leads on from what was in flight, and what it
writes or holds back of ordinary queries is what it accepts. -/
theorem Tidy.advance (ms : List Mark) (hc : Tidy js submissions c) (hhealthy : c'.Healthy)
    (hmarks : marks c op c' = ms)
    (haccepted : c'.accepted = c.accepted ++ ms.filterMap Mark.envelope?)
    (hkept : ms.filterMap Mark.ordinary? ++ c'.heldBack = c.heldBack ++ c.submitted op)
    (horderly : ∀ js, Orderly js c.current? → Orderly (js ++ ms) c'.current?) :
    Tidy (js ++ marks c op c') (submissions ++ c.submitted op) c' := by
  rw [hmarks]
  refine ⟨hhealthy, ?_, ?_, horderly js hc.orderly⟩
  · rw [List.filterMap_append, hc.complete, haccepted]
  · rw [List.filterMap_append, List.append_assoc, hkept, ← List.append_assoc, hc.inOrder]

/-- A move that writes and holds back nothing. -/
theorem Tidy.quiet (hc : Tidy js submissions c) (hhealthy : c'.Healthy)
    (hmarks : marks c op c' = []) (haccepted : c'.accepted = c.accepted)
    (hheld : c'.heldBack = c.heldBack) (hcurrent : c'.current? = c.current?)
    (hsubmitted : c.submitted op = []) :
    Tidy (js ++ marks c op c') (submissions ++ c.submitted op) c' := by
  refine hc.advance [] hhealthy hmarks ?_ ?_ ?_
  · simpa using haccepted
  · simpa [hsubmitted] using hheld
  · intro js hjs
    rw [hcurrent, List.append_nil]
    exact hjs

/-- The end of a sequence, with the full-buffer query that may follow it. -/
theorem Tidy.finish {line : String} {session : BufferSession} {message : StreamMessage}
    (next : List Envelope) (hc : Tidy js submissions c) (hhealthy : c'.Healthy)
    (hflight : c.fullBuffer = some session)
    (hmessage : StreamMessage.ofLine? session.current line = some message)
    (hfinished : message.isFinished = true)
    (haccepted : c'.accepted = c.accepted ++ session.queued ++ next) (hheld : c'.heldBack = [])
    (horderly : ∀ js, Orderly js none → Orderly (js ++ next.map .fullBuffer) c'.current?) :
    Tidy (js ++ marks c (.receive line) c') (submissions ++ c.submitted (.receive line)) c' := by
  refine hc.advance _ hhealthy (marks_finish hflight hmessage hfinished haccepted) ?_ ?_ ?_
  · simp [haccepted, List.filterMap_cons, Mark.envelope?, List.filterMap_map, Function.comp_def]
  · rw [hheld, heldBack_of_flight hflight]
    simp [List.filterMap_cons, Mark.ordinary?, List.filterMap_map, Function.comp_def, submitted]
  · intro js hjs
    rw [current?_of_flight hflight] at hjs
    have hreleased := (hjs.concat (.finish session.current)).ordinaries session.queued
    have hnext := horderly _ hreleased
    simpa using hnext

theorem move_tidy (h : Move c op c') (hc : Tidy js submissions c) (hop : op.isTraffic = true) :
    Tidy (js ++ marks c op c') (submissions ++ c.submitted op) c' := by
  have hhealthy := h.healthy hc.healthy hop
  obtain ⟨halive, hwriter⟩ := hc.healthy
  cases h with
  | refuse _ hdead => simp [halive] at hdead
  | lose _ _ hclosed => simp [hwriter] at hclosed
  | abandon _ _ _ _ hclosed => simp [hwriter] at hclosed
  | @write waited query _ hidle _ =>
    have hwritten : written c ((c.spend.accept [⟨c.nextId, query⟩]).register waited c.nextId) =
        [⟨c.nextId, query⟩] := written_append (register_accepted ..)
    refine hc.advance [.ordinary ⟨c.nextId, query⟩] hhealthy ?_ ?_ ?_ ?_
    · rw [marks_submit, hwritten]
      rfl
    · exact register_accepted ..
    · rw [submitted_submit halive (.inr hwriter), register_heldBack, heldBack_of_idle hidle,
        heldBack_of_idle (c := c.spend.accept _) hidle]
      rfl
    · intro js hjs
      rw [current?_of_idle hidle] at hjs
      rw [register_current?, current?_of_idle (c := c.spend.accept _) hidle]
      exact hjs.concat (.ordinary _)
  | @hold waited query session _ hflight =>
    have hwritten : written c ((c.spend.hold session ⟨c.nextId, query⟩).register waited c.nextId) =
        [] := written_nil (register_accepted ..)
    refine hc.advance [] hhealthy ?_ ?_ ?_ ?_
    · rw [marks_submit, hwritten]
      rfl
    · exact (register_accepted ..).trans (List.append_nil _).symm
    · rw [submitted_submit halive (.inr hwriter), register_heldBack, heldBack_of_flight hflight]
      rfl
    · intro js hjs
      rw [current?_of_flight hflight] at hjs
      rw [register_current?, List.append_nil]
      exact hjs
  | @launch query _ hidle _ =>
    have hwritten : written c (c.launch query) = [⟨c.nextId, query⟩] := written_append rfl
    refine hc.advance [.fullBuffer ⟨c.nextId, query⟩] hhealthy ?_ rfl ?_ ?_
    · rw [marks, hwritten]
      rfl
    · rw [heldBack_of_idle hidle]
      rfl
    · intro js hjs
      rw [current?_of_idle hidle] at hjs
      exact hjs.concat (.launch _)
  | replace _ hflight =>
    refine hc.quiet hhealthy (marks_of_request rfl rfl) rfl ?_ ?_ rfl
    · simp [heldBack, hflight]
    · simp [current?, hflight]
  | @cancel position session _ hflight _ =>
    have hwritten : written c ((c.spend.accept [⟨c.nextId, .cancel position⟩]).register false
        c.nextId) = [⟨c.nextId, .cancel position⟩] := written_append rfl
    refine hc.advance [.cancel ⟨c.nextId, .cancel position⟩] hhealthy ?_ rfl ?_ ?_
    · rw [marks, hwritten]
      rfl
    · exact (List.append_nil _).symm
    · intro js hjs
      rw [current?_of_flight hflight] at hjs
      rw [register_current?, current?_of_flight (c := c.spend.accept _) hflight]
      exact hjs.concat (.cancel _ _)
  | skip hidle => exact hc.quiet hhealthy (marks_of_request rfl rfl) rfl rfl rfl rfl
  | stream hflight hmessage hgoing =>
    refine hc.quiet hhealthy (marks_nil rfl ?_) rfl rfl rfl rfl
    rintro _ ⟨⟩
    rw [endedBy?_of_message hflight hmessage, if_neg (Bool.eq_false_iff.1 hgoing)]
  | @finish _ session message hflight hmessage hfinished _ =>
    refine hc.finish [] hhealthy hflight hmessage hfinished ?_ rfl ?_
    · rw [List.append_nil]
      exact release_accepted (c := c.emit (.stream message)) hwriter session
    · intro js hjs
      rw [List.map_nil, List.append_nil]
      exact hjs
  | @relaunch _ session message query hflight hmessage hfinished _ _ =>
    refine hc.finish [⟨c.nextId, query⟩] hhealthy hflight hmessage hfinished ?_ rfl ?_
    · exact congrArg (· ++ [_]) (release_accepted (c := c.emit (.stream message)) hwriter session)
    · intro js hjs
      exact hjs.concat (.launch _)
  | aside hmessage haside =>
    have hended := endedBy?_of_none hmessage
    cases haside
    all_goals
      refine hc.quiet hhealthy (marks_nil rfl ?_) rfl rfl rfl rfl
      rintro _ ⟨⟩
      exact hended
  | writer hchange => simp [(traffic_goes_on hop).1] at hchange
  | ended hend => simp [(traffic_goes_on hop).2] at hend
  | again hend => simp [(traffic_goes_on hop).2] at hend

end Moves

-- ---------------------------------------------------------------------------
-- All runs
-- ---------------------------------------------------------------------------

theorem run_tidy (role : Role) (ops : List Op) (htraffic : ∀ op ∈ ops, op.isTraffic = true) :
    Tidy (journal { role } ops) (submissions { role } ops) (run { role } ops) := by
  refine move_induction (P := fun ops c => (∀ op ∈ ops, op.isTraffic = true) →
    Tidy (journal { role } ops) (submissions { role } ops) c) ?_ ?_ ops htraffic
  · exact fun _ => ⟨⟨rfl, rfl⟩, rfl, rfl, .nil⟩
  · intro past op c' ih hmove hstep htraffic
    have hpast := ih fun op hop => htraffic op (List.mem_append_left _ hop)
    have hop := htraffic op (List.mem_append_right _ (List.mem_singleton_self op))
    have htidy := move_tidy hmove hpast hop
    rw [journal, submissions, along_concat, along_concat, ← hstep]
    exact htidy

/-- As long as the writer stays open and the channel alive, the ordinary queries that
were written, followed by those held back, are the accepted ones in the order of
their submission. Between a full-buffer query and the message that ends it nothing is
written but cancels. -/
theorem ordinary_queries_in_order {role : Role} {ops : List Op}
    (htraffic : ∀ op ∈ ops, op.isTraffic = true) :
    (journal { role } ops).filterMap Mark.envelope? = (run { role } ops).accepted ∧
    (journal { role } ops).filterMap Mark.ordinary? ++ (run { role } ops).heldBack =
      submissions { role } ops ∧
    ∀ before e between after,
      journal { role } ops = before ++ .fullBuffer e :: (between ++ after) →
      .finished e.id ∉ between → ∀ m ∈ between, ∃ e', m = .cancel e' := by
  have htidy := run_tidy role ops htraffic
  refine ⟨htidy.complete, htidy.inOrder, ?_⟩
  intro before e between after hjournal hgoing
  have horderly := htidy.orderly
  rw [hjournal, ← List.cons_append, ← List.append_assoc] at horderly
  obtain ⟨s, hs⟩ := horderly.of_append
  exact (hs.window hgoing).2

/-- A sequence is cancelled and another one asked for, while two queries are held
back. -/
def replacedSequence : List Op :=
  [.startFullBuffer (.fullBuffer .full "let x = 1" none),
   .send (.vfsAdd "let y = 2"),
   .cancel ⟨0, 4⟩,
   .startFullBuffer (.fullBuffer .full "let x = 3" none),
   .sendDetached (.vfsAdd "let y = 4"),
   .receive (finishedLine "1.3")]

theorem replacedSequence_in_order :
    (∀ op ∈ replacedSequence, op.isTraffic = true) ∧
    (run { role := .strict } replacedSequence).accepted.map (·.id.number) = [1, 3, 2, 4, 5] ∧
    (submissions { role := .strict } replacedSequence).map (·.id.number) = [2, 4] ∧
    (journal { role := .strict } replacedSequence).filterMap Mark.ordinary? ++
      (run { role := .strict } replacedSequence).heldBack =
      submissions { role := .strict } replacedSequence ∧
    ∀ before e between after,
      journal { role := .strict } replacedSequence = before ++ .fullBuffer e :: (between ++ after) →
      .finished e.id ∉ between → ∀ m ∈ between, ∃ e', m = .cancel e' := by
  have htraffic : ∀ op ∈ replacedSequence, op.isTraffic = true := by
    simp [replacedSequence, Op.isTraffic, Op.isRequest]
  obtain ⟨-, horder, hwindow⟩ := @ordinary_queries_in_order .strict _ htraffic
  exact ⟨htraffic, by decide +kernel, by decide +kernel, horder, hwindow⟩

end VerifierClient.Channel

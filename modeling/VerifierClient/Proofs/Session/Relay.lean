import VerifierClient.Proofs.Channel.Replacement
import VerifierClient.Proofs.Result.Sets
import VerifierClient.Session.Run

/-!
# A side and the queue of its events

Between the channel of a side and its model stands a queue: a line from the verifier
changes the channel at once, and the model only when the session takes the event. A
relay is a side with its queue. Requests, lines and takings come in any order.

* `Channel.Posted` — the events that an operation brings;
* `Relay.step`, `Relay.run` — the effect of a step, and of a list of them;
* `Relay.owed` — the queries whose sequences the model has not yet seen the end of;
* `Relay.Kept` — what holds of a relay after every run;
* `Relay.Kept.owed_issue`, `Relay.Kept.owed_receive`, `Relay.Kept.owed_take_end` — how a
  step changes what is owed;
* `Session.onChannelEvent_side?` — a session gives its events to its sides as a relay does.
-/

namespace VerifierClient

/-- The text that a full-buffer query has checked. -/
def Query.code? (query : Query) : Option String :=
  match query.args with
  | .obj members => (Json.valuesOf "code" members).head?.bind Json.asStr?
  | _ => none

theorem Query.code?_fullBuffer (kind : BufferKind) (code : String) (position : Option Position) :
    (Query.fullBuffer kind code position).code? = some code := rfl

-- ---------------------------------------------------------------------------
-- The texts that a model expects
-- ---------------------------------------------------------------------------

namespace ResultModel

variable {m : ResultModel}

/-- The text of the sequence in flight, and of the one to follow it. -/
def plan (m : ResultModel) : Option String × Option String := (m.inFlightText, m.queuedText)

/-- The texts of the sequences that the model expects, in their order. -/
def expected (m : ResultModel) : List String := m.plan.1.toList ++ m.plan.2.toList

/-- A text is queued only behind another. -/
def Packed (m : ResultModel) : Prop := m.plan.1 = none → m.plan.2 = none

theorem Packed.head?_expected (h : m.Packed) : m.expected.head? = m.plan.1 := by
  cases hfirst : m.plan.1 with
  | none => rw [expected, hfirst, h hfirst]; rfl
  | some text => rw [expected, hfirst]; rfl

theorem Packed.tail_expected (h : m.Packed) : m.expected.tail = m.plan.2.toList := by
  cases hfirst : m.plan.1 with
  | none => rw [expected, hfirst, h hfirst]; rfl
  | some text => rw [expected, hfirst]; rfl

@[simp] theorem updateActive_plan (f : PassResults → PassResults) :
    (m.updateActive f).plan = m.plan := by
  unfold updateActive
  split <;> rfl

@[simp] theorem promote_plan (keep : PassResults → Position → Bool) :
    (m.promote keep).plan = m.plan := by
  unfold promote
  split <;> rfl

@[simp] theorem sequenceStarted_plan : m.sequenceStarted.plan = m.plan := by
  unfold sequenceStarted
  split <;> rfl

@[simp] theorem fragmentStarted_plan (range : Option Range) :
    (m.fragmentStarted range).plan = m.plan := by
  cases range with
  | none => rfl
  | some range =>
    show (m.leaveReplay range.start).plan = m.plan
    unfold leaveReplay
    split
    · rfl
    · exact promote_plan _

@[simp] theorem verdict_plan (range : Option Range) (ok lax : Bool) (digest : Option String) :
    (m.verdict range ok lax digest).plan = m.plan := by
  unfold verdict
  split
  · exact updateActive_plan _
  · cases range with
    | none => rfl
    | some range => exact updateActive_plan _

/-- The end of a sequence makes the queued text that of the next one. -/
theorem sequenceFinished_plan : m.sequenceFinished.plan = (m.plan.2, none) := by
  have hqueued := congrArg Prod.snd
    (promote_plan (m := m) fun shadow pos => PassResults.endOf shadow.fragments ≤ pos)
  exact congrArg (·, none) hqueued

theorem progress_plan {p : Progress} (h : p.stage ≠ .finished) : (m.progress p).plan = m.plan := by
  cases hstage : p.stage with
  | finished => exact absurd hstage h
  | _ => simp [progress, hstage]

@[simp] theorem addNotice_plan (n : Notice) : (m.addNotice n).plan = m.plan := updateActive_plan _

theorem fold_plan {message : StreamMessage} (h : message.isFinished = false) :
    (m.fold message).plan = m.plan := by
  cases message with
  | progress p => exact progress_plan (by simpa [StreamMessage.isFinished] using h)
  | proofState s =>
    simp only [fold]
    split <;> simp
  | diagnostics errors => simp [fold]
  | notice n => simp [fold]

theorem fold_plan_of_finished {message : StreamMessage} (h : message.isFinished = true) :
    (m.fold message).plan = (m.plan.2, none) := by
  cases message with
  | progress p =>
    have hstage : p.stage = .finished := by simpa [StreamMessage.isFinished] using h
    simp only [fold, progress, hstage, sequenceFinished_plan]
  | _ => cases h

theorem requestIssued_plan (text : String) :
    (m.requestIssued text).plan =
      if m.plan.1.isSome then (m.plan.1, some text) else (some text, m.plan.2) := by
  cases hflight : m.inFlightText <;> simp [requestIssued, inSequence, plan, hflight]

end ResultModel

-- ---------------------------------------------------------------------------
-- The events that an operation brings
-- ---------------------------------------------------------------------------

/-- Whether the event ends a sequence. -/
def ChannelEvent.isEnd : ChannelEvent → Bool
  | .stream message => message.isFinished
  | _ => false

namespace Channel

inductive Posted (c : Channel) : Op → List ChannelEvent → Prop
  /-- a message of the sequence in flight -/
  | message {line : String} {id : QueryId} {message : StreamMessage}
      (hflight : c.current? = some id) (hmessage : StreamMessage.ofLine? id line = some message) :
      Posted c (.receive line) [.stream message]
  | notice {line : String} {n : Notice}
      (hline : ∀ id, c.current? = some id → StreamMessage.ofLine? id line = none) :
      Posted c (.receive line) [.notice n]
  | nothing {op : Op}
      (hline : ∀ line id, op = .receive line → c.current? = some id →
        StreamMessage.ofLine? id line = none) : Posted c op []

theorem Move.posted {c c' : Channel} {op : Op} (h : Move c op c') (hop : op.isTraffic = true) :
    ∃ posted, c'.events = c.events ++ posted ∧ Posted c op posted := by
  have hnothing : op.isRequest = true → c'.events = c.events →
      ∃ posted, c'.events = c.events ++ posted ∧ Posted c op posted := by
    intro hrequest hevents
    refine ⟨[], by simp [hevents], .nothing ?_⟩
    rintro line id rfl
    cases hrequest
  have hregister : ∀ (d : Channel) waited id, (d.register waited id).events = d.events := by
    intro d waited id
    cases waited <;> rfl
  cases h with
  | refuse hrequest => exact hnothing hrequest rfl
  | lose hrequest => exact hnothing hrequest rfl
  | write => exact hnothing (isRequest_submit ..) (hregister ..)
  | hold => exact hnothing (isRequest_submit ..) (hregister ..)
  | launch => exact hnothing rfl rfl
  | replace => exact hnothing rfl rfl
  | cancel => exact hnothing rfl rfl
  | skip => exact hnothing rfl rfl
  | stream hflight hmessage => exact ⟨_, rfl, .message (current?_of_flight hflight) hmessage⟩
  | finish hflight hmessage => exact ⟨_, rfl, .message (current?_of_flight hflight) hmessage⟩
  | relaunch hflight hmessage => exact ⟨_, rfl, .message (current?_of_flight hflight) hmessage⟩
  | abandon hflight hmessage => exact ⟨_, rfl, .message (current?_of_flight hflight) hmessage⟩
  | @aside line c' hmessage haside =>
    have hline : ∀ id, c.current? = some id → StreamMessage.ofLine? id line = none := by
      intro id hid
      obtain ⟨session, hflight, rfl⟩ := current?_eq_some_iff.1 hid
      exact hmessage session hflight
    cases haside with
    | notice => exact ⟨_, rfl, .notice hline⟩
    | _ =>
      refine ⟨[], (List.append_nil _).symm, .nothing ?_⟩
      rintro _ id ⟨⟩
      exact hline id
  | writer hchange => simp [(traffic_goes_on hop).1] at hchange
  | ended hend => simp [(traffic_goes_on hop).2] at hend
  | again hend => simp [(traffic_goes_on hop).2] at hend

theorem Open.posted {c : Channel} (hc : c.Open) {op : Op} (hop : op.isTraffic = true) :
    ∃ posted, (c.step op).events = c.events ++ posted ∧ Posted c op posted :=
  (step_move hc.fits op).posted hop

theorem Posted.not_exited {c : Channel} {op : Op} {posted : List ChannelEvent}
    (h : Posted c op posted) (code : Option Int) : .exited code ∉ posted := by
  cases h <;> simp

/-- A message of the sequence in flight is posted. -/
theorem Posted.of_message {c : Channel} {line : String} {posted : List ChannelEvent}
    {id : QueryId} {message : StreamMessage} (h : Posted c (.receive line) posted)
    (hflight : c.current? = some id) (hmessage : StreamMessage.ofLine? id line = some message) :
    posted = [.stream message] := by
  cases h with
  | message hflight' hmessage' =>
    rw [hflight, Option.some.injEq] at hflight'
    rw [← hflight', hmessage, Option.some.injEq] at hmessage'
    rw [hmessage']
  | notice hline =>
    rw [hline id hflight] at hmessage
    cases hmessage
  | nothing hline =>
    rw [hline line id rfl hflight] at hmessage
    cases hmessage

theorem endedBy?_eq_none {c : Channel} {line : String}
    (h : ∀ id, c.current? = some id → StreamMessage.ofLine? id line = none) :
    c.endedBy? line = none := by
  cases hcurrent : c.current? with
  | none => rw [endedBy?, hcurrent, Option.filter_none]
  | some id => simp [endedBy?, hcurrent, Option.filter_some, h id hcurrent]

/-- An event ends a sequence iff its line does. -/
theorem Posted.countP_isEnd {c : Channel} {line : String} {posted : List ChannelEvent}
    (h : Posted c (.receive line) posted) :
    posted.countP ChannelEvent.isEnd = (c.endedBy? line).toList.length := by
  cases h with
  | @message _ id message hflight hmessage =>
    rw [endedBy?, hflight, Option.filter_some, hmessage, Option.any_some, List.countP_singleton,
      ChannelEvent.isEnd]
    cases message.isFinished <;> rfl
  | notice hline => rw [endedBy?_eq_none hline]; rfl
  | nothing hline => rw [endedBy?_eq_none fun id => hline line id rfl]; rfl

theorem Posted.countP_isEnd_quiet {c : Channel} {op : Op} {posted : List ChannelEvent}
    (h : Posted c op posted) (hline : ∀ line, op = .receive line → c.endedBy? line = none) :
    posted.countP ChannelEvent.isEnd = 0 := by
  cases h with
  | message hflight hmessage =>
    rw [(Posted.message hflight hmessage).countP_isEnd, hline _ rfl]
    rfl
  | notice => rfl
  | nothing => rfl

/-- A channel after a run that wrote the full-buffer queries `sent`. -/
structure Accounted (sent : List Envelope) (c : Channel) : Prop where
  isOpen : c.Open
  not_exited : ∀ code, .exited code ∉ c.events
  /-- every sequence has ended but the one in flight -/
  ended : c.events.countP ChannelEvent.isEnd + c.current?.toList.length = sent.length
  /-- the one in flight is that of the last query written -/
  last : ∀ id, c.current? = some id → ∃ e, sent.getLast? = some e ∧ e.id = id

theorem Accounted.step {sent : List Envelope} {c : Channel} (h : Accounted sent c) {op : Op}
    (hop : op.isTraffic = true) :
    Accounted (sent ++ launched c op (c.step op)) (c.step op) := by
  obtain ⟨posted, hevents, hposted⟩ := h.isOpen.posted hop
  have hended := h.ended
  refine ⟨h.isOpen.step hop, ?_, ?_, ?_⟩
  · intro code
    rw [hevents, List.mem_append, not_or]
    exact ⟨h.not_exited code, hposted.not_exited code⟩
  · rw [hevents, List.countP_append, List.length_append]
    cases h.isOpen.turn hop with
    | quiet _ hline hlaunched hcurrent =>
      rw [hlaunched, hcurrent, hposted.countP_isEnd_quiet hline, List.length_nil]
      omega
    | launch hidle hwritten hcurrent =>
      rw [launched_startFullBuffer, hwritten, hcurrent,
        hposted.countP_isEnd_quiet fun _ h => by cases h]
      rw [hidle] at hended
      simpa using hended
    | replace hflight hwritten hcurrent =>
      rw [launched_startFullBuffer, hwritten, hcurrent,
        hposted.countP_isEnd_quiet fun _ h => by cases h]
      rw [hflight] at hended
      simpa using hended
    | @finish _ _ _ next hend _ hwritten hcurrent =>
      rw [launched_of_finish hend hwritten, hcurrent, hposted.countP_isEnd, hend]
      rw [endedBy?_current hend] at hended
      cases next <;> simp at hended ⊢ <;> omega
  · intro id hid
    cases h.isOpen.turn hop with
    | quiet _ _ hlaunched hcurrent =>
      rw [hlaunched, List.append_nil]
      exact h.last id (hcurrent.symm.trans hid)
    | launch _ hwritten hcurrent =>
      rw [launched_startFullBuffer, hwritten]
      rw [hcurrent, Option.some.injEq] at hid
      exact ⟨_, List.getLast?_concat, hid⟩
    | replace hflight hwritten hcurrent =>
      rw [launched_startFullBuffer, hwritten, List.append_nil]
      exact h.last id (hflight.trans (hcurrent.symm.trans hid))
    | @finish _ _ _ next hend _ hwritten hcurrent =>
      rw [launched_of_finish hend hwritten]
      rw [hcurrent] at hid
      cases next with
      | none => cases hid
      | some e => exact ⟨e, List.getLast?_concat, Option.some.inj hid⟩

theorem Accounted.run {sent : List Envelope} {c : Channel} (h : Accounted sent c) {ops : List Op}
    (htraffic : ∀ op ∈ ops, op.isTraffic = true) :
    Accounted (sent ++ launches c ops) (c.run ops) := by
  induction ops generalizing sent c with
  | nil =>
    rw [launches, along, List.append_nil]
    exact h
  | cons op rest ih =>
    have hrest := ih (h.step (htraffic op List.mem_cons_self))
      fun op hop => htraffic op (List.mem_cons_of_mem _ hop)
    rw [List.append_assoc] at hrest
    exact hrest

theorem new_accounted (role : Role) : Accounted [] { role } :=
  ⟨new_open role, fun _ => List.not_mem_nil, rfl, nofun⟩

theorem closeWriter_events (c : Channel) : c.closeWriter.events = c.events := by
  obtain ⟨writer, heq⟩ := c.closeWriter_eq
  rw [heq]

/-- Events are only added. -/
theorem step_events {c : Channel} (hfit : c.Fits) (op : Op) :
    ∃ posted, (c.step op).events = c.events ++ posted := by
  have hsame : (c.step op).events = c.events →
      ∃ posted, (c.step op).events = c.events ++ posted := fun h => ⟨[], by simp [h]⟩
  by_cases htraffic : op.isTraffic = true
  · obtain ⟨posted, hevents, -⟩ := (step_move hfit op).posted htraffic
    exact ⟨posted, hevents⟩
  · cases op with
    | breakWriter =>
      refine hsame ?_
      show c.breakWriter.events = c.events
      unfold breakWriter
      split <;> rfl
    | closeWriter => exact hsame c.closeWriter_events
    | markExited code =>
      show ∃ posted, (c.markExited code).events = c.events ++ posted
      unfold markExited
      split
      · exact ⟨[], (List.append_nil _).symm⟩
      · dsimp only
        split
        · exact ⟨[], (List.append_nil _).symm⟩
        · exact ⟨_, rfl⟩
    | dispose =>
      refine hsame ?_
      show c.dispose.events = c.events
      unfold dispose
      split
      · rfl
      · exact closeWriter_events _
    | _ => exact absurd rfl htraffic

theorem run_events {c : Channel} (hfit : c.Fits) (ops : List Op) :
    ∃ posted, (c.run ops).events = c.events ++ posted := by
  induction ops generalizing c with
  | nil => exact ⟨[], (List.append_nil _).symm⟩
  | cons op rest ih =>
    obtain ⟨posted, hposted⟩ := step_events hfit op
    obtain ⟨more, hmore⟩ := ih ((step_move hfit op).fits hfit)
    refine ⟨posted ++ more, ?_⟩
    rw [← List.append_assoc, ← hposted]
    exact hmore

theorem launches_singleton (c : Channel) (op : Op) : c.launches [op] = launched c op (c.step op) :=
  List.append_nil _

end Channel

-- ---------------------------------------------------------------------------
-- Relays
-- ---------------------------------------------------------------------------

/-- Gives the model an event of the channel. -/
def Side.absorb (side : Side) : ChannelEvent → Side
  | .stream message => side.fold message
  | .notice n => side.addNotice n
  | .exited _ => side.onModel ResultModel.channelExited

namespace Session

variable (s : Session)

@[simp] theorem emit_side? (event : SessionEvent) (role : Role) :
    (s.emit event).side? role = s.side? role := by
  cases role <;> rfl

@[simp] theorem publish_side? (role : Role) : s.publish.side? role = s.side? role := by
  unfold publish publishStatus publishDiagnostics
  cases role <;> (split <;> split <;> rfl)

theorem onSide_side? (role : Role) (f : Side → Side) :
    (s.onSide role f).side? role = (s.side? role).map f := by
  cases role <;> rfl

/-- The side that an event comes from absorbs it. -/
theorem onChannelEvent_side? (role : Role) (event : ChannelEvent) :
    (s.onChannelEvent role event).side? role = (s.side? role).map (·.absorb event) := by
  rw [← onSide_side?]
  cases event with
  | stream message =>
    rw [onChannelEvent, onStream]
    cases message.isFinished with
    | true =>
      rw [if_pos rfl, emit_side?, publish_side?]
      cases role <;> rfl
    | false => cases role <;> rfl
  | notice n => cases role <;> rfl
  | exited code =>
    rw [onChannelEvent, publish_side?, alert, emit_side?]
    rfl

end Session

/-- A side of whose events the session has taken the first `taken`. -/
structure Relay where
  side : Side
  taken : Nat := 0

namespace Relay

inductive Step where
  /-- the session has a text checked -/
  | issue (kind : BufferKind) (text : String) (position : Option Position)
  /-- a line comes from the verifier -/
  | receive (line : String)
  /-- the session takes the next event -/
  | take

/-- What a step does on the channel. -/
def Step.ops : Step → List Channel.Op
  | .issue kind text position => [.startFullBuffer (.fullBuffer kind text position)]
  | .receive line => [.receive line]
  | .take => []

/-- A verifier that has just been launched. -/
def new (role : Role) (path text : String) : Relay := { side := .new role path text }

def channel (r : Relay) : Channel := r.side.channel

def model (r : Relay) : ResultModel := r.side.model

/-- The event to be taken next. -/
def next? (r : Relay) : Option ChannelEvent := r.channel.events[r.taken]?

def take (r : Relay) : Relay :=
  match r.next? with
  | some event => ⟨r.side.absorb event, r.taken + 1⟩
  | none => r

def step (r : Relay) : Step → Relay
  | .issue kind text position => { r with side := (r.side.issue kind text position).1 }
  | .receive line => { r with side := r.side.onChannel fun c => c.receive line }
  | .take => r.take

def run (r : Relay) (steps : List Step) : Relay := steps.foldl step r

theorem run_append (r : Relay) (past rest : List Step) :
    r.run (past ++ rest) = (r.run past).run rest :=
  List.foldl_append ..

theorem run_concat (r : Relay) (past : List Step) (s : Step) :
    r.run (past ++ [s]) = (r.run past).step s :=
  run_append r past [s]

@[simp] theorem absorb_channel (side : Side) (event : ChannelEvent) :
    (side.absorb event).channel = side.channel := by
  cases event <;> rfl

/-- The end of a sequence makes the queued text that of the next one, and other events
leave both. -/
theorem absorb_plan {side : Side} {event : ChannelEvent} (h : ∀ code, event ≠ .exited code) :
    (side.absorb event).model.plan =
      if event.isEnd then (side.model.plan.2, none) else side.model.plan := by
  cases event with
  | stream message =>
    rw [ChannelEvent.isEnd]
    cases hfinished : message.isFinished with
    | false => exact ResultModel.fold_plan hfinished
    | true => exact ResultModel.fold_plan_of_finished hfinished
  | notice n => exact ResultModel.addNotice_plan n
  | exited code => exact absurd rfl (h code)

theorem take_of_next {r : Relay} {event : ChannelEvent} (h : r.next? = some event) :
    r.take = ⟨r.side.absorb event, r.taken + 1⟩ := by
  rw [take, h]

theorem step_take_channel (r : Relay) : (r.step .take).channel = r.channel := by
  show r.take.channel = r.channel
  cases hnext : r.next? with
  | none => rw [take, hnext]
  | some event =>
    rw [take_of_next hnext]
    exact absorb_channel ..

theorem issue_channel (side : Side) (kind : BufferKind) (text : String)
    (position : Option Position) :
    (side.issue kind text position).1.channel =
      (side.channel.startFullBuffer (.fullBuffer kind text position)).1 := by
  unfold Side.issue
  cases hresult : side.channel.startFullBuffer (.fullBuffer kind text position) with
  | mk c result => cases result <;> rfl

/-- A step does its part on the channel. -/
theorem step_channel (r : Relay) (s : Step) : (r.step s).channel = r.channel.run s.ops := by
  cases s with
  | issue kind text position => exact issue_channel ..
  | receive line => rfl
  | take => exact r.step_take_channel

theorem run_channel (r : Relay) (steps : List Step) :
    (r.run steps).channel = r.channel.run (steps.flatMap Step.ops) := by
  induction steps generalizing r with
  | nil => rfl
  | cons s steps ih =>
    rw [List.flatMap_cons, Channel.run_append, ← step_channel]
    exact ih (r.step s)

theorem isTraffic_of_mem_ops {s : Step} : ∀ op ∈ s.ops, op.isTraffic = true := by
  cases s <;> simp [Step.ops, Channel.Op.isTraffic, Channel.Op.isRequest]

/-- On an open channel the model learns of every text. -/
theorem issue_model {side : Side} (hc : side.channel.Open) (kind : BufferKind) (text : String)
    (position : Option Position) :
    (side.issue kind text position).1.model = side.model.requestIssued text := by
  have hok := hc.accepts (.fullBuffer kind text position)
  unfold Side.issue
  cases hresult : side.channel.startFullBuffer (.fullBuffer kind text position) with
  | mk c result =>
    rw [hresult] at hok
    cases hok
    rfl

-- ---------------------------------------------------------------------------
-- What is owed to the model
-- ---------------------------------------------------------------------------

/-- How many ends of sequences the session has taken. -/
def seen (r : Relay) : Nat := (r.channel.events.take r.taken).countP ChannelEvent.isEnd

/-- How many sequences were begun whose end the session has not taken. -/
def unsettled (r : Relay) : Nat :=
  (r.channel.events.drop r.taken).countP ChannelEvent.isEnd + r.channel.current?.toList.length

/-- Of the full-buffer queries `sent` and the one that waits, those whose sequence the
model has not seen the end of. -/
def owed (sent : List Envelope) (r : Relay) : List Query :=
  (sent.drop r.seen).map Envelope.query ++ r.channel.waiting?.toList

/-- A relay after a run in which the full-buffer queries `sent` were written. -/
structure Kept (sent : List Envelope) (r : Relay) : Prop where
  accounted : r.channel.Accounted sent
  taken_le : r.taken ≤ r.channel.events.length
  packed : r.model.Packed

section Steps

variable {sent : List Envelope} {r : Relay}

theorem new_kept (role : Role) (path text : String) : Kept [] (new role path text) :=
  ⟨Channel.new_accounted role, Nat.zero_le _, fun _ => rfl⟩

theorem Kept.seen_add_unsettled (h : Kept sent r) : r.seen + r.unsettled = sent.length := by
  have hsplit : r.channel.events.countP ChannelEvent.isEnd =
      r.seen + (r.channel.events.drop r.taken).countP ChannelEvent.isEnd := by
    rw [seen, ← List.countP_append, List.take_append_drop]
  rw [← h.accounted.ended, hsplit, unsettled, Nat.add_assoc]

theorem Kept.length_drop_seen (h : Kept sent r) : (sent.drop r.seen).length = r.unsettled := by
  rw [List.length_drop, ← h.seen_add_unsettled, Nat.add_sub_cancel_left]

theorem Kept.drop_seen_append (h : Kept sent r) (further : List Envelope) :
    (sent ++ further).drop r.seen = sent.drop r.seen ++ further :=
  List.drop_append_of_le_length (h.seen_add_unsettled ▸ Nat.le_add_right ..)

theorem step_events (hc : r.channel.Open) (s : Step) :
    ∃ posted, (r.step s).channel.events = r.channel.events ++ posted := by
  rw [step_channel]
  exact Channel.run_events hc.fits _

theorem next?_lt {event : ChannelEvent} (h : r.next? = some event) :
    r.taken < r.channel.events.length :=
  (List.getElem?_eq_some_iff.1 h).1

theorem step_taken_le (hc : r.channel.Open) (hle : r.taken ≤ r.channel.events.length) (s : Step) :
    (r.step s).taken ≤ (r.step s).channel.events.length := by
  obtain ⟨posted, hevents⟩ := step_events hc s
  rw [hevents, List.length_append]
  cases s with
  | issue => exact Nat.le_add_right_of_le hle
  | receive => exact Nat.le_add_right_of_le hle
  | take =>
    show r.take.taken ≤ _
    cases hnext : r.next? with
    | none =>
      rw [take, hnext]
      exact Nat.le_add_right_of_le hle
    | some event =>
      rw [take_of_next hnext]
      exact Nat.le_add_right_of_le (next?_lt hnext)

/-- What the session takes is no exit. -/
theorem Kept.next?_ne_exited (h : Kept sent r) {event : ChannelEvent}
    (hnext : r.next? = some event) (code : Option Int) : event ≠ .exited code := by
  rintro rfl
  exact h.accounted.not_exited code (List.mem_of_getElem? hnext)

theorem Kept.plan_issue (h : Kept sent r) (kind : BufferKind) (text : String)
    (position : Option Position) :
    (r.step (.issue kind text position)).model.plan =
      if r.model.plan.1.isSome then (r.model.plan.1, some text)
      else (some text, r.model.plan.2) := by
  have hmodel : (r.step (.issue kind text position)).model = r.model.requestIssued text :=
    issue_model h.accounted.isOpen kind text position
  rw [hmodel, ResultModel.requestIssued_plan]

theorem Kept.plan_take (h : Kept sent r) {event : ChannelEvent} (hnext : r.next? = some event) :
    (r.step .take).model.plan =
      if event.isEnd then (r.model.plan.2, none) else r.model.plan := by
  have hstep : r.step .take = ⟨r.side.absorb event, r.taken + 1⟩ := take_of_next hnext
  rw [hstep]
  exact absorb_plan (h.next?_ne_exited hnext)

theorem take_of_empty (h : r.next? = none) : r.step .take = r := by
  show r.take = r
  rw [take, h]

theorem Kept.step_packed (h : Kept sent r) (s : Step) : (r.step s).model.Packed := by
  have hpacked := h.packed
  cases s with
  | issue kind text position =>
    rw [ResultModel.Packed, h.plan_issue]
    cases hfirst : r.model.plan.1 <;> simp
  | receive line => exact hpacked
  | take =>
    cases hnext : r.next? with
    | none =>
      rw [take_of_empty hnext]
      exact hpacked
    | some event =>
      rw [ResultModel.Packed, h.plan_take hnext]
      split
      · exact fun _ => rfl
      · exact hpacked

theorem Kept.step (h : Kept sent r) (s : Step) :
    Kept (sent ++ r.channel.launches s.ops) (r.step s) := by
  refine ⟨?_, step_taken_le h.accounted.isOpen h.taken_le s, h.step_packed s⟩
  rw [step_channel]
  exact h.accounted.run isTraffic_of_mem_ops

/-- What the channel posts does not change which ends were seen. -/
theorem Kept.seen_step (h : Kept sent r) {s : Step} (htaken : (r.step s).taken = r.taken) :
    (r.step s).seen = r.seen := by
  obtain ⟨posted, hevents⟩ := step_events h.accounted.isOpen s
  rw [seen, htaken, hevents, List.take_append_of_le_length h.taken_le, seen]

/-- A query that is issued is owed, in the place of the one that waited. -/
theorem Kept.owed_issue (h : Kept sent r) (kind : BufferKind) (text : String)
    (position : Option Position) :
    owed (sent ++ r.channel.launches (Step.issue kind text position).ops)
        (r.step (.issue kind text position)) =
      (sent.drop r.seen).map Envelope.query ++ [.fullBuffer kind text position] := by
  have hseen := h.seen_step (s := .issue kind text position) rfl
  have hop : (Channel.Op.startFullBuffer (.fullBuffer kind text position)).isTraffic = true := rfl
  have hturn := h.accounted.isOpen.turn hop
  rw [owed, hseen, step_channel, Step.ops, Channel.launches_singleton,
    h.drop_seen_append, List.map_append]
  have hrun : r.channel.run [.startFullBuffer (.fullBuffer kind text position)] =
      r.channel.step (.startFullBuffer (.fullBuffer kind text position)) := rfl
  rw [hrun, Channel.launched_startFullBuffer]
  cases hturn with
  | quiet hother => exact absurd rfl (hother _)
  | launch _ hwritten _ hwaiting =>
    rw [hwritten, hwaiting]
    simp
  | replace _ hwritten _ hwaiting =>
    rw [hwritten, hwaiting]
    simp

/-- When a sequence ends, the query that waited is written, and it is still owed. -/
theorem Kept.owed_receive (h : Kept sent r) (line : String) :
    owed (sent ++ r.channel.launches (Step.receive line).ops) (r.step (.receive line)) =
      owed sent r := by
  have hseen := h.seen_step (s := .receive line) rfl
  have hop : (Channel.Op.receive line).isTraffic = true := rfl
  have hturn := h.accounted.isOpen.turn hop
  have hrun : r.channel.run [.receive line] = r.channel.step (.receive line) := rfl
  rw [owed, hseen, step_channel, Step.ops, Channel.launches_singleton,
    h.drop_seen_append, List.map_append, hrun, List.append_assoc, owed]
  cases hturn with
  | quiet _ _ hlaunched _ hwaiting => rw [hlaunched, hwaiting, List.map_nil, List.nil_append]
  | @finish _ _ _ next hended hnext hwritten _ hwaiting =>
    rw [Channel.launched_of_finish hended hwritten, hwaiting, ← hnext]
    simp [Option.toList_map]

theorem Kept.take (h : Kept sent r) : Kept sent (r.step .take) := by
  have hstep := h.step .take
  rw [Step.ops, Channel.launches, Channel.along, List.append_nil] at hstep
  exact hstep

theorem seen_take {event : ChannelEvent} (h : r.next? = some event) :
    (r.step .take).seen = r.seen + if event.isEnd then 1 else 0 := by
  have htake : r.channel.events.take (r.taken + 1) = r.channel.events.take r.taken ++ [event] := by
    rw [List.take_add_one]
    exact congrArg (_ ++ ·.toList) h
  have hstep : r.step .take = ⟨r.side.absorb event, r.taken + 1⟩ := take_of_next h
  rw [seen, step_take_channel, hstep, htake, List.countP_append, List.countP_singleton, seen]

theorem owed_take_going {event : ChannelEvent} (hnext : r.next? = some event)
    (hgoing : event.isEnd = false) (sent : List Envelope) :
    owed sent (r.step .take) = owed sent r := by
  have hseen := seen_take hnext
  rw [if_neg (Bool.eq_false_iff.1 hgoing), Nat.add_zero] at hseen
  rw [owed, hseen, step_take_channel, owed]

/-- The end of a sequence settles the first query that is owed. -/
theorem Kept.owed_take_end (h : Kept sent r) {event : ChannelEvent} (hnext : r.next? = some event)
    (hend : event.isEnd = true) : ∃ query, owed sent r = query :: owed sent (r.step .take) := by
  have hseen := seen_take hnext
  rw [if_pos hend] at hseen
  have hlt : r.seen < sent.length := by
    have := h.take.seen_add_unsettled
    omega
  refine ⟨sent[r.seen].query, ?_⟩
  rw [owed, owed, hseen, step_take_channel, List.drop_eq_getElem_cons hlt]
  rfl

end Steps

-- ---------------------------------------------------------------------------
-- All runs
-- ---------------------------------------------------------------------------

/-- The full-buffer queries that the steps have written to a verifier of the given role. -/
def sentBy (role : Role) (steps : List Step) : List Envelope :=
  Channel.launches { role } (steps.flatMap Step.ops)

theorem sentBy_append (role : Role) (past rest : List Step) :
    sentBy role (past ++ rest) = sentBy role past ++
      (Channel.run { role } (past.flatMap Step.ops)).launches (rest.flatMap Step.ops) := by
  rw [sentBy, List.flatMap_append, Channel.launches, Channel.along_append]
  rfl

theorem run_new_channel (role : Role) (path text : String) (steps : List Step) :
    ((new role path text).run steps).channel = Channel.run { role } (steps.flatMap Step.ops) :=
  run_channel _ steps

theorem sentBy_concat (role : Role) (path text : String) (past : List Step) (s : Step) :
    sentBy role (past ++ [s]) =
      sentBy role past ++ ((new role path text).run past).channel.launches s.ops := by
  rw [sentBy_append, run_new_channel, List.flatMap_singleton]

theorem run_kept (role : Role) (path text : String) (steps : List Step) :
    Kept (sentBy role steps) ((new role path text).run steps) := by
  induction steps using List.reverseRecOn with
  | nil => exact new_kept role path text
  | append_singleton past s ih =>
    rw [sentBy_concat role path text, run_concat]
    exact ih.step s

end Relay

end VerifierClient

import VerifierClient.Proofs.Channel.Stranding
import VerifierClient.Proofs.Line.Reader
import VerifierClient.Proofs.Result.Authority
import VerifierClient.Proofs.Session.Edits

/-!
# The mark of a bounded request

When the text is to be checked up to a position, the session marks the part that waits to be
checked. The mark is set before the request is made, and it is taken back when a sequence of the
strict verifier ends. A request that the channel refuses, and the end of the verifier, leave it
in place.

* `Channel.Stuck` — no sequence is in flight and none can start;
* `Front.Calm` — a step of the strict half without a bounded request, `Session.act_calm`;
* `Front.Marked` — what a mark stands for, given whether the last bounded request was taken;
* `Session.mark_backed_iff` — a mark stands for work in flight exactly when the last bounded
  request was taken and the verifier has not ended.
-/

namespace VerifierClient

-- ---------------------------------------------------------------------------
-- Sequences in flight
-- ---------------------------------------------------------------------------

namespace Channel

variable {c c' : Channel} {op : Op}

/-- No sequence is in flight, and none can start. -/
def Stuck (c : Channel) : Prop := c.inFlight = false ∧ ¬ c.Healthy

theorem inFlight_eq_false_iff : c.inFlight = false ↔ c.fullBuffer = none := by
  rw [inFlight, Option.isSome_eq_false_iff, Option.isNone_iff_eq_none]

/-- A channel that has ended or lost its writer starts no sequence. -/
theorem Move.stuck (h : Move c op c') (hc : c.Stuck) : c'.Stuck := by
  refine ⟨?_, fun hhealthy => hc.2 (h.healthy_before hhealthy)⟩
  have hidle := inFlight_eq_false_iff.1 hc.1
  have hnone : ∀ session, c.fullBuffer ≠ some session := by simp [hidle]
  rw [inFlight_eq_false_iff]
  cases h with
  | write => exact (register_fullBuffer ..).trans hidle
  | hold _ hflight => exact absurd hflight (hnone _)
  | launch halive _ hwriter => exact absurd ⟨halive, hwriter⟩ hc.2
  | replace _ hflight => exact absurd hflight (hnone _)
  | cancel _ hflight => exact absurd hflight (hnone _)
  | stream hflight => exact absurd hflight (hnone _)
  | finish hflight => exact absurd hflight (hnone _)
  | relaunch hflight => exact absurd hflight (hnone _)
  | abandon hflight => exact absurd hflight (hnone _)
  | aside _ haside => cases haside <;> exact hidle
  | ended _ hend => exact hend.fullBuffer
  | _ => exact hidle

/-- A sequence in flight stays so until its last message comes or the channel ends. -/
theorem Move.inFlight (h : Move c op c') (hc : c.inFlight = true) :
    c'.inFlight = true ∨ c'.isAlive = false ∨
      ∃ line, op = .receive line ∧ c.endedBy? line ≠ none := by
  have hregister : ∀ (d : Channel) waited id, (d.register waited id).inFlight = d.inFlight := by
    intro d waited id
    cases waited <;> rfl
  have hended : ∀ {line session message}, c.fullBuffer = some session →
      StreamMessage.ofLine? session.current line = some message → message.isFinished = true →
      c.endedBy? line ≠ none := by
    intro line session message hflight hmessage hfinished
    rw [endedBy?_of_message hflight hmessage, if_pos hfinished]
    exact Option.some_ne_none _
  cases h with
  | write => exact .inl ((hregister ..).trans hc)
  | hold => exact .inl (hregister ..)
  | launch => exact .inl rfl
  | replace => exact .inl rfl
  | cancel => exact .inl ((hregister ..).trans hc)
  | finish hflight hmessage hfinished =>
    exact .inr (.inr ⟨_, rfl, hended hflight hmessage hfinished⟩)
  | relaunch => exact .inl rfl
  | abandon hflight hmessage hfinished =>
    exact .inr (.inr ⟨_, rfl, hended hflight hmessage hfinished⟩)
  | aside _ haside => cases haside <;> exact .inl hc
  | ended _ hend => exact .inr (.inl hend.dead)
  | _ => exact .inl hc

theorem fits_after (hfit : c.Fits) (ops : List Op) : (c.run ops).Fits :=
  run_induction (P := fun _ c => c.Fits) hfit (fun _ op h => (step_move h op).fits h) ops

theorem Stuck.run (hc : c.Stuck) (hfit : c.Fits) (ops : List Op) : (c.run ops).Stuck :=
  run_induction (P := fun _ c => c.Stuck) hc
    (fun past op h => (step_move (fits_after hfit past) op).stuck h) ops

theorem isAlive_after (hfit : c.Fits) (hdead : c.isAlive = false) (ops : List Op) :
    (c.run ops).isAlive = false :=
  run_induction (P := fun _ c => c.isAlive = false) hdead
    (fun past op h => isAlive_step (fits_after hfit past) h op) ops

/-- A sequence in flight stays so, or the session hears of its end. -/
theorem inFlight_after (hfit : c.Fits) (hc : c.inFlight = true) (ops : List Op) :
    (c.run ops).inFlight = true ∨ (c.run ops).isAlive = false ∨
      ∃ event ∈ fresh c (c.run ops), event.isEnd = true := by
  refine run_induction (P := fun _ c' => c'.inFlight = true ∨ c'.isAlive = false ∨
    ∃ event ∈ fresh c c', event.isEnd = true) (.inl hc) ?_ ops
  intro past op hpast
  have hfit' := fits_after hfit past
  obtain ⟨posted, hposted⟩ := run_events hfit past
  obtain ⟨more, hmore⟩ := step_events hfit' op
  have hfresh := fresh_trans hposted hmore
  rcases hpast with hflight | hdead | ⟨event, hmem, hend⟩
  · rcases (step_move hfit' op).inFlight hflight with hflight' | hdead | ⟨line, rfl, hended⟩
    · exact .inl hflight'
    · exact .inr (.inl hdead)
    · obtain ⟨event, hmem, hend⟩ := Front.exists_end_of_finish hfit' hended
      exact .inr (.inr ⟨event, hfresh ▸ List.mem_append_right _ hmem, hend⟩)
  · exact .inr (.inl (isAlive_step hfit' hdead op))
  · exact .inr (.inr ⟨event, hfresh ▸ List.mem_append_left _ hmem, hend⟩)

/-- Requests tell the session nothing. -/
theorem step_events_of_request (hfit : c.Fits) (htraffic : op.isTraffic = true)
    (hop : ∀ line, op ≠ .receive line) : (c.step op).events = c.events := by
  obtain ⟨posted, hevents, hposted⟩ := (step_move hfit op).posted htraffic
  cases hposted with
  | nothing => rw [hevents, List.append_nil]
  | message => exact absurd rfl (hop _)
  | notice => exact absurd rfl (hop _)

-- ---------------------------------------------------------------------------
-- Requests for sequences
-- ---------------------------------------------------------------------------

/-- A full-buffer query is refused by a channel that is stuck afterwards; any other is in flight
or waits behind the one that is. -/
theorem startFullBuffer_outcome (hproper : c.Proper) (query : Query) :
    c.refuses (.startFullBuffer query) = true ∧ (c.step (.startFullBuffer query)).Stuck ∨
      c.refuses (.startFullBuffer query) = false ∧
        (c.step (.startFullBuffer query)).inFlight = true := by
  have hrefuses : c.refuses (.startFullBuffer query) = !(c.startFullBuffer query).2.isOk := rfl
  have hstep : c.step (.startFullBuffer query) = (c.startFullBuffer query).1 := rfl
  rw [hrefuses, hstep, startFullBuffer]
  by_cases halive : c.isAlive = true
  · rw [if_pos halive]
    rcases hflight : c.fullBuffer with _ | session
    · by_cases hwriter : c.isWritable = true
      · rw [dispatchFullBuffer_of_writable hwriter]
        exact .inr ⟨rfl, rfl⟩
      · rw [dispatchFullBuffer_of_closed (Bool.eq_false_iff.2 hwriter)]
        exact .inl ⟨rfl, inFlight_eq_false_iff.2 hflight, fun hhealthy => hwriter hhealthy.2⟩
    · exact .inr ⟨rfl, rfl⟩
  · rw [if_neg halive]
    have hidle := hproper.idle (Bool.eq_false_iff.2 halive)
    exact .inl ⟨rfl, inFlight_eq_false_iff.2 hidle, fun hhealthy => halive hhealthy.1⟩

end Channel

-- ---------------------------------------------------------------------------
-- Steps without a bounded request
-- ---------------------------------------------------------------------------

namespace Front

variable {f f' : Front} {granted : Bool}

/-- The strict half goes on without a bounded request: the channel works and tells what happens,
the session hears an event, or the channel has ended. No mark is set where there was none. -/
inductive Calm (f f' : Front) : Prop
  | work (ops : List Channel.Op) (hchannel : f'.channel = f.channel.run ops)
      (hunseen : f'.unseen = f.unseen ++ Channel.fresh f.channel f'.channel)
      (hmark : f'.startedTo ≠ none → f.startedTo ≠ none)
  | hear (event : ChannelEvent) (hchannel : f'.channel = f.channel)
      (hunseen : f.unseen = event :: f'.unseen)
      (hmark : f'.startedTo ≠ none → f.startedTo ≠ none ∧ event.isEnd = false)
  | ended (ops : List Channel.Op) (hchannel : f'.channel = f.channel.run ops)
      (hdead : f'.channel.isAlive = false) (hmark : f'.startedTo ≠ none → f.startedTo ≠ none)

theorem Calm.of_quiet (ops : List Channel.Op) (hchannel : f'.channel = f.channel.run ops)
    (hevents : f'.channel.events = f.channel.events) (hunseen : f'.unseen = f.unseen)
    (hmark : f'.startedTo ≠ none → f.startedTo ≠ none) : f.Calm f' := by
  refine .work ops hchannel ?_ hmark
  rw [Channel.fresh_of_same hevents, List.append_nil, hunseen]

theorem Calm.of_same (hchannel : f'.channel = f.channel) (hunseen : f'.unseen = f.unseen)
    (hmark : f'.startedTo ≠ none → f.startedTo ≠ none) : f.Calm f' :=
  .of_quiet [] hchannel (by rw [hchannel]) hunseen hmark

/-- Plans do not matter. -/
theorem Calm.of_planned {due : Bool} (h : ({ f with due } : Front).Calm f') : f.Calm f' := by
  cases h with
  | work ops hchannel hunseen hmark => exact .work ops hchannel hunseen hmark
  | hear event hchannel hunseen hmark => exact .hear event hchannel hunseen hmark
  | ended ops hchannel hdead hmark => exact .ended ops hchannel hdead hmark

/-- What a mark stands for. If the last bounded request was taken, it is work in flight, until
the session hears of an end or the verifier ends; if it was refused, it is nothing, now and
later. -/
structure Marked (f : Front) (granted : Bool) : Prop where
  taken : granted = true → f.startedTo ≠ none → (∀ event ∈ f.unseen, event.isEnd = false) →
    f.channel.inFlight = true ∨ f.channel.isAlive = false
  refused : granted = false → f.startedTo ≠ none → f.channel.Stuck

theorem Marked.calm (hf : f.Sound) (h : f.Marked granted) (hcalm : f.Calm f') :
    f'.Marked granted := by
  have hfit := hf.sorted.proper.fits
  cases hcalm with
  | work ops hchannel hunseen hmark =>
    refine ⟨fun hgranted hmarked hheard => ?_, fun hrefused hmarked => ?_⟩
    · rw [hunseen, hchannel] at hheard
      have hbefore := h.taken hgranted (hmark hmarked) fun event hmem =>
        hheard event (List.mem_append_left _ hmem)
      rw [hchannel]
      rcases hbefore with hflight | hdead
      · rcases Channel.inFlight_after hfit hflight ops with hflight' | hdead' | ⟨event, hmem, hend⟩
        · exact .inl hflight'
        · exact .inr hdead'
        · rw [hheard event (List.mem_append_right _ hmem)] at hend
          cases hend
      · exact .inr (Channel.isAlive_after hfit hdead ops)
    · rw [hchannel]
      exact (h.refused hrefused (hmark hmarked)).run hfit ops
  | hear event hchannel hunseen hmark =>
    refine ⟨fun hgranted hmarked hheard => ?_, fun hrefused hmarked => ?_⟩
    · obtain ⟨hbefore, hgoing⟩ := hmark hmarked
      rw [hchannel]
      refine h.taken hgranted hbefore ?_
      rw [hunseen]
      exact List.forall_mem_cons.2 ⟨hgoing, hheard⟩
    · rw [hchannel]
      exact h.refused hrefused (hmark hmarked).1
  | ended ops hchannel hdead hmark =>
    refine ⟨fun _ _ _ => .inr hdead, fun hrefused hmarked => ?_⟩
    rw [hchannel]
    exact (h.refused hrefused (hmark hmarked)).run hfit ops

/-- A bounded request sets a mark, whether it is taken or not. -/
theorem Marked.of_request (hf : f.Sound) (kind : BufferKind) (position : Option Position)
    (startedTo : Option Position) (due : Bool) :
    ({ f.request kind position with startedTo, due } : Front).Marked
      (!f.channel.refuses (.startFullBuffer (.fullBuffer kind f.text position))) := by
  obtain ⟨lastSent, heq⟩ := f.request_eq kind position
  rw [heq]
  rcases Channel.startFullBuffer_outcome hf.sorted.proper (.fullBuffer kind f.text position)
    with ⟨hrefused, hstuck⟩ | ⟨htaken, hflight⟩
  · rw [hrefused]
    exact ⟨fun h => absurd h (by simp), fun _ _ => hstuck⟩
  · rw [htaken]
    exact ⟨fun _ _ _ => .inl hflight, fun h => absurd h (by simp)⟩

theorem edit_calm (hf : f.Sound) (text : String) (due : Bool) :
    f.Calm { f.edit text with due } := by
  unfold edit
  split
  · exact .of_same rfl rfl id
  · split
    · refine .of_quiet [.cancel _] rfl ?_ rfl fun hmark hnone => hmark ?_
      · exact Channel.step_events_of_request hf.sorted.proper.fits rfl (by simp)
      · show f.startedTo.map _ = none
        rw [hnone]
        rfl
    · exact .of_same rfl rfl id

/-- A request for the whole text keeps the mark or takes it back. -/
theorem request_calm (hf : f.Sound) (kind : BufferKind) {startedTo : Option Position}
    (hmark : startedTo ≠ none → f.startedTo ≠ none) (due : Bool) :
    f.Calm { f.request kind none with startedTo, due } := by
  obtain ⟨lastSent, heq⟩ := f.request_eq kind none
  rw [heq]
  refine .of_quiet [.startFullBuffer _] rfl ?_ rfl hmark
  exact Channel.step_events_of_request hf.sorted.proper.fits rfl (by simp)

theorem submit_calm (waited : Bool) (query : Query) :
    f.Calm { f with channel := (f.channel.submit waited query).1 } := by
  refine .of_quiet [.submit waited query] ?_ (f.channel.submit_events waited query) rfl id
  rcases waited with _ | _ <;> rfl

theorem dispose_calm : f.Calm f.dispose :=
  .ended [.dispose] rfl f.channel.isAlive_dispose id

end Front

-- ---------------------------------------------------------------------------
-- Sessions
-- ---------------------------------------------------------------------------

namespace Session

variable {s s' : Session}

/-- Where the step handles a bounded request, whether the strict verifier takes it. -/
def grant? (s : Session) : Step → Option Bool
  | .command =>
    match s.commands with
    | .requestTo position lax :: _ =>
      let kind : BufferKind := if lax then .laxToPosition else .verifyToPosition
      some !s.strict.channel.refuses (.startFullBuffer (.fullBuffer kind s.text (some position)))
    | _ => none
  | _ => none

/-- Whether the last bounded request of the run was taken. -/
def granted (s : Session) (steps : List Step) : Bool :=
  s.trail (fun s a granted => (s.grant? a).getD granted) false steps

/-- Handling that leaves the strict channel and its events alone. -/
theorem calm_of_same (hchannel : s'.strict.channel = s.strict.channel) (hinbox : s'.inbox = s.inbox)
    (hmark : s'.startedTo = s.startedTo) : s.front.Calm s'.front := by
  refine .of_same hchannel ?_ ?_
  · show strictEvents s'.inbox = strictEvents s.inbox
    rw [hinbox]
  · show s'.startedTo ≠ none → s.startedTo ≠ none
    rw [hmark]
    exact id

theorem ask_calm (ticket : Nat) (question : Question) (query : Query) :
    s.front.Calm (s.ask ticket question query).front := by
  have hcalm := Front.submit_calm (f := s.front) true query
  have hsend : s.front.channel.submit true query = s.strict.channel.send query := rfl
  rw [hsend] at hcalm
  unfold ask
  generalize s.strict.channel.send query = sent at hcalm ⊢
  obtain ⟨channel, e | id⟩ := sent <;> exact hcalm

theorem verifyStrict_calm (hs : s.front.Sound) (kind : BufferKind) {startedTo : Option Position}
    (hmark : startedTo ≠ none → s.startedTo ≠ none) :
    s.front.Calm (({ s with startedTo } : Session).verifyStrict kind none).front := by
  have hmarked : ({ s with startedTo } : Session).front =
      { s.front with startedTo, due := s.front.due } := rfl
  rw [front_verifyStrict, hmarked, Front.request_congr]
  exact Front.request_calm hs kind hmark _

theorem requestFull_calm (hs : s.front.Sound) (kind : BufferKind) :
    s.front.Calm (s.requestFull kind).front := by
  unfold requestFull
  rw [front_refreshLax]
  split
  · exact .of_same rfl rfl fun h => absurd rfl h
  · exact verifyStrict_calm hs kind fun h => absurd rfl h

theorem handle_calm (hs : s.front.Sound) {c : Command}
    (hc : ∀ position lax, c ≠ .requestTo position lax) : s.front.Calm (s.handle c).front := by
  have hsame : s.front.Calm s.front := .of_same rfl rfl id
  cases c with
  | textChanged text =>
    by_cases hnew : text = s.text
    · rw [handle, textChanged, if_pos hnew]
      exact hsame
    · rw [handle, front_textChanged hnew]
      exact Front.edit_calm hs text _
  | requestFull kind => exact requestFull_calm hs kind
  | requestTo position lax => exact absurd rfl (hc position lax)
  | saved => exact requestFull_calm hs .full
  | lookup position ticket =>
    rw [handle, lookup]
    split
    · exact calm_of_same rfl rfl rfl
    · exact ask_calm ticket .lookup _
  | complete position ticket =>
    rw [handle, complete]
    split
    · exact calm_of_same rfl rfl rfl
    · exact ask_calm ticket .complete _
  | proofStates line ticket => exact calm_of_same rfl rfl rfl
  | restartSolver => exact calm_of_same rfl rfl rfl
  | verify => exact verifyStrict_calm hs .full id
  | publish =>
    rw [handle, front_publish]
    exact hsame
  | flyCheck =>
    rw [handle, front_startFlyCheck]
    exact hsame
  | dispose ticket =>
    rw [handle, front_dispose]
    exact Front.dispose_calm

/-- A timer may post a command. -/
theorem post_calm (hchannel : s'.strict.channel = s.strict.channel) (hinbox : s'.inbox = s.inbox)
    (hmark : s'.startedTo = s.startedTo) (c : Command) : s.front.Calm (s'.post c).front := by
  unfold post
  split
  · exact calm_of_same hchannel hinbox hmark
  · rw [front_refuse]
    exact calm_of_same hchannel hinbox hmark

theorem runReverify_calm : s.front.Calm s.runReverify.front := by
  unfold runReverify
  rcases s.reverify.elapse s.now with ⟨_ | time, timer⟩
  · exact calm_of_same rfl rfl rfl
  · refine post_calm ?_ ?_ ?_ .verify <;> rfl

theorem runPublisher_calm : s.front.Calm s.runPublisher.front := by
  unfold runPublisher
  split
  · exact calm_of_same rfl rfl rfl
  · split
    · split
      · refine post_calm ?_ ?_ ?_ .publish <;> rfl
      · exact calm_of_same rfl rfl rfl
    · exact calm_of_same rfl rfl rfl

theorem runFlyCheck_calm : s.front.Calm s.runFlyCheck.front := by
  unfold runFlyCheck
  split
  · exact calm_of_same rfl rfl rfl
  · refine post_calm ?_ ?_ ?_ .flyCheck <;> rfl
  · split <;> exact calm_of_same rfl rfl rfl
  · split <;> exact calm_of_same rfl rfl rfl

theorem event_calm {role : Role} {event : ChannelEvent} {rest : List (Role × ChannelEvent)}
    (hnext : s.inbox = (role, event) :: rest) :
    s.front.Calm (({ s with inbox := rest } : Session).onChannelEvent role event).front := by
  rcases role with _ | _
  · rw [front_onChannelEvent_strict]
    refine .hear event rfl ?_ fun hmark => ?_
    · show strictEvents s.inbox = event :: strictEvents rest
      simp [strictEvents, hnext]
    · by_cases hend : event.isEnd = true
      · exact absurd (if_pos hend) hmark
      · exact ⟨fun hnone => hmark ((if_neg hend).trans hnone), Bool.eq_false_iff.2 hend⟩
  · rw [front_onChannelEvent_lax]
    refine .of_same rfl ?_ id
    show strictEvents rest = strictEvents s.inbox
    simp [strictEvents, hnext]

theorem runSolver_calm : s.front.Calm s.runSolver.front := by
  have hrestarts : ∀ (due : List Nat) (s : Session), ∃ strict ops,
      due.foldl (fun s _ => { s with strict := s.strict.tell .restartSolver }) s =
        { s with strict } ∧
      strict.channel = s.strict.channel.run ops ∧ strict.channel.events = s.strict.channel.events := by
    intro due
    induction due with
    | nil => exact fun s => ⟨s.strict, [], rfl, rfl, rfl⟩
    | cons time due ih =>
      intro s
      obtain ⟨strict, ops, heq, hchannel, hevents⟩ :=
        ih { s with strict := s.strict.tell .restartSolver }
      exact ⟨strict, .submit false .restartSolver :: ops, heq, hchannel,
        hevents.trans (s.strict.channel.submit_events false .restartSolver)⟩
  obtain ⟨strict, ops, heq, hchannel, hevents⟩ := hrestarts (s.solverRestarts.filter (· ≤ s.now))
    { s with solverRestarts := s.solverRestarts.filter fun due => s.now < due }
  rw [runSolver, heq]
  exact .of_quiet ops hchannel hevents rfl id

/-- What happens to the link of a verifier; a session that is closed hears nothing of it. -/
theorem onLink_calm (hs : s.front.Sound) (role : Role) {g : Link → Link}
    (hlink : ∀ link : Link, ∃ ops, (g link).channel = link.channel.run ops) :
    s.front.Calm (s.onLink role g).front := by
  rcases role with _ | _
  · obtain ⟨ops, hchannel⟩ := hlink s.strict.link
    rw [front_onLink_strict]
    by_cases hopen : s.isOpen = true
    · exact .work ops hchannel (if_pos hopen) id
    · have hdead := hs.dead (Bool.eq_false_iff.2 hopen)
      refine .ended ops hchannel ?_ id
      show (g s.strict.link).channel.isAlive = false
      rw [hchannel]
      exact Channel.isAlive_after hs.sorted.proper.fits hdead ops
  · rw [front_onLink_lax]
    exact .of_same rfl rfl id

theorem act_calm (hs : s.front.Sound) {a : Step} (ha : s.grant? a = none) :
    s.front.Calm (s.act a).front := by
  have hsame : s.front.Calm s.front := .of_same rfl rfl id
  cases a with
  | post c => exact post_calm rfl rfl rfl c
  | command =>
    rw [act]
    rcases hnext : s.commands with _ | ⟨c, rest⟩
    · exact hsame
    · have hc : ∀ position lax, c ≠ .requestTo position lax := by
        rintro position lax rfl
        simp [grant?, hnext] at ha
      exact (handle_calm (s := { s with commands := rest }) ⟨hs.sorted, hs.dead⟩ hc).of_planned
  | event =>
    rw [act]
    rcases hnext : s.inbox with _ | ⟨first, rest⟩
    · exact hsame
    · exact event_calm hnext
  | reverify =>
    rw [act]
    split
    · exact runReverify_calm
    · exact hsame
  | publisher =>
    rw [act]
    split
    · exact runPublisher_calm
    · exact hsame
  | flyCheck =>
    rw [act]
    split
    · exact runFlyCheck_calm
    · exact hsame
  | solver => exact runSolver_calm
  | output role bytes =>
    refine onLink_calm hs role fun link => ?_
    obtain ⟨ops, -, hchannel⟩ := feed_channel bytes link
    exact ⟨ops, hchannel⟩
  | exit role code =>
    refine onLink_calm hs role fun link => ?_
    obtain ⟨ops, -, hchannel⟩ := close_channel code link
    exact ⟨ops, hchannel⟩
  | stopReading role => exact onLink_calm hs role fun link => ⟨[.breakWriter], rfl⟩
  | tick ms => exact hsame

theorem settleWriters_calm : s.front.Calm s.settleWriters.front := by
  rcases s.strict.channel.settleWriter_cases with hsame | hclosed
  · exact .of_same hsame rfl id
  · refine .of_quiet [.closeWriter] hclosed ?_ rfl id
    show s.strict.channel.settleWriter.events = s.strict.channel.events
    rw [hclosed, Channel.closeWriter_events]

-- ---------------------------------------------------------------------------
-- All runs
-- ---------------------------------------------------------------------------

theorem front_requestTo (position : Position) (lax : Bool) (rest : List Command) :
    (({ s with commands := rest } : Session).requestTo position lax).front =
      { s.front.request (if lax then .laxToPosition else .verifyToPosition) (some position) with
        startedTo := some position, due := rest.contains .verify } := by
  have hmarked : ({ s with commands := rest, startedTo := some position } : Session).front =
      { s.front with
        startedTo := some position
        due := s.reverify.isPending || rest.contains .verify } := rfl
  rw [requestTo, front_firePublisher, front_verifyStrict, hmarked, Front.request_congr]

/-- A bounded request changes what the mark stands for, and no other step does. -/
theorem act_marked (hs : s.front.Sound) {granted : Bool} (h : s.front.Marked granted)
    (a : Step) : (s.act a).front.Marked ((s.grant? a).getD granted) := by
  rcases hgrant : s.grant? a with _ | taken
  · exact h.calm hs (act_calm hs hgrant)
  · unfold grant? at hgrant
    split at hgrant
    · split at hgrant
      next position lax rest hcommands =>
        cases hgrant
        rw [act, hcommands]
        dsimp only
        rw [handle, front_requestTo]
        exact .of_request hs ..
      next => cases hgrant
    · cases hgrant

theorem step_marked (hs : s.front.Sound) {granted : Bool} (h : s.front.Marked granted)
    (a : Step) : (s.step a).front.Marked ((s.grant? a).getD granted) := by
  have hacted := Front.moves_keep (P := fun _ => True) (fun _ _ _ _ _ => trivial)
    (act_moves hs a) hs trivial
  exact (act_marked hs h a).calm hacted.1 settleWriters_calm

theorem run_marked (uri : Uri) (text : String) (settings : SessionSettings) (withLax : Bool)
    (now : Nat) (steps : List Step) :
    ((start uri text settings withLax now).run steps).front.Sound ∧
      ((start uri text settings withLax now).run steps).front.Marked
        ((start uri text settings withLax now).granted steps) := by
  obtain ⟨f, kind, due, hmove, hmove', hfront⟩ := start_moves uri text settings withLax now
  have hsound := hmove'.sound (hmove.sound (new_sound uri text settings withLax now))
  have hunmarked : (start uri text settings withLax now).front.startedTo = none := by
    rw [hfront]
  have hmarked : (start uri text settings withLax now).front.Marked false :=
    ⟨fun h => absurd h (by simp), fun _ h => absurd hunmarked h⟩
  refine run_trail _ (P := fun s granted => s.front.Sound ∧ s.front.Marked granted) ?_
    ⟨hsound, hmarked⟩ steps
  rintro s granted a ⟨hs, h⟩
  have hkept := Front.moves_keep (P := fun _ => True) (fun _ _ _ _ _ => trivial)
    (step_moves hs a) hs trivial
  exact ⟨hkept.1, step_marked hs h a⟩

/-- Once the session has heard all that the strict verifier told it, a mark stands for work in
flight if and only if the last bounded request was taken and the verifier has not ended. Nothing
but the mark is shown as waiting to be checked. -/
theorem mark_backed_iff (uri : Uri) (text : String) (settings : SessionSettings) (withLax : Bool)
    (now : Nat) (steps : List Step)
    (hheard : ∀ event, (.strict, event) ∉ ((start uri text settings withLax now).run steps).inbox) :
    let s := (start uri text settings withLax now).run steps
    (s.startedTo ≠ none → (s.strict.channel.inFlight = true ↔
      (start uri text settings withLax now).granted steps = true ∧
        s.strict.channel.isAlive = true)) ∧
    ∀ entry ∈ s.status, entry.kind = .started → s.startedTo = some entry.range.stop := by
  intro s
  obtain ⟨hsound, hmarked⟩ := run_marked uri text settings withLax now steps
  have hends : ∀ event ∈ s.front.unseen, event.isEnd = false :=
    fun event hmem => absurd (mem_strictEvents.1 hmem) (hheard event)
  refine ⟨fun hmark => ⟨fun hflight => ?_, fun ⟨htaken, halive⟩ => ?_⟩, fun entry hmem hkind => ?_⟩
  · refine ⟨?_, ?_⟩
    · by_contra hrefused
      have hstuck := hmarked.refused (Bool.eq_false_iff.2 hrefused) hmark
      exact absurd hflight (Bool.eq_false_iff.1 hstuck.1)
    · by_contra hdead
      have hidle := hsound.sorted.proper.idle (Bool.eq_false_iff.2 hdead)
      exact absurd hflight (Bool.eq_false_iff.1 (Channel.inFlight_eq_false_iff.2 hidle))
  · refine (hmarked.taken htaken hmark hends).resolve_right ?_
    rw [Bool.not_eq_false]
    exact halive
  · have hstarted := mem_startedStatus_of_merged s.strict.model s.startedTo hmem hkind
    obtain ⟨stop, hstop, -, heq⟩ := (mem_startedStatus s.strict.model s.startedTo).1 hstarted
    rw [hstop, heq]

/-- While the whole text is checked, its start is asked for. -/
def requestedInTime : List Step := [.post (.requestTo ⟨0, 5⟩ false), .command]

/-- The start waits to be checked, and the verifier is at work. -/
theorem requestedInTime_backed :
    let opened := start ⟨"file:///work/A.fst"⟩ "let x = 1" {} false 0
    (opened.run requestedInTime).inbox = [] ∧
    (opened.run requestedInTime).startedTo = some ⟨0, 5⟩ ∧
    (opened.run requestedInTime).strict.channel.inFlight = true ∧
    ∀ entry ∈ (opened.run requestedInTime).status, entry.kind = .started →
      (opened.run requestedInTime).startedTo = some entry.range.stop := by
  intro opened
  have hinbox : (opened.run requestedInTime).inbox = [] := List.isEmpty_iff.1 (by decide +kernel)
  have hmark : (opened.run requestedInTime).startedTo = some ⟨0, 5⟩ := by decide +kernel
  have hbacked := mark_backed_iff ⟨"file:///work/A.fst"⟩ "let x = 1" {} false 0 requestedInTime
    fun event hmem => by
      rw [hinbox] at hmem
      cases hmem
  refine ⟨hinbox, hmark, ?_, hbacked.2⟩
  refine (hbacked.1 ?_).2 ⟨by decide +kernel, by decide +kernel⟩
  rw [hmark]
  exact Option.some_ne_none _

/-- The verifier exits, the session hears of it, and then the start of the text is asked for. -/
def requestedTooLate : List Step :=
  [.exit .strict none, .event, .post (.requestTo ⟨0, 5⟩ false), .command]

/-- The start is shown as waiting to be checked, and no verifier is there to check it. -/
theorem requestedTooLate_not_backed :
    let opened := start ⟨"file:///work/A.fst"⟩ "let x = 1" {} false 0
    (opened.run requestedTooLate).inbox = [] ∧
    (opened.run requestedTooLate).startedTo = some ⟨0, 5⟩ ∧
    (opened.run requestedTooLate).status = [⟨⟨⟨0, 0⟩, ⟨0, 5⟩⟩, .started⟩] ∧
    (opened.run requestedTooLate).strict.channel.inFlight = false ∧
    (opened.run requestedTooLate).strict.channel.isAlive = false := by
  intro opened
  let ended : Link → Link :=
    fun link => { link with reading := false, channel := link.channel.markExited none }
  have hclose : opened.strict.link.close none = ended opened.strict.link :=
    Link.close_of_none_held (by decide +kernel) (by decide +kernel) (by decide +kernel)
      (by decide +kernel) none
  have hrun : opened.run requestedTooLate =
      (opened.onLink .strict ended).settleWriters.run (requestedTooLate.drop 1) :=
    congrArg (fun s => s.settleWriters.run (requestedTooLate.drop 1)) (onLink_strict_congr hclose)
  rw [hrun]
  exact ⟨List.isEmpty_iff.1 (by decide +kernel), by decide +kernel, by decide +kernel,
    by decide +kernel, by decide +kernel⟩

end Session

end VerifierClient

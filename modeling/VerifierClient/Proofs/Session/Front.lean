import VerifierClient.Proofs.Channel.Flight
import VerifierClient.Proofs.Session.Relay
import Mathlib.Logic.Relation

/-!
# The strict half of a session

What a session sends to its strict verifier depends on a few things only: the text, the
channel, the text sent last, how far the last request goes, and whether another check is
planned. This module says once how the steps of a session change them, so that an
invariant of the strict half is shown for these moves and the handlers of commands and
events need not be opened again.

* `Front`, `Session.front` — the strict half;
* `Front.Move` — its moves;
* `Session.step_moves` — every step of a session is a chain of them;
* `Session.run_front` — what the moves keep holds after every run.
-/

namespace VerifierClient

open Relation

-- ---------------------------------------------------------------------------
-- Events of a channel
-- ---------------------------------------------------------------------------

namespace Channel

/-- The events between two states of a channel. -/
def fresh (c c' : Channel) : List ChannelEvent := c'.events.drop c.events.length

theorem fresh_of_append {c c' : Channel} {posted : List ChannelEvent}
    (h : c'.events = c.events ++ posted) : fresh c c' = posted := by
  rw [fresh, h, List.drop_left]

theorem fresh_of_same {c c' : Channel} (h : c'.events = c.events) : fresh c c' = [] :=
  fresh_of_append (by rw [h, List.append_nil])

theorem fresh_trans {c c' c'' : Channel} {posted more : List ChannelEvent}
    (h : c'.events = c.events ++ posted) (h' : c''.events = c'.events ++ more) :
    fresh c c'' = fresh c c' ++ fresh c' c'' := by
  have hboth : c''.events = c.events ++ (posted ++ more) := by
    rw [h', h, List.append_assoc]
  rw [fresh_of_append h, fresh_of_append h', fresh_of_append hboth]

/-- Operations other than requests for checks and cancels. -/
def Op.isBackground : Op → Bool
  | .startFullBuffer _ | .cancel _ => false
  | op => op.isSorted

theorem isSorted_of_isBackground {op : Op} (h : op.isBackground = true) : op.isSorted = true := by
  cases op with
  | startFullBuffer query => cases h
  | cancel position => rfl
  | _ => exact h

theorem isAlive_dispose (c : Channel) : c.dispose.isAlive = false := by
  unfold dispose
  split
  next h => simp [isAlive, h]
  next =>
    obtain ⟨writer, heq⟩ := (({ c with disposed := true } : Channel).clear).closeWriter_eq
    rw [heq]
    rfl

/-- A channel that has ended does not come back. -/
theorem isAlive_step {c : Channel} (hfit : c.Fits) (hdead : c.isAlive = false) (op : Op) :
    (c.step op).isAlive = false := by
  rcases (step_move hfit op).isAlive with hkept | ⟨hended, -⟩
  · exact hkept.trans hdead
  · exact hended

theorem settleWriter_cases (c : Channel) :
    c.settleWriter = c ∨ c.settleWriter = c.closeWriter := by
  unfold settleWriter
  split
  · split
    · exact .inr rfl
    · exact .inl rfl
  · exact .inl rfl

theorem submit_events (c : Channel) (waited : Bool) (query : Query) :
    (c.submit waited query).1.events = c.events := by
  have htraffic : (Op.submit waited query).isTraffic = true := by cases waited <;> rfl
  obtain ⟨posted, hevents, hposted⟩ := (c.submit_move waited query).posted htraffic
  generalize hop : Op.submit waited query = op at hposted
  cases hposted with
  | nothing => rw [hevents, List.append_nil]
  | message => exact absurd hop (submit_ne_receive waited query _)
  | notice => exact absurd hop (submit_ne_receive waited query _)

end Channel

namespace ResultModel

theorem requestIssued_lastSent (m : ResultModel) (text : String) :
    (m.requestIssued text).lastSent = text := by
  unfold requestIssued
  dsimp only
  split <;> rfl

theorem lastSent_textChanged (m : ResultModel) (text : String) :
    (m.textChanged text).lastSent = m.lastSent := by
  unfold textChanged
  dsimp only
  split <;> rfl

end ResultModel

namespace Side

/-- A side whose channel has nothing in flight has nothing to cancel. -/
theorem cancel_channel (side : Side) (position : Position) :
    (side.cancel position).channel = side.channel.step (.cancel position) := by
  unfold cancel
  split
  · rfl
  next hidle =>
    show side.channel = (side.channel.cancel position).1
    rw [Channel.cancel, if_neg (by simp [hidle])]

theorem cancel_lastSent (side : Side) (position : Position) :
    (side.cancel position).model.lastSent = side.model.lastSent := by
  unfold cancel
  split <;> rfl

end Side

-- ---------------------------------------------------------------------------
-- The strict half
-- ---------------------------------------------------------------------------

/-- What the work of the strict verifier depends on. -/
structure Front where
  text : String
  channel : Channel
  /-- the text of the last request, as the model has it -/
  lastSent : String
  /-- how far the last bounded request goes -/
  startedTo : Option Position
  /-- whether edits lead to a check -/
  onChange : Bool
  /-- whether a check is planned or asked for -/
  due : Bool
  isOpen : Bool
  /-- events of the channel that the session has yet to take -/
  unseen : List ChannelEvent

namespace Front

/-- The last request goes past `position`. -/
def covers (f : Front) (position : Position) : Bool :=
  match f.startedTo with
  | some stop => position < stop
  | none => true

/-- The text changes; work past the edit is cancelled if the last request covers it. -/
def edit (f : Front) (text : String) : Front :=
  match Text.editPosition f.lastSent text with
  | none => { f with text }
  | some position =>
    if f.covers position then
      { f with
        text
        channel := f.channel.step (.cancel position)
        startedTo := f.startedTo.map fun _ => position }
    else { f with text }

/-- The text is to be checked. -/
def request (f : Front) (kind : BufferKind) (position : Option Position) : Front :=
  match f.channel.startFullBuffer (.fullBuffer kind f.text position) with
  | (channel, .ok _) => { f with channel, lastSent := f.text }
  | (channel, .error _) => { f with channel }

/-- The channel goes on to another state; what it tells the session waits. -/
def after (f : Front) (channel : Channel) : Front :=
  { f with
    channel
    unseen := if f.isOpen then f.unseen ++ Channel.fresh f.channel channel else f.unseen }

/-- The session takes an event. -/
def take (f : Front) : Front :=
  match f.unseen with
  | [] => f
  | event :: rest =>
    { f with unseen := rest, startedTo := if event.isEnd then none else f.startedTo }

/-- The session is closed. -/
def dispose (f : Front) : Front :=
  { f with channel := f.channel.step .dispose, due := false, isOpen := false, unseen := [] }

-- ---------------------------------------------------------------------------
-- Moves
-- ---------------------------------------------------------------------------

inductive Move (f : Front) : Front → Prop
  | edit {text : String} (hnew : text ≠ f.text) :
      Move f { f.edit text with due := f.due || f.onChange }
  /-- a request sets how far it goes, or is for the whole text and leaves that as it was -/
  | request {kind : BufferKind} {position startedTo : Option Position} {due : Bool}
      (hmark : startedTo = position ∨ position = none ∧ startedTo = f.startedTo) :
      Move f { f.request kind position with startedTo, due }
  | operate {op : Channel.Op} (hop : op.isBackground = true) : Move f (f.after (f.channel.step op))
  | take : Move f f.take
  /-- a check by the lax verifier alone -/
  | forget : Move f { f with startedTo := none }
  | plan {due : Bool} (hdue : f.due = true → due = true) : Move f { f with due }
  | dispose : Move f f.dispose

/-- A front that moves can start from. -/
structure Sound (f : Front) : Prop where
  sorted : f.channel.Sorted
  dead : f.isOpen = false → f.channel.isAlive = false

variable {f f' : Front}

theorem edit_eq (f : Front) (text : String) :
    ∃ channel startedTo, f.edit text = { f with text, channel, startedTo } ∧
      (channel = f.channel ∨ ∃ position, channel = f.channel.step (.cancel position)) := by
  unfold edit
  split
  · exact ⟨f.channel, f.startedTo, rfl, .inl rfl⟩
  · split
    · exact ⟨_, _, rfl, .inr ⟨_, rfl⟩⟩
    · exact ⟨f.channel, f.startedTo, rfl, .inl rfl⟩

theorem edit_congr (f : Front) (due : Bool) (text : String) :
    ({ f with due } : Front).edit text = { f.edit text with due } := by
  unfold edit
  dsimp only
  cases Text.editPosition f.lastSent text with
  | none => rfl
  | some position =>
    by_cases hcovers : f.covers position = true
    · have hcovers' : ({ f with due } : Front).covers position = true := hcovers
      simp only [if_pos hcovers, if_pos hcovers']
    · have hcovers' : ¬ ({ f with due } : Front).covers position = true := hcovers
      simp only [if_neg hcovers, if_neg hcovers']

theorem request_eq (f : Front) (kind : BufferKind) (position : Option Position) :
    ∃ lastSent, f.request kind position =
      { f with
        channel := f.channel.step (.startFullBuffer (.fullBuffer kind f.text position))
        lastSent } := by
  have hstep : f.channel.step (.startFullBuffer (.fullBuffer kind f.text position)) =
      (f.channel.startFullBuffer (.fullBuffer kind f.text position)).1 := rfl
  unfold request
  rw [hstep]
  cases f.channel.startFullBuffer (.fullBuffer kind f.text position) with
  | mk channel result => cases result <;> exact ⟨_, rfl⟩

theorem request_congr (f : Front) (startedTo : Option Position) (due : Bool) (kind : BufferKind)
    (position : Option Position) :
    ({ f with startedTo, due } : Front).request kind position =
      { f.request kind position with startedTo, due } := by
  unfold request
  dsimp only
  cases f.channel.startFullBuffer (.fullBuffer kind f.text position) with
  | mk channel result => cases result <;> rfl

theorem take_eq (f : Front) : ∃ unseen startedTo, f.take = { f with unseen, startedTo } := by
  unfold take
  split
  · exact ⟨f.unseen, f.startedTo, rfl⟩
  · exact ⟨_, _, rfl⟩

/-- A move is one operation on the channel at most. -/
theorem Move.channel (h : f.Move f') :
    f'.channel = f.channel ∨ ∃ op, op.isSorted = true ∧ f'.channel = f.channel.step op := by
  cases h with
  | @edit text _ =>
    obtain ⟨channel, startedTo, heq, hsame | ⟨position, hcancel⟩⟩ := f.edit_eq text
    · exact .inl (by rw [heq, hsame])
    · exact .inr ⟨.cancel position, rfl, by rw [heq, hcancel]⟩
  | @request kind position _ _ _ =>
    obtain ⟨lastSent, heq⟩ := f.request_eq kind position
    exact .inr ⟨_, rfl, by rw [heq]⟩
  | @operate op hop => exact .inr ⟨op, Channel.isSorted_of_isBackground hop, rfl⟩
  | take =>
    obtain ⟨unseen, startedTo, heq⟩ := f.take_eq
    exact .inl (by rw [heq])
  | forget => exact .inl rfl
  | plan => exact .inl rfl
  | dispose => exact .inr ⟨.dispose, rfl, rfl⟩

/-- Whether edits lead to checks is settled at the start, and only the end of the channel
closes a front. -/
theorem Move.settled (h : f.Move f') :
    f'.onChange = f.onChange ∧ (f'.isOpen = f.isOpen ∨ f'.channel.isAlive = false) := by
  cases h with
  | @edit text _ =>
    obtain ⟨channel, startedTo, heq, -⟩ := f.edit_eq text
    rw [heq]
    exact ⟨rfl, .inl rfl⟩
  | @request kind position _ _ _ =>
    obtain ⟨lastSent, heq⟩ := f.request_eq kind position
    rw [heq]
    exact ⟨rfl, .inl rfl⟩
  | take =>
    obtain ⟨unseen, startedTo, heq⟩ := f.take_eq
    rw [heq]
    exact ⟨rfl, .inl rfl⟩
  | dispose => exact ⟨rfl, .inr f.channel.isAlive_dispose⟩
  | _ => exact ⟨rfl, .inl rfl⟩

theorem Move.sound (h : f.Move f') (hf : f.Sound) : f'.Sound := by
  have hsorted : f'.channel.Sorted := by
    rcases h.channel with hsame | ⟨op, hop, hstep⟩
    · exact hsame ▸ hf.sorted
    · exact hstep ▸ hf.sorted.step hop
  refine ⟨hsorted, fun hclosed => ?_⟩
  rcases h.settled.2 with hkept | hdead
  · have hdead := hf.dead (hkept ▸ hclosed)
    rcases h.channel with hsame | ⟨op, -, hstep⟩
    · exact hsame ▸ hdead
    · exact hstep ▸ Channel.isAlive_step hf.sorted.proper.fits hdead op
  · exact hdead

theorem Move.healthy_before (h : f.Move f') (hf : f.Sound) (hhealthy : f'.channel.Healthy) :
    f.channel.Healthy := by
  rcases h.channel with hsame | ⟨op, -, hstep⟩
  · exact hsame ▸ hhealthy
  · exact (Channel.step_move hf.sorted.proper.fits op).healthy_before (hstep ▸ hhealthy)

theorem after_of_same {c : Channel} (h : c.events = f.channel.events) :
    f.after c = { f with channel := c } := by
  rw [after, Channel.fresh_of_same h, List.append_nil, ite_self]

theorem after_after {c c' : Channel} {posted more : List ChannelEvent}
    (h : c.events = f.channel.events ++ posted) (h' : c'.events = c.events ++ more) :
    (f.after c).after c' = f.after c' := by
  unfold after
  rw [Channel.fresh_trans h h']
  by_cases hopen : f.isOpen = true
  · simp only [if_pos hopen, List.append_assoc]
  · simp only [if_neg hopen]

/-- Several operations on the channel. -/
theorem moves_after (hf : f.Sound) {ops : List Channel.Op}
    (hops : ∀ op ∈ ops, op.isBackground = true) :
    ReflTransGen Move f (f.after (f.channel.run ops)) := by
  induction ops generalizing f with
  | nil =>
    have hsame : f.after (f.channel.run []) = f := after_of_same rfl
    rw [hsame]
  | cons op rest ih =>
    have hfits := hf.sorted.proper.fits
    have hmove : f.Move (f.after (f.channel.step op)) := .operate (hops op List.mem_cons_self)
    have hrest := ih (hmove.sound hf) fun op h => hops op (List.mem_cons_of_mem _ h)
    obtain ⟨posted, hposted⟩ := Channel.step_events hfits op
    obtain ⟨more, hmore⟩ := Channel.run_events (hmove.sound hf).sorted.proper.fits rest
    rw [after_after hposted hmore] at hrest
    exact .head hmove hrest

/-- What every move keeps is kept by a chain of them. -/
theorem moves_keep {P : Front → Prop} (hkept : ∀ f f', f.Sound → P f → f.Move f' → P f')
    (h : ReflTransGen Move f f') (hf : f.Sound) (hP : P f) : f'.Sound ∧ P f' := by
  induction h with
  | refl => exact ⟨hf, hP⟩
  | tail _ hmove ih => exact ⟨hmove.sound ih.1, hkept _ _ ih.1 ih.2 hmove⟩

end Front

-- ---------------------------------------------------------------------------
-- Sessions
-- ---------------------------------------------------------------------------

namespace Session

/-- The events of the strict channel among those that wait. -/
def strictEvents (inbox : List (Role × ChannelEvent)) : List ChannelEvent :=
  inbox.filterMap fun (role, event) => if role = .strict then some event else none

/-- The strict half of the session. -/
def front (s : Session) : Front where
  text := s.text
  channel := s.strict.channel
  lastSent := s.strict.model.lastSent
  startedTo := s.startedTo
  onChange := s.settings.verifyOnChange
  due := s.reverify.isPending || s.commands.contains .verify
  isOpen := s.isOpen
  unseen := strictEvents s.inbox

variable {s : Session}

-- ---------------------------------------------------------------------------
-- What does not concern the strict half
-- ---------------------------------------------------------------------------

@[simp] theorem front_emit (event : SessionEvent) : (s.emit event).front = s.front := rfl

@[simp] theorem front_alert (message : String) : (s.alert message).front = s.front := rfl

@[simp] theorem front_firePublisher : s.firePublisher.front = s.front := rfl

@[simp] theorem front_publish : s.publish.front = s.front := by
  unfold publish publishStatus publishDiagnostics
  split <;> split <;> rfl

@[simp] theorem front_refreshLax : s.refreshLax.1.front = s.front := by
  unfold refreshLax
  split
  · rfl
  · split <;> rfl

@[simp] theorem front_scheduleFlyCheck : s.scheduleFlyCheck.front = s.front := by
  unfold scheduleFlyCheck
  split <;> rfl

@[simp] theorem front_startFlyCheck : s.startFlyCheck.front = s.front := by
  have hlax := front_refreshLax (s := s)
  unfold startFlyCheck
  split <;> rename_i hrefresh <;> rw [hrefresh] at hlax <;> exact hlax

@[simp] theorem front_refuse (commands : List Command) : (s.refuse commands).front = s.front := by
  unfold refuse
  induction commands generalizing s with
  | nil => rfl
  | cons c rest ih =>
    rw [List.foldl_cons, ih]
    split <;> rfl

-- ---------------------------------------------------------------------------
-- Requests and edits
-- ---------------------------------------------------------------------------

theorem front_verifyStrict (kind : BufferKind) (position : Option Position) :
    (s.verifyStrict kind position).front =
      { s.front.request kind position with due := s.commands.contains .verify } := by
  cases hstart : s.strict.channel.startFullBuffer (.fullBuffer kind s.text position) with
  | mk channel result =>
    have hfront : s.front.channel.startFullBuffer (.fullBuffer kind s.front.text position) =
        (channel, result) := hstart
    cases result with
    | ok _ =>
      simp only [verifyStrict, Side.issue, hstart, Front.request, hfront]
      simp only [front, Side.onModel, ResultModel.requestIssued_lastSent]
      rfl
    | error e =>
      simp only [verifyStrict, Side.issue, hstart, Front.request, hfront, front_alert]
      rfl

theorem verifyStrict_move {before : Session} {kind : BufferKind} {position : Option Position}
    (hsame : s.front = { before.front with startedTo := s.startedTo, due := s.front.due })
    (hmark : s.startedTo = position ∨ position = none ∧ s.startedTo = before.startedTo) :
    before.front.Move (s.verifyStrict kind position).front := by
  rw [front_verifyStrict, hsame, Front.request_congr]
  exact .request hmark

theorem front_editStrict (text : String) :
    (({ s with text } : Session).editStrict text).front = s.front.edit text := by
  have hsent : (s.strict.textChanged text).model.lastSent = s.strict.model.lastSent :=
    ResultModel.lastSent_textChanged _ _
  cases hedit : Text.editPosition s.strict.model.lastSent text with
  | none =>
    have hfront : Text.editPosition s.front.lastSent text = none := hedit
    simp only [editStrict, ResultModel.editPosition, hedit, Front.edit, hfront]
    simp only [front, hsent]
    rfl
  | some position =>
    have hfront : Text.editPosition s.front.lastSent text = some position := hedit
    have hcancel : ((s.strict.textChanged text).cancel position).channel =
        s.strict.channel.step (.cancel position) := Side.cancel_channel _ _
    have hkept : ((s.strict.textChanged text).cancel position).model.lastSent =
        s.strict.model.lastSent := (Side.cancel_lastSent _ _).trans hsent
    have hcovers : ({ s with text } : Session).covers position = s.front.covers position := rfl
    simp only [editStrict, ResultModel.editPosition, hedit, Front.edit, hfront, hcovers]
    split
    · simp only [front, hcancel, hkept]
    · simp only [front, hsent]
      rfl

theorem front_scheduleReverify :
    s.scheduleReverify.front = { s.front with due := s.front.due || s.front.onChange } := by
  unfold scheduleReverify
  split
  next hchange => simp [front, hchange, Debouncer.isPending, Debouncer.fire]
  next hchange => simp [front, hchange]

theorem front_textChanged {text : String} (hnew : text ≠ s.text) :
    (s.textChanged text).front =
      { s.front.edit text with due := s.front.due || s.front.onChange } := by
  let edited := ({ s with text } : Session).editStrict text
  have hedited : edited.front = s.front.edit text := front_editStrict text
  have hfront : (s.textChanged text).front =
      { edited.front with due := edited.front.due || edited.front.onChange } := by
    rw [textChanged, if_neg hnew, front_firePublisher, front_scheduleFlyCheck,
      front_scheduleReverify]
    rfl
  obtain ⟨channel, startedTo, heq, -⟩ := s.front.edit_eq text
  have hdue : (edited.front.due || edited.front.onChange) = (s.front.due || s.front.onChange) := by
    rw [hedited, heq]
  rw [hfront, hdue, hedited]

theorem textChanged_moves (text : String) :
    ReflTransGen Front.Move s.front (s.textChanged text).front := by
  by_cases hnew : text = s.text
  · rw [textChanged, if_pos hnew]
  · rw [front_textChanged hnew]
    exact .single (.edit hnew)

theorem requestFull_move (kind : BufferKind) : s.front.Move (s.requestFull kind).front := by
  unfold requestFull
  rw [front_refreshLax]
  split
  · exact .forget
  · exact verifyStrict_move rfl (.inl rfl)

theorem requestTo_move (position : Position) (lax : Bool) :
    s.front.Move (s.requestTo position lax).front := by
  unfold requestTo
  rw [front_firePublisher]
  exact verifyStrict_move rfl (.inl rfl)

/-- A query to which the verifier answers once. -/
theorem submit_move (waited : Bool) {query : Query} (hquery : query.isFullBuffer = false) :
    s.front.Move { s.front with channel := (s.strict.channel.submit waited query).1 } := by
  have hop : (Channel.Op.submit waited query).isBackground = true := by
    cases waited <;> simp [Channel.Op.submit, Channel.Op.isBackground, Channel.Op.isSorted, hquery]
  have hstep : s.strict.channel.step (.submit waited query) =
      (s.strict.channel.submit waited query).1 := by
    cases waited <;> rfl
  have hsame := Front.after_of_same (f := s.front) (s.strict.channel.submit_events waited query)
  rw [← hsame, ← hstep]
  exact .operate hop

theorem ask_move (ticket : Nat) (question : Question) {query : Query}
    (hquery : query.isFullBuffer = false) : s.front.Move (s.ask ticket question query).front := by
  unfold ask
  cases hsend : s.strict.channel.send query with
  | mk channel result =>
    have hmove := submit_move (s := s) true hquery
    rw [show s.strict.channel.submit true query = (channel, result) from hsend] at hmove
    cases result <;> exact hmove

theorem tell_move {query : Query} (hquery : query.isFullBuffer = false) :
    s.front.Move ({ s with strict := s.strict.tell query } : Session).front :=
  submit_move false hquery

theorem lookup_moves (position : Position) (ticket : Nat) :
    ReflTransGen Front.Move s.front (s.lookup position ticket).front := by
  unfold lookup
  split
  · exact .refl
  · exact .single (ask_move ticket .lookup rfl)

theorem complete_moves (position : Position) (ticket : Nat) :
    ReflTransGen Front.Move s.front (s.complete position ticket).front := by
  unfold complete
  split
  · exact .refl
  · exact .single (ask_move ticket .complete rfl)

theorem front_dispose (ticket : Option Nat) : (s.dispose ticket).front = s.front.dispose := by
  unfold dispose
  rw [front_refuse]
  cases ticket <;> rfl

-- ---------------------------------------------------------------------------
-- Steps
-- ---------------------------------------------------------------------------

/-- The handling of a command that does not ask for a strict check only. -/
theorem handle_moves {c : Command} (hc : c ≠ .verify) :
    ReflTransGen Front.Move s.front (s.handle c).front := by
  cases c with
  | textChanged text => exact textChanged_moves text
  | requestFull kind => exact .single (requestFull_move kind)
  | requestTo position lax => exact .single (requestTo_move position lax)
  | saved => exact .single (requestFull_move .full)
  | lookup position ticket => exact lookup_moves position ticket
  | complete position ticket => exact complete_moves position ticket
  | proofStates line ticket => exact .refl
  | restartSolver => exact .refl
  | verify => exact absurd rfl hc
  | publish =>
    rw [handle, front_publish]
  | flyCheck =>
    rw [handle, front_startFlyCheck]
  | dispose ticket =>
    rw [handle, front_dispose]
    exact .single .dispose

theorem due_iff : s.front.due = true ↔ s.reverify.isPending = true ∨ .verify ∈ s.commands := by
  simp [front]

/-- A step that touches timers and commands only. -/
theorem plan_moves {s' : Session} (hsame : s'.front = { s.front with due := s'.front.due })
    (hdue : s.front.due = true → s'.front.due = true) :
    ReflTransGen Front.Move s.front s'.front := by
  refine .single ?_
  rw [hsame]
  exact .plan hdue

theorem command_moves {c : Command} {rest : List Command} (hnext : s.commands = c :: rest) :
    ReflTransGen Front.Move s.front (({ s with commands := rest } : Session).handle c).front := by
  by_cases hc : c = .verify
  · subst hc
    -- the check that was due is asked for
    exact .single (verifyStrict_move rfl (.inr ⟨rfl, rfl⟩))
  · have htaken : ReflTransGen Front.Move s.front ({ s with commands := rest } : Session).front := by
      refine plan_moves rfl fun hdue => ?_
      rw [due_iff] at hdue ⊢
      rw [hnext] at hdue
      exact hdue.imp_right fun hmem => (List.mem_cons.1 hmem).resolve_left (Ne.symm hc)
    exact htaken.trans (handle_moves hc)

theorem post_moves {before : Session} (hsame : s.front = before.front) (c : Command) :
    ReflTransGen Front.Move before.front (s.post c).front := by
  rw [← hsame]
  unfold post
  split
  · refine plan_moves rfl fun hdue => ?_
    rw [due_iff] at hdue ⊢
    exact hdue.imp_right fun hmem => List.mem_append_left _ hmem
  · rw [front_refuse]

theorem front_onChannelEvent_lax (event : ChannelEvent) :
    (s.onChannelEvent .lax event).front = s.front := by
  cases event with
  | stream message =>
    rw [onChannelEvent, onStream]
    cases message.isFinished with
    | true =>
      rw [if_pos rfl, front_emit, front_publish]
      rfl
    | false => rfl
  | notice n => rfl
  | exited code =>
    rw [onChannelEvent, front_publish]
    rfl

theorem front_onChannelEvent_strict (event : ChannelEvent) :
    (s.onChannelEvent .strict event).front =
      { s.front with startedTo := if event.isEnd then none else s.startedTo } := by
  have hsent : (s.strict.absorb event).model.lastSent = s.strict.model.lastSent := by
    cases event with
    | stream message => exact (Prod.mk.inj (ResultModel.fold_texts message)).1
    | notice n => exact (Prod.mk.inj (ResultModel.updateActive_texts _)).1
    | exited code => exact (Prod.mk.inj ResultModel.channelExited_texts).1
  have hside : ∀ startedTo,
      ({ s with strict := s.strict.absorb event, startedTo } : Session).front =
        { s.front with startedTo } := by
    intro startedTo
    simp only [front, hsent, Relay.absorb_channel]
  cases event with
  | stream message =>
    rw [onChannelEvent, onStream, ChannelEvent.isEnd]
    cases message.isFinished with
    | true =>
      rw [if_pos rfl, front_emit, front_publish]
      exact hside none
    | false => exact hside s.startedTo
  | notice n => exact hside s.startedTo
  | exited code =>
    rw [onChannelEvent, front_publish]
    exact hside s.startedTo

theorem event_moves {role : Role} {event : ChannelEvent} {rest : List (Role × ChannelEvent)}
    (hnext : s.inbox = (role, event) :: rest) :
    ReflTransGen Front.Move s.front
      (({ s with inbox := rest } : Session).onChannelEvent role event).front := by
  cases role with
  | strict =>
    have hunseen : s.front.unseen = event :: strictEvents rest := by
      simp [front, strictEvents, hnext]
    have htake : (({ s with inbox := rest } : Session).onChannelEvent .strict event).front =
        s.front.take := by
      rw [front_onChannelEvent_strict, Front.take, hunseen]
      rfl
    rw [htake]
    exact .single .take
  | lax =>
    have hunseen : strictEvents s.inbox = strictEvents rest := by
      simp [strictEvents, hnext]
    rw [front_onChannelEvent_lax]
    simp only [front, hunseen]
    exact .refl

/-- The check that was planned is asked for when its time has come. -/
theorem runReverify_moves (hopen : s.isOpen = true) :
    ReflTransGen Front.Move s.front s.runReverify.front := by
  unfold runReverify
  cases hdue : s.reverify.elapse s.now with
  | mk run timer =>
    cases run with
    | some time =>
      refine plan_moves ?_ fun _ => ?_
      · simp only [post, if_pos hopen]
        rfl
      · simp only [post, if_pos hopen]
        rw [due_iff]
        exact .inr (List.mem_append_right _ (List.mem_singleton.2 rfl))
    | none =>
      have hsame : timer = s.reverify := by
        unfold Debouncer.elapse at hdue
        split at hdue
        · split at hdue
          · cases hdue
          · exact (congrArg Prod.snd hdue).symm
        · exact (congrArg Prod.snd hdue).symm
      rw [hsame]

theorem runPublisher_moves : ReflTransGen Front.Move s.front s.runPublisher.front := by
  unfold runPublisher
  split
  · exact .refl
  · split
    · split
      · refine post_moves ?_ .publish
        rfl
      · exact .refl
    · exact .refl

theorem runFlyCheck_moves : ReflTransGen Front.Move s.front s.runFlyCheck.front := by
  unfold runFlyCheck
  split
  · exact .refl
  · refine post_moves ?_ .flyCheck
    rfl
  · split <;> exact .refl
  · split <;> exact .refl

theorem runSolver_moves : ReflTransGen Front.Move s.front s.runSolver.front := by
  have hrestarts : ∀ (due : List Nat) (s : Session), ReflTransGen Front.Move s.front
      (due.foldl (fun s _ => { s with strict := s.strict.tell .restartSolver }) s).front := by
    intro due
    induction due with
    | nil => exact fun _ => .refl
    | cons time due ih => exact fun s => .head (tell_move rfl) (ih _)
  exact hrestarts _ { s with solverRestarts := s.solverRestarts.filter fun due => s.now < due }

theorem settleWriters_moves : ReflTransGen Front.Move s.front s.settleWriters.front := by
  have hfront : s.settleWriters.front =
      { s.front with channel := s.strict.channel.settleWriter } := rfl
  rw [hfront]
  rcases s.strict.channel.settleWriter_cases with hsame | hclosed
  · rw [hsame]
    exact .refl
  · have hmove : s.front.Move (s.front.after (s.front.channel.step .closeWriter)) := .operate rfl
    rw [Front.after_of_same s.strict.channel.closeWriter_events] at hmove
    rw [hclosed]
    exact .single hmove

-- ---------------------------------------------------------------------------
-- Links
-- ---------------------------------------------------------------------------

theorem mem_strictEvents {inbox : List (Role × ChannelEvent)} {event : ChannelEvent} :
    event ∈ strictEvents inbox ↔ (.strict, event) ∈ inbox := by
  simp [strictEvents]

theorem strictEvents_append (inbox more : List (Role × ChannelEvent)) :
    strictEvents (inbox ++ more) = strictEvents inbox ++ strictEvents more :=
  List.filterMap_append

theorem strictEvents_map (role : Role) (events : List ChannelEvent) :
    strictEvents (events.map fun event => (role, event)) =
      if role = .strict then events else [] := by
  cases role <;> simp [strictEvents]

theorem front_inbox (inbox : List (Role × ChannelEvent)) :
    ({ s with inbox } : Session).front = { s.front with unseen := strictEvents inbox } := rfl

/-- Only what is done to the strict link counts. -/
theorem onLink_strict_congr {f g : Link → Link} (h : f s.strict.link = g s.strict.link) :
    s.onLink .strict f = s.onLink .strict g := by
  have hside : s.onSide .strict (fun side => { side with link := f side.link }) =
      s.onSide .strict (fun side => { side with link := g side.link }) := by
    simp only [onSide, h]
  rw [onLink, onLink, hside]

theorem front_onLink_strict (g : Link → Link) :
    (s.onLink .strict g).front = s.front.after (g s.strict.link).channel := by
  let linked : Session := { s with strict := { s.strict with link := g s.strict.link } }
  let news := Channel.fresh s.strict.channel (g s.strict.link).channel
  show (if s.isOpen then { linked with inbox := s.inbox ++ news.map fun event => (.strict, event) }
    else linked).front = _
  rw [Front.after]
  split
  next hopen =>
    rw [if_pos (show s.front.isOpen = true from hopen), front_inbox, strictEvents_append,
      strictEvents_map, if_pos rfl]
    rfl
  next hclosed =>
    rw [if_neg (show ¬ s.front.isOpen = true from hclosed)]
    rfl

theorem front_onLink_lax (g : Link → Link) : (s.onLink .lax g).front = s.front := by
  unfold onLink
  dsimp only
  split
  next hopen =>
    rw [front_inbox, strictEvents_append, strictEvents_map, if_neg (by simp), List.append_nil]
    rfl
  next hclosed => rfl

theorem onLink_moves (hs : s.front.Sound) (role : Role) {g : Link → Link}
    (hlink : ∀ link : Link, ∃ ops : List Channel.Op, (∀ op ∈ ops, op.isBackground = true) ∧
      (g link).channel = link.channel.run ops) :
    ReflTransGen Front.Move s.front (s.onLink role g).front := by
  cases role with
  | strict =>
    obtain ⟨ops, hops, hchannel⟩ := hlink s.strict.link
    rw [front_onLink_strict, hchannel]
    exact Front.moves_after hs hops
  | lax =>
    rw [front_onLink_lax]

/-- The lines of a piece of output. -/
theorem deliver_channel (link : Link) :
    link.deliver.channel = link.channel.run (link.reader.takeLines.1.map .receive) := by
  show link.reader.takeLines.1.foldl Channel.receive link.channel = _
  rw [Channel.run, List.foldl_map]
  rfl

theorem isBackground_receive (lines : List String) :
    ∀ op ∈ lines.map Channel.Op.receive, op.isBackground = true := by
  intro op hop
  obtain ⟨line, -, rfl⟩ := List.mem_map.1 hop
  rfl

theorem feed_channel (bytes : ByteArray) (link : Link) :
    ∃ ops : List Channel.Op, (∀ op ∈ ops, op.isBackground = true) ∧
      (link.feed bytes).channel = link.channel.run ops := by
  unfold Link.feed
  split
  · exact ⟨_, isBackground_receive _, deliver_channel _⟩
  · exact ⟨[], fun _ h => absurd h List.not_mem_nil, rfl⟩

theorem close_channel (code : Option Int) (link : Link) :
    ∃ ops : List Channel.Op, (∀ op ∈ ops, op.isBackground = true) ∧
      (link.close code).channel = link.channel.run ops := by
  unfold Link.close
  split
  · let ended : Link := { link with reader := link.reader.finish }
    refine ⟨ended.reader.takeLines.1.map .receive ++ [.markExited code], ?_, ?_⟩
    · intro op hop
      rcases List.mem_append.1 hop with hline | hexit
      · exact isBackground_receive _ op hline
      · rw [List.mem_singleton.1 hexit]
        rfl
    · rw [Channel.run_concat, ← deliver_channel ended]
      rfl
  · exact ⟨[], fun _ h => absurd h List.not_mem_nil, rfl⟩

/-- Every step is a chain of moves. -/
theorem act_moves (hs : s.front.Sound) (a : Step) :
    ReflTransGen Front.Move s.front (s.act a).front := by
  cases a with
  | post command => exact post_moves rfl command
  | command =>
    rw [act]
    cases hnext : s.commands with
    | nil => exact .refl
    | cons c rest => exact command_moves hnext
  | event =>
    rw [act]
    cases hnext : s.inbox with
    | nil => exact .refl
    | cons first rest => exact event_moves hnext
  | reverify =>
    rw [act]
    split
    next hopen => exact runReverify_moves hopen
    next => exact .refl
  | publisher =>
    rw [act]
    split
    · exact runPublisher_moves
    · exact .refl
  | flyCheck =>
    rw [act]
    split
    · exact runFlyCheck_moves
    · exact .refl
  | solver => exact runSolver_moves
  | output role bytes => exact onLink_moves hs role (feed_channel bytes)
  | exit role code => exact onLink_moves hs role (close_channel code)
  | stopReading role =>
    exact onLink_moves hs role fun link => ⟨[.breakWriter], by simp [Channel.Op.isBackground,
      Channel.Op.isSorted], rfl⟩
  | tick ms => exact .refl

theorem step_moves (hs : s.front.Sound) (a : Step) :
    ReflTransGen Front.Move s.front (s.step a).front :=
  (act_moves hs a).trans settleWriters_moves

-- ---------------------------------------------------------------------------
-- Runs
-- ---------------------------------------------------------------------------

theorem run_concat (steps : List Step) (a : Step) : s.run (steps ++ [a]) = (s.run steps).step a :=
  List.foldl_concat ..

/-- What every move keeps holds after every run. -/
theorem run_front {P : Front → Prop} (hkept : ∀ f f', f.Sound → P f → f.Move f' → P f')
    (hs : s.front.Sound) (hP : P s.front) (steps : List Step) :
    (s.run steps).front.Sound ∧ P (s.run steps).front := by
  induction steps using List.reverseRecOn with
  | nil => exact ⟨hs, hP⟩
  | append_singleton steps a ih =>
    rw [run_concat]
    exact Front.moves_keep hkept (step_moves ih.1 a) ih.1 ih.2

/-- What is noted down from step to step beside a session. -/
def trail {γ : Type} (note : Session → Step → γ → γ) (s : Session) (noted : γ) : List Step → γ
  | [] => noted
  | a :: rest => trail note (s.step a) (note s a noted) rest

/-- What every step keeps together with what is noted down holds after every run. -/
theorem run_trail {γ : Type} (note : Session → Step → γ → γ) {P : Session → γ → Prop}
    (hkept : ∀ s noted a, P s noted → P (s.step a) (note s a noted)) {noted : γ} (hs : P s noted)
    (steps : List Step) : P (s.run steps) (s.trail note noted steps) := by
  induction steps generalizing s noted with
  | nil => exact hs
  | cons a rest ih => exact ih (hkept s noted a hs)

theorem new_sound (uri : Uri) (text : String) (settings : SessionSettings) (withLax : Bool)
    (now : Nat) : (new uri text settings withLax now).front.Sound :=
  ⟨Channel.new_sorted .strict, fun h => by cases h⟩

/-- The first thing after the launch is that the document is mapped and its text is to be
checked. -/
theorem start_moves (uri : Uri) (text : String) (settings : SessionSettings) (withLax : Bool)
    (now : Nat) :
    ∃ f kind due, (new uri text settings withLax now).front.Move f ∧
      f.Move (start uri text settings withLax now).front ∧
      (start uri text settings withLax now).front =
        { f.request kind none with startedTo := none, due } := by
  let told := { new uri text settings withLax now with
    strict := (new uri text settings withLax now).strict.tell (.vfsAdd text)
    lax := (new uri text settings withLax now).lax.map fun side => Side.tell side (.vfsAdd text) }
  have hrequest : ∀ kind, kind ≠ BufferKind.lax → (told.requestFull kind).front =
      { told.front.request kind none with
        startedTo := none, due := told.commands.contains .verify } := by
    intro kind hkind
    unfold requestFull
    have hsame : ({ told with startedTo := none } : Session).front =
        { told.front with startedTo := none, due := told.front.due } := rfl
    rw [front_refreshLax, if_neg hkind, front_verifyStrict, hsame, Front.request_congr]
  have htold : (new uri text settings withLax now).front.Move told.front := tell_move rfl
  have hstart := hrequest (if settings.verifyOnOpen then .full else .cache) (by split <;> simp)
  exact ⟨told.front, _, _, htold, requestFull_move _, hstart⟩

end Session

end VerifierClient

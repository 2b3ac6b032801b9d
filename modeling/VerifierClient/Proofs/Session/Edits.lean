import VerifierClient.Proofs.Session.Front
import VerifierClient.Proofs.Text.Difference

/-!
# What becomes of an edit

An edit makes the work of the strict verifier out of date. It has to be checked sooner or
later, and the work on text that is gone should be given up. The session plans a check some
time after the last edit, and every request that comes before makes that check needless. It
cancels what lies past the edit, where the edit is told from the text of the last request and
the extent of the work from how far the last request goes. These are the text and the extent
of the query in flight unless another one waits behind it.

* `Front.Pursued`, `Front.Move.pursued` — the newest query has the text, or a check is due;
* `Session.no_edit_lost` — the result for all runs;
* `Front.Tracked`, `Front.Move.tracked` — what the last request says about the query in flight;
* `Session.outdated_work_cancelled` — which edits cancel the work that they make useless;
* `Session.boundedBehindFull_not_cancelled` — one that does not.
-/

namespace VerifierClient

-- ---------------------------------------------------------------------------
-- No edit is lost
-- ---------------------------------------------------------------------------

namespace Front

variable {f f' : Front}

/-- The newest query has the text of the document checked. -/
def IsAsked (f : Front) : Prop :=
  ∃ query, f.channel.newest? = some query ∧ query.code? = some f.text

/-- Edits lead to checks, and unless the newest query has the text, one is due. -/
structure Pursued (f : Front) : Prop where
  onChange : f.onChange = true
  asked : f.channel.Healthy → f.due = true ∨ f.IsAsked

/-- A request on a healthy channel is for the text of the document. -/
theorem newest?_request (hf : f.Sound) {kind : BufferKind} {position : Option Position}
    (hhealthy : f.channel.Healthy) (hhealthy' : (f.request kind position).channel.Healthy) :
    (f.request kind position).channel.newest? = some (.fullBuffer kind f.text position) := by
  obtain ⟨lastSent, heq⟩ := f.request_eq kind position
  rw [heq] at hhealthy' ⊢
  have hpassage : Channel.Passage f.channel
      (.startFullBuffer (.fullBuffer kind f.text position)) _ := hf.sorted.passage rfl
  exact hpassage.newest? rfl hhealthy hhealthy'

theorem isAsked_request (hf : f.Sound) {kind : BufferKind} {position startedTo : Option Position}
    {due : Bool} (hhealthy : f.channel.Healthy)
    (hhealthy' : (f.request kind position).channel.Healthy) :
    IsAsked { f.request kind position with startedTo, due } := by
  refine ⟨_, newest?_request hf hhealthy hhealthy', ?_⟩
  obtain ⟨lastSent, heq⟩ := f.request_eq kind position
  rw [Query.code?_fullBuffer, heq]

theorem newest?_step (hf : f.Sound) {op : Channel.Op} (hop : op.isSorted = true)
    (hnone : op.request? = none) (hhealthy : f.channel.Healthy)
    (hhealthy' : (f.channel.step op).Healthy) :
    (f.channel.step op).newest? = f.channel.newest? := by
  rw [(hf.sorted.passage hop).newest? hop hhealthy hhealthy', hnone, Option.none_or]

theorem request?_of_isBackground {op : Channel.Op} (h : op.isBackground = true) :
    op.request? = none := by
  cases op with
  | startFullBuffer query => cases h
  | _ => rfl

theorem Move.pursued (h : f.Move f') (hf : f.Sound) (hP : f.Pursued) : f'.Pursued := by
  refine ⟨h.settled.1.trans hP.onChange, fun hhealthy' => ?_⟩
  have hhealthy := h.healthy_before hf hhealthy'
  have hasked := hP.asked hhealthy
  cases h with
  | edit => exact .inl (by simp [hP.onChange])
  | request =>
    -- whatever was due, the query that is the newest now has the text
    exact .inr (isAsked_request hf hhealthy hhealthy')
  | @operate op hop =>
    have hnewest := newest?_step hf (Channel.isSorted_of_isBackground hop)
      (request?_of_isBackground hop) hhealthy hhealthy'
    refine hasked.imp_right fun ⟨query, hquery, hcode⟩ => ⟨query, ?_, hcode⟩
    exact hnewest.trans hquery
  | take =>
    obtain ⟨unseen, startedTo, heq⟩ := f.take_eq
    rw [heq]
    exact hasked
  | forget => exact hasked
  | plan hdue => exact hasked.imp_left hdue
  | dispose => exact absurd hhealthy' (Channel.not_healthy_of_dead f.channel.isAlive_dispose)

end Front

namespace Session

/-- A session that has just been started has asked for a check of its text. -/
theorem start_pursued (uri : Uri) (text : String) {settings : SessionSettings} (withLax : Bool)
    (now : Nat) (hchange : settings.verifyOnChange = true) :
    (start uri text settings withLax now).front.Sound ∧
      (start uri text settings withLax now).front.Pursued := by
  obtain ⟨f, kind, due, hmove, hrequest, hstart⟩ := start_moves uri text settings withLax now
  have hf := hmove.sound (new_sound uri text settings withLax now)
  refine ⟨hrequest.sound hf, hrequest.settled.1.trans (hmove.settled.1.trans hchange), ?_⟩
  intro hhealthy'
  have hhealthy := hrequest.healthy_before hf hhealthy'
  rw [hstart] at hhealthy' ⊢
  exact .inr (Front.isAsked_request hf hhealthy hhealthy')

/-- In a session that checks its text when it has changed, as long as the strict verifier
takes queries: the newest full-buffer query, be it in flight, waiting or over, has the text as
it is now, or a check is planned, or the command for it waits. -/
theorem no_edit_lost (uri : Uri) (text : String) (settings : SessionSettings) (withLax : Bool)
    (now : Nat) (steps : List Step) {s : Session}
    (hs : (start uri text settings withLax now).run steps = s)
    (hchange : settings.verifyOnChange = true) (halive : s.strict.channel.isAlive = true)
    (hwriter : s.strict.channel.isWritable = true) :
    (∃ query, s.strict.channel.newest? = some query ∧ query.code? = some s.text) ∨
      s.reverify.isPending = true ∨ .verify ∈ s.commands := by
  obtain ⟨hsound, hstart⟩ := start_pursued uri text withLax now hchange
  have hrun := (run_front (fun _ _ hf hP hmove => hmove.pursued hf hP) hsound hstart steps).2
  rw [hs] at hrun
  rcases hrun.asked ⟨halive, hwriter⟩ with hdue | hasked
  · exact .inr (due_iff.1 hdue)
  · exact .inl hasked

/-- A session after an edit, when the time of the check planned for it has come. -/
def pausedEdit : Session :=
  (start ⟨"file:///work/A.fst"⟩ "let x = 1" {} false 0).run
    [.post (.textChanged "let x = 2"), .command, .tick 5000, .reverify]

/-- The newest query has the old text, and nothing is planned any more, but the command for
a check waits. -/
theorem pausedEdit_not_lost :
    pausedEdit.strict.channel.isAlive = true ∧ pausedEdit.strict.channel.isWritable = true ∧
    pausedEdit.strict.channel.newest?.bind Query.code? ≠ some pausedEdit.text ∧
    pausedEdit.reverify.isPending = false ∧
    ((∃ query, pausedEdit.strict.channel.newest? = some query ∧
        query.code? = some pausedEdit.text) ∨
      pausedEdit.reverify.isPending = true ∨ .verify ∈ pausedEdit.commands) := by
  have halive : pausedEdit.strict.channel.isAlive = true := by decide +kernel
  have hwriter : pausedEdit.strict.channel.isWritable = true := by decide +kernel
  refine ⟨halive, hwriter, by decide +kernel, by decide +kernel, ?_⟩
  exact no_edit_lost ⟨"file:///work/A.fst"⟩ "let x = 1" {} false 0 _ rfl rfl halive hwriter

end Session

-- ---------------------------------------------------------------------------
-- Cancels
-- ---------------------------------------------------------------------------

/-- How far a full-buffer query goes, unless it is for the whole text. -/
def Query.stop? (query : Query) : Option Position :=
  match query.args with
  | .obj members =>
    match Json.valuesOf "line" members, Json.valuesOf "column" members with
    | [.int line], [.int column] =>
      if line = 0 then none else some (ExternalPosition.toEditor ⟨line.toNat, column.toNat⟩)
    | _, _ => none
  | _ => none

theorem Query.stop?_fullBuffer (kind : BufferKind) (code : String) (position : Option Position) :
    (Query.fullBuffer kind code position).stop? = position := by
  cases position with
  | none => rfl
  | some p =>
    show (if ((p.line + 1 : Nat) : Int) = 0 then none else some _) = some p
    rw [if_neg (by omega)]
    rfl

/-- Among the envelopes is a cancel of the work past `place`. -/
def Cancelled (since : List Envelope) (place : Position) : Prop :=
  ∃ e ∈ since, ∃ position, e.query = .cancel position ∧ position ≤ place

theorem cancelled_append {since more : List Envelope} {place : Position} :
    Cancelled (since ++ more) place ↔ Cancelled since place ∨ Cancelled more place := by
  simp only [Cancelled, List.mem_append, or_and_right, exists_or]

theorem Cancelled.mono {since : List Envelope} {place place' : Position} (h : Cancelled since place)
    (hle : place ≤ place') : Cancelled since place' := by
  obtain ⟨e, he, position, hquery, hposition⟩ := h
  exact ⟨e, he, position, hquery, Position.le_trans hposition hle⟩

theorem Query.cancel_injective {p q : Position} (h : Query.cancel p = Query.cancel q) : p = q := by
  have hargs : Json.obj [("cancel-column", .nat p.character), ("cancel-line", .nat (p.line + 1))] =
      .obj [("cancel-column", .nat q.character), ("cancel-line", .nat (q.line + 1))] :=
    congrArg Query.args h
  simp only [Json.nat, Json.obj.injEq, List.cons.injEq, Prod.mk.injEq, Json.int.injEq,
    true_and, and_true] at hargs
  cases p
  cases q
  simp only [Position.mk.injEq]
  dsimp only at hargs
  omega

theorem cancelled_singleton {id : QueryId} {position place : Position} :
    Cancelled [⟨id, .cancel position⟩] place ↔ position ≤ place := by
  constructor
  · rintro ⟨e, he, position', hquery, hle⟩
    rw [List.mem_singleton.1 he] at hquery
    rwa [Query.cancel_injective hquery]
  · intro hle
    exact ⟨_, List.mem_singleton_self _, position, rfl, hle⟩

namespace Channel

variable {c : Channel}

theorem Sorted.isAlive_of_flight (hc : c.Sorted) {e : Envelope} {since : List Envelope}
    (hflight : c.flight? = some (e, since)) : c.isAlive = true := by
  by_contra hdead
  have hidle := hc.proper.idle (Bool.eq_false_iff.2 hdead)
  rw [flight?_of_idle (current?_of_idle hidle)] at hflight
  cases hflight

theorem exists_newest_of_flight {e : Envelope} {since : List Envelope}
    (hflight : c.flight? = some (e, since)) : ∃ query, c.newest? = some query := by
  rw [newest?, (flight?_eq_some_iff.1 hflight).1]
  cases c.waiting? with
  | none => exact ⟨e.query, rfl⟩
  | some query => exact ⟨query, rfl⟩

/-- A cancel goes out behind the query in flight, unless the writer is closed. -/
theorem flight?_cancel (hc : c.Sorted) {e : Envelope} {since : List Envelope}
    (hflight : c.flight? = some (e, since)) (position : Position) :
    (c.step (.cancel position)).flight? =
      some (e, since ++ if c.isWritable then [⟨c.nextId, .cancel position⟩] else []) := by
  obtain ⟨session, hsession, -⟩ := current?_eq_some_iff.1 (flight?_eq_some_iff.1 hflight).2
  have halive := hc.isAlive_of_flight hflight
  show (c.cancel position).1.flight? = _
  rw [cancel, if_pos (by simp [inFlight, hsession, halive])]
  by_cases hwriter : c.isWritable = true
  · have hwrite := write_of_writable (c := c.spend) hwriter ⟨c.nextId, .cancel position⟩
    unfold spend at hwrite
    simp only [allocate, hwrite, if_pos hwriter]
    have hcancel : ∀ e ∈ [(⟨c.nextId, .cancel position⟩ : Envelope)],
        e.query.isFullBuffer = false := by
      intro e he
      rw [List.mem_singleton.1 he]
      rfl
    have happend : ((c.spend.accept [⟨c.nextId, .cancel position⟩]).register false
        c.nextId).flight? = c.flight?.map (·.map id (· ++ [⟨c.nextId, .cancel position⟩])) :=
      flight?_append rfl hcancel rfl
    rw [hflight] at happend
    exact happend
  · have hclosed := Bool.eq_false_iff.2 hwriter
    have hwrite := write_of_closed (c := c.spend) hclosed ⟨c.nextId, .cancel position⟩
    unfold spend at hwrite
    simp only [allocate, hwrite, if_neg hwriter, List.append_nil]
    exact hflight

end Channel

namespace Front

variable {f f' : Front}

/-- What the last request tells about the query in flight. -/
structure Tracked (f : Front) : Prop where
  sent : ∀ query, f.channel.newest? = some query → query.code? = some f.lastSent
  /-- unless another query waits or the end of a sequence has yet to be taken, the query in
  flight goes as far as the mark, or the work past the mark was cancelled -/
  marked : (∀ event ∈ f.unseen, event.isEnd = false) → f.channel.waiting? = none →
    ∀ stop, f.startedTo = some stop → ∃ e since, f.channel.flight? = some (e, since) ∧
      (e.query.stop? = some stop ∨ Cancelled since stop)

theorem request_of_healthy (hf : f.Sound) (hhealthy : f.channel.Healthy) (kind : BufferKind)
    (position : Option Position) :
    f.request kind position =
      { f with
        channel := f.channel.step (.startFullBuffer (.fullBuffer kind f.text position))
        lastSent := f.text } := by
  have hok := Channel.Open.accepts ⟨hf.sorted.proper.fits, hhealthy⟩
    (.fullBuffer kind f.text position)
  have hstep : f.channel.step (.startFullBuffer (.fullBuffer kind f.text position)) =
      (f.channel.startFullBuffer (.fullBuffer kind f.text position)).1 := rfl
  unfold request
  rw [hstep]
  cases hstart : f.channel.startFullBuffer (.fullBuffer kind f.text position) with
  | mk channel result =>
    rw [hstart] at hok
    cases hok
    rfl

/-- An edit that is told from the last request leaves a cancel at the mark that it sets. -/
theorem Tracked.cancel (hf : f.Sound) (ht : f.Tracked) (hhealthy : f.channel.Healthy)
    {position : Position} {text : String} {due : Bool}
    (hhealthy' : (f.channel.step (.cancel position)).Healthy) :
    Tracked { f with
      text
      channel := f.channel.step (.cancel position)
      startedTo := f.startedTo.map fun _ => position
      due } := by
  have hnewest : (f.channel.step (.cancel position)).newest? = f.channel.newest? :=
    newest?_step hf rfl rfl hhealthy hhealthy'
  refine ⟨fun query hquery => ht.sent query (hnewest.symm.trans hquery), ?_⟩
  intro hunseen hwaiting' stop hstop
  have hwaiting : f.channel.waiting? = none := by
    have hpassage : Channel.Passage f.channel (.cancel position) _ := hf.sorted.passage rfl
    cases hpassage with
    | quiet _ _ _ _ _ _ hsame _ => exact hsame.symm.trans hwaiting'
    | ended hdead => exact absurd hhealthy' hdead
  obtain ⟨mark, hmark, rfl⟩ := Option.map_eq_some_iff.1 hstop
  obtain ⟨e, since, hflight, -⟩ := ht.marked hunseen hwaiting mark hmark
  have hcancel := Channel.flight?_cancel hf.sorted hflight position
  rw [if_pos hhealthy.2] at hcancel
  exact ⟨e, _, hcancel, .inr (cancelled_append.2 (.inr (cancelled_singleton.2 (Position.le_refl _))))⟩

/-- A request that is written at once sets the mark, or there was none. -/
theorem Tracked.request (hf : f.Sound) (ht : f.Tracked) (hhealthy : f.channel.Healthy)
    {kind : BufferKind} {position startedTo : Option Position} {due : Bool}
    (hmark : startedTo = position ∨ position = none ∧ startedTo = f.startedTo)
    (hhealthy' : (f.request kind position).channel.Healthy) :
    Tracked { f.request kind position with startedTo, due } := by
  have hnewest := newest?_request hf hhealthy hhealthy'
  rw [request_of_healthy hf hhealthy] at hhealthy' hnewest ⊢
  refine ⟨?_, ?_⟩
  · intro query hquery
    rw [hnewest, Option.some.injEq] at hquery
    rw [← hquery, Query.code?_fullBuffer]
  intro hunseen hwaiting' stop hstop
  have hpassage : Channel.Passage f.channel
      (.startFullBuffer (.fullBuffer kind f.text position)) _ := hf.sorted.passage rfl
  cases hpassage with
  | quiet _ hsick => exact absurd hhealthy (hsick (Option.some_ne_none _))
  | wait _ _ _ hwaiting => simp [hwaiting] at hwaiting'
  | ended hdead => exact absurd hhealthy' hdead
  | launch hidle haccepted hcurrent =>
    refine ⟨_, [], Channel.flight?_launch rfl haccepted hcurrent, .inl ?_⟩
    rw [Query.stop?_fullBuffer]
    rcases hmark with hset | ⟨-, hkept⟩
    · exact hset.symm.trans hstop
    · obtain ⟨e, since, hflight, -⟩ :=
        ht.marked hunseen (Channel.waiting?_of_idle hidle) stop (hkept.symm.trans hstop)
      rw [Channel.flight?_of_idle hidle] at hflight
      cases hflight

/-- The end of the sequence in flight is an event that waits. -/
theorem exists_end_of_finish {c : Channel} (hfit : c.Fits) {line : String}
    (hended : c.endedBy? line ≠ none) :
    ∃ event ∈ Channel.fresh c (c.step (.receive line)), event.isEnd = true := by
  obtain ⟨posted, hevents, hposted⟩ := (Channel.step_move hfit (.receive line)).posted rfl
  rw [Channel.fresh_of_append hevents]
  obtain ⟨id, hid⟩ := Option.ne_none_iff_exists'.1 hended
  have hcount := hposted.countP_isEnd
  rw [hid, Option.toList_some, List.length_singleton] at hcount
  exact List.countP_pos_iff.1 (by omega)

theorem Tracked.operate (hf : f.Sound) (ht : f.Tracked) (hhealthy : f.channel.Healthy)
    {op : Channel.Op} (hop : op.isBackground = true) (hhealthy' : (f.channel.step op).Healthy) :
    (f.after (f.channel.step op)).Tracked := by
  have hsorted := Channel.isSorted_of_isBackground hop
  have hnewest := newest?_step hf hsorted (request?_of_isBackground hop) hhealthy hhealthy'
  have hopen : f.isOpen = true := by
    by_contra hclosed
    exact Channel.not_healthy_of_dead (hf.dead (Bool.eq_false_iff.2 hclosed)) hhealthy
  refine ⟨fun query hquery => ht.sent query (hnewest.symm.trans hquery), ?_⟩
  intro hunseen hwaiting' stop hstop
  rw [after, if_pos hopen] at hunseen
  have hpassage := hf.sorted.passage hsorted
  generalize hnext : f.channel.step op = next at hpassage hhealthy' hwaiting' hunseen
  cases hpassage with
  | quiet more _ _ haccepted hmore hcurrent hwaiting _ =>
    obtain ⟨e, since, hflight, hreach⟩ := ht.marked
      (fun event he => hunseen event (List.mem_append_left _ he)) (hwaiting.symm.trans hwaiting')
      stop hstop
    have happend := Channel.flight?_append haccepted hmore hcurrent
    rw [hflight] at happend
    exact ⟨e, since ++ more, happend, hreach.imp_right fun h => cancelled_append.2 (.inl h)⟩
  | launch => cases hop
  | wait => cases hop
  | finish _ _ hended =>
    obtain ⟨event, hfresh, hend⟩ := exists_end_of_finish hf.sorted.proper.fits hended
    rw [hnext] at hfresh
    simp [hunseen event (List.mem_append_right _ hfresh)] at hend
  | ended hdead => exact absurd hhealthy' hdead

theorem Tracked.take (ht : f.Tracked) : f.take.Tracked := by
  unfold Front.take
  cases hevents : f.unseen with
  | nil => exact ht
  | cons event rest =>
    refine ⟨ht.sent, fun hunseen hwaiting stop hstop => ?_⟩
    cases hend : event.isEnd with
    | true => simp [hend] at hstop
    | false =>
      refine ht.marked ?_ hwaiting stop (by simpa [hend] using hstop)
      rw [hevents]
      exact List.forall_mem_cons.2 ⟨hend, hunseen⟩

theorem Move.tracked (h : f.Move f') (hf : f.Sound) (hP : f.channel.Healthy → f.Tracked)
    (hhealthy' : f'.channel.Healthy) : f'.Tracked := by
  have hhealthy := h.healthy_before hf hhealthy'
  have ht := hP hhealthy
  cases h with
  | @edit text _ =>
    unfold Front.edit at hhealthy' ⊢
    cases hedit : Text.editPosition f.lastSent text with
    | none => exact ⟨ht.sent, ht.marked⟩
    | some position =>
      simp only [hedit] at hhealthy' ⊢
      by_cases hcovers : f.covers position = true
      · simp only [if_pos hcovers] at hhealthy' ⊢
        exact ht.cancel hf hhealthy hhealthy'
      · simp only [if_neg hcovers]
        exact ⟨ht.sent, ht.marked⟩
  | request hmark => exact ht.request hf hhealthy hmark hhealthy'
  | operate hop => exact ht.operate hf hhealthy hop hhealthy'
  | take => exact ht.take
  | forget => exact ⟨ht.sent, fun _ _ _ h => by cases h⟩
  | plan => exact ⟨ht.sent, ht.marked⟩
  | dispose => exact absurd hhealthy' (Channel.not_healthy_of_dead f.channel.isAlive_dispose)

-- ---------------------------------------------------------------------------
-- What an edit writes
-- ---------------------------------------------------------------------------

/-- The cancels that an edit writes behind a query in flight. -/
def cancels (f : Front) (text : String) : List Envelope :=
  match Text.editPosition f.lastSent text with
  | some position =>
    if f.covers position && f.channel.isWritable then [⟨f.channel.nextId, .cancel position⟩]
    else []
  | none => []

theorem flight?_edit (hf : f.Sound) {e : Envelope} {since : List Envelope}
    (hflight : f.channel.flight? = some (e, since)) (text : String) :
    (f.edit text).channel.flight? = some (e, since ++ f.cancels text) := by
  unfold edit cancels
  cases Text.editPosition f.lastSent text with
  | none => rw [List.append_nil, hflight]
  | some position =>
    cases hcovers : f.covers position with
    | false =>
      simp only [hcovers]
      simpa using hflight
    | true =>
      simp only [hcovers, if_true, Bool.true_and]
      exact Channel.flight?_cancel hf.sorted hflight position

/-- An edit puts nothing in flight. -/
theorem flight?_of_edit (hf : f.Sound) {text : String} {e : Envelope} {since' : List Envelope}
    (h : (f.edit text).channel.flight? = some (e, since')) :
    ∃ since, f.channel.flight? = some (e, since) ∧ since' = since ++ f.cancels text := by
  cases hflight : f.channel.flight? with
  | some flight =>
    have hedit := flight?_edit hf hflight text
    rw [h, Option.some.injEq, Prod.mk.injEq] at hedit
    exact ⟨flight.2, by rw [hedit.1], hedit.2⟩
  | none =>
    have hidle : f.channel.inFlight = false := by
      rw [← hf.sorted.isSome_flight?, hflight]
      rfl
    obtain ⟨channel, startedTo, heq, hchannel⟩ := f.edit_eq text
    have hsame : channel = f.channel := by
      rcases hchannel with hsame | ⟨position, hcancel⟩
      · exact hsame
      · rw [hcancel]
        show (f.channel.cancel position).1 = f.channel
        rw [Channel.cancel, hidle, Bool.false_and, if_neg Bool.false_ne_true]
    rw [heq, hsame, hflight] at h
    cases h

theorem cancelled_cancels {text : String} {place : Position} :
    Cancelled (f.cancels text) place ↔
      f.channel.isWritable = true ∧ ∃ position, Text.editPosition f.lastSent text = some position ∧
        f.covers position = true ∧ position ≤ place := by
  unfold cancels
  cases hedit : Text.editPosition f.lastSent text with
  | none => simp [Cancelled]
  | some position =>
    dsimp only
    by_cases hwrites : (f.covers position && f.channel.isWritable) = true
    · rw [if_pos hwrites, cancelled_singleton]
      rw [Bool.and_eq_true] at hwrites
      simp [hwrites]
    · rw [if_neg hwrites]
      rw [Bool.and_eq_true] at hwrites
      constructor
      · rintro ⟨e, he, -⟩
        cases he
      · rintro ⟨hwriter, position', heq, hcovers, -⟩
        cases heq
        exact absurd ⟨hcovers, hwriter⟩ hwrites

/-- What an edit cancels is told from the newest query. -/
theorem cancelled_iff (hf : f.Sound) (htracked : f.channel.Healthy → f.Tracked) {e : Envelope}
    {since : List Envelope} (hflight : f.channel.flight? = some (e, since)) {text : String}
    {place : Position} :
    Cancelled (since ++ f.cancels text) place ↔
      Cancelled since place ∨ f.channel.isWritable = true ∧
        ∃ query code position, f.channel.newest? = some query ∧ query.code? = some code ∧
          Text.editPosition code text = some position ∧ f.covers position = true ∧
          position ≤ place := by
  rw [cancelled_append, cancelled_cancels]
  refine or_congr_right (and_congr_right fun hwriter => ?_)
  obtain ⟨query, hquery⟩ := Channel.exists_newest_of_flight hflight
  have hsent := (htracked ⟨hf.sorted.isAlive_of_flight hflight, hwriter⟩).sent query hquery
  constructor
  · rintro ⟨position, hposition, hcovers, hle⟩
    exact ⟨query, _, position, hquery, hsent, hposition, hcovers, hle⟩
  · rintro ⟨query', code, position, hquery', hcode, hposition, hcovers, hle⟩
    rw [hquery, Option.some.injEq] at hquery'
    rw [← hquery', hsent, Option.some.injEq] at hcode
    rw [← hcode] at hposition
    exact ⟨position, hposition, hcovers, hle⟩

/-- With nothing behind the query in flight, work past an edit is cancelled. -/
theorem Tracked.cancelled (ht : f.Tracked) (hwriter : f.channel.isWritable = true)
    (hunseen : ∀ event ∈ f.unseen, event.isEnd = false) (hwaiting : f.channel.waiting? = none)
    {e : Envelope} {since : List Envelope} (hflight : f.channel.flight? = some (e, since))
    {code text : String} (hcode : e.query.code? = some code) {place : Position}
    (hplace : Text.editPosition code text = some place)
    (hstop : ∀ stop, e.query.stop? = some stop → place < stop) :
    Cancelled (since ++ f.cancels text) place := by
  have hsent := ht.sent e.query (Channel.newest?_of_flight hflight hwaiting)
  rw [hcode, Option.some.injEq] at hsent
  rw [hsent] at hplace
  rw [cancelled_append]
  have hnow : f.covers place = true → Cancelled (f.cancels text) place := fun hcovers =>
    cancelled_cancels.2 ⟨hwriter, place, hplace, hcovers, Position.le_refl _⟩
  cases hmark : f.startedTo with
  | none => exact .inr (hnow (by rw [covers, hmark]))
  | some stop =>
    by_cases hbefore : place < stop
    · exact .inr (hnow (by simp [covers, hmark, hbefore]))
    · obtain ⟨e', since', hflight', hreach⟩ := ht.marked hunseen hwaiting stop hmark
      rw [hflight] at hflight'
      cases hflight'
      rcases hreach with hreach | hcancelled
      · exact absurd (hstop stop hreach) hbefore
      · exact .inl (hcancelled.mono (Position.not_lt.1 hbefore))

end Front

namespace Channel

theorem settleWriter_eq (c : Channel) : ∃ writer, c.settleWriter = { c with writer } := by
  rcases c.settleWriter_cases with hsame | hclosed
  · exact ⟨c.writer, hsame⟩
  · rw [hclosed]
    exact c.closeWriter_eq

end Channel

namespace Session

variable {s : Session}

/-- The strict verifier is at work on a text that is no longer that of the document, and on
what lies past `place`, where the two differ first. After the query the envelopes `since`
were written. -/
def Outdated (s : Session) (since : List Envelope) (place : Position) : Prop :=
  ∃ e code, s.strict.channel.flight? = some (e, since) ∧ e.query.code? = some code ∧
    Text.editPosition code s.text = some place ∧ ∀ stop, e.query.stop? = some stop → place < stop

theorem start_tracked (uri : Uri) (text : String) (settings : SessionSettings) (withLax : Bool)
    (now : Nat) :
    (start uri text settings withLax now).front.Sound ∧
      ((start uri text settings withLax now).front.channel.Healthy →
        (start uri text settings withLax now).front.Tracked) := by
  obtain ⟨f, -, -, hmove, hrequest, -⟩ := start_moves uri text settings withLax now
  have hnew := new_sound uri text settings withLax now
  have hf := hmove.sound hnew
  have htracked := hmove.tracked hnew fun _ => ⟨nofun, nofun⟩
  exact ⟨hrequest.sound hf, hrequest.tracked hf htracked⟩

theorem step_command_edit {new : String} (hnext : s.commands.head? = some (.textChanged new))
    (hnew : new ≠ s.text) :
    (s.step .command).text = new ∧
      (s.step .command).strict.channel.flight? = (s.front.edit new).channel.flight? := by
  obtain ⟨rest, hcommands⟩ := List.head?_eq_some_iff.1 hnext
  have hact : s.act .command = ({ s with commands := rest } : Session).textChanged new := by
    rw [act, hcommands]
    rfl
  have hfront : ∃ due, (s.act .command).front = { s.front.edit new with due } := by
    rw [hact, front_textChanged (s := { s with commands := rest }) hnew]
    have hpopped : ({ s with commands := rest } : Session).front =
        { s.front with due := ({ s with commands := rest } : Session).front.due } := rfl
    rw [hpopped, Front.edit_congr]
    exact ⟨_, rfl⟩
  obtain ⟨due, hfront⟩ := hfront
  constructor
  · obtain ⟨channel, startedTo, heq, -⟩ := s.front.edit_eq new
    have htext := congrArg Front.text hfront
    rw [heq] at htext
    exact htext
  · obtain ⟨writer, heq⟩ := (s.act .command).strict.channel.settleWriter_eq
    have hchannel : (s.act .command).strict.channel = (s.front.edit new).channel :=
      congrArg Front.channel hfront
    show (s.act .command).strict.channel.settleWriter.flight? = _
    rw [heq, ← hchannel]
    rfl

/-- The work that an edit makes useless has been cancelled after it if and only if it had been
before, or the writer is open and the new text differs from the text of the newest query at a
place that the last request goes past and that comes no later than the difference from the
text in flight. It always has been if the writer is open, no query waits behind the one in
flight, and every end of a sequence has been taken. -/
theorem outdated_work_cancelled (uri : Uri) (text : String) (settings : SessionSettings)
    (withLax : Bool) (now : Nat) (steps : List Step) {s s' : Session} {new : String}
    (hs : (start uri text settings withLax now).run steps = s)
    (hnext : s.commands.head? = some (.textChanged new)) (hnew : new ≠ s.text)
    (hs' : s.step .command = s') :
    s'.strict.channel.flight?.isSome = s'.strict.channel.inFlight ∧
    ∀ since place, s'.Outdated since place →
      (Cancelled since place ↔
        (∃ e earlier, s.strict.channel.flight? = some (e, earlier) ∧ Cancelled earlier place) ∨
        s.strict.channel.isWritable = true ∧
          ∃ query code position, s.strict.channel.newest? = some query ∧
            query.code? = some code ∧ Text.editPosition code new = some position ∧
            s.covers position = true ∧ position ≤ place) ∧
      (s.strict.channel.isWritable = true → s.strict.channel.waiting? = none →
        (∀ event, (.strict, event) ∈ s.inbox → event.isEnd = false) → Cancelled since place) := by
  obtain ⟨hsound, hstart⟩ := start_tracked uri text settings withLax now
  obtain ⟨hf, htracked⟩ := run_front (P := fun f => f.channel.Healthy → f.Tracked)
    (fun _ _ hf hP hmove => hmove.tracked hf hP) hsound hstart steps
  have hsound' := (run_front (P := fun f => f.channel.Healthy → f.Tracked)
    (fun _ _ hf hP hmove => hmove.tracked hf hP) hsound hstart (steps ++ [.command])).1
  rw [run_concat, hs, hs'] at hsound'
  rw [hs] at hf htracked
  obtain ⟨htext, hedit⟩ := step_command_edit hnext hnew
  rw [hs'] at htext hedit
  refine ⟨hsound'.sorted.isSome_flight?, ?_⟩
  rintro since place ⟨e, code, hflight', hcode, hplace, hstop⟩
  rw [hedit] at hflight'
  rw [htext] at hplace
  obtain ⟨earlier, hflight, rfl⟩ := Front.flight?_of_edit hf hflight'
  constructor
  · have hbefore : Cancelled earlier place ↔ ∃ e earlier,
        s.strict.channel.flight? = some (e, earlier) ∧ Cancelled earlier place := by
      constructor
      · exact fun h => ⟨e, earlier, hflight, h⟩
      · rintro ⟨e', earlier', hflight', h⟩
        have hsame := hflight.symm.trans hflight'
        rw [Option.some.injEq, Prod.mk.injEq] at hsame
        rwa [hsame.2]
    rw [← hbefore]
    exact Front.cancelled_iff hf htracked hflight
  · intro hwriter hwaiting hinbox
    have ht := htracked ⟨hf.sorted.isAlive_of_flight hflight, hwriter⟩
    refine ht.cancelled hwriter ?_ hwaiting hflight hcode hplace hstop
    exact fun event hevent => hinbox event (mem_strictEvents.1 hevent)

/-- The document is being checked; one edit was made and another one, which takes the first
one back, waits. -/
def secondEdit : Session :=
  (start ⟨"file:///work/A.fst"⟩ "let x = 1\nlet y = 2" {} false 0).run
    [.post (.textChanged "let x = 3\nlet y = 2"), .command,
     .post (.textChanged "let x = 1\nlet y = 4")]

/-- The second edit makes the work past its own place useless, and that work is cancelled. -/
theorem secondEdit_cancelled :
    secondEdit.commands.head? = some (.textChanged "let x = 1\nlet y = 4") ∧
    "let x = 1\nlet y = 4" ≠ secondEdit.text ∧
    ∃ since, (secondEdit.step .command).Outdated since ⟨1, 8⟩ ∧ Cancelled since ⟨1, 8⟩ := by
  have hnext : secondEdit.commands.head? = some (.textChanged "let x = 1\nlet y = 4") := by
    decide +kernel
  have hnew : "let x = 1\nlet y = 4" ≠ secondEdit.text := by decide +kernel
  have hflight : (secondEdit.step .command).strict.channel.flight?.map
      (fun flight => (flight.1.query.code?, flight.1.query.stop?)) =
        some (some "let x = 1\nlet y = 2", none) := by
    decide +kernel
  obtain ⟨⟨e, since⟩, hflight, hquery⟩ := Option.map_eq_some_iff.1 hflight
  obtain ⟨hcode, hstop⟩ := Prod.mk.inj hquery
  have houtdated : (secondEdit.step .command).Outdated since ⟨1, 8⟩ :=
    ⟨e, _, hflight, hcode, by decide +kernel, fun stop h => by simp [hstop] at h⟩
  refine ⟨hnext, hnew, since, houtdated, ?_⟩
  have hresult := outdated_work_cancelled ⟨"file:///work/A.fst"⟩ "let x = 1\nlet y = 2" {} false 0
    _ (s := secondEdit) rfl hnext hnew rfl
  have hwaiting : secondEdit.strict.channel.waiting? = none :=
    Option.isNone_iff_eq_none.1 (by decide +kernel)
  have hinbox : secondEdit.inbox = [] := by decide +kernel
  refine (hresult.2 since _ houtdated).2 (by decide +kernel) hwaiting ?_
  rw [hinbox]
  exact fun _ h => absurd h List.not_mem_nil

/-- The whole document is being checked, a request for a check of its start waits, and then an
edit is made past the place that the request goes to. -/
def boundedBehindFull : Session :=
  (start ⟨"file:///work/A.fst"⟩ "let x = 1\nlet y = 2" { verifyOnOpen := true } false 0).run
    [.post (.requestTo ⟨0, 3⟩ false), .command,
     .post (.textChanged "let x = 1\nlet y = 3"), .command]

/-- The verifier goes on with text that is gone, and nothing has told it to stop. -/
theorem boundedBehindFull_not_cancelled :
    ∃ since, boundedBehindFull.Outdated since ⟨1, 8⟩ ∧ ¬ Cancelled since ⟨1, 8⟩ := by
  have hflight : boundedBehindFull.strict.channel.flight?.map
      (fun flight => (flight.1.query.code?, flight.1.query.stop?, flight.2.isEmpty)) =
        some (some "let x = 1\nlet y = 2", none, true) := by
    decide +kernel
  obtain ⟨⟨e, since⟩, hflight, hquery⟩ := Option.map_eq_some_iff.1 hflight
  obtain ⟨hcode, hrest⟩ := Prod.mk.inj hquery
  obtain ⟨hstop, hempty⟩ := Prod.mk.inj hrest
  have hnone : since = [] := List.isEmpty_iff.1 hempty
  refine ⟨since, ⟨e, _, hflight, hcode, by decide +kernel, fun stop h => by simp [hstop] at h⟩, ?_⟩
  rintro ⟨e', he', -⟩
  rw [hnone] at he'
  cases he'

end Session

end VerifierClient

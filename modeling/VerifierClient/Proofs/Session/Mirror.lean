import VerifierClient.Proofs.Json.RoundTrip
import VerifierClient.Proofs.Result.EditFrontier
import VerifierClient.Proofs.Session.Relay

/-!
# When the model mirrors its channel

The model keeps two texts, that of the sequence in flight and that of the query behind
it. It learns of requests at once and of the ends of sequences through the queue, so
that it can be a sequence behind its channel when a text is issued. With two sequences
whose end it has not seen, there is no room for the new text, and that of a sequence
still to come is lost.

* `Relay.inStep` — the runs in which a text is issued only while the end of at most one
  sequence has yet to be taken;
* `Relay.Mirrored` — the texts that the model expects are those of the queries owed;
* `Relay.exists_mismatch` — what becomes of a text that is issued out of step;
* `Relay.Faithful` — every result set is for the text of its query;
* `Relay.inStep_iff_faithful` — the result for all runs;
* `Relay.lateRequest_not_faithful` — a run that is out of step.
-/

namespace VerifierClient

-- ---------------------------------------------------------------------------
-- Lines that report progress
-- ---------------------------------------------------------------------------

/-- The line by which the verifier reports a stage of the query `id`. -/
def progressLine (id : QueryId) (stage : Stage) : String :=
  (Json.obj [("kind", .str "message"), ("query-id", .str id.text), ("level", .str "progress"),
    ("contents", .obj [("stage", .str stage.name)])]).text

theorem parse?_progressLine (id : QueryId) (stage : Stage) :
    Incoming.parse? (progressLine id stage) =
      some (.message id.text .progress (.obj [("stage", .str stage.name)])) := by
  rw [Incoming.parse?, progressLine, Json.read?_text rfl]
  rfl

theorem ofLine?_progressLine (id : QueryId) (stage : Stage) :
    StreamMessage.ofLine? id (progressLine id stage) = some (.progress { stage }) := by
  rw [Channel.streamOfLine?_eq (parse?_progressLine id stage), Incoming.rawId,
    if_pos (QueryId.stem_text id)]
  cases stage <;> rfl

namespace Relay

-- ---------------------------------------------------------------------------
-- Runs in step
-- ---------------------------------------------------------------------------

def Step.isIssue : Step → Bool
  | .issue _ _ _ => true
  | _ => false

/-- Whether texts are issued only while the end of at most one sequence has yet to be
taken. -/
def inStep (r : Relay) : List Step → Bool
  | [] => true
  | s :: rest => (!s.isIssue || decide (r.unsettled ≤ 1)) && (r.step s).inStep rest

theorem inStep_append (r : Relay) (past rest : List Step) :
    r.inStep (past ++ rest) = (r.inStep past && (r.run past).inStep rest) := by
  induction past generalizing r with
  | nil => rfl
  | cons s past ih =>
    rw [List.cons_append, inStep, inStep, ih, Bool.and_assoc]
    rfl

theorem inStep_past {r : Relay} {past steps : List Step} (h : r.inStep steps = true)
    (hstart : past <+: steps) : r.inStep past = true := by
  obtain ⟨rest, rfl⟩ := hstart
  rw [inStep_append, Bool.and_eq_true] at h
  exact h.1

/-- A run that is not in step issues a text out of step. -/
theorem exists_late_issue {r : Relay} {steps : List Step} (h : r.inStep steps = false) :
    ∃ past kind text position, past ++ [.issue kind text position] <+: steps ∧
      2 ≤ (r.run past).unsettled := by
  induction steps generalizing r with
  | nil => cases h
  | cons s rest ih =>
    rw [inStep, Bool.and_eq_false_iff] at h
    rcases h with hnow | hlater
    · cases s with
      | issue kind text position =>
        refine ⟨[], kind, text, position, ⟨rest, rfl⟩, ?_⟩
        simp only [Step.isIssue, Bool.not_true, Bool.false_or, decide_eq_false_iff_not] at hnow
        exact Nat.lt_of_not_le hnow
      | receive line => cases hnow
      | take => cases hnow
    · obtain ⟨past, kind, text, position, hstart, hunsettled⟩ := ih hlater
      exact ⟨s :: past, kind, text, position, List.cons_prefix_cons.2 ⟨rfl, hstart⟩, hunsettled⟩

-- ---------------------------------------------------------------------------
-- The texts expected are those of the queries owed
-- ---------------------------------------------------------------------------

def Mirrored (sent : List Envelope) (r : Relay) : Prop :=
  (owed sent r).map Query.code? = r.model.expected.map some

section Steps

variable {sent : List Envelope} {r : Relay}

/-- A text that is issued in step takes the place that its query takes. -/
theorem Kept.mirrored_issue (h : Kept sent r) (hmirror : Mirrored sent r)
    (hsettled : r.unsettled ≤ 1) (kind : BufferKind) (text : String)
    (position : Option Position) :
    Mirrored (sent ++ r.channel.launches (Step.issue kind text position).ops)
      (r.step (.issue kind text position)) := by
  have hlength := h.length_drop_seen
  unfold Mirrored at hmirror ⊢
  rw [h.owed_issue, List.map_append, ResultModel.expected, h.plan_issue]
  rw [owed] at hmirror
  cases hdrop : sent.drop r.seen with
  | nil =>
    -- no sequence is unsettled, so that none is in flight and no text is expected
    rw [hdrop, List.length_nil, unsettled] at hlength
    have hidle : r.channel.current? = none := by
      rw [← Option.toList_eq_nil_iff]
      exact List.length_eq_zero_iff.1 (by omega)
    rw [hdrop, Channel.waiting?_of_idle hidle] at hmirror
    have hnone : r.model.expected = [] := by simpa using hmirror.symm
    rw [ResultModel.expected, List.append_eq_nil_iff, Option.toList_eq_nil_iff,
      Option.toList_eq_nil_iff] at hnone
    rw [hnone.1, hnone.2]
    rfl
  | cons e rest =>
    -- one sequence is unsettled, and its text is the first one expected
    rw [hdrop, List.length_cons] at hlength
    have hrest : rest = [] := List.length_eq_zero_iff.1 (by omega)
    subst hrest
    rw [hdrop] at hmirror
    cases hfirst : r.model.plan.1 with
    | none =>
      rw [ResultModel.expected, hfirst, h.packed hfirst] at hmirror
      cases hmirror
    | some first =>
      rw [ResultModel.expected, hfirst] at hmirror
      have hcode : e.query.code? = some first := (List.cons.inj hmirror).1
      simp [hcode, Query.code?_fullBuffer]

theorem Kept.mirrored_take (h : Kept sent r) (hmirror : Mirrored sent r) :
    Mirrored sent (r.step .take) := by
  cases hnext : r.next? with
  | none =>
    rw [take_of_empty hnext]
    exact hmirror
  | some event =>
    have hplan := h.plan_take hnext
    unfold Mirrored at hmirror ⊢
    rw [ResultModel.expected, hplan]
    cases hend : event.isEnd with
    | false =>
      rw [owed_take_going hnext hend]
      exact hmirror
    | true =>
      -- the first query owed is settled, and the first text expected is dropped
      obtain ⟨query, howed⟩ := h.owed_take_end hnext hend
      have htail := congrArg List.tail hmirror
      rw [howed, List.map_cons, List.tail_cons, ← List.map_tail, h.packed.tail_expected] at htail
      rw [htail, if_pos rfl, Option.toList_none, List.append_nil]

/-- As long as texts are issued in step, the model expects what is owed to it. -/
theorem Kept.mirrored_step (h : Kept sent r) (hmirror : Mirrored sent r) {s : Step}
    (hs : r.inStep [s] = true) :
    Mirrored (sent ++ r.channel.launches s.ops) (r.step s) := by
  cases s with
  | issue kind text position =>
    exact h.mirrored_issue hmirror (by simpa [inStep, Step.isIssue] using hs) kind text position
  | receive line =>
    have hmodel : (r.step (.receive line)).model = r.model := rfl
    rw [Mirrored, h.owed_receive, hmodel]
    exact hmirror
  | take =>
    rw [Step.ops, Channel.launches, Channel.along, List.append_nil]
    exact h.mirrored_take hmirror

end Steps

theorem run_mirrored (role : Role) (path text : String) {steps : List Step}
    (h : (new role path text).inStep steps = true) :
    Mirrored (sentBy role steps) ((new role path text).run steps) := by
  induction steps using List.reverseRecOn with
  | nil => rfl
  | append_singleton past s ih =>
    rw [inStep_append, Bool.and_eq_true] at h
    rw [sentBy_concat role path text, run_concat]
    exact (run_kept role path text past).mirrored_step (ih h.1) h.2

-- ---------------------------------------------------------------------------
-- Result sets and their queries
-- ---------------------------------------------------------------------------

/-- If the next event to be taken is a message that started a sequence, then the new
result set is for the text of the query that was in flight when the message came. -/
def Faithful (role : Role) (path text : String) (steps : List Step) : Prop :=
  ∀ past line rest id message, steps = past ++ .receive line :: rest →
    ((new role path text).run past).channel.current? = some id →
    StreamMessage.ofLine? id line = some message → message.isStarted = true →
    ((new role path text).run steps).taken =
      ((new role path text).run past).channel.events.length →
    ∃ e, (sentBy role past).getLast? = some e ∧ e.id = id ∧
      e.query.code? =
        some ((new role path text).run (steps ++ [.take])).model.active.sourceText

/-- The set that a sequence starts with is for the first text expected. -/
theorem take_sourceText {r : Relay} {message : StreamMessage}
    (hnext : r.next? = some (.stream message)) (hstarted : message.isStarted = true) :
    (r.step .take).model.active.sourceText = r.model.plan.1.getD r.model.lastSent := by
  have hstep : r.step .take = ⟨r.side.fold message, r.taken + 1⟩ := take_of_next hnext
  have hactive : (r.step .take).model.active = r.model.freshSet := by
    rw [hstep]
    exact ResultModel.active_of_isStarted hstarted
  rw [hactive]
  rfl

theorem receive_events {r : Relay} (hc : r.channel.Open) {line : String} {id : QueryId}
    {message : StreamMessage} (hflight : r.channel.current? = some id)
    (hmessage : StreamMessage.ofLine? id line = some message) :
    (r.step (.receive line)).channel.events = r.channel.events ++ [.stream message] := by
  have hop : (Channel.Op.receive line).isTraffic = true := rfl
  obtain ⟨posted, hevents, hposted⟩ := hc.posted hop
  rw [hposted.of_message hflight hmessage] at hevents
  rw [step_channel]
  exact hevents

/-- Events stay where they are in the queue. -/
theorem run_events {r : Relay} (hc : r.channel.Open) (steps : List Step) :
    ∃ posted, (r.run steps).channel.events = r.channel.events ++ posted := by
  rw [run_channel]
  exact Channel.run_events hc.fits _

section Started

variable {role : Role} {path text : String} {past rest : List Step} {line : String}
  {id : QueryId} {message : StreamMessage}

theorem next?_of_received
    (hflight : ((new role path text).run past).channel.current? = some id)
    (hmessage : StreamMessage.ofLine? id line = some message)
    (htaken : ((new role path text).run (past ++ .receive line :: rest)).taken =
      ((new role path text).run past).channel.events.length) :
    ((new role path text).run (past ++ .receive line :: rest)).next? =
      some (.stream message) := by
  have hkept := run_kept role path text past
  have hreceived := receive_events hkept.accounted.isOpen hflight hmessage
  have hopen := (hkept.step (.receive line)).accounted.isOpen
  obtain ⟨posted, hevents⟩ := run_events hopen rest
  have hrun : (new role path text).run (past ++ .receive line :: rest) =
      (((new role path text).run past).step (.receive line)).run rest := run_append ..
  rw [next?, htaken, hrun, hevents, hreceived]
  simp

/-- When the next event is a message of the sequence of a query, this query is the first
one owed. -/
theorem owed_of_received
    (hflight : ((new role path text).run past).channel.current? = some id)
    (htaken : ((new role path text).run (past ++ .receive line :: rest)).taken =
      ((new role path text).run past).channel.events.length) :
    ∃ e, (sentBy role past).getLast? = some e ∧ e.id = id ∧
      (owed (sentBy role (past ++ .receive line :: rest))
        ((new role path text).run (past ++ .receive line :: rest))).head? = some e.query := by
  have hkept := run_kept role path text past
  obtain ⟨e, hlast, hid⟩ := hkept.accounted.last id hflight
  obtain ⟨earlier, hsent⟩ := List.getLast?_eq_some_iff.1 hlast
  obtain ⟨posted, hevents⟩ := run_events hkept.accounted.isOpen (.receive line :: rest)
  rw [← run_append] at hevents
  -- the ends seen are those that had come by then
  have hseen : ((new role path text).run (past ++ .receive line :: rest)).seen =
      earlier.length := by
    have hended := hkept.accounted.ended
    rw [hflight, hsent, List.length_append] at hended
    rw [seen, htaken, hevents, List.take_left]
    simpa using hended
  refine ⟨e, hlast, hid, ?_⟩
  rw [owed, hseen, sentBy_append, hsent, List.append_assoc, List.drop_left]
  rfl

theorem run_faithful {steps : List Step} (h : (new role path text).inStep steps = true) :
    Faithful role path text steps := by
  rintro past line rest id message rfl hflight hmessage hstarted htaken
  have hkept := run_kept role path text (past ++ .receive line :: rest)
  have hmirror := run_mirrored role path text h
  have hnext := next?_of_received hflight hmessage htaken
  obtain ⟨e, hlast, hid, howed⟩ := owed_of_received hflight htaken
  refine ⟨e, hlast, hid, ?_⟩
  have hhead := congrArg List.head? hmirror
  rw [List.head?_map, howed, List.head?_map, hkept.packed.head?_expected] at hhead
  rw [run_concat, take_sourceText hnext hstarted]
  cases hfirst : ((new role path text).run (past ++ .receive line :: rest)).model.plan.1 with
  | none =>
    rw [hfirst] at hhead
    cases hhead
  | some first =>
    rw [hfirst] at hhead
    exact Option.some.inj hhead

end Started

-- ---------------------------------------------------------------------------
-- What becomes of a text that is issued out of step
-- ---------------------------------------------------------------------------

/-- A sequence is in flight, and the model expects fewer sequences than are owed to it. -/
structure Adrift (sent : List Envelope) (r : Relay) : Prop where
  kept : Kept sent r
  inFlight : r.channel.current? ≠ none
  short : r.model.expected.length < (owed sent r).length

theorem length_expected_le (m : ResultModel) : m.expected.length ≤ 2 := by
  have hfirst := Option.length_toList_le (o := m.plan.1)
  have hsecond := Option.length_toList_le (o := m.plan.2)
  rw [ResultModel.expected, List.length_append]
  omega

section Adrift

variable {sent : List Envelope} {r : Relay}

theorem Kept.issue_current? (h : Kept sent r) (kind : BufferKind) (text : String)
    (position : Option Position) :
    (r.step (.issue kind text position)).channel.current? ≠ none := by
  have hop : (Channel.Op.startFullBuffer (.fullBuffer kind text position)).isTraffic = true := rfl
  have hturn := h.accounted.isOpen.turn hop
  rw [step_channel]
  show (r.channel.step (.startFullBuffer (.fullBuffer kind text position))).current? ≠ none
  cases hturn with
  | quiet hother => exact absurd rfl (hother _)
  | launch _ _ hcurrent => simp [hcurrent]
  | replace _ _ hcurrent => simp [hcurrent]

/-- With two sequences unsettled there is no room for a third text. -/
theorem Kept.issue_adrift (h : Kept sent r) (hlate : 2 ≤ r.unsettled) (kind : BufferKind)
    (text : String) (position : Option Position) :
    Adrift (sent ++ r.channel.launches (Step.issue kind text position).ops)
      (r.step (.issue kind text position)) := by
  refine ⟨h.step _, h.issue_current? kind text position, ?_⟩
  have hexpected := length_expected_le (r.step (.issue kind text position)).model
  rw [h.owed_issue, List.length_append, List.length_map, h.length_drop_seen, List.length_singleton]
  omega

theorem Adrift.take (h : Adrift sent r) : Adrift sent (r.step .take) := by
  have hflight : (r.step .take).channel.current? ≠ none := by
    rw [step_take_channel]
    exact h.inFlight
  refine ⟨h.kept.take, hflight, ?_⟩
  have hshort := h.short
  cases hnext : r.next? with
  | none =>
    rw [take_of_empty hnext]
    exact hshort
  | some event =>
    have hplan := h.kept.plan_take hnext
    cases hend : event.isEnd with
    | false =>
      rw [hend] at hplan
      have hexpected : (r.step .take).model.expected = r.model.expected := by
        rw [ResultModel.expected, hplan]
        rfl
      rw [owed_take_going hnext hend, hexpected]
      exact hshort
    | true =>
      -- the sequence in flight is still owed after this one is settled
      have hexpected : (r.step .take).model.expected = r.model.expected.tail := by
        rw [ResultModel.expected, hplan, hend, if_pos rfl, h.kept.packed.tail_expected]
        exact List.append_nil _
      obtain ⟨query, howed⟩ := h.kept.owed_take_end hnext hend
      have howes : 0 < (owed sent (r.step .take)).length := by
        have hlength := h.kept.take.length_drop_seen
        have hcurrent : 0 < (r.step .take).channel.current?.toList.length := by
          rw [List.length_pos_iff, ne_eq, Option.toList_eq_nil_iff]
          exact hflight
        rw [owed, List.length_append, List.length_map, hlength, unsettled]
        omega
      rw [howed, List.length_cons] at hshort
      rw [hexpected, List.length_tail]
      omega

/-- When the sequence in flight ends, the query that waits is in flight. -/
theorem Adrift.finish (h : Adrift sent r) {line : String} {id : QueryId} {query : Query}
    (hended : r.channel.endedBy? line = some id) (hwaits : r.channel.waiting? = some query) :
    Adrift (sent ++ r.channel.launches (Step.receive line).ops) (r.step (.receive line)) ∧
      (r.step (.receive line)).channel.waiting? = none := by
  have hop : (Channel.Op.receive line).isTraffic = true := rfl
  have hturn : Channel.Turn r.channel (.receive line) (r.step (.receive line)).channel := by
    rw [step_channel]
    exact h.kept.accounted.isOpen.turn hop
  have hmodel : (r.step (.receive line)).model = r.model := rfl
  cases hturn with
  | quiet _ hline =>
    rw [hline _ rfl] at hended
    cases hended
  | @finish _ _ _ next _ hnext _ hcurrent hwaiting =>
    refine ⟨⟨h.kept.step _, ?_, ?_⟩, hwaiting⟩
    · rw [hwaits] at hnext
      rw [hcurrent]
      cases next with
      | none => cases hnext
      | some e => exact Option.some_ne_none _
    · rw [h.kept.owed_receive, hmodel]
      exact h.short

theorem endedBy?_progressLine {c : Channel} {id : QueryId} (hflight : c.current? = some id) :
    c.endedBy? (progressLine id .finished) = some id := by
  rw [Channel.endedBy?, hflight, Option.filter_some, ofLine?_progressLine]
  rfl

end Adrift

section Continuations

variable {role : Role} {path text : String} {past : List Step}

theorem inStep_of_no_issue {r : Relay} {steps : List Step}
    (h : ∀ s ∈ steps, s.isIssue = false) : r.inStep steps = true := by
  induction steps generalizing r with
  | nil => rfl
  | cons s rest ih =>
    rw [inStep, h s List.mem_cons_self, ih fun s hs => h s (List.mem_cons_of_mem _ hs)]
    rfl

theorem sentBy_take (role : Role) (past : List Step) :
    sentBy role (past ++ [.take]) = sentBy role past := by
  rw [sentBy_append]
  exact List.append_nil _

/-- The session can take all events that wait. -/
theorem Adrift.drain (h : Adrift (sentBy role past) ((new role path text).run past)) :
    ∃ further : List Step, (∀ s ∈ further, s.isIssue = false) ∧
      Adrift (sentBy role (past ++ further)) ((new role path text).run (past ++ further)) ∧
      ((new role path text).run (past ++ further)).channel =
        ((new role path text).run past).channel ∧
      ((new role path text).run (past ++ further)).next? = none := by
  generalize hcount : ((new role path text).run past).channel.events.length -
    ((new role path text).run past).taken = count
  induction count generalizing past with
  | zero =>
    refine ⟨[], nofun, ?_, ?_, ?_⟩
    · rw [List.append_nil]
      exact h
    · rw [List.append_nil]
    · rw [List.append_nil]
      exact List.getElem?_eq_none (by omega)
  | succ count ih =>
    have hnext : ∃ event, ((new role path text).run past).next? = some event :=
      ⟨_, List.getElem?_eq_getElem (by omega)⟩
    obtain ⟨event, hnext⟩ := hnext
    have htaken : ((new role path text).run (past ++ [.take])).taken =
        ((new role path text).run past).taken + 1 := by
      rw [run_concat]
      exact congrArg Relay.taken (take_of_next hnext)
    have hchannel : ((new role path text).run (past ++ [.take])).channel =
        ((new role path text).run past).channel := by
      rw [run_concat]
      exact step_take_channel _
    have hadrift : Adrift (sentBy role (past ++ [.take]))
        ((new role path text).run (past ++ [.take])) := by
      rw [sentBy_take, run_concat]
      exact h.take
    obtain ⟨further, hquiet, hlater, hsame, hempty⟩ := ih hadrift (by rw [htaken, hchannel]; omega)
    rw [List.append_assoc, List.singleton_append] at hlater hsame hempty
    refine ⟨.take :: further, ?_, hlater, hsame.trans hchannel, hempty⟩
    rintro s (_ | ⟨_, hs⟩)
    · rfl
    · exact hquiet s hs

/-- The session can take all events while the sequence in flight is the last one. -/
theorem Adrift.settle (h : Adrift (sentBy role past) ((new role path text).run past)) :
    ∃ further : List Step, (∀ s ∈ further, s.isIssue = false) ∧
      Adrift (sentBy role (past ++ further)) ((new role path text).run (past ++ further)) ∧
      ((new role path text).run (past ++ further)).channel.waiting? = none ∧
      ((new role path text).run (past ++ further)).next? = none := by
  obtain ⟨first, hquiet, hadrift, -, hempty⟩ := h.drain
  cases hwaits : ((new role path text).run (past ++ first)).channel.waiting? with
  | none => exact ⟨first, hquiet, hadrift, hwaits, hempty⟩
  | some query =>
    -- the query that waits is let out, and the end of the one before it is taken
    obtain ⟨id, hflight⟩ := Option.ne_none_iff_exists'.1 hadrift.inFlight
    have hended := endedBy?_progressLine hflight
    generalize progressLine id .finished = line at hended
    obtain ⟨hfinished, hwaiting⟩ := hadrift.finish hended hwaits
    rw [← sentBy_concat, ← run_concat] at hfinished
    rw [← run_concat] at hwaiting
    obtain ⟨second, hquiet', hlater, hsame, hempty'⟩ := hfinished.drain
    have hsplit : past ++ (first ++ .receive line :: second) =
        past ++ first ++ [.receive line] ++ second := by simp
    refine ⟨first ++ .receive line :: second, ?_, ?_⟩
    · intro s hs
      simp only [List.mem_append, List.mem_cons] at hs
      rcases hs with hs | rfl | hs
      · exact hquiet s hs
      · rfl
      · exact hquiet' s hs
    · rw [hsplit]
      exact ⟨hlater, hsame.symm ▸ hwaiting, hempty'⟩

/-- A query that is issued during a sequence leaves it in flight. -/
theorem Kept.issue_during {sent : List Envelope} {r : Relay} (h : Kept sent r) {id : QueryId}
    (hflight : r.channel.current? = some id) (kind : BufferKind) (text : String)
    (position : Option Position) :
    (r.step (.issue kind text position)).channel.current? = some id ∧
    (r.step (.issue kind text position)).channel.events = r.channel.events ∧
    r.channel.launches (Step.issue kind text position).ops = [] := by
  have hop : (Channel.Op.startFullBuffer (.fullBuffer kind text position)).isTraffic = true := rfl
  have hturn := h.accounted.isOpen.turn hop
  obtain ⟨posted, hevents, hposted⟩ := h.accounted.isOpen.posted hop
  have hrun : (r.step (.issue kind text position)).channel =
      r.channel.step (.startFullBuffer (.fullBuffer kind text position)) := step_channel r _
  rw [hrun, Step.ops, Channel.launches_singleton, Channel.launched_startFullBuffer]
  cases hposted with
  | nothing =>
    rw [List.append_nil] at hevents
    cases hturn with
    | quiet hother => exact absurd rfl (hother _)
    | launch hidle =>
      rw [hflight] at hidle
      cases hidle
    | replace hflight' hwritten hcurrent =>
      exact ⟨hcurrent.trans (hflight'.symm.trans hflight), hevents, hwritten⟩

/-- With all events taken and no query waiting, the model that is adrift expects nothing. -/
theorem Adrift.plan_of_settled {sent : List Envelope} {r : Relay} (h : Adrift sent r)
    (hwaits : r.channel.waiting? = none) (hempty : r.next? = none) :
    r.unsettled = 1 ∧ r.model.plan.1 = none := by
  obtain ⟨id, hflight⟩ := Option.ne_none_iff_exists'.1 h.inFlight
  have hunsettled : r.unsettled = 1 := by
    rw [unsettled, List.drop_eq_nil_of_le (List.getElem?_eq_none_iff.1 hempty), hflight]
    rfl
  have hshort := h.short
  rw [owed, hwaits, List.length_append, List.length_map, h.kept.length_drop_seen,
    hunsettled] at hshort
  have hnone : r.model.expected = [] := List.length_eq_zero_iff.1 (by simpa using hshort)
  refine ⟨hunsettled, ?_⟩
  rw [← h.kept.packed.head?_expected, hnone]
  rfl

theorem exists_other_text (code : Option String) : ∃ text, code ≠ some text := by
  cases code with
  | none => exact ⟨"", nofun⟩
  | some code =>
    refine ⟨code ++ " ", fun h => ?_⟩
    have hlength := congrArg String.length (Option.some.inj h)
    simp at hlength

/-- A text that is issued next is taken for that of the sequence in flight. -/
theorem Adrift.mismatch (h : Adrift (sentBy role past) ((new role path text).run past))
    (hwaits : ((new role path text).run past).channel.waiting? = none)
    (hempty : ((new role path text).run past).next? = none) :
    ∃ further : List Step, ((new role path text).run past).inStep further = true ∧
      ¬ Faithful role path text (past ++ further) := by
  obtain ⟨hunsettled, hplan⟩ := h.plan_of_settled hwaits hempty
  obtain ⟨id, hflight⟩ := Option.ne_none_iff_exists'.1 h.inFlight
  obtain ⟨e, hlast, -⟩ := h.kept.accounted.last id hflight
  obtain ⟨other, hother⟩ := exists_other_text e.query.code?
  obtain ⟨hcurrent, hevents, hlaunches⟩ := h.kept.issue_during hflight .full other none
  have hmessage := ofLine?_progressLine id .started
  generalize progressLine id .started = line at hmessage
  refine ⟨[.issue .full other none, .receive line], ?_, fun hfaithful => ?_⟩
  · simp [inStep, Step.isIssue, hunsettled]
  have hsplit : past ++ [.issue .full other none, .receive line] =
      (past ++ [.issue .full other none]) ++ .receive line :: [] := by simp
  have hissued : (new role path text).run (past ++ [.issue .full other none]) =
      ((new role path text).run past).step (.issue .full other none) := run_concat ..
  rw [← hissued] at hcurrent hevents
  have htaken : ((new role path text).run
      ((past ++ [.issue .full other none]) ++ .receive line :: [])).taken =
        ((new role path text).run (past ++ [.issue .full other none])).channel.events.length := by
    rw [run_append, hevents, hissued]
    exact Nat.le_antisymm h.kept.taken_le (List.getElem?_eq_none_iff.1 hempty)
  rw [hsplit] at hfaithful
  obtain ⟨e', hlast', -, hcode⟩ := hfaithful _ line [] id _ rfl hcurrent hmessage rfl htaken
  -- it is the query that was in flight before
  rw [sentBy_concat role path text, hlaunches, List.append_nil, hlast, Option.some.injEq] at hlast'
  subst hlast'
  have hnext := next?_of_received hcurrent hmessage htaken
  rw [run_concat, take_sourceText hnext rfl] at hcode
  have htext : ((new role path text).run
      ((past ++ [.issue .full other none]) ++ .receive line :: [])).model.plan.1 = some other := by
    rw [run_append, hissued]
    have hissue := h.kept.plan_issue .full other none
    rw [hplan] at hissue
    exact congrArg Prod.fst hissue
  rw [htext] at hcode
  exact hother hcode

/-- A text that is issued out of step makes a later result set one for a wrong text,
though no other text is issued out of step. -/
theorem exists_mismatch (hlate : 2 ≤ ((new role path text).run past).unsettled)
    (kind : BufferKind) (code : String) (position : Option Position) :
    ∃ further : List Step,
      ((new role path text).run (past ++ [.issue kind code position])).inStep further = true ∧
      ¬ Faithful role path text (past ++ [.issue kind code position] ++ further) := by
  have hadrift := (run_kept role path text past).issue_adrift hlate kind code position
  rw [← sentBy_concat, ← run_concat] at hadrift
  obtain ⟨first, hquiet, hsettled, hwaits, hempty⟩ := hadrift.settle
  obtain ⟨second, hstep, hwrong⟩ := hsettled.mismatch hwaits hempty
  refine ⟨first ++ second, ?_, ?_⟩
  · rw [inStep_append, inStep_of_no_issue hquiet, ← run_append]
    exact hstep
  · rw [← List.append_assoc]
    exact hwrong

end Continuations

-- ---------------------------------------------------------------------------
-- All runs
-- ---------------------------------------------------------------------------

/-- Every result set of a run is for the text of its query, and stays so in every
continuation in step, iff the run is in step: texts are issued only while the session
has taken the ends of all sequences but one at most. -/
theorem inStep_iff_faithful (role : Role) (path text : String) (steps : List Step) :
    (new role path text).inStep steps = true ↔
      ∀ past further, past <+: steps →
        ((new role path text).run past).inStep further = true →
        Faithful role path text (past ++ further) := by
  constructor
  · intro h past further hstart hfurther
    refine run_faithful ?_
    rw [inStep_append, inStep_past h hstart, hfurther]
    rfl
  · intro h
    by_contra hlate
    obtain ⟨past, kind, code, position, hstart, hunsettled⟩ :=
      exists_late_issue (Bool.eq_false_iff.2 hlate)
    obtain ⟨further, hfurther, hwrong⟩ := exists_mismatch hunsettled kind code position
    exact hwrong (h _ further hstart hfurther)

/-- A third text is issued during the second of two sequences, after the end of the first
one was taken. -/
def timelyRequest : List Step :=
  [.issue .full "let x = 1" none,
   .issue .full "let x = 2" none,
   .receive (progressLine ⟨1⟩ .finished),
   .take,
   .issue .full "let x = 3" none]

theorem timelyRequest_faithful :
    (new .strict "/doc" "let x = 1").inStep
      (timelyRequest ++ [.receive (progressLine ⟨2⟩ .started)]) = true ∧
    ∃ e, (sentBy .strict timelyRequest).getLast? = some e ∧ e.id = ⟨2⟩ ∧
      e.query.code? =
        some ((new .strict "/doc" "let x = 1").run
          (timelyRequest ++ [.receive (progressLine ⟨2⟩ .started)] ++
            [.take])).model.active.sourceText := by
  obtain ⟨hstep, hflight, htaken⟩ : (new .strict "/doc" "let x = 1").inStep
        (timelyRequest ++ [.receive (progressLine ⟨2⟩ .started)]) = true ∧
      ((new .strict "/doc" "let x = 1").run timelyRequest).channel.current? = some ⟨2⟩ ∧
      ((new .strict "/doc" "let x = 1").run
        (timelyRequest ++ [.receive (progressLine ⟨2⟩ .started)])).taken =
        ((new .strict "/doc" "let x = 1").run timelyRequest).channel.events.length := by
    decide +kernel
  have hfaithful := (inStep_iff_faithful .strict "/doc" "let x = 1" _).1 hstep _ []
    (List.prefix_refl _) rfl
  rw [List.append_nil] at hfaithful
  have hmessage := ofLine?_progressLine ⟨2⟩ .started
  exact ⟨hstep, hfaithful timelyRequest _ [] ⟨2⟩ _ rfl hflight hmessage rfl htaken⟩

/-- The same text is issued before the end of the first sequence is taken. -/
def lateRequest : List Step :=
  [.issue .full "let x = 1" none,
   .issue .full "let x = 2" none,
   .receive (progressLine ⟨1⟩ .finished),
   .issue .full "let x = 3" none,
   .take]

/-- The second sequence is taken for one of the third text. -/
theorem lateRequest_not_faithful :
    ¬ Faithful .strict "/doc" "let x = 1"
      (lateRequest ++ [.receive (progressLine ⟨2⟩ .started)]) := by
  intro h
  obtain ⟨hflight, htaken, hsecond, hsource⟩ :
      ((new .strict "/doc" "let x = 1").run lateRequest).channel.current? = some ⟨2⟩ ∧
      ((new .strict "/doc" "let x = 1").run
        (lateRequest ++ [.receive (progressLine ⟨2⟩ .started)])).taken =
        ((new .strict "/doc" "let x = 1").run lateRequest).channel.events.length ∧
      (sentBy .strict lateRequest).getLast?.map (fun e => e.query.code?) =
        some (some "let x = 2") ∧
      ((new .strict "/doc" "let x = 1").run
        (lateRequest ++ [.receive (progressLine ⟨2⟩ .started)] ++
          [.take])).model.active.sourceText = "let x = 3" := by
    decide +kernel
  have hmessage := ofLine?_progressLine ⟨2⟩ .started
  obtain ⟨e, hlast, -, hcode⟩ := h lateRequest _ [] ⟨2⟩ _ rfl hflight hmessage rfl htaken
  rw [hlast, Option.map_some, hcode, hsource, Option.some.injEq, Option.some.injEq] at hsecond
  revert hsecond
  decide

end Relay

end VerifierClient

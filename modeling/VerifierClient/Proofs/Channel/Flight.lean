import VerifierClient.Proofs.Channel.Replacement

/-!
# The query in flight

A channel keeps only the id of the full-buffer query in flight; the query itself is the
last one of its kind among the envelopes written. Behind it stand the cancels that were
written since. The newest full-buffer query is the one that waits, or else the last one
written, whether it is in flight or its sequence has ended.

* `lastLaunch?` — the last full-buffer query of a list of envelopes, and what follows it;
* `Channel.flight?`, `Channel.newest?` — the query in flight, and the newest one;
* `Channel.Passage` — what an operation means for both;
* `Channel.Sorted` — what every operation keeps, so that there is a query to the id in
  flight;
* `Channel.Passage.newest?` — on a healthy channel only a request changes the newest query.
-/

namespace VerifierClient

/-- Whether the query has a text checked. -/
def Query.isFullBuffer (query : Query) : Bool := query.name == "full-buffer"

-- ---------------------------------------------------------------------------
-- The last full-buffer query written
-- ---------------------------------------------------------------------------

/-- The last full-buffer query among the envelopes, with the envelopes after it. -/
def lastLaunch? : List Envelope → Option (Envelope × List Envelope)
  | [] => none
  | e :: rest => (lastLaunch? rest).or (if e.query.isFullBuffer then some (e, rest) else none)

/-- Other envelopes stand behind the last full-buffer query. -/
theorem lastLaunch?_append {envelopes more : List Envelope}
    (hmore : ∀ e ∈ more, e.query.isFullBuffer = false) :
    lastLaunch? (envelopes ++ more) = (lastLaunch? envelopes).map (·.map id (· ++ more)) := by
  have hnone : lastLaunch? more = none := by
    induction more with
    | nil => rfl
    | cons e rest ih =>
      rw [lastLaunch?, ih fun e' he' => hmore e' (List.mem_cons_of_mem _ he'),
        hmore e List.mem_cons_self]
      rfl
  induction envelopes with
  | nil => exact hnone
  | cons e rest ih =>
    rw [List.cons_append, lastLaunch?, lastLaunch?, ih]
    cases lastLaunch? rest with
    | some launch => rfl
    | none => cases e.query.isFullBuffer <;> rfl

theorem lastLaunch?_concat (envelopes : List Envelope) {e : Envelope}
    (he : e.query.isFullBuffer = true) : lastLaunch? (envelopes ++ [e]) = some (e, []) := by
  induction envelopes with
  | nil => rw [List.nil_append, lastLaunch?, he]; rfl
  | cons e' rest ih => rw [List.cons_append, lastLaunch?, ih]; rfl

namespace Channel

/-- The full-buffer query in flight, with the envelopes written since. -/
def flight? (c : Channel) : Option (Envelope × List Envelope) :=
  (lastLaunch? c.accepted).filter fun launch => c.current? = some launch.1.id

/-- The full-buffer query that was accepted last. -/
def newest? (c : Channel) : Option Query :=
  c.waiting?.or ((lastLaunch? c.accepted).map fun launch => launch.1.query)

theorem flight?_eq_some_iff {c : Channel} {e : Envelope} {since : List Envelope} :
    c.flight? = some (e, since) ↔
      lastLaunch? c.accepted = some (e, since) ∧ c.current? = some e.id := by
  rw [flight?, Option.filter_eq_some_iff, decide_eq_true_iff]

theorem flight?_of_idle {c : Channel} (h : c.current? = none) : c.flight? = none := by
  rw [flight?, Option.filter_eq_none_iff]
  intro launch _
  simp [h]

/-- What waits is newer than what is in flight. -/
theorem newest?_of_flight {c : Channel} {e : Envelope} {since : List Envelope}
    (hflight : c.flight? = some (e, since)) (hwaiting : c.waiting? = none) :
    c.newest? = some e.query := by
  rw [newest?, hwaiting, (flight?_eq_some_iff.1 hflight).1]
  rfl

-- ---------------------------------------------------------------------------
-- What an operation means for the query in flight
-- ---------------------------------------------------------------------------

/-- Operations that submit full-buffer queries as such, and no others. -/
def Op.isSorted : Op → Bool
  | .send query | .sendDetached query => !query.isFullBuffer
  | .startFullBuffer query => query.isFullBuffer
  | _ => true

/-- The full-buffer query that the operation submits. -/
def Op.request? : Op → Option Query
  | .startFullBuffer query => some query
  | _ => none

theorem isSorted_submit {waited : Bool} {query : Query}
    (h : (Op.submit waited query).isSorted = true) : query.isFullBuffer = false := by
  cases waited <;> simpa [Op.submit, Op.isSorted] using h

/-- A channel whose full-buffer queries are where they belong. -/
structure Sorted (c : Channel) : Prop where
  proper : c.Proper
  held : ∀ e ∈ c.heldBack, e.query.isFullBuffer = false
  waits : ∀ query, c.waiting? = some query → query.isFullBuffer = true
  /-- the id in flight is that of the last full-buffer query written -/
  flies : ∀ id, c.current? = some id →
    ∃ e since, lastLaunch? c.accepted = some (e, since) ∧ e.id = id

inductive Passage (c : Channel) : Op → Channel → Prop
  /-- what is in flight stays so, and what waits goes on waiting -/
  | quiet {op : Op} {c' : Channel} (more : List Envelope)
      (hop : op.request? ≠ none → ¬ c.Healthy)
      (hline : ∀ line, op = .receive line → c.endedBy? line = none)
      (haccepted : c'.accepted = c.accepted ++ more)
      (hmore : ∀ e ∈ more, e.query.isFullBuffer = false) (hcurrent : c'.current? = c.current?)
      (hwaiting : c'.waiting? = c.waiting?)
      (hheld : ∀ e ∈ c'.heldBack, e.query.isFullBuffer = false) : Passage c op c'
  | launch {query : Query} {c' : Channel} (hidle : c.current? = none)
      (haccepted : c'.accepted = c.accepted ++ [⟨c.nextId, query⟩])
      (hcurrent : c'.current? = some c.nextId) (hwaiting : c'.waiting? = none)
      (hheld : c'.heldBack = []) : Passage c (.startFullBuffer query) c'
  | wait {query : Query} {c' : Channel} (hflight : c.current? ≠ none)
      (haccepted : c'.accepted = c.accepted) (hcurrent : c'.current? = c.current?)
      (hwaiting : c'.waiting? = some query) (hheld : c'.heldBack = c.heldBack) :
      Passage c (.startFullBuffer query) c'
  /-- the sequence in flight ends, and what waited is the next one unless it is lost -/
  | finish {line : String} {c' : Channel} (more : List Envelope) (next : Option Envelope)
      (hended : c.endedBy? line ≠ none)
      (hnext : c.Healthy → next.map Envelope.query = c.waiting?)
      (hfull : ∀ e ∈ next, e.query.isFullBuffer = true)
      (haccepted : c'.accepted = c.accepted ++ more ++ next.toList)
      (hmore : ∀ e ∈ more, e.query.isFullBuffer = false)
      (hcurrent : c'.current? = next.map Envelope.id) (hwaiting : c'.waiting? = none)
      (hheld : c'.heldBack = []) : Passage c (.receive line) c'
  | ended {op : Op} {c' : Channel} (hdead : ¬ c'.Healthy) (haccepted : c'.accepted = c.accepted)
      (hidle : c'.fullBuffer = none) : Passage c op c'

section Moves

variable {c c' : Channel} {op : Op}

theorem not_healthy_of_dead (h : c.isAlive = false) : ¬ c.Healthy := by
  simp [Healthy, h]

theorem not_healthy_of_closed (h : c.isWritable = false) : ¬ c.Healthy := by
  simp [Healthy, h]

/-- Nothing makes a channel healthy again. -/
theorem Move.healthy_before (h : Move c op c') (hc' : c'.Healthy) : c.Healthy := by
  have halive : c.isAlive = true := by
    rcases h.isAlive with hkept | ⟨hdead, -⟩
    · exact hkept ▸ hc'.1
    · exact absurd hc' (not_healthy_of_dead hdead)
  refine ⟨halive, ?_⟩
  by_contra hclosed
  rw [Bool.not_eq_true] at hclosed
  have hregister : ∀ (d : Channel) waited id, (d.register waited id).isWritable = d.isWritable := by
    intro d waited id
    cases waited <;> rfl
  suffices hclosed' : c'.isWritable = false from absurd hc' (not_healthy_of_closed hclosed')
  cases h with
  | write => exact (hregister _ _ _).trans hclosed
  | hold => exact (hregister _ _ _).trans hclosed
  | aside _ haside => cases haside <;> exact hclosed
  | writer _ hkept => exact hkept hclosed
  | ended _ hend => exact hend.writer hclosed
  | _ => exact hclosed

/-- An operation that leaves the sequence in flight alone. -/
theorem Passage.of_same (hop : op.request? ≠ none → ¬ c.Healthy)
    (hline : ∀ line, op = .receive line → c.endedBy? line = none) (hc : c.Sorted)
    (haccepted : c'.accepted = c.accepted) (hbuffer : c'.fullBuffer = c.fullBuffer) :
    Passage c op c' := by
  refine .quiet [] hop hline ?_ (fun _ h => absurd h List.not_mem_nil) ?_ ?_ ?_
  · rw [haccepted, List.append_nil]
  · rw [current?, hbuffer, current?]
  · rw [waiting?, hbuffer, waiting?]
  · rw [heldBack, hbuffer, ← heldBack]
    exact hc.held

theorem Passage.of_line {line : String} (hline : c.endedBy? line = none) (hc : c.Sorted)
    (haccepted : c'.accepted = c.accepted) (hbuffer : c'.fullBuffer = c.fullBuffer) :
    Passage c (.receive line) c' := by
  refine .of_same (fun h => absurd rfl h) ?_ hc haccepted hbuffer
  rintro _ ⟨⟩
  exact hline

theorem Passage.of_finish {line : String} {session : BufferSession} {message : StreamMessage}
    (next : Option Envelope) (hc : c.Sorted) (hflight : c.fullBuffer = some session)
    (hmessage : StreamMessage.ofLine? session.current line = some message)
    (hfinished : message.isFinished = true)
    (hnext : c.Healthy → next.map Envelope.query = session.replacement)
    (hfull : ∀ e ∈ next, some e.query = session.replacement)
    (haccepted : c'.accepted =
      ((c.emit (.stream message)).release session).accepted ++ next.toList)
    (hcurrent : c'.current? = next.map Envelope.id) (hwaiting : c'.waiting? = none)
    (hheld : c'.heldBack = []) : Passage c (.receive line) c' := by
  have hended : c.endedBy? line = some session.current := by
    rw [endedBy?_of_message hflight hmessage, if_pos hfinished]
  have hwait := waiting?_of_flight hflight
  refine .finish (if c.isWritable then session.queued else []) next (by simp [hended]) ?_ ?_
    haccepted ?_ hcurrent hwaiting hheld
  · rw [hwait]
    exact hnext
  · intro e he
    exact hc.waits e.query (hwait.trans (hfull e he).symm)
  · intro e he
    refine hc.held e ?_
    rw [heldBack_of_flight hflight]
    by_cases hwriter : c.isWritable = true
    · rwa [if_pos hwriter] at he
    · rw [if_neg hwriter] at he
      cases he

/-- Every move is a passage. -/
theorem Move.passage (h : Move c op c') (hc : c.Sorted) (hop : op.isSorted = true) :
    Passage c op c' := by
  have hrequest : op.isRequest = true → ∀ line, op = .receive line → c.endedBy? line = none := by
    rintro hrequest line rfl
    cases hrequest
  cases h with
  | refuse hreq hdead =>
    exact .of_same (fun _ => not_healthy_of_dead hdead) (hrequest hreq) hc rfl rfl
  | lose hreq _ hclosed =>
    exact .of_same (fun _ => not_healthy_of_closed hclosed) (hrequest hreq) hc rfl rfl
  | @write waited query _ hidle _ =>
    refine .quiet [⟨c.nextId, query⟩] ?_ (hrequest (isRequest_submit ..)) (register_accepted ..) ?_
      (register_current? ..) (register_waiting? ..) ?_
    · cases waited <;> exact fun h => absurd rfl h
    · simpa using isSorted_submit hop
    · rw [register_heldBack]
      exact hc.held
  | @hold waited query session _ hflight =>
    refine .quiet [] ?_ (hrequest (isRequest_submit ..)) ?_ (fun _ h => absurd h List.not_mem_nil)
      ?_ ?_ ?_
    · cases waited <;> exact fun h => absurd rfl h
    · rw [register_accepted, List.append_nil]
      rfl
    · rw [register_current?, current?_of_flight hflight]
      rfl
    · rw [register_waiting?, waiting?_of_flight hflight]
      rfl
    · intro e he
      rw [register_heldBack] at he
      rcases List.mem_append.1 he with hold | hnew
      · exact hc.held e (heldBack_of_flight hflight ▸ hold)
      · rw [List.mem_singleton.1 hnew]
        exact isSorted_submit hop
  | launch _ hidle _ => exact .launch (current?_of_idle hidle) rfl rfl rfl rfl
  | replace _ hflight =>
    refine .wait ?_ rfl ?_ rfl ?_
    · rw [current?_of_flight hflight]
      exact Option.some_ne_none _
    · rw [current?_of_flight hflight]
      rfl
    · rw [heldBack_of_flight hflight]
      rfl
  | @cancel position _ _ _ _ =>
    refine .quiet [⟨c.nextId, .cancel position⟩] (fun h => absurd rfl h) (hrequest rfl) rfl ?_ rfl
      rfl hc.held
    intro e he
    rw [List.mem_singleton.1 he]
    rfl
  | skip _ => exact .of_same (fun h => absurd rfl h) (hrequest rfl) hc rfl rfl
  | stream hflight hmessage hgoing =>
    refine .of_line ?_ hc rfl rfl
    rw [endedBy?_of_message hflight hmessage, if_neg (Bool.eq_false_iff.1 hgoing)]
  | finish hflight hmessage hfinished hlast =>
    exact .of_finish none hc hflight hmessage hfinished (fun _ => hlast.symm)
      (fun _ h => by cases h) (List.append_nil _).symm rfl rfl rfl
  | @relaunch _ _ _ query hflight hmessage hfinished hnext _ =>
    refine .of_finish (some ⟨c.nextId, query⟩) hc hflight hmessage hfinished (fun _ => hnext.symm)
      ?_ rfl rfl rfl rfl
    rintro e ⟨⟩
    exact hnext.symm
  | abandon hflight hmessage hfinished _ hclosed =>
    exact .of_finish none hc hflight hmessage hfinished
      (absurd · (not_healthy_of_closed hclosed)) (fun _ h => by cases h)
      (List.append_nil _).symm rfl rfl rfl
  | aside hmessage haside =>
    have hended := endedBy?_of_none hmessage
    cases haside <;> exact .of_line hended hc rfl rfl
  | writer hchange =>
    refine .of_same (fun h => ?_) ?_ hc rfl rfl
    · cases op with
      | startFullBuffer query => cases hchange
      | _ => exact absurd rfl h
    · rintro _ rfl
      cases hchange
  | ended _ hend =>
    exact .ended (not_healthy_of_dead hend.dead) hend.accepted hend.fullBuffer
  | again hend =>
    refine .of_same (fun h => ?_) ?_ hc rfl rfl
    · cases op with
      | startFullBuffer query => cases hend
      | _ => exact absurd rfl h
    · rintro _ rfl
      cases hend

-- ---------------------------------------------------------------------------
-- What every operation keeps
-- ---------------------------------------------------------------------------

theorem Passage.sorted (h : Passage c op c') (hc : c.Sorted) (hop : op.isSorted = true)
    (hproper : c'.Proper) : c'.Sorted := by
  cases h with
  | quiet more _ _ haccepted hmore hcurrent hwaiting hheld =>
    refine ⟨hproper, hheld, hwaiting ▸ hc.waits, ?_⟩
    intro id hid
    obtain ⟨e, since, hlast, hid'⟩ := hc.flies id (hcurrent ▸ hid)
    refine ⟨e, since ++ more, ?_, hid'⟩
    rw [haccepted, lastLaunch?_append hmore, hlast]
    rfl
  | @launch query _ _ haccepted hcurrent hwaiting hheld =>
    refine ⟨hproper, by simp [hheld], by simp [hwaiting], ?_⟩
    intro id hid
    rw [hcurrent, Option.some.injEq] at hid
    rw [haccepted]
    exact ⟨⟨c.nextId, query⟩, [], lastLaunch?_concat _ hop, hid⟩
  | wait _ haccepted hcurrent hwaiting hheld =>
    refine ⟨hproper, hheld ▸ hc.held, ?_, ?_⟩
    · intro query hquery
      rw [hwaiting, Option.some.injEq] at hquery
      exact hquery ▸ hop
    · rw [haccepted, hcurrent]
      exact hc.flies
  | finish more next _ _ hfull haccepted hmore hcurrent hwaiting hheld =>
    refine ⟨hproper, by simp [hheld], by simp [hwaiting], ?_⟩
    intro id hid
    rw [hcurrent] at hid
    obtain ⟨e, rfl, hid'⟩ := Option.map_eq_some_iff.1 hid
    exact ⟨e, [], haccepted ▸ lastLaunch?_concat _ (hfull e rfl), hid'⟩
  | ended _ _ hidle =>
    refine ⟨hproper, by simp [heldBack, hidle], by simp [waiting?, hidle], ?_⟩
    simp [current?, hidle]

/-- On a healthy channel a request makes its query the newest one, and nothing else
changes which query that is. -/
theorem Passage.newest? (h : Passage c op c') (hop : op.isSorted = true) (hhealthy : c.Healthy)
    (hhealthy' : c'.Healthy) : c'.newest? = op.request?.or c.newest? := by
  cases h with
  | quiet more hnone _ haccepted hmore _ hwaiting _ =>
    have hrequest : op.request? = none := by
      by_contra hrequest
      exact hnone hrequest hhealthy
    rw [hrequest, Option.none_or, Channel.newest?, hwaiting, haccepted, lastLaunch?_append hmore,
      Option.map_map]
    rfl
  | @launch query _ _ haccepted _ hwaiting _ =>
    have hlast := lastLaunch?_concat c.accepted (e := ⟨c.nextId, query⟩) hop
    rw [Channel.newest?, hwaiting, haccepted, hlast]
    rfl
  | wait _ _ _ hwaiting _ =>
    rw [Channel.newest?, hwaiting]
    rfl
  | finish more next _ hnext hfull haccepted hmore _ hwaiting _ =>
    rw [Channel.newest?, hwaiting, Channel.newest?, ← hnext hhealthy, haccepted]
    cases next with
    | none =>
      rw [Option.toList_none, List.append_nil, lastLaunch?_append hmore, Option.map_map]
      rfl
    | some e =>
      rw [Option.toList_some, lastLaunch?_concat _ (hfull e rfl)]
      rfl
  | ended hdead => exact absurd hhealthy' hdead

/-- What is written meanwhile stands behind the query in flight. -/
theorem flight?_append {more : List Envelope} (haccepted : c'.accepted = c.accepted ++ more)
    (hmore : ∀ e ∈ more, e.query.isFullBuffer = false) (hcurrent : c'.current? = c.current?) :
    c'.flight? = c.flight?.map (·.map id (· ++ more)) := by
  rw [flight?, flight?, haccepted, lastLaunch?_append hmore, hcurrent, Option.filter_map]
  rfl

theorem flight?_launch {query : Query} (hop : query.isFullBuffer = true)
    (haccepted : c'.accepted = c.accepted ++ [⟨c.nextId, query⟩])
    (hcurrent : c'.current? = some c.nextId) : c'.flight? = some (⟨c.nextId, query⟩, []) := by
  rw [flight?_eq_some_iff, haccepted]
  exact ⟨lastLaunch?_concat _ hop, hcurrent⟩

/-- There is a query to every id in flight. -/
theorem Sorted.isSome_flight? (hc : c.Sorted) : c.flight?.isSome = c.inFlight := by
  cases hcurrent : c.current? with
  | none =>
    rw [flight?_of_idle hcurrent, inFlight, current?_eq_none_iff.1 hcurrent]
    rfl
  | some id =>
    obtain ⟨e, since, hlast, rfl⟩ := hc.flies id hcurrent
    obtain ⟨session, hflight, -⟩ := current?_eq_some_iff.1 hcurrent
    rw [flight?_eq_some_iff.2 ⟨hlast, hcurrent⟩, inFlight, hflight]
    rfl

end Moves

theorem Sorted.passage {c : Channel} (hc : c.Sorted) {op : Op} (hop : op.isSorted = true) :
    Passage c op (c.step op) :=
  (step_move hc.proper.fits op).passage hc hop

theorem Sorted.step {c : Channel} (hc : c.Sorted) {op : Op} (hop : op.isSorted = true) :
    (c.step op).Sorted :=
  (hc.passage hop).sorted hc hop (step_proper hc.proper op)

theorem new_sorted (role : Role) : Sorted { role } :=
  ⟨new_proper role, fun _ h => absurd h List.not_mem_nil, nofun, nofun⟩

end Channel

end VerifierClient

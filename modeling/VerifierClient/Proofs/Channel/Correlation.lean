import VerifierClient.Proofs.Channel.Ids

/-!
# Which response resolves a query

A query that was sent waits in a table until its response comes. The line with the
response is recognised by its id alone, and messages of the sequence in flight are
taken out before: that this finds the right query rests on the tables holding
distinct ids, all of them given out before the next one.

* `Channel.Booking` — what a move does to the tables;
* `Channel.Separate` — the tables hold distinct ids;
* `Channel.Settled` — what became of one query;
* `Channel.response_correlation` — the first response with its id resolves a query.
-/

namespace VerifierClient.Channel

-- ---------------------------------------------------------------------------
-- What a move does to the tables
-- ---------------------------------------------------------------------------

/-- The response to the query `id` that an operation brings. -/
def Op.answer? (id : QueryId) : Op → Option Response
  | .receive line => Response.ofLine? id line
  | _ => none

/-- The operation brings no response to a query in the table. -/
def Unanswered (c : Channel) (op : Op) : Prop :=
  ∀ id ∈ c.pending, id.number < QueryId.limit → c.current? ≠ some id → op.answer? id = none

inductive Booking (c : Channel) : Op → Channel → Prop
  /-- no entry is made, and no query is resolved -/
  | keep {op : Op} {c' : Channel} (hquiet : c.Unanswered op) (hpending : c'.pending = c.pending)
      (hdetached : ∀ id ∈ c'.detached, id ∈ c.detached)
      (hcurrent : ∀ id, c'.current? = some id → c.current? = some id)
      (hresolved : c'.resolved = c.resolved) : Booking c op c'
  /-- a query is entered whose response is waited for -/
  | enter {op : Op} {c' : Channel} (hquiet : c.Unanswered op)
      (hpending : c'.pending = c.pending ++ [c.nextId]) (hdetached : c'.detached = c.detached)
      (hcurrent : c'.current? = c.current?) (hresolved : c'.resolved = c.resolved)
      (hspent : c'.lastId = c.nextId.number) : Booking c op c'
  /-- a query is entered whose response is dropped -/
  | detach {op : Op} {c' : Channel} (hquiet : c.Unanswered op) (hpending : c'.pending = c.pending)
      (hdetached : c'.detached = c.detached ++ [c.nextId]) (hcurrent : c'.current? = c.current?)
      (hresolved : c'.resolved = c.resolved) (hspent : c'.lastId = c.nextId.number) :
      Booking c op c'
  /-- a full-buffer query is in flight -/
  | launch {op : Op} {c' : Channel} (hquiet : c.Unanswered op) (hpending : c'.pending = c.pending)
      (hdetached : c'.detached = c.detached) (hcurrent : c'.current? = some c.nextId)
      (hresolved : c'.resolved = c.resolved) (hspent : c'.lastId = c.nextId.number) :
      Booking c op c'
  /-- a query is resolved -/
  | resolve {line : String} {c' : Channel} {id : QueryId} {response : Response}
      (hanswer : Response.ofLine? id line = some response) (hwaiting : id ∈ c.pending)
      (hpending : c'.pending = c.pending.filter (· ≠ id)) (hdetached : c'.detached = c.detached)
      (hcurrent : c'.current? = c.current?)
      (hresolved : c'.resolved = c.resolved ++ [(id, .ok response)]) :
      Booking c (.receive line) c'
  /-- the channel ends -/
  | ended {op : Op} {c' : Channel} (hend : op.isEnd = true) (hpending : c'.pending = [])
      (hdetached : c'.detached = []) (hcurrent : c'.current? = none)
      (hresolved : ∃ error,
        c'.resolved = c.resolved ++ c.pending.map fun id => (id, .error error)) :
      Booking c op c'

section Moves

variable {c c' : Channel} {op : Op}

theorem unanswered_of_request (hop : op.isRequest = true) : c.Unanswered op := by
  intro id _ _ _
  cases op with
  | receive => cases hop
  | _ => rfl

/-- A line with a message of the sequence in flight is no response to another query. -/
theorem unanswered_of_stream {line : String} {session : BufferSession} {message : StreamMessage}
    (hflight : c.fullBuffer = some session)
    (hmessage : StreamMessage.ofLine? session.current line = some message) :
    c.Unanswered (.receive line) := by
  intro id _ _ hcurrent
  cases hanswer : Response.ofLine? id line with
  | none => exact hanswer
  | some response =>
    have hid := answer_of_stream hmessage hanswer
    rw [current?_of_flight hflight, hid] at hcurrent
    exact absurd rfl hcurrent

theorem Booking.of_register {d : Channel} {waited : Bool} {query : Query}
    (hpending : d.pending = c.pending) (hdetached : d.detached = c.detached)
    (hcurrent : d.current? = c.current?) (hresolved : d.resolved = c.resolved)
    (hspent : d.lastId = c.nextId.number) :
    Booking c (.submit waited query) (d.register waited c.nextId) := by
  have hquiet : c.Unanswered (.submit waited query) :=
    unanswered_of_request (isRequest_submit waited query)
  cases waited with
  | true => exact .enter hquiet (congrArg (· ++ [_]) hpending) hdetached hcurrent hresolved hspent
  | false => exact .detach hquiet hpending (congrArg (· ++ [_]) hdetached) hcurrent hresolved hspent

theorem Aside.booking {line : String} (h : Aside c line c') : Booking c (.receive line) c' := by
  cases h with
  | resolve _ _ hanswer hwaiting => exact .resolve hanswer hwaiting rfl rfl rfl rfl
  | @forget id response _ _ hanswer hunknown =>
    refine .keep ?_ rfl (fun id hid => List.mem_of_mem_filter hid) (fun id hid => hid) rfl
    intro id' hwaiting _ _
    cases hanswer' : Response.ofLine? id' line with
    | none => exact hanswer'
    | some response' =>
      -- the line is the response to one query only, which is not in the table
      obtain ⟨rfl, -⟩ := Response.ofLine?_unique hanswer hanswer'
      exact absurd hwaiting hunknown
  | nothing hnone =>
    refine .keep ?_ rfl (fun id hid => hid) (fun id hid => hid) rfl
    intro id _ hfit hcurrent
    cases hanswer : Response.ofLine? id line with
    | none => exact hanswer
    | some response => exact absurd (hnone id response hfit hanswer) hcurrent
  | handshake hnone =>
    exact .keep (fun id _ _ _ => hnone id) rfl (fun id hid => hid) (fun id hid => hid) rfl
  | notice hnone =>
    exact .keep (fun id _ _ _ => hnone id) rfl (fun id hid => hid) (fun id hid => hid) rfl

theorem Move.booking (h : Move c op c') : Booking c op c' := by
  have hsame : ∀ {d : Channel}, c.Unanswered op → d.pending = c.pending →
      d.detached = c.detached → d.current? = c.current? → d.resolved = c.resolved →
      Booking c op d := by
    intro d hquiet hpending hdetached hcurrent hresolved
    refine .keep hquiet hpending ?_ ?_ hresolved
    · rw [hdetached]
      exact fun id hid => hid
    · rw [hcurrent]
      exact fun id hid => hid
  cases h with
  | refuse hop => exact hsame (unanswered_of_request hop) rfl rfl rfl rfl
  | lose hop => exact hsame (unanswered_of_request hop) rfl rfl rfl rfl
  | write => exact .of_register rfl rfl rfl rfl rfl
  | hold _ hflight =>
    refine .of_register rfl rfl ?_ rfl rfl
    rw [current?_of_flight hflight]
    rfl
  | launch => exact .launch (unanswered_of_request rfl) rfl rfl rfl rfl rfl
  | replace _ hflight =>
    refine hsame (unanswered_of_request rfl) rfl rfl ?_ rfl
    rw [current?_of_flight hflight]
    rfl
  | cancel => exact .detach (unanswered_of_request rfl) rfl rfl rfl rfl rfl
  | skip => exact hsame (unanswered_of_request rfl) rfl rfl rfl rfl
  | stream hflight hmessage =>
    exact hsame (unanswered_of_stream hflight hmessage) rfl rfl rfl rfl
  | finish hflight hmessage =>
    exact .keep (unanswered_of_stream hflight hmessage) rfl (fun id hid => hid) nofun rfl
  | relaunch hflight hmessage =>
    exact .launch (unanswered_of_stream hflight hmessage) rfl rfl rfl rfl rfl
  | abandon hflight hmessage =>
    exact .keep (unanswered_of_stream hflight hmessage) rfl (fun id hid => hid) nofun rfl
  | aside _ haside => exact haside.booking
  | writer hop =>
    refine hsame (fun id _ _ _ => ?_) rfl rfl rfl rfl
    cases op with
    | receive => cases hop
    | _ => rfl
  | ended hop hend =>
    exact .ended hop hend.pending hend.detached (current?_of_idle hend.fullBuffer) hend.resolved
  | again hop =>
    refine hsame (fun id _ _ _ => ?_) rfl rfl rfl rfl
    cases op with
    | receive => cases hop
    | _ => rfl

end Moves

-- ---------------------------------------------------------------------------
-- The tables hold distinct ids
-- ---------------------------------------------------------------------------

/-- Where the id of a query can stand while the verifier works on it. -/
inductive Place where
  | pending
  | detached
  | flight

def Held (c : Channel) : Place → QueryId → Prop
  | .pending, id => id ∈ c.pending
  | .detached, id => id ∈ c.detached
  | .flight, id => c.current? = some id

/-- Every id stands in one place at most, and has been given out. -/
structure Separate (c : Channel) : Prop where
  distinct : ∀ place place' id, c.Held place id → c.Held place' id → place = place'
  known : ∀ place id, c.Held place id → id.number ≤ c.lastId

/-- The id that a step uses up is greater than the one before. -/
def InTurn (c c' : Channel) : Prop :=
  c'.lastId = c.lastId ∨ c'.lastId = c.nextId.number ∧ c.nextId.number = c.lastId + 1

section Steps

variable {c c' : Channel} {op : Op}

theorem InTurn.le (h : InTurn c c') : c.lastId ≤ c'.lastId := by
  rcases h with hkept | ⟨hspent, hturn⟩ <;> omega

theorem InTurn.nextId (h : InTurn c c') (hspent : c'.lastId = c.nextId.number) :
    c.nextId.number = c.lastId + 1 := by
  rcases h with hkept | ⟨-, hturn⟩
  · have hne := nextId_ne c
    omega
  · exact hturn

/-- A move puts the next id into one place at most, and no other id anywhere. -/
theorem Booking.held (h : Booking c op c') : ∃ new, ∀ place id, c'.Held place id →
    c.Held place id ∨ place = new ∧ id = c.nextId ∧ c'.lastId = c.nextId.number := by
  cases h with
  | keep _ hpending hdetached hcurrent =>
    refine ⟨.flight, fun place id hid => .inl ?_⟩
    cases place with
    | pending =>
      rw [Held, hpending] at hid
      exact hid
    | detached => exact hdetached id hid
    | flight => exact hcurrent id hid
  | enter _ hpending hdetached hcurrent _ hspent =>
    refine ⟨.pending, fun place id hid => ?_⟩
    cases place with
    | pending =>
      rw [Held, hpending, List.mem_append, List.mem_singleton] at hid
      exact hid.imp_right fun hid => ⟨rfl, hid, hspent⟩
    | detached =>
      rw [Held, hdetached] at hid
      exact .inl hid
    | flight =>
      rw [Held, hcurrent] at hid
      exact .inl hid
  | detach _ hpending hdetached hcurrent _ hspent =>
    refine ⟨.detached, fun place id hid => ?_⟩
    cases place with
    | pending =>
      rw [Held, hpending] at hid
      exact .inl hid
    | detached =>
      rw [Held, hdetached, List.mem_append, List.mem_singleton] at hid
      exact hid.imp_right fun hid => ⟨rfl, hid, hspent⟩
    | flight =>
      rw [Held, hcurrent] at hid
      exact .inl hid
  | launch _ hpending hdetached hcurrent _ hspent =>
    refine ⟨.flight, fun place id hid => ?_⟩
    cases place with
    | pending =>
      rw [Held, hpending] at hid
      exact .inl hid
    | detached =>
      rw [Held, hdetached] at hid
      exact .inl hid
    | flight =>
      rw [Held, hcurrent, Option.some.injEq] at hid
      exact .inr ⟨rfl, hid.symm, hspent⟩
  | resolve _ _ hpending hdetached hcurrent =>
    refine ⟨.flight, fun place id hid => .inl ?_⟩
    cases place with
    | pending =>
      rw [Held, hpending] at hid
      exact List.mem_of_mem_filter hid
    | detached =>
      rw [Held, hdetached] at hid
      exact hid
    | flight =>
      rw [Held, hcurrent] at hid
      exact hid
  | ended _ hpending hdetached hcurrent =>
    refine ⟨.flight, fun place id hid => ?_⟩
    cases place with
    | pending => simp [Held, hpending] at hid
    | detached => simp [Held, hdetached] at hid
    | flight => simp [Held, hcurrent] at hid

theorem Booking.separate (h : Booking c op c') (hturn : InTurn c c') (hc : c.Separate) :
    c'.Separate := by
  obtain ⟨new, hheld⟩ := h.held
  have hle := hturn.le
  -- the next id stands nowhere yet
  have hfresh : ∀ place, c'.lastId = c.nextId.number → ¬ c.Held place c.nextId := by
    intro place hspent hid
    have hknown := hc.known place _ hid
    have hnext := hturn.nextId hspent
    omega
  constructor
  · intro place place' id hid hid'
    rcases hheld place id hid with hold | ⟨rfl, rfl, hspent⟩
    · rcases hheld place' id hid' with hold' | ⟨rfl, rfl, hspent⟩
      · exact hc.distinct place place' id hold hold'
      · exact absurd hold (hfresh place hspent)
    · rcases hheld place' _ hid' with hold' | ⟨rfl, -, -⟩
      · exact absurd hold' (hfresh place' hspent)
      · rfl
  · intro place id hid
    rcases hheld place id hid with hold | ⟨-, rfl, hspent⟩
    · exact Nat.le_trans (hc.known place id hold) hle
    · exact Nat.le_of_eq hspent.symm

/-- A move resolves only queries that were waited for. -/
theorem Booking.resolved (h : Booking c op c') :
    ∀ entry ∈ c'.resolved, entry ∈ c.resolved ∨ entry.1 ∈ c.pending := by
  intro entry hentry
  cases h with
  | keep _ _ _ _ hsame | enter _ _ _ _ hsame | detach _ _ _ _ hsame | launch _ _ _ _ hsame =>
    rw [hsame] at hentry
    exact .inl hentry
  | resolve _ hwaiting _ _ _ hmore =>
    rw [hmore, List.mem_append, List.mem_singleton] at hentry
    refine hentry.imp_right fun heq => ?_
    rw [heq]
    exact hwaiting
  | ended _ _ _ _ hmore =>
    obtain ⟨error, hmore⟩ := hmore
    rw [hmore, List.mem_append] at hentry
    refine hentry.imp_right fun hentry => ?_
    obtain ⟨id, hid, rfl⟩ := List.mem_map.1 hentry
    exact hid

/-- Only queries whose ids have been given out are resolved. -/
def ResolvedKnown (c : Channel) : Prop := ∀ entry ∈ c.resolved, entry.1.number ≤ c.lastId

theorem Booking.resolvedKnown (h : Booking c op c') (hturn : InTurn c c') (hc : c.Separate)
    (hresolved : c.ResolvedKnown) : c'.ResolvedKnown := by
  intro entry hentry
  rcases h.resolved entry hentry with hpast | hwaiting
  · exact Nat.le_trans (hresolved entry hpast) hturn.le
  · exact Nat.le_trans (hc.known .pending entry.1 hwaiting) hturn.le

-- ---------------------------------------------------------------------------
-- What becomes of one query
-- ---------------------------------------------------------------------------

/-- The query `id` waits as long as there is no response, and has been resolved once
with the response when there is one. -/
structure Settled (id : QueryId) (answer : Option Response) (c : Channel) : Prop where
  known : id.number ≤ c.lastId
  waiting : id ∈ c.pending ↔ answer = none
  resolved : c.resolved.filter (·.1 = id) = answer.toList.map fun response => (id, .ok response)

theorem Booking.settled {id : QueryId} {answer : Option Response} (h : Booking c op c')
    (hturn : InTurn c c') (hc : c.Separate) (hlt : c.lastId < QueryId.limit)
    (hgoing : op.isEnd = false) (hs : Settled id answer c) :
    Settled id (answer.or (op.answer? id)) c' := by
  have hknown : id.number ≤ c'.lastId := Nat.le_trans hs.known hturn.le
  -- a response that is not one to a query in the table changes nothing
  have hsame : c.Unanswered op → answer.or (op.answer? id) = answer := by
    intro hquiet
    cases answer with
    | some response => rfl
    | none =>
      have hwaiting := hs.waiting.2 rfl
      refine hquiet id hwaiting (Nat.lt_of_le_of_lt hs.known hlt) fun hcurrent => ?_
      cases hc.distinct .pending .flight id hwaiting hcurrent
  cases h with
  | keep hquiet hpending _ _ hresolved =>
    rw [hsame hquiet]
    exact ⟨hknown, hpending ▸ hs.waiting, hresolved ▸ hs.resolved⟩
  | enter hquiet hpending _ _ hresolved hspent =>
    rw [hsame hquiet]
    refine ⟨hknown, ?_, hresolved ▸ hs.resolved⟩
    have hne : id ≠ c.nextId := by
      rintro rfl
      have hle := hs.known
      have hnext := hturn.nextId hspent
      omega
    rw [hpending, List.mem_append, List.mem_singleton, or_iff_left hne]
    exact hs.waiting
  | detach hquiet hpending _ _ hresolved =>
    rw [hsame hquiet]
    exact ⟨hknown, hpending ▸ hs.waiting, hresolved ▸ hs.resolved⟩
  | launch hquiet hpending _ _ hresolved =>
    rw [hsame hquiet]
    exact ⟨hknown, hpending ▸ hs.waiting, hresolved ▸ hs.resolved⟩
  | @resolve line _ id' response hanswer hwaiting hpending _ _ hresolved =>
    show Settled id (answer.or (Response.ofLine? id line)) c'
    by_cases hid : id' = id
    · subst hid
      rw [hs.waiting.1 hwaiting, hanswer]
      refine ⟨hknown, ?_, ?_⟩
      · simp [hpending]
      · rw [hresolved, List.filter_append, hs.resolved, hs.waiting.1 hwaiting]
        simp
    · have hother : Response.ofLine? id line = none := by
        cases hanswer' : Response.ofLine? id line with
        | none => rfl
        | some response' => exact absurd (Response.ofLine?_unique hanswer hanswer').1 hid
      rw [hother, Option.or_none]
      refine ⟨hknown, ?_, ?_⟩
      · rw [hpending, List.mem_filter, ← hs.waiting]
        simp [Ne.symm hid]
      · rw [hresolved, List.filter_append, hs.resolved]
        simp [hid]
  | ended hend => simp [hgoing] at hend

end Steps

-- ---------------------------------------------------------------------------
-- All runs
-- ---------------------------------------------------------------------------

/-- The first response to the query `id` that the operations bring. -/
def firstAnswer (id : QueryId) (ops : List Op) : Option Response := ops.findSome? (Op.answer? id)

theorem firstAnswer_concat (id : QueryId) (ops : List Op) (op : Op) :
    firstAnswer id (ops ++ [op]) = (firstAnswer id ops).or (op.answer? id) := by
  simp [firstAnswer, List.findSome?_append]

theorem send_accepted {c : Channel} {query : Query} {id : QueryId}
    (h : (c.send query).2 = .ok id) :
    id = c.nextId ∧ (c.step (.send query)).pending = c.pending ++ [id] ∧
      (c.step (.send query)).resolved = c.resolved ∧ (c.step (.send query)).lastId = id.number := by
  obtain ⟨halive, hroute, rfl⟩ := submit_eq_ok_iff.1 h
  show c.nextId = c.nextId ∧ (c.submit true query).1.pending = _ ∧
    (c.submit true query).1.resolved = _ ∧ (c.submit true query).1.lastId = _
  cases hflight : c.fullBuffer with
  | some session =>
    rw [submit_of_flight halive hflight]
    exact ⟨rfl, rfl, rfl, rfl⟩
  | none =>
    have hwriter : c.isWritable = true := by
      rcases hroute with hroute | hwriter
      · simp [inFlight, hflight] at hroute
      · exact hwriter
    rw [submit_of_idle halive hflight hwriter]
    exact ⟨rfl, rfl, rfl, rfl⟩

section Runs

variable {role : Role} {past : List Op}

theorem few_of_append {rest : List Op}
    (hfew : (allocations { role } (past ++ rest)).length < QueryId.limit) :
    (allocations { role } past).length < QueryId.limit := by
  rw [allocations_append, List.length_append] at hfew
  omega

theorem step_inTurn {op : Op}
    (hfew : (allocations { role } (past ++ [op])).length < QueryId.limit) :
    InTurn (run { role } past) ((run { role } past).step op) := by
  rcases (step_move (fits_run role past) op).lastId with hkept | hspent
  · exact .inl hkept
  · refine .inr ⟨hspent, nextId_of_few hfew ?_⟩
    rw [run_concat, hspent]
    exact nextId_ne _

theorem run_separate (hfew : (allocations { role } past).length < QueryId.limit) :
    (run { role } past).Separate ∧ (run { role } past).ResolvedKnown := by
  induction past using List.reverseRecOn with
  | nil =>
    refine ⟨⟨?_, ?_⟩, nofun⟩
    · rintro (_ | _ | _) place' id hid
      all_goals cases hid
    · rintro (_ | _ | _) id hid
      all_goals cases hid
  | append_singleton past op ih =>
    obtain ⟨hseparate, hresolved⟩ := ih (few_of_append hfew)
    have hbooking := (step_move (fits_run role past) op).booking
    have hturn := step_inTurn hfew
    rw [run_concat]
    exact ⟨hbooking.separate hturn hseparate, hbooking.resolvedKnown hturn hseparate hresolved⟩

/-- An accepted query is settled by the first response to it. -/
theorem run_settled {query : Query} {id : QueryId} {after : List Op}
    (hsend : ((run { role } past).send query).2 = .ok id) (hgoing : ∀ op ∈ after, op.isEnd = false)
    (hfew : (allocations { role } (past ++ .send query :: after)).length < QueryId.limit) :
    Settled id (firstAnswer id after) (run { role } (past ++ .send query :: after)) := by
  induction after using List.reverseRecOn with
  | nil =>
    obtain ⟨hid, hpending, hresolved, hlast⟩ := send_accepted hsend
    rw [run_concat]
    refine ⟨Nat.le_of_eq hlast.symm, ?_, ?_⟩
    · simp [hpending, firstAnswer]
    · -- the id is greater than those of all queries resolved before
      have hknown := (run_separate (few_of_append hfew)).2
      have hnext := (step_inTurn hfew).nextId (hid ▸ hlast)
      rw [hresolved, List.filter_eq_nil_iff.2]
      · rfl
      · intro entry hentry heq
        have hle := hknown entry hentry
        rw [decide_eq_true_eq] at heq
        rw [heq, hid] at hle
        omega
  | append_singleton after op ih =>
    have hassoc : past ++ .send query :: (after ++ [op]) =
        (past ++ .send query :: after) ++ [op] := by
      rw [List.append_assoc, List.cons_append]
    rw [hassoc] at hfew ⊢
    have hfew' := few_of_append hfew
    have hs := ih (fun op hop => hgoing op (List.mem_append_left _ hop)) hfew'
    have hop : op.isEnd = false := hgoing op (List.mem_append_right _ (List.mem_singleton_self op))
    have hlt : (run { role } (past ++ .send query :: after)).lastId < QueryId.limit := by
      rw [lastId_run hfew']
      exact hfew'
    have hbooking := (step_move (fits_run role (past ++ .send query :: after)) op).booking
    have hstep := hbooking.settled (step_inTurn hfew) (run_separate hfew').1 hlt hop hs
    rw [run_concat, firstAnswer_concat]
    exact hstep

end Runs

/-- Unless all ids have been given out, none is given out twice, and the ids waited for,
those whose response is dropped and the one in flight are distinct. On a channel that
has not ended since, a query that was accepted is resolved by the first response whose
id is exactly its own, with what this response says, and by nothing else; until then
it is waited for. -/
theorem response_correlation {role : Role} {ops : List Op}
    (hfew : (allocations { role } ops).length < QueryId.limit) :
    (allocations { role } ops).Nodup ∧ (run { role } ops).Separate ∧
    ∀ past query after id, ops = past ++ .send query :: after →
      ((run { role } past).send query).2 = .ok id → (∀ op ∈ after, op.isEnd = false) →
      (id ∈ (run { role } ops).pending ↔ firstAnswer id after = none) ∧
      (run { role } ops).resolved.filter (·.1 = id) =
        (firstAnswer id after).toList.map fun response => (id, .ok response) := by
  refine ⟨allocations_nodup hfew, (run_separate hfew).1, ?_⟩
  rintro past query after id rfl hsend hgoing
  have hs := run_settled hsend hgoing hfew
  exact ⟨hs.waiting, hs.resolved⟩

/-- The line with a response to the query under the id `rawId`. -/
def responseLine (rawId : String) : String :=
  "\x7b\"kind\":\"response\",\"query-id\":\"" ++ rawId ++ "\",\"status\":\"success\"\x7d"

/-- Responses under ids that are like the second one, and then two under this. -/
def similarIds : List Op :=
  ["02", "2.1", "1", "2", "2"].map fun rawId => .receive (responseLine rawId)

/-- The second query waits for its response behind the first one. -/
def answeredTwice : List Op :=
  [.startFullBuffer (.fullBuffer .full "let x = 1" none)] ++
    .send (.vfsAdd "let y = 2") :: similarIds

theorem answeredTwice_resolved :
    (allocations { role := .strict } answeredTwice).length < QueryId.limit ∧
    (run { role := .strict } answeredTwice).Separate ∧
    (firstAnswer ⟨2⟩ similarIds).map Response.isSuccess = some true ∧
    (⟨2⟩ ∈ (run { role := .strict } answeredTwice).pending ↔
      firstAnswer ⟨2⟩ similarIds = none) ∧
    (run { role := .strict } answeredTwice).resolved.filter (·.1 = ⟨2⟩) =
      (firstAnswer ⟨2⟩ similarIds).toList.map fun response => (⟨2⟩, .ok response) := by
  have hfew : (allocations { role := .strict } answeredTwice).length < QueryId.limit :=
    Nat.lt_of_le_of_lt (length_allocations_le _ _) (by decide)
  obtain ⟨-, hseparate, hcorrelation⟩ := response_correlation hfew
  refine ⟨hfew, hseparate, by decide +kernel, hcorrelation _ _ similarIds ⟨2⟩ rfl rfl ?_⟩
  intro op hop
  obtain ⟨rawId, -, rfl⟩ := List.mem_map.1 hop
  rfl

end VerifierClient.Channel

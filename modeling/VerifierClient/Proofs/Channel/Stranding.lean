import VerifierClient.Proofs.Channel.Correlation

/-!
# Queries that are never sent

A query is entered in a table when the writer takes its envelope, or when the envelope is
held back for the end of the sequence in flight. The writer may be closed at any time. What
a closed writer refuses at once is not entered; but envelopes held back when it closes are
refused later, at the end of the sequence, and their queries stay in the tables.

* `Channel.Backed` — every query in the tables was written or is held back;
* `Channel.Filing` — what an operation does to the tables and to the envelopes;
* `Channel.stranded` — the queries that the end of a sequence leaves behind;
* `Channel.undisturbed_of_refusal` — a request that is refused changes no table;
* `Channel.backed_unless_stranded` — the result for all runs.
-/

namespace VerifierClient.Channel

-- ---------------------------------------------------------------------------
-- Tables and envelopes
-- ---------------------------------------------------------------------------

/-- The queries in the tables. -/
def tabled (c : Channel) : List QueryId := c.pending ++ c.detached

/-- The queries whose envelopes were accepted by the writer or are held back. -/
def filed (c : Channel) : List QueryId := (c.accepted ++ c.heldBack).map Envelope.id

def Backed (c : Channel) : Prop := ∀ id ∈ c.tabled, id ∈ c.filed

instance (c : Channel) : Decidable c.Backed := inferInstanceAs (Decidable (∀ id ∈ c.tabled, _))

/-- The queries in the tables that are held back for the end of the sequence in flight,
when the operation brings that end and the writer is closed. -/
def stranded (c : Channel) (op : Op) : List QueryId :=
  match op with
  | .receive line =>
    if (c.endedBy? line).isSome && !c.isWritable then
      (c.heldBack.map Envelope.id).filter fun id => c.tabled.contains id
    else []
  | _ => []

/-- The queries that a run leaves in the tables without sending them. -/
def strandings : Channel → List Op → List QueryId := along fun c op _ => c.stranded op

inductive Filing (c : Channel) : Op → Channel → Prop
  /-- no envelope is added; entries may be taken from the tables -/
  | keep {op : Op} {c' : Channel} (hquiet : c.stranded op = [])
      (haccepted : c'.accepted = c.accepted) (hheld : c'.heldBack = c.heldBack)
      (htabled : ∀ id ∈ c'.tabled, id ∈ c.tabled) (hid : c'.lastId = c.lastId ∨
        c'.lastId = c.nextId.number) : Filing c op c'
  /-- the envelope with the next id is written -/
  | write {op : Op} {c' : Channel} {e : Envelope} (hquiet : c.stranded op = [])
      (hid : e.id = c.nextId) (haccepted : c'.accepted = c.accepted ++ [e])
      (hheld : c'.heldBack = c.heldBack)
      (htabled : ∀ id ∈ c'.tabled, id ∈ c.tabled ∨ id = c.nextId)
      (hspent : c'.lastId = c.nextId.number) : Filing c op c'
  /-- the envelope with the next id is held back -/
  | hold {op : Op} {c' : Channel} {e : Envelope} (hquiet : c.stranded op = [])
      (hid : e.id = c.nextId) (haccepted : c'.accepted = c.accepted)
      (hheld : c'.heldBack = c.heldBack ++ [e])
      (htabled : ∀ id ∈ c'.tabled, id ∈ c.tabled ∨ id = c.nextId)
      (hspent : c'.lastId = c.nextId.number) : Filing c op c'
  /-- a sequence ends, and what was held back is written -/
  | release {op : Op} {c' : Channel} (next : Option Envelope) (hquiet : c.stranded op = [])
      (hnext : ∀ e ∈ next, e.id = c.nextId ∧ c'.lastId = c.nextId.number)
      (haccepted : c'.accepted = c.accepted ++ c.heldBack ++ next.toList)
      (hheld : c'.heldBack = []) (htabled : c'.tabled = c.tabled)
      (hid : c'.lastId = c.lastId ∨ c'.lastId = c.nextId.number) : Filing c op c'
  /-- a sequence ends, and what was held back is lost -/
  | strand {line : String} {c' : Channel} (hended : (c.endedBy? line).isSome = true)
      (hclosed : c.isWritable = false) (haccepted : c'.accepted = c.accepted)
      (hheld : c'.heldBack = []) (htabled : c'.tabled = c.tabled)
      (hid : c'.lastId = c.lastId ∨ c'.lastId = c.nextId.number) : Filing c (.receive line) c'
  /-- the channel ends -/
  | ended {op : Op} {c' : Channel} (hquiet : c.stranded op = [])
      (haccepted : c'.accepted = c.accepted) (hheld : c'.heldBack = []) (htabled : c'.tabled = [])
      (hid : c'.lastId = c.lastId) : Filing c op c'

section Moves

variable {c c' : Channel} {op : Op}

theorem stranded_of_other (hop : ∀ line, op ≠ .receive line) : c.stranded op = [] := by
  cases op with
  | receive line => exact absurd rfl (hop line)
  | _ => rfl

theorem stranded_of_request (hop : op.isRequest = true) : c.stranded op = [] := by
  refine stranded_of_other ?_
  rintro line rfl
  cases hop

theorem stranded_of_going {line : String} (h : c.endedBy? line = none) :
    c.stranded (.receive line) = [] := by
  simp [stranded, h]

theorem stranded_of_writable (h : c.isWritable = true) : c.stranded op = [] := by
  cases op <;> simp [stranded, h]

theorem stranded_of_ended {line : String} (hended : (c.endedBy? line).isSome = true)
    (hclosed : c.isWritable = false) :
    c.stranded (.receive line) =
      (c.heldBack.map Envelope.id).filter fun id => c.tabled.contains id := by
  simp [stranded, hended, hclosed]

theorem mem_tabled {id : QueryId} : id ∈ c.tabled ↔ id ∈ c.pending ∨ id ∈ c.detached :=
  List.mem_append

theorem mem_filed {id : QueryId} :
    id ∈ c.filed ↔ id ∈ c.accepted.map Envelope.id ∨ id ∈ c.heldBack.map Envelope.id := by
  rw [filed, List.map_append, List.mem_append]

theorem mem_tabled_register {d : Channel} {waited : Bool} {id id' : QueryId}
    (h : id' ∈ (d.register waited id).tabled) : id' ∈ d.tabled ∨ id' = id := by
  rw [mem_tabled] at h ⊢
  cases waited with
  | true =>
    rcases h with hpending | hdetached
    · rcases List.mem_append.1 hpending with hold | hnew
      · exact .inl (.inl hold)
      · exact .inr (List.mem_singleton.1 hnew)
    · exact .inl (.inr hdetached)
  | false =>
    rcases h with hpending | hdetached
    · exact .inl (.inl hpending)
    · rcases List.mem_append.1 hdetached with hold | hnew
      · exact .inl (.inr hold)
      · exact .inr (List.mem_singleton.1 hnew)

theorem register_lastId (d : Channel) (waited : Bool) (id : QueryId) :
    (d.register waited id).lastId = d.lastId := by
  cases waited <;> rfl

/-- A line that resolves or forgets a query takes it from the tables. -/
theorem Aside.filing {line : String} (h : Aside c line c')
    (hgoing : c.endedBy? line = none) : Filing c (.receive line) c' := by
  have hquiet := stranded_of_going hgoing
  cases h with
  | resolve =>
    refine .keep hquiet rfl rfl ?_ (.inl rfl)
    intro id hid
    exact mem_tabled.2 ((mem_tabled.1 hid).imp_left fun h => (List.mem_filter.1 h).1)
  | forget =>
    refine .keep hquiet rfl rfl ?_ (.inl rfl)
    intro id hid
    exact mem_tabled.2 ((mem_tabled.1 hid).imp_right fun h => (List.mem_filter.1 h).1)
  | nothing => exact .keep hquiet rfl rfl (fun _ hid => hid) (.inl rfl)
  | handshake => exact .keep hquiet rfl rfl (fun _ hid => hid) (.inl rfl)
  | notice => exact .keep hquiet rfl rfl (fun _ hid => hid) (.inl rfl)

theorem Move.filing (h : Move c op c') : Filing c op c' := by
  cases h with
  | refuse hop => exact .keep (stranded_of_request hop) rfl rfl (fun _ hid => hid) (.inl rfl)
  | lose hop => exact .keep (stranded_of_request hop) rfl rfl (fun _ hid => hid) (.inr rfl)
  | write =>
    exact .write (stranded_of_request (isRequest_submit ..)) rfl (register_accepted ..)
      (register_heldBack ..) (fun _ => mem_tabled_register (d := c.spend.accept _))
      (register_lastId ..)
  | @hold _ query session _ hflight =>
    have hheld : c.heldBack = session.queued := heldBack_of_flight hflight
    refine .hold (e := ⟨c.nextId, query⟩) (stranded_of_request (isRequest_submit ..)) rfl
      (register_accepted ..) ?_ (fun _ => mem_tabled_register (d := c.spend.hold session _))
      (register_lastId ..)
    rw [register_heldBack, hheld]
    rfl
  | launch _ hidle =>
    refine .write (stranded_of_request rfl) rfl rfl ?_ (fun _ hid => .inl hid) rfl
    rw [heldBack_of_idle hidle]
    rfl
  | replace _ hflight =>
    refine .keep (stranded_of_request rfl) rfl ?_ (fun _ hid => hid) (.inl rfl)
    rw [heldBack_of_flight hflight]
    rfl
  | cancel =>
    exact .write (stranded_of_request rfl) rfl rfl rfl
      (fun _ => mem_tabled_register (d := c.spend.accept _)) rfl
  | skip => exact .keep (stranded_of_request rfl) rfl rfl (fun _ hid => hid) (.inl rfl)
  | stream hflight hmessage hgoing =>
    have hended := endedBy?_of_message hflight hmessage
    rw [hgoing] at hended
    exact .keep (stranded_of_going hended) rfl rfl (fun _ hid => hid) (.inl rfl)
  | @finish line session message hflight hmessage hfinished _ =>
    have hheld := heldBack_of_flight hflight
    by_cases hwriter : c.isWritable = true
    · refine .release none (stranded_of_writable hwriter) (fun _ he => by cases he) ?_
        rfl rfl (.inl rfl)
      have haccepted := release_accepted (c := c.emit (.stream message)) hwriter session
      rw [haccepted, hheld, Option.toList_none, List.append_nil]
      rfl
    · refine .strand ?_ (Bool.eq_false_iff.2 hwriter) ?_ rfl rfl (.inl rfl)
      · rw [endedBy?_of_message hflight hmessage, hfinished]
        rfl
      · have hclosed : ¬ (c.emit (.stream message)).isWritable = true := hwriter
        rw [Channel.release, if_neg hclosed]
        exact List.append_nil _
  | @relaunch line session message query hflight hmessage hfinished _ hwriter =>
    have hheld := heldBack_of_flight hflight
    refine .release (some ⟨c.nextId, query⟩) (stranded_of_writable hwriter) ?_ ?_
      rfl rfl (.inr rfl)
    · rintro e ⟨⟩
      exact ⟨rfl, rfl⟩
    · have haccepted := release_accepted (c := c.emit (.stream message)) hwriter session
      rw [hheld]
      exact congrArg (· ++ [_]) haccepted
  | @abandon line session message query hflight hmessage hfinished _ hclosed =>
    refine .strand ?_ hclosed ?_ rfl rfl (.inr rfl)
    · rw [endedBy?_of_message hflight hmessage, hfinished]
      rfl
    · have hrefused : ¬ (c.emit (.stream message)).isWritable = true := Bool.eq_false_iff.1 hclosed
      rw [Channel.release, if_neg hrefused]
      exact List.append_nil _
  | aside hmessage haside => exact haside.filing (endedBy?_of_none hmessage)
  | writer hop =>
    refine .keep (stranded_of_other ?_) rfl rfl (fun _ hid => hid) (.inl rfl)
    rintro line rfl
    cases hop
  | ended hop hend =>
    refine .ended (stranded_of_other ?_) hend.accepted (heldBack_of_idle hend.fullBuffer) ?_
      hend.lastId
    · rintro line rfl
      cases hop
    · rw [tabled, hend.pending, hend.detached]
      rfl
  | again hop =>
    refine .keep (stranded_of_other ?_) rfl rfl (fun _ hid => hid) (.inl rfl)
    rintro line rfl
    cases hop

-- ---------------------------------------------------------------------------
-- What a step keeps
-- ---------------------------------------------------------------------------

/-- Envelopes carry ids that were given out, and those held back none of an envelope that
was written. -/
structure Unsent (c : Channel) : Prop where
  known : ∀ id ∈ c.filed, id.number ≤ c.lastId
  apart : ∀ id ∈ c.heldBack.map Envelope.id, id ∉ c.accepted.map Envelope.id

theorem Unsent.of_none_held (hc : c.Unsent) (hle : c.lastId ≤ c'.lastId)
    (haccepted : c'.accepted = c.accepted) (hheld : c'.heldBack = []) : c'.Unsent := by
  refine ⟨fun id hid => ?_, fun id hid => ?_⟩
  · rw [mem_filed, haccepted, hheld] at hid
    rcases hid with hwritten | hwaiting
    · exact Nat.le_trans (hc.known id (mem_filed.2 (.inl hwritten))) hle
    · cases hwaiting
  · rw [hheld] at hid
    cases hid

theorem Filing.backed (h : Filing c op c') (hc : c.Backed) (hnone : c.stranded op = []) :
    c'.Backed := by
  intro id hid
  rw [mem_filed]
  cases h with
  | keep _ haccepted hheld htabled _ =>
    rw [haccepted, hheld, ← mem_filed]
    exact hc id (htabled id hid)
  | write _ hnext haccepted hheld htabled _ =>
    rw [haccepted, hheld, List.map_append, List.mem_append]
    rcases htabled id hid with hold | rfl
    · rcases mem_filed.1 (hc id hold) with hwritten | hwaiting
      · exact .inl (.inl hwritten)
      · exact .inr hwaiting
    · exact .inl (.inr (by simp [hnext]))
  | hold _ hnext haccepted hheld htabled _ =>
    rw [haccepted, hheld, List.map_append, List.mem_append]
    rcases htabled id hid with hold | rfl
    · rcases mem_filed.1 (hc id hold) with hwritten | hwaiting
      · exact .inl hwritten
      · exact .inr (.inl hwaiting)
    · exact .inr (.inr (by simp [hnext]))
  | release _ _ _ haccepted _ htabled _ =>
    rw [htabled] at hid
    rw [haccepted, List.map_append, List.mem_append]
    exact .inl (.inl (hc id hid))
  | strand hended hclosed haccepted _ htabled _ =>
    rw [htabled] at hid
    rw [haccepted]
    rcases mem_filed.1 (hc id hid) with hwritten | hwaiting
    · exact .inl hwritten
    · -- a query held back in a table would be among the stranded ones
      rw [stranded_of_ended hended hclosed, List.filter_eq_nil_iff] at hnone
      exact absurd (List.contains_iff_mem.2 hid) (hnone id hwaiting)
  | ended _ _ _ htabled _ =>
    rw [htabled] at hid
    cases hid

theorem Filing.not_backed (h : Filing c op c') (hc : c.Unsent) (hsome : c.stranded op ≠ []) :
    ¬ c'.Backed := by
  cases h with
  | strand hended hclosed haccepted hheld htabled _ =>
    obtain ⟨id, hid⟩ := List.exists_mem_of_ne_nil _ hsome
    rw [stranded_of_ended hended hclosed, List.mem_filter, List.contains_iff_mem] at hid
    intro hbacked
    have hfiled := mem_filed.1 (hbacked id (htabled ▸ hid.2))
    rw [haccepted, hheld] at hfiled
    rcases hfiled with hwritten | hwaiting
    · exact hc.apart id hid.1 hwritten
    · cases hwaiting
  | keep hquiet => exact absurd hquiet hsome
  | write hquiet => exact absurd hquiet hsome
  | hold hquiet => exact absurd hquiet hsome
  | release _ hquiet => exact absurd hquiet hsome
  | ended hquiet => exact absurd hquiet hsome

theorem Filing.unsent (h : Filing c op c') (hturn : InTurn c c') (hc : c.Unsent) : c'.Unsent := by
  have hle := hturn.le
  have hknown : ∀ id ∈ c.filed, id.number ≤ c'.lastId :=
    fun id hid => Nat.le_trans (hc.known id hid) hle
  -- the next id is on no envelope yet
  have hfresh : c'.lastId = c.nextId.number → c.nextId ∉ c.filed := by
    intro hspent hid
    have hbound := hc.known _ hid
    have hnext := hturn.nextId hspent
    omega
  cases h with
  | keep _ haccepted hheld _ _ =>
    have hfiled : c'.filed = c.filed := by rw [filed, haccepted, hheld, filed]
    refine ⟨hfiled ▸ hknown, ?_⟩
    rw [haccepted, hheld]
    exact hc.apart
  | @write _ _ e _ hnext haccepted hheld _ hspent =>
    refine ⟨fun id hid => ?_, fun id hid hwritten => ?_⟩
    · rw [mem_filed, haccepted, hheld, List.map_append, List.mem_append] at hid
      rcases hid with (hold | hnew) | hwaiting
      · exact hknown id (mem_filed.2 (.inl hold))
      · rw [List.map_singleton, List.mem_singleton, hnext] at hnew
        rw [hnew, hspent]
      · exact hknown id (mem_filed.2 (.inr hwaiting))
    · rw [hheld] at hid
      rw [haccepted, List.map_append, List.mem_append] at hwritten
      rcases hwritten with hold | hnew
      · exact hc.apart id hid hold
      · rw [List.map_singleton, List.mem_singleton, hnext] at hnew
        exact hfresh hspent (hnew ▸ mem_filed.2 (.inr hid))
  | @hold _ _ e _ hnext haccepted hheld _ hspent =>
    refine ⟨fun id hid => ?_, fun id hid hwritten => ?_⟩
    · rw [mem_filed, haccepted, hheld, List.map_append, List.mem_append] at hid
      rcases hid with hwritten | hold | hnew
      · exact hknown id (mem_filed.2 (.inl hwritten))
      · exact hknown id (mem_filed.2 (.inr hold))
      · rw [List.map_singleton, List.mem_singleton, hnext] at hnew
        rw [hnew, hspent]
    · rw [haccepted] at hwritten
      rw [hheld, List.map_append, List.mem_append] at hid
      rcases hid with hold | hnew
      · exact hc.apart id hold hwritten
      · rw [List.map_singleton, List.mem_singleton, hnext] at hnew
        exact hfresh hspent (hnew ▸ mem_filed.2 (.inl hwritten))
  | release next _ hnext haccepted hheld _ _ =>
    refine ⟨fun id hid => ?_, fun id hid => ?_⟩
    · rw [mem_filed, haccepted, hheld, List.map_append, List.mem_append] at hid
      rcases hid with (hold | hnew) | hwaiting
      · exact hknown id hold
      · obtain ⟨e, he, rfl⟩ := List.mem_map.1 hnew
        obtain ⟨hid, hspent⟩ := hnext e (Option.mem_toList.1 he)
        rw [hid, hspent]
      · cases hwaiting
    · rw [hheld] at hid
      cases hid
  | strand _ _ haccepted hheld _ _ => exact hc.of_none_held hle haccepted hheld
  | ended _ haccepted hheld _ _ => exact hc.of_none_held hle haccepted hheld

end Moves

-- ---------------------------------------------------------------------------
-- Requests that are refused
-- ---------------------------------------------------------------------------

/-- Whether a request is refused. -/
def refuses (c : Channel) : Op → Bool
  | .send query => !(c.send query).2.isOk
  | .sendDetached query => !(c.sendDetached query).2.isOk
  | .startFullBuffer query => !(c.startFullBuffer query).2.isOk
  | .cancel position => !(c.cancel position).2
  | _ => false

/-- The tables, the queue and the sequence in flight are as before. -/
structure Undisturbed (c c' : Channel) : Prop where
  pending : c'.pending = c.pending
  detached : c'.detached = c.detached
  fullBuffer : c'.fullBuffer = c.fullBuffer

theorem submit_undisturbed {c : Channel} {waited : Bool} {query : Query}
    (h : (c.submit waited query).2.isOk = false) : Undisturbed c (c.submit waited query).1 := by
  by_cases halive : c.isAlive = true
  · cases hflight : c.fullBuffer with
    | some session =>
      rw [submit_of_flight halive hflight] at h
      cases h
    | none =>
      by_cases hwriter : c.isWritable = true
      · rw [submit_of_idle halive hflight hwriter] at h
        cases h
      · rw [submit_of_closed halive hflight (Bool.eq_false_iff.2 hwriter)]
        exact ⟨rfl, rfl, rfl⟩
  · rw [submit_of_dead (Bool.eq_false_iff.2 halive)]
    exact ⟨rfl, rfl, rfl⟩

theorem startFullBuffer_undisturbed {c : Channel} {query : Query}
    (h : (c.startFullBuffer query).2.isOk = false) :
    Undisturbed c (c.startFullBuffer query).1 := by
  unfold startFullBuffer at h ⊢
  by_cases halive : c.isAlive = true
  · rw [if_pos halive] at h ⊢
    cases hflight : c.fullBuffer with
    | some session =>
      rw [hflight] at h
      cases h
    | none =>
      rw [hflight] at h
      by_cases hwriter : c.isWritable = true
      · rw [dispatchFullBuffer_of_writable hwriter] at h
        cases h
      · rw [dispatchFullBuffer_of_closed (Bool.eq_false_iff.2 hwriter)]
        exact ⟨rfl, rfl, rfl⟩
  · rw [if_neg halive]
    exact ⟨rfl, rfl, rfl⟩

theorem cancel_undisturbed {c : Channel} {position : Position}
    (h : (c.cancel position).2 = false) : Undisturbed c (c.cancel position).1 := by
  unfold cancel at h ⊢
  by_cases hgoing : (c.inFlight && c.isAlive) = true
  · rw [if_pos hgoing] at h ⊢
    simp only [allocate] at h ⊢
    by_cases hwriter : c.isWritable = true
    · rw [write_of_writable (c := { c with lastId := c.nextId.number }) hwriter] at h
      cases h
    · rw [write_of_closed (c := { c with lastId := c.nextId.number })
        (Bool.eq_false_iff.2 hwriter)]
      exact ⟨rfl, rfl, rfl⟩
  · rw [if_neg hgoing]
    exact ⟨rfl, rfl, rfl⟩

/-- A request that is refused leaves no trace but the id that it used up. -/
theorem undisturbed_of_refusal {c : Channel} {op : Op} (h : c.refuses op = true) :
    Undisturbed c (c.step op) := by
  cases op with
  | send query => exact submit_undisturbed (by simpa [refuses, send] using h)
  | sendDetached query => exact submit_undisturbed (by simpa [refuses, sendDetached] using h)
  | startFullBuffer query => exact startFullBuffer_undisturbed (by simpa [refuses] using h)
  | cancel position => exact cancel_undisturbed (by simpa [refuses] using h)
  | _ => cases h

-- ---------------------------------------------------------------------------
-- All runs
-- ---------------------------------------------------------------------------

/-- The tables are backed in every state that a run goes through. -/
def BackedAlong (role : Role) (ops : List Op) : Prop :=
  ∀ past rest, ops = past ++ rest → (run { role } past).Backed

section Runs

variable {role : Role} {ops : List Op}

theorem strandings_concat (c : Channel) (past : List Op) (op : Op) :
    strandings c (past ++ [op]) = strandings c past ++ (c.run past).stranded op :=
  along_concat ..

theorem strandings_append (c : Channel) (past rest : List Op) :
    strandings c (past ++ rest) = strandings c past ++ strandings (c.run past) rest :=
  along_append ..

theorem run_backed (h : strandings { role } ops = []) : (run { role } ops).Backed := by
  induction ops using List.reverseRecOn with
  | nil =>
    intro id hid
    cases hid
  | append_singleton past op ih =>
    rw [strandings_concat, List.append_eq_nil_iff] at h
    rw [run_concat]
    exact (step_move (fits_run role past) op).filing.backed (ih h.1) h.2

theorem run_unsent (hfew : (allocations { role } ops).length < QueryId.limit) :
    (run { role } ops).Unsent := by
  induction ops using List.reverseRecOn with
  | nil =>
    constructor
    · intro id hid
      cases hid
    · intro id hid
      cases hid
  | append_singleton past op ih =>
    rw [run_concat]
    exact (step_move (fits_run role past) op).filing.unsent (step_inTurn hfew)
      (ih (few_of_append hfew))

/-- A run that strands a query goes through a state whose tables are not backed. -/
theorem strandings_of_backedAlong (hfew : (allocations { role } ops).length < QueryId.limit)
    (h : BackedAlong role ops) : strandings { role } ops = [] := by
  induction ops using List.reverseRecOn with
  | nil => rfl
  | append_singleton past op ih =>
    have hfew' := few_of_append hfew
    have hpast : strandings { role } past = [] := by
      refine ih hfew' fun past' rest hsplit => h past' (rest ++ [op]) ?_
      rw [hsplit, List.append_assoc]
    rw [strandings_concat, hpast, List.nil_append]
    by_contra hsome
    refine (step_move (fits_run role past) op).filing.not_backed (run_unsent hfew') hsome ?_
    rw [← run_concat]
    exact h (past ++ [op]) [] (List.append_nil _).symm

end Runs

/-- The response to the query held back comes before the writer closes; a second one is
refused. -/
def answeredInTime : List Op :=
  [.startFullBuffer (.fullBuffer .full "let x = 1" none), .send (.autocomplete "le"),
    .receive (responseLine "2"), .closeWriter, .receive (finishedLine "1")]

/-- The writer closes while a query is held back. -/
def closedOnHeldBack : List Op :=
  [.startFullBuffer (.fullBuffer .full "let x = 1" none), .send (.autocomplete "le"),
    .breakWriter, .cancel ⟨0, 3⟩, .closeWriter, .receive (finishedLine "1")]

end VerifierClient.Channel

import VerifierClient.Proofs.Channel.Stranding

/-!
# Lines that have to do with nothing

A verifier may write anything at any time: text that is no message, responses under ids that no
query has, messages about queries long settled. Ids are compared in two ways on the way in. A
response is matched by its whole id, a message by the part before the first dot, and a line of
the sequence in flight by that part too; so an id such as `2.1` may stand for query 2 in one place
and for none in another.

* `Channel.Stray` — the lines that match nothing, with ids compared as texts;
* `Channel.receive_of_stray` — such a line changes nothing;
* `Channel.Strewn` — a run with stray lines anywhere in between;
* `Channel.receive_eq_self_iff` — no other response, and no other notice, is without effect;
* `Channel.strays_are_harmless` — the two runs are told apart by nobody.
-/

namespace VerifierClient.Channel

variable {c : Channel} {line rawId : String}

-- ---------------------------------------------------------------------------
-- Stray lines
-- ---------------------------------------------------------------------------

/-- The line belongs to no query that the channel knows of. -/
inductive Stray (c : Channel) (line : String) : Prop
  /-- no message at all -/
  | malformed (hparse : Incoming.parse? line = none)
  /-- a response whose id is not that of a query in the tables, and whose id up to the first dot
  is not the one in flight -/
  | response {rawId : String} {status : ResponseStatus} {payload : Json}
      (hparse : Incoming.parse? line = some (.response rawId status payload))
      (htabled : ∀ id ∈ c.tabled, rawId ≠ id.text)
      (hflight : ∀ id ∈ c.current?, QueryId.stem rawId ≠ id.text)
  /-- a message about some query, whose id up to the first dot is neither in the tables nor in
  flight -/
  | message {rawId : String} {level : MessageLevel} {contents : Json}
      (hparse : Incoming.parse? line = some (.message rawId level contents)) (habout : rawId ≠ "")
      (htabled : ∀ id ∈ c.tabled, QueryId.stem rawId ≠ id.text)
      (hflight : ∀ id ∈ c.current?, QueryId.stem rawId ≠ id.text)

/-- The same as a check. -/
def isStray (c : Channel) (line : String) : Bool :=
  match Incoming.parse? line with
  | none => true
  | some (.protocolInfo ..) => false
  | some (.response rawId ..) =>
    c.tabled.all (fun id => rawId ≠ id.text) &&
      c.current?.all fun id => QueryId.stem rawId ≠ id.text
  | some (.message rawId ..) =>
    decide (rawId ≠ "") && c.tabled.all (fun id => QueryId.stem rawId ≠ id.text) &&
      c.current?.all fun id => QueryId.stem rawId ≠ id.text

theorem isStray_iff : c.isStray line = true ↔ Stray c line := by
  constructor
  · intro h
    unfold isStray at h
    cases hparse : Incoming.parse? line with
    | none => exact .malformed hparse
    | some incoming =>
      rw [hparse] at h
      cases incoming with
      | protocolInfo version features => cases h
      | response rawId status payload =>
        simp only [Bool.and_eq_true, List.all_eq_true, Option.all_eq_true, decide_eq_true_eq] at h
        exact .response hparse h.1 h.2
      | message rawId level contents =>
        simp only [Bool.and_eq_true, List.all_eq_true, Option.all_eq_true, decide_eq_true_eq] at h
        exact .message hparse h.1.1 h.1.2 h.2
  · intro h
    cases h with
    | malformed hparse => simp only [isStray, hparse]
    | response hparse htabled hflight =>
      simp only [isStray, hparse, Bool.and_eq_true, List.all_eq_true, Option.all_eq_true,
        decide_eq_true_eq]
      exact ⟨htabled, hflight⟩
    | message hparse habout htabled hflight =>
      simp only [isStray, hparse, Bool.and_eq_true, List.all_eq_true, Option.all_eq_true,
        decide_eq_true_eq]
      exact ⟨⟨habout, htabled⟩, hflight⟩

instance (c : Channel) (line : String) : Decidable (Stray c line) :=
  decidable_of_iff (c.isStray line = true) isStray_iff

theorem isStreaming_of_foreign (hflight : ∀ id ∈ c.current?, QueryId.stem rawId ≠ id.text) :
    c.isStreaming rawId = false := by
  unfold isStreaming
  cases hsession : c.fullBuffer with
  | none => rfl
  | some session =>
    cases howner : QueryId.owner? rawId with
    | none => rfl
    | some id =>
      have hstem : QueryId.stem rawId = id.text := (QueryId.owner?_eq_some_iff.1 howner).2
      refine beq_eq_false_iff_ne.2 ?_
      rintro rfl
      exact hflight session.current (current?_of_flight hsession) hstem

theorem isKnown_of_untabled (habout : rawId ≠ "")
    (htabled : ∀ id ∈ c.tabled, QueryId.stem rawId ≠ id.text) : c.isKnown rawId = false := by
  have hempty : rawId.isEmpty = false := by simpa using habout
  unfold isKnown
  rw [hempty, Bool.false_or]
  cases howner : QueryId.owner? rawId with
  | none => rfl
  | some id =>
    have hstem : QueryId.stem rawId = id.text := (QueryId.owner?_eq_some_iff.1 howner).2
    have hid : id ∉ c.tabled := fun hid => htabled id hid hstem
    rw [mem_tabled, not_or] at hid
    simpa using hid

/-- A response is dropped if its id is that of no query in the tables. -/
theorem receiveResponse_of_untabled (htabled : ∀ id ∈ c.tabled, rawId ≠ id.text)
    (response : Response) : c.receiveResponse rawId response = c := by
  unfold receiveResponse
  cases hparse : QueryId.parse? rawId with
  | none => rfl
  | some id =>
    have hid : id ∉ c.tabled := fun hid => htabled id hid (QueryId.parse?_eq_some_iff.1 hparse).2
    rw [mem_tabled, not_or] at hid
    have hkept : c.detached.filter (· ≠ id) = c.detached := by
      refine List.filter_eq_self.2 fun other hother => ?_
      rw [decide_eq_true_eq]
      rintro rfl
      exact hid.2 hother
    simp only [List.contains_iff_mem, hid.1, if_false, hkept]

/-- A stray line changes nothing. -/
theorem receive_of_stray (h : Stray c line) : c.receive line = c := by
  cases h with
  | malformed hparse => rw [receive, hparse]
  | response hparse htabled hflight =>
    rw [receive, hparse]
    simp only [receiveIncoming, isStreaming_of_foreign hflight, Bool.false_eq_true, if_false]
    exact receiveResponse_of_untabled htabled _
  | message hparse habout htabled hflight =>
    rw [receive, hparse]
    simp only [receiveIncoming, isStreaming_of_foreign hflight, receiveMessage,
      isKnown_of_untabled habout htabled, Bool.false_eq_true, if_false]

-- ---------------------------------------------------------------------------
-- Runs with stray lines
-- ---------------------------------------------------------------------------

/-- The second list of operations is the first with lines in between that are stray when they
come. -/
inductive Strewn : Channel → List Op → List Op → Prop
  | nil {c : Channel} : Strewn c [] []
  | op {c : Channel} {op : Op} {ops strewn : List Op} (hrest : Strewn (c.step op) ops strewn) :
      Strewn c (op :: ops) (op :: strewn)
  | stray {c : Channel} {line : String} {ops strewn : List Op} (hline : Stray c line)
      (hrest : Strewn (c.step (.receive line)) ops strewn) :
      Strewn c ops (.receive line :: strewn)

/-- A stray line may be put in front. -/
theorem Strewn.cons_stray {ops strewn : List Op} (hline : Stray c line) (h : Strewn c ops strewn) :
    Strewn c ops (.receive line :: strewn) := by
  have hstep : c.step (.receive line) = c := receive_of_stray hline
  exact .stray hline (hstep.symm ▸ h)

/-- Whatever is made of a run is the same for both lists, if it is made step by step and nothing
is made of a line but what follows from the state that it leads to. -/
theorem Strewn.unnoticed {α : Type} {F : Channel → List Op → α} {ops strewn : List Op}
    (hop : ∀ c op rest rest', F (c.step op) rest = F (c.step op) rest' →
      F c (op :: rest) = F c (op :: rest'))
    (hline : ∀ c line rest, F c (.receive line :: rest) = F (c.step (.receive line)) rest)
    (h : Strewn c ops strewn) : F c strewn = F c ops := by
  induction h with
  | nil => rfl
  | op _ ih => exact hop _ _ _ _ ih
  | @stray c line ops strewn hstray _ ih =>
    have hstep : c.step (.receive line) = c := receive_of_stray hstray
    calc F c (.receive line :: strewn)
        = F (c.step (.receive line)) strewn := hline c line strewn
      _ = F (c.step (.receive line)) ops := ih
      _ = F c ops := by rw [hstep]

theorem Strewn.run_eq {ops strewn : List Op} (h : Strewn c ops strewn) :
    c.run strewn = c.run ops :=
  h.unnoticed (F := run) (fun _ _ _ _ hrest => hrest) fun _ _ _ => rfl

/-- What those who ask something of the channel are told at once. -/
inductive Reply where
  /-- an ordinary query got this id, or was refused -/
  | query (outcome : Except ChannelError QueryId)
  /-- a full-buffer query was taken or refused -/
  | fullBuffer (outcome : Except ChannelError Unit)
  /-- whether a cancel was sent -/
  | cancel (sent : Bool)

def reply? (c : Channel) : Op → Option Reply
  | .send query => some (.query (c.send query).2)
  | .sendDetached query => some (.query (c.sendDetached query).2)
  | .startFullBuffer query => some (.fullBuffer (c.startFullBuffer query).2)
  | .cancel position => some (.cancel (c.cancel position).2)
  | _ => none

/-- The replies of a run. -/
def replies : Channel → List Op → List Reply := along fun c op _ => (c.reply? op).toList

theorem Strewn.replies_eq {ops strewn : List Op} (h : Strewn c ops strewn) :
    replies c strewn = replies c ops :=
  h.unnoticed (F := replies) (fun c op _ _ hrest => congrArg ((c.reply? op).toList ++ ·) hrest)
    fun _ _ _ => rfl

-- ---------------------------------------------------------------------------
-- Lines that are not stray
-- ---------------------------------------------------------------------------

/-- The ids in the tables are such that they can be read back. -/
theorem tabled_lt (role : Role) (ops : List Op) :
    ∀ id ∈ (run { role } ops).tabled, id.number < QueryId.limit := by
  refine move_induction (P := fun _ c => ∀ id ∈ c.tabled, id.number < QueryId.limit) nofun ?_ ops
  intro past op c' hpast hmove _ id hid
  have hnew : id ∈ (run { role } past).tabled ∨ id = (run { role } past).nextId →
      id.number < QueryId.limit := by
    rintro (hold | rfl)
    · exact hpast id hold
    · exact nextId_lt _
  cases hmove.filing with
  | keep _ _ _ htabled => exact hpast id (htabled id hid)
  | write _ _ _ _ htabled => exact hnew (htabled id hid)
  | hold _ _ _ _ htabled => exact hnew (htabled id hid)
  | release _ _ _ _ _ htabled => exact hpast id (htabled ▸ hid)
  | strand _ _ _ _ htabled => exact hpast id (htabled ▸ hid)
  | ended _ _ _ htabled => rw [htabled] at hid; cases hid

/-- A response, or a message with a notice: these are passed on outside a sequence too. -/
def isReport : Incoming → Bool
  | .response .. => true
  | .message rawId level contents =>
    match StreamMessage.ofIncoming? (.message rawId level contents) with
    | some (.notice _) => true
    | _ => false
  | .protocolInfo .. => false

theorem emit_ne (c : Channel) (event : ChannelEvent) : c.emit event ≠ c := by
  intro h
  have hlength : (c.events ++ [event]).length = c.events.length :=
    congrArg (fun c : Channel => c.events.length) h
  rw [List.length_append, List.length_singleton] at hlength
  omega

/-- A response to a query in the tables takes the query out. -/
theorem receiveResponse_ne {id : QueryId} (hid : id ∈ c.tabled) (hfit : id.number < QueryId.limit)
    (response : Response) : c.receiveResponse id.text response ≠ c := by
  intro h
  rw [receiveResponse, QueryId.parse?_eq_some_iff.2 ⟨hfit, rfl⟩] at h
  by_cases hpending : id ∈ c.pending
  · simp only [List.contains_iff_mem, hpending, if_true] at h
    have htable : c.pending.filter (· ≠ id) = c.pending := congrArg Channel.pending h
    rw [← htable] at hpending
    simp at hpending
  · simp only [List.contains_iff_mem, hpending, if_false] at h
    have hdetached : id ∈ c.detached := (mem_tabled.1 hid).resolve_left hpending
    have htable : c.detached.filter (· ≠ id) = c.detached := congrArg Channel.detached h
    rw [← htable] at hdetached
    simp at hdetached

theorem receiveMessage_ne {incoming : Incoming} {n : Notice} (hknown : c.isKnown rawId = true)
    (hnotice : StreamMessage.ofIncoming? incoming = some (.notice n)) :
    c.receiveMessage rawId incoming ≠ c := by
  rw [receiveMessage, if_pos hknown, hnotice]
  exact emit_ne c _

/-- Outside the sequence in flight, the reports without effect are the stray ones. -/
theorem receive_eq_self_iff {incoming : Incoming}
    (hfit : ∀ id ∈ c.tabled, id.number < QueryId.limit)
    (hparse : Incoming.parse? line = some incoming) (hreport : isReport incoming = true)
    (hflight : ∀ id ∈ c.current?, QueryId.stem incoming.rawId ≠ id.text) :
    c.receive line = c ↔ Stray c line := by
  refine ⟨fun hsame => ?_, receive_of_stray⟩
  have hforeign : c.isStreaming incoming.rawId = false := isStreaming_of_foreign hflight
  rw [receive, hparse] at hsame
  cases incoming with
  | protocolInfo version features => cases hreport
  | response rawId status payload =>
    rw [Incoming.rawId] at hforeign
    simp only [receiveIncoming, hforeign, Bool.false_eq_true, if_false] at hsame
    refine .response hparse ?_ hflight
    rintro id hid rfl
    exact receiveResponse_ne hid (hfit id hid) _ hsame
  | message rawId level contents =>
    rw [Incoming.rawId] at hforeign
    simp only [receiveIncoming, hforeign, Bool.false_eq_true, if_false] at hsame
    have hunknown : c.isKnown rawId ≠ true := by
      intro hknown
      rw [isReport] at hreport
      split at hreport
      next n hnotice => exact receiveMessage_ne hknown hnotice hsame
      next => cases hreport
    refine .message hparse ?_ ?_ hflight
    · rintro rfl
      exact hunknown rfl
    · intro id hid hstem
      refine hunknown ?_
      have howner := QueryId.owner?_eq_some_iff.2 ⟨hfit id hid, hstem⟩
      have htables := mem_tabled.1 hid
      simp [isKnown, howner, htables]

-- ---------------------------------------------------------------------------
-- All runs
-- ---------------------------------------------------------------------------

/-- Stray lines are harmless: wherever they come in a run, the channel ends up as without them,
with the same envelopes, events and resolutions, and everybody who asked something of it was told
the same. They are not more than that: on any run, a response or a notice from outside the
sequence in flight is without effect only if it is stray. -/
theorem strays_are_harmless (role : Role) (ops : List Op) :
    (∀ strewn, Strewn { role } ops strewn →
      run { role } strewn = run { role } ops ∧ replies { role } strewn = replies { role } ops) ∧
    ∀ line incoming, Incoming.parse? line = some incoming → isReport incoming = true →
      (∀ id ∈ (run { role } ops).current?, QueryId.stem incoming.rawId ≠ id.text) →
      ((run { role } ops).receive line = run { role } ops ↔ Stray (run { role } ops) line) :=
  ⟨fun _ h => ⟨h.run_eq, h.replies_eq⟩, fun _ _ hparse hreport hflight =>
    receive_eq_self_iff (tabled_lt role ops) hparse hreport hflight⟩

/-- A query that is held back behind another one, and answered. -/
def heldAndAnswered : List Op :=
  [.startFullBuffer (.fullBuffer .full "let x = 1" none), .send (.vfsAdd "let y = 2"),
   .receive (responseLine "2")]

/-- The same with text that is no message, with a response under an id that only looks like that
of the query, and with its response come a second time. -/
def heldAndAnsweredStrewn : List Op :=
  [.receive "no message", .startFullBuffer (.fullBuffer .full "let x = 1" none),
   .send (.vfsAdd "let y = 2"), .receive (responseLine "2.1"), .receive (responseLine "2"),
   .receive (responseLine "2")]

theorem heldAndAnswered_undisturbed :
    Strewn { role := .strict } heldAndAnswered heldAndAnsweredStrewn ∧
    run { role := .strict } heldAndAnsweredStrewn = run { role := .strict } heldAndAnswered ∧
    replies { role := .strict } heldAndAnsweredStrewn =
      replies { role := .strict } heldAndAnswered ∧
    (run { role := .strict } heldAndAnswered).resolved.map Prod.fst = [⟨2⟩] ∧
    (run { role := .strict } [.send (.vfsAdd "let y = 2")]).receive (responseLine "1") ≠
      run { role := .strict } [.send (.vfsAdd "let y = 2")] := by
  have hstrewn : Strewn { role := .strict } heldAndAnswered heldAndAnsweredStrewn := by
    refine .cons_stray (by decide +kernel) (.op (.op (.cons_stray (by decide +kernel) (.op ?_))))
    exact .cons_stray (by decide +kernel) .nil
  obtain ⟨hrun, hreplies⟩ := (strays_are_harmless .strict heldAndAnswered).1 _ hstrewn
  refine ⟨hstrewn, hrun, hreplies, by decide +kernel, fun hsame => ?_⟩
  have hreport : (Incoming.parse? (responseLine "1")).any isReport = true := by decide +kernel
  obtain ⟨incoming, hparse, hreport⟩ := (Option.any_eq_true _ _).1 hreport
  have hstray := ((strays_are_harmless .strict [.send (.vfsAdd "let y = 2")]).2 _ incoming hparse
    hreport nofun).1 hsame
  exact absurd hstray (by decide +kernel)

end VerifierClient.Channel

import VerifierClient.Proofs.Result.EditFrontier
import VerifierClient.Proofs.Result.Replay

/-!
# Fragments without a verdict

A fragment that is checked afresh has no verdict at first. When the verifier breaks off
its work, the verdict never comes, and at the end of the sequence the last fragment is
dropped if it is still open. So it must not happen that an open fragment is anywhere but
in the last place: a second fragment that starts before the first one has its verdict
leaves the first one open for good.

* `Event.opens`, `Event.settles` — the events that open a fragment, and those after which
  none is open;
* `oneAtATime` — the runs in which no fragment starts while another one is open;
* `step_turn`, `run_turn` — in such runs only the last fragment can be open;
* `verdicts_of_overlap` — what a second start leaves behind;
* `settled_iff_one_at_a_time` — the result for all runs;
* `nestedStart_left_open` — a run with an overlap.
-/

namespace VerifierClient

-- ---------------------------------------------------------------------------
-- Verdicts of a result set
-- ---------------------------------------------------------------------------

namespace PassResults

variable {r : PassResults}

/-- The verdicts of the fragments, in order. -/
def verdicts (r : PassResults) : List (Option Bool) := r.fragments.map Fragment.ok

theorem none_notMem_verdicts : none ∉ r.verdicts ↔ ∀ f ∈ r.fragments, f.ok ≠ none := by
  simp [verdicts]

@[simp] theorem verdicts_findings : r.findings.verdicts = r.verdicts := rfl

theorem verdicts_addFragment (f : Fragment) :
    (r.addFragment f).verdicts = r.verdicts ++ [f.ok] := by
  simp [verdicts, addFragment]

theorem verdicts_invalidate (pos : Position) : (r.invalidate pos).verdicts = r.verdicts := by
  simp [verdicts, invalidate, Function.comp_def]

theorem hasOpenFragment_iff : r.hasOpenFragment = true ↔ r.verdicts.getLast? = some none := by
  unfold hasOpenFragment
  rw [verdicts, List.getLast?_map]
  cases r.fragments.getLast? <;> simp

theorem verdicts_closeFragment {earlier : List (Option Bool)} {open? : Option Bool}
    (h : r.verdicts = earlier ++ [open?]) (ok lax : Bool) (digest : Option String) :
    (r.closeFragment ok lax digest).verdicts = earlier ++ [some ok] := by
  have hlast : r.fragments.getLast? ≠ none := by
    rw [ne_eq, List.getLast?_eq_none_iff]
    intro hnil
    simp [verdicts, hnil] at h
  obtain ⟨f, hf⟩ := Option.ne_none_iff_exists'.1 hlast
  have hearlier : r.fragments.dropLast.map Fragment.ok = earlier := by
    rw [List.map_dropLast, ← verdicts, h, List.dropLast_concat]
  simp only [closeFragment, hf]
  simp [verdicts, hearlier]

theorem verdicts_prune :
    r.prune.verdicts =
      if r.verdicts.getLast? = some none then r.verdicts.dropLast else r.verdicts := by
  unfold prune
  by_cases hopen : r.hasOpenFragment = true
  · rw [if_pos hopen, if_pos (hasOpenFragment_iff.1 hopen)]
    exact List.map_dropLast
  · rw [if_neg hopen, if_neg (mt hasOpenFragment_iff.2 hopen)]

end PassResults

namespace ResultModel

variable {m : ResultModel}

/-- The verdicts in the set that results go to. -/
def verdicts (m : ResultModel) : List (Option Bool) := m.active.verdicts

theorem verdicts_unshadowed : m.unshadowed.verdicts = m.verdicts := rfl

theorem active_updateActive (f : PassResults → PassResults) :
    (m.updateActive f).active = f m.active := by
  unfold updateActive active
  cases m.shadow <;> rfl

theorem verdicts_invalidate (pos : Position) : (m.invalidate pos).verdicts = m.verdicts := by
  have hactive : (m.invalidate pos).active = m.active.invalidate pos := by
    unfold invalidate active
    cases m.shadow <;> rfl
  rw [verdicts, hactive, PassResults.verdicts_invalidate, verdicts]

theorem verdicts_fragmentStarted (hm : m.Staged) (range : Range) :
    (m.fragmentStarted (some range)).verdicts = m.verdicts ++ [none] ∧
      (m.fragmentStarted (some range)).phase = .checking := by
  have hstarted := fragmentStarted_unshadowed hm range
  have hphase : (m.fragmentStarted (some range)).unshadowed.phase = .checking := by rw [hstarted]
  refine ⟨?_, hphase⟩
  rw [← verdicts_unshadowed, hstarted]
  exact PassResults.verdicts_addFragment _

theorem verdicts_sequenceFinished :
    m.sequenceFinished.live.verdicts =
      if m.verdicts.getLast? = some none then m.verdicts.dropLast else m.verdicts := by
  rw [← PassResults.verdicts_findings, sequenceFinished_findings, PassResults.verdicts_prune]
  rfl

theorem sequenceFinished_active : m.sequenceFinished.active = m.sequenceFinished.live :=
  active_of_none (promote_shadow _)

/-- After the exit of the verifier the results are as at the end of a sequence, if there
was one. -/
theorem channelExited_live :
    m.channelExited.live = if m.phase = .idle then m.live else m.sequenceFinished.live := by
  unfold channelExited
  split <;> rfl

-- ---------------------------------------------------------------------------
-- One fragment at a time
-- ---------------------------------------------------------------------------

/-- A fragment starts, and it is known which. -/
def Event.opens : Event → Bool
  | .fold (.progress p) => p.stage == .fragmentStarted && p.range.isSome
  | _ => false

/-- A verdict comes, or a sequence starts or ends. -/
def Event.settles : Event → Bool
  | .fold (.progress p) =>
    match p.stage with
    | .started | .fragmentOk | .fragmentLaxOk | .fragmentFailed | .finished => true
    | .fragmentStarted | .other => false
  | .channelExited => true
  | _ => false

/-- Whether a fragment is open after the event, given whether one was before. -/
def busyAfter (busy : Bool) (e : Event) : Bool := e.opens || (busy && !e.settles)

/-- Whether fragments start only while none is open, given whether one is open at first. -/
def oneAtATime (open? : Bool) : List Event → Bool
  | [] => true
  | e :: es => !(open? && e.opens) && oneAtATime (busyAfter open? e) es

theorem oneAtATime_append (open? : Bool) (past rest : List Event) :
    oneAtATime open? (past ++ rest) =
      (oneAtATime open? past && oneAtATime (past.foldl busyAfter open?) rest) := by
  induction past generalizing open? with
  | nil => rfl
  | cons e past ih =>
    rw [List.cons_append, oneAtATime, oneAtATime, ih, Bool.and_assoc, List.foldl_cons]

/-- Where a run is not one at a time, a first fragment starts while another one is open. -/
theorem exists_overlap {open? : Bool} {es : List Event} (h : oneAtATime open? es = false) :
    ∃ past e, past ++ [e] <+: es ∧ oneAtATime open? past = true ∧
      past.foldl busyAfter open? = true ∧ e.opens = true := by
  induction es generalizing open? with
  | nil => cases h
  | cons e es ih =>
    by_cases hnow : (open? && e.opens) = true
    · rw [Bool.and_eq_true] at hnow
      exact ⟨[], e, List.prefix_append [e] es, rfl, hnow⟩
    · have hlater : oneAtATime (busyAfter open? e) es = false := by
        simpa [oneAtATime, hnow] using h
      obtain ⟨past, e', hstart, hturn, hbusy, hopens⟩ := ih hlater
      refine ⟨e :: past, e', List.cons_prefix_cons.2 ⟨rfl, hstart⟩, ?_, hbusy, hopens⟩
      rw [oneAtATime, hturn, Bool.eq_false_iff.2 hnow]
      rfl

-- ---------------------------------------------------------------------------
-- What every event keeps
-- ---------------------------------------------------------------------------

/-- Every fragment has its verdict, or a fragment is being checked and all others have
theirs. -/
structure Turn (open? : Bool) (m : ResultModel) : Prop where
  shaded : m.Shaded
  settled : open? = false → none ∉ m.verdicts
  atWork : open? = true →
    m.phase = .checking ∧ ∃ earlier, m.verdicts = earlier ++ [none] ∧ none ∉ earlier

theorem Turn.settled_or_last {open? : Bool} (hm : m.Turn open?) :
    none ∉ m.verdicts ∨ ∃ earlier, m.verdicts = earlier ++ [none] ∧ none ∉ earlier := by
  cases open? with
  | false => exact .inl (hm.settled rfl)
  | true => exact .inr (hm.atWork rfl).2

theorem Turn.of_settled (hshaded : m.Shaded) (h : none ∉ m.verdicts) : m.Turn false :=
  ⟨hshaded, fun _ => h, fun hopen => by cases hopen⟩

/-- An event that neither opens a fragment nor settles it leaves the verdicts alone. -/
theorem step_aside {e : Event} (hopens : e.opens = false) (hsettles : e.settles = false) :
    (m.step e).verdicts = m.verdicts ∧ (m.step e).phase = m.phase := by
  have hreport : ∀ f : PassResults → PassResults, (∀ r, (f r).verdicts = r.verdicts) →
      (m.updateActive f).verdicts = m.verdicts ∧ (m.updateActive f).phase = m.phase := by
    intro f hf
    refine ⟨?_, updateActive_phase f⟩
    rw [verdicts, active_updateActive, hf, verdicts]
  cases e with
  | requestIssued text =>
    simp only [step, requestIssued]
    split <;> exact ⟨rfl, rfl⟩
  | textChanged text =>
    simp only [step, textChanged]
    split
    · exact ⟨verdicts_invalidate _, rfl⟩
    · exact ⟨rfl, rfl⟩
  | invalidate pos => exact ⟨verdicts_invalidate pos, rfl⟩
  | fold message =>
    cases message with
    | progress p =>
      simp only [step, fold, progress]
      simp only [Event.opens, Event.settles] at hopens hsettles
      cases hstage : p.stage with
      | fragmentStarted =>
        have hrange : p.range = none := by simpa [hstage] using hopens
        rw [hrange]
        exact ⟨rfl, rfl⟩
      | other => exact ⟨rfl, rfl⟩
      | _ => simp [hstage] at hsettles
    | proofState s =>
      simp only [step, fold]
      split
      · exact ⟨rfl, rfl⟩
      · exact hreport _ fun _ => rfl
    | diagnostics errors => exact hreport _ fun _ => rfl
    | notice n => exact hreport _ fun _ => rfl
  | notice n => exact hreport _ fun _ => rfl
  | channelExited => cases hsettles

theorem step_of_opens {e : Event} (h : e.opens = true) :
    ∃ range, m.step e = m.fragmentStarted (some range) := by
  match e, h with
  | .fold (.progress p), h =>
    simp only [Event.opens, Bool.and_eq_true, beq_iff_eq] at h
    obtain ⟨range, hrange⟩ := Option.isSome_iff_exists.1 h.2
    refine ⟨range, ?_⟩
    simp only [step, fold, progress, h.1, hrange]

/-- A verdict closes the fragment that is open; where none is, it adds a fragment that is
not. -/
theorem Turn.verdict {open? : Bool} (hm : m.Turn open?) (range : Option Range) (ok lax : Bool)
    (digest : Option String) : none ∉ (m.verdict range ok lax digest).verdicts := by
  unfold ResultModel.verdict
  split
  next hcond =>
    rw [verdicts, active_updateActive]
    have hlast := PassResults.hasOpenFragment_iff.1 hcond.2
    rcases hm.settled_or_last with hsettled | ⟨earlier, hverdicts, hearlier⟩
    · exact absurd (List.mem_of_getLast? hlast) hsettled
    · rw [PassResults.verdicts_closeFragment hverdicts]
      simpa using hearlier
  next hcond =>
    have hsettled : none ∉ m.verdicts := by
      cases open? with
      | false => exact hm.settled rfl
      | true =>
        obtain ⟨hphase, earlier, hverdicts, -⟩ := hm.atWork rfl
        refine absurd ⟨by simp [hphase], PassResults.hasOpenFragment_iff.2 ?_⟩ hcond
        rw [← verdicts, hverdicts, List.getLast?_concat]
    cases range with
    | none => exact hsettled
    | some range =>
      rw [verdicts, active_updateActive, PassResults.verdicts_addFragment, ← verdicts,
        List.mem_append, not_or]
      exact ⟨hsettled, by simp⟩

/-- The fragment that is open at the end is dropped. -/
theorem Turn.sequenceFinished {open? : Bool} (hm : m.Turn open?) :
    none ∉ m.sequenceFinished.live.verdicts := by
  rw [verdicts_sequenceFinished]
  rcases hm.settled_or_last with hsettled | ⟨earlier, hverdicts, hearlier⟩
  · rw [if_neg fun hlast => hsettled (List.mem_of_getLast? hlast)]
    exact hsettled
  · rw [hverdicts, List.getLast?_concat, if_pos rfl, List.dropLast_concat]
    exact hearlier

theorem Turn.channelExited {open? : Bool} (hm : m.Turn open?) :
    none ∉ m.channelExited.live.verdicts := by
  rw [channelExited_live]
  split
  next hphase =>
    -- nothing is open between sequences, and there is no shadow set
    have hsettled : none ∉ m.verdicts := by
      cases open? with
      | false => exact hm.settled rfl
      | true => simp [(hm.atWork rfl).1] at hphase
    have hshadow := hm.shaded.shadow_eq_none (by simp [hphase])
    rwa [verdicts, active_of_none hshadow] at hsettled
  next => exact hm.sequenceFinished

theorem channelExited_shadow (hm : m.Shaded) : m.channelExited.shadow = none := by
  unfold ResultModel.channelExited
  split
  next hphase => exact hm.shadow_eq_none (by simp [hphase])
  next => exact promote_shadow _

theorem Turn.settles {open? : Bool} (hm : m.Turn open?) {e : Event} (h : e.settles = true) :
    none ∉ (m.step e).verdicts := by
  cases e with
  | fold message =>
    cases message with
    | progress p =>
      simp only [step, fold, progress]
      cases hstage : p.stage with
      | started =>
        have hstart : (StreamMessage.progress p).isStarted = true := by
          simp [StreamMessage.isStarted, hstage]
        have hactive := active_of_isStarted (m := m) hstart
        simp only [fold, progress, hstage] at hactive
        simp [verdicts, hactive, PassResults.verdicts, freshSet]
      | fragmentOk => exact hm.verdict _ _ _ _
      | fragmentLaxOk => exact hm.verdict _ _ _ _
      | fragmentFailed => exact hm.verdict _ _ _ _
      | finished =>
        rw [verdicts, sequenceFinished_active]
        exact hm.sequenceFinished
      | _ => simp [Event.settles, hstage] at h
    | _ => cases h
  | channelExited =>
    rw [verdicts, step, active_of_none (channelExited_shadow hm.shaded)]
    exact hm.channelExited
  | _ => cases h

/-- An event keeps all verdicts but the last one in place, unless it opens a fragment on
top of another one. -/
theorem step_turn {open? : Bool} (hm : m.Turn open?) {e : Event}
    (hfree : (open? && e.opens) = false) : (m.step e).Turn (busyAfter open? e) := by
  have hshaded := step_shaded hm.shaded e
  cases hopens : e.opens with
  | true =>
    obtain rfl : open? = false := by simpa [hopens] using hfree
    obtain ⟨range, hstep⟩ := step_of_opens (m := m) hopens
    obtain ⟨hverdicts, hphase⟩ := verdicts_fragmentStarted hm.shaded.staged range
    have hbusy : busyAfter false e = true := by simp [busyAfter, hopens]
    rw [hbusy]
    refine ⟨hshaded, fun h => (by cases h), fun _ => ?_⟩
    rw [hstep]
    exact ⟨hphase, m.verdicts, hverdicts, hm.settled rfl⟩
  | false =>
    cases hsettles : e.settles with
    | true =>
      have hbusy : busyAfter open? e = false := by simp [busyAfter, hopens, hsettles]
      rw [hbusy]
      exact .of_settled hshaded (hm.settles hsettles)
    | false =>
      have hbusy : busyAfter open? e = open? := by simp [busyAfter, hopens, hsettles]
      obtain ⟨hverdicts, hphase⟩ := step_aside (m := m) hopens hsettles
      rw [hbusy]
      refine ⟨hshaded, ?_, ?_⟩
      · rw [hverdicts]
        exact hm.settled
      · rw [hverdicts, hphase]
        exact hm.atWork

theorem run_turn {open? : Bool} (hm : m.Turn open?) {es : List Event}
    (h : oneAtATime open? es = true) : (m.run es).Turn (es.foldl busyAfter open?) := by
  induction es generalizing m open? with
  | nil => exact hm
  | cons e es ih =>
    rw [oneAtATime, Bool.and_eq_true, Bool.not_eq_true'] at h
    exact ih (step_turn hm h.1) h.2

theorem new_turn (document : Option String) (text : String) : (new document text).Turn false :=
  .of_settled (.of_none rfl) List.not_mem_nil

/-- A second start leaves the first fragment open and makes it one of the earlier ones. -/
theorem verdicts_of_overlap (hm : m.Turn true) {e : Event} (h : e.opens = true) :
    ∃ earlier, (m.step e).verdicts = earlier ++ [none] ++ [none] := by
  obtain ⟨range, hstep⟩ := step_of_opens (m := m) h
  obtain ⟨hverdicts, -⟩ := verdicts_fragmentStarted hm.shaded.staged range
  obtain ⟨-, earlier, hearlier, -⟩ := hm.atWork rfl
  refine ⟨earlier, ?_⟩
  rw [hstep, hverdicts, hearlier]

-- ---------------------------------------------------------------------------
-- All runs
-- ---------------------------------------------------------------------------

/-- Wherever the sequence ends or the verifier exits, no fragment without a verdict is left,
if and only if fragments start one at a time: between two starts with a range there is a
verdict, or the start or the end of a sequence. -/
theorem settled_iff_one_at_a_time (document : Option String) (text : String) (es : List Event) :
    oneAtATime false es = true ↔
      ∀ past finish, past <+: es → finish.isFinished = true →
        (∀ f ∈ ((new document text).run (past ++ [.fold finish])).live.fragments, f.ok ≠ none) ∧
        ∀ f ∈ ((new document text).run (past ++ [.channelExited])).live.fragments, f.ok ≠ none := by
  constructor
  · rintro hturn past finish ⟨rest, rfl⟩ hfinish
    rw [oneAtATime_append, Bool.and_eq_true] at hturn
    have hm := run_turn (new_turn document text) hturn.1
    rw [run_append, run_append, ← PassResults.none_notMem_verdicts,
      ← PassResults.none_notMem_verdicts]
    refine ⟨?_, hm.channelExited⟩
    have hstep := step_of_isFinished (m := (new document text).run past) hfinish
    show none ∉ (((new document text).run past).step (.fold finish)).live.verdicts
    rw [hstep]
    exact hm.sequenceFinished
  · intro h
    by_contra hoverlap
    obtain ⟨past, e, hstart, hturn, hbusy, hopens⟩ :=
      exists_overlap (Bool.eq_false_iff.2 hoverlap)
    have hm := run_turn (new_turn document text) hturn
    rw [hbusy] at hm
    obtain ⟨earlier, hverdicts⟩ := verdicts_of_overlap hm hopens
    have hleft := (h (past ++ [e]) (.progress { stage := .finished }) hstart rfl).1
    rw [← PassResults.none_notMem_verdicts, run_append, run_append] at hleft
    refine hleft ?_
    show none ∈ (((new document text).run past).step e).sequenceFinished.live.verdicts
    rw [verdicts_sequenceFinished, hverdicts, List.getLast?_concat, if_pos rfl,
      List.dropLast_concat]
    simp

/-- A fragment gets its verdict, and the next one starts. -/
def brokenSecond : List Event :=
  [.fold (.progress { stage := .started }),
   .fold (.progress { stage := .fragmentStarted, ranges := some ⟨inputFileName, ⟨1, 0⟩, ⟨1, 2⟩⟩ }),
   .fold (.progress { stage := .fragmentOk }),
   .fold (.progress { stage := .fragmentStarted, ranges := some ⟨inputFileName, ⟨2, 0⟩, ⟨2, 2⟩⟩ })]

/-- The verifier exits, and the fragment that it was at work on is dropped. -/
theorem brokenSecond_settled :
    oneAtATime false brokenSecond = true ∧
    ((new none "ab\ncd").run brokenSecond).live.verdicts = [some true, none] ∧
    ∀ f ∈ ((new none "ab\ncd").run (brokenSecond ++ [.channelExited])).live.fragments,
      f.ok ≠ none := by
  have hturn : oneAtATime false brokenSecond = true := by decide
  exact ⟨hturn, by decide, ((settled_iff_one_at_a_time none "ab\ncd" brokenSecond).1 hturn _
    (.progress { stage := .finished }) (List.prefix_refl _) rfl).2⟩

/-- A fragment starts before the one before it has got its verdict. -/
def nestedStart : List Event :=
  [.fold (.progress { stage := .started }),
   .fold (.progress { stage := .fragmentStarted, ranges := some ⟨inputFileName, ⟨1, 0⟩, ⟨1, 2⟩⟩ }),
   .fold (.progress { stage := .fragmentStarted, ranges := some ⟨inputFileName, ⟨2, 0⟩, ⟨2, 2⟩⟩ })]

/-- The end of the sequence leaves the first fragment without a verdict. -/
theorem nestedStart_left_open :
    ∃ f ∈ ((new none "ab\ncd").run
        (nestedStart ++ [.fold (.progress { stage := .finished })])).live.fragments,
      f.ok = none := by
  decide

end ResultModel

end VerifierClient

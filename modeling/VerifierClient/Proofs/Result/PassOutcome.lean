import VerifierClient.Proofs.Result.Staleness

/-!
# What a pass leaves behind

A sequence gathers its results in the live set if that is empty, and otherwise in
a shadow set that takes the place of the live one later. Which of the two it is
depends on what earlier passes left behind, and it must not show in the outcome.

The reference is the model without a shadow set: `unshadowed` puts the results of
the pass into the live set and drops the reports that may come from earlier
passes. Every event inside of a pass does the same to a model and to its
unshadowed form, so what holds without a shadow set holds with one.

* `step_unshadowed`, `run_unshadowed` — events and runs inside of a pass commute
  with `unshadowed`;
* `step_staged`, `run_staged` — there is no shadow set while fragments are checked
  afresh;
* `step_diagnostics`, `run_diagnostics` — the diagnostics of a pass are those that
  its events report;
* `pass_outcome` — so the outcome of a pass depends on that pass alone.
-/

namespace VerifierClient

-- ---------------------------------------------------------------------------
-- Findings
-- ---------------------------------------------------------------------------

namespace PassResults

/-- The results without the reports that may be carried over from an earlier pass. -/
def findings (r : PassResults) : PassResults := { r with proofStates := [], notices := [] }

theorem findings_inj {r r' : PassResults} : r.findings = r'.findings ↔
    r.fragments = r'.fragments ∧ r.diagnostics = r'.diagnostics ∧
      r.invalidAfter = r'.invalidAfter ∧ r.sourceText = r'.sourceText := by
  simp [findings]

theorem findings_closeFragment (r : PassResults) (ok lax : Bool) (digest : Option String) :
    (r.closeFragment ok lax digest).findings = r.findings.closeFragment ok lax digest := by
  simp only [closeFragment, findings]
  cases r.fragments.getLast? <;> rfl

theorem findings_prune (r : PassResults) : r.prune.findings = r.findings.prune := by
  have hopen : r.findings.hasOpenFragment = r.hasOpenFragment := rfl
  unfold prune
  rw [hopen]
  split <;> rfl

theorem closeFragment_diagnostics (r : PassResults) (ok lax : Bool) (digest : Option String) :
    (r.closeFragment ok lax digest).diagnostics = r.diagnostics := by
  unfold closeFragment
  cases r.fragments.getLast? <;> rfl

theorem prune_diagnostics (r : PassResults) : r.prune.diagnostics = r.diagnostics := by
  unfold prune
  split <;> rfl

end PassResults

/-- The message neither starts nor ends a sequence. -/
def StreamMessage.isInner (message : StreamMessage) : Bool :=
  !message.isStarted && !message.isFinished

namespace ResultModel

/-- Events inside of a pass. -/
def Event.isInner : Event → Bool
  | .fold message => message.isInner
  | .channelExited => false
  | _ => true

/-- The model as it would be if the pass gathered its results in the live set. -/
def unshadowed (m : ResultModel) : ResultModel :=
  { m with live := m.active.findings, shadow := none }

/-- The shadow set is given up when fresh checking starts. -/
def Staged (m : ResultModel) : Prop := m.phase = .checking → m.shadow = none

variable {m m' : ResultModel}

theorem active_of_none (h : m.shadow = none) : m.active = m.live := by
  rw [active, h]
  rfl

theorem updateActive_of_none (h : m.shadow = none) (f : PassResults → PassResults) :
    m.updateActive f = { m with live := f m.live } := by
  rw [updateActive, h]

theorem promote_of_none (h : m.shadow = none) (keep : PassResults → Position → Bool) :
    m.promote keep = m := by
  rw [promote, h]

theorem promote_shadow (keep : PassResults → Position → Bool) : (m.promote keep).shadow = none := by
  cases hshadow : m.shadow with
  | none => rw [promote_of_none hshadow, hshadow]
  | some shadow => rw [promote, hshadow]

theorem leaveReplay_shadow (hm : m.Staged) (start : Position) :
    (m.leaveReplay start).shadow = none := by
  unfold leaveReplay
  split
  next hphase => exact hm hphase
  next => exact promote_shadow _

-- ---------------------------------------------------------------------------
-- Stages
-- ---------------------------------------------------------------------------

theorem updateActive_staged (hm : m.Staged) (f : PassResults → PassResults) :
    (m.updateActive f).Staged := by
  cases hshadow : m.shadow with
  | none =>
    rw [updateActive_of_none hshadow]
    exact hm
  | some shadow =>
    rw [updateActive, hshadow]
    intro hphase
    rw [hm hphase] at hshadow
    cases hshadow

theorem invalidate_staged (hm : m.Staged) (pos : Position) : (m.invalidate pos).Staged := by
  intro hphase
  simp [invalidate, hm hphase]

theorem sequenceStarted_staged : m.sequenceStarted.Staged := by
  unfold sequenceStarted
  split <;> exact nofun

theorem verdict_staged (hm : m.Staged) (range : Option Range) (ok lax : Bool)
    (digest : Option String) : (m.verdict range ok lax digest).Staged := by
  unfold verdict
  split
  · exact updateActive_staged hm _
  · cases range with
    | none => exact hm
    | some range => exact updateActive_staged hm _

theorem progress_staged (hm : m.Staged) (p : Progress) : (m.progress p).Staged := by
  unfold progress
  split
  · exact sequenceStarted_staged
  · cases p.range with
    | none => exact hm
    | some range => exact fun _ => leaveReplay_shadow hm range.start
  · exact verdict_staged hm _ _ _ _
  · exact verdict_staged hm _ _ _ _
  · exact verdict_staged hm _ _ _ _
  · exact fun hphase => by cases hphase
  · exact hm

theorem step_staged (hm : m.Staged) (e : Event) : (m.step e).Staged := by
  cases e with
  | requestIssued text =>
    simp only [step, requestIssued]
    split <;> exact hm
  | textChanged text =>
    simp only [step, textChanged]
    split
    · exact invalidate_staged hm _
    · exact hm
  | invalidate pos => exact invalidate_staged hm pos
  | fold message =>
    cases message with
    | progress p => exact progress_staged hm p
    | proofState s =>
      simp only [step, fold]
      split
      · exact hm
      · exact updateActive_staged hm _
    | diagnostics errors => exact updateActive_staged hm _
    | notice n => exact updateActive_staged hm _
  | notice n => exact updateActive_staged hm _
  | channelExited =>
    simp only [step, channelExited]
    split
    · exact hm
    · exact fun hphase => by cases hphase

theorem run_staged (hm : m.Staged) (es : List Event) : (m.run es).Staged := by
  induction es generalizing m with
  | nil => exact hm
  | cons e es ih => exact ih (step_staged hm e)

-- ---------------------------------------------------------------------------
-- With a shadow set and without one
-- ---------------------------------------------------------------------------

theorem updateActive_unshadowed {f : PassResults → PassResults}
    (hf : ∀ r, (f r).findings = (f r.findings).findings) :
    (m.updateActive f).unshadowed = (m.unshadowed.updateActive f).unshadowed := by
  have hframe : (m.updateActive f).unshadowed =
      { m.unshadowed with live := (f m.active).findings } := by
    unfold updateActive unshadowed active
    cases m.shadow <;> rfl
  rw [hframe, hf, updateActive_of_none (m := m.unshadowed) rfl]
  rfl

/-- Promotion brings in nothing but reports of earlier passes. -/
theorem promote_unshadowed (keep : PassResults → Position → Bool) :
    (m.promote keep).unshadowed = m.unshadowed := by
  cases hshadow : m.shadow with
  | none => rw [promote_of_none hshadow]
  | some shadow =>
    simp only [promote, hshadow, unshadowed, active]
    rfl

theorem invalidate_unshadowed (pos : Position) :
    (m.invalidate pos).unshadowed = m.unshadowed.invalidate pos := by
  unfold invalidate unshadowed active
  cases m.shadow <;> rfl

theorem textChanged_unshadowed (text : String) :
    (m.textChanged text).unshadowed = m.unshadowed.textChanged text := by
  have hpos : m.unshadowed.editPosition text = m.editPosition text := rfl
  unfold textChanged
  rw [hpos]
  cases m.editPosition text with
  | some pos => exact invalidate_unshadowed pos
  | none => rfl

theorem requestIssued_unshadowed (text : String) :
    (m.requestIssued text).unshadowed = m.unshadowed.requestIssued text := by
  unfold requestIssued inSequence unshadowed active
  cases m.inFlightText <;> rfl

theorem leaveReplay_unshadowed (start : Position) :
    (m.leaveReplay start).unshadowed = { m.unshadowed with phase := .checking } := by
  unfold leaveReplay
  split
  next hphase => simp only [unshadowed, active, hphase]
  next => exact promote_unshadowed _

theorem addLive_unshadowed (h : m.shadow = none) (f : Fragment) :
    ({ m with live := m.live.addFragment f } : ResultModel).unshadowed =
      { m.unshadowed with live := m.unshadowed.live.addFragment f } := by
  simp only [unshadowed, active, h]
  rfl

theorem fragmentStarted_unshadowed (hm : m.Staged) (range : Range) :
    (m.fragmentStarted (some range)).unshadowed =
      { m.unshadowed with
        phase := .checking
        live := m.unshadowed.live.addFragment { range, ok := none } } := by
  have hshadow := leaveReplay_shadow hm range.start
  rw [fragmentStarted, addLive_unshadowed hshadow, leaveReplay_unshadowed]

theorem verdict_unshadowed (range : Option Range) (ok lax : Bool) (digest : Option String) :
    (m.verdict range ok lax digest).unshadowed =
      (m.unshadowed.verdict range ok lax digest).unshadowed := by
  have hcond : (m.unshadowed.phase ≠ .replaying ∧ m.unshadowed.active.hasOpenFragment) =
      (m.phase ≠ .replaying ∧ m.active.hasOpenFragment) := rfl
  unfold verdict
  simp only [hcond]
  split
  · refine updateActive_unshadowed fun r => ?_
    rw [r.findings_closeFragment, r.findings.findings_closeFragment]
    rfl
  · cases range with
    | none => rfl
    | some range => exact updateActive_unshadowed fun _ => rfl

theorem progress_unshadowed (hm : m.Staged) {p : Progress}
    (hinner : (StreamMessage.progress p).isInner = true) :
    (m.progress p).unshadowed = (m.unshadowed.progress p).unshadowed := by
  have hm' : m.unshadowed.Staged := fun _ => rfl
  unfold progress
  cases hstage : p.stage with
  | started => simp [StreamMessage.isInner, StreamMessage.isStarted, hstage] at hinner
  | finished => simp [StreamMessage.isInner, StreamMessage.isFinished, hstage] at hinner
  | fragmentStarted =>
    cases p.range with
    | none => rfl
    | some range =>
      simp only [fragmentStarted_unshadowed hm, fragmentStarted_unshadowed hm']
      rfl
  | fragmentOk => exact verdict_unshadowed ..
  | fragmentLaxOk => exact verdict_unshadowed ..
  | fragmentFailed => exact verdict_unshadowed ..
  | other => rfl

theorem fold_unshadowed (hm : m.Staged) {message : StreamMessage}
    (hinner : message.isInner = true) :
    (m.fold message).unshadowed = (m.unshadowed.fold message).unshadowed := by
  cases message with
  | progress p => exact progress_unshadowed hm hinner
  | proofState s =>
    have hphase : m.unshadowed.phase = m.phase := rfl
    simp only [fold, hphase]
    split
    · rfl
    · exact updateActive_unshadowed fun _ => rfl
  | diagnostics errors => exact updateActive_unshadowed fun _ => rfl
  | notice n => exact updateActive_unshadowed fun _ => rfl

/-- An event inside of a pass does the same, whether there is a shadow set or not. -/
theorem step_unshadowed (hm : m.Staged) {e : Event} (hinner : e.isInner = true) :
    (m.step e).unshadowed = (m.unshadowed.step e).unshadowed := by
  cases e with
  | requestIssued text =>
    simp only [step, requestIssued_unshadowed]
    rfl
  | textChanged text =>
    simp only [step, textChanged_unshadowed]
    rfl
  | invalidate pos =>
    simp only [step, invalidate_unshadowed]
    rfl
  | fold message => exact fold_unshadowed hm hinner
  | notice n => exact updateActive_unshadowed fun _ => rfl
  | channelExited => cases hinner

theorem run_unshadowed (hm : m.Staged) {es : List Event} (hinner : ∀ e ∈ es, e.isInner = true) :
    (m.run es).unshadowed = (m.unshadowed.run es).unshadowed := by
  induction es generalizing m with
  | nil => rfl
  | cons e es ih =>
    have he := hinner e (List.mem_cons_self ..)
    have hes := fun e' he' => hinner e' (List.mem_cons_of_mem _ he')
    calc ((m.step e).run es).unshadowed
        = ((m.step e).unshadowed.run es).unshadowed := ih (step_staged hm e) hes
      _ = ((m.unshadowed.step e).unshadowed.run es).unshadowed := by rw [step_unshadowed hm he]
      _ = ((m.unshadowed.step e).run es).unshadowed :=
          (ih (step_staged (fun _ => rfl) e) hes).symm

-- ---------------------------------------------------------------------------
-- Diagnostics
-- ---------------------------------------------------------------------------

/-- The diagnostics that an event reports. -/
def Event.reported (document : Option String) : Event → List Diagnostic
  | .fold (.diagnostics errors) => errors.map fun e => e.toDiagnostic document
  | _ => []

theorem verdict_diagnostics (hm : m.shadow = none) (range : Option Range) (ok lax : Bool)
    (digest : Option String) :
    (m.verdict range ok lax digest).shadow = none ∧
      (m.verdict range ok lax digest).document = m.document ∧
      (m.verdict range ok lax digest).live.diagnostics = m.live.diagnostics := by
  simp only [verdict, updateActive_of_none hm]
  split
  · exact ⟨hm, rfl, PassResults.closeFragment_diagnostics ..⟩
  · cases range <;> exact ⟨hm, rfl, rfl⟩

theorem progress_diagnostics (hm : m.shadow = none) {p : Progress}
    (hinner : (StreamMessage.progress p).isInner = true) :
    (m.progress p).shadow = none ∧ (m.progress p).document = m.document ∧
      (m.progress p).live.diagnostics = m.live.diagnostics := by
  unfold progress
  cases hstage : p.stage with
  | started => simp [StreamMessage.isInner, StreamMessage.isStarted, hstage] at hinner
  | finished => simp [StreamMessage.isInner, StreamMessage.isFinished, hstage] at hinner
  | fragmentStarted =>
    cases p.range with
    | none => exact ⟨hm, rfl, rfl⟩
    | some range =>
      simp only [fragmentStarted, leaveReplay]
      split
      · exact ⟨hm, rfl, rfl⟩
      · rw [promote_of_none (m := { m with phase := .checking }) hm]
        exact ⟨hm, rfl, rfl⟩
  | fragmentOk => exact verdict_diagnostics hm ..
  | fragmentLaxOk => exact verdict_diagnostics hm ..
  | fragmentFailed => exact verdict_diagnostics hm ..
  | other => exact ⟨hm, rfl, rfl⟩

/-- Without a shadow set, an event inside of a pass adds the diagnostics that it reports
to the live set. -/
theorem step_diagnostics (hm : m.shadow = none) {e : Event} (hinner : e.isInner = true) :
    (m.step e).shadow = none ∧ (m.step e).document = m.document ∧
      (m.step e).live.diagnostics = m.live.diagnostics ++ e.reported m.document := by
  cases e with
  | requestIssued text =>
    simp only [step, requestIssued, Event.reported, List.append_nil]
    split <;> exact ⟨hm, rfl, rfl⟩
  | textChanged text =>
    simp only [step, textChanged, Event.reported, List.append_nil]
    split
    · exact ⟨by simp [invalidate, hm], rfl, rfl⟩
    · exact ⟨hm, rfl, rfl⟩
  | invalidate pos => exact ⟨by simp [step, invalidate, hm], rfl, (List.append_nil _).symm⟩
  | fold message =>
    cases message with
    | progress p =>
      simp only [Event.reported, List.append_nil]
      exact progress_diagnostics hm hinner
    | proofState s =>
      simp only [step, fold, updateActive_of_none hm, Event.reported, List.append_nil]
      split <;> exact ⟨hm, rfl, rfl⟩
    | diagnostics errors => simp [step, fold, updateActive_of_none hm, Event.reported, hm]
    | notice n => simp [step, fold, addNotice, updateActive_of_none hm, Event.reported, hm]
  | notice n => simp [step, addNotice, updateActive_of_none hm, Event.reported, hm]
  | channelExited => cases hinner

theorem run_diagnostics (hm : m.shadow = none) {es : List Event}
    (hinner : ∀ e ∈ es, e.isInner = true) :
    (m.run es).shadow = none ∧
      (m.run es).live.diagnostics =
        m.live.diagnostics ++ es.flatMap (Event.reported m.document) := by
  induction es generalizing m with
  | nil => exact ⟨hm, (List.append_nil _).symm⟩
  | cons e es ih =>
    obtain ⟨hshadow, hdocument, hstep⟩ := step_diagnostics hm (hinner e (List.mem_cons_self ..))
    obtain ⟨hshadow', hrun⟩ := ih hshadow fun e' he' => hinner e' (List.mem_cons_of_mem _ he')
    refine ⟨hshadow', ?_⟩
    rw [hdocument, hstep] at hrun
    rw [List.flatMap_cons, ← List.append_assoc]
    exact hrun

-- ---------------------------------------------------------------------------
-- Whole passes
-- ---------------------------------------------------------------------------

/-- What a sequence that starts depends on. -/
def context (m : ResultModel) : Option String × String × String × Option String × Option String :=
  (m.document, m.lastSent, m.currentText, m.inFlightText, m.queuedText)

/-- A sequence from its start to its end, with what happens meanwhile. -/
def wholePass (start finish : StreamMessage) (es : List Event) : List Event :=
  .fold start :: es ++ [.fold finish]

theorem sequenceStarted_unshadowed : m.sequenceStarted.unshadowed =
    { m with live := m.freshSet, shadow := none, phase := .replaying } := by
  unfold sequenceStarted
  split <;> rfl

theorem sequenceStarted_of_context (h : m.context = m'.context) :
    m.sequenceStarted.unshadowed = m'.sequenceStarted.unshadowed := by
  obtain ⟨hdocument, hsent, hcurrent, hinFlight, hqueued⟩ : _ ∧ _ ∧ _ ∧ _ ∧ _ := by
    simpa only [context, Prod.mk.injEq] using h
  simp only [sequenceStarted_unshadowed, freshSet, hdocument, hsent, hcurrent, hinFlight, hqueued]

theorem sequenceFinished_findings :
    m.sequenceFinished.live.findings = m.unshadowed.live.prune := by
  have hlive : ∀ keep, (m.promote keep).live.findings = m.unshadowed.live := by
    intro keep
    rw [← promote_unshadowed keep, unshadowed, active_of_none (promote_shadow keep)]
  exact (PassResults.findings_prune _).trans (congrArg PassResults.prune (hlive _))

theorem step_of_isFinished {finish : StreamMessage} (h : finish.isFinished = true) :
    m.step (.fold finish) = m.sequenceFinished := by
  match finish, h with
  | .progress p, h =>
    have hstage : p.stage = .finished := beq_iff_eq.1 h
    simp [step, fold, progress, hstage]

section Passes

variable {start finish : StreamMessage} {es : List Event}

/-- The outcome of a pass, told from the model without a shadow set. -/
theorem wholePass_findings (hstart : start.isStarted = true) (hfinish : finish.isFinished = true)
    (hinner : ∀ e ∈ es, e.isInner = true) :
    (m.run (wholePass start finish es)).live.findings =
      (m.sequenceStarted.unshadowed.run es).unshadowed.live.prune := by
  have hrun : m.run (wholePass start finish es) = (m.sequenceStarted.run es).sequenceFinished := by
    rw [wholePass, run_append, ← step_of_isFinished hfinish,
      ← step_of_isStart (e := .fold start) hstart]
    rfl
  rw [hrun, sequenceFinished_findings, run_unshadowed sequenceStarted_staged hinner]

theorem wholePass_diagnostics (hstart : start.isStarted = true)
    (hfinish : finish.isFinished = true) (hinner : ∀ e ∈ es, e.isInner = true) :
    (m.run (wholePass start finish es)).live.diagnostics =
      es.flatMap (Event.reported m.document) := by
  obtain ⟨hshadow, hrun⟩ := run_diagnostics (m := m.sequenceStarted.unshadowed) rfl hinner
  rw [sequenceStarted_unshadowed] at hshadow hrun
  calc (m.run (wholePass start finish es)).live.diagnostics
      = (m.run (wholePass start finish es)).live.findings.diagnostics := rfl
    _ = (m.sequenceStarted.unshadowed.run es).unshadowed.live.prune.diagnostics := by
        rw [wholePass_findings hstart hfinish hinner]
    _ = (m.sequenceStarted.unshadowed.run es).active.diagnostics :=
        PassResults.prune_diagnostics _
    _ = es.flatMap (Event.reported m.document) := by
        rw [sequenceStarted_unshadowed, active_of_none hshadow, hrun]
        rfl

/-- Two models that agree on the texts and the document come to the same results
through the same pass, whatever results they held and whichever set gathered the new
ones. The diagnostics are those that the pass reported. -/
theorem pass_outcome {m m' : ResultModel} (hcontext : m.context = m'.context)
    (hstart : start.isStarted = true) (hfinish : finish.isFinished = true)
    (hinner : ∀ e ∈ es, e.isInner = true) :
    (m.run (wholePass start finish es)).live.fragments =
      (m'.run (wholePass start finish es)).live.fragments ∧
    (m.run (wholePass start finish es)).live.diagnostics =
      (m'.run (wholePass start finish es)).live.diagnostics ∧
    (m.run (wholePass start finish es)).live.invalidAfter =
      (m'.run (wholePass start finish es)).live.invalidAfter ∧
    (m.run (wholePass start finish es)).live.sourceText =
      (m'.run (wholePass start finish es)).live.sourceText ∧
    (m.run (wholePass start finish es)).live.diagnostics =
      es.flatMap (Event.reported m.document) := by
  have hfindings : (m.run (wholePass start finish es)).live.findings =
      (m'.run (wholePass start finish es)).live.findings := by
    rw [wholePass_findings hstart hfinish hinner, wholePass_findings hstart hfinish hinner,
      sequenceStarted_of_context hcontext]
  obtain ⟨hfragments, hdiagnostics, hinvalid, hsource⟩ := PassResults.findings_inj.1 hfindings
  exact ⟨hfragments, hdiagnostics, hinvalid, hsource, wholePass_diagnostics hstart hfinish hinner⟩

end Passes

/-- A model whose last sequence was replaying when it broke off, with results of an
earlier pass in the live set. -/
def brokenOff : ResultModel :=
  { new none "ab\ncd" with
    live := {
      sourceText := "ab\ncd"
      fragments := [{ range := ⟨⟨0, 0⟩, ⟨0, 2⟩⟩, ok := some false, stale := true }] }
    shadow := some { sourceText := "", invalidAfter := some .zero }
    phase := .replaying }

/-- A fragment is replayed, the text is edited behind it, an error is reported, and the
fragment that is checked afresh is left without a verdict. -/
def editedPass : List Event :=
  [.fold (.progress { stage := .fragmentOk, ranges := some ⟨inputFileName, ⟨1, 0⟩, ⟨1, 2⟩⟩ }),
   .textChanged "ab\ncX",
   .fold (.diagnostics [{ level := "error", message := "bad", ranges := [] }]),
   .fold (.progress { stage := .fragmentStarted, ranges := some ⟨inputFileName, ⟨2, 0⟩, ⟨2, 2⟩⟩ })]

theorem editedPass_outcome :
    (new none "ab\ncd").context = brokenOff.context ∧
    (∀ e ∈ editedPass, e.isInner = true) ∧
    ((new none "ab\ncd").run (wholePass (.progress { stage := .started })
      (.progress { stage := .finished }) editedPass)).live.fragments =
        [{ range := ⟨⟨0, 0⟩, ⟨0, 2⟩⟩, ok := some true }] ∧
    (brokenOff.run (wholePass (.progress { stage := .started })
      (.progress { stage := .finished }) editedPass)).live.fragments =
        [{ range := ⟨⟨0, 0⟩, ⟨0, 2⟩⟩, ok := some true }] ∧
    (brokenOff.run (wholePass (.progress { stage := .started })
      (.progress { stage := .finished }) editedPass)).live.diagnostics.map Diagnostic.message =
        ["bad"] := by
  have hcontext : (new none "ab\ncd").context = brokenOff.context := rfl
  have hstart : (StreamMessage.progress { stage := .started }).isStarted = true := rfl
  have hfinish : (StreamMessage.progress { stage := .finished }).isFinished = true := rfl
  have hinner : ∀ e ∈ editedPass, e.isInner = true := by decide
  obtain ⟨hfragments, hdiagnostics, -, -, hreported⟩ := pass_outcome hcontext hstart hfinish hinner
  refine ⟨hcontext, hinner, by decide, ?_, ?_⟩
  · rw [← hfragments]
    decide
  · rw [← hdiagnostics, hreported]
    decide

end ResultModel

end VerifierClient

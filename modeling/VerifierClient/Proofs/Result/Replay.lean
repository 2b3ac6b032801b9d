import VerifierClient.Proofs.Result.PassOutcome
import VerifierClient.Result.Merge

/-!
# Replays do not show

While a sequence replays cached fragments, its results are gathered in a shadow set and
what is published stays as it was. A shadow set can be trusted with this because it
exists in a replay only, and only beside a live set that has fragments: otherwise a
verdict could close a fragment of the live set, and a second start would wipe that set.

* `step_shaded`, `run_shaded` — a shadow set exists only under these conditions;
* `step_shown`, `run_shown` — messages of a replay leave the live set alone;
* `shown_fixed_in_replay` — so all that is published stays the same.
-/

namespace VerifierClient

/-- The message neither ends the sequence nor starts a fragment with a known range. -/
def StreamMessage.isReplay : StreamMessage → Bool
  | .progress p =>
    match p.stage with
    | .finished => false
    | .fragmentStarted => p.range.isNone
    | _ => true
  | _ => true

-- ---------------------------------------------------------------------------
-- What is published
-- ---------------------------------------------------------------------------

namespace ResultModel

/-- What diagnostics and status are made from. -/
def shown (m : ResultModel) : PassResults × Option String := (m.live, m.document)

end ResultModel

section Merged

variable {strict strict' : ResultModel} {lax lax' : Option ResultModel}

theorem mergedDiagnostics_of_shown (hstrict : strict'.shown = strict.shown)
    (hlax : lax'.map ResultModel.shown = lax.map ResultModel.shown) :
    mergedDiagnostics strict' lax' = mergedDiagnostics strict lax := by
  obtain ⟨hlive, hdocument⟩ := Prod.mk.inj hstrict
  have hdiagnostics : strict'.diagnostics = strict.diagnostics := by
    rw [ResultModel.diagnostics, hlive, hdocument, ResultModel.diagnostics]
  match lax, lax', hlax with
  | none, none, _ => exact hdiagnostics
  | some lax, some lax', hlax =>
    obtain ⟨hlive', hdocument'⟩ := Prod.mk.inj (Option.some.inj hlax)
    have hlight : lax'.diagnostics = lax.diagnostics := by
      rw [ResultModel.diagnostics, hlive', hdocument', ResultModel.diagnostics]
    simp only [mergedDiagnostics, hdiagnostics, hlight, hlive]

theorem mergedStatus_of_shown (hstrict : strict'.shown = strict.shown)
    (hlax : lax'.map ResultModel.shown = lax.map ResultModel.shown)
    (startedTo : Option Position) :
    mergedStatus strict' lax' startedTo = mergedStatus strict lax startedTo := by
  have hlive := (Prod.mk.inj hstrict).1
  have hstarted : startedStatus strict' startedTo = startedStatus strict startedTo := by
    simp only [startedStatus, hlive]
  match lax, lax', hlax with
  | none, none, _ => simp only [mergedStatus, hlive, hstarted]
  | some lax, some lax', hlax =>
    have hlive' := (Prod.mk.inj (Option.some.inj hlax)).1
    simp only [mergedStatus, lightStatus, hlive, hlive', hstarted]

end Merged

namespace ResultModel

variable {m : ResultModel}

-- ---------------------------------------------------------------------------
-- When there is a shadow set
-- ---------------------------------------------------------------------------

/-- A shadow set exists in a replay only, beside a live set that has fragments. -/
def Shaded (m : ResultModel) : Prop :=
  m.shadow ≠ none → m.phase = .replaying ∧ m.live.fragments ≠ []

theorem Shaded.of_none (h : m.shadow = none) : m.Shaded := absurd h

theorem Shaded.shadow_eq_none (hm : m.Shaded) (hphase : m.phase ≠ .replaying) :
    m.shadow = none := by
  by_contra hshadow
  exact hphase (hm hshadow).1

theorem Shaded.staged (hm : m.Shaded) : m.Staged :=
  fun hphase => hm.shadow_eq_none (by simp [hphase])

theorem updateActive_phase (f : PassResults → PassResults) :
    (m.updateActive f).phase = m.phase := by
  unfold updateActive
  split <;> rfl

theorem updateActive_shown (h : m.shadow ≠ none) (f : PassResults → PassResults) :
    (m.updateActive f).shown = m.shown ∧ (m.updateActive f).shadow ≠ none := by
  unfold updateActive
  split
  next => exact ⟨rfl, Option.some_ne_none _⟩
  next hnone => exact absurd hnone h

theorem updateActive_shaded (hm : m.Shaded) (f : PassResults → PassResults) :
    (m.updateActive f).Shaded := by
  by_cases hshadow : m.shadow = none
  · refine .of_none ?_
    rw [updateActive_of_none hshadow]
    exact hshadow
  · obtain ⟨hshown, -⟩ := updateActive_shown hshadow f
    obtain ⟨hphase, hfragments⟩ := hm hshadow
    intro _
    rw [updateActive_phase, (Prod.mk.inj hshown).1]
    exact ⟨hphase, hfragments⟩

theorem invalidate_shaded (hm : m.Shaded) (pos : Position) : (m.invalidate pos).Shaded := by
  intro hshadow
  obtain ⟨hphase, hfragments⟩ := hm fun hnone => hshadow (by simp [invalidate, hnone])
  refine ⟨hphase, ?_⟩
  simpa [invalidate, PassResults.invalidate] using hfragments

theorem sequenceStarted_shaded : m.sequenceStarted.Shaded := by
  unfold sequenceStarted
  split
  next => exact .of_none rfl
  next hfragments => exact fun _ => ⟨rfl, by simpa using hfragments⟩

theorem fragmentStarted_shadow (hm : m.Shaded) (range : Range) :
    (m.fragmentStarted (some range)).shadow = none :=
  leaveReplay_shadow hm.staged range.start

theorem verdict_shaded (hm : m.Shaded) (range : Option Range) (ok lax : Bool)
    (digest : Option String) : (m.verdict range ok lax digest).Shaded := by
  unfold verdict
  split
  · exact updateActive_shaded hm _
  · cases range with
    | none => exact hm
    | some range => exact updateActive_shaded hm _

theorem progress_shaded (hm : m.Shaded) (p : Progress) : (m.progress p).Shaded := by
  unfold progress
  cases p.stage with
  | started => exact sequenceStarted_shaded
  | fragmentStarted =>
    cases p.range with
    | none => exact hm
    | some range => exact .of_none (fragmentStarted_shadow hm range)
  | fragmentOk => exact verdict_shaded hm _ _ _ _
  | fragmentLaxOk => exact verdict_shaded hm _ _ _ _
  | fragmentFailed => exact verdict_shaded hm _ _ _ _
  | finished => exact .of_none (promote_shadow _)
  | other => exact hm

theorem step_shaded (hm : m.Shaded) (e : Event) : (m.step e).Shaded := by
  cases e with
  | requestIssued text =>
    simp only [step, requestIssued]
    split <;> exact hm
  | textChanged text =>
    simp only [step, textChanged]
    split
    · exact invalidate_shaded hm _
    · exact hm
  | invalidate pos => exact invalidate_shaded hm pos
  | fold message =>
    cases message with
    | progress p => exact progress_shaded hm p
    | proofState s =>
      simp only [step, fold]
      split
      · exact hm
      · exact updateActive_shaded hm _
    | diagnostics errors => exact updateActive_shaded hm _
    | notice n => exact updateActive_shaded hm _
  | notice n => exact updateActive_shaded hm _
  | channelExited =>
    simp only [step, channelExited]
    split
    · exact hm
    · exact .of_none (promote_shadow _)

theorem run_shaded (hm : m.Shaded) (es : List Event) : (m.run es).Shaded := by
  induction es generalizing m with
  | nil => exact hm
  | cons e es ih => exact ih (step_shaded hm e)

-- ---------------------------------------------------------------------------
-- Messages of a replay
-- ---------------------------------------------------------------------------

/-- Messages of a replay, and notices about ordinary queries. -/
def Event.isReplay : Event → Bool
  | .fold message => message.isReplay
  | .notice _ => true
  | _ => false

section Replay

variable (hm : m.Shaded) (hshadow : m.shadow ≠ none)

include hm hshadow

/-- A start during a replay begins a new shadow set. -/
theorem sequenceStarted_shown :
    m.sequenceStarted.shown = m.shown ∧ m.sequenceStarted.shadow ≠ none := by
  have hfragments : ¬ m.live.fragments.isEmpty = true := by simpa using (hm hshadow).2
  unfold sequenceStarted
  simp only [hfragments]
  exact ⟨rfl, Option.some_ne_none _⟩

/-- A verdict during a replay adds a fragment to the shadow set. -/
theorem verdict_shown (range : Option Range) (ok lax : Bool) (digest : Option String) :
    (m.verdict range ok lax digest).shown = m.shown ∧
      (m.verdict range ok lax digest).shadow ≠ none := by
  have hphase : ¬ (m.phase ≠ .replaying ∧ m.active.hasOpenFragment = true) :=
    fun h => h.1 (hm hshadow).1
  unfold verdict
  rw [if_neg hphase]
  cases range with
  | none => exact ⟨rfl, hshadow⟩
  | some range => exact updateActive_shown hshadow _

theorem progress_shown {p : Progress} (hreplay : (StreamMessage.progress p).isReplay = true) :
    (m.progress p).shown = m.shown ∧ (m.progress p).shadow ≠ none := by
  unfold progress
  unfold StreamMessage.isReplay at hreplay
  cases hstage : p.stage with
  | started => exact sequenceStarted_shown hm hshadow
  | fragmentStarted =>
    simp only [hstage, Option.isNone_iff_eq_none] at hreplay
    simp only [hreplay, fragmentStarted]
    exact ⟨trivial, hshadow⟩
  | fragmentOk => exact verdict_shown hm hshadow ..
  | fragmentLaxOk => exact verdict_shown hm hshadow ..
  | fragmentFailed => exact verdict_shown hm hshadow ..
  | finished => simp [hstage] at hreplay
  | other => exact ⟨rfl, hshadow⟩

theorem step_shown {e : Event} (hreplay : e.isReplay = true) :
    (m.step e).shown = m.shown ∧ (m.step e).shadow ≠ none := by
  cases e with
  | fold message =>
    cases message with
    | progress p => exact progress_shown hm hshadow hreplay
    | proofState s =>
      simp only [step, fold]
      split
      · exact ⟨rfl, hshadow⟩
      · exact updateActive_shown hshadow _
    | diagnostics errors => exact updateActive_shown hshadow _
    | notice n => exact updateActive_shown hshadow _
  | notice n => exact updateActive_shown hshadow _
  | _ => cases hreplay

theorem run_shown {es : List Event} (hreplay : ∀ e ∈ es, e.isReplay = true) :
    (m.run es).shown = m.shown ∧ (m.run es).shadow ≠ none := by
  induction es generalizing m with
  | nil => exact ⟨rfl, hshadow⟩
  | cons e es ih =>
    obtain ⟨hshown, hshadow'⟩ := step_shown hm hshadow (hreplay e List.mem_cons_self)
    obtain ⟨hrun, hkept⟩ := ih (step_shaded hm e) hshadow'
      fun e he => hreplay e (List.mem_cons_of_mem _ he)
    exact ⟨hrun.trans hshown, hkept⟩

end Replay

-- ---------------------------------------------------------------------------
-- All runs
-- ---------------------------------------------------------------------------

/-- As long as a shadow set exists and only messages of a replay and notices come, the
live set stays as it is, and so do the diagnostics, the verified and the covered part,
and all that is published, be it the model of the strict verifier or of the lax one. -/
theorem shown_fixed_in_replay {document : Option String} {text : String} {past es : List Event}
    {m m' : ResultModel} (hm : (new document text).run past = m) (hm' : m.run es = m')
    (hshadow : m.shadow ≠ none) (hreplay : ∀ e ∈ es, e.isReplay = true) :
    m'.live = m.live ∧ m'.diagnostics = m.diagnostics ∧
    m'.live.verifiedTo = m.live.verifiedTo ∧ m'.live.coveredTo = m.live.coveredTo ∧
    (∀ lax, mergedDiagnostics m' lax = mergedDiagnostics m lax) ∧
    (∀ strict, mergedDiagnostics strict (some m') = mergedDiagnostics strict (some m)) ∧
    (∀ lax startedTo, mergedStatus m' lax startedTo = mergedStatus m lax startedTo) ∧
    (∀ strict startedTo,
      mergedStatus strict (some m') startedTo = mergedStatus strict (some m) startedTo) ∧
    m'.shadow ≠ none := by
  have hshaded : m.Shaded := hm ▸ run_shaded (.of_none rfl) past
  obtain ⟨hshown, hkept⟩ := run_shown hshaded hshadow hreplay
  rw [hm'] at hshown hkept
  obtain ⟨hlive, hdocument⟩ := Prod.mk.inj hshown
  have hsome : (some m').map shown = (some m).map shown := congrArg some hshown
  refine ⟨hlive, ?_, by rw [hlive], by rw [hlive], ?_, ?_, ?_, ?_, hkept⟩
  · rw [diagnostics, hlive, hdocument, diagnostics]
  · exact fun lax => mergedDiagnostics_of_shown hshown rfl
  · exact fun strict => mergedDiagnostics_of_shown rfl hsome
  · exact fun lax startedTo => mergedStatus_of_shown hshown rfl startedTo
  · exact fun strict startedTo => mergedStatus_of_shown rfl hsome startedTo

/-- A pass that verified a line, and the start of a second one. -/
def secondPass : List Event :=
  [.requestIssued "ab\ncd",
   .fold (.progress { stage := .started }),
   .fold (.progress { stage := .fragmentStarted, ranges := some ⟨inputFileName, ⟨1, 0⟩, ⟨1, 2⟩⟩ }),
   .fold (.progress { stage := .fragmentOk }),
   .fold (.progress { stage := .finished }),
   .requestIssued "ab\ncd",
   .fold (.progress { stage := .started })]

/-- The replay fails the line, reports an error, starts again and names no range. -/
def failingReplay : List Event :=
  [.fold (.progress { stage := .fragmentFailed, ranges := some ⟨inputFileName, ⟨1, 0⟩, ⟨1, 2⟩⟩ }),
   .fold (.diagnostics [{ level := "error", message := "bad" }]),
   .fold (.progress { stage := .started }),
   .fold (.progress { stage := .fragmentStarted }),
   .fold (.progress { stage := .fragmentOk }),
   .notice { severity := .warning, message := "slow", range := none }]

/-- The line is shown as verified all along. -/
theorem failingReplay_unseen :
    ((new none "ab\ncd").run secondPass).shadow ≠ none ∧
    (∀ e ∈ failingReplay, e.isReplay = true) ∧
    (((new none "ab\ncd").run secondPass).run failingReplay).live.verifiedTo = ⟨0, 2⟩ ∧
    mergedStatus (((new none "ab\ncd").run secondPass).run failingReplay) none none =
      [⟨⟨⟨0, 0⟩, ⟨0, 2⟩⟩, .ok⟩] := by
  have hshadow : ((new none "ab\ncd").run secondPass).shadow ≠ none := by decide
  have hreplay : ∀ e ∈ failingReplay, e.isReplay = true := by decide
  obtain ⟨-, -, hverified, -, -, -, hstatus, -⟩ := shown_fixed_in_replay rfl rfl hshadow hreplay
  refine ⟨hshadow, hreplay, ?_, ?_⟩
  · rw [hverified]
    decide
  · rw [hstatus]
    decide +kernel

end ResultModel

end VerifierClient

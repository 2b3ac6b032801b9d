import VerifierClient.Result.Model

/-!
# What a model does to its result sets

A model holds a live set of results and at times a shadow set. Whatever comes
from the verifier changes them in few ways: a fragment is added, gets its verdict
or is dropped, and reports are added or carried over. A property that survives
these is kept by every message, so an invariant of the sets is shown for the four
of them and not for the messages.

* `KeptByReports` — the property survives all four;
* `fold_sets`, `channelExited_sets` — then it survives every message and the end
  of the verifier.
-/

namespace VerifierClient

/-- A property of result sets that does not depend on the reports in them, and
survives what the verifier does to the fragments. -/
structure PassResults.KeptByReports (P : PassResults → Prop) : Prop where
  addFragment : ∀ r f, f.stale = false → P r → P (r.addFragment f)
  closeFragment : ∀ r ok lax digest, P r → P (r.closeFragment ok lax digest)
  prune : ∀ r, P r → P r.prune
  report : ∀ r diagnostics proofStates notices, P r →
    P { r with diagnostics, proofStates, notices }

/-- Whether the message starts a sequence. -/
def StreamMessage.isStarted : StreamMessage → Bool
  | .progress p => p.stage == .started
  | _ => false

namespace ResultModel

open PassResults (KeptByReports)

/-- The live set, and the shadow set if there is one. -/
def sets (m : ResultModel) : List PassResults := m.live :: m.shadow.toList

theorem mem_sets {m : ResultModel} {r : PassResults} :
    r ∈ m.sets ↔ r = m.live ∨ m.shadow = some r := by
  simp [sets]

theorem live_mem_sets (m : ResultModel) : m.live ∈ m.sets := mem_sets.2 (.inl rfl)

/-- The set that a sequence starts with. -/
def freshSet (m : ResultModel) : PassResults :=
  { sourceText := m.inFlightText.getD m.lastSent
    invalidAfter := Text.editPosition (m.inFlightText.getD m.lastSent) m.currentText }

variable {P : PassResults → Prop} {m : ResultModel}

-- ---------------------------------------------------------------------------
-- Steps of a sequence
-- ---------------------------------------------------------------------------

theorem updateActive_sets {f : PassResults → PassResults} (hf : ∀ r, P r → P (f r))
    (hm : ∀ r ∈ m.sets, P r) : ∀ r ∈ (m.updateActive f).sets, P r := by
  intro r hr
  unfold updateActive at hr
  split at hr
  next shadow hshadow =>
    rcases mem_sets.1 hr with rfl | heq
    · exact hm _ m.live_mem_sets
    · cases heq
      exact hf _ (hm _ (mem_sets.2 (.inr hshadow)))
  next hshadow =>
    rcases mem_sets.1 hr with rfl | heq
    · exact hf _ (hm _ m.live_mem_sets)
    · simp [hshadow] at heq

theorem promote_sets (hP : KeptByReports P) (keep : PassResults → Position → Bool)
    (hm : ∀ r ∈ m.sets, P r) : ∀ r ∈ (m.promote keep).sets, P r := by
  intro r hr
  unfold promote at hr
  split at hr
  next shadow hshadow =>
    rcases mem_sets.1 hr with rfl | heq
    · exact hP.report shadow _ _ _ (hm _ (mem_sets.2 (.inr hshadow)))
    · cases heq
  next => exact hm r hr

theorem sequenceStarted_sets (hm : ∀ r ∈ m.sets, P r) (hfresh : P m.freshSet) :
    ∀ r ∈ m.sequenceStarted.sets, P r := by
  intro r hr
  unfold sequenceStarted at hr
  split at hr
  next =>
    rcases mem_sets.1 hr with rfl | heq
    · exact hfresh
    · cases heq
  next =>
    rcases mem_sets.1 hr with rfl | heq
    · exact hm _ m.live_mem_sets
    · cases heq
      exact hfresh

theorem sequenceFinished_sets (hP : KeptByReports P) (hm : ∀ r ∈ m.sets, P r) :
    ∀ r ∈ m.sequenceFinished.sets, P r := by
  have hpromote := promote_sets hP
    (fun shadow pos => decide (PassResults.endOf shadow.fragments ≤ pos)) hm
  intro r hr
  rcases mem_sets.1 hr with rfl | heq
  · exact hP.prune _ (hpromote _ (live_mem_sets _))
  · exact hpromote _ (mem_sets.2 (.inr heq))

theorem leaveReplay_sets (hP : KeptByReports P) (start : Position) (hm : ∀ r ∈ m.sets, P r) :
    ∀ r ∈ (m.leaveReplay start).sets, P r := by
  unfold leaveReplay
  split
  · exact hm
  · exact promote_sets hP _ hm

theorem fragmentStarted_sets (hP : KeptByReports P) (range : Option Range)
    (hm : ∀ r ∈ m.sets, P r) : ∀ r ∈ (m.fragmentStarted range).sets, P r := by
  cases range with
  | none => exact hm
  | some range =>
    have hleave := leaveReplay_sets hP range.start hm
    intro r hr
    rcases mem_sets.1 hr with rfl | heq
    · exact hP.addFragment _ _ rfl (hleave _ (live_mem_sets _))
    · exact hleave _ (mem_sets.2 (.inr heq))

theorem verdict_sets (hP : KeptByReports P) (range : Option Range) (ok lax : Bool)
    (digest : Option String) (hm : ∀ r ∈ m.sets, P r) :
    ∀ r ∈ (m.verdict range ok lax digest).sets, P r := by
  unfold verdict
  split
  · exact updateActive_sets (fun r => hP.closeFragment r ok lax digest) hm
  · cases range with
    | none => exact hm
    | some range => exact updateActive_sets (fun r => hP.addFragment r _ rfl) hm

-- ---------------------------------------------------------------------------
-- Messages
-- ---------------------------------------------------------------------------

theorem progress_sets (hP : KeptByReports P) (p : Progress) (hm : ∀ r ∈ m.sets, P r)
    (hfresh : p.stage = .started → P m.freshSet) : ∀ r ∈ (m.progress p).sets, P r := by
  unfold progress
  split
  next h => exact sequenceStarted_sets hm (hfresh h)
  next => exact fragmentStarted_sets hP p.range hm
  next => exact verdict_sets hP p.range true false p.digest hm
  next => exact verdict_sets hP p.range true true p.digest hm
  next => exact verdict_sets hP p.range false false none hm
  next => exact sequenceFinished_sets hP hm
  next => exact hm

theorem addNotice_sets (hP : KeptByReports P) (n : Notice) (hm : ∀ r ∈ m.sets, P r) :
    ∀ r ∈ (m.addNotice n).sets, P r :=
  updateActive_sets (fun r => hP.report r r.diagnostics r.proofStates _) hm

/-- Every message keeps the property; a message that starts a sequence adds a set
of its own. -/
theorem fold_sets (hP : KeptByReports P) (message : StreamMessage) (hm : ∀ r ∈ m.sets, P r)
    (hfresh : message.isStarted = true → P m.freshSet) : ∀ r ∈ (m.fold message).sets, P r := by
  cases message with
  | progress p => exact progress_sets hP p hm fun h => hfresh (by simp [StreamMessage.isStarted, h])
  | proofState s =>
    rw [fold]
    split
    · exact hm
    · exact updateActive_sets (fun r => hP.report r r.diagnostics _ r.notices) hm
  | diagnostics errors =>
    exact updateActive_sets (fun r => hP.report r _ r.proofStates r.notices) hm
  | notice n => exact addNotice_sets hP n hm

theorem channelExited_sets (hP : KeptByReports P) (hm : ∀ r ∈ m.sets, P r) :
    ∀ r ∈ m.channelExited.sets, P r := by
  unfold channelExited
  split
  · exact hm
  · exact sequenceFinished_sets hP hm

theorem requestIssued_sets (text : String) (hm : ∀ r ∈ m.sets, P r) :
    ∀ r ∈ (m.requestIssued text).sets, P r := by
  dsimp only [requestIssued]
  split <;> exact hm

/-- An edit reaches both sets. -/
theorem invalidate_sets {Q : PassResults → Prop} (pos : Position)
    (h : ∀ r, P r → Q (r.invalidate pos)) (hm : ∀ r ∈ m.sets, P r) :
    ∀ r ∈ (m.invalidate pos).sets, Q r := by
  intro r hr
  rcases mem_sets.1 hr with rfl | heq
  · exact h _ (hm _ m.live_mem_sets)
  · obtain ⟨shadow, hshadow, rfl⟩ := Option.map_eq_some_iff.1 heq
    exact h _ (hm _ (mem_sets.2 (.inr hshadow)))

-- ---------------------------------------------------------------------------
-- Texts
-- ---------------------------------------------------------------------------

/-- The text sent last and the editor's text. -/
def texts (m : ResultModel) : String × String := (m.lastSent, m.currentText)

@[simp] theorem updateActive_texts (f : PassResults → PassResults) :
    (m.updateActive f).texts = m.texts := by
  unfold updateActive
  split <;> rfl

@[simp] theorem promote_texts (keep : PassResults → Position → Bool) :
    (m.promote keep).texts = m.texts := by
  unfold promote
  split <;> rfl

@[simp] theorem sequenceStarted_texts : m.sequenceStarted.texts = m.texts := by
  unfold sequenceStarted
  split <;> rfl

@[simp] theorem sequenceFinished_texts : m.sequenceFinished.texts = m.texts :=
  promote_texts _

@[simp] theorem fragmentStarted_texts (range : Option Range) :
    (m.fragmentStarted range).texts = m.texts := by
  cases range with
  | none => rfl
  | some range =>
    show (m.leaveReplay range.start).texts = m.texts
    unfold leaveReplay
    split
    · rfl
    · exact promote_texts _

@[simp] theorem verdict_texts (range : Option Range) (ok lax : Bool) (digest : Option String) :
    (m.verdict range ok lax digest).texts = m.texts := by
  unfold verdict
  split
  · exact updateActive_texts _
  · cases range with
    | none => rfl
    | some range => exact updateActive_texts _

/-- Messages change neither of the two. -/
theorem fold_texts (message : StreamMessage) : (m.fold message).texts = m.texts := by
  cases message with
  | progress p =>
    simp only [fold, progress]
    split <;> simp
  | proofState s =>
    simp only [fold]
    split <;> simp
  | diagnostics errors => simp [fold]
  | notice n => simp [fold, addNotice]

theorem channelExited_texts : m.channelExited.texts = m.texts := by
  unfold channelExited
  split
  · rfl
  · exact sequenceFinished_texts

end ResultModel

end VerifierClient

import Mathlib.Data.List.Forall2
import Mathlib.Data.List.TakeWhile
import VerifierClient.Proofs.Result.PassOutcome

/-!
# The edit frontier

The earliest edit that a set of results has recorded is its frontier: the stale
fragments are those that reach past it, and what is shown as verified or covered
ends before it. Flags are written when a fragment is added and when an edit comes
in, while the frontier moves with edits only, is reset with every sequence and
goes along with its set when that is promoted.

* `run_flagsExact` — in every reachable state both sets have exact flags;
* `FlagsExact.endOf_current_le` — leading current fragments end at the frontier or
  before it;
* `fold_frontier` — messages inside of a sequence and at its end do not move the
  frontier;
* `stale_iff_past_edit` — the result for all runs.
-/

namespace VerifierClient

theorem Position.zero_le (p : Position) : zero ≤ p := by
  rw [le_iff]
  simp only [zero]
  omega

namespace PassResults

variable {r : PassResults} {p : Position}

theorem isPastEdit_iff {range : Range} :
    r.isPastEdit range = true ↔ ∃ p, r.invalidAfter = some p ∧ p < range.stop := by
  unfold isPastEdit Range.extendsPast
  cases r.invalidAfter <;> simp

/-- What is not stale ends at the frontier or before it. -/
theorem FlagsExact.stop_le (hr : r.FlagsExact) (hp : r.invalidAfter = some p) {f : Fragment}
    (hf : f ∈ r.fragments) (hcurrent : f.stale = false) : f.range.stop ≤ p := by
  rw [hr f hf, isPastEdit, hp] at hcurrent
  exact Position.not_lt.1 (of_decide_eq_false hcurrent)

theorem endOf_le {fragments : List Fragment} (h : ∀ f ∈ fragments, f.range.stop ≤ p) :
    endOf fragments ≤ p := by
  unfold endOf
  cases hlast : fragments.getLast? with
  | none => exact p.zero_le
  | some f => exact h f (List.mem_of_getLast? hlast)

/-- Leading fragments none of which is stale end at the frontier or before it. -/
theorem FlagsExact.endOf_current_le (hr : r.FlagsExact) (hp : r.invalidAfter = some p)
    {shown : Fragment → Bool} (hshown : ∀ f, shown f = true → f.stale = false) :
    endOf (r.fragments.takeWhile shown) ≤ p := by
  apply endOf_le
  intro f hf
  have hcurrent := hshown f (List.mem_takeWhile_imp hf)
  exact hr.stop_le hp (List.takeWhile_subset _ hf) hcurrent

/-- The fragments that end at `p` or before it are the same in `r'` as in `r`. -/
def UntouchedBefore (p : Position) (r r' : PassResults) : Prop :=
  ∀ (i : Nat) (f : Fragment), r.fragments[i]? = some f → f.range.stop ≤ p →
    r'.fragments[i]? = some f

theorem invalidate_untouched (r : PassResults) (p : Position) :
    UntouchedBefore p r (r.invalidate p) := by
  intro i f hf hstop
  have hpast : f.range.extendsPast p = false := decide_eq_false (Position.not_lt.2 hstop)
  simp [invalidate, hf, hpast]

end PassResults

namespace ResultModel

variable {m : ResultModel}

-- ---------------------------------------------------------------------------
-- Flags
-- ---------------------------------------------------------------------------

/-- Where an event records an edit, if it does. -/
def Event.editAt? (m : ResultModel) : Event → Option Position
  | .invalidate pos => some pos
  | .textChanged text => m.editPosition text
  | _ => none

theorem step_flagsExact (hm : ∀ r ∈ m.sets, r.FlagsExact) (e : Event) :
    ∀ r ∈ (m.step e).sets, r.FlagsExact := by
  have hkept := PassResults.flagsExact_kept
  cases e with
  | requestIssued text => exact requestIssued_sets text hm
  | textChanged text =>
    simp only [step, textChanged]
    split
    · exact invalidate_sets _ (fun r hr => hr.invalidate _) hm
    · exact hm
  | invalidate pos => exact invalidate_sets pos (fun r hr => hr.invalidate pos) hm
  | fold message => exact fold_sets hkept message hm fun _ _ hf => absurd hf List.not_mem_nil
  | notice n => exact addNotice_sets hkept n hm
  | channelExited => exact channelExited_sets hkept hm

theorem run_flagsExact (document : Option String) (text : String) (es : List Event) :
    ∀ r ∈ ((new document text).run es).sets, r.FlagsExact := by
  have hrun : ∀ m : ResultModel, (∀ r ∈ m.sets, r.FlagsExact) →
      ∀ r ∈ (m.run es).sets, r.FlagsExact := by
    induction es with
    | nil => exact fun m hm => hm
    | cons e es ih => exact fun m hm => ih (m.step e) (step_flagsExact hm e)
  apply hrun
  intro r hr f hf
  rcases mem_sets.1 hr with rfl | hshadow
  · exact absurd hf List.not_mem_nil
  · cases hshadow

/-- An edit is recorded in both sets. -/
theorem step_edit_sets {e : Event} {pos : Position} (h : e.editAt? m = some pos) :
    (m.step e).sets = m.sets.map fun r => r.invalidate pos := by
  cases e with
  | textChanged text =>
    have hpos : m.editPosition text = some pos := h
    simp only [step, textChanged, hpos]
    simp [sets, invalidate, Option.toList_map]
  | invalidate pos' =>
    cases h
    simp [step, sets, invalidate, Option.toList_map]
  | _ => cases h

-- ---------------------------------------------------------------------------
-- The frontier of the set that results go to
-- ---------------------------------------------------------------------------

theorem active_mem_sets : m.active ∈ m.sets := by
  rw [mem_sets, active]
  cases h : m.shadow <;> simp

theorem frontier_kept (frontier : Option Position) :
    PassResults.KeptByReports fun r => r.invalidAfter = frontier where
  addFragment _ _ _ hr := hr
  closeFragment r ok lax digest hr := by
    unfold PassResults.closeFragment
    split <;> exact hr
  prune r hr := by
    unfold PassResults.prune
    split <;> exact hr
  report _ _ _ _ hr := hr

theorem sequenceFinished_frontier :
    m.sequenceFinished.active.invalidAfter = m.active.invalidAfter := by
  have hshadow : m.sequenceFinished.shadow = none := promote_shadow _
  rw [active_of_none hshadow]
  calc m.sequenceFinished.live.invalidAfter
      = m.sequenceFinished.live.findings.invalidAfter := rfl
    _ = m.unshadowed.live.prune.invalidAfter := by rw [sequenceFinished_findings]
    _ = m.active.invalidAfter := (frontier_kept _).prune _ rfl

/-- Messages do not move the frontier, but for the one that starts a sequence. -/
theorem fold_frontier (hm : m.Staged) {message : StreamMessage}
    (hgoing : message.isStarted = false) :
    (m.fold message).active.invalidAfter = m.active.invalidAfter := by
  by_cases hfinished : message.isFinished = true
  · have hfold : m.fold message = m.sequenceFinished := step_of_isFinished hfinished
    rw [hfold, sequenceFinished_frontier]
  · have hinner : message.isInner = true := by simp [StreamMessage.isInner, hgoing, hfinished]
    have hkept : ∀ r ∈ (m.unshadowed.fold message).sets,
        r.invalidAfter = m.active.invalidAfter := by
      refine fold_sets (frontier_kept _) message ?_ ?_
      · intro r hr
        rcases mem_sets.1 hr with rfl | hshadow
        · rfl
        · cases hshadow
      · simp [hgoing]
    calc (m.fold message).active.invalidAfter
        = (m.fold message).unshadowed.live.invalidAfter := rfl
      _ = (m.unshadowed.fold message).unshadowed.live.invalidAfter := by
          rw [fold_unshadowed hm hinner]
      _ = (m.unshadowed.fold message).active.invalidAfter := rfl
      _ = m.active.invalidAfter := hkept _ active_mem_sets

theorem active_of_isStarted {message : StreamMessage} (h : message.isStarted = true) :
    (m.fold message).active = m.freshSet := by
  have hfold : m.fold message = m.sequenceStarted := step_of_isStart (e := .fold message) h
  rw [hfold, sequenceStarted]
  split <;> rfl

-- ---------------------------------------------------------------------------
-- All runs
-- ---------------------------------------------------------------------------

/-- In every reachable state, and in both sets, the stale fragments are those that
reach past the frontier, and what is verified or covered does not. An edit leaves the
fragments before it as they are, and a fragment that a message appends is stale from
the start if it reaches past the frontier of its set. -/
theorem stale_iff_past_edit (document : Option String) (text : String) (es : List Event) :
    (∀ r ∈ ((new document text).run es).sets,
      (∀ f ∈ r.fragments, f.stale = true ↔ ∃ p, r.invalidAfter = some p ∧ p < f.range.stop) ∧
      ∀ p, r.invalidAfter = some p → r.verifiedTo ≤ p ∧ r.coveredTo ≤ p) ∧
    (∀ e pos, e.editAt? ((new document text).run es) = some pos →
      List.Forall₂ (PassResults.UntouchedBefore pos) ((new document text).run es).sets
        ((new document text).run (es ++ [e])).sets) ∧
    (∀ message f, ((new document text).run (es ++ [.fold message])).active.fragments =
        ((new document text).run es).active.fragments ++ [f] →
      (f.stale = true ↔
        ∃ p, ((new document text).run es).active.invalidAfter = some p ∧ p < f.range.stop)) := by
  have hflags := run_flagsExact document text
  refine ⟨?_, ?_, ?_⟩
  · intro r hr
    have hexact := hflags es r hr
    refine ⟨fun f hf => ?_, fun p hp => ⟨?_, ?_⟩⟩
    · rw [hexact f hf, PassResults.isPastEdit_iff]
    · refine hexact.endOf_current_le hp fun f hshown => ?_
      simp only [Bool.and_eq_true, Bool.not_eq_true'] at hshown
      exact hshown.2
    · exact hexact.endOf_current_le hp fun f hshown => by simpa using hshown
  · intro e pos hedit
    have hstep : (new document text).run (es ++ [e]) = ((new document text).run es).step e :=
      run_append ..
    rw [hstep, step_edit_sets hedit, List.forall₂_map_right_iff, List.forall₂_same]
    exact fun r _ => r.invalidate_untouched pos
  · intro message f happended
    have hstaged : ((new document text).run es).Staged := run_staged (fun _ => rfl) es
    have hexact := hflags (es ++ [.fold message]) _ active_mem_sets
    have hstep : (new document text).run (es ++ [.fold message]) =
        ((new document text).run es).fold message := run_append ..
    rw [hstep] at happended hexact
    have hgoing : message.isStarted = false := by
      rw [Bool.eq_false_iff]
      intro hstarted
      rw [active_of_isStarted hstarted] at happended
      simp [freshSet] at happended
    have hf : f ∈ (((new document text).run es).fold message).active.fragments := by
      rw [happended]
      simp
    rw [hexact f hf, PassResults.isPastEdit_iff, fold_frontier hstaged hgoing]

/-- A pass over two lines, and a second one during which the second line is edited. -/
def editDuringReplay : List Event :=
  [.requestIssued "ab\ncd",
   .fold (.progress { stage := .started }),
   .fold (.progress { stage := .fragmentOk, ranges := some ⟨inputFileName, ⟨1, 0⟩, ⟨1, 2⟩⟩ }),
   .fold (.progress { stage := .fragmentOk, ranges := some ⟨inputFileName, ⟨2, 0⟩, ⟨2, 2⟩⟩ }),
   .fold (.progress { stage := .finished }),
   .requestIssued "ab\ncd",
   .fold (.progress { stage := .started }),
   .fold (.progress { stage := .fragmentOk, ranges := some ⟨inputFileName, ⟨1, 0⟩, ⟨1, 2⟩⟩ }),
   .textChanged "ab\ncX"]

/-- Both sets have recorded the edit, and the fragment that is replayed next is stale. -/
theorem editDuringReplay_frontier :
    ((new none "ab\ncd").run editDuringReplay).sets.map PassResults.invalidAfter =
      [some ⟨1, 1⟩, some ⟨1, 1⟩] ∧
    ((new none "ab\ncd").run editDuringReplay).live.verifiedTo ≤ ⟨1, 1⟩ ∧
    List.Forall₂ (PassResults.UntouchedBefore ⟨0, 2⟩)
      ((new none "ab\ncd").run editDuringReplay).sets
      ((new none "ab\ncd").run (editDuringReplay ++ [.invalidate ⟨0, 2⟩])).sets ∧
    ((new none "ab\ncd").run (editDuringReplay ++ [.fold (.progress
        { stage := .fragmentOk, ranges := some ⟨inputFileName, ⟨2, 0⟩, ⟨2, 2⟩⟩ })])).active.fragments =
      ((new none "ab\ncd").run editDuringReplay).active.fragments ++
        [{ range := ⟨⟨1, 0⟩, ⟨1, 2⟩⟩, ok := some true, stale := true }] ∧
    ∃ p, ((new none "ab\ncd").run editDuringReplay).active.invalidAfter = some p ∧
      p < (⟨1, 2⟩ : Position) := by
  obtain ⟨hsets, hedit, hborn⟩ := stale_iff_past_edit none "ab\ncd" editDuringReplay
  have hfrontier : ((new none "ab\ncd").run editDuringReplay).live.invalidAfter = some ⟨1, 1⟩ := by
    decide
  have happended : ((new none "ab\ncd").run (editDuringReplay ++ [.fold (.progress
        { stage := .fragmentOk, ranges := some ⟨inputFileName, ⟨2, 0⟩, ⟨2, 2⟩⟩ })])).active.fragments =
      ((new none "ab\ncd").run editDuringReplay).active.fragments ++
        [{ range := ⟨⟨1, 0⟩, ⟨1, 2⟩⟩, ok := some true, stale := true }] := by
    decide
  refine ⟨by decide, ?_, ?_, happended, ?_⟩
  · exact ((hsets _ (live_mem_sets _)).2 _ hfrontier).1
  · exact hedit (.invalidate ⟨0, 2⟩) ⟨0, 2⟩ rfl
  · exact (hborn _ _ happended).1 rfl

end ResultModel

end VerifierClient

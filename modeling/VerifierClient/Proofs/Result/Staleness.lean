import Mathlib.Tactic.ByContra
import VerifierClient.Proofs.Result.Sets
import VerifierClient.Proofs.Text.Difference

/-!
# Stale fragments

A fragment that is not stale should lie before the first place at which the
editor's text differs from the text that was checked. Edits are compared with the
text sent last, and a sequence that starts is compared with the editor's text, so
four texts are in play: that of the live set, that of the shadow set, the one sent
last, and the editor's.

The relation that holds them together is `PassResults.Covers`: a set has recorded
an edit no later than the place where its text parts from the given one. Every
event keeps it for the text sent last and for the editor's text, with one
exception. When a query waits behind the one in flight, the editor can return to
the older of the two texts before its sequence starts. The set of that sequence
then records no edit, although the text sent last differs from it, and an edit
that leads on to the text sent last goes unnoticed.

* `PassResults.FlagsExact` — the stale fragments are those that reach past the
  earliest recorded edit;
* `step_watched`, `run_watched` — what every event and every run keeps;
* `returned_not_current` — how a sequence that starts after such a return shows a
  fragment as current that was edited;
* `current_iff_no_return` — so the absence of such returns is the exact condition.
-/

namespace VerifierClient

-- ---------------------------------------------------------------------------
-- Flags
-- ---------------------------------------------------------------------------

namespace PassResults

/-- The stale fragments are those that reach past the earliest edit. -/
def FlagsExact (r : PassResults) : Prop := ∀ f ∈ r.fragments, f.stale = r.isPastEdit f.range

theorem isPastEdit_invalidate (r : PassResults) (pos : Position) (range : Range) :
    (r.invalidate pos).isPastEdit range = (r.isPastEdit range || range.extendsPast pos) := by
  unfold isPastEdit invalidate Range.extendsPast
  cases r.invalidAfter with
  | none => simp
  | some p =>
    rw [Bool.eq_iff_iff, Bool.or_eq_true, decide_eq_true_iff, decide_eq_true_iff,
      decide_eq_true_iff]
    exact Position.earlier_lt_iff

theorem flagsExact_kept : KeptByReports FlagsExact where
  addFragment r f hf hr g hg := by
    rcases List.mem_append.1 hg with hg | hg
    · exact hr g hg
    · rw [List.mem_singleton] at hg
      subst hg
      simp only [hf, Bool.false_or]
      rfl
  closeFragment r ok lax digest hr := by
    unfold closeFragment
    split
    next f hf =>
      intro g hg
      rcases List.mem_append.1 hg with hg | hg
      · exact hr g (List.dropLast_subset _ hg)
      · rw [List.mem_singleton] at hg
        subst hg
        exact hr f (List.mem_of_getLast? hf)
    next => exact hr
  prune r hr := by
    unfold prune
    split
    · exact fun g hg => hr g (List.dropLast_subset _ hg)
    · exact hr
  report _ _ _ _ hr := hr

theorem FlagsExact.invalidate {r : PassResults} (hr : r.FlagsExact) (pos : Position) :
    (r.invalidate pos).FlagsExact := by
  intro g hg
  obtain ⟨f, hf, rfl⟩ := List.mem_map.1 hg
  rw [isPastEdit_invalidate, hr f hf]

-- ---------------------------------------------------------------------------
-- Recorded edits
-- ---------------------------------------------------------------------------

/-- Where the text of the set parts from `text`, an edit has been recorded. -/
def Covers (r : PassResults) (text : String) : Prop :=
  ∀ pos, Text.editPosition r.sourceText text = some pos →
    ∃ p, r.invalidAfter = some p ∧ p ≤ pos

theorem covers_self (r : PassResults) : r.Covers r.sourceText := by
  intro pos h
  simp at h

theorem covers_kept (text : String) : KeptByReports fun r => r.Covers text where
  addFragment _ _ _ hr := hr
  closeFragment r ok lax digest hr := by
    unfold closeFragment
    split <;> exact hr
  prune r hr := by
    unfold prune
    split <;> exact hr
  report _ _ _ _ hr := hr

theorem invalidate_invalidAfter_le (r : PassResults) (pos : Position) :
    ∃ p, (r.invalidate pos).invalidAfter = some p ∧ p ≤ pos ∧
      ∀ q, r.invalidAfter = some q → p ≤ q := by
  unfold invalidate
  cases h : r.invalidAfter with
  | none => exact ⟨pos, rfl, pos.le_refl, fun q hq => by cases hq⟩
  | some q =>
    refine ⟨q.earlier pos, rfl, q.earlier_le_right pos, fun q' hq' => ?_⟩
    cases hq'
    exact q.earlier_le_left pos

/-- Recording an edit loses none that was recorded. -/
theorem Covers.invalidate {r : PassResults} {text : String} (hr : r.Covers text)
    (pos : Position) : (r.invalidate pos).Covers text := by
  intro d hd
  obtain ⟨q, hq, hqd⟩ := hr d hd
  obtain ⟨p, hp, -, hpq⟩ := r.invalidate_invalidAfter_le pos
  exact ⟨p, hp, Position.le_trans (hpq q hq) hqd⟩

/-- A set that covers `old` covers what an edit makes of it, once the edit is
recorded. -/
theorem Covers.edit {r : PassResults} {old new : String} (hr : r.Covers old) {pos : Position}
    (hpos : Text.editPosition old new = some pos) : (r.invalidate pos).Covers new := by
  intro d hd
  obtain ⟨p, hp, hppos, hpq⟩ := r.invalidate_invalidAfter_le pos
  rcases Text.editPosition_triangle old hd with ⟨q, hq, hqd⟩ | ⟨q, hq, hqd⟩
  · -- the set parts from `old` already
    obtain ⟨q', hq', hle⟩ := hr q hq
    exact ⟨p, hp, Position.le_trans (hpq q' hq') (Position.le_trans hle hqd)⟩
  · -- the edit itself is what parts them
    rw [hpos] at hq
    cases hq
    exact ⟨p, hp, Position.le_trans hppos hqd⟩

theorem KeptByReports.and {P Q : PassResults → Prop} (hP : KeptByReports P)
    (hQ : KeptByReports Q) : KeptByReports fun r => P r ∧ Q r where
  addFragment r f hf h := ⟨hP.addFragment r f hf h.1, hQ.addFragment r f hf h.2⟩
  closeFragment r ok lax digest h :=
    ⟨hP.closeFragment r ok lax digest h.1, hQ.closeFragment r ok lax digest h.2⟩
  prune r h := ⟨hP.prune r h.1, hQ.prune r h.2⟩
  report r _ _ _ h := ⟨hP.report r _ _ _ h.1, hQ.report r _ _ _ h.2⟩

end PassResults

namespace ResultModel

-- ---------------------------------------------------------------------------
-- Runs
-- ---------------------------------------------------------------------------

/-- Every event of a run happens in a state that suits it. -/
def Along (P : ResultModel → Event → Prop) : ResultModel → List Event → Prop
  | _, [] => True
  | m, e :: es => P m e ∧ Along P (m.step e) es

theorem run_append (m : ResultModel) (past rest : List Event) :
    m.run (past ++ rest) = (m.run past).run rest :=
  List.foldl_append ..

theorem along_append {P : ResultModel → Event → Prop} {m : ResultModel} {past rest : List Event} :
    Along P m (past ++ rest) ↔ Along P m past ∧ Along P (m.run past) rest := by
  induction past generalizing m with
  | nil => simp [Along, run]
  | cons e past ih =>
    simp only [List.cons_append, Along, ih, and_assoc]
    rfl

theorem along_of_split {P : ResultModel → Event → Prop} {m : ResultModel} {es : List Event}
    (h : ∀ past e rest, es = past ++ e :: rest → P (m.run past) e) : Along P m es := by
  induction es generalizing m with
  | nil => trivial
  | cons e es ih =>
    refine ⟨h [] e es rfl, ih fun past e' rest heq => ?_⟩
    exact h (e :: past) e' rest (by rw [heq, List.cons_append])

/-- Whether the event starts a sequence. -/
def Event.isStart : Event → Bool
  | .fold message => message.isStarted
  | _ => false

theorem step_of_isStart {m : ResultModel} {e : Event} (h : e.isStart = true) :
    m.step e = m.sequenceStarted := by
  match e, h with
  | .fold (.progress p), h =>
    have hstage : p.stage = .started := beq_iff_eq.1 h
    simp [step, fold, progress, hstage]

/-- Queries carry the editor's text. -/
def FromEditor (m : ResultModel) : Event → Prop
  | .requestIssued text => text = m.currentText
  | _ => True

/-- Where the text of the sequence to come parts from the text sent last, it has
parted from the editor's text: the editor has not returned to it. -/
def NoReturn (m : ResultModel) : Prop :=
  ∀ pos, Text.editPosition (m.inFlightText.getD m.lastSent) m.lastSent = some pos →
    ∃ p, Text.editPosition (m.inFlightText.getD m.lastSent) m.currentText = some p ∧ p ≤ pos

/-- Sequences start only where the editor has not returned to their text. -/
def StartsUnreturned (m : ResultModel) (e : Event) : Prop := e.isStart = true → m.NoReturn

/-- What the live set shows as current lies before the first place at which the
editor's text differs from the text that was checked. -/
def Current (m : ResultModel) : Prop :=
  ∀ f ∈ m.live.fragments, f.stale = false →
    ∀ pos, Text.editPosition m.live.sourceText m.currentText = some pos → f.range.stop ≤ pos

-- ---------------------------------------------------------------------------
-- What every event keeps
-- ---------------------------------------------------------------------------

/-- Both sets have exact flags and have recorded the edits that lead to the text
sent last and to the editor's text. -/
def Watched (m : ResultModel) : Prop :=
  ∀ r ∈ m.sets, r.FlagsExact ∧ r.Covers m.lastSent ∧ r.Covers m.currentText

theorem new_watched (document : Option String) (text : String) : (new document text).Watched := by
  intro r hr
  rcases mem_sets.1 hr with rfl | h
  · exact ⟨fun _ hf => absurd hf List.not_mem_nil, PassResults.covers_self _,
      PassResults.covers_self _⟩
  · cases h

theorem freshSet_watched {m : ResultModel} (h : m.NoReturn) :
    m.freshSet.FlagsExact ∧ m.freshSet.Covers m.lastSent ∧ m.freshSet.Covers m.currentText :=
  ⟨fun _ hf => absurd hf List.not_mem_nil, h, fun pos hpos => ⟨pos, hpos, pos.le_refl⟩⟩

theorem watched_kept (sent current : String) : PassResults.KeptByReports fun r =>
    r.FlagsExact ∧ r.Covers sent ∧ r.Covers current :=
  PassResults.flagsExact_kept.and
    ((PassResults.covers_kept sent).and (PassResults.covers_kept current))

theorem Watched.of_sets {m m' : ResultModel} (htexts : m'.texts = m.texts)
    (h : ∀ r ∈ m'.sets, r.FlagsExact ∧ r.Covers m.lastSent ∧ r.Covers m.currentText) :
    m'.Watched := by
  obtain ⟨hsent, hcurrent⟩ := Prod.mk.inj htexts
  unfold Watched
  rw [hsent, hcurrent]
  exact h

theorem textChanged_watched {m : ResultModel} (hm : m.Watched) (text : String) :
    (m.textChanged text).Watched := by
  unfold textChanged
  split
  next pos hpos =>
    exact invalidate_sets pos
      (fun r hr => ⟨hr.1.invalidate pos, hr.2.1.invalidate pos, hr.2.1.edit hpos⟩) hm
  next hnone =>
    -- the editor is back at the text sent last, which both sets cover
    obtain rfl : m.lastSent = text := Text.editPosition_eq_none_iff.1 hnone
    exact fun r hr => ⟨(hm r hr).1, (hm r hr).2.1, (hm r hr).2.1⟩

theorem requestIssued_watched {m : ResultModel} (hm : m.Watched) :
    (m.requestIssued m.currentText).Watched := by
  have h : ∀ r ∈ (m.requestIssued m.currentText).sets,
      r.FlagsExact ∧ r.Covers m.currentText ∧ r.Covers m.currentText :=
    requestIssued_sets _ fun r hr => ⟨(hm r hr).1, (hm r hr).2.2, (hm r hr).2.2⟩
  have htexts : (m.requestIssued m.currentText).texts = (m.currentText, m.currentText) := by
    dsimp only [requestIssued]
    split <;> rfl
  obtain ⟨hsent, hcurrent⟩ := Prod.mk.inj htexts
  unfold Watched
  rw [hsent, hcurrent]
  exact h

theorem step_watched {m : ResultModel} {e : Event} (hm : m.Watched) (heditor : FromEditor m e)
    (hstart : StartsUnreturned m e) : (m.step e).Watched := by
  have hkept := watched_kept m.lastSent m.currentText
  cases e with
  | requestIssued text =>
    obtain rfl : text = m.currentText := heditor
    exact requestIssued_watched hm
  | textChanged text => exact textChanged_watched hm text
  | invalidate pos =>
    exact invalidate_sets pos
      (fun r hr => ⟨hr.1.invalidate pos, hr.2.1.invalidate pos, hr.2.2.invalidate pos⟩) hm
  | fold message =>
    exact .of_sets (fold_texts message)
      (fold_sets hkept message hm fun h => freshSet_watched (hstart h))
  | notice n => exact .of_sets (updateActive_texts _) (addNotice_sets hkept n hm)
  | channelExited => exact .of_sets channelExited_texts (channelExited_sets hkept hm)

theorem run_watched {m : ResultModel} {es : List Event} (hm : m.Watched)
    (heditor : Along FromEditor m es) (hstart : Along StartsUnreturned m es) :
    (m.run es).Watched := by
  induction es generalizing m with
  | nil => exact hm
  | cons e es ih => exact ih (step_watched hm heditor.1 hstart.1) heditor.2 hstart.2

theorem Watched.current {m : ResultModel} (hm : m.Watched) : m.Current := by
  intro f hf hstale pos hpos
  obtain ⟨hflags, -, hcurrent⟩ := hm m.live m.live_mem_sets
  obtain ⟨p, hp, hle⟩ := hcurrent pos hpos
  -- the flag says that the fragment does not reach past the recorded edit
  rw [hflags f hf, PassResults.isPastEdit, hp] at hstale
  exact Position.le_trans (Position.not_lt.1 (of_decide_eq_false hstale)) hle

-- ---------------------------------------------------------------------------
-- The exact condition
-- ---------------------------------------------------------------------------

/-- A sequence starts, replays one fragment and ends. -/
def replay (m : ResultModel) (range : Range) : ResultModel :=
  (m.sequenceStarted.verdict (some range) true false none).sequenceFinished

theorem replay_live (m : ResultModel) (range : Range) :
    (m.replay range).live.fragments =
        [{ range, ok := some true, stale := m.freshSet.isPastEdit range }] ∧
      (m.replay range).live.sourceText = m.freshSet.sourceText := by
  unfold replay sequenceStarted
  split <;>
    simp [verdict, updateActive, sequenceFinished, promote, PassResults.carryForward,
      PassResults.prune, PassResults.hasOpenFragment, PassResults.addFragment, freshSet,
      PassResults.isPastEdit]

theorem replay_lastSent (m : ResultModel) (range : Range) :
    (m.replay range).lastSent = m.lastSent := by
  have htexts : (m.replay range).texts = m.texts := by simp [replay]
  exact (Prod.mk.inj htexts).1

/-- Going back to the text sent last is no edit. -/
theorem textChanged_lastSent (m : ResultModel) :
    m.textChanged m.lastSent = { m with currentText := m.lastSent } := by
  simp [textChanged, editPosition]

/-- The events of `replay` after the start, and then the editor takes up `text`. -/
def replayThenEdit (range : Range) (text : String) : List Event :=
  [.fold (.progress { stage := .fragmentOk, ranges := some (range.toExternal inputFileName) }),
   .fold (.progress { stage := .finished }),
   .textChanged text]

theorem run_replayThenEdit (m : ResultModel) (range : Range) (text : String) :
    m.sequenceStarted.run (replayThenEdit range text) = (m.replay range).textChanged text := rfl

theorem replayThenEdit_from_editor (m : ResultModel) (range : Range) (text : String) :
    Along FromEditor m (replayThenEdit range text) :=
  ⟨trivial, trivial, trivial, trivial⟩

theorem replayThenEdit_no_start (range : Range) (text : String) :
    ∀ e ∈ replayThenEdit range text, e.isStart = false := by
  simp [replayThenEdit, Event.isStart, StreamMessage.isStarted]

/-- After a return there is room for a range that ends past the place where the
sequence parts from the text sent last, and is not past a recorded edit. -/
theorem exists_unnoticed_range {m : ResultModel} (hreturn : ¬ m.NoReturn) :
    ∃ pos stop, Text.editPosition m.freshSet.sourceText m.lastSent = some pos ∧ pos < stop ∧
      m.freshSet.isPastEdit ⟨.zero, stop⟩ = false := by
  simp only [NoReturn, not_forall] at hreturn
  obtain ⟨pos, hpos, hnone⟩ := hreturn
  cases h : m.freshSet.invalidAfter with
  | none =>
    refine ⟨pos, ⟨pos.line + 1, 0⟩, hpos, ?_, by simp [PassResults.isPastEdit, h]⟩
    rw [Position.lt_iff]
    simp
  | some p =>
    refine ⟨pos, p, hpos, Position.not_le.1 fun hle => hnone ⟨p, h, hle⟩, ?_⟩
    rw [PassResults.isPastEdit, h]
    exact decide_eq_false (Position.not_lt.2 p.le_refl)

/-- After a return, the sequence can replay a fragment that reaches past the place
where its text parts from the text sent last. When the editor then takes up the
text sent last, no edit is noticed and the fragment stays current. -/
theorem returned_not_current {m : ResultModel} (hreturn : ¬ m.NoReturn) :
    ∃ range, ¬ (m.sequenceStarted.run (replayThenEdit range m.lastSent)).Current := by
  obtain ⟨pos, stop, hpos, hstop, hunnoticed⟩ := exists_unnoticed_range hreturn
  obtain ⟨hfragments, hsource⟩ := replay_live m ⟨.zero, stop⟩
  rw [hunnoticed] at hfragments
  refine ⟨⟨.zero, stop⟩, fun hcurrent => ?_⟩
  have hrun := textChanged_lastSent (m.replay ⟨.zero, stop⟩)
  rw [replay_lastSent] at hrun
  rw [run_replayThenEdit, hrun] at hcurrent
  have hle : stop ≤ pos := by
    refine hcurrent ⟨⟨.zero, stop⟩, some true, false, false, none⟩ ?_ rfl pos ?_
    · rw [hfragments]
      exact List.mem_singleton.2 rfl
    · rw [hsource]
      exact hpos
  exact Position.not_le.2 hstop hle

/-- In runs whose queries carry the editor's text, what the live set shows as
current is current, whatever comes before the next sequence, if and only if no
sequence started after the editor had returned to its text. -/
theorem current_iff_no_return {document : Option String} {text : String} {es : List Event}
    (heditor : Along FromEditor (new document text) es) :
    Along StartsUnreturned (new document text) es ↔
      ∀ past further, past <+: es →
        Along FromEditor ((new document text).run past) further →
        (∀ e ∈ further, e.isStart = false) →
        ((new document text).run (past ++ further)).Current := by
  constructor
  · rintro hstart past further ⟨rest, rfl⟩ hfurther hquiet
    have hpast := (along_append.1 heditor).1
    have hpastStart := (along_append.1 hstart).1
    have hfurtherStart : Along StartsUnreturned ((new document text).run past) further :=
      along_of_split fun before e after heq h => by
        have he : e ∈ further := by simp [heq]
        simp [hquiet e he] at h
    exact (run_watched (new_watched document text) (along_append.2 ⟨hpast, hfurther⟩)
      (along_append.2 ⟨hpastStart, hfurtherStart⟩)).current
  · intro hcurrent
    refine along_of_split fun past e rest heq hstart => ?_
    by_contra hreturn
    obtain ⟨range, hrange⟩ := returned_not_current hreturn
    have hstep : ((new document text).run past).step e =
        ((new document text).run past).sequenceStarted := step_of_isStart hstart
    have hrun : (new document text).run (past ++ [e]) =
        ((new document text).run past).sequenceStarted := by
      rw [run_append, ← hstep]
      rfl
    apply hrange
    rw [← hrun, ← run_append]
    refine hcurrent (past ++ [e]) _ ⟨rest, by simp [heq]⟩ ?_ (replayThenEdit_no_start _ _)
    exact replayThenEdit_from_editor ..

/-- A query waits behind the one in flight, whose sequence starts meanwhile. -/
def queuedEdit : List Event :=
  [.requestIssued "abcdef", .textChanged "abXdef", .requestIssued "abXdef",
   .fold (.progress { stage := .started }),
   .fold (.progress { stage := .fragmentOk, ranges := some ⟨inputFileName, ⟨1, 0⟩, ⟨1, 2⟩⟩ }),
   .textChanged "abcdef"]

theorem queuedEdit_current : Along FromEditor (new none "abcdef") queuedEdit ∧
    ∀ past, past <+: queuedEdit → ((new none "abcdef").run past).Current := by
  have heditor : Along FromEditor (new none "abcdef") queuedEdit :=
    ⟨rfl, trivial, rfl, trivial, trivial, trivial, trivial⟩
  have hunreturned : Along StartsUnreturned (new none "abcdef") queuedEdit := by
    refine ⟨nofun, nofun, nofun, fun _ pos hpos => ⟨pos, hpos, pos.le_refl⟩, nofun, nofun, trivial⟩
  refine ⟨heditor, fun past hpast => ?_⟩
  have h := (current_iff_no_return heditor).1 hunreturned past [] hpast trivial nofun
  rwa [List.append_nil] at h

/-- As before, but the editor returns to the text in flight before its sequence
starts, and takes up the newer text again after a fragment was replayed. -/
def editAfterReturn : List Event :=
  [.requestIssued "abcdef", .textChanged "abXdef", .requestIssued "abXdef", .textChanged "abcdef",
   .fold (.progress { stage := .started }),
   .fold (.progress { stage := .fragmentOk, ranges := some ⟨inputFileName, ⟨1, 0⟩, ⟨1, 6⟩⟩ }),
   .textChanged "abXdef"]

theorem editAfterReturn_not_current : Along FromEditor (new none "abcdef") editAfterReturn ∧
    ¬ ((new none "abcdef").run editAfterReturn).Current := by
  refine ⟨⟨rfl, trivial, rfl, trivial, trivial, trivial, trivial, trivial⟩, fun hcurrent => ?_⟩
  have hle := hcurrent ⟨⟨⟨0, 0⟩, ⟨0, 6⟩⟩, some true, false, false, none⟩ (by decide) rfl ⟨0, 2⟩
    (by decide)
  exact absurd hle (by decide)

end ResultModel

end VerifierClient

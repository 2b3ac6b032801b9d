import Mathlib.Data.List.Induction
import VerifierClient.Proofs.Result.Replay

/-!
# Reports in the order of their arrival

Beside its fragments a pass has reports: diagnostics, proof states and notices. They go to the end
of the live set or of the shadow set, and when the shadow set is promoted, some of the old ones are
put in front of the new ones. Read one behind the other, the two sets therefore never hold a
report twice and never in another order than it came in.

* `Reports`, `received` — the reports of a set, and those that came in;
* `Shift`, `step_shift` — what an event that starts no sequence does to the reports of both sets;
* `step_reports`, `run_reports` — what is held is a subsequence of what came in;
* `run_newest` — what came in since the last start is there, at the end;
* `reports_in_order_of_arrival` — both.
-/

namespace VerifierClient

-- ---------------------------------------------------------------------------
-- Reports
-- ---------------------------------------------------------------------------

/-- What was reported beside the fragments. -/
@[ext] structure Reports where
  diagnostics : List Diagnostic := []
  proofStates : List ProofState := []
  notices : List Notice := []
deriving DecidableEq, Repr

namespace Reports

instance : Append Reports where
  append a b :=
    { diagnostics := a.diagnostics ++ b.diagnostics
      proofStates := a.proofStates ++ b.proofStates
      notices := a.notices ++ b.notices }

variable {a b c d : Reports}

@[simp] theorem append_diagnostics : (a ++ b).diagnostics = a.diagnostics ++ b.diagnostics := rfl

@[simp] theorem append_proofStates : (a ++ b).proofStates = a.proofStates ++ b.proofStates := rfl

@[simp] theorem append_notices : (a ++ b).notices = a.notices ++ b.notices := rfl

@[simp] theorem append_none : a ++ ({} : Reports) = a := by ext1 <;> simp

@[simp] theorem none_append : ({} : Reports) ++ a = a := rfl

theorem append_assoc : a ++ b ++ c = a ++ (b ++ c) := by ext1 <;> simp

/-- Every list of `a` is a subsequence of the one in `b`. -/
structure Within (a b : Reports) : Prop where
  diagnostics : a.diagnostics.Sublist b.diagnostics
  proofStates : a.proofStates.Sublist b.proofStates
  notices : a.notices.Sublist b.notices

theorem Within.refl (a : Reports) : a.Within a := ⟨.refl _, .refl _, .refl _⟩

theorem Within.trans (hab : a.Within b) (hbc : b.Within c) : a.Within c :=
  ⟨hab.diagnostics.trans hbc.diagnostics, hab.proofStates.trans hbc.proofStates,
    hab.notices.trans hbc.notices⟩

theorem Within.append (hac : a.Within c) (hbd : b.Within d) : (a ++ b).Within (c ++ d) :=
  ⟨hac.diagnostics.append hbd.diagnostics, hac.proofStates.append hbd.proofStates,
    hac.notices.append hbd.notices⟩

theorem none_within (a : Reports) : Within {} a :=
  ⟨List.nil_sublist _, List.nil_sublist _, List.nil_sublist _⟩

end Reports

namespace PassResults

def reports (r : PassResults) : Reports :=
  { diagnostics := r.diagnostics, proofStates := r.proofStates, notices := r.notices }

theorem reports_closeFragment (r : PassResults) (ok lax : Bool) (digest : Option String) :
    (r.closeFragment ok lax digest).reports = r.reports := by
  unfold closeFragment
  cases r.fragments.getLast? <;> rfl

theorem reports_prune (r : PassResults) : r.prune.reports = r.reports := by
  unfold prune
  split <;> rfl

/-- Of an earlier pass some reports are put in front. -/
theorem reports_carryForward (r old : PassResults) (keep : Position → Bool) :
    ∃ kept : Reports, kept.Within old.reports ∧
      (r.carryForward old keep).reports = kept ++ r.reports :=
  ⟨{ proofStates := _, notices := _ },
    ⟨List.nil_sublist _, List.filter_sublist, List.filter_sublist⟩, rfl⟩

end PassResults

namespace ResultModel

/-- The reports that an event brings. -/
def Event.reports (document : Option String) : Event → Reports
  | .fold (.diagnostics errors) => { diagnostics := errors.map fun e => e.toDiagnostic document }
  | .fold (.proofState s) => { proofStates := [s] }
  | .fold (.notice n) => { notices := [n] }
  | .notice n => { notices := [n] }
  | _ => {}

/-- The reports that came in, in the order of their arrival. -/
def received (document : Option String) : List Event → Reports
  | [] => {}
  | e :: rest => e.reports document ++ received document rest

theorem received_concat (document : Option String) (events : List Event) (e : Event) :
    received document (events ++ [e]) = received document events ++ e.reports document := by
  induction events with
  | nil => exact Reports.append_none
  | cons first rest ih => rw [List.cons_append, received, ih, received, Reports.append_assoc]

/-- What a model takes in of an event: proof states count only inside a sequence. -/
def heard (m : ResultModel) (e : Event) : Reports :=
  let reports := e.reports m.document
  { reports with proofStates := if m.phase = .idle then [] else reports.proofStates }

/-- The reports of the live set, and of the shadow set if there is one. -/
def layers (m : ResultModel) : Reports × Option Reports :=
  (m.live.reports, m.shadow.map PassResults.reports)

/-- One layer behind the other, the live one first. -/
def joined (layers : Reports × Option Reports) : Reports := layers.1 ++ layers.2.getD {}

/-- The layer of the set that results go to. -/
def newest (layers : Reports × Option Reports) : Reports := layers.2.getD layers.1

/-- The reports of the live set, then those of the shadow set if there is one. -/
def reports (m : ResultModel) : Reports :=
  m.live.reports ++ (m.shadow.map PassResults.reports).getD {}

variable {m : ResultModel} {added : Reports} {before after : Reports × Option Reports}

theorem heard_within (e : Event) : (m.heard e).Within (e.reports m.document) := by
  refine ⟨.refl _, ?_, .refl _⟩
  dsimp only [heard]
  split
  · exact List.nil_sublist _
  · exact .refl _

-- ---------------------------------------------------------------------------
-- What an event does to the reports
-- ---------------------------------------------------------------------------

/-- Reports are added to the set that results go to, or the shadow set is promoted. -/
inductive Shift : Reports → Reports × Option Reports → Reports × Option Reports → Prop where
  | toLive (live added : Reports) : Shift added (live, none) (live ++ added, none)
  | toShadow (live shadow added : Reports) :
    Shift added (live, some shadow) (live, some (shadow ++ added))
  | promote {kept live : Reports} (hkept : kept.Within live) (shadow : Reports) :
    Shift {} (live, some shadow) (kept ++ shadow, none)

theorem Shift.quiet (layers : Reports × Option Reports) : Shift {} layers layers := by
  match layers with
  | (live, none) => simpa using Shift.toLive live {}
  | (live, some shadow) => simpa using Shift.toShadow live shadow {}

theorem Shift.joined_within (h : Shift added before after) :
    (joined after).Within (joined before ++ added) := by
  cases h with
  | toLive live added => simpa [joined] using Reports.Within.refl (live ++ added)
  | toShadow live shadow added =>
    simp only [joined, Option.getD_some, Reports.append_assoc]
    exact .refl _
  | promote hkept shadow =>
    simp only [joined, Option.getD_some, Option.getD_none, Reports.append_none]
    exact hkept.append (.refl shadow)

theorem Shift.newest_eq (h : Shift added before after) :
    ∃ kept, newest after = kept ++ (newest before ++ added) := by
  cases h with
  | toLive live added => exact ⟨{}, rfl⟩
  | toShadow live shadow added => exact ⟨{}, rfl⟩
  | @promote kept live _ shadow => exact ⟨kept, by simp [newest]⟩

theorem updateActive_shift {f : PassResults → PassResults}
    (hf : ∀ r, (f r).reports = r.reports ++ added) :
    Shift added m.layers (m.updateActive f).layers := by
  unfold updateActive layers
  cases m.shadow with
  | none =>
    dsimp only [Option.map_none]
    rw [hf]
    exact .toLive ..
  | some shadow =>
    dsimp only [Option.map_some]
    rw [hf]
    exact .toShadow ..

theorem promote_shift (keep : PassResults → Position → Bool) :
    Shift {} m.layers (m.promote keep).layers := by
  cases hshadow : m.shadow with
  | none =>
    rw [promote_of_none hshadow]
    exact .quiet _
  | some shadow =>
    obtain ⟨kept, hkept, hcarried⟩ := shadow.reports_carryForward m.live (keep shadow)
    simp only [promote, hshadow, layers, Option.map_some, Option.map_none, hcarried]
    exact .promote hkept _

theorem invalidate_layers (pos : Position) : (m.invalidate pos).layers = m.layers := by
  unfold invalidate layers
  cases m.shadow <;> rfl

theorem sequenceFinished_shift : Shift {} m.layers m.sequenceFinished.layers := by
  have hpromoted := promote_shift (m := m)
    fun shadow pos => decide (PassResults.endOf shadow.fragments ≤ pos)
  simp only [sequenceFinished, layers, PassResults.reports_prune] at hpromoted ⊢
  exact hpromoted

theorem fragmentStarted_shift (range : Option Range) :
    Shift {} m.layers (m.fragmentStarted range).layers := by
  cases range with
  | none => exact .quiet _
  | some range =>
    show Shift {} m.layers (m.leaveReplay range.start).layers
    unfold leaveReplay
    split
    · exact .quiet _
    · exact promote_shift (m := { m with phase := .checking }) _

theorem verdict_shift (range : Option Range) (ok lax : Bool) (digest : Option String) :
    Shift {} m.layers (m.verdict range ok lax digest).layers := by
  unfold verdict
  split
  · exact updateActive_shift fun r => by rw [r.reports_closeFragment, Reports.append_none]
  · cases range with
    | none => exact .quiet _
    | some range => exact updateActive_shift fun r => by rw [Reports.append_none]; rfl

/-- A sequence starts with an empty set, in the place of the live one or beside it. -/
theorem sequenceStarted_layers :
    m.sequenceStarted.layers = ({}, none) ∨
      m.sequenceStarted.layers = (m.live.reports, some {}) := by
  unfold sequenceStarted
  split
  · exact .inl rfl
  · exact .inr rfl

theorem progress_shift {p : Progress} (h : p.stage ≠ .started) :
    Shift {} m.layers (m.progress p).layers := by
  unfold progress
  cases hstage : p.stage with
  | started => exact absurd hstage h
  | fragmentStarted => exact fragmentStarted_shift _
  | fragmentOk => exact verdict_shift ..
  | fragmentLaxOk => exact verdict_shift ..
  | fragmentFailed => exact verdict_shift ..
  | finished => exact sequenceFinished_shift
  | other => exact .quiet _

/-- An event that brings no report. -/
theorem heard_of_none {e : Event} (h : e.reports m.document = {}) : m.heard e = {} := by
  simp [heard, h]

theorem step_shift {e : Event} (h : e.isStart = false) :
    Shift (m.heard e) m.layers (m.step e).layers := by
  cases e with
  | requestIssued text =>
    rw [heard_of_none rfl]
    dsimp only [step, requestIssued]
    split <;> exact .quiet _
  | textChanged text =>
    rw [heard_of_none rfl]
    dsimp only [step, textChanged]
    split
    · rw [invalidate_layers]
      exact .quiet _
    · exact .quiet _
  | invalidate pos =>
    rw [heard_of_none rfl, step, invalidate_layers]
    exact .quiet _
  | fold message =>
    cases message with
    | progress p =>
      rw [heard_of_none rfl]
      refine progress_shift fun hstage => ?_
      simp [Event.isStart, StreamMessage.isStarted, hstage] at h
    | proofState s =>
      dsimp only [step, fold, heard, Event.reports]
      split
      · exact .quiet _
      · exact updateActive_shift fun r => by ext1 <;> simp [PassResults.reports]
    | diagnostics errors =>
      refine updateActive_shift fun r => ?_
      ext1 <;> simp [PassResults.reports, heard, Event.reports]
    | notice n =>
      refine updateActive_shift fun r => ?_
      ext1 <;> simp [PassResults.reports, heard, Event.reports]
  | notice n =>
    refine updateActive_shift fun r => ?_
    ext1 <;> simp [PassResults.reports, heard, Event.reports]
  | channelExited =>
    rw [heard_of_none rfl]
    dsimp only [step, channelExited]
    split
    · exact .quiet _
    · exact sequenceFinished_shift

-- ---------------------------------------------------------------------------
-- Document and phase
-- ---------------------------------------------------------------------------

@[simp] theorem updateActive_document (f : PassResults → PassResults) :
    (m.updateActive f).document = m.document := by
  unfold updateActive
  split <;> rfl

@[simp] theorem promote_document (keep : PassResults → Position → Bool) :
    (m.promote keep).document = m.document := by
  unfold promote
  split <;> rfl

@[simp] theorem promote_phase (keep : PassResults → Position → Bool) :
    (m.promote keep).phase = m.phase := by
  unfold promote
  split <;> rfl

theorem verdict_frame (range : Option Range) (ok lax : Bool) (digest : Option String) :
    (m.verdict range ok lax digest).document = m.document ∧
      (m.verdict range ok lax digest).phase = m.phase := by
  unfold verdict
  split
  · exact ⟨updateActive_document _, updateActive_phase _⟩
  · cases range with
    | none => exact ⟨rfl, rfl⟩
    | some range => exact ⟨updateActive_document _, updateActive_phase _⟩

/-- A fragment that starts does not end the sequence. -/
theorem fragmentStarted_frame (range : Option Range) :
    (m.fragmentStarted range).document = m.document ∧
      (m.phase ≠ .idle → (m.fragmentStarted range).phase ≠ .idle) := by
  cases range with
  | none => exact ⟨rfl, id⟩
  | some range =>
    dsimp only [fragmentStarted, leaveReplay]
    split
    · exact ⟨rfl, id⟩
    · simp

theorem sequenceStarted_document : m.sequenceStarted.document = m.document := by
  unfold sequenceStarted
  split <;> rfl

/-- The document stays the same, and only the end of a sequence or of the verifier leads out of a
sequence. -/
theorem step_frame (e : Event) : (m.step e).document = m.document ∧
    (e.isInner = true → m.phase ≠ .idle → (m.step e).phase ≠ .idle) := by
  cases e with
  | requestIssued text =>
    dsimp only [step, requestIssued]
    split <;> exact ⟨rfl, fun _ => id⟩
  | textChanged text =>
    dsimp only [step, textChanged]
    split <;> exact ⟨rfl, fun _ => id⟩
  | invalidate pos => exact ⟨rfl, fun _ => id⟩
  | fold message =>
    cases message with
    | progress p =>
      dsimp only [step, fold, progress]
      cases hstage : p.stage with
      | started =>
        refine ⟨sequenceStarted_document, fun hinner => ?_⟩
        simp [Event.isInner, StreamMessage.isInner, StreamMessage.isStarted, hstage] at hinner
      | fragmentStarted => exact ⟨(fragmentStarted_frame _).1, fun _ => (fragmentStarted_frame _).2⟩
      | finished =>
        refine ⟨promote_document _, fun hinner => ?_⟩
        simp [Event.isInner, StreamMessage.isInner, StreamMessage.isFinished, hstage] at hinner
      | other => exact ⟨rfl, fun _ => id⟩
      | _ =>
        refine ⟨(verdict_frame ..).1, fun _ => ?_⟩
        rw [(verdict_frame ..).2]
        exact id
    | proofState s =>
      dsimp only [step, fold]
      split
      · exact ⟨rfl, fun _ => id⟩
      · simp [updateActive_phase]
    | diagnostics errors => simp [step, fold, updateActive_phase]
    | notice n => simp [step, fold, addNotice, updateActive_phase]
  | notice n => simp [step, addNotice, updateActive_phase]
  | channelExited =>
    refine ⟨?_, fun hinner => by cases hinner⟩
    dsimp only [step, channelExited]
    split
    · rfl
    · exact promote_document _

theorem run_document (events : List Event) : (m.run events).document = m.document := by
  induction events generalizing m with
  | nil => rfl
  | cons e rest ih => exact (ih (m := m.step e)).trans (step_frame e).1

-- ---------------------------------------------------------------------------
-- Runs
-- ---------------------------------------------------------------------------

/-- Of what a model held and of what the event brings, some is held afterwards, in this order. -/
theorem step_reports (e : Event) :
    (m.step e).reports.Within (m.reports ++ e.reports m.document) := by
  cases hstart : e.isStart with
  | false =>
    have hheard := (Reports.Within.refl m.reports).append (heard_within (m := m) e)
    exact (step_shift hstart).joined_within.trans hheard
  | true =>
    rw [step_of_isStart hstart]
    show (joined m.sequenceStarted.layers).Within _
    rcases sequenceStarted_layers (m := m) with h | h
    · rw [h]
      exact Reports.none_within _
    · -- the shadow set is begun anew: what the old one held is gone
      rw [h, reports, joined, Reports.append_assoc]
      exact (Reports.Within.refl _).append (Reports.none_within _)

/-- A model that held nothing holds a subsequence of what came in. -/
theorem run_reports (hm : m.reports = {}) (events : List Event) :
    (m.run events).reports.Within (received m.document events) := by
  induction events using List.reverseRecOn with
  | nil =>
    rw [run, List.foldl_nil, hm]
    exact .refl _
  | append_singleton events e ih =>
    have hstep := step_reports (m := m.run events) e
    rw [run_document] at hstep
    rw [run_append, received_concat]
    exact hstep.trans (ih.append (.refl _))

/-- What a model takes in of one event after the other. -/
def taken (m : ResultModel) : List Event → Reports
  | [] => {}
  | e :: rest => m.heard e ++ (m.step e).taken rest

/-- All diagnostics and notices are taken in. -/
theorem taken_eq (m : ResultModel) (events : List Event) :
    (m.taken events).diagnostics = (received m.document events).diagnostics ∧
      (m.taken events).notices = (received m.document events).notices := by
  induction events generalizing m with
  | nil => exact ⟨rfl, rfl⟩
  | cons e rest ih =>
    obtain ⟨hdiagnostics, hnotices⟩ := ih (m.step e)
    rw [(step_frame e).1] at hdiagnostics hnotices
    simp only [taken, received, Reports.append_diagnostics, Reports.append_notices, hdiagnostics,
      hnotices]
    exact ⟨rfl, rfl⟩

/-- As long as a sequence goes on, all proof states are. -/
theorem taken_proofStates (hphase : m.phase ≠ .idle) {events : List Event}
    (hinner : ∀ e ∈ events, e.isInner = true) :
    (m.taken events).proofStates = (received m.document events).proofStates := by
  induction events generalizing m with
  | nil => rfl
  | cons e rest ih =>
    obtain ⟨hdocument, hnext⟩ := step_frame (m := m) e
    have hrest := ih (hnext (hinner e List.mem_cons_self) hphase)
      fun e' he' => hinner e' (List.mem_cons_of_mem _ he')
    rw [hdocument] at hrest
    simp only [taken, received, Reports.append_proofStates, hrest, heard, if_neg hphase]

/-- What a run without a start takes in stands at the end of the set that results go to. -/
theorem run_newest {events : List Event} (hquiet : ∀ e ∈ events, e.isStart = false) :
    ∃ kept, newest (m.run events).layers = kept ++ (newest m.layers ++ m.taken events) := by
  induction events generalizing m with
  | nil => exact ⟨{}, Reports.append_none.symm⟩
  | cons e rest ih =>
    obtain ⟨first, hfirst⟩ := (step_shift (m := m) (hquiet e List.mem_cons_self)).newest_eq
    obtain ⟨second, hthen⟩ :=
      ih (m := m.step e) fun e' he' => hquiet e' (List.mem_cons_of_mem _ he')
    refine ⟨second ++ first, ?_⟩
    rw [show m.run (e :: rest) = (m.step e).run rest from rfl, hthen, hfirst, taken]
    simp only [Reports.append_assoc]

theorem reports_eq_newest (m : ResultModel) : ∃ older, m.reports = older ++ newest m.layers := by
  cases hshadow : m.shadow with
  | none => exact ⟨{}, by simp [reports, newest, layers, hshadow]⟩
  | some shadow => exact ⟨m.live.reports, by simp [reports, newest, layers, hshadow]⟩

/-- What a model holds ends with what it took in since the last start. -/
theorem run_reports_end {events : List Event} (hquiet : ∀ e ∈ events, e.isStart = false) :
    ∃ older, (m.run events).reports = older ++ m.taken events := by
  obtain ⟨older, holder⟩ := reports_eq_newest (m.run events)
  obtain ⟨kept, hkept⟩ := run_newest (m := m) hquiet
  refine ⟨older ++ kept ++ newest m.layers, ?_⟩
  rw [holder, hkept]
  simp only [Reports.append_assoc]

/-- In every state, the reports of the live set followed by those of the shadow set are a
subsequence of those that came in. And none is lost as long as no further sequence starts: the
diagnostics and notices that came in since then stand at the end, and so do the proof states while
the sequence goes on. -/
theorem reports_in_order_of_arrival (document : Option String) (text : String)
    (events : List Event) :
    ((new document text).run events).reports.Within (received document events) ∧
    ∀ past rest, events = past ++ rest → (∀ e ∈ rest, e.isStart = false) →
      (received document rest).diagnostics <:+
        ((new document text).run events).reports.diagnostics ∧
      (received document rest).notices <:+ ((new document text).run events).reports.notices ∧
      (((new document text).run past).phase ≠ .idle → (∀ e ∈ rest, e.isInner = true) →
        (received document rest).proofStates <:+
          ((new document text).run events).reports.proofStates) := by
  refine ⟨run_reports (m := new document text) rfl events, ?_⟩
  rintro past rest rfl hquiet
  have hdocument : ((new document text).run past).document = document := run_document past
  obtain ⟨older, hreports⟩ := run_reports_end (m := (new document text).run past) hquiet
  obtain ⟨hdiagnostics, hnotices⟩ := taken_eq ((new document text).run past) rest
  rw [hdocument] at hdiagnostics hnotices
  rw [run_append, hreports, ← hdiagnostics, ← hnotices]
  refine ⟨⟨_, rfl⟩, ⟨_, rfl⟩, fun hphase hinner => ?_⟩
  have hproofStates := taken_proofStates hphase hinner
  rw [hdocument] at hproofStates
  rw [← hproofStates]
  exact ⟨_, rfl⟩

def warningAt (line : Nat) (message : String) : Notice :=
  { severity := .warning, message, range := some ⟨inputFileName, ⟨line, 0⟩, ⟨line, 2⟩⟩ }

/-- A pass over three lines with two notices, and the start of a second one. -/
def noticedPass : List Event :=
  [.fold (.progress { stage := .started }),
   .fold (.progress { stage := .fragmentOk, ranges := some ⟨inputFileName, ⟨1, 0⟩, ⟨3, 2⟩⟩ }),
   .fold (.notice (warningAt 1 "above")),
   .notice (warningAt 3 "below"),
   .fold (.progress { stage := .finished }),
   .fold (.progress { stage := .started })]

/-- A replay that comes to a fragment on the second line. -/
def promotedReplay : List Event :=
  [.notice (warningAt 2 "here"),
   .fold (.proofState { label := "goal" }),
   .fold (.progress { stage := .fragmentStarted, ranges := some ⟨inputFileName, ⟨2, 0⟩, ⟨2, 2⟩⟩ })]

/-- The notice above the fragment stays in front of the new one, the one below is gone. -/
theorem promotedReplay_in_order :
    ((new none "ab\ncd\nef").run noticedPass).phase ≠ .idle ∧
    (∀ e ∈ promotedReplay, e.isStart = false) ∧ (∀ e ∈ promotedReplay, e.isInner = true) ∧
    ((new none "ab\ncd\nef").run (noticedPass ++ promotedReplay)).reports.notices =
      [warningAt 1 "above", warningAt 2 "here"] ∧
    [warningAt 1 "above", warningAt 2 "here"].Sublist
      [warningAt 1 "above", warningAt 3 "below", warningAt 2 "here"] ∧
    [{ label := "goal" }] <:+
      ((new none "ab\ncd\nef").run (noticedPass ++ promotedReplay)).reports.proofStates := by
  have hphase : ((new none "ab\ncd\nef").run noticedPass).phase ≠ .idle := by decide
  have hquiet : ∀ e ∈ promotedReplay, e.isStart = false := by decide
  have hinner : ∀ e ∈ promotedReplay, e.isInner = true := by decide
  have hnotices : ((new none "ab\ncd\nef").run (noticedPass ++ promotedReplay)).reports.notices =
      [warningAt 1 "above", warningAt 2 "here"] := by decide
  obtain ⟨hwithin, hlast⟩ :=
    reports_in_order_of_arrival none "ab\ncd\nef" (noticedPass ++ promotedReplay)
  obtain ⟨-, -, hproofStates⟩ := hlast noticedPass promotedReplay rfl hquiet
  have hsublist := hwithin.notices
  rw [hnotices] at hsublist
  exact ⟨hphase, hquiet, hinner, hnotices, hsublist, hproofStates hphase hinner⟩

end ResultModel

end VerifierClient

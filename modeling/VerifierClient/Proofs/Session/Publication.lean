import VerifierClient.Proofs.Line.Reader
import VerifierClient.Proofs.Registry.Shelves
import VerifierClient.Proofs.Result.Authority
import VerifierClient.Proofs.Session.Bulletin

/-!
# What listeners see

A session tells its listeners of new diagnostics and of a new status, each time as a whole, and
only when they differ from those it told of before. A listener who keeps the last of each knows
what the session has published. What has changed since then is published by the rate limiter,
unless the change was that a mark was taken back.

* `View`, `View.of` — what a listener knows;
* `Session.Candid`, `Session.Candid.upshot` — the session remembers what its listeners know, and
  does not repeat itself;
* `Session.published_at_sequence_ends` — when the end of a sequence is told of, listeners know
  all that there is to see;
* `Session.Current`, `Session.run_current` — what there is to see is published or about to be;
* `Session.published_at_rest` — a session at rest has published all that there is to see, unless
  it has taken back a mark since.
-/

namespace VerifierClient

-- ---------------------------------------------------------------------------
-- Listeners
-- ---------------------------------------------------------------------------

/-- What a listener knows of a document. -/
structure View where
  diagnostics : Option (List Diagnostic) := none
  status : Option (List FragmentStatus) := none
deriving DecidableEq, Repr

namespace View

/-- New results take the place of the old ones. -/
def apply (v : View) : SessionEvent → View
  | .diagnostics items => { v with diagnostics := some items }
  | .status fragments => { v with status := some fragments }
  | _ => v

/-- What a listener knows after the events. -/
def of (events : List SessionEvent) : View := events.foldl apply {}

theorem of_eq (events : List SessionEvent) :
    View.of events =
      ⟨(events.filterMap SessionEvent.diagnostics?).getLast?,
        (events.filterMap SessionEvent.status?).getLast?⟩ := by
  induction events using List.reverseRecOn with
  | nil => rfl
  | append_singleton events e ih =>
    rw [of, List.foldl_concat, ← of, ih]
    cases e <;> simp [apply, SessionEvent.diagnostics?, SessionEvent.status?]

theorem of_finished (events : List SessionEvent) (role : Role) :
    View.of (events ++ [.finished role]) = View.of events := by
  rw [of, List.foldl_concat]
  rfl

end View

/-- Of the results of one kind that the events carry, `last` is the last, and none comes twice
in a row. -/
structure Varied {β : Type} (pick : SessionEvent → Option (List β)) (last : Option (List β))
    (events : List SessionEvent) : Prop where
  last : (events.filterMap pick).getLast? = last
  differ : (events.filterMap pick).IsChain (· ≠ ·)

section Varied

variable {β : Type} {pick : SessionEvent → Option (List β)} {last : Option (List β)}
  {events more : List SessionEvent}

/-- Events that carry no results of the kind. -/
theorem filterMap_silent {α : Type} {f : α → SessionEvent} (h : ∀ x, pick (f x) = none)
    (xs : List α) : (xs.map f).filterMap pick = [] := by
  rw [List.filterMap_map]
  exact List.filterMap_eq_nil_iff.2 fun x _ => h x

theorem Varied.skip (h : Varied pick last events) (hmore : more.filterMap pick = []) :
    Varied pick last (events ++ more) := by
  refine ⟨?_, ?_⟩ <;> rw [List.filterMap_append, hmore, List.append_nil]
  · exact h.last
  · exact h.differ

/-- A result is told of unless it is the last one anyway. -/
theorem Varied.update [DecidableEq β] (h : Varied pick last events) {items : List β}
    (hmore : more.filterMap pick = if last = some items then [] else [items]) :
    Varied pick (some items) (events ++ more) := by
  by_cases hsame : last = some items
  · rw [if_pos hsame] at hmore
    exact hsame ▸ h.skip hmore
  · rw [if_neg hsame] at hmore
    refine ⟨?_, ?_⟩ <;> rw [List.filterMap_append, hmore]
    · exact List.getLast?_concat
    · refine List.isChain_append.2 ⟨h.differ, List.isChain_singleton _, ?_⟩
      intro earlier hearlier later hlater heq
      rw [h.last, Option.mem_def] at hearlier
      rw [List.head?_cons, Option.mem_some_iff] at hlater
      exact hsame (by rw [hearlier, heq, hlater])

end Varied

namespace Session

variable {s s' : Session}

-- ---------------------------------------------------------------------------
-- The session remembers what it told
-- ---------------------------------------------------------------------------

/-- What the session remembers to have published is what its listeners know, and it told them
nothing twice in a row. -/
structure Candid (s : Session) : Prop where
  diagnostics : Varied SessionEvent.diagnostics? s.lastDiagnostics s.emitted
  status : Varied SessionEvent.status? s.lastStatus s.emitted

theorem Candid.view (h : s.Candid) : View.of s.emitted = ⟨s.lastDiagnostics, s.lastStatus⟩ := by
  rw [View.of_eq, h.diagnostics.last, h.status.last]

theorem Candid.discreet (hs : s.Candid) (h : Discreet s s') : s'.Candid := by
  obtain ⟨alerts, hemitted⟩ := h.emitted
  refine ⟨?_, ?_⟩
  · rw [hemitted, h.lastDiagnostics]
    exact hs.diagnostics.skip (filterMap_silent (fun _ => rfl) alerts)
  · rw [hemitted, h.lastStatus]
    exact hs.status.skip (filterMap_silent (fun _ => rfl) alerts)

theorem diagnostics_bulletin (s : Session) (items : List Diagnostic)
    (fragments : List FragmentStatus) :
    (s.bulletin items fragments).filterMap SessionEvent.diagnostics? =
      if s.lastDiagnostics = some items then [] else [items] := by
  unfold bulletin
  split <;> split <;> rfl

theorem status_bulletin (s : Session) (items : List Diagnostic)
    (fragments : List FragmentStatus) :
    (s.bulletin items fragments).filterMap SessionEvent.status? =
      if s.lastStatus = some fragments then [] else [fragments] := by
  unfold bulletin
  split <;> split <;> rfl

theorem Candid.published (hs : s.Candid) (h : Published s s') : s'.Candid := by
  obtain ⟨alerts, ending, hemitted⟩ := h.emitted
  refine ⟨?_, ?_⟩
  · rw [hemitted, h.lastDiagnostics, List.append_assoc, List.append_assoc]
    refine hs.diagnostics.update ?_
    rw [List.filterMap_append, List.filterMap_append, diagnostics_bulletin,
      filterMap_silent (fun _ => rfl), filterMap_silent (fun _ => rfl), List.nil_append,
      List.append_nil]
  · rw [hemitted, h.lastStatus, List.append_assoc, List.append_assoc]
    refine hs.status.update ?_
    rw [List.filterMap_append, List.filterMap_append, status_bulletin,
      filterMap_silent (fun _ => rfl), filterMap_silent (fun _ => rfl), List.nil_append,
      List.append_nil]

theorem Candid.upshot {a : Step} (hs : s.Candid) (h : Upshot s a s') (hopen : s'.isOpen = true) :
    s'.Candid := by
  cases h with
  | closed hclosed => simp [hclosed] at hopen
  | steady _ _ h => exact hs.discreet h.toDiscreet
  | cleared _ _ h =>
    exact Candid.discreet (s := { s with startedTo := none }) ⟨hs.diagnostics, hs.status⟩
      h.toDiscreet
  | fired _ h _ => exact hs.discreet h
  | published _ h => exact hs.published h

theorem openDocument_steady (hmark : s.startedTo = none) : Steady s s.openDocument := by
  have htold : Steady s
      { s with
        strict := s.strict.tell (.vfsAdd s.text)
        lax := s.lax.map fun side => Side.tell side (.vfsAdd s.text)
        startedTo := none } := by
    refine .of_board ?_
    simp only [board, told, hmark]
    rcases s.lax with _ | side <;> rfl
  exact htold.trans (requestFull_steady (s := { s with
    strict := s.strict.tell (.vfsAdd s.text)
    lax := s.lax.map fun side => Side.tell side (.vfsAdd s.text) }) _)

/-- A session that starts shows nothing yet. -/
theorem start_steady (uri : Uri) (text : String) (settings : SessionSettings) (withLax : Bool)
    (now : Nat) :
    Steady (new uri text settings withLax now) (start uri text settings withLax now) :=
  openDocument_steady rfl

-- ---------------------------------------------------------------------------
-- Ends of sequences
-- ---------------------------------------------------------------------------

/-- An event of a longer list was told of before or is among the new ones. -/
theorem told_before_or_now {events more before after : List SessionEvent} {e : SessionEvent}
    (h : events ++ more = before ++ e :: after) :
    (∃ between, events = before ++ e :: between) ∨
      ∃ lead, before = events ++ lead ∧ more = lead ++ e :: after := by
  rcases List.append_eq_append_iff.1 h with ⟨lead, hbefore, hmore⟩ | ⟨between, hevents, hrest⟩
  · exact .inr ⟨lead, hbefore, hmore⟩
  · rcases between with _ | ⟨e', between⟩
    · refine .inr ⟨[], ?_, hrest.symm⟩
      rw [hevents, List.append_nil, List.append_nil]
    · rw [List.cons_append, List.cons.injEq] at hrest
      exact .inl ⟨between, by rw [hevents, hrest.1]⟩

/-- The end of a sequence is told of last. -/
theorem eq_of_finished_last {news lead after : List SessionEvent} {ending : Option Role}
    {role : Role} (hnews : .finished role ∉ news)
    (h : news ++ ending.toList.map .finished = lead ++ .finished role :: after) :
    ending = some role ∧ news = lead := by
  rcases ending with _ | role'
  · rw [Option.toList_none, List.map_nil, List.append_nil] at h
    exact absurd (h ▸ List.mem_append_right lead List.mem_cons_self) hnews
  · rcases after.eq_nil_or_concat with hnil | ⟨between, e, hafter⟩
    · rw [hnil] at h
      obtain ⟨hlead, hrole⟩ := List.append_inj' h rfl
      simp only [Option.toList_some, List.map_cons, List.map_nil, List.cons.injEq,
        SessionEvent.finished.injEq, and_true] at hrole
      exact ⟨congrArg some hrole, hlead⟩
    · rw [hafter, List.concat_eq_append, ← List.cons_append, ← List.append_assoc] at h
      have hlead := (List.append_inj' h rfl).1
      exact absurd (hlead ▸ List.mem_append_right lead List.mem_cons_self) hnews

theorem finished_not_mem_news (s : Session) (alerts : List String) (items : List Diagnostic)
    (fragments : List FragmentStatus) (role : Role) :
    .finished role ∉ alerts.map SessionEvent.alert ++ s.bulletin items fragments := by
  unfold bulletin
  split <;> split <;> simp

/-- From `s` to `s'` the end of a sequence is told of, after the events `before`, and these show
all that there is to see in `s'`. -/
def TellsEnd (s s' : Session) (before : List SessionEvent) (role : Role) : Prop :=
  s.emitted <+: before ∧ s'.emitted = before ++ [.finished role] ∧
    View.of before = ⟨some s'.diagnostics, some s'.status⟩

/-- A step of the run told of the end. -/
def ToldInTime (s : Session) (steps : List Step) (before : List SessionEvent) (role : Role) :
    Prop :=
  ∃ earlier a later, steps = earlier ++ a :: later ∧
    TellsEnd (s.run earlier) (s.run (earlier ++ [a])) before role

theorem ToldInTime.concat {steps : List Step} {before : List SessionEvent} {role : Role}
    (h : s.ToldInTime steps before role) (a : Step) :
    s.ToldInTime (steps ++ [a]) before role := by
  obtain ⟨earlier, a', later, hsteps, htold⟩ := h
  exact ⟨earlier, a', later ++ [a], by rw [hsteps, List.append_assoc, List.cons_append], htold⟩

/-- A step that publishes tells of the end of a sequence after that. -/
theorem Published.finished (h : Published s s') (hs : s'.Candid) {before after : List SessionEvent}
    {role : Role} (htold : s'.emitted = before ++ .finished role :: after) :
    (∃ between, s.emitted = before ++ .finished role :: between) ∨ TellsEnd s s' before role := by
  obtain ⟨alerts, ending, hemitted⟩ := h.emitted
  rw [List.append_assoc s.emitted] at hemitted
  rw [hemitted, List.append_assoc] at htold
  obtain hbetween | ⟨lead, hbefore, hmore⟩ := told_before_or_now htold
  · exact .inl hbetween
  · obtain ⟨hending, hlead⟩ := eq_of_finished_last (finished_not_mem_news s alerts _ _ role) hmore
    have hall : s'.emitted = before ++ [.finished role] := by
      rw [hemitted, hbefore, hending, hlead]
      rfl
    refine .inr ⟨⟨lead, hbefore.symm⟩, hall, ?_⟩
    rw [← View.of_finished before role, ← hall, hs.view, h.lastDiagnostics, h.lastStatus]

theorem Discreet.finished (h : Discreet s s') {before after : List SessionEvent} {role : Role}
    (htold : s'.emitted = before ++ .finished role :: after) :
    ∃ between, s.emitted = before ++ .finished role :: between := by
  obtain ⟨alerts, hemitted⟩ := h.emitted
  rw [hemitted] at htold
  obtain hbetween | ⟨lead, -, hmore⟩ := told_before_or_now htold
  · exact hbetween
  · have hmem : SessionEvent.finished role ∈ alerts.map SessionEvent.alert :=
      hmore ▸ List.mem_append_right lead List.mem_cons_self
    simp at hmem

theorem Upshot.finished {a : Step} (h : Upshot s a s') (hopen : s'.isOpen = true) (hs : s'.Candid)
    {before after : List SessionEvent} {role : Role}
    (htold : s'.emitted = before ++ .finished role :: after) :
    (∃ between, s.emitted = before ++ .finished role :: between) ∨ TellsEnd s s' before role := by
  cases h with
  | closed hclosed => simp [hclosed] at hopen
  | steady _ _ h => exact .inl (h.toDiscreet.finished htold)
  | cleared _ _ h => exact .inl (h.toDiscreet.finished htold)
  | fired _ h _ => exact .inl (h.finished htold)
  | published _ h => exact h.finished hs htold

/-- Every end of a sequence is told of in time: what is new in a step is seen from its upshot,
what is not was told of before. -/
theorem run_toldInTime (hstart : s.isOpen = true) (hs : s.Candid)
    (hnone : ∀ role, .finished role ∉ s.emitted) (steps : List Step)
    (hopen : (s.run steps).isOpen = true) :
    (s.run steps).Candid ∧ ∀ before role after,
      (s.run steps).emitted = before ++ .finished role :: after →
        s.ToldInTime steps before role := by
  induction steps using List.reverseRecOn with
  | nil =>
    refine ⟨hs, fun before role after htold => absurd ?_ (hnone role)⟩
    exact htold ▸ List.mem_append_right before List.mem_cons_self
  | append_singleton steps a ih =>
    rw [run_concat] at hopen ⊢
    have hopen₀ := isOpen_of_step (run_sealed (.of_open hstart) steps) hopen
    obtain ⟨hcandid, hearlier⟩ := ih hopen₀
    have hupshot := step_upshot hopen₀ a
    have hcandid' := hcandid.upshot hupshot hopen
    refine ⟨hcandid', fun before role after htold => ?_⟩
    obtain ⟨between, hbetween⟩ | hnow := hupshot.finished hopen hcandid' htold
    · exact (hearlier before role between hbetween).concat a
    · exact ⟨steps, a, [], rfl, by rw [run_concat]; exact hnow⟩

/-- A listener knows what the session remembers to have published, is not told the same results
twice in a row, and knows all that there is to see when it is told that a sequence has ended. -/
theorem published_at_sequence_ends (uri : Uri) (text : String) (settings : SessionSettings)
    (withLax : Bool) (now : Nat) (steps : List Step)
    (hopen : ((start uri text settings withLax now).run steps).isOpen = true) :
    let s := (start uri text settings withLax now).run steps
    View.of s.emitted = ⟨s.lastDiagnostics, s.lastStatus⟩ ∧
    (s.emitted.filterMap SessionEvent.diagnostics?).IsChain (· ≠ ·) ∧
    (s.emitted.filterMap SessionEvent.status?).IsChain (· ≠ ·) ∧
    ∀ before role after, s.emitted = before ++ .finished role :: after →
      (start uri text settings withLax now).ToldInTime steps before role := by
  have hstart := (start_steady uri text settings withLax now).toDiscreet
  have hnew : (new uri text settings withLax now).Candid := ⟨⟨rfl, .nil⟩, ⟨rfl, .nil⟩⟩
  obtain ⟨alerts, hemitted⟩ := hstart.emitted
  have hnone : ∀ role, .finished role ∉ (start uri text settings withLax now).emitted := by
    intro role hmem
    rw [hemitted] at hmem
    simp [new] at hmem
  obtain ⟨hcandid, htold⟩ :=
    run_toldInTime hstart.isOpen (hnew.discreet hstart) hnone steps hopen
  exact ⟨hcandid.view, hcandid.diagnostics.differ, hcandid.status.differ, htold⟩

/-- A session whose verifier checks the whole text. -/
def openedSession : Session := start ⟨"file:///work/A.fst"⟩ "let x = 1" { flyCheck := false } false 0

/-- While the whole text is checked, its start is asked for and marked. Then the check of the
whole text ends. -/
def markedThenFinished : List Step :=
  [.post (.requestTo ⟨0, 5⟩ false), .command, .publisher, .command,
   .output .strict ((Channel.finishedLine "2").toUTF8.push 10), .event]

/-- The mark has gone from what listeners see by the time they are told of the end. -/
theorem markedThenFinished_published :
    (openedSession.run markedThenFinished).isOpen = true ∧
    (openedSession.run markedThenFinished).emitted =
      [.diagnostics [], .status [⟨⟨⟨0, 0⟩, ⟨0, 5⟩⟩, .started⟩], .status [], .finished .strict] ∧
    View.of (openedSession.run markedThenFinished).emitted =
      ⟨(openedSession.run markedThenFinished).lastDiagnostics,
        (openedSession.run markedThenFinished).lastStatus⟩ ∧
    openedSession.ToldInTime markedThenFinished
      [.diagnostics [], .status [⟨⟨⟨0, 0⟩, ⟨0, 5⟩⟩, .started⟩], .status []] .strict := by
  let marked := openedSession.run (markedThenFinished.take 4)
  let received : Link → Link :=
    fun link => link.onChannel fun c => c.receive (Channel.finishedLine "2")
  have hfeed : marked.strict.link.feed ((Channel.finishedLine "2").toUTF8.push 10) =
      received marked.strict.link :=
    Link.feed_line (by decide +kernel) (by decide +kernel) (by decide +kernel) (by decide +kernel)
      (by decide +kernel) (by decide +kernel)
  have hread : marked.onLink .strict (fun link =>
      link.feed ((Channel.finishedLine "2").toUTF8.push 10)) = marked.onLink .strict received :=
    onLink_strict_congr hfeed
  have hrun : openedSession.run markedThenFinished =
      (marked.onLink .strict received).settleWriters.step .event := by
    rw [← hread]
    rfl
  have hopen : (openedSession.run markedThenFinished).isOpen = true := by
    rw [hrun]
    decide +kernel
  have hemitted : (openedSession.run markedThenFinished).emitted =
      [.diagnostics [], .status [⟨⟨⟨0, 0⟩, ⟨0, 5⟩⟩, .started⟩], .status [], .finished .strict] := by
    rw [hrun]
    decide +kernel
  have hview := published_at_sequence_ends _ _ _ _ _ _ hopen
  exact ⟨hopen, hemitted, hview.1, hview.2.2.2 _ _ [] hemitted⟩

-- ---------------------------------------------------------------------------
-- What is still to be published
-- ---------------------------------------------------------------------------

theorem startedStatus_of_shown {strict strict' : ResultModel}
    (h : strict'.shown = strict.shown) (stop : Option Position) :
    startedStatus strict' stop = startedStatus strict stop := by
  have hlive := (Prod.mk.inj h).1
  simp only [startedStatus, hlive]

/-- The step takes back a mark that shows. -/
def withdraws (s : Session) (a : Step) : Bool :=
  s.asksFull a && !(startedStatus s.strict.model s.startedTo).isEmpty

/-- Whether a mark was taken back after the last publication of the run. -/
def withdrawn (s : Session) (steps : List Step) : Bool :=
  s.trail (fun s a withdrawn => !s.publishes a && (withdrawn || s.withdraws a)) false steps

/-- What there is to see is published or will be, except that the mark in the published status
may have been taken back. -/
def Current (s : Session) (withdrawn : Bool) : Prop :=
  s.owes = true ∨
    s.lastDiagnostics.getD [] = s.diagnostics ∧
    ∃ stop, s.lastStatus.getD [] = mergedStatus s.strict.model (s.lax.map Side.model) stop ∧
      if withdrawn then startedStatus s.strict.model stop ≠ [] ∧ s.startedTo = none
      else startedStatus s.strict.model stop = startedStatus s.strict.model s.startedTo

variable {w : Bool}

theorem Current.steady (hs : s.Current w) (h : Steady s s') : s'.Current w := by
  rcases hs with howes | ⟨hdiagnostics, stop, hstatus, hmark⟩
  · exact .inl (h.owed howes)
  · refine .inr ⟨?_, stop, ?_, ?_⟩
    · rw [h.lastDiagnostics, h.diagnostics]
      exact hdiagnostics
    · rw [h.lastStatus, mergedStatus_of_shown h.strict h.lax]
      exact hstatus
    · rw [h.startedTo, startedStatus_of_shown h.strict, startedStatus_of_shown h.strict]
      exact hmark

/-- A mark that is taken back stays in the published status, if it is there. -/
theorem Current.cleared {a : Step} (hs : s.Current w) (hfull : s.asksFull a = true) :
    ({ s with startedTo := none } : Session).Current (w || s.withdraws a) := by
  rcases hs with howes | ⟨hdiagnostics, stop, hstatus, hmark⟩
  · exact .inl howes
  · refine .inr ⟨hdiagnostics, stop, hstatus, ?_⟩
    rcases w with _ | _
    · rw [if_neg Bool.false_ne_true] at hmark
      rw [withdraws, hfull, Bool.false_or, Bool.true_and, ← hmark]
      rcases hstarted : startedStatus s.strict.model stop with _ | ⟨entry, rest⟩
      · exact rfl
      · exact ⟨by simp, rfl⟩
    · rw [if_pos rfl] at hmark
      rw [Bool.true_or, if_pos rfl]
      exact ⟨hmark.1, rfl⟩

theorem Current.upshot {a : Step} (hs : s.Current w) (h : Upshot s a s')
    (hopen : s'.isOpen = true) : s'.Current (!s.publishes a && (w || s.withdraws a)) := by
  cases h with
  | closed hclosed => simp [hclosed] at hopen
  | steady hpublishes hfull h =>
    rw [withdraws, hpublishes, hfull, Bool.false_and, Bool.or_false]
    exact hs.steady h
  | cleared hpublishes hfull h =>
    rw [hpublishes]
    exact (hs.cleared hfull).steady h
  | fired _ _ howes => exact .inl howes
  | published hpublishes h =>
    rw [hpublishes]
    refine .inr ⟨?_, s'.startedTo, ?_, rfl⟩
    · rw [h.lastDiagnostics, Option.getD_some]
    · rw [h.lastStatus, Option.getD_some, status]

theorem run_current (uri : Uri) (text : String) (settings : SessionSettings) (withLax : Bool)
    (now : Nat) (steps : List Step)
    (hopen : ((start uri text settings withLax now).run steps).isOpen = true) :
    ((start uri text settings withLax now).run steps).Current
      ((start uri text settings withLax now).withdrawn steps) := by
  have hstart := start_steady uri text settings withLax now
  have hnew : (new uri text settings withLax now).Current false := by
    refine .inr ⟨?_, none, ?_, rfl⟩
    · cases withLax <;> rfl
    · cases withLax <;> exact List.mergeSort_nil.symm
  exact run_open _ (P := Current) (fun s w a h hopen' hs => hs.upshot h hopen') hstart.isOpen
    (hnew.steady hstart) steps hopen

/-- A session at rest has published the diagnostics as they are to be seen now, and the status
exactly when no mark was taken back since it last published. -/
theorem published_at_rest (uri : Uri) (text : String) (settings : SessionSettings)
    (withLax : Bool) (now : Nat) (steps : List Step)
    (hopen : ((start uri text settings withLax now).run steps).isOpen = true)
    (hlimiter : ((start uri text settings withLax now).run steps).publisher.isCooling = false)
    (hcommands : ((start uri text settings withLax now).run steps).commands = []) :
    let s := (start uri text settings withLax now).run steps
    s.lastDiagnostics.getD [] = s.diagnostics ∧
    (s.lastStatus.getD [] = s.status ↔
      (start uri text settings withLax now).withdrawn steps = false) := by
  intro s
  have hrest : ¬ s.owes = true := by
    simp [s, owes, RateLimiter.not_owes_of_rest hlimiter, hcommands]
  obtain howes | ⟨hdiagnostics, stop, hstatus, hmark⟩ :=
    run_current uri text settings withLax now steps hopen
  · exact absurd howes hrest
  · refine ⟨hdiagnostics, ?_⟩
    rw [hstatus, status]
    generalize (start uri text settings withLax now).withdrawn steps = w at hmark ⊢
    rcases w with _ | _
    · rw [if_neg Bool.false_ne_true] at hmark
      exact iff_of_true (mergedStatus_of_startedStatus _ hmark _) rfl
    · rw [if_pos rfl] at hmark
      obtain ⟨hshows, htaken⟩ := hmark
      rw [htaken]
      exact iff_of_false (mergedStatus_ne_unmarked _ hshows _) (by simp)

/-- The start of the text is asked for and marked, and the limiter comes to rest. Then a check of
the whole text is asked for, which takes the mark back. -/
def markedThenWithdrawn : List Step :=
  [.post (.requestTo ⟨0, 5⟩ false), .command, .publisher, .command, .tick 1000, .publisher,
   .post (.requestFull .full), .command]

/-- The mark is published before it is taken back. -/
theorem markedThenWithdrawn_marked :
    (openedSession.run (markedThenWithdrawn.take 6)).isOpen = true ∧
    (openedSession.run (markedThenWithdrawn.take 6)).publisher.isCooling = false ∧
    (openedSession.run (markedThenWithdrawn.take 6)).commands = [] ∧
    (openedSession.run (markedThenWithdrawn.take 6)).lastStatus.getD [] =
      (openedSession.run (markedThenWithdrawn.take 6)).status ∧
    (openedSession.run (markedThenWithdrawn.take 6)).status =
      [⟨⟨⟨0, 0⟩, ⟨0, 5⟩⟩, .started⟩] := by
  have hopen : (openedSession.run (markedThenWithdrawn.take 6)).isOpen = true := by
    decide +kernel
  have hlimiter : (openedSession.run (markedThenWithdrawn.take 6)).publisher.isCooling = false := by
    decide +kernel
  have hcommands : (openedSession.run (markedThenWithdrawn.take 6)).commands = [] :=
    List.isEmpty_iff.1 (by decide +kernel)
  have hpublished := published_at_rest _ _ _ _ _ _ hopen hlimiter hcommands
  exact ⟨hopen, hlimiter, hcommands, hpublished.2.2 (by decide +kernel), by decide +kernel⟩

/-- Afterwards the session is at rest again, and the mark is still published. -/
theorem markedThenWithdrawn_unpublished :
    (openedSession.run markedThenWithdrawn).isOpen = true ∧
    (openedSession.run markedThenWithdrawn).publisher.isCooling = false ∧
    (openedSession.run markedThenWithdrawn).commands = [] ∧
    (openedSession.run markedThenWithdrawn).inbox = [] ∧
    (openedSession.run markedThenWithdrawn).lastStatus =
      some [⟨⟨⟨0, 0⟩, ⟨0, 5⟩⟩, .started⟩] ∧
    (openedSession.run markedThenWithdrawn).status = [] := by
  refine ⟨by decide +kernel, by decide +kernel, List.isEmpty_iff.1 (by decide +kernel),
    List.isEmpty_iff.1 (by decide +kernel), by decide +kernel, by decide +kernel⟩

end Session

end VerifierClient

import VerifierClient.Proofs.Result.Replay
import VerifierClient.Proofs.Session.Closing
import VerifierClient.Proofs.Session.Front

/-!
# What a step means for what is published

A session shows diagnostics and a status, which are made from the live results of its verifiers
and from the mark of the last bounded request. Some steps publish them, some leave them to the
rate limiter, most do not touch them. This module says once which step does what, so that
statements about publications need not open the handlers of commands and events.

* `RateLimiter.owes`, `Session.owes` — a publication is still to come;
* `Session.Discreet` — results are neither published nor forgotten, `Session.Steady` — and what
  there is to see stays as it was, `Session.Published` — what there is to see is published;
* `Session.Upshot`, `Session.step_upshot` — every step of an open session is one of these, or
  takes back a mark, or closes the session.
-/

namespace VerifierClient

/-- Requests for a check of the whole text. -/
def Command.isFull : Command → Bool
  | .requestFull _ | .saved => true
  | _ => false

/-- The events of a channel after which the results are published at once. -/
def ChannelEvent.isFinal : ChannelEvent → Bool
  | .stream message => message.isFinished
  | .notice _ => false
  | .exited _ => true

-- ---------------------------------------------------------------------------
-- Publications to come
-- ---------------------------------------------------------------------------

namespace RateLimiter

variable {l : RateLimiter}

/-- A fire has not led to a run yet. -/
def owes (l : RateLimiter) : Bool :=
  match l.phase with
  | .idle => false
  | .queued _ => true
  | .cooling _ => l.missed

theorem owes_fire (l : RateLimiter) (now : Nat) : (l.fire now).owes = true := by
  unfold fire owes
  rcases l.phase with _ | since | due <;> simp

/-- The wake of a limiter that owes a run brings one. -/
theorem exists_run_of_owes (h : l.owes = true) : ∃ time, l.wake.1 = some time := by
  unfold owes at h
  rcases hphase : l.phase with _ | since | due
  · simp [hphase] at h
  · exact ⟨since, by simp [wake, hphase]⟩
  · have hmissed : l.missed = true := by simpa [hphase] using h
    exact ⟨due, by simp [wake, hphase, hmissed]⟩

theorem not_owes_of_rest (h : l.isCooling = false) : l.owes = false := by
  have hphase : l.phase = .idle := by simpa [isCooling] using h
  rw [owes, hphase]

end RateLimiter

namespace Session

variable {s t s' : Session}

/-- A publication is asked for and has not taken place yet. -/
def owes (s : Session) : Bool := s.publisher.owes || s.commands.contains .publish

theorem owes_iff : s.owes = true ↔ s.publisher.owes = true ∨ .publish ∈ s.commands := by
  simp [owes]

-- ---------------------------------------------------------------------------
-- Steps that publish nothing
-- ---------------------------------------------------------------------------

/-- Nothing but alerts is emitted, and what was published last is remembered. -/
structure Discreet (s s' : Session) : Prop where
  isOpen : s'.isOpen = s.isOpen
  lastDiagnostics : s'.lastDiagnostics = s.lastDiagnostics
  lastStatus : s'.lastStatus = s.lastStatus
  emitted : ∃ alerts : List String, s'.emitted = s.emitted ++ alerts.map .alert

/-- Beside that, what there is to see stays as it was, and a publication that was to come still
is. -/
structure Steady (s s' : Session) : Prop extends Discreet s s' where
  strict : s'.strict.model.shown = s.strict.model.shown
  lax : (s'.lax.map Side.model).map ResultModel.shown = (s.lax.map Side.model).map ResultModel.shown
  startedTo : s'.startedTo = s.startedTo
  owed : s.owes = true → s'.owes = true

/-- The session as its listeners know it. -/
def told (s : Session) :
    Bool × Option (List Diagnostic) × Option (List FragmentStatus) × List SessionEvent :=
  (s.isOpen, s.lastDiagnostics, s.lastStatus, s.emitted)

theorem Discreet.of_told (h : s'.told = s.told) : Discreet s s' := by
  simp only [told, Prod.mk.injEq] at h
  obtain ⟨hopen, hdiagnostics, hstatus, hemitted⟩ := h
  exact ⟨hopen, hdiagnostics, hstatus, [], by rw [hemitted, List.map_nil, List.append_nil]⟩

theorem Discreet.refl (s : Session) : Discreet s s := .of_told rfl

theorem Discreet.trans (h : Discreet s t) (h' : Discreet t s') : Discreet s s' := by
  obtain ⟨alerts, hemitted⟩ := h.emitted
  obtain ⟨alerts', hemitted'⟩ := h'.emitted
  refine ⟨h'.isOpen.trans h.isOpen, h'.lastDiagnostics.trans h.lastDiagnostics,
    h'.lastStatus.trans h.lastStatus, alerts ++ alerts', ?_⟩
  rw [hemitted', hemitted, List.map_append, List.append_assoc]

theorem Steady.refl (s : Session) : Steady s s := ⟨.refl s, rfl, rfl, rfl, id⟩

theorem Steady.trans (h : Steady s t) (h' : Steady t s') : Steady s s' :=
  ⟨h.toDiscreet.trans h'.toDiscreet, h'.strict.trans h.strict, h'.lax.trans h.lax,
    h'.startedTo.trans h.startedTo, fun howes => h'.owed (h.owed howes)⟩

theorem Steady.diagnostics (h : Steady s s') : s'.diagnostics = s.diagnostics :=
  mergedDiagnostics_of_shown h.strict h.lax

theorem Steady.status (h : Steady s s') : s'.status = s.status := by
  unfold Session.status
  rw [h.startedTo]
  exact mergedStatus_of_shown h.strict h.lax s.startedTo

theorem alert_discreet (message : String) : Discreet s (s.alert message) :=
  ⟨rfl, rfl, rfl, [message], rfl⟩

theorem alert_steady (message : String) : Steady s (s.alert message) :=
  ⟨alert_discreet message, rfl, rfl, rfl, id⟩

/-- All that there is to see, and what publications wait for. -/
def board (s : Session) :=
  (s.told, s.strict.model.shown, (s.lax.map Side.model).map ResultModel.shown, s.startedTo,
    s.publisher, s.commands)

/-- Handling that touches neither results nor the publisher. -/
theorem Steady.of_board (h : s'.board = s.board) : Steady s s' := by
  simp only [board, Prod.mk.injEq] at h
  obtain ⟨htold, hstrict, hlax, hstarted, hpublisher, hcommands⟩ := h
  refine ⟨.of_told htold, hstrict, hlax, hstarted, fun howes => ?_⟩
  rw [owes, hpublisher, hcommands]
  exact howes

-- ---------------------------------------------------------------------------
-- Requests and edits
-- ---------------------------------------------------------------------------

theorem issue_shown (side : Side) (kind : BufferKind) (text : String)
    (position : Option Position) :
    (side.issue kind text position).1.model.shown = side.model.shown := by
  unfold Side.issue
  rcases side.channel.startFullBuffer (.fullBuffer kind text position) with ⟨channel, _ | _⟩
  · rfl
  · show (side.model.requestIssued text).shown = side.model.shown
    unfold ResultModel.requestIssued
    dsimp only
    split <;> rfl

theorem verifyStrict_steady (kind : BufferKind) (position : Option Position) :
    Steady s (s.verifyStrict kind position) := by
  have hshown := issue_shown s.strict kind s.text position
  unfold verifyStrict
  generalize s.strict.issue kind s.text position = issued at hshown ⊢
  obtain ⟨strict, e | _⟩ := issued
  · have hissued : Steady s { s with reverify := s.reverify.cancel, strict } :=
      .of_board (by simp only [board, told, hshown])
    exact hissued.trans (alert_steady _)
  · exact .of_board (by simp only [board, told, hshown])

theorem refreshLax_steady : Steady s s.refreshLax.1 := by
  unfold refreshLax
  rcases hlax : s.lax with _ | side
  · exact .refl s
  · have hshown := issue_shown side .lax s.text none
    dsimp only
    generalize side.issue .lax s.text none = issued at hshown ⊢
    obtain ⟨side', e | _⟩ := issued <;> dsimp only at hshown
    · have hissued : Steady s { s with lax := some side' } :=
        .of_board (by simp [board, told, hlax, hshown])
      exact hissued.trans (alert_steady _)
    · exact .of_board (by simp [board, told, hlax, hshown])

/-- A request for the whole text takes the mark back. -/
theorem requestFull_steady (kind : BufferKind) :
    Steady { s with startedTo := none } (s.requestFull kind) := by
  unfold requestFull
  dsimp only
  split
  · exact refreshLax_steady
  · exact (verifyStrict_steady kind none).trans refreshLax_steady

theorem firePublisher_discreet : Discreet s s.firePublisher := .of_told rfl

theorem owes_firePublisher : s.firePublisher.owes = true :=
  owes_iff.2 (.inl (RateLimiter.owes_fire _ _))

theorem requestTo_discreet (position : Position) (lax : Bool) :
    Discreet s (s.requestTo position lax) := by
  have hmark : Discreet s { s with startedTo := some position } := .of_told rfl
  exact (hmark.trans (verifyStrict_steady _ _).toDiscreet).trans firePublisher_discreet

theorem editStrict_discreet (text : String) : Discreet s (s.editStrict text) := by
  unfold editStrict
  dsimp only
  split
  · exact .of_told rfl
  · split <;> exact .of_told rfl

theorem scheduleReverify_discreet : Discreet s s.scheduleReverify := by
  unfold scheduleReverify
  split
  · exact .of_told rfl
  · exact .refl s

theorem scheduleFlyCheck_discreet : Discreet s s.scheduleFlyCheck := by
  unfold scheduleFlyCheck
  split
  · exact .of_told rfl
  · exact .refl s

theorem textChanged_discreet (text : String) : Discreet s (s.textChanged text) := by
  unfold textChanged
  split
  · exact .refl s
  · have htext : Discreet s { s with text } := .of_told rfl
    have hlax : ∀ s : Session,
        Discreet s { s with lax := s.lax.map fun side => Side.edit side text } :=
      fun _ => .of_told rfl
    exact ((((htext.trans (editStrict_discreet text)).trans (hlax _)).trans
      scheduleReverify_discreet).trans scheduleFlyCheck_discreet).trans firePublisher_discreet

-- ---------------------------------------------------------------------------
-- Other commands
-- ---------------------------------------------------------------------------

theorem reply_steady (ticket : Nat) (answer : Reply) : Steady s (s.reply ticket answer) :=
  .of_board rfl

theorem ask_steady (ticket : Nat) (question : Question) (query : Query) :
    Steady s (s.ask ticket question query) := by
  unfold ask
  rcases s.strict.channel.send query with ⟨channel, e | id⟩ <;>
    exact .of_board rfl

theorem lookup_steady (position : Position) (ticket : Nat) :
    Steady s (s.lookup position ticket) := by
  unfold lookup
  rcases Text.wordAt s.text position with _ | found
  · exact reply_steady _ _
  · exact ask_steady _ _ _

theorem complete_steady (position : Position) (ticket : Nat) :
    Steady s (s.complete position ticket) := by
  unfold complete
  rcases Text.wordPrefixAt s.text position with _ | found
  · exact reply_steady _ _
  · exact ask_steady _ _ _

theorem startFlyCheck_steady : Steady s s.startFlyCheck := by
  have hrefresh := refreshLax_steady (s := s)
  unfold startFlyCheck
  rcases hlax : s.refreshLax with ⟨t, _ | _⟩ <;> rw [hlax] at hrefresh
  · exact hrefresh.trans (.of_board rfl)
  · exact hrefresh.trans (.of_board rfl)

-- ---------------------------------------------------------------------------
-- Publications
-- ---------------------------------------------------------------------------

/-- The events that tell of results, where these differ from those published last. -/
def bulletin (s : Session) (items : List Diagnostic) (fragments : List FragmentStatus) :
    List SessionEvent :=
  (if s.lastDiagnostics = some items then [] else [.diagnostics items]) ++
    if s.lastStatus = some fragments then [] else [.status fragments]

/-- What there is to see is published, after some alerts; the end of a sequence may be told of
last. -/
structure Published (s s' : Session) : Prop where
  isOpen : s'.isOpen = s.isOpen
  lastDiagnostics : s'.lastDiagnostics = some s'.diagnostics
  lastStatus : s'.lastStatus = some s'.status
  emitted : ∃ (alerts : List String) (ending : Option Role), s'.emitted =
    s.emitted ++ alerts.map .alert ++ s.bulletin s'.diagnostics s'.status ++
      ending.toList.map .finished

theorem publishDiagnostics_eq (s : Session) (items : List Diagnostic) :
    s.publishDiagnostics items =
      { s with
        lastDiagnostics := some items
        emitted := s.emitted ++
          if s.lastDiagnostics = some items then [] else [.diagnostics items] } := by
  unfold publishDiagnostics
  split
  next hsame => rw [List.append_nil, ← hsame]
  next => rfl

theorem publishStatus_eq (s : Session) (fragments : List FragmentStatus) :
    s.publishStatus fragments =
      { s with
        lastStatus := some fragments
        emitted := s.emitted ++
          if s.lastStatus = some fragments then [] else [.status fragments] } := by
  unfold publishStatus
  split
  next hsame => rw [List.append_nil, ← hsame]
  next => rfl

theorem publish_eq (s : Session) :
    s.publish =
      { s with
        lastDiagnostics := some s.diagnostics
        lastStatus := some s.status
        emitted := s.emitted ++ s.bulletin s.diagnostics s.status } := by
  rw [publish, publishDiagnostics_eq, publishStatus_eq, bulletin, ← List.append_assoc]

theorem Discreet.emitted_publish (h : Discreet s t) : ∃ alerts : List String,
    t.publish.emitted = s.emitted ++ alerts.map .alert ++ s.bulletin t.diagnostics t.status := by
  obtain ⟨alerts, hemitted⟩ := h.emitted
  refine ⟨alerts, ?_⟩
  rw [publish_eq, ← hemitted, bulletin, bulletin, h.lastDiagnostics, h.lastStatus]

theorem Discreet.publish (h : Discreet s t) : Published s t.publish := by
  obtain ⟨alerts, hemitted⟩ := h.emitted_publish
  rw [publish_eq] at hemitted ⊢
  exact ⟨h.isOpen, rfl, rfl, alerts, none, hemitted.trans (List.append_nil _).symm⟩

theorem Discreet.publish_finished (h : Discreet s t) (role : Role) :
    Published s (t.publish.emit (.finished role)) := by
  obtain ⟨alerts, hemitted⟩ := h.emitted_publish
  rw [publish_eq] at hemitted ⊢
  exact ⟨h.isOpen, rfl, rfl, alerts, some role,
    congrArg (fun events => events ++ [SessionEvent.finished role]) hemitted⟩

-- ---------------------------------------------------------------------------
-- Which steps do what
-- ---------------------------------------------------------------------------

/-- The step publishes what there is to see. -/
def publishes (s : Session) : Step → Bool
  | .command => s.commands.head? = some .publish
  | .event => s.inbox.head?.any fun entry => entry.2.isFinal
  | _ => false

/-- The step handles a request for a check of the whole text. -/
def asksFull (s : Session) : Step → Bool
  | .command => s.commands.head?.any Command.isFull
  | _ => false

inductive Upshot (s : Session) (a : Step) (s' : Session) : Prop
  | closed (hclosed : s'.isOpen = false)
  | steady (hpublishes : s.publishes a = false) (hfull : s.asksFull a = false)
      (hsteady : Steady s s')
  /-- the mark of the last bounded request is taken back -/
  | cleared (hpublishes : s.publishes a = false) (hfull : s.asksFull a = true)
      (hsteady : Steady { s with startedTo := none } s')
  /-- a publication is asked for -/
  | fired (hpublishes : s.publishes a = false) (hdiscreet : Discreet s s')
      (howes : s'.owes = true)
  | published (hpublishes : s.publishes a = true) (hpublished : Published s s')

/-- A command other than a publication is taken from the queue. -/
theorem taken_steady {c : Command} {rest : List Command} (hcommands : s.commands = c :: rest)
    (hc : c ≠ .publish) : Steady s { s with commands := rest } := by
  refine ⟨.of_told rfl, rfl, rfl, rfl, fun howes => ?_⟩
  rw [owes_iff] at howes ⊢
  rw [hcommands] at howes
  exact howes.imp_right fun hmem => (List.mem_cons.1 hmem).resolve_left (Ne.symm hc)

theorem command_upshot {c : Command} {rest : List Command} (hcommands : s.commands = c :: rest) :
    Upshot s .command (({ s with commands := rest } : Session).handle c) := by
  have hpublishes : s.publishes .command = decide (c = .publish) := by
    simp [publishes, hcommands]
  have hfull : s.asksFull .command = c.isFull := by
    simp [asksFull, hcommands]
  have hquiet : c ≠ .publish → s.publishes .command = false := by
    intro hc
    rw [hpublishes, decide_eq_false hc]
  have hsteady : ∀ {s' : Session}, c ≠ .publish → c.isFull = false →
      Steady { s with commands := rest } s' → Upshot s .command s' := by
    intro s' hc hother h
    exact .steady (hquiet hc) (hfull.trans hother) ((taken_steady hcommands hc).trans h)
  have hcleared : ∀ kind, c ≠ .publish → c.isFull = true →
      Upshot s .command (({ s with commands := rest } : Session).requestFull kind) := by
    intro kind hc hwhole
    have hmarked := taken_steady (s := { s with startedTo := none }) hcommands hc
    exact .cleared (hquiet hc) (hfull.trans hwhole)
      (hmarked.trans (requestFull_steady (s := { s with commands := rest }) kind))
  cases c with
  | textChanged text =>
    have htaken := taken_steady hcommands (by simp)
    by_cases hsame : text = s.text
    · refine hsteady (by simp) rfl ?_
      rw [handle, textChanged, if_pos hsame]
      exact .refl _
    · refine .fired (hquiet (by simp)) (htaken.toDiscreet.trans (textChanged_discreet text)) ?_
      rw [handle, textChanged, if_neg hsame]
      exact owes_firePublisher
  | requestFull kind => exact hcleared kind (by simp) rfl
  | requestTo position lax =>
    have htaken := taken_steady hcommands (by simp)
    exact .fired (hquiet (by simp)) (htaken.toDiscreet.trans (requestTo_discreet position lax))
      owes_firePublisher
  | saved => exact hcleared .full (by simp) rfl
  | lookup position ticket => exact hsteady (by simp) rfl (lookup_steady position ticket)
  | complete position ticket => exact hsteady (by simp) rfl (complete_steady position ticket)
  | proofStates line ticket => exact hsteady (by simp) rfl (reply_steady ticket _)
  | restartSolver =>
    exact hsteady (by simp) rfl (.of_board rfl)
  | verify => exact hsteady (by simp) rfl (verifyStrict_steady .full none)
  | publish =>
    have htaken : Discreet s { s with commands := rest } := .of_told rfl
    exact .published (by rw [hpublishes]; rfl) htaken.publish
  | flyCheck => exact hsteady (by simp) rfl startFlyCheck_steady
  | dispose ticket => exact .closed (isOpen_dispose ticket)

theorem onSide_discreet (role : Role) (f : Side → Side) : Discreet s (s.onSide role f) := by
  obtain ⟨strict, lax, heq⟩ := s.onSide_eq role f
  rw [heq]
  exact .of_told rfl

theorem event_upshot {role : Role} {event : ChannelEvent} {rest : List (Role × ChannelEvent)}
    (hinbox : s.inbox = (role, event) :: rest) :
    Upshot s .event (({ s with inbox := rest } : Session).onChannelEvent role event) := by
  have hpublishes : s.publishes .event = event.isFinal := by
    simp [publishes, hinbox]
  have htaken : Discreet s { s with inbox := rest } := .of_told rfl
  have hside : ∀ f, Discreet s (({ s with inbox := rest } : Session).onSide role f) :=
    fun f => htaken.trans (onSide_discreet role f)
  cases event with
  | stream message =>
    rw [onChannelEvent, onStream]
    dsimp only
    by_cases hfinished : message.isFinished = true
    · rw [if_pos hfinished]
      have hmark : ∀ t : Session,
          Discreet t (if role = .strict then { t with startedTo := none } else t) := by
        intro t
        split
        · exact .of_told rfl
        · exact .refl t
      exact .published (hpublishes.trans hfinished)
        (((hside _).trans (hmark _)).publish_finished role)
    · rw [if_neg hfinished]
      exact .fired (hpublishes.trans (Bool.eq_false_iff.2 hfinished))
        ((hside _).trans firePublisher_discreet) owes_firePublisher
  | notice n =>
    exact .fired hpublishes ((hside _).trans firePublisher_discreet) owes_firePublisher
  | exited code =>
    exact .published hpublishes ((hside _).trans (alert_discreet _)).publish

-- ---------------------------------------------------------------------------
-- All steps
-- ---------------------------------------------------------------------------

theorem post_steady (hopen : s.isOpen = true) (c : Command) : Steady s (s.post c) := by
  rw [post_of_open hopen]
  refine ⟨.of_told rfl, rfl, rfl, rfl, fun howes => ?_⟩
  rw [owes_iff] at howes ⊢
  exact howes.imp_right fun hmem => List.mem_append_left _ hmem

theorem runReverify_steady (hopen : s.isOpen = true) : Steady s s.runReverify := by
  have htimed : ∀ timer, Steady s { s with reverify := timer } :=
    fun _ => .of_board rfl
  unfold runReverify
  rcases s.reverify.elapse s.now with ⟨_ | time, timer⟩
  · exact htimed timer
  · exact (htimed timer).trans (post_steady (s := { s with reverify := timer }) hopen .verify)

/-- A run that is owed becomes a publication that waits. -/
theorem runPublisher_steady (hopen : s.isOpen = true) : Steady s s.runPublisher := by
  unfold runPublisher
  rcases s.publisher.due with _ | due
  · exact .refl s
  · dsimp only
    split
    · have hdiscreet : ∀ limiter, Discreet s { s with publisher := limiter } :=
        fun _ => .of_told rfl
      rcases hwake : s.publisher.wake with ⟨_ | time, limiter⟩
      · refine ⟨hdiscreet limiter, rfl, rfl, rfl, fun howes => ?_⟩
        rw [owes_iff] at howes ⊢
        refine howes.imp_left fun howes => ?_
        obtain ⟨time, hrun⟩ := RateLimiter.exists_run_of_owes howes
        simp [hwake] at hrun
      · dsimp only
        rw [post_of_open (show ({ s with publisher := limiter } : Session).isOpen = true from hopen)]
        refine ⟨.of_told rfl, rfl, rfl, rfl, fun _ => owes_iff.2 (.inr ?_)⟩
        exact List.mem_append_right _ List.mem_cons_self
    · exact .refl s

theorem runFlyCheck_steady (hopen : s.isOpen = true) : Steady s s.runFlyCheck := by
  have htimed : ∀ flyWaiting flyCheck, Steady s { s with flyWaiting, flyCheck } :=
    fun _ _ => .of_board rfl
  unfold runFlyCheck
  split
  · exact .refl s
  · exact (htimed _ _).trans
      (post_steady (s := { s with flyCheck := s.flyCheck.start.2 }) hopen .flyCheck)
  · split
    · exact htimed _ _
    · exact .refl s
  · split
    · exact htimed _ _
    · exact .refl s

theorem runSolver_steady : Steady s s.runSolver := by
  have hrestarts : ∀ (due : List Nat) (s : Session), Steady s
      (due.foldl (fun s _ => { s with strict := s.strict.tell .restartSolver }) s) := by
    intro due
    induction due with
    | nil => exact fun s => .refl s
    | cons time due ih =>
      intro s
      have htold : Steady s { s with strict := s.strict.tell .restartSolver } :=
        .of_board rfl
      exact htold.trans (ih _)
  have hleft : Steady s
      { s with solverRestarts := s.solverRestarts.filter fun due => s.now < due } :=
    .of_board rfl
  exact hleft.trans (hrestarts _ _)

/-- What happens to the link of a side does not show. -/
theorem shown_link (f : Link → Link) (lax : Option Side) :
    ((lax.map fun side => { side with link := f side.link }).map Side.model).map
        ResultModel.shown =
      (lax.map Side.model).map ResultModel.shown := by
  rcases lax with _ | side <;> rfl

theorem onLink_steady (role : Role) (f : Link → Link) : Steady s (s.onLink role f) := by
  have hside : Steady s (s.onSide role fun side => { side with link := f side.link }) := by
    cases role with
    | strict => exact .of_board rfl
    | lax => exact ⟨.of_told rfl, rfl, shown_link f s.lax, rfl, id⟩
  unfold onLink
  dsimp only
  split
  · exact hside.trans (.of_board rfl)
  · exact hside

theorem act_upshot (hopen : s.isOpen = true) (a : Step) : Upshot s a (s.act a) := by
  have hsame : Steady s s := .refl s
  cases a with
  | post c => exact .steady rfl rfl (post_steady hopen c)
  | command =>
    rcases hcommands : s.commands with _ | ⟨c, rest⟩
    · have hnone : s.act .command = s := by simp only [act, hcommands]
      rw [hnone]
      exact .steady (by simp [publishes, hcommands]) (by simp [asksFull, hcommands]) hsame
    · simp only [act, hcommands]
      exact command_upshot hcommands
  | event =>
    rcases hinbox : s.inbox with _ | ⟨⟨role, event⟩, rest⟩
    · have hnone : s.act .event = s := by simp only [act, hinbox]
      rw [hnone]
      exact .steady (by simp [publishes, hinbox]) rfl hsame
    · simp only [act, hinbox]
      exact event_upshot hinbox
  | reverify =>
    rw [act, if_pos hopen]
    exact .steady rfl rfl (runReverify_steady hopen)
  | publisher =>
    rw [act, if_pos hopen]
    exact .steady rfl rfl (runPublisher_steady hopen)
  | flyCheck =>
    rw [act, if_pos hopen]
    exact .steady rfl rfl (runFlyCheck_steady hopen)
  | solver => exact .steady rfl rfl runSolver_steady
  | output role bytes =>
    exact .steady rfl rfl (onLink_steady role fun link => link.feed bytes)
  | exit role code => exact .steady rfl rfl (onLink_steady role fun link => link.close code)
  | stopReading role =>
    exact .steady rfl rfl (onLink_steady role fun link => link.onChannel Channel.breakWriter)
  | tick ms => exact .steady rfl rfl (.of_board rfl)

theorem settleWriters_steady : Steady s s.settleWriters :=
  ⟨.of_told rfl, rfl, shown_link (fun link => link.onChannel Channel.settleWriter) s.lax, rfl, id⟩

theorem step_upshot (hopen : s.isOpen = true) (a : Step) : Upshot s a (s.step a) := by
  have hsettled : Steady (s.act a) (s.step a) := settleWriters_steady
  cases act_upshot hopen a with
  | closed hclosed => exact .closed hclosed
  | steady hpublishes hfull h => exact .steady hpublishes hfull (h.trans hsettled)
  | cleared hpublishes hfull h => exact .cleared hpublishes hfull (h.trans hsettled)
  | fired hpublishes h howes =>
    exact .fired hpublishes (h.trans hsettled.toDiscreet) (hsettled.owed howes)
  | published hpublishes h =>
    refine .published hpublishes ⟨hsettled.isOpen.trans h.isOpen, ?_, ?_, ?_⟩
    · rw [hsettled.diagnostics]
      exact h.lastDiagnostics
    · rw [hsettled.status]
      exact h.lastStatus
    · rw [hsettled.diagnostics, hsettled.status]
      exact h.emitted

-- ---------------------------------------------------------------------------
-- Runs
-- ---------------------------------------------------------------------------

theorem run_sealed (hs : s.Sealed) (steps : List Step) : (s.run steps).Sealed := by
  induction steps using List.reverseRecOn with
  | nil => exact hs
  | append_singleton steps a ih =>
    rw [run_concat]
    exact (step_onward ih a).isSealed

/-- No step opens a session again. -/
theorem isOpen_of_step (hs : s.Sealed) {a : Step} (hopen : (s.step a).isOpen = true) :
    s.isOpen = true := by
  by_contra hclosed
  have hstep := (step_onward hs a).closed (Bool.eq_false_iff.2 hclosed)
  rw [hstep.1] at hopen
  cases hopen

/-- What the steps of an open session keep, together with what is noted down, holds as long as
the session is open. -/
theorem run_open {γ : Type} (note : Session → Step → γ → γ) {P : Session → γ → Prop}
    (hkept : ∀ s noted a, Upshot s a (s.step a) → (s.step a).isOpen = true → P s noted →
      P (s.step a) (note s a noted))
    {noted : γ} (hs : s.isOpen = true) (hP : P s noted) (steps : List Step)
    (hopen : (s.run steps).isOpen = true) : P (s.run steps) (s.trail note noted steps) := by
  have hrun := run_trail note (P := fun s noted => s.Sealed ∧ (s.isOpen = true → P s noted))
    ?_ ⟨.of_open hs, fun _ => hP⟩ steps
  · exact hrun.2 hopen
  · rintro s noted a ⟨hsealed, hP⟩
    refine ⟨(step_onward hsealed a).isSealed, fun hopen' => ?_⟩
    have hopen := isOpen_of_step hsealed hopen'
    exact hkept s noted a (step_upshot hopen a) hopen' (hP hopen)

end Session

end VerifierClient

import VerifierClient.Proofs.Session.Settling

/-!
# The two halves of a session

The verifiers of a document share the text, the queues and the clock, and what they report is
published together. Still each of them is dealt with as if the other one were not there. The
half of a session that belongs to a verifier is the session with everything of the other
verifier blanked out. This module shows what each handler does to a half: it either leaves the
half alone or acts on it by what the half itself holds.

* `Session.half` — the part of a session that belongs to one verifier;
* `Session.Follows`, `Session.Spares` — what a function on sessions does to a half;
* `Session.concerns` — whether a step has to do with a verifier;
* `Session.act_congr`, `Session.act_half_of_unconcerned` — a step that does acts on the half by
  what it holds, and a step that does not leaves it alone.
-/

namespace VerifierClient

-- ---------------------------------------------------------------------------
-- Halves
-- ---------------------------------------------------------------------------

/-- Whether the command has to do with the verifier of `role`. -/
def Command.concerns (role : Role) : Command → Bool
  | .textChanged _ | .requestFull _ | .saved | .dispose _ => true
  | .requestTo _ _ | .lookup _ _ | .complete _ _ | .restartSolver | .verify => role = .strict
  | .flyCheck => role = .lax
  | .proofStates _ _ | .publish => false

namespace Session

/-- The session without the other verifier, what is published, and replies. -/
def half (s : Session) (role : Role) : Session :=
  let shared : Session :=
    { s with
      publisher := { interval := 0 }
      lastDiagnostics := none
      lastStatus := none
      commands := s.commands.filter fun c => c.concerns role
      inbox := s.inbox.filter fun entry => entry.1 = role
      emitted := []
      replies := []
      questions := [] }
  match role with
  | .strict => { shared with lax := none, flyCheck := { interval := 0 }, flyWaiting := false }
  | .lax =>
    { shared with
      strict := .new .strict "" ""
      startedTo := none
      reverify := { delay := 0 }
      solverRestarts := [] }

/-- What `f` does to the half of `role` depends on this half alone. -/
def Follows (role : Role) (f : Session → Session) : Prop :=
  ∃ act : Session → Session, ∀ s, (f s).half role = act (s.half role)

/-- The half of `role` is left alone. -/
def Spares (role : Role) (f : Session → Session) : Prop := ∀ s, (f s).half role = s.half role

theorem Spares.follows {role : Role} {f : Session → Session} (h : Spares role f) :
    Follows role f :=
  ⟨id, h⟩

theorem Follows.comp {role : Role} {f g : Session → Session} (hg : Follows role g)
    (hf : Follows role f) : Follows role fun s => g (f s) := by
  obtain ⟨actG, hactG⟩ := hg
  obtain ⟨actF, hactF⟩ := hf
  refine ⟨fun s => actG (actF s), fun s => ?_⟩
  rw [hactG, hactF]

theorem Spares.comp {role : Role} {f g : Session → Session} (hg : Spares role g)
    (hf : Spares role f) : Spares role fun s => g (f s) :=
  fun s => (hg (f s)).trans (hf s)

theorem Follows.congr {role : Role} {f : Session → Session} (hf : Follows role f)
    {s t : Session} (h : s.half role = t.half role) : (f s).half role = (f t).half role := by
  obtain ⟨act, hact⟩ := hf
  rw [hact, hact, h]

variable {s t : Session} {role : Role}

theorem half_half (s : Session) (role : Role) : (s.half role).half role = s.half role := by
  cases role <;> simp [half, List.filter_filter]

-- ---------------------------------------------------------------------------
-- What is published
-- ---------------------------------------------------------------------------

theorem emit_spares (role : Role) (event : SessionEvent) : Spares role fun s => s.emit event := by
  intro s
  cases role <;> rfl

theorem alert_spares (role : Role) (message : String) : Spares role fun s => s.alert message :=
  emit_spares role (.alert message)

theorem reply_spares (role : Role) (ticket : Nat) (answer : Reply) :
    Spares role fun s => s.reply ticket answer := by
  intro s
  cases role <;> rfl

theorem firePublisher_spares (role : Role) : Spares role firePublisher := by
  intro s
  cases role <;> rfl

theorem publish_spares (role : Role) : Spares role publish := by
  have hdiagnostics : ∀ items, Spares role fun s => s.publishDiagnostics items := by
    intro items s
    dsimp only [publishDiagnostics]
    split
    · rfl
    · cases role <;> rfl
  have hstatus : ∀ fragments, Spares role fun s => s.publishStatus fragments := by
    intro fragments s
    dsimp only [publishStatus]
    split
    · rfl
    · cases role <;> rfl
  intro s
  exact (hstatus s.status _).trans (hdiagnostics s.diagnostics s)

theorem refuse_spares (role : Role) (commands : List Command) :
    Spares role fun s => s.refuse commands := by
  intro s
  obtain ⟨replies, heq⟩ := s.refuse_eq commands
  dsimp only
  rw [heq]
  cases role <;> rfl

-- ---------------------------------------------------------------------------
-- Requests and edits
-- ---------------------------------------------------------------------------

theorem verifyStrict_half (s : Session) (kind : BufferKind) (position : Option Position) :
    (s.verifyStrict kind position).half role =
      ({ s with
        reverify := s.reverify.cancel
        strict := (s.strict.issue kind s.text position).1 } : Session).half role := by
  unfold verifyStrict
  cases s.strict.issue kind s.text position with
  | mk strict result =>
    cases result with
    | ok _ => rfl
    | error e => exact alert_spares role _ _

theorem verifyStrict_spares_lax (kind : BufferKind) (position : Option Position) :
    Spares .lax fun s => s.verifyStrict kind position :=
  fun s => verifyStrict_half s kind position

theorem verifyStrict_follows (role : Role) (kind : BufferKind) (position : Option Position) :
    Follows role fun s => s.verifyStrict kind position := by
  cases role with
  | strict =>
    refine ⟨fun h => { h with
      reverify := h.reverify.cancel
      strict := (h.strict.issue kind h.text position).1 }, fun s => ?_⟩
    exact verifyStrict_half s kind position
  | lax => exact (verifyStrict_spares_lax kind position).follows

theorem refreshLax_half (s : Session) :
    s.refreshLax.1.half role =
      ({ s with lax := s.lax.map fun side => (side.issue .lax s.text none).1 } : Session).half
        role := by
  unfold refreshLax
  cases hlax : s.lax with
  | none =>
    cases role
    · rfl
    · simp [half, hlax]
  | some side =>
    dsimp only [Option.map_some]
    cases side.issue .lax s.text none with
    | mk side result =>
      cases result with
      | ok _ => rfl
      | error e => exact alert_spares role _ _

theorem refreshLax_spares_strict : Spares .strict fun s => s.refreshLax.1 :=
  fun s => refreshLax_half s

theorem refreshLax_follows (role : Role) : Follows role fun s => s.refreshLax.1 := by
  cases role with
  | strict => exact refreshLax_spares_strict.follows
  | lax =>
    refine ⟨fun h => { h with lax := h.lax.map fun side => (side.issue .lax h.text none).1 },
      fun s => ?_⟩
    exact refreshLax_half s

theorem mark_follows (role : Role) (startedTo : Option Position) :
    Follows role fun s => { s with startedTo } := by
  cases role with
  | strict => exact ⟨fun h => { h with startedTo }, fun s => rfl⟩
  | lax => exact ⟨id, fun s => rfl⟩

theorem requestFull_follows (role : Role) (kind : BufferKind) :
    Follows role fun s => s.requestFull kind := by
  have hmark := mark_follows role none
  by_cases hkind : kind = .lax
  · have hchain := (refreshLax_follows role).comp hmark
    simpa only [requestFull, if_pos hkind] using hchain
  · have hchain := ((refreshLax_follows role).comp (verifyStrict_follows role kind none)).comp hmark
    simpa only [requestFull, if_neg hkind] using hchain

theorem requestTo_follows (role : Role) (position : Position) (lax : Bool) :
    Follows role fun s => s.requestTo position lax :=
  ((firePublisher_spares role).follows.comp (verifyStrict_follows role _ _)).comp
    (mark_follows role (some position))

theorem requestTo_spares_lax (position : Position) (lax : Bool) :
    Spares .lax fun s => s.requestTo position lax := by
  intro s
  exact (firePublisher_spares .lax _).trans (verifyStrict_spares_lax _ _ _)

theorem editStrict_follows (role : Role) (text : String) :
    Follows role fun s => s.editStrict text := by
  cases role with
  | strict =>
    refine ⟨fun h => h.editStrict text, fun s => ?_⟩
    have hmodel : (s.half .strict).strict.model = s.strict.model := rfl
    have hcovers : ∀ position, (s.half .strict).covers position = s.covers position :=
      fun _ => rfl
    cases hposition : s.strict.model.editPosition text with
    | none =>
      simp only [editStrict, hmodel, hposition]
      rfl
    | some position =>
      by_cases hcovered : s.covers position = true
      · simp only [editStrict, hmodel, hposition, hcovers, hcovered, if_true]
        rfl
      · simp only [editStrict, hmodel, hposition, hcovers, if_neg hcovered]
        rfl
  | lax =>
    refine ⟨id, fun s => ?_⟩
    dsimp only [editStrict]
    split
    · rfl
    · split <;> rfl

theorem scheduleReverify_follows (role : Role) : Follows role scheduleReverify := by
  cases role with
  | strict =>
    refine ⟨scheduleReverify, fun s => ?_⟩
    have hsettings : (s.half .strict).settings = s.settings := rfl
    by_cases hon : s.settings.verifyOnChange = true
    · simp only [scheduleReverify, hsettings, if_pos hon]
      rfl
    · simp only [scheduleReverify, hsettings, if_neg hon]
  | lax =>
    refine ⟨id, fun s => ?_⟩
    unfold scheduleReverify
    split <;> rfl

theorem scheduleFlyCheck_follows (role : Role) : Follows role scheduleFlyCheck := by
  cases role with
  | strict =>
    refine ⟨id, fun s => ?_⟩
    unfold scheduleFlyCheck
    split <;> rfl
  | lax =>
    refine ⟨scheduleFlyCheck, fun s => ?_⟩
    have hsettings : (s.half .lax).settings = s.settings := rfl
    have hlax : (s.half .lax).lax = s.lax := rfl
    by_cases hon : (s.settings.flyCheck && s.lax.isSome) = true
    · simp only [scheduleFlyCheck, hsettings, hlax, if_pos hon]
      rfl
    · simp only [scheduleFlyCheck, hsettings, hlax, if_neg hon]

theorem editLax_follows (role : Role) (f : Side → Side) :
    Follows role fun s => { s with lax := s.lax.map f } := by
  cases role with
  | strict => exact ⟨id, fun s => rfl⟩
  | lax => exact ⟨fun h => { h with lax := h.lax.map f }, fun s => rfl⟩

theorem textChanged_follows (role : Role) (text : String) :
    Follows role fun s => s.textChanged text := by
  have hset : Follows role fun s => { s with text } :=
    ⟨fun h => { h with text }, fun s => by cases role <;> rfl⟩
  obtain ⟨act, hact⟩ :=
    (firePublisher_spares role).follows.comp
      ((scheduleFlyCheck_follows role).comp
        ((scheduleReverify_follows role).comp
          ((editLax_follows role fun side => side.edit text).comp
            ((editStrict_follows role text).comp hset))))
  refine ⟨fun h => if text = h.text then h else act h, fun s => ?_⟩
  have htext : (s.half role).text = s.text := by cases role <;> rfl
  dsimp only
  rw [htext]
  by_cases hsame : text = s.text
  · rw [if_pos hsame, textChanged, if_pos hsame]
  · rw [if_neg hsame, textChanged, if_neg hsame]
    exact hact s

-- ---------------------------------------------------------------------------
-- Questions and the lax verifier's turn
-- ---------------------------------------------------------------------------

theorem ask_half (s : Session) (ticket : Nat) (question : Question) (query : Query) :
    (s.ask ticket question query).half role =
      ({ s with
        strict := s.strict.onChannel fun _ => (s.strict.channel.send query).1 } : Session).half
        role := by
  unfold ask
  cases s.strict.channel.send query with
  | mk channel result =>
    cases result with
    | ok id => cases role <;> rfl
    | error e => exact reply_spares role _ _ _

theorem ask_spares_lax (ticket : Nat) (question : Question) (query : Query) :
    Spares .lax fun s => s.ask ticket question query :=
  fun s => ask_half s ticket question query

theorem lookup_spares_lax (position : Position) (ticket : Nat) :
    Spares .lax fun s => s.lookup position ticket := by
  intro s
  dsimp only [lookup]
  split
  · exact reply_spares .lax _ _ _
  · exact ask_spares_lax _ _ _ _

theorem complete_spares_lax (position : Position) (ticket : Nat) :
    Spares .lax fun s => s.complete position ticket := by
  intro s
  dsimp only [complete]
  split
  · exact reply_spares .lax _ _ _
  · exact ask_spares_lax _ _ _ _

theorem ask_strict (s : Session) (ticket : Nat) (question : Question) (query : Query) :
    (s.ask ticket question query).strict =
      s.strict.onChannel fun _ => (s.strict.channel.send query).1 := by
  unfold ask
  cases s.strict.channel.send query with
  | mk channel result => cases result <;> rfl

theorem lookup_follows (role : Role) (position : Position) (ticket : Nat) :
    Follows role fun s => s.lookup position ticket := by
  cases role with
  | strict =>
    refine ⟨fun h => { h with strict := (h.lookup position ticket).strict }, fun s => ?_⟩
    have htext : (s.half .strict).text = s.text := rfl
    cases hword : Text.wordAt s.text position with
    | none =>
      simp only [lookup, htext, hword]
      exact reply_spares .strict _ _ _
    | some word =>
      simp only [lookup, htext, hword, ask_half, ask_strict]
      rfl
  | lax => exact (lookup_spares_lax position ticket).follows

theorem complete_follows (role : Role) (position : Position) (ticket : Nat) :
    Follows role fun s => s.complete position ticket := by
  cases role with
  | strict =>
    refine ⟨fun h => { h with strict := (h.complete position ticket).strict }, fun s => ?_⟩
    have htext : (s.half .strict).text = s.text := rfl
    cases hword : Text.wordPrefixAt s.text position with
    | none =>
      simp only [complete, htext, hword]
      exact reply_spares .strict _ _ _
    | some start =>
      simp only [complete, htext, hword, ask_half, ask_strict]
      rfl
  | lax => exact (complete_spares_lax position ticket).follows

theorem refreshLax_half_snd (s : Session) : (s.half .lax).refreshLax.2 = s.refreshLax.2 := by
  have hlax : (s.half .lax).lax = s.lax := rfl
  have htext : (s.half .lax).text = s.text := rfl
  unfold refreshLax
  rw [hlax, htext]
  cases s.lax with
  | none => rfl
  | some side =>
    dsimp only
    cases side.issue .lax s.text none with
    | mk side result => cases result <;> rfl

theorem startFlyCheck_eq (s : Session) :
    s.startFlyCheck =
      if s.refreshLax.2 then { s.refreshLax.1 with flyWaiting := true }
      else
        { s.refreshLax.1 with
          flyCheck := s.refreshLax.1.flyCheck.finish s.refreshLax.1.now } := by
  unfold startFlyCheck
  cases s.refreshLax with
  | mk after sent => cases sent <;> rfl

theorem startFlyCheck_spares_strict : Spares .strict startFlyCheck := by
  intro s
  rw [startFlyCheck_eq]
  split
  · exact refreshLax_spares_strict s
  · exact refreshLax_spares_strict s

theorem startFlyCheck_follows (role : Role) : Follows role startFlyCheck := by
  cases role with
  | strict => exact startFlyCheck_spares_strict.follows
  | lax =>
    obtain ⟨act, hact⟩ := refreshLax_follows .lax
    refine ⟨fun h =>
      if h.refreshLax.2 then { act h with flyWaiting := true }
      else { act h with flyCheck := (act h).flyCheck.finish (act h).now }, fun s => ?_⟩
    dsimp only
    rw [startFlyCheck_eq, refreshLax_half_snd, ← hact s]
    split <;> rfl

-- ---------------------------------------------------------------------------
-- Commands
-- ---------------------------------------------------------------------------

theorem dispose_half (s : Session) (ticket : Option Nat) :
    (s.dispose ticket).half role =
      ({ s with
        isOpen := false
        reverify := s.reverify.cancel
        strict := s.strict.dispose
        lax := s.lax.map Side.dispose
        commands := []
        inbox := [] } : Session).half role := by
  unfold dispose
  rw [refuse_spares role]
  cases ticket with
  | none => cases role <;> rfl
  | some ticket => cases role <;> rfl

theorem dispose_follows (role : Role) (ticket : Option Nat) :
    Follows role fun s => s.dispose ticket := by
  cases role with
  | strict =>
    refine ⟨fun h => { h with
      isOpen := false
      reverify := h.reverify.cancel
      strict := h.strict.dispose
      commands := []
      inbox := [] }, fun s => ?_⟩
    exact dispose_half s ticket
  | lax =>
    refine ⟨fun h => { h with
      isOpen := false
      lax := h.lax.map Side.dispose
      commands := []
      inbox := [] }, fun s => ?_⟩
    exact dispose_half s ticket

theorem restartSolver_follows (role : Role) : Follows role fun s => s.handle .restartSolver := by
  cases role with
  | strict =>
    exact ⟨fun h => { h with solverRestarts := h.solverRestarts ++ [h.now + solverGrace] },
      fun s => rfl⟩
  | lax => exact ⟨id, fun s => rfl⟩

theorem handle_follows (role : Role) (c : Command) : Follows role fun s => s.handle c := by
  cases c with
  | textChanged text => exact textChanged_follows role text
  | requestFull kind => exact requestFull_follows role kind
  | requestTo position lax => exact requestTo_follows role position lax
  | saved => exact requestFull_follows role .full
  | lookup position ticket => exact lookup_follows role position ticket
  | complete position ticket => exact complete_follows role position ticket
  | proofStates line ticket =>
    exact Spares.follows fun s => reply_spares role ticket _ s
  | restartSolver => exact restartSolver_follows role
  | verify => exact verifyStrict_follows role .full none
  | publish => exact (publish_spares role).follows
  | flyCheck => exact startFlyCheck_follows role
  | dispose ticket => exact dispose_follows role ticket

/-- A command that has nothing to do with a verifier leaves its half alone. -/
theorem handle_spares {c : Command} (h : c.concerns role = false) :
    Spares role fun s => s.handle c := by
  cases c with
  | textChanged text => cases h
  | requestFull kind => cases h
  | saved => cases h
  | dispose ticket => cases h
  | proofStates line ticket => exact fun s => reply_spares role ticket _ s
  | publish => exact publish_spares role
  | flyCheck =>
    cases role with
    | strict => exact startFlyCheck_spares_strict
    | lax => cases h
  | requestTo position lax =>
    cases role with
    | strict => cases h
    | lax => exact requestTo_spares_lax position lax
  | lookup position ticket =>
    cases role with
    | strict => cases h
    | lax => exact lookup_spares_lax position ticket
  | complete position ticket =>
    cases role with
    | strict => cases h
    | lax => exact complete_spares_lax position ticket
  | restartSolver =>
    cases role with
    | strict => cases h
    | lax => exact fun s => rfl
  | verify =>
    cases role with
    | strict => cases h
    | lax => exact verifyStrict_spares_lax .full none

-- ---------------------------------------------------------------------------
-- Reports
-- ---------------------------------------------------------------------------

theorem onSide_follows (role origin : Role) (f : Side → Side) :
    Follows role fun s => s.onSide origin f := by
  cases origin with
  | lax => exact editLax_follows role f
  | strict =>
    cases role with
    | strict => exact ⟨fun h => { h with strict := f h.strict }, fun s => rfl⟩
    | lax => exact ⟨id, fun s => rfl⟩

theorem onSide_spares {origin : Role} (h : origin ≠ role) (f : Side → Side) :
    Spares role fun s => s.onSide origin f := by
  intro s
  cases origin <;> cases role
  · exact absurd rfl h
  · rfl
  · rfl
  · exact absurd rfl h

theorem onStream_follows (role origin : Role) (message : StreamMessage) :
    Follows role fun s => s.onStream origin message := by
  have hfold := onSide_follows role origin fun side => side.fold message
  have hemit := ((emit_spares role (.finished origin)).comp (publish_spares role)).follows
  by_cases hfinished : message.isFinished = true
  · cases origin with
    | strict =>
      have hchain := hemit.comp ((mark_follows role none).comp hfold)
      simpa only [onStream, hfinished, if_true] using hchain
    | lax =>
      have hchain := hemit.comp hfold
      simpa only [onStream, hfinished, if_true, reduceCtorEq, if_false] using hchain
  · have hchain := (firePublisher_spares role).follows.comp hfold
    simpa only [onStream, hfinished, Bool.false_eq_true, if_false] using hchain

theorem onStream_spares {origin : Role} (h : origin ≠ role) (message : StreamMessage) :
    Spares role fun s => s.onStream origin message := by
  intro s
  have hfold := onSide_spares h (fun side => side.fold message) s
  dsimp only [onStream]
  split
  · rw [emit_spares role, publish_spares role]
    by_cases hstrict : origin = .strict
    · have hlax : role = .lax := by cases role <;> simp_all
      subst hlax
      rw [if_pos hstrict]
      exact hfold
    · rw [if_neg hstrict]
      exact hfold
  · rw [firePublisher_spares role]
    exact hfold

theorem onChannelEvent_follows (role origin : Role) (event : ChannelEvent) :
    Follows role fun s => s.onChannelEvent origin event := by
  cases event with
  | stream message => exact onStream_follows role origin message
  | notice n => exact (firePublisher_spares role).follows.comp (onSide_follows role origin _)
  | exited code =>
    exact ((publish_spares role).follows.comp (alert_spares role _).follows).comp
      (onSide_follows role origin _)

/-- What one verifier reports leaves the half of the other one alone. -/
theorem onChannelEvent_spares {origin : Role} (h : origin ≠ role) (event : ChannelEvent) :
    Spares role fun s => s.onChannelEvent origin event := by
  cases event with
  | stream message => exact onStream_spares h message
  | notice n => exact (firePublisher_spares role).comp (onSide_spares h _)
  | exited code =>
    exact ((publish_spares role).comp (alert_spares role _)).comp (onSide_spares h _)

-- ---------------------------------------------------------------------------
-- Steps
-- ---------------------------------------------------------------------------

/-- Whether the step has to do with the verifier of `role`. -/
def concerns (s : Session) (role : Role) : Step → Bool
  | .post c => c.concerns role
  | .command => s.commands.head?.any fun c => c.concerns role
  | .event => s.inbox.head?.any fun entry => entry.1 = role
  | .reverify | .solver => role = .strict
  | .flyCheck => role = .lax
  | .publisher => false
  | .output origin _ | .exit origin _ | .stopReading origin => origin = role
  | .tick _ => true

theorem half_isOpen (s : Session) (role : Role) : (s.half role).isOpen = s.isOpen := by
  cases role <;> rfl

theorem post_half (s : Session) (c : Command) :
    (s.post c).half role =
      if (s.half role).isOpen then
        { s.half role with
          commands := (s.half role).commands ++ [c].filter fun c => c.concerns role }
      else s.half role := by
  rw [half_isOpen]
  unfold post
  split
  · cases role <;> simp only [half, List.filter_append]
  · exact refuse_spares role [c] s

theorem post_follows (role : Role) (c : Command) : Follows role fun s => s.post c :=
  ⟨fun h => if h.isOpen then
      { h with commands := h.commands ++ [c].filter fun c => c.concerns role }
    else h, fun s => post_half s c⟩

theorem post_spares {c : Command} (h : c.concerns role = false) :
    Spares role fun s => s.post c := by
  intro s
  have hnone : [c].filter (fun c => c.concerns role) = [] := by simp [h]
  dsimp only
  rw [post_half, hnone, List.append_nil]
  split <;> rfl

theorem runReverify_eq (s : Session) :
    s.runReverify =
      if (s.reverify.elapse s.now).1.isSome then
        ({ s with reverify := (s.reverify.elapse s.now).2 } : Session).post .verify
      else { s with reverify := (s.reverify.elapse s.now).2 } := by
  unfold runReverify
  cases s.reverify.elapse s.now with
  | mk run timer => cases run <;> rfl

theorem runReverify_spares_lax : Spares .lax runReverify := by
  intro s
  rw [runReverify_eq]
  split
  · exact post_spares rfl _
  · rfl

theorem runReverify_follows_strict : Follows .strict runReverify := by
  obtain ⟨act, hact⟩ := post_follows .strict .verify
  refine ⟨fun h =>
    if (h.reverify.elapse h.now).1.isSome then
      act { h with reverify := (h.reverify.elapse h.now).2 }
    else { h with reverify := (h.reverify.elapse h.now).2 }, fun s => ?_⟩
  rw [runReverify_eq]
  show _ = if (s.reverify.elapse s.now).1.isSome then _ else _
  split
  · exact hact _
  · rfl

theorem runPublisher_spares (role : Role) : Spares role runPublisher := by
  have hset : ∀ limiter : RateLimiter, Spares role fun s => { s with publisher := limiter } := by
    intro limiter s
    cases role <;> rfl
  intro s
  unfold runPublisher
  cases s.publisher.due with
  | none => rfl
  | some due =>
    dsimp only
    split
    · cases s.publisher.wake with
      | mk run limiter =>
        cases run with
        | none => exact hset limiter s
        | some time => exact (post_spares rfl _).trans (hset limiter s)
    · rfl

theorem runFlyCheck_spares_strict : Spares .strict runFlyCheck := by
  intro s
  unfold runFlyCheck
  split
  · rfl
  · exact post_spares rfl _
  · split <;> rfl
  · split <;> rfl

theorem runFlyCheck_follows_lax : Follows .lax runFlyCheck := by
  refine ⟨fun h => h.runFlyCheck.half .lax, fun s => ?_⟩
  have hset : ∀ flyCheck flyWaiting,
      ({ s with flyCheck, flyWaiting } : Session).half .lax =
        ({ s.half .lax with flyCheck, flyWaiting } : Session).half .lax := by
    intro flyCheck flyWaiting
    simp [half, List.filter_filter]
  have hphase : (s.half .lax).flyCheck = s.flyCheck := rfl
  have hover : (s.half .lax).flyCheckOver = s.flyCheckOver := rfl
  have hnow : (s.half .lax).now = s.now := rfl
  unfold runFlyCheck
  dsimp only
  rw [hphase, hover, hnow]
  cases s.flyCheck.phase with
  | idle => exact (half_half s .lax).symm
  | starting job => exact (post_follows .lax .flyCheck).congr (hset _ _)
  | working job =>
    dsimp only
    split
    · exact hset _ _
    · exact (half_half s .lax).symm
  | spacing due =>
    dsimp only
    split
    · exact hset _ _
    · exact (half_half s .lax).symm

theorem runSolver_spares_lax : Spares .lax runSolver := by
  intro s
  obtain ⟨strict, heq⟩ := s.runSolver_eq
  rw [heq]
  rfl

theorem runSolver_follows_strict : Follows .strict runSolver := by
  have htell : ∀ (due : List Nat) (s : Session),
      (due.foldl (fun s _ => { s with strict := s.strict.tell .restartSolver }) s).half .strict =
        due.foldl (fun s _ => { s with strict := s.strict.tell .restartSolver })
          (s.half .strict) := by
    intro due
    induction due with
    | nil => exact fun s => rfl
    | cons time due ih => exact fun s => ih { s with strict := s.strict.tell .restartSolver }
  exact ⟨runSolver, fun s => htell _ _⟩

theorem onLink_follows (role : Role) (f : Link → Link) :
    Follows role fun s => s.onLink role f := by
  refine ⟨fun h => h.onLink role f, fun s => ?_⟩
  have hjoin : ∀ events : List ChannelEvent,
      (events.map fun event => (role, event)).filter (fun entry => entry.1 = role) =
        events.map fun event => (role, event) := by
    intro events
    exact List.filter_eq_self.2 (by simp)
  unfold onLink
  dsimp only
  rw [half_isOpen]
  split
  · cases role <;> simp only [half, List.filter_append, hjoin] <;> rfl
  · cases role <;> rfl

theorem onLink_spares {origin : Role} (h : origin ≠ role) (f : Link → Link) :
    Spares role fun s => s.onLink origin f := by
  intro s
  have hnone : ∀ events : List ChannelEvent,
      (events.map fun event => (origin, event)).filter (fun entry => entry.1 = role) = [] := by
    intro events
    exact List.filter_eq_nil_iff.2 (by simp [h])
  have hside := onSide_spares h (fun side => { side with link := f side.link }) s
  unfold onLink
  dsimp only
  split
  · cases origin <;> cases role
    · exact absurd rfl h
    · simp only [half, List.filter_append, hnone, List.append_nil]
      rfl
    · simp only [half, List.filter_append, hnone, List.append_nil]
      rfl
    · exact absurd rfl h
  · exact hside

theorem settleWriters_follows (role : Role) : Follows role settleWriters := by
  cases role with
  | strict =>
    exact ⟨fun h => { h with strict := h.strict.onChannel Channel.settleWriter }, fun s => rfl⟩
  | lax =>
    exact ⟨fun h => { h with lax := h.lax.map fun side => side.onChannel Channel.settleWriter },
      fun s => rfl⟩

/-- Taking a command that has to do with a verifier takes the first one of its half. -/
theorem half_pop_command {c : Command} {rest : List Command} (hcommands : s.commands = c :: rest)
    (hc : c.concerns role = true) :
    (s.half role).commands.head? = some c ∧
      ({ s with commands := rest } : Session).half role =
        { s.half role with commands := (s.half role).commands.tail } := by
  cases role <;> simp [half, hcommands, hc]

theorem half_skip_command {c : Command} {rest : List Command} (hcommands : s.commands = c :: rest)
    (hc : c.concerns role = false) :
    ({ s with commands := rest } : Session).half role = s.half role := by
  cases role <;> simp [half, hcommands, hc]

theorem half_pop_event {event : ChannelEvent} {rest : List (Role × ChannelEvent)}
    (hinbox : s.inbox = (role, event) :: rest) :
    (s.half role).inbox.head? = some (role, event) ∧
      ({ s with inbox := rest } : Session).half role =
        { s.half role with inbox := (s.half role).inbox.tail } := by
  cases role <;> simp [half, hinbox]

theorem half_skip_event {origin : Role} {event : ChannelEvent}
    {rest : List (Role × ChannelEvent)} (hinbox : s.inbox = (origin, event) :: rest)
    (h : origin ≠ role) : ({ s with inbox := rest } : Session).half role = s.half role := by
  cases role <;> simp [half, hinbox, h]

theorem takeCommand_congr (h : s.half role = t.half role)
    (hs : s.concerns role .command = true) (ht : t.concerns role .command = true) :
    (s.act .command).half role = (t.act .command).half role := by
  unfold concerns at hs ht
  cases hcommands : s.commands with
  | nil => simp [hcommands] at hs
  | cons c rest =>
    cases hcommands' : t.commands with
    | nil => simp [hcommands'] at ht
    | cons c' rest' =>
      rw [hcommands] at hs
      rw [hcommands'] at ht
      obtain ⟨hfirst, hpop⟩ := half_pop_command hcommands hs
      obtain ⟨hfirst', hpop'⟩ := half_pop_command hcommands' ht
      have hsame : c = c' := by
        rw [h, hfirst'] at hfirst
        exact (Option.some.inj hfirst).symm
      subst hsame
      simp only [act, hcommands, hcommands']
      refine (handle_follows role c).congr ?_
      rw [hpop, hpop', h]

theorem takeEvent_congr (h : s.half role = t.half role)
    (hs : s.concerns role .event = true) (ht : t.concerns role .event = true) :
    (s.act .event).half role = (t.act .event).half role := by
  unfold concerns at hs ht
  cases hinbox : s.inbox with
  | nil => simp [hinbox] at hs
  | cons first rest =>
    cases hinbox' : t.inbox with
    | nil => simp [hinbox'] at ht
    | cons first' rest' =>
      obtain ⟨origin, event⟩ := first
      obtain ⟨origin', event'⟩ := first'
      obtain rfl : origin = role := by simpa [hinbox] using hs
      obtain rfl : origin' = origin := by simpa [hinbox'] using ht
      obtain ⟨hfirst, hpop⟩ := half_pop_event hinbox
      obtain ⟨hfirst', hpop'⟩ := half_pop_event hinbox'
      have hsame : event = event' := by
        rw [h, hfirst'] at hfirst
        exact (Prod.mk.inj (Option.some.inj hfirst)).2.symm
      subst hsame
      simp only [act, hinbox, hinbox']
      refine (onChannelEvent_follows origin' origin' event).congr ?_
      rw [hpop, hpop', h]

theorem act_congr {a : Step} (h : s.half role = t.half role) (hs : s.concerns role a = true)
    (ht : t.concerns role a = true) : (s.act a).half role = (t.act a).half role := by
  have hopen : s.isOpen = t.isOpen := by
    rw [← half_isOpen s role, h, half_isOpen]
  cases a with
  | post c => exact (post_follows role c).congr h
  | command => exact takeCommand_congr h hs ht
  | event => exact takeEvent_congr h hs ht
  | reverify =>
    obtain rfl : role = .strict := by simpa [concerns] using hs
    simp only [act, hopen]
    split
    · exact runReverify_follows_strict.congr h
    · exact h
  | publisher => cases hs
  | flyCheck =>
    obtain rfl : role = .lax := by simpa [concerns] using hs
    simp only [act, hopen]
    split
    · exact runFlyCheck_follows_lax.congr h
    · exact h
  | solver =>
    obtain rfl : role = .strict := by simpa [concerns] using hs
    exact runSolver_follows_strict.congr h
  | output origin bytes =>
    obtain rfl : origin = role := by simpa [concerns] using hs
    exact (onLink_follows origin fun link => link.feed bytes).congr h
  | exit origin code =>
    obtain rfl : origin = role := by simpa [concerns] using hs
    exact (onLink_follows origin fun link => link.close code).congr h
  | stopReading origin =>
    obtain rfl : origin = role := by simpa [concerns] using hs
    exact (onLink_follows origin fun link => link.onChannel Channel.breakWriter).congr h
  | tick ms =>
    have hclock : Follows role fun s => { s with now := s.now + ms } :=
      ⟨fun h => { h with now := h.now + ms }, fun s => by cases role <;> rfl⟩
    exact hclock.congr h

theorem act_half_of_unconcerned {a : Step} (h : s.concerns role a = false) :
    (s.act a).half role = s.half role := by
  cases a with
  | post c => exact post_spares h s
  | command =>
    cases hcommands : s.commands with
    | nil => simp only [act, hcommands]
    | cons c rest =>
      have hc : c.concerns role = false := by simpa [concerns, hcommands] using h
      simp only [act, hcommands]
      exact (handle_spares hc _).trans (half_skip_command hcommands hc)
  | event =>
    cases hinbox : s.inbox with
    | nil => simp only [act, hinbox]
    | cons first rest =>
      obtain ⟨origin, event⟩ := first
      have horigin : origin ≠ role := by simpa [concerns, hinbox] using h
      simp only [act, hinbox]
      exact (onChannelEvent_spares horigin event _).trans (half_skip_event hinbox horigin)
  | reverify =>
    obtain rfl : role = .lax := by cases role <;> simp_all [concerns]
    simp only [act]
    split
    · exact runReverify_spares_lax s
    · rfl
  | publisher =>
    simp only [act]
    split
    · exact runPublisher_spares role s
    · rfl
  | flyCheck =>
    obtain rfl : role = .strict := by cases role <;> simp_all [concerns]
    simp only [act]
    split
    · exact runFlyCheck_spares_strict s
    · rfl
  | solver =>
    obtain rfl : role = .lax := by cases role <;> simp_all [concerns]
    exact runSolver_spares_lax s
  | output origin bytes => exact onLink_spares (by simpa [concerns] using h) _ s
  | exit origin code => exact onLink_spares (by simpa [concerns] using h) _ s
  | stopReading origin => exact onLink_spares (by simpa [concerns] using h) _ s
  | tick ms => cases h

end Session

end VerifierClient

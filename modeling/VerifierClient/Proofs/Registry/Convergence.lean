import VerifierClient.Proofs.Registry.Shelves

/-!
# The store converges to the open sessions

Events of a session that is gone may still wait when its document is closed, opened again or
restarted. They are told from those of the session that came after it only by their place in
the queue. Still the store ends up with what the open sessions published last: a session takes
its results back before the next one for the same document begins, and says nothing after that.

* `Shelf.Converging` — when the events that wait have been read, the store holds for each
  document what its session published last;
* `Registry.Act` — the operations of a registry, and single steps of its sessions;
* `Registry.performs_converging` — no run leaves this state of affairs;
* `Registry.store_converges` — what the store holds when no event waits.
-/

namespace VerifierClient

namespace Shelf

variable {β : Type} {shelf : Shelf β} {r : Registry}

/-- The store, together with the events that wait, is in step with the open sessions. -/
structure Converging (shelf : Shelf β) (r : Registry) : Prop where
  /-- a session that is open is the one that its document has now -/
  owned : ∀ {number : Nat} {s : Session}, r.sessions[number]? = some s → s.isOpen = true →
    ∃ doc, r.documents.get? s.uri = some doc ∧ doc.session = number
  found : ∀ {uri : Uri} {doc : Document}, r.documents.get? uri = some doc →
    ∃ s, r.sessions[doc.session]? = some s ∧ s.uri = uri
  isSealed : ∀ {number : Nat} {s : Session}, r.sessions[number]? = some s → s.Sealed
  ahead : ∀ uri, shelf.ahead r uri = shelf.published r uri

theorem published_of_open {uri : Uri} {doc : Document} {s : Session}
    (hdoc : r.documents.get? uri = some doc) (hs : r.sessions[doc.session]? = some s) :
    shelf.published r uri = (shelf.latest s.emitted).getD [] := by
  simp [published, Registry.session?, hdoc, hs]

theorem published_of_not_open {uri : Uri} (hdoc : r.documents.get? uri = none) :
    shelf.published r uri = [] := by
  simp [published, Registry.session?, hdoc]

-- ---------------------------------------------------------------------------
-- Sessions at work
-- ---------------------------------------------------------------------------

/-- A session that is not the one of its document any more has nothing to say. -/
theorem Converging.closed_of_replaced (h : shelf.Converging r) {number : Nat} {s s' : Session}
    (hs : r.sessions[number]? = some s) (honward : s.Onward s')
    (hreplaced : ¬ ∃ doc, r.documents.get? s.uri = some doc ∧ doc.session = number) :
    s'.emitted = s.emitted := by
  refine (honward.closed ?_).2
  rw [← Bool.not_eq_true]
  exact fun hopen => hreplaced (h.owned hs hopen)

/-- A session goes on, and what it emits joins the queue. -/
theorem Converging.advance (h : shelf.Converging r) {number : Nat} {s s' : Session}
    (hs : r.sessions[number]? = some s) (honward : s.Onward s') {events : List SessionEvent}
    (hevents : s.emitted ++ events = s'.emitted) :
    shelf.Converging { r with
      sessions := r.sessions.set number s'
      queue := r.queue ++ events.map fun e => (s.uri, e) } := by
  let r' : Registry :=
    { r with
      sessions := r.sessions.set number s'
      queue := r.queue ++ events.map fun e => (s.uri, e) }
  have hself : r'.sessions[number]? = some s' :=
    List.getElem?_set_self (List.getElem?_eq_some_iff.1 hs).1
  have hother : ∀ {m : Nat}, m ≠ number → r'.sessions[m]? = r.sessions[m]? :=
    fun hm => List.getElem?_set_ne (Ne.symm hm)
  refine ⟨?_, ?_, ?_, ?_⟩
  · intro m t ht hopen
    by_cases hm : m = number
    · subst hm
      obtain rfl : s' = t := Option.some.inj (hself.symm.trans ht)
      have hbefore : s.isOpen = true := by
        rw [← Bool.not_eq_false]
        intro hclosed
        simp [(honward.closed hclosed).1] at hopen
      rw [honward.uri]
      exact h.owned hs hbefore
    · exact h.owned ((hother hm).symm.trans ht) hopen
  · intro uri doc hdoc
    obtain ⟨t, ht, huri⟩ := h.found hdoc
    by_cases hm : doc.session = number
    · subst hm
      obtain rfl : s = t := Option.some.inj (hs.symm.trans ht)
      exact ⟨s', hself, honward.uri.trans huri⟩
    · exact ⟨t, (hother hm).trans ht, huri⟩
  · intro m t ht
    by_cases hm : m = number
    · subst hm
      obtain rfl : s' = t := Option.some.inj (hself.symm.trans ht)
      exact honward.isSealed
    · exact h.isSealed ((hother hm).symm.trans ht)
  · intro uri
    have hqueue : r'.queue = r.queue ++ events.map fun e => (s.uri, e) := rfl
    have hahead := shelf.ahead_of_append hqueue rfl uri
    show shelf.ahead r' uri = shelf.published r' uri
    rw [hahead, h.ahead]
    by_cases hcurrent : ∃ doc, r.documents.get? uri = some doc ∧ doc.session = number
    · obtain ⟨doc, hdoc, rfl⟩ := hcurrent
      obtain ⟨t, ht, huri⟩ := h.found hdoc
      obtain rfl : s = t := Option.some.inj (hs.symm.trans ht)
      rw [if_pos huri.symm, published_of_open hdoc hs, published_of_open (r := r') hdoc hself,
        ← hevents, latest_append]
      cases shelf.latest events <;> rfl
    · have hsame : shelf.published r' uri = shelf.published r uri := by
        cases hdoc : r.documents.get? uri with
        | none => rw [published_of_not_open hdoc, published_of_not_open (r := r') hdoc]
        | some doc =>
          obtain ⟨t, ht, -⟩ := h.found hdoc
          have ht' : r'.sessions[doc.session]? = some t :=
            (hother fun hnumber => hcurrent ⟨doc, hdoc, hnumber⟩).trans ht
          rw [published_of_open hdoc ht, published_of_open (r := r') hdoc ht']
      rw [hsame]
      by_cases huri : uri = s.uri
      · have hnone := h.closed_of_replaced hs honward (huri ▸ hcurrent)
        have hquiet : events = [] := by simpa [hnone] using hevents
        rw [if_pos huri, hquiet]
        rfl
      · rw [if_neg huri]

theorem Converging.onSession (h : shelf.Converging r) (number : Nat) {f : Session → Session}
    (hf : ∀ s : Session, s.Sealed → s.Onward (f s)) :
    shelf.Converging (r.onSession number f) := by
  unfold Registry.onSession
  cases hs : r.sessions[number]? with
  | none => exact h
  | some s =>
    have honward := hf s (h.isSealed hs)
    obtain ⟨events, hevents⟩ := honward.emitted
    have hfresh : (f s).emitted.drop s.emitted.length = events := by
      rw [← hevents, List.drop_left]
    dsimp only
    rw [hfresh]
    exact h.advance hs honward hevents

theorem Converging.input (h : shelf.Converging r) (number : Nat) (a : Session.Step) :
    shelf.Converging (r.input number a) :=
  h.onSession number fun _ hs => Session.input_onward hs a

theorem Converging.forward (h : shelf.Converging r) (uri : Uri) (c : Command) :
    shelf.Converging (r.forward uri c) := by
  unfold Registry.forward
  split
  · exact h.input _ (.post c)
  · exact h

-- ---------------------------------------------------------------------------
-- Sessions that come and go
-- ---------------------------------------------------------------------------

/-- A document whose session is closed is forgotten. -/
theorem Converging.erase (h : shelf.Converging r) {uri : Uri} {doc : Document} {s : Session}
    (hdoc : r.documents.get? uri = some doc) (hs : r.sessions[doc.session]? = some s)
    (hclosed : s.isOpen = false) :
    shelf.Converging { r with documents := r.documents.erase uri } := by
  let r' : Registry := { r with documents := r.documents.erase uri }
  have hother : ∀ {uri' : Uri}, uri' ≠ uri → r'.documents.get? uri' = r.documents.get? uri' := by
    intro uri' hne
    exact (Table.get?_erase _ _ _).trans (if_neg hne)
  have hself : r'.documents.get? uri = none := (Table.get?_erase _ _ _).trans (if_pos rfl)
  refine ⟨?_, ?_, h.isSealed, ?_⟩
  · intro m t ht hopen
    obtain ⟨doc', hdoc', hm⟩ := h.owned ht hopen
    refine ⟨doc', (hother ?_).trans hdoc', hm⟩
    intro hsame
    rw [hsame, hdoc, Option.some.injEq] at hdoc'
    subst hdoc' hm
    obtain rfl : s = t := Option.some.inj (hs.symm.trans ht)
    simp [hclosed] at hopen
  · intro uri' doc' hdoc'
    by_cases hsame : uri' = uri
    · rw [hsame] at hdoc'
      cases hself.symm.trans hdoc'
    · exact h.found ((hother hsame).symm.trans hdoc')
  · intro uri'
    show shelf.ahead r uri' = shelf.published r' uri'
    rw [h.ahead]
    by_cases hsame : uri' = uri
    · subst hsame
      rw [published_of_not_open hself, published_of_open hdoc hs,
        shelf.latest_of_farewell ((h.isSealed hs).emitted hclosed)]
      rfl
    · simp only [published, Registry.session?, hother hsame]
      rfl

theorem drop_eq {uri : Uri} {doc : Document} (hdoc : r.documents.get? uri = some doc) :
    r.drop uri =
      { r.post doc.session (.dispose none) with documents := r.documents.erase uri } := by
  simp only [Registry.drop, hdoc, Registry.post, Registry.input, Registry.onSession]
  cases r.sessions[doc.session]? <;> rfl

theorem drop_of_not_open {uri : Uri} (hdoc : r.documents.get? uri = none) : r.drop uri = r := by
  simp only [Registry.drop, hdoc]

/-- The session of a document is closed, and takes its results back before it is forgotten. -/
theorem Converging.drop (h : shelf.Converging r) (uri : Uri) : shelf.Converging (r.drop uri) := by
  cases hdoc : r.documents.get? uri with
  | none => exact (drop_of_not_open hdoc).symm ▸ h
  | some doc =>
    obtain ⟨s, hs, -⟩ := h.found hdoc
    have hdisposed : shelf.Converging (r.post doc.session (.dispose none)) := h.input _ _
    have hpost : r.post doc.session (.dispose none) =
        { r with
          sessions := r.sessions.set doc.session (s.input (.post (.dispose none)))
          queue := (r.post doc.session (.dispose none)).queue } := by
      simp only [Registry.post, Registry.input, Registry.onSession, hs]
    have hkept : (r.post doc.session (.dispose none)).documents = r.documents := by rw [hpost]
    have hsession : (r.post doc.session (.dispose none)).sessions[doc.session]? =
        some (s.input (.post (.dispose none))) := by
      rw [hpost]
      exact List.getElem?_set_self (List.getElem?_eq_some_iff.1 hs).1
    have herased := hdisposed.erase (hkept ▸ hdoc) hsession (s.isOpen_input_dispose none)
    rw [drop_eq hdoc]
    rwa [hkept] at herased

theorem get?_drop (r : Registry) (uri : Uri) : (r.drop uri).documents.get? uri = none := by
  cases hdoc : r.documents.get? uri with
  | none => rw [drop_of_not_open hdoc, hdoc]
  | some doc =>
    rw [drop_eq hdoc]
    exact (Table.get?_erase _ _ _).trans (if_pos rfl)

/-- A session begins for a document that has none. -/
theorem Converging.addSession (h : shelf.Converging r) {s : Session}
    (hnew : r.documents.get? s.uri = none) (hopen : s.isOpen = true) (alerts : List String) :
    shelf.Converging (r.addSession s alerts) := by
  have hget : ∀ m, (r.addSession s alerts).sessions[m]? =
      if m = r.sessions.length then some s else r.sessions[m]? := by
    intro m
    show (r.sessions ++ [s])[m]? = _
    by_cases hm : m = r.sessions.length
    · subst hm
      simp
    · rw [if_neg hm]
      rcases Nat.lt_or_gt_of_ne hm with hlt | hgt
      · exact List.getElem?_append_left hlt
      · rw [List.getElem?_eq_none (by simp; omega), List.getElem?_eq_none (by omega)]
  have hdocuments : ∀ uri, (r.addSession s alerts).documents.get? uri =
      if uri = s.uri then some ⟨r.sessions.length, s.text⟩ else r.documents.get? uri :=
    fun uri => Table.get?_insert _ _ _ _
  have hlt : ∀ {m : Nat} {t : Session}, r.sessions[m]? = some t → m ≠ r.sessions.length := by
    intro m t ht hm
    have := (List.getElem?_eq_some_iff.1 ht).1
    omega
  refine ⟨?_, ?_, ?_, ?_⟩
  · intro m t ht hopen'
    rw [hget] at ht
    by_cases hm : m = r.sessions.length
    · rw [if_pos hm, Option.some.injEq] at ht
      subst ht
      exact ⟨_, (hdocuments _).trans (if_pos rfl), hm.symm⟩
    · rw [if_neg hm] at ht
      obtain ⟨doc, hdoc, hnumber⟩ := h.owned ht hopen'
      refine ⟨doc, ?_, hnumber⟩
      rw [hdocuments, if_neg, hdoc]
      intro hsame
      rw [hsame, hnew] at hdoc
      cases hdoc
  · intro uri doc hdoc
    rw [hdocuments] at hdoc
    by_cases huri : uri = s.uri
    · rw [if_pos huri, Option.some.injEq] at hdoc
      subst hdoc
      exact ⟨s, (hget _).trans (if_pos rfl), huri.symm⟩
    · rw [if_neg huri] at hdoc
      obtain ⟨t, ht, hsource⟩ := h.found hdoc
      exact ⟨t, by rw [hget, if_neg (hlt ht), ht], hsource⟩
  · intro m t ht
    rw [hget] at ht
    by_cases hm : m = r.sessions.length
    · rw [if_pos hm, Option.some.injEq] at ht
      exact ht ▸ .of_open hopen
    · rw [if_neg hm] at ht
      exact h.isSealed ht
  · intro uri
    have hqueue : (r.addSession s alerts).queue =
        r.queue ++ (alerts.map SessionEvent.alert ++ s.emitted).map fun e => (s.uri, e) := rfl
    have hahead := shelf.ahead_of_append hqueue rfl uri
    rw [hahead, h.ahead]
    by_cases huri : uri = s.uri
    · subst huri
      rw [if_pos rfl, published_of_not_open hnew,
        published_of_open ((hdocuments _).trans (if_pos rfl)) ((hget _).trans (if_pos rfl)),
        latest_append, latest_alerts, Option.or_none]
    · rw [if_neg huri]
      cases hdoc : r.documents.get? uri with
      | none =>
        rw [published_of_not_open hdoc,
          published_of_not_open (((hdocuments uri).trans (if_neg huri)).trans hdoc)]
      | some doc =>
        obtain ⟨t, ht, -⟩ := h.found hdoc
        rw [published_of_open hdoc ht,
          published_of_open (((hdocuments uri).trans (if_neg huri)).trans hdoc)
            (((hget _).trans (if_neg (hlt ht))).trans ht)]

theorem Converging.start (h : shelf.Converging r) (launch : Launcher) {uri : Uri}
    (hnew : r.documents.get? uri = none) (text : String) :
    shelf.Converging (r.start launch uri text).1 := by
  have hadd : ∀ withLax alerts, shelf.Converging
      (r.addSession (Session.start uri text r.settings withLax r.now) alerts) := by
    intro withLax alerts
    have hhandled := Session.openDocument_handling
      (s := Session.new uri text r.settings withLax r.now)
    have huri : (Session.start uri text r.settings withLax r.now).uri = uri := hhandled.uri
    exact h.addSession (huri.symm ▸ hnew) hhandled.isOpen alerts
  unfold Registry.start
  split
  · exact h
  · dsimp only
    split
    · split
      · exact hadd true _
      · exact hadd false _
    · exact hadd false _

-- ---------------------------------------------------------------------------
-- Reading the queue
-- ---------------------------------------------------------------------------

theorem record_eq (r : Registry) (uri : Uri) (e : SessionEvent) :
    ∃ store alerts, r.record uri e = { r with store, alerts } := by
  cases e with
  | diagnostics items =>
    simp only [Registry.record]
    split
    · exact ⟨_, r.alerts, rfl⟩
    · exact ⟨r.store, r.alerts, rfl⟩
  | status fragments =>
    simp only [Registry.record]
    split
    · exact ⟨_, r.alerts, rfl⟩
    · exact ⟨r.store, r.alerts, rfl⟩
  | alert message => exact ⟨r.store, _, rfl⟩
  | finished role => exact ⟨r.store, r.alerts, rfl⟩

theorem get?_of_not_isOpen {uri : Uri} (h : r.isOpen uri = false) :
    r.documents.get? uri = none := by
  simpa [Registry.isOpen, Table.contains] using h

/-- What the first event that waits comes to. -/
theorem ahead_cons (r : Registry) (source uri : Uri) (e : SessionEvent)
    (queue : List (Uri × SessionEvent)) :
    shelf.ahead { r with queue := (source, e) :: queue } uri =
      if source = uri then
        ((shelf.latest (Registry.waiting queue uri)).or (shelf.pick e)).getD
          (shelf.read r.store uri)
      else shelf.ahead { r with queue } uri := by
  have hsingle : shelf.latest [e] = shelf.pick e := by
    cases hpick : shelf.pick e <;> simp [latest, hpick]
  have hsplit := shelf.latest_append [e] (Registry.waiting queue uri)
  rw [hsingle] at hsplit
  simp only [Shelf.ahead, Registry.waiting_cons]
  split
  · rw [← hsplit]
    rfl
  · rfl

/-- The first event that waits is read. One that is not recorded, since its document is not
open, is never the last one that waits. -/
theorem Converging.record {source : Uri} {e : SessionEvent} {queue : List (Uri × SessionEvent)}
    (h : shelf.Converging { r with queue := (source, e) :: queue }) :
    shelf.Converging { r.record source e with queue } := by
  obtain ⟨store, alerts, heq⟩ := record_eq r source e
  have hahead : ∀ uri, shelf.ahead { r.record source e with queue } uri =
      shelf.ahead { r with queue := (source, e) :: queue } uri := by
    intro uri
    rw [ahead_cons]
    simp only [Shelf.ahead, shelf.read_record]
    by_cases huri : uri = source
    · subst huri
      rw [if_pos rfl, if_pos rfl]
      cases hlast : shelf.latest (Registry.waiting queue uri) with
      | some items => rfl
      | none =>
        cases hpick : shelf.pick e with
        | none => rfl
        | some items =>
          have hrecorded : (r.isOpen uri || items.isEmpty) = true := by
            cases hopen : r.isOpen uri with
            | true => rfl
            | false =>
              have hitems := h.ahead uri
              have hdoc := get?_of_not_isOpen hopen
              rw [ahead_cons, if_pos rfl, hlast, hpick] at hitems
              exact List.isEmpty_iff.2 (hitems.trans (published_of_not_open hdoc))
          simp [Option.filter, hrecorded]
    · rw [if_neg huri, if_neg (Ne.symm huri)]
  refine ⟨?_, ?_, ?_, fun uri => (hahead uri).trans ((h.ahead uri).trans ?_)⟩
  · rw [heq]
    exact h.owned
  · rw [heq]
    exact h.found
  · rw [heq]
    exact h.isSealed
  · rw [heq]
    rfl

theorem Converging.readEvents (h : shelf.Converging r) (budget : Nat) :
    shelf.Converging (r.readEvents budget).1 := by
  -- over the events that are read, with the rest of the queue left as it is
  have hread : ∀ (events : List (Uri × SessionEvent)) (r : Registry),
      shelf.Converging { r with queue := events ++ r.queue } →
        shelf.Converging (events.foldl (fun r entry => r.record entry.1 entry.2) r) := by
    intro events
    induction events with
    | nil => exact fun r h => h
    | cons entry events ih =>
      intro r h
      obtain ⟨uri, e⟩ := entry
      have hrecorded := Converging.record h
      obtain ⟨store, alerts, heq⟩ := record_eq r uri e
      refine ih (r.record uri e) ?_
      rw [heq] at hrecorded ⊢
      exact hrecorded
  refine hread (r.queue.take budget) { r with queue := r.queue.drop budget } ?_
  show shelf.Converging { r with queue := r.queue.take budget ++ r.queue.drop budget }
  rw [List.take_append_drop]
  exact h

-- ---------------------------------------------------------------------------
-- Operations
-- ---------------------------------------------------------------------------

/-- What was stored for a document that is not open makes no difference. -/
theorem Converging.remove (h : shelf.Converging r) {uri : Uri}
    (hdoc : r.documents.get? uri = none) :
    shelf.Converging { r with store := r.store.remove uri } := by
  refine ⟨h.owned, h.found, h.isSealed, fun uri' => ?_⟩
  show shelf.ahead { r with store := r.store.remove uri } uri' = shelf.published r uri'
  have hbefore := h.ahead uri'
  simp only [Shelf.ahead, shelf.read_remove] at hbefore ⊢
  by_cases huri : uri' = uri
  · subst huri
    rw [published_of_not_open hdoc] at hbefore ⊢
    rw [if_pos rfl]
    cases hlast : shelf.latest (Registry.waiting r.queue uri') with
    | none => rfl
    | some items => simpa [hlast] using hbefore
  · rw [if_neg huri, hbefore]

/-- A document gets another text, but keeps its session. -/
theorem Converging.modify (h : shelf.Converging r) (uri : Uri) (text : String) :
    shelf.Converging
      { r with documents := r.documents.modify uri fun doc => { doc with text } } := by
  have hget : ∀ uri', (r.documents.modify uri fun doc => { doc with text }).get? uri' =
      (r.documents.get? uri').map fun doc => if uri' = uri then { doc with text } else doc :=
    fun uri' => Table.get?_modify _ _ _ _
  refine ⟨?_, ?_, h.isSealed, fun uri' => ?_⟩
  · intro number s hs hopen
    obtain ⟨doc, hdoc, hnumber⟩ := h.owned hs hopen
    refine ⟨_, (hget _).trans (congrArg _ hdoc), ?_⟩
    dsimp only
    split <;> exact hnumber
  · intro uri' doc hdoc
    obtain ⟨doc', hdoc', rfl⟩ := Option.map_eq_some_iff.1 ((hget uri').symm.trans hdoc)
    obtain ⟨s, hs, huri⟩ := h.found hdoc'
    refine ⟨s, ?_, huri⟩
    split <;> exact hs
  · refine (h.ahead uri').trans ?_
    simp only [published, Registry.session?, hget, Option.bind_map]
    cases r.documents.get? uri' with
    | none => rfl
    | some doc =>
      dsimp only [Option.bind_some, Function.comp]
      split <;> rfl

theorem Converging.shutdown (h : shelf.Converging r) : shelf.Converging r.shutdown := by
  have hdrops : ∀ (documents : Table Uri Document) (r : Registry), shelf.Converging r →
      shelf.Converging (documents.foldl (fun r doc => r.drop doc.1) r) := by
    intro documents
    induction documents with
    | nil => exact fun r h => h
    | cons doc documents ih => exact fun r h => ih _ (h.drop doc.1)
  exact hdrops r.documents r h

theorem Converging.elapse (h : shelf.Converging r) (ms : Nat) :
    shelf.Converging (r.elapse ms) := by
  have hwake : ∀ (wakes target : Nat) (r : Registry), shelf.Converging r →
      shelf.Converging (r.wakeWithin target wakes) := by
    intro wakes target
    induction wakes with
    | zero => exact fun r h => h
    | succ wakes ih =>
      intro r h
      unfold Registry.wakeWithin
      split
      · split
        · exact ih _ (h.onSession _ fun _ hs => Session.input_onward hs _)
        · exact h
      · exact h
  have hclock : ∀ (target : Nat) (r : Registry), shelf.Converging r →
      shelf.Converging { r with
        now := target
        sessions := r.sessions.map fun s => { s with now := target } } := by
    intro target r h
    refine ⟨?_, ?_, ?_, fun uri => (h.ahead uri).trans ?_⟩
    · intro number s hs hopen
      obtain ⟨before, hbefore, rfl⟩ := Option.map_eq_some_iff.1 (List.getElem?_map.symm.trans hs)
      obtain ⟨doc, hdoc, hnumber⟩ := h.owned hbefore hopen
      exact ⟨doc, hdoc, hnumber⟩
    · intro uri doc hdoc
      obtain ⟨s, hs, huri⟩ := h.found hdoc
      exact ⟨_, List.getElem?_map.trans (congrArg _ hs), huri⟩
    · intro number s hs
      obtain ⟨before, hbefore, rfl⟩ := Option.map_eq_some_iff.1 (List.getElem?_map.symm.trans hs)
      obtain ⟨hcommands, hinbox, hemitted⟩ := h.isSealed hbefore
      exact ⟨hcommands, hinbox, hemitted⟩
    · simp only [published, Registry.session?, List.getElem?_map]
      cases r.documents.get? uri with
      | none => rfl
      | some doc => cases hs : r.sessions[doc.session]? <;> simp [hs]
  exact hclock _ _ (hwake _ _ r h)

theorem Converging.step (h : shelf.Converging r) (op : Registry.Op) :
    shelf.Converging (r.step op) := by
  cases op with
  | openPath launch path text =>
    simp only [Registry.step, Registry.openPath]
    cases documentUri r.cwd path with
    | error e => exact h
    | ok uri =>
      have hstart := (h.drop uri).start launch (get?_drop r uri) text
      dsimp only
      cases hresult : (r.drop uri).start launch uri text with
      | mk after result =>
        rw [hresult] at hstart
        cases result <;> exact hstart
  | changed uri text => exact (h.modify uri text).forward uri _
  | saved uri => exact h.forward uri .saved
  | requestFull uri kind => exact h.forward uri (.requestFull kind)
  | close uri =>
    simp only [Registry.step, Registry.close]
    split
    · exact (h.drop uri).remove (get?_drop r uri)
    · exact h
  | restart launch uri =>
    simp only [Registry.step, Registry.restart]
    split
    · exact h
    · exact (h.drop uri).start launch (get?_drop r uri) _
  | shutdown => exact h.shutdown
  | poll budget => exact h.readEvents budget
  | takeAlerts => exact ⟨h.owned, h.found, h.isSealed, h.ahead⟩
  | input number a => exact h.input number a
  | elapse ms => exact h.elapse ms

end Shelf

-- ---------------------------------------------------------------------------
-- Runs
-- ---------------------------------------------------------------------------

namespace Registry

/-- What can happen to a registry while its sessions are at work. -/
inductive Act where
  | op (op : Op)
  /-- the session with this number takes a single step, and may publish something -/
  | work (number : Nat) (step : Session.Step)

def perform (r : Registry) : Act → Registry
  | .op op => r.step op
  | .work number a => r.onSession number fun s => s.step a

def performs (r : Registry) (acts : List Act) : Registry := acts.foldl perform r

theorem new_converging {β : Type} (shelf : Shelf β) (settings : SessionSettings) (cwd : String) :
    shelf.Converging { settings, cwd } := by
  refine ⟨?_, ?_, ?_, fun uri => ?_⟩
  · intro number s hs
    cases hs
  · intro uri doc hdoc
    cases hdoc
  · intro number s hs
    cases hs
  · exact shelf.read_empty uri

/-- Whatever happens, the store stays in step with the open sessions. -/
theorem performs_converging {β : Type} {shelf : Shelf β} {r : Registry} (h : shelf.Converging r)
    (acts : List Act) : shelf.Converging (r.performs acts) := by
  induction acts generalizing r with
  | nil => exact h
  | cons act acts ih =>
    refine ih (r := r.perform act) ?_
    cases act with
    | op op => exact h.step op
    | work number a => exact h.onSession number fun _ hs => Session.step_onward hs a

/-- When all events have been read, the store holds what the current session of each open
document published last, and nothing for other documents. -/
theorem store_converges (settings : SessionSettings) (cwd : String) (acts : List Act)
    {r : Registry} (hr : ({ settings, cwd } : Registry).performs acts = r) (hread : r.queue = [])
    (uri : Uri) :
    (r.isOpen uri = true → ∃ s, r.session? uri = some s ∧ s.uri = uri ∧
      r.store.diagnostics uri =
        ((s.emitted.filterMap SessionEvent.diagnostics?).getLast?).getD [] ∧
      r.store.status uri = ((s.emitted.filterMap SessionEvent.status?).getLast?).getD []) ∧
    (r.isOpen uri = false → r.store.diagnostics uri = [] ∧ r.store.status uri = []) := by
  have hshelf : ∀ {β : Type} (shelf : Shelf β), shelf.Converging r := by
    intro β shelf
    exact hr ▸ performs_converging (new_converging shelf settings cwd) acts
  have hstored : ∀ {β : Type} (shelf : Shelf β),
      shelf.read r.store uri = shelf.published r uri := by
    intro β shelf
    rw [← shelf.ahead_of_drained hread, (hshelf shelf).ahead]
  constructor
  · intro hopen
    obtain ⟨doc, hdoc⟩ := Option.isSome_iff_exists.1 hopen
    obtain ⟨s, hs, huri⟩ := (hshelf .diagnostics).found hdoc
    refine ⟨s, ?_, huri, ?_, ?_⟩
    · simp [session?, hdoc, hs]
    · exact (hstored .diagnostics).trans (Shelf.published_of_open hdoc hs)
    · exact (hstored .status).trans (Shelf.published_of_open hdoc hs)
  · intro hopen
    have hdoc := Shelf.get?_of_not_isOpen hopen
    exact ⟨(hstored .diagnostics).trans (Shelf.published_of_not_open hdoc),
      (hstored .status).trans (Shelf.published_of_not_open hdoc)⟩

/-- A document is opened and a check of its start is asked for. The document is restarted while
the status that this brought about is still to be read, and then a shorter check is asked for. -/
def restartedInBetween : Registry :=
  ({ settings := { flyCheck := false }, cwd := "/" } : Registry).performs
    [.op (.openPath (fun _ _ => .ok ()) "/work/A.fst" "let x = 1"),
     .work 0 (.post (.requestTo ⟨0, 5⟩ false)), .work 0 .command, .op (.elapse 1000),
     .op (.poll 1), .op (.restart (fun _ _ => .ok ()) ⟨"file:///work/A.fst"⟩),
     .op (.input 1 (.post (.requestTo ⟨0, 3⟩ false))), .op (.elapse 1000), .op (.poll 9)]

/-- The store holds the status of the second session, and nothing for another document. -/
theorem restartedInBetween_stored :
    restartedInBetween.queue = [] ∧
    restartedInBetween.isOpen ⟨"file:///work/A.fst"⟩ = true ∧
    (∃ s, restartedInBetween.session? ⟨"file:///work/A.fst"⟩ = some s ∧
      restartedInBetween.store.status ⟨"file:///work/A.fst"⟩ =
        ((s.emitted.filterMap SessionEvent.status?).getLast?).getD []) ∧
    restartedInBetween.store.status ⟨"file:///work/A.fst"⟩ = [⟨⟨⟨0, 0⟩, ⟨0, 3⟩⟩, .started⟩] ∧
    restartedInBetween.store.status ⟨"file:///work/B.fst"⟩ = [] := by
  have hread : restartedInBetween.queue = [] := List.isEmpty_iff.1 (by decide +kernel)
  have hopen : restartedInBetween.isOpen ⟨"file:///work/A.fst"⟩ = true := by decide +kernel
  have hother : restartedInBetween.isOpen ⟨"file:///work/B.fst"⟩ = false := by decide +kernel
  have hresult := store_converges { flyCheck := false } "/" _ (r := restartedInBetween) rfl hread
  obtain ⟨s, hs, -, -, hstatus⟩ := (hresult ⟨"file:///work/A.fst"⟩).1 hopen
  exact ⟨hread, hopen, ⟨s, hs, hstatus⟩, by decide +kernel,
    ((hresult ⟨"file:///work/B.fst"⟩).2 hother).2⟩

end Registry

end VerifierClient

import VerifierClient.Proofs.Session.Closing
import VerifierClient.Registry

/-!
# What the store keeps of the events

The store keeps two kinds of results for a document, diagnostics and a status, and both are kept
in the same way: an event that carries a result replaces the one kept before, and an empty
result is not kept at all. A shelf is one such kind, with the laws that reading the store
follows.

* `Shelf` — how the results of one kind are carried by events and read from the store;
* `Shelf.diagnostics`, `Shelf.status` — the two kinds;
* `Shelf.latest` — the result that a list of events leaves behind;
* `Shelf.ahead` — what the store will hold when the events that wait have been read.
-/

namespace VerifierClient

-- ---------------------------------------------------------------------------
-- Tables
-- ---------------------------------------------------------------------------

namespace Table

variable {κ α : Type} [DecidableEq κ]

theorem get?_cons (entry : κ × α) (t : Table κ α) (key : κ) :
    Table.get? (entry :: t) key = if entry.1 = key then some entry.2 else t.get? key := by
  by_cases h : entry.1 = key <;> simp [get?, h]

theorem get?_erase (t : Table κ α) (erased key : κ) :
    (t.erase erased).get? key = if key = erased then none else t.get? key := by
  induction t with
  | nil => simp [erase, get?]
  | cons entry t ih =>
    by_cases hentry : entry.1 = erased
    · have hskip : Table.erase (entry :: t) erased = Table.erase t erased :=
        List.filter_cons_of_neg (by simp [hentry])
      rw [hskip, ih, get?_cons, hentry]
      by_cases hkey : key = erased
      · simp [hkey]
      · simp [hkey, Ne.symm hkey]
    · have hkeep : Table.erase (entry :: t) erased = entry :: Table.erase t erased :=
        List.filter_cons_of_pos (by simp [hentry])
      rw [hkeep, get?_cons, ih, get?_cons]
      by_cases hkey : entry.1 = key
      · rw [if_pos hkey, if_pos hkey, if_neg (hkey ▸ hentry)]
      · rw [if_neg hkey, if_neg hkey]

theorem get?_append (t t' : Table κ α) (key : κ) :
    Table.get? (t ++ t') key = (t.get? key).or (t'.get? key) := by
  induction t with
  | nil => simp [get?]
  | cons entry t ih =>
    rw [List.cons_append, get?_cons, get?_cons, ih]
    split <;> simp

theorem get?_insert (t : Table κ α) (inserted key : κ) (value : α) :
    (t.insert inserted value).get? key = if key = inserted then some value else t.get? key := by
  rw [insert, get?_append, get?_erase, get?_cons]
  by_cases hkey : key = inserted
  · simp [hkey]
  · simp [hkey, Ne.symm hkey, get?]

theorem get?_modify (t : Table κ α) (modified key : κ) (f : α → α) :
    (t.modify modified f).get? key =
      (t.get? key).map fun value => if key = modified then f value else value := by
  induction t with
  | nil => rfl
  | cons entry t ih =>
    obtain ⟨k, value⟩ := entry
    have hcons : Table.modify ((k, value) :: t) modified f =
        (k, if k = modified then f value else value) :: Table.modify t modified f := by
      by_cases hk : k = modified <;> simp [modify, hk]
    rw [hcons, get?_cons, get?_cons, ih]
    by_cases hkey : k = key
    · subst hkey
      simp
    · simp [hkey]

/-- A list that is taken out is read as empty. -/
theorem getD_erase (t : Table κ (List α)) (erased key : κ) :
    ((t.erase erased).get? key).getD [] = if key = erased then [] else (t.get? key).getD [] := by
  rw [get?_erase]
  split <;> rfl

/-- Lists are read as they were put in, though empty ones are not kept. -/
theorem getD_put (t : Table κ (List α)) (put key : κ) (items : List α) :
    (Table.get? (if items.isEmpty then t.erase put else t.insert put items) key).getD [] =
      if key = put then items else (t.get? key).getD [] := by
  cases items with
  | nil => exact getD_erase t put key
  | cons item items =>
    rw [List.isEmpty_cons, if_neg Bool.false_ne_true, get?_insert]
    split <;> rfl

end Table

-- ---------------------------------------------------------------------------
-- Shelves
-- ---------------------------------------------------------------------------

/-- One kind of results. -/
structure Shelf (β : Type) where
  /-- the result that an event carries -/
  pick : SessionEvent → Option (List β)
  read : Store → Uri → List β
  pick_alert : ∀ message, pick (.alert message) = none
  /-- the results of a session that is disposed are taken back -/
  pick_farewell : (Session.farewell.filterMap pick).getLast? = some []
  read_empty : ∀ uri, read {} uri = []
  read_remove : ∀ store removed uri,
    read (store.remove removed) uri = if uri = removed then [] else read store uri
  /-- only empty results are recorded for a document that is not open -/
  read_record : ∀ (r : Registry) source e uri,
    read (r.record source e).store uri =
      if uri = source then
        ((pick e).filter fun items => r.isOpen source || items.isEmpty).getD (read r.store uri)
      else read r.store uri

namespace SessionEvent

/-- The diagnostics that an event carries. -/
def diagnostics? : SessionEvent → Option (List Diagnostic)
  | .diagnostics items => some items
  | _ => none

/-- The status that an event carries. -/
def status? : SessionEvent → Option (List FragmentStatus)
  | .status fragments => some fragments
  | _ => none

end SessionEvent

namespace Shelf

def diagnostics : Shelf Diagnostic where
  pick := SessionEvent.diagnostics?
  read := Store.diagnostics
  pick_alert := fun _ => rfl
  pick_farewell := rfl
  read_empty := fun _ => rfl
  read_remove := fun store => Table.getD_erase store.diagnosticsOf
  read_record := by
    intro r source e uri
    cases e with
    | diagnostics items =>
      have hput : (r.store.updateDiagnostics source items).diagnostics uri =
          if uri = source then items else r.store.diagnostics uri := Table.getD_put ..
      by_cases hrecorded : (r.isOpen source || items.isEmpty) = true
      · simpa [Registry.record, SessionEvent.diagnostics?, Option.filter, hrecorded] using hput
      · simp [Registry.record, SessionEvent.diagnostics?, Option.filter, hrecorded]
    | status fragments =>
      simp only [Registry.record, SessionEvent.diagnostics?, Option.filter_none, Option.getD_none]
      split <;> split <;> rfl
    | alert message => simp [Registry.record, SessionEvent.diagnostics?]
    | finished role => simp [Registry.record, SessionEvent.diagnostics?]

def status : Shelf FragmentStatus where
  pick := SessionEvent.status?
  read := Store.status
  pick_alert := fun _ => rfl
  pick_farewell := rfl
  read_empty := fun _ => rfl
  read_remove := fun store => Table.getD_erase store.statusOf
  read_record := by
    intro r source e uri
    cases e with
    | status fragments =>
      have hput : (r.store.updateStatus source fragments).status uri =
          if uri = source then fragments else r.store.status uri := Table.getD_put ..
      by_cases hrecorded : (r.isOpen source || fragments.isEmpty) = true
      · simpa [Registry.record, SessionEvent.status?, Option.filter, hrecorded] using hput
      · simp [Registry.record, SessionEvent.status?, Option.filter, hrecorded]
    | diagnostics items =>
      simp only [Registry.record, SessionEvent.status?, Option.filter_none, Option.getD_none]
      split <;> split <;> rfl
    | alert message => simp [Registry.record, SessionEvent.status?]
    | finished role => simp [Registry.record, SessionEvent.status?]

variable {β : Type} (shelf : Shelf β)

/-- The result that the events leave behind, if they carry any. -/
def latest (events : List SessionEvent) : Option (List β) := (events.filterMap shelf.pick).getLast?

theorem latest_append (events later : List SessionEvent) :
    shelf.latest (events ++ later) = (shelf.latest later).or (shelf.latest events) := by
  rw [latest, List.filterMap_append, List.getLast?_append]
  rfl

theorem latest_alerts (alerts : List String) :
    shelf.latest (alerts.map SessionEvent.alert) = none := by
  have hnone : (alerts.map SessionEvent.alert).filterMap shelf.pick = [] := by
    refine List.filterMap_eq_nil_iff.2 fun e he => ?_
    obtain ⟨message, -, rfl⟩ := List.mem_map.1 he
    exact shelf.pick_alert message
  rw [latest, hnone]
  rfl

theorem latest_of_farewell {events : List SessionEvent} (h : Session.farewell <:+ events) :
    shelf.latest events = some [] := by
  obtain ⟨earlier, rfl⟩ := h
  have hlast : shelf.latest Session.farewell = some [] := shelf.pick_farewell
  rw [latest_append, hlast]
  rfl

end Shelf

-- ---------------------------------------------------------------------------
-- Events that wait
-- ---------------------------------------------------------------------------

namespace Registry

/-- The events of a document among those that wait. -/
def waiting (queue : List (Uri × SessionEvent)) (uri : Uri) : List SessionEvent :=
  (queue.filter fun entry => entry.1 = uri).map Prod.snd

theorem waiting_append (queue later : List (Uri × SessionEvent)) (uri : Uri) :
    waiting (queue ++ later) uri = waiting queue uri ++ waiting later uri := by
  rw [waiting, List.filter_append, List.map_append]
  rfl

theorem waiting_cons (entry : Uri × SessionEvent) (queue : List (Uri × SessionEvent)) (uri : Uri) :
    waiting (entry :: queue) uri =
      if entry.1 = uri then entry.2 :: waiting queue uri else waiting queue uri := by
  by_cases h : entry.1 = uri <;> simp [waiting, h]

/-- The events of a session all belong to its document. -/
theorem waiting_map (source uri : Uri) (events : List SessionEvent) :
    waiting (events.map fun e => (source, e)) uri = if uri = source then events else [] := by
  induction events with
  | nil => simp [waiting]
  | cons e events ih =>
    rw [List.map_cons, waiting_cons, ih]
    by_cases h : uri = source
    · simp [h]
    · simp [h, Ne.symm h]

end Registry

namespace Shelf

variable {β : Type} (shelf : Shelf β)

/-- What the store will hold for a document when the events that wait have been read. -/
def ahead (r : Registry) (uri : Uri) : List β :=
  (shelf.latest (Registry.waiting r.queue uri)).getD (shelf.read r.store uri)

/-- What the session of a document published last, and nothing if the document is not open. -/
def published (r : Registry) (uri : Uri) : List β :=
  ((r.session? uri).bind fun s => shelf.latest s.emitted).getD []

theorem ahead_of_drained {r : Registry} (h : r.queue = []) (uri : Uri) :
    shelf.ahead r uri = shelf.read r.store uri := by
  rw [ahead, h]
  rfl

/-- Events that join the queue. -/
theorem ahead_of_append {r r' : Registry} {source : Uri} {events : List SessionEvent}
    (hqueue : r'.queue = r.queue ++ events.map fun e => (source, e))
    (hstore : r'.store = r.store) (uri : Uri) :
    shelf.ahead r' uri =
      if uri = source then (shelf.latest events).getD (shelf.ahead r uri)
      else shelf.ahead r uri := by
  have hwaiting : Registry.waiting r'.queue uri =
      Registry.waiting r.queue uri ++ if uri = source then events else [] := by
    rw [hqueue, Registry.waiting_append, Registry.waiting_map]
  rw [ahead, hwaiting, hstore, latest_append]
  by_cases h : uri = source
  · rw [if_pos h, if_pos h, ahead]
    cases shelf.latest events <;> rfl
  · rw [if_neg h, if_neg h, ahead]
    rfl

end Shelf

end VerifierClient

import Mathlib.Algebra.BigOperators.Group.Finset.Basic
import VerifierClient.Proofs.Registry.Shelves

/-!
# Snapshots depend on the latest results only

A snapshot lists what a table holds, and a table may hold its entries in any order. The order of
the snapshot is fixed all the same: the table has one entry for each document that has diagnostics,
and of two documents one always comes before the other.

* `Store.latest` — the diagnostics that operations leave a document with, read off the operations;
* `Store.Precedes` — the order of documents in a snapshot, which is strict;
* `Store.Listing` — what a snapshot is to contain; there is only one listing of given diagnostics;
* `Store.listing_mergeSort` — a table in any order is sorted into this listing;
* `Store.snapshot_lists_latest` — snapshots and their counts, after any operations.
-/

namespace VerifierClient

-- ---------------------------------------------------------------------------
-- Tables in which no key stands twice
-- ---------------------------------------------------------------------------

namespace Table

variable {κ α : Type} [DecidableEq κ] {t : Table κ α} {key : κ} {value : α}

/-- Every key stands once. -/
def Distinct (t : Table κ α) : Prop := (t.map Prod.fst).Nodup

theorem Distinct.erase (h : Distinct t) (erased : κ) : Distinct (t.erase erased) :=
  List.Nodup.sublist (List.filter_sublist.map Prod.fst) h

theorem not_mem_keys_erase (t : Table κ α) (erased : κ) :
    erased ∉ (t.erase erased).map Prod.fst := by
  intro hmem
  obtain ⟨entry, hentry, hkey⟩ := List.mem_map.1 hmem
  have hkept : entry.1 ≠ erased := of_decide_eq_true (List.mem_filter.1 hentry).2
  exact hkept hkey

theorem Distinct.insert (h : Distinct t) (inserted : κ) (value : α) :
    Distinct (t.insert inserted value) := by
  rw [Distinct, Table.insert, List.map_append, List.map_singleton]
  refine List.nodup_append.2 ⟨h.erase inserted, List.nodup_singleton inserted, ?_⟩
  rintro k hk k' hk' rfl
  rw [List.mem_singleton] at hk'
  rw [hk'] at hk
  exact not_mem_keys_erase t inserted hk

/-- The entries are what the table is asked for. -/
theorem Distinct.mem_iff (h : Distinct t) : (key, value) ∈ t ↔ t.get? key = some value := by
  induction t with
  | nil => simp [get?]
  | cons entry t ih =>
    obtain ⟨hnew, htail⟩ := List.nodup_cons.1 h
    rw [List.mem_cons, get?_cons, ih htail]
    by_cases hkey : entry.1 = key
    · -- the key does not come again, so the rest of the table has no value for it
      have hnone : Table.get? t key ≠ some value := by
        intro hsome
        refine hnew (List.mem_map.2 ⟨(key, value), (ih htail).2 hsome, hkey.symm⟩)
      rw [if_pos hkey, Option.some.injEq]
      constructor
      · rintro (rfl | hsome)
        · rfl
        · exact absurd hsome hnone
      · intro hvalue
        exact .inl (Prod.ext hkey.symm hvalue.symm)
    · rw [if_neg hkey]
      refine or_iff_right ?_
      rintro rfl
      exact hkey rfl

end Table

namespace Store

-- ---------------------------------------------------------------------------
-- Operations
-- ---------------------------------------------------------------------------

/-- What can happen to a store. -/
inductive Op where
  | diagnostics (uri : Uri) (items : List Diagnostic)
  | status (uri : Uri) (fragments : List FragmentStatus)
  | remove (uri : Uri)

def step (s : Store) : Op → Store
  | .diagnostics uri items => s.updateDiagnostics uri items
  | .status uri fragments => s.updateStatus uri fragments
  | .remove uri => s.remove uri

/-- The store after some operations. -/
def run (ops : List Op) : Store := ops.foldl step {}

/-- The diagnostics that the operation gives to a document, if it has to do with them. -/
def Op.items? (uri : Uri) : Op → Option (List Diagnostic)
  | .diagnostics source items => if uri = source then some items else none
  | .status .. => none
  | .remove removed => if uri = removed then some [] else none

/-- The diagnostics that the operations leave a document with. -/
def latest (ops : List Op) (uri : Uri) : List Diagnostic :=
  ((ops.filterMap (Op.items? uri)).getLast?).getD []

theorem latest_concat (ops : List Op) (op : Op) (uri : Uri) :
    latest (ops ++ [op]) uri = (op.items? uri).getD (latest ops uri) := by
  rw [latest, List.filterMap_append, List.getLast?_append]
  cases hitems : op.items? uri <;> simp [hitems, latest]

theorem run_concat (ops : List Op) (op : Op) : run (ops ++ [op]) = (run ops).step op :=
  List.foldl_append ..

theorem diagnostics_step (s : Store) (op : Op) (uri : Uri) :
    (s.step op).diagnostics uri = (op.items? uri).getD (s.diagnostics uri) := by
  cases op with
  | diagnostics source items =>
    have hput : (s.updateDiagnostics source items).diagnostics uri =
        if uri = source then items else s.diagnostics uri := Table.getD_put ..
    rw [step, hput, Op.items?]
    split <;> rfl
  | status source fragments => rfl
  | remove removed =>
    have herase : (s.remove removed).diagnostics uri =
        if uri = removed then [] else s.diagnostics uri := Table.getD_erase ..
    rw [step, herase, Op.items?]
    split <;> rfl

theorem diagnostics_run (ops : List Op) (uri : Uri) :
    (run ops).diagnostics uri = latest ops uri := by
  induction ops using List.reverseRecOn with
  | nil => rfl
  | append_singleton ops op ih => rw [run_concat, diagnostics_step, ih, latest_concat]

/-- A table of diagnostics as the operations keep it. -/
structure Kept (t : Table Uri (List Diagnostic)) : Prop where
  distinct : Table.Distinct t
  nonempty : ∀ entry ∈ t, entry.2 ≠ []

theorem Kept.erase {t : Table Uri (List Diagnostic)} (h : Kept t) (uri : Uri) :
    Kept (t.erase uri) :=
  ⟨h.distinct.erase uri, fun entry hentry => h.nonempty entry (List.mem_filter.1 hentry).1⟩

theorem Kept.insert {t : Table Uri (List Diagnostic)} (h : Kept t) (uri : Uri)
    {items : List Diagnostic} (hitems : items ≠ []) : Kept (t.insert uri items) := by
  refine ⟨h.distinct.insert uri items, fun entry hentry => ?_⟩
  rcases List.mem_append.1 hentry with hold | hnew
  · exact (h.erase uri).nonempty entry hold
  · rw [List.mem_singleton] at hnew
    rw [hnew]
    exact hitems

theorem kept_step {s : Store} (h : Kept s.diagnosticsOf) (op : Op) :
    Kept (s.step op).diagnosticsOf := by
  cases op with
  | diagnostics uri items =>
    cases items with
    | nil => exact h.erase uri
    | cons item items => exact h.insert uri (List.cons_ne_nil item items)
  | status uri fragments => exact h
  | remove uri => exact h.erase uri

theorem kept_run (ops : List Op) : Kept (run ops).diagnosticsOf := by
  induction ops using List.reverseRecOn with
  | nil => exact ⟨List.nodup_nil, nofun⟩
  | append_singleton ops op ih =>
    rw [run_concat]
    exact kept_step ih op

theorem mem_diagnosticsOf_run {ops : List Op} {uri : Uri} {items : List Diagnostic} :
    (uri, items) ∈ (run ops).diagnosticsOf ↔ latest ops uri = items ∧ items ≠ [] := by
  have hkept := kept_run ops
  rw [hkept.distinct.mem_iff, ← diagnostics_run, diagnostics]
  cases hget : (run ops).diagnosticsOf.get? uri with
  | none =>
    rw [Option.getD_none]
    refine ⟨nofun, ?_⟩
    rintro ⟨rfl, hne⟩
    exact absurd rfl hne
  | some found =>
    rw [Option.some.injEq, Option.getD_some]
    refine ⟨fun heq => ⟨heq, ?_⟩, fun h => h.1⟩
    exact heq ▸ hkept.nonempty (uri, found) (hkept.distinct.mem_iff.2 hget)

-- ---------------------------------------------------------------------------
-- The order of documents
-- ---------------------------------------------------------------------------

/-- There is an error among the diagnostics. -/
def HasError (items : List Diagnostic) : Prop := ∃ d ∈ items, d.severity = .error

/-- A document with errors comes before one without, and documents alike in this come by their
URIs. -/
def Precedes (a b : Uri × List Diagnostic) : Prop :=
  (HasError a.2 ∧ ¬HasError b.2) ∨ ((HasError a.2 ↔ HasError b.2) ∧ a.1.text < b.1.text)

theorem hasErrors_iff (items : List Diagnostic) : hasErrors items = true ↔ HasError items := by
  have hsame : ∀ severity : Severity, severity.isError = true ↔ severity = .error := by
    intro severity
    cases severity <;> simp [Severity.isError]
  simp only [hasErrors, HasError, List.any_eq_true, hsame]

/-- The comparison holds unless the second document precedes the first. -/
theorem fileLe_iff (a b : Uri × List Diagnostic) : fileLe a b = true ↔ ¬Precedes b a := by
  have hle : a.1.text ≤ b.1.text ↔ ¬b.1.text < a.1.text := String.not_lt.symm
  rw [Precedes, ← hasErrors_iff, ← hasErrors_iff, fileLe]
  cases hasErrors a.2 <;> cases hasErrors b.2 <;>
    simp only [decide_eq_true_eq, hle, reduceCtorEq, not_true_eq_false, not_false_eq_true,
      and_true, and_false, true_and, false_and, or_false, false_or, iff_false, iff_true, iff_self]

theorem Precedes.asymm {a b : Uri × List Diagnostic} (h : Precedes a b) : ¬Precedes b a := by
  rintro (⟨hb, ha⟩ | ⟨hiff', hlt'⟩) <;> rcases h with ⟨ha', hb'⟩ | ⟨hiff, hlt⟩
  · exact ha ha'
  · exact ha (hiff.2 hb)
  · exact hb' (hiff'.2 ha')
  · exact String.lt_asymm hlt hlt'

/-- Of two documents one comes first. -/
theorem Precedes.trichotomous {a b : Uri × List Diagnostic} (hne : a.1 ≠ b.1) :
    Precedes a b ∨ Precedes b a := by
  have htext : a.1.text ≠ b.1.text := by
    intro heq
    exact hne (congrArg Uri.mk heq)
  have hlt : a.1.text < b.1.text ∨ b.1.text < a.1.text := by
    by_cases hab : a.1.text < b.1.text
    · exact .inl hab
    · refine .inr (String.not_le.1 fun hba => htext ?_)
      exact String.le_antisymm hba (String.not_lt.1 hab)
  by_cases ha : HasError a.2 <;> by_cases hb : HasError b.2
  · exact hlt.imp (fun h => .inr ⟨iff_of_true ha hb, h⟩) (fun h => .inr ⟨iff_of_true hb ha, h⟩)
  · exact .inl (.inl ⟨ha, hb⟩)
  · exact .inr (.inl ⟨hb, ha⟩)
  · exact hlt.imp (fun h => .inr ⟨iff_of_false ha hb, h⟩) (fun h => .inr ⟨iff_of_false hb ha, h⟩)

theorem fileLe_total (a b : Uri × List Diagnostic) : (fileLe a b || fileLe b a) = true := by
  rw [Bool.or_eq_true, fileLe_iff, fileLe_iff]
  by_cases h : Precedes b a
  · exact .inr h.asymm
  · exact .inl h

theorem fileLe_trans (a b c : Uri × List Diagnostic) (hab : fileLe a b = true)
    (hbc : fileLe b c = true) : fileLe a c = true := by
  rw [fileLe_iff] at hab hbc ⊢
  rintro (⟨hc, ha⟩ | ⟨halike, hlt⟩)
  · by_cases hb : HasError b.2
    · exact hab (.inl ⟨hb, ha⟩)
    · exact hbc (.inl ⟨hc, hb⟩)
  · -- the document in the middle is like the other two, or it would come before or after both
    have hmiddle : HasError b.2 ↔ HasError a.2 := by
      refine ⟨fun hb => ?_, fun ha => ?_⟩
      · by_contra ha
        exact hab (.inl ⟨hb, ha⟩)
      · by_contra hb
        exact hbc (.inl ⟨halike.2 ha, hb⟩)
    have hba : ¬b.1.text < a.1.text := fun h => hab (.inr ⟨hmiddle, h⟩)
    have hcb : ¬c.1.text < b.1.text := fun h => hbc (.inr ⟨halike.trans hmiddle.symm, h⟩)
    exact String.le_trans hba hcb hlt

-- ---------------------------------------------------------------------------
-- Listings
-- ---------------------------------------------------------------------------

/-- The documents that have diagnostics, in order. -/
structure Listing (items : Uri → List Diagnostic) (files : List (Uri × List Diagnostic)) :
    Prop where
  mem_iff : ∀ uri found, (uri, found) ∈ files ↔ items uri = found ∧ found ≠ []
  distinct : (files.map Prod.fst).Nodup
  ordered : files.Pairwise Precedes

variable {items : Uri → List Diagnostic} {files files' : List (Uri × List Diagnostic)}

/-- The documents have only one listing, since the order of any two of them is fixed. -/
theorem Listing.unique (h : Listing items files) (h' : Listing items files') : files = files' := by
  have hperm : files.Perm files' := by
    refine (List.perm_ext_iff_of_nodup h.distinct.of_map h'.distinct.of_map).2 ?_
    rintro ⟨uri, found⟩
    rw [h.mem_iff, h'.mem_iff]
  refine hperm.eq_of_pairwise ?_ h.ordered h'.ordered
  intro a b _ _ hab hba
  exact absurd hba hab.asymm

/-- Whatever order the table has, it is sorted into the listing of what the operations left. -/
theorem listing_mergeSort {ops : List Op} {order : Table Uri (List Diagnostic)}
    (horder : order.Perm (run ops).diagnosticsOf) :
    Listing (latest ops) (order.mergeSort fileLe) := by
  have hperm : (order.mergeSort fileLe).Perm (run ops).diagnosticsOf :=
    (List.mergeSort_perm order fileLe).trans horder
  have hkeys : ((order.mergeSort fileLe).map Prod.fst).Nodup :=
    ((hperm.map Prod.fst).nodup_iff).2 (kept_run ops).distinct
  have hsorted : (order.mergeSort fileLe).Pairwise fun a b => fileLe a b = true :=
    List.pairwise_mergeSort fileLe_trans fileLe_total order
  refine ⟨fun uri found => ?_, hkeys, ?_⟩
  · rw [hperm.mem_iff, mem_diagnosticsOf_run]
  · refine (hsorted.and (List.pairwise_map.1 hkeys)).imp ?_
    rintro a b ⟨hle, hne⟩
    exact (Precedes.trichotomous hne).resolve_right ((fileLe_iff a b).1 hle)

theorem countP_files (p : Diagnostic → Bool) (hkeys : (files.map Prod.fst).Nodup)
    (hitems : ∀ file ∈ files, items file.1 = file.2) :
    (files.flatMap Prod.snd).countP p =
      ∑ uri ∈ (files.map Prod.fst).toFinset, (items uri).countP p := by
  induction files with
  | nil => rfl
  | cons file files ih =>
    rw [List.map_cons, List.nodup_cons] at hkeys
    have hrest := ih hkeys.2 fun other hother => hitems other (List.mem_cons_of_mem file hother)
    have hnew : file.1 ∉ (files.map Prod.fst).toFinset := by
      rw [List.mem_toFinset]
      exact hkeys.1
    rw [List.flatMap_cons, List.countP_append, hrest, List.map_cons, List.toFinset_cons,
      Finset.sum_insert hnew, hitems file List.mem_cons_self]

/-- What is counted in a listing is counted document by document. -/
theorem Listing.countP_all (h : Listing items files) (p : Diagnostic → Bool)
    {documents : Finset Uri} (hdocuments : ∀ uri, items uri ≠ [] → uri ∈ documents) :
    (files.flatMap Prod.snd).countP p = ∑ uri ∈ documents, (items uri).countP p := by
  have hmem : ∀ file ∈ files, items file.1 = file.2 ∧ file.2 ≠ [] :=
    fun file hfile => (h.mem_iff file.1 file.2).1 hfile
  rw [countP_files p h.distinct fun file hfile => (hmem file hfile).1]
  refine Finset.sum_subset ?_ ?_
  · intro uri huri
    obtain ⟨file, hfile, rfl⟩ := List.mem_map.1 (List.mem_toFinset.1 huri)
    refine hdocuments file.1 ?_
    rw [(hmem file hfile).1]
    exact (hmem file hfile).2
  · intro uri _ hother
    have hnone : items uri = [] := by
      by_contra hne
      refine hother (List.mem_toFinset.2 (List.mem_map.2 ⟨(uri, items uri), ?_, rfl⟩))
      exact (h.mem_iff uri (items uri)).2 ⟨rfl, hne⟩
    rw [hnone, List.countP_nil]

-- ---------------------------------------------------------------------------
-- Snapshots
-- ---------------------------------------------------------------------------

/-- The store with its table in another order. -/
def withOrder (s : Store) (order : Table Uri (List Diagnostic)) : Store :=
  { s with diagnosticsOf := order }

/-- In whatever order the table has its entries, a snapshot lists the documents whose latest
diagnostics are not empty, each once and with these diagnostics, those with errors first and then
by their URIs. It counts what is in them, and it is the same after any other operations that leave
the documents with the same diagnostics. -/
theorem snapshot_lists_latest (ops : List Op) (order : Table Uri (List Diagnostic))
    (horder : order.Perm (run ops).diagnosticsOf) :
    Listing (latest ops) ((run ops).withOrder order).snapshot.files ∧
    (∀ documents : Finset Uri, (∀ uri, latest ops uri ≠ [] → uri ∈ documents) →
      ((run ops).withOrder order).snapshot.errorCount =
        ∑ uri ∈ documents, (latest ops uri).countP (fun d => d.severity = .error) ∧
      ((run ops).withOrder order).snapshot.warningCount =
        ∑ uri ∈ documents, (latest ops uri).countP (fun d => d.severity = .warning) ∧
      ((run ops).withOrder order).snapshot.totalCount =
        ∑ uri ∈ documents, (latest ops uri).length) ∧
    ∀ ops' order', (∀ uri, latest ops' uri = latest ops uri) →
      order'.Perm (run ops').diagnosticsOf →
      ((run ops').withOrder order').snapshot = ((run ops).withOrder order).snapshot := by
  have hlisting : Listing (latest ops) ((run ops).withOrder order).snapshot.files :=
    listing_mergeSort horder
  refine ⟨hlisting, fun documents hdocuments => ⟨?_, ?_, ?_⟩, fun ops' order' hlatest horder' => ?_⟩
  · exact hlisting.countP_all _ hdocuments
  · exact hlisting.countP_all _ hdocuments
  · have hall := hlisting.countP_all (fun _ => true) hdocuments
    simp only [List.countP_true] at hall
    exact hall
  · have hlisting' : Listing (latest ops') ((run ops').withOrder order').snapshot.files :=
      listing_mergeSort horder'
    rw [funext hlatest] at hlisting'
    exact congrArg Snapshot.mk (hlisting'.unique hlisting)

/-- A diagnostic at the start of a document. -/
def atStart (severity : Severity) (message : String) : Diagnostic :=
  { severity, message, range := ⟨⟨0, 0⟩, ⟨0, 1⟩⟩, source := "verifier" }

/-- A document with a warning, and one with an error whose URI comes later. -/
def warnedAndBroken : List Op :=
  [.diagnostics ⟨"file:///A"⟩ [atStart .warning "unused"],
   .diagnostics ⟨"file:///B"⟩ [atStart .error "unproved"]]

/-- The same results by other updates, some of them taken back. -/
def warnedAndBrokenAgain : List Op :=
  [.diagnostics ⟨"file:///B"⟩ [atStart .hint "unread"], .remove ⟨"file:///A"⟩,
   .diagnostics ⟨"file:///B"⟩ [atStart .error "unproved"],
   .diagnostics ⟨"file:///A"⟩ [atStart .warning "unused"], .status ⟨"file:///A"⟩ []]

theorem warnedAndBroken_same :
    (∀ uri, latest warnedAndBrokenAgain uri = latest warnedAndBroken uri) ∧
    ((run warnedAndBrokenAgain).withOrder
      (run warnedAndBrokenAgain).diagnosticsOf.reverse).snapshot =
        ((run warnedAndBroken).withOrder (run warnedAndBroken).diagnosticsOf).snapshot ∧
    ((run warnedAndBroken).withOrder
      (run warnedAndBroken).diagnosticsOf).snapshot.errorCount = 1 := by
  have hlatest : ∀ uri, latest warnedAndBrokenAgain uri = latest warnedAndBroken uri := by
    intro uri
    by_cases hA : uri = ⟨"file:///A"⟩
    · subst hA
      decide
    · by_cases hB : uri = ⟨"file:///B"⟩
      · subst hB
        decide
      · simp [latest, warnedAndBrokenAgain, warnedAndBroken, Op.items?, hA, hB]
  have hdocuments : ∀ uri, latest warnedAndBroken uri ≠ [] →
      uri ∈ ({⟨"file:///A"⟩, ⟨"file:///B"⟩} : Finset Uri) := by
    intro uri hne
    by_contra hother
    simp only [Finset.mem_insert, Finset.mem_singleton, not_or] at hother
    simp [latest, warnedAndBroken, Op.items?, hother.1, hother.2] at hne
  obtain ⟨-, hcounts, hsame⟩ := snapshot_lists_latest warnedAndBroken _ (List.Perm.refl _)
  refine ⟨hlatest, hsame _ _ hlatest (List.reverse_perm _), ?_⟩
  rw [(hcounts _ hdocuments).1]
  decide

end Store

end VerifierClient

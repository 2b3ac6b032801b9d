import VerifierClient.Result.Merge
import Mathlib.Data.List.Basic

/-!
# The strict verifier has the last word

What is published joins the results of two verifiers. The lax one only adds to what the strict
one says: its diagnostics come last and are warnings at most, and its fragments are entries of
kinds of their own. The status is sorted after the three sources have been put together, by a
key on which entries may agree, so to take the lax entries out again one needs that sorting
leaves the order of the others alone.

* `mergeSort_cons_cut` — where the stable sort puts the first element of a list;
* `filter_mergeSort` — taking elements out before sorting or after makes no difference;
* `strict_results_prevail` — what the lax verifier can and cannot change.
-/

namespace VerifierClient

-- ---------------------------------------------------------------------------
-- Stable sorting
-- ---------------------------------------------------------------------------

section Stable

variable {α : Type} {le : α → α → Bool}

/-- The first element of a list goes in front of the first of the others that is not smaller,
and the others stay as they are sorted without it. -/
theorem mergeSort_cons_cut (htrans : ∀ a b c, le a b = true → le b c = true → le a c = true)
    (htotal : ∀ a b, (le a b || le b a) = true) (a : α) (l : List α) :
    l.mergeSort le =
        (l.mergeSort le).filter (fun b => !le a b) ++ (l.mergeSort le).filter (fun b => le a b) ∧
      (a :: l).mergeSort le =
        (l.mergeSort le).filter (fun b => !le a b) ++
          a :: (l.mergeSort le).filter (fun b => le a b) := by
  obtain ⟨before, after, hcons, hrest, hbefore⟩ := List.mergeSort_cons htrans htotal a l
  have hsorted := List.pairwise_mergeSort htrans htotal (a :: l)
  rw [hcons, List.pairwise_append] at hsorted
  have hafter : ∀ b ∈ after, le a b = true := (List.pairwise_cons.1 hsorted.2.1).1
  have hsmaller : (l.mergeSort le).filter (fun b => !le a b) = before := by
    rw [hrest, List.filter_append, List.filter_eq_self.2 hbefore,
      List.filter_eq_nil_iff.2 fun b hb => by simp [hafter b hb], List.append_nil]
  have hothers : (l.mergeSort le).filter (fun b => le a b) = after := by
    rw [hrest, List.filter_append, List.filter_eq_self.2 hafter,
      List.filter_eq_nil_iff.2 fun b hb => by simpa using hbefore b hb, List.nil_append]
  rw [hsmaller, hothers]
  exact ⟨hrest, hcons⟩

theorem filter_mergeSort (htrans : ∀ a b c, le a b = true → le b c = true → le a c = true)
    (htotal : ∀ a b, (le a b || le b a) = true) (p : α → Bool) (l : List α) :
    (l.mergeSort le).filter p = (l.filter p).mergeSort le := by
  induction l with
  | nil => simp
  | cons a l ih =>
    obtain ⟨hrest, hcons⟩ := mergeSort_cons_cut htrans htotal a l
    rw [hcons, List.filter_append]
    by_cases ha : p a = true
    · obtain ⟨-, hcons'⟩ := mergeSort_cons_cut htrans htotal a (l.filter p)
      rw [List.filter_cons_of_pos ha, List.filter_cons_of_pos ha, hcons', ← ih,
        List.filter_comm p, List.filter_comm p]
    · rw [List.filter_cons_of_neg ha, List.filter_cons_of_neg ha, ← List.filter_append, ← hrest, ih]

end Stable

-- ---------------------------------------------------------------------------
-- The order of the status
-- ---------------------------------------------------------------------------

namespace Range

theorem le_iff {r s : Range} :
    r.le s = true ↔ r.start < s.start ∨ r.start = s.start ∧ r.stop ≤ s.stop := by
  simp [le]

theorem le_trans {r s t : Range} (hrs : r.le s = true) (hst : s.le t = true) : r.le t = true := by
  obtain ⟨⟨_, _⟩, ⟨_, _⟩⟩ := r
  obtain ⟨⟨_, _⟩, ⟨_, _⟩⟩ := s
  obtain ⟨⟨_, _⟩, ⟨_, _⟩⟩ := t
  simp only [le_iff, Position.lt_iff, Position.le_iff, Position.mk.injEq] at *
  omega

theorem le_total (r s : Range) : (r.le s || s.le r) = true := by
  obtain ⟨⟨_, _⟩, ⟨_, _⟩⟩ := r
  obtain ⟨⟨_, _⟩, ⟨_, _⟩⟩ := s
  simp only [Bool.or_eq_true, le_iff, Position.lt_iff, Position.le_iff, Position.mk.injEq]
  omega

end Range

namespace FragmentStatus

/-- Entries by their ranges. -/
def le (a b : FragmentStatus) : Bool := a.range.le b.range

theorem le_trans (a b c : FragmentStatus) (hab : a.le b = true) (hbc : b.le c = true) :
    a.le c = true :=
  Range.le_trans hab hbc

theorem le_total (a b : FragmentStatus) : (a.le b || b.le a) = true :=
  Range.le_total a.range b.range

end FragmentStatus

-- ---------------------------------------------------------------------------
-- What the lax verifier adds
-- ---------------------------------------------------------------------------

/-- The kinds of entries that come from the lax verifier. -/
def StatusKind.isLight : StatusKind → Bool
  | lightOk | lightFailed => true
  | _ => false

namespace Fragment

theorem isLight_statusKind (f : Fragment) : f.statusKind.isLight = false := by
  unfold statusKind
  split
  · rfl
  · split
    · rfl
    · split <;> rfl
    · rfl

theorem statusKind_ne_started (f : Fragment) : f.statusKind ≠ .started := by
  unfold statusKind
  split
  · simp
  · split
    · simp
    · split <;> simp
    · simp

/-- A fragment of the lax verifier that counts: it is current, it has a verdict, and the strict
verifier has not come to its place. -/
def isShownFrom (f : Fragment) (verifiedTo : Position) : Bool :=
  !f.stale && f.ok.isSome && verifiedTo ≤ f.range.start

/-- The entry for a fragment of the lax verifier with a verdict. -/
def lightEntry (f : Fragment) : FragmentStatus :=
  ⟨f.range, if f.ok = some true then .lightOk else .lightFailed⟩

theorem lightStatus?_eq (f : Fragment) :
    f.lightStatus? = if f.ok.isSome then some f.lightEntry else none := by
  unfold lightStatus? lightEntry
  rcases f.ok with _ | _ | _ <;> rfl

theorem isLight_lightEntry (f : Fragment) : f.lightEntry.kind.isLight = true := by
  unfold lightEntry
  dsimp only
  split <;> rfl

end Fragment

section Merged

variable (strict : ResultModel) (startedTo : Option Position)

theorem lightStatus_eq (lax : ResultModel) :
    lightStatus strict lax =
      (lax.live.fragments.filter fun f => f.isShownFrom strict.live.verifiedTo).map
        Fragment.lightEntry := by
  unfold lightStatus
  induction lax.live.fragments with
  | nil => rfl
  | cons f rest ih =>
    simp only [List.filter_cons, Fragment.isShownFrom] at ih ⊢
    by_cases hcurrent : f.stale = false ∧ strict.live.verifiedTo ≤ f.range.start
    · cases hok : f.ok.isSome <;> simp [hcurrent, hok, f.lightStatus?_eq, ih]
    · have hskip : ¬ (!f.stale && decide (strict.live.verifiedTo ≤ f.range.start)) = true := by
        simpa using hcurrent
      have hskip' : ¬ (!f.stale && f.ok.isSome &&
          decide (strict.live.verifiedTo ≤ f.range.start)) = true := by
        simp only [Bool.and_eq_true] at hskip ⊢
        exact fun h => hskip ⟨h.1.1, h.2⟩
      rw [if_neg hskip, if_neg hskip', ih]

/-- The entries of the strict verifier before they are sorted. -/
def ownStatus : List FragmentStatus :=
  strict.live.fragments.map fun f => ⟨f.range, f.statusKind⟩

theorem not_isLight_of_mem_ownStatus {e : FragmentStatus} (he : e ∈ ownStatus strict) :
    e.kind.isLight = false := by
  obtain ⟨f, -, rfl⟩ := List.mem_map.1 he
  exact f.isLight_statusKind

/-- The mark reaches from the checked part to where the last bounded request goes. -/
theorem mem_startedStatus {e : FragmentStatus} :
    e ∈ startedStatus strict startedTo ↔ ∃ stop, startedTo = some stop ∧
      strict.live.coveredTo < stop ∧ e = ⟨⟨strict.live.coveredTo, stop⟩, .started⟩ := by
  unfold startedStatus
  rcases startedTo with _ | stop
  · simp
  · by_cases hshows : strict.live.coveredTo < stop <;> simp [hshows]

theorem not_isLight_of_mem_startedStatus {e : FragmentStatus}
    (he : e ∈ startedStatus strict startedTo) : e.kind.isLight = false := by
  obtain ⟨stop, -, -, rfl⟩ := (mem_startedStatus strict startedTo).1 he
  rfl

theorem mergedStatus_none :
    mergedStatus strict none startedTo =
      (ownStatus strict ++ startedStatus strict startedTo).mergeSort FragmentStatus.le := by
  show (ownStatus strict ++ [] ++ startedStatus strict startedTo).mergeSort FragmentStatus.le = _
  rw [List.append_nil]

theorem mergedStatus_some (lax : ResultModel) :
    mergedStatus strict (some lax) startedTo =
      (ownStatus strict ++ lightStatus strict lax ++ startedStatus strict startedTo).mergeSort
        FragmentStatus.le := rfl

theorem isLight_of_mem_lightStatus {lax : ResultModel} {e : FragmentStatus}
    (he : e ∈ lightStatus strict lax) : e.kind.isLight = true := by
  rw [lightStatus_eq] at he
  obtain ⟨f, -, rfl⟩ := List.mem_map.1 he
  exact f.isLight_lightEntry

/-- An entry that waits to be checked is the mark. -/
theorem mem_startedStatus_of_merged {lax : Option ResultModel} {e : FragmentStatus}
    (he : e ∈ mergedStatus strict lax startedTo) (hstarted : e.kind = .started) :
    e ∈ startedStatus strict startedTo := by
  have hown : e ∉ ownStatus strict := by
    intro hmem
    obtain ⟨f, -, rfl⟩ := List.mem_map.1 hmem
    exact f.statusKind_ne_started hstarted
  rcases lax with _ | lax
  · rw [mergedStatus_none, List.mem_mergeSort, List.mem_append] at he
    exact he.resolve_left hown
  · rw [mergedStatus_some, List.mem_mergeSort, List.mem_append, List.mem_append] at he
    have hlight : e ∉ lightStatus strict lax := by
      intro hmem
      have hkind := isLight_of_mem_lightStatus strict hmem
      rw [hstarted] at hkind
      cases hkind
    exact he.resolve_left fun h => h.elim hown hlight

theorem mergedStatus_of_startedStatus {stop stop' : Option Position}
    (h : startedStatus strict stop = startedStatus strict stop') (lax : Option ResultModel) :
    mergedStatus strict lax stop = mergedStatus strict lax stop' := by
  unfold mergedStatus
  rw [h]

/-- A mark that shows adds to the status. -/
theorem mergedStatus_ne_unmarked {stop : Option Position}
    (h : startedStatus strict stop ≠ []) (lax : Option ResultModel) :
    mergedStatus strict lax stop ≠ mergedStatus strict lax none := by
  intro heq
  have hlength := congrArg List.length heq
  have hmark := List.length_pos_iff.2 h
  have hnone : startedStatus strict none = [] := rfl
  simp only [mergedStatus, List.length_mergeSort, List.length_append, hnone,
    List.length_nil] at hlength
  omega

/-- Entries of the kinds of the lax verifier come from it alone. -/
theorem filter_merged (lax : ResultModel) :
    (ownStatus strict ++ lightStatus strict lax ++ startedStatus strict startedTo).filter
        (fun e => !e.kind.isLight) = ownStatus strict ++ startedStatus strict startedTo ∧
      (ownStatus strict ++ lightStatus strict lax ++ startedStatus strict startedTo).filter
        (fun e => e.kind.isLight) = lightStatus strict lax := by
  have hlight : ∀ e ∈ lightStatus strict lax, e.kind.isLight = true :=
    fun e he => isLight_of_mem_lightStatus strict he
  have hown := fun e => not_isLight_of_mem_ownStatus strict (e := e)
  have hstarted := fun e => not_isLight_of_mem_startedStatus strict startedTo (e := e)
  simp only [List.filter_append]
  constructor
  · rw [List.filter_eq_self.2 fun e he => by simp [hown e he],
      List.filter_eq_nil_iff.2 fun e he => by simp [hlight e he],
      List.filter_eq_self.2 fun e he => by simp [hstarted e he], List.append_nil]
  · rw [List.filter_eq_nil_iff.2 fun e he => by simp [hown e he], List.filter_eq_self.2 hlight,
      List.filter_eq_nil_iff.2 fun e he => by simp [hstarted e he], List.nil_append,
      List.append_nil]

end Merged

namespace Diagnostic

theorem severity_downgraded (d : Diagnostic) : d.downgraded.severity ≠ .error := by
  unfold downgraded
  split
  · simp
  next herror =>
    intro heq
    rw [heq] at herror
    exact herror rfl

end Diagnostic

/-- The lax verifier adds to the diagnostics of the strict one some that are no errors and lie
behind the verified part. The status is in the order of the text; without the entries of the
lax verifier it is the status of the strict one, and those entries are one for each lax fragment
that is current, has a verdict and lies behind the verified part. -/
theorem strict_results_prevail (strict lax : ResultModel) (startedTo : Option Position) :
    (∃ added, mergedDiagnostics strict (some lax) = mergedDiagnostics strict none ++ added ∧
      ∀ d ∈ added, d.severity ≠ .error ∧ ¬ d.range.start < strict.live.verifiedTo) ∧
    (∀ lax : Option ResultModel, (mergedStatus strict lax startedTo).Pairwise fun a b =>
      a.range.start < b.range.start ∨
        a.range.start = b.range.start ∧ a.range.stop ≤ b.range.stop) ∧
    (mergedStatus strict (some lax) startedTo).filter (fun e => !e.kind.isLight) =
      mergedStatus strict none startedTo ∧
    ((mergedStatus strict (some lax) startedTo).filter fun e => e.kind.isLight).Perm
      ((lax.live.fragments.filter fun f => f.isShownFrom strict.live.verifiedTo).map
        Fragment.lightEntry) := by
  obtain ⟨hothers, hlight⟩ := filter_merged strict startedTo lax
  refine ⟨⟨_, rfl, ?_⟩, ?_, ?_, ?_⟩
  · intro d hd
    obtain ⟨d, hbehind, rfl⟩ := List.mem_map.1 hd
    have hplace := of_decide_eq_true (List.mem_filter.1 hbehind).2
    rw [d.range_downgraded, Position.not_lt]
    exact ⟨d.severity_downgraded, hplace⟩
  · intro lax
    have hsorted : (mergedStatus strict lax startedTo).Pairwise fun a b => a.le b = true :=
      List.pairwise_mergeSort FragmentStatus.le_trans FragmentStatus.le_total _
    exact hsorted.imp Range.le_iff.1
  · rw [mergedStatus_some, mergedStatus_none,
      filter_mergeSort FragmentStatus.le_trans FragmentStatus.le_total, hothers]
  · rw [mergedStatus_some, filter_mergeSort FragmentStatus.le_trans FragmentStatus.le_total, hlight,
      lightStatus_eq]
    exact List.mergeSort_perm _ _

end VerifierClient

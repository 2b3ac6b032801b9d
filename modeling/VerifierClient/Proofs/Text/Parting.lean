import Mathlib.Order.MinMax
import Mathlib.Order.WithBot
import VerifierClient.Proofs.Text.Boundaries
import VerifierClient.Proofs.Text.Replacement

/-!
# How far texts agree

Two texts part right behind their longest common beginning, and equal texts part nowhere. Measured
in bytes or in positions, the stretch over which texts agree behaves like an ultrametric: where two
texts part, each third text has parted from one of them.

* `PartAt` — the place where two texts part, said of their bytes and characters;
* `IsUltrametric`, `min_parting_le` — three texts, for every measure of beginnings that grows with
  them;
* `firstDifference_ultrametric` — the two measures in use.
-/

namespace VerifierClient.Text

-- ---------------------------------------------------------------------------
-- Where two texts part
-- ---------------------------------------------------------------------------

/-- The texts have the same bytes up to the offset `d`, which lies at the edge of a character in
both. There one of them ends, or they go on with different characters. -/
structure PartAt (a b : String) (d : Nat) : Prop where
  left : IsBoundary a.toList d
  right : IsBoundary b.toList d
  bytes : a.toUTF8.data.toList.take d = b.toUTF8.data.toList.take d
  next : byteLength a.toList = d ∨ byteLength b.toList = d ∨
    ∃ start x y restA restB, a.toList = start ++ x :: restA ∧ b.toList = start ++ y :: restB ∧
      byteLength start = d ∧ x ≠ y

theorem commonStart_comm (a b : List Char) : commonStart a b = commonStart b a := by
  have hbegins : ∀ a b, commonStart a b <+: commonStart b a := by
    intro a b
    exact prefix_commonStart (commonStart_prefix_right a b) (commonStart_prefix_left a b)
  exact (hbegins a b).eq_of_length_le (hbegins b a).length_le

/-- Behind the common beginning one of the texts ends, or the next characters differ. -/
theorem commonStart_next (a b : List Char) :
    commonStart a b = a ∨ commonStart a b = b ∨
      ∃ x y restA restB, a = commonStart a b ++ x :: restA ∧ b = commonStart a b ++ y :: restB ∧
        x ≠ y := by
  fun_induction commonStart a b with
  | case1 a c b ih =>
    rcases ih with h | h | ⟨x, y, restA, restB, ha, hb, hne⟩
    · exact .inl (congrArg (c :: ·) h)
    · exact .inr (.inl (congrArg (c :: ·) h))
    · exact .inr (.inr ⟨x, y, restA, restB, congrArg (c :: ·) ha, congrArg (c :: ·) hb, hne⟩)
  | case2 x a y b hne => exact .inr (.inr ⟨x, y, a, b, rfl, rfl, hne⟩)
  | case3 a b hends =>
    cases a with
    | nil => exact .inl rfl
    | cons x a =>
      cases b with
      | nil => exact .inr (.inl rfl)
      | cons y b => exact (hends x a y b rfl rfl).elim

theorem length_encoded (chars : List Char) :
    (chars.flatMap String.utf8EncodeChar).length = byteLength chars := by
  induction chars with
  | nil => rfl
  | cons c chars ih =>
    rw [List.flatMap_cons, List.length_append, String.length_utf8EncodeChar, ih, byteLength]

/-- The bytes of a beginning. -/
theorem take_byteLength {start chars : List Char} (h : start <+: chars) :
    (chars.flatMap String.utf8EncodeChar).take (byteLength start) =
      start.flatMap String.utf8EncodeChar := by
  obtain ⟨rest, rfl⟩ := h
  rw [List.flatMap_append, ← length_encoded, List.take_left]

theorem partAt_of_firstDifference {a b : String} {d : Nat}
    (h : firstDifference a.toList b.toList = some d) : PartAt a b d := by
  rw [firstDifference_eq, Option.ite_none_left_eq_some, Option.some.injEq] at h
  obtain ⟨-, rfl⟩ := h
  have hleft := commonStart_prefix_left a.toList b.toList
  have hright := commonStart_prefix_right a.toList b.toList
  refine ⟨⟨_, hleft, rfl⟩, ⟨_, hright, rfl⟩, ?_, ?_⟩
  · rw [utf8_toList, utf8_toList, take_byteLength hleft, take_byteLength hright]
  · rcases commonStart_next a.toList b.toList with hend | hend | ⟨x, y, restA, restB, ha, hb, hne⟩
    · exact .inl (congrArg byteLength hend.symm)
    · exact .inr (.inl (congrArg byteLength hend.symm))
    · exact .inr (.inr ⟨_, x, y, restA, restB, ha, hb, rfl, hne⟩)

theorem firstDifference_eq_none_iff {a b : List Char} : firstDifference a b = none ↔ a = b := by
  rw [firstDifference_eq]
  by_cases h : a = b <;> simp [h]

theorem firstDifference_comm (a b : List Char) : firstDifference a b = firstDifference b a := by
  rw [firstDifference_eq, firstDifference_eq, commonStart_comm]
  simp only [eq_comm]

/-- Behind what they have in common, both texts have the same position. -/
theorem positionAt_of_firstDifference {a b : List Char} {d : Nat}
    (h : firstDifference a b = some d) : positionAt a d = positionAt b d := by
  rw [firstDifference_eq, Option.ite_none_left_eq_some, Option.some.injEq] at h
  obtain ⟨-, rfl⟩ := h
  rw [positionAt_byteLength (commonStart_prefix_left a b),
    positionAt_byteLength (commonStart_prefix_right a b)]

-- ---------------------------------------------------------------------------
-- Three texts
-- ---------------------------------------------------------------------------

/-- Reading order has no two places that it does not compare. -/
local instance : LinearOrder Position where
  le_refl := Position.le_refl
  le_trans _ _ _ := Position.le_trans
  le_antisymm _ _ := Position.le_antisymm
  lt_iff_le_not_ge p q := by
    rw [Position.not_le, iff_and_self]
    intro h
    rw [Position.le_iff]
    rw [Position.lt_iff] at h
    omega
  le_total p q := by
    rw [Position.le_iff, Position.le_iff]
    omega
  toDecidableLE := inferInstance

/-- A place that may be missing, with a missing one past all others. -/
def orNever {α : Type} (place : Option α) : WithTop α := place.elim ⊤ WithTop.some

/-- Where two texts part, a third one has parted from one of them, there or before. -/
def IsUltrametric {α : Type} [LinearOrder α] (place : String → String → Option α) : Prop :=
  ∀ a b c, min (orNever (place a b)) (orNever (place b c)) ≤ orNever (place a c)

/-- How far two texts agree, in some measure of beginnings. -/
def parting {α : Type} (measure : List Char → α) (a b : List Char) : WithTop α :=
  if a = b then ⊤ else measure (commonStart a b)

theorem min_parting_le {α : Type} [LinearOrder α] {measure : List Char → α}
    (hmono : ∀ {start chars}, start <+: chars → measure start ≤ measure chars)
    (a b c : List Char) :
    min (parting measure a b) (parting measure b c) ≤ parting measure a c := by
  unfold parting
  by_cases hac : a = c
  · simp [hac]
  by_cases hab : a = b
  · simp [hab]
  by_cases hbc : b = c
  · simp [hbc]
  rw [if_neg hac, if_neg hab, if_neg hbc, min_le_iff, WithTop.coe_le_coe, WithTop.coe_le_coe]
  exact (commonStart_triangle a b c).imp hmono hmono

theorem orNever_firstDifference (a b : List Char) :
    orNever (firstDifference a b) = parting byteLength a b := by
  rw [firstDifference_eq, parting]
  split <;> rfl

theorem orNever_editPosition (a b : String) :
    orNever (editPosition a b) = parting reach a.toList b.toList := by
  cases h : editPosition a b with
  | none =>
    rw [editPosition_eq_none_iff] at h
    rw [h, parting, if_pos rfl]
    rfl
  | some p =>
    obtain ⟨hne, rfl⟩ := editPosition_eq_some_iff.1 h
    rw [parting, if_neg fun heq => hne (String.toList_inj.1 heq)]
    rfl

/-- The first difference of two texts lies behind their longest common beginning, from either side,
and it comes no earlier than the first differences of the two from a third text, in bytes as well as
in positions. -/
theorem firstDifference_ultrametric :
    (∀ a b : String,
      (firstDifference a.toList b.toList = none ↔ a = b) ∧
      (∀ d, firstDifference a.toList b.toList = some d →
        PartAt a b d ∧ positionAt a.toList d = positionAt b.toList d) ∧
      firstDifference a.toList b.toList = firstDifference b.toList a.toList) ∧
    IsUltrametric (fun a b => firstDifference a.toList b.toList) ∧
    IsUltrametric editPosition := by
  refine ⟨fun a b => ⟨?_, fun d h => ⟨partAt_of_firstDifference h, positionAt_of_firstDifference h⟩,
    firstDifference_comm ..⟩, fun a b c => ?_, fun a b c => ?_⟩
  · rw [firstDifference_eq_none_iff, String.toList_inj]
  · simp only [orNever_firstDifference]
    exact min_parting_le byteLength_mono ..
  · simp only [orNever_editPosition]
    exact min_parting_le reach_mono ..

/-- Different characters may begin with the same byte; the texts part in front of them. -/
theorem sharedByte_partAt :
    "aé".toUTF8.data.toList.take 2 = "aè".toUTF8.data.toList.take 2 ∧
      firstDifference "aé".toList "aè".toList = some 1 ∧ PartAt "aé" "aè" 1 := by
  have h : firstDifference "aé".toList "aè".toList = some 1 := by decide
  exact ⟨by decide, h, ((firstDifference_ultrametric.1 "aé" "aè").2.1 1 h).1⟩

end VerifierClient.Text

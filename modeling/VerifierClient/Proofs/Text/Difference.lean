import VerifierClient.Text.Offset

/-!
# Where two texts part

An edit begins where the text before it and the text after it stop agreeing, so
everything about the place of an edit follows from the longest common beginning
of two texts. Of three texts, any two agree at least as far as both agree with
the third.

* `firstDifference_eq` — the first difference lies right behind the common
  beginning;
* `editPosition_eq_some_iff` — so does the place of an edit;
* `editPosition_triangle` — a change that leads from one text to another over a
  third is no earlier than both of its parts.
-/

namespace VerifierClient.Text

-- ---------------------------------------------------------------------------
-- Common beginnings
-- ---------------------------------------------------------------------------

/-- The longest common beginning of two texts. -/
def commonStart : List Char → List Char → List Char
  | a :: old, b :: new => if a = b then a :: commonStart old new else []
  | _, _ => []

theorem commonStart_prefix_left (old new : List Char) : commonStart old new <+: old := by
  fun_induction commonStart old new with
  | case1 old a new ih => exact List.cons_prefix_cons.2 ⟨rfl, ih⟩
  | case2 => exact List.nil_prefix
  | case3 => exact List.nil_prefix

theorem commonStart_prefix_right (old new : List Char) : commonStart old new <+: new := by
  fun_induction commonStart old new with
  | case1 old a new ih => exact List.cons_prefix_cons.2 ⟨rfl, ih⟩
  | case2 => exact List.nil_prefix
  | case3 => exact List.nil_prefix

/-- No common beginning is longer. -/
theorem prefix_commonStart {start old new : List Char} (hold : start <+: old)
    (hnew : start <+: new) : start <+: commonStart old new := by
  induction start generalizing old new with
  | nil => exact List.nil_prefix
  | cons c start ih =>
    obtain ⟨restOld, rfl⟩ := hold
    obtain ⟨restNew, rfl⟩ := hnew
    simp only [List.cons_append, commonStart, if_true]
    exact List.cons_prefix_cons.2 ⟨rfl, ih (List.prefix_append ..) (List.prefix_append ..)⟩

/-- Two texts agree at least as far as one of them and both agree with a third,
whichever of the two beginnings is the shorter one. -/
theorem commonStart_triangle (old mid new : List Char) :
    commonStart old mid <+: commonStart old new ∨ commonStart mid new <+: commonStart old new := by
  -- both are beginnings of `mid`, so one of them begins the other
  rcases List.prefix_or_prefix_of_prefix (commonStart_prefix_right old mid)
    (commonStart_prefix_left mid new) with h | h
  · left
    exact prefix_commonStart (commonStart_prefix_left old mid)
      (h.trans (commonStart_prefix_right mid new))
  · right
    exact prefix_commonStart (h.trans (commonStart_prefix_left old mid))
      (commonStart_prefix_right mid new)

theorem firstDifference_eq (old new : List Char) :
    firstDifference old new =
      if old = new then none else some (byteLength (commonStart old new)) := by
  fun_induction firstDifference old new with
  | case1 => rfl
  | case2 => rfl
  | case3 => rfl
  | case4 old a new ih =>
    rw [ih]
    by_cases h : old = new <;> simp [h, commonStart, byteLength]
  | case5 a old b new h => simp [h, commonStart, byteLength]

-- ---------------------------------------------------------------------------
-- Positions
-- ---------------------------------------------------------------------------

/-- The position that a reader of `chars` comes to. -/
def reach (chars : List Char) : Position := chars.foldl Position.advance .zero

theorem positionFrom_append (p : Position) (start rest : List Char) :
    positionFrom p (start ++ rest) (byteLength start) = start.foldl Position.advance p := by
  induction start generalizing p with
  | nil => cases rest <;> simp [positionFrom, byteLength]
  | cons c start ih =>
    have hpos : c.utf8Size + byteLength start ≠ 0 := by
      have := c.utf8Size_pos
      omega
    rw [List.cons_append, positionFrom, byteLength, if_neg hpos, Nat.add_sub_cancel_left, ih,
      List.foldl_cons]

theorem positionAt_byteLength {start chars : List Char} (h : start <+: chars) :
    positionAt chars (byteLength start) = reach start := by
  obtain ⟨rest, rfl⟩ := h
  exact positionFrom_append .zero start rest

/-- Reading on leads to later positions. -/
theorem le_foldl_advance (p : Position) (chars : List Char) :
    p ≤ chars.foldl Position.advance p := by
  induction chars generalizing p with
  | nil => exact p.le_refl
  | cons c chars ih => exact Position.le_trans (p.le_advance c) (ih (p.advance c))

theorem reach_mono {start chars : List Char} (h : start <+: chars) : reach start ≤ reach chars := by
  obtain ⟨rest, rfl⟩ := h
  unfold reach
  rw [List.foldl_append]
  exact le_foldl_advance _ rest

-- ---------------------------------------------------------------------------
-- Edits
-- ---------------------------------------------------------------------------

theorem editPosition_eq_some_iff {old new : String} {pos : Position} :
    editPosition old new = some pos ↔
      old ≠ new ∧ reach (commonStart old.toList new.toList) = pos := by
  unfold editPosition
  rw [firstDifference_eq]
  by_cases h : old = new
  · simp [h]
  · have hchars : old.toList ≠ new.toList := fun heq => h (String.toList_inj.1 heq)
    simp [h, hchars, positionAt_byteLength (commonStart_prefix_left old.toList new.toList)]

theorem editPosition_eq_none_iff {old new : String} :
    editPosition old new = none ↔ old = new := by
  rw [Option.eq_none_iff_forall_ne_some]
  simp only [ne_eq, editPosition_eq_some_iff, not_and]
  constructor
  · intro h
    exact Decidable.byContradiction fun hne => h _ hne rfl
  · intro h _ hne
    exact absurd h hne

@[simp] theorem editPosition_self (text : String) : editPosition text text = none :=
  editPosition_eq_none_iff.2 rfl

/-- Where `old` and `new` part, `mid` has already parted from one of them. -/
theorem editPosition_triangle {old new : String} (mid : String) {pos : Position}
    (h : editPosition old new = some pos) :
    (∃ p, editPosition old mid = some p ∧ p ≤ pos) ∨
      ∃ p, editPosition mid new = some p ∧ p ≤ pos := by
  obtain ⟨hne, rfl⟩ := editPosition_eq_some_iff.1 h
  by_cases hold : old = mid
  · subst hold
    exact .inr ⟨_, h, Position.le_refl _⟩
  by_cases hnew : mid = new
  · subst hnew
    exact .inl ⟨_, h, Position.le_refl _⟩
  rcases commonStart_triangle old.toList mid.toList new.toList with hstart | hstart
  · exact .inl ⟨_, editPosition_eq_some_iff.2 ⟨hold, rfl⟩, reach_mono hstart⟩
  · exact .inr ⟨_, editPosition_eq_some_iff.2 ⟨hnew, rfl⟩, reach_mono hstart⟩

end VerifierClient.Text

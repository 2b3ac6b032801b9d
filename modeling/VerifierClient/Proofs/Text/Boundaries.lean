import VerifierClient.Proofs.Text.Difference

/-!
# Offsets and positions

A boundary is an offset at the edge of a character, which is to say the length in bytes of a
beginning of the text. The beginnings of a text are ordered in the same way by their lengths and by
the positions that a reader of them comes to. The offset of a position is the length of the longest
beginning that does not lead past it, and so offsets and positions are adjoint.

* `IsBoundary`, `splitAt?_eq_some_iff` — boundaries and the parts of a text around them;
* `exists_next_boundary` — the position of an offset inside a character;
* `offsetFrom_spec` — the longest beginning that does not lead past a position;
* `exists_reach_iff` — the positions that a reader comes to, line by line;
* `positions_adjoin_offsets` — the two maps together.
-/

namespace VerifierClient.Text

variable {chars start other : List Char} {o o' : Nat} {p target : Position}

-- ---------------------------------------------------------------------------
-- Boundaries
-- ---------------------------------------------------------------------------

@[simp] theorem byteLength_append (start rest : List Char) :
    byteLength (start ++ rest) = byteLength start + byteLength rest := by
  induction start with
  | nil => simp [byteLength]
  | cons c start ih => simp [byteLength, ih, Nat.add_assoc]

theorem byteLength_cons_pos (c : Char) (rest : List Char) : 0 < byteLength (c :: rest) :=
  Nat.lt_of_lt_of_le c.utf8Size_pos (Nat.le_add_right ..)

theorem byteLength_mono (h : start <+: chars) : byteLength start ≤ byteLength chars := by
  obtain ⟨rest, rfl⟩ := h
  simp

/-- Of two beginnings of a text, the longer one has more bytes. -/
theorem prefix_iff_byteLength_le (hstart : start <+: chars) (hother : other <+: chars) :
    start <+: other ↔ byteLength start ≤ byteLength other := by
  refine ⟨byteLength_mono, fun hle => ?_⟩
  rcases List.prefix_or_prefix_of_prefix hstart hother with h | ⟨rest, rfl⟩
  · exact h
  · cases rest with
    | nil => simp
    | cons c rest =>
      have := byteLength_cons_pos c rest
      rw [byteLength_append] at hle
      omega

/-- The offset lies at the edge of a character. -/
def IsBoundary (chars : List Char) (o : Nat) : Prop :=
  ∃ start, start <+: chars ∧ byteLength start = o

theorem splitAt?_eq_some_iff {before after : List Char} :
    splitAt? chars o = some (before, after) ↔ before ++ after = chars ∧ byteLength before = o := by
  fun_induction splitAt? chars o generalizing before with
  | case1 chars =>
    cases before with
    | nil => simp [byteLength, eq_comm]
    | cons c before =>
      have := byteLength_cons_pos c before
      simp
      omega
  | case2 o =>
    simp only [reduceCtorEq, List.append_eq_nil_iff, false_iff, not_and]
    rintro ⟨rfl, -⟩
    simp [byteLength]
  | case3 c rest o hfits ih =>
    cases before with
    | nil => simp [byteLength]
    | cons d before =>
      have hsize : c.utf8Size + byteLength before = o + 1 ↔
          byteLength before = o + 1 - c.utf8Size := by omega
      simp only [Option.map_eq_some_iff, Prod.exists, Prod.mk.injEq, List.cons.injEq,
        List.cons_append, byteLength]
      constructor
      · rintro ⟨start, rest', hsplit, ⟨rfl, rfl⟩, rfl⟩
        obtain ⟨happend, hlength⟩ := ih.1 hsplit
        exact ⟨⟨rfl, happend⟩, hsize.2 hlength⟩
      · rintro ⟨⟨rfl, happend⟩, hlength⟩
        exact ⟨before, after, ih.2 ⟨happend, hsize.1 hlength⟩, ⟨rfl, rfl⟩, rfl⟩
  | case4 c rest o hcut =>
    simp only [reduceCtorEq, false_iff, not_and]
    intro happend hlength
    cases before with
    | nil => simp [byteLength] at hlength
    | cons d before =>
      obtain ⟨rfl, -⟩ := List.cons.inj happend
      rw [byteLength] at hlength
      omega

instance (chars : List Char) (o : Nat) : Decidable (IsBoundary chars o) :=
  decidable_of_iff ((splitAt? chars o).isSome = true) <| by
    simp only [Option.isSome_iff_exists, Prod.exists, splitAt?_eq_some_iff]
    constructor
    · rintro ⟨before, after, happend, hlength⟩
      exact ⟨before, ⟨after, happend⟩, hlength⟩
    · rintro ⟨before, ⟨after, happend⟩, hlength⟩
      exact ⟨before, after, happend, hlength⟩

-- ---------------------------------------------------------------------------
-- Beginnings and positions
-- ---------------------------------------------------------------------------

/-- Of two beginnings of a text, the longer one leads to a later position. -/
theorem prefix_iff_reach_le (hstart : start <+: chars) (hother : other <+: chars) :
    start <+: other ↔ reach start ≤ reach other := by
  refine ⟨reach_mono, fun hle => ?_⟩
  rcases List.prefix_or_prefix_of_prefix hstart hother with h | ⟨rest, rfl⟩
  · exact h
  · cases rest with
    | nil => simp
    | cons c rest =>
      have hfurther : (reach other).advance c ≤ reach other := by
        refine Position.le_trans (le_foldl_advance _ rest) ?_
        simpa [reach] using hle
      exact absurd ((reach other).lt_advance c) (Position.not_lt.2 hfurther)

/-- Any offset has the position of the next boundary, and one past the end that of the end. -/
theorem exists_next_boundary (p : Position) (chars : List Char) (o : Nat) :
    ∃ start, start <+: chars ∧ positionFrom p chars o = start.foldl Position.advance p ∧
      min o (byteLength chars) ≤ byteLength start ∧
      ∀ other, other <+: chars → o ≤ byteLength other → start <+: other := by
  induction chars generalizing p o with
  | nil => exact ⟨[], List.nil_prefix, rfl, by simp [byteLength], fun _ _ _ => List.nil_prefix⟩
  | cons c rest ih =>
    by_cases ho : o = 0
    · subst ho
      exact ⟨[], List.nil_prefix, by simp [positionFrom], by simp [byteLength],
        fun _ _ _ => List.nil_prefix⟩
    · obtain ⟨start, hstart, hposition, hreaches, hleast⟩ := ih (p.advance c) (o - c.utf8Size)
      refine ⟨c :: start, List.cons_prefix_cons.2 ⟨rfl, hstart⟩, ?_, ?_, fun other hother hle => ?_⟩
      · rw [positionFrom, if_neg ho, hposition, List.foldl_cons]
      · rw [byteLength, byteLength]
        omega
      · cases other with
        | nil => exact absurd (Nat.le_zero.1 hle) ho
        | cons d other =>
          obtain ⟨rfl, hrest⟩ := List.cons_prefix_cons.1 hother
          rw [byteLength] at hle
          exact List.cons_prefix_cons.2 ⟨rfl, hleast other hrest (by omega)⟩

theorem advance_le_iff (h : p ≤ target) (c : Char) :
    p.advance c ≤ target ↔
      ¬ (p.line = target.line ∧ (p.character = target.character ∨ c = '\n')) := by
  rw [Position.le_iff] at h ⊢
  unfold Position.advance
  by_cases hc : c = '\n' <;> simp [hc] <;> omega

/-- The offset of a position is the length of the longest beginning that does not lead past it. -/
theorem offsetFrom_spec (h : p ≤ target) :
    ∃ start, start <+: chars ∧ offsetFrom p target chars = byteLength start ∧
      start.foldl Position.advance p ≤ target ∧
      ∀ other, other <+: chars → other.foldl Position.advance p ≤ target → other <+: start := by
  induction chars generalizing p with
  | nil => exact ⟨[], List.nil_prefix, rfl, h, fun other hother _ => hother⟩
  | cons c rest ih =>
    by_cases hstop : p.line = target.line ∧ (p.character = target.character ∨ c = '\n')
    · refine ⟨[], List.nil_prefix, by rw [offsetFrom, if_pos hstop, byteLength], h,
        fun other hother hle => ?_⟩
      cases other with
      | nil => exact List.nil_prefix
      | cons d other =>
        obtain ⟨rfl, -⟩ := List.cons_prefix_cons.1 hother
        have hfurther := Position.le_trans (le_foldl_advance (p.advance d) other) hle
        exact absurd hstop ((advance_le_iff h d).1 hfurther)
    · obtain ⟨start, hstart, hoffset, hle, hlongest⟩ := ih ((advance_le_iff h c).2 hstop)
      refine ⟨c :: start, List.cons_prefix_cons.2 ⟨rfl, hstart⟩, ?_, hle,
        fun other hother hle' => ?_⟩
      · rw [offsetFrom, if_neg hstop, hoffset, byteLength]
      · cases other with
        | nil => exact List.nil_prefix
        | cons d other =>
          obtain ⟨rfl, hrest⟩ := List.cons_prefix_cons.1 hother
          exact List.cons_prefix_cons.2 ⟨rfl, hlongest other hrest hle'⟩

theorem offsetAt_spec (chars : List Char) (p : Position) :
    ∃ start, start <+: chars ∧ offsetAt chars p = byteLength start ∧
      ∀ other, other <+: chars → (reach other ≤ p ↔ other <+: start) := by
  have hzero : Position.zero ≤ p := by
    rw [Position.le_iff, Position.zero]
    dsimp only
    omega
  obtain ⟨start, hstart, hoffset, hle, hlongest⟩ := @offsetFrom_spec chars .zero p hzero
  exact ⟨start, hstart, hoffset, fun other hother =>
    ⟨hlongest other hother, fun h => Position.le_trans (reach_mono h) hle⟩⟩

-- ---------------------------------------------------------------------------
-- Lines
-- ---------------------------------------------------------------------------

/-- A reader who has come to `p`, with the given lines still ahead, comes to `q`. -/
def Ahead (p : Position) (q : Position) : List (List Char) → Prop
  | [] => False
  | line :: more =>
    q.line = p.line ∧ p.character ≤ q.character ∧ q.character ≤ p.character + line.length ∨
      Ahead ⟨p.line + 1, 0⟩ q more

theorem exists_foldl_iff (chars : List Char) (p q : Position) :
    (∃ start, start <+: chars ∧ start.foldl Position.advance p = q) ↔
      Ahead p q (chars.splitOn '\n') := by
  induction chars generalizing p with
  | nil =>
    obtain ⟨line, character⟩ := p
    obtain ⟨line', character'⟩ := q
    simp only [List.prefix_nil, exists_eq_left, List.foldl_nil, List.splitOn_nil, Ahead,
      List.length_nil, Nat.add_zero, or_false, Position.mk.injEq]
    omega
  | cons c rest ih =>
    have hcons : (∃ start, start <+: c :: rest ∧ start.foldl Position.advance p = q) ↔
        p = q ∨ Ahead (p.advance c) q (rest.splitOn '\n') := by
      rw [← ih]
      simp only [List.prefix_cons_iff]
      constructor
      · rintro ⟨start, rfl | ⟨start', rfl, hstart⟩, hq⟩
        · exact .inl hq
        · exact .inr ⟨start', hstart, hq⟩
      · rintro (hq | ⟨start, hstart, hq⟩)
        · exact ⟨[], .inl rfl, hq⟩
        · exact ⟨c :: start, .inr ⟨start, rfl, hstart⟩, hq⟩
    rw [hcons, List.splitOn_cons_eq_if_modifyHead]
    obtain ⟨line, character⟩ := p
    obtain ⟨line', character'⟩ := q
    by_cases hc : c = '\n'
    · simp only [hc, beq_self_eq_true, if_true, Ahead, Position.advance, Position.mk.injEq,
        List.length_nil, Nat.add_zero]
      refine or_congr_left ?_
      omega
    · obtain ⟨first, more, hlines⟩ := List.exists_cons_of_ne_nil (List.splitOn_ne_nil '\n' rest)
      simp only [hc, hlines, beq_iff_eq, if_false, Ahead, Position.advance, Position.mk.injEq,
        List.modifyHead_cons, List.length_cons]
      rw [← or_assoc]
      refine or_congr_left ?_
      omega

theorem ahead_iff (lines : List (List Char)) (l : Nat) (q : Position) :
    Ahead ⟨l, 0⟩ q lines ↔
      l ≤ q.line ∧ ∃ line, lines[q.line - l]? = some line ∧ q.character ≤ line.length := by
  induction lines generalizing l with
  | nil => simp [Ahead]
  | cons line more ih =>
    rw [Ahead, ih]
    rcases Nat.lt_trichotomy q.line l with hlt | rfl | hgt
    · have hne : q.line ≠ l := Nat.ne_of_lt hlt
      have hnot : ¬ l + 1 ≤ q.line := by omega
      simp [hne, hnot, Nat.not_le.2 hlt]
    · have hnot : ¬ q.line + 1 ≤ q.line := by omega
      simp [hnot]
    · have hne : q.line ≠ l := Nat.ne_of_gt hgt
      have hindex : q.line - l = q.line - (l + 1) + 1 := by omega
      simp [hne, hindex, Nat.succ_le_of_lt hgt, Nat.le_of_lt hgt]

/-- The positions of a text: a character of a line, or the end of a line. -/
theorem exists_reach_iff (chars : List Char) (q : Position) :
    (∃ start, start <+: chars ∧ reach start = q) ↔
      ∃ line, (chars.splitOn '\n')[q.line]? = some line ∧ q.character ≤ line.length := by
  have h := ahead_iff (chars.splitOn '\n') 0 q
  rw [Nat.sub_zero] at h
  exact (exists_foldl_iff chars .zero q).trans (h.trans (and_iff_right (Nat.zero_le _)))

/-- The position `p`, moved back to the end of its line, or to the end of the text if the text has
no such line. -/
def clamp (lines : List (List Char)) (p : Position) : Position :=
  match lines[p.line]? with
  | some line => ⟨p.line, min p.character line.length⟩
  | none => ⟨lines.length - 1, (lines.getLast?.getD []).length⟩

/-- Of the positions that the lines have, it is the last one that is not past `p`. -/
theorem clamp_spec {lines : List (List Char)} (hlines : lines ≠ []) (p : Position) :
    (∃ line, lines[(clamp lines p).line]? = some line ∧ (clamp lines p).character ≤ line.length) ∧
      clamp lines p ≤ p ∧
      ∀ q line, lines[q.line]? = some line → q.character ≤ line.length → q ≤ p →
        q ≤ clamp lines p := by
  cases hline : lines[p.line]? with
  | some line =>
    have hclamp : clamp lines p = ⟨p.line, min p.character line.length⟩ := by
      simp only [clamp, hline]
    rw [hclamp]
    refine ⟨⟨line, hline, Nat.min_le_right ..⟩, Position.le_iff.2 (.inr ⟨rfl, Nat.min_le_left ..⟩),
      fun q other hother hfits hle => Position.le_iff.2 ?_⟩
    rcases Position.le_iff.1 hle with hlt | ⟨heq, hle⟩
    · exact .inl hlt
    · rw [heq, hline, Option.some.injEq] at hother
      subst hother
      exact .inr ⟨heq, Nat.le_min.2 ⟨hle, hfits⟩⟩
  | none =>
    have hpast := List.getElem?_eq_none_iff.1 hline
    have hlength := List.length_pos_iff.2 hlines
    obtain ⟨last, hlast⟩ : ∃ last, lines.getLast? = some last :=
      ⟨_, List.getLast?_eq_some_getLast hlines⟩
    have hclamp : clamp lines p = ⟨lines.length - 1, last.length⟩ := by
      simp only [clamp, hline, hlast, Option.getD_some]
    rw [List.getLast?_eq_getElem?] at hlast
    rw [hclamp]
    refine ⟨⟨last, hlast, Nat.le_refl _⟩, Position.le_iff.2 (.inl ?_),
      fun q other hother hfits _ => Position.le_iff.2 ?_⟩
    · dsimp only
      omega
    have hbound := (List.getElem?_eq_some_iff.1 hother).1
    by_cases hq : q.line = lines.length - 1
    · rw [hq, hlast, Option.some.injEq] at hother
      subst hother
      exact .inr ⟨hq, hfits⟩
    · left
      dsimp only
      omega

/-- The longest beginning that does not lead past `p` leads to `p` or to the end of its line. -/
theorem reach_eq_clamp (hstart : start <+: chars)
    (hlongest : ∀ other, other <+: chars → (reach other ≤ p ↔ other <+: start)) :
    reach start = clamp (chars.splitOn '\n') p := by
  obtain ⟨hposition, hle, hlast⟩ := clamp_spec (List.splitOn_ne_nil '\n' chars) p
  obtain ⟨line, hline, hfits⟩ := (exists_reach_iff chars (reach start)).1 ⟨start, hstart, rfl⟩
  obtain ⟨other, hother, hreach⟩ := (exists_reach_iff chars _).2 hposition
  refine Position.le_antisymm (hlast _ line hline hfits ?_) ?_
  · exact (hlongest start hstart).2 (List.prefix_refl start)
  · rw [← hreach] at hle ⊢
    exact reach_mono ((hlongest other hother).1 hle)

/-- Each character takes a reader on by a line or by a character of the line. -/
theorem reach_within_length (chars : List Char) :
    (reach chars).line + (reach chars).character ≤ chars.length := by
  have hfold : ∀ p : Position, (chars.foldl Position.advance p).line +
      (chars.foldl Position.advance p).character ≤ p.line + p.character + chars.length := by
    induction chars with
    | nil => simp
    | cons c rest ih =>
      intro p
      have hadvance : (p.advance c).line + (p.advance c).character ≤ p.line + p.character + 1 := by
        unfold Position.advance
        split <;> dsimp only <;> omega
      have := ih (p.advance c)
      rw [List.foldl_cons, List.length_cons]
      omega
  simpa [reach, Position.zero] using hfold .zero

-- ---------------------------------------------------------------------------
-- The two maps together
-- ---------------------------------------------------------------------------

/-- How the offsets and the positions of a text belong together. -/
structure Adjoint (chars : List Char) : Prop where
  start : IsBoundary chars 0
  stop : IsBoundary chars (byteLength chars)
  strict : ∀ o o', IsBoundary chars o → IsBoundary chars o' → o < o' →
    positionAt chars o < positionAt chars o'
  /-- an offset inside a character stands for the next boundary -/
  next : ∀ o, o ≤ byteLength chars → ∃ next, IsBoundary chars next ∧ o ≤ next ∧
    (∀ o', IsBoundary chars o' → o ≤ o' → next ≤ o') ∧ positionAt chars o = positionAt chars next
  past : ∀ o, byteLength chars ≤ o → positionAt chars o = positionAt chars (byteLength chars)
  boundary : ∀ p, IsBoundary chars (offsetAt chars p) ∧ offsetAt chars p ≤ byteLength chars
  galois : ∀ o p, IsBoundary chars o → (positionAt chars o ≤ p ↔ o ≤ offsetAt chars p)
  inverse : ∀ o, IsBoundary chars o → offsetAt chars (positionAt chars o) = o
  clamps : ∀ p, positionAt chars (offsetAt chars p) = clamp (chars.splitOn '\n') p
  /-- in a text of fewer than `coordinateLimit` characters no coordinate comes to that limit -/
  coordinates : ∀ o, (positionAt chars o).line + (positionAt chars o).character ≤ chars.length

theorem positionAt_le_iff_le_offsetAt (ho : IsBoundary chars o) (p : Position) :
    positionAt chars o ≤ p ↔ o ≤ offsetAt chars p := by
  obtain ⟨start, hstart, rfl⟩ := ho
  obtain ⟨longest, hlongest, hoffset, hspec⟩ := offsetAt_spec chars p
  rw [positionAt_byteLength hstart, hoffset, hspec start hstart,
    prefix_iff_byteLength_le hstart hlongest]

theorem positionAt_lt_of_lt (ho : IsBoundary chars o) (ho' : IsBoundary chars o') (h : o < o') :
    positionAt chars o < positionAt chars o' := by
  obtain ⟨start, hstart, rfl⟩ := ho
  obtain ⟨other, hother, rfl⟩ := ho'
  rw [positionAt_byteLength hstart, positionAt_byteLength hother, ← Position.not_le,
    ← prefix_iff_reach_le hother hstart, prefix_iff_byteLength_le hother hstart]
  exact Nat.not_le.2 h

theorem offsetAt_isBoundary (chars : List Char) (p : Position) :
    IsBoundary chars (offsetAt chars p) := by
  obtain ⟨start, hstart, hoffset, -⟩ := offsetAt_spec chars p
  exact ⟨start, hstart, hoffset.symm⟩

theorem IsBoundary.le (ho : IsBoundary chars o) : o ≤ byteLength chars := by
  obtain ⟨start, hstart, rfl⟩ := ho
  exact byteLength_mono hstart

theorem IsBoundary.offsetAt_positionAt (ho : IsBoundary chars o) :
    offsetAt chars (positionAt chars o) = o := by
  have hback := offsetAt_isBoundary chars (positionAt chars o)
  refine Nat.le_antisymm (Nat.not_lt.1 fun hlt => ?_)
    ((positionAt_le_iff_le_offsetAt ho _).1 (Position.le_refl _))
  -- a boundary further on has a later position, and so it is not the offset of this one
  have hle := (positionAt_le_iff_le_offsetAt hback (positionAt chars o)).2 (Nat.le_refl _)
  exact Position.not_lt.2 hle (positionAt_lt_of_lt ho hback hlt)

/-- Offsets and positions form a Galois connection over the boundaries of a text. -/
theorem positions_adjoin_offsets (chars : List Char) : Adjoint chars where
  start := ⟨[], List.nil_prefix, rfl⟩
  stop := ⟨chars, List.prefix_refl chars, rfl⟩
  strict _ _ ho ho' h := positionAt_lt_of_lt ho ho' h
  next o ho := by
    obtain ⟨start, hstart, hposition, hreaches, hleast⟩ := exists_next_boundary .zero chars o
    rw [Nat.min_eq_left ho] at hreaches
    refine ⟨byteLength start, ⟨start, hstart, rfl⟩, hreaches, ?_, ?_⟩
    · rintro _ ⟨other, hother, rfl⟩ hle
      exact byteLength_mono (hleast other hother hle)
    · rw [positionAt_byteLength hstart]
      exact hposition
  past o ho := by
    obtain ⟨start, hstart, hposition, hreaches, -⟩ := exists_next_boundary .zero chars o
    rw [Nat.min_eq_right ho] at hreaches
    have hwhole := (prefix_iff_byteLength_le (List.prefix_refl chars) hstart).2 hreaches
    obtain rfl := hstart.eq_of_length_le hwhole.length_le
    rw [positionAt_byteLength hstart]
    exact hposition
  boundary p := ⟨offsetAt_isBoundary chars p, (offsetAt_isBoundary chars p).le⟩
  galois _ p ho := positionAt_le_iff_le_offsetAt ho p
  inverse _ ho := ho.offsetAt_positionAt
  clamps p := by
    obtain ⟨start, hstart, hoffset, hlongest⟩ := offsetAt_spec chars p
    rw [hoffset, positionAt_byteLength hstart]
    exact reach_eq_clamp hstart hlongest
  coordinates o := by
    obtain ⟨start, hstart, hposition, -, -⟩ := exists_next_boundary .zero chars o
    rw [positionAt, hposition]
    exact Nat.le_trans (reach_within_length start) hstart.length_le

-- an offset inside a character, a position past its line and one past the text
example : ¬ IsBoundary "aé\n".toList 2 ∧ positionAt "aé\n".toList 2 = ⟨0, 2⟩ ∧
    offsetAt "aé\n".toList ⟨0, 9⟩ = 3 ∧ offsetAt "aé\n".toList ⟨7, 0⟩ = 4 := by decide

end VerifierClient.Text

import Mathlib.Data.List.TakeWhile
import VerifierClient.Wire.QueryId

/-!
# Which texts name a query

Ids go out as canonical decimal numerals, and only these name a query when they
come back.

* `Text.parseCanonical?_eq_some_iff` — the reader of numerals accepts exactly what
  the writer of numerals produces, below its limit;
* `QueryId.parse?_eq_some_iff`, `QueryId.owner?_eq_some_iff` — so a text names the
  query whose wire form it is, and its results belong to the query whose wire form
  stands before the first dot;
* `QueryId.only_canonical_ids_correlate` — which texts refer to a query at all.
-/

namespace VerifierClient.Text

-- ---------------------------------------------------------------------------
-- Numerals
-- ---------------------------------------------------------------------------

theorem digitsValue_decimal (n : Nat) : digitsValue (decimal n) = n := by
  have h : digitsValue (decimal n) = Nat.ofDigitChars 10 (decimal n) 0 := by
    rw [Nat.ofDigitChars_eq_foldl]
    rfl
  rw [h, decimal, Nat.ofDigitChars_ten_toDigits]

theorem decimal_ne_nil (n : Nat) : decimal n ≠ [] := Nat.toDigits_ne_nil

theorem isDigit_of_mem_decimal {n : Nat} {c : Char} (h : c ∈ decimal n) : c.isDigit = true :=
  Nat.isDigit_of_mem_toDigits (by decide) (by decide) h

theorem digitValue_lt {c : Char} (h : c.isDigit = true) : digitValue c < 10 := by
  simp only [Char.isDigit, Bool.and_eq_true, decide_eq_true_eq] at h
  have hle : c.toNat ≤ 57 := UInt32.le_iff_toNat_le.1 h.2
  show c.toNat - 48 < 10
  omega

theorem digitChar_digitValue {c : Char} (h : c.isDigit = true) :
    (digitValue c).digitChar = c := by
  have hlt := digitValue_lt h
  simp only [Char.isDigit, Bool.and_eq_true, decide_eq_true_eq] at h
  have hge : 48 ≤ c.toNat := UInt32.le_iff_toNat_le.1 h.1
  have hnat : (digitValue c).digitChar.toNat = c.toNat := by
    rw [Nat.toNat_digitChar_of_lt_ten hlt]
    show 48 + (c.toNat - 48) = c.toNat
    omega
  exact Char.toNat_inj.1 hnat

/-- A digit at the end of a numeral. -/
theorem decimal_append {n : Nat} {c : Char} (hn : 0 < n) (hc : c.isDigit = true) :
    decimal n ++ [c] = decimal (10 * n + digitValue c) := by
  have hvalue := digitValue_lt hc
  have happend := Nat.toDigits_append_toDigits (b := 10) (by decide) hn hvalue
  rw [Nat.toDigits_of_lt_base hvalue, digitChar_digitValue hc] at happend
  exact happend

/-- Reading digits behind a numeral. -/
theorem decimal_append_digits {n : Nat} (hn : 0 < n) {digits : List Char}
    (hdigits : ∀ c ∈ digits, c.isDigit = true) :
    decimal n ++ digits = decimal (digits.foldl (fun n c => 10 * n + digitValue c) n) := by
  induction digits generalizing n with
  | nil => simp
  | cons c digits ih =>
    have hpos : 0 < 10 * n + digitValue c := by omega
    have hrest := ih hpos fun c' hc' => hdigits c' (List.mem_cons_of_mem _ hc')
    rw [← decimal_append hn (hdigits c (List.mem_cons_self ..)), List.append_assoc] at hrest
    exact hrest

/-- Only zero is written with a zero in front. -/
theorem head_decimal_ne_zero {n : Nat} (hn : 0 < n) : (decimal n).head? ≠ some '0' := by
  induction n using Nat.strongRecOn with
  | ind n ih =>
    unfold decimal
    rw [Nat.toDigits_eq_if (by decide)]
    split
    next hlt =>
      rw [List.head?_cons, ne_eq, Option.some_inj, Nat.digitChar_eq_zero]
      omega
    next hge =>
      have hhead : (decimal (n / 10)).head? ≠ some '0' := ih (n / 10) (by omega) (by omega)
      obtain ⟨c, rest, hcons⟩ := List.exists_cons_of_ne_nil (decimal_ne_nil (n / 10))
      rw [decimal] at hcons
      rw [decimal, hcons] at hhead
      rw [hcons]
      exact hhead

theorem isCanonicalNumeral_decimal (n : Nat) : isCanonicalNumeral (decimal n) = true := by
  unfold isCanonicalNumeral
  simp only [Bool.and_eq_true, Bool.or_eq_true, beq_iff_eq, bne_iff_ne]
  refine ⟨⟨by simpa using decimal_ne_nil n, ?_⟩, ?_⟩
  · rw [List.all_eq_true]
    exact fun c hc => isDigit_of_mem_decimal hc
  · rcases Nat.eq_zero_or_pos n with rfl | hn
    · exact .inl (by decide)
    · exact .inr (head_decimal_ne_zero hn)

theorem eq_decimal_of_canonical {chars : List Char} (h : isCanonicalNumeral chars = true) :
    chars = decimal (digitsValue chars) := by
  unfold isCanonicalNumeral at h
  simp only [Bool.and_eq_true, Bool.or_eq_true, beq_iff_eq, bne_iff_ne, List.all_eq_true] at h
  obtain ⟨⟨hne, hdigits⟩, hzero⟩ := h
  cases chars with
  | nil => simp at hne
  | cons c rest =>
    have hc := hdigits c (List.mem_cons_self ..)
    rcases hzero with hzero | hzero
    · rw [hzero]
      decide
    · have hpos : 0 < digitValue c := by
        rcases Nat.eq_zero_or_pos (digitValue c) with h0 | hpos
        · have := digitChar_digitValue hc
          rw [h0] at this
          simp [← this] at hzero
        · exact hpos
      have hfirst : decimal (digitValue c) = [c] := by
        rw [decimal, Nat.toDigits_of_lt_base (digitValue_lt hc), digitChar_digitValue hc]
      have hrest := decimal_append_digits hpos fun c' hc' => hdigits c' (List.mem_cons_of_mem _ hc')
      rw [hfirst] at hrest
      simpa [digitsValue] using hrest

theorem parseCanonical?_eq_some_iff {limit n : Nat} {chars : List Char} :
    parseCanonical? limit chars = some n ↔ n < limit ∧ chars = decimal n := by
  unfold parseCanonical?
  constructor
  · intro h
    split at h
    next hif =>
      rw [Bool.and_eq_true, decide_eq_true_eq] at hif
      cases h
      exact ⟨hif.2, eq_decimal_of_canonical hif.1⟩
    next => cases h
  · rintro ⟨hn, rfl⟩
    simp [isCanonicalNumeral_decimal, digitsValue_decimal, hn]

end VerifierClient.Text

namespace VerifierClient.QueryId

-- ---------------------------------------------------------------------------
-- Ids
-- ---------------------------------------------------------------------------

/-- The part of an id before its first dot. -/
def stem (raw : String) : String := String.ofList (raw.toList.takeWhile (· != '.'))

theorem parse?_eq_some_iff {raw : String} {id : QueryId} :
    parse? raw = some id ↔ id.number < limit ∧ raw = id.text := by
  unfold parse?
  rw [Option.map_eq_some_iff]
  constructor
  · rintro ⟨n, hn, rfl⟩
    obtain ⟨hlt, hchars⟩ := Text.parseCanonical?_eq_some_iff.1 hn
    refine ⟨hlt, ?_⟩
    rw [text, Text.decimalText, ← hchars, String.ofList_toList]
  · rintro ⟨hlt, rfl⟩
    refine ⟨id.number, Text.parseCanonical?_eq_some_iff.2 ⟨hlt, ?_⟩, rfl⟩
    rw [text, Text.decimalText, String.toList_ofList]

theorem owner?_eq_parse? (raw : String) : owner? raw = parse? (stem raw) := by
  rw [owner?, parse?, stem, String.toList_ofList]

theorem owner?_eq_some_iff {raw : String} {id : QueryId} :
    owner? raw = some id ↔ id.number < limit ∧ stem raw = id.text := by
  rw [owner?_eq_parse?, parse?_eq_some_iff]

/-- The wire form of an id has no dot. -/
@[simp] theorem stem_text (id : QueryId) : stem id.text = id.text := by
  have hdigits : ∀ c ∈ Text.decimal id.number, (c != '.') = true := by
    intro c hc
    have := Text.isDigit_of_mem_decimal hc
    rw [bne_iff_ne]
    rintro rfl
    simp at this
  rw [stem, text, Text.decimalText, String.toList_ofList, List.takeWhile_eq_self_iff.2 hdigits]

-- ---------------------------------------------------------------------------
-- Which texts refer to a query
-- ---------------------------------------------------------------------------

/-- The part before the first dot is some text without dots exactly if the whole is this text or
goes on with a dot. -/
theorem stem_eq_iff {raw name : String} (hname : stem name = name) :
    stem raw = name ↔ raw = name ∨ ∃ tail, raw = name ++ "." ++ tail := by
  constructor
  · intro hstem
    have hchars : raw.toList.takeWhile (· != '.') = name.toList := by
      rw [← hstem, stem, String.toList_ofList]
    have hsplit : raw.toList = name.toList ++ raw.toList.dropWhile (· != '.') := by
      rw [← hchars, List.takeWhile_append_dropWhile]
    cases hrest : raw.toList.dropWhile (· != '.') with
    | nil =>
      rw [hrest, List.append_nil] at hsplit
      exact .inl (String.toList_inj.1 hsplit)
    | cons c tail =>
      have hdot : c = '.' := by
        have hhead := List.head?_dropWhile_not (· != '.') raw.toList
        rw [hrest] at hhead
        simpa using hhead
      rw [hrest, hdot] at hsplit
      exact .inr ⟨String.ofList tail, String.toList_inj.1 (by simp [hsplit])⟩
  · rintro (rfl | ⟨tail, rfl⟩)
    · exact hname
    · have hchars : name.toList.takeWhile (· != '.') = name.toList := by
        rw [← String.toList_ofList (l := name.toList.takeWhile _)]
        exact congrArg String.toList hname
      have hnodot := List.takeWhile_eq_self_iff.1 hchars
      rw [stem, String.toList_append, String.toList_append, List.append_assoc,
        List.takeWhile_append_of_pos hnodot]
      simp

/-- The text refers to the query: it is its id, or the id of a part of its results. -/
def RefersTo (raw : String) (id : QueryId) : Prop := parse? raw = some id ∨ owner? raw = some id

theorem refersTo_iff {raw : String} {id : QueryId} : RefersTo raw id ↔ owner? raw = some id := by
  constructor
  · rintro (h | h)
    · obtain ⟨hlimit, rfl⟩ := parse?_eq_some_iff.1 h
      exact owner?_eq_some_iff.2 ⟨hlimit, stem_text id⟩
    · exact h
  · exact .inr

/-- Digits that lead out of range name no query. -/
theorem parse?_of_limit_le {raw : String} (h : limit ≤ Text.digitsValue raw.toList) :
    parse? raw = none := by
  rw [Option.eq_none_iff_forall_ne_some]
  intro id hid
  obtain ⟨hlimit, rfl⟩ := parse?_eq_some_iff.1 hid
  rw [text, Text.decimalText, String.toList_ofList, Text.digitsValue_decimal] at h
  omega

theorem stem_of_digits {raw : String} (h : raw.toList.all Char.isDigit = true) :
    stem raw = raw := by
  have hnodot : ∀ c ∈ raw.toList, (c != '.') = true := by
    intro c hc
    rw [bne_iff_ne]
    rintro rfl
    exact absurd (List.all_eq_true.1 h '.' hc) (by decide)
  rw [stem, List.takeWhile_eq_self_iff.2 hnodot, String.ofList_toList]

/-- A text names a query if it is the query's number in decimal, and it belongs to the query's
results if it is this number or goes on from it with a dot. So a text refers to one query at most,
and the digits of a number that is too large refer to none. -/
theorem only_canonical_ids_correlate (raw : String) (id : QueryId) (hid : id.number < limit) :
    (parse? raw = some id ↔ raw = toString id.number) ∧
    (owner? raw = some id ↔
      raw = toString id.number ∨ ∃ tail, raw = toString id.number ++ "." ++ tail) ∧
    (∀ other, RefersTo raw id → RefersTo raw other → other = id) ∧
    (raw.toList.all Char.isDigit = true → limit ≤ Text.digitsValue raw.toList →
      ∀ other, ¬ RefersTo raw other ∧ ∀ tail, ¬ RefersTo (raw ++ "." ++ tail) other) := by
  have htext : id.text = toString id.number := rfl
  refine ⟨?_, ?_, fun other h h' => ?_, fun hdigits hlarge other => ?_⟩
  · rw [parse?_eq_some_iff, htext, and_iff_right hid]
  · rw [owner?_eq_some_iff, stem_eq_iff (stem_text id), htext, and_iff_right hid]
  · rw [refersTo_iff] at h h'
    exact Option.some.inj (h'.symm.trans h)
  · have hnone := parse?_of_limit_le hlarge
    have hstem := stem_of_digits hdigits
    have howner : ∀ text, stem text = raw → ¬ RefersTo text other := by
      intro text htext
      rw [refersTo_iff, owner?_eq_parse?, htext, hnone]
      exact nofun
    exact ⟨howner raw hstem, fun tail => howner _ ((stem_eq_iff hstem).2 (.inr ⟨tail, rfl⟩))⟩

/-- The largest id, and a number that is one too large. -/
theorem largestId_refers :
    owner? "18446744073709551615.07" = some ⟨18446744073709551615⟩ ∧
      ¬ RefersTo "18446744073709551616" ⟨0⟩ := by
  constructor
  · have h := only_canonical_ids_correlate "18446744073709551615.07" ⟨18446744073709551615⟩
      (by decide)
    exact h.2.1.2 (.inr ⟨"07", by decide +kernel⟩)
  · have h := only_canonical_ids_correlate "18446744073709551616" ⟨0⟩ (by decide)
    exact (h.2.2.2 (by decide +kernel) (by decide +kernel) ⟨0⟩).1

end VerifierClient.QueryId

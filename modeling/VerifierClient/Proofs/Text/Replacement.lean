import VerifierClient.Text.Utf8

/-!
# Decoding with replacement, declared

What bytes stand for is said here without an algorithm. Where a character is encoded, it is read.
Elsewhere the longest run of bytes that begins a character is given up for one replacement
character, or a single byte if there is no such run. This leaves no choice, and it is what
`decodeLossy` does.

* `CharBytes`, `charBytes_iff` — which bytes encode a character;
* `Decoding` — what bytes stand for;
* `Decoding.unique` — bytes stand for one text;
* `decoding_iff` — the text of `decodeLossy`.
-/

namespace VerifierClient.Text

-- ---------------------------------------------------------------------------
-- Characters as bytes
-- ---------------------------------------------------------------------------

theorem isContinuation_iff {b : Nat} : isContinuation b = true ↔ 0x80 ≤ b ∧ b ≤ 0xbf := by
  simp [isContinuation]

/-- The second byte continues the sequence, and keeps it from being too long, a surrogate or beyond
the last character. -/
theorem isSecond_iff {a b : Nat} : isSecond a b = true ↔ 0x80 ≤ b ∧ b ≤ 0xbf ∧
    (a = 0xe0 → 0xa0 ≤ b) ∧ (a = 0xed → b ≤ 0x9f) ∧ (a = 0xf0 → 0x90 ≤ b) ∧
      (a = 0xf4 → b ≤ 0x8f) := by
  unfold isSecond isContinuation
  split
  · simp; omega
  · split
    · simp; omega
    · split
      · simp; omega
      · split <;> simp <;> omega

/-- The bytes that encode a character. -/
inductive CharBytes : List UInt8 → Prop where
  | one {a : UInt8} (ha : a.toNat < 0x80) : CharBytes [a]
  | two {a b : UInt8} (ha : 0xc2 ≤ a.toNat ∧ a.toNat ≤ 0xdf)
    (hb : isContinuation b.toNat = true) : CharBytes [a, b]
  | three {a b c : UInt8} (ha : 0xe0 ≤ a.toNat ∧ a.toNat ≤ 0xef)
    (hb : isSecond a.toNat b.toNat = true) (hc : isContinuation c.toNat = true) :
    CharBytes [a, b, c]
  | four {a b c d : UInt8} (ha : 0xf0 ≤ a.toNat ∧ a.toNat ≤ 0xf4)
    (hb : isSecond a.toNat b.toNat = true) (hc : isContinuation c.toNat = true)
    (hd : isContinuation d.toNat = true) : CharBytes [a, b, c, d]

theorem toNat_byte {n : Nat} (h : n < 256) : (UInt8.ofNat n).toNat = n := by
  rw [UInt8.toNat_ofNat']
  exact Nat.mod_eq_of_lt h

theorem charBytes_encode (c : Char) : CharBytes (String.utf8EncodeChar c) := by
  have hvalid : c.val.toNat < 0xd800 ∨ 0xdfff < c.val.toNat ∧ c.val.toNat < 0x110000 := c.valid
  unfold String.utf8EncodeChar
  dsimp only
  generalize c.val.toNat = v at hvalid
  split
  next hone =>
    refine .one ?_
    rw [toNat_byte (by omega)]
    omega
  next hone =>
    split
    next htwo =>
      refine .two ?_ (isContinuation_iff.2 ?_)
      · rw [toNat_byte (by omega)]
        omega
      · rw [toNat_byte (by omega)]
        omega
    next htwo =>
      split
      next hthree =>
        refine .three ?_ (isSecond_iff.2 ?_) (isContinuation_iff.2 ?_)
        · rw [toNat_byte (by omega)]
          omega
        · rw [toNat_byte (by omega), toNat_byte (by omega)]
          omega
        · rw [toNat_byte (by omega)]
          omega
      next hthree =>
        refine .four ?_ (isSecond_iff.2 ?_) (isContinuation_iff.2 ?_) (isContinuation_iff.2 ?_)
        · rw [toNat_byte (by omega)]
          omega
        · rw [toNat_byte (by omega), toNat_byte (by omega)]
          omega
        · rw [toNat_byte (by omega)]
          omega
        · rw [toNat_byte (by omega)]
          omega

theorem val_ofNat {n : Nat} (h : n.isValidChar) : (Char.ofNat n).val.toNat = n := by
  rw [Char.ofNat, dif_pos h]
  rfl

theorem encode_one {a : UInt8} (ha : a.toNat < 0x80) :
    String.utf8EncodeChar (Char.ofNat a.toNat) = [a] := by
  unfold String.utf8EncodeChar
  rw [val_ofNat (.inl (by omega))]
  dsimp only
  rw [if_pos (by omega), UInt8.ofNat_toNat]

theorem encode_two {a b : UInt8} (ha : 0xc2 ≤ a.toNat ∧ a.toNat ≤ 0xdf)
    (hb : isContinuation b.toNat = true) :
    String.utf8EncodeChar (Char.ofNat ((a.toNat - 0xc0) * 0x40 + (b.toNat - 0x80))) = [a, b] := by
  rw [isContinuation_iff] at hb
  unfold String.utf8EncodeChar
  rw [val_ofNat (.inl (by omega))]
  dsimp only
  rw [if_neg (by omega), if_pos (by omega)]
  simp only [List.cons.injEq, and_true, ← UInt8.toNat_inj]
  rw [toNat_byte (by omega), toNat_byte (by omega)]
  omega

theorem encode_three {a b c : UInt8} (ha : 0xe0 ≤ a.toNat ∧ a.toNat ≤ 0xef)
    (hb : isSecond a.toNat b.toNat = true) (hc : isContinuation c.toNat = true) :
    String.utf8EncodeChar (Char.ofNat
      (((a.toNat - 0xe0) * 0x40 + (b.toNat - 0x80)) * 0x40 + (c.toNat - 0x80))) = [a, b, c] := by
  rw [isSecond_iff] at hb
  rw [isContinuation_iff] at hc
  unfold String.utf8EncodeChar
  rw [val_ofNat (by unfold Nat.isValidChar; omega)]
  dsimp only
  rw [if_neg (by omega), if_neg (by omega), if_pos (by omega)]
  simp only [List.cons.injEq, and_true, ← UInt8.toNat_inj]
  rw [toNat_byte (by omega), toNat_byte (by omega), toNat_byte (by omega)]
  omega

theorem encode_four {a b c d : UInt8} (ha : 0xf0 ≤ a.toNat ∧ a.toNat ≤ 0xf4)
    (hb : isSecond a.toNat b.toNat = true) (hc : isContinuation c.toNat = true)
    (hd : isContinuation d.toNat = true) :
    String.utf8EncodeChar (Char.ofNat
      ((((a.toNat - 0xf0) * 0x40 + (b.toNat - 0x80)) * 0x40 + (c.toNat - 0x80)) * 0x40 +
        (d.toNat - 0x80))) = [a, b, c, d] := by
  rw [isSecond_iff] at hb
  rw [isContinuation_iff] at hc hd
  unfold String.utf8EncodeChar
  rw [val_ofNat (by unfold Nat.isValidChar; omega)]
  dsimp only
  rw [if_neg (by omega), if_neg (by omega), if_neg (by omega)]
  simp only [List.cons.injEq, and_true, ← UInt8.toNat_inj]
  rw [toNat_byte (by omega), toNat_byte (by omega), toNat_byte (by omega), toNat_byte (by omega)]
  omega

theorem charBytes_iff {bytes : List UInt8} :
    CharBytes bytes ↔ ∃ c, String.utf8EncodeChar c = bytes := by
  constructor
  · rintro (ha | ⟨ha, hb⟩ | ⟨ha, hb, hc⟩ | ⟨ha, hb, hc, hd⟩)
    · exact ⟨_, encode_one ha⟩
    · exact ⟨_, encode_two ha hb⟩
    · exact ⟨_, encode_three ha hb hc⟩
    · exact ⟨_, encode_four ha hb hc hd⟩
  · rintro ⟨c, rfl⟩
    exact charBytes_encode c

section Inversion

variable {a b c d : UInt8} {rest : List UInt8}

theorem CharBytes.second (h : CharBytes (a :: b :: rest)) :
    (0xc2 ≤ a.toNat ∧ a.toNat ≤ 0xdf) ∧ isContinuation b.toNat = true ∨
      (0xe0 ≤ a.toNat ∧ a.toNat ≤ 0xf4) ∧ isSecond a.toNat b.toNat = true := by
  cases h with
  | two ha hb => exact .inl ⟨ha, hb⟩
  | three ha hb _ => exact .inr ⟨by omega, hb⟩
  | four ha hb _ _ => exact .inr ⟨by omega, hb⟩

theorem CharBytes.third (h : CharBytes (a :: b :: c :: rest)) : isContinuation c.toNat = true := by
  cases h with
  | three _ _ hc => exact hc
  | four _ _ hc _ => exact hc

theorem CharBytes.fourth (h : CharBytes (a :: b :: c :: d :: rest)) :
    isContinuation d.toNat = true := by
  cases h with
  | four _ _ _ hd => exact hd

/-- A byte below 0x80 stands alone. -/
theorem CharBytes.eq_singleton {bytes : List UInt8} (h : CharBytes bytes) (ha : a ∈ bytes)
    (hlow : a.toNat < 0x80) : bytes = [a] := by
  cases h with
  | one _ => rw [List.mem_singleton.1 ha]
  | two hfirst hb =>
    rw [isContinuation_iff] at hb
    simp only [List.mem_cons, List.not_mem_nil, or_false] at ha
    rcases ha with rfl | rfl <;> omega
  | three hfirst hb hc =>
    rw [isSecond_iff] at hb
    rw [isContinuation_iff] at hc
    simp only [List.mem_cons, List.not_mem_nil, or_false] at ha
    rcases ha with rfl | rfl | rfl <;> omega
  | four hfirst hb hc hd =>
    rw [isSecond_iff] at hb
    rw [isContinuation_iff] at hc hd
    simp only [List.mem_cons, List.not_mem_nil, or_false] at ha
    rcases ha with rfl | rfl | rfl | rfl <;> omega

/-- How many bytes a character has that starts with the byte `a`. -/
def lengthFor (a : Nat) : Nat :=
  if a < 0x80 then 1 else if a < 0xe0 then 2 else if a < 0xf0 then 3 else 4

theorem CharBytes.length_eq (h : CharBytes (a :: rest)) : rest.length + 1 = lengthFor a.toNat := by
  unfold lengthFor
  cases h with
  | one ha => rw [if_pos ha]; rfl
  | two ha _ => rw [if_neg (by omega), if_pos (by omega)]; rfl
  | three ha _ _ => rw [if_neg (by omega), if_neg (by omega), if_pos (by omega)]; rfl
  | four ha _ _ _ => rw [if_neg (by omega), if_neg (by omega), if_neg (by omega)]; rfl

end Inversion

-- ---------------------------------------------------------------------------
-- What bytes stand for
-- ---------------------------------------------------------------------------

/-- The bytes stand at the front of a character's encoding. -/
def BeginsChar (bytes : List UInt8) : Prop := ∃ c, bytes <+: String.utf8EncodeChar c

/-- No character is encoded at the front of `cut ++ rest`, and `cut` is the longest piece there that
begins one, or a single byte if there is no such piece. -/
structure Broken (cut rest : List UInt8) : Prop where
  begins : cut.length = 1 ∨ cut ≠ [] ∧ BeginsChar cut
  undecodable : ∀ c, ¬ String.utf8EncodeChar c <+: cut ++ rest
  longest : ∀ b ∈ rest.head?, ¬ BeginsChar (cut ++ [b])

/-- The bytes stand for the characters. -/
inductive Decoding : List UInt8 → List Char → Prop where
  | nil : Decoding [] []
  | char (c : Char) {rest : List UInt8} {chars : List Char} (h : Decoding rest chars) :
    Decoding (String.utf8EncodeChar c ++ rest) (c :: chars)
  | broken {cut rest : List UInt8} {chars : List Char} (hbroken : Broken cut rest)
    (h : Decoding rest chars) : Decoding (cut ++ rest) (replacementChar :: chars)

theorem beginsChar_iff {bytes : List UInt8} :
    BeginsChar bytes ↔ ∃ rest, CharBytes (bytes ++ rest) := by
  constructor
  · rintro ⟨c, rest, hc⟩
    exact ⟨rest, hc ▸ charBytes_encode c⟩
  · rintro ⟨rest, h⟩
    obtain ⟨c, hc⟩ := charBytes_iff.1 h
    exact ⟨c, rest, hc.symm⟩

/-- A piece that is too short for its first byte, and that no character goes on with. -/
theorem Broken.of_short {a : UInt8} {more rest : List UInt8}
    (hshort : more.length + 1 < lengthFor a.toNat) (hbegins : more = [] ∨ BeginsChar (a :: more))
    (hlongest : ∀ b ∈ rest.head?, ¬ BeginsChar (a :: more ++ [b])) : Broken (a :: more) rest where
  begins := by
    rcases hbegins with rfl | hbegins
    · exact .inl rfl
    · exact .inr ⟨List.cons_ne_nil a more, hbegins⟩
  undecodable := by
    intro c hc
    have hne : String.utf8EncodeChar c ≠ [] := String.utf8EncodeChar_ne_nil
    obtain ⟨first, tail, hfirst⟩ := List.exists_cons_of_ne_nil hne
    have hbytes := charBytes_encode c
    rw [hfirst] at hc hbytes
    obtain rfl : first = a := (List.cons_prefix_cons.1 hc).1
    have hlength := hbytes.length_eq
    -- the encoding is longer than the piece, so it goes on behind it
    rcases List.prefix_or_prefix_of_prefix hc (List.prefix_append _ rest) with hinside | hbeyond
    · have := hinside.length_le
      simp only [List.length_cons] at this
      omega
    · obtain ⟨beyond, hbeyond⟩ := hbeyond
      rw [← hbeyond, List.prefix_append_right_inj] at hc
      cases beyond with
      | nil =>
        have := congrArg List.length hbeyond
        simp only [List.append_nil, List.length_cons] at this
        omega
      | cons b beyond =>
        obtain ⟨_, rfl⟩ := hc
        refine hlongest b rfl ⟨c, beyond, ?_⟩
        rw [hfirst, ← hbeyond, List.append_assoc]
        rfl
  longest := hlongest

section Branches

variable {a b c : UInt8} {rest : List UInt8}

/-- No character starts with the first two bytes. -/
theorem broken_one (ha : 0x80 ≤ a.toNat)
    (hnext : ∀ b ∈ rest.head?, ∀ more, ¬ CharBytes (a :: b :: more)) : Broken [a] rest := by
  refine .of_short ?_ (.inl rfl) fun b hb hbegins => ?_
  · unfold lengthFor
    rw [if_neg (by omega)]
    split
    · decide
    · split <;> decide
  · obtain ⟨more, hbytes⟩ := beginsChar_iff.1 hbegins
    exact hnext b hb more hbytes

/-- The first two bytes begin a character, and none has the third one behind them. -/
theorem broken_two (ha : 0xe0 ≤ a.toNat ∧ a.toNat ≤ 0xf4)
    (hb : isSecond a.toNat b.toNat = true)
    (hnext : ∀ c ∈ rest.head?, isContinuation c.toNat = false) : Broken [a, b] rest := by
  refine .of_short ?_ (.inr (beginsChar_iff.2 ?_)) fun c hc hbegins => ?_
  · unfold lengthFor
    rw [if_neg (by omega), if_neg (by omega), List.length_singleton]
    split <;> decide
  · by_cases hthree : a.toNat ≤ 0xef
    · exact ⟨[0x80], .three ⟨ha.1, hthree⟩ hb rfl⟩
    · exact ⟨[0x80, 0x80], .four (by omega) hb rfl rfl⟩
  · obtain ⟨more, hbytes⟩ := beginsChar_iff.1 hbegins
    have hcontinues := hbytes.third
    rw [hnext c hc] at hcontinues
    cases hcontinues

/-- The first three bytes begin a character of four, and none has the fourth one behind them. -/
theorem broken_three (ha : 0xf0 ≤ a.toNat ∧ a.toNat ≤ 0xf4)
    (hb : isSecond a.toNat b.toNat = true) (hc : isContinuation c.toNat = true)
    (hnext : ∀ d ∈ rest.head?, isContinuation d.toNat = false) : Broken [a, b, c] rest := by
  refine .of_short ?_ (.inr (beginsChar_iff.2 ⟨[0x80], .four ha hb hc rfl⟩)) fun d hd hbegins => ?_
  · unfold lengthFor
    rw [if_neg (by omega), if_neg (by omega), if_neg (by omega)]
    exact Nat.lt_succ_self 3
  · obtain ⟨more, hbytes⟩ := beginsChar_iff.1 hbegins
    have hcontinues := hbytes.fourth
    rw [hnext d hd] at hcontinues
    cases hcontinues

end Branches

-- ---------------------------------------------------------------------------
-- The decoder
-- ---------------------------------------------------------------------------

/-- The byte at the front, or a zero if there is none. -/
def front (bytes : List UInt8) : Nat := (bytes.head?.map UInt8.toNat).getD 0

theorem front_of_mem_head? {bytes : List UInt8} {b : UInt8} (h : b ∈ bytes.head?) :
    front bytes = b.toNat := by
  rw [front, Option.mem_def.1 h]
  rfl

theorem exists_of_front_pos {bytes : List UInt8} (h : 0 < front bytes) :
    ∃ b rest, bytes = b :: rest := by
  cases bytes with
  | nil => exact absurd h (Nat.lt_irrefl 0)
  | cons b rest => exact ⟨b, rest, rfl⟩

theorem exists_continuation {bytes : List UInt8} (h : isContinuation (front bytes) = true) :
    ∃ b rest, bytes = b :: rest ∧ isContinuation b.toNat = true := by
  have hpos := isContinuation_iff.1 h
  obtain ⟨b, rest, rfl⟩ := exists_of_front_pos (show 0 < front bytes by omega)
  exact ⟨b, rest, rfl, h⟩

theorem exists_second {bytes : List UInt8} {a : Nat} (h : isSecond a (front bytes) = true) :
    ∃ b rest, bytes = b :: rest ∧ isSecond a b.toNat = true := by
  have hpos := isSecond_iff.1 h
  obtain ⟨b, rest, rfl⟩ := exists_of_front_pos (show 0 < front bytes by omega)
  exact ⟨b, rest, rfl, h⟩

theorem byteAt_eq (bytes : ByteArray) (i : Nat) :
    byteAt bytes i = front (bytes.data.toList.drop i) := by
  unfold byteAt
  split
  next h =>
    have hlength : i < bytes.data.toList.length := by simpa using h
    rw [List.drop_eq_getElem_cons hlength]
    rfl
  next h =>
    have hlength : bytes.data.toList.length ≤ i := by simpa using h
    rw [List.drop_eq_nil_of_le hlength]
    rfl

/-- What is found at the front of the bytes: a character or a broken piece, and how long it is less
one. -/
inductive Reading (bytes : List UInt8) : Char × Nat → Prop where
  | char {c : Char} {rest : List UInt8} {more : Nat}
    (hlength : (String.utf8EncodeChar c).length = more + 1)
    (hbytes : String.utf8EncodeChar c ++ rest = bytes) : Reading bytes (c, more)
  | broken {cut rest : List UInt8} {more : Nat} (hbroken : Broken cut rest)
    (hlength : cut.length = more + 1) (hbytes : cut ++ rest = bytes) :
    Reading bytes (replacementChar, more)

theorem Reading.of_encode {c : Char} {encoded rest : List UInt8}
    (h : String.utf8EncodeChar c = encoded) {more : Nat} (hlength : encoded.length = more + 1) :
    Reading (encoded ++ rest) (c, more) := by
  subst h
  exact .char hlength rfl

section Reading

variable {a : UInt8} {tail : List UInt8}

/-- The first byte starts no character. -/
theorem reading_of_not_first (ha : 0x80 ≤ a.toNat)
    (hfirst : a.toNat < 0xc2 ∨ 0xf4 < a.toNat) :
    Reading (a :: tail) (replacementChar, 0) := by
  refine .broken (broken_one ha fun b _ more hbytes => ?_) rfl rfl
  have := hbytes.second
  omega

/-- What starts with a byte for two. -/
theorem reading_two (ha : 0xc2 ≤ a.toNat ∧ a.toNat ≤ 0xdf) :
    Reading (a :: tail) (if isContinuation (front tail) then
      (Char.ofNat ((a.toNat - 0xc0) * 0x40 + (front tail - 0x80)), 1)
    else (replacementChar, 0)) := by
  split
  next hsecond =>
    obtain ⟨b, rest, rfl, hb⟩ := exists_continuation hsecond
    exact .of_encode (encode_two ha hb) rfl
  next hsecond =>
    refine .broken (broken_one (by omega) fun b hb more hbytes => ?_) rfl rfl
    rw [front_of_mem_head? hb] at hsecond
    rcases hbytes.second with ⟨_, hcontinues⟩ | ⟨hrange, _⟩
    · exact hsecond hcontinues
    · omega

/-- The second byte does not go on with a sequence of three or four. -/
theorem reading_of_not_second (ha : 0xe0 ≤ a.toNat ∧ a.toNat ≤ 0xf4)
    (hsecond : isSecond a.toNat (front tail) = false) :
    Reading (a :: tail) (replacementChar, 0) := by
  refine .broken (broken_one (by omega) fun b hb more hbytes => ?_) rfl rfl
  rw [front_of_mem_head? hb] at hsecond
  rcases hbytes.second with ⟨hrange, _⟩ | ⟨_, hgoes⟩
  · omega
  · rw [hsecond] at hgoes
    cases hgoes

theorem not_continuation_of_front (h : isContinuation (front tail) = false) :
    ∀ b ∈ tail.head?, isContinuation b.toNat = false := by
  intro b hb
  rw [← front_of_mem_head? hb]
  exact h

/-- What starts with a byte for three. -/
theorem reading_three (ha : 0xe0 ≤ a.toNat ∧ a.toNat ≤ 0xef) :
    Reading (a :: tail) (
      if !isSecond a.toNat (front tail) then (replacementChar, 0)
      else if !isContinuation (front (tail.drop 1)) then (replacementChar, 1)
      else (Char.ofNat (((a.toNat - 0xe0) * 0x40 + (front tail - 0x80)) * 0x40 +
        (front (tail.drop 1) - 0x80)), 2)) := by
  cases hsecond : isSecond a.toNat (front tail) with
  | false => exact reading_of_not_second (by omega) hsecond
  | true =>
    obtain ⟨b, rest, rfl, hb⟩ := exists_second hsecond
    cases hthird : isContinuation (front rest) with
    | false =>
      rw [List.drop_succ_cons, List.drop_zero, hthird]
      exact .broken (broken_two (by omega) hb (not_continuation_of_front hthird)) rfl rfl
    | true =>
      obtain ⟨c, rest, rfl, hc⟩ := exists_continuation hthird
      rw [List.drop_succ_cons, List.drop_zero, hthird]
      exact .of_encode (encode_three ha hb hc) rfl

/-- What starts with a byte for four. -/
theorem reading_four (ha : 0xf0 ≤ a.toNat ∧ a.toNat ≤ 0xf4) :
    Reading (a :: tail) (
      if !isSecond a.toNat (front tail) then (replacementChar, 0)
      else if !isContinuation (front (tail.drop 1)) then (replacementChar, 1)
      else if !isContinuation (front (tail.drop 2)) then (replacementChar, 2)
      else (Char.ofNat ((((a.toNat - 0xf0) * 0x40 + (front tail - 0x80)) * 0x40 +
        (front (tail.drop 1) - 0x80)) * 0x40 + (front (tail.drop 2) - 0x80)), 3)) := by
  cases hsecond : isSecond a.toNat (front tail) with
  | false => exact reading_of_not_second (by omega) hsecond
  | true =>
    obtain ⟨b, rest, rfl, hb⟩ := exists_second hsecond
    rw [List.drop_succ_cons, List.drop_succ_cons, List.drop_zero]
    cases hthird : isContinuation (front rest) with
    | false => exact .broken (broken_two (by omega) hb (not_continuation_of_front hthird)) rfl rfl
    | true =>
      obtain ⟨c, rest, rfl, hc⟩ := exists_continuation hthird
      rw [List.drop_succ_cons, List.drop_zero]
      cases hfourth : isContinuation (front rest) with
      | false => exact .broken (broken_three ha hb hc (not_continuation_of_front hfourth)) rfl rfl
      | true =>
        obtain ⟨d, rest, rfl, hd⟩ := exists_continuation hfourth
        exact .of_encode (encode_four ha hb hc hd) rfl

end Reading

theorem charAt_reading {bytes : ByteArray} {i : Nat} {a : UInt8} {tail : List UInt8}
    (h : bytes.data.toList.drop i = a :: tail) : Reading (a :: tail) (charAt bytes i) := by
  have hfirst : byteAt bytes i = a.toNat := by
    rw [byteAt_eq, h]
    rfl
  have hbehind : ∀ k, byteAt bytes (i + (k + 1)) = front (tail.drop k) := fun k => by
    rw [byteAt_eq, ← List.drop_drop, h, List.drop_succ_cons]
  unfold charAt
  rw [hfirst, hbehind 0, hbehind 1, hbehind 2, List.drop_zero]
  simp only [Bool.and_eq_true, decide_eq_true_eq]
  by_cases hone : a.toNat < 0x80
  · rw [if_pos hone]
    exact .of_encode (encode_one hone) rfl
  rw [if_neg hone]
  by_cases htwo : 0xc2 ≤ a.toNat ∧ a.toNat ≤ 0xdf
  · rw [if_pos htwo]
    exact reading_two htwo
  rw [if_neg htwo]
  by_cases hthree : 0xe0 ≤ a.toNat ∧ a.toNat ≤ 0xef
  · rw [if_pos hthree]
    exact reading_three hthree
  rw [if_neg hthree]
  by_cases hfour : 0xf0 ≤ a.toNat ∧ a.toNat ≤ 0xf4
  · rw [if_pos hfour]
    exact reading_four hfour
  rw [if_neg hfour]
  exact reading_of_not_first (by omega) (by omega)

/-- What is found at the front, before what the bytes behind it stand for. -/
theorem Reading.decoding {bytes : List UInt8} {c : Char} {more : Nat}
    (h : Reading bytes (c, more)) {chars : List Char}
    (hbehind : Decoding (bytes.drop (more + 1)) chars) : Decoding bytes (c :: chars) := by
  cases h with
  | char hlength hbytes =>
    rw [← hbytes, ← hlength, List.drop_left] at hbehind
    rw [← hbytes]
    exact .char c hbehind
  | broken hbroken hlength hbytes =>
    rw [← hbytes, ← hlength, List.drop_left] at hbehind
    rw [← hbytes]
    exact .broken hbroken hbehind

theorem decodeFrom_decoding (bytes : ByteArray) (i : Nat) (decoded : String) :
    ∃ chars, Decoding (bytes.data.toList.drop i) chars ∧
      (decodeFrom bytes i decoded).toList = decoded.toList ++ chars := by
  fun_induction decodeFrom bytes i decoded with
  | case1 i decoded hi c more hchar ih =>
    have hlength : i < bytes.data.toList.length := by simpa using hi
    have hreading := charAt_reading (List.drop_eq_getElem_cons hlength)
    rw [← List.drop_eq_getElem_cons hlength, hchar] at hreading
    obtain ⟨chars, hchars, htext⟩ := ih
    rw [Nat.add_assoc, ← List.drop_drop] at hchars
    refine ⟨c :: chars, hreading.decoding hchars, ?_⟩
    rw [htext, String.toList_push, List.append_assoc]
    rfl
  | case2 i decoded hi =>
    have hlength : bytes.data.toList.length ≤ i := by simpa using hi
    rw [List.drop_eq_nil_of_le hlength]
    exact ⟨[], .nil, (List.append_nil _).symm⟩

theorem utf8_toList (text : String) :
    text.toUTF8.data.toList = text.toList.flatMap String.utf8EncodeChar := by
  have hbytes : text.toUTF8 = (text.toList.flatMap String.utf8EncodeChar).toByteArray :=
    String.utf8Encode_toList.symm
  rw [hbytes]
  simp

theorem decoding_encoded (chars : List Char) :
    Decoding (chars.flatMap String.utf8EncodeChar) chars := by
  induction chars with
  | nil => exact .nil
  | cons c chars ih =>
    rw [List.flatMap_cons]
    exact .char c ih

theorem decodeLossy_decoding (bytes : ByteArray) :
    Decoding bytes.data.toList (decodeLossy bytes).toList := by
  unfold decodeLossy String.fromUTF8?
  by_cases hvalid : bytes.IsValidUTF8
  · rw [dif_pos hvalid]
    have hencoded := utf8_toList (String.fromUTF8 bytes hvalid)
    have hdecoding := decoding_encoded (String.fromUTF8 bytes hvalid).toList
    rw [← hencoded] at hdecoding
    exact hdecoding
  · rw [dif_neg hvalid]
    obtain ⟨chars, hchars, htext⟩ := decodeFrom_decoding bytes 0 ""
    rw [List.drop_zero] at hchars
    dsimp only
    rw [htext]
    exact hchars

-- ---------------------------------------------------------------------------
-- There is one text
-- ---------------------------------------------------------------------------

theorem encode_append_inj {c c' : Char} {rest rest' : List UInt8}
    (h : String.utf8EncodeChar c ++ rest = String.utf8EncodeChar c' ++ rest') :
    c = c' ∧ rest = rest' := by
  have hc : c = c' := by
    have hread := congrArg (fun bytes => bytes.toByteArray.utf8DecodeChar? 0) h
    simpa [ByteArray.utf8DecodeChar?_utf8EncodeChar_append] using hread
  subst hc
  exact ⟨rfl, List.append_cancel_left h⟩

theorem Broken.ne_nil {cut rest : List UInt8} (h : Broken cut rest) : cut ≠ [] := by
  rcases h.begins with hlength | ⟨hne, _⟩
  · rintro rfl
    cases hlength
  · exact hne

/-- A broken piece does not end inside another one. -/
theorem Broken.eq_of_inside {cut cut' rest rest' : List UInt8} (h : Broken cut rest)
    (h' : Broken cut' rest') (happend : cut ++ rest = cut' ++ rest') (hinside : cut <+: cut') :
    cut = cut' := by
  obtain ⟨more, rfl⟩ := hinside
  rw [List.append_assoc] at happend
  obtain rfl := List.append_cancel_left happend
  cases more with
  | nil => rw [List.append_nil]
  | cons b more =>
    have hpos := List.length_pos_iff.2 h.ne_nil
    rcases h'.begins with hlength | ⟨_, c, hc⟩
    · simp only [List.length_append, List.length_cons] at hlength
      omega
    · refine absurd ⟨c, ?_⟩ (h.longest b rfl)
      refine List.IsPrefix.trans ⟨more, ?_⟩ hc
      rw [List.append_assoc]
      rfl

theorem Broken.cut_eq {cut cut' rest rest' : List UInt8} (h : Broken cut rest)
    (h' : Broken cut' rest') (happend : cut ++ rest = cut' ++ rest') :
    cut = cut' ∧ rest = rest' := by
  have hcut : cut = cut' := by
    rcases List.prefix_or_prefix_of_prefix (List.prefix_append cut rest)
      (happend ▸ List.prefix_append cut' rest') with hinside | hinside
    · exact h.eq_of_inside h' happend hinside
    · exact (h'.eq_of_inside h happend.symm hinside).symm
  subst hcut
  exact ⟨rfl, List.append_cancel_left happend⟩

/-- Bytes stand for one text. -/
theorem Decoding.unique {bytes : List UInt8} {chars chars' : List Char} (h : Decoding bytes chars)
    (h' : Decoding bytes chars') : chars = chars' := by
  induction h generalizing chars' with
  | nil =>
    generalize hbytes : ([] : List UInt8) = bytes at h'
    cases h' with
    | nil => rfl
    | char c _ =>
      exact absurd (List.append_eq_nil_iff.1 hbytes.symm).1 String.utf8EncodeChar_ne_nil
    | broken hbroken _ => exact absurd (List.append_eq_nil_iff.1 hbytes.symm).1 hbroken.ne_nil
  | @char c rest _ h ih =>
    generalize hbytes : String.utf8EncodeChar c ++ rest = bytes at h'
    cases h' with
    | nil => exact absurd (List.append_eq_nil_iff.1 hbytes).1 String.utf8EncodeChar_ne_nil
    | char c' h' =>
      obtain ⟨rfl, rfl⟩ := encode_append_inj hbytes
      rw [ih h']
    | broken hbroken _ => exact absurd ⟨_, hbytes⟩ (hbroken.undecodable c)
  | @broken cut rest _ hbroken h ih =>
    generalize hbytes : cut ++ rest = bytes at h'
    cases h' with
    | nil => exact absurd (List.append_eq_nil_iff.1 hbytes).1 hbroken.ne_nil
    | char c _ => exact absurd ⟨_, hbytes.symm⟩ (hbroken.undecodable c)
    | broken hbroken' h' =>
      obtain ⟨rfl, rfl⟩ := hbroken.cut_eq hbroken' hbytes
      rw [ih h']

/-- The decoder gives the text for which the bytes stand. -/
theorem decoding_iff {bytes : List UInt8} {chars : List Char} :
    Decoding bytes chars ↔ (decodeLossy ⟨bytes.toArray⟩).toList = chars := by
  have hdecoded : Decoding bytes (decodeLossy ⟨bytes.toArray⟩).toList :=
    decodeLossy_decoding ⟨bytes.toArray⟩
  constructor
  · exact hdecoded.unique
  · rintro rfl
    exact hdecoded

end VerifierClient.Text

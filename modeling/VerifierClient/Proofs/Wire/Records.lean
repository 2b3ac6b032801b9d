import VerifierClient.Diagnostic
import VerifierClient.Proofs.Json.Readers
import VerifierClient.Wire.ProofState

/-!
# Proof states and diagnostics on the wire

What is written is read back: every field is found under the name that it was written under, a
place that is not given stays apart from one that is, and a position keeps its line and its column.
The one condition is that the numbers are of the size that the wire has for them, and whatever is
read from the wire is of this size.

* `ExternalRange.Fits`, `ProofState.Fits`, `Diagnostic.Fits` — numbers of the right size;
* `ProofState.carries`, `Diagnostic.carries` — the form on the wire carries the value;
* `ProofState.fits_of_ofJson?`, `Diagnostic.fits_of_ofJson?` — what is read fits;
* `records_read_back` — the written forms.
-/

namespace VerifierClient

open Json (Carries carries_str carries_coordinate carries_int64 carries_list carries_optional
  carries_record)

-- ---------------------------------------------------------------------------
-- Numbers of the right size
-- ---------------------------------------------------------------------------

def Position.Fits (p : Position) : Prop :=
  p.line < coordinateLimit ∧ p.character < coordinateLimit

def Range.Fits (r : Range) : Prop := r.start.Fits ∧ r.stop.Fits

def ExternalPosition.Fits (p : ExternalPosition) : Prop :=
  p.line < coordinateLimit ∧ p.column < coordinateLimit

def ExternalRange.Fits (r : ExternalRange) : Prop := r.beg.Fits ∧ r.stop.Fits

def ProofState.Fits (s : ProofState) : Prop := ∀ r ∈ s.location, r.Fits

structure Diagnostic.Fits (d : Diagnostic) : Prop where
  range : d.range.Fits
  code : ∀ n ∈ d.code, Json.intLow ≤ n ∧ n < -Json.intLow
  related : ∀ r ∈ d.related, r.range.Fits

-- ---------------------------------------------------------------------------
-- Places
-- ---------------------------------------------------------------------------

theorem ExternalPosition.carries {p : ExternalPosition} (h : p.Fits) (depth : Nat) :
    Carries (depth + 1) ofJson? p.toJson p := by
  have hline := carries_coordinate h.1 depth
  have hcolumn := carries_coordinate h.2 depth
  refine ⟨Json.writable_arr ?_, fun hj => ?_⟩
  · simp [hline.writable, hcolumn.writable]
  · obtain ⟨_, rfl, _ | ⟨hj₁, _ | ⟨hj₂, _ | _⟩⟩⟩ := hj.arr_left
    simp only [ofJson?, hline.reads hj₁, hcolumn.reads hj₂, Option.bind_eq_bind, Option.bind_some]

theorem ExternalRange.carries {r : ExternalRange} (h : r.Fits) (depth : Nat) :
    Carries (depth + 2) ofJson? r.toJson r := by
  have hfname := carries_str (depth + 1) r.fname
  have hbeg := ExternalPosition.carries h.1 depth
  have hstop := ExternalPosition.carries h.2 depth
  refine carries_record ["fname", "beg", "end"] rfl (by decide) ?_ fun hfields hvalues => ?_
  · simp [hfname.writable, hbeg.writable, hstop.writable]
  · obtain _ | ⟨hj₁, _ | ⟨hj₂, _ | ⟨hj₃, _ | _⟩⟩⟩ := hvalues
    simp only [ofJson?, hfields, List.map_cons, List.map_nil, Json.required, hfname.reads hj₁,
      hbeg.reads hj₂, hstop.reads hj₃, Option.bind_eq_bind, Option.bind_some]

theorem Position.carries {p : Position} (h : p.Fits) (depth : Nat) :
    Carries (depth + 1) ofJson? p.toJson p := by
  have hline := carries_coordinate h.1 depth
  have hcharacter := carries_coordinate h.2 depth
  refine carries_record ["line", "character"] rfl (by decide) ?_ fun hfields hvalues => ?_
  · simp [hline.writable, hcharacter.writable]
  · obtain _ | ⟨hj₁, _ | ⟨hj₂, _ | _⟩⟩ := hvalues
    simp only [ofJson?, hfields, List.map_cons, List.map_nil, Json.required, hline.reads hj₁,
      hcharacter.reads hj₂, Option.bind_eq_bind, Option.bind_some]

theorem Range.carries {r : Range} (h : r.Fits) (depth : Nat) :
    Carries (depth + 2) ofJson? r.toJson r := by
  have hstart := Position.carries h.1 depth
  have hstop := Position.carries h.2 depth
  refine carries_record ["start", "end"] rfl (by decide) ?_ fun hfields hvalues => ?_
  · simp [hstart.writable, hstop.writable]
  · obtain _ | ⟨hj₁, _ | ⟨hj₂, _ | _⟩⟩ := hvalues
    simp only [ofJson?, hfields, List.map_cons, List.map_nil, Json.required, hstart.reads hj₁,
      hstop.reads hj₂, Option.bind_eq_bind, Option.bind_some]

-- ---------------------------------------------------------------------------
-- Proof states
-- ---------------------------------------------------------------------------

theorem Hypothesis.carries (h : Hypothesis) (depth : Nat) :
    Carries (depth + 1) ofJson? h.toJson h := by
  have hname := carries_str depth h.name
  have htype := carries_str depth h.type
  refine carries_record ["name", "type"] rfl (by decide) ?_ fun hfields hvalues => ?_
  · simp [hname.writable, htype.writable]
  · obtain _ | ⟨hj₁, _ | ⟨hj₂, _ | _⟩⟩ := hvalues
    simp only [ofJson?, hfields, List.map_cons, List.map_nil, Json.orDefault, hname.reads hj₁,
      htype.reads hj₂, Option.bind_eq_bind, Option.bind_some]

theorem GoalTarget.carries (g : GoalTarget) (depth : Nat) :
    Carries (depth + 1) ofJson? g.toJson g := by
  have hwitness := carries_str depth g.witness
  have htype := carries_str depth g.type
  have hlabel := carries_str depth g.label
  refine carries_record ["witness", "type", "label"] rfl (by decide) ?_ fun hfields hvalues => ?_
  · simp [hwitness.writable, htype.writable, hlabel.writable]
  · obtain _ | ⟨hj₁, _ | ⟨hj₂, _ | ⟨hj₃, _ | _⟩⟩⟩ := hvalues
    simp only [ofJson?, hfields, List.map_cons, List.map_nil, Json.orDefault, hwitness.reads hj₁,
      htype.reads hj₂, hlabel.reads hj₃, Option.bind_eq_bind, Option.bind_some]

theorem Goal.carries (g : Goal) (depth : Nat) : Carries (depth + 3) ofJson? g.toJson g := by
  have hhyps := carries_list fun h (_ : h ∈ g.hyps) => h.carries depth
  have hgoal := g.goal.carries (depth + 1)
  refine carries_record ["hyps", "goal"] rfl (by decide) ?_ fun hfields hvalues => ?_
  · simp [hhyps.writable, hgoal.writable]
  · obtain _ | ⟨hj₁, _ | ⟨hj₂, _ | _⟩⟩ := hvalues
    simp only [ofJson?, hfields, List.map_cons, List.map_nil, Json.orDefault, hhyps.reads hj₁,
      hgoal.reads hj₂, Option.bind_eq_bind, Option.bind_some]

theorem ProofState.carries {s : ProofState} (h : s.Fits) (depth : Nat) :
    Carries (depth + 5) ofJson? s.toJson s := by
  have hlabel := carries_str (depth + 4) s.label
  have hgoals := carries_list fun g (_ : g ∈ s.goals) => g.carries depth
  have hsmtGoals := carries_list fun g (_ : g ∈ s.smtGoals) => g.carries depth
  have hlocation := carries_optional rfl fun r hr => ExternalRange.carries (h r hr) (depth + 2)
  have hform : s.toJson = .ofMembers
      [("label", .str s.label), ("location", s.location.elim .null ExternalRange.toJson),
       ("goals", .arr (s.goals.map Goal.toJson)),
       ("smt-goals", .arr (s.smtGoals.map Goal.toJson))] := by
    unfold toJson
    cases s.location <;> rfl
  rw [hform]
  refine carries_record ["label", "location", "goals", "smt-goals"] rfl (by decide) ?_
    fun hfields hvalues => ?_
  · simp [hlabel.writable, hlocation.writable, hgoals.writable, hsmtGoals.writable]
  · obtain _ | ⟨hj₁, _ | ⟨hj₂, _ | ⟨hj₃, _ | ⟨hj₄, _ | _⟩⟩⟩⟩ := hvalues
    simp only [ofJson?, hfields, List.map_cons, List.map_nil, Json.orDefault, hlabel.reads hj₁,
      hlocation.reads hj₂, hgoals.reads hj₃, hsmtGoals.reads hj₄, Option.bind_eq_bind,
      Option.bind_some]

-- ---------------------------------------------------------------------------
-- Diagnostics
-- ---------------------------------------------------------------------------

theorem RelatedLocation.carries {r : RelatedLocation} (h : r.range.Fits) (depth : Nat) :
    Carries (depth + 3) ofJson? r.toJson r := by
  have hfile := carries_str (depth + 2) r.file
  have hrange := Range.carries h depth
  refine carries_record ["file", "range"] rfl (by decide) ?_ fun hfields hvalues => ?_
  · simp [hfile.writable, hrange.writable]
  · obtain _ | ⟨hj₁, _ | ⟨hj₂, _ | _⟩⟩ := hvalues
    simp only [ofJson?, hfields, List.map_cons, List.map_nil, Json.required, hfile.reads hj₁,
      hrange.reads hj₂, Option.bind_eq_bind, Option.bind_some]

theorem Severity.ofName?_name (s : Severity) : ofName? s.name = some s := by
  cases s <;> rfl

theorem Severity.carries (s : Severity) (depth : Nat) :
    Carries depth (fun j => j.name?.bind ofName?) (.str s.name) s := by
  refine ⟨⟨rfl, rfl⟩, fun hj => ?_⟩
  cases hj
  exact s.ofName?_name

theorem Diagnostic.carries {d : Diagnostic} (h : d.Fits) (depth : Nat) :
    Carries (depth + 5) ofJson? d.toJson d := by
  have hseverity := d.severity.carries (depth + 4)
  have hmessage := carries_str (depth + 4) d.message
  have hrange := Range.carries h.range (depth + 2)
  have hcode := carries_optional rfl fun n hn => carries_int64 (h.code n hn) (depth + 4)
  have hsource := carries_str (depth + 4) d.source
  have hrelated := carries_list fun r hr => RelatedLocation.carries (h.related r hr) depth
  have hform : d.toJson = .ofMembers
      [("severity", .str d.severity.name), ("message", .str d.message), ("range", d.range.toJson),
       ("code", d.code.elim .null .int), ("source", .str d.source),
       ("related", .arr (d.related.map RelatedLocation.toJson))] := by
    unfold toJson
    cases d.code <;> rfl
  rw [hform]
  refine carries_record ["severity", "message", "range", "code", "source", "related"] rfl
    (by decide) ?_ fun hfields hvalues => ?_
  · simp [hseverity.writable, hmessage.writable, hrange.writable, hcode.writable,
      hsource.writable, hrelated.writable]
  · obtain _ | ⟨hj₁, _ | ⟨hj₂, _ | ⟨hj₃, _ | ⟨hj₄, _ | ⟨hj₅, _ | ⟨hj₆, _ | _⟩⟩⟩⟩⟩⟩ := hvalues
    simp only [ofJson?, hfields, List.map_cons, List.map_nil, Json.required, hseverity.reads hj₁,
      hmessage.reads hj₂, hrange.reads hj₃, hcode.reads hj₄, hsource.reads hj₅, hrelated.reads hj₆,
      Option.bind_eq_bind, Option.bind_some]

-- ---------------------------------------------------------------------------
-- What is read fits
-- ---------------------------------------------------------------------------

theorem ExternalPosition.fits_of_ofJson? {j : Json} {p : ExternalPosition}
    (h : ofJson? j = some p) : p.Fits := by
  unfold ofJson? at h
  split at h
  · simp only [Option.bind_eq_bind, Option.bind_eq_some_iff, Option.some.injEq] at h
    obtain ⟨line, hline, column, hcolumn, rfl⟩ := h
    exact ⟨Json.lt_of_asNat32? hline, Json.lt_of_asNat32? hcolumn⟩
  · cases h

theorem ExternalRange.fits_of_ofJson? {j : Json} {r : ExternalRange} (h : ofJson? j = some r) :
    r.Fits := by
  unfold ofJson? at h
  split at h
  · simp only [Option.bind_eq_bind, Option.bind_eq_some_iff, Option.some.injEq] at h
    obtain ⟨fname, -, beg, hbeg, stop, hstop, rfl⟩ := h
    obtain ⟨_, hbeg⟩ := Json.exists_of_required hbeg
    obtain ⟨_, hstop⟩ := Json.exists_of_required hstop
    exact ⟨ExternalPosition.fits_of_ofJson? hbeg, ExternalPosition.fits_of_ofJson? hstop⟩
  · cases h

theorem ProofState.fits_of_ofJson? {j : Json} {s : ProofState} (h : ofJson? j = some s) :
    s.Fits := by
  unfold ofJson? at h
  split at h
  · simp only [Option.bind_eq_bind, Option.bind_eq_some_iff, Option.some.injEq] at h
    obtain ⟨label, -, location, hlocation, goals, -, smtGoals, -, rfl⟩ := h
    intro r hr
    rw [Option.mem_def] at hr
    subst hr
    obtain ⟨_, hr⟩ := Json.exists_of_optional hlocation
    exact ExternalRange.fits_of_ofJson? hr
  · cases h

theorem Position.fits_of_ofJson? {j : Json} {p : Position} (h : ofJson? j = some p) : p.Fits := by
  unfold ofJson? at h
  split at h
  · simp only [Option.bind_eq_bind, Option.bind_eq_some_iff, Option.some.injEq] at h
    obtain ⟨line, hline, character, hcharacter, rfl⟩ := h
    obtain ⟨_, hline⟩ := Json.exists_of_required hline
    obtain ⟨_, hcharacter⟩ := Json.exists_of_required hcharacter
    exact ⟨Json.lt_of_asNat32? hline, Json.lt_of_asNat32? hcharacter⟩
  · cases h

theorem Range.fits_of_ofJson? {j : Json} {r : Range} (h : ofJson? j = some r) : r.Fits := by
  unfold ofJson? at h
  split at h
  · simp only [Option.bind_eq_bind, Option.bind_eq_some_iff, Option.some.injEq] at h
    obtain ⟨start, hstart, stop, hstop, rfl⟩ := h
    obtain ⟨_, hstart⟩ := Json.exists_of_required hstart
    obtain ⟨_, hstop⟩ := Json.exists_of_required hstop
    exact ⟨Position.fits_of_ofJson? hstart, Position.fits_of_ofJson? hstop⟩
  · cases h

theorem RelatedLocation.fits_of_ofJson? {j : Json} {r : RelatedLocation}
    (h : ofJson? j = some r) : r.range.Fits := by
  unfold ofJson? at h
  split at h
  · simp only [Option.bind_eq_bind, Option.bind_eq_some_iff, Option.some.injEq] at h
    obtain ⟨file, -, range, hrange, rfl⟩ := h
    obtain ⟨_, hrange⟩ := Json.exists_of_required hrange
    exact Range.fits_of_ofJson? hrange
  · cases h

theorem Diagnostic.fits_of_ofJson? {j : Json} {d : Diagnostic} (h : ofJson? j = some d) :
    d.Fits := by
  unfold ofJson? at h
  split at h
  · simp only [Option.bind_eq_bind, Option.bind_eq_some_iff, Option.some.injEq] at h
    obtain ⟨severity, -, message, -, range, hrange, code, hcode, source, -, related, hrelated,
      rfl⟩ := h
    obtain ⟨_, hrange⟩ := Json.exists_of_required hrange
    obtain ⟨_, hrelated⟩ := Json.exists_of_required hrelated
    refine ⟨Range.fits_of_ofJson? hrange, fun n hn => ?_, fun r hr => ?_⟩
    · rw [Option.mem_def] at hn
      subst hn
      obtain ⟨_, hcode⟩ := Json.exists_of_optional hcode
      exact Json.within_of_asInt64? hcode
    · obtain ⟨_, hr⟩ := Json.exists_of_asList? hrelated r hr
      exact RelatedLocation.fits_of_ofJson? hr
  · cases h

-- ---------------------------------------------------------------------------
-- Written and read
-- ---------------------------------------------------------------------------

/-- A proof state and a diagnostic are read back from their written form, with the members of its
objects in any order and whether or not these are put in order first, exactly if their numbers have
the size that the wire has for them. -/
theorem records_read_back :
    (∀ (s : ProofState) (j : Json), Json.Alike s.toJson j →
      ((Json.read? j.text).bind ProofState.ofJson? = some s ↔ s.Fits) ∧
        ((Json.parse? j.text).bind ProofState.ofJson? = some s ↔ s.Fits)) ∧
    ∀ (d : Diagnostic) (j : Json), Json.Alike d.toJson j →
      ((Json.read? j.text).bind Diagnostic.ofJson? = some d ↔ d.Fits) ∧
        ((Json.parse? j.text).bind Diagnostic.ofJson? = some d ↔ d.Fits) := by
  constructor
  · intro s j hj
    exact Json.read_text_iff (fun h => ProofState.carries h 122) ProofState.fits_of_ofJson? hj
  · intro d j hj
    exact Json.read_text_iff (fun h => Diagnostic.carries h 122) Diagnostic.fits_of_ofJson? hj

/-- A goal under hypotheses, a default one, and a place with the largest coordinates. -/
def nestedGoals : ProofState where
  label := "at \"intro\"\n"
  location := some ⟨"<input>", ⟨4294967295, 0⟩, ⟨1, 4294967295⟩⟩
  goals := [{ hyps := [⟨"x", "int"⟩, ⟨"", "x ≥ 0"⟩], goal := ⟨"_", "x + 1 > 0", ""⟩ }]
  smtGoals := [{}]

/-- The lowest error number there is, and another place. -/
def lowestCode : Diagnostic where
  severity := .information
  message := "\\ and\ttab"
  range := ⟨⟨4294967295, 0⟩, ⟨0, 4294967295⟩⟩
  code := some (-9223372036854775808)
  source := "verifier"
  related := [⟨"/lib/é.fst", .zero⟩]

/-- The two are read back, the state also with its members in the opposite order. -/
theorem nestedGoals_read_back : nestedGoals.Fits ∧ lowestCode.Fits ∧
    (∃ members, nestedGoals.toJson = .obj members ∧
      (Json.read? (Json.text (.obj members.reverse))).bind ProofState.ofJson? =
        some nestedGoals) ∧
    (Json.parse? lowestCode.toJson.text).bind Diagnostic.ofJson? = some lowestCode := by
  have hstate : nestedGoals.Fits := by
    intro r hr
    cases hr
    exact ⟨⟨by decide, by decide⟩, by decide, by decide⟩
  have hcode : lowestCode.Fits := by
    refine ⟨⟨⟨by decide, by decide⟩, by decide, by decide⟩, fun n hn => ?_, fun r hr => ?_⟩
    · cases hn
      decide
    · cases List.mem_singleton.1 hr
      exact ⟨⟨by decide, by decide⟩, by decide, by decide⟩
  refine ⟨hstate, hcode, ⟨_, rfl, ?_⟩, ?_⟩
  · exact (records_read_back.1 nestedGoals _ (.obj (.refl _) (List.reverse_perm _).symm)).1.2 hstate
  · exact (records_read_back.2 lowestCode _ (.refl _)).2.2 hcode

end VerifierClient

import Mathlib.Data.List.Nodup
import Mathlib.Data.List.Range
import VerifierClient.Proofs.Channel.Journal

/-!
# The ids that a run gives out

An operation uses up one id at most. A run gives out the ids from 1 on in turn, so
that none is given out twice before all of them have been.

* `Channel.allocations` — the ids that a run gives out;
* `Channel.allocations_in_turn`, `Channel.lastId_run` — which they are, and the last one;
* `Channel.allocations_nodup` — they are distinct.
-/

namespace VerifierClient.Channel

/-- The id given out in the step from `c` to `c'`, if there is one. -/
def allocated (c c' : Channel) : List QueryId :=
  if c'.lastId = c.lastId then [] else [⟨c'.lastId⟩]

/-- The ids that a run gives out. -/
def allocations : Channel → List Op → List QueryId := along fun c _ c' => allocated c c'

theorem allocations_append (c : Channel) (past rest : List Op) :
    allocations c (past ++ rest) = allocations c past ++ allocations (c.run past) rest :=
  along_append ..

theorem length_allocations_le (c : Channel) (ops : List Op) :
    (allocations c ops).length ≤ ops.length := by
  induction ops generalizing c with
  | nil => exact Nat.le_refl _
  | cons op rest ih =>
    have hstep : (allocated c (c.step op)).length ≤ 1 := by
      unfold allocated
      split
      · exact Nat.zero_le _
      · exact Nat.le_refl _
    have hrest := ih (c.step op)
    unfold allocations at hrest ⊢
    rw [along, List.length_append, List.length_cons]
    omega

-- ---------------------------------------------------------------------------
-- One step
-- ---------------------------------------------------------------------------

/-- The ids go round, and there is more than one of them. -/
theorem nextId_ne (c : Channel) : c.nextId.number ≠ c.lastId := by
  show (c.lastId + 1) % QueryId.limit ≠ c.lastId
  unfold QueryId.limit Text.wordLimit
  omega

/-- A move uses up the next id or none. -/
theorem Move.lastId {c c' : Channel} {op : Op} (h : Move c op c') :
    c'.lastId = c.lastId ∨ c'.lastId = c.nextId.number := by
  have hregister : ∀ (d : Channel) waited id, (d.register waited id).lastId = d.lastId := by
    intro d waited id
    cases waited <;> rfl
  cases h with
  | lose => exact .inr rfl
  | write => exact .inr (hregister _ _ _)
  | hold => exact .inr (hregister _ _ _)
  | launch => exact .inr rfl
  | cancel => exact .inr (hregister _ _ _)
  | relaunch => exact .inr rfl
  | abandon => exact .inr rfl
  | aside _ haside => cases haside <;> exact .inl rfl
  | ended _ hend => exact .inl hend.lastId
  | _ => exact .inl rfl

theorem allocated_of_unspent {c c' : Channel} (h : c'.lastId = c.lastId) : allocated c c' = [] :=
  if_pos h

theorem allocated_of_spent {c c' : Channel} (h : c'.lastId = c.nextId.number) :
    allocated c c' = [c.nextId] := by
  rw [allocated, if_neg (h ▸ nextId_ne c), h]

-- ---------------------------------------------------------------------------
-- All runs
-- ---------------------------------------------------------------------------

section Runs

variable {role : Role} {ops : List Op}

/-- The ids are given out in turn. -/
theorem allocations_in_turn (role : Role) (ops : List Op) :
    allocations { role } ops = (List.range' 1 (allocations { role } ops).length).map
      (fun n => ⟨n % QueryId.limit⟩) ∧
    (run { role } ops).lastId = (allocations { role } ops).length % QueryId.limit := by
  refine move_induction (P := fun ops c =>
    allocations { role } ops = (List.range' 1 (allocations { role } ops).length).map
      (fun n => ⟨n % QueryId.limit⟩) ∧
    c.lastId = (allocations { role } ops).length % QueryId.limit) ⟨rfl, rfl⟩ ?_ ops
  rintro past op c' ⟨hids, hlast⟩ hmove hstep
  have hconcat : allocations { role } (past ++ [op]) =
      allocations { role } past ++ allocated (run { role } past) c' := by
    rw [allocations, along_concat, ← hstep]
  rcases hmove.lastId with hkept | hspent
  · rw [hconcat, allocated_of_unspent hkept, List.append_nil, hkept]
    exact ⟨hids, hlast⟩
  · have hnext : (run { role } past).nextId =
        ⟨((allocations { role } past).length + 1) % QueryId.limit⟩ := by
      rw [nextId, hlast, Nat.mod_add_mod]
    rw [hconcat, allocated_of_spent hspent, hspent, hnext, List.length_append,
      List.length_singleton, List.range'_concat, List.map_append, ← hids]
    refine ⟨?_, rfl⟩
    rw [List.map_singleton, Nat.one_mul, Nat.add_comm 1]

theorem lastId_run (hfew : (allocations { role } ops).length < QueryId.limit) :
    (run { role } ops).lastId = (allocations { role } ops).length := by
  rw [(allocations_in_turn role ops).2, Nat.mod_eq_of_lt hfew]

/-- No id is given out twice. -/
theorem allocations_nodup (hfew : (allocations { role } ops).length < QueryId.limit) :
    (allocations { role } ops).Nodup := by
  rw [(allocations_in_turn role ops).1]
  refine List.Nodup.map_on ?_ List.nodup_range'
  intro n hn n' hn' heq
  rw [List.mem_range'_1] at hn hn'
  rw [QueryId.mk.injEq, Nat.mod_eq_of_lt (by omega), Nat.mod_eq_of_lt (by omega)] at heq
  exact heq

/-- As long as some ids are left, the next one is greater than all before it. -/
theorem nextId_of_few {op : Op} (hfew : (allocations { role } (ops ++ [op])).length < QueryId.limit)
    (hspent : (run { role } (ops ++ [op])).lastId ≠ (run { role } ops).lastId) :
    (run { role } ops).nextId.number = (run { role } ops).lastId + 1 := by
  have hone : (allocations { role } (ops ++ [op])).length =
      (allocations { role } ops).length + 1 := by
    rw [run_concat] at hspent
    rw [allocations, along_concat, allocated, if_neg hspent, List.length_append,
      List.length_singleton]
  have hlast : (run { role } ops).lastId = (allocations { role } ops).length :=
    lastId_run (by omega)
  show ((run { role } ops).lastId + 1) % QueryId.limit = _
  exact Nat.mod_eq_of_lt (by omega)

end Runs

end VerifierClient.Channel

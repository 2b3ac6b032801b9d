import VerifierClient.Json.Basic

/-!
# Values and the order of their members

Two values are alike if they differ in the order in which their objects list the members, and in
nothing else. Putting the members in ascending order makes a like value out of one that repeats no
key: nothing is lost, nothing is added and nothing changes its place in an array.

* `Json.hasDistinctKeys` — values that repeat no key;
* `Json.Alike` — values that differ in the order of members;
* `Json.canonical_alike` — the canonical value.
-/

namespace VerifierClient.Json

mutual
/-- Whether no object inside the value, and not the value itself, repeats a key. -/
def hasDistinctKeys : Json → Bool
  | .arr items => distinctItems items
  | .obj members => decide (members.map Prod.fst).Nodup && distinctMembers members
  | .null => true
  | .bool _ => true
  | .int _ => true
  | .double _ => true
  | .str _ => true
termination_by structural j => j

def distinctItems : List Json → Bool
  | [] => true
  | item :: rest => item.hasDistinctKeys && distinctItems rest
termination_by structural items => items

def distinctMembers : List (String × Json) → Bool
  | [] => true
  | (_, value) :: rest => value.hasDistinctKeys && distinctMembers rest
termination_by structural members => members
end

mutual
/-- The values differ at most in the order of the members of their objects. -/
inductive Alike : Json → Json → Prop where
  | refl (j : Json) : Alike j j
  | arr {items items' : List Json} (h : AlikeItems items items') : Alike (.arr items) (.arr items')
  | obj {members members' reordered : List (String × Json)} (h : AlikeMembers members members')
    (hperm : members'.Perm reordered) : Alike (.obj members) (.obj reordered)

inductive AlikeItems : List Json → List Json → Prop where
  | nil : AlikeItems [] []
  | cons {item item' : Json} {rest rest' : List Json} (h : Alike item item')
    (hrest : AlikeItems rest rest') : AlikeItems (item :: rest) (item' :: rest')

inductive AlikeMembers : List (String × Json) → List (String × Json) → Prop where
  | nil : AlikeMembers [] []
  | cons (key : String) {value value' : Json} {rest rest' : List (String × Json)}
    (h : Alike value value') (hrest : AlikeMembers rest rest') :
    AlikeMembers ((key, value) :: rest) ((key, value') :: rest')
end

/-- A member with a new key finds its place, and the others keep theirs. -/
theorem addMember_perm {key : String} (value : Json) {members : List (String × Json)}
    (hkey : key ∉ members.map Prod.fst) :
    (addMember key value members).Perm ((key, value) :: members) := by
  induction members with
  | nil => exact .refl _
  | cons member rest ih =>
    obtain ⟨k, v⟩ := member
    rw [List.map_cons, List.mem_cons, not_or] at hkey
    obtain ⟨hne, hrest⟩ := hkey
    by_cases hless : key < k
    · rw [addMember, if_pos hless]
    · rw [addMember, if_neg hless, if_neg hne]
      exact ((ih hrest).cons (k, v)).trans (.swap (key, value) (k, v) rest)

theorem canonicalMembers_perm {members : List (String × Json)}
    (hkeys : (members.map Prod.fst).Nodup) :
    (members.map fun member => (member.1, member.2.canonical)).Perm (canonicalMembers members) := by
  induction members with
  | nil => exact .refl _
  | cons member rest ih =>
    obtain ⟨key, value⟩ := member
    rw [List.map_cons, List.nodup_cons] at hkeys
    have hrest := ih hkeys.2
    have hkey : key ∉ (canonicalMembers rest).map Prod.fst := by
      rw [← (hrest.map Prod.fst).mem_iff, List.map_map]
      exact hkeys.1
    exact (hrest.cons (key, value.canonical)).trans (addMember_perm value.canonical hkey).symm

mutual
/-- A value that repeats no key is like its canonical one. -/
theorem canonical_alike : ∀ {j : Json}, j.hasDistinctKeys = true → Alike j j.canonical
  | .arr _, h => .arr (canonicalItems_alike h)
  | .obj _, h => by
    rw [hasDistinctKeys, Bool.and_eq_true, decide_eq_true_eq] at h
    exact .obj (mapped_alike h.2) (canonicalMembers_perm h.1)
  | .null, _ => .refl _
  | .bool _, _ => .refl _
  | .int _, _ => .refl _
  | .double _, _ => .refl _
  | .str _, _ => .refl _
termination_by structural j => j

theorem canonicalItems_alike : ∀ {items : List Json}, distinctItems items = true →
    AlikeItems items (canonicalItems items)
  | [], _ => .nil
  | _ :: _, h => by
    rw [distinctItems, Bool.and_eq_true] at h
    exact .cons (canonical_alike h.1) (canonicalItems_alike h.2)
termination_by structural items => items

theorem mapped_alike : ∀ {members : List (String × Json)}, distinctMembers members = true →
    AlikeMembers members (members.map fun member => (member.1, member.2.canonical))
  | [], _ => .nil
  | (key, _) :: _, h => by
    rw [distinctMembers, Bool.and_eq_true] at h
    exact .cons key (canonical_alike h.1) (mapped_alike h.2)
termination_by structural members => members
end

end VerifierClient.Json

import Mathlib.Data.List.Perm.Basic
import VerifierClient.Json.Record
import VerifierClient.Position
import VerifierClient.Proofs.Json.Canonical
import VerifierClient.Proofs.Json.RoundTrip

/-!
# Data and the documents that carry it

A record may list its members in any order, and so a document carries some data if the data is read
from it and from every document that is like it. Such documents are put together piece by piece:
texts and numbers, lists, records. What a document carries is also read from its written form.

* `Json.Alike.trans` — putting members in order twice;
* `Json.fields?_of_alike` — the fields of a record, whatever their order;
* `Json.Carries` — a document, the reader and what it reads;
* `Json.carries_list`, `Json.carries_record` — documents made of others;
* `Json.Carries.read_text` — the written form.
-/

namespace VerifierClient.Json

-- ---------------------------------------------------------------------------
-- Like documents
-- ---------------------------------------------------------------------------

theorem alikeMembers_iff {members members' : List (String × Json)} :
    AlikeMembers members members' ↔ List.Forall₂
      (fun member member' => member.1 = member'.1 ∧ Alike member.2 member'.2) members members' := by
  constructor
  · intro h
    induction members generalizing members' with
    | nil =>
      cases h
      exact .nil
    | cons member rest ih =>
      cases h with
      | cons key h hrest => exact .cons ⟨rfl, h⟩ (ih hrest)
  · intro h
    induction h with
    | nil => exact .nil
    | @cons member member' _ _ h _ ih =>
      obtain ⟨key, value⟩ := member
      obtain ⟨key', value'⟩ := member'
      obtain ⟨rfl, h⟩ := h
      exact .cons key h ih

theorem AlikeItems.refl : ∀ items : List Json, AlikeItems items items
  | [] => .nil
  | item :: rest => .cons (.refl item) (AlikeItems.refl rest)

theorem AlikeMembers.refl : ∀ members : List (String × Json), AlikeMembers members members
  | [] => .nil
  | (key, value) :: rest => .cons key (.refl value) (AlikeMembers.refl rest)

/-- Members may be put in another order before they are replaced by like ones, or after it. -/
theorem AlikeMembers.of_perm {members ordered ordered' : List (String × Json)}
    (hperm : members.Perm ordered) (h : AlikeMembers ordered ordered') :
    ∃ members', AlikeMembers members members' ∧ members'.Perm ordered' := by
  obtain ⟨members', hmembers, hperm'⟩ := List.perm_comp_forall₂ hperm (alikeMembers_iff.1 h)
  exact ⟨members', alikeMembers_iff.2 hmembers, hperm'⟩

mutual
theorem Alike.trans : ∀ {a b c : Json}, Alike a b → Alike b c → Alike a c
  | _, _, _, .refl _, h => h
  | _, _, _, .arr h, .refl _ => .arr h
  | _, _, _, .obj h hperm, .refl _ => .obj h hperm
  | _, _, _, .arr h, .arr h' => .arr (h.trans h')
  | _, _, _, .obj h hperm, .obj h' hperm' => by
    -- both replacements come first, so that the two orders can be joined
    obtain ⟨members, hmembers, hordered⟩ := h'.of_perm hperm
    exact .obj (h.trans hmembers) (hordered.trans hperm')

theorem AlikeItems.trans : ∀ {a b c : List Json}, AlikeItems a b → AlikeItems b c → AlikeItems a c
  | _, _, _, .nil, .nil => .nil
  | _, _, _, .cons h hrest, .cons h' hrest' => .cons (h.trans h') (hrest.trans hrest')

theorem AlikeMembers.trans : ∀ {a b c : List (String × Json)}, AlikeMembers a b →
    AlikeMembers b c → AlikeMembers a c
  | _, _, _, .nil, .nil => .nil
  | _, _, _, .cons key h hrest, .cons _ h' hrest' => .cons key (h.trans h') (hrest.trans hrest')
end

theorem Alike.arr_left {items : List Json} {j : Json} (h : Alike (.arr items) j) :
    ∃ items', j = .arr items' ∧ AlikeItems items items' := by
  cases h with
  | refl => exact ⟨items, rfl, .refl items⟩
  | arr h => exact ⟨_, rfl, h⟩

theorem Alike.obj_left {members : List (String × Json)} {j : Json} (h : Alike (.obj members) j) :
    ∃ members' ordered, j = .obj ordered ∧ AlikeMembers members members' ∧
      members'.Perm ordered := by
  cases h with
  | refl => exact ⟨members, members, rfl, .refl members, .refl members⟩
  | obj h hperm => exact ⟨_, _, rfl, h, hperm⟩

-- ---------------------------------------------------------------------------
-- What like documents share
-- ---------------------------------------------------------------------------

theorem readableMembers_eq_all (depth : Nat) (members : List (String × Json)) :
    readableMembers depth members = members.all fun member => member.2.readable depth := by
  induction members with
  | nil => rfl
  | cons member rest ih => rw [readableMembers, ih, List.all_cons]

theorem distinctMembers_eq_all (members : List (String × Json)) :
    distinctMembers members = members.all fun member => member.2.hasDistinctKeys := by
  induction members with
  | nil => rfl
  | cons member rest ih => rw [distinctMembers, ih, List.all_cons]

theorem AlikeMembers.keys {members members' : List (String × Json)}
    (h : AlikeMembers members members') : members'.map Prod.fst = members.map Prod.fst := by
  rw [alikeMembers_iff] at h
  induction h with
  | nil => rfl
  | cons hmember _ ih => rw [List.map_cons, List.map_cons, ih, hmember.1]

mutual
theorem Alike.readable_eq : ∀ {a b : Json}, Alike a b → ∀ depth, b.readable depth = a.readable depth
  | _, _, .refl _, _ => rfl
  | _, _, .arr _, 0 => rfl
  | _, _, .arr h, depth + 1 => h.readable_eq depth
  | _, _, .obj _ _, 0 => rfl
  | _, _, .obj h hperm, depth + 1 => by
    rw [readable, readable, ← h.readable_eq depth, readableMembers_eq_all, readableMembers_eq_all,
      hperm.all_eq]

theorem AlikeItems.readable_eq : ∀ {a b : List Json}, AlikeItems a b → ∀ depth,
    readableItems depth b = readableItems depth a
  | _, _, .nil, _ => rfl
  | _, _, .cons h hrest, depth => by
    rw [readableItems, readableItems, h.readable_eq, hrest.readable_eq]

theorem AlikeMembers.readable_eq : ∀ {a b : List (String × Json)}, AlikeMembers a b → ∀ depth,
    readableMembers depth b = readableMembers depth a
  | _, _, .nil, _ => rfl
  | _, _, .cons _ h hrest, depth => by
    rw [readableMembers, readableMembers, h.readable_eq, hrest.readable_eq]
end

mutual
theorem Alike.hasDistinctKeys_eq : ∀ {a b : Json}, Alike a b →
    b.hasDistinctKeys = a.hasDistinctKeys
  | _, _, .refl _ => rfl
  | _, _, .arr h => h.distinct_eq
  | _, _, .obj h hperm => by
    rw [hasDistinctKeys, hasDistinctKeys, ← h.distinct_eq, distinctMembers_eq_all,
      distinctMembers_eq_all, hperm.all_eq, ← h.keys]
    congr 1
    exact decide_eq_decide.2 (hperm.map Prod.fst).nodup_iff.symm

theorem AlikeItems.distinct_eq : ∀ {a b : List Json}, AlikeItems a b →
    distinctItems b = distinctItems a
  | _, _, .nil => rfl
  | _, _, .cons h hrest => by
    rw [distinctItems, distinctItems, h.hasDistinctKeys_eq, hrest.distinct_eq]

theorem AlikeMembers.distinct_eq : ∀ {a b : List (String × Json)}, AlikeMembers a b →
    distinctMembers b = distinctMembers a
  | _, _, .nil => rfl
  | _, _, .cons _ h hrest => by
    rw [distinctMembers, distinctMembers, h.hasDistinctKeys_eq, hrest.distinct_eq]
end

-- ---------------------------------------------------------------------------
-- Fields
-- ---------------------------------------------------------------------------

theorem mapM_eq_some_iff {α β : Type} {f : α → Option β} {xs : List α} {ys : List β} :
    xs.mapM f = some ys ↔ List.Forall₂ (fun x y => f x = some y) xs ys := by
  induction xs generalizing ys with
  | nil => simp [eq_comm]
  | cons x xs ih =>
    simp only [List.mapM_cons, Option.bind_eq_bind, Option.bind_eq_some_iff, Option.pure_def,
      Option.some.injEq, ih, List.forall₂_cons_left_iff]
    constructor
    · rintro ⟨y, hy, ys, hys, rfl⟩
      exact ⟨y, ys, hy, hys, rfl⟩
    · rintro ⟨y, ys, hy, hys, rfl⟩
      exact ⟨y, hy, ys, hys, rfl⟩

/-- A member with a key of its own is what the object gives for this key. -/
theorem member?_of_mem {members : List (String × Json)} (hkeys : (members.map Prod.fst).Nodup)
    {member : String × Json} (h : member ∈ members) :
    member? members member.1 = some (some member.2) := by
  have hvalues : valuesOf member.1 members = [member.2] := by
    induction members with
    | nil => cases h
    | cons first rest ih =>
      rw [List.map_cons, List.nodup_cons] at hkeys
      rw [valuesOf, List.filter_cons]
      rcases List.mem_cons.1 h with rfl | h
      · have hothers : rest.filter (fun other => other.1 == member.1) = [] := by
          rw [List.filter_eq_nil_iff]
          intro other hother hkey
          exact hkeys.1 (List.mem_map.2 ⟨other, hother, beq_iff_eq.1 hkey⟩)
        simp [hothers]
      · have hne : (first.1 == member.1) = false := by
          rw [beq_eq_false_iff_ne]
          intro hkey
          exact hkeys.1 (List.mem_map.2 ⟨member, h, hkey.symm⟩)
        simp only [hne, Bool.false_eq_true, if_false]
        exact ih hkeys.2 h
  rw [member?, hvalues]

/-- The fields of a record, from any document that is like its object. -/
theorem fields?_of_alike {members : List (String × Json)} (names : List String)
    (hnames : members.map Prod.fst = names) (hkeys : names.Nodup) {j : Json}
    (h : Alike (.obj members) j) :
    ∃ values, j.fields? names = some (values.map some) ∧
      AlikeItems (members.map Prod.snd) values := by
  obtain ⟨members', ordered, rfl, hmembers, hperm⟩ := h.obj_left
  refine ⟨members'.map Prod.snd, ?_, ?_⟩
  · have hordered : (ordered.map Prod.fst).Nodup := by
      rw [← (hperm.map Prod.fst).nodup_iff, hmembers.keys, hnames]
      exact hkeys
    rw [← hnames, ← hmembers.keys, fields?, mapM_eq_some_iff, List.map_map,
      List.forall₂_map_left_iff, List.forall₂_map_right_iff, List.forall₂_same]
    intro member hmember
    exact member?_of_mem hordered (hperm.mem_iff.1 hmember)
  · rw [alikeMembers_iff] at hmembers
    clear hperm hnames h
    induction hmembers with
    | nil => exact .nil
    | cons hmember _ ih => exact .cons hmember.2 ih

-- ---------------------------------------------------------------------------
-- Documents with their data
-- ---------------------------------------------------------------------------

/-- The document repeats no key, and its written form is read back by readers that allow containers
to be nested `depth` deep. -/
structure Writable (depth : Nat) (document : Json) : Prop where
  distinct : document.hasDistinctKeys = true
  readable : document.readable depth = true

/-- Reading the document with `read?`, or any document that is like it, gives `x`. -/
structure Carries {α : Type} (depth : Nat) (read? : Json → Option α) (document : Json) (x : α) :
    Prop where
  writable : Writable depth document
  reads : ∀ {j : Json}, Alike document j → read? j = some x

theorem Alike.writable {depth : Nat} {a b : Json} (h : Alike a b) (ha : Writable depth a) :
    Writable depth b :=
  ⟨h.hasDistinctKeys_eq.trans ha.distinct, (h.readable_eq depth).trans ha.readable⟩

theorem writable_arr {depth : Nat} {items : List Json} (h : ∀ item ∈ items, Writable depth item) :
    Writable (depth + 1) (.arr items) := by
  induction items with
  | nil => exact ⟨rfl, rfl⟩
  | cons item rest ih =>
    have hitem := h item List.mem_cons_self
    have hrest := ih fun other hother => h other (List.mem_cons_of_mem _ hother)
    exact ⟨Bool.and_eq_true_iff.2 ⟨hitem.distinct, hrest.distinct⟩,
      Bool.and_eq_true_iff.2 ⟨hitem.readable, hrest.readable⟩⟩

theorem writable_obj {depth : Nat} {members : List (String × Json)}
    (hkeys : (members.map Prod.fst).Nodup) (h : ∀ member ∈ members, Writable depth member.2) :
    Writable (depth + 1) (.obj members) := by
  refine ⟨?_, ?_⟩
  · rw [hasDistinctKeys, distinctMembers_eq_all, Bool.and_eq_true, decide_eq_true_eq,
      List.all_eq_true]
    exact ⟨hkeys, fun member hmember => (h member hmember).distinct⟩
  · rw [readable, readableMembers_eq_all, List.all_eq_true]
    exact fun member hmember => (h member hmember).readable

theorem carries_str (depth : Nat) (s : String) : Carries depth asStr? (.str s) s where
  writable := ⟨rfl, rfl⟩
  reads h := by
    cases h
    rfl

theorem carries_coordinate {n : Nat} (h : n < coordinateLimit) (depth : Nat) :
    Carries depth asNat32? (.nat n) n where
  writable := by
    refine ⟨rfl, ?_⟩
    unfold coordinateLimit at h
    rw [nat, readable, decide_eq_true_eq, intLow, intHigh]
    omega
  reads hj := by
    cases hj
    have hrange : (0 : Int) ≤ n ∧ (n : Int) < (4294967296 : Nat) := by
      unfold coordinateLimit at h
      omega
    rw [nat, asNat32?, asNat?, if_pos hrange, Int.toNat_natCast]

theorem carries_int64 {n : Int} (h : intLow ≤ n ∧ n < -intLow) (depth : Nat) :
    Carries depth asInt64? (.int n) n where
  writable := by
    refine ⟨rfl, ?_⟩
    rw [readable, decide_eq_true_eq]
    refine ⟨h.1, Int.lt_trans h.2 ?_⟩
    decide
  reads hj := by
    cases hj
    rw [asInt64?, if_pos h]

/-- A list, from what its items carry. -/
theorem carries_list {α : Type} {depth : Nat} {item? : Json → Option α} {form : α → Json}
    {xs : List α} (h : ∀ x ∈ xs, Carries depth item? (form x) x) :
    Carries (depth + 1) (asList? item?) (.arr (xs.map form)) xs := by
  refine ⟨writable_arr fun item hitem => ?_, fun hj => ?_⟩
  · obtain ⟨x, hx, rfl⟩ := List.mem_map.1 hitem
    exact (h x hx).writable
  · obtain ⟨items, rfl, hitems⟩ := hj.arr_left
    rw [asList?, mapM_eq_some_iff]
    clear hj
    induction xs generalizing items with
    | nil =>
      cases hitems
      exact .nil
    | cons x xs ih =>
      obtain _ | ⟨hitem, hrest⟩ := hitems
      exact .cons ((h x List.mem_cons_self).reads hitem)
        (ih (fun y hy => h y (List.mem_cons_of_mem _ hy)) _ hrest)

/-- A record, from what its fields carry. -/
theorem carries_record {α : Type} {depth : Nat} {read? : Json → Option α}
    {members : List (String × Json)} {x : α} (names : List String)
    (hnames : members.map Prod.fst = names) (hkeys : names.Nodup)
    (hvalues : ∀ member ∈ members, Writable depth member.2)
    (hreads : ∀ {j : Json} {values : List Json}, j.fields? names = some (values.map some) →
      AlikeItems (members.map Prod.snd) values → read? j = some x) :
    Carries (depth + 1) read? (ofMembers members) x := by
  have hwritable : Writable (depth + 1) (.obj members) := writable_obj (hnames ▸ hkeys) hvalues
  -- the object puts its members in order, and a document like it may order them once more
  have hordered : Alike (.obj members) (ofMembers members) := canonical_alike hwritable.distinct
  refine ⟨hordered.writable hwritable, fun hj => ?_⟩
  obtain ⟨values, hfields, halike⟩ := fields?_of_alike names hnames hkeys (hordered.trans hj)
  exact hreads hfields halike

/-- A field that may be null. Nothing is confused with what is there, since null is none of the
documents that are read. -/
theorem carries_optional {α : Type} {depth : Nat} {read? : Json → Option α} {form : α → Json}
    (hnull : read? .null = none) {x : Option α} (h : ∀ y ∈ x, Carries depth read? (form y) y) :
    Carries depth (fun j => optional read? (some j)) (x.elim .null form) x := by
  cases x with
  | none =>
    refine ⟨⟨rfl, rfl⟩, fun hj => ?_⟩
    cases hj
    rfl
  | some y =>
    obtain ⟨hwritable, hreads⟩ := h y rfl
    refine ⟨hwritable, fun {j} hj => ?_⟩
    have hread := hreads hj
    cases j with
    | null =>
      rw [hnull] at hread
      cases hread
    | bool | int | double | str | arr | obj => simp only [optional, hread, Option.map_some]

/-- The written form, with the members of every object in whatever order. -/
theorem Carries.read_text {α : Type} {read? : Json → Option α} {document : Json} {x : α}
    (h : Carries maxDepth read? document x) {j : Json} (hj : Alike document j) :
    (Json.read? j.text).bind read? = some x ∧ (parse? j.text).bind read? = some x := by
  have hwritable := hj.writable h.writable
  have htext := read?_text hwritable.readable
  rw [parse?, htext]
  exact ⟨h.reads hj, h.reads (hj.trans (canonical_alike hwritable.distinct))⟩

-- ---------------------------------------------------------------------------
-- What readers accept
-- ---------------------------------------------------------------------------

theorem lt_of_asNat32? {j : Json} {n : Nat} (h : asNat32? j = some n) : n < coordinateLimit := by
  rw [asNat32?] at h
  cases j with
  | int m =>
    rw [asNat?, Option.ite_none_right_eq_some] at h
    obtain ⟨hrange, hn⟩ := h
    cases hn
    unfold coordinateLimit
    omega
  | null | bool | double | str | arr | obj => cases h

theorem within_of_asInt64? {j : Json} {n : Int} (h : asInt64? j = some n) :
    intLow ≤ n ∧ n < -intLow := by
  cases j with
  | int m =>
    rw [asInt64?, Option.ite_none_right_eq_some] at h
    obtain ⟨hrange, hn⟩ := h
    cases hn
    exact hrange
  | null | bool | double | str | arr | obj => cases h

theorem exists_of_asList? {α : Type} {item? : Json → Option α} {j : Json} {xs : List α}
    (h : asList? item? j = some xs) : ∀ x ∈ xs, ∃ item, item? item = some x := by
  cases j with
  | arr items =>
    rw [asList?, mapM_eq_some_iff] at h
    induction h with
    | nil => exact nofun
    | @cons item x _ _ hitem _ ih => exact List.forall_mem_cons.2 ⟨⟨item, hitem⟩, ih⟩
  | null | bool | int | double | str | obj => cases h

theorem exists_of_required {α : Type} {read? : Json → Option α} {field : Option Json} {x : α}
    (h : required read? field = some x) : ∃ j, read? j = some x := by
  cases field with
  | none => cases h
  | some j => exact ⟨j, h⟩

theorem exists_of_orDefault {α : Type} {default : α} {read? : Json → Option α}
    {field : Option Json} {x : α} (h : orDefault default read? field = some x) :
    x = default ∨ ∃ j, read? j = some x := by
  cases field with
  | none => exact .inl (Option.some.inj h).symm
  | some j => exact .inr ⟨j, h⟩

theorem exists_of_optional {α : Type} {read? : Json → Option α} {field : Option Json} {x : α}
    (h : optional read? field = some (some x)) : ∃ j, read? j = some x := by
  cases field with
  | none => cases h
  | some j =>
    cases j with
    | null => cases h
    | bool | int | double | str | arr | obj =>
      simp only [optional, Option.map_eq_some_iff, Option.some.injEq, exists_eq_right] at h
      exact ⟨_, h⟩

/-- What is read back from the written form is what fits, if a document carries everything that fits
and the reader accepts nothing else. -/
theorem read_text_iff {α : Type} {read? : Json → Option α} {Fits : α → Prop} {document : Json}
    {x : α} (hcarries : Fits x → Carries maxDepth read? document x)
    (hfits : ∀ {j : Json}, read? j = some x → Fits x) {j : Json} (hj : Alike document j) :
    ((Json.read? j.text).bind read? = some x ↔ Fits x) ∧
      ((parse? j.text).bind read? = some x ↔ Fits x) := by
  have hread : ∀ {found : Option Json}, found.bind read? = some x → Fits x := by
    intro found h
    obtain ⟨_, -, h⟩ := Option.bind_eq_some_iff.1 h
    exact hfits h
  exact ⟨⟨hread, fun h => ((hcarries h).read_text hj).1⟩,
    ⟨hread, fun h => ((hcarries h).read_text hj).2⟩⟩

end VerifierClient.Json

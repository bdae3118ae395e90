import RecordQuery.Json.Tree
import RecordQuery.Proofs.KeyOrder

/-!
# Values with one member for a key

An object made of members in any order has them in key order, one for a key. So every value that a
tree stands for is ordered (`Tree.ordered_of_value?`), and with that well formed
(`Tree.wellFormed_of_value?`).
-/

namespace RecordQuery

open Json

namespace Json.Value

/-- Every object in the value has one member for a key. -/
inductive WellFormed : Value → Prop where
  | null : WellFormed null
  | boolean (b : Bool) : WellFormed (boolean b)
  | number (n : Number) : WellFormed (number n)
  | text (s : String) : WellFormed (text s)
  | list {items : List Value} : (∀ v ∈ items, WellFormed v) → WellFormed (list items)
  | object {members : List (String × Value)} : (Keyed.keys members).Nodup →
      (∀ member ∈ members, WellFormed member.2) → WellFormed (object members)

theorem WellFormed.items {items : List Value} (h : (Value.list items).WellFormed) :
    ∀ v ∈ items, v.WellFormed := by
  cases h with
  | list h => exact h

theorem WellFormed.members {members : List (String × Value)}
    (h : (Value.object members).WellFormed) :
    (Keyed.keys members).Nodup ∧ ∀ member ∈ members, member.2.WellFormed := by
  cases h with
  | object hkeys h => exact ⟨hkeys, h⟩

/-- Every object in the value has its members in key order, one for a key. -/
inductive Ordered : Value → Prop where
  | null : Ordered null
  | boolean (b : Bool) : Ordered (boolean b)
  | number (n : Number) : Ordered (number n)
  | text (s : String) : Ordered (text s)
  | list {items : List Value} : (∀ v ∈ items, Ordered v) → Ordered (list items)
  | object {members : List (String × Value)} : Keyed.Sorted members →
      (∀ member ∈ members, Ordered member.2) → Ordered (object members)

theorem Ordered.wellFormed {v : Value} (h : v.Ordered) : v.WellFormed := by
  induction h with
  | null => exact .null
  | boolean b => exact .boolean b
  | number n => exact .number n
  | text s => exact .text s
  | list _ ih => exact .list ih
  | object hsorted _ ih => exact .object hsorted.nodup_keys ih

theorem ordered_ofMembers (members : List (String × Value))
    (h : ∀ member ∈ members, member.2.Ordered) : (ofMembers members).Ordered :=
  .object (Keyed.sorted_ofList members) fun m hm => h m (Keyed.mem_of_mem_ofList hm)

end Json.Value

namespace Json.Tree

mutual

/-- The value that a tree stands for, such as a document read from a text, is ordered. -/
theorem ordered_of_value? : ∀ {tree : Tree} {v : Value}, tree.value? = some v → v.Ordered
  | .null, _, h => by
    cases h
    exact .null
  | .boolean b, _, h => by
    cases h
    exact .boolean b
  | .number n, _, h => by
    cases h
    exact .number n
  | .text s, _, h => by
    cases h
    exact .text s
  | .list items, _, h => by
    rw [value?] at h
    obtain ⟨values, hvalues, rfl⟩ := Option.map_eq_some_iff.1 h
    exact .list (ordered_of_itemValues? hvalues)
  | .object members, _, h => by
    rw [value?] at h
    obtain ⟨values, hvalues, rfl⟩ := Option.map_eq_some_iff.1 h
    exact Value.ordered_ofMembers _ (ordered_of_memberValues? hvalues)

theorem ordered_of_itemValues? : ∀ {items : List Tree} {values : List Value},
    itemValues? items = some values → ∀ v ∈ values, v.Ordered
  | [], _, h => by
    cases h
    exact fun _ hv => absurd hv List.not_mem_nil
  | item :: items, _, h => by
    simp only [itemValues?, Option.bind_eq_bind, Option.bind_eq_some_iff, Option.pure_def,
      Option.some.injEq] at h
    obtain ⟨v, hv, values, hvalues, rfl⟩ := h
    exact List.forall_mem_cons.2 ⟨ordered_of_value? hv, ordered_of_itemValues? hvalues⟩

theorem ordered_of_memberValues? : ∀ {members : List (Option String × Tree)}
    {values : List (String × Value)}, memberValues? members = some values →
      ∀ member ∈ values, member.2.Ordered
  | [], _, h => by
    cases h
    exact fun _ hm => absurd hm List.not_mem_nil
  | (key, member) :: members, _, h => by
    simp only [memberValues?, Option.bind_eq_bind, Option.bind_eq_some_iff, Option.pure_def,
      Option.some.injEq] at h
    obtain ⟨k, -, v, hv, values, hvalues, rfl⟩ := h
    exact List.forall_mem_cons.2 ⟨ordered_of_value? hv, ordered_of_memberValues? hvalues⟩

end

theorem wellFormed_of_value? {tree : Tree} {v : Value} (h : tree.value? = some v) : v.WellFormed :=
  (ordered_of_value? h).wellFormed

end Json.Tree

end RecordQuery

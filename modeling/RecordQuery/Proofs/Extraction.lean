import RecordQuery.FieldPath

/-!
# Paths in a row

A path written after another one, with a dot between, has the segments of both (`segments_join`).
Extracting along it is extracting along the second path from each value found at the end of the
first: a list met on the way is taken apart once, before or after the step that follows
(`flatMap_under_leaves`), so stopping at its items and going on changes nothing (`extract_join`).
-/

namespace RecordQuery

open Json

theorem splitDots_ne_nil : ∀ cs : List Char, splitDots cs ≠ []
  | [] => by simp [splitDots]
  | c :: cs => by
    rw [splitDots]
    split
    · simp
    · split <;> simp

theorem splitDots_append (ds : List Char) :
    ∀ cs : List Char, splitDots (cs ++ '.' :: ds) = splitDots cs ++ splitDots ds
  | [] => by
    obtain ⟨segment, segments, h⟩ := List.exists_cons_of_ne_nil (splitDots_ne_nil ds)
    simp [splitDots, h]
  | c :: cs => by
    obtain ⟨segment, segments, h⟩ := List.exists_cons_of_ne_nil (splitDots_ne_nil cs)
    have ih := splitDots_append ds cs
    rw [h] at ih
    rw [List.cons_append, splitDots, splitDots, ih, h]
    by_cases hc : c = '.' <;> simp [hc]

namespace FieldPath

theorem segments_join (p q : String) :
    segments ⟨p ++ "." ++ q⟩ = segments ⟨p⟩ ++ segments ⟨q⟩ := by
  have h : (p ++ "." ++ q).toList = p.toList ++ '.' :: q.toList := by simp
  rw [segments, h, splitDots_append, List.filter_append, List.map_append]
  rfl

theorem itemLeaves_eq_flatMap (items : List Value) : itemLeaves items = items.flatMap leaves := by
  induction items with
  | nil => rfl
  | cons item items ih => rw [itemLeaves, ih, List.flatMap_cons]

theorem itemsUnder_eq_flatMap (segment : String) (items : List Value) :
    itemsUnder segment items = items.flatMap (under segment) := by
  induction items with
  | nil => rfl
  | cons item items ih => rw [itemsUnder, ih, List.flatMap_cons]

mutual

/-- The values of a value without segments left have no list to take apart. -/
theorem flatMap_leaves : ∀ v : Value, (leaves v).flatMap leaves = leaves v
  | .null => rfl
  | .boolean _ | .number _ | .text _ | .object _ => rfl
  | .list items => flatMap_itemLeaves items

theorem flatMap_itemLeaves : ∀ items : List Value,
    (itemLeaves items).flatMap leaves = itemLeaves items
  | [] => rfl
  | item :: items => by
    rw [itemLeaves, List.flatMap_append, flatMap_leaves item, flatMap_itemLeaves items]

end

mutual

theorem flatMap_under_leaves (segment : String) : ∀ v : Value,
    (leaves v).flatMap (under segment) = under segment v
  | .null => rfl
  | .boolean _ | .number _ | .text _ | .object _ => by simp [leaves]
  | .list items => flatMap_under_itemLeaves segment items

theorem flatMap_under_itemLeaves (segment : String) : ∀ items : List Value,
    (itemLeaves items).flatMap (under segment) = itemsUnder segment items
  | [] => rfl
  | item :: items => by
    rw [itemLeaves, List.flatMap_append, flatMap_under_leaves segment item,
      flatMap_under_itemLeaves segment items, itemsUnder]

end

theorem flatMap_extractFrom_leaves (path : List String) (v : Value) :
    (leaves v).flatMap (extractFrom path) = extractFrom path v := by
  cases path with
  | nil => exact flatMap_leaves v
  | cons segment path =>
    simp only [extractFrom]
    rw [← List.flatMap_assoc, flatMap_under_leaves]

theorem extractFrom_append (rest : List String) : ∀ (path : List String) (v : Value),
    extractFrom (path ++ rest) v = (extractFrom path v).flatMap (extractFrom rest)
  | [], v => (flatMap_extractFrom_leaves rest v).symm
  | segment :: path, v => by
    simp only [List.cons_append, extractFrom]
    rw [List.flatMap_assoc]
    congr 1
    funext w
    exact extractFrom_append rest path w

theorem extract_join (p q : String) (doc : Value) :
    extract ⟨p ++ "." ++ q⟩ doc = (extract ⟨p⟩ doc).flatMap (extract ⟨q⟩) := by
  rw [extract, segments_join, extractFrom_append]
  rfl

end FieldPath

end RecordQuery

import RecordQuery.Proofs.ExactValues

/-!
# Sorting refines comparing

Two Booleans, two numbers, two dates and two texts that are no dates can be compared, and what is
not level is sorted the way it is compared (`Value.sortCompare_refines`). Only what is level may be
sorted apart: dates of one instant by their texts, an integer and a double that it is rounded to by
their exact values, and the two zeros by their signs.
-/

namespace RecordQuery

open Json

namespace Json

theorem Number.sortCompare_of_compare_ne {m n : Number} (h : m.compare n ≠ .eq) :
    m.sortCompare n = m.compare n := by
  rcases compare_value_or_eq m n with hexact | heq
  · have hne : m.value ≠ n.value := fun hvalue =>
      h (hexact.trans (compare_eq_iff_eq.2 hvalue))
    rw [hexact]
    exact sortCompare_of_not_apart (fun hmn => hne hmn.value_eq) fun hnm => hne hnm.value_eq.symm
  · exact absurd heq h

namespace Value

/-- Two Booleans, two numbers, two dates or two texts that are no dates. -/
inductive OfOneKind : Value → Value → Prop where
  | booleans (b c : Bool) : OfOneKind (boolean b) (boolean c)
  | numbers (m n : Number) : OfOneKind (number m) (number n)
  | dates {s t : String} {x y : Instant} : Instant.ofText? s = some x →
      Instant.ofText? t = some y → OfOneKind (text s) (text t)
  | others {s t : String} : Instant.ofText? s = none → Instant.ofText? t = none →
      OfOneKind (text s) (text t)

section Texts

variable {s t : String}

theorem sortKey_date {x : Instant} (h : Instant.ofText? s = some x) :
    (text s).sortKey = .date x s := by
  rw [sortKey, h]

theorem sortKey_other (h : Instant.ofText? s = none) : (text s).sortKey = .text s := by
  rw [sortKey, h]

theorem compare?_dates {x y : Instant} (hs : Instant.ofText? s = some x)
    (ht : Instant.ofText? t = some y) : (text s).compare? (text t) = some (x.compare y) := by
  rw [compare?, compareInstants?, instant?, instant?, hs, ht]
  rfl

theorem compare?_others (hs : Instant.ofText? s = none) :
    (text s).compare? (text t) = some (Ord.compare s t) := by
  rw [compare?, compareInstants?, instant?, hs]
  rfl

end Texts

/-- Values of one kind can be compared. If one is less or greater, it is sorted so, and values that
are sorted as level are compared as level. -/
theorem sortCompare_refines {a b : Value} (h : OfOneKind a b) :
    ∃ o, a.compare? b = some o ∧ (o ≠ .eq → a.sortCompare b = o) ∧
      (a.sortCompare b = .eq → o = .eq) := by
  suffices hrefines : ∃ o, a.compare? b = some o ∧ (o ≠ .eq → a.sortCompare b = o) by
    obtain ⟨o, ho, hsort⟩ := hrefines
    refine ⟨o, ho, hsort, fun hlevel => ?_⟩
    by_contra hne
    exact hne ((hsort hne).symm.trans hlevel)
  cases h with
  | booleans b c => exact ⟨_, rfl, fun _ => rfl⟩
  | numbers m n => exact ⟨_, rfl, Number.sortCompare_of_compare_ne⟩
  | dates hs ht =>
    refine ⟨_, compare?_dates hs ht, fun hne => ?_⟩
    rw [sortCompare, sortKey_date hs, sortKey_date ht, SortKey.compare]
    -- the texts only decide where the instants do not
    rcases ho : Instant.compare _ _ with _ | _ | _
    · rfl
    · exact absurd ho hne
    · rfl
  | others hs ht =>
    refine ⟨_, compare?_others hs, fun _ => ?_⟩
    rw [sortCompare, sortKey_other hs, sortKey_other ht, SortKey.compare]

/-- The first date is earlier, though its letters come later, so it is sorted before the second one.
The third one is level with the second, and the integer `2 ^ 53 + 1` with the double of `2 ^ 53`,
but they are sorted apart. -/
theorem sortCompare_refines_dates_and_numbers :
    let early : Value := text "2024-01-02T00:00:00+05:00"
    let late : Value := text "2024-01-01T23:00:00Z"
    let same : Value := text "2024-01-02T00:00:00+01:00"
    let odd : Value := int 9007199254740993
    let even : Value := number (.real (Double.ofInt 9007199254740992))
    (OfOneKind early late ∧ early.compare? late = some .lt ∧ early.sortCompare late = .lt) ∧
      (OfOneKind late same ∧ late.compare? same = some .eq ∧ late.sortCompare same = .lt) ∧
      OfOneKind odd even ∧ odd.compare? even = some .eq ∧ odd.sortCompare even = .gt := by
  intro early late same odd even
  have hearly : Instant.ofText? "2024-01-02T00:00:00+05:00" = some ⟨1704135600, 0, by decide⟩ := by
    decide +kernel
  have hlate : Instant.ofText? "2024-01-01T23:00:00Z" = some ⟨1704150000, 0, by decide⟩ := by
    decide +kernel
  have hsame : Instant.ofText? "2024-01-02T00:00:00+01:00" = some ⟨1704150000, 0, by decide⟩ := by
    decide +kernel
  have hkind : OfOneKind early late := .dates hearly hlate
  obtain ⟨o, ho, hsort, -⟩ := sortCompare_refines hkind
  have hless : early.compare? late = some .lt := by decide +kernel
  obtain rfl : o = .lt := Option.some_inj.1 (ho.symm.trans hless)
  exact ⟨⟨hkind, hless, hsort (by decide)⟩,
    ⟨.dates hlate hsame, by decide +kernel, by decide +kernel⟩,
    .numbers _ _, by decide +kernel, by decide +kernel⟩

end Value

end Json

end RecordQuery

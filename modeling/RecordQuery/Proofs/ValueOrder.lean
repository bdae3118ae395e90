import RecordQuery.Proofs.Rank
import RecordQuery.Proofs.SortOrder

/-!
# Sorting values

The order that values are sorted by is total over all kinds, and it tells apart all scalars that
are not strictly equal (`Value.strictEq_of_sortCompare_eq`). It is the finer one: an integer and
the double that it rounds to are strictly equal, as are the two zeros, but sorted apart.
-/

namespace RecordQuery

open Json Std

theorem Double.eq_of_totalCompare_eq {d e : Double} (h : d.totalCompare e = .eq) : d = e := by
  have hplace : d.place = e.place := LawfulEqOrd.eq_of_compare h
  rw [place, place] at hplace
  rcases hd : d.negative with _ | _ <;> rcases he : e.negative with _ | _ <;>
    rw [hd, he] at hplace <;> simp only [Bool.false_eq_true, if_false, if_true] at hplace
  · exact eq_of_rank_eq (hd.trans he.symm) (by omega)
  · omega
  · omega
  · exact eq_of_rank_eq (hd.trans he.symm) (by omega)

namespace Json

theorem Number.compare_of_sortCompare_eq {m n : Number} (h : m.sortCompare n = .eq) :
    m.compare n = .eq := by
  obtain ⟨hplace, hwhole⟩ := Ordering.then_eq_eq.1 h
  have hdouble := Double.eq_of_totalCompare_eq hplace
  have hreal : m.toDouble.compare n.toDouble = .eq := by
    rw [hdouble]
    exact compare_self (α := Int)
  cases m with
  | integer m _ =>
    cases n with
    | integer n _ => exact hwhole
    | real e => exact hreal
  | real d => exact hreal

namespace Value

/-- Keys that are level agree in their kind and in all that the kind has. -/
theorem SortKey.eq_of_compare_eq {a b : SortKey} (h : a.compare b = .eq) :
    a.rank = b.rank ∧ a.truth = b.truth ∧ a.value.sortCompare b.value = .eq ∧
      a.letters = b.letters := by
  simp only [compare_eq_parts, compareParts, compareLex, compareOn, Ordering.then_eq_eq] at h
  obtain ⟨hrank, htruth, hvalue, -, -, hletters⟩ := h
  exact ⟨LawfulEqOrd.eq_of_compare hrank, LawfulEqOrd.eq_of_compare htruth, hvalue,
    LawfulEqOrd.eq_of_compare hletters⟩

theorem letters_sortKey_text (s : String) : (text s).sortKey.letters = s := by
  rw [sortKey]
  split <;> rfl

/-- The kind of a scalar whose sort key has a rank. Dates and other texts are one kind. -/
def kindOfRank : Nat → String
  | 0 => "null"
  | 1 => "boolean"
  | 2 => "number"
  | _ => "string"

theorem kindName_eq_kindOfRank {v : Value} (h : v.isScalar) :
    v.kindName = kindOfRank v.sortKey.rank := by
  cases v with
  | null | boolean b | number n => rfl
  | text s =>
    rw [sortKey]
    split <;> rfl
  | list items | object members => cases h

/-- Scalars that are level in the order of sorting are strictly equal. -/
theorem strictEq_of_sortCompare_eq {a b : Value} (ha : a.isScalar) (hb : b.isScalar)
    (h : a.sortCompare b = .eq) : a.strictEq b := by
  obtain ⟨hrank, htruth, hvalue, hletters⟩ := SortKey.eq_of_compare_eq h
  have hkind : a.kindName = b.kindName := by
    rw [kindName_eq_kindOfRank ha, kindName_eq_kindOfRank hb, hrank]
  cases a <;> cases b <;>
    simp only [kindName, isScalar, String.reduceEq, Bool.false_eq_true] at hkind ha hb
  case null.null => rfl
  case boolean.boolean p q => exact beq_iff_eq.2 htruth
  case number.number m n => exact beq_iff_eq.2 (Number.compare_of_sortCompare_eq hvalue)
  case text.text s t =>
    rw [letters_sortKey_text, letters_sortKey_text] at hletters
    exact beq_iff_eq.2 hletters

/-- The order that values are sorted by is a total preorder of all values, and tells apart all
scalars that are not strictly equal. -/
theorem sortCompare_totalPreorder :
    (∀ a b : Value, a.sortCompare b = (b.sortCompare a).swap) ∧
      (∀ a : Value, a.sortCompare a = .eq) ∧
      (∀ a b c : Value, (a.sortCompare b).isLE → (b.sortCompare c).isLE →
        (a.sortCompare c).isLE) ∧
      ∀ a b : Value, a.isScalar → b.isScalar → a.sortCompare b = .eq → a.strictEq b :=
  ⟨fun _ _ => OrientedCmp.eq_swap, fun _ => ReflCmp.compare_self, fun _ _ _ => TransCmp.isLE_trans,
    fun _ _ => strictEq_of_sortCompare_eq⟩

/-- A number, a date and a text that is none, and an integer beside the double of its value. -/
theorem sortCompare_totalPreorder_mixed_kinds :
    let number : Value := .number (.real (Double.zero true))
    let date : Value := .text "2024-06-15"
    let other : Value := .text "2024-06-31"
    let integer : Value := .int 2
    let real : Value := .number (.real (Double.ofInt 2))
    (number.sortCompare date).isLE ∧ (date.sortCompare other).isLE ∧
      (number.sortCompare other).isLE ∧ other.sortCompare date = (date.sortCompare other).swap ∧
      integer.sortCompare real = .eq ∧ integer.strictEq real := by
  intro number date other integer real
  obtain ⟨hswap, -, htrans, hscalar⟩ := sortCompare_totalPreorder
  have hdate : (number.sortCompare date).isLE := by decide +kernel
  have hother : (date.sortCompare other).isLE := by decide +kernel
  have hlevel : integer.sortCompare real = .eq := by decide +kernel
  exact ⟨hdate, hother, htrans number date other hdate hother, hswap other date, hlevel,
    hscalar integer real rfl rfl hlevel⟩

end Value

end Json

end RecordQuery

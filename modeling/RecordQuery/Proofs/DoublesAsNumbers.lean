import RecordQuery.Proofs.CanonicalKey
import RecordQuery.Proofs.ExactValues

/-!
# Doubles as numbers

A double that is a signed word becomes that integer (`Number.ofDouble_of_value_lt`), and one that is
not whole or further away stays a double (`Number.ofDouble_eq_real_iff`); either way the number has
the value of the double. In between is `Word.half`, the first integer that is no signed word, and
that becomes the greatest one. It is the only double whose number has another value
(`Number.value_ofDouble_eq_iff`).
-/

namespace RecordQuery

open Json

namespace Double

variable {d : Double}

theorem value_eq_intCast {n : Int} : d.value = (n : ℚ) ↔ d.scaled = n * unitsPerOne := by
  rw [value, div_eq_iff unitsPerOne_cast_ne_zero]
  exact_mod_cast Iff.rfl

end Double

namespace Json.Number

variable {d : Double}

theorem ofDouble_of_value_lt {n : Int} (h : d.value = n) (hlow : -Word.half ≤ n)
    (hhigh : n < Word.half) : ∃ fits, ofDouble d = integer n fits := by
  have hmin : min n (Word.half - 1) = n := by omega
  have fits : Fits n := ⟨hlow, hhigh.trans (by decide)⟩
  rw [ofDouble_whole (Double.value_eq_intCast.1 h) hlow hhigh.le, hmin]
  exact ⟨fits, ofInt_of_fits fits⟩

example : ofDouble (Double.zero true) = ofInt 0 := by decide +kernel

theorem ofDouble_of_value_eq_half (h : d.value = Word.half) :
    ∃ fits, ofDouble d = integer (Word.half - 1) fits := by
  have hscaled : d.scaled = (Word.half : Int) * Double.unitsPerOne := Double.value_eq_intCast.1 h
  have fits : Fits (Word.half - 1) := by decide
  rw [ofDouble_whole hscaled (by decide) le_rfl]
  exact ⟨fits, ofInt_of_fits fits⟩

/-- A double stays one if it is none of the integers up to `Word.half` in magnitude. -/
theorem ofDouble_eq_real_iff : ofDouble d = real d ↔
    ∀ n : Int, d.value = n → n < -Word.half ∨ Word.half < n := by
  constructor
  · intro hreal n hn
    by_contra hin
    obtain ⟨hlow, hhigh⟩ : -Word.half ≤ n ∧ n ≤ Word.half := by omega
    rw [ofDouble_whole (Double.value_eq_intCast.1 hn) hlow hhigh, ofInt_of_fits (fits_min hlow)]
      at hreal
    cases hreal
  · intro h
    rcases ofDouble_cases d with hreal | ⟨n, hlow, hhigh, hscaled, -⟩
    · exact hreal
    · have := h n (Double.value_of_scaled hscaled)
      omega

/-- A double becomes a number of its value, but for the first one beyond the signed words. -/
theorem value_ofDouble (d : Double) : (ofDouble d).value =
    if d.value = Word.half then ((Word.half - 1 : Int) : ℚ) else d.value := by
  split_ifs with hend
  · obtain ⟨fits, hlast⟩ := ofDouble_of_value_eq_half hend
    rw [hlast]
    rfl
  · rcases ofDouble_cases d with hreal | ⟨n, hlow, hhigh, hscaled, hint⟩
    · rw [hreal]
      rfl
    · have hvalue := Double.value_of_scaled hscaled
      have hlt : n < Word.half := by
        refine lt_of_le_of_ne hhigh ?_
        rintro rfl
        exact hend hvalue
      rw [hint, ofInt_of_fits (fits_min hlow), hvalue, value, min_eq_left (by omega)]

theorem value_ofDouble_eq_iff : (ofDouble d).value = d.value ↔ d.value ≠ Word.half := by
  rw [value_ofDouble]
  split_ifs with hend
  · rw [hend]
    refine iff_of_false ?_ fun h => h rfl
    norm_num
  · exact iff_of_true rfl hend

end Json.Number

namespace Json.Value

/-- A finite double becomes a number, which is an integer for the whole ones from `-Word.half` to
`Word.half` and the double itself for all others, and has the value of the double unless that is
`Word.half`, which becomes the integer before it. -/
theorem ofExtended_finite (d : Double) :
    ∃ n : Number, ofExtended (.finite d) = number n ∧
      (n.value = d.value ↔ d.value ≠ Word.half) ∧
      (∀ i : Int, d.value = i → -Word.half ≤ i → i < Word.half → ∃ fits, n = .integer i fits) ∧
      (d.value = Word.half → ∃ fits, n = .integer (Word.half - 1) fits) ∧
      (n = .real d ↔ ∀ i : Int, d.value = i → i < -Word.half ∨ Word.half < i) :=
  ⟨.ofDouble d, rfl, Number.value_ofDouble_eq_iff, fun _ => Number.ofDouble_of_value_lt,
    Number.ofDouble_of_value_eq_half, Number.ofDouble_eq_real_iff⟩

/-- The least signed word is kept. -/
theorem ofExtended_finite_least :
    let d := Double.ofInt (-Word.half)
    d.value = (-Word.half : Int) ∧ ofExtended (.finite d) = int (-Word.half) ∧
      ∃ n : Number, ofExtended (.finite d) = number n ∧ n.value = d.value := by
  intro d
  have hvalue : d.value = (-Word.half : Int) := Double.value_of_scaled (by decide +kernel)
  have hne : d.value ≠ Word.half := by
    rw [hvalue]
    norm_num
  obtain ⟨n, hn, hexact, hinteger, -⟩ := ofExtended_finite d
  obtain ⟨fits, hint⟩ := hinteger _ hvalue le_rfl (by decide)
  have hkept : n = .ofInt (-Word.half) := hint.trans (Number.ofInt_of_fits fits).symm
  exact ⟨hvalue, hn.trans (congrArg number hkept), n, hn, hexact.2 hne⟩

/-- `Word.half` becomes the integer before it. -/
theorem value_ofExtended_half_lt :
    let d := Double.ofInt Word.half
    d.value = Word.half ∧ ofExtended (.finite d) = int (Word.half - 1) ∧
      ∀ n : Number, ofExtended (.finite d) = number n → n.value < d.value := by
  intro d
  have hvalue : d.value = Word.half :=
    Double.value_eq_intCast.2 (by decide +kernel : d.scaled = (Word.half : Int) * _)
  obtain ⟨fits, hint⟩ := Number.ofDouble_of_value_eq_half hvalue
  refine ⟨hvalue, congrArg number (hint.trans (Number.ofInt_of_fits fits).symm), fun n hn => ?_⟩
  obtain rfl := number.inj hn
  rw [Number.value_ofDouble, if_pos hvalue, hvalue]
  norm_num

end Json.Value

end RecordQuery

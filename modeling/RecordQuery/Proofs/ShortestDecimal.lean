import Mathlib.Algebra.Order.Field.Rat
import Mathlib.Algebra.Order.Ring.Rat
import Mathlib.Tactic.FieldSimp
import Mathlib.Tactic.Linarith
import Mathlib.Tactic.LinearCombination
import RecordQuery.Decimal.Shortest
import RecordQuery.Proofs.Rank

/-!
# The shortest decimal is near one magnitude only

A number is near a rank if it lies between the midpoints to the neighbouring magnitudes, at one of
them only if the rank is even. No number is near two ranks (`Near.unique`), and the shortest decimal
of a rank is near it (`near_shortest`); so it is the shortest decimal of no other rank.
-/

namespace RecordQuery.Decimal

open Double

/-- The number that a decimal stands for. -/
def value (d : Decimal) : ℚ :=
  d.digits * 10 ^ d.exponent

/-- Whether `x` half units round to the magnitude of a rank. -/
structure Near (rank : Nat) (x : ℚ) : Prop where
  low : ((units (rank - 1) + units rank : Nat) : ℚ) ≤ x
  high : x ≤ ((units rank + units (rank + 1) : Nat) : ℚ)
  inside : rank % 2 ≠ 0 →
    ((units (rank - 1) + units rank : Nat) : ℚ) < x ∧
      x < ((units rank + units (rank + 1) : Nat) : ℚ)

theorem Near.not_lt {r s : Nat} {x : ℚ} (hr : Near r x) (hs : Near s x) : ¬ r < s := by
  intro hlt
  have hmid : units r + units (r + 1) ≤ units (s - 1) + units s :=
    Nat.add_le_add (units_strictMono.monotone (by omega)) (units_strictMono.monotone hlt)
  have hmid' : ((units r + units (r + 1) : Nat) : ℚ) ≤ ((units (s - 1) + units s : Nat) : ℚ) :=
    Nat.cast_le.2 hmid
  have hhigh := hr.high
  have hlow := hs.low
  -- both are even unless one of them has the midpoint outside
  have heven : r % 2 = 0 := by
    by_contra hodd
    have := (hr.inside hodd).2
    linarith
  have heven' : s % 2 = 0 := by
    by_contra hodd
    have := (hs.inside hodd).1
    linarith
  have hgap : units r + units (r + 1) < units (s - 1) + units s :=
    Nat.add_lt_add_of_le_of_lt (units_strictMono.monotone (by omega)) (units_strictMono (by omega))
  have hgap' : ((units r + units (r + 1) : Nat) : ℚ) < ((units (s - 1) + units s : Nat) : ℚ) :=
    Nat.cast_lt.2 hgap
  linarith

theorem Near.unique {r s : Nat} {x : ℚ} (hr : Near r x) (hs : Near s x) : r = s :=
  Nat.le_antisymm (Nat.le_of_not_lt (hs.not_lt hr)) (Nat.le_of_not_lt (hr.not_lt hs))

theorem near_units (rank : Nat) : Near rank ((2 * units rank : Nat) : ℚ) := by
  have hlow : units (rank - 1) ≤ units rank := units_strictMono.monotone (Nat.sub_le rank 1)
  have hhigh : units rank < units (rank + 1) := units_lt_succ rank
  refine ⟨Nat.cast_le.2 (by omega), Nat.cast_le.2 (by omega), fun hodd => ?_⟩
  have hlow' : units (rank - 1) < units rank := units_strictMono (by omega)
  exact ⟨Nat.cast_lt.2 (by omega), Nat.cast_lt.2 (by omega)⟩

/-! ## Grids -/

theorem gridStep_den_pos (exponent : Int) : 0 < (gridStep exponent).2 :=
  Nat.pow_pos (by decide)

theorem gridStep_num (exponent : Int) : ((gridStep exponent).1 : ℚ)
    = 10 ^ exponent * (2 * unitsPerOne) * (gridStep exponent).2 := by
  simp only [gridStep, Nat.pow_eq]
  push_cast
  -- a name, so that nothing computes the number
  generalize (unitsPerOne : ℚ) = u
  rcases exponent.eq_nat_or_neg with ⟨n, rfl | rfl⟩
  · simp
  · have hpow : (10 : ℚ) ^ n ≠ 0 := pow_ne_zero _ (by norm_num)
    simp only [neg_neg, Int.toNat_natCast, zpow_neg, zpow_natCast]
    field_simp
    simp

/-- The half units in a decimal. -/
def halves (d : Decimal) : ℚ :=
  d.value * (2 * unitsPerOne)

section Comparing

variable (d : Decimal)

theorem cast_gridPoint : ((d.digits * (gridStep d.exponent).1 : Nat) : ℚ)
    = d.halves * (gridStep d.exponent).2 := by
  rw [Nat.cast_mul, gridStep_num, halves, value]
  ring

theorem le_halves_iff (m : Nat) :
    m * (gridStep d.exponent).2 ≤ d.digits * (gridStep d.exponent).1 ↔ (m : ℚ) ≤ d.halves := by
  have hden : (0 : ℚ) < (gridStep d.exponent).2 := Nat.cast_pos.2 (gridStep_den_pos d.exponent)
  rw [← Nat.cast_le (α := ℚ), cast_gridPoint, Nat.cast_mul]
  exact mul_le_mul_iff_left₀ hden

theorem halves_le_iff (m : Nat) :
    d.digits * (gridStep d.exponent).1 ≤ m * (gridStep d.exponent).2 ↔ d.halves ≤ (m : ℚ) := by
  have hden : (0 : ℚ) < (gridStep d.exponent).2 := Nat.cast_pos.2 (gridStep_den_pos d.exponent)
  rw [← Nat.cast_le (α := ℚ), cast_gridPoint, Nat.cast_mul]
  exact mul_le_mul_iff_left₀ hden

end Comparing

theorem near_of_readsBack {rank : Nat} {d : Decimal}
    (h : readsBack rank d.digits (gridStep d.exponent).1 (gridStep d.exponent).2 = true) :
    Near rank d.halves := by
  simp only [readsBack] at h
  split at h
  · next heven =>
    simp only [Bool.and_eq_true, decide_eq_true_eq, le_halves_iff, halves_le_iff] at h
    exact ⟨h.1, h.2, fun hodd => absurd heven hodd⟩
  · simp only [Bool.and_eq_true, decide_eq_true_eq, ← not_le, le_halves_iff, halves_le_iff] at h
    simp only [not_le] at h
    exact ⟨h.1.le, h.2.le, fun _ => h⟩

theorem onGrid?_eq_some {tie : Tie} {rank : Nat} {exponent : Int} {d : Decimal}
    (h : onGrid? tie rank exponent = some d) : d.exponent = exponent ∧
      readsBack rank d.digits (gridStep exponent).1 (gridStep exponent).2 = true := by
  rcases hgrid : gridStep exponent with ⟨num, den⟩
  simp only [onGrid?, hgrid] at h
  split at h
  · cases h
  · next hbelow _ =>
    cases h
    exact ⟨rfl, hbelow⟩
  · next _ habove =>
    cases h
    exact ⟨rfl, habove⟩
  · next hbelow habove =>
    split at h
    · cases h
      exact ⟨rfl, hbelow⟩
    · cases h
      exact ⟨rfl, habove⟩
    · split at h
      · cases h
        exact ⟨rfl, habove⟩
      · cases h
        refine ⟨rfl, ?_⟩
        simp only
        split
        · exact hbelow
        · exact habove

/-- Twos and fives make up tens. -/
theorem pow_five_mul_pow_two (k : Nat) :
    ((Nat.pow 5 k : Nat) : ℚ) * 10 ^ (-(k : Int)) * (Nat.pow 2 k : Nat) = 1 := by
  have hten : ((10 : ℚ) ^ k) ≠ 0 := pow_ne_zero _ (by norm_num)
  have hpow : (5 : ℚ) ^ k * 2 ^ k = 10 ^ k := by
    rw [← mul_pow]
    norm_num
  rw [Nat.pow_eq, Nat.pow_eq, zpow_neg, zpow_natCast]
  push_cast
  field_simp
  exact hpow

/-- Every magnitude is a multiple of a power of ten as fine as the unit is of two. -/
theorem halves_finest {k : Nat} (hk : unitsPerOne = Nat.pow 2 k) (rank : Nat) :
    (⟨units rank * Nat.pow 5 k, -(k : Int)⟩ : Decimal).halves = ((2 * units rank : Nat) : ℚ) := by
  have hpow := pow_five_mul_pow_two k
  rw [halves, value, hk]
  push_cast at hpow ⊢
  linear_combination (2 * (units rank : ℚ)) * hpow

theorem near_firstHit (tie : Tie) (rank : Nat) : ∀ (steps : Nat) (exponent : Int),
    Near rank (firstHit tie rank steps exponent).halves
  | 0, _ => by
    -- under a name, the exponent is not taken as a power to compute
    obtain ⟨k, hk, hk', hunits⟩ : ∃ k : Nat, 1074 = k ∧ (1074 : Int) = k ∧
        unitsPerOne = Nat.pow 2 k := ⟨1074, rfl, rfl, by decide +kernel⟩
    rw [firstHit, hk', hk, halves_finest hunits]
    exact near_units rank
  | steps + 1, exponent => by
    rw [firstHit]
    split
    · next d hd =>
      obtain ⟨rfl, hreads⟩ := onGrid?_eq_some hd
      exact near_of_readsBack hreads
    · exact near_firstHit tie rank steps (exponent - 1)

theorem near_shortest (tie : Tie) (rank : Nat) : Near rank (shortest tie rank).halves := by
  rw [shortest]
  split
  · next hzero =>
    subst hzero
    have h := near_units 0
    rw [units_zero, Nat.mul_zero] at h
    rwa [halves, value, Nat.cast_zero, zero_mul, zero_mul]
  · exact near_firstHit tie rank _ _

/-- The shortest decimals of two ranks are different numbers. -/
theorem rank_eq_of_value_shortest {tie : Tie} {r s : Nat}
    (h : (shortest tie r).value = (shortest tie s).value) : r = s := by
  have hr := near_shortest tie r
  rw [halves, h] at hr
  exact hr.unique (near_shortest tie s)

end RecordQuery.Decimal

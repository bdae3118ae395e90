import Mathlib.Tactic.Ring
import Mathlib.Order.Monotone.Basic
import RecordQuery.Double.Basic

/-!
# Ranks and magnitudes

The magnitude of a rank grows with the rank (`units_strictMono`), so a value other than zero is that
of one double only (`eq_of_scaled_eq`), and rounding gives back what a double can hold
(`nearestRank_units`). The value of a double is therefore rounded to itself (`scaled_ofScaled`), and
so is an integer that is the value of a double (`scaled_ofInt`).
-/

namespace RecordQuery.Double

theorem pow_two_pos (k : Nat) : 0 < Nat.pow 2 k :=
  Nat.pow_pos (by decide)

theorem units_of_lt {rank : Nat} (h : rank < binade) : units rank = rank := by
  rw [units, if_pos h]

theorem units_binade {k m : Nat} (h : m < binade) :
    units ((k + 1) * binade + m) = (binade + m) * Nat.pow 2 k := by
  have hpos : 0 < binade := by decide
  have hdiv : ((k + 1) * binade + m) / binade = k + 1 := by
    rw [Nat.mul_comm, Nat.mul_add_div hpos, Nat.div_eq_of_lt h, Nat.add_zero]
  have hmod : ((k + 1) * binade + m) % binade = m := by
    rw [Nat.mul_comm, Nat.mul_add_mod, Nat.mod_eq_of_lt h]
  have hle : binade ≤ (k + 1) * binade + m :=
    Nat.le_add_right_of_le (Nat.le_mul_of_pos_left _ k.succ_pos)
  rw [units, if_neg (Nat.not_lt.2 hle), hdiv, hmod, Nat.add_sub_cancel]

/-- A rank is below the first power of two, or some steps past one. -/
theorem rank_cases (rank : Nat) :
    rank < binade ∨ ∃ k m, m < binade ∧ rank = (k + 1) * binade + m := by
  rcases Nat.lt_or_ge rank binade with h | h
  · exact .inl h
  · refine .inr ⟨rank / binade - 1, rank % binade, Nat.mod_lt _ (by decide), ?_⟩
    rw [Nat.sub_add_cancel (Nat.div_pos h (by decide)), Nat.mul_comm, Nat.div_add_mod]

theorem units_lt_succ (rank : Nat) : units rank < units (rank + 1) := by
  rcases rank_cases rank with h | ⟨k, m, hm, rfl⟩
  · rcases Nat.lt_or_ge (rank + 1) binade with h' | h'
    · rw [units_of_lt h, units_of_lt h']
      exact Nat.lt_succ_self rank
    · obtain rfl : rank = binade - 1 := by omega
      decide
  · have hpow := pow_two_pos k
    rcases Nat.lt_or_ge (m + 1) binade with h' | h'
    · rw [Nat.add_assoc, units_binade hm, units_binade h']
      exact Nat.mul_lt_mul_of_pos_right (by omega) hpow
    · have hlast : m + 1 = binade := by omega
      have hnext : (k + 1) * binade + m + 1 = (k + 1 + 1) * binade + 0 := by
        rw [Nat.add_assoc, hlast]
        ring
      rw [hnext, units_binade hm, units_binade (by decide)]
      have hdouble : Nat.pow 2 (k + 1) = 2 * Nat.pow 2 k := by
        rw [Nat.pow_eq, Nat.pow_eq, Nat.pow_succ, Nat.mul_comm]
      rw [hdouble, ← Nat.mul_assoc]
      exact Nat.mul_lt_mul_of_pos_right (by omega) hpow

theorem units_strictMono : StrictMono units :=
  strictMono_nat_of_lt_succ units_lt_succ

theorem units_zero : units 0 = 0 := by decide

theorem units_eq_zero {rank : Nat} : units rank = 0 ↔ rank = 0 :=
  ⟨fun h => units_strictMono.injective (h.trans units_zero.symm), fun h => h ▸ units_zero⟩

/-! ## Rounding what needs no rounding -/

theorem roundQuotient_mul {den : Nat} (h : 0 < den) (a : Nat) :
    roundQuotient (a * den) den = a := by
  simp [roundQuotient, Nat.mul_div_cancel a h, Nat.mul_mod_left, h]

theorem log2_units {k m : Nat} (h : m < binade) : ((binade + m) * Nat.pow 2 k).log2 = 52 + k := by
  have hne : (binade + m) * Nat.pow 2 k ≠ 0 :=
    Nat.mul_ne_zero (by omega) (pow_two_pos k).ne'
  rw [Nat.log2_eq_iff hne, Nat.pow_eq]
  have hlow : 2 ^ (52 + k) = binade * 2 ^ k := by rw [Nat.pow_add]
  have hhigh : 2 ^ (52 + k + 1) = (binade + binade) * 2 ^ k := by
    rw [Nat.pow_succ, hlow]
    ring
  rw [hlow, hhigh]
  exact ⟨Nat.mul_le_mul_right _ (by omega),
    Nat.mul_lt_mul_of_pos_right (by omega) (pow_two_pos k)⟩

theorem nearestRank_units (rank : Nat) : nearestRank (units rank) 1 = rank := by
  rcases rank_cases rank with h | ⟨k, m, hm, rfl⟩
  · have hlog : rank.log2 - 52 = 0 := by
      rcases Nat.eq_zero_or_pos rank with rfl | hpos
      · decide
      · have : rank.log2 < 52 := (Nat.log2_lt hpos.ne').2 h
        omega
    have hround := roundQuotient_mul (Nat.zero_lt_one) rank
    rw [Nat.mul_one] at hround
    simp [nearestRank, units_of_lt h, hlog, hround]
  · have hspare : 52 + k - 52 = k := by omega
    have hround := roundQuotient_mul (pow_two_pos k) (binade + m)
    rw [units_binade hm]
    simp only [nearestRank, Nat.div_one, log2_units hm, hspare, Nat.one_mul]
    rw [hround]
    ring

theorem nearest_units {rank : Nat} (negative : Bool) (h : rank < rankCount) :
    nearest negative (units rank) 1 = ⟨negative, rank, h⟩ := by
  simp only [nearest, nearestRank_units, Double.mk.injEq, true_and]
  omega

/-! ## Doubles and their values -/

theorem eq_of_rank_eq {d e : Double} (hsign : d.negative = e.negative) (hrank : d.rank = e.rank) :
    d = e := by
  cases d
  cases e
  simp only at hsign hrank
  simp only [hsign, hrank]

theorem natAbs_scaled (d : Double) : d.scaled.natAbs = units d.rank := by
  rw [scaled]
  split
  · exact Int.natAbs_neg _
  · rfl

theorem scaled_eq_zero {d : Double} : d.scaled = 0 ↔ d.rank = 0 := by
  rw [← Int.natAbs_eq_zero, natAbs_scaled, units_eq_zero]

theorem scaled_neg_iff {d : Double} (h : d.scaled ≠ 0) : d.scaled < 0 ↔ d.negative = true := by
  have hpos : 0 < units d.rank := by
    rw [← natAbs_scaled]
    exact Int.natAbs_pos.2 h
  rw [scaled]
  rcases d.negative with _ | _
  · simp
  · simpa using hpos

/-- Doubles of one value are the same, except that zero has two signs. -/
theorem eq_of_scaled_eq {d e : Double} (h : d.scaled = e.scaled) (hne : d.scaled ≠ 0) : d = e := by
  have hrank : d.rank = e.rank := by
    apply units_strictMono.injective
    rw [← natAbs_scaled, ← natAbs_scaled, h]
  have hsign : d.negative = e.negative := by
    rw [Bool.eq_iff_iff, ← scaled_neg_iff hne, h, scaled_neg_iff (h ▸ hne)]
  exact eq_of_rank_eq hsign hrank

theorem unitsPerOne_pos : 0 < unitsPerOne := by
  decide +kernel

/-! ## Rounding values -/

theorem ofInt_eq_ofScaled (n : Int) : ofInt n = ofScaled (n * unitsPerOne) := by
  have hpos : (0 : Int) < unitsPerOne := Int.natCast_pos.2 unitsPerOne_pos
  have hsign : n * unitsPerOne < 0 ↔ n < 0 := by
    have h := Int.mul_lt_mul_right hpos (b := n) (c := 0)
    rwa [Int.zero_mul] at h
  rw [ofInt, ofScaled, decide_eq_decide.2 hsign, Int.natAbs_mul, Int.natAbs_natCast]

/-- What a double holds is rounded to itself, but zero loses its sign. -/
theorem ofScaled_scaled {d : Double} (h : d.scaled ≠ 0) : ofScaled d.scaled = d := by
  have hsign : decide (d.scaled < 0) = d.negative := by
    rw [Bool.eq_iff_iff, decide_eq_true_iff, scaled_neg_iff h]
  rw [ofScaled, natAbs_scaled, hsign, nearest_units _ d.rank_lt]

theorem scaled_ofScaled (d : Double) : (ofScaled d.scaled).scaled = d.scaled := by
  by_cases h : d.scaled = 0
  · rw [h]
    decide +kernel
  · rw [ofScaled_scaled h]

theorem scaled_ofInt {n : Int} {d : Double} (h : d.scaled = n * unitsPerOne) :
    (ofInt n).scaled = d.scaled := by
  rw [ofInt_eq_ofScaled, ← h, scaled_ofScaled]

end RecordQuery.Double

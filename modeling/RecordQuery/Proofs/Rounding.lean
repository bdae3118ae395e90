import RecordQuery.Double.Decimal
import RecordQuery.Proofs.Rank

/-!
# Rounding keeps the order

A larger number is not rounded to a smaller double (`ofScaled_mono`). As the value of a double is
rounded to itself, rounding moves no number past a double (`ofInt_le`, `le_ofInt`). An integer of
at most 53 binary digits is the value of a double (`scaled_ofInt_of_lt`), and any other is rounded
to a whole one (`unitsPerOne_dvd_scaled_ofInt`).

A decimal whose significand and power of ten are doubles becomes the double nearest to it
(`ofDecimal?_natCast`, `ofDecimal?_neg`).
-/

namespace RecordQuery.Double

/-! ## Quotients -/

theorem roundQuotient_mono {a b den : Nat} (h : a ≤ b) :
    roundQuotient a den ≤ roundQuotient b den := by
  have hdiv : a / den ≤ b / den := Nat.div_le_div_right h
  have ha := Nat.div_add_mod a den
  have hb := Nat.div_add_mod b den
  simp only [roundQuotient]
  rcases hdiv.lt_or_eq with hlt | heq
  · split_ifs <;> omega
  · rw [heq] at ha ⊢
    split_ifs <;> omega

theorem roundQuotient_le {a den m : Nat} (hden : 0 < den) (h : a ≤ m * den) :
    roundQuotient a den ≤ m := by
  rw [← roundQuotient_mul hden m]
  exact roundQuotient_mono h

theorem le_roundQuotient {a den m : Nat} (hden : 0 < den) (h : m * den ≤ a) :
    m ≤ roundQuotient a den := by
  rw [← roundQuotient_mul hden m]
  exact roundQuotient_mono h

/-! ## Ranks -/

/-- By how many binary digits a number of units is too long for a significand. -/
def spare (n : Nat) : Nat :=
  n.log2 - 52

theorem nearestRank_one (n : Nat) :
    nearestRank n 1 = spare n * binade + roundQuotient n (Nat.pow 2 (spare n)) := by
  rw [nearestRank, Nat.div_one, Nat.one_mul, spare]

theorem lt_of_spare (n : Nat) : n < 2 * binade * Nat.pow 2 (spare n) := by
  have hle : 2 ^ (n.log2 + 1) ≤ 2 ^ (53 + spare n) :=
    Nat.pow_le_pow_right (by decide) (by unfold spare; omega)
  have hpow : 2 ^ (53 + spare n) = 2 * binade * Nat.pow 2 (spare n) := by
    rw [Nat.pow_add]
    rfl
  exact (Nat.lt_log2_self.trans_le hle).trans_eq hpow

theorem le_of_spare_pos {n : Nat} (h : 0 < spare n) : binade * Nat.pow 2 (spare n) ≤ n := by
  have hne : n ≠ 0 := by
    rintro rfl
    simp [spare] at h
  have hlog : n.log2 = 52 + spare n := by
    unfold spare at h ⊢
    omega
  have hpow : 2 ^ n.log2 = binade * Nat.pow 2 (spare n) := by
    rw [hlog, Nat.pow_add]
    rfl
  rw [← hpow]
  exact Nat.log2_self_le hne

theorem spare_mono {a b : Nat} (h : a ≤ b) : spare a ≤ spare b := by
  rcases Nat.eq_zero_or_pos a with rfl | ha
  · simp [spare]
  · have hlog : a.log2 ≤ b.log2 :=
      (Nat.le_log2 (by omega)).2 ((Nat.log2_self_le ha.ne').trans h)
    unfold spare
    omega

theorem nearestRank_mono {a b : Nat} (h : a ≤ b) : nearestRank a 1 ≤ nearestRank b 1 := by
  rw [nearestRank_one, nearestRank_one]
  rcases (spare_mono h).lt_or_eq with hlt | heq
  · have hlow : roundQuotient a (Nat.pow 2 (spare a)) ≤ 2 * binade :=
      roundQuotient_le (pow_two_pos _) (lt_of_spare a).le
    have hhigh : binade ≤ roundQuotient b (Nat.pow 2 (spare b)) :=
      le_roundQuotient (pow_two_pos _) (le_of_spare_pos (by omega))
    have hmul : spare a * binade + binade ≤ spare b * binade := by
      rw [← Nat.succ_mul]
      exact Nat.mul_le_mul_right _ hlt
    omega
  · rw [heq]
    exact Nat.add_le_add_left (roundQuotient_mono h) _

/-! ## Values -/

theorem scaled_ofScaled_eq (x : Int) : (ofScaled x).scaled =
    if x < 0 then -(units (min (nearestRank x.natAbs 1) (rankCount - 1)) : Int)
    else (units (min (nearestRank x.natAbs 1) (rankCount - 1)) : Int) := by
  rw [ofScaled, scaled, nearest]
  simp only [decide_eq_true_eq]

theorem ofScaled_mono {x y : Int} (h : x ≤ y) : (ofScaled x).scaled ≤ (ofScaled y).scaled := by
  have hmono : ∀ {a b : Nat}, a ≤ b → units (min (nearestRank a 1) (rankCount - 1))
      ≤ units (min (nearestRank b 1) (rankCount - 1)) := fun hab =>
    units_strictMono.monotone (min_le_min_right _ (nearestRank_mono hab))
  rw [scaled_ofScaled_eq, scaled_ofScaled_eq]
  split_ifs with hx hy hy
  · have := hmono (show y.natAbs ≤ x.natAbs by omega)
    omega
  · omega
  · omega
  · have := hmono (show x.natAbs ≤ y.natAbs by omega)
    omega

theorem ofInt_mono {m n : Int} (h : m ≤ n) : (ofInt m).scaled ≤ (ofInt n).scaled := by
  rw [ofInt_eq_ofScaled, ofInt_eq_ofScaled]
  exact ofScaled_mono (Int.mul_le_mul_of_nonneg_right h (Int.natCast_nonneg _))

theorem ofInt_le {n : Int} {d : Double} (h : n * unitsPerOne ≤ d.scaled) :
    (ofInt n).scaled ≤ d.scaled := by
  rw [ofInt_eq_ofScaled, ← scaled_ofScaled d]
  exact ofScaled_mono h

theorem le_ofInt {n : Int} {d : Double} (h : d.scaled ≤ n * unitsPerOne) :
    d.scaled ≤ (ofInt n).scaled := by
  rw [ofInt_eq_ofScaled, ← scaled_ofScaled d]
  exact ofScaled_mono h

/-! ## Floors -/

theorem le_floor_iff {n : Int} {d : Double} : n ≤ d.floor ↔ n * unitsPerOne ≤ d.scaled :=
  Int.le_ediv_iff_mul_le (Int.natCast_pos.2 unitsPerOne_pos)

theorem floor_lt_iff {n : Int} {d : Double} : d.floor < n ↔ d.scaled < n * unitsPerOne :=
  Int.ediv_lt_iff_lt_mul (Int.natCast_pos.2 unitsPerOne_pos)

/-! ## Integers that need no rounding -/

/-- The number is shifted up to a full significand, and the rest of the unit is its exponent. -/
theorem exists_rank_of_lt {k : Nat} (h : k < 2 * binade) :
    ∃ rank < rankCount, units rank = k * unitsPerOne := by
  rcases Nat.eq_zero_or_pos k with rfl | hpos
  · exact ⟨0, by decide, by rw [units_zero, Nat.zero_mul]⟩
  · have hlog : k.log2 ≤ 52 := by
      have : k.log2 < 53 := (Nat.log2_lt hpos.ne').2 h
      omega
    obtain ⟨shift, hshift⟩ : ∃ shift, k.log2 + shift = 52 := ⟨52 - k.log2, by omega⟩
    -- under a name, the exponent of the unit is not taken as a power to compute
    obtain ⟨unit, hunit, hunits⟩ : ∃ unit : Nat, unit = 1074 ∧ unitsPerOne = Nat.pow 2 unit :=
      ⟨1074, rfl, by decide +kernel⟩
    obtain ⟨exponent, rfl⟩ : ∃ exponent, unit = shift + exponent :=
      Nat.exists_eq_add_of_le (by omega)
    have hlow : binade ≤ k * Nat.pow 2 shift := by
      have hpow : 2 ^ k.log2 * Nat.pow 2 shift = binade := by
        rw [Nat.pow_eq, ← Nat.pow_add, hshift]
      rw [← hpow]
      exact Nat.mul_le_mul_right _ (Nat.log2_self_le hpos.ne')
    have hhigh : k * Nat.pow 2 shift < 2 * binade := by
      have hpow : 2 ^ (k.log2 + 1) * Nat.pow 2 shift = 2 * binade := by
        rw [Nat.pow_eq, ← Nat.pow_add, Nat.add_right_comm, hshift]
        rfl
      rw [← hpow]
      exact Nat.mul_lt_mul_of_pos_right Nat.lt_log2_self (pow_two_pos shift)
    obtain ⟨m, hm⟩ : ∃ m, k * Nat.pow 2 shift = binade + m := Nat.exists_eq_add_of_le hlow
    have hsplit : Nat.pow 2 (shift + exponent) = Nat.pow 2 shift * Nat.pow 2 exponent :=
      Nat.pow_add 2 shift exponent
    refine ⟨(exponent + 1) * binade + m, ?_, ?_⟩
    · have : (exponent + 1) * binade ≤ 1075 * binade := Nat.mul_le_mul_right _ (by omega)
      unfold rankCount
      omega
    · rw [units_binade (by omega), ← hm, hunits, hsplit, Nat.mul_assoc]

theorem scaled_ofInt_of_lt {n : Int} (h : n.natAbs < 2 * binade) :
    (ofInt n).scaled = n * unitsPerOne := by
  obtain ⟨rank, hrank, hunits⟩ := exists_rank_of_lt h
  have hscaled : scaled ⟨decide (n < 0), rank, hrank⟩ = n * unitsPerOne := by
    rw [scaled, hunits, Int.natCast_mul]
    rcases Int.lt_or_le n 0 with hneg | hpos
    · have habs : -(n.natAbs : Int) = n := by omega
      rw [if_pos (decide_eq_true hneg), ← Int.neg_mul, habs]
    · rw [if_neg (by simpa using hpos), Int.natAbs_of_nonneg hpos]
  rw [scaled_ofInt hscaled, hscaled]

/-! ## Decimals that are rounded once -/

theorem roundQuotient_mul_mul {c : Nat} (hc : 0 < c) (num den : Nat) :
    roundQuotient (num * c) (den * c) = roundQuotient num den := by
  simp only [roundQuotient, Nat.mul_div_mul_right _ _ hc, Nat.mul_mod_mul_right, ← Nat.mul_assoc,
    Nat.mul_lt_mul_right hc]

theorem nearestRank_mul_mul {c : Nat} (hc : 0 < c) (num den : Nat) :
    nearestRank (num * c) (den * c) = nearestRank num den := by
  rw [nearestRank, nearestRank, Nat.mul_div_mul_right _ _ hc, Nat.mul_right_comm,
    roundQuotient_mul_mul hc]

theorem nearest_mul_mul {c : Nat} (hc : 0 < c) (negative : Bool) (num den : Nat) :
    nearest negative (num * c) (den * c) = nearest negative num den := by
  simp only [nearest, nearestRank_mul_mul hc]

theorem times?_of_units {a b : Double} {n : Nat}
    (h : units a.rank * units b.rank = n * unitsPerOne) (hn : nearestRank n 1 < rankCount) :
    a.times? b = some (nearest (a.negative != b.negative) n 1) := by
  have hrank : nearestRank (n * unitsPerOne) unitsPerOne = nearestRank n 1 := by
    simpa using nearestRank_mul_mul unitsPerOne_pos n 1
  have hnearest := nearest_mul_mul unitsPerOne_pos (a.negative != b.negative) n 1
  rw [Nat.one_mul] at hnearest
  simp only [times?, h, hrank, hnearest, if_pos hn]

theorem dividedBy_of_units {a b : Double} {n : Nat} (h : units b.rank = n * unitsPerOne) :
    a.dividedBy b = nearest (a.negative != b.negative) (units a.rank) n := by
  rw [dividedBy, h, nearest_mul_mul unitsPerOne_pos]

theorem units_ofInt_of_lt {n : Nat} (h : n < 2 * binade) :
    units (ofInt n).rank = n * unitsPerOne := by
  have hscaled : (ofInt n).scaled = n * unitsPerOne := scaled_ofInt_of_lt (by simpa using h)
  rw [← natAbs_scaled, hscaled, Int.natAbs_mul, Int.natAbs_natCast, Int.natAbs_natCast]

theorem units_tenPower {k : Nat} (h : k ≤ 22) :
    units (tenPower k).rank = Nat.pow 10 k * unitsPerOne := by
  have hall : ∀ k < 23, units (tenPower k).rank = Nat.pow 10 k * unitsPerOne := by decide +kernel
  exact hall k (by omega)

/-- A significand of at most 53 binary digits is a double, and so are the powers of ten up to
`10 ^ 22`. With these only the product is rounded, so the double is the nearest one. -/
theorem ofDecimal?_natCast {significand k : Nat} (negative : Bool) (hs : significand < 2 * binade)
    (hk : k ≤ 22) : ofDecimal? negative significand k =
      some (nearest negative (significand * Nat.pow 10 k * unitsPerOne) 1) := by
  have hprod : units (ofInt significand).rank * units (tenPower k).rank
      = significand * Nat.pow 10 k * unitsPerOne * unitsPerOne := by
    rw [units_ofInt_of_lt hs, units_tenPower hk, Nat.mul_mul_mul_comm, ← Nat.mul_assoc]
  have hle : significand * Nat.pow 10 k * unitsPerOne
      ≤ 2 * binade * Nat.pow 10 22 * unitsPerOne :=
    Nat.mul_le_mul_right _ (Nat.mul_le_mul hs.le (Nat.pow_le_pow_right (by decide) hk))
  have hrank : nearestRank (significand * Nat.pow 10 k * unitsPerOne) 1 < rankCount :=
    (nearestRank_mono hle).trans_lt (by decide +kernel)
  have hlimit : (k : Int).natAbs ≤ tenLimit := hk.trans (by decide)
  rw [ofDecimal?, timesTenPower?, if_pos hlimit, if_pos (Int.natCast_nonneg k),
    Int.natAbs_natCast, times?_of_units hprod hrank]
  rfl

/-- The quotient is likewise all that is rounded. -/
theorem ofDecimal?_neg {significand k : Nat} (negative : Bool) (hs : significand < 2 * binade)
    (hpos : 0 < k) (hk : k ≤ 22) : ofDecimal? negative significand (-k) =
      some (nearest negative (significand * unitsPerOne) (Nat.pow 10 k)) := by
  have hlimit : (-k : Int).natAbs ≤ tenLimit := by
    rw [Int.natAbs_neg]
    exact hk.trans (by decide)
  rw [ofDecimal?, timesTenPower?, if_pos hlimit, if_neg (by omega), Int.natAbs_neg,
    Int.natAbs_natCast, dividedBy_of_units (units_tenPower hk), units_ofInt_of_lt hs]
  rfl

-- one digit more, and the significand is rounded up before the quotient is
example : ofDecimal? false 90071992547409930 (-1) = some (ofInt 9007199254740994) := by
  decide +kernel

/-! ## Integers are rounded to whole doubles -/

theorem scaled_ofInt_eq_zero {n : Int} : (ofInt n).scaled = 0 ↔ n = 0 := by
  have hpos : (0 : Int) < unitsPerOne := Int.natCast_pos.2 unitsPerOne_pos
  have hone : (ofInt 1).scaled = 1 * unitsPerOne := scaled_ofInt_of_lt (by decide)
  have hminus : (ofInt (-1)).scaled = -1 * unitsPerOne := scaled_ofInt_of_lt (by decide)
  constructor
  · intro h
    rcases lt_trichotomy n 0 with hneg | hzero | hpos
    · have := ofInt_mono (show n ≤ -1 by omega)
      omega
    · exact hzero
    · have := ofInt_mono (show 1 ≤ n by omega)
      omega
  · rintro rfl
    decide +kernel

/-- From `2 ^ 52` on, doubles are at least one apart. -/
theorem unitsPerOne_dvd_units {rank : Nat} (h : binade * unitsPerOne ≤ units rank) :
    unitsPerOne ∣ units rank := by
  -- under a name, the exponent of the unit is not taken as a power to compute
  obtain ⟨unit, hunits⟩ : ∃ unit : Nat, unitsPerOne = Nat.pow 2 unit := ⟨1074, by decide +kernel⟩
  rw [hunits] at h ⊢
  rcases rank_cases rank with hrank | ⟨k, m, hm, rfl⟩
  · rw [units_of_lt hrank] at h
    have hle : binade ≤ binade * Nat.pow 2 unit := Nat.le_mul_of_pos_right _ (pow_two_pos unit)
    omega
  · rw [units_binade hm] at h ⊢
    have hlt : binade * Nat.pow 2 unit < binade * Nat.pow 2 (k + 1) := calc
      binade * Nat.pow 2 unit
      _ ≤ (binade + m) * Nat.pow 2 k := h
      _ < (binade * 2) * Nat.pow 2 k := Nat.mul_lt_mul_of_pos_right (by omega) (pow_two_pos k)
      _ = binade * Nat.pow 2 (k + 1) := by
        rw [Nat.mul_assoc, Nat.mul_comm 2]
        rfl
    have hexponent : unit < k + 1 :=
      (Nat.pow_lt_pow_iff_right (by decide)).1 (Nat.lt_of_mul_lt_mul_left hlt)
    exact Nat.dvd_mul_left_of_dvd (Nat.pow_dvd_pow 2 (Nat.le_of_lt_succ hexponent)) _

theorem unitsPerOne_dvd_scaled_ofInt (n : Int) : (unitsPerOne : Int) ∣ (ofInt n).scaled := by
  by_cases h : n.natAbs < binade
  · rw [scaled_ofInt_of_lt (by omega)]
    exact Int.dvd_mul_left ..
  have hpos : (ofInt binade).scaled = binade * unitsPerOne := scaled_ofInt_of_lt (by decide)
  have hneg : (ofInt (-binade)).scaled = -binade * unitsPerOne := scaled_ofInt_of_lt (by decide)
  have hgreat : binade * unitsPerOne ≤ units (ofInt n).rank := by
    rw [← natAbs_scaled]
    rcases Int.lt_or_le n 0 with hn | hn
    · have := ofInt_mono (show n ≤ -binade by omega)
      rw [hneg, Int.neg_mul] at this
      omega
    · have := ofInt_mono (show binade ≤ n by omega)
      rw [hpos] at this
      omega
  rw [← Int.dvd_natAbs, natAbs_scaled]
  exact Int.natCast_dvd_natCast.2 (unitsPerOne_dvd_units hgreat)

end RecordQuery.Double

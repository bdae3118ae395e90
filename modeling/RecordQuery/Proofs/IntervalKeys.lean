import RecordQuery.Bucket.Grouping
import RecordQuery.Proofs.DoublesAsNumbers

/-!
# Interval keys of integers

An integer is made a double to be stepped down to a multiple of a width, and the multiple is turned
into a number again. Each of these can change it: as a double the integer may lie between other
multiples of the width, and the multiple may be none of a double, or `Word.half`, which becomes the
integer before it (`Number.value_ofDouble`). Where neither happens, and for all integers up to
`2 ^ 53` in magnitude, the key is the integer less its remainder (`Level.keyOf_integer_of_interval`).
-/

namespace RecordQuery

open Json

namespace Double

variable {d width : Double} {m n w : Int}

/-! ## Integers as doubles -/

/-- The integer that an integer is as a double. -/
def rounded (n : Int) : Int :=
  (ofInt n).truncate

theorem scaled_ofInt_eq_rounded (n : Int) : (ofInt n).scaled = rounded n * unitsPerOne :=
  (Int.tdiv_mul_cancel (unitsPerOne_dvd_scaled_ofInt n)).symm

theorem value_ofInt (n : Int) : (ofInt n).value = rounded n :=
  value_of_scaled (scaled_ofInt_eq_rounded n)

theorem rounded_mono (h : m ≤ n) : rounded m ≤ rounded n := by
  have hscaled := ofInt_mono h
  rw [scaled_ofInt_eq_rounded, scaled_ofInt_eq_rounded] at hscaled
  exact Int.le_of_mul_le_mul_right hscaled (Int.natCast_pos.2 unitsPerOne_pos)

theorem rounded_of_le (h : n.natAbs ≤ 2 * binade) : rounded n = n := by
  have hvalue := value_ofInt_of_le h
  rw [value_ofInt] at hvalue
  exact_mod_cast hvalue

theorem rounded_half_sub_one : rounded (Word.half - 1) = Word.half := by
  rw [rounded, truncate, scaled_ofInt_half_sub_one]
  exact Int.mul_tdiv_cancel _ (Int.natCast_pos.2 unitsPerOne_pos).ne'

theorem rounded_half : rounded Word.half = Word.half := by
  decide +kernel

theorem stepDown_of_scaled (hd : d.scaled = n * unitsPerOne) (hw : width.scaled = w * unitsPerOne) :
    d.stepDown width = ofInt (n - n.tmod w) := by
  have hpos : (0 : Int) < unitsPerOne := Int.natCast_pos.2 unitsPerOne_pos
  rw [stepDown, hd, hw, ofInt_eq_ofScaled, Int.mul_comm n, Int.mul_comm w,
    Int.mul_tmod_mul_of_pos _ _ hpos, ← Int.mul_sub, Int.mul_comm]

end Double

namespace Json.Number

/-! ## Doubles as numbers -/

theorem value_ofDouble_ofInt (n : Int) : (ofDouble (Double.ofInt n)).value =
    ((if Double.rounded n = Word.half then Word.half - 1 else Double.rounded n : Int) : ℚ) := by
  have hend : (Double.rounded n : ℚ) = Word.half ↔ Double.rounded n = Word.half := by
    exact_mod_cast Iff.rfl
  rw [value_ofDouble, Double.value_ofInt]
  by_cases h : Double.rounded n = Word.half
  · rw [if_pos h, if_pos (hend.2 h)]
  · rw [if_neg h, if_neg (mt hend.1 h)]

/-- An integer is itself again after it was a double: it is the value of one, and not `Word.half`,
or it is the integer before that. -/
def KeptByDoubles (n : Int) : Prop :=
  n = Word.half - 1 ∨ n ≠ Word.half ∧ Double.rounded n = n

instance (n : Int) : Decidable (KeptByDoubles n) :=
  inferInstanceAs (Decidable (_ ∨ _))

theorem value_ofDouble_ofInt_eq_iff (n : Int) :
    (ofDouble (Double.ofInt n)).value = n ↔ KeptByDoubles n := by
  rw [value_ofDouble_ofInt, Int.cast_inj, KeptByDoubles]
  split_ifs with hend
  · constructor
    · exact fun h => .inl h.symm
    · rintro (rfl | ⟨hne, hkept⟩)
      · rfl
      · exact absurd (hkept.symm.trans hend) hne
  · constructor
    · intro hkept
      refine .inr ⟨?_, hkept⟩
      rintro rfl
      exact hend Double.rounded_half
    · rintro (rfl | ⟨-, hkept⟩)
      · exact absurd Double.rounded_half_sub_one hend
      · exact hkept

theorem keptByDoubles_of_le {n : Int} (h : n.natAbs ≤ 2 * Double.binade) : KeptByDoubles n := by
  refine .inr ⟨?_, Double.rounded_of_le h⟩
  rintro rfl
  exact absurd h (by decide)

end Json.Number

/-! ## Multiples of a width -/

section Multiples

variable {v w q : Int}

theorem sub_tmod_eq (v w : Int) : v - v.tmod w = w * v.tdiv w := by
  have := Int.mul_tdiv_add_tmod v w
  omega

theorem le_tdiv_of_mul_le (hw : 0 < w) (h : w * q ≤ v) : q ≤ v.tdiv w := by
  have hq := Int.tdiv_le_tdiv hw h
  rwa [Int.mul_tdiv_cancel_left _ hw.ne'] at hq

theorem tdiv_le_of_le_mul (hw : 0 < w) (h : v ≤ w * q) : v.tdiv w ≤ q := by
  have hq := Int.tdiv_le_tdiv hw h
  rwa [Int.mul_tdiv_cancel_left _ hw.ne'] at hq

theorem mul_tdiv_le (hw : 0 < w) (h : 0 < v.tdiv w) : w * v.tdiv w ≤ v := by
  have hv : 0 ≤ v := by
    by_contra hneg
    have hzero : v ≤ w * 0 := by omega
    have := tdiv_le_of_le_mul hw hzero
    omega
  have := Int.tmod_nonneg w hv
  have := Int.mul_tdiv_add_tmod v w
  omega

theorem rounded_le_of_tdiv_lt (hw : 0 < w) (h : v.tdiv w < q) :
    Double.rounded v ≤ Double.rounded (w * q) := by
  refine Double.rounded_mono (Int.le_of_not_gt fun hlt => ?_)
  have := le_tdiv_of_mul_le hw hlt.le
  omega

theorem le_rounded_of_lt_tdiv (hw : 0 < w) (h : q < v.tdiv w) :
    Double.rounded (w * q) ≤ Double.rounded v := by
  refine Double.rounded_mono (Int.le_of_not_gt fun hlt => ?_)
  have := tdiv_le_of_le_mul hw hlt.le
  omega

/-- Rounding an integer past a multiple of the width is seen in the key, whatever the multiple is
rounded to: rounding keeps the order. Only the greatest signed word is rounded up by one and is
taken down again. -/
theorem tdiv_rounded_of_value_eq (hw : 0 < w)
    (h : (Number.ofDouble (Double.ofInt (w * (Double.rounded v).tdiv w))).value
      = (w * v.tdiv w : Int)) :
    (Double.rounded v).tdiv w = v.tdiv w ∨ v = Word.half - 1 ∧ w = 1 := by
  rw [Number.value_ofDouble_ofInt, Int.cast_inj] at h
  rcases lt_trichotomy (v.tdiv w) ((Double.rounded v).tdiv w) with hlt | heq | hgt
  · have hround := rounded_le_of_tdiv_lt hw hlt
    split_ifs at h with hend
    · have hpos : 0 < v.tdiv w := pos_of_mul_pos_right (h ▸ by decide) hw.le
      have hstep : w * v.tdiv w + w ≤ w * (Double.rounded v).tdiv w := by
        rw [← mul_add_one]
        exact Int.mul_le_mul_of_nonneg_left hlt hw.le
      -- the next multiple is no greater than `Word.half`
      have := mul_tdiv_le hw (hpos.trans hlt)
      obtain rfl : w = 1 := by omega
      rw [Int.one_mul, Int.tdiv_one] at h
      exact .inr ⟨h.symm, rfl⟩
    · have := tdiv_le_of_le_mul hw (hround.trans_eq h)
      omega
  · exact .inl heq.symm
  · have hround := le_rounded_of_lt_tdiv hw hgt
    have hmultiple : w * v.tdiv w ≤ Double.rounded v := by
      split_ifs at h <;> omega
    have := le_tdiv_of_mul_le hw hmultiple
    omega

theorem value_stepped_iff (v : Int) (hw : 0 < w) :
    (Number.ofDouble (Double.ofInt (Double.rounded v - (Double.rounded v).tmod w))).value
        = (v - v.tmod w : Int) ↔
      (Double.rounded v).tdiv w = v.tdiv w ∧ Number.KeptByDoubles (v - v.tmod w) ∨
        v = Word.half - 1 ∧ w = 1 := by
  rw [sub_tmod_eq, sub_tmod_eq]
  constructor
  · intro h
    rcases tdiv_rounded_of_value_eq hw h with hstep | hlast
    · rw [hstep] at h
      exact .inl ⟨hstep, (Number.value_ofDouble_ofInt_eq_iff _).1 h⟩
    · exact .inr hlast
  · rintro (⟨hstep, hkept⟩ | ⟨rfl, rfl⟩)
    · rw [hstep]
      exact (Number.value_ofDouble_ofInt_eq_iff _).2 hkept
    · rw [Double.rounded_half_sub_one, Int.tdiv_one, Int.tdiv_one, Int.one_mul, Int.one_mul,
        Number.value_ofDouble_ofInt, if_pos Double.rounded_half]

end Multiples

namespace Level

variable {level : Level} {width : Double} {w v : Int}

theorem keyOf_integer (hunit : level.unit = none) (hinterval : level.interval = some (.finite width))
    (hwidth : width.value = w) (hpos : 0 < w) (settings : Settings) (fits : Number.Fits v) :
    level.keyOf settings (some (.number (.integer v fits))) = some (.number
      (.ofDouble (.ofInt (Double.rounded v - (Double.rounded v).tmod w)))) := by
  have hscaled := Double.value_eq_intCast.1 hwidth
  have hne : width.scaled ≠ 0 := by
    rw [hscaled]
    exact mul_ne_zero hpos.ne' (Int.natCast_pos.2 Double.unitsPerOne_pos).ne'
  have hstep : (Extended.finite width).stepDown (Double.ofInt v)
      = .finite (.ofInt (Double.rounded v - (Double.rounded v).tmod w)) := by
    rw [Extended.stepDown, if_neg hne,
      Double.stepDown_of_scaled (Double.scaled_ofInt_eq_rounded v) hscaled]
  have hkey : level.keyOf settings (some (.number (.integer v fits)))
      = intervalKey (.finite width) (.number (.integer v fits)) := by
    rw [keyOf, Option.filter_some_pos rfl, Option.bind_eq_bind, Option.bind_some, keyOfValue, hunit,
      hinterval]
  rw [hkey, intervalKey, Number.toDouble, hstep]
  rfl

/-- The key of an integer at an interval of whole width is a number: what the rounded integer leaves
when its remainder is taken away, rounded again, or one less where that is `Word.half`. This is the
integer less its remainder toward zero if and only if the rounded integer lies between the same
multiples of the width, and the multiple is kept by doubles; or it is the greatest signed word, at
the width one. So it is for all integers up to `2 ^ 53` in magnitude. -/
theorem keyOf_integer_of_interval (hunit : level.unit = none)
    (hinterval : level.interval = some (.finite width)) (hwidth : width.value = w) (hpos : 0 < w)
    (settings : Settings) (fits : Number.Fits v) :
    let near := Double.rounded v
    let start := Double.rounded (near - near.tmod w)
    ∃ key : Number,
      level.keyOf settings (some (.number (.integer v fits))) = some (.number key) ∧
      key.value = ((if start = Word.half then Word.half - 1 else start : Int) : ℚ) ∧
      (key.value = (v - v.tmod w : Int) ↔
        near.tdiv w = v.tdiv w ∧ Number.KeptByDoubles (v - v.tmod w) ∨
          v = Word.half - 1 ∧ w = 1) ∧
      (v.natAbs ≤ 2 ^ 53 → key.value = (v - v.tmod w : Int)) := by
  intro near start
  refine ⟨_, keyOf_integer hunit hinterval hwidth hpos settings fits,
    Number.value_ofDouble_ofInt _, value_stepped_iff v hpos, fun hsmall => ?_⟩
  have hmultiple : (v - v.tmod w).natAbs ≤ 2 * Double.binade := by
    rw [sub_tmod_eq, Int.natAbs_mul, Int.natAbs_tdiv]
    exact (Nat.mul_div_le _ _).trans hsmall
  rw [value_stepped_iff v hpos, Double.rounded_of_le hsmall]
  exact .inl ⟨rfl, Number.keptByDoubles_of_le hmultiple⟩

/-- The integer `2 ^ 53 + 1` is rounded to `2 ^ 53`, which is the multiple of two that it is keyed
by. -/
theorem keyOf_integer_of_interval_odd :
    let width := Double.ofInt 2
    let level : Level := { field := ⟨"n"⟩, interval := some (.finite width) }
    let settings := Settings.ofNow ⟨0, 0, by decide⟩
    (level.unit = none ∧ level.interval = some (.finite width) ∧ width.value = (2 : Int)) ∧
    (∃ key : Number, level.keyOf settings
        (some (.number (.integer 9007199254740993 (by decide)))) = some (.number key) ∧
      key.value = (9007199254740992 : Int)) ∧
    ∃ key : Number, level.keyOf settings (some (.number (.integer (-7) (by decide))))
        = some (.number key) ∧
      key.value = (-6 : Int) := by
  intro width level settings
  have hunit : level.unit = none := rfl
  have hinterval : level.interval = some (.finite width) := rfl
  have hwidth : width.value = (2 : Int) := Double.value_ofInt_of_le (by decide)
  obtain ⟨great, hgreat, -, hexact, -⟩ := keyOf_integer_of_interval hunit hinterval hwidth
    (by decide) settings (v := 9007199254740993) (by decide)
  obtain ⟨small, hsmall, -, -, hvalue⟩ := keyOf_integer_of_interval hunit hinterval hwidth
    (by decide) settings (v := -7) (by decide)
  exact ⟨⟨hunit, hinterval, hwidth⟩, ⟨great, hgreat, hexact.2 (by decide +kernel)⟩, small, hsmall,
    hvalue (by decide)⟩

/-- The integer `2 ^ 53 + 1` is rounded, the multiple `2 ^ 60 - 1` of three is, and `2 ^ 63` is taken
down by one. -/
theorem keyOf_integer_ne_multiple :
    let level (w : Int) : Level := { field := ⟨"n"⟩, interval := some (.finite (Double.ofInt w)) }
    let settings := Settings.ofNow ⟨0, 0, by decide⟩
    let key (w v : Int) (fits : Number.Fits v) :=
      (level w).keyOf settings (some (.number (.integer v fits)))
    (key 1 9007199254740993 (by decide) = some (.int 9007199254740992) ∧
      (9007199254740993 : Int) - (9007199254740993 : Int).tmod 1 = 9007199254740993) ∧
    (key 3 1152921504606846976 (by decide) = some (.int 1152921504606846976) ∧
      (1152921504606846976 : Int) - (1152921504606846976 : Int).tmod 3 = 1152921504606846975) ∧
    (key 1 9223372036854775808 (by decide) = some (.int 9223372036854775807) ∧
      (9223372036854775808 : Int) - (9223372036854775808 : Int).tmod 1 = 9223372036854775808) := by
  intro level settings key
  have hkey : ∀ (w v k : Int) (fits : Number.Fits v), w.natAbs ≤ 2 * Double.binade → 0 < w →
      Number.ofDouble (.ofInt (Double.rounded v - (Double.rounded v).tmod w)) = .ofInt k →
        key w v fits = some (.int k) := by
    intro w v k fits hw hpos hk
    rw [Value.int, ← hk]
    exact keyOf_integer rfl rfl (Double.value_ofInt_of_le hw) hpos settings fits
  refine ⟨⟨?_, by decide⟩, ⟨?_, by decide⟩, ?_, by decide⟩
  all_goals exact hkey _ _ _ _ (by decide) (by decide) (by decide +kernel)

end Level

end RecordQuery

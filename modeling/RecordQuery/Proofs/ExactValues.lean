import Mathlib.Algebra.Order.Field.Basic
import Mathlib.Algebra.Order.Field.Rat
import RecordQuery.Proofs.NumberOrder
import RecordQuery.Proofs.ValueOrder

/-!
# Numbers and their exact values

Numbers of all forms stand for rational numbers (`Number.value`). The order by which numbers are
sorted is that of these values, except that negative zero comes before the other zeros
(`Value.sortCompare_numbers`): two numbers that are rounded to one double are whole, unless both are
this double, so that their integer parts decide. Conditions compare an integer with a double after
rounding the integer, so that it is level with a double of another value that it is rounded to. In
all other cases they compare by value (`Number.compare_exact`).
-/

namespace RecordQuery

open Json

namespace Double

variable {d e : Double}

/-- The rational number that a double stands for. -/
def value (d : Double) : ℚ :=
  d.scaled / unitsPerOne

theorem unitsPerOne_cast_ne_zero : (unitsPerOne : ℚ) ≠ 0 :=
  Nat.cast_ne_zero.2 unitsPerOne_pos.ne'

theorem value_of_scaled {i : Int} (h : d.scaled = i * unitsPerOne) : d.value = i := by
  rw [value, h, Int.cast_mul, Int.cast_natCast, mul_div_cancel_right₀ _ unitsPerOne_cast_ne_zero]

theorem value_eq_truncate (h : (unitsPerOne : Int) ∣ d.scaled) : d.value = d.truncate :=
  value_of_scaled (Int.tdiv_mul_cancel h).symm

theorem value_ofInt_of_le {i : Int} (h : i.natAbs ≤ 2 * binade) : (ofInt i).value = i := by
  refine value_of_scaled ?_
  rcases Nat.lt_or_eq_of_le h with hlt | hend
  · exact scaled_ofInt_of_lt hlt
  · rcases Int.natAbs_eq i with hi | hi <;> rw [hi, hend] <;> decide +kernel

theorem place_lt_of_scaled_lt (h : d.scaled < e.scaled) : d.place < e.place := by
  have hrank : ∀ {a b : Nat}, units a < units b → a < b := units_strictMono.lt_iff_lt.1
  rw [scaled, scaled] at h
  rw [place, place]
  rcases hd : d.negative with _ | _ <;> rcases he : e.negative with _ | _ <;>
    rw [hd, he] at h <;> simp only [Bool.false_eq_true, if_false, if_true] at h ⊢
  · have := hrank (a := d.rank) (b := e.rank) (by omega)
    omega
  · omega
  · omega
  · have := hrank (a := e.rank) (b := d.rank) (by omega)
    omega

end Double

namespace Json.Number

variable {m n : Number}

/-- The rational number that a number of any form stands for. -/
def value : Number → ℚ
  | integer n _ => n
  | real d => d.value

/-- The value in units, as of doubles. -/
def scaled : Number → Int
  | integer n _ => n * Double.unitsPerOne
  | real d => d.scaled

theorem compare_intCast (i j : Int) : Ord.compare (i : ℚ) (j : ℚ) = Ord.compare i j := by
  rw [← cmp_eq_compare, ← cmp_eq_compare, Int.cast_strictMono.cmp_map_eq]

theorem value_eq_div (n : Number) : n.value = n.scaled / Double.unitsPerOne := by
  rcases n with ⟨i, _⟩ | d
  · rw [value, scaled, Int.cast_mul, Int.cast_natCast,
      mul_div_cancel_right₀ _ Double.unitsPerOne_cast_ne_zero]
  · rfl

theorem value_lt_iff : m.value < n.value ↔ m.scaled < n.scaled := by
  have hpos : (0 : ℚ) < Double.unitsPerOne := Nat.cast_pos.2 Double.unitsPerOne_pos
  rw [value_eq_div, value_eq_div, div_lt_div_iff_of_pos_right hpos, Int.cast_lt]

theorem value_eq_iff : m.value = n.value ↔ m.scaled = n.scaled := by
  rw [le_antisymm_iff, le_antisymm_iff, ← not_lt, ← not_lt, value_lt_iff, value_lt_iff, not_lt,
    not_lt]

/-! ## Rounding -/

theorem toDouble_mono (h : m.scaled ≤ n.scaled) : m.toDouble.scaled ≤ n.toDouble.scaled := by
  rcases m with ⟨i, _⟩ | d <;> rcases n with ⟨j, _⟩ | e
  · have hpos : (0 : Int) < Double.unitsPerOne := Int.natCast_pos.2 Double.unitsPerOne_pos
    exact Double.ofInt_mono (Int.le_of_mul_le_mul_right h hpos)
  · exact Double.ofInt_le h
  · exact Double.le_ofInt h
  · exact h

theorem value_lt_of_toDouble_lt (h : m.toDouble.scaled < n.toDouble.scaled) :
    m.value < n.value :=
  value_lt_iff.2 (lt_of_not_ge fun hle => absurd (toDouble_mono hle) (Int.not_le.2 h))

/-- Numbers that are rounded to doubles of different values are compared by value. -/
theorem compare_of_toDouble_ne (h : m.toDouble.scaled ≠ n.toDouble.scaled) :
    m.compare n = Ord.compare m.value n.value := by
  rcases lt_or_gt_of_ne h with hlt | hgt
  · rw [compare_of_scaled_lt hlt, compare_lt_iff_lt.2 (value_lt_of_toDouble_lt hlt)]
  · rw [compare_swap, compare_of_scaled_lt hgt,
      compare_gt_iff_gt.2 (value_lt_of_toDouble_lt hgt)]
    rfl

/-! ## Comparing -/

/-- An integer is rounded to a double of another value. -/
def RoundedTo (i : Int) (d : Double) : Prop :=
  (Double.ofInt i).value = d.value ∧ (i : ℚ) ≠ d.value

/-- One of two numbers is an integer and the other a double of another value that it is rounded
to. -/
def LevelByRounding : Number → Number → Prop
  | integer i _, real d => RoundedTo i d
  | real d, integer i _ => RoundedTo i d
  | _, _ => False

theorem value_ofInt_eq_iff {i : Int} {d : Double} :
    (Double.ofInt i).value = d.value ↔ (Double.ofInt i).scaled = d.scaled :=
  value_eq_iff (m := real (Double.ofInt i)) (n := real d)

theorem compare_value_or_eq (m n : Number) :
    m.compare n = Ord.compare m.value n.value ∨ m.compare n = .eq := by
  by_cases h : m.toDouble.scaled = n.toDouble.scaled
  · rcases m with ⟨i, _⟩ | d <;> rcases n with ⟨j, _⟩ | e
    · exact .inl (compare_intCast i j).symm
    all_goals exact .inr (compare_eq_iff_eq.2 h)
  · exact .inl (compare_of_toDouble_ne h)

theorem levelByRounding_iff : LevelByRounding m n ↔ m.compare n = .eq ∧ m.value ≠ n.value := by
  rcases m with ⟨i, _⟩ | d <;> rcases n with ⟨j, _⟩ | e
  · rw [compare_integers]
    refine iff_of_false not_false ?_
    rintro ⟨rfl, hne⟩
    exact hne rfl
  · rw [compare_real]
    exact and_congr_left' value_ofInt_eq_iff
  · rw [real_compare, eq_comm, ne_comm]
    exact and_congr_left' value_ofInt_eq_iff
  · rw [compare_real, Ne, value_eq_iff]
    exact iff_of_false not_false fun h => h.2 h.1

theorem compare_eq_value_iff :
    m.compare n = Ord.compare m.value n.value ↔ ¬ LevelByRounding m n := by
  rw [levelByRounding_iff, not_and_not_right]
  constructor
  · intro h heq
    exact compare_eq_iff_eq.1 (h.symm.trans heq)
  · intro h
    rcases compare_value_or_eq m n with hexact | heq
    · exact hexact
    · rw [heq, compare_eq_iff_eq.2 (h heq)]

theorem strictEq_iff : (Value.number m).strictEq (.number n) = true ↔
    m.value = n.value ∨ LevelByRounding m n := by
  rw [levelByRounding_iff, Value.strictEq, beq_iff_eq]
  constructor
  · intro heq
    exact or_iff_not_imp_left.2 fun hne => ⟨heq, hne⟩
  · rintro (hvalue | ⟨heq, -⟩)
    · rcases compare_value_or_eq m n with hexact | heq
      · rw [hexact, compare_eq_iff_eq.2 hvalue]
      · exact heq
    · exact heq

theorem RoundedTo.great {i : Int} {d : Double} (h : RoundedTo i d) : 2 ^ 53 < i.natAbs := by
  by_contra hle
  exact h.2 ((Double.value_ofInt_of_le (Nat.le_of_not_lt hle)).symm.trans h.1)

theorem toDouble_eq_of_compare_eq (h : m.compare n = .eq) :
    m.toDouble.scaled = n.toDouble.scaled := by
  rcases m with ⟨i, _⟩ | d
  · rcases n with ⟨j, _⟩ | e
    · obtain rfl := compare_integers.1 h
      rfl
    · exact (compare_real _ _).1 h
  · exact (real_compare _ _).1 h

/-- Two numbers that are level with a third one are level with each other, unless they are different
integers that are rounded to it. -/
theorem compare_eq_trans {k : Number} (hmn : m.compare n = .eq) (hnk : n.compare k = .eq) :
    m.compare k = .eq ∨ ∃ i fits j fits' d, m = integer i fits ∧ k = integer j fits' ∧ n = real d ∧
      (Double.ofInt i).value = d.value ∧ (Double.ofInt j).value = d.value := by
  have hdouble := (toDouble_eq_of_compare_eq hmn).trans (toDouble_eq_of_compare_eq hnk)
  rcases m with ⟨i, fits⟩ | d
  · rcases k with ⟨j, fits'⟩ | e
    · rcases n with ⟨l, _⟩ | d
      · obtain rfl := compare_integers.1 hmn
        exact .inl hnk
      · refine .inr ⟨i, fits, j, fits', d, rfl, rfl, rfl, ?_, ?_⟩
        · exact value_ofInt_eq_iff.2 ((compare_real _ _).1 hmn)
        · exact value_ofInt_eq_iff.2 ((real_compare _ _).1 hnk).symm
    · exact .inl ((compare_real _ _).2 hdouble)
  · exact .inl ((real_compare _ _).2 hdouble)

/-- Numbers are equal to themselves and both ways round, but two integers can be equal to one double
that both are rounded to. -/
theorem equivalence_strictEq_iff (S : Set Number) :
    (Equivalence fun a b : S => (Value.number a).strictEq (.number b) = true) ↔
      ∀ i fits j fits' d, integer i fits ∈ S → integer j fits' ∈ S → real d ∈ S →
        (Double.ofInt i).value = d.value → (Double.ofInt j).value = d.value → i = j := by
  have hstrict : ∀ a b : Number, (Value.number a).strictEq (.number b) = true ↔
      a.compare b = .eq := fun _ _ => beq_iff_eq
  simp only [hstrict]
  constructor
  · intro h i fits j fits' d hi hj hd hround hround'
    have hid : (integer i fits).compare (real d) = .eq :=
      (compare_real _ _).2 (value_ofInt_eq_iff.1 hround)
    have hdj : (real d).compare (integer j fits') = .eq :=
      (real_compare _ _).2 (value_ofInt_eq_iff.1 hround').symm
    exact compare_integers.1 (h.trans (x := ⟨_, hi⟩) (y := ⟨_, hd⟩) (z := ⟨_, hj⟩) hid hdj)
  · intro h
    refine ⟨fun a => ?_, fun {a b} hab => ?_, fun {a b c} hab hbc => ?_⟩
    · exact (hstrict a a).1 (strictEq_iff.2 (.inl rfl))
    · rw [compare_swap, hab]
      rfl
    · rcases compare_eq_trans hab hbc with
        hac | ⟨i, fits, j, fits', d, ha, hc, hb, hround, hround'⟩
      · exact hac
      · obtain rfl := h i fits j fits' d (ha ▸ a.2) (hc ▸ c.2) (hb ▸ b.2) hround hround'
        rw [ha, hc, compare_integers]

/-- Comparing two numbers gives the order of their exact values unless they are level by rounding,
which takes an integer beyond `2 ^ 53`. So numbers are strictly equal if and only if their values
are equal or they are level by rounding, and strict equality is an equivalence on a set of numbers
if and only if no double of the set is that of two integers of it. -/
theorem compare_exact (m n : Number) :
    (m.compare n = Ord.compare m.value n.value ↔ ¬ LevelByRounding m n) ∧
    (LevelByRounding m n → m.compare n = .eq) ∧
    (∀ i d, RoundedTo i d → 2 ^ 53 < i.natAbs) ∧
    ((Value.number m).strictEq (.number n) = true ↔ m.value = n.value ∨ LevelByRounding m n) ∧
    ∀ S : Set Number,
      (Equivalence fun a b : S => (Value.number a).strictEq (.number b) = true) ↔
        ∀ i fits j fits' d, integer i fits ∈ S → integer j fits' ∈ S → real d ∈ S →
          (Double.ofInt i).value = d.value → (Double.ofInt j).value = d.value → i = j :=
  ⟨compare_eq_value_iff, fun h => (levelByRounding_iff.1 h).1, fun _ _ => RoundedTo.great,
    strictEq_iff, equivalence_strictEq_iff⟩

/-- The integer `2 ^ 53 + 1` is level with the double of `2 ^ 53`. -/
theorem compare_exact_great :
    let odd : Number := .integer 9007199254740993 (by decide)
    let even : Number := .integer 9007199254740992 (by decide)
    let d := Double.ofInt 9007199254740992
    LevelByRounding odd (real d) ∧ odd.compare (real d) = .eq ∧
      RoundedTo 9007199254740993 d ∧ 2 ^ 53 < (9007199254740993 : Int).natAbs ∧
      Equivalence fun a b : ({even, real d} : Set Number) =>
        (Value.number a).strictEq (.number b) = true := by
  intro odd even d
  obtain ⟨-, hlevel, hgreat, -, hequivalence⟩ := compare_exact odd (real d)
  have hodd : LevelByRounding odd (real d) := by
    rw [levelByRounding_iff, Ne, value_eq_iff]
    decide +kernel
  refine ⟨hodd, hlevel hodd, hodd, hgreat _ d hodd, (hequivalence _).2 ?_⟩
  intro i fits j fits' e hi hj _ _ _
  have heven : ∀ k fits, integer k fits ∈ ({even, real d} : Set Number) → k = 9007199254740992 := by
    intro k fits hk
    rcases hk with hk | hk
    · exact Number.integer.inj hk
    · cases hk
  rw [heven i fits hi, heven j fits' hj]

/-- It is not of the same value, nor equal to the integer `2 ^ 53`, which is. -/
theorem compare_not_exact :
    let odd : Number := .integer 9007199254740993 (by decide)
    let even : Number := .integer 9007199254740992 (by decide)
    let d : Number := real (Double.ofInt 9007199254740992)
    odd.compare d = .eq ∧ d.value < odd.value ∧ (Value.number even).strictEq (.number d) = true ∧
      (Value.number d).strictEq (.number odd) = true ∧
      ¬ (Value.number even).strictEq (.number odd) = true := by
  intro odd even d
  rw [value_lt_iff]
  decide +kernel

/-! ## Sorting -/

def negativeZero : Number :=
  real (Double.zero true)

/-- Negative zero and a zero that is not negative. -/
def ZerosApart (m n : Number) : Prop :=
  m = negativeZero ∧ n.value = 0 ∧ n ≠ negativeZero

instance : Decidable (ZerosApart m n) :=
  inferInstanceAs (Decidable (_ ∧ _ ∧ _))

theorem value_eq_zero_iff : m.value = 0 ↔ m.toDouble.scaled = 0 := by
  rcases m with ⟨i, _⟩ | d
  · exact Int.cast_eq_zero.trans Double.scaled_ofInt_eq_zero.symm
  · rw [value, Double.value, div_eq_zero_iff, or_iff_left Double.unitsPerOne_cast_ne_zero]
    exact Int.cast_eq_zero

theorem eq_negativeZero_iff : m = negativeZero ↔
    m.toDouble.scaled = 0 ∧ m.toDouble.negative = true := by
  constructor
  · rintro rfl
    decide +kernel
  · rintro ⟨hzero, hneg⟩
    rcases m with ⟨i, _⟩ | d
    · obtain rfl := Double.scaled_ofInt_eq_zero.1 hzero
      cases hneg
    · exact congrArg real (Double.eq_of_rank_eq hneg (Double.scaled_eq_zero.1 hzero))

theorem zerosApart_iff : m.ZerosApart n ↔ m.toDouble.scaled = 0 ∧ n.toDouble.scaled = 0 ∧
    m.toDouble.negative = true ∧ n.toDouble.negative = false := by
  rw [ZerosApart, eq_negativeZero_iff, value_eq_zero_iff, Ne, eq_negativeZero_iff]
  grind

theorem sortCompare_of_toDouble_lt (h : m.toDouble.scaled < n.toDouble.scaled) :
    m.sortCompare n = .lt := by
  have hplace : m.toDouble.totalCompare n.toDouble = .lt :=
    compare_lt_iff_lt.2 (Double.place_lt_of_scaled_lt h)
  rw [sortCompare, hplace]
  rfl

/-- What is rounded to one double is whole, unless it is this double. -/
theorem eq_or_whole_of_toDouble_eq (h : m.toDouble = n.toDouble) :
    m = n ∨ m.value = m.wholePart ∧ n.value = n.wholePart := by
  rcases m with ⟨i, _⟩ | d <;> rcases n with ⟨j, _⟩ | e
  · exact .inr ⟨rfl, rfl⟩
  · obtain rfl : Double.ofInt i = e := h
    exact .inr ⟨rfl, Double.value_eq_truncate (Double.unitsPerOne_dvd_scaled_ofInt i)⟩
  · obtain rfl : d = Double.ofInt j := h
    exact .inr ⟨Double.value_eq_truncate (Double.unitsPerOne_dvd_scaled_ofInt j), rfl⟩
  · exact .inl (congrArg real h)

theorem sortCompare_of_toDouble_eq (h : m.toDouble = n.toDouble) :
    m.sortCompare n = Ord.compare m.value n.value := by
  rcases eq_or_whole_of_toDouble_eq h with rfl | ⟨hm, hn⟩
  · have hself : m.sortCompare m = .eq := Std.ReflCmp.compare_self
    rw [hself, Std.ReflOrd.compare_self]
  · have hplace : m.toDouble.totalCompare n.toDouble = .eq := compare_eq_iff_eq.2 (h ▸ rfl)
    rw [sortCompare, hplace, hm, hn, compare_intCast]
    rfl

/-- Two doubles of one value are the same or zeros of two signs. -/
theorem zeros_of_toDouble_ne (hscaled : m.toDouble.scaled = n.toDouble.scaled)
    (hne : m.toDouble ≠ n.toDouble) : m.ZerosApart n ∨ n.ZerosApart m := by
  have hzero : m.toDouble.scaled = 0 := by
    by_contra h
    exact hne (Double.eq_of_scaled_eq hscaled h)
  have hrank : m.toDouble.rank = n.toDouble.rank := by
    rw [Double.scaled_eq_zero.1 hzero, Double.scaled_eq_zero.1 (hscaled ▸ hzero)]
  rw [zerosApart_iff, zerosApart_iff, ← hscaled, hzero]
  rcases hm : m.toDouble.negative with _ | _ <;> rcases hn : n.toDouble.negative with _ | _
  · exact absurd (Double.eq_of_rank_eq (hm.trans hn.symm) hrank) hne
  · simp
  · simp
  · exact absurd (Double.eq_of_rank_eq (hm.trans hn.symm) hrank) hne

theorem ZerosApart.sortCompare (h : m.ZerosApart n) : m.sortCompare n = .lt := by
  obtain ⟨hm, hn, hneg, hpos⟩ := zerosApart_iff.1 h
  have hplace : m.toDouble.totalCompare n.toDouble = .lt := by
    rw [Double.totalCompare, Double.place, Double.place, hneg, hpos, Double.scaled_eq_zero.1 hm,
      Double.scaled_eq_zero.1 hn]
    rfl
  rw [Number.sortCompare, hplace]
  rfl

theorem ZerosApart.value_eq (h : m.ZerosApart n) : m.value = n.value := by
  obtain ⟨rfl, hn, -⟩ := h
  rw [hn, value_eq_zero_iff]
  decide +kernel

theorem sortCompare_of_not_apart (hmn : ¬ m.ZerosApart n) (hnm : ¬ n.ZerosApart m) :
    m.sortCompare n = Ord.compare m.value n.value := by
  rcases lt_trichotomy m.toDouble.scaled n.toDouble.scaled with hlt | heq | hgt
  · rw [sortCompare_of_toDouble_lt hlt, compare_lt_iff_lt.2 (value_lt_of_toDouble_lt hlt)]
  · by_cases hdouble : m.toDouble = n.toDouble
    · exact sortCompare_of_toDouble_eq hdouble
    · exact absurd (zeros_of_toDouble_ne heq hdouble) (not_or.2 ⟨hmn, hnm⟩)
  · have hswap : m.sortCompare n = (n.sortCompare m).swap := Std.OrientedCmp.eq_swap
    rw [hswap, sortCompare_of_toDouble_lt hgt, compare_gt_iff_gt.2 (value_lt_of_toDouble_lt hgt)]
    rfl

end Json.Number

namespace Json.Value

/-- Numbers are sorted by their exact values, and negative zero before the other zeros. -/
theorem sortCompare_numbers (m n : Number) :
    (number m).sortCompare (number n) =
      if m.ZerosApart n then .lt
      else if n.ZerosApart m then .gt
      else Ord.compare m.value n.value := by
  split_ifs with hmn hnm
  · exact hmn.sortCompare
  · exact Std.OrientedCmp.eq_swap.trans (congrArg Ordering.swap hnm.sortCompare)
  · exact Number.sortCompare_of_not_apart hmn hnm

example : (number Number.negativeZero).sortCompare (int 0) = .lt := by decide +kernel

end Json.Value

end RecordQuery

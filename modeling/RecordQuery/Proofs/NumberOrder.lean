import RecordQuery.Json.Order
import RecordQuery.Proofs.CalendarDays
import RecordQuery.Proofs.Rounding
import RecordQuery.Proofs.Truncation

/-!
# The order of numbers

Integers are compared as such and all other pairs as doubles, and as rounding keeps the order, what
is less is still a transitive relation (`Number.compare_trans`). It goes along with the order of the
milliseconds that numbers count, and two numbers with an instant between them are in order, whether
or not they stand for instants themselves (`Number.compare_of_place_between`).
-/

namespace RecordQuery

open Json

namespace Instant

/-- The place on the line of all instants, with room for a leap second in each second. -/
def place (t : Instant) : Int :=
  t.second * 2000000000 + t.nano

theorem lt_iff_place {s t : Instant} : s < t ↔ s.place < t.place := by
  have hs := s.supported.2.2.1
  have ht := t.supported.2.2.1
  rw [lt_iff, place, place]
  omega

theorem le_iff_place {s t : Instant} : s ≤ t ↔ s.place ≤ t.place := by
  have hs := s.supported.2.2.1
  have ht := t.supported.2.2.1
  rw [le_iff, place, place]
  omega

end Instant

namespace Json.Number

variable {m n : Number}

theorem compare_swap (m n : Number) : m.compare n = (n.compare m).swap := by
  have hdouble : ∀ d e : Double, d.compare e = (e.compare d).swap := fun d e =>
    Std.OrientedOrd.eq_swap
  rcases m with ⟨m, _⟩ | d <;> rcases n with ⟨n, _⟩ | e
  · exact Std.OrientedOrd.eq_swap
  all_goals exact hdouble _ _

/-! ## Level -/

theorem compare_integers {m n : Int} {fits : Fits m} {fits' : Fits n} :
    (integer m fits).compare (integer n fits') = .eq ↔ m = n :=
  compare_eq_iff_eq

theorem compare_real (a : Number) (d : Double) :
    a.compare (real d) = .eq ↔ a.toDouble.scaled = d.scaled := by
  cases a <;> exact compare_eq_iff_eq

theorem real_compare (d : Double) (a : Number) :
    (real d).compare a = .eq ↔ d.scaled = a.toDouble.scaled := by
  cases a <;> exact compare_eq_iff_eq

/-! ## Less by value -/

theorem scaled_le_of_compare_lt (h : m.compare n = .lt) :
    m.toDouble.scaled ≤ n.toDouble.scaled := by
  rcases m with ⟨m, _⟩ | d <;> rcases n with ⟨n, _⟩ | e
  · exact Double.ofInt_mono (compare_lt_iff_lt.1 h).le
  all_goals exact (compare_lt_iff_lt.1 h).le

theorem compare_of_scaled_lt (h : m.toDouble.scaled < n.toDouble.scaled) : m.compare n = .lt := by
  rcases m with ⟨m, _⟩ | d <;> rcases n with ⟨n, _⟩ | e
  · refine compare_lt_iff_lt.2 (Int.lt_of_not_ge fun hle => ?_)
    exact absurd (Double.ofInt_mono hle) (Int.not_le.2 h)
  all_goals exact compare_lt_iff_lt.2 h

theorem scaled_lt_or_integers (h : m.compare n = .lt) :
    m.toDouble.scaled < n.toDouble.scaled ∨
      ∃ i j fits fits', m = integer i fits ∧ n = integer j fits' ∧ i < j := by
  rcases m with ⟨i, fits⟩ | d <;> rcases n with ⟨j, fits'⟩ | e
  · exact .inr ⟨i, j, fits, fits', rfl, rfl, compare_lt_iff_lt.1 h⟩
  all_goals exact .inl (compare_lt_iff_lt.1 h)

/-- Integers that are rounded to one double are still in order as integers. -/
theorem compare_trans {k : Number} (hmn : m.compare n = .lt) (hnk : n.compare k = .lt) :
    m.compare k = .lt := by
  rcases scaled_lt_or_integers hmn with h | ⟨i, j, fits, fits', rfl, rfl, h⟩
  · exact compare_of_scaled_lt (h.trans_le (scaled_le_of_compare_lt hnk))
  rcases scaled_lt_or_integers hnk with h' | ⟨_, l, _, fits'', hj, rfl, h'⟩
  · exact compare_of_scaled_lt ((scaled_le_of_compare_lt hmn).trans_lt h')
  · obtain ⟨rfl, -⟩ := hj
    exact compare_lt_iff_lt.2 (h.trans h')

/-! ## Numbers as milliseconds -/

/-- The milliseconds that a number counts. -/
def millis : Number → Int
  | integer n _ => n
  | real d => d.floor

theorem instant?_eq_ofMillis? (n : Number) :
    (Value.number n).instant? = Instant.ofMillis? n.millis := by
  cases n <;> rfl

theorem le_scaled_of_le_millis {x : Int} (hx : x.natAbs < 2 * Double.binade) (h : x ≤ n.millis) :
    x * Double.unitsPerOne ≤ n.toDouble.scaled := by
  rcases n with ⟨j, _⟩ | e
  · rw [← Double.scaled_ofInt_of_lt hx]
    exact Double.ofInt_mono h
  · exact Double.le_floor_iff.1 h

theorem scaled_lt_of_millis_lt {x : Int} (hx : (x - 1).natAbs < 2 * Double.binade)
    (h : m.millis < x) : m.toDouble.scaled < x * Double.unitsPerOne := by
  rcases m with ⟨i, _⟩ | d
  · have hpos : (0 : Int) < Double.unitsPerOne := Int.natCast_pos.2 Double.unitsPerOne_pos
    calc (Double.ofInt i).scaled
      _ ≤ (Double.ofInt (x - 1)).scaled := Double.ofInt_mono (Int.le_sub_one_of_lt h)
      _ = (x - 1) * Double.unitsPerOne := Double.scaled_ofInt_of_lt hx
      _ < x * Double.unitsPerOne := Int.mul_lt_mul_of_pos_right (Int.sub_lt_self x Int.one_pos) hpos
  · exact Double.floor_lt_iff.1 h

/-- Integers are rounded to be compared with doubles, and doubles are rounded down to milliseconds,
but no number counts more milliseconds than one it is less than. -/
theorem millis_le_of_compare_lt (h : m.compare n = .lt) : m.millis ≤ n.millis := by
  by_contra hlt
  have hlt := Int.not_le.1 hlt
  rcases m with ⟨i, _⟩ | d <;> rcases n with ⟨j, _⟩ | e
  · exact absurd (compare_lt_iff_lt.1 h) (Int.not_lt.2 hlt.le)
  · have hle := Double.le_ofInt (Double.floor_lt_iff.1 hlt).le
    exact absurd (compare_lt_iff_lt.1 h) (Int.not_lt.2 hle)
  · have hle := Double.ofInt_le (Double.le_floor_iff.1 hlt.le)
    exact absurd (compare_lt_iff_lt.1 h) (Int.not_lt.2 hle)
  · have hle := (Double.floor_lt_iff.1 hlt).trans_le (Double.le_floor_iff.1 le_rfl)
    exact absurd (compare_lt_iff_lt.1 h) (Int.not_lt.2 hle.le)

/-- The place on the line of all instants of the milliseconds that a number counts, even where they
lie beyond all instants. -/
def place (n : Number) : Int :=
  n.millis / 1000 * 2000000000 + n.millis % 1000 * 1000000

theorem place_le_of_compare_lt (h : m.compare n = .lt) : m.place ≤ n.place := by
  have := millis_le_of_compare_lt h
  unfold place
  omega

theorem place_of_instant? {t : Instant} (h : (Value.number n).instant? = some t) :
    t.place = n.place := by
  rw [instant?_eq_ofMillis?, Instant.ofMillis?, Instant.of?_eq_some] at h
  obtain ⟨hsecond, hnano⟩ := h
  rw [Instant.place, place, hsecond, hnano]
  omega

/-- Milliseconds on either side of an instant are told apart by doubles, as all instants are within
`2 ^ 53` milliseconds of the first of 1970. -/
theorem compare_of_place_between {t : Instant} (hmt : m.place < t.place) (htn : t.place < n.place) :
    m.compare n = .lt := by
  have hrange : (t.second * 1000).natAbs + 1000 < 2 * Double.binade := by
    obtain ⟨hfirst, hlast, -⟩ := t.supported
    have hbinade : Double.binade = 4503599627370496 := rfl
    have := Instant.yearStart_firstYear
    have := Instant.yearStart_lastYear_succ
    omega
  obtain ⟨x, hx, hmx, hxn⟩ : ∃ x : Int, (t.second * 1000 < x ∧ x ≤ t.second * 1000 + 1000) ∧
      m.millis < x ∧ x ≤ n.millis := by
    have := t.supported.2.2.1
    refine ⟨t.second * 1000 + min (t.nano / 1000000) 999 + 1, ?_, ?_, ?_⟩
    · omega
    · unfold place Instant.place at hmt
      omega
    · unfold place Instant.place at htn
      omega
  exact compare_of_scaled_lt ((scaled_lt_of_millis_lt (by omega) hmx).trans_le
    (le_scaled_of_le_millis (by omega) hxn))

end Json.Number

end RecordQuery

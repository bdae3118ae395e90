import RecordQuery.Json.Number
import RecordQuery.Json.Reader
import RecordQuery.Proofs.ShortestDecimal

/-!
# The text of a number

The text of a number without its sign is a `Numeral`: digits, a point with digits and an exponent,
of which the last two may be missing. Reading gives the parts back (`Numeral.chars_injective`), and
they stand for the shortest decimal of the magnitude (`Numeral.exists_numeral`). As no two
magnitudes have one shortest decimal, the text of a number is the text of no other
(`Number.chars_injective`).
-/

namespace RecordQuery

namespace Text

theorem digitsValue_eq_ofDigitChars (cs : List Char) :
    digitsValue cs = Nat.ofDigitChars 10 cs 0 :=
  Nat.ofDigitChars_eq_foldl.symm

theorem digitsValue_toDigits (n : Nat) : digitsValue (Nat.toDigits 10 n) = n := by
  rw [digitsValue_eq_ofDigitChars, Nat.ofDigitChars_ten_toDigits]

theorem digitsValue_zeros_append (n : Nat) (cs : List Char) :
    digitsValue (List.replicate n '0' ++ cs) = digitsValue cs := by
  rw [digitsValue_eq_ofDigitChars, Nat.ofDigitChars_append, Nat.ofDigitChars_replicate_zero,
    Nat.mul_zero, digitsValue_eq_ofDigitChars]

theorem digitsValue_append_zeros (n : Nat) (cs : List Char) :
    digitsValue (cs ++ List.replicate n '0') = digitsValue cs * 10 ^ n := by
  rw [digitsValue_eq_ofDigitChars, Nat.ofDigitChars_append, Nat.ofDigitChars_replicate_zero,
    digitsValue_eq_ofDigitChars, Nat.mul_comm]

theorem isDigit_of_mem_toDigits {n : Nat} {c : Char} (h : c ∈ Nat.toDigits 10 n) :
    c.isDigit = true :=
  Nat.isDigit_of_mem_toDigits (by decide) (by decide) h

theorem isDigit_of_mem_zeros {n : Nat} {c : Char} (h : c ∈ List.replicate n '0') :
    c.isDigit = true := by
  rw [List.eq_of_mem_replicate h]
  rfl

/-- Reading digits stops at the first other character. -/
theorem spanDigits_append {ds rest : List Char} (hds : ∀ c ∈ ds, c.isDigit = true)
    (hrest : ∀ c ∈ rest.head?, c.isDigit = false) : spanDigits (ds ++ rest) = (ds, rest) := by
  rw [spanDigits, List.takeWhile_append_of_pos hds, List.dropWhile_append_of_pos hds]
  rcases rest with _ | ⟨c, rest⟩
  · simp
  · simp [hrest c rfl]

end Text

namespace Decimal

open Text

/-- The parts of the text of a number that has no sign. -/
structure Numeral where
  whole : List Char
  fraction : List Char
  exponent : Option Int
  whole_ne_nil : whole ≠ []
  isDigit_whole : ∀ c ∈ whole, c.isDigit = true
  isDigit_fraction : ∀ c ∈ fraction, c.isDigit = true

namespace Numeral

def pointChars (fraction : List Char) : List Char :=
  if fraction.isEmpty then [] else '.' :: fraction

def exponentChars : Option Int → List Char
  | none => []
  | some e => ['e', if e < 0 then '-' else '+'] ++ Nat.toDigits 10 e.natAbs

def chars (m : Numeral) : List Char :=
  m.whole ++ (pointChars m.fraction ++ exponentChars m.exponent)

def value (m : Numeral) : ℚ :=
  digitsValue (m.whole ++ m.fraction) * 10 ^ (m.exponent.getD 0 - m.fraction.length)

theorem head?_exponentChars {e : Option Int} {c : Char} (h : c ∈ (exponentChars e).head?) :
    c = 'e' := by
  cases e with
  | none => cases h
  | some e => exact (Option.some.inj h).symm

theorem readExponent?_exponentChars (e : Option Int) :
    Json.Tree.readExponent? (exponentChars e) = some (e, []) := by
  cases e with
  | none => rfl
  | some e =>
    have hspan : spanDigits (Nat.toDigits 10 e.natAbs ++ []) = (Nat.toDigits 10 e.natAbs, []) :=
      spanDigits_append (fun _ => isDigit_of_mem_toDigits) nofun
    rw [List.append_nil] at hspan
    have hne : (Nat.toDigits 10 e.natAbs).isEmpty = false :=
      List.isEmpty_eq_false_iff.2 Nat.toDigits_ne_nil
    by_cases he : e < 0
    · have habs : -(e.natAbs : Int) = e := by omega
      simp only [exponentChars, if_pos he, List.cons_append, List.nil_append,
        Json.Tree.readExponent?, hspan, hne, digitsValue_toDigits, habs]
      rfl
    · have habs : (e.natAbs : Int) = e := by omega
      simp only [exponentChars, if_neg he, List.cons_append, List.nil_append,
        Json.Tree.readExponent?, hspan, hne, digitsValue_toDigits, habs]
      rfl

theorem readFraction?_pointChars {fraction : List Char}
    (h : ∀ c ∈ fraction, c.isDigit = true) (e : Option Int) :
    Json.Tree.readFraction? (pointChars fraction ++ exponentChars e)
      = some (fraction, exponentChars e) := by
  rcases fraction with _ | ⟨d, ds⟩
  · rcases e with _ | e
    · rfl
    · simp [pointChars, exponentChars, Json.Tree.readFraction?]
  · have hspan : spanDigits (d :: ds ++ exponentChars e) = (d :: ds, exponentChars e) := by
      refine spanDigits_append h fun c hc => ?_
      rw [head?_exponentChars hc]
      rfl
    rw [List.cons_append] at hspan
    simp [pointChars, Json.Tree.readFraction?, hspan]

theorem head?_pointChars {fraction : List Char} {e : Option Int} {c : Char}
    (h : c ∈ (pointChars fraction ++ exponentChars e).head?) : c.isDigit = false := by
  rcases fraction with _ | ⟨d, ds⟩
  · rw [head?_exponentChars h]
    rfl
  · obtain rfl : '.' = c := Option.some.inj h
    rfl

/-- Reading a text gives back the parts that it was made of. -/
theorem chars_injective {m n : Numeral} (h : m.chars = n.chars) : m = n := by
  have hspan : spanDigits m.chars = spanDigits n.chars := congrArg spanDigits h
  rw [chars, chars, spanDigits_append m.isDigit_whole fun _ => head?_pointChars,
    spanDigits_append n.isDigit_whole fun _ => head?_pointChars] at hspan
  obtain ⟨hwhole, hrest⟩ := Prod.mk.inj hspan
  have hread := congrArg Json.Tree.readFraction? hrest
  rw [readFraction?_pointChars m.isDigit_fraction,
    readFraction?_pointChars n.isDigit_fraction] at hread
  obtain ⟨hfraction, hrest⟩ := Prod.mk.inj (Option.some.inj hread)
  have hread := congrArg Json.Tree.readExponent? hrest
  rw [readExponent?_exponentChars, readExponent?_exponentChars] at hread
  obtain ⟨hexponent, -⟩ := Prod.mk.inj (Option.some.inj hread)
  cases m
  cases n
  simp only at hwhole hfraction hexponent
  simp only [hwhole, hfraction, hexponent]

/-- The value of parts that hold the digits of a decimal with zeros after them. -/
theorem value_eq {m : Numeral} {d : Decimal} (k : Nat)
    (hdigits : digitsValue (m.whole ++ m.fraction) = d.digits * 10 ^ k)
    (hexponent : m.exponent.getD 0 - m.fraction.length = d.exponent - k) : m.value = d.value := by
  have hpow : (10 : ℚ) ^ d.exponent = 10 ^ k * 10 ^ (d.exponent - k) := by
    rw [← zpow_natCast, ← zpow_add₀ (by norm_num), add_sub_cancel]
  rw [value, hdigits, hexponent, Decimal.value, hpow]
  push_cast
  ring

section Laying

variable (d : Decimal)

theorem exists_numeral_whole (marksWhole : Bool) (h : 0 ≤ d.exponent) :
    ∃ m : Numeral, positionalChars marksWhole (Nat.toDigits 10 d.digits) d.exponent = m.chars ∧
      m.value = d.value ∧ (marksWhole = true → m.fraction ≠ []) := by
  have hwhole : ∀ c ∈ Nat.toDigits 10 d.digits ++ zeros d.exponent.toNat, c.isDigit = true :=
    fun c hc => (List.mem_append.1 hc).elim isDigit_of_mem_toDigits isDigit_of_mem_zeros
  have hne : Nat.toDigits 10 d.digits ++ zeros d.exponent.toNat ≠ [] :=
    List.append_ne_nil_of_left_ne_nil Nat.toDigits_ne_nil _
  rw [positionalChars, if_pos h]
  cases marksWhole with
  | true =>
    refine ⟨⟨_, zeros 1, none, hne, hwhole, fun c => isDigit_of_mem_zeros⟩, ?_, ?_, nofun⟩
    · simp [chars, pointChars, exponentChars, zeros]
    · refine value_eq (d.exponent.toNat + 1) ?_ ?_
      · simp only [zeros, List.append_assoc, List.replicate_append_replicate,
          digitsValue_append_zeros, digitsValue_toDigits]
      · simp only [Option.getD_none, zeros, List.length_replicate]
        omega
  | false =>
    refine ⟨⟨_, [], none, hne, hwhole, nofun⟩, ?_, ?_, nofun⟩
    · simp [chars, pointChars, exponentChars]
    · refine value_eq d.exponent.toNat ?_ ?_
      · simp only [zeros, List.append_nil, digitsValue_append_zeros, digitsValue_toDigits]
      · simp only [Option.getD_none, List.length_nil]
        omega

theorem exists_numeral_belowOne {places : Nat} (h : d.exponent < 0)
    (hplaces : (-d.exponent).toNat = places) (hshort : (Nat.toDigits 10 d.digits).length ≤ places) :
    ∃ m : Numeral, ['0', '.'] ++ zeros (places - (Nat.toDigits 10 d.digits).length) ++
        Nat.toDigits 10 d.digits = m.chars ∧ m.value = d.value ∧ m.fraction ≠ [] := by
  have hfraction : ∀ c ∈ zeros (places - (Nat.toDigits 10 d.digits).length) ++
      Nat.toDigits 10 d.digits, c.isDigit = true :=
    fun c hc => (List.mem_append.1 hc).elim isDigit_of_mem_zeros isDigit_of_mem_toDigits
  have hne : zeros (places - (Nat.toDigits 10 d.digits).length) ++ Nat.toDigits 10 d.digits ≠ [] :=
    List.append_ne_nil_of_right_ne_nil _ Nat.toDigits_ne_nil
  refine ⟨⟨zeros 1, _, none, nofun, fun c => isDigit_of_mem_zeros, hfraction⟩, ?_, ?_, hne⟩
  · simp [chars, pointChars, exponentChars, zeros]
  · refine value_eq 0 ?_ ?_
    · simp only [zeros, digitsValue_zeros_append, digitsValue_toDigits, pow_zero, mul_one]
    · simp only [Option.getD_none, zeros, List.length_append, List.length_replicate]
      omega

theorem exists_numeral_pointed {places : Nat} (h : d.exponent < 0)
    (hplaces : (-d.exponent).toNat = places) (hlong : places < (Nat.toDigits 10 d.digits).length) :
    ∃ m : Numeral,
      (Nat.toDigits 10 d.digits).take ((Nat.toDigits 10 d.digits).length - places) ++
        '.' :: (Nat.toDigits 10 d.digits).drop ((Nat.toDigits 10 d.digits).length - places)
        = m.chars ∧ m.value = d.value ∧ m.fraction ≠ [] := by
  have hvalue := digitsValue_toDigits d.digits
  have hdigit : ∀ c ∈ Nat.toDigits 10 d.digits, c.isDigit = true :=
    fun c hc => isDigit_of_mem_toDigits hc
  generalize Nat.toDigits 10 d.digits = digits at *
  obtain ⟨front, back, rfl, hback⟩ : ∃ front back, digits = front ++ back ∧ back.length = places :=
    ⟨digits.take (digits.length - places), digits.drop (digits.length - places),
      (List.take_append_drop _ _).symm, by rw [List.length_drop]; omega⟩
  have hfront : (front ++ back).length - places = front.length := by
    rw [List.length_append]
    omega
  rw [hfront, List.take_left, List.drop_left]
  rw [List.length_append] at hlong
  have hne : front ≠ [] := List.length_pos_iff.1 (by omega)
  have hne' : back ≠ [] := List.length_pos_iff.1 (by omega)
  refine ⟨⟨front, back, none, hne, fun c hc => hdigit c (List.mem_append_left _ hc),
    fun c hc => hdigit c (List.mem_append_right _ hc)⟩, ?_, ?_, hne'⟩
  · simp [chars, pointChars, exponentChars, hne']
  · refine value_eq 0 ?_ ?_
    · simp only [hvalue, pow_zero, mul_one]
    · simp only [Option.getD_none]
      omega

theorem exists_numeral_positional (marksWhole : Bool) :
    ∃ m : Numeral, positionalChars marksWhole (Nat.toDigits 10 d.digits) d.exponent = m.chars ∧
      m.value = d.value ∧ (marksWhole = true → m.fraction ≠ []) := by
  rcases Int.lt_or_le d.exponent 0 with h | h
  · rw [positionalChars, if_neg (Int.not_le.2 h)]
    simp only
    split
    · next hshort =>
      obtain ⟨m, hchars, hvalue, hmarks⟩ := exists_numeral_belowOne d h rfl hshort
      exact ⟨m, hchars, hvalue, fun _ => hmarks⟩
    · next hlong =>
      obtain ⟨m, hchars, hvalue, hmarks⟩ := exists_numeral_pointed d h rfl (Nat.not_le.1 hlong)
      exact ⟨m, hchars, hvalue, fun _ => hmarks⟩
  · exact exists_numeral_whole d marksWhole h

theorem exists_numeral_scientific :
    ∃ m : Numeral, scientificChars (Nat.toDigits 10 d.digits)
        (d.exponent + (Nat.toDigits 10 d.digits).length - 1) = m.chars ∧
      m.value = d.value ∧ m.exponent ≠ none := by
  have hvalue := digitsValue_toDigits d.digits
  have hdigit : ∀ c ∈ Nat.toDigits 10 d.digits, c.isDigit = true :=
    fun c hc => isDigit_of_mem_toDigits hc
  rcases hdigits : Nat.toDigits 10 d.digits with _ | ⟨c, cs⟩
  · exact absurd hdigits Nat.toDigits_ne_nil
  · rw [hdigits] at hvalue hdigit
    refine ⟨⟨[c], cs, some (d.exponent + (c :: cs).length - 1), nofun, ?_, ?_⟩, ?_, ?_, nofun⟩
    · simpa using hdigit c List.mem_cons_self
    · exact fun c hc => hdigit c (List.mem_cons_of_mem _ hc)
    · simp [scientificChars, chars, pointChars, exponentChars]
    · refine value_eq 0 ?_ ?_
      · simp only [List.cons_append, List.nil_append, hvalue, pow_zero, mul_one]
      · simp only [Option.getD_some, List.length_cons]
        omega

end Laying

/-- The text of a magnitude is the text of the shortest decimal, and where whole numbers are marked
it has more to it than whole digits. -/
theorem exists_numeral (layout : Layout) (rank : Nat) :
    ∃ m : Numeral, layout.magnitudeChars rank = m.chars ∧
      m.value = (shortest layout.tie rank).value ∧
      (layout.marksWhole = true → m.fraction ≠ [] ∨ m.exponent ≠ none) := by
  rw [Layout.magnitudeChars]
  split
  · obtain ⟨m, hchars, hvalue, hmarks⟩ :=
      exists_numeral_positional (shortest layout.tie rank) layout.marksWhole
    exact ⟨m, hchars, hvalue, fun h => .inl (hmarks h)⟩
  · obtain ⟨m, hchars, hvalue, hmarks⟩ := exists_numeral_scientific (shortest layout.tie rank)
    exact ⟨m, hchars, hvalue, fun _ => .inr hmarks⟩

/-! ## The characters of a text -/

/-- The characters that the text of a number is made of. -/
def isNumeralChar (c : Char) : Bool :=
  c.isDigit || c == '-' || c == '+' || c == '.' || c == 'e'

theorem isNumeralChar_of_isDigit {c : Char} (h : c.isDigit = true) : isNumeralChar c = true := by
  simp [isNumeralChar, h]

theorem isNumeralChar_of_mem_pointChars {fraction : List Char}
    (h : ∀ c ∈ fraction, c.isDigit = true) {c : Char} (hc : c ∈ pointChars fraction) :
    isNumeralChar c = true := by
  rcases fraction with _ | ⟨d, ds⟩
  · cases hc
  · rcases List.mem_cons.1 hc with rfl | hc
    · rfl
    · exact isNumeralChar_of_isDigit (h c hc)

theorem isNumeralChar_of_mem_exponentChars {e : Option Int} {c : Char}
    (hc : c ∈ exponentChars e) : isNumeralChar c = true := by
  cases e with
  | none => cases hc
  | some e =>
    rcases List.mem_append.1 hc with hc | hc
    · rcases List.mem_cons.1 hc with rfl | hc
      · rfl
      · obtain rfl := List.mem_singleton.1 hc
        split <;> rfl
    · exact isNumeralChar_of_isDigit (isDigit_of_mem_toDigits hc)

theorem isNumeralChar_of_mem_chars {m : Numeral} {c : Char} (hc : c ∈ m.chars) :
    isNumeralChar c = true := by
  rcases List.mem_append.1 hc with hc | hc
  · exact isNumeralChar_of_isDigit (m.isDigit_whole c hc)
  · exact (List.mem_append.1 hc).elim (isNumeralChar_of_mem_pointChars m.isDigit_fraction)
      isNumeralChar_of_mem_exponentChars

/-! ## Signs -/

def signed (negative : Bool) (m : Numeral) : List Char :=
  if negative then '-' :: m.chars else m.chars

theorem chars_ne_minus (m : Numeral) (cs : List Char) : m.chars ≠ '-' :: cs := by
  intro h
  rcases hwhole : m.whole with _ | ⟨c, ds⟩
  · exact m.whole_ne_nil hwhole
  · rw [chars, hwhole, List.cons_append] at h
    have hdigit := m.isDigit_whole c (hwhole ▸ List.mem_cons_self)
    rw [(List.cons.inj h).1] at hdigit
    cases hdigit

theorem signed_inj {a b : Bool} {m n : Numeral} (h : signed a m = signed b n) : a = b ∧ m = n := by
  cases a <;> cases b
  · exact ⟨rfl, chars_injective h⟩
  · exact absurd h (m.chars_ne_minus _)
  · exact absurd h.symm (n.chars_ne_minus _)
  · exact ⟨rfl, chars_injective (List.cons.inj h).2⟩

theorem isNumeralChar_of_mem_signed {negative : Bool} {m : Numeral} {c : Char}
    (hc : c ∈ signed negative m) : isNumeralChar c = true := by
  cases negative with
  | false => exact isNumeralChar_of_mem_chars hc
  | true =>
    rcases List.mem_cons.1 hc with rfl | hc
    · rfl
    · exact isNumeralChar_of_mem_chars hc

theorem signed_ne_nil (negative : Bool) (m : Numeral) : signed negative m ≠ [] := by
  cases negative with
  | false => exact List.append_ne_nil_of_left_ne_nil m.whole_ne_nil _
  | true => exact List.cons_ne_nil _ _

/-- A whole number without a sign. -/
def ofNat (n : Nat) : Numeral where
  whole := Nat.toDigits 10 n
  fraction := []
  exponent := none
  whole_ne_nil := Nat.toDigits_ne_nil
  isDigit_whole := fun _ hc => isDigit_of_mem_toDigits hc
  isDigit_fraction := nofun

theorem ofNat_injective {m n : Nat} (h : ofNat m = ofNat n) : m = n := by
  have hdigits : Nat.toDigits 10 m = Nat.toDigits 10 n := congrArg whole h
  rw [← digitsValue_toDigits m, hdigits, digitsValue_toDigits]

end Numeral

end Decimal

namespace Json.Number

open Decimal

theorem chars_integer {n : Int} (fits : Fits n) :
    (integer n fits).chars = Numeral.signed (decide (n < 0)) (.ofNat n.natAbs) := by
  simp [chars, Numeral.signed, Numeral.ofNat, Numeral.chars, Numeral.pointChars,
    Numeral.exponentChars]

/-- The text of a double has a point or an exponent. -/
theorem exists_chars_real (d : Double) : ∃ m : Numeral, (real d).chars = m.signed d.negative ∧
    m.value = (shortest layout.tie d.rank).value ∧ (m.fraction ≠ [] ∨ m.exponent ≠ none) := by
  obtain ⟨m, hchars, hvalue, hmarks⟩ := Numeral.exists_numeral layout d.rank
  refine ⟨m, ?_, hvalue, hmarks rfl⟩
  rw [chars, Layout.chars, hchars, Numeral.signed]

theorem exists_chars (n : Number) : ∃ negative m, n.chars = Numeral.signed negative m := by
  cases n with
  | integer n fits => exact ⟨_, _, chars_integer fits⟩
  | real d =>
    obtain ⟨m, hchars, -⟩ := exists_chars_real d
    exact ⟨_, m, hchars⟩

theorem chars_integer_ne_real {n : Int} (fits : Fits n) (d : Double) :
    (integer n fits).chars ≠ (real d).chars := by
  intro h
  obtain ⟨m, hchars, -, hmarks⟩ := exists_chars_real d
  rw [chars_integer, hchars] at h
  obtain ⟨-, rfl⟩ := Numeral.signed_inj h
  exact hmarks.elim (absurd rfl) (absurd rfl)

theorem chars_injective {a b : Number} (h : a.chars = b.chars) : a = b := by
  match a, b with
  | integer m fits, integer n fits' =>
    rw [chars_integer, chars_integer] at h
    obtain ⟨hsign, hdigits⟩ := Numeral.signed_inj h
    have habs := Numeral.ofNat_injective hdigits
    have hneg : m < 0 ↔ n < 0 := decide_eq_decide.1 hsign
    obtain rfl : m = n := by omega
    rfl
  | integer _ fits, real d => exact absurd h (chars_integer_ne_real fits d)
  | real d, integer _ fits => exact absurd h.symm (chars_integer_ne_real fits d)
  | real d, real e =>
    obtain ⟨m, hchars, hvalue, -⟩ := exists_chars_real d
    obtain ⟨n, hchars', hvalue', -⟩ := exists_chars_real e
    rw [hchars, hchars'] at h
    obtain ⟨hsign, rfl⟩ := Numeral.signed_inj h
    have hrank : d.rank = e.rank := rank_eq_of_value_shortest (hvalue.symm.trans hvalue')
    rw [Double.eq_of_rank_eq hsign hrank]

end Json.Number

end RecordQuery

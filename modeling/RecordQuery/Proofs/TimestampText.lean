import Mathlib.Data.Nat.Digits.Defs
import RecordQuery.Calendar.Timestamp
import RecordQuery.Proofs.CivilDates
import RecordQuery.Proofs.NumberText

/-!
# Reading what timestamps are written as

Each reader takes the part it is for off the front of a text and leaves what follows
(`readDate?_chars`, `readTime?_chars`), so that the forms of a timestamp are read part by part.
The strict form has room for a zone but not for the sign of a year, the plain forms have it the
other way round. As a timestamp is written with a zone, it is read back just if its year is written
without a sign (`Instant.ofText?_toText`). With a sign or without, no two instants of whole
milliseconds are written alike (`Instant.toText_injective`).
-/

namespace RecordQuery

namespace Text

section Padded

variable {least width n : Nat}

theorem digitsValue_padded : digitsValue (padded width n) = n := by
  rw [padded, digitsValue_zeros_append, digitsValue_toDigits]

theorem isDigit_of_mem_padded {c : Char} (h : c ∈ padded width n) : c.isDigit = true :=
  (List.mem_append.1 h).elim isDigit_of_mem_zeros isDigit_of_mem_toDigits

theorem length_padded (hwidth : 0 < width) (h : n < 10 ^ width) :
    (padded width n).length = width := by
  have hlength := Nat.toDigits_length 10 n width hwidth h
  unfold padded
  rw [List.length_append, List.length_replicate]
  omega

theorem padded_ne_nil : padded width n ≠ [] :=
  List.append_ne_nil_of_right_ne_nil _ Nat.toDigits_ne_nil

/-- A number written with as many digits as are read at most is read back, whatever follows. -/
theorem readNumber?_padded (hleast : least ≤ width) (hwidth : 0 < width) (h : n < 10 ^ width)
    (rest : List Char) : readNumber? least width (padded width n ++ rest) = some (n, rest) := by
  have hlength := length_padded hwidth h
  have hrun : ((padded width n ++ rest).takeWhile Char.isDigit).take width = padded width n := by
    rw [List.takeWhile_append_of_pos fun _ => isDigit_of_mem_padded, List.take_left' hlength]
  simp only [readNumber?, takeDigits, hrun, hlength, if_pos hleast, digitsValue_padded,
    List.drop_left' hlength]

theorem readExact?_padded (hwidth : 0 < width) (h : n < 10 ^ width) (rest : List Char) :
    readNumber? width width (padded width n ++ rest) = some (n, rest) :=
  readNumber?_padded (Nat.le_refl _) hwidth h rest

/-- A number of any length is read back up to the first character that is no digit. -/
theorem readLongNumber?_padded {rest : List Char} (h : ∀ c ∈ rest.head?, c.isDigit = false) :
    readLongNumber? (padded width n ++ rest) = some (n, rest) := by
  unfold readLongNumber?
  rw [spanDigits_append (fun _ => isDigit_of_mem_padded) h]
  simp [padded_ne_nil, digitsValue_padded]

/-- No digit is a blank. -/
theorem isBlank_of_isDigit {c : Char} (h : c.isDigit = true) : isBlank c = false := by
  have hrange : 48 ≤ c.toNat ∧ c.toNat ≤ 57 := by
    simpa [Char.isDigit, UInt32.le_iff_toNat_le] using h
  unfold isBlank blankRuns
  simp only [List.any_cons, List.any_nil, Bool.or_false, Bool.or_eq_false_iff,
    Bool.and_eq_false_imp, decide_eq_true_eq, decide_eq_false_iff_not, not_le]
  omega

theorem exists_padded (width n : Nat) : ∃ c cs, padded width n = c :: cs ∧ c.isDigit = true := by
  rcases hpadded : padded width n with _ | ⟨c, cs⟩
  · exact absurd hpadded padded_ne_nil
  · exact ⟨c, cs, rfl, isDigit_of_mem_padded (hpadded ▸ List.mem_cons_self)⟩

theorem skipBlanks_padded (rest : List Char) :
    skipBlanks (padded width n ++ rest) = padded width n ++ rest := by
  obtain ⟨c, cs, hpadded, hdigit⟩ := exists_padded width n
  rw [hpadded, List.cons_append, skipBlanks, List.dropWhile_cons_of_neg]
  simp [isBlank_of_isDigit hdigit]

end Padded

theorem skipChar?_self (c : Char) (cs : List Char) : skipChar? c (c :: cs) = some cs :=
  if_pos rfl

end Text

open Text

theorem monthLength_le (leap : Bool) (month : Nat) : monthLength leap month ≤ 31 := by
  unfold monthLength
  split
  · split <;> decide
  all_goals decide

namespace Date

theorem of?_parts (d : Date) : of? d.year d.month d.day = some d :=
  dif_pos d.valid

theorem month_lt (d : Date) : d.month < 10 ^ 2 := by
  have := d.valid
  omega

theorem day_lt (d : Date) : d.day < 10 ^ 2 := by
  have := monthLength_le (isLeapYear d.year) d.month
  have := d.valid
  omega

/-- Whether the year is written with four digits and no sign. -/
def HasPlainYear (d : Date) : Prop :=
  0 ≤ d.year ∧ d.year ≤ 9999

instance (d : Date) : Decidable d.HasPlainYear :=
  inferInstanceAs (Decidable (_ ∧ _))

theorem HasPlainYear.supported {d : Date} (h : d.HasPlainYear) :
    Instant.firstYear ≤ d.year ∧ d.year ≤ Instant.lastYear := by
  obtain ⟨hfirst, hlast⟩ := h
  unfold Instant.firstYear Instant.lastYear
  omega

end Date

/-- A time of day to the millisecond, as it is written. The second 60 is a leap second. -/
structure Clock where
  hour : Nat
  minute : Nat
  second : Nat
  milli : Nat
  valid : hour < 24 ∧ minute < 60 ∧ second ≤ 60 ∧ milli < 1000

namespace Clock

def chars (c : Clock) : List Char :=
  padded 2 c.hour ++ ':' :: padded 2 c.minute ++ ':' :: padded 2 c.second ++ '.' :: padded 3 c.milli

variable (c : Clock)

theorem hour_lt : c.hour < 10 ^ 2 := by
  have := c.valid
  omega

theorem minute_lt : c.minute < 10 ^ 2 := by
  have := c.valid
  omega

theorem second_lt : c.second < 10 ^ 2 := by
  have := c.valid
  omega

theorem milli_lt : c.milli < 10 ^ 3 := by
  have := c.valid
  omega

/-- The second of the day that is held. -/
def secondOfDay (c : Clock) : Nat :=
  c.hour * 3600 + c.minute * 60 + if c.second = 60 then 59 else c.second

/-- The nanoseconds within that second. -/
def nano (c : Clock) : Nat :=
  c.milli * 1000000 + if c.second = 60 then 1000000000 else 0

end Clock

namespace Instant

variable {loose : Bool}

/-! ## Reading the parts -/

theorem skipMark?_minus (cs : List Char) : skipMark? loose '-' ('-' :: cs) = some cs := by
  cases loose <;> rfl

theorem skipMark?_colon (cs : List Char) : skipMark? loose ':' (':' :: cs) = some cs := by
  cases loose <;> rfl

theorem readPart?_padded {n : Nat} (h : n < 10 ^ 2) (rest : List Char) :
    readPart? (padded 2 n ++ rest) = some (n, rest) := by
  rw [readPart?, skipBlanks_padded, readNumber?_padded (by decide) (by decide) h]

theorem readYear?_minus (cs : List Char) :
    readYear? ('-' :: cs) = (readLongNumber? cs).map fun (n, cs) => (-(n : Int), cs) := rfl

theorem readYear?_plus (cs : List Char) :
    readYear? ('+' :: cs) = (readLongNumber? cs).map fun (n, cs) => ((n : Int), cs) := rfl

/-- Without a sign, a year is a number of at most four digits. -/
theorem readYear?_padded {n : Nat} (h : n < 10 ^ 4) (rest : List Char) :
    readYear? (padded 4 n ++ rest) = some ((n : Int), rest) := by
  have hread : readNumber? 1 4 (padded 4 n ++ rest) = some (n, rest) :=
    readNumber?_padded (by decide) (by decide) h rest
  have hblank : skipBlanks (padded 4 n ++ rest) = padded 4 n ++ rest := skipBlanks_padded rest
  obtain ⟨c, cs, hpadded, hdigit⟩ := exists_padded 4 n
  have hminus : c ≠ '-' := by
    rintro rfl
    cases hdigit
  have hplus : c ≠ '+' := by
    rintro rfl
    cases hdigit
  rw [hpadded, List.cons_append] at hread hblank
  rw [hpadded, List.cons_append, readYear?, hblank]
  split
  · next hcons => exact absurd (List.cons.inj hcons).1 hminus
  · next hcons => exact absurd (List.cons.inj hcons).1 hplus
  · rw [hread, Option.map_some]

theorem readYear?_yearChars (year : Int) {rest : List Char}
    (h : ∀ c ∈ rest.head?, c.isDigit = false) :
    readYear? (yearChars year ++ rest) = some (year, rest) := by
  unfold yearChars
  split_ifs with hplain hneg
  · have habs : (year.natAbs : Int) = year := by omega
    rw [readYear?_padded (by omega), habs]
  · have habs : -(year.natAbs : Int) = year := by omega
    rw [List.cons_append, readYear?_minus, readLongNumber?_padded h]
    simp only [Option.map_some, habs]
  · have habs : (year.natAbs : Int) = year := by omega
    rw [List.cons_append, readYear?_plus, readLongNumber?_padded h]
    simp only [Option.map_some, habs]

theorem readDate?_chars (d : Date) (rest : List Char) :
    readDate? loose (d.chars ++ rest) = some ((d.year, d.month, d.day), rest) := by
  unfold readDate? Date.chars
  simp only [List.append_assoc, List.cons_append]
  rw [readYear?_yearChars d.year (by simp)]
  simp only [Option.bind_eq_bind, Option.bind_some, skipMark?_minus, readPart?_padded d.month_lt,
    readPart?_padded d.day_lt, Option.pure_def]

theorem readFraction?_padded {n : Nat} (h : n < 10 ^ 3) {rest : List Char}
    (hrest : ∀ c ∈ rest.head?, c.isDigit = false) :
    readFraction? ('.' :: (padded 3 n ++ rest)) = some (n * 1000000, rest) := by
  have hlength := length_padded (by decide) h
  have hspan : spanDigits (padded 3 n ++ rest) = (padded 3 n, rest) :=
    spanDigits_append (fun _ => isDigit_of_mem_padded) hrest
  simp [readFraction?, hspan, hlength, padded_ne_nil, digitsValue_padded, List.take_of_length_le]

theorem readTime?_chars (c : Clock) {rest : List Char}
    (hrest : ∀ c ∈ rest.head?, c.isDigit = false) :
    readTime? loose (c.chars ++ rest)
      = some ((c.hour, c.minute, c.second, c.milli * 1000000), rest) := by
  unfold readTime? Clock.chars
  simp only [List.append_assoc, List.cons_append, readPart?_padded c.hour_lt,
    readPart?_padded c.minute_lt, readPart?_padded c.second_lt, skipMark?_colon,
    readFraction?_padded c.milli_lt hrest, Option.bind_eq_bind, Option.bind_some,
    Option.pure_def]

/-! ## Reading the forms -/

/-- A reader that has taken its part leaves the rest to the next one. -/
theorem bind_of_eq_some {β γ : Type} {x : Option β} {a : β} (h : x = some a) (f : β → Option γ) :
    (x >>= f) = f a := by
  rw [h]
  rfl

section Forms

variable (d : Date) (c : Clock)

theorem ofDateChars?_chars (rest : List Char) :
    ofDateChars? (d.chars ++ rest)
      = if rest.isEmpty then ofCivil? d.year d.month d.day 0 0 0 0 0 else none := by
  unfold ofDateChars?
  rw [readDate?_chars]
  cases rest <;> rfl

theorem ofPlainChars?_chars {rest : List Char} (hrest : ∀ c ∈ rest.head?, c.isDigit = false) :
    ofPlainChars? (d.chars ++ 'T' :: (c.chars ++ rest))
      = if rest.isEmpty then
          ofCivil? d.year d.month d.day c.hour c.minute c.second (c.milli * 1000000) 0
        else none := by
  unfold ofPlainChars?
  rw [readDate?_chars]
  simp only [skipChar?_self, Option.bind_eq_bind, Option.bind_some, readTime?_chars c hrest]
  cases rest <;> rfl

/-- The strict form needs a zone after date and time, and nothing after that. -/
theorem ofStrictChars?_clock (hyear : d.HasPlainYear) {zone : List Char}
    (hzone : ∀ c ∈ zone.head?, c.isDigit = false) :
    ofStrictChars? (d.chars ++ 'T' :: (c.chars ++ zone))
      = (readZone? (skipChar? ':') zone).bind fun read =>
          if read.2.isEmpty then
            ofCivil? d.year d.month d.day c.hour c.minute c.second (c.milli * 1000000) read.1
          else none := by
  obtain ⟨hfirst, hlast⟩ := hyear
  have habs : (d.year.natAbs : Int) = d.year := by omega
  have hyear : d.year.natAbs < 10 ^ 4 := by omega
  have hmonth := readExact?_padded (by decide) d.month_lt
  have hday := readExact?_padded (by decide) d.day_lt
  have hhour := readExact?_padded (by decide) c.hour_lt
  have hminute := readExact?_padded (by decide) c.minute_lt
  have hsecond := readExact?_padded (by decide) c.second_lt
  have hfraction := readFraction?_padded c.milli_lt hzone
  unfold Date.chars Clock.chars yearChars
  rw [if_pos ⟨hfirst, hlast⟩]
  simp only [List.append_assoc, List.cons_append]
  -- one reader after the other: rewriting in all of them at once is slow
  refine (bind_of_eq_some (readExact?_padded (by decide) hyear _) _).trans ?_
  refine (bind_of_eq_some (skipChar?_self _ _) _).trans ?_
  refine (bind_of_eq_some (hmonth _) _).trans ?_
  refine (bind_of_eq_some (skipChar?_self _ _) _).trans ?_
  refine (bind_of_eq_some (hday _) _).trans ?_
  refine (bind_of_eq_some rfl _).trans ?_
  refine (bind_of_eq_some (hhour _) _).trans ?_
  refine (bind_of_eq_some (skipChar?_self _ _) _).trans ?_
  refine (bind_of_eq_some (hminute _) _).trans ?_
  refine (bind_of_eq_some (skipChar?_self _ _) _).trans ?_
  refine (bind_of_eq_some (hsecond _) _).trans ?_
  refine (bind_of_eq_some hfraction _).trans ?_
  rw [habs]
  dsimp only
  rcases readZone? (skipChar? ':') zone with _ | ⟨offset, rest⟩
  · rfl
  · cases rest <;> rfl

theorem ofStrictChars?_chars (hyear : d.HasPlainYear) {zone : List Char} {offset : Int}
    (hzone : ∀ c ∈ zone.head?, c.isDigit = false)
    (hread : readZone? (skipChar? ':') zone = some (offset, [])) :
    ofStrictChars? (d.chars ++ 'T' :: (c.chars ++ zone))
      = ofCivil? d.year d.month d.day c.hour c.minute c.second (c.milli * 1000000) offset := by
  rw [ofStrictChars?_clock d c hyear hzone, hread]
  rfl

/-- The strict form needs a time of day after the date. -/
theorem ofStrictChars?_date (hyear : d.HasPlainYear) : ofStrictChars? d.chars = none := by
  obtain ⟨hfirst, hlast⟩ := hyear
  have hyear : d.year.natAbs < 10 ^ 4 := by omega
  have hmonth := readExact?_padded (by decide) d.month_lt
  have hday := readExact?_padded (by decide) d.day_lt []
  unfold Date.chars yearChars
  rw [if_pos ⟨hfirst, hlast⟩]
  simp only [List.append_assoc, List.cons_append]
  rw [List.append_nil] at hday
  refine (bind_of_eq_some (readExact?_padded (by decide) hyear _) _).trans ?_
  refine (bind_of_eq_some (skipChar?_self _ _) _).trans ?_
  refine (bind_of_eq_some (hmonth _) _).trans ?_
  refine (bind_of_eq_some (skipChar?_self _ _) _).trans ?_
  refine (bind_of_eq_some hday _).trans ?_
  rfl

/-- The strict form has no room for the sign of a year. -/
theorem ofStrictChars?_eq_none (hyear : ¬ d.HasPlainYear) (rest : List Char) :
    ofStrictChars? (d.chars ++ rest) = none := by
  have hsigned : ¬ (0 ≤ d.year ∧ d.year ≤ 9999) := hyear
  unfold ofStrictChars? Date.chars yearChars
  rw [if_neg hsigned]
  split <;> rfl

end Forms

theorem ofCivil?_clock (d : Date) (c : Clock) {offset : Int}
    (hyear : firstYear ≤ d.year ∧ d.year ≤ lastYear) (hoffset : offset.natAbs < 86400) :
    ofCivil? d.year d.month d.day c.hour c.minute c.second (c.milli * 1000000) offset
      = of? (d.toDay * 86400 + c.secondOfDay - offset) c.nano := by
  obtain ⟨hhour, hminute, hsecond, -⟩ := c.valid
  have hclock : c.hour < 24 ∧ c.minute < 60 ∧ c.second ≤ 60 ∧ offset.natAbs < 86400 :=
    ⟨hhour, hminute, hsecond, hoffset⟩
  unfold ofCivil?
  rw [d.of?_parts]
  simp only [Option.bind_eq_bind, Option.bind_some, guard, if_pos hyear, if_pos hclock,
    Option.pure_def]
  rfl

/-! ## Reading what was written -/

/-- The zone does not go on the digits before it. -/
theorem head?_zulu : ∀ c ∈ ['Z'].head?, c.isDigit = false := by
  intro c hc
  obtain rfl : 'Z' = c := Option.some.inj hc
  rfl

section Written

variable (t : Instant)

/-- The time of day that is written. -/
def clock : Clock where
  hour := t.secondOfDay / 3600
  minute := t.secondOfDay / 60 % 60
  second := t.secondOfDay % 60 + if t.isLeapSecond then 1 else 0
  milli := t.fraction / 1000000
  valid := by
    simp only [secondOfDay, fraction]
    split <;> omega

theorem chars_eq :
    t.chars = (Date.ofDay t.day).chars ++ 'T' :: (t.clock.chars ++ ['Z']) := by
  simp [chars, secondChars, Clock.chars, clock]

/-- The second 60 is written of leap seconds only, which end a minute. -/
theorem second_clock : t.clock.second = if t.isLeapSecond then 60 else t.secondOfDay % 60 := by
  obtain ⟨-, -, -, hleap⟩ := t.supported
  show (t.secondOfDay % 60 + if t.isLeapSecond then 1 else 0) = _
  split_ifs with h
  · have := hleap (of_decide_eq_true h)
    unfold secondOfDay
    omega
  · rfl

theorem secondOfDay_clock : t.clock.secondOfDay = t.secondOfDay := by
  obtain ⟨-, -, -, hleap⟩ := t.supported
  have hhour : t.clock.hour = t.secondOfDay / 3600 := rfl
  have hminute : t.clock.minute = t.secondOfDay / 60 % 60 := rfl
  unfold Clock.secondOfDay
  rw [second_clock, hhour, hminute]
  by_cases h : t.isLeapSecond = true
  · have := hleap (of_decide_eq_true h)
    simp only [if_pos h, if_true]
    unfold secondOfDay
    omega
  · have hne : t.secondOfDay % 60 ≠ 60 := by omega
    simp only [if_neg h, if_neg hne]
    omega

theorem nano_clock (h : t.nano % 1000000 = 0) : t.clock.nano = t.nano := by
  obtain ⟨-, -, hnano, -⟩ := t.supported
  have hmilli : t.clock.milli = t.nano % 1000000000 / 1000000 := rfl
  unfold Clock.nano
  rw [second_clock, hmilli]
  by_cases hleap : t.isLeapSecond = true
  · have := of_decide_eq_true hleap
    simp only [if_pos hleap, if_true]
    omega
  · have hne : t.secondOfDay % 60 ≠ 60 := by omega
    have : t.nano < 1000000000 := Nat.not_le.1 fun hle => hleap (decide_eq_true hle)
    simp only [if_neg hleap, if_neg hne]
    omega

/-- What is written of whole milliseconds is read back if the year has no sign. A sign leaves the
plain forms alone, and these do not read the zone. -/
theorem ofText?_toText (h : t.nano % 1000000 = 0) :
    ofText? t.toText = if (Date.ofDay t.day).HasPlainYear then some t else none := by
  unfold ofText? toText
  rw [String.toList_ofList, chars_eq]
  split_ifs with hyear
  · have hsecond : t.day * 86400 + (t.secondOfDay : Nat) - 0 = t.second := by
      unfold day secondOfDay
      omega
    rw [ofStrictChars?_chars _ _ hyear head?_zulu rfl, ofCivil?_clock _ _ hyear.supported (by decide),
      Date.toDay_ofDay, secondOfDay_clock, nano_clock t h, hsecond, of?, dif_pos t.supported]
    rfl
  · rw [ofStrictChars?_eq_none _ hyear, ofPlainChars?_chars _ _ head?_zulu, ofDateChars?_chars]
    rfl

end Written

/-! ## Different instants are written differently -/

theorem second_eq (t : Instant) :
    t.second = (Date.ofDay t.day).toDay * 86400 + t.clock.secondOfDay := by
  rw [Date.toDay_ofDay, secondOfDay_clock]
  unfold day secondOfDay
  omega

theorem eq_of_parts {s t : Instant} (hsecond : s.second = t.second) (hnano : s.nano = t.nano) :
    s = t := by
  rcases s with ⟨second, nano, _⟩
  rcases t with ⟨second', nano', _⟩
  obtain rfl : second = second' := hsecond
  obtain rfl : nano = nano' := hnano
  rfl

/-- Whatever the year, the date and the time of day are read off the front of what is written, and
they leave nothing of the instant open but what is finer than a millisecond. -/
theorem toText_injective {s t : Instant} (hs : s.nano % 1000000 = 0) (ht : t.nano % 1000000 = 0)
    (h : s.toText = t.toText) : s = t := by
  have hchars : s.chars = t.chars := String.ofList_injective h
  rw [chars_eq, chars_eq] at hchars
  have hread := congrArg (readDate? false) hchars
  rw [readDate?_chars, readDate?_chars] at hread
  obtain ⟨hdate, hrest⟩ := Prod.mk.inj (Option.some.inj hread)
  obtain ⟨hyear, hmonthDay⟩ := Prod.mk.inj hdate
  obtain ⟨hmonth, hday⟩ := Prod.mk.inj hmonthDay
  have hread := congrArg (readTime? false) (List.cons.inj hrest).2
  rw [readTime?_chars _ head?_zulu, readTime?_chars _ head?_zulu] at hread
  obtain ⟨htime, -⟩ := Prod.mk.inj (Option.some.inj hread)
  simp only [Prod.mk.injEq] at htime
  obtain ⟨hhour, hminute, hsecond, hmilli⟩ := htime
  have hclock : s.clock.secondOfDay = t.clock.secondOfDay ∧ s.clock.nano = t.clock.nano := by
    simp only [Clock.secondOfDay, Clock.nano, hhour, hminute, hsecond, hmilli, and_self]
  refine eq_of_parts ?_ ?_
  · rw [second_eq s, second_eq t, Date.eq_of_parts hyear hmonth hday, hclock.1]
  · rw [← nano_clock s hs, ← nano_clock t ht, hclock.2]

end Instant

end RecordQuery

import RecordQuery.Json.Scalar
import RecordQuery.Proofs.CalendarDays
import RecordQuery.Proofs.TimestampText
import RecordQuery.Proofs.Truncation

/-!
# The forms of one instant

A date and a time of day to the millisecond stand for one instant, whether they are written without
a zone, with `Z` or with an offset, and the instant is written as the one with `Z`. Its milliseconds
stand for it as well, and a date alone stands for its midnight (`Instant.forms_agree`).
-/

namespace RecordQuery

open Json Text

/-- How far a zone is ahead of UTC or behind, in hours and minutes. -/
structure Offset where
  behind : Bool
  hours : Nat
  minutes : Nat
  valid : hours < 24 ∧ minutes < 60

namespace Offset

variable (o : Offset)

def chars (o : Offset) : List Char :=
  (if o.behind then '-' else '+') :: (padded 2 o.hours ++ ':' :: padded 2 o.minutes)

/-- The seconds ahead of UTC. -/
def seconds (o : Offset) : Int :=
  let size : Int := (o.hours * 3600 + o.minutes * 60 : Nat)
  if o.behind then -size else size

theorem natAbs_seconds_lt : o.seconds.natAbs < 86400 := by
  have := o.valid
  unfold seconds
  dsimp only
  split <;> omega

theorem isDigit_head?_chars : ∀ c ∈ o.chars.head?, c.isDigit = false := by
  intro c hc
  obtain rfl : (if o.behind then '-' else '+') = c := Option.some.inj hc
  split <;> rfl

theorem readZone?_chars : Instant.readZone? (skipChar? ':') o.chars = some (o.seconds, []) := by
  obtain ⟨hhours, hminutes⟩ := o.valid
  have hread := readExact?_padded (by decide) (show o.hours < 10 ^ 2 by omega)
  have hread' := readExact?_padded (by decide) (show o.minutes < 10 ^ 2 by omega) []
  rw [List.append_nil] at hread'
  unfold chars seconds
  cases o.behind <;>
    simp [Instant.readZone?, Instant.readOffset?, hread, hread', skipChar?_self, guard, hminutes]

end Offset

theorem Date.toDay_of_hasPlainYear {d : Date} (h : d.HasPlainYear) :
    yearStart 0 ≤ d.toDay ∧ d.toDay < yearStart 10000 := by
  obtain ⟨hfirst, hlast⟩ := h
  have hle := yearStart_yearOfDay_le d.toDay
  have hlt := lt_yearStart_yearOfDay_succ d.toDay
  rw [yearOfDay_toDay] at hle hlt
  exact ⟨(yearStart_mono hfirst).trans hle, hlt.trans_le (yearStart_mono (by omega))⟩

namespace Clock

def midnight : Clock :=
  ⟨0, 0, 0, 0, by decide⟩

/-- A time of day that is not in a leap second. -/
def IsPlain (c : Clock) : Prop :=
  c.second ≤ 59

theorem isPlain_midnight : midnight.IsPlain :=
  Nat.zero_le 59

variable {c : Clock}

theorem IsPlain.second_ne (h : c.IsPlain) : c.second ≠ 60 :=
  (Nat.lt_succ_of_le h).ne

theorem secondOfDay_of_isPlain (h : c.IsPlain) :
    c.secondOfDay = c.hour * 3600 + c.minute * 60 + c.second := by
  rw [secondOfDay, if_neg h.second_ne]

theorem nano_of_isPlain (h : c.IsPlain) : c.nano = c.milli * 1000000 := by
  rw [nano, if_neg h.second_ne, Nat.add_zero]

end Clock

namespace Instant

/-! ## A date and a time of day -/

/-- A date and a time of day before a zone. -/
def clockChars (d : Date) (c : Clock) : List Char :=
  d.chars ++ 'T' :: c.chars

/-- Whether an instant is that of a date and a time of day in UTC. -/
structure IsAt (d : Date) (c : Clock) (t : Instant) : Prop where
  second : t.second = d.toDay * 86400 + c.secondOfDay
  nano : t.nano = c.nano

section Clock

variable {d : Date} {c : Clock} {t : Instant}

/-- The years written without a sign lie far inside the supported ones. -/
theorem exists_of?_clock (hyear : d.HasPlainYear) (hplain : c.IsPlain) {offset : Int}
    (hoffset : offset.natAbs < 86400) :
    ∃ s, of? (d.toDay * 86400 + c.secondOfDay - offset) c.nano = some s := by
  obtain ⟨hhour, hminute, -, hmilli⟩ := c.valid
  have hday := Date.toDay_of_hasPlainYear hyear
  have hsecond := Clock.secondOfDay_of_isPlain hplain
  have hnano := Clock.nano_of_isPlain hplain
  have hzero : yearStart 0 = -719528 := by decide
  have hten : yearStart 10000 = 2932897 := by decide
  have hfirst := yearStart_firstYear
  have hlast := yearStart_lastYear_succ
  unfold Clock.IsPlain at hplain
  refine ⟨_, dif_pos ⟨?_, ?_, ?_, ?_⟩⟩ <;> omega

theorem exists_isAt (hyear : d.HasPlainYear) (hplain : c.IsPlain) :
    ∃ t, IsAt d c t ∧ of? (d.toDay * 86400 + c.secondOfDay - 0) c.nano = some t := by
  obtain ⟨t, ht⟩ := exists_of?_clock hyear hplain (show (0 : Int).natAbs < 86400 by decide)
  obtain ⟨hsecond, hnano⟩ := of?_eq_some.1 ht
  rw [Int.sub_zero] at hsecond
  exact ⟨t, ⟨hsecond, hnano⟩, ht⟩

/-! ## Reading -/

theorem ofText?_clockChars_zone (hyear : d.HasPlainYear) {zone : List Char} {offset : Int}
    (hzone : ∀ c ∈ zone.head?, c.isDigit = false)
    (hread : readZone? (skipChar? ':') zone = some (offset, []))
    (hoffset : offset.natAbs < 86400)
    (ht : of? (d.toDay * 86400 + c.secondOfDay - offset) c.nano = some t) :
    ofText? (String.ofList (clockChars d c ++ zone)) = some t := by
  have hchars : clockChars d c ++ zone = d.chars ++ 'T' :: (c.chars ++ zone) := by
    simp [clockChars]
  unfold ofText?
  rw [String.toList_ofList, hchars, ofStrictChars?_chars d c hyear hzone hread,
    ofCivil?_clock d c (hyear.supported) hoffset, ht]
  rfl

theorem ofText?_clockChars (hyear : d.HasPlainYear)
    (ht : of? (d.toDay * 86400 + c.secondOfDay - 0) c.nano = some t) :
    ofText? (String.ofList (clockChars d c)) = some t := by
  have hchars : clockChars d c = d.chars ++ 'T' :: (c.chars ++ []) := by
    simp [clockChars]
  unfold ofText?
  rw [String.toList_ofList, hchars, ofStrictChars?_clock d c hyear (by simp),
    ofPlainChars?_chars d c (by simp)]
  have hread : readZone? (skipChar? ':') [] = none := rfl
  rw [hread, List.isEmpty_nil, if_pos rfl,
    ofCivil?_clock d c (hyear.supported) (by decide), ht]
  rfl

theorem ofText?_dateChars (hyear : d.HasPlainYear) :
    ofText? (String.ofList d.chars)
      = of? (d.toDay * 86400 + Clock.midnight.secondOfDay - 0) Clock.midnight.nano := by
  have hdate := ofDateChars?_chars d []
  rw [List.append_nil, List.isEmpty_nil, if_pos rfl] at hdate
  have hplain : ofPlainChars? d.chars = none := by
    have hread : readDate? false (d.chars ++ []) = _ := readDate?_chars d []
    rw [List.append_nil] at hread
    exact bind_of_eq_some hread _
  have hcivil := ofCivil?_clock d Clock.midnight (hyear.supported)
    (show (0 : Int).natAbs < 86400 by decide)
  unfold ofText?
  rw [String.toList_ofList, ofStrictChars?_date d hyear, hplain, hdate, ← hcivil]
  rfl

/-! ## Writing -/

theorem IsAt.day (h : IsAt d c t) (hplain : c.IsPlain) : t.day = d.toDay := by
  have := c.valid
  have hsecond := h.second
  rw [Clock.secondOfDay_of_isPlain hplain] at hsecond
  unfold Clock.IsPlain at hplain
  unfold Instant.day
  omega

theorem IsAt.clock (h : IsAt d c t) (hplain : c.IsPlain) : t.clock = c := by
  have hvalid := c.valid
  have hsecond := h.second
  have hnano := h.nano
  rw [Clock.secondOfDay_of_isPlain hplain] at hsecond
  rw [Clock.nano_of_isPlain hplain] at hnano
  unfold Clock.IsPlain at hplain
  have hday : t.secondOfDay = c.hour * 3600 + c.minute * 60 + c.second := by
    unfold secondOfDay
    omega
  have hleap : t.isLeapSecond = false := decide_eq_false (by omega)
  rcases c with ⟨hour, minute, second, milli, _⟩
  simp only at hday hvalid hplain hnano
  simp only [Instant.clock, hday, hleap, fraction, hnano, Clock.mk.injEq, Bool.false_eq_true,
    if_false]
  omega

theorem IsAt.toText (h : IsAt d c t) (hplain : c.IsPlain) :
    t.toText = String.ofList (clockChars d c ++ ['Z']) := by
  have hchars : clockChars d c ++ ['Z'] = d.chars ++ 'T' :: (c.chars ++ ['Z']) := by
    simp [clockChars]
  rw [Instant.toText, chars_eq, h.day hplain, h.clock hplain, Date.ofDay_toDay, hchars]

end Clock

/-! ## Milliseconds -/

section Millis

variable {t : Instant}

theorem fits_millis (hleap : t.isLeapSecond = false) : Number.Fits t.millis := by
  obtain ⟨hfirst, hlast, -, -⟩ := t.supported
  have hnano : t.nano < 1000000000 := by simpa [isLeapSecond] using hleap
  rw [yearStart_firstYear] at hfirst
  rw [yearStart_lastYear_succ] at hlast
  have hhalf : Word.half = 9223372036854775808 := rfl
  have hsize : Word.size = 18446744073709551616 := rfl
  unfold millis
  constructor <;> omega

theorem ofMillis?_millis (hleap : t.isLeapSecond = false) (hwhole : t.nano % 1000000 = 0) :
    ofMillis? t.millis = some t := by
  have hnano : t.nano < 1000000000 := by simpa [isLeapSecond] using hleap
  unfold ofMillis? millis
  rw [of?_eq_some]
  omega

end Millis

/-- A date in one of the years 0 to 9999 and a time of day to the millisecond, written without a
zone or with `Z`, stand for the same instant, which is written with `Z`. With an offset they stand
for the instant that is earlier by as much. The milliseconds of the instant stand for it too, and
the date alone stands for its midnight. -/
theorem forms_agree (d : Date) (hyear : d.HasPlainYear) (c : Clock) (hplain : c.IsPlain) :
    ∃ t : Instant, IsAt d c t ∧
      (Value.text (.ofList (clockChars d c))).instant? = some t ∧
      (Value.text (.ofList (clockChars d c ++ ['Z']))).instant? = some t ∧
      t.toText = .ofList (clockChars d c ++ ['Z']) ∧
      (∀ o : Offset, ∃ s : Instant,
        (Value.text (.ofList (clockChars d c ++ o.chars))).instant? = some s ∧
          s.second = t.second - o.seconds ∧ s.nano = t.nano) ∧
      (∃ fits, (Value.number (.integer t.millis fits)).instant? = some t) ∧
      ∃ midnight : Instant, IsAt d Clock.midnight midnight ∧
        (Value.text (.ofList d.chars)).instant? = some midnight ∧
        (Value.text (.ofList (clockChars d Clock.midnight))).instant? = some midnight := by
  obtain ⟨t, hat, ht⟩ := exists_isAt hyear hplain
  have hnano : t.nano = c.milli * 1000000 := hat.nano.trans (Clock.nano_of_isPlain hplain)
  have hleap : t.isLeapSecond = false := by
    have := c.valid
    exact decide_eq_false (by omega)
  obtain ⟨midnight, hatMidnight, hmidnight⟩ := exists_isAt hyear Clock.isPlain_midnight
  refine ⟨t, hat, ofText?_clockChars hyear ht, ?_, hat.toText hplain, fun o => ?_, ?_, midnight,
    hatMidnight, (ofText?_dateChars hyear).trans hmidnight, ofText?_clockChars hyear hmidnight⟩
  · exact ofText?_clockChars_zone hyear head?_zulu rfl (by decide) ht
  · obtain ⟨s, hs⟩ := exists_of?_clock hyear hplain o.natAbs_seconds_lt
    obtain ⟨hsecond, hsnano⟩ := of?_eq_some.1 hs
    refine ⟨s, ?_, by rw [hsecond, hat.second], hsnano.trans hat.nano.symm⟩
    exact ofText?_clockChars_zone hyear o.isDigit_head?_chars o.readZone?_chars
      o.natAbs_seconds_lt hs
  · exact ⟨fits_millis hleap, ofMillis?_millis hleap (by omega)⟩

/-- The first minute of the year 0, almost a day ahead of UTC, lies in the year before. -/
theorem forms_agree_year_zero :
    let d : Date := ⟨0, 1, 1, by decide⟩
    let c : Clock := ⟨0, 0, 59, 7, by decide⟩
    d.HasPlainYear ∧ c.IsPlain ∧
      ∃ t s : Instant, (Value.text "0000-01-01T00:00:59.007").instant? = some t ∧
        t.toText = "0000-01-01T00:00:59.007Z" ∧
        (Value.text "0000-01-01T00:00:59.007+23:59").instant? = some s ∧
        s.second = t.second - 86340 ∧ (Date.ofDay s.day).year = -1 := by
  intro d c
  let o : Offset := ⟨false, 23, 59, by decide⟩
  have hyear : d.HasPlainYear := by decide
  have hplain : c.IsPlain := Nat.le_refl 59
  have hchars : String.ofList (clockChars d c) = "0000-01-01T00:00:59.007" := by decide +kernel
  have hzulu : String.ofList (clockChars d c ++ ['Z']) = "0000-01-01T00:00:59.007Z" := by
    decide +kernel
  have hahead : String.ofList (clockChars d c ++ o.chars) = "0000-01-01T00:00:59.007+23:59" := by
    decide +kernel
  have hseconds : o.seconds = 86340 := by decide
  have hstart : d.toDay * 86400 + c.secondOfDay = -62167219141 := by decide
  obtain ⟨t, hat, hread, -, hwritten, hoffset, -, -⟩ := forms_agree d hyear c hplain
  obtain ⟨s, hs, hsecond, -⟩ := hoffset o
  rw [hchars] at hread
  rw [hzulu] at hwritten
  rw [hahead] at hs
  rw [hseconds] at hsecond
  refine ⟨hyear, hplain, t, s, hread, hwritten, hs, hsecond, ?_⟩
  have hday : s.day = -719529 := by
    have hsecond' : t.second = -62167219141 := hat.second.trans hstart
    unfold day
    omega
  rw [hday]
  decide

end Instant

end RecordQuery

import RecordQuery.Json.Order
import RecordQuery.Proofs.JsonText
import RecordQuery.Proofs.NumberOrder

/-!
# Keys and strict equality

Values of one key are strictly equal, and strictly equal values have one key unless they are keyed
apart (`Value.canonicalKey_eq_iff`). A whole double has the key of an integer only if its value is
one of a signed word, so it can be keyed apart from the integer that it is compared with. Inside
lists and objects the two zeros are equal but are written differently.
-/

namespace RecordQuery

namespace Double

theorem isIntegral_iff {d : Double} : d.isIntegral = true ↔ d.scaled = d.floor * unitsPerOne := by
  rw [isIntegral, beq_iff_eq, floor]
  refine ⟨fun h => (Int.ediv_mul_cancel (Int.dvd_of_emod_eq_zero h)).symm, fun h => ?_⟩
  rw [h]
  exact Int.mul_emod_left _ _

theorem floor_eq {d : Double} {n : Int} (h : d.scaled = n * unitsPerOne) : d.floor = n := by
  rw [floor, h]
  exact Int.mul_ediv_cancel _ (Int.natCast_pos.2 unitsPerOne_pos).ne'

/-- The greatest signed word is rounded up. -/
theorem scaled_ofInt_half_sub_one :
    (ofInt (Word.half - 1)).scaled = (Word.half : Int) * unitsPerOne := by
  decide +kernel

end Double

namespace Json

namespace Number

/-- Whether an integer and a double that it is rounded to have two keys: the integer is no signed
word, or it is not the value of the double. The greatest signed word is not either, but has the key
of the double that it is rounded to. -/
def SetApart (n : Int) (d : Double) : Prop :=
  Word.half ≤ n ∨ n ≠ Word.half - 1 ∧ d.scaled ≠ n * Double.unitsPerOne

def KeyedApart : Number → Number → Prop
  | integer n _, real d => SetApart n d
  | real d, integer n _ => SetApart n d
  | _, _ => False

/-- The number that is written as the key. -/
def keyed : Number → Number
  | integer n fits => integer n fits
  | real d => ofDouble d

theorem ofInt_of_fits {n : Int} (fits : Fits n) : ofInt n = integer n fits :=
  dif_pos fits

theorem fits_min {n : Int} (h : -Word.half ≤ n) : Fits (min n (Word.half - 1)) :=
  ⟨le_min h (by decide), lt_of_le_of_lt (min_le_right _ _) (by decide)⟩

theorem ofDouble_whole {d : Double} {n : Int} (h : d.scaled = n * Double.unitsPerOne)
    (hlow : -Word.half ≤ n) (hhigh : n ≤ Word.half) :
    ofDouble d = ofInt (min n (Word.half - 1)) := by
  have hfloor := Double.floor_eq h
  have hwhole : d.isIntegral = true := Double.isIntegral_iff.2 (hfloor.symm ▸ h)
  rw [ofDouble, if_pos ⟨hwhole, hfloor.symm ▸ hlow, hfloor.symm ▸ hhigh⟩, hfloor]

/-- A double has the key of an integer that it is equal to, or its own. -/
theorem ofDouble_cases (d : Double) : ofDouble d = real d ∨
    ∃ n : Int, -Word.half ≤ n ∧ n ≤ Word.half ∧ d.scaled = n * Double.unitsPerOne ∧
      ofDouble d = ofInt (min n (Word.half - 1)) := by
  by_cases h : d.isIntegral ∧ -Word.half ≤ d.floor ∧ d.floor ≤ Word.half
  · exact .inr ⟨d.floor, h.2.1, h.2.2, Double.isIntegral_iff.1 h.1, by rw [ofDouble, if_pos h]⟩
  · exact .inl (by rw [ofDouble, if_neg h])

theorem scaled_of_ofDouble {d : Double} {n : Int} {fits : Fits n}
    (h : ofDouble d = integer n fits) :
    (Double.ofInt n).scaled = d.scaled ∧ ¬ SetApart n d := by
  rcases ofDouble_cases d with hreal | ⟨m, hlow, hhigh, hscaled, hint⟩
  · rw [hreal] at h
    cases h
  · rw [hint, ofInt_of_fits (fits_min hlow), integer.injEq] at h
    subst h
    rcases Int.lt_or_eq_of_le hhigh with hlt | rfl
    · have hmin : min m (Word.half - 1) = m := by omega
      rw [hmin]
      refine ⟨Double.scaled_ofInt hscaled, ?_⟩
      rintro (hbig | ⟨-, hne⟩)
      · omega
      · exact hne hscaled
    · refine ⟨hscaled ▸ Double.scaled_ofInt_half_sub_one, ?_⟩
      rintro (hbig | ⟨hne, -⟩)
      · exact absurd hbig (by decide)
      · exact absurd rfl hne

theorem ofDouble_of_scaled {d : Double} {n : Int} (fits : Fits n)
    (hscaled : (Double.ofInt n).scaled = d.scaled) (hkept : ¬ SetApart n d) :
    ofDouble d = integer n fits := by
  obtain ⟨hsmall, hvalue⟩ := not_or.1 hkept
  by_cases hlast : n = Word.half - 1
  · subst hlast
    rw [Double.scaled_ofInt_half_sub_one] at hscaled
    rw [ofDouble_whole hscaled.symm (by decide) le_rfl]
    exact ofInt_of_fits fits
  · have hwhole : d.scaled = n * Double.unitsPerOne := by
      by_contra hne
      exact hvalue ⟨hlast, hne⟩
    have hmin : min n (Word.half - 1) = n := by omega
    rw [ofDouble_whole hwhole fits.1 (by omega), hmin]
    exact ofInt_of_fits fits

theorem ofDouble_eq_integer {d : Double} {n : Int} (fits : Fits n) :
    ofDouble d = integer n fits ↔ (Double.ofInt n).scaled = d.scaled ∧ ¬ SetApart n d :=
  ⟨scaled_of_ofDouble, fun h => ofDouble_of_scaled fits h.1 h.2⟩

theorem real_of_ofDouble {d f : Double} (h : ofDouble d = real f) : d = f := by
  rcases ofDouble_cases d with hreal | ⟨n, hlow, -, -, hint⟩
  · exact real.inj (hreal.symm.trans h)
  · rw [hint, ofInt_of_fits (fits_min hlow)] at h
    cases h

theorem ofDouble_eq_ofDouble {d e : Double} : ofDouble d = ofDouble e ↔ d.scaled = e.scaled := by
  constructor
  · intro h
    match hd : ofDouble d with
    | integer n fits =>
      have he : ofDouble e = integer n fits := h.symm.trans hd
      exact (scaled_of_ofDouble hd).1.symm.trans (scaled_of_ofDouble he).1
    | real f =>
      have he : ofDouble e = real f := h.symm.trans hd
      rw [real_of_ofDouble hd, real_of_ofDouble he]
  · intro h
    by_cases hzero : d.scaled = 0
    · have hd : d.scaled = (0 : Int) * Double.unitsPerOne := by rw [hzero, Int.zero_mul]
      rw [ofDouble_whole hd (by decide) (by decide),
        ofDouble_whole (h ▸ hd) (by decide) (by decide)]
    · rw [Double.eq_of_scaled_eq h hzero]

theorem keyed_eq_iff (a b : Number) : a.keyed = b.keyed ↔ a.compare b = .eq ∧ ¬ a.KeyedApart b := by
  match a, b with
  | integer m _, integer n _ => simp [keyed, compare, KeyedApart]
  | integer n fits, real d =>
    rw [compare_real]
    exact eq_comm.trans (ofDouble_eq_integer fits)
  | real d, integer n fits =>
    rw [real_compare, eq_comm (a := d.scaled)]
    exact ofDouble_eq_integer fits
  | real d, real e =>
    rw [compare_real]
    exact ofDouble_eq_ofDouble.trans (and_iff_left id).symm

/-! ## The two zeros -/

/-- The sign of a double that is zero. -/
def zeroSigns : Number → List Bool
  | integer _ _ => []
  | real d => if d.scaled = 0 then [d.negative] else []

theorem eq_of_same {a b : Number} (h : a.same b = true) :
    a.zeroSigns.length = b.zeroSigns.length ∧ (a.zeroSigns = b.zeroSigns → a = b) := by
  match a, b with
  | integer m _, integer n _ =>
    obtain rfl : m = n := beq_iff_eq.1 h
    exact ⟨rfl, fun _ => rfl⟩
  | integer _ _, real _ => cases h
  | real _, integer _ _ => cases h
  | real d, real e =>
    have hscaled : d.scaled = e.scaled := beq_iff_eq.1 h
    by_cases hzero : d.scaled = 0
    · have hzero' : e.scaled = 0 := hscaled ▸ hzero
      simp only [zeroSigns, if_pos hzero, if_pos hzero', List.cons.injEq, and_true]
      refine ⟨rfl, fun hsign => ?_⟩
      have hrank : d.rank = e.rank :=
        (Double.scaled_eq_zero.1 hzero).trans (Double.scaled_eq_zero.1 hzero').symm
      rw [Double.eq_of_rank_eq hsign hrank]
    · obtain rfl := Double.eq_of_scaled_eq hscaled hzero
      exact ⟨rfl, fun _ => rfl⟩

end Number

namespace Value

mutual

/-- The signs of the zeros that are doubles, in the order they are written. -/
def zeroSigns : Value → List Bool
  | number n => n.zeroSigns
  | list items => itemsZeroSigns items
  | object members => membersZeroSigns members
  | _ => []

def itemsZeroSigns : List Value → List Bool
  | [] => []
  | item :: items => item.zeroSigns ++ itemsZeroSigns items

def membersZeroSigns : List (String × Value) → List Bool
  | [] => []
  | (_, value) :: members => value.zeroSigns ++ membersZeroSigns members

end

mutual

theorem same_refl : ∀ v : Value, v.same v = true
  | null => rfl
  | boolean _ => beq_self_eq_true _
  | number (.integer _ _) => beq_self_eq_true _
  | number (.real _) => beq_self_eq_true _
  | text _ => beq_self_eq_true _
  | list items => sameItems_refl items
  | object members => sameMembers_refl members

theorem sameItems_refl : ∀ items : List Value, sameItems items items = true
  | [] => rfl
  | item :: items => by
    rw [sameItems, same_refl item, sameItems_refl items]
    rfl

theorem sameMembers_refl : ∀ members : List (String × Value), sameMembers members members = true
  | [] => rfl
  | (key, value) :: members => by
    rw [sameMembers, same_refl value, sameMembers_refl members, beq_self_eq_true]
    rfl

end

/-- Signs of zeros that are equal for parts of one length. -/
theorem append_signs {as bs cs ds : List Bool} {p q : Prop}
    (h : as.length = bs.length ∧ (as = bs → p)) (h' : cs.length = ds.length ∧ (cs = ds → q)) :
    (as ++ cs).length = (bs ++ ds).length ∧ (as ++ cs = bs ++ ds → p ∧ q) := by
  refine ⟨by rw [List.length_append, List.length_append, h.1, h'.1], fun heq => ?_⟩
  obtain ⟨hfirst, hrest⟩ := List.append_inj heq h.1
  exact ⟨h.2 hfirst, h'.2 hrest⟩

mutual

/-- Values of one structure have as many zeros, and are the same if these have the same signs. -/
theorem eq_of_same : ∀ v w : Value, v.same w = true →
    v.zeroSigns.length = w.zeroSigns.length ∧ (v.zeroSigns = w.zeroSigns → v = w)
  | null, w, h => by
    cases w with
    | null => exact ⟨rfl, fun _ => rfl⟩
    | boolean | number | text | list | object => cases h
  | boolean a, w, h => by
    cases w with
    | boolean b => exact ⟨rfl, fun _ => congrArg boolean (beq_iff_eq.1 h)⟩
    | null | number | text | list | object => cases h
  | number a, w, h => by
    cases w with
    | number b =>
      obtain ⟨hlength, heq⟩ := Number.eq_of_same h
      exact ⟨hlength, fun hsigns => congrArg number (heq hsigns)⟩
    | null | boolean | text | list | object => cases h
  | text a, w, h => by
    cases w with
    | text b => exact ⟨rfl, fun _ => congrArg text (beq_iff_eq.1 h)⟩
    | null | boolean | number | list | object => cases h
  | list as, w, h => by
    cases w with
    | list bs =>
      obtain ⟨hlength, heq⟩ := eq_of_sameItems as bs h
      exact ⟨hlength, fun hsigns => congrArg list (heq hsigns)⟩
    | null | boolean | number | text | object => cases h
  | object as, w, h => by
    cases w with
    | object bs =>
      obtain ⟨hlength, heq⟩ := eq_of_sameMembers as bs h
      exact ⟨hlength, fun hsigns => congrArg object (heq hsigns)⟩
    | null | boolean | number | text | list => cases h

theorem eq_of_sameItems : ∀ as bs : List Value, sameItems as bs = true →
    (itemsZeroSigns as).length = (itemsZeroSigns bs).length ∧
      (itemsZeroSigns as = itemsZeroSigns bs → as = bs)
  | [], [], _ => ⟨rfl, fun _ => rfl⟩
  | [], _ :: _, h => by cases h
  | _ :: _, [], h => by cases h
  | a :: as, b :: bs, h => by
    rw [sameItems, Bool.and_eq_true] at h
    obtain ⟨hlength, heq⟩ := append_signs (eq_of_same a b h.1) (eq_of_sameItems as bs h.2)
    refine ⟨hlength, fun hsigns => ?_⟩
    obtain ⟨rfl, rfl⟩ := heq hsigns
    rfl

theorem eq_of_sameMembers : ∀ as bs : List (String × Value), sameMembers as bs = true →
    (membersZeroSigns as).length = (membersZeroSigns bs).length ∧
      (membersZeroSigns as = membersZeroSigns bs → as = bs)
  | [], [], _ => ⟨rfl, fun _ => rfl⟩
  | [], _ :: _, h => by cases h
  | _ :: _, [], h => by cases h
  | (k, a) :: as, (l, b) :: bs, h => by
    rw [sameMembers, Bool.and_eq_true, Bool.and_eq_true, beq_iff_eq] at h
    obtain ⟨hlength, heq⟩ := append_signs (eq_of_same a b h.1.2) (eq_of_sameMembers as bs h.2)
    refine ⟨hlength, fun hsigns => ?_⟩
    obtain ⟨rfl, rfl⟩ := heq hsigns
    rw [h.1.1]

end

theorem same_and_zeroSigns_iff {v w : Value} :
    v.same w = true ∧ v.zeroSigns = w.zeroSigns ↔ v = w := by
  refine ⟨fun h => (eq_of_same v w h.1).2 h.2, ?_⟩
  rintro rfl
  exact ⟨same_refl v, rfl⟩

/-! ## Keys -/

/-- What is written as the key. -/
def keyed : Value → Value
  | number n => number n.keyed
  | v => v

theorem canonicalKey_eq_toText (v : Value) : v.canonicalKey = v.keyed.toText := by
  match v with
  | number (.integer _ _) => rfl
  | number (.real _) => rfl
  | null | boolean _ | text _ | list _ | object _ => rfl

/-- Whether values that are strictly equal have two keys: they are an integer and a double that are
set apart, or no numbers, and hold zeros of different signs. -/
def KeyedApart : Value → Value → Prop
  | number a, number b => a.KeyedApart b
  | v, w => v.zeroSigns ≠ w.zeroSigns

theorem keyed_eq_iff (v w : Value) :
    v.keyed = w.keyed ↔ v.strictEq w = true ∧ ¬ v.KeyedApart w := by
  have hplain : v = w ↔ v.same w = true ∧ ¬ v.zeroSigns ≠ w.zeroSigns := by
    rw [← same_and_zeroSigns_iff, not_not]
  cases v with
  | number a =>
    cases w with
    | number b =>
      rw [keyed, keyed, number.injEq, Number.keyed_eq_iff, strictEq, beq_iff_eq, KeyedApart]
    | null | boolean | text | list | object =>
      exact iff_of_false (fun h => by cases h) (fun h => by cases h.1)
  | null | boolean | text | list | object =>
    cases w with
    | number b => exact iff_of_false (fun h => by cases h) (fun h => by cases h.1)
    | null | boolean | text | list | object => exact hplain

/-- Grouping by key is grouping by strict equality, but for the values that are keyed apart. -/
theorem canonicalKey_eq_iff (v w : Value) :
    v.canonicalKey = w.canonicalKey ↔ v.strictEq w = true ∧ ¬ v.KeyedApart w := by
  rw [canonicalKey_eq_toText, canonicalKey_eq_toText, ← keyed_eq_iff]
  exact ⟨toText_injective, congrArg toText⟩

/-- The integer `10 ^ 19` and the double of that value have two keys. -/
theorem canonicalKey_ne_of_great : (int 10000000000000000000).strictEq
      (number (.real (Double.ofInt 10000000000000000000))) = true ∧
    (int 10000000000000000000).canonicalKey
      ≠ (number (.real (Double.ofInt 10000000000000000000))).canonicalKey := by
  decide +kernel

end Value

end Json

end RecordQuery

import RecordQuery.Proofs.CanonicalKey
import RecordQuery.Proofs.TallyGroups

/-!
# Allow-lists

A level with an allow-list counts each document by its own key, while a bucket has the first key of
its group. So the list drops whole buckets and leaves the others as they are if and only if it tells
no two documents of one group apart (`Grouping.apply_allowing_eq_filter`). Keys by unit and by width
are in canonical form, so that a group has one key alone. Otherwise a list can only tell an integer
from the double of that integer, by listing another integer that is rounded to this double.
-/

namespace RecordQuery

open Json

/-! ## Tallies of some keys -/

namespace Tally

/-- Counting in the entries of some keys is keeping these keys in the tally of all. -/
theorem filter_absorbAll (p : Option String → Bool) (es : List Entry) :
    absorbAll [] (es.filter fun e => p e.key) = (absorbAll [] es).filter fun e => p e.key := by
  induction es using List.reverseRecOn with
  | nil => simp
  | append_singleton es e ih =>
    rw [List.filter_append, absorbAll_append, ih, absorbAll_concat]
    rcases absorb_cases (absorbAll [] es) e with ⟨hnot, ht⟩ | ⟨t₁, f, t₂, ht₀, hf, hnot, ht⟩
    · rw [ht, List.filter_append]
      by_cases he : p e.key
      · have hnot' : e.key ∉ keys ((absorbAll [] es).filter fun e => p e.key) := fun h =>
          hnot ((List.filter_sublist.map _).subset h)
        simp [he, absorb_of_notMem hnot']
      · simp [he]
    · rw [ht, ht₀]
      by_cases he : p e.key
      · have hnot' : e.key ∉ keys (t₁.filter fun e => p e.key) := fun h =>
          hnot ((List.filter_sublist.map _).subset h)
        have hp : p f.key := hf ▸ he
        simp [he, hp, absorb_append_cons hnot' hf]
      · have hp : ¬ p f.key := hf ▸ he
        simp [he, hp]

end Tally

/-! ## Listed keys -/

/-- Whether a key is listed: one that is there by strict equality, the absent one as null. -/
def isListed (vs : List Value) : Option Value → Bool
  | none => vs.any Value.isNull
  | some key => vs.any fun v => v.strictEq key

/-- Any integer that is listed and rounded to the double of another integer stands beside that
one. -/
def ClosedUnderRounding (vs : List Value) : Prop :=
  ∀ n fits, Value.number (.integer n fits) ∈ vs → ∀ m fits',
    Number.ofDouble (Double.ofInt n) = .integer m fits' →
      isListed vs (some (.number (.integer m fits'))) = true

namespace Json

namespace Number

/-- What is equal to one of two numbers of a key is equal to the other, unless this is an integer
and it another one that is rounded to the same double. -/
theorem compare_eq_of_keyed_eq {a b c : Number} (h : a.keyed = b.keyed) (hc : c.compare a = .eq) :
    c.compare b = .eq ∨ ∃ k fits m fits', c = integer k fits ∧ b = integer m fits' ∧
      ofDouble (Double.ofInt k) = integer m fits' := by
  rcases a with ⟨n, fits⟩ | d <;> rcases b with ⟨m, fits'⟩ | e
  · have hab : integer n fits = integer m fits' := h
    exact .inl (hab ▸ hc)
  · have hscaled : (Double.ofInt n).scaled = e.scaled := (scaled_of_ofDouble h.symm).1
    left
    rcases c with ⟨k, hk⟩ | f
    · obtain rfl := compare_integers.1 hc
      exact (compare_real _ e).2 hscaled
    · exact (compare_real _ e).2 (((real_compare f _).1 hc).trans hscaled)
  · have hscaled : (Double.ofInt m).scaled = d.scaled := (scaled_of_ofDouble h).1
    rw [compare_real] at hc
    rcases c with ⟨k, hk⟩ | f
    · exact .inr ⟨k, hk, m, fits', rfl, rfl, (ofDouble_eq_ofDouble.2 hc).trans h⟩
    · exact .inl ((real_compare f _).2 (hc.trans hscaled.symm))
  · have hscaled : d.scaled = e.scaled := ofDouble_eq_ofDouble.1 h
    left
    rw [compare_real] at hc ⊢
    exact hc.trans hscaled

theorem keyed_ofDouble (d : Double) : (ofDouble d).keyed = ofDouble d := by
  rcases h : ofDouble d with n | e
  · rfl
  · obtain rfl := real_of_ofDouble h
    rw [keyed, h]

end Number

namespace Value

theorem keyed_eq_of_canonicalKey_eq {v w : Value} (h : v.canonicalKey = w.canonicalKey) :
    v.keyed = w.keyed := by
  rw [canonicalKey_eq_toText, canonicalKey_eq_toText] at h
  exact toText_injective h

/-- Values of one key are two numbers or the same. -/
theorem eq_or_numbers_of_keyed_eq {v w : Value} (h : v.keyed = w.keyed) :
    v = w ∨ ∃ a b, v = number a ∧ w = number b ∧ a.keyed = b.keyed := by
  cases v with
  | number a =>
    cases w with
    | number b => exact .inr ⟨a, b, rfl, rfl, number.inj h⟩
    | null | boolean | text | list | object => cases h
  | null | boolean | text | list | object =>
    cases w with
    | number b => cases h
    | null | boolean | text | list | object => exact .inl h

theorem keyed_ofExtended (x : Extended) : (ofExtended x).keyed = ofExtended x := by
  cases x with
  | finite d => rw [ofExtended, keyed, Number.keyed_ofDouble]
  | infinite | undefined => rfl

end Value

end Json

theorem isListed_of_canonicalKey_eq {vs : List Value} (hvs : ClosedUnderRounding vs)
    {v w : Value} (h : v.canonicalKey = w.canonicalKey) (hv : isListed vs (some v) = true) :
    isListed vs (some w) = true := by
  rcases Value.eq_or_numbers_of_keyed_eq (Value.keyed_eq_of_canonicalKey_eq h) with
    rfl | ⟨a, b, rfl, rfl, hab⟩
  · exact hv
  · obtain ⟨u, hu, hua⟩ := List.any_eq_true.1 hv
    cases u with
    | number c =>
      rcases Number.compare_eq_of_keyed_eq hab (beq_iff_eq.1 hua) with
        hcb | ⟨k, fits, m, fits', rfl, rfl, hround⟩
      · exact List.any_eq_true.2 ⟨_, hu, beq_iff_eq.2 hcb⟩
      · exact hvs k fits hu m fits' hround
    | null | boolean | text | list | object => cases hua

theorem isListed_congr {vs : List Value} (hvs : ClosedUnderRounding vs) {k l : Option Value}
    (h : canonicalForm k = canonicalForm l) : isListed vs k = isListed vs l := by
  rcases k with _ | v <;> rcases l with _ | w
  · rfl
  · cases h
  · cases h
  · have hkey : v.canonicalKey = w.canonicalKey := Option.some.inj h
    rw [Bool.eq_iff_iff]
    exact ⟨isListed_of_canonicalKey_eq hvs hkey, isListed_of_canonicalKey_eq hvs hkey.symm⟩

theorem eq_of_canonicalForm_eq {k l : Option Value} (hk : ∀ v, k = some v → v.keyed = v)
    (hl : ∀ v, l = some v → v.keyed = v) (h : canonicalForm k = canonicalForm l) : k = l := by
  rcases k with _ | v <;> rcases l with _ | w
  · rfl
  · cases h
  · cases h
  · have hkeyed := Value.keyed_eq_of_canonicalKey_eq (Option.some.inj h)
    rw [hk v rfl, hl w rfl] at hkeyed
    rw [hkeyed]

/-! ## Groups that are kept -/

section Groups

variable {α : Type}

/-- The list refuses no record of which another with the same canonical key is allowed. -/
def KeepsGroups (vs : List Value) (pairs : List (α × Option Value)) : Prop :=
  ∀ pair ∈ pairs, ∀ pair' ∈ pairs,
    canonicalForm pair.2 = canonicalForm pair'.2 → isListed vs pair.2 = isListed vs pair'.2

/-- Whether the list allows a key of this form that comes up. -/
def allowsForm (vs : List Value) (pairs : List (α × Option Value)) (form : Option String) : Bool :=
  pairs.any fun pair => decide (canonicalForm pair.2 = form) && isListed vs pair.2

theorem isListed_eq_allowsForm {vs : List Value} {pairs : List (α × Option Value)}
    (h : KeepsGroups vs pairs) {pair : α × Option Value} (hpair : pair ∈ pairs) :
    isListed vs pair.2 = allowsForm vs pairs (canonicalForm pair.2) := by
  rw [Bool.eq_iff_iff]
  simp only [allowsForm, List.any_eq_true, Bool.and_eq_true, decide_eq_true_eq]
  refine ⟨fun hlisted => ⟨pair, hpair, rfl, hlisted⟩, ?_⟩
  rintro ⟨pair', hpair', hform, hlisted⟩
  rw [← h pair' hpair' pair hpair hform]
  exact hlisted

theorem keepsGroups_of_closed {vs : List Value} (hvs : ClosedUnderRounding vs)
    (pairs : List (α × Option Value)) : KeepsGroups vs pairs :=
  fun _ _ _ _ hform => isListed_congr hvs hform

end Groups

/-! ## Keys by unit and by width -/

namespace Level

variable {level : Level}

/-- A key by unit or by width is in canonical form. -/
theorem keyed_of_keyOf (h : level.unit ≠ none ∨ level.interval ≠ none) {settings : Settings}
    {raw : Option Value} {key : Value} (hkey : level.keyOf settings raw = some key) :
    key.keyed = key := by
  obtain ⟨v, -, hv⟩ := Option.bind_eq_some_iff.1 hkey
  unfold keyOfValue at hv
  split at hv
  · obtain ⟨t, -, hv⟩ := Option.bind_eq_some_iff.1 hv
    obtain ⟨start, -, hv⟩ := Option.bind_eq_some_iff.1 hv
    obtain rfl := Option.some.inj hv
    rfl
  · cases v with
    | number n =>
      obtain rfl := Option.some.inj hv
      exact Value.keyed_ofExtended _
    | null | boolean | text | list | object => cases hv
  · next hunit hinterval => simp [hunit, hinterval] at h

theorem documentKey_eq_of_canonicalForm_eq (h : level.unit ≠ none ∨ level.interval ≠ none)
    {settings : Settings} {doc doc' : Value}
    (hform : canonicalForm (level.documentKey settings doc)
      = canonicalForm (level.documentKey settings doc')) :
    level.documentKey settings doc = level.documentKey settings doc' :=
  eq_of_canonicalForm_eq (fun _ => keyed_of_keyOf h) (fun _ => keyed_of_keyOf h) hform

end Level

/-! ## Dropping buckets -/

namespace Grouping

variable {α : Type} [Record α]

/-- The grouping with only these keys allowed at its outermost level, or all keys. -/
def allowing (grouping : Grouping) (values : Option (List Value)) : Grouping :=
  { grouping with level := { grouping.level with values := values } }

/-- Each record with its key, none refused. -/
def keyedRecords (grouping : Grouping) (settings : Settings) (records : List α) :
    List (α × Option Value) :=
  records.map fun record =>
    (record, grouping.level.documentKey settings (Record.document record))

theorem apply_allowing_none {grouping : Grouping} (h : grouping.validate = .ok ())
    (hitems : grouping.level.itemIds = none) (settings : Settings) (records : List α) :
    (grouping.allowing none).apply settings records
      = .ok (grouping.bucketsOf settings (grouping.keyedRecords settings records)) := by
  have hvalid : (grouping.allowing none).validate = .ok () := h
  have hlevel : (grouping.allowing none).level.itemIds = none := hitems
  have hadmits : (grouping.allowing none).level.admits = fun _ => true := rfl
  rw [apply_eq_bucketsOf hvalid, Level.pairs_of_no_items hlevel, hadmits, List.filter_true]
  rfl

theorem apply_allowing_some {grouping : Grouping} (h : grouping.validate = .ok ())
    (hitems : grouping.level.itemIds = none) (vs : List Value) (settings : Settings)
    (records : List α) :
    (grouping.allowing (some vs)).apply settings records
      = .ok (grouping.bucketsOf settings
          ((grouping.keyedRecords settings records).filter fun pair => isListed vs pair.2)) := by
  have hvalid : (grouping.allowing (some vs)).validate = .ok () := h
  have hlevel : (grouping.allowing (some vs)).level.itemIds = none := hitems
  have hadmits : (grouping.allowing (some vs)).level.admits = isListed vs := by
    funext key
    cases key <;> rfl
  rw [apply_eq_bucketsOf hvalid, Level.pairs_of_no_items hlevel, hadmits]
  rfl

section Buckets

variable {grouping : Grouping} {vs : List Value} {settings : Settings}
  {pairs : List (α × Option Value)}

/-- A key of the tally is the key of a pair, with its canonical form. -/
theorem exists_pair_of_mem {e : Entry}
    (he : e ∈ Tally.absorbAll [] (pairs.map (grouping.pairEntry settings))) :
    ∃ pair ∈ pairs, e.id = pair.2 ∧ e.key = canonicalForm pair.2 := by
  obtain ⟨first, rest, hwith, hjoin⟩ := Tally.gathered_of_mem _ e he
  have hfirst : first ∈ Tally.withKey e.key (pairs.map (grouping.pairEntry settings)) :=
    hwith ▸ List.mem_cons_self
  obtain ⟨hmem, hkey⟩ := List.mem_filter.1 hfirst
  obtain ⟨pair, hpair, rfl⟩ := List.mem_map.1 hmem
  refine ⟨pair, hpair, ?_, (of_decide_eq_true hkey).symm⟩
  rw [hjoin, Entry.id_foldl_join]
  rfl

/-- A list that tells no pairs of one group apart drops groups. -/
theorem bucketsOf_filter (h : KeepsGroups vs pairs) :
    grouping.bucketsOf settings (pairs.filter fun pair => isListed vs pair.2)
      = (grouping.bucketsOf settings pairs).filter fun bucket => isListed vs bucket.id := by
  have hentries : (pairs.filter fun pair => isListed vs pair.2).map (grouping.pairEntry settings)
      = (pairs.map (grouping.pairEntry settings)).filter fun e => allowsForm vs pairs e.key := by
    rw [List.filter_map]
    congr 1
    exact List.filter_congr fun _ hpair => isListed_eq_allowsForm h hpair
  rw [bucketsOf, hentries, Tally.filter_absorbAll, bucketsOf, Tally.toBuckets_eq_map,
    Tally.toBuckets_eq_map, List.filter_map]
  congr 1
  refine List.filter_congr fun e he => ?_
  obtain ⟨pair, hpair, hid, hkey⟩ := exists_pair_of_mem he
  rw [Function.comp_apply, Tally.id_bucketOf, hid, hkey, isListed_eq_allowsForm h hpair]

/-- A bucket of part of a group has a smaller count than the bucket of the group. -/
theorem isListed_of_bucketsOf_filter (hvalid : grouping.validate = .ok ())
    (h : grouping.bucketsOf settings (pairs.filter fun pair => isListed vs pair.2)
      = (grouping.bucketsOf settings pairs).filter fun bucket => isListed vs bucket.id)
    {pair pair' : α × Option Value} (hpair : pair ∈ pairs) (hpair' : pair' ∈ pairs)
    (hform : canonicalForm pair.2 = canonicalForm pair'.2) (hlisted : isListed vs pair.2 = true) :
    isListed vs pair'.2 = true := by
  set part := pairs.filter fun pair => isListed vs pair.2 with hpart
  have hforms : canonicalForm pair.2
      ∈ (grouping.bucketsOf settings part).map fun bucket => canonicalForm bucket.id := by
    rw [map_form_bucketsOf, List.mem_eraseDups]
    exact List.mem_map.2 ⟨pair, List.mem_filter.2 ⟨hpair, hlisted⟩, rfl⟩
  obtain ⟨bucket, hbucket, hid⟩ := List.mem_map.1 hforms
  have hcount := (isBucketOf_of_mem hvalid settings hbucket).count
  rw [h] at hbucket
  have hwhole := (isBucketOf_of_mem hvalid settings (List.mem_filter.1 hbucket).1).count
  have hgroup : group part (canonicalForm bucket.id)
      = (group pairs (canonicalForm bucket.id)).filter fun pair => isListed vs pair.2 := by
    rw [group, group, hpart, List.filter_filter, List.filter_filter]
    exact List.filter_congr fun _ _ => Bool.and_comm _ _
  rw [hgroup] at hcount
  have hall := List.length_filter_eq_length_iff.1 (hcount.symm.trans hwhole)
  refine hall pair' (List.mem_filter.2 ⟨hpair', ?_⟩)
  rw [decide_eq_true_eq, hid, hform]

end Buckets

theorem keepsGroups_of_unit_or_interval {grouping : Grouping}
    (h : grouping.level.unit ≠ none ∨ grouping.level.interval ≠ none) (vs : List Value)
    (settings : Settings) (records : List α) :
    KeepsGroups vs (grouping.keyedRecords settings records) := by
  intro pair hpair pair' hpair' hform
  obtain ⟨record, -, rfl⟩ := List.mem_map.1 hpair
  obtain ⟨record', -, rfl⟩ := List.mem_map.1 hpair'
  exact congrArg (isListed vs) (Level.documentKey_eq_of_canonicalForm_eq h hform)

/-- An allow-list keeps the buckets that are listed as they are and drops the others, if and only if
it refuses no record of which another in its group is allowed. It does so only where keys are values
as they stand, and only by listing an integer that is rounded to the double of another one. -/
theorem apply_allowing_eq_filter (grouping : Grouping) (vs : List Value) (settings : Settings)
    (records : List α) (hvalid : grouping.validate = .ok ())
    (hitems : grouping.level.itemIds = none) :
    ∃ listed all,
      (grouping.allowing (some vs)).apply settings records = .ok listed ∧
      (grouping.allowing none).apply settings records = .ok all ∧
      (listed = all.filter (fun bucket => isListed vs bucket.id) ↔
        KeepsGroups vs (grouping.keyedRecords settings records)) ∧
      ((grouping.level.unit ≠ none ∨ grouping.level.interval ≠ none ∨ ClosedUnderRounding vs) →
        listed = all.filter fun bucket => isListed vs bucket.id) := by
  refine ⟨_, _, apply_allowing_some hvalid hitems vs settings records,
    apply_allowing_none hvalid hitems settings records, ⟨?_, bucketsOf_filter⟩, fun h => ?_⟩
  · intro h pair hpair pair' hpair' hform
    rw [Bool.eq_iff_iff]
    exact ⟨isListed_of_bucketsOf_filter hvalid h hpair hpair' hform,
      isListed_of_bucketsOf_filter hvalid h hpair' hpair hform.symm⟩
  · refine bucketsOf_filter ?_
    rcases h with h | h | h
    · exact keepsGroups_of_unit_or_interval (.inl h) vs settings records
    · exact keepsGroups_of_unit_or_interval (.inr h) vs settings records
    · exact keepsGroups_of_closed h _

/-- Records with an integer, its double and a text, of which the list has the integer. -/
theorem apply_allowing_eq_filter_two_forms :
    let grouping : Grouping := ⟨{ field := ⟨"n"⟩ }, [{ field := ⟨"kind"⟩ }]⟩
    let settings := Settings.ofNow ⟨0, 0, by decide⟩
    let record (v : Value) : Value := .object [("n", v)]
    let records := [record (.int 2), record (.text "a"), record (.number (.real (.ofInt 2)))]
    ∃ listed all,
      (grouping.allowing (some [.int 2])).apply settings records = .ok listed ∧
      (grouping.allowing none).apply settings records = .ok all ∧
      listed.map Bucket.count = [2] ∧ all.map Bucket.count = [2, 1] ∧
      listed = all.filter fun bucket => isListed [.int 2] bucket.id := by
  intro grouping settings record records
  have hvs : ClosedUnderRounding [.int 2] := by
    intro n fits hn m fits' hround
    have htwo : Value.number (.integer n fits) = .int 2 := List.mem_singleton.1 hn
    obtain rfl : n = 2 := (Number.integer.inj (Value.number.inj htwo))
    have hdouble : Number.ofDouble (Double.ofInt 2) = .integer 2 (by decide) := by decide +kernel
    obtain rfl : m = 2 := (Number.integer.inj (hdouble.symm.trans hround)).symm
    rfl
  obtain ⟨listed, all, hlisted, hall, -, h⟩ :=
    apply_allowing_eq_filter grouping [.int 2] settings records rfl rfl
  have hsome : ((grouping.allowing (some [.int 2])).apply settings records).toOption.map
      (List.map Bucket.count) = some [2] := by decide +kernel
  have hnone : ((grouping.allowing none).apply settings records).toOption.map
      (List.map Bucket.count) = some [2, 1] := by decide +kernel
  rw [hlisted] at hsome
  rw [hall] at hnone
  exact ⟨listed, all, hlisted, hall, Option.some.inj hsome, Option.some.inj hnone,
    h (.inr (.inr hvs))⟩

/-- The integer `2 ^ 53 + 1` is listed. It is rounded to the double of `2 ^ 53`, so one of two
records in a group is allowed and makes a bucket of its own, where no bucket of the whole is
listed. -/
theorem apply_allowing_ne_filter :
    let grouping : Grouping := ⟨{ field := ⟨"n"⟩ }, []⟩
    let settings := Settings.ofNow ⟨0, 0, by decide⟩
    let vs : List Value := [.int 9007199254740993]
    let record (v : Value) : Value := .object [("n", v)]
    let records := [record (.int 9007199254740992),
      record (.number (.real (.ofInt 9007199254740992)))]
    (grouping.allowing (some vs)).apply settings records
      ≠ ((grouping.allowing none).apply settings records).map
          (List.filter fun bucket => isListed vs bucket.id) := by
  intro grouping settings vs record records h
  have hlengths := congrArg (fun result => result.toOption.map List.length) h
  revert hlengths
  decide +kernel

end Grouping

end RecordQuery

import Mathlib.Algebra.BigOperators.Group.List.Basic
import RecordQuery.Proofs.TallyGroups

/-!
# Conservation of counts

Counting an entry in adds its count to the total of a tally, whether its key is new or not
(`Tally.total_absorb`), so the counts of a level add up to the number of keys that were counted in.
At a level that gives each record one key these are the records that are not refused. Inside a
bucket the records are those that the bucket counts, so the counts there add up to its own
(`Grouping.apply_conservesCounts`).
-/

namespace RecordQuery

open Json

/-! ## Totals -/

namespace Tally

theorem total_eq_sum (t : Tally) : t.total = (t.map Entry.count).sum := by
  rw [total, List.sum_eq_foldl, List.foldl_map]

@[simp] theorem total_append (a b : Tally) : total (a ++ b) = total a + total b := by
  simp [total_eq_sum]

@[simp] theorem total_cons (e : Entry) (t : Tally) : total (e :: t) = e.count + total t := by
  simp [total_eq_sum]

@[simp] theorem total_nil : total [] = 0 := rfl

/-- What is counted in is neither lost nor counted twice. -/
theorem total_absorb (t : Tally) (e : Entry) : (absorb t e).total = t.total + e.count := by
  rcases absorb_cases t e with ⟨-, h⟩ | ⟨t₁, f, t₂, rfl, -, -, h⟩
  · rw [h]
    simp
  · rw [h]
    simp only [total_append, total_cons, Entry.count_join]
    omega

theorem total_absorbAll (es : List Entry) (t : Tally) :
    (absorbAll t es).total = t.total + (es.map Entry.count).sum := by
  induction es generalizing t with
  | nil => simp
  | cons e es ih =>
    rw [absorbAll_cons, ih, total_absorb, List.map_cons, List.sum_cons, Nat.add_assoc]

theorem sum_count_toBuckets (t : Tally) : ((toBuckets t).map Bucket.count).sum = t.total := by
  rw [toBuckets_eq_map, List.map_map, total_eq_sum]
  simp only [Function.comp_def, count_bucketOf]

end Tally

/-! ## What is conserved -/

variable {α : Type} [Record α]

namespace Level

/-- Whether the key of a record counts at a level that gives it one key. -/
def counts (level : Level) (settings : Settings) (record : α) : Bool :=
  level.admits (level.documentKey settings (Record.document record))

/-- The records that a bucket counts, each as often as it has the key of the bucket. -/
def countedIn (level : Level) (settings : Settings) (records : List α) (bucket : Bucket) : List α :=
  (Grouping.group (level.pairs settings records) (canonicalForm bucket.id)).map Prod.fst

/-- No bucket is empty. Where each record has one key, the counts add up to the number of records
whose key counts, of `total` that there are, and if no key is refused to `total` itself. -/
structure Conserves (level : Level) (settings : Settings) (records : List α) (total : Nat)
    (buckets : List Bucket) : Prop where
  pos : ∀ bucket ∈ buckets, 1 ≤ bucket.count
  counted : level.itemIds = none →
    (buckets.map Bucket.count).sum = records.countP (level.counts settings)
  le_total : level.itemIds = none → (buckets.map Bucket.count).sum ≤ total
  eq_total : level.itemIds = none → level.values = none → (buckets.map Bucket.count).sum = total

end Level

/-- Counts are conserved at every level: over `total` records at the first, and inside each of its
buckets over the records that the bucket counts. -/
def ConservesCounts (settings : Settings) : List Level → List α → Nat → List Bucket → Prop
  | [], _, _, buckets => buckets = []
  | level :: deeper, records, total, buckets =>
    level.Conserves settings records total buckets ∧
      ∀ bucket ∈ buckets, ConservesCounts settings deeper
        (level.countedIn settings records bucket) bucket.count bucket.buckets

namespace Grouping

theorem sum_count_bucketsOf (grouping : Grouping) (settings : Settings)
    (pairs : List (α × Option Value)) :
    ((grouping.bucketsOf settings pairs).map Bucket.count).sum = pairs.length := by
  have hone : (pairs.map (grouping.pairEntry settings)).map Entry.count
      = List.replicate pairs.length 1 := by
    rw [List.map_map, ← List.map_const']
    rfl
  rw [bucketsOf, Tally.sum_count_toBuckets, Tally.total_absorbAll, hone]
  simp

theorem IsBucketOf.count_pos {grouping : Grouping} {settings : Settings}
    {group : List (α × Option Value)} {bucket : Bucket}
    (h : grouping.IsBucketOf settings group bucket) : 1 ≤ bucket.count := by
  have hid := h.id
  rw [h.count]
  rcases group with _ | ⟨pair, pairs⟩
  · cases hid
  · simp

theorem conserves_bucketsOf {grouping : Grouping} (h : grouping.validate = .ok ())
    (settings : Settings) (records : List α) :
    grouping.level.Conserves settings records records.length
      (grouping.bucketsOf settings (grouping.level.pairs settings records)) := by
  have hcounted : grouping.level.itemIds = none →
      ((grouping.bucketsOf settings (grouping.level.pairs settings records)).map Bucket.count).sum
        = records.countP (grouping.level.counts settings) := by
    intro hitems
    rw [sum_count_bucketsOf, Level.pairs_of_no_items hitems, ← List.countP_eq_length_filter,
      List.countP_map]
    rfl
  refine ⟨fun bucket hbucket => (isBucketOf_of_mem h settings hbucket).count_pos, hcounted,
    fun hitems => ?_, fun hitems hvalues => ?_⟩
  · rw [hcounted hitems]
    exact List.countP_le_length
  · rw [hcounted hitems, List.countP_eq_length]
    intro record _
    simp [Level.counts, Level.admits, hvalues]

/-- The induction is on the levels inside. What is in a bucket are the buckets of the next grouping
for the records that the bucket counts, and these are as many as its count. -/
theorem conservesCounts_bucketsOf (settings : Settings) (deeper : List Level) :
    ∀ (level : Level) (records : List α), Grouping.validate ⟨level, deeper⟩ = .ok () →
      ConservesCounts settings (level :: deeper) records records.length
        (Grouping.bucketsOf ⟨level, deeper⟩ settings (level.pairs settings records)) := by
  induction deeper with
  | nil =>
    intro level records h
    refine ⟨conserves_bucketsOf h settings records, fun bucket hbucket => ?_⟩
    exact (isBucketOf_of_mem h settings hbucket).buckets
  | cons next deeper ih =>
    intro level records h
    refine ⟨conserves_bucketsOf h settings records, fun bucket hbucket => ?_⟩
    have hbucketOf := isBucketOf_of_mem h settings hbucket
    have hinner : Grouping.validate ⟨next, deeper⟩ = .ok () := validate_inner h rfl
    have hbuckets : Grouping.apply ⟨next, deeper⟩ settings (level.countedIn settings records bucket)
        = .ok bucket.buckets := hbucketOf.buckets
    have hlength : bucket.count = (level.countedIn settings records bucket).length := by
      rw [hbucketOf.count, Level.countedIn, List.length_map]
    rw [apply_eq_bucketsOf hinner] at hbuckets
    rw [← Except.ok.inj hbuckets, hlength]
    exact ih next _ hinner

/-- Every record that counts is counted once at a level that gives it one key, and the counts inside
a bucket are conserved from its own count. -/
theorem apply_conservesCounts (grouping : Grouping) (settings : Settings) (records : List α)
    (h : grouping.validate = .ok ()) :
    ∃ buckets, grouping.apply settings records = .ok buckets ∧
      ConservesCounts settings grouping.levels records records.length buckets := by
  refine ⟨_, apply_eq_bucketsOf h settings records, ?_⟩
  exact conservesCounts_bucketsOf settings grouping.deeper grouping.level records h

/-- A record that is counted twice in one bucket and once in another, over a level that refuses one
of two kinds and a level that refuses nothing. -/
theorem apply_conservesCounts_repeated_key :
    let tags : Level :=
      { field := ⟨"tags"⟩, itemIds := some [.text "t"], itemProperty := some "v" }
    let kind : Level := { field := ⟨"kind"⟩, values := some [.text "k"] }
    let grouping : Grouping := ⟨tags, [kind, { field := ⟨"n"⟩ }]⟩
    let settings := Settings.ofNow ⟨0, 0, by decide⟩
    let item (v : Value) : Value := .object [("id", .text "t"), ("v", v)]
    let record (kind : Value) : Value := .object [("kind", kind),
      ("tags", .list [item (.boolean true), item .null, item (.boolean true)])]
    let records := [record (.text "k"), record (.text "l")]
    grouping.validate = .ok () ∧
      ∃ buckets, grouping.apply settings records = .ok buckets ∧
        buckets.map Bucket.count = [4, 2] ∧
        buckets.map (fun bucket => bucket.buckets.map Bucket.count) = [[2], [1]] ∧
        ConservesCounts settings grouping.levels records 2 buckets := by
  intro tags kind grouping settings item record records
  obtain ⟨buckets, hbuckets, hconserves⟩ := apply_conservesCounts grouping settings records rfl
  have hcounts : (grouping.apply settings records).toOption.map (fun buckets =>
      (buckets.map Bucket.count, buckets.map fun bucket => bucket.buckets.map Bucket.count))
        = some ([4, 2], [[2], [1]]) := by decide +kernel
  rw [hbuckets] at hcounts
  obtain ⟨houter, hinner⟩ := Prod.mk.inj (Option.some.inj hcounts)
  exact ⟨rfl, buckets, hbuckets, houter, hinner, hconserves⟩

end Grouping

end RecordQuery

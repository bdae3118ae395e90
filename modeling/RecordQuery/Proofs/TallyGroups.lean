import Mathlib.Algebra.GroupWithZero.Nat
import Mathlib.Data.List.Induction
import Mathlib.Data.List.Forall2
import RecordQuery.Proofs.TallyMerge

/-!
# Buckets as groups

Records are never grouped before they are counted: a tally takes one document at a time and merges
what is inside its entries on the way. The buckets are still those of grouping first. There is one
for each canonical key, in the order in which the keys first come up (`keys_absorbAll`), and an
entry is all contributions of its key as one (`gathered_of_mem`), so that its inner tally is the
tally of the records in the group.
-/

namespace RecordQuery

open Json

/-! ## Entries joined one after the other -/

namespace Entry

@[simp] theorem id_foldl_join : ∀ (es : List Entry) (e : Entry), (es.foldl join e).id = e.id
  | [], _ => rfl
  | f :: es, e => by rw [List.foldl_cons, id_foldl_join es, id_join]

theorem count_foldl_join : ∀ (es : List Entry) (e : Entry),
    (es.foldl join e).count = e.count + (es.map count).sum
  | [], _ => rfl
  | f :: es, e => by
    rw [List.foldl_cons, count_foldl_join es, count_join, List.map_cons, List.sum_cons,
      Nat.add_assoc]

theorem inner_foldl_join : ∀ (es : List Entry) (e : Entry),
    (es.foldl join e).inner = e.inner.absorbAll (es.flatMap inner)
  | [], e => by simp
  | f :: es, e => by
    rw [List.foldl_cons, inner_foldl_join es, inner_join, List.flatMap_cons,
      Tally.absorbAll_append]

end Entry

namespace Tally

def withKey (key : Option String) (es : List Entry) : List Entry :=
  es.filter fun e => e.key = key

theorem withKey_append (key : Option String) (es fs : List Entry) :
    withKey key (es ++ fs) = withKey key es ++ withKey key fs :=
  List.filter_append ..

theorem withKey_eq_nil {key : Option String} {es : List Entry} (h : key ∉ keys es) :
    withKey key es = [] := by
  rw [withKey, List.filter_eq_nil_iff]
  intro e he hkey
  simp only [decide_eq_true_eq] at hkey
  exact h (hkey ▸ key_mem_keys he)

/-- All entries of the key of `e` as one. -/
def Gathered (es : List Entry) (e : Entry) : Prop :=
  ∃ first rest, withKey e.key es = first :: rest ∧ e = rest.foldl Entry.join first

/-- The keys are those of the entries counted in, in the order in which they first come up. -/
theorem keys_absorbAll (es : List Entry) : keys (absorbAll [] es) = (keys es).eraseDups := by
  induction es using List.reverseRecOn with
  | nil => simp
  | append_singleton es e ih =>
    rw [absorbAll_concat, keys_absorb, ih, keys_append, List.eraseDups_append]
    by_cases h : e.key ∈ keys es
    · rw [if_pos (List.mem_eraseDups.2 h)]
      simp [List.removeAll, h]
    · rw [if_neg (fun hk => h (List.mem_eraseDups.1 hk))]
      simp [List.removeAll, h, List.eraseDups_cons]

theorem nodup_keys_absorbAll (es : List Entry) : (keys (absorbAll [] es)).Nodup := by
  induction es using List.reverseRecOn with
  | nil => simp
  | append_singleton es e ih =>
    rw [absorbAll_concat]
    exact nodup_keys_absorb ih e

theorem Gathered.append {es : List Entry} {e f : Entry} (h : Gathered es e) (hne : f.key ≠ e.key) :
    Gathered (es ++ [f]) e := by
  obtain ⟨first, rest, hes, he⟩ := h
  have hnot : e.key ∉ keys [f] := by simpa using Ne.symm hne
  refine ⟨first, rest, ?_, he⟩
  rw [withKey_append, hes, withKey_eq_nil hnot, List.append_nil]

theorem Gathered.join {es : List Entry} {e f : Entry} (h : Gathered es e) (hf : f.key = e.key) :
    Gathered (es ++ [f]) (e.join f) := by
  obtain ⟨first, rest, hes, he⟩ := h
  refine ⟨first, rest ++ [f], ?_, ?_⟩
  · rw [Entry.key_join, withKey_append, hes]
    simp [withKey, hf]
  · rw [List.foldl_append, ← he]
    rfl

/-- The induction adds entries at the end: the last one is new, or joins the entry of its key and
leaves all others. -/
theorem gathered_of_mem (es : List Entry) : ∀ e ∈ absorbAll [] es, Gathered es e := by
  induction es using List.reverseRecOn with
  | nil => simp
  | append_singleton es f ih =>
    intro e he
    rw [absorbAll_concat] at he
    rcases absorb_cases (absorbAll [] es) f with ⟨hnot, ht⟩ | ⟨t₁, g, t₂, ht₀, hg, hnot, ht⟩
    · rw [ht, List.mem_append, List.mem_singleton] at he
      rcases he with he | rfl
      · exact (ih e he).append fun h => hnot (h ▸ key_mem_keys he)
      · rw [keys_absorbAll, List.mem_eraseDups] at hnot
        refine ⟨e, [], ?_, rfl⟩
        rw [withKey_append, withKey_eq_nil hnot]
        simp [withKey]
    · have hnd := nodup_keys_absorbAll es
      rw [ht₀] at ih hnd
      rw [keys_append, keys_cons, List.nodup_append] at hnd
      rw [ht, List.mem_append, List.mem_cons] at he
      rcases he with he | rfl | he
      · exact (ih e (by simp [he])).append fun h => hnot (h ▸ key_mem_keys he)
      · exact (ih g (by simp)).join hg.symm
      · refine (ih e (by simp [he])).append fun h => ?_
        exact (List.nodup_cons.1 hnd.2.1).1 (hg.trans h ▸ key_mem_keys he)

/-- Tallies of parts of the entries stand for the entries. -/
theorem absorbAll_flatMap_tallied {β : Type} (f : β → List Entry)
    (h : ∀ b, ∀ e ∈ f b, SoundEntry e) : ∀ (bs : List β) (t : Tally),
      absorbAll t (bs.flatMap fun b => absorbAll [] (f b)) = absorbAll t (bs.flatMap f)
  | [], t => by simp
  | b :: bs, t => by
    rw [List.flatMap_cons, List.flatMap_cons, absorbAll_append, absorbAll_append,
      absorbAll_tallied t (h b), absorbAll_flatMap_tallied f h bs]

theorem contributionsOf_no_levels (settings : Settings) (docs : List Value) :
    contributionsOf settings [] docs = [] := by
  rw [contributionsOf, List.flatMap_eq_nil_iff]
  intro doc _
  rw [contributions]

theorem toBuckets_eq_map : ∀ t : Tally, toBuckets t = t.map bucketOf
  | [] => by rw [toBuckets, List.map_nil]
  | e :: t => by rw [toBuckets, toBuckets_eq_map t, List.map_cons]

@[simp] theorem id_bucketOf (e : Entry) : (bucketOf e).id = e.id := by
  cases e
  rw [bucketOf]
  rfl

@[simp] theorem count_bucketOf (e : Entry) : (bucketOf e).count = e.count := by
  cases e
  rw [bucketOf]
  rfl

@[simp] theorem buckets_bucketOf (e : Entry) : (bucketOf e).buckets = toBuckets e.inner := by
  cases e
  rw [bucketOf]
  rfl

end Tally

/-! ## Grouping first -/

variable {α : Type} [Record α]

/-- The records with the keys that count, in order; a record comes once for each of its keys. -/
def Level.pairs (level : Level) (settings : Settings) (records : List α) :
    List (α × Option Value) :=
  records.flatMap fun record => (level.keys settings (Record.document record)).map (record, ·)

/-- The key of a document at a level that does not take its values from the items of a list. -/
def Level.documentKey (level : Level) (settings : Settings) (doc : Value) : Option Value :=
  level.keyOf settings (level.field.lookup? doc)

/-- Without items to choose a document has one key, which may be refused. -/
theorem Level.pairs_of_no_items {level : Level} (h : level.itemIds = none) (settings : Settings)
    (records : List α) :
    level.pairs settings records
      = (records.map fun record => (record, level.documentKey settings (Record.document record))).filter
          fun pair => level.admits pair.2 := by
  induction records with
  | nil => rfl
  | cons record records ih =>
    have hkeys : level.keys settings (Record.document record)
        = [level.documentKey settings (Record.document record)].filter level.admits := by
      rw [keys, candidates, h]
      rfl
    rw [pairs, List.flatMap_cons, ← pairs, ih, hkeys, List.map_cons]
    simp only [List.filter_cons, List.filter_nil]
    split <;> rfl

/-- The canonical form of a key. The absent key is a form of its own. -/
def canonicalForm (key : Option Value) : Option String :=
  key.map Value.canonicalKey

namespace Grouping

def inner? : Grouping → Option Grouping
  | ⟨_, []⟩ => none
  | ⟨_, level :: deeper⟩ => some ⟨level, deeper⟩

def group (pairs : List (α × Option Value)) (form : Option String) : List (α × Option Value) :=
  pairs.filter fun pair => canonicalForm pair.2 = form

/-- What the bucket of a group has to be: it has the first key of the group and the number of its
pairs, and in it are the buckets of its records. -/
structure IsBucketOf (grouping : Grouping) (settings : Settings) (group : List (α × Option Value))
    (bucket : Bucket) : Prop where
  id : group.head?.map Prod.snd = some bucket.id
  count : bucket.count = group.length
  buckets : match grouping.inner? with
    | none => bucket.buckets = []
    | some inner => inner.apply settings (group.map Prod.fst) = .ok bucket.buckets

/-- The entry that a pair counts in. -/
def pairEntry (grouping : Grouping) (settings : Settings) (pair : α × Option Value) : Entry :=
  .of pair.2 1 (Tally.absorbAll []
    (Tally.contributions settings (Record.document pair.1) grouping.deeper))

theorem contributionsOf_eq_map (grouping : Grouping) (settings : Settings) (records : List α) :
    Tally.contributionsOf settings grouping.levels (records.map Record.document)
      = (grouping.level.pairs settings records).map (grouping.pairEntry settings) := by
  simp only [Tally.contributionsOf, Level.pairs, List.flatMap_map, List.map_flatMap, List.map_map]
  rfl

theorem tally_eq_pairs (grouping : Grouping) (settings : Settings) (records : List α) :
    grouping.tally settings records = Tally.absorbAll []
      ((grouping.level.pairs settings records).map (grouping.pairEntry settings)) := by
  rw [tally_eq, contributionsOf_eq_map]

theorem keys_pairEntry (grouping : Grouping) (settings : Settings)
    (pairs : List (α × Option Value)) :
    Tally.keys (pairs.map (grouping.pairEntry settings))
      = pairs.map fun pair => canonicalForm pair.2 := by
  simp [Tally.keys, pairEntry, canonicalForm]

theorem sound_pairs (grouping : Grouping) (settings : Settings)
    (pairs : List (α × Option Value)) :
    Tally.Sound (Tally.absorbAll [] (pairs.map (grouping.pairEntry settings))) := by
  refine Tally.sound_absorbAll _ Tally.sound_nil fun e he => ?_
  obtain ⟨pair, -, rfl⟩ := List.mem_map.1 he
  exact ⟨rfl, Tally.sound_absorbAll _ Tally.sound_nil (Tally.soundEntry_contributions _ _ _)⟩

theorem withKey_pairEntry (grouping : Grouping) (settings : Settings)
    (pairs : List (α × Option Value)) (form : Option String) :
    Tally.withKey form (pairs.map (grouping.pairEntry settings))
      = (group pairs form).map (grouping.pairEntry settings) := by
  rw [Tally.withKey, List.filter_map]
  rfl

theorem inner_eq_none {grouping : Grouping} (h : grouping.inner? = none) :
    grouping.deeper = [] := by
  rcases grouping with ⟨level, _ | ⟨next, deeper⟩⟩
  · rfl
  · cases h

theorem inner_eq_some {grouping inner : Grouping} (h : grouping.inner? = some inner) :
    grouping.deeper = inner.levels := by
  rcases grouping with ⟨level, _ | ⟨next, deeper⟩⟩
  · cases h
  · cases h
    rfl

theorem validate_level {grouping : Grouping} (h : grouping.validate = .ok ()) :
    grouping.level.validate = .ok () := by
  rw [validate, levels, List.forM] at h
  rcases hl : grouping.level.validate with fault | ⟨⟩
  · rw [hl] at h
    cases h
  · rfl

theorem validate_inner {grouping inner : Grouping} (h : grouping.validate = .ok ())
    (hin : grouping.inner? = some inner) : inner.validate = .ok () := by
  rw [validate, levels, inner_eq_some hin, List.forM] at h
  rcases hl : grouping.level.validate with fault | ⟨⟩ <;> rw [hl] at h
  · cases h
  · exact h

/-- What is inside the entry of a group is the tally of the records in the group. -/
theorem inner_foldl_pairEntry (grouping : Grouping) (settings : Settings)
    (pair : α × Option Value) (pairs : List (α × Option Value)) :
    ((pairs.map (grouping.pairEntry settings)).foldl Entry.join
        (grouping.pairEntry settings pair)).inner
      = Tally.absorbAll [] (Tally.contributionsOf settings grouping.deeper
          (((pair :: pairs).map Prod.fst).map Record.document)) := by
  rw [Entry.inner_foldl_join, pairEntry, Entry.inner_of, List.flatMap_map]
  simp only [pairEntry, Entry.inner_of]
  rw [Tally.absorbAll_flatMap_tallied
    (fun pair : α × Option Value =>
      Tally.contributions settings (Record.document pair.1) grouping.deeper)
    (fun pair => Tally.soundEntry_contributions settings _ _), ← Tally.absorbAll_append]
  simp [Tally.contributionsOf, List.flatMap_map]

theorem isBucketOf_of_gathered {grouping : Grouping} (h : grouping.validate = .ok ())
    (settings : Settings) {pairs : List (α × Option Value)} {e : Entry}
    (he : Tally.Gathered (pairs.map (grouping.pairEntry settings)) e) :
    grouping.IsBucketOf settings (group pairs e.key) (Tally.bucketOf e) := by
  obtain ⟨first, rest, hkey, hjoin⟩ := he
  rw [withKey_pairEntry] at hkey
  obtain ⟨pair, others, hgroup, rfl, rfl⟩ := List.map_eq_cons_iff.1 hkey
  have hinner := inner_foldl_pairEntry grouping settings pair others
  rw [← hjoin] at hinner
  rw [hgroup]
  refine ⟨?_, ?_, ?_⟩
  · rw [Tally.id_bucketOf, hjoin, Entry.id_foldl_join]
    rfl
  · have hcount : (others.map (grouping.pairEntry settings)).map Entry.count
        = List.replicate others.length 1 := by
      rw [List.map_map, ← List.map_const']
      rfl
    rw [Tally.count_bucketOf, hjoin, Entry.count_foldl_join, hcount, List.sum_replicate_nat, pairEntry,
      Entry.count_of, List.length_cons, Nat.mul_one, Nat.add_comm]
  · rw [Tally.buckets_bucketOf, hinner]
    split
    · next hin =>
      rw [inner_eq_none hin, Tally.contributionsOf_no_levels, Tally.absorbAll_nil, Tally.toBuckets]
    · next inner hin =>
      rw [apply_of_valid (validate_inner h hin), tally_eq, inner_eq_some hin]

/-- The buckets of records with their keys. -/
def bucketsOf (grouping : Grouping) (settings : Settings) (pairs : List (α × Option Value)) :
    List Bucket :=
  Tally.toBuckets (Tally.absorbAll [] (pairs.map (grouping.pairEntry settings)))

theorem apply_eq_bucketsOf {grouping : Grouping} (h : grouping.validate = .ok ())
    (settings : Settings) (records : List α) :
    grouping.apply settings records
      = .ok (grouping.bucketsOf settings (grouping.level.pairs settings records)) := by
  rw [apply_of_valid h, tally_eq_pairs, bucketsOf]

theorem map_form_bucketsOf (grouping : Grouping) (settings : Settings)
    (pairs : List (α × Option Value)) :
    (grouping.bucketsOf settings pairs).map (fun bucket => canonicalForm bucket.id)
      = (pairs.map fun pair => canonicalForm pair.2).eraseDups := by
  rw [bucketsOf, Tally.toBuckets_eq_map, List.map_map, ← keys_pairEntry grouping settings,
    ← Tally.keys_absorbAll, Tally.keys]
  refine List.map_congr_left fun e he => ?_
  rw [Function.comp_apply, Tally.id_bucketOf]
  exact ((sound_pairs grouping settings pairs).key e he).symm

theorem isBucketOf_of_mem {grouping : Grouping} (h : grouping.validate = .ok ())
    (settings : Settings) {pairs : List (α × Option Value)} {bucket : Bucket}
    (hbucket : bucket ∈ grouping.bucketsOf settings pairs) :
    grouping.IsBucketOf settings (group pairs (canonicalForm bucket.id)) bucket := by
  rw [bucketsOf, Tally.toBuckets_eq_map] at hbucket
  obtain ⟨e, he, rfl⟩ := List.mem_map.1 hbucket
  have hkey := (sound_pairs grouping settings pairs).key e he
  rw [Tally.id_bucketOf, canonicalForm, ← hkey]
  exact isBucketOf_of_gathered h settings (Tally.gathered_of_mem _ e he)

/-- The buckets of a list of records are those of its groups, one for each canonical form of a key
in the order in which the forms first come up. -/
theorem apply_eq_groups (grouping : Grouping) (settings : Settings) (records : List α)
    (h : grouping.validate = .ok ()) :
    ∃ buckets, grouping.apply settings records = .ok buckets ∧
      List.Forall₂
        (fun form bucket => grouping.IsBucketOf settings
          (group (grouping.level.pairs settings records) form) bucket)
        ((grouping.level.pairs settings records).map fun pair => canonicalForm pair.2).eraseDups
        buckets := by
  refine ⟨_, apply_of_valid h settings records, ?_⟩
  rw [← keys_pairEntry grouping settings, ← Tally.keys_absorbAll, ← tally_eq_pairs,
    Tally.toBuckets_eq_map, Tally.keys, List.forall₂_map_left_iff, List.forall₂_map_right_iff,
    List.forall₂_same]
  intro e he
  rw [tally_eq_pairs] at he
  exact isBucketOf_of_gathered h settings (Tally.gathered_of_mem _ e he)

/-- One record in two buckets, in one of them twice. -/
theorem apply_eq_groups_two_forms :
    let level : Level :=
      { field := ⟨"tags"⟩, itemIds := some [.text "t"], itemProperty := some "v" }
    let grouping : Grouping := ⟨level, [{ field := ⟨"kind"⟩ }]⟩
    let settings := Settings.ofNow ⟨0, 0, by decide⟩
    let item (v : Value) : Value := .object [("id", .text "t"), ("v", v)]
    let records : List Value := [.object [("kind", .text "k"),
      ("tags", .list [item (.boolean true), item .null, item (.boolean true)])]]
    ((level.pairs settings records).map fun pair => canonicalForm pair.2)
        = [some "true", none, some "true"] ∧
      ∃ buckets, grouping.apply settings records = .ok buckets ∧
        List.Forall₂
          (fun form bucket =>
            grouping.IsBucketOf settings (group (level.pairs settings records) form) bucket)
          [some "true", none] buckets := by
  intro level grouping settings item records
  have hforms : ((level.pairs settings records).map fun pair => canonicalForm pair.2)
      = [some "true", none, some "true"] := by decide +kernel
  have hgroups := apply_eq_groups grouping settings records (by rfl)
  rw [hforms] at hgroups
  exact ⟨hforms, hgroups⟩

end Grouping

end RecordQuery

import RecordQuery.Proofs.KeyOrder
import RecordQuery.Proofs.TallyGroups

/-!
# Laws of merging buckets

Lists of buckets come from anywhere, and one key may come up in them more than once at any level, so
what a list has at a path of keys is all that its buckets with these keys hold together. Merging
two lists is tallying the one after the other (`mergeBuckets_eq_toBuckets`), and what the merge has
inside a key is the merge of what the two lists have inside it (`inside_mergeBuckets`). So the laws
of the outermost level, on the order of the keys and the sums of the counts, hold at every level.
-/

namespace RecordQuery

open Json

namespace Bucket

def form (bucket : Bucket) : Option String :=
  canonicalForm bucket.id

/-- The buckets with a key. -/
def withForm (form : Option String) (buckets : List Bucket) : List Bucket :=
  buckets.filter fun bucket => bucket.form = form

/-- The buckets directly inside a path of canonical keys, the empty path standing for the list
itself. -/
def inside : List (Option String) → List Bucket → List Bucket
  | [], bs => bs
  | form :: path, bs => inside path ((withForm form bs).flatMap buckets)

/-- The canonical keys directly inside a path, as often as they come up. -/
def formsAt (path : List (Option String)) (buckets : List Bucket) : List (Option String) :=
  (inside path buckets).map form

/-- The sum of the counts of the buckets with a key directly inside a path. -/
def countAt (path : List (Option String)) (form : Option String) (buckets : List Bucket) : Nat :=
  ((withForm form (inside path buckets)).map count).sum

theorem withForm_append (form : Option String) (as bs : List Bucket) :
    withForm form (as ++ bs) = withForm form as ++ withForm form bs :=
  List.filter_append ..

end Bucket

/-! ## Tallies -/

namespace Tally

/-- The entries directly inside the entries with a key. -/
def innerOf (key : Option String) (es : List Entry) : List Entry :=
  (withKey key es).flatMap Entry.inner

/-- The entries of a key in a tally of entries are these entries as one, if there are any. -/
theorem withKey_absorbAll (key : Option String) (es : List Entry) :
    (withKey key es = [] ∧ withKey key (absorbAll [] es) = []) ∨
      ∃ first rest, withKey key es = first :: rest ∧
        withKey key (absorbAll [] es) = [rest.foldl Entry.join first] := by
  by_cases hkey : key ∈ keys (absorbAll [] es)
  · obtain ⟨e, he, rfl⟩ := List.mem_map.1 hkey
    obtain ⟨first, rest, hes, hjoin⟩ := gathered_of_mem es e he
    exact .inr ⟨first, rest, hes, hjoin ▸ filter_eq_singleton_of_nodup (nodup_keys_absorbAll es) he⟩
  · have hes : key ∉ keys es := by
      rwa [keys_absorbAll, List.mem_eraseDups] at hkey
    exact .inl ⟨withKey_eq_nil hes, withKey_eq_nil hkey⟩

theorem sum_count_absorbAll (key : Option String) (es : List Entry) :
    ((withKey key (absorbAll [] es)).map Entry.count).sum
      = ((withKey key es).map Entry.count).sum := by
  rcases withKey_absorbAll key es with ⟨hes, ht⟩ | ⟨first, rest, hes, ht⟩
  · rw [hes, ht]
  · rw [hes, ht, List.map_singleton, List.sum_singleton, Entry.count_foldl_join,
      List.map_cons, List.sum_cons]

theorem mem_of_mem_withKey {key : Option String} {e : Entry} {es : List Entry}
    (h : e ∈ withKey key es) : e ∈ es :=
  (List.mem_filter.1 h).1

/-- The inside of a tally of entries is the tally of what is inside the entries. -/
theorem innerOf_absorbAll (key : Option String) {es : List Entry} (h : ∀ e ∈ es, SoundEntry e) :
    innerOf key (absorbAll [] es) = absorbAll [] (innerOf key es) := by
  rw [innerOf, innerOf]
  rcases withKey_absorbAll key es with ⟨hes, ht⟩ | ⟨first, rest, hes, ht⟩
  · rw [hes, ht, List.flatMap_nil, absorbAll_nil]
  · have hfirst : Sound first.inner := (h first (mem_of_mem_withKey (hes ▸ List.mem_cons_self))).2
    have htally : absorbAll [] first.inner = first.inner := by
      rw [absorbAll_of_nodup (by simpa using hfirst.nodup), List.nil_append]
    rw [hes, ht, List.flatMap_singleton, Entry.inner_foldl_join, List.flatMap_cons,
      absorbAll_append, htally]

/-! ## Tallies of buckets -/

theorem entriesOf_eq_map (bs : List Bucket) : entriesOf bs = bs.map entryOf := by
  induction bs with
  | nil => rw [entriesOf, List.map_nil]
  | cons b bs ih => rw [entriesOf, ih, List.map_cons]

@[simp] theorem key_entryOf (b : Bucket) : (entryOf b).key = b.form := by
  cases b
  rw [entryOf]
  rfl

@[simp] theorem count_entryOf (b : Bucket) : (entryOf b).count = b.count := by
  cases b
  rw [entryOf]
  rfl

@[simp] theorem inner_entryOf (b : Bucket) : (entryOf b).inner = ofBuckets b.buckets := by
  cases b
  rw [entryOf]
  rfl

mutual

theorem soundEntry_entryOf : ∀ b : Bucket, SoundEntry (entryOf b)
  | .mk id count bs => by
    rw [entryOf]
    exact ⟨rfl, sound_absorbAll _ sound_nil (soundEntry_entriesOf bs)⟩

theorem soundEntry_entriesOf : ∀ bs : List Bucket, ∀ e ∈ entriesOf bs, SoundEntry e
  | [], e, he => by simp [entriesOf] at he
  | b :: bs, e, he => by
    rw [entriesOf] at he
    rcases List.mem_cons.1 he with rfl | he
    · exact soundEntry_entryOf b
    · exact soundEntry_entriesOf bs e he

end

theorem sound_ofBuckets (bs : List Bucket) : Sound (ofBuckets bs) :=
  sound_absorbAll _ sound_nil (soundEntry_entriesOf bs)

theorem keys_entriesOf (bs : List Bucket) : keys (entriesOf bs) = bs.map Bucket.form := by
  rw [entriesOf_eq_map, keys, List.map_map]
  exact List.map_congr_left fun b _ => key_entryOf b

theorem withKey_entriesOf (key : Option String) (bs : List Bucket) :
    withKey key (entriesOf bs) = entriesOf (Bucket.withForm key bs) := by
  rw [entriesOf_eq_map, entriesOf_eq_map, withKey, List.filter_map, Bucket.withForm]
  simp only [Function.comp_def, key_entryOf]

theorem entriesOf_flatMap (bs : List Bucket) :
    entriesOf (bs.flatMap Bucket.buckets) = bs.flatMap fun b => entriesOf b.buckets := by
  simp only [entriesOf_eq_map, List.map_flatMap]

theorem innerOf_ofBuckets (key : Option String) (bs : List Bucket) :
    innerOf key (ofBuckets bs)
      = ofBuckets ((Bucket.withForm key bs).flatMap Bucket.buckets) := by
  have hinner : innerOf key (entriesOf bs)
      = (Bucket.withForm key bs).flatMap fun b => absorbAll [] (entriesOf b.buckets) := by
    rw [innerOf, withKey_entriesOf, entriesOf_eq_map, List.flatMap_map]
    simp only [inner_entryOf, ofBuckets]
  rw [ofBuckets, innerOf_absorbAll key (soundEntry_entriesOf bs), hinner,
    absorbAll_flatMap_tallied (fun b : Bucket => entriesOf b.buckets)
      (fun b => soundEntry_entriesOf b.buckets), ← entriesOf_flatMap, ofBuckets]

theorem merge_ofBuckets (as bs : List Bucket) :
    (ofBuckets as).merge (ofBuckets bs) = ofBuckets (as ++ bs) := by
  rw [merge, ofBuckets, ofBuckets, absorbAll_tallied _ (soundEntry_entriesOf bs),
    ← absorbAll_append, ofBuckets, entriesOf_eq_map, entriesOf_eq_map, entriesOf_eq_map,
    List.map_append]

/-! ## Buckets of tallies -/

theorem form_bucketOf {e : Entry} (h : SoundEntry e) : (bucketOf e).form = e.key := by
  rw [Bucket.form, id_bucketOf, h.1]
  rfl

theorem map_form_toBuckets {es : List Entry} (h : ∀ e ∈ es, SoundEntry e) :
    (toBuckets es).map Bucket.form = keys es := by
  rw [toBuckets_eq_map, List.map_map, keys]
  exact List.map_congr_left fun e he => form_bucketOf (h e he)

theorem withForm_toBuckets (key : Option String) {es : List Entry}
    (h : ∀ e ∈ es, SoundEntry e) :
    Bucket.withForm key (toBuckets es) = toBuckets (withKey key es) := by
  rw [toBuckets_eq_map, toBuckets_eq_map, Bucket.withForm, List.filter_map, withKey]
  congr 1
  refine List.filter_congr fun e he => ?_
  rw [Function.comp_apply, form_bucketOf (h e he)]

theorem flatMap_buckets_toBuckets (key : Option String) {es : List Entry}
    (h : ∀ e ∈ es, SoundEntry e) :
    (Bucket.withForm key (toBuckets es)).flatMap Bucket.buckets = toBuckets (innerOf key es) := by
  rw [withForm_toBuckets key h, innerOf, toBuckets_eq_map, toBuckets_eq_map, List.flatMap_map,
    List.map_flatMap]
  simp only [buckets_bucketOf, toBuckets_eq_map]

end Tally

/-! ## Merging -/

open Tally

/-- Merging two lists is tallying the one after the other. -/
theorem mergeBuckets_eq_toBuckets (as bs : List Bucket) :
    mergeBuckets as bs = toBuckets (ofBuckets (as ++ bs)) := by
  rw [mergeBuckets, merge_ofBuckets]

theorem mergeBuckets_assoc (as bs cs : List Bucket) :
    mergeBuckets (mergeBuckets as bs) cs = mergeBuckets as (mergeBuckets bs cs) := by
  have hab : ofBuckets (mergeBuckets as bs) = ofBuckets (as ++ bs) := by
    rw [mergeBuckets_eq_toBuckets, ofBuckets_toBuckets (sound_ofBuckets _)]
  have hbc : ofBuckets (mergeBuckets bs cs) = ofBuckets (bs ++ cs) := by
    rw [mergeBuckets_eq_toBuckets, ofBuckets_toBuckets (sound_ofBuckets _)]
  rw [mergeBuckets, hab, merge_ofBuckets, mergeBuckets, hbc, merge_ofBuckets, List.append_assoc]

theorem map_form_mergeBuckets (as bs : List Bucket) :
    (mergeBuckets as bs).map Bucket.form = ((as ++ bs).map Bucket.form).eraseDups := by
  rw [mergeBuckets_eq_toBuckets, map_form_toBuckets fun e he => (sound_ofBuckets _).entry he,
    ofBuckets, keys_absorbAll, keys_entriesOf]

theorem sum_count_mergeBuckets (form : Option String) (as bs : List Bucket) :
    ((Bucket.withForm form (mergeBuckets as bs)).map Bucket.count).sum
      = ((Bucket.withForm form as).map Bucket.count).sum
        + ((Bucket.withForm form bs).map Bucket.count).sum := by
  have hcount : ∀ es : List Entry,
      ((toBuckets es).map Bucket.count).sum = (es.map Entry.count).sum := by
    intro es
    rw [toBuckets_eq_map, List.map_map]
    simp only [Function.comp_def, count_bucketOf]
  rw [mergeBuckets_eq_toBuckets, withForm_toBuckets form fun e he => (sound_ofBuckets _).entry he,
    hcount, ofBuckets, sum_count_absorbAll, withKey_entriesOf, Bucket.withForm_append,
    entriesOf_eq_map, List.map_map]
  simp only [Function.comp_def, count_entryOf]
  rw [List.map_append, List.sum_append]

/-- What is inside a path of the merge is the merge of what is inside it in the two lists. -/
theorem inside_mergeBuckets : ∀ (path : List (Option String)) (as bs : List Bucket),
    Bucket.inside path (mergeBuckets as bs)
      = mergeBuckets (Bucket.inside path as) (Bucket.inside path bs)
  | [], _, _ => rfl
  | form :: path, as, bs => by
    have hstep : (Bucket.withForm form (mergeBuckets as bs)).flatMap Bucket.buckets
        = mergeBuckets ((Bucket.withForm form as).flatMap Bucket.buckets)
          ((Bucket.withForm form bs).flatMap Bucket.buckets) := by
      rw [mergeBuckets_eq_toBuckets,
        flatMap_buckets_toBuckets form fun e he => (sound_ofBuckets _).entry he,
        innerOf_ofBuckets, Bucket.withForm_append, List.flatMap_append, mergeBuckets_eq_toBuckets]
    rw [Bucket.inside, hstep, inside_mergeBuckets path, Bucket.inside, Bucket.inside]

theorem nodup_formsAt_mergeBuckets (path : List (Option String)) (as bs : List Bucket) :
    (Bucket.formsAt path (mergeBuckets as bs)).Nodup := by
  rw [Bucket.formsAt, inside_mergeBuckets, mergeBuckets_eq_toBuckets,
    map_form_toBuckets fun e he => (sound_ofBuckets _).entry he]
  exact (sound_ofBuckets _).nodup

/-- Merging is associative. At every path it adds the counts of each key, into one bucket, and
the keys of the first list come before those that only the second one has. -/
theorem mergeBuckets_assoc_additive (as bs cs : List Bucket) :
    mergeBuckets (mergeBuckets as bs) cs = mergeBuckets as (mergeBuckets bs cs) ∧
      (∀ path form, Bucket.countAt path form (mergeBuckets as bs)
        = Bucket.countAt path form as + Bucket.countAt path form bs) ∧
      (∀ path form, Bucket.countAt path form (mergeBuckets as bs)
        = Bucket.countAt path form (mergeBuckets bs as)) ∧
      (∀ path, ∀ bucket ∈ Bucket.inside path (mergeBuckets as bs),
        bucket.count = Bucket.countAt path bucket.form as + Bucket.countAt path bucket.form bs) ∧
      ∀ path, Bucket.formsAt path (mergeBuckets as bs) = (Bucket.formsAt path as).eraseDups
        ++ ((Bucket.formsAt path bs).removeAll (Bucket.formsAt path as)).eraseDups := by
  have hadd : ∀ (path : List (Option String)) (form : Option String) (as bs : List Bucket),
      Bucket.countAt path form (mergeBuckets as bs)
        = Bucket.countAt path form as + Bucket.countAt path form bs := by
    intro path form as bs
    rw [Bucket.countAt, inside_mergeBuckets, sum_count_mergeBuckets, Bucket.countAt,
      Bucket.countAt]
  refine ⟨mergeBuckets_assoc as bs cs, fun path form => hadd path form as bs,
    fun path form => ?_, fun path bucket hbucket => ?_, fun path => ?_⟩
  · rw [hadd, hadd, Nat.add_comm]
  · rw [← hadd, Bucket.countAt, Bucket.withForm,
      filter_eq_singleton_of_nodup (nodup_formsAt_mergeBuckets path as bs) hbucket,
      List.map_singleton, List.sum_singleton]
  · rw [Bucket.formsAt, inside_mergeBuckets, map_form_mergeBuckets, List.map_append,
      List.eraseDups_append, Bucket.formsAt, Bucket.formsAt]

end RecordQuery

import RecordQuery.Description.Grouping
import RecordQuery.Proofs.ReadingLaws
import RecordQuery.Proofs.TallyGroups

/-!
# Buckets read back

A bucket is turned into a document for later steps and into a description for whoever asks for it,
and the two are the same value (`Bucket.document_eq_describe`). In it an absent key and a null one
look alike, so what is read from it is the bucket without its null keys (`Bucket.read_describe`):
the bucket itself if and only if it has none. What was read as a bucket has none
(`Bucket.exists_read_iff`), and the buckets of records have none either
(`Grouping.nullFree_of_apply`).
-/

namespace RecordQuery

open Json Description

namespace Bucket

mutual

theorem document_eq_describe : ∀ b : Bucket, b.document = b.describe
  | mk id count buckets => by
    rw [document, describe, documents_eq_describeAll buckets]
    rfl

theorem documents_eq_describeAll : ∀ bs : List Bucket, documents bs = describeAll bs
  | [] => rfl
  | b :: bs => by rw [documents, describeAll, document_eq_describe b, documents_eq_describeAll bs]

end

/-! ## Null keys -/

mutual

/-- The bucket with its key absent where it is null, here and in the buckets inside. -/
def withoutNulls : Bucket → Bucket
  | mk id count buckets => mk (id.filter (!·.isNull)) count (allWithoutNulls buckets)

def allWithoutNulls : List Bucket → List Bucket
  | [] => []
  | b :: bs => b.withoutNulls :: allWithoutNulls bs

end

/-- No key is null, here and in the buckets inside. -/
inductive NullFree : Bucket → Prop
  | mk {id : Option Value} {count : Nat} {buckets : List Bucket} :
      id ≠ some .null → (∀ b ∈ buckets, b.NullFree) → NullFree (.mk id count buckets)

theorem nullFree_iff {b : Bucket} :
    b.NullFree ↔ b.id ≠ some .null ∧ ∀ c ∈ b.buckets, c.NullFree := by
  constructor
  · rintro ⟨hid, hbuckets⟩
    exact ⟨hid, hbuckets⟩
  · cases b
    exact fun h => .mk h.1 h.2

theorem filter_isNull_eq_iff {id : Option Value} :
    id.filter (!·.isNull) = id ↔ id ≠ some .null := by
  rcases id with _ | v
  · exact iff_of_true rfl nofun
  · cases v with
    | null => exact iff_of_false nofun fun h => h rfl
    | _ => exact iff_of_true rfl nofun

mutual

theorem withoutNulls_eq_iff : ∀ b : Bucket, b.withoutNulls = b ↔ b.NullFree
  | mk id count buckets => by
    rw [withoutNulls, mk.injEq, filter_isNull_eq_iff, allWithoutNulls_eq_iff buckets,
      and_iff_right rfl, nullFree_iff, Bucket.id, Bucket.buckets]

theorem allWithoutNulls_eq_iff : ∀ bs : List Bucket,
    allWithoutNulls bs = bs ↔ ∀ b ∈ bs, b.NullFree
  | [] => iff_of_true rfl nofun
  | b :: bs => by
    rw [allWithoutNulls, List.cons.injEq, withoutNulls_eq_iff b, allWithoutNulls_eq_iff bs,
      List.forall_mem_cons]

end

/-! ## Reading -/

/-- The buckets that can be held: a count is a word, and objects in a key have their members in key
order, as in every value that a tree stands for. -/
inductive Held : Bucket → Prop
  | mk {id : Option Value} {count : Nat} {buckets : List Bucket} : (∀ v ∈ id, v.Ordered) →
      count < Word.size → (∀ b ∈ buckets, b.Held) → Held (.mk id count buckets)

theorem readAll_eq_mapM (trees : List Tree) : readAll trees = trees.mapM read := by
  induction trees with
  | nil => rfl
  | cons tree trees ih =>
    rw [readAll, ih, List.mapM_cons]

theorem readMembers_eq (fields : Fields) (members : List (Option String × Tree)) :
    readMembers fields members = Reading.members names readField fields members :=
  Reading.eq_members (fun _ => rfl) (fun _ _ _ => rfl) (fun _ _ _ _ => rfl) fields members

theorem readItems_eq (fields : Fields) (names : List String) (items : List Tree) :
    readItems fields names items = Reading.items readField fields names items :=
  Reading.eq_items (fun _ _ => by rw [readItems]; rfl) (fun _ _ _ => rfl)
    (fun _ _ _ _ _ => rfl) fields names items

theorem readPresent_buckets {items : List Value} {buckets : List Bucket}
    (h : readAll (Tree.ofItems items) = .ok buckets) :
    readPresent readField {} "buckets" (some (.list items)) = .ok { buckets := some buckets } := by
  change readField {} "buckets" (.ofValue (.list items)) = _
  rw [Tree.ofValue, readField, if_pos rfl, h]
  rfl

theorem readPresent_id {fields : Fields} (hf : fields.id = none) {v : Value} {id : Option Value}
    (h : Reading.optional Reading.value (.ofValue v) = .ok id) :
    readPresent readField fields "id" (some v) = .ok { fields with id := some id } := by
  have hfield : readField fields "id" (.ofValue v) = do
      return { fields with
        id := ← Reading.once fields.id (Reading.optional Reading.value (.ofValue v)) } := by
    cases Tree.ofValue v <;> rfl
  change readField fields "id" (.ofValue v) = _
  rw [hfield, hf, h]
  rfl

theorem readPresent_value {fields : Fields} (hf : fields.count = none) {v : Value} {count : Nat}
    (h : Reading.natural (.ofValue v) = .ok count) :
    readPresent readField fields "value" (some v) = .ok { fields with count := some count } := by
  have hfield : readField fields "value" (.ofValue v) = do
      return { fields with count := ← Reading.once fields.count (Reading.natural (.ofValue v)) } := by
    cases Tree.ofValue v <;> rfl
  change readField fields "value" (.ofValue v) = _
  rw [hfield, hf, h]
  rfl

/-- A bucket is read from its description part by part. -/
theorem read_described {id id' : Option Value} {count : Nat} {buckets buckets' : List Bucket}
    (hid : Reading.optional Reading.value (.ofValue (id.getD .null)) = .ok id')
    (hcount : ReadsBack Reading.natural (fun n : Nat => .int n) count)
    (hbuckets : readAll (Tree.ofItems (describeAll buckets)) = .ok buckets') :
    read (.ofValue (mk id count buckets).describe) = .ok (mk id' count buckets') := by
  have hkeys : Keyed.Ascending ["buckets", "id", "value"] := by decide
  have hobject : Tree.ofValue (mk id count buckets).describe
      = .object (Tree.ofMembers (present [("buckets", some (.list (describeAll buckets))),
        ("id", some (id.getD .null)), ("value", some (.int count))])) := by
    rw [describe]
    exact ofValue_object (List.perm_append_singleton _ [_, _]) hkeys
  rw [hobject, read, readMembers_eq, members_present (by decide) (readPresent_buckets hbuckets),
    members_present (by decide) (readPresent_id rfl hid),
    members_present (by decide) (readPresent_value rfl hcount)]
  rfl

/-- A null key is read as absent, and any other as it is. -/
theorem optional_value_key {id : Option Value} (h : ∀ v ∈ id, v.Ordered) :
    Reading.optional Reading.value (.ofValue (id.getD .null)) = .ok (id.filter (!·.isNull)) := by
  rcases id with _ | v
  · rfl
  · by_cases hv : v = .null
    · subst hv
      rfl
    · have hkept : (some v).filter (!·.isNull) = some v :=
        filter_isNull_eq_iff.2 fun h => hv (Option.some.inj h)
      have hread : Reading.value (.ofValue v) = .ok v :=
        Reading.value_eq_ok.2 (Tree.value?_ofValue_of_ordered (h v rfl))
      rw [Option.getD_some, Reading.optional_of_ne_null (Tree.ofValue_ne_null hv), hread, hkept]
      rfl

mutual

theorem read_describe : ∀ {b : Bucket}, b.Held → read (.ofValue b.describe) = .ok b.withoutNulls
  | mk _ _ _, .mk hid hcount hbuckets =>
    read_described (optional_value_key hid) (readsBack_natural hcount) (readAll_describeAll hbuckets)

theorem readAll_describeAll : ∀ {bs : List Bucket}, (∀ b ∈ bs, b.Held) →
    readAll (Tree.ofItems (describeAll bs)) = .ok (allWithoutNulls bs)
  | [], _ => rfl
  | b :: bs, h => by
    obtain ⟨hb, hbs⟩ := List.forall_mem_cons.1 h
    rw [describeAll, Tree.ofItems, readAll, read_describe hb, readAll_describeAll hbs]
    rfl

end

/-! ## What can be read -/

theorem read_eq_ok {tree : Tree} {b : Bucket} (h : read tree = .ok b) :
    ∃ fields, Reading.record names readField {} tree = .ok fields ∧ fields.build = .ok b := by
  cases tree with
  | object members =>
    rw [read, readMembers_eq] at h
    exact bind_eq_ok.1 h
  | list items =>
    rw [read, readItems_eq] at h
    obtain ⟨fields, hfields, h⟩ := bind_eq_ok.1 h
    split_ifs at h
    · cases h
    · exact ⟨fields, hfields, h⟩
  | _ => cases h

/-- What the fields of a bucket hold can be part of one that is held and has no null key. -/
structure Fields.Kept (fields : Fields) : Prop where
  id : ∀ x ∈ fields.id, (∀ v ∈ x, v.Ordered) ∧ x ≠ some .null
  count : ∀ n ∈ fields.count, n < Word.size
  buckets : ∀ bs ∈ fields.buckets, ∀ b ∈ bs, b.Held ∧ b.NullFree

theorem Fields.Kept.id_join {fields : Fields} (h : fields.Kept) :
    (∀ v ∈ fields.id.join, v.Ordered) ∧ fields.id.join ≠ some .null := by
  rcases hid : fields.id with _ | x
  · exact ⟨nofun, nofun⟩
  · exact h.id x hid

theorem ordered_of_optional {tree : Tree} {x : Option Value}
    (h : Reading.optional Reading.value tree = .ok x) :
    (∀ v ∈ x, v.Ordered) ∧ x ≠ some .null := by
  rcases Reading.optional_eq_ok h with ⟨-, rfl⟩ | ⟨hnull, v, hv, rfl⟩
  · exact ⟨nofun, nofun⟩
  · rw [Reading.value_eq_ok] at hv
    refine ⟨fun w hw => ?_, ?_⟩
    · cases hw
      exact Tree.ordered_of_value? hv
    · rintro ⟨⟩
      exact hnull (Tree.eq_ofValue_of_isScalar hv rfl)

theorem kept_readPlain {fields after : Fields} {name : String} {tree : Tree} (hf : fields.Kept)
    (h : fields.readPlain name tree = .ok after) : after.Kept := by
  unfold Fields.readPlain at h
  split at h
  · obtain ⟨_, hb, rfl⟩ := bind_pure_eq_ok.1 h
    obtain ⟨x, hx, rfl⟩ := Reading.once_eq_ok hb
    refine ⟨fun y hy => ?_, hf.count, hf.buckets⟩
    cases hy
    exact ordered_of_optional hx
  · obtain ⟨_, hb, rfl⟩ := bind_pure_eq_ok.1 h
    obtain ⟨n, hn, rfl⟩ := Reading.once_eq_ok hb
    refine ⟨hf.id, fun m hm => ?_, hf.buckets⟩
    cases hm
    exact lt_size_of_natural hn
  · cases h

theorem kept_readField {fields after : Fields} {name : String} {tree : Tree} (hf : fields.Kept)
    (htree : ∀ part, part.Part tree → ∀ {b}, read part = .ok b → b.Held ∧ b.NullFree)
    (h : readField fields name tree = .ok after) : after.Kept := by
  cases tree with
  | list items =>
    rw [readField] at h
    split_ifs at h
    · obtain ⟨_, hb, rfl⟩ := bind_pure_eq_ok.1 h
      obtain ⟨bs, hbs, rfl⟩ := Reading.once_eq_ok hb
      rw [readAll_eq_mapM] at hbs
      refine ⟨hf.id, hf.count, fun cs hcs b hb => ?_⟩
      cases hcs
      obtain ⟨item, hitem, hread⟩ := exists_of_mem_of_forall₂ (forall₂_of_mapM hbs) hb
      exact htree item (.item hitem) hread
    · exact kept_readPlain hf h
  | _ => exact kept_readPlain hf h

theorem held_of_read (tree : Tree) {b : Bucket} (h : read tree = .ok b) :
    b.Held ∧ b.NullFree := by
  obtain ⟨fields, hfields, hbuild⟩ := read_eq_ok h
  have hstart : Fields.Kept {} := ⟨nofun, nofun, nofun⟩
  have hkept : fields.Kept := by
    refine Reading.record_induct Fields.Kept (fun part hpart {_ _ _} hf hread => ?_) hstart hfields
    -- buckets nest in the items of a field, two levels further down
    exact kept_readField hf (fun item hitem => held_of_read item) hread
  obtain ⟨count, hcount, rfl⟩ := bind_pure_eq_ok.1 hbuild
  rw [Reading.required_eq_ok] at hcount
  obtain ⟨hordered, hnull⟩ := hkept.id_join
  have hbuckets : ∀ c ∈ fields.buckets.getD [], c.Held ∧ c.NullFree := by
    rcases hbs : fields.buckets with _ | bs
    · nofun
    · exact hkept.buckets bs hbs
  exact ⟨.mk hordered (hkept.count count hcount) fun c hc => (hbuckets c hc).1,
    .mk hnull fun c hc => (hbuckets c hc).2⟩
termination_by sizeOf tree
decreasing_by exact hitem.sizeOf_lt.trans hpart.sizeOf_lt

/-- The buckets that can be read are those that are held and have no null key. -/
theorem exists_read_iff {b : Bucket} : (∃ tree, read tree = .ok b) ↔ b.Held ∧ b.NullFree := by
  constructor
  · rintro ⟨tree, h⟩
    exact held_of_read tree h
  · rintro ⟨hheld, hfree⟩
    refine ⟨.ofValue b.describe, ?_⟩
    rw [read_describe hheld, (withoutNulls_eq_iff b).2 hfree]

/-- The document of a bucket is its description, and for a bucket that is held it is read as the
same bucket if and only if no key in it is null. -/
theorem document_readsBack (b : Bucket) :
    b.document = b.describe ∧ (b.Held → (read (.ofValue b.document) = .ok b ↔ b.NullFree)) := by
  refine ⟨document_eq_describe b, fun h => ?_⟩
  rw [document_eq_describe, read_describe h, Except.ok.injEq]
  exact withoutNulls_eq_iff b

/-- Three levels with an absent key, a key that is an object, and one that is a list of a null. A
null key on its own is read as absent. -/
theorem document_readsBack_nested :
    let inner : Bucket := mk (some (.object [("a", .null), ("b", .int 1)])) 2
      [mk (some (.list [.null])) 1 [], mk none 1 []]
    let b : Bucket := mk none 3 [inner, mk (some (.text "x")) 1 []]
    let null : Bucket := mk (some .null) 1 []
    (b.Held ∧ b.NullFree ∧ b.document = b.describe ∧ read (.ofValue b.document) = .ok b) ∧
      null.Held ∧ ¬ null.NullFree ∧ read (.ofValue null.document) ≠ .ok null := by
  intro inner b null
  have hpair : ∀ {P : Bucket → Prop} {c d : Bucket}, P c → P d → ∀ e ∈ [c, d], P e :=
    fun hc hd => List.forall_mem_cons.2 ⟨hc, List.forall_mem_singleton.2 hd⟩
  have hsome : ∀ {v : Value}, v.Ordered → ∀ w ∈ some v, w.Ordered := by
    rintro v hv w ⟨⟩
    exact hv
  have hread : (Tree.object [(some "b", .number (.ofInt 1)), (some "a", .null)]).value?
      = some (.object [("a", .null), ("b", .int 1)]) := by with_unfolding_all rfl
  have hobject : (Value.object [("a", .null), ("b", .int 1)]).Ordered :=
    Tree.ordered_of_value? hread
  have hlist : (Value.list [.null]).Ordered := .list (List.forall_mem_singleton.2 .null)
  have hinner : inner.Held ∧ inner.NullFree :=
    ⟨.mk (hsome hobject) (by decide)
      (hpair (.mk (hsome hlist) (by decide) nofun) (.mk nofun (by decide) nofun)),
      .mk nofun (hpair (.mk nofun nofun) (.mk nofun nofun))⟩
  have hheld : b.Held :=
    .mk nofun (by decide) (hpair hinner.1 (.mk (hsome (.text "x")) (by decide) nofun))
  have hfree : b.NullFree := .mk nofun (hpair hinner.2 (.mk nofun nofun))
  have hnull : null.Held := .mk (hsome .null) (by decide) nofun
  have hnot : ¬ null.NullFree := fun h => (nullFree_iff.1 h).1 rfl
  obtain ⟨hdocument, hback⟩ := document_readsBack b
  refine ⟨⟨hheld, hfree, hdocument, (hback hheld).2 hfree⟩, hnull, hnot, fun h => ?_⟩
  exact hnot (((document_readsBack null).2 hnull).1 h)

end Bucket

/-! ## Buckets of records -/

namespace Level

variable {level : Level} {settings : Settings}

theorem exists_stepDown_eq {width : Extended} (h : width.isPositiveFinite = true) (d : Double) :
    ∃ e, width.stepDown d = .finite e := by
  cases width with
  | finite w =>
    have hpos : 0 < w.scaled := of_decide_eq_true h
    exact ⟨d.stepDown w, if_neg hpos.ne'⟩
  | infinite | undefined => cases h

/-- A null is no key: raw values are keys if they are not null, and all other keys are texts and
numbers, as long as the width is valid. -/
theorem keyOf_ne_null (h : level.validate = .ok ()) (raw : Option Value) :
    level.keyOf settings raw ≠ some .null := by
  intro hkey
  obtain ⟨v, hv, hkey⟩ := Option.bind_eq_some_iff.1 hkey
  unfold keyOfValue at hkey
  split at hkey
  · obtain ⟨t, -, hkey⟩ := Option.bind_eq_some_iff.1 hkey
    obtain ⟨start, -, hkey⟩ := Option.bind_eq_some_iff.1 hkey
    cases hkey
  · next width _ hinterval =>
    cases v with
    | number n =>
      rw [validate, hinterval] at h
      have hwidth : width.isPositiveFinite = true := by
        by_contra hnot
        dsimp only at h
        rw [if_neg hnot] at h
        cases h
      obtain ⟨e, he⟩ := exists_stepDown_eq hwidth n.toDouble
      rw [intervalKey, he] at hkey
      cases hkey
    | null | boolean | text | list | object => cases hkey
  · obtain rfl := Option.some.inj hkey
    cases (Option.filter_eq_some_iff.1 hv).2

theorem ne_null_of_mem_pairs {α : Type} [Record α] (h : level.validate = .ok ())
    {records : List α} {pair : α × Option Value} (hpair : pair ∈ level.pairs settings records) :
    pair.2 ≠ some .null := by
  obtain ⟨record, -, hpair⟩ := List.mem_flatMap.1 hpair
  obtain ⟨key, hkey, rfl⟩ := List.mem_map.1 hpair
  have hcandidate : key ∈ level.candidates settings (Record.document record) :=
    List.mem_of_mem_filter hkey
  unfold candidates at hcandidate
  dsimp only at hcandidate
  split at hcandidate
  · rw [List.mem_singleton.1 hcandidate]
    exact keyOf_ne_null h _
  · obtain ⟨item, -, rfl⟩ := List.mem_map.1 hcandidate
    exact keyOf_ne_null h _
  · exact absurd hcandidate List.not_mem_nil

end Level

namespace Grouping

variable {α : Type} [Record α] {settings : Settings}

theorem id_ne_null_of_mem {grouping : Grouping} (h : grouping.validate = .ok ()) {records : List α}
    {b : Bucket} (hb : b ∈ grouping.bucketsOf settings (grouping.level.pairs settings records)) :
    b.id ≠ some .null := by
  obtain ⟨pair, hhead, hid⟩ := Option.map_eq_some_iff.1 (isBucketOf_of_mem h settings hb).id
  rw [← hid]
  exact Level.ne_null_of_mem_pairs (validate_level h)
    (List.mem_of_mem_filter (List.mem_of_mem_head? hhead))

/-- The induction is on the levels inside, whose buckets are what each bucket holds. -/
theorem nullFree_bucketsOf (deeper : List Level) :
    ∀ (level : Level) (records : List α), Grouping.validate ⟨level, deeper⟩ = .ok () →
      ∀ b ∈ Grouping.bucketsOf ⟨level, deeper⟩ settings (level.pairs settings records),
        b.NullFree := by
  induction deeper with
  | nil =>
    intro level records h b hb
    have hempty : b.buckets = [] := (isBucketOf_of_mem h settings hb).buckets
    refine Bucket.nullFree_iff.2 ⟨id_ne_null_of_mem h hb, ?_⟩
    rw [hempty]
    nofun
  | cons next deeper ih =>
    intro level records h b hb
    have hvalid : Grouping.validate ⟨next, deeper⟩ = .ok () := validate_inner h rfl
    have hbuckets : Grouping.apply ⟨next, deeper⟩ settings _ = .ok b.buckets :=
      (isBucketOf_of_mem h settings hb).buckets
    rw [apply_eq_bucketsOf hvalid] at hbuckets
    refine Bucket.nullFree_iff.2 ⟨id_ne_null_of_mem h hb, ?_⟩
    rw [← Except.ok.inj hbuckets]
    exact ih next _ hvalid

/-- The buckets of records have no null key. -/
theorem nullFree_of_apply {grouping : Grouping} {records : List α} {buckets : List Bucket}
    (h : grouping.apply settings records = .ok buckets) : ∀ b ∈ buckets, b.NullFree := by
  obtain ⟨⟨⟩, hvalid, -⟩ := bind_eq_ok.1 h
  rw [apply_eq_bucketsOf hvalid] at h
  rw [← Except.ok.inj h]
  exact nullFree_bucketsOf grouping.deeper grouping.level records hvalid

end Grouping

end RecordQuery

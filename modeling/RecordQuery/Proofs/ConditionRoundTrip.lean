import RecordQuery.Description.Condition
import RecordQuery.Proofs.ReadingLaws

/-!
# Descriptions of conditions read back

A condition is a record like any other (`Condition.read_eq`), whose fields nest. So it is enough
that the fields read keep what reads back (`Condition.kept_readField`), with the parts of the tree
as the smaller cases, and that a condition built of such fields reads back
(`Condition.readsBack_of_build`). Only an operand asks for distinct keys: an object with `daysAgo`
twice is a plain value, whose description has it once.
-/

namespace RecordQuery

open Json Description

namespace Operator

@[simp] theorem ofTag?_tag (op : Operator) : ofTag? op.tag = some op := by
  cases op with
  | order op => cases op <;> decide +kernel
  | _ => decide +kernel

end Operator

namespace Operand

theorem daysAgo?_eq_some {members : List (Option String × Tree)} {n : Int}
    (h : daysAgo? (.object members) = some n) :
    ∃ fits, (some "daysAgo", .number (.integer n fits)) ∈ members ∧ n < Word.half := by
  rw [daysAgo?] at h
  split at h
  · next key n fits hfilter =>
    split_ifs at h with hn
    cases h
    obtain ⟨hmem, hkey⟩ := List.mem_filter.1 (hfilter ▸ List.mem_singleton_self _)
    obtain rfl : key = some "daysAgo" := eq_of_beq hkey
    exact ⟨fits, hmem, hn⟩
  · cases h

theorem daysAgo?_of_mem {members : List (Option String × Tree)} {n : Int}
    {fits : Number.Fits n} (hkeys : (members.map Prod.fst).Nodup)
    (h : (some "daysAgo", .number (.integer n fits)) ∈ members) (hn : n < Word.half) :
    daysAgo? (.object members) = some n := by
  have hfilter : members.filter (·.1 == some "daysAgo")
      = [(some "daysAgo", .number (.integer n fits))] := by
    rw [← filter_eq_singleton_of_nodup hkeys h]
    exact List.filter_congr fun m _ => by rw [Bool.eq_iff_iff, beq_iff_eq, decide_eq_true_iff]
  rw [daysAgo?, hfilter]
  exact if_pos hn

/-- A value has the look of a relative date only if the tree it is from has. -/
theorem daysAgo?_of_ofValue {tree : Tree} {v : Value} {n : Int}
    (hd : tree.hasDistinctKeys = true) (hv : tree.value? = some v)
    (h : daysAgo? (.ofValue v) = some n) : daysAgo? tree = some n := by
  cases tree with
  | object members =>
    rw [Tree.value?] at hv
    obtain ⟨values, hvalues, rfl⟩ := Option.map_eq_some_iff.1 hv
    rw [Value.ofMembers, Tree.ofValue] at h
    obtain ⟨fits, hmem, hn⟩ := daysAgo?_eq_some h
    rw [Tree.ofMembers_eq_map, List.mem_map] at hmem
    obtain ⟨⟨key, w⟩, hw, hmember⟩ := hmem
    obtain ⟨hkey, hnumber⟩ := Prod.mk.inj hmember
    obtain ⟨part, hpart, hpv⟩ := Tree.mem_memberValues? hvalues _ (Keyed.mem_of_mem_ofList hw)
    have hscalar : w.isScalar = true := by
      cases w with
      | list _ | object _ => rw [Tree.ofValue] at hnumber; cases hnumber
      | _ => rfl
    have heq : part = .number (.integer n fits) :=
      (Tree.eq_ofValue_of_isScalar hpv hscalar).trans hnumber
    rw [hkey, heq] at hpart
    exact daysAgo?_of_mem (Tree.hasDistinctKeys_object hd).1 hpart hn
  | list items =>
    rw [Tree.value?] at hv
    obtain ⟨_, -, rfl⟩ := Option.map_eq_some_iff.1 hv
    rw [Tree.ofValue] at h
    cases h
  | _ => cases hv <;> cases h

theorem read_of_value? {tree : Tree} {v : Value} (h : tree.value? = some v) :
    read tree = .ok (((daysAgo? tree).map daysAgo).getD (value v)) := by
  rw [read, Reading.value_eq_ok.2 h]
  cases daysAgo? tree <;> rfl

theorem read_eq_ok {tree : Tree} {operand : Operand} (h : read tree = .ok operand) :
    ∃ v, tree.value? = some v ∧ operand = ((daysAgo? tree).map daysAgo).getD (value v) := by
  obtain ⟨v, hv, -⟩ := bind_eq_ok.1 h
  rw [Reading.value_eq_ok] at hv
  rw [read_of_value? hv] at h
  exact ⟨v, hv, (Except.ok.inj h).symm⟩

theorem readsBack_daysAgo {days : Int} (fits : Number.Fits days) (h : days < Word.half) :
    ReadsBack read describe (daysAgo days) := by
  have hnumber : Number.ofInt days = .integer days fits := dif_pos fits
  have hdays : daysAgo? (.object [(some "daysAgo", .number (.integer days fits))]) = some days :=
    daysAgo?_of_mem (List.nodup_singleton _) (List.mem_singleton_self _) h
  have hvalue :
      (Tree.object [(some "daysAgo", .number (.integer days fits))]).value? = some _ := rfl
  have hread := read_of_value? hvalue
  rw [hdays] at hread
  rw [ReadsBack, describe, Value.int, hnumber]
  exact hread

theorem roundTrips {tree : Tree} (hd : tree.hasDistinctKeys = true) :
    RoundTrips read describe tree := by
  intro operand h
  obtain ⟨v, hv, rfl⟩ := read_eq_ok h
  rcases hdays : daysAgo? tree with _ | days
  · -- a plain value must not turn into a date once its members are in order
    have hnone : daysAgo? (.ofValue v) = none := by
      rw [Option.eq_none_iff_forall_ne_some]
      intro n hn
      rw [daysAgo?_of_ofValue hd hv hn] at hdays
      cases hdays
    rw [ReadsBack, Option.map_none, Option.getD_none, describe,
      read_of_value? (Tree.value?_ofValue hv), hnone]
    rfl
  · cases tree with
    | object members =>
      obtain ⟨fits, -, hn⟩ := daysAgo?_eq_some hdays
      exact readsBack_daysAgo fits hn
    | _ => cases hdays

theorem describe_ne_null {tree : Tree} (hnull : tree ≠ .null) {operand : Operand}
    (h : read tree = .ok operand) : operand.describe ≠ .null := by
  obtain ⟨v, hv, rfl⟩ := read_eq_ok h
  cases daysAgo? tree with
  | some days => nofun
  | none =>
    rintro rfl
    exact hnull (Tree.eq_ofValue_of_isScalar hv rfl)

theorem orNull_describe (operand : Option Operand) :
    orNull describe operand = (operand.getD .null).describe := by
  cases operand <;> rfl

end Operand

/-- A tag counts for its operator only. -/
theorem ConditionFields.build_of_ofTag? {tag : String} {op : Operator}
    (h : Operator.ofTag? tag = some op) (fields : ConditionFields) :
    fields.build tag = fields.build op.tag := by
  rw [build, build, h, Operator.ofTag?_tag]
  cases op <;> rfl

/-- What the fields of a condition hold reads back. -/
structure ConditionFields.Kept (fields : ConditionFields) : Prop where
  value : ReadsBack? Operand.read Operand.describe fields.value.join
  conditions : ∀ cs ∈ fields.conditions, ReadsBack (Reading.list Condition.read)
    (fun cs => .list (cs.map Condition.describe)) cs
  query : ∀ q ∈ fields.query.join, ReadsBack Query.read Query.describe q

namespace Condition

/-! ## Conditions as records -/

theorem readAll_eq_mapM : ∀ items : List Tree, readAll items = items.mapM read
  | [] => rfl
  | item :: items => by rw [readAll, List.mapM_cons, readAll_eq_mapM items]

theorem readMembers_eq (fields : ConditionFields) (members : List (Option String × Tree)) :
    readMembers fields members
      = Reading.members ConditionFields.names readField fields members :=
  Reading.eq_members (fun _ => rfl) (fun _ _ _ => rfl) (fun _ _ _ _ => rfl) fields members

theorem readItems_eq (fields : ConditionFields) (names : List String) (items : List Tree) :
    readItems fields names items = Reading.items readField fields names items :=
  Reading.eq_items (fun _ _ => by rw [readItems]; rfl) (fun _ _ _ => rfl)
    (fun _ _ _ _ _ => rfl) fields names items

theorem read_eq (tree : Tree) : read tree = (do
    let fields ← Reading.record ConditionFields.names readField {} tree
    Reading.ofFaulty (fields.build (← Reading.required fields.op))) := by
  cases tree with
  | object members => rw [read, readMembers_eq, Reading.record]
  | list items => rw [read, readItems_eq, Reading.record]
  | _ => rfl

theorem read_eq_ok {tree : Tree} {c : Condition} : read tree = .ok c ↔
    ∃ fields tag, Reading.record ConditionFields.names readField {} tree = .ok fields ∧
      fields.op = some tag ∧ fields.build tag = .ok c := by
  rw [read_eq, bind_eq_ok]
  constructor
  · rintro ⟨fields, hfields, h⟩
    obtain ⟨tag, htag, hc⟩ := bind_eq_ok.1 h
    exact ⟨fields, tag, hfields, Reading.required_eq_ok.1 htag, Reading.ofFaulty_eq_ok.1 hc⟩
  · rintro ⟨fields, tag, hfields, htag, hc⟩
    exact ⟨fields, hfields,
      bind_eq_ok.2 ⟨tag, Reading.required_eq_ok.2 htag, Reading.ofFaulty_eq_ok.2 hc⟩⟩

theorem readField_op {fields : ConditionFields} (h : fields.op = none) (s : String) :
    readPresent readField fields "op" (some (.text s)) = .ok { fields with op := some s } := by
  change (do return { fields with op := ← Reading.once fields.op (.ok s) }) = _
  rw [h]
  rfl

theorem readField_value (fields : ConditionFields) (tree : Tree) :
    readField fields "value" tree = do
      return { fields with
        value := ← Reading.once fields.value (Reading.optional Operand.read tree) } := by
  cases tree <;> rfl

theorem readField_conditions (fields : ConditionFields) (items : List Tree) :
    readField fields "conditions" (.list items) = do
      return { fields with
        conditions := ← Reading.once fields.conditions (Reading.list read (.list items)) } := by
  rw [readField, if_pos rfl, readAll_eq_mapM]
  rfl

theorem readField_query (fields : ConditionFields) (members : List (Option String × Tree)) :
    readField fields "query" (.object members) = do
      return { fields with
        query := ← Reading.once fields.query (Reading.optional Query.read (.object members)) } := by
  rw [readField, if_pos rfl]
  rfl

/-- What reading a field does, whichever it is. -/
inductive ReadsField (fields : ConditionFields) (tree : Tree) : ConditionFields → Prop
  | op (tag : String) : ReadsField fields tree { fields with op := some tag }
  | value {x : Option Operand} : Reading.optional Operand.read tree = .ok x →
      ReadsField fields tree { fields with value := some x }
  | conditions {cs : List Condition} : Reading.list read tree = .ok cs →
      ReadsField fields tree { fields with conditions := some cs }
  | query {x : Option Query} : Reading.optional Query.read tree = .ok x →
      ReadsField fields tree { fields with query := some x }

theorem readsField_of_readPlain {fields after : ConditionFields} {name : String} {tree : Tree}
    (h : fields.readPlain name tree = .ok after) : ReadsField fields tree after := by
  unfold ConditionFields.readPlain at h
  split at h
  · obtain ⟨_, hb, rfl⟩ := bind_pure_eq_ok.1 h
    obtain ⟨tag, -, rfl⟩ := Reading.once_eq_ok hb
    exact .op tag
  · obtain ⟨_, hb, rfl⟩ := bind_pure_eq_ok.1 h
    obtain ⟨x, hx, rfl⟩ := Reading.once_eq_ok hb
    exact .value hx
  · obtain ⟨_, hb, rfl⟩ := bind_pure_eq_ok.1 h
    obtain ⟨x, hx, rfl⟩ := Reading.once_eq_ok hb
    exact .query hx
  · cases h

theorem readsField_of_readField {fields after : ConditionFields} {name : String} {tree : Tree}
    (h : readField fields name tree = .ok after) : ReadsField fields tree after := by
  cases tree with
  | list items =>
    rw [readField] at h
    split_ifs at h
    · obtain ⟨_, hb, rfl⟩ := bind_pure_eq_ok.1 h
      obtain ⟨cs, hcs, rfl⟩ := Reading.once_eq_ok hb
      rw [readAll_eq_mapM] at hcs
      exact .conditions hcs
    · exact readsField_of_readPlain h
  | object members =>
    rw [readField] at h
    split_ifs at h
    · obtain ⟨_, hb, rfl⟩ := bind_pure_eq_ok.1 h
      obtain ⟨x, hx, rfl⟩ := Reading.once_eq_ok hb
      exact .query hx
    · exact readsField_of_readPlain h
  | _ => exact readsField_of_readPlain h

/-! ## What is described -/

theorem describeAll_eq_map (conditions : List Condition) :
    describeAll conditions = conditions.map describe := by
  induction conditions with
  | nil => rfl
  | cons c conditions ih => rw [describeAll, ih, List.map_cons]

theorem record_simple {op : Operator} {operand : Option Operand}
    (h : ReadsBack? Operand.read Operand.describe operand) :
    Reading.record ConditionFields.names readField {} (.ofValue (simple op (operand.getD .null)))
      = .ok { op := some op.tag, value := some operand } := by
  have hread : Reading.optional Operand.read (.ofValue (operand.getD .null).describe)
      = .ok operand := Operand.orNull_describe operand ▸ h
  have hvalue : readPresent readField { op := some op.tag } "value"
      (some (operand.getD .null).describe) = .ok { op := some op.tag, value := some operand } := by
    change readField _ "value" (.ofValue (operand.getD .null).describe) = _
    rw [readField_value, hread]
    rfl
  have hkeys : Keyed.Ascending ["op", "value"] := by decide
  have hobject : Tree.ofValue (simple op (operand.getD .null))
      = .object (Tree.ofMembers (present [("op", some (.text op.tag)),
        ("value", some (operand.getD .null).describe)])) := ofValue_object (.refl _) hkeys
  rw [hobject, Reading.record, members_present (by decide) (readField_op rfl op.tag),
    members_present (by decide) hvalue]
  rfl

/-- A condition with nothing inside it has no `conditions`, which are none where they are absent. -/
theorem record_composite {op : Operator} {cs : List Condition}
    (h : ReadsBack (Reading.list read) (fun cs => .list (cs.map describe)) cs) :
    ∃ x : Option (List Condition), x.getD [] = cs ∧
      Reading.record ConditionFields.names readField {} (.ofValue (composite op (describeAll cs)))
        = .ok { op := some op.tag, conditions := x } := by
  cases cs with
  | nil =>
    have hobject : Tree.ofValue (composite op (describeAll []))
        = .object (Tree.ofMembers (present [("op", some (.text op.tag))])) := rfl
    refine ⟨none, rfl, ?_⟩
    rw [hobject, Reading.record, members_present (by decide) (readField_op rfl op.tag)]
    rfl
  | cons c cs =>
    have hkeys : Keyed.Ascending ["conditions", "op"] := by decide
    have hobject : Tree.ofValue (composite op (describeAll (c :: cs)))
        = .object (Tree.ofMembers (present [("conditions", some (.list (describeAll (c :: cs)))),
          ("op", some (.text op.tag))])) := ofValue_object (.swap _ _ _) hkeys
    have hconditions : readPresent readField {} "conditions"
        (some (.list (describeAll (c :: cs)))) = .ok { conditions := some (c :: cs) } := by
      rw [ReadsBack, ← describeAll_eq_map, Tree.ofValue] at h
      change readField {} "conditions" (.ofValue (.list (describeAll (c :: cs)))) = _
      rw [Tree.ofValue, readField_conditions, h]
      rfl
    refine ⟨some (c :: cs), rfl, ?_⟩
    rw [hobject, Reading.record, members_present (by decide) hconditions,
      members_present (by decide) (readField_op rfl op.tag)]
    rfl

theorem record_nested {op : Operator} {query : Query}
    (h : ReadsBack Query.read Query.describe query) :
    Reading.record ConditionFields.names readField {} (.ofValue (nested op (describeEntries query)))
      = .ok { op := some op.tag, query := some (some query) } := by
  have hkeys : Keyed.Ascending ["op", "query"] := by decide
  have hquery : readPresent readField { op := some op.tag } "query" (some query.describe)
      = .ok { op := some op.tag, query := some (some query) } := by
    rw [ReadsBack, Query.describe, Tree.ofValue] at h
    change readField _ "query" (.ofValue query.describe) = _
    rw [Query.describe, Tree.ofValue, readField_query, Reading.optional, h]
    · rfl
    · exact fun h => by cases h
  have hobject : Tree.ofValue (nested op (describeEntries query))
      = .object (Tree.ofMembers (present [("op", some (.text op.tag)),
        ("query", some query.describe)])) := ofValue_object (.refl _) hkeys
  rw [hobject, Reading.record, members_present (by decide) (readField_op rfl op.tag),
    members_present (by decide) hquery]
  rfl

theorem readsBack_of_build {fields : ConditionFields} (hf : fields.Kept) {tag : String}
    {c : Condition} (h : fields.build tag = .ok c) : ReadsBack read describe c := by
  have hconditions := readsBack_list_getD hf.conditions
  have hquery : ∀ {op query}, fields.queryFor op = .ok query →
      ReadsBack Query.read Query.describe query := fun {op query} h => by
    rw [ConditionFields.queryFor] at h
    split at h
    · next hq =>
      cases h
      exact hf.query query hq
    · cases h
  unfold ConditionFields.build at h
  dsimp only at h
  split at h
  · cases h
  · cases h
    exact read_eq_ok.2 ⟨_, _, record_simple hf.value, rfl, by simp [ConditionFields.build]⟩
  · cases h
    exact read_eq_ok.2 ⟨_, _, record_simple hf.value, rfl, by simp [ConditionFields.build]⟩
  · cases h
    exact read_eq_ok.2 ⟨_, _, record_simple hf.value, rfl, by simp [ConditionFields.build]⟩
  · cases h
    exact read_eq_ok.2 ⟨_, _, record_simple hf.value, rfl, by simp [ConditionFields.build]⟩
  · cases h
    obtain ⟨x, hx, hrecord⟩ := record_composite hconditions
    exact read_eq_ok.2 ⟨_, _, hrecord, rfl, by simp [ConditionFields.build, hx]⟩
  · cases h
    obtain ⟨x, hx, hrecord⟩ := record_composite hconditions
    exact read_eq_ok.2 ⟨_, _, hrecord, rfl, by simp [ConditionFields.build, hx]⟩
  · rcases hq : fields.queryFor .find with fault | query <;> rw [hq] at h <;> cases h
    exact read_eq_ok.2 ⟨_, _, record_nested (hquery hq), rfl,
      by simp [ConditionFields.build, ConditionFields.queryFor, Except.map]⟩
  · rcases hq : fields.queryFor .findNone with fault | query <;> rw [hq] at h <;> cases h
    exact read_eq_ok.2 ⟨_, _, record_nested (hquery hq), rfl,
      by simp [ConditionFields.build, ConditionFields.queryFor, Except.map]⟩

/-! ## Round trips -/

/-- A query that has been read is in the order of its paths, and its conditions are from members. -/
theorem readQuery_induct {P : Condition → Prop} : ∀ {members : List (Option String × Tree)}
    {before after : Query}, (∀ m ∈ members, ∀ c, read m.2 = .ok c → P c) →
      Keyed.Sorted before → (∀ entry ∈ before, P entry.2) →
      readQuery before members = .ok after → Keyed.Sorted after ∧ ∀ entry ∈ after, P entry.2
  | [], _, _, _, hs, hbefore, h => by
    cases h
    exact ⟨hs, hbefore⟩
  | (none, _) :: _, _, _, _, _, _, h => by cases h
  | (some path, tree) :: members, before, after, hP, hs, hbefore, h => by
    obtain ⟨htree, hmembers⟩ := List.forall_mem_cons.1 hP
    rw [readQuery] at h
    obtain ⟨c, hc, h⟩ := bind_eq_ok.1 h
    refine readQuery_induct hmembers (Keyed.sorted_insert path c hs) (fun entry hentry => ?_) h
    rcases Keyed.mem_insert hentry with rfl | hentry
    · exact htree c hc
    · exact hbefore entry hentry

theorem readQuery_described : ∀ {entries : Query} (before : Query),
    (∀ entry ∈ entries, ReadsBack read describe entry.2) →
      readQuery before (Tree.ofMembers (describeEntries entries)) = .ok (before.addAll entries)
  | [], _, _ => rfl
  | (path, c) :: entries, before, h => by
    obtain ⟨hc, hentries⟩ := List.forall_mem_cons.1 h
    rw [ReadsBack] at hc
    rw [describeEntries, Tree.ofMembers, readQuery, hc]
    exact readQuery_described (before.insert path c) hentries

theorem readsBack_query {query : Query} (hs : Keyed.Sorted query)
    (h : ∀ entry ∈ query, ReadsBack read describe entry.2) :
    ReadsBack Query.read Query.describe query := by
  rw [ReadsBack, Query.describe, Tree.ofValue, Query.read, readQuery_described [] h]
  exact congrArg Except.ok hs.ofList_eq

theorem roundTrips_query {tree : Tree}
    (h : ∀ part, part.Part tree → RoundTrips read describe part) :
    RoundTrips Query.read Query.describe tree := by
  intro query hquery
  cases tree with
  | object members =>
    obtain ⟨hs, hall⟩ :=
      readQuery_induct (fun m hm c hc => h m.2 (.member hm) c hc) .nil nofun hquery
    exact readsBack_query hs hall
  | _ => cases hquery

theorem kept_readField {tree : Tree} (hd : tree.hasDistinctKeys = true)
    (h : ∀ part, part.Part tree → RoundTrips read describe part)
    {fields after : ConditionFields} {name : String} (hf : fields.Kept)
    (hread : readField fields name tree = .ok after) : after.Kept := by
  cases readsField_of_readField hread with
  | op tag => exact ⟨hf.value, hf.conditions, hf.query⟩
  | value hx =>
    refine ⟨?_, hf.conditions, hf.query⟩
    exact roundTrips_optional (Operand.roundTrips hd)
      (fun hnull _ => Operand.describe_ne_null hnull) _ hx
  | conditions hcs =>
    refine ⟨hf.value, fun cs hmem => ?_, hf.query⟩
    cases hmem
    exact roundTrips_list h _ hcs
  | query hx =>
    refine ⟨hf.value, hf.conditions, fun query hmem => ?_⟩
    rcases Reading.optional_eq_ok hx with ⟨-, rfl⟩ | ⟨-, q, hq, rfl⟩
    · cases hmem
    · cases hmem
      exact roundTrips_query h _ hq

theorem roundTrips (tree : Tree) (hd : tree.hasDistinctKeys = true) :
    RoundTrips read describe tree := by
  intro c hc
  obtain ⟨fields, tag, hfields, -, hbuild⟩ := read_eq_ok.1 hc
  have hstart : ConditionFields.Kept {} := ⟨rfl, nofun, nofun⟩
  have hkept : fields.Kept := by
    refine Reading.record_induct ConditionFields.Kept (fun part hpart {_ _ _} hf hread => ?_) hstart
      hfields
    -- conditions nest in the items and members of a field, two levels further down
    have hdpart := hpart.hasDistinctKeys hd
    exact kept_readField hdpart
      (fun item hitem => roundTrips item (hitem.hasDistinctKeys hdpart)) hf hread
  exact readsBack_of_build hkept hbuild
termination_by sizeOf tree
decreasing_by exact hitem.sizeOf_lt.trans hpart.sizeOf_lt

end Condition

namespace Query

theorem roundTrips {tree : Tree} (hd : tree.hasDistinctKeys = true) :
    RoundTrips read describe tree :=
  Condition.roundTrips_query fun part hpart =>
    Condition.roundTrips part (hpart.hasDistinctKeys hd)

end Query

namespace Statement

theorem roundTrips {tree : Tree} (hd : tree.hasDistinctKeys = true) :
    RoundTrips read describe tree :=
  roundTrips_list fun _ hitem => Query.roundTrips (hitem.hasDistinctKeys hd)

theorem roundTrips_all {tree : Tree} (hd : tree.hasDistinctKeys = true) :
    RoundTrips readAll describeAll tree :=
  roundTrips_list fun _ hitem => roundTrips (hitem.hasDistinctKeys hd)

end Statement

end RecordQuery

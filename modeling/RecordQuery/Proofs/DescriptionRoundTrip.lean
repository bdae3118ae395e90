import RecordQuery.Description.Filter
import RecordQuery.Description.Pipeline
import RecordQuery.Proofs.ConditionRoundTrip
import RecordQuery.Proofs.GroupingRoundTrip

/-!
# Descriptions read back

What is read for the fields of a record reads back, and the description of a record is its fields
again, less those that are absent. So sort rules, filters, steps and pipelines are read again from
their own descriptions as conditions and groupings are, whatever the form they were read in
(`descriptions_readBack`).
-/

namespace RecordQuery

open Json Description

/-! ## Sort rules -/

namespace SortRule

/-- What the fields of a sort rule hold reads back. -/
structure Fields.Kept (fields : Fields) : Prop where
  id : ReadsBack? Reading.value (fun v => v) fields.id.join

theorem kept_readField {fields after : Fields} {name : String} {tree : Tree} (hf : fields.Kept)
    (h : readField fields name tree = .ok after) : after.Kept := by
  unfold readField at h
  split at h
  · obtain ⟨_, -, rfl⟩ := bind_pure_eq_ok.1 h
    exact ⟨hf.id⟩
  · obtain ⟨_, hb, rfl⟩ := bind_pure_eq_ok.1 h
    obtain ⟨x, hx, rfl⟩ := Reading.once_eq_ok hb
    exact ⟨roundTrips_optional_value tree x hx⟩
  · obtain ⟨_, -, rfl⟩ := bind_pure_eq_ok.1 h
    exact ⟨hf.id⟩
  · obtain ⟨_, -, rfl⟩ := bind_pure_eq_ok.1 h
    exact ⟨hf.id⟩
  · cases h

theorem id_of_selectorOf {id : Option Value} {property : Option String}
    {selector : Option ItemSelector} (h : selectorOf id property = .ok selector) :
    id = selector.map ItemSelector.id := by
  unfold selectorOf at h
  split at h <;> cases h <;> rfl

theorem readPresent_field {fields : Fields} (hf : fields.field = none) (s : String) :
    readPresent readField fields "field" (some (.text s))
      = .ok { fields with field := some s } := by
  change (do return { fields with field := ← Reading.once fields.field (.ok s) }) = _
  rw [hf]
  rfl

theorem readPresent_id {fields : Fields} (hf : fields.id = none) {selector : Option ItemSelector}
    (h : ∀ s ∈ selector, Reading.optional Reading.value (.ofValue s.id) = .ok (some s.id)) :
    readPresent readField fields "subId" (selector.map fun s => s.id)
      = .ok { fields with id := selector.map fun s => some s.id } :=
  readPresent_optional Reading.value hf (fun x => { fields with id := x }) (fun _ => rfl) h

theorem readPresent_property {fields : Fields} (hf : fields.property = none)
    (selector : Option ItemSelector) :
    readPresent readField fields "subProp" (selector.map fun s => .text s.property)
      = .ok { fields with property := selector.map fun s => some s.property } :=
  readPresent_optional Reading.text hf (fun x => { fields with property := x }) (fun _ => rfl)
    fun _ _ => rfl

theorem readPresent_direction (direction : Direction) :
    readPresent readField {} "direction" (some direction.describe)
      = .ok { direction := some direction } := by
  cases direction <;> rfl

theorem readsBack {rule : SortRule} (h : ∀ selector ∈ rule.selector,
    Reading.optional Reading.value (.ofValue selector.id) = .ok (some selector.id)) :
    ReadsBack read describe rule := by
  have hkeys : Keyed.Ascending ["direction", "field", "subId", "subProp"] := by decide
  have hobject : Tree.ofValue rule.describe
      = .object (Tree.ofMembers (present [("direction", some rule.direction.describe),
        ("field", some (.text rule.field.raw)), ("subId", rule.selector.map fun s => s.id),
        ("subProp", rule.selector.map fun s => .text s.property)])) :=
    ofValue_object (List.perm_append_singleton _ [_, _, _]) hkeys
  rw [ReadsBack, read, hobject, Reading.record,
    members_present (by decide) (readPresent_direction rule.direction),
    members_present (by decide) (readPresent_field rfl rule.field.raw),
    members_present (by decide) (readPresent_id rfl h),
    members_present (by decide) (readPresent_property rfl rule.selector)]
  obtain ⟨field, selector, direction⟩ := rule
  cases selector <;> rfl

theorem roundTrips (tree : Tree) : RoundTrips read describe tree := by
  intro rule h
  obtain ⟨fields, hfields, h⟩ := bind_eq_ok.1 h
  obtain ⟨field, -, h⟩ := bind_eq_ok.1 h
  obtain ⟨selector, hselector, h⟩ := bind_eq_ok.1 h
  cases h
  have hstart : Fields.Kept {} := ⟨rfl⟩
  have hkept : fields.Kept :=
    Reading.record_induct Fields.Kept (fun _ _ => kept_readField) hstart hfields
  have hid : fields.id.join = selector.map ItemSelector.id :=
    id_of_selectorOf (Reading.ofFaulty_eq_ok.1 hselector)
  refine readsBack fun s hs => hkept.id.of_mem s.id ?_
  rw [hid]
  exact Option.mem_map_of_mem _ hs

end SortRule

/-! ## Filters -/

namespace Filter

/-- What the fields of a filter hold reads back. -/
structure Fields.Kept (fields : Fields) : Prop where
  statements : ∀ statements ∈ fields.statements,
    ReadsBack Statement.readAll Statement.describeAll statements
  sort : ReadsBack? SortRule.read SortRule.describe fields.sort.join
  limit : ReadsBack? Reading.natural (fun n : Nat => .int n) fields.limit.join

theorem kept_readField {fields after : Fields} {name : String} {tree : Tree}
    (hd : tree.hasDistinctKeys = true) (hf : fields.Kept)
    (h : readField fields name tree = .ok after) : after.Kept := by
  unfold readField at h
  split at h
  · obtain ⟨_, hb, rfl⟩ := bind_pure_eq_ok.1 h
    exact ⟨readsBack_of_once (Statement.roundTrips_all hd) hb, hf.sort, hf.limit⟩
  · obtain ⟨_, hb, rfl⟩ := bind_pure_eq_ok.1 h
    obtain ⟨x, hx, rfl⟩ := Reading.once_eq_ok hb
    refine ⟨hf.statements, ?_, hf.limit⟩
    exact roundTrips_optional (SortRule.roundTrips tree) (fun _ _ _ => nofun) x hx
  · obtain ⟨_, hb, rfl⟩ := bind_pure_eq_ok.1 h
    obtain ⟨x, hx, rfl⟩ := Reading.once_eq_ok hb
    refine ⟨hf.statements, hf.sort, ?_⟩
    exact roundTrips_optional (roundTrips_natural tree) (fun _ _ _ => nofun) x hx
  · cases h

theorem readPresent_limit {fields : Fields} (hf : fields.limit = none) {limit : Option Nat}
    (h : ReadsBack? Reading.natural (fun n : Nat => .int n) limit) :
    readPresent readField fields "limit" (limit.map fun n : Nat => .int n)
      = .ok { fields with limit := limit.map some } :=
  readPresent_optional Reading.natural hf (fun x => { fields with limit := x }) (fun _ => rfl)
    h.of_mem

theorem readPresent_sort {fields : Fields} (hf : fields.sort = none) {sort : Option SortRule}
    (h : ReadsBack? SortRule.read SortRule.describe sort) :
    readPresent readField fields "sort" (sort.map SortRule.describe)
      = .ok { fields with sort := sort.map some } :=
  readPresent_optional SortRule.read hf (fun x => { fields with sort := x }) (fun _ => rfl) h.of_mem

theorem readPresent_statements {fields : Fields} (hf : fields.statements = none)
    {statements : List Statement}
    (h : ReadsBack Statement.readAll Statement.describeAll statements) :
    readPresent readField fields "statements" (some (Statement.describeAll statements))
      = .ok { fields with statements := some statements } := by
  rw [ReadsBack] at h
  have hread : Reading.once fields.statements
      (Statement.readAll (.ofValue (Statement.describeAll statements)))
        = .ok (some statements) := by
    rw [hf, h]
    rfl
  exact bind_pure_eq_ok.2 ⟨_, hread, rfl⟩

theorem readsBack {filter : Filter}
    (hstatements : ReadsBack Statement.readAll Statement.describeAll filter.statements)
    (hsort : ReadsBack? SortRule.read SortRule.describe filter.sort)
    (hlimit : ReadsBack? Reading.natural (fun n : Nat => .int n) filter.limit) :
    ReadsBack read describe filter := by
  have hkeys : Keyed.Ascending ["limit", "sort", "statements"] := by decide
  have hobject : Tree.ofValue filter.describe
      = .object (Tree.ofMembers (present [("limit", filter.limit.map fun n : Nat => .int n),
        ("sort", filter.sort.map SortRule.describe),
        ("statements", some (Statement.describeAll filter.statements))])) := by
    rcases filter with ⟨statements, sort, _ | n⟩ <;>
      exact ofValue_object (List.reverse_perm [_, _, _]).symm hkeys
  rw [ReadsBack, read, hobject, Reading.record,
    members_present (by decide) (readPresent_limit rfl hlimit),
    members_present (by decide) (readPresent_sort rfl hsort),
    members_present (by decide) (readPresent_statements rfl hstatements)]
  obtain ⟨statements, sort, limit⟩ := filter
  cases sort <;> cases limit <;> rfl

theorem roundTrips {tree : Tree} (hd : tree.hasDistinctKeys = true) :
    RoundTrips read describe tree := by
  intro filter h
  obtain ⟨fields, hfields, rfl⟩ := bind_pure_eq_ok.1 h
  have hstart : Fields.Kept {} := ⟨nofun, rfl, rfl⟩
  have hkept : fields.Kept :=
    Reading.record_induct Fields.Kept (fun _ hpart => kept_readField (hpart.hasDistinctKeys hd))
      hstart hfields
  exact readsBack (readsBack_list_getD hkept.statements) hkept.sort hkept.limit

end Filter

/-! ## Steps and pipelines -/

namespace Step

/-- What a step consists of reads back. -/
inductive Kept : Step → Prop
  | filter {statements : List Statement} :
      ReadsBack Statement.readAll Statement.describeAll statements → Kept (filter statements)
  | buckets {grouping : Grouping} :
      ReadsBack (Grouping.read true) Grouping.describe grouping → Kept (buckets grouping)
  | unknown : Kept unknown

theorem kept_readMembers {kind : String} {members : List (Option String × Tree)} {step : Step}
    (hd : ∀ m ∈ members, m.2.hasDistinctKeys = true) (h : readMembers kind members = .ok step) :
    step.Kept := by
  rw [readMembers] at h
  split_ifs at h
  · obtain ⟨statements, hstatements, rfl⟩ := bind_pure_eq_ok.1 h
    exact .filter (readsBack_list_getD
      (readsBack_of_members (fun m hm => Statement.roundTrips_all (hd m hm)) hstatements))
  · obtain ⟨options, hoptions, h⟩ := bind_eq_ok.1 h
    obtain ⟨grouping, hgrouping, rfl⟩ := bind_pure_eq_ok.1 h
    rw [Reading.required_eq_ok] at hgrouping
    exact .buckets (readsBack_of_members (fun m _ => Grouping.roundTrips true m.2) hoptions
      grouping hgrouping)
  · cases h
    exact .unknown

theorem kept_readItems {kind : String} {items : List Tree} {step : Step}
    (hd : ∀ t ∈ items, t.hasDistinctKeys = true) (h : readItems kind items = .ok step) :
    step.Kept := by
  rw [readItems] at h
  split_ifs at h
  · obtain ⟨statements, hstatements, rfl⟩ := bind_pure_eq_ok.1 h
    exact .filter (readsBack_list_getD
      (readsBack_of_items (fun t ht => Statement.roundTrips_all (hd t ht)) hstatements))
  · obtain ⟨options, hoptions, h⟩ := bind_eq_ok.1 h
    obtain ⟨grouping, hgrouping, rfl⟩ := bind_pure_eq_ok.1 h
    rw [Reading.required_eq_ok] at hgrouping
    exact .buckets (readsBack_of_items (fun t _ => Grouping.roundTrips true t) hoptions
      grouping hgrouping)
  · cases h
    exact .unknown
  · cases h

theorem kept_of_read {tree : Tree} (hd : tree.hasDistinctKeys = true) {step : Step}
    (h : read tree = .ok step) : step.Kept := by
  obtain ⟨_, -, h⟩ := bind_eq_ok.1 h
  split at h
  · split at h
    · next hothers =>
      refine kept_readMembers (fun m hm => ?_) h
      rw [List.partition_eq_filter_filter] at hothers
      rw [← (Prod.mk.inj hothers).2] at hm
      exact (Tree.Part.member (List.mem_of_mem_filter hm)).hasDistinctKeys hd
    · cases h
  · exact kept_readItems
      (fun t ht => (Tree.Part.item (List.mem_cons_of_mem _ ht)).hasDistinctKeys hd) h
  · cases h

theorem read_list {kind : String} {items : List Tree}
    (h : (Tree.list (.text kind :: items)).value?.isSome = true) :
    read (.list (.text kind :: items)) = readItems kind items := by
  obtain ⟨v, hv⟩ := Option.isSome_iff_exists.1 h
  simp only [read, Reading.value_eq_ok.2 hv]
  rfl

/-- A step described by its kind and one other member is read by its kind from that member. -/
theorem read_described {kind key : String} {part : Value} (hkey : key ≠ "type")
    (hkeys : Keyed.Ascending [key, "type"]) :
    read (.ofValue (Description.object [("type", some (.text kind)), (key, some part)]))
      = readMembers kind (Tree.ofMembers (present [(key, some part)])) := by
  have hobject : Tree.ofValue (Description.object [("type", some (.text kind)), (key, some part)])
      = .object [(some key, .ofValue part), (some "type", .text kind)] :=
    ofValue_object (.swap _ _ _) hkeys
  have hkind : [(some key, Tree.ofValue part), (some "type", .text kind)].partition
      (·.1 == some "type") = ([(some "type", .text kind)], [(some key, .ofValue part)]) := by
    simp [List.partition, List.partition.loop, beq_eq_false_iff_ne.2 hkey]
  -- the step is taken in first, for which any value will do
  obtain ⟨w, hw⟩ := Tree.exists_value?_ofValue
    (Description.object [("type", some (.text kind)), (key, some part)])
  rw [hobject] at hw ⊢
  simp only [read, Reading.value_eq_ok.2 hw, hkind]
  rfl

theorem readsBack {step : Step} (h : step.Kept) : ReadsBack read describe step := by
  cases h with
  | @filter statements h =>
    have hread : readPresent readStatements none "statements"
        (some (Statement.describeAll statements)) = .ok (some statements) := readPresent_once h
    rw [ReadsBack, describe, read_described (by decide) (by decide), readMembers, if_pos rfl,
      members_present (by decide) hread]
    rfl
  | @buckets grouping h =>
    have hread : readPresent readOptions none "options" (some grouping.describe)
        = .ok (some grouping) := readPresent_once h
    rw [ReadsBack, describe, read_described (by decide) (by decide), readMembers,
      if_neg (by decide), if_pos rfl, members_present (by decide) hread]
    rfl
  | unknown => rfl

theorem roundTrips {tree : Tree} (hd : tree.hasDistinctKeys = true) :
    RoundTrips read describe tree :=
  fun _ h => readsBack (kept_of_read hd h)

end Step

namespace Pipeline

theorem readsBack {steps : List Step} (h : ReadsBack (Reading.list Step.read)
    (fun steps => .list (steps.map Step.describe)) steps) : ReadsBack read describe ⟨steps⟩ := by
  have hread : readPresent readSteps none "steps" (some (.list (steps.map Step.describe)))
      = .ok (some steps) := readPresent_once h
  have hobject : Tree.ofValue (describe ⟨steps⟩) = .object (Tree.ofMembers
      (present [("steps", some (.list (steps.map Step.describe)))])) := rfl
  rw [ReadsBack, read, hobject, Reading.record, members_present (by decide) hread]
  rfl

theorem roundTrips {tree : Tree} (hd : tree.hasDistinctKeys = true) :
    RoundTrips read describe tree := by
  intro pipeline h
  obtain ⟨steps, hsteps, rfl⟩ := bind_pure_eq_ok.1 h
  refine readsBack (readsBack_list_getD (readsBack_of_record (fun part hpart => ?_) hsteps))
  exact roundTrips_list fun item hitem =>
    Step.roundTrips (hitem.hasDistinctKeys (hpart.hasDistinctKeys hd))

end Pipeline

/-! ## Every description -/

/-- Whatever a tree without repeated keys is read as is read again from its own description. Among
these trees are lists for records, tags in any case, members that no one reads, and nulls for what
is absent, which descriptions do not have. -/
theorem descriptions_readBack (tree : Tree) (hd : tree.hasDistinctKeys = true) :
    RoundTrips Condition.read Condition.describe tree ∧
      RoundTrips Query.read Query.describe tree ∧
      RoundTrips Statement.read Statement.describe tree ∧
      RoundTrips SortRule.read SortRule.describe tree ∧
      RoundTrips Filter.read Filter.describe tree ∧
      RoundTrips (Grouping.read false) Grouping.describe tree ∧
      RoundTrips Step.read Step.describe tree ∧
      RoundTrips Pipeline.read Pipeline.describe tree :=
  ⟨Condition.roundTrips tree hd, Query.roundTrips hd, Statement.roundTrips hd,
    SortRule.roundTrips tree, Filter.roundTrips hd, Grouping.roundTrips false tree,
    Step.roundTrips hd, Pipeline.roundTrips hd⟩

/-- A condition with a tag in small letters, a null query and members that no one reads. Then, as
lists of their fields, a filter with that condition and a pipeline, of which the second step is an
object and has its kind last. -/
theorem descriptions_readBack_loose_forms :
    let date := Tree.object [(some "hint", .null),
      (some "daysAgo", .number (.integer 3 (by decide)))]
    let loose := Tree.object [(some "note", .list []), (some "value", date), (some "query", .null),
      (some "op", .text "gte")]
    let condition := Condition.order .atLeast (.daysAgo 3)
    let statements := Tree.list [.list [.object [(some "day", loose)]]]
    let listed := Tree.list [statements, .list [.text "n", .null, .null, .text "DESC"], .null]
    let filter : Filter := ⟨[[[("day", condition)]]], some ⟨⟨"n"⟩, none, .descending⟩, none⟩
    let steps := Tree.list [.list [.list [.text "filter", statements],
      .object [(some "options", .list [.text "n", .null, .number (.integer 2 (by decide))]),
        (some "type", .text "buckets")],
      .list [.text "later"]]]
    let level : Level := { field := ⟨"n"⟩, interval := some (.finite (Double.ofInt 2)) }
    let pipeline : Pipeline := ⟨[.filter filter.statements, .buckets ⟨level, []⟩, .unknown]⟩
    (loose.hasDistinctKeys = true ∧ Condition.read loose = .ok condition ∧
      Condition.read (.ofValue condition.describe) = .ok condition) ∧
    (listed.hasDistinctKeys = true ∧ Filter.read listed = .ok filter ∧
      Filter.read (.ofValue filter.describe) = .ok filter) ∧
    (steps.hasDistinctKeys = true ∧ Pipeline.read steps = .ok pipeline ∧
      Pipeline.read (.ofValue pipeline.describe) = .ok pipeline) := by
  intro date loose condition statements listed filter steps level pipeline
  have hd : loose.hasDistinctKeys = true := by decide +kernel
  have htag : Operator.ofTag? "gte" = some (.order .atLeast) := by
    have hlower : ∀ s : String, s.toLower = s.map Char.toLower := fun _ => rfl
    simp [Operator.ofTag?, Operator.every, Operator.tag, hlower, String.ext_iff]
  have hbuild := ConditionFields.build_of_ofTag? htag
    { op := some "gte", value := some (some (.daysAgo 3)), query := some none }
  have hread : Condition.read loose = .ok condition := by
    refine Condition.read_eq_ok.2 ⟨_, "gte", rfl, rfl, hbuild.trans ?_⟩
    simp [ConditionFields.build, condition]
  have hstatements : Statement.readAll statements = .ok filter.statements := by
    have hquery : Query.read (.object [(some "day", loose)]) = .ok [("day", condition)] := by
      rw [Query.read, Condition.readQuery, hread]
      rfl
    simp only [statements, Statement.readAll, Statement.read, Reading.list, List.mapM_cons,
      List.mapM_nil, hquery]
    rfl
  have hlisted : listed.hasDistinctKeys = true := by decide +kernel
  have hfilter : Filter.read listed = .ok filter := by
    simp only [listed, Filter.read, Reading.record, Reading.items, Filter.readField, hstatements]
    rfl
  have hsteps : steps.hasDistinctKeys = true := by decide +kernel
  have hfirst : Step.read (.list [.text "filter", statements])
      = .ok (.filter filter.statements) := by
    rw [Step.read_list (by decide +kernel)]
    simp only [Step.readItems, Reading.items, Step.readStatements, hstatements]
    rfl
  have hpipeline : Pipeline.read steps = .ok pipeline := by
    simp only [steps, Pipeline.read, Reading.record, Reading.items, Pipeline.readSteps, Reading.list,
      List.mapM_cons, List.mapM_nil, hfirst]
    rfl
  obtain ⟨hcondition, -⟩ := descriptions_readBack loose hd
  obtain ⟨-, -, -, -, hfilters, -⟩ := descriptions_readBack listed hlisted
  obtain ⟨-, -, -, -, -, -, -, hpipelines⟩ := descriptions_readBack steps hsteps
  exact ⟨⟨hd, hread, hcondition condition hread⟩, ⟨hlisted, hfilter, hfilters filter hfilter⟩,
    ⟨hsteps, hpipeline, hpipelines pipeline hpipeline⟩⟩

end RecordQuery

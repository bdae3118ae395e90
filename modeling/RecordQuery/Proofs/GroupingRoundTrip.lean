import RecordQuery.Description.Grouping
import RecordQuery.Proofs.ReadingLaws

/-!
# Descriptions of groupings read back

A level is a record of seven fields, each of which is left out of its description where it is
absent, and the levels below it are once more a grouping under `subBuckets`. So a grouping reads
back if what was read for its fields does (`Grouping.readsBack`), and that is so by induction on the
tree (`Grouping.roundTrips`). It holds of a grouping on its own and of one inside something that was
taken in as a whole, where units have one form more. A width that is not finite is described by
null, but no description has one.
-/

namespace RecordQuery

open Json Description

namespace Grouping

section Fields

variable {taken : Bool} {fields after : Fields} {name : String} {tree : Tree}

/-- What the fields of a level hold reads back. -/
structure Fields.Kept (taken : Bool) (fields : Fields) : Prop where
  values : ReadsBack? (Reading.list Reading.value) .list fields.values.join
  itemIds : ReadsBack? (Reading.list Reading.value) .list fields.itemIds.join
  deeper : ReadsBack? (read taken) describe fields.deeper.join

theorem roundTrips_values (tree : Tree) :
    RoundTrips? (Reading.list Reading.value) .list tree := by
  refine roundTrips_optional (fun values h => ?_) fun _ _ _ => nofun
  have hlist := roundTrips_list (fun item _ => roundTrips_value item) values h
  rw [ReadsBack, List.map_id'] at hlist
  exact hlist

theorem kept_readPlain (hf : fields.Kept taken)
    (h : fields.readPlain taken name tree = .ok after) : after.Kept taken := by
  unfold Fields.readPlain at h
  split at h
  · obtain ⟨_, -, rfl⟩ := bind_pure_eq_ok.1 h
    exact ⟨hf.values, hf.itemIds, hf.deeper⟩
  · obtain ⟨_, hb, rfl⟩ := bind_pure_eq_ok.1 h
    obtain ⟨x, hx, rfl⟩ := Reading.once_eq_ok hb
    exact ⟨roundTrips_values _ x hx, hf.itemIds, hf.deeper⟩
  · obtain ⟨_, -, rfl⟩ := bind_pure_eq_ok.1 h
    exact ⟨hf.values, hf.itemIds, hf.deeper⟩
  · obtain ⟨_, -, rfl⟩ := bind_pure_eq_ok.1 h
    exact ⟨hf.values, hf.itemIds, hf.deeper⟩
  · obtain ⟨_, hb, rfl⟩ := bind_pure_eq_ok.1 h
    obtain ⟨x, hx, rfl⟩ := Reading.once_eq_ok hb
    exact ⟨hf.values, roundTrips_values _ x hx, hf.deeper⟩
  · obtain ⟨_, -, rfl⟩ := bind_pure_eq_ok.1 h
    exact ⟨hf.values, hf.itemIds, hf.deeper⟩
  · obtain ⟨_, hb, rfl⟩ := bind_pure_eq_ok.1 h
    obtain ⟨x, hx, rfl⟩ := Reading.once_eq_ok hb
    cases hx
    exact ⟨hf.values, hf.itemIds, rfl⟩
  · cases h

theorem readMembers_eq (fields : Fields) (members : List (Option String × Tree)) :
    readMembers taken fields members = Reading.members names (readField taken) fields members :=
  Reading.eq_members (fun _ => rfl) (fun _ _ _ => rfl) (fun _ _ _ _ => rfl) fields members

theorem readItems_eq (fields : Fields) (names : List String) (items : List Tree) :
    readItems taken fields names items = Reading.items (readField taken) fields names items :=
  Reading.eq_items (fun _ _ => by rw [readItems]; rfl) (fun _ _ _ => rfl)
    (fun _ _ _ _ _ => rfl) fields names items

theorem read_eq (tree : Tree) :
    read taken tree = (do (← Reading.record names (readField taken) {} tree).build) := by
  cases tree with
  | object members => rw [read, readMembers_eq, Reading.record]
  | list items => rw [read, readItems_eq, Reading.record]
  | _ => rfl

theorem kept_readField (hf : fields.Kept taken) (htree : RoundTrips (read taken) describe tree)
    (h : readField taken fields name tree = .ok after) : after.Kept taken := by
  have hdeeper : ∀ {x}, Reading.optional (read taken) tree = .ok x →
      ({ fields with deeper := some x } : Fields).Kept taken := fun hx =>
    ⟨hf.values, hf.itemIds, roundTrips_optional htree (fun _ _ _ => nofun) _ hx⟩
  cases tree with
  | list items =>
    rw [readField] at h
    split_ifs at h
    · obtain ⟨_, hb, rfl⟩ := bind_pure_eq_ok.1 h
      obtain ⟨x, hx, rfl⟩ := Reading.once_eq_ok hb
      exact hdeeper hx
    · exact kept_readPlain hf h
  | object members =>
    rw [readField] at h
    split_ifs at h
    · obtain ⟨_, hb, rfl⟩ := bind_pure_eq_ok.1 h
      obtain ⟨x, hx, rfl⟩ := Reading.once_eq_ok hb
      exact hdeeper hx
    · exact kept_readPlain hf h
  | _ => exact kept_readPlain hf h

/-! ### A level described -/

theorem readPresent_field (s : String) :
    readPresent (readField taken) {} "fieldId" (some (.text s)) = .ok { field := some s } :=
  rfl

theorem readPresent_interval (hf : fields.interval = none) (width : Option Double) :
    readPresent (readField taken) fields "interval"
        ((width.map Extended.finite).map Level.describeWidth)
      = .ok { fields with interval := width.map some } := by
  rw [Option.map_map]
  refine readPresent_optional Reading.double hf (fun x => { fields with interval := x })
    (fun tree => ?_) fun d _ => ?_
  · cases tree <;> rfl
  · rfl

theorem readPresent_deeper (hf : fields.deeper = none) {deeper : Option Grouping}
    (h : ReadsBack? (read taken) describe deeper) :
    readPresent (readField taken) fields "subBuckets" (deeper.map describe)
      = .ok { fields with deeper := deeper.map some } := by
  refine readPresent_optional (read taken) hf (fun x => { fields with deeper := x })
    (fun tree => ?_) h.of_mem
  cases tree with
  | object members => rw [readField, if_pos rfl]; rfl
  | list items => rw [readField, if_pos rfl]; rfl
  | null => rfl
  | _ => cases fields.deeper <;> rfl

theorem readPresent_itemIds (hf : fields.itemIds = none) {ids : Option (List Value)}
    (h : ReadsBack? (Reading.list Reading.value) .list ids) :
    readPresent (readField taken) fields "subFieldIds" (ids.map .list)
      = .ok { fields with itemIds := ids.map some } := by
  refine readPresent_optional (Reading.list Reading.value) hf
    (fun x => { fields with itemIds := x }) (fun tree => ?_) h.of_mem
  cases tree <;> rfl

theorem readPresent_itemProperty (hf : fields.itemProperty = none) (property : Option String) :
    readPresent (readField taken) fields "subFieldProp" (property.map .text)
      = .ok { fields with itemProperty := property.map some } := by
  refine readPresent_optional Reading.text hf (fun x => { fields with itemProperty := x })
    (fun tree => ?_) fun s _ => ?_
  · cases tree <;> rfl
  · rfl

theorem readPresent_unit (hf : fields.unit = none) (unit : Option DateUnit) :
    readPresent (readField taken) fields "unit" (unit.map DateUnit.describe)
      = .ok { fields with unit := unit.map some } := by
  refine readPresent_optional (DateUnit.read taken) hf (fun x => { fields with unit := x })
    (fun tree => ?_) fun u _ => ?_
  · cases tree <;> rfl
  · cases u <;> rfl

theorem readPresent_values (hf : fields.values = none) {values : Option (List Value)}
    (h : ReadsBack? (Reading.list Reading.value) .list values) :
    readPresent (readField taken) fields "values" (values.map .list)
      = .ok { fields with values := values.map some } := by
  refine readPresent_optional (Reading.list Reading.value) hf
    (fun x => { fields with values := x }) (fun tree => ?_) h.of_mem
  cases tree <;> rfl

end Fields

/-- The members of a level, in key order. -/
theorem perm_members {α : Type} (field values interval unit itemIds itemProperty deeper : α) :
    [field, values, interval, unit, itemIds, itemProperty, deeper].Perm
      [field, interval, deeper, itemIds, itemProperty, unit, values] := by
  classical
  refine List.perm_iff_count.2 fun a => ?_
  simp only [List.count_cons]
  omega

theorem readsBack {taken : Bool} {level : Level} {deeper : Option Grouping}
    (hvalues : ReadsBack? (Reading.list Reading.value) .list level.values)
    (hids : ReadsBack? (Reading.list Reading.value) .list level.itemIds)
    {width : Option Double} (hwidth : level.interval = width.map .finite)
    (hdeeper : ReadsBack? (read taken) describe deeper) :
    ReadsBack (read taken) describe ⟨level, (deeper.map levels).getD []⟩ := by
  have hkeys : Keyed.Ascending ["fieldId", "interval", "subBuckets", "subFieldIds", "subFieldProp",
    "unit", "values"] := by decide
  -- the chain of levels below is described as a grouping of its own
  have hinner : describeLevels ((deeper.map levels).getD []) = deeper.map describe := by
    cases deeper <;> rfl
  have hobject : Tree.ofValue (describe ⟨level, (deeper.map levels).getD []⟩)
      = .object (Tree.ofMembers (present [("fieldId", some (.text level.field.raw)),
        ("interval", (width.map Extended.finite).map Level.describeWidth),
        ("subBuckets", deeper.map describe), ("subFieldIds", level.itemIds.map .list),
        ("subFieldProp", level.itemProperty.map .text),
        ("unit", level.unit.map DateUnit.describe), ("values", level.values.map .list)])) := by
    rw [describe, hinner, ← hwidth]
    exact ofValue_object (perm_members _ _ _ _ _ _ _) hkeys
  have hread : Reading.record names (readField taken) {} (.ofValue (describe
      ⟨level, (deeper.map levels).getD []⟩)) = .ok {
        field := some level.field.raw
        values := level.values.map some
        interval := width.map some
        unit := level.unit.map some
        itemIds := level.itemIds.map some
        itemProperty := level.itemProperty.map some
        deeper := deeper.map some } := by
    rw [hobject, Reading.record,
      members_present (by decide) (readPresent_field level.field.raw),
      members_present (by decide) (readPresent_interval rfl width),
      members_present (by decide) (readPresent_deeper rfl hdeeper),
      members_present (by decide) (readPresent_itemIds rfl hids),
      members_present (by decide) (readPresent_itemProperty rfl level.itemProperty),
      members_present (by decide) (readPresent_unit rfl level.unit),
      members_present (by decide) (readPresent_values rfl hvalues)]
    rfl
  -- absent and null fields are one, so what was read for a field joins to the field
  have hjoin : ∀ {α : Type} (x : Option α), (x.map some).join = x := fun x => by cases x <;> rfl
  rw [ReadsBack, read_eq]
  refine bind_eq_ok.2 ⟨_, hread, ?_⟩
  rw [Fields.build]
  simp only [hjoin, ← hwidth]
  rfl

theorem roundTrips (taken : Bool) (tree : Tree) : RoundTrips (read taken) describe tree := by
  intro grouping h
  rw [read_eq] at h
  obtain ⟨fields, hfields, h⟩ := bind_eq_ok.1 h
  obtain ⟨field, -, rfl⟩ := bind_pure_eq_ok.1 h
  have hstart : Fields.Kept taken {} := ⟨rfl, rfl, rfl⟩
  have hkept : fields.Kept taken := by
    refine Reading.record_induct (Fields.Kept taken) (fun part hpart {_ _ _} hf hread => ?_) hstart
      hfields
    exact kept_readField hf (roundTrips taken part) hread
  exact readsBack hkept.values hkept.itemIds rfl hkept.deeper
termination_by sizeOf tree
decreasing_by exact hpart.sizeOf_lt

end Grouping

end RecordQuery

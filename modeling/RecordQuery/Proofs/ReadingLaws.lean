import RecordQuery.Description.Reading
import RecordQuery.Proofs.Compiling
import RecordQuery.Proofs.WellFormed

/-!
# Reading what has been described

The tree of a value that has been read stands for that value (`Json.Tree.value?_ofValue`). A record
goes through its parts one at a time, so what every field preserves holds of what is read
(`Reading.record_induct`), and on a described object, whose members are in key order, it does one
known step for each member (`Description.members_present`).
-/

namespace RecordQuery

open Json

namespace Json.Tree

/-- An item of a list or a member of an object. -/
inductive Part : Tree → Tree → Prop
  | item {part : Tree} {items : List Tree} : part ∈ items → Part part (list items)
  | member {key : Option String} {part : Tree} {members : List (Option String × Tree)} :
      (key, part) ∈ members → Part part (object members)

theorem Part.sizeOf_lt {part tree : Tree} (h : part.Part tree) : sizeOf part < sizeOf tree := by
  cases h with
  | item h =>
    have hlt := List.sizeOf_lt_of_mem h
    rw [list.sizeOf_spec]
    omega
  | member h =>
    have hlt := List.sizeOf_lt_of_mem h
    rw [Prod.mk.sizeOf_spec] at hlt
    rw [object.sizeOf_spec]
    omega

mutual

/-- Whether no object has a key twice. -/
def hasDistinctKeys : Tree → Bool
  | list items => itemsHaveDistinctKeys items
  | object members => decide (members.map Prod.fst).Nodup && membersHaveDistinctKeys members
  | _ => true

def itemsHaveDistinctKeys : List Tree → Bool
  | [] => true
  | item :: items => item.hasDistinctKeys && itemsHaveDistinctKeys items

def membersHaveDistinctKeys : List (Option String × Tree) → Bool
  | [] => true
  | (_, member) :: members => member.hasDistinctKeys && membersHaveDistinctKeys members

end

theorem hasDistinctKeys_of_mem_items {part : Tree} : ∀ {items : List Tree},
    itemsHaveDistinctKeys items = true → part ∈ items → part.hasDistinctKeys = true
  | item :: items, h, hp => by
    rw [itemsHaveDistinctKeys, Bool.and_eq_true] at h
    rcases List.mem_cons.1 hp with rfl | hp
    · exact h.1
    · exact hasDistinctKeys_of_mem_items h.2 hp

theorem hasDistinctKeys_of_mem_members {key : Option String} {part : Tree} :
    ∀ {members : List (Option String × Tree)}, membersHaveDistinctKeys members = true →
      (key, part) ∈ members → part.hasDistinctKeys = true
  | (_, member) :: members, h, hp => by
    rw [membersHaveDistinctKeys, Bool.and_eq_true] at h
    rcases List.mem_cons.1 hp with hp | hp
    · cases hp
      exact h.1
    · exact hasDistinctKeys_of_mem_members h.2 hp

theorem hasDistinctKeys_object {members : List (Option String × Tree)}
    (h : (object members).hasDistinctKeys = true) :
    (members.map Prod.fst).Nodup ∧ membersHaveDistinctKeys members = true := by
  rw [hasDistinctKeys, Bool.and_eq_true, decide_eq_true_iff] at h
  exact h

theorem Part.hasDistinctKeys {part tree : Tree} (h : part.Part tree)
    (ht : tree.hasDistinctKeys = true) : part.hasDistinctKeys = true := by
  cases h with
  | item h =>
    rw [Tree.hasDistinctKeys] at ht
    exact hasDistinctKeys_of_mem_items ht h
  | member h => exact hasDistinctKeys_of_mem_members (hasDistinctKeys_object ht).2 h

/-! ## Trees of values -/

theorem mem_memberValues? {members : List (Option String × Tree)}
    {values : List (String × Value)} (h : memberValues? members = some values) :
    ∀ m ∈ values, ∃ part, (some m.1, part) ∈ members ∧ part.value? = some m.2 := by
  induction members generalizing values with
  | nil =>
    cases h
    exact fun _ hm => absurd hm List.not_mem_nil
  | cons entry members ih =>
    obtain ⟨key, member⟩ := entry
    simp only [memberValues?, Option.bind_eq_bind, Option.bind_eq_some_iff, Option.pure_def,
      Option.some.injEq] at h
    obtain ⟨k, rfl, v, hv, values, hvalues, rfl⟩ := h
    refine List.forall_mem_cons.2 ⟨⟨member, List.mem_cons_self, hv⟩, fun m hm => ?_⟩
    obtain ⟨part, hpart, hm⟩ := ih hvalues m hm
    exact ⟨part, List.mem_cons_of_mem _ hpart, hm⟩

theorem ofItems_eq_map (items : List Value) : ofItems items = items.map ofValue := by
  induction items with
  | nil => rfl
  | cons item items ih => rw [ofItems, ih, List.map_cons]

theorem ofMembers_eq_map (members : List (String × Value)) :
    ofMembers members = members.map fun m => (some m.1, ofValue m.2) := by
  induction members with
  | nil => rfl
  | cons member members ih =>
    obtain ⟨key, member⟩ := member
    rw [ofMembers, ih, List.map_cons]

theorem itemValues?_ofItems : ∀ {items : List Value},
    (∀ v ∈ items, (ofValue v).value? = some v) → itemValues? (ofItems items) = some items
  | [], _ => rfl
  | item :: items, h => by
    obtain ⟨hitem, hitems⟩ := List.forall_mem_cons.1 h
    rw [ofItems, itemValues?, hitem, itemValues?_ofItems hitems]
    rfl

theorem memberValues?_ofMembers : ∀ {members : List (String × Value)},
    (∀ m ∈ members, (ofValue m.2).value? = some m.2) →
      memberValues? (ofMembers members) = some members
  | [], _ => rfl
  | (key, member) :: members, h => by
    obtain ⟨hmember, hmembers⟩ := List.forall_mem_cons.1 h
    rw [ofMembers, memberValues?, hmember, memberValues?_ofMembers hmembers]
    rfl

theorem value?_ofValue_of_ordered {v : Value} (h : v.Ordered) : (ofValue v).value? = some v := by
  induction h with
  | null | boolean | number | text => rfl
  | list _ ih =>
    rw [ofValue, value?, itemValues?_ofItems ih]
    rfl
  | object hsorted _ ih =>
    rw [ofValue, value?, memberValues?_ofMembers ih, Option.map_some, Value.ofMembers,
      hsorted.ofList_eq]

/-- A value that a tree stands for has its members in key order, so its own tree stands for it. -/
theorem value?_ofValue {tree : Tree} {v : Value} (h : tree.value? = some v) :
    (ofValue v).value? = some v :=
  value?_ofValue_of_ordered (ordered_of_value? h)

theorem ofValue_ne_null {v : Value} (h : v ≠ .null) : ofValue v ≠ null := by
  cases v with
  | null => exact absurd rfl h
  | _ =>
    rw [ofValue]
    nofun

mutual

theorem exists_value?_ofValue : ∀ v : Value, ∃ w, (ofValue v).value? = some w
  | .null => ⟨_, rfl⟩
  | .boolean _ => ⟨_, rfl⟩
  | .number _ => ⟨_, rfl⟩
  | .text _ => ⟨_, rfl⟩
  | .list items => by
    obtain ⟨values, h⟩ := exists_itemValues?_ofItems items
    exact ⟨.list values, by rw [ofValue, value?, h, Option.map_some]⟩
  | .object members => by
    obtain ⟨values, h⟩ := exists_memberValues?_ofMembers members
    exact ⟨.ofMembers values, by rw [ofValue, value?, h, Option.map_some]⟩

theorem exists_itemValues?_ofItems : ∀ items : List Value,
    ∃ values, itemValues? (ofItems items) = some values
  | [] => ⟨_, rfl⟩
  | item :: items => by
    obtain ⟨v, hv⟩ := exists_value?_ofValue item
    obtain ⟨values, h⟩ := exists_itemValues?_ofItems items
    exact ⟨v :: values, by rw [ofItems, itemValues?, hv, h]; rfl⟩

theorem exists_memberValues?_ofMembers : ∀ members : List (String × Value),
    ∃ values, memberValues? (ofMembers members) = some values
  | [] => ⟨_, rfl⟩
  | (key, member) :: members => by
    obtain ⟨v, hv⟩ := exists_value?_ofValue member
    obtain ⟨values, h⟩ := exists_memberValues?_ofMembers members
    exact ⟨(key, v) :: values, by rw [ofMembers, memberValues?, hv, h]; rfl⟩

end

/-- A scalar is its own tree. -/
theorem eq_ofValue_of_isScalar {tree : Tree} {v : Value} (h : tree.value? = some v)
    (hv : v.isScalar = true) : tree = ofValue v := by
  cases tree with
  | list items =>
    rw [value?] at h
    obtain ⟨_, -, rfl⟩ := Option.map_eq_some_iff.1 h
    cases hv
  | object members =>
    rw [value?] at h
    obtain ⟨_, -, rfl⟩ := Option.map_eq_some_iff.1 h
    cases hv
  | refused => cases h
  | broken => cases h
  | _ =>
    cases h
    rfl

end Json.Tree

namespace Reading

variable {α σ : Type} {read : Tree → Reading α}

theorem ofFaulty_eq_ok {a : Except Fault α} {x : α} : ofFaulty a = .ok x ↔ a = .ok x := by
  rcases a with fault | y
  · exact ⟨nofun, nofun⟩
  · exact ⟨fun h => congrArg Except.ok (Except.ok.inj h), fun h => by cases h; rfl⟩

theorem required_eq_ok {x : Option α} {a : α} : required x = .ok a ↔ x = some a := by
  cases x with
  | none => exact ⟨nofun, nofun⟩
  | some b => exact ⟨fun h => congrArg some (Except.ok.inj h), fun h => by cases h; rfl⟩

theorem value_eq_ok {tree : Tree} {v : Value} : value tree = .ok v ↔ tree.value? = some v :=
  required_eq_ok

theorem once_eq_ok {before after : Option α} {a : Reading α} (h : once before a = .ok after) :
    ∃ x, a = .ok x ∧ after = some x := by
  rw [once] at h
  split at h
  · cases h
  · rcases a with e | x
    · cases h
    · exact ⟨x, rfl, (Except.ok.inj h).symm⟩

theorem optional_of_ne_null {tree : Tree} (h : tree ≠ .null) :
    optional read tree = (read tree).map some := by
  cases tree with
  | null => exact absurd rfl h
  | _ => rfl

theorem map_some_eq_ok {a : Reading α} {x : Option α} (h : a.map some = .ok x) :
    ∃ y, a = .ok y ∧ x = some y := by
  rcases a with e | y
  · cases h
  · exact ⟨y, rfl, (Except.ok.inj h).symm⟩

theorem optional_eq_ok {tree : Tree} {x : Option α} (h : optional read tree = .ok x) :
    (tree = .null ∧ x = none) ∨ (tree ≠ .null ∧ ∃ a, read tree = .ok a ∧ x = some a) := by
  by_cases hnull : tree = .null
  · subst hnull
    exact .inl ⟨rfl, (Except.ok.inj h).symm⟩
  · rw [optional_of_ne_null hnull] at h
    exact .inr ⟨hnull, map_some_eq_ok h⟩

theorem list_eq_ok {tree : Tree} {as : List α} (h : list read tree = .ok as) :
    ∃ items, tree = .list items ∧ List.Forall₂ (fun item a => read item = .ok a) items as := by
  cases tree with
  | list items => exact ⟨items, rfl, forall₂_of_mapM h⟩
  | _ => cases h

/-! ## Records -/

section Records

variable {names : List String} {field : σ → String → Tree → Reading σ} (P : σ → Prop)

theorem members_induct : ∀ {ms : List (Option String × Tree)} {state after : σ},
    (∀ m ∈ ms, ∀ {state name after}, P state → field state name m.2 = .ok after → P after) →
      P state → members names field state ms = .ok after → P after
  | [], _, _, _, hstart, h => by
    cases h
    exact hstart
  | (none, _) :: _, _, _, _, _, h => by cases h
  | (some key, tree) :: ms, state, after, hfield, hstart, h => by
    obtain ⟨htree, hrest⟩ := List.forall_mem_cons.1 hfield
    rw [members] at h
    split at h
    · obtain ⟨next, hnext, h⟩ := bind_eq_ok.1 h
      exact members_induct hrest (htree hstart hnext) h
    · obtain ⟨_, -, h⟩ := bind_eq_ok.1 h
      exact members_induct hrest hstart h

theorem items_induct : ∀ {names : List String} {ts : List Tree} {state after : σ},
    (∀ t ∈ ts, ∀ {state name after}, P state → field state name t = .ok after → P after) →
      P state → items field state names ts = .ok after → P after
  | _, [], _, _, _, hstart, h => by
    rw [items] at h
    cases h
    exact hstart
  | [], _ :: _, _, _, _, _, h => by cases h
  | name :: names, tree :: ts, state, after, hfield, hstart, h => by
    rw [items] at h
    obtain ⟨htree, hrest⟩ := List.forall_mem_cons.1 hfield
    obtain ⟨next, hnext, h⟩ := bind_eq_ok.1 h
    exact items_induct hrest (htree hstart hnext) h

/-- What every field preserves holds of a record that has been read. -/
theorem record_induct {tree : Tree} {start after : σ}
    (hfield : ∀ part, part.Part tree → ∀ {state name after}, P state →
      field state name part = .ok after → P after)
    (hstart : P start) (h : record names field start tree = .ok after) : P after := by
  cases tree with
  | object ms => exact members_induct P (fun m hm => hfield m.2 (.member hm)) hstart h
  | list ts => exact items_induct P (fun t ht => hfield t (.item ht)) hstart h
  | _ => cases h

/-- Reading members by a recursion of its own, as records that nest do, is reading members. -/
theorem eq_members {f : σ → List (Option String × Tree) → Reading σ}
    (hnil : ∀ state, f state [] = .ok state)
    (hnone : ∀ state tree ms, f state ((none, tree) :: ms) = malformed)
    (hcons : ∀ state key tree ms, f state ((some key, tree) :: ms)
      = if key ∈ names then field state key tree >>= fun next => f next ms
        else skip tree >>= fun _ => f state ms) :
    ∀ state ms, f state ms = members names field state ms
  | state, [] => hnil state
  | state, (none, tree) :: ms => hnone state tree ms
  | state, (some key, tree) :: ms => by
    rw [hcons, members]
    simp only [eq_members hnil hnone hcons _ ms]

theorem eq_items {f : σ → List String → List Tree → Reading σ}
    (hnil : ∀ state names, f state names [] = .ok state)
    (hnone : ∀ state tree ts, f state [] (tree :: ts) = malformed)
    (hcons : ∀ state name names tree ts, f state (name :: names) (tree :: ts)
      = field state name tree >>= fun next => f next names ts) :
    ∀ state names ts, f state names ts = items field state names ts
  | state, names, [] => by rw [hnil, items]
  | state, [], tree :: ts => hnone state tree ts
  | state, name :: names, tree :: ts => by
    rw [hcons, items]
    simp only [eq_items hnil hnone hcons _ names ts]

end Records

end Reading

namespace Description

variable {δ σ : Type} {read : Tree → Reading δ} {describe : δ → Value}

/-- What describes `d` is read as `d`. -/
def ReadsBack (read : Tree → Reading δ) (describe : δ → Value) (d : δ) : Prop :=
  read (.ofValue (describe d)) = .ok d

/-- Whatever is read from the tree is read again from what describes it. -/
def RoundTrips (read : Tree → Reading δ) (describe : δ → Value) (tree : Tree) : Prop :=
  ∀ d, read tree = .ok d → ReadsBack read describe d

/-- The description of something that may be absent, where it has to be written. -/
def orNull (describe : δ → Value) (d : Option δ) : Value :=
  (d.map describe).getD .null

/-- What describes `x`, null where it is absent, is read as `x` where null is read as absent. -/
abbrev ReadsBack? (read : Tree → Reading δ) (describe : δ → Value) (x : Option δ) : Prop :=
  ReadsBack (Reading.optional read) (orNull describe) x

abbrev RoundTrips? (read : Tree → Reading δ) (describe : δ → Value) (tree : Tree) : Prop :=
  RoundTrips (Reading.optional read) (orNull describe) tree

theorem ReadsBack?.of_mem {x : Option δ} (h : ReadsBack? read describe x) :
    ∀ d ∈ x, Reading.optional read (.ofValue (describe d)) = .ok (some d) := by
  rintro d rfl
  exact h

theorem roundTrips_value (tree : Tree) : RoundTrips Reading.value (fun v => v) tree := fun _ h =>
  Reading.value_eq_ok.2 (Tree.value?_ofValue (Reading.value_eq_ok.1 h))

/-- Something that is not described by null is read back where it may be null, too. -/
theorem roundTrips_optional {tree : Tree} (h : RoundTrips read describe tree)
    (hnull : tree ≠ .null → ∀ d, read tree = .ok d → describe d ≠ .null) :
    RoundTrips? read describe tree := by
  intro x hx
  rcases Reading.optional_eq_ok hx with ⟨-, rfl⟩ | ⟨htree, d, hd, rfl⟩
  · rfl
  · have hne : Tree.ofValue (describe d) ≠ .null := by
      have hdescribe := hnull htree d hd
      cases hv : describe d with
      | null => exact absurd hv hdescribe
      | _ => rw [Tree.ofValue]; nofun
    have hback : read (.ofValue (describe d)) = .ok d := h d hd
    change Reading.optional read (.ofValue (describe d)) = _
    rw [Reading.optional_of_ne_null hne, hback]
    rfl

theorem roundTrips_optional_value (tree : Tree) :
    RoundTrips? Reading.value (fun v => v) tree :=
  roundTrips_optional (roundTrips_value tree) fun hnull v hv => by
    rintro rfl
    exact hnull (Tree.eq_ofValue_of_isScalar (Reading.value_eq_ok.1 hv) rfl)

theorem readsBack_natural {n : Nat} (h : n < Word.size) :
    ReadsBack Reading.natural (fun n => .int n) n := by
  have fits : Number.Fits n := ⟨by omega, Int.ofNat_lt.2 h⟩
  rw [ReadsBack, Value.int, Number.ofInt, dif_pos fits, Tree.ofValue, Reading.natural,
    if_pos (Int.natCast_nonneg n), Int.toNat_natCast]

theorem lt_size_of_natural {tree : Tree} {n : Nat} (h : Reading.natural tree = .ok n) :
    n < Word.size := by
  rw [Reading.natural.eq_def] at h
  split at h
  · next m fits =>
    split_ifs at h with hm
    · cases h
      have := fits.2
      omega
    · cases h
  · cases h

theorem roundTrips_natural (tree : Tree) : RoundTrips Reading.natural (fun n => .int n) tree :=
  fun _ h => readsBack_natural (lt_size_of_natural h)

/-- What has been read for a field reads back. -/
theorem readsBack_of_once {tree : Tree} {before after : Option δ}
    (htree : RoundTrips read describe tree) (h : Reading.once before (read tree) = .ok after) :
    ∀ d ∈ after, ReadsBack read describe d := by
  obtain ⟨d, hd, rfl⟩ := Reading.once_eq_ok h
  intro e he
  cases he
  exact htree d hd

section OneField

variable {names : List String} {after : Option δ}

/-- A record of one field, read from members. -/
theorem readsBack_of_members {ms : List (Option String × Tree)}
    (hms : ∀ m ∈ ms, RoundTrips read describe m.2)
    (h : Reading.members names (fun before _ tree => Reading.once before (read tree)) none ms
      = .ok after) : ∀ d ∈ after, ReadsBack read describe d :=
  Reading.members_induct (fun x : Option δ => ∀ d ∈ x, ReadsBack read describe d)
    (fun m hm {_ _ _} _ hread => readsBack_of_once (hms m hm) hread)
    (fun _ hd => absurd hd (Option.not_mem_none _)) h

/-- A record of one field, read from items. -/
theorem readsBack_of_items {ts : List Tree} (hts : ∀ t ∈ ts, RoundTrips read describe t)
    (h : Reading.items (fun before _ tree => Reading.once before (read tree)) none names ts
      = .ok after) : ∀ d ∈ after, ReadsBack read describe d :=
  Reading.items_induct (fun x : Option δ => ∀ d ∈ x, ReadsBack read describe d)
    (fun t ht {_ _ _} _ hread => readsBack_of_once (hts t ht) hread)
    (fun _ hd => absurd hd (Option.not_mem_none _)) h

theorem readsBack_of_record {tree : Tree}
    (htree : ∀ part, part.Part tree → RoundTrips read describe part)
    (h : Reading.record names (fun before _ tree => Reading.once before (read tree)) none tree
      = .ok after) : ∀ d ∈ after, ReadsBack read describe d :=
  Reading.record_induct (fun x : Option δ => ∀ d ∈ x, ReadsBack read describe d)
    (fun part hpart {_ _ _} _ hread => readsBack_of_once (htree part hpart) hread)
    (fun _ hd => absurd hd (Option.not_mem_none _)) h

end OneField

theorem readsBack_list {ds : List δ} (h : ∀ d ∈ ds, ReadsBack read describe d) :
    ReadsBack (Reading.list read) (fun ds => .list (ds.map describe)) ds := by
  rw [ReadsBack, Tree.ofValue, Tree.ofItems_eq_map, Reading.list]
  induction ds with
  | nil => rfl
  | cons d ds ih =>
    obtain ⟨hd, hds⟩ := List.forall_mem_cons.1 h
    rw [ReadsBack] at hd
    rw [List.map_cons, List.map_cons, List.mapM_cons, hd, ih hds]
    rfl

/-- A list that may be left out, and is empty then. -/
theorem readsBack_list_getD {x : Option (List δ)}
    (h : ∀ ds ∈ x, ReadsBack (Reading.list read) (fun ds => .list (ds.map describe)) ds) :
    ReadsBack (Reading.list read) (fun ds => .list (ds.map describe)) (x.getD []) := by
  cases x with
  | none => rfl
  | some ds => exact h ds rfl

theorem roundTrips_list {tree : Tree}
    (h : ∀ item, item.Part tree → RoundTrips read describe item) :
    RoundTrips (Reading.list read) (fun ds => .list (ds.map describe)) tree := by
  intro ds hds
  obtain ⟨items, rfl, hall⟩ := Reading.list_eq_ok hds
  refine readsBack_list fun d hd => ?_
  obtain ⟨item, hitem, hread⟩ := exists_of_mem_of_forall₂ hall hd
  exact h item (.item hitem) d hread

/-! ## Described objects -/

/-- The members that are there. -/
def present (members : List (String × Option Value)) : List (String × Value) :=
  members.filterMap fun (key, v) => v.map (key, ·)

theorem mem_present {members : List (String × Option Value)} {m : String × Value} :
    m ∈ present members ↔ (m.1, some m.2) ∈ members := by
  rw [present, List.mem_filterMap]
  constructor
  · rintro ⟨⟨key, v⟩, h, hm⟩
    obtain ⟨w, rfl, rfl⟩ := Option.map_eq_some_iff.1 hm
    exact h
  · exact fun h => ⟨_, h, rfl⟩

theorem keys_present_sublist : ∀ members : List (String × Option Value),
    (Keyed.keys (present members)).Sublist (Keyed.keys members)
  | [] => .slnil
  | (_, none) :: members => (keys_present_sublist members).cons _
  | (_, some _) :: members => (keys_present_sublist members).cons_cons _

/-- The members of a described object, from a list of them in key order. -/
theorem ofValue_object {members sorted : List (String × Option Value)}
    (hperm : members.Perm sorted) (hsorted : Keyed.Ascending (Keyed.keys sorted)) :
    Tree.ofValue (object members) = .object (Tree.ofMembers (present sorted)) := by
  have hs : Keyed.Sorted (present sorted) :=
    Keyed.sorted_of_ascending (hsorted.sublist (keys_present_sublist sorted))
  have hnd : (Keyed.keys (present members)).Nodup := by
    have hkeys : (Keyed.keys sorted).Nodup := (Keyed.sorted_of_ascending hsorted).nodup_keys
    exact ((hperm.map Prod.fst).nodup_iff.2 hkeys).sublist (keys_present_sublist members)
  have heq : Keyed.ofList (present members) = present sorted :=
    Keyed.ofList_eq_of_mem_iff hnd hs fun m => by rw [mem_present, mem_present, hperm.mem_iff]
  rw [← heq]
  rfl

section Members

variable {field : σ → String → Tree → Reading σ} {state : σ} {key : String}

/-- What a field makes of the member that describes it, if there is one. -/
def readPresent (field : σ → String → Tree → Reading σ) (state : σ) (key : String)
    (v : Option Value) : Reading σ :=
  (v.map fun v => field state key (.ofValue v)).getD (.ok state)

/-- Reading the first member of a described object. -/
theorem members_present {names : List String} {next : σ} {v : Option Value}
    {rest : List (String × Option Value)} (hkey : key ∈ names)
    (hfield : readPresent field state key v = .ok next) :
    Reading.members names field state (Tree.ofMembers (present ((key, v) :: rest)))
      = Reading.members names field next (Tree.ofMembers (present rest)) := by
  cases v with
  | none =>
    cases hfield
    rfl
  | some v =>
    have hfield : field state key (.ofValue v) = .ok next := hfield
    change Reading.members names field state ((some key, .ofValue v) :: _) = _
    rw [Reading.members, if_pos hkey, hfield]
    rfl

/-- The field of a record that has no other. -/
theorem readPresent_once {d : δ} (h : ReadsBack read describe d) :
    readPresent (fun before _ tree => Reading.once before (read tree)) none key
      (some (describe d)) = .ok (some d) := by
  change Reading.once none (read (.ofValue (describe d))) = _
  rw [ReadsBack] at h
  rw [h]
  rfl

/-- A field that is left out of the description where there is nothing to describe. -/
theorem readPresent_optional (read : Tree → Reading δ) {α : Type} {x : Option α}
    {written : α → Value} {d : α → δ} {before : Option (Option δ)} (hbefore : before = none)
    (set : Option (Option δ) → σ)
    (hset : ∀ tree, field (set before) key tree
      = do return set (← Reading.once before (Reading.optional read tree)))
    (h : ∀ a ∈ x, Reading.optional read (.ofValue (written a)) = .ok (some (d a))) :
    readPresent field (set before) key (x.map written)
      = .ok (set (x.map fun a => some (d a))) := by
  cases x with
  | none => exact congrArg (fun y => Except.ok (set y)) hbefore
  | some a =>
    change field (set before) key (.ofValue (written a)) = _
    rw [hset, h a rfl, hbefore]
    rfl

end Members

end Description

end RecordQuery

import RecordQuery.Bucket.Grouping
import RecordQuery.Proofs.Extraction
import RecordQuery.SortRule

/-!
# The two resolutions of a path

Extracting takes every list apart that it meets, so it finds in a list what it finds in the items
(`extractFrom_list`), and neither nulls nor lists (`isLeaf_of_mem_extractFrom`). Looking up goes into
a list by the number of an item only. Along a joined path both go as along one part after the other
(`extract_join`, `lookup?_join`). Where following a path meets no list, extracting finds what looking
up finds, unless that is null (`OffLists.extractFrom_eq`).
-/

namespace RecordQuery

open Json

/-- Neither null nor a list. -/
def Json.Value.IsLeaf (v : Value) : Prop :=
  v ≠ .null ∧ ∀ items, v ≠ .list items

namespace FieldPath

variable {segment : String} {path : List String} {v w : Value}

/-! ## Paths in parts -/

theorem lookupFrom?_append (path rest : List String) (v : Value) :
    lookupFrom? (path ++ rest) v = lookupFrom? path v >>= lookupFrom? rest := by
  induction path generalizing v with
  | nil => rfl
  | cons segment path ih =>
    rw [List.cons_append, lookupFrom?, lookupFrom?]
    cases step? segment v with
    | none => rfl
    | some w => exact ih w

theorem lookup?_join (p q : String) (doc : Value) :
    lookup? ⟨p ++ "." ++ q⟩ doc = lookup? ⟨p⟩ doc >>= lookup? ⟨q⟩ := by
  rw [lookup?, segments_join, lookupFrom?_append]
  rfl

/-! ## Lists -/

theorem extractFrom_list (path : List String) (items : List Value) :
    extractFrom path (.list items) = items.flatMap (extractFrom path) := by
  cases path with
  | nil => exact itemLeaves_eq_flatMap items
  | cons segment path =>
    simp only [extractFrom, under, itemsUnder_eq_flatMap, List.flatMap_assoc]

mutual

theorem isLeaf_of_mem_leaves : ∀ {v w : Value}, w ∈ leaves v → w.IsLeaf
  | .null, _, h => absurd h List.not_mem_nil
  | .boolean _, _, h | .number _, _, h | .text _, _, h | .object _, _, h => by
    obtain rfl := List.mem_singleton.1 h
    simp [Value.IsLeaf]
  | .list _, _, h => isLeaf_of_mem_itemLeaves h

theorem isLeaf_of_mem_itemLeaves : ∀ {items : List Value} {w : Value},
    w ∈ itemLeaves items → w.IsLeaf
  | [], _, h => absurd h List.not_mem_nil
  | _ :: _, _, h => (List.mem_append.1 h).elim isLeaf_of_mem_leaves isLeaf_of_mem_itemLeaves

end

theorem isLeaf_of_mem_extractFrom (h : w ∈ extractFrom path v) : w.IsLeaf := by
  induction path generalizing v with
  | nil => exact isLeaf_of_mem_leaves h
  | cons segment path ih =>
    obtain ⟨u, -, hw⟩ := List.mem_flatMap.1 h
    exact ih hw

/-- Extracting along a joined path is extracting along the second part from each of the values along
the first, and looking up is looking up in what is found along the first. No value extracted is null
or a list, and those of a list are those of its items in their order. -/
theorem resolve_join (p q : String) (doc : Value) :
    extract ⟨p ++ "." ++ q⟩ doc = (extract ⟨p⟩ doc).flatMap (extract ⟨q⟩) ∧
    lookup? ⟨p ++ "." ++ q⟩ doc = lookup? ⟨p⟩ doc >>= lookup? ⟨q⟩ ∧
    (∀ (path : FieldPath), ∀ v ∈ path.extract doc, v ≠ .null ∧ ∀ items, v ≠ .list items) ∧
    ∀ (path : FieldPath) (items : List Value),
      path.extract (.list items) = items.flatMap path.extract :=
  ⟨extract_join p q doc, lookup?_join p q doc, fun _ _ hv => isLeaf_of_mem_extractFrom hv,
    fun path items => extractFrom_list path.segments items⟩

/-- Dots at the ends count for nothing, and a number is the place of an item for looking up only. -/
theorem resolve_join_through_lists :
    let tags : Value := .list [.text "x", .null, .list [.text "y"]]
    let doc : Value := .object [("items", .list [.list [], .object [("tags", tags)]])]
    extract ⟨"items." ++ "." ++ ".tags"⟩ doc = [.text "x", .text "y"] ∧
    (.text "y" ∈ extract ⟨"items." ++ "." ++ ".tags"⟩ doc ∧
      Value.text "y" ≠ .null ∧ ∀ items, Value.text "y" ≠ .list items) ∧
    lookup? ⟨"items." ++ "." ++ "1.tags"⟩ doc = some tags := by
  intro tags doc
  obtain ⟨hextract, -, hleaf, -⟩ := resolve_join "items." ".tags" doc
  obtain ⟨-, hlookup, -, -⟩ := resolve_join "items." "1.tags" doc
  have hitems : segments ⟨"items."⟩ = ["items"] := by decide +kernel
  have htags : segments ⟨".tags"⟩ = ["tags"] := by decide +kernel
  have hplace : segments ⟨"1.tags"⟩ = ["1", "tags"] := by decide +kernel
  have hone : itemNumber? "1" = some 1 := by decide +kernel
  have hvalues : extract ⟨"items." ++ "." ++ ".tags"⟩ doc = [.text "x", .text "y"] := by
    rw [hextract]
    simp [extract, hitems, htags, extractFrom, under, leaves, itemLeaves, Value.member?,
      Keyed.find?, doc, tags]
  have hmem : .text "y" ∈ extract ⟨"items." ++ "." ++ ".tags"⟩ doc := by
    rw [hvalues]
    simp
  refine ⟨hvalues, ⟨hmem, hleaf _ _ hmem⟩, ?_⟩
  rw [hlookup]
  simp [lookup?, hitems, hplace, hone, lookupFrom?, step?, Keyed.find?, doc]

/-! ## Off lists -/

/-- Following the path meets no list: the value is none, nor is one on the way or at the end. -/
def OffLists (path : List String) (v : Value) : Prop :=
  ∀ front, front <+: path → ∀ items, lookupFrom? front v ≠ some (.list items)

theorem offLists_nil : OffLists [] v ↔ ∀ items, v ≠ .list items := by
  simp [OffLists, lookupFrom?]

theorem offLists_cons : OffLists (segment :: path) v ↔
    (∀ items, v ≠ .list items) ∧ ∀ w, step? segment v = some w → OffLists path w := by
  constructor
  · intro h
    refine ⟨fun items hv => h [] List.nil_prefix items (congrArg some hv), ?_⟩
    intro w hw front hfront items hitems
    apply h (segment :: front) (List.cons_prefix_cons.2 ⟨rfl, hfront⟩) items
    rw [lookupFrom?, hw]
    exact hitems
  · rintro ⟨hstart, hstep⟩ front hfront items hitems
    rcases List.prefix_cons_iff.1 hfront with rfl | ⟨rest, rfl, hrest⟩
    · exact hstart items (Option.some.inj hitems)
    · obtain ⟨w, hw, hitems⟩ := Option.bind_eq_some_iff.1 hitems
      exact hstep w hw rest hrest items hitems

theorem under_of_ne_list (h : ∀ items, v ≠ .list items) :
    under segment v = (step? segment v).toList := by
  cases v with
  | list items => exact absurd rfl (h items)
  | null | boolean | number | text | object => rfl

/-- The induction is on the path: each segment goes from one value to at most one other. -/
theorem OffLists.extractFrom_eq (h : OffLists path v) :
    extractFrom path v = ((lookupFrom? path v).filter (!·.isNull)).toList := by
  induction path generalizing v with
  | nil =>
    cases v with
    | list items => exact absurd rfl (offLists_nil.1 h items)
    | null | boolean | number | text | object => rfl
  | cons segment path ih =>
    obtain ⟨hstart, hstep⟩ := offLists_cons.1 h
    rw [extractFrom, lookupFrom?, under_of_ne_list hstart]
    cases hw : step? segment v with
    | none => rfl
    | some w => simpa using ih (hstep w hw)

theorem resolve?_of_ne_list (h : ∀ items, v ≠ .list items) :
    SortRule.resolve? none v = some v := by
  cases v with
  | list items => exact absurd rfl (h items)
  | null | boolean | number | text | object => rfl

/-- Where following a path meets no list, extracting gives the value that is looked up, or nothing
if there is none or it is null. So sorting and grouping go by the value that conditions test. -/
theorem OffLists.extract_eq_lookup? {path : FieldPath} {doc : Value}
    (h : OffLists path.segments doc) :
    path.extract doc = ((path.lookup? doc).filter (!·.isNull)).toList ∧
    (∀ direction, SortRule.value? ⟨path, none, direction⟩ doc = (path.extract doc).head?) ∧
    ∀ (level : Level) (settings : Settings), level.field = path → level.itemIds = none →
      level.candidates settings doc =
        [(path.extract doc).head? >>= level.keyOfValue settings] := by
  have hextract : path.extract doc = ((path.lookup? doc).filter (!·.isNull)).toList :=
    h.extractFrom_eq
  have hhead : (path.extract doc).head? = (path.lookup? doc).filter (!·.isNull) := by
    rw [hextract, Option.head?_toList]
  refine ⟨hextract, fun direction => ?_, fun level settings hfield hids => ?_⟩
  · rw [hhead, SortRule.value?]
    cases hfound : path.lookup? doc with
    | none => rfl
    | some v =>
      have hv : ∀ items, v ≠ .list items := by
        rintro items rfl
        exact h path.segments List.prefix_rfl items hfound
      rw [Option.bind_eq_bind, Option.bind_some, resolve?_of_ne_list hv]
  · rw [hhead, Level.candidates, hids, hfield]
    rfl

/-- A number is a key where there is no list. -/
theorem OffLists.extract_eq_lookup?_numbered :
    let path : FieldPath := ⟨"years.2024.n"⟩
    let doc : Value := .object [("years", .object [("2024", .object [("n", .int 7)])])]
    let level : Level := { field := path, interval := some (.finite (Double.ofInt 5)) }
    let settings := Settings.ofNow ⟨0, 0, by decide⟩
    OffLists path.segments doc ∧ path.extract doc = [.int 7] ∧
      SortRule.value? ⟨path, none, .ascending⟩ doc = some (.int 7) ∧
      (level.field = path ∧ level.itemIds = none) ∧
      level.candidates settings doc = [level.keyOfValue settings (.int 7)] := by
  intro path doc level settings
  have hpath : path.segments = ["years", "2024", "n"] := by decide +kernel
  have hoff : OffLists path.segments doc := by
    rw [hpath]
    simp [offLists_cons, offLists_nil, step?, Keyed.find?, doc, Value.int]
  have hlookup : path.lookup? doc = some (.int 7) := by
    simp [lookup?, hpath, lookupFrom?, step?, Keyed.find?, doc]
  obtain ⟨hextract, hsort, hkeys⟩ := hoff.extract_eq_lookup?
  have hseven : path.extract doc = [.int 7] := by
    rw [hextract, hlookup]
    rfl
  refine ⟨hoff, hseven, ?_, ⟨rfl, rfl⟩, ?_⟩
  · rw [hsort, hseven]
    rfl
  · rw [hkeys level settings rfl rfl, hseven]
    rfl

end FieldPath

end RecordQuery

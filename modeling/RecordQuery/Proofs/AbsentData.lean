import RecordQuery.Proofs.Compiling
import RecordQuery.Proofs.Extraction
import RecordQuery.Proofs.WellFormed

/-!
# Absent data

Null, a missing member and an empty list all stand for having no value, and a list in a list for its
items. `Value.prune` takes such forms out of a document. What is extracted from the pruned document
is what is extracted from the document, each value pruned (`extractFrom_prune`); no check tells a
value from its pruned form (`passes_prune`), so no filter tells the documents apart.
-/

namespace RecordQuery

open Json

theorem any_congr_of_mem {β : Type} {p q : β → Bool} : ∀ {bs : List β},
    (∀ b ∈ bs, p b = q b) → bs.any p = bs.any q
  | [], _ => rfl
  | b :: bs, h => by
    obtain ⟨hb, hbs⟩ := List.forall_mem_cons.1 h
    rw [List.any_cons, List.any_cons, hb, any_congr_of_mem hbs]

namespace Json.Value

/-- Nothing to extract from. -/
def isAbsent : Value → Bool
  | null | list [] => true
  | _ => false

/-- The items that a value in a list stands for: those of a list, none for null. -/
def spliced : Value → List Value
  | null => []
  | list items => items
  | v => [v]

mutual

/-- The value with nested lists spliced, nulls in lists left out, and the members left out of whose
values nothing is left. -/
def prune : Value → Value
  | list items => list (pruneItems items)
  | object members => object (pruneMembers members)
  | v => v

def pruneItems : List Value → List Value
  | [] => []
  | item :: items => item.prune.spliced ++ pruneItems items

def pruneMembers : List (String × Value) → List (String × Value)
  | [] => []
  | (key, v) :: members =>
    if v.prune.isAbsent then pruneMembers members else (key, v.prune) :: pruneMembers members

end

theorem keys_pruneMembers_sublist (members : List (String × Value)) :
    (Keyed.keys (pruneMembers members)).Sublist (Keyed.keys members) := by
  induction members with
  | nil => exact .slnil
  | cons member members ih =>
    obtain ⟨key, v⟩ := member
    rw [pruneMembers]
    split
    · exact ih.cons key
    · exact ih.cons_cons key

theorem find?_pruneMembers (key : String) : ∀ {members : List (String × Value)},
    (Keyed.keys members).Nodup → Keyed.find? key (pruneMembers members)
      = ((Keyed.find? key members).map prune).filter (!·.isAbsent)
  | [], _ => rfl
  | (k, v) :: members, h => by
    obtain ⟨hk, hrest⟩ := List.nodup_cons.1 h
    have ih := find?_pruneMembers key hrest
    rw [pruneMembers]
    by_cases hkey : k = key
    · subst hkey
      rw [Keyed.find?, if_pos rfl]
      split
      · next habsent =>
        -- no later member has the key
        have hnone : k ∉ Keyed.keys (pruneMembers members) :=
          fun hmem => hk ((keys_pruneMembers_sublist members).subset hmem)
        rw [Keyed.find?_of_notMem hnone, Option.map_some,
          Option.filter_some_neg (by simp [habsent])]
      · next hpresent =>
        rw [Keyed.find?, if_pos rfl, Option.map_some, Option.filter_some_pos (by simp [hpresent])]
    · rw [Keyed.find?, if_neg hkey, ← ih]
      split
      · rfl
      · rw [Keyed.find?, if_neg hkey]

end Json.Value

namespace FieldPath

open Value

/-! ## Extracting from the pruned document -/

theorem itemLeaves_append (items others : List Value) :
    itemLeaves (others ++ items) = itemLeaves others ++ itemLeaves items := by
  simp only [itemLeaves_eq_flatMap, List.flatMap_append]

theorem itemsUnder_append (segment : String) (items others : List Value) :
    itemsUnder segment (others ++ items)
      = itemsUnder segment others ++ itemsUnder segment items := by
  simp only [itemsUnder_eq_flatMap, List.flatMap_append]

theorem itemLeaves_spliced (v : Value) : itemLeaves v.spliced = leaves v := by
  cases v <;> simp [spliced, itemLeaves, leaves]

theorem itemsUnder_spliced (segment : String) (v : Value) :
    itemsUnder segment v.spliced = under segment v := by
  cases v <;> simp [spliced, itemsUnder, under, member?]

mutual

theorem leaves_prune : ∀ v : Value, leaves v.prune = (leaves v).map prune
  | .null | .boolean _ | .number _ | .text _ => by simp [prune, leaves]
  | .object members => by simp [prune, leaves]
  | .list items => by
    rw [prune, leaves, leaves]
    exact itemLeaves_pruneItems items

theorem itemLeaves_pruneItems : ∀ items : List Value,
    itemLeaves (pruneItems items) = (itemLeaves items).map prune
  | [] => rfl
  | item :: items => by
    rw [pruneItems, itemLeaves_append, itemLeaves_spliced, leaves_prune item,
      itemLeaves_pruneItems items, itemLeaves, List.map_append]

end

mutual

/-- The members under a segment are the pruned ones, without those that are then absent. -/
theorem under_prune (segment : String) : ∀ {v : Value}, v.WellFormed →
    under segment v.prune = ((under segment v).map prune).filter (!·.isAbsent)
  | .null, _ | .boolean _, _ | .number _, _ | .text _, _ => rfl
  | .object members, h => by
    simp only [prune, under, member?]
    rw [find?_pruneMembers segment h.members.1]
    rcases Keyed.find? segment members with _ | w
    · rfl
    · by_cases hw : w.prune.isAbsent <;> simp [hw]
  | .list items, h => by
    rw [prune, under, under]
    exact itemsUnder_pruneItems segment h.items

theorem itemsUnder_pruneItems (segment : String) : ∀ {items : List Value},
    (∀ v ∈ items, v.WellFormed) →
      itemsUnder segment (pruneItems items)
        = ((itemsUnder segment items).map prune).filter (!·.isAbsent)
  | [], _ => rfl
  | item :: items, h => by
    obtain ⟨hitem, hitems⟩ := List.forall_mem_cons.1 h
    rw [pruneItems, itemsUnder_append, itemsUnder_spliced, under_prune segment hitem,
      itemsUnder_pruneItems segment hitems, itemsUnder, List.map_append, List.filter_append]

end

theorem extractFrom_of_isAbsent {v : Value} (h : v.isAbsent = true) :
    ∀ path : List String, extractFrom path v = [] := by
  have hempty : v = .null ∨ v = .list [] := by
    unfold isAbsent at h
    split at h
    · exact .inl rfl
    · exact .inr rfl
    · cases h
  intro path
  rcases hempty with rfl | rfl <;> cases path <;> rfl

theorem flatMap_extractFrom_filter (path : List String) (values : List Value) :
    (values.filter (!·.isAbsent)).flatMap (extractFrom path)
      = values.flatMap (extractFrom path) := by
  induction values with
  | nil => rfl
  | cons v values ih =>
    by_cases hv : v.isAbsent
    · rw [List.filter_cons_of_neg (by simp [hv]), ih, List.flatMap_cons,
        extractFrom_of_isAbsent hv, List.nil_append]
    · rw [List.filter_cons_of_pos (by simp [hv]), List.flatMap_cons, List.flatMap_cons, ih]

mutual

theorem wellFormed_of_mem_leaves : ∀ {v w : Value}, v.WellFormed → w ∈ leaves v → w.WellFormed
  | .null, _, _, hw => absurd hw List.not_mem_nil
  | .boolean _, _, h, hw | .number _, _, h, hw | .text _, _, h, hw | .object _, _, h, hw => by
    obtain rfl := List.mem_singleton.1 hw
    exact h
  | .list _, _, h, hw => wellFormed_of_mem_itemLeaves h.items hw

theorem wellFormed_of_mem_itemLeaves : ∀ {items : List Value} {w : Value},
    (∀ v ∈ items, v.WellFormed) → w ∈ itemLeaves items → w.WellFormed
  | [], _, _, hw => absurd hw List.not_mem_nil
  | item :: items, _, h, hw => by
    obtain ⟨hitem, hitems⟩ := List.forall_mem_cons.1 h
    rw [itemLeaves, List.mem_append] at hw
    rcases hw with hw | hw
    · exact wellFormed_of_mem_leaves hitem hw
    · exact wellFormed_of_mem_itemLeaves hitems hw

end

mutual

theorem wellFormed_of_mem_under {segment : String} : ∀ {v w : Value}, v.WellFormed →
    w ∈ under segment v → w.WellFormed
  | .null, _, _, hw | .boolean _, _, _, hw | .number _, _, _, hw | .text _, _, _, hw =>
    absurd hw List.not_mem_nil
  | .object members, _, h, hw => by
    simp only [under, member?, Option.mem_toList] at hw
    exact h.members.2 _ (Keyed.mem_of_find? hw)
  | .list _, _, h, hw => wellFormed_of_mem_itemsUnder h.items hw

theorem wellFormed_of_mem_itemsUnder {segment : String} : ∀ {items : List Value} {w : Value},
    (∀ v ∈ items, v.WellFormed) → w ∈ itemsUnder segment items → w.WellFormed
  | [], _, _, hw => absurd hw List.not_mem_nil
  | item :: items, _, h, hw => by
    obtain ⟨hitem, hitems⟩ := List.forall_mem_cons.1 h
    rw [itemsUnder, List.mem_append] at hw
    rcases hw with hw | hw
    · exact wellFormed_of_mem_under hitem hw
    · exact wellFormed_of_mem_itemsUnder hitems hw

end

theorem wellFormed_of_mem_extractFrom : ∀ {path : List String} {v w : Value}, v.WellFormed →
    w ∈ extractFrom path v → w.WellFormed
  | [], _, _, h, hw => wellFormed_of_mem_leaves h hw
  | segment :: path, _, _, h, hw => by
    rw [extractFrom, List.mem_flatMap] at hw
    obtain ⟨u, hu, hw⟩ := hw
    exact wellFormed_of_mem_extractFrom (wellFormed_of_mem_under h hu) hw

theorem extractFrom_prune : ∀ (path : List String) {v : Value}, v.WellFormed →
    extractFrom path v.prune = (extractFrom path v).map prune
  | [], v, _ => leaves_prune v
  | segment :: path, v, h => by
    rw [extractFrom, under_prune segment h, flatMap_extractFrom_filter, List.flatMap_map,
      extractFrom, List.map_flatMap]
    refine List.flatMap_congr fun w hw => ?_
    exact extractFrom_prune path (wellFormed_of_mem_under h hw)

end FieldPath

namespace Json.Value

/-! ## Testing pruned values -/

@[simp] theorem isBlank_prune (v : Value) : v.prune.isBlank = v.isBlank := by
  cases v <;> simp [prune, isBlank]

@[simp] theorem instant?_prune (v : Value) : v.prune.instant? = v.instant? := by
  cases v <;> simp [prune, instant?]

@[simp] theorem compare?_prune (v w : Value) : v.prune.compare? w = v.compare? w := by
  cases v <;> simp [prune, compare?]

@[simp] theorem hasStart_prune (start : String) (v : Value) :
    Check.hasStart start v.prune = Check.hasStart start v := by
  cases v <;> simp [prune, Check.hasStart]

/-- Only the inside of lists and objects is pruned, and no scalar is equal to one of these. -/
theorem strictEq_prune {w : Value} (hw : w.isScalar = true) (v : Value) :
    v.prune.strictEq w = v.strictEq w := by
  cases v with
  | list items => cases w <;> first | rfl | cases hw
  | object members => cases w <;> first | rfl | cases hw
  | null | boolean _ | number _ | text _ => simp [prune]

@[simp] theorem admits_prune (op : OrderOperator) (bound : Bound) (v : Value) :
    bound.admits op v.prune = bound.admits op v := by
  cases bound <;> simp [Bound.admits]

end Json.Value

namespace Condition

open Value

variable {settings : Settings}

theorem extract_prune (path : FieldPath) {doc : Value} (h : doc.WellFormed) :
    path.extract doc.prune = (path.extract doc).map prune :=
  FieldPath.extractFrom_prune path.segments h

mutual

/-- The induction is on the description. Values found are well formed again, which the queries
inside need. -/
theorem passes_prune : ∀ {condition : Condition} {check : Check},
    condition.compile settings = .ok check → ∀ {values : List Value},
      (∀ v ∈ values, v.WellFormed) → check.passes (values.map prune) = check.passes values
  | equal operand, _, h, values, _ => by
    rcases compile_equal h with ⟨-, rfl⟩ | ⟨w, -, hw, -, rfl⟩
    · simp [Check.passes, List.all_map, Function.comp_def]
    · simp [Check.passes, List.any_map, Function.comp_def, strictEq_prune hw]
  | unequal operand, _, h, values, _ => by
    rcases compile_unequal h with ⟨-, rfl⟩ | ⟨w, -, hw, -, rfl⟩
    · simp [Check.passes, List.any_map, Function.comp_def]
    · simp [Check.passes, List.all_map, Function.comp_def, strictEq_prune hw]
  | order op operand, _, h, values, _ => by
    obtain ⟨bound, -, rfl⟩ := compile_order h
    simp [Check.passes, List.any_map, Function.comp_def]
  | all conditions, _, h, values, hvalues => by
    obtain ⟨checks, hc, rfl⟩ := compile_all h
    rw [Check.passes, Check.passes]
    exact passesAll_prune hc hvalues
  | any conditions, _, h, values, hvalues => by
    obtain ⟨checks, hc, rfl⟩ := compile_any h
    rw [Check.passes, Check.passes]
    exact passesAny_prune hc hvalues
  | startsWith operand, _, h, values, _ => by
    obtain ⟨s, -, rfl⟩ := compile_startsWith h
    simp [Check.passes, List.any_map, Function.comp_def]
  | find query, _, h, values, hvalues => by
    obtain ⟨fields, hf, rfl⟩ := compile_find h
    rw [Check.passes, Check.passes, List.any_map]
    exact any_congr_of_mem fun v hv => matchesAll_prune hf (hvalues v hv)
  | findNone query, _, h, values, hvalues => by
    obtain ⟨fields, hf, rfl⟩ := compile_findNone h
    rw [Check.passes, Check.passes, List.any_map]
    congr 1
    exact any_congr_of_mem fun v hv => matchesAll_prune hf (hvalues v hv)

theorem passesAll_prune : ∀ {conditions : List Condition} {checks : List Check},
    compileAll settings conditions = .ok checks → ∀ {values : List Value},
      (∀ v ∈ values, v.WellFormed) →
        Check.passesAll (values.map prune) checks = Check.passesAll values checks
  | [], _, h, _, _ => by
    rw [compileAll_nil h, Check.passesAll, Check.passesAll]
  | c :: cs, _, h, values, hvalues => by
    obtain ⟨check, rest, hc, hrest, rfl⟩ := compileAll_cons h
    rw [Check.passesAll, Check.passesAll, passes_prune hc hvalues, passesAll_prune hrest hvalues]

theorem passesAny_prune : ∀ {conditions : List Condition} {checks : List Check},
    compileAll settings conditions = .ok checks → ∀ {values : List Value},
      (∀ v ∈ values, v.WellFormed) →
        Check.passesAny (values.map prune) checks = Check.passesAny values checks
  | [], _, h, _, _ => by
    rw [compileAll_nil h, Check.passesAny, Check.passesAny]
  | c :: cs, _, h, values, hvalues => by
    obtain ⟨check, rest, hc, hrest, rfl⟩ := compileAll_cons h
    rw [Check.passesAny, Check.passesAny, passes_prune hc hvalues, passesAny_prune hrest hvalues]

theorem matchesAll_prune : ∀ {query : List (String × Condition)} {fields : QueryCheck},
    compileQuery settings query = .ok fields → ∀ {doc : Value}, doc.WellFormed →
      Check.matchesAll doc.prune fields = Check.matchesAll doc fields
  | [], _, h, _, _ => by
    rw [compileQuery_nil h, Check.matchesAll, Check.matchesAll]
  | (path, c) :: query, _, h, doc, hdoc => by
    obtain ⟨check, rest, hc, hrest, rfl⟩ := compileQuery_cons h
    have hfound : ∀ v ∈ FieldPath.extract ⟨path⟩ doc, v.WellFormed :=
      fun v hv => FieldPath.wellFormed_of_mem_extractFrom hdoc hv
    rw [Check.matchesAll, Check.matchesAll, extract_prune ⟨path⟩ hdoc, passes_prune hc hfound,
      matchesAll_prune hrest hdoc]

end

end Condition

namespace Statement

variable {settings : Settings}

theorem any_prune {doc : Value} (hdoc : doc.WellFormed) :
    ∀ {statement : Statement} {queries : List QueryCheck},
      List.Forall₂ (fun q fields => Query.compile settings q = .ok fields) statement queries →
        queries.any (Check.matchesAll doc.prune) = queries.any (Check.matchesAll doc)
  | _, _, .nil => rfl
  | _, _, .cons h rest => by
    rw [List.any_cons, List.any_cons, Condition.matchesAll_prune h hdoc, any_prune hdoc rest]

theorem all_prune {doc : Value} (hdoc : doc.WellFormed) :
    ∀ {statements : List Statement} {checks : StatementChecks},
      List.Forall₂ (fun s queries => s.mapM (Query.compile settings) = .ok queries)
        statements checks → checks.accepts doc.prune = checks.accepts doc
  | _, _, .nil => rfl
  | _, _, .cons h rest => by
    have ih := all_prune hdoc rest
    simp only [StatementChecks.accepts] at ih ⊢
    rw [List.all_cons, List.all_cons, any_prune hdoc (forall₂_of_mapM h), ih]

/-- Statements that compile accept a document just if they accept it without its absent data. -/
theorem accepts_prune (settings : Settings) (statements : List Statement)
    {checks : StatementChecks} (h : Statement.compileAll settings statements = .ok checks)
    {doc : Value} (hdoc : doc.WellFormed) : checks.accepts doc.prune = checks.accepts doc :=
  all_prune hdoc (forall₂_of_mapM h)

/-- A null, a missing member, an empty list and a list in a list, under a query inside another. -/
theorem accepts_prune_nested :
    let settings := Settings.ofNow ⟨0, 0, by decide⟩
    let statements : List Statement :=
      [[[("items", .find [("done", .isNull), ("rank", .order .atMost .null)])]]]
    let doc : Value := .object [("items", .list [.null, .list [.object
      [("done", .list []), ("tags", .list [.list [.text "a"]])]]]), ("owner", .null)]
    let pruned : Value := .object [("items", .list [.object [("tags", .list [.text "a"])]])]
    ∃ checks, Statement.compileAll settings statements = .ok checks ∧ doc.WellFormed ∧
      doc.prune = pruned ∧ checks.accepts doc = true ∧ checks.accepts pruned = true := by
  intro settings statements doc pruned
  have hcompile : Statement.compileAll settings statements
      = .ok [[[(⟨"items"⟩, .find [(⟨"done"⟩, .blank), (⟨"rank"⟩, .order .atMost .absent)])]]] := by
    with_unfolding_all rfl
  have hread : (Json.Tree.ofValue doc).value? = some doc := by with_unfolding_all rfl
  have hdoc : doc.WellFormed := Json.Tree.wellFormed_of_value? hread
  have haccepts : StatementChecks.accepts [[[(⟨"items"⟩,
      .find [(⟨"done"⟩, .blank), (⟨"rank"⟩, .order .atMost .absent)])]]] doc = true := by
    decide +kernel
  exact ⟨_, hcompile, hdoc, rfl, haccepts,
    (accepts_prune settings statements hcompile hdoc).trans haccepts⟩

end Statement

end RecordQuery

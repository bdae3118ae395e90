import RecordQuery.Proofs.Compiling

/-!
# The meaning of conditions

What a description says of a document, read off the description itself: `Condition.Holds` of the
values at a path, `Query.Holds` of a document. Compiling replaces null operands by checks of their
own and relative dates by days, and the checks decide the meaning (`passes_iff_holds`,
`matchesAll_iff_holds`).
-/

namespace RecordQuery

open Json

/-- What an order operator asks of the order of a value against its operand. -/
def OrderOperator.Asks : OrderOperator → Ordering → Prop
  | less, o => o = .lt
  | greater, o => o = .gt
  | atMost, o => o ≠ .gt
  | atLeast, o => o ≠ .lt

namespace Operand

/-- Some value is strictly equal to the operand. Every value is blank where that is null. -/
def EqualTo (values : List Value) : Operand → Prop
  | value .null => ∀ v ∈ values, v.isBlank = true
  | value w => ∃ v ∈ values, v.strictEq w = true
  | daysAgo _ => False

/-- No value is strictly equal to the operand. Some value is not blank where that is null. -/
def UnequalTo (values : List Value) : Operand → Prop
  | value .null => ∃ v ∈ values, v.isBlank = false
  | value w => ¬ ∃ v ∈ values, v.strictEq w = true
  | daysAgo _ => False

/-- The order of a value against the operand: blank values are level with null and all others above
it; against a relative date, the day of the value counts. -/
def order? (settings : Settings) (v : Value) : Operand → Option Ordering
  | value .null => some (if v.isBlank then .eq else .gt)
  | value w => if v.isBlank then none else v.compare? w
  | daysAgo days =>
    if v.isBlank then none
    else do
      let t ← v.instant?
      let past ← settings.now.daysBefore? days
      return compare t.day past.day

def OrderedTo (settings : Settings) (op : OrderOperator) (v : Value) (operand : Operand) : Prop :=
  ∃ o, operand.order? settings v = some o ∧ op.Asks o

def StartOf (values : List Value) : Operand → Prop
  | value (.text start) => ∃ s, .text s ∈ values ∧ start.toList <+: s.toList
  | _ => False

end Operand

namespace Condition

theorem sizeOf_lt_of_mem {path : String} {c : Condition} {query : List (String × Condition)}
    (h : (path, c) ∈ query) : sizeOf c < 1 + sizeOf query := by
  have hentry := List.sizeOf_lt_of_mem h
  rw [Prod.mk.sizeOf_spec] at hentry
  omega

/-- What a condition says of the values at a path. Where there are none, an order operator takes a
single null; and a query inside is taken at the values found, as documents. -/
def Holds (settings : Settings) (values : List Value) : Condition → Prop
  | equal operand => operand.EqualTo values
  | unequal operand => operand.UnequalTo values
  | order op operand =>
    (∃ v ∈ values, operand.OrderedTo settings op v) ∨
      values = [] ∧ operand.OrderedTo settings op .null
  | all conditions => ∀ c ∈ conditions, c.Holds settings values
  | any conditions => ∃ c, ∃ _ : c ∈ conditions, c.Holds settings values
  | startsWith operand => operand.StartOf values
  | find query =>
    ∃ v ∈ values, ∀ path c, (path, c) ∈ query → c.Holds settings (FieldPath.extract ⟨path⟩ v)
  | findNone query =>
    ¬ ∃ v ∈ values, ∀ path c, (path, c) ∈ query → c.Holds settings (FieldPath.extract ⟨path⟩ v)
termination_by condition => condition
decreasing_by
  · decreasing_tactic
  · decreasing_tactic
  · rw [find.sizeOf_spec]
    exact sizeOf_lt_of_mem ‹_›
  · rw [findNone.sizeOf_spec]
    exact sizeOf_lt_of_mem ‹_›

end Condition

/-- Every condition of the query holds of the values at its path. -/
def Query.Holds (settings : Settings) (doc : Value) (query : Query) : Prop :=
  ∀ path c, (path, c) ∈ query → c.Holds settings (FieldPath.extract ⟨path⟩ doc)

@[simp] theorem Query.holds_nil (settings : Settings) (doc : Value) :
    Query.Holds settings doc [] := by
  simp [Query.Holds]

theorem Query.holds_cons (settings : Settings) (doc : Value) (path : String) (c : Condition)
    (query : Query) : Query.Holds settings doc ((path, c) :: query) ↔
      c.Holds settings (FieldPath.extract ⟨path⟩ doc) ∧ query.Holds settings doc := by
  simp only [Query.Holds, List.mem_cons, Prod.mk.injEq]
  constructor
  · intro h
    exact ⟨h path c (.inl ⟨rfl, rfl⟩), fun p d hd => h p d (.inr hd)⟩
  · rintro ⟨hc, hquery⟩ p d (⟨rfl, rfl⟩ | hd)
    · exact hc
    · exact hquery p d hd

/-! ## Checks decide the meaning -/

theorem OrderOperator.accepts_iff (op : OrderOperator) (o : Ordering) :
    op.accepts o = true ↔ op.Asks o := by
  cases op <;> cases o <;> simp [accepts, Asks]

theorem Operand.admits_iff {settings : Settings} {op : OrderOperator} {operand : Operand}
    {bound : Bound} (h : operand.bound (.order op) settings = .ok bound) (v : Value) :
    bound.admits op v = true ↔ operand.OrderedTo settings op v := by
  rcases bound_eq_ok h with ⟨rfl, rfl⟩ | ⟨days, t, rfl, ht, rfl⟩ | ⟨w, hw, -, rfl, rfl⟩
  · rw [OrderedTo, null, order?]
    rcases hv : v.isBlank with _ | _ <;> cases op <;> simp [Bound.admits, OrderOperator.Asks, hv]
  · rw [Bound.admits, OrderedTo, order?, ht]
    rcases v.isBlank with _ | _
    · rcases v.instant? with _ | s
      · simp
      · simp [OrderOperator.accepts_iff]
    · simp
  · rw [Bound.admits, OrderedTo, order?]
    rcases v.isBlank with _ | _
    · rcases v.compare? w with _ | o
      · simp
      · simp [OrderOperator.accepts_iff]
    · simp
    · exact hw

theorem Check.passes_order_singleton (op : OrderOperator) (bound : Bound) (v : Value) :
    (Check.order op bound).passes [v] = bound.admits op v := by
  simp [passes]

theorem Check.hasStart_iff (start : String) (v : Value) :
    hasStart start v = true ↔ ∃ s, v = .text s ∧ start.toList <+: s.toList := by
  cases v <;> simp [hasStart]

namespace Condition

section Operands

variable {settings : Settings} {operand : Operand} {check : Check}

theorem passes_equal (h : (equal operand).compile settings = .ok check) (values : List Value) :
    check.passes values = true ↔ operand.EqualTo values := by
  rcases compile_equal h with ⟨rfl, rfl⟩ | ⟨v, hv, -, rfl, rfl⟩
  · rw [Check.passes, Operand.null, Operand.EqualTo, List.all_eq_true]
  · rw [Check.passes, Operand.EqualTo, List.any_eq_true]
    exact hv

theorem passes_unequal (h : (unequal operand).compile settings = .ok check) (values : List Value) :
    check.passes values = true ↔ operand.UnequalTo values := by
  rcases compile_unequal h with ⟨rfl, rfl⟩ | ⟨v, hv, -, rfl, rfl⟩
  · rw [Check.passes, Operand.null, Operand.UnequalTo]
    simp
  · rw [Check.passes, Operand.UnequalTo]
    · simp
    · exact hv

theorem passes_order {op : OrderOperator} (h : (order op operand).compile settings = .ok check)
    (values : List Value) :
    check.passes values = true ↔ (∃ v ∈ values, operand.OrderedTo settings op v) ∨
      values = [] ∧ operand.OrderedTo settings op .null := by
  obtain ⟨bound, hb, rfl⟩ := compile_order h
  rw [Check.passes]
  rcases values with _ | ⟨v, values⟩
  · simp [Operand.admits_iff hb]
  · simp [Operand.admits_iff hb]

theorem passes_startsWith (h : (startsWith operand).compile settings = .ok check)
    (values : List Value) : check.passes values = true ↔ operand.StartOf values := by
  obtain ⟨start, rfl, rfl⟩ := compile_startsWith h
  rw [Check.passes, Operand.StartOf, List.any_eq_true]
  simp only [Check.hasStart_iff]
  constructor
  · rintro ⟨_, hmem, s, rfl, hs⟩
    exact ⟨s, hmem, hs⟩
  · rintro ⟨s, hmem, hs⟩
    exact ⟨_, hmem, s, rfl, hs⟩

end Operands

mutual

/-- The induction is on the description, with its lists of conditions and of entries. -/
theorem passes_iff_holds {settings : Settings} : ∀ {condition : Condition} {check : Check},
    condition.compile settings = .ok check → ∀ values,
      (check.passes values = true ↔ condition.Holds settings values)
  | equal operand, _, h, values => by
    rw [Holds]
    exact passes_equal h values
  | unequal operand, _, h, values => by
    rw [Holds]
    exact passes_unequal h values
  | order op operand, _, h, values => by
    rw [Holds]
    exact passes_order h values
  | all conditions, _, h, values => by
    obtain ⟨checks, hc, rfl⟩ := compile_all h
    rw [Check.passes, Holds]
    exact passesAll_iff_hold hc values
  | any conditions, _, h, values => by
    obtain ⟨checks, hc, rfl⟩ := compile_any h
    rw [Check.passes, Holds]
    simp only [exists_prop]
    exact passesAny_iff_holds hc values
  | startsWith operand, _, h, values => by
    rw [Holds]
    exact passes_startsWith h values
  | find query, _, h, values => by
    obtain ⟨fields, hf, rfl⟩ := compile_find h
    rw [Check.passes, Holds, List.any_eq_true]
    simp only [matchesAll_iff_holds hf, Query.Holds]
  | findNone query, _, h, values => by
    obtain ⟨fields, hf, rfl⟩ := compile_findNone h
    rw [Check.passes, Holds, Bool.not_eq_true', ← Bool.not_eq_true, List.any_eq_true]
    simp only [matchesAll_iff_holds hf, Query.Holds]

theorem passesAll_iff_hold {settings : Settings} : ∀ {conditions : List Condition}
    {checks : List Check}, compileAll settings conditions = .ok checks → ∀ values,
      (Check.passesAll values checks = true ↔ ∀ c ∈ conditions, c.Holds settings values)
  | [], _, h, values => by
    rw [compileAll_nil h, Check.passesAll]
    simp
  | c :: cs, _, h, values => by
    obtain ⟨check, rest, hc, hrest, rfl⟩ := compileAll_cons h
    rw [Check.passesAll, Bool.and_eq_true, passes_iff_holds hc, passesAll_iff_hold hrest,
      List.forall_mem_cons]

theorem passesAny_iff_holds {settings : Settings} : ∀ {conditions : List Condition}
    {checks : List Check}, compileAll settings conditions = .ok checks → ∀ values,
      (Check.passesAny values checks = true ↔ ∃ c ∈ conditions, c.Holds settings values)
  | [], _, h, values => by
    rw [compileAll_nil h, Check.passesAny]
    simp
  | c :: cs, _, h, values => by
    obtain ⟨check, rest, hc, hrest, rfl⟩ := compileAll_cons h
    rw [Check.passesAny, Bool.or_eq_true, passes_iff_holds hc, passesAny_iff_holds hrest,
      List.exists_mem_cons_iff]

theorem matchesAll_iff_holds {settings : Settings} : ∀ {query : List (String × Condition)}
    {fields : QueryCheck}, compileQuery settings query = .ok fields → ∀ doc,
      (Check.matchesAll doc fields = true ↔ Query.Holds settings doc query)
  | [], _, h, doc => by
    rw [compileQuery_nil h, Check.matchesAll]
    simp
  | (path, c) :: query, _, h, doc => by
    obtain ⟨check, rest, hc, hrest, rfl⟩ := compileQuery_cons h
    rw [Check.matchesAll, Bool.and_eq_true, passes_iff_holds hc, matchesAll_iff_holds hrest,
      Query.holds_cons]

end

end Condition

theorem Statement.any_iff_holds {settings : Settings} (doc : Value) :
    ∀ {statement : Statement} {queries : List QueryCheck},
      List.Forall₂ (fun q fields => Query.compile settings q = .ok fields) statement queries →
        (queries.any (Check.matchesAll doc) = true ↔ ∃ q ∈ statement, Query.Holds settings doc q)
  | _, _, .nil => by simp
  | _, _, .cons h rest => by
    rw [List.any_cons, Bool.or_eq_true, List.exists_mem_cons_iff,
      Condition.matchesAll_iff_holds h, any_iff_holds doc rest]

theorem Statement.all_iff_holds {settings : Settings} (doc : Value) :
    ∀ {statements : List Statement} {checks : StatementChecks},
      List.Forall₂ (fun s queries => s.mapM (Query.compile settings) = .ok queries)
        statements checks →
        ((checks.all fun queries => queries.any (Check.matchesAll doc)) = true ↔
          ∀ s ∈ statements, ∃ q ∈ s, Query.Holds settings doc q)
  | _, _, .nil => by simp
  | _, _, .cons h rest => by
    rw [List.all_cons, Bool.and_eq_true, List.forall_mem_cons,
      any_iff_holds doc (forall₂_of_mapM h), all_iff_holds doc rest]

/-- Statements that compile accept the documents of which each of them has a query that holds. -/
theorem Statement.accepts_iff_holds (settings : Settings) (statements : List Statement)
    {checks : StatementChecks} (h : Statement.compileAll settings statements = .ok checks)
    (doc : Value) :
    checks.accepts doc = true ↔
      ∀ statement ∈ statements, ∃ query ∈ statement, Query.Holds settings doc query :=
  all_iff_holds doc (forall₂_of_mapM h)

/-- The second query of the statement holds, of an item whose `done` is null. -/
theorem Statement.accepts_iff_holds_nested :
    let settings := Settings.ofNow ⟨0, 0, by decide⟩
    let statements : List Statement := [[[("due", .order .less (.daysAgo 1))],
      [("items", .find [("done", .isNull)])]]]
    let doc : Value := .object [("items", .list [.object [("done", .null)]])]
    ∃ checks, Statement.compileAll settings statements = .ok checks ∧ checks.accepts doc = true ∧
      ∀ statement ∈ statements, ∃ query ∈ statement, Query.Holds settings doc query := by
  intro settings statements doc
  have hcompile : Statement.compileAll settings statements
      = .ok [[[(⟨"due"⟩, .order .less (.day (-1)))],
          [(⟨"items"⟩, .find [(⟨"done"⟩, .blank)])]]] := by with_unfolding_all rfl
  refine ⟨_, hcompile, by decide +kernel, ?_⟩
  exact (accepts_iff_holds settings statements hcompile doc).1 (by decide +kernel)

end RecordQuery

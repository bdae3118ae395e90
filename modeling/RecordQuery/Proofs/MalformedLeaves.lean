import RecordQuery.Proofs.CalendarDays
import RecordQuery.Proofs.FirstFault
import RecordQuery.Proofs.Leaves

/-!
# Malformed leaves

Nothing of a filter can be at fault but its leaves. Its fault is that of the first leaf whose
operand does not suit its operator, and it is found whatever the records are
(`Filter.fault_iff_first_malformed_leaf`).
-/

namespace RecordQuery

open Json

/-! ## Faults of leaves -/

namespace Operand

def isScalar : Operand → Bool
  | value v => v.isScalar
  | daysAgo _ => false

def isText : Operand → Bool
  | value (.text _) => true
  | _ => false

end Operand

/-- Whether an operator can be given an operand. -/
def Operator.suits (settings : Settings) : Operator → Operand → Bool
  | order _, .daysAgo days => Instant.IsSupportedDay (settings.now.day - days)
  | startsWith, operand => operand.isText
  | _, operand => operand.isScalar

namespace Leaf

def isWellFormed (settings : Settings) (leaf : Leaf) : Bool :=
  leaf.op.suits settings leaf.operand

/-- What the operator asks for where the operand does not suit it. -/
def expectation (leaf : Leaf) : Expectation :=
  match leaf.op, leaf.operand with
  | .order _, .daysAgo _ => .dayInRange
  | .startsWith, operand => if operand.isScalar then .text else .scalar
  | _, _ => .scalar

/-- The fault of a leaf that is not well formed. -/
def fault (leaf : Leaf) : Fault :=
  .invalidOperand leaf.op leaf.expectation leaf.operand.kindName

def firstMalformed? (settings : Settings) (leaves : List Leaf) : Option Leaf :=
  leaves.find? fun leaf => !leaf.isWellFormed settings

/-- The fault of the first leaf that is not well formed. -/
def firstFault? (settings : Settings) (leaves : List Leaf) : Option Fault :=
  (firstMalformed? settings leaves).map fault

variable {settings : Settings}

theorem firstFault?_append (leaves others : List Leaf) :
    firstFault? settings (leaves ++ others)
      = (firstFault? settings leaves).or (firstFault? settings others) := by
  rw [firstFault?, firstMalformed?, List.find?_append, Option.map_or]
  rfl

theorem firstFault?_singleton (leaf : Leaf) :
    firstFault? settings [leaf] = if leaf.isWellFormed settings then none else some leaf.fault := by
  rw [firstFault?, firstMalformed?, List.find?_singleton]
  cases leaf.isWellFormed settings <;> rfl

/-- Where leaves are does not matter to their faults. -/
theorem firstFault?_map_behind (turn : Turn) (leaves : List Leaf) :
    firstFault? settings (leaves.map (behind turn)) = firstFault? settings leaves := by
  rw [firstFault?, firstMalformed?, List.find?_map, Option.map_map]
  rfl

theorem firstFault?_numbered : ∀ (index : Nat) (parts : List (List Leaf)),
    firstFault? settings (gather (numbered index parts)) = parts.findSome? (firstFault? settings)
  | _, [] => rfl
  | index, leaves :: parts => by
    rw [numbered, gather, firstFault?_append, firstFault?_map_behind,
      firstFault?_numbered (index + 1) parts, findSome?_cons_eq_or]

end Leaf

/-! ## Compiling -/

namespace Operand

theorem faultOf?_scalar (op : Operator) (operand : Operand) :
    faultOf? (operand.scalar op) =
      if operand.isScalar then none else some (.invalidOperand op .scalar operand.kindName) := by
  rcases operand with days | v
  · rfl
  · rw [scalar, isScalar]
    split <;> rfl

theorem faultOf?_start (op : Operator) (operand : Operand) :
    faultOf? (operand.start op) =
      if operand.isText then none
      else some (.invalidOperand op (if operand.isScalar then .text else .scalar)
        operand.kindName) := by
  rcases operand with days | v
  · rfl
  · cases v <;> rfl

theorem faultOf?_bound_value (op : Operator) (settings : Settings) (v : Value) :
    faultOf? ((value v).bound op settings) =
      if v.isScalar then none else some (.invalidOperand op .scalar v.kindName) := by
  cases v <;> rfl

theorem faultOf?_bound_daysAgo (op : Operator) {settings : Settings}
    (hnow : settings.now.isLeapSecond = false) (days : Int) :
    faultOf? ((daysAgo days).bound op settings) =
      if Instant.IsSupportedDay (settings.now.day - days) then none
      else some (.invalidOperand op .dayInRange (daysAgo days).kindName) := by
  have h := Instant.map_day_daysBefore? hnow days
  rw [bound]
  split
  · next t ht =>
    rw [ht] at h
    split at h
    · next hday => rw [if_pos hday]; rfl
    · cases h
  · next ht =>
    rw [ht] at h
    split at h
    · cases h
    · next hday => rw [if_neg hday]; rfl

end Operand

namespace Condition

variable {settings : Settings}

theorem faultOf?_compile_order (hnow : settings.now.isLeapSecond = false) (op : OrderOperator) :
    ∀ operand, faultOf? ((order op operand).compile settings)
      = Leaf.firstFault? settings [⟨[], .order op, operand⟩]
  | .daysAgo days => by
    rw [compile, faultOf?_bind_pure, Operand.faultOf?_bound_daysAgo _ hnow,
      Leaf.firstFault?_singleton]
    simp only [Leaf.isWellFormed, Operator.suits, decide_eq_true_eq]
    rfl
  | .value v => by
    rw [compile, faultOf?_bind_pure, Operand.faultOf?_bound_value, Leaf.firstFault?_singleton]
    rfl

mutual

/-- Compiling a condition finds the fault of its first leaf that is not well formed. -/
theorem faultOf?_compile (hnow : settings.now.isLeapSecond = false) : ∀ condition : Condition,
    faultOf? (condition.compile settings) = Leaf.firstFault? settings condition.leaves
  | equal operand | unequal operand => by
    rw [compile, leaves, Leaf.firstFault?_singleton, faultOf?_bind, Operand.faultOf?_scalar]
    · rfl
    · -- a null has a check of its own, but neither check can fail
      intro v
      cases v <;> rfl
  | order op operand => faultOf?_compile_order hnow op operand
  | startsWith operand => by
    rw [compile, leaves, faultOf?_bind_pure, Operand.faultOf?_start, Leaf.firstFault?_singleton]
    rfl
  | all conditions | any conditions => by
    rw [compile, leaves, faultOf?_bind_pure, faultOf?_compileAll hnow, Leaf.firstFault?_numbered]
  | find query | findNone query => by
    rw [compile, leaves, faultOf?_bind_pure, faultOf?_compileQuery hnow]

theorem faultOf?_compileAll (hnow : settings.now.isLeapSecond = false) :
    ∀ conditions : List Condition, faultOf? (compileAll settings conditions)
      = (leavesOfAll conditions).findSome? (Leaf.firstFault? settings)
  | [] => rfl
  | condition :: conditions => by
    rw [compileAll, leavesOfAll, faultOf?_bind_bind_pure, faultOf?_compile hnow,
      faultOf?_compileAll hnow, findSome?_cons_eq_or]

theorem faultOf?_compileQuery (hnow : settings.now.isLeapSecond = false) :
    ∀ query : List (String × Condition), faultOf? (compileQuery settings query)
      = Leaf.firstFault? settings (Leaf.gather (leavesOfQuery query))
  | [] => rfl
  | (path, condition) :: entries => by
    rw [compileQuery, leavesOfQuery, Leaf.gather, faultOf?_bind_bind_pure, faultOf?_compile hnow,
      faultOf?_compileQuery hnow, Leaf.firstFault?_append, Leaf.firstFault?_map_behind]

end

end Condition

theorem Statement.faultOf?_compileAll {settings : Settings}
    (hnow : settings.now.isLeapSecond = false) (statements : List Statement) :
    faultOf? (compileAll settings statements)
      = Leaf.firstFault? settings (Leaf.gather (Leaf.numbered 0 (statements.map leaves))) := by
  rw [compileAll, faultOf?_mapM, Leaf.firstFault?_numbered, List.findSome?_map]
  congr 1
  funext queries
  rw [Function.comp_apply, leaves, faultOf?_mapM, Leaf.firstFault?_numbered, List.findSome?_map]
  congr 1
  funext query
  exact Condition.faultOf?_compileQuery hnow query

namespace Filter

variable {α : Type} [Record α]

/-- Compiling is the only source of faults. -/
theorem apply_eq_error {filter : Filter} {settings : Settings} {fault : Fault} {records : List α} :
    filter.apply settings records = .error fault ↔ filter.compile settings = .error fault := by
  rw [apply, ← faultOf?_eq_some, ← faultOf?_eq_some, faultOf?_bind]
  intro checks
  split <;> rfl

theorem count_eq_error {filter : Filter} {settings : Settings} {fault : Fault} {records : List α} :
    filter.count settings records = .error fault ↔ filter.compile settings = .error fault := by
  rw [count, ← faultOf?_eq_some, ← faultOf?_eq_some, faultOf?_bind_pure]

theorem accepts_eq_error {filter : Filter} {settings : Settings} {fault : Fault} {record : α} :
    filter.accepts settings record = .error fault ↔ filter.compile settings = .error fault := by
  rw [accepts, ← faultOf?_eq_some, ← faultOf?_eq_some, faultOf?_bind_pure]

/-- A filter compiles just if all its leaves are well formed. Otherwise its fault is that of the
first one that is not, in the order of their ways, whatever it is applied to. -/
theorem fault_iff_first_malformed_leaf (filter : Filter) {settings : Settings}
    (hnow : settings.now.isLeapSecond = false) :
    ((∃ checks, filter.compile settings = .ok checks) ↔
      ∀ leaf ∈ filter.leaves, leaf.isWellFormed settings) ∧
    (∀ fault, filter.compile settings = .error fault ↔
      ∃ leaf, Leaf.firstMalformed? settings filter.leaves = some leaf ∧ fault = leaf.fault) ∧
    (filter.InPathOrder → filter.leaves.Pairwise Leaf.Precedes) ∧
    ∀ {α : Type} [Record α] (fault : Fault) (records : List α) (record : α),
      (filter.apply settings records = .error fault ↔ filter.compile settings = .error fault) ∧
      (filter.count settings records = .error fault ↔ filter.compile settings = .error fault) ∧
      (filter.accepts settings record = .error fault ↔ filter.compile settings = .error fault) := by
  have hfault : faultOf? (filter.compile settings) = Leaf.firstFault? settings filter.leaves :=
    Statement.faultOf?_compileAll hnow filter.statements
  refine ⟨?_, fun fault => ?_, pairwise_leaves, fun fault records record =>
    ⟨apply_eq_error, count_eq_error, accepts_eq_error⟩⟩
  · rw [← faultOf?_eq_none, hfault, Leaf.firstFault?, Option.map_eq_none_iff, Leaf.firstMalformed?,
      List.find?_eq_none]
    simp only [Bool.not_eq_true, Bool.not_eq_false']
  · rw [← faultOf?_eq_some, hfault, Leaf.firstFault?, Option.map_eq_some_iff]
    simp only [eq_comm]

/-- Four leaves are malformed, in two queries, and the first of them lies inside a `find`. -/
theorem fault_iff_first_malformed_leaf_nested :
    let text : Operand := .value (.text "x")
    let far : Operand := .daysAgo 1000000000000
    let among : Condition := .any [.order .less (.daysAgo 7), .startsWith text]
    let inner : Query := [("c", .order .atLeast far), ("d", .equal (.value (.list [])))]
    let query : Query := [("a", .all [.equal text, among]), ("b", .find inner)]
    let other : Query := [("a", .startsWith (.value (.int 1))), ("b", .unequal far)]
    let filter : Filter := { statements := [[query, other]], limit := some 0 }
    let settings := Settings.ofNow ⟨0, 0, by decide⟩
    settings.now.isLeapSecond = false ∧ filter.InPathOrder ∧
      filter.leaves.Pairwise Leaf.Precedes ∧ ∀ records : List Value,
        filter.apply settings records
          = .error (.invalidOperand (.order .atLeast) .dayInRange "relative date") := by
  intro text far among inner query other filter settings
  have hnow : settings.now.isLeapSecond = false := rfl
  have hfind : (Condition.find inner).InPathOrder := by
    refine .find (Keyed.sorted_of_ascending (by decide)) ?_
    simp [inner, Condition.InPathOrder.order, Condition.InPathOrder.equal]
  have hamong : among.InPathOrder := by
    refine .any ?_
    simp [Condition.InPathOrder.order, Condition.InPathOrder.startsWith]
  have hquery : query.InPathOrder := by
    refine ⟨Keyed.sorted_of_ascending (by decide), ?_⟩
    simp [query, hfind, hamong, Condition.InPathOrder.all, Condition.InPathOrder.equal]
  have hother : other.InPathOrder := by
    refine ⟨Keyed.sorted_of_ascending (by decide), ?_⟩
    simp [other, Condition.InPathOrder.startsWith, Condition.InPathOrder.unequal]
  have hpaths : filter.InPathOrder := by
    simp [InPathOrder, filter, hquery, hother]
  have hfirst : Leaf.firstMalformed? settings filter.leaves
      = some ⟨[.item 0, .item 0, .entry "b", .entry "c"], .order .atLeast, far⟩ := by
    with_unfolding_all rfl
  obtain ⟨-, hfault, hways, hrecords⟩ := fault_iff_first_malformed_leaf filter hnow
  refine ⟨hnow, hpaths, hways hpaths, fun records => ?_⟩
  exact (hrecords _ records .null).1.2 ((hfault _).2 ⟨_, hfirst, rfl⟩)

end Filter

end RecordQuery

import RecordQuery.Filter.Basic
import RecordQuery.Proofs.KeyOrder

/-!
# Leaves

The leaves of a description are its conditions with an operand, however deep they lie in others and
in the queries of those. A leaf is told apart by the way to it, and the leaves are in the order of
their ways (`Filter.pairwise_leaves`): by statement, by query, by path, and by place among the
conditions of an `all` or `any`.
-/

namespace RecordQuery

open Std

/-- A step on the way from a description to a part of it. -/
inductive Turn where
  /-- To the statement, query or condition of this number. -/
  | item (index : Nat)
  /-- To the condition on this path. -/
  | entry (path : String)

/-- Paths are ordered by code point, which is the order of their bytes. -/
def Turn.compare : Turn → Turn → Ordering
  | item i, item j => Ord.compare i j
  | item _, entry _ => .lt
  | entry _, item _ => .gt
  | entry p, entry q => Ord.compare p q

/-- A condition with an operand, and where it is. -/
structure Leaf where
  way : List Turn
  op : Operator
  operand : Operand

namespace Leaf

/-- The leaf of a part as one of the whole. -/
def behind (turn : Turn) (leaf : Leaf) : Leaf :=
  { leaf with way := turn :: leaf.way }

/-- The leaves of all parts, with the turn that leads to each part. -/
def gather : List (Turn × List Leaf) → List Leaf
  | [] => []
  | (turn, leaves) :: parts => leaves.map (behind turn) ++ gather parts

/-- Parts that are told apart by their numbers. -/
def numbered (index : Nat) : List (List Leaf) → List (Turn × List Leaf)
  | [] => []
  | leaves :: parts => (.item index, leaves) :: numbered (index + 1) parts

/-- Depth first: the first turn in which the ways differ decides. -/
def Precedes (a b : Leaf) : Prop :=
  List.compareLex Turn.compare a.way b.way = .lt

end Leaf

namespace Condition

mutual

/-- The leaves of a condition, from left to right. -/
def leaves : Condition → List Leaf
  | equal operand => [⟨[], .equal, operand⟩]
  | unequal operand => [⟨[], .unequal, operand⟩]
  | order op operand => [⟨[], .order op, operand⟩]
  | startsWith operand => [⟨[], .startsWith, operand⟩]
  | all conditions | any conditions => Leaf.gather (Leaf.numbered 0 (leavesOfAll conditions))
  | find query | findNone query => Leaf.gather (leavesOfQuery query)

def leavesOfAll : List Condition → List (List Leaf)
  | [] => []
  | condition :: conditions => condition.leaves :: leavesOfAll conditions

def leavesOfQuery : List (String × Condition) → List (Turn × List Leaf)
  | [] => []
  | (path, condition) :: entries => (.entry path, condition.leaves) :: leavesOfQuery entries

end

/-- Every query inside has its entries in the order of their paths. -/
inductive InPathOrder : Condition → Prop where
  | equal (operand : Operand) : InPathOrder (.equal operand)
  | unequal (operand : Operand) : InPathOrder (.unequal operand)
  | order (op : OrderOperator) (operand : Operand) : InPathOrder (.order op operand)
  | startsWith (operand : Operand) : InPathOrder (.startsWith operand)
  | all {conditions : List Condition} :
      (∀ c ∈ conditions, InPathOrder c) → InPathOrder (.all conditions)
  | any {conditions : List Condition} :
      (∀ c ∈ conditions, InPathOrder c) → InPathOrder (.any conditions)
  | find {query : Query} :
      Keyed.Sorted query → (∀ entry ∈ query, InPathOrder entry.2) → InPathOrder (.find query)
  | findNone {query : Query} :
      Keyed.Sorted query → (∀ entry ∈ query, InPathOrder entry.2) → InPathOrder (.findNone query)

end Condition

def Query.leaves (query : Query) : List Leaf :=
  Leaf.gather (Condition.leavesOfQuery query)

def Query.InPathOrder (query : Query) : Prop :=
  Keyed.Sorted query ∧ ∀ entry ∈ query, entry.2.InPathOrder

def Statement.leaves (queries : Statement) : List Leaf :=
  Leaf.gather (Leaf.numbered 0 (queries.map Query.leaves))

def Filter.leaves (filter : Filter) : List Leaf :=
  Leaf.gather (Leaf.numbered 0 (filter.statements.map Statement.leaves))

def Filter.InPathOrder (filter : Filter) : Prop :=
  ∀ queries ∈ filter.statements, ∀ query ∈ queries, query.InPathOrder

/-! ## The order of the leaves -/

instance : ReflCmp Turn.compare where
  compare_self {turn} := by
    cases turn <;> exact ReflOrd.compare_self

namespace Leaf

theorem precedes_behind_of_lt {s t : Turn} (h : s.compare t = .lt) (a b : Leaf) :
    (a.behind s).Precedes (b.behind t) := by
  rw [Precedes, behind, behind, List.compareLex_cons_cons, h]
  rfl

theorem Precedes.behind {a b : Leaf} (h : a.Precedes b) (turn : Turn) :
    (a.behind turn).Precedes (b.behind turn) := by
  have hself : turn.compare turn = .eq := ReflCmp.compare_self
  rw [Precedes, Leaf.behind, Leaf.behind, List.compareLex_cons_cons, hself]
  exact h

theorem exists_of_mem_gather {leaf : Leaf} : ∀ {parts : List (Turn × List Leaf)},
    leaf ∈ gather parts → ∃ part ∈ parts, ∃ inner : Leaf, leaf = inner.behind part.1
  | (turn, leaves) :: parts, h => by
    rcases List.mem_append.1 h with h | h
    · obtain ⟨inner, -, rfl⟩ := List.mem_map.1 h
      exact ⟨_, List.mem_cons_self, inner, rfl⟩
    · obtain ⟨part, hpart, hinner⟩ := exists_of_mem_gather h
      exact ⟨part, List.mem_cons_of_mem _ hpart, hinner⟩

theorem pairwise_gather : ∀ {parts : List (Turn × List Leaf)},
    (parts.Pairwise fun a b => a.1.compare b.1 = .lt) →
      (∀ part ∈ parts, part.2.Pairwise Precedes) → (gather parts).Pairwise Precedes
  | [], _, _ => .nil
  | (turn, leaves) :: parts, hturns, hparts => by
    obtain ⟨hturn, hturns⟩ := List.pairwise_cons.1 hturns
    obtain ⟨hleaves, hparts⟩ := List.forall_mem_cons.1 hparts
    rw [gather, List.pairwise_append]
    refine ⟨hleaves.map _ fun a b hab => hab.behind turn, pairwise_gather hturns hparts, ?_⟩
    intro a ha b hb
    obtain ⟨a, -, rfl⟩ := List.mem_map.1 ha
    obtain ⟨part, hpart, b, rfl⟩ := exists_of_mem_gather hb
    exact precedes_behind_of_lt (hturn part hpart) a b

theorem exists_of_mem_numbered {part : Turn × List Leaf} : ∀ {index : Nat}
    {parts : List (List Leaf)}, part ∈ numbered index parts →
      ∃ i, index ≤ i ∧ part.1 = .item i ∧ part.2 ∈ parts
  | index, leaves :: parts, h => by
    rcases List.mem_cons.1 h with rfl | h
    · exact ⟨index, Nat.le_refl _, rfl, List.mem_cons_self⟩
    · obtain ⟨i, hi, hturn, hmem⟩ := exists_of_mem_numbered h
      exact ⟨i, Nat.le_of_succ_le hi, hturn, List.mem_cons_of_mem _ hmem⟩

theorem pairwise_numbered : ∀ (index : Nat) (parts : List (List Leaf)),
    (numbered index parts).Pairwise fun a b => a.1.compare b.1 = .lt
  | _, [] => .nil
  | index, leaves :: parts => by
    refine List.pairwise_cons.2 ⟨fun part hpart => ?_, pairwise_numbered (index + 1) parts⟩
    obtain ⟨i, hi, hturn, -⟩ := exists_of_mem_numbered hpart
    rw [hturn]
    exact Nat.compare_eq_lt.2 hi

theorem pairwise_gather_numbered {parts : List (List Leaf)}
    (h : ∀ leaves ∈ parts, leaves.Pairwise Precedes) :
    (gather (numbered 0 parts)).Pairwise Precedes := by
  refine pairwise_gather (pairwise_numbered 0 parts) fun part hpart => ?_
  obtain ⟨-, -, -, hmem⟩ := exists_of_mem_numbered hpart
  exact h _ hmem

end Leaf

namespace Condition

theorem leavesOfAll_eq_map (conditions : List Condition) :
    leavesOfAll conditions = conditions.map leaves := by
  induction conditions with
  | nil => rfl
  | cons condition conditions ih => rw [leavesOfAll, ih, List.map_cons]

theorem leavesOfQuery_eq_map : ∀ query : Query,
    leavesOfQuery query = query.map fun entry => (.entry entry.1, entry.2.leaves)
  | [] => rfl
  | (path, condition) :: entries => by
    rw [leavesOfQuery, leavesOfQuery_eq_map entries, List.map_cons]

theorem pairwise_leavesOfAll {conditions : List Condition}
    (h : ∀ c ∈ conditions, c.leaves.Pairwise Leaf.Precedes) :
    (Leaf.gather (Leaf.numbered 0 (leavesOfAll conditions))).Pairwise Leaf.Precedes := by
  rw [leavesOfAll_eq_map]
  exact Leaf.pairwise_gather_numbered (List.forall_mem_map.2 h)

theorem pairwise_leavesOfQuery {query : Query} (hsorted : Keyed.Sorted query)
    (h : ∀ entry ∈ query, entry.2.leaves.Pairwise Leaf.Precedes) :
    (Leaf.gather (leavesOfQuery query)).Pairwise Leaf.Precedes := by
  rw [leavesOfQuery_eq_map]
  exact Leaf.pairwise_gather (hsorted.map _ fun _ _ hab => hab) (List.forall_mem_map.2 h)

theorem InPathOrder.pairwise_leaves {condition : Condition} (h : condition.InPathOrder) :
    condition.leaves.Pairwise Leaf.Precedes := by
  induction h with
  | equal | unequal | order | startsWith => exact List.pairwise_singleton _ _
  | all _ ih | any _ ih => exact pairwise_leavesOfAll ih
  | find hsorted _ ih | findNone hsorted _ ih => exact pairwise_leavesOfQuery hsorted ih

end Condition

namespace Filter

theorem pairwise_leaves {filter : Filter} (h : filter.InPathOrder) :
    filter.leaves.Pairwise Leaf.Precedes := by
  refine Leaf.pairwise_gather_numbered (List.forall_mem_map.2 fun queries hqueries => ?_)
  refine Leaf.pairwise_gather_numbered (List.forall_mem_map.2 fun query hquery => ?_)
  obtain ⟨hsorted, hentries⟩ := h queries hqueries query hquery
  exact Condition.pairwise_leavesOfQuery hsorted fun entry hentry =>
    (hentries entry hentry).pairwise_leaves

end Filter

end RecordQuery

import RecordQuery.Proofs.Compiling
import RecordQuery.Proofs.Extraction

/-!
# Conditions that one value is enough for

Some conditions hold of the values at a path just if they hold of one of them on its own, and so
never where there are none (`Condition.Existential.pointwise`). For these it does not matter whether
the elements at a path are tested one by one, by a query inside a condition, or all together along
the longer path.
-/

namespace RecordQuery

open Json

/-- The conditions that ask for some value, and are not satisfied by having none. -/
inductive Condition.Existential : Condition → Prop where
  | equal {operand : Operand} : operand ≠ .null → Existential (.equal operand)
  | present : Existential (.unequal .null)
  | less (operand : Operand) : Existential (.order .less operand)
  | greater (operand : Operand) : Existential (.order .greater operand)
  | atMost {operand : Operand} : operand ≠ .null → Existential (.order .atMost operand)
  | atLeast {operand : Operand} : operand ≠ .null → Existential (.order .atLeast operand)
  | startsWith (operand : Operand) : Existential (.startsWith operand)
  | find (query : Query) : Existential (.find query)
  | any {conditions : List Condition} :
      (∀ c ∈ conditions, Existential c) → Existential (.any conditions)

namespace Check

/-- The check is passed by values together just if one of them passes on its own. -/
def Pointwise (check : Check) : Prop :=
  ∀ values, check.passes values = values.any fun v => check.passes [v]

theorem pointwise_order {op : OrderOperator} {bound : Bound} (h : bound.admits op .null = false) :
    (order op bound).Pointwise := by
  intro values
  rcases values with _ | ⟨v, values⟩
  · simp [passes, h]
  · simp [passes]

theorem passesAny_eq_any (values : List Value) : ∀ {checks : List Check},
    (∀ check ∈ checks, check.Pointwise) →
      passesAny values checks = values.any fun v => passesAny [v] checks
  | [], _ => by simp [passesAny]
  | check :: checks, h => by
    simp only [passesAny]
    rw [h check List.mem_cons_self values,
      passesAny_eq_any values fun c hc => h c (List.mem_cons_of_mem _ hc)]
    induction values with
    | nil => rfl
    | cons v values ih =>
      simp only [List.any_cons, ← ih]
      ac_rfl

theorem Pointwise.passes_flatMap {check : Check} (h : check.Pointwise) (f : Value → List Value)
    (values : List Value) :
    check.passes (values.flatMap f) = values.any fun v => check.passes (f v) := by
  rw [h, List.any_flatMap]
  congr 1
  funext v
  exact (h (f v)).symm

end Check

theorem Bound.admits_null_of_ne {operand : Operand} {op : OrderOperator} {settings : Settings}
    {bound : Bound} (hne : operand ≠ .null) (h : operand.bound (.order op) settings = .ok bound) :
    bound.admits op .null = false := by
  rcases Operand.bound_eq_ok h with ⟨hnull, -⟩ | ⟨_, _, -, -, rfl⟩ | ⟨_, -, -, -, rfl⟩
  · exact absurd hnull hne
  · rfl
  · rfl

namespace Condition

variable {settings : Settings}

theorem Existential.pointwise {c : Condition} (hc : c.Existential) :
    ∀ check, c.compile settings = .ok check → check.Pointwise := by
  induction hc with
  | equal hne =>
    intro check h values
    rcases compile_equal h with ⟨hnull, -⟩ | ⟨v, -, -, -, rfl⟩
    · exact absurd hnull hne
    · simp [Check.passes]
  | present =>
    intro check h values
    rcases compile_unequal h with ⟨-, rfl⟩ | ⟨v, hv, -, hop, -⟩
    · simp [Check.passes]
    · cases hop
      exact absurd rfl hv
  | less operand =>
    intro check h
    obtain ⟨bound, -, rfl⟩ := compile_order h
    exact Check.pointwise_order (by cases bound <;> rfl)
  | greater operand =>
    intro check h
    obtain ⟨bound, -, rfl⟩ := compile_order h
    exact Check.pointwise_order (by cases bound <;> rfl)
  | atMost hne =>
    intro check h
    obtain ⟨bound, hb, rfl⟩ := compile_order h
    exact Check.pointwise_order (Bound.admits_null_of_ne hne hb)
  | atLeast hne =>
    intro check h
    obtain ⟨bound, hb, rfl⟩ := compile_order h
    exact Check.pointwise_order (Bound.admits_null_of_ne hne hb)
  | startsWith operand =>
    intro check h values
    obtain ⟨s, -, rfl⟩ := compile_startsWith h
    simp [Check.passes]
  | find query =>
    intro check h values
    obtain ⟨fields, -, rfl⟩ := compile_find h
    simp [Check.passes]
  | any hcs ih =>
    intro check h values
    obtain ⟨checks, hchecks, rfl⟩ := compile_any h
    simp only [Check.passes]
    exact Check.passesAny_eq_any values (forall_mem_of_compileAll ih hchecks)

end Condition

namespace Query

/-- A query for elements at `a` with a condition at `p` and the condition at `p` behind `a` hold of
the same documents. -/
theorem find_iff_join (settings : Settings) (a p : String) {c : Condition} (hc : c.Existential)
    {check : Check} (h : c.compile settings = .ok check) (doc : Value) :
    ∃ nested joined, Query.compile settings [(a, .find [(p, c)])] = .ok nested ∧
      Query.compile settings [(a ++ "." ++ p, c)] = .ok joined ∧
      (Check.matchesAll doc nested = true ↔ Check.matchesAll doc joined = true) := by
  have hfind : (Condition.find [(p, c)]).compile settings = .ok (.find [(⟨p⟩, check)]) := by
    have hquery := compile_single h p
    rw [Query.compile] at hquery
    rw [Condition.compile, hquery]
    rfl
  refine ⟨_, _, compile_single hfind a, compile_single h _, ?_⟩
  rw [matchesAll_single, matchesAll_single, FieldPath.extract_join,
    (hc.pointwise check h).passes_flatMap, Check.passes]
  simp only [matchesAll_single]

/-- The tag is found through lists in lists and past nulls. -/
theorem find_iff_join_through_lists :
    let settings := Settings.ofNow ⟨0, 0, by decide⟩
    let c : Condition := .any [.equal (.value (.text "x")), .order .greater (.value (.int 5))]
    let doc : Value := .object [("items", .list [.null, .list [.object
      [("tags", .list [.text "y", .list [.text "x"]])]]])]
    c.Existential ∧ ∃ check, c.compile settings = .ok check ∧
      ∃ nested joined, Query.compile settings [("items", .find [("tags", c)])] = .ok nested ∧
        Query.compile settings [("items" ++ "." ++ "tags", c)] = .ok joined ∧
        (Check.matchesAll doc nested = true ↔ Check.matchesAll doc joined = true) := by
  intro settings c doc
  have hc : c.Existential := by
    refine .any fun d hd => ?_
    simp only [List.mem_cons, List.not_mem_nil, or_false] at hd
    rcases hd with rfl | rfl
    · exact .equal nofun
    · exact .greater _
  have hcompile : c.compile settings
      = .ok (.any [.equals (.text "x"), .order .greater (.value (.int 5))]) := by
    with_unfolding_all rfl
  exact ⟨hc, _, hcompile, find_iff_join settings "items" "tags" hc hcompile doc⟩

end Query

end RecordQuery

import RecordQuery.Proofs.Compiling

/-!
# Conditions and their duals

The dual of a condition asks the opposite: equal and unequal are swapped, finding and not finding,
all and any, while operands and the queries for elements stay as they are. A dual compiles to the
dual check (`compile_dual`). A null operand makes checks of their own, one for blank values and one
for a present one, but these are each other's negation as well, and so are all and any of no
conditions. So of a condition that has an opposite for every test, and its dual, exactly one is
passed (`Dualizable.passes_dual`).
-/

namespace RecordQuery

open Json

namespace Condition

mutual

/-- The condition with its tests swapped for the opposite ones, all the way down to queries. Order
tests and starts have no opposite and stay. -/
def dual : Condition → Condition
  | equal operand => unequal operand
  | unequal operand => equal operand
  | order op operand => order op operand
  | all conditions => any (dualAll conditions)
  | any conditions => all (dualAll conditions)
  | startsWith operand => startsWith operand
  | find query => findNone query
  | findNone query => find query

def dualAll : List Condition → List Condition
  | [] => []
  | c :: cs => c.dual :: dualAll cs

end

/-- The conditions with an opposite for every test outside queries. -/
inductive Dualizable : Condition → Prop where
  | equal (operand : Operand) : Dualizable (.equal operand)
  | unequal (operand : Operand) : Dualizable (.unequal operand)
  | find (query : Query) : Dualizable (.find query)
  | findNone (query : Query) : Dualizable (.findNone query)
  | all {conditions : List Condition} :
      (∀ c ∈ conditions, Dualizable c) → Dualizable (.all conditions)
  | any {conditions : List Condition} :
      (∀ c ∈ conditions, Dualizable c) → Dualizable (.any conditions)

mutual

theorem dual_dual : ∀ c : Condition, c.dual.dual = c
  | equal _ | unequal _ | order _ _ | startsWith _ | find _ | findNone _ => rfl
  | all conditions => congrArg all (dualAll_dualAll conditions)
  | any conditions => congrArg any (dualAll_dualAll conditions)

theorem dualAll_dualAll : ∀ conditions : List Condition, dualAll (dualAll conditions) = conditions
  | [] => rfl
  | c :: cs => by simp only [dualAll, dual_dual c, dualAll_dualAll cs]

end

end Condition

namespace Check

mutual

/-- The check with its tests swapped for the opposite ones. -/
def dual : Check → Check
  | blank => present
  | present => blank
  | equals v => differs v
  | differs v => equals v
  | order op bound => order op bound
  | all checks => any (dualAll checks)
  | any checks => all (dualAll checks)
  | startsWith start => startsWith start
  | find fields => findNone fields
  | findNone fields => find fields

def dualAll : List Check → List Check
  | [] => []
  | check :: checks => check.dual :: dualAll checks

end

/-- The dual of the check is passed by the values that do not pass the check. -/
def Complemented (check : Check) : Prop :=
  ∀ values, check.dual.passes values = !check.passes values

theorem passesAny_dualAll (values : List Value) {checks : List Check}
    (h : ∀ check ∈ checks, check.Complemented) :
    passesAny values (dualAll checks) = !passesAll values checks := by
  induction checks with
  | nil => rfl
  | cons check checks ih =>
    obtain ⟨hcheck, hchecks⟩ := List.forall_mem_cons.1 h
    simp [dualAll, passesAny, passesAll, hcheck values, ih hchecks]

theorem passesAll_dualAll (values : List Value) {checks : List Check}
    (h : ∀ check ∈ checks, check.Complemented) :
    passesAll values (dualAll checks) = !passesAny values checks := by
  induction checks with
  | nil => rfl
  | cons check checks ih =>
    obtain ⟨hcheck, hchecks⟩ := List.forall_mem_cons.1 h
    simp [dualAll, passesAny, passesAll, hcheck values, ih hchecks]

end Check

namespace Condition

variable {settings : Settings}

mutual

theorem compile_dual : ∀ {c : Condition} {check : Check},
    c.compile settings = .ok check → c.dual.compile settings = .ok check.dual
  | equal operand, _, h => by
    rcases compile_equal h with ⟨rfl, rfl⟩ | ⟨v, hnull, hscalar, rfl, rfl⟩
    · rfl
    · exact compile_unequal_value hscalar hnull
  | unequal operand, _, h => by
    rcases compile_unequal h with ⟨rfl, rfl⟩ | ⟨v, hnull, hscalar, rfl, rfl⟩
    · rfl
    · exact compile_equal_value hscalar hnull
  | order op operand, _, h => by
    obtain ⟨bound, -, rfl⟩ := compile_order h
    exact h
  | all conditions, _, h => by
    obtain ⟨checks, hchecks, rfl⟩ := compile_all h
    exact bind_pure_eq_ok.2 ⟨_, compileAll_dualAll hchecks, rfl⟩
  | any conditions, _, h => by
    obtain ⟨checks, hchecks, rfl⟩ := compile_any h
    exact bind_pure_eq_ok.2 ⟨_, compileAll_dualAll hchecks, rfl⟩
  | startsWith operand, _, h => by
    obtain ⟨start, -, rfl⟩ := compile_startsWith h
    exact h
  | find query, _, h => by
    obtain ⟨fields, hfields, rfl⟩ := compile_find h
    exact bind_pure_eq_ok.2 ⟨fields, hfields, rfl⟩
  | findNone query, _, h => by
    obtain ⟨fields, hfields, rfl⟩ := compile_findNone h
    exact bind_pure_eq_ok.2 ⟨fields, hfields, rfl⟩

theorem compileAll_dualAll : ∀ {conditions : List Condition} {checks : List Check},
    compileAll settings conditions = .ok checks →
      compileAll settings (dualAll conditions) = .ok (Check.dualAll checks)
  | [], _, h => by
    obtain rfl := compileAll_nil h
    rfl
  | c :: cs, _, h => by
    obtain ⟨check, rest, hc, hrest, rfl⟩ := compileAll_cons h
    exact bind_eq_ok.2 ⟨_, compile_dual hc,
      bind_pure_eq_ok.2 ⟨_, compileAll_dualAll hrest, rfl⟩⟩

end

/-- Turning a condition round twice gives it back, so neither compiles without the other. -/
theorem exists_compile_dual_iff {c : Condition} :
    (∃ check, c.compile settings = .ok check) ↔ ∃ check, c.dual.compile settings = .ok check := by
  constructor
  · rintro ⟨check, h⟩
    exact ⟨check.dual, compile_dual h⟩
  · rintro ⟨check, h⟩
    have hdual := compile_dual h
    rw [dual_dual] at hdual
    exact ⟨check.dual, hdual⟩

/-- The induction is on how the condition is built. -/
theorem Dualizable.complemented {c : Condition} (hc : c.Dualizable) :
    ∀ check, c.compile settings = .ok check → check.Complemented := by
  induction hc with
  | equal operand =>
    intro check h values
    rcases compile_equal h with ⟨-, rfl⟩ | ⟨v, -, -, -, rfl⟩
    · simp [Check.dual, Check.passes, List.not_all_eq_any_not]
    · simp [Check.dual, Check.passes, List.not_any_eq_all_not]
  | unequal operand =>
    intro check h values
    rcases compile_unequal h with ⟨-, rfl⟩ | ⟨v, -, -, -, rfl⟩
    · simp [Check.dual, Check.passes, List.not_any_eq_all_not]
    · simp [Check.dual, Check.passes, List.not_all_eq_any_not]
  | find query =>
    intro check h values
    obtain ⟨fields, -, rfl⟩ := compile_find h
    simp [Check.dual, Check.passes]
  | findNone query =>
    intro check h values
    obtain ⟨fields, -, rfl⟩ := compile_findNone h
    simp [Check.dual, Check.passes]
  | all _ ih =>
    intro check h values
    obtain ⟨checks, hchecks, rfl⟩ := compile_all h
    exact Check.passesAny_dualAll values (forall_mem_of_compileAll ih hchecks)
  | any _ ih =>
    intro check h values
    obtain ⟨checks, hchecks, rfl⟩ := compile_any h
    exact Check.passesAll_dualAll values (forall_mem_of_compileAll ih hchecks)

/-- A condition with an opposite for every test compiles if and only if its dual does. Any values at
a path then pass exactly one of the two, so that of the queries that ask for the one and the other
at a path exactly one matches a document. -/
theorem Dualizable.passes_dual {c : Condition} (hc : c.Dualizable) (settings : Settings) :
    ((∃ check, c.compile settings = .ok check) ↔ ∃ check, c.dual.compile settings = .ok check) ∧
    ∀ check, c.compile settings = .ok check → ∃ opposite,
      c.dual.compile settings = .ok opposite ∧
      (∀ values, opposite.passes values = !check.passes values) ∧
      ∀ path doc, ∃ query oppositeQuery,
        Query.compile settings [(path, c)] = .ok query ∧
        Query.compile settings [(path, c.dual)] = .ok oppositeQuery ∧
        Check.matchesAll doc oppositeQuery = !Check.matchesAll doc query := by
  refine ⟨exists_compile_dual_iff, fun check h => ?_⟩
  have hdual := compile_dual h
  have hpasses := hc.complemented check h
  refine ⟨check.dual, hdual, hpasses, fun path doc => ?_⟩
  refine ⟨_, _, Query.compile_single h path, Query.compile_single hdual path, ?_⟩
  rw [Query.matchesAll_single, Query.matchesAll_single, hpasses]

/-- Next to a null the five is present and is five; where there are no values none is present. -/
theorem Dualizable.passes_dual_nested :
    let settings := Settings.ofNow ⟨0, 0, by decide⟩
    let c : Condition := .all [.isPresent,
      .any [.find [("tag", .startsWith (.value (.text "x")))], .equal (.value (.int 5))]]
    c.Dualizable ∧ ∃ check opposite, c.compile settings = .ok check ∧
      c.dual.compile settings = .ok opposite ∧
      (check.passes [.null, .int 5] = true ∧ opposite.passes [.null, .int 5] = false) ∧
      (check.passes [] = false ∧ opposite.passes [] = true) := by
  intro settings c
  have hc : c.Dualizable := by
    refine .all fun d hd => ?_
    simp only [List.mem_cons, List.not_mem_nil, or_false] at hd
    rcases hd with rfl | rfl
    · exact .unequal _
    · refine .any fun d hd => ?_
      simp only [List.mem_cons, List.not_mem_nil, or_false] at hd
      rcases hd with rfl | rfl
      · exact .find _
      · exact .equal _
  obtain ⟨-, hopposite⟩ := hc.passes_dual settings
  have hcheck : c.compile settings = .ok (.all [.present,
      .any [.find [(⟨"tag"⟩, .startsWith "x")], .equals (.int 5)]]) := by
    with_unfolding_all rfl
  obtain ⟨opposite, hdual, hpasses, -⟩ := hopposite _ hcheck
  refine ⟨hc, _, opposite, hcheck, hdual, ?_, ?_⟩
  · rw [hpasses]
    decide +kernel
  · rw [hpasses]
    decide +kernel

end Condition

end RecordQuery

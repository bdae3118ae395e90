import Mathlib.Data.List.Forall2
import RecordQuery.Statement

/-!
# What compiling gives

For each kind of condition, what its operand was and what its check is if it compiles, and what a
query of one condition compiles to. Nothing else said of checks opens `Condition.compile`.
-/

namespace RecordQuery

open Json

theorem bind_eq_ok {ε β γ : Type} {x : Except ε β} {f : β → Except ε γ} {c : γ} :
    x >>= f = .ok c ↔ ∃ b, x = .ok b ∧ f b = .ok c := by
  rcases x with e | b
  · simp [bind, Except.bind]
  · simp [bind, Except.bind]

theorem bind_pure_eq_ok {ε β γ : Type} {x : Except ε β} {f : β → γ} {c : γ} :
    (do return f (← x)) = .ok c ↔ ∃ b, x = .ok b ∧ c = f b := by
  rw [bind_eq_ok]
  constructor
  · rintro ⟨b, hb, h⟩
    exact ⟨b, hb, (Except.ok.inj h).symm⟩
  · rintro ⟨b, hb, rfl⟩
    exact ⟨b, hb, rfl⟩

theorem forall₂_of_mapM {ε β γ : Type} {f : β → Except ε γ} :
    ∀ {bs : List β} {cs : List γ}, bs.mapM f = .ok cs → List.Forall₂ (fun b c => f b = .ok c) bs cs
  | [], cs, h => by
    cases h
    exact .nil
  | b :: bs, cs, h => by
    rw [List.mapM_cons, bind_eq_ok] at h
    obtain ⟨c, hc, h⟩ := h
    obtain ⟨rest, hrest, rfl⟩ := bind_pure_eq_ok.1 h
    exact .cons hc (forall₂_of_mapM hrest)

theorem exists_of_mem_of_forall₂ {β γ : Type} {R : β → γ → Prop} {c : γ} :
    ∀ {bs : List β} {cs : List γ}, List.Forall₂ R bs cs → c ∈ cs → ∃ b ∈ bs, R b c
  | _, _, .cons hb hbs, h => by
    rcases List.mem_cons.1 h with rfl | h
    · exact ⟨_, List.mem_cons_self, hb⟩
    · obtain ⟨b, hmem, hb⟩ := exists_of_mem_of_forall₂ hbs h
      exact ⟨b, List.mem_cons_of_mem _ hmem, hb⟩

namespace Operand

theorem scalar_eq_ok {op : Operator} {operand : Operand} {v : Value}
    (h : operand.scalar op = .ok v) : operand = .value v ∧ v.isScalar = true := by
  rcases operand with days | w
  · cases h
  · rw [scalar] at h
    split_ifs at h with hw
    cases h
    exact ⟨rfl, hw⟩

/-- What a scalar operand compiles to, where null has a check of its own. -/
theorem scalar_cases {op : Operator} {operand : Operand} {null check : Check} {f : Value → Check}
    (h : (do match ← operand.scalar op with
      | .null => .ok null
      | v => .ok (f v)) = .ok check) :
    (operand = .null ∧ check = null) ∨
      ∃ v, v ≠ .null ∧ v.isScalar = true ∧ operand = .value v ∧ check = f v := by
  rw [bind_eq_ok] at h
  obtain ⟨v, hv, h⟩ := h
  obtain ⟨rfl, hscalar⟩ := scalar_eq_ok hv
  split at h
  · cases h
    exact .inl ⟨rfl, rfl⟩
  · next hnull =>
    cases h
    exact .inr ⟨v, hnull, hscalar, rfl, rfl⟩

theorem start_eq_ok {op : Operator} {operand : Operand} {s : String}
    (h : operand.start op = .ok s) : operand = .value (.text s) := by
  rw [start, bind_eq_ok] at h
  obtain ⟨v, hv, h⟩ := h
  obtain ⟨rfl, -⟩ := scalar_eq_ok hv
  split at h
  · cases h
    rfl
  · cases h

theorem bound_eq_ok {op : Operator} {settings : Settings} {operand : Operand} {bound : Bound}
    (h : operand.bound op settings = .ok bound) :
    (operand = .null ∧ bound = .absent) ∨
      (∃ days t, operand = .daysAgo days ∧ settings.now.daysBefore? days = some t ∧
        bound = .day t.day) ∨
      ∃ v, v ≠ .null ∧ v.isScalar = true ∧ operand = .value v ∧ bound = .value v := by
  rcases operand with days | v
  · simp only [Operand.bound] at h
    split at h
    · next t ht =>
      cases h
      exact .inr (.inl ⟨days, t, rfl, ht, rfl⟩)
    · cases h
  · by_cases hv : v = .null
    · subst hv
      cases h
      exact .inl ⟨rfl, rfl⟩
    · rw [Operand.bound] at h
      rcases hs : (Operand.value v).scalar op with fault | w <;> rw [hs] at h
      · cases h
      · cases h
        obtain ⟨hw, hscalar⟩ := scalar_eq_ok hs
        cases hw
        exact .inr (.inr ⟨v, hv, hscalar, rfl, rfl⟩)
      · exact fun h => hv h

end Operand

namespace Condition

variable {settings : Settings} {check : Check}

theorem compile_equal {operand : Operand} (h : (equal operand).compile settings = .ok check) :
    (operand = .null ∧ check = .blank) ∨
      ∃ v, v ≠ .null ∧ v.isScalar = true ∧ operand = .value v ∧ check = .equals v := by
  exact Operand.scalar_cases h

theorem compile_unequal {operand : Operand} (h : (unequal operand).compile settings = .ok check) :
    (operand = .null ∧ check = .present) ∨
      ∃ v, v ≠ .null ∧ v.isScalar = true ∧ operand = .value v ∧ check = .differs v := by
  exact Operand.scalar_cases h

theorem compile_equal_value {w : Value} (hw : w.isScalar = true) (hnull : w ≠ .null) :
    (equal (.value w)).compile settings = .ok (.equals w) := by
  cases w with
  | null => exact absurd rfl hnull
  | boolean | number | text => rfl
  | list | object => cases hw

theorem compile_unequal_value {w : Value} (hw : w.isScalar = true) (hnull : w ≠ .null) :
    (unequal (.value w)).compile settings = .ok (.differs w) := by
  cases w with
  | null => exact absurd rfl hnull
  | boolean | number | text => rfl
  | list | object => cases hw

theorem compile_order {op : OrderOperator} {operand : Operand}
    (h : (order op operand).compile settings = .ok check) :
    ∃ bound, operand.bound (.order op) settings = .ok bound ∧ check = .order op bound := by
  exact bind_pure_eq_ok.1 h

theorem compile_all {conditions : List Condition}
    (h : (all conditions).compile settings = .ok check) :
    ∃ checks, compileAll settings conditions = .ok checks ∧ check = .all checks := by
  exact bind_pure_eq_ok.1 h

theorem compile_any {conditions : List Condition}
    (h : (any conditions).compile settings = .ok check) :
    ∃ checks, compileAll settings conditions = .ok checks ∧ check = .any checks := by
  exact bind_pure_eq_ok.1 h

theorem compile_startsWith {operand : Operand}
    (h : (startsWith operand).compile settings = .ok check) :
    ∃ s, operand = .value (.text s) ∧ check = .startsWith s := by
  obtain ⟨s, hs, rfl⟩ := bind_pure_eq_ok.1 h
  exact ⟨s, Operand.start_eq_ok hs, rfl⟩

theorem compile_find {query : Query} (h : (find query).compile settings = .ok check) :
    ∃ fields, compileQuery settings query = .ok fields ∧ check = .find fields := by
  exact bind_pure_eq_ok.1 h

theorem compile_findNone {query : Query} (h : (findNone query).compile settings = .ok check) :
    ∃ fields, compileQuery settings query = .ok fields ∧ check = .findNone fields := by
  exact bind_pure_eq_ok.1 h

theorem compileAll_nil {checks : List Check} (h : compileAll settings [] = .ok checks) :
    checks = [] := by
  cases h
  rfl

theorem compileAll_cons {condition : Condition} {conditions : List Condition}
    {checks : List Check} (h : compileAll settings (condition :: conditions) = .ok checks) :
    ∃ check rest, condition.compile settings = .ok check ∧
      compileAll settings conditions = .ok rest ∧ checks = check :: rest := by
  obtain ⟨check, hc, h⟩ := bind_eq_ok.1 h
  obtain ⟨rest, hr, rfl⟩ := bind_pure_eq_ok.1 h
  exact ⟨check, rest, hc, hr, rfl⟩

/-- What holds of the checks of all conditions that compile holds of the checks of a list. -/
theorem forall_mem_of_compileAll {P : Check → Prop} : ∀ {conditions : List Condition}
    {checks : List Check}, (∀ c ∈ conditions, ∀ check, c.compile settings = .ok check → P check) →
      compileAll settings conditions = .ok checks → ∀ check ∈ checks, P check
  | [], _, _, h => by
    rw [compileAll_nil h]
    exact fun _ hmem => absurd hmem List.not_mem_nil
  | c :: cs, _, hcs, h => by
    obtain ⟨check, rest, hc, hrest, rfl⟩ := compileAll_cons h
    have ih := forall_mem_of_compileAll (fun d hd => hcs d (List.mem_cons_of_mem _ hd)) hrest
    exact List.forall_mem_cons.2 ⟨hcs c List.mem_cons_self check hc, ih⟩

theorem compileQuery_nil {fields : QueryCheck} (h : compileQuery settings [] = .ok fields) :
    fields = [] := by
  cases h
  rfl

theorem compileQuery_cons {path : String} {condition : Condition} {query : Query}
    {fields : QueryCheck} (h : compileQuery settings ((path, condition) :: query) = .ok fields) :
    ∃ check rest, condition.compile settings = .ok check ∧
      compileQuery settings query = .ok rest ∧ fields = (⟨path⟩, check) :: rest := by
  obtain ⟨check, hc, h⟩ := bind_eq_ok.1 h
  obtain ⟨rest, hr, rfl⟩ := bind_pure_eq_ok.1 h
  exact ⟨check, rest, hc, hr, rfl⟩

end Condition

namespace Query

variable {settings : Settings} {c : Condition} {check : Check}

theorem compile_single (h : c.compile settings = .ok check) (path : String) :
    Query.compile settings [(path, c)] = .ok [(⟨path⟩, check)] := by
  rw [Query.compile, Condition.compileQuery, h]
  rfl

theorem matchesAll_single (path : FieldPath) (check : Check) (doc : Value) :
    Check.matchesAll doc [(path, check)] = check.passes (path.extract doc) := by
  simp [Check.matchesAll]

end Query

end RecordQuery

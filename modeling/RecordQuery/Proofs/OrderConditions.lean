import RecordQuery.Proofs.Meaning
import RecordQuery.Proofs.SortOrder

/-!
# The four order conditions agree

An operand is a bound for all four order operators or for none. Against a value it has one order
or no order, and the operators are all answered from that (`Operand.admits_eq_order?`): none of them
holds where there is no order, and otherwise the value is less, greater or level, which is at most
and at least together. A value that is strictly equal to a scalar is level with it
(`Value.compare?_of_strictEq`), so that equality implies both (`Condition.order_consistent`).
-/

namespace RecordQuery

open Json

/-- Of less, greater and level exactly one holds, where level is at most and at least together. At
most is not greater, and at least is not less. -/
def OrderOperator.Consistent (holds : OrderOperator → Bool) : Prop :=
  [holds less, holds greater, holds atMost && holds atLeast].count true = 1 ∧
    holds atMost = !holds greater ∧ holds atLeast = !holds less

theorem OrderOperator.consistent_accepts (o : Ordering) : Consistent fun op => op.accepts o := by
  cases o <;> exact ⟨rfl, rfl, rfl⟩

/-! ## Bounds -/

namespace Operand

variable {settings : Settings} {operand : Operand} {bound : Bound}

/-- A scalar, or a relative date whose day can be reached. -/
def IsBound (settings : Settings) : Operand → Prop
  | value v => v.isScalar = true
  | daysAgo days => ∃ t, settings.now.daysBefore? days = some t

theorem exists_bound_iff (op : Operator) :
    (∃ bound, operand.bound op settings = .ok bound) ↔ operand.IsBound settings := by
  cases operand with
  | daysAgo days =>
    rw [Operand.bound, IsBound]
    rcases settings.now.daysBefore? days with _ | t
    · simp
    · simp
  | value v =>
    cases v with
    | null | boolean | number | text => exact iff_of_true ⟨_, rfl⟩ rfl
    | list | object =>
      refine iff_of_false ?_ (fun h => by cases h)
      rintro ⟨_, h⟩
      cases h

/-- Only a fault tells for which operator the operand was to be a bound. -/
theorem bound_of_bound {op : Operator} (h : operand.bound op settings = .ok bound)
    (op' : Operator) : operand.bound op' settings = .ok bound := by
  cases operand with
  | daysAgo days =>
    rw [Operand.bound] at h ⊢
    revert h
    rcases settings.now.daysBefore? days with _ | t
    · intro h
      cases h
    · exact id
  | value v =>
    cases v with
    | null | boolean | number | text => exact h
    | list | object => cases h

theorem admits_eq_order? {op : OrderOperator} (h : operand.bound (.order op) settings = .ok bound)
    (v : Value) :
    bound.admits op v = ((operand.order? settings v).map op.accepts).getD false := by
  rw [Bool.eq_iff_iff, admits_iff h, OrderedTo]
  rcases operand.order? settings v with _ | o
  · simp
  · simp [OrderOperator.accepts_iff]

theorem consistent_of_bound {op : Operator} (h : operand.bound op settings = .ok bound)
    (v : Value) : (∀ op, bound.admits op v = false) ∨
      OrderOperator.Consistent fun op => bound.admits op v := by
  have hadmits : ∀ op,
      bound.admits op v = ((operand.order? settings v).map op.accepts).getD false :=
    fun op => admits_eq_order? (bound_of_bound h _) v
  simp only [hadmits]
  rcases operand.order? settings v with _ | o
  · exact .inl fun _ => rfl
  · exact .inr (OrderOperator.consistent_accepts o)

end Operand

/-! ## Equality -/

namespace Json.Value

variable {v w : Value}

/-- What is strictly equal to a scalar is the same, but for numbers. -/
theorem eq_or_numbers_of_strictEq (hw : w.isScalar = true) (h : v.strictEq w = true) :
    v = w ∨ ∃ m n, v = number m ∧ w = number n ∧ m.compare n = .eq := by
  cases w with
  | null =>
    cases v with
    | null => exact .inl rfl
    | boolean | number | text | list | object => cases h
  | boolean c =>
    cases v with
    | boolean b => exact .inl (congrArg boolean (beq_iff_eq.1 h))
    | null | number | text | list | object => cases h
  | number n =>
    cases v with
    | number m => exact .inr ⟨m, n, rfl, rfl, beq_iff_eq.1 h⟩
    | null | boolean | text | list | object => cases h
  | text t =>
    cases v with
    | text s => exact .inl (congrArg text (beq_iff_eq.1 h))
    | null | boolean | number | list | object => cases h
  | list | object => cases hw

theorem compare?_self (hw : w.isScalar = true) (hnull : w ≠ null) : w.compare? w = some .eq := by
  cases w with
  | null => exact absurd rfl hnull
  | boolean b => exact congrArg some Std.ReflOrd.compare_self
  | number n =>
    rcases n with ⟨i, _⟩ | d
    · exact congrArg some (Std.ReflOrd.compare_self (a := i))
    · exact congrArg some (Std.ReflOrd.compare_self (a := d.scaled))
  | text s =>
    rw [compare?, compareInstants?]
    rcases (text s).instant? with _ | t
    · exact congrArg some Std.ReflOrd.compare_self
    · exact congrArg some (Std.ReflCmp.compare_self (a := t))
  | list | object => cases hw

theorem isBlank_of_strictEq (hw : w.isScalar = true) (h : v.strictEq w = true) :
    v.isBlank = w.isBlank := by
  rcases eq_or_numbers_of_strictEq hw h with rfl | ⟨m, n, rfl, rfl, -⟩
  · rfl
  · rfl

/-- What is strictly equal to a scalar is level with it. -/
theorem compare?_of_strictEq (hw : w.isScalar = true) (hnull : w ≠ null)
    (h : v.strictEq w = true) : v.compare? w = some .eq := by
  rcases eq_or_numbers_of_strictEq hw h with rfl | ⟨m, n, rfl, rfl, hlevel⟩
  · exact compare?_self hw hnull
  · exact congrArg some hlevel

end Json.Value

/-! ## Order conditions -/

namespace Check

variable {op : OrderOperator} {bound : Bound}

theorem passes_order_iff_exists {values : List Value} (h : values ≠ []) :
    (order op bound).passes values = true ↔ ∃ v ∈ values, (order op bound).passes [v] = true := by
  simp only [passes_order_singleton]
  rw [passes, if_neg (by simpa using h), List.any_eq_true]

theorem passes_order_nil : (order op bound).passes [] = (order op bound).passes [.null] := by
  rw [passes_order_singleton, passes]
  rfl

end Check

namespace Condition

variable {settings : Settings} {operand : Operand}

theorem exists_compile_order_iff (op : OrderOperator) :
    (∃ check, (order op operand).compile settings = .ok check) ↔ operand.IsBound settings := by
  rw [← Operand.exists_bound_iff (.order op)]
  constructor
  · rintro ⟨check, h⟩
    obtain ⟨bound, hbound, -⟩ := compile_order h
    exact ⟨bound, hbound⟩
  · rintro ⟨bound, hbound⟩
    exact ⟨.order op bound, bind_pure_eq_ok.2 ⟨bound, hbound, rfl⟩⟩

theorem compile_order_of_bound {op : Operator} {bound : Bound}
    (h : operand.bound op settings = .ok bound) (op' : OrderOperator) :
    (order op' operand).compile settings = .ok (.order op' bound) :=
  bind_pure_eq_ok.2 ⟨bound, Operand.bound_of_bound h _, rfl⟩

theorem ne_null_of_isBlank {w : Value} (h : w.isBlank = false) : w ≠ .null := by
  rintro rfl
  cases h

theorem passes_of_passes_equals {w : Value} (hw : w.isScalar = true) (hblank : w.isBlank = false)
    {op : OrderOperator} (hop : op.accepts .eq = true) {check : Check}
    (hcheck : (order op (.value w)).compile settings = .ok check) {values : List Value}
    (h : (Check.equals w).passes values = true) : check.passes values = true := by
  have hnull := ne_null_of_isBlank hblank
  rw [Check.passes, List.any_eq_true] at h
  obtain ⟨v, hmem, hstrict⟩ := h
  have hpresent : ¬ v.isBlank = true := by
    rw [Value.isBlank_of_strictEq hw hstrict, hblank]
    exact Bool.false_ne_true
  rw [passes_order hcheck]
  refine .inl ⟨v, hmem, .eq, ?_, (op.accepts_iff .eq).1 hop⟩
  rw [Operand.order?, if_neg hpresent]
  · exact Value.compare?_of_strictEq hw hnull hstrict
  · exact hnull

/-- An order condition compiles with null, with any other scalar and with a relative date that can
be reached, whatever the operator. Of one value, none of the four then holds, or they are
consistent. Of several values each of them holds if it holds of one, and of none if it holds of
null. Values of which one is equal to a scalar that is not blank are at most and at least this
scalar. -/
theorem order_consistent (settings : Settings) :
    (∀ operand : Operand,
      ((∃ check, (order .less operand).compile settings = .ok check) ↔ operand.IsBound settings) ∧
      ∀ less, (order .less operand).compile settings = .ok less →
        ∃ check : OrderOperator → Check,
          (∀ op, (order op operand).compile settings = .ok (check op)) ∧
          (∀ v, (∀ op, (check op).passes [v] = false) ∨
            OrderOperator.Consistent fun op => (check op).passes [v]) ∧
          (∀ op values, values ≠ [] → ((check op).passes values = true ↔
            ∃ v ∈ values, (check op).passes [v] = true)) ∧
          ∀ op, (check op).passes [] = (check op).passes [.null]) ∧
    ∀ w : Value, w.isScalar = true → w.isBlank = false →
      ∃ equals atMost atLeast, (equal (.value w)).compile settings = .ok equals ∧
        (order .atMost (.value w)).compile settings = .ok atMost ∧
        (order .atLeast (.value w)).compile settings = .ok atLeast ∧
        ∀ values, equals.passes values = true →
          atMost.passes values = true ∧ atLeast.passes values = true := by
  refine ⟨fun operand => ⟨exists_compile_order_iff .less, fun less h => ?_⟩, fun w hw hblank => ?_⟩
  · obtain ⟨bound, hbound, -⟩ := compile_order h
    refine ⟨fun op => .order op bound, compile_order_of_bound hbound, fun v => ?_,
      fun op values => Check.passes_order_iff_exists, fun op => Check.passes_order_nil⟩
    simp only [Check.passes_order_singleton]
    exact Operand.consistent_of_bound hbound v
  · have hbound : (Operand.value w).IsBound settings := hw
    obtain ⟨atMost, hmost⟩ := (exists_compile_order_iff .atMost).2 hbound
    obtain ⟨atLeast, hleast⟩ := (exists_compile_order_iff .atLeast).2 hbound
    refine ⟨.equals w, atMost, atLeast, compile_equal_value hw (ne_null_of_isBlank hblank), hmost,
      hleast, fun values h => ⟨?_, ?_⟩⟩
    · exact passes_of_passes_equals hw hblank rfl hmost h
    · exact passes_of_passes_equals hw hblank rfl hleast h

/-- Two dates of one instant are level but not equal. -/
theorem order_consistent_same_instant :
    let settings := Settings.ofNow ⟨0, 0, by decide⟩
    let date : Value := .text "2024-01-01T23:00:00Z"
    let same : Value := .text "2024-01-02T00:00:00+01:00"
    (∃ check : OrderOperator → Check,
      (∀ op, (order op (.value date)).compile settings = .ok (check op)) ∧
      OrderOperator.Consistent (fun op => (check op).passes [same]) ∧
      (check .atMost).passes [.int 5, same] = true) ∧
    ∃ equals atMost atLeast, (equal (.value date)).compile settings = .ok equals ∧
      (order .atMost (.value date)).compile settings = .ok atMost ∧
      (order .atLeast (.value date)).compile settings = .ok atLeast ∧
      equals.passes [same] = false ∧ equals.passes [.int 5, date] = true ∧
      atMost.passes [.int 5, date] = true ∧ atLeast.passes [.int 5, date] = true := by
  intro settings date same
  obtain ⟨horder, hequal⟩ := order_consistent settings
  obtain ⟨check, hcheck, hvalue, hvalues, -⟩ :=
    (horder (.value date)).2 (.order .less (.value date)) rfl
  have hmost : (check .atMost).passes [same] = true := by
    have hatMost : Check.order .atMost (.value date) = check .atMost :=
      Except.ok.inj (hcheck .atMost)
    rw [← hatMost]
    decide +kernel
  obtain ⟨equals, atMost, atLeast, hequals, hatMost, hatLeast, himplies⟩ := hequal date rfl rfl
  obtain rfl : Check.equals date = equals := Except.ok.inj hequals
  have hpasses : (Check.equals date).passes [.int 5, date] = true := by decide +kernel
  refine ⟨⟨check, hcheck, (hvalue same).resolve_left fun hnone => ?_, ?_⟩, .equals date, atMost,
    atLeast, rfl, hatMost, hatLeast, by decide +kernel, hpasses, himplies _ hpasses⟩
  · exact absurd hmost (hnone .atMost ▸ Bool.false_ne_true)
  · exact (hvalues .atMost [.int 5, same] (by simp)).2 ⟨same, by simp, hmost⟩

end Condition

end RecordQuery

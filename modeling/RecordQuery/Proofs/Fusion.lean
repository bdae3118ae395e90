import Mathlib.Logic.Relation
import RecordQuery.Filter.Basic
import RecordQuery.Proofs.Composition

/-!
# Fusing filter steps

What steps make of any items, or the fault they do not compile with, is the effect of the steps. The
effect of two parts is put together from the effects of the parts (`Pipeline.effect_append`), so
steps of one effect can stand for each other inside a pipeline. Two filter steps next to each other
have the effect of one with the statements of both (`Pipeline.effect_filter_filter`), and an unknown
step has none.
-/

namespace RecordQuery

variable {α : Type} [Record α]

/-! ## Two lists of statements -/

theorem Statement.compileAll_append (settings : Settings) (ss ts : List Statement) :
    compileAll settings (ss ++ ts)
      = (do return (← compileAll settings ss) ++ (← compileAll settings ts)) := by
  rw [compileAll, List.mapM_append]
  rfl

theorem StatementChecks.keep_append (cs ds : StatementChecks) (records : List α) :
    keep (cs ++ ds) records = keep cs (keep ds records) := by
  rw [keep, keep, keep, List.filter_filter]
  simp only [accepts, List.all_append]

theorem StatementChecks.keep_nil (records : List α) : keep [] records = records :=
  List.filter_true records

namespace Step

/-- The statements of a filter step; other steps have none. -/
def statements : Step → List Statement
  | filter statements => statements
  | buckets _ | unknown => []

end Step

namespace Stage

theorem run_keep_append (settings : Settings) (cs ds : StatementChecks) (items : Items α) :
    (keep (cs ++ ds)).run settings items
      = (do (keep cs).run settings (← (keep ds).run settings items)) := by
  cases items with
  | records rs | buckets bs =>
    simp only [run, StatementChecks.keep_append]
    rfl

theorem run_keep_nil (settings : Settings) (items : Items α) :
    (keep []).run settings items = .ok items := by
  cases items with
  | records rs | buckets bs =>
    simp only [run, StatementChecks.keep_nil]
    rfl

end Stage

namespace Pipeline

/-- What steps make of any items, unless one of them does not compile. -/
def effect (α : Type) [Record α] (settings : Settings) (steps : List Step) :
    Except Fault (Items α → Except Fault (Items α)) := do
  return Stage.runAll settings (← compile ⟨steps⟩ settings)

variable {settings : Settings}

theorem run_eq_effect (settings : Settings) (steps : List Step) (records : List α) :
    run ⟨steps⟩ settings records = (do (← effect α settings steps) (.records records)) := by
  rw [run, effect]
  cases compile ⟨steps⟩ settings <;> rfl

/-- The later steps compile after the earlier ones, but run before them. -/
theorem effect_append (a b : List Step) :
    effect α settings (a ++ b) = (do
      let f ← effect α settings a
      let g ← effect α settings b
      return fun items => g items >>= f) := by
  have happend : compile ⟨a ++ b⟩ settings
      = (do return (← compile ⟨a⟩ settings) ++ (← compile ⟨b⟩ settings)) := by
    rw [compile, List.mapM_append]
    rfl
  rw [effect, effect, effect, happend]
  rcases compile ⟨a⟩ settings with fault | stages
  · rfl
  rcases compile ⟨b⟩ settings with fault | others
  · rfl
  · exact congrArg Except.ok (funext fun items => Stage.runAll_append stages others items)

/-- Steps with one effect can stand for each other among any steps. -/
theorem effect_congr {b c : List Step} (h : effect α settings b = effect α settings c)
    (a d : List Step) : effect α settings (a ++ (b ++ d)) = effect α settings (a ++ (c ++ d)) := by
  rw [effect_append, effect_append b, h, ← effect_append c, ← effect_append]

theorem effect_filter (statements : List Statement) :
    effect α settings [.filter statements]
      = (do return (Stage.keep (← Statement.compileAll settings statements)).run settings) := by
  rw [effect, compile, List.mapM_cons, List.mapM_nil, Step.compile]
  cases Statement.compileAll settings statements <;> rfl

theorem effect_filter_nil : effect α settings [.filter []] = effect α settings [] :=
  (effect_filter []).trans (congrArg Except.ok (funext (Stage.run_keep_nil settings)))

/-- Of two malformed statements, the one of the earlier step comes first among the statements of
both as well. -/
theorem effect_filter_filter (ss ts : List Statement) :
    effect α settings [.filter ss, .filter ts] = effect α settings [.filter (ss ++ ts)] := by
  rw [← List.singleton_append, effect_append, effect_filter, effect_filter, effect_filter,
    Statement.compileAll_append]
  rcases Statement.compileAll settings ss with fault | cs
  · rfl
  rcases Statement.compileAll settings ts with fault | ds
  · rfl
  · exact congrArg Except.ok (funext fun items => (Stage.run_keep_append settings cs ds items).symm)

theorem effect_unknown : effect α settings [.unknown] = effect α settings [] := rfl

/-! ## Filters only -/

/-- Steps that do not bucket have the effect of one filter step. -/
theorem effect_of_filters : ∀ {steps : List Step}, (∀ step ∈ steps, step.isBuckets = false) →
    effect α settings steps = effect α settings [.filter (steps.flatMap Step.statements)]
  | [], _ => effect_filter_nil.symm
  | step :: steps, h => by
    obtain ⟨hstep, hsteps⟩ := List.forall_mem_cons.1 h
    rw [← List.singleton_append, effect_append, effect_of_filters hsteps, ← effect_append,
      List.flatMap_append, List.flatMap_singleton]
    cases step with
    | filter ss => exact effect_filter_filter ss _
    | buckets grouping => cases hstep
    | unknown => exact effect_congr effect_unknown [] _

theorem run_filter (settings : Settings) (statements : List Statement) (records : List α) :
    run ⟨[.filter statements]⟩ settings records
      = (Filter.apply { statements } settings records).map .records := by
  rw [run_eq_effect, effect_filter, Filter.apply, Filter.compile]
  cases Statement.compileAll settings statements <;> rfl

/-! ## Any steps -/

/-- A pipeline with one unknown step less, or with two adjacent filter steps as one. -/
inductive Simplifies : Pipeline → Pipeline → Prop
  | drop (a b : List Step) : Simplifies ⟨a ++ .unknown :: b⟩ ⟨a ++ b⟩
  | fuse (a : List Step) (ss ts : List Statement) (b : List Step) :
      Simplifies ⟨a ++ .filter ss :: .filter ts :: b⟩ ⟨a ++ .filter (ss ++ ts) :: b⟩

theorem Simplifies.effect_eq {p q : Pipeline} (h : Simplifies p q) :
    effect α settings p.steps = effect α settings q.steps := by
  cases h with
  | drop a b => exact effect_congr effect_unknown a b
  | fuse a ss ts b => exact effect_congr (effect_filter_filter ss ts) a b

theorem run_eq_of_simplifies {p q : Pipeline} (h : Relation.ReflTransGen Simplifies p q)
    (settings : Settings) (records : List α) : p.run settings records = q.run settings records := by
  induction h with
  | refl => rfl
  | tail _ hstep ih => rw [ih, run_eq_effect, hstep.effect_eq, run_eq_effect]

/-- A pipeline without bucket steps does what one filter with all its statements does, be it an
error. In any pipeline, unknown steps can be dropped and adjacent filter steps fused. -/
theorem run_eq_fused (settings : Settings) (records : List α) :
    (∀ steps : List Step, (∀ step ∈ steps, step.isBuckets = false) →
      run ⟨steps⟩ settings records
        = (Filter.apply { statements := steps.flatMap Step.statements } settings records).map
          .records) ∧
    ∀ p q : Pipeline, Relation.ReflTransGen Simplifies p q →
      p.run settings records = q.run settings records := by
  refine ⟨fun steps h => ?_, fun p q h => run_eq_of_simplifies h settings records⟩
  rw [← run_filter, run_eq_effect, effect_of_filters h, run_eq_effect]

/-- The first of two malformed statements makes the error, and filter steps come together before a
bucket step. -/
theorem run_eq_fused_malformed :
    let settings := Settings.ofNow ⟨0, 0, by decide⟩
    let active : Statement := [[("active", .equal (.value (.boolean true)))]]
    let few : Statement := [[("value", .order .less (.value (.int 2)))]]
    let textless : Statement := [[("a", .startsWith .null)]]
    let listed : Statement := [[("a", .equal (.value (.list [])))]]
    let steps : List Step := [.filter [active, textless], .unknown, .filter [listed]]
    let teams : Step := .buckets ⟨{ field := ⟨"team"⟩ }, []⟩
    let p : Pipeline := ⟨[.filter [few], .unknown, .filter [active], teams]⟩
    let q : Pipeline := ⟨[.filter [few, active], teams]⟩
    (∀ step ∈ steps, step.isBuckets = false) ∧ Relation.ReflTransGen Simplifies p q ∧
      ∀ records : List Json.Value,
        run ⟨steps⟩ settings records = .error (.invalidOperand .startsWith .text "null") ∧
        p.run settings records = q.run settings records := by
  intro settings active few textless listed steps teams p q
  have hfilters : ∀ step ∈ steps, step.isBuckets = false := by
    simp [steps, Step.isBuckets]
  have hsimplifies : Relation.ReflTransGen Simplifies p q :=
    .tail (.single (.drop [.filter [few]] [.filter [active], teams])) (.fuse [] [few] [active] [teams])
  refine ⟨hfilters, hsimplifies, fun records => ?_⟩
  obtain ⟨hsame, hfused⟩ := run_eq_fused settings records
  exact ⟨hsame steps hfilters, hfused p q hsimplifies⟩

end Pipeline

end RecordQuery

import RecordQuery.Proofs.Composition
import RecordQuery.Proofs.FirstFault

/-!
# Faults of pipelines

A pipeline fails before any step runs or not at all (`Pipeline.fault_iff_first_malformed_step`).
Steps are compiled from the first to the last although they run from the last to the first, so the
fault is that of the first malformed step. A bucket step is validated once more when it runs, but
then it has been found valid (`Stage.exists_run`).
-/

namespace RecordQuery

/-! ## Malformed steps -/

/-- The interval of a level, if it is not a positive finite width. -/
def Level.badWidth? (level : Level) : Option Extended :=
  level.interval.filter fun width => !width.isPositiveFinite

namespace Step

/-- Whether the statements of a filter step do not compile or a level of a bucket step has a bad
width. -/
def isMalformed (settings : Settings) : Step → Bool
  | filter statements => !(Statement.compileAll settings statements).isOk
  | buckets grouping => grouping.levels.any fun level => level.badWidth?.isSome
  | unknown => false

/-- The fault of a malformed step. For a bucket step it is that of the outermost bad width. -/
def HasFault (settings : Settings) : Step → Fault → Prop
  | filter statements, fault => Statement.compileAll settings statements = .error fault
  | buckets grouping, fault => ∃ width,
      grouping.levels.findSome? Level.badWidth? = some width ∧ fault = .invalidInterval width
  | unknown, _ => False

end Step

/-! ## Compiling -/

theorem Level.faultOf?_validate (level : Level) :
    faultOf? level.validate = level.badWidth?.map .invalidInterval := by
  rw [validate, badWidth?]
  rcases level.interval with _ | width
  · rfl
  · simp only [Option.filter_some]
    cases width.isPositiveFinite <;> rfl

theorem Grouping.faultOf?_validate (grouping : Grouping) :
    faultOf? grouping.validate
      = (grouping.levels.findSome? Level.badWidth?).map .invalidInterval := by
  rw [validate, faultOf?_forM, List.map_findSome?]
  exact congrArg (grouping.levels.findSome? ·) (funext Level.faultOf?_validate)

namespace Step

variable {settings : Settings}

theorem faultOf?_compile_buckets (grouping : Grouping) :
    faultOf? ((buckets grouping).compile settings) = faultOf? grouping.validate :=
  faultOf?_bind (fun _ => rfl) grouping.validate

theorem isSome_faultOf?_compile (step : Step) :
    (faultOf? (step.compile settings)).isSome = step.isMalformed settings := by
  cases step with
  | filter statements =>
    rw [compile, faultOf?_bind_pure, isMalformed]
    cases Statement.compileAll settings statements <;> rfl
  | buckets grouping =>
    rw [faultOf?_compile_buckets, Grouping.faultOf?_validate, Option.isSome_map, isMalformed,
      List.isSome_findSome?]
  | unknown => rfl

theorem faultOf?_compile_eq_some {step : Step} {fault : Fault} :
    faultOf? (step.compile settings) = some fault ↔ step.HasFault settings fault := by
  cases step with
  | filter statements => rw [compile, faultOf?_bind_pure, faultOf?_eq_some, HasFault]
  | buckets grouping =>
    rw [faultOf?_compile_buckets, Grouping.faultOf?_validate, Option.map_eq_some_iff, HasFault]
    simp only [eq_comm]
  | unknown => simp [compile, HasFault, faultOf?, pure, Except.pure]

end Step

/-! ## Running -/

namespace Stage

variable {α : Type} [Record α] {settings : Settings}

/-- A stage of a step that compiles has no error, whatever it is run on. -/
theorem exists_run {step : Step} {stage : Stage} (h : step.compile settings = .ok stage)
    (items : Items α) : ∃ out, stage.run settings items = .ok out := by
  cases items with
  | records rs =>
    obtain ⟨out, hout, -⟩ := run_records h rs
    exact ⟨out, hout⟩
  | buckets bs =>
    obtain ⟨cs, hcs⟩ := run_buckets (α := α) h bs
    exact ⟨_, hcs⟩

end Stage

namespace Pipeline

variable {α : Type} [Record α]

theorem faultOf?_compile (pipeline : Pipeline) (settings : Settings) :
    faultOf? (pipeline.compile settings)
      = pipeline.steps.findSome? fun step => faultOf? (step.compile settings) :=
  faultOf?_mapM _ _

theorem faultOf?_run (pipeline : Pipeline) (settings : Settings) (records : List α) :
    faultOf? (pipeline.run settings records) = faultOf? (pipeline.compile settings) := by
  rcases h : pipeline.compile settings with fault | stages
  · rw [run, h]
    rfl
  · obtain ⟨out, hout, -⟩ := Stage.runAll_records (forall₂_of_mapM h) records
    rw [run_of_compile h, hout]
    rfl

/-- A pipeline has a fault just if one of its steps is malformed, and then that of the first one,
whatever it is run on. Once all steps compile, no stage has a fault on any items. -/
theorem fault_iff_first_malformed_step (pipeline : Pipeline) (settings : Settings) :
    (∀ (records : List α) (fault : Fault), pipeline.run settings records = .error fault ↔
      ∃ step, pipeline.steps.find? (Step.isMalformed settings) = some step ∧
        step.HasFault settings fault) ∧
    (∀ records : List α, (∃ fault, pipeline.run settings records = .error fault) ↔
      ∃ step ∈ pipeline.steps, step.isMalformed settings) ∧
    ∀ stages, pipeline.compile settings = .ok stages →
      ∀ stage ∈ stages, ∀ items : Items α, ∃ out, stage.run settings items = .ok out := by
  have hmalformed : (fun step : Step => (faultOf? (step.compile settings)).isSome)
      = Step.isMalformed settings := funext Step.isSome_faultOf?_compile
  refine ⟨fun records fault => ?_, fun records => ?_, fun stages hstages stage hmem items => ?_⟩
  · rw [← faultOf?_eq_some, faultOf?_run, faultOf?_compile, findSome?_eq_some_iff_find?, hmalformed]
    simp only [Step.faultOf?_compile_eq_some]
  · simp only [← faultOf?_eq_some, faultOf?_run, faultOf?_compile, ← Option.isSome_iff_exists,
      List.isSome_findSome?, hmalformed, List.any_eq_true]
  · obtain ⟨step, -, hstep⟩ := exists_of_mem_of_forall₂ (forall₂_of_mapM hstages) hmem
    exact Stage.exists_run hstep items

/-- The last step runs first and is malformed, but so is a level of the step before it. Without the
two, every step compiles. -/
theorem fault_iff_first_malformed_step_two :
    let outer : Level := { field := ⟨"a"⟩ }
    let endless : Level := { field := ⟨"b"⟩, interval := some (.infinite false) }
    let undefined : Level := { field := ⟨"c"⟩, interval := some .undefined }
    let malformed : Step := .filter [[[("a", .startsWith .null)]]]
    let steps := [.unknown, .filter [], .buckets ⟨outer, [endless, undefined]⟩, malformed]
    let settings := Settings.ofNow ⟨0, 0, by decide⟩
    (∀ records : List Json.Value,
      run ⟨steps⟩ settings records = .error (.invalidInterval (.infinite false))) ∧
    ∃ stages, compile ⟨steps.take 2⟩ settings = .ok stages ∧
      ∀ stage ∈ stages, ∀ items : Items Json.Value, ∃ out, stage.run settings items = .ok out := by
  intro outer endless undefined malformed steps settings
  obtain ⟨hfault, -, -⟩ := fault_iff_first_malformed_step (α := Json.Value) ⟨steps⟩ settings
  obtain ⟨-, -, hrun⟩ := fault_iff_first_malformed_step (α := Json.Value) ⟨steps.take 2⟩ settings
  refine ⟨fun records => ?_, [.pass, .keep []], rfl, hrun _ rfl⟩
  exact (hfault records _).2 ⟨_, rfl, _, rfl, rfl⟩

end Pipeline

end RecordQuery

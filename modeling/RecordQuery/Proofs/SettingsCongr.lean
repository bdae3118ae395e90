import RecordQuery.Filter.Basic
import RecordQuery.Pipeline
import RecordQuery.Proofs.CalendarDays

/-!
# What the settings are read for

Compiling asks the settings for nothing but days before now, and which day these are depends on the
day of now alone (`Settings.sameDays_of_day_eq`). Keys ask for the day on which weeks start, and
only where they are weeks. So settings that agree in these give the same results, the same errors
among them.
-/

namespace RecordQuery

open Json

namespace Settings

/-- The same days lie before now, however many days before. -/
def SameDays (s t : Settings) : Prop :=
  ∀ days, (s.now.daysBefore? days).map Instant.day = (t.now.daysBefore? days).map Instant.day

theorem sameDays_of_now_eq {s t : Settings} (h : s.now = t.now) : SameDays s t := by
  intro days
  rw [h]

theorem sameDays_of_day_eq {s t : Settings} (hs : s.now.isLeapSecond = false)
    (ht : t.now.isLeapSecond = false) (h : s.now.day = t.now.day) : SameDays s t := by
  intro days
  rw [Instant.map_day_daysBefore? hs, Instant.map_day_daysBefore? ht, h]

end Settings

variable {s t : Settings}

/-! ## Compiling -/

theorem Operand.bound_daysAgo (op : Operator) (settings : Settings) (days : Int) :
    (daysAgo days).bound op settings =
      match (settings.now.daysBefore? days).map Instant.day with
      | some day => .ok (.day day)
      | none => .error (.invalidOperand op .dayInRange (daysAgo days).kindName) := by
  rw [bound]
  cases settings.now.daysBefore? days <;> rfl

theorem Operand.bound_congr (h : s.SameDays t) (op : Operator) : ∀ operand : Operand,
    operand.bound op s = operand.bound op t
  | daysAgo days => by rw [bound_daysAgo, bound_daysAgo, h days]
  | value v => by cases v <;> rfl

mutual

theorem Condition.compile_congr (h : s.SameDays t) : ∀ condition : Condition,
    condition.compile s = condition.compile t
  | .equal _ | .unequal _ | .startsWith _ => by rw [compile, compile]
  | .order op operand => by rw [compile, compile, Operand.bound_congr h]
  | .all conditions | .any conditions => by
    rw [compile, compile, Condition.compileAll_congr h conditions]
  | .find query | .findNone query => by
    rw [compile, compile, Condition.compileQuery_congr h query]

theorem Condition.compileAll_congr (h : s.SameDays t) : ∀ conditions : List Condition,
    compileAll s conditions = compileAll t conditions
  | [] => rfl
  | condition :: conditions => by
    rw [compileAll, compileAll, Condition.compile_congr h condition,
      Condition.compileAll_congr h conditions]

theorem Condition.compileQuery_congr (h : s.SameDays t) : ∀ query : List (String × Condition),
    compileQuery s query = compileQuery t query
  | [] => rfl
  | (path, condition) :: entries => by
    rw [compileQuery, compileQuery, Condition.compile_congr h condition,
      Condition.compileQuery_congr h entries]

end

theorem Statement.compileAll_congr (h : s.SameDays t) (statements : List Statement) :
    compileAll s statements = compileAll t statements := by
  have hquery : Query.compile s = Query.compile t := funext (Condition.compileQuery_congr h)
  rw [compileAll, compileAll, hquery]

theorem Filter.apply_congr {α : Type} [Record α] (h : s.SameDays t) (filter : Filter)
    (records : List α) : filter.apply s records = filter.apply t records := by
  rw [apply, apply, compile, compile, Statement.compileAll_congr h]

theorem Step.compile_congr (h : s.SameDays t) : ∀ step : Step, step.compile s = step.compile t
  | filter statements => by rw [compile, compile, Statement.compileAll_congr h]
  | buckets _ | unknown => rfl

theorem Pipeline.compile_congr (h : s.SameDays t) (pipeline : Pipeline) :
    pipeline.compile s = pipeline.compile t := by
  have hstep : Step.compile s = Step.compile t := funext (Step.compile_congr h)
  rw [compile, compile, hstep]

/-! ## Keys -/

theorem DateUnit.truncate?_of_ne_week {unit : DateUnit} (h : unit ≠ .week) (instant : Instant)
    (a b : Weekday) : unit.truncate? instant a = unit.truncate? instant b := by
  cases unit with
  | week => exact absurd rfl h
  | hour | day | month | year => rfl

theorem Level.unitKey_congr {unit : DateUnit} (h : unit = .week → s.weekStart = t.weekStart)
    (v : Value) : unitKey unit s v = unitKey unit t v := by
  by_cases hweek : unit = .week
  · rw [unitKey, unitKey, h hweek]
  · have hstart : ∀ instant : Instant,
        unit.truncate? instant s.weekStart = unit.truncate? instant t.weekStart := fun instant =>
      DateUnit.truncate?_of_ne_week hweek instant _ _
    simp only [unitKey, hstart]

/-- The settings agree on the start of weeks, if one of the levels groups by week. -/
def Settings.AgreeOn (levels : List Level) (s t : Settings) : Prop :=
  ∀ level ∈ levels, level.unit = some .week → s.weekStart = t.weekStart

namespace Level

variable {level : Level} (h : level.unit = some .week → s.weekStart = t.weekStart)
include h

theorem keyOf_congr : level.keyOf s = level.keyOf t := by
  have hvalue : level.keyOfValue s = level.keyOfValue t := by
    funext v
    rw [keyOfValue, keyOfValue]
    rcases hunit : level.unit with _ | unit
    · cases level.interval <;> rfl
    · exact unitKey_congr (fun hweek => h (hunit.trans (congrArg some hweek))) v
  funext raw
  rw [keyOf, keyOf, hvalue]

theorem keys_congr (doc : Value) : level.keys s doc = level.keys t doc := by
  rw [keys, keys, candidates, candidates, keyOf_congr h]

end Level

theorem Tally.contributions_congr (doc : Value) : ∀ {levels : List Level}, s.AgreeOn levels t →
    contributions s doc levels = contributions t doc levels
  | [], _ => by rw [contributions, contributions]
  | level :: deeper, h => by
    obtain ⟨hlevel, hdeeper⟩ := List.forall_mem_cons.1 h
    rw [contributions, contributions, Level.keys_congr hlevel, contributions_congr doc hdeeper]

theorem Grouping.apply_congr {α : Type} [Record α] {grouping : Grouping}
    (h : s.AgreeOn grouping.levels t) (records : List α) :
    grouping.apply s records = grouping.apply t records := by
  have hinsert : Tally.insert grouping s = Tally.insert grouping t := by
    funext tally doc
    rw [Tally.insert, Tally.insert, Tally.contributions_congr doc h]
  rw [apply, apply, tally, tally, hinsert]

/-! ## Running -/

theorem Stage.run_congr {α : Type} [Record α] (h : s.weekStart = t.weekStart) (stage : Stage)
    (items : Items α) : stage.run s items = stage.run t items := by
  cases stage with
  | keep checks | pass => cases items <;> rfl
  | group grouping =>
    have hagree : s.AgreeOn grouping.levels t := fun _ _ _ => h
    cases items with
    | records rs | buckets bs => rw [run, run, Grouping.apply_congr hagree]

theorem Stage.runAll_congr {α : Type} [Record α] (h : s.weekStart = t.weekStart) :
    ∀ (stages : List Stage) (items : Items α), runAll s stages items = runAll t stages items
  | [], _ => rfl
  | stage :: stages, items => by
    have hrun : stage.run (α := α) s = stage.run t := funext (run_congr h stage)
    rw [runAll, runAll, runAll_congr h stages, hrun]

namespace Pipeline

theorem run_congr {α : Type} [Record α] (hdays : s.SameDays t) (hweek : s.weekStart = t.weekStart)
    (pipeline : Pipeline) (records : List α) :
    pipeline.run s records = pipeline.run t records := by
  have hstages : ∀ stages : List Stage,
      Stage.runAll s stages (.records records) = Stage.runAll t stages (.records records) :=
    fun stages => Stage.runAll_congr hweek stages _
  rw [run, run, compile_congr hdays]
  simp only [hstages]

/-- A pipeline does the same at any two times of one day, if weeks start on the same day. The result
of a filter does not depend on when weeks start at all, and buckets do not depend on the time, and
on the start of weeks only where a level groups by week. -/
theorem run_eq_of_same_day {α : Type} [Record α] (s t : Settings) (records : List α) :
    (s.weekStart = t.weekStart → s.now.day = t.now.day → s.now.isLeapSecond = false →
      t.now.isLeapSecond = false →
        ∀ pipeline : Pipeline, pipeline.run s records = pipeline.run t records) ∧
    (s.now = t.now → ∀ filter : Filter, filter.apply s records = filter.apply t records) ∧
    ∀ grouping : Grouping,
      (∀ level ∈ grouping.levels, level.unit = some .week → s.weekStart = t.weekStart) →
        grouping.apply s records = grouping.apply t records := by
  refine ⟨fun hweek hday hs ht pipeline => ?_, fun hnow filter => ?_, fun grouping h => ?_⟩
  · exact run_congr (Settings.sameDays_of_day_eq hs ht hday) hweek pipeline records
  · exact Filter.apply_congr (Settings.sameDays_of_now_eq hnow) filter records
  · exact Grouping.apply_congr h records

/-- The first and the last nanosecond of a day, with weeks from Monday, and the last with weeks from
Sunday. -/
theorem run_eq_of_same_day_ends :
    let first : Settings := ⟨⟨1718409600, 0, by decide⟩, .monday⟩
    let last : Settings := ⟨⟨1718495999, 999999999, by decide⟩, .monday⟩
    let sunday := last.withWeekStart .sunday
    let recent : Statement := [[("at", .order .atLeast (.daysAgo 7))]]
    let level (unit : DateUnit) : Level := { field := ⟨"at"⟩, unit := some unit }
    let pipeline : Pipeline := ⟨[.buckets ⟨level .week, [level .hour]⟩, .filter [recent]]⟩
    let months : Grouping := ⟨level .month, [level .day]⟩
    first.now.day = last.now.day ∧ sunday.weekStart ≠ last.weekStart ∧
      ∀ records : List Value,
        pipeline.run first records = pipeline.run last records ∧
        Filter.apply { statements := [recent] } last records
          = Filter.apply { statements := [recent] } sunday records ∧
        months.apply first records = months.apply sunday records := by
  intro first last sunday recent level pipeline months
  refine ⟨by decide, by decide, fun records => ?_⟩
  obtain ⟨hrun, -, -⟩ := run_eq_of_same_day first last records
  obtain ⟨-, hfilter, -⟩ := run_eq_of_same_day last sunday records
  obtain ⟨-, -, hbuckets⟩ := run_eq_of_same_day first sunday records
  exact ⟨hrun rfl (by decide) rfl rfl pipeline, hfilter rfl _,
    hbuckets months (by simp [months, level, Grouping.levels])⟩

end Pipeline

end RecordQuery

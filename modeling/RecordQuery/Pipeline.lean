import RecordQuery.Bucket.Tally
import RecordQuery.Statement

/-!
# Pipelines

The steps of a pipeline run from the last to the first. A filter step keeps items and a bucket step
replaces them by their buckets, which the steps before it see as documents. All steps are compiled,
from the first to the last, before any of them runs.
-/

namespace RecordQuery

inductive Step where
  | filter (statements : List Statement)
  | buckets (grouping : Grouping)
  /-- A step of an unknown kind, which lets everything through. -/
  | unknown

def Step.kind : Step → String
  | filter _ => "filter"
  | buckets _ => "buckets"
  | unknown => "unknown"

structure Pipeline where
  steps : List Step := []

/-- What a pipeline works on and results in. -/
inductive Items (α : Type) where
  | records (records : List α)
  | buckets (buckets : List Bucket)

namespace Items

variable {α : Type}

def length : Items α → Nat
  | records rs => rs.length
  | buckets bs => bs.length

def records? : Items α → Option (List α)
  | records rs => some rs
  | buckets _ => none

def buckets? : Items α → Option (List Bucket)
  | records _ => none
  | buckets bs => some bs

end Items

/-- A step that has been found to be well formed. -/
inductive Stage where
  | keep (checks : StatementChecks)
  | group (grouping : Grouping)
  | pass

def Step.compile (settings : Settings) : Step → Except Fault Stage
  | filter statements => return .keep (← Statement.compileAll settings statements)
  | buckets grouping => do
    grouping.validate
    return .group grouping
  | unknown => return .pass

namespace Stage

variable {α : Type} [Record α]

def run (settings : Settings) : Stage → Items α → Except Fault (Items α)
  | pass, items => return items
  | keep checks, .records rs => return .records (checks.keep rs)
  | keep checks, .buckets bs => return .buckets (checks.keep bs)
  | group grouping, .records rs => return .buckets (← grouping.apply settings rs)
  | group grouping, .buckets bs => return .buckets (← grouping.apply settings bs)

/-- Runs stages from the last to the first. -/
def runAll (settings : Settings) : List Stage → Items α → Except Fault (Items α)
  | [], items => return items
  | stage :: stages, items => do
    let items ← runAll settings stages items
    stage.run settings items

end Stage

namespace Pipeline

variable {α : Type} [Record α]

def add (pipeline : Pipeline) (step : Step) : Pipeline :=
  ⟨pipeline.steps ++ [step]⟩

def compile (pipeline : Pipeline) (settings : Settings) : Except Fault (List Stage) :=
  pipeline.steps.mapM (Step.compile settings)

/-- The items that come out for a list of records. -/
def run (pipeline : Pipeline) (settings : Settings) (records : List α) :
    Except Fault (Items α) := do
  let stages ← pipeline.compile settings
  Stage.runAll settings stages (.records records)

end Pipeline

end RecordQuery

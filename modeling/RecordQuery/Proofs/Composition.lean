import Mathlib.Data.List.FinRange
import RecordQuery.Pipeline
import RecordQuery.Proofs.Compiling
import RecordQuery.Proofs.TallyMerge

/-!
# Pipelines in two parts

A stage reads nothing of an item but its document (`Stage.run_map`), and it does to buckets what it
does to the same buckets as records (`Stage.run_flatten`). So a pipeline can be run in two parts:
the later steps first, and then the earlier ones on what came out, as records of their own. Where
that is buckets, their documents do as well.
-/

namespace RecordQuery

open Json

variable {α β : Type} [Record α] [Record β]

namespace Items

def map (f : α → β) : Items α → Items β
  | records rs => records (rs.map f)
  | buckets bs => buckets bs

/-- The buckets that items are, be it as records. -/
def flatten : Items Bucket → List Bucket
  | records bs => bs
  | buckets bs => bs

end Items

/-! ## Steps that compile -/

namespace Step

def isBuckets : Step → Bool
  | buckets _ => true
  | filter _ | unknown => false

/-- What a step that compiles was, and what its stage is. -/
theorem compile_cases {settings : Settings} {step : Step} {stage : Stage}
    (h : step.compile settings = .ok stage) :
    (∃ checks, step.isBuckets = false ∧ stage = .keep checks) ∨
      (∃ grouping, step.isBuckets = true ∧ grouping.validate = .ok () ∧ stage = .group grouping) ∨
      (step.isBuckets = false ∧ stage = .pass) := by
  cases step with
  | filter statements =>
    obtain ⟨checks, -, rfl⟩ := bind_pure_eq_ok.1 h
    exact .inl ⟨checks, rfl, rfl⟩
  | buckets grouping =>
    obtain ⟨⟨⟩, hvalid, hstage⟩ := bind_eq_ok.1 h
    cases hstage
    exact .inr (.inl ⟨grouping, rfl, hvalid, rfl⟩)
  | unknown =>
    cases h
    exact .inr (.inr ⟨rfl, rfl⟩)

end Step

/-! ## Stages -/

namespace Grouping

theorem tally_map {f : α → β} (hf : ∀ a, Record.document (f a) = Record.document a)
    (grouping : Grouping) (settings : Settings) (records : List α) :
    grouping.tally settings (records.map f) = grouping.tally settings records := by
  rw [tally, List.foldl_map, tally]
  simp only [hf]

theorem apply_map {f : α → β} (hf : ∀ a, Record.document (f a) = Record.document a)
    (grouping : Grouping) (settings : Settings) (records : List α) :
    grouping.apply settings (records.map f) = grouping.apply settings records := by
  rw [apply, tally_map hf, apply]

end Grouping

namespace StatementChecks

theorem keep_map {f : α → β} (hf : ∀ a, Record.document (f a) = Record.document a)
    (checks : StatementChecks) (records : List α) :
    checks.keep (records.map f) = (checks.keep records).map f := by
  rw [keep, List.filter_map, keep]
  simp only [Function.comp_def, hf]

end StatementChecks

namespace Stage

variable {settings : Settings}

theorem run_map {f : α → β} (hf : ∀ a, Record.document (f a) = Record.document a)
    (stage : Stage) (items : Items α) :
    stage.run settings (items.map f) = (stage.run settings items).map (Items.map f) := by
  cases stage with
  | keep checks =>
    cases items with
    | records rs =>
      simp only [Items.map, run, checks.keep_map hf]
      rfl
    | buckets bs => rfl
  | group grouping =>
    cases items with
    | records rs =>
      simp only [Items.map, run, grouping.apply_map hf]
      cases grouping.apply settings rs <;> rfl
    | buckets bs =>
      simp only [Items.map, run]
      cases grouping.apply settings bs <;> rfl
  | pass => rfl

theorem run_flatten (stage : Stage) (items : Items Bucket) :
    stage.run settings (.buckets items.flatten : Items α)
      = (stage.run settings items).map fun out => .buckets out.flatten := by
  cases stage with
  | keep checks => cases items <;> rfl
  | group grouping =>
    cases items with
    | records bs | buckets bs =>
      simp only [Items.flatten, run]
      cases grouping.apply settings bs <;> rfl
  | pass => rfl

/-- A stage of a step that compiles has no error, and what it makes of records are buckets if the
step buckets, and otherwise some of the records. -/
theorem run_records {step : Step} {stage : Stage} (h : step.compile settings = .ok stage)
    (rs : List α) : ∃ out, stage.run settings (.records rs) = .ok out ∧
      if step.isBuckets then ∃ bs, out = .buckets bs
      else ∃ kept, out = .records kept ∧ kept.Sublist rs := by
  rcases Step.compile_cases h with ⟨checks, hstep, rfl⟩ | ⟨grouping, hstep, hvalid, rfl⟩ |
      ⟨hstep, rfl⟩
  · rw [hstep]
    exact ⟨_, rfl, _, rfl, List.filter_sublist⟩
  · rw [hstep, run, Grouping.apply_of_valid hvalid]
    exact ⟨_, rfl, _, rfl⟩
  · rw [hstep]
    exact ⟨_, rfl, _, rfl, .refl rs⟩

theorem run_buckets {step : Step} {stage : Stage} (h : step.compile settings = .ok stage)
    (bs : List Bucket) : ∃ cs, stage.run settings (.buckets bs : Items α) = .ok (.buckets cs) := by
  rcases Step.compile_cases h with ⟨checks, -, rfl⟩ | ⟨grouping, -, hvalid, rfl⟩ | ⟨-, rfl⟩
  · exact ⟨_, rfl⟩
  · rw [run, Grouping.apply_of_valid hvalid]
    exact ⟨_, rfl⟩
  · exact ⟨_, rfl⟩

/-! ## Runs -/

theorem runAll_append : ∀ (stages others : List Stage) (items : Items α),
    runAll settings (stages ++ others) items
      = (do runAll settings stages (← runAll settings others items))
  | [], others, items => by
    rw [List.nil_append]
    cases runAll settings others items <;> rfl
  | stage :: stages, others, items => by
    rw [List.cons_append, runAll, runAll_append stages]
    cases runAll settings others items <;> rfl

theorem runAll_map {f : α → β} (hf : ∀ a, Record.document (f a) = Record.document a) :
    ∀ (stages : List Stage) (items : Items α),
      runAll settings stages (items.map f) = (runAll settings stages items).map (Items.map f)
  | [], items => rfl
  | stage :: stages, items => by
    rw [runAll, runAll_map hf stages, runAll]
    cases runAll settings stages items with
    | error fault => rfl
    | ok out => exact run_map hf stage out

theorem runAll_flatten : ∀ (stages : List Stage) (items : Items Bucket),
    runAll settings stages (.buckets items.flatten : Items α)
      = (runAll settings stages items).map fun out => .buckets out.flatten
  | [], items => rfl
  | stage :: stages, items => by
    rw [runAll, runAll_flatten stages, runAll]
    cases runAll settings stages items with
    | error fault => rfl
    | ok out => exact run_flatten stage out

/-- Stages of steps that compile have no error, and what they make of records are buckets if one of
the steps buckets, and otherwise some of the records. -/
theorem runAll_records {steps : List Step} {stages : List Stage}
    (h : List.Forall₂ (fun step stage => step.compile settings = .ok stage) steps stages)
    (rs : List α) : ∃ out, runAll settings stages (.records rs) = .ok out ∧
      if steps.any Step.isBuckets then ∃ bs, out = .buckets bs
      else ∃ kept, out = .records kept ∧ kept.Sublist rs := by
  induction h with
  | nil => exact ⟨_, rfl, rs, rfl, .refl rs⟩
  | @cons step stage steps stages hstep _ ih =>
    obtain ⟨items, hitems, hkind⟩ := ih
    rw [runAll, hitems, List.any_cons]
    cases hany : steps.any Step.isBuckets with
    | true =>
      rw [hany] at hkind
      obtain ⟨bs, rfl⟩ := hkind
      obtain ⟨cs, hcs⟩ := run_buckets (α := α) hstep bs
      exact ⟨_, hcs, by simp⟩
    | false =>
      rw [hany] at hkind
      obtain ⟨kept, rfl, hsub⟩ := hkind
      obtain ⟨out, hout, hkind⟩ := run_records hstep kept
      refine ⟨out, hout, ?_⟩
      rw [Bool.or_false]
      cases hb : step.isBuckets with
      | true => simpa [hb] using hkind
      | false =>
        rw [hb] at hkind
        obtain ⟨less, rfl, hless⟩ := hkind
        exact ⟨less, rfl, hless.trans hsub⟩

end Stage

/-! ## Two parts -/

namespace Bucket

/-- The documents of buckets, each with its position. -/
def positioned (bs : List Bucket) : List (Documented (Fin bs.length)) :=
  (List.finRange bs.length).map fun i => ⟨i, bs[i].document⟩

end Bucket

namespace Pipeline

variable {settings : Settings}

theorem run_of_compile {pipeline : Pipeline} {stages : List Stage}
    (h : pipeline.compile settings = .ok stages) (records : List α) :
    pipeline.run settings records = Stage.runAll settings stages (.records records) := by
  rw [run, h]
  rfl

theorem exists_compile : ∀ {steps : List Step},
    (∀ step ∈ steps, ∃ stage, step.compile settings = .ok stage) →
      ∃ stages, compile ⟨steps⟩ settings = .ok stages
  | [], _ => ⟨[], rfl⟩
  | step :: steps, h => by
    obtain ⟨⟨stage, hstage⟩, hsteps⟩ := List.forall_mem_cons.1 h
    obtain ⟨stages, hstages⟩ := exists_compile hsteps
    rw [compile] at hstages
    refine ⟨stage :: stages, ?_⟩
    rw [compile, List.mapM_cons, hstage, hstages]
    rfl

theorem compile_append {a b : List Step} {stages others : List Stage}
    (ha : compile ⟨a⟩ settings = .ok stages) (hb : compile ⟨b⟩ settings = .ok others) :
    compile ⟨a ++ b⟩ settings = .ok (stages ++ others) := by
  rw [compile] at ha hb ⊢
  rw [List.mapM_append, ha, hb]
  rfl

/-- What steps make of buckets, which are the bucket at each of some positions unless a step buckets
again. -/
theorem runAll_positions {steps : List Step} {stages : List Stage}
    (h : compile ⟨steps⟩ settings = .ok stages) (bs : List Bucket) :
    if steps.any Step.isBuckets then
      ∃ cs, run ⟨steps⟩ settings (bs.map Bucket.document) = .ok (.buckets cs) ∧
        Stage.runAll settings stages (.buckets bs : Items α) = .ok (.buckets cs)
    else ∃ positions : List (Fin bs.length), positions.Sublist (List.finRange bs.length) ∧
      run ⟨steps⟩ settings (Bucket.positioned bs)
        = .ok (.records (positions.map fun i => ⟨i, bs[i].document⟩)) ∧
      run ⟨steps⟩ settings (bs.map Bucket.document)
        = .ok (.records (positions.map fun i => bs[i].document)) ∧
      Stage.runAll settings stages (.buckets bs : Items α)
        = .ok (.buckets (positions.map fun i => bs[i])) := by
  -- the positions are records themselves, and everything else is an image of them
  let here : Record (Fin bs.length) := { document := fun i => bs[i].document }
  obtain ⟨out, hout, hkind⟩ :=
    Stage.runAll_records (forall₂_of_mapM h) (List.finRange bs.length)
  have himage : ∀ {γ : Type} [Record γ] (f : Fin bs.length → γ),
      (∀ i, Record.document (f i) = bs[i].document) →
        Stage.runAll settings stages (.records ((List.finRange bs.length).map f))
          = .ok (out.map f) := by
    intro γ _ f hf
    have hmap : Stage.runAll settings stages (.records ((List.finRange bs.length).map f)) = _ :=
      Stage.runAll_map hf stages (.records (List.finRange bs.length))
    rwa [hout] at hmap
  have hbuckets : (List.finRange bs.length).map (fun i => bs[i]) = bs :=
    List.map_get_finRange bs
  have hdocs : (List.finRange bs.length).map (fun i => bs[i].document)
      = bs.map Bucket.document :=
    List.map_map.symm.trans (congrArg (List.map Bucket.document) hbuckets)
  have hrun : run ⟨steps⟩ settings (bs.map Bucket.document)
      = .ok (out.map fun i => bs[i].document) := by
    rw [run_of_compile h, ← hdocs]
    exact himage (fun i => bs[i].document) fun _ => rfl
  have hflat : Stage.runAll settings stages (.buckets bs : Items α)
      = .ok (.buckets (out.map fun i => bs[i]).flatten) := by
    have hrecords : Stage.runAll settings stages (.records bs)
        = .ok (out.map fun i => bs[i]) :=
      (congrArg (fun bs => Stage.runAll settings stages (.records bs)) hbuckets).symm.trans
        (himage (fun i => bs[i]) fun _ => rfl)
    exact (Stage.runAll_flatten stages (.records bs)).trans
      (congrArg (Except.map _) hrecords)
  rw [hrun, hflat]
  by_cases hany : steps.any Step.isBuckets
  · rw [if_pos hany] at hkind ⊢
    obtain ⟨cs, rfl⟩ := hkind
    exact ⟨cs, rfl, rfl⟩
  · rw [if_neg hany] at hkind ⊢
    obtain ⟨positions, rfl, hsub⟩ := hkind
    refine ⟨positions, hsub, ?_, rfl, rfl⟩
    rw [run_of_compile h]
    exact himage (fun i => (⟨i, bs[i].document⟩ : Documented (Fin bs.length))) fun _ => rfl

/-- Running steps is running the later part of them and then the earlier part on what came out, or
on its documents if that is buckets. These documents are treated as any others. -/
theorem run_append (settings : Settings) (a b : List Step) (records : List α)
    (h : ∀ step ∈ a ++ b, ∃ stage, step.compile settings = .ok stage) :
    ∃ items, run ⟨b⟩ settings records = .ok items ∧
      match items with
      | .records rs => ∃ out, run ⟨a⟩ settings rs = .ok out ∧
        run ⟨a ++ b⟩ settings records = .ok out
      | .buckets bs =>
        if a.any Step.isBuckets then
          ∃ cs, run ⟨a⟩ settings (bs.map Bucket.document) = .ok (.buckets cs) ∧
            run ⟨a ++ b⟩ settings records = .ok (.buckets cs)
        else ∃ positions : List (Fin bs.length), positions.Sublist (List.finRange bs.length) ∧
          run ⟨a⟩ settings (Bucket.positioned bs)
            = .ok (.records (positions.map fun i => ⟨i, bs[i].document⟩)) ∧
          run ⟨a⟩ settings (bs.map Bucket.document)
            = .ok (.records (positions.map fun i => bs[i].document)) ∧
          run ⟨a ++ b⟩ settings records = .ok (.buckets (positions.map fun i => bs[i])) := by
  obtain ⟨stages, ha⟩ := exists_compile fun step hstep => h step (List.mem_append_left b hstep)
  obtain ⟨others, hb⟩ := exists_compile fun step hstep => h step (List.mem_append_right a hstep)
  obtain ⟨items, hitems, -⟩ := Stage.runAll_records (forall₂_of_mapM hb) records
  have hall : run ⟨a ++ b⟩ settings records = Stage.runAll settings stages items := by
    rw [run_of_compile (compile_append ha hb), Stage.runAll_append, hitems]
    rfl
  refine ⟨items, (run_of_compile hb records).trans hitems, ?_⟩
  cases items with
  | records rs =>
    obtain ⟨out, hout, -⟩ := Stage.runAll_records (forall₂_of_mapM ha) rs
    exact ⟨out, (run_of_compile ha rs).trans hout, hall.trans hout⟩
  | buckets bs =>
    simp only [hall]
    exact runAll_positions ha bs

/-- A filter on the counts in the buckets of a later step. -/
theorem run_append_count_filter :
    let settings := Settings.ofNow ⟨0, 0, by decide⟩
    let a : List Step := [.unknown, .filter [[[("value", .equal (.value (.int 1)))]]]]
    let b : List Step := [.buckets ⟨{ field := ⟨"kind"⟩ }, []⟩]
    let record (kind : Value) : Value := .object [("kind", kind)]
    let records : List Value :=
      [record (.text "x"), record .null, record (.text "x"), record (.text "y")]
    let bs : List Bucket :=
      [.mk (some (.text "x")) 2 [], .mk none 1 [], .mk (some (.text "y")) 1 []]
    (∀ step ∈ a ++ b, ∃ stage, step.compile settings = .ok stage) ∧
      run ⟨b⟩ settings records = .ok (.buckets bs) ∧
      ∃ positions : List (Fin bs.length), positions.map Fin.val = [1, 2] ∧
        run ⟨a⟩ settings (bs.map Bucket.document)
          = .ok (.records (positions.map fun i => bs[i].document)) ∧
        run ⟨a ++ b⟩ settings records = .ok (.buckets (positions.map fun i => bs[i])) := by
  intro settings a b record records bs
  have hcompile : ∀ step ∈ a ++ b, ∃ stage, step.compile settings = .ok stage :=
    List.forall_mem_cons.2 ⟨⟨_, rfl⟩, List.forall_mem_cons.2 ⟨⟨_, rfl⟩,
      List.forall_mem_cons.2 ⟨⟨_, rfl⟩, nofun⟩⟩⟩
  have hb : run ⟨b⟩ settings records = .ok (.buckets bs) := by with_unfolding_all rfl
  have hkept : ((run ⟨a⟩ settings (Bucket.positioned bs)).toOption.bind Items.records?).map
      (List.map fun d => d.item.val) = some [1, 2] := by decide +kernel
  obtain ⟨items, hitems, hparts⟩ := run_append settings a b records hcompile
  obtain rfl : .buckets bs = items := Except.ok.inj (hb.symm.trans hitems)
  obtain ⟨positions, -, hpositions, hdocs, hall⟩ := hparts
  rw [hpositions] at hkept
  refine ⟨hcompile, hb, positions, ?_, hdocs, hall⟩
  simpa [Except.toOption, Items.records?, Function.comp_def] using hkept

end Pipeline

end RecordQuery

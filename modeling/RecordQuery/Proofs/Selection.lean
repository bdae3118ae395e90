import Mathlib.Data.List.FinRange
import RecordQuery.Filter.Basic
import RecordQuery.Proofs.SortOrder

/-!
# What a filter selects

A filter has one ranking of the positions whose records it accepts: in the order of its sort rule,
and in the order of the records where the rule has none (`ranking_unique`). It selects the records at
the first positions of the ranking. Sorting with a rule leaves equal records as they were, as the
order of a rule is total (`pairwise_mergeSort_of_pairwise`).
-/

namespace RecordQuery

open Json Std

/-- Sorting leaves elements that the order does not tell apart as they were. -/
theorem pairwise_mergeSort_of_pairwise {β : Type} {R : β → β → Prop} (le : β → β → Bool)
    (trans : ∀ a b c, le a b → le b c → le a c) (total : ∀ a b, le a b || le b a) :
    ∀ {l : List β}, l.Pairwise R → (l.mergeSort le).Pairwise fun a b => le a b ∧ (le b a → R a b)
  | [], _ => by simp
  | a :: l, h => by
    obtain ⟨hal, hl⟩ := List.pairwise_cons.1 h
    obtain ⟨l₁, l₂, hs, hs', hlt⟩ := List.mergeSort_cons trans total a l
    have ih := pairwise_mergeSort_of_pairwise le trans total hl
    have hle := List.pairwise_mergeSort trans total (a :: l)
    rw [hs'] at ih
    rw [hs] at hle ⊢
    have hmem : ∀ c ∈ l₂, c ∈ l := by
      intro c hc
      have hsorted : c ∈ l.mergeSort le := by
        rw [hs']
        exact List.mem_append_right _ hc
      exact List.mem_mergeSort.1 hsorted
    rw [List.pairwise_append, List.pairwise_cons] at hle ⊢
    rw [List.pairwise_append] at ih
    refine ⟨ih.1, ⟨fun c hc => ⟨hle.2.1.1 c hc, fun _ => hal c (hmem c hc)⟩, ih.2.1⟩, ?_⟩
    intro b hb c hc
    rcases List.mem_cons.1 hc with rfl | hc
    · have hnot := hlt b hb
      exact ⟨hle.2.2 b hb c List.mem_cons_self, fun hcb => by simp [hcb] at hnot⟩
    · exact ih.2.2 b hb c hc

namespace SortRule

variable {α : Type} [Record α]

theorem isLE_trans (rule : SortRule) (a b c : α) :
    (rule.compare a b).isLE → (rule.compare b c).isLE → (rule.compare a c).isLE :=
  TransCmp.isLE_trans

theorem isLE_total (rule : SortRule) (a b : α) :
    (rule.compare a b).isLE || (rule.compare b a).isLE := by
  have hswap : rule.compare b a = (rule.compare a b).swap := OrientedCmp.eq_swap
  rw [hswap]
  cases rule.compare a b <;> rfl

/-- Sorting records is sorting their positions. -/
theorem apply_map_get (rule : SortRule) (records : List α) (ps : List (Fin records.length)) :
    rule.apply (ps.map records.get)
      = (ps.mergeSort fun i j => (rule.compare records[i] records[j]).isLE).map records.get := by
  rw [apply]
  exact (List.map_mergeSort (f := records.get) fun i _ j _ => rfl).symm

end SortRule

namespace Filter

variable {α : Type} [Record α]

abbrev Accepts (filter : Filter) (settings : Settings) (record : α) : Prop :=
  filter.accepts settings record = .ok true

instance (filter : Filter) (settings : Settings) (record : α) :
    Decidable (filter.Accepts settings record) :=
  match h : filter.accepts settings record with
  | .ok true => isTrue h
  | .ok false => isFalse (by simp [Accepts, h])
  | .error fault => isFalse (by simp [Accepts, h])

/-- The positions of the records accepted, in the order of the sort rule if there is one, and in
their own order where there is none or it does not tell the records apart. -/
structure IsRanking (filter : Filter) (settings : Settings) (records : List α)
    (positions : List (Fin records.length)) : Prop where
  perm : positions.Perm
    ((List.finRange records.length).filter fun i => filter.Accepts settings records[i])
  sorted : ∀ rule, filter.sort = some rule →
    positions.Pairwise fun i j => rule.compare records[i] records[j] ≠ .gt
  stable : ∀ rule, filter.sort = some rule →
    positions.Pairwise fun i j => rule.compare records[i] records[j] = .eq → i < j
  unsorted : filter.sort = none → positions.Pairwise (· < ·)

theorem ranking_unique {filter : Filter} {settings : Settings} {records : List α}
    {ps qs : List (Fin records.length)} (hp : filter.IsRanking settings records ps)
    (hq : filter.IsRanking settings records qs) : ps = qs := by
  have hperm := hp.perm.trans hq.perm.symm
  rcases hs : filter.sort with _ | rule
  · refine hperm.eq_of_pairwise (fun i j _ _ hij hji => ?_) (hp.unsorted hs) (hq.unsorted hs)
    exact absurd hij (Nat.lt_asymm hji)
  · have hps := (hp.sorted rule hs).and (hp.stable rule hs)
    have hqs := (hq.sorted rule hs).and (hq.stable rule hs)
    refine hperm.eq_of_pairwise (fun i j _ _ hij hji => ?_) hps hqs
    -- the records compare equal, so each position is before the other
    have heq : rule.compare records[i] records[j] = .eq :=
      OrientedCmp.isLE_antisymm (Ordering.isLE_iff_ne_gt.2 hij.1) (Ordering.isLE_iff_ne_gt.2 hji.1)
    exact absurd (hij.2 heq) (Nat.lt_asymm (hji.2 (OrientedCmp.eq_symm heq)))

def matching (filter : Filter) (settings : Settings) (records : List α) :
    List (Fin records.length) :=
  (List.finRange records.length).filter fun i => filter.Accepts settings records[i]

theorem matching_pairwise (filter : Filter) (settings : Settings) (records : List α) :
    (filter.matching settings records).Pairwise (· < ·) :=
  (List.pairwise_lt_finRange _).filter _

def ranking (filter : Filter) (settings : Settings) (records : List α) :
    List (Fin records.length) :=
  match filter.sort with
  | none => filter.matching settings records
  | some rule => (filter.matching settings records).mergeSort fun i j =>
      (rule.compare records[i] records[j]).isLE

theorem isRanking_ranking (filter : Filter) (settings : Settings) (records : List α) :
    filter.IsRanking settings records (filter.ranking settings records) := by
  have hpair := filter.matching_pairwise settings records
  rcases hs : filter.sort with _ | rule
  · have hnone : ∀ rule, filter.sort ≠ some rule := by simp [hs]
    simp only [ranking, hs]
    refine ⟨.refl _, ?_, ?_, fun _ => hpair⟩
    · intro rule h
      exact absurd h (hnone rule)
    · intro rule h
      exact absurd h (hnone rule)
  · have hsort := pairwise_mergeSort_of_pairwise
      (fun i j : Fin records.length => (rule.compare records[i] records[j]).isLE)
      (fun i j k => rule.isLE_trans _ _ _) (fun i j => rule.isLE_total _ _) hpair
    simp only [ranking, hs]
    refine ⟨List.mergeSort_perm _ _, ?_, ?_, fun h => ?_⟩
    · rintro _ h
      obtain rfl := Option.some.inj (hs.symm.trans h)
      exact hsort.imp fun hij => Ordering.isLE_iff_ne_gt.1 hij.1
    · rintro _ h
      obtain rfl := Option.some.inj (hs.symm.trans h)
      exact hsort.imp fun hij heq =>
        hij.2 (Ordering.isLE_of_eq_eq (OrientedCmp.eq_symm heq))
    · rw [hs] at h
      cases h

section Compiled

variable {filter : Filter} {settings : Settings} {checks : StatementChecks}

theorem accepts_of_compile (h : filter.compile settings = .ok checks) (record : α) :
    filter.accepts settings record = .ok (checks.accepts (Record.document record)) := by
  rw [accepts, h]
  rfl

theorem accepts_iff (h : filter.compile settings = .ok checks) (record : α) :
    filter.Accepts settings record ↔ checks.accepts (Record.document record) = true := by
  rw [Accepts, accepts_of_compile h, Except.ok.injEq]

theorem keep_eq_filter (h : filter.compile settings = .ok checks) (records : List α) :
    checks.keep records = records.filter fun record => filter.Accepts settings record := by
  rw [StatementChecks.keep]
  congr 1
  funext record
  rw [Bool.eq_iff_iff, decide_eq_true_iff, accepts_iff h]

theorem keep_eq_map (h : filter.compile settings = .ok checks) (records : List α) :
    checks.keep records = (filter.matching settings records).map records.get := by
  rw [keep_eq_filter h, matching]
  conv_lhs => rw [← List.map_get_finRange records, List.filter_map]
  rfl

theorem arrange_keep (h : filter.compile settings = .ok checks) (records : List α) :
    filter.arrange (checks.keep records)
      = (match filter.limit with
          | none => filter.ranking settings records
          | some n => (filter.ranking settings records).take n).map records.get := by
  rw [arrange, ranking, keep_eq_map h]
  rcases filter.sort with _ | rule <;> rcases filter.limit with _ | n
  · rfl
  · exact List.map_take.symm
  · exact rule.apply_map_get records _
  · show List.take n (rule.apply _) = _
    rw [rule.apply_map_get records, List.map_take]

/-- Asking for no result takes none of them in the general path either. -/
theorem apply_eq_arrange (h : filter.compile settings = .ok checks) (records : List α) :
    filter.apply settings records = .ok (filter.arrange (checks.keep records)) := by
  rw [apply, h]
  by_cases hlimit : filter.limit = some 0
  · have : filter.arrange (checks.keep records) = [] := by
      rw [arrange, hlimit]
      exact List.take_zero
    rw [this]
    simp [bind, Except.bind, pure, Except.pure, hlimit]
  · simp [bind, Except.bind, pure, Except.pure, hlimit]

theorem count_eq_countP (h : filter.compile settings = .ok checks) (records : List α) :
    filter.count settings records
      = .ok (records.countP fun record => filter.Accepts settings record) := by
  rw [count, h, List.countP_eq_length_filter, ← keep_eq_filter h]
  rfl

end Compiled

theorem length_ranking (filter : Filter) (settings : Settings) (records : List α) :
    (filter.ranking settings records).length
      = records.countP fun record => filter.Accepts settings record := by
  rw [(filter.isRanking_ranking settings records).perm.length_eq, ← List.countP_eq_length_filter]
  conv_rhs => rw [← List.map_get_finRange records, List.countP_map]
  rfl

/-- A filter that compiles selects the records at the first positions of its one ranking, as many as
its limit allows, and counts all records that it accepts. -/
theorem apply_eq_ranking (filter : Filter) (settings : Settings) (records : List α)
    {checks : StatementChecks} (h : filter.compile settings = .ok checks) :
    ∃ positions, (∀ ps, filter.IsRanking settings records ps ↔ ps = positions) ∧
      filter.apply settings records = .ok ((match filter.limit with
        | none => positions
        | some n => positions.take (min n (records.countP fun record =>
            filter.Accepts settings record))).map records.get) ∧
      filter.apply settings records = .ok (filter.arrange (checks.keep records)) ∧
      filter.count settings records
        = .ok (records.countP fun record => filter.Accepts settings record) ∧
      ∀ record : α, ∃ b, filter.accepts settings record = .ok b := by
  refine ⟨filter.ranking settings records, fun ps => ⟨fun hps => ?_, ?_⟩, ?_,
    apply_eq_arrange h records, count_eq_countP h records,
    fun record => ⟨_, accepts_of_compile h record⟩⟩
  · exact ranking_unique hps (filter.isRanking_ranking settings records)
  · rintro rfl
    exact filter.isRanking_ranking settings records
  · rw [apply_eq_arrange h, arrange_keep h, ← length_ranking]
    rcases filter.limit with _ | n
    · rfl
    · simp only []
      rw [← List.take_eq_take_min]

/-- Two of three records are accepted, and the greater one is asked for. -/
theorem apply_eq_ranking_descending :
    let rule : SortRule := ⟨⟨"n"⟩, none, .descending⟩
    let statements : List Statement := [[[("n", .order .greater (.value (.int 0)))]]]
    let filter : Filter := { statements, sort := some rule, limit := some 1 }
    let settings := Settings.ofNow ⟨0, 0, by decide⟩
    let records : List Value :=
      [.object [("n", .int 1)], .object [("n", .int 0)], .object [("n", .int 2)]]
    ∃ checks, filter.compile settings = .ok checks ∧
      ∃ positions, filter.IsRanking settings records positions ∧
        filter.apply settings records = .ok ((positions.take (min 1 2)).map records.get) ∧
        filter.apply settings records = .ok (filter.arrange (checks.keep records)) ∧
        filter.count settings records = .ok 2 := by
  intro rule statements filter settings records
  have hcount : (records.countP fun record => filter.Accepts settings record) = 2 := by
    decide +kernel
  have hcompile : filter.compile settings
      = .ok [[[(⟨"n"⟩, .order .greater (.value (.int 0)))]]] := by rfl
  obtain ⟨positions, hunique, hranked, hsame, hall, -⟩ :=
    apply_eq_ranking filter settings records hcompile
  rw [hcount] at hranked hall
  exact ⟨_, hcompile, positions, (hunique positions).2 rfl, hranked, hsame, hall⟩

end Filter

end RecordQuery

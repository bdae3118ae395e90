import Mathlib.Data.List.Pairwise
import Mathlib.Data.List.Sort
import RecordQuery.Proofs.Selection

/-!
# Records in another order and in parts

A rule tells records apart that have different identifiers, so a sorted selection of such records
does not depend on the order they come in (`Filter.apply_of_perm`).

Sorting two lists as one is merging what sorting makes of either
(`SortRule.apply_append_eq_merge`), and the first few of two lists merged are among the first few of
either (`take_merge`). So a filter may be applied to parts of the records and then to what it
selected from them (`Filter.apply_parts`): a record cut off in its part has as many records before
it in the whole.
-/

namespace RecordQuery

open Json Std

/-! ## Sorting by merging -/

section Merge

variable {β : Type} (le : β → β → Bool)

theorem orderedInsert_append {a : β} {l₁ l₂ : List β} (h₁ : ∀ b ∈ l₁, ¬ le a b)
    (h₂ : ∀ b ∈ l₂, le a b) :
    (l₁ ++ l₂).orderedInsert (fun b c => le b c) a = l₁ ++ a :: l₂ := by
  induction l₁ with
  | nil =>
    cases l₂ with
    | nil => rfl
    | cons b l₂ => exact List.orderedInsert_cons_of_le _ _ (h₂ b List.mem_cons_self)
  | cons b l₁ ih =>
    obtain ⟨hb, hl₁⟩ := List.forall_mem_cons.1 h₁
    rw [List.cons_append, List.orderedInsert_cons, if_neg hb, ih hl₁]
    rfl

/-- No more of either list is needed than what is taken of both. -/
theorem take_merge : ∀ (n : Nat) (s t : List β) {j k : Nat}, n ≤ j → n ≤ k →
    ((s.take j).merge (t.take k) le).take n = (s.merge t le).take n
  | 0, _, _, _, _, _, _ => rfl
  | n, [], t, j, k, _, hk => by
    rw [List.take_nil, List.nil_merge, List.nil_merge, List.take_take, Nat.min_eq_left hk]
  | n, b :: s, [], j, k, hj, _ => by
    rw [List.take_nil, List.merge_right, List.merge_right, List.take_take, Nat.min_eq_left hj]
  | n + 1, b :: s, c :: t, j + 1, k + 1, hj, hk => by
    have ihs := take_merge n s (c :: t) (Nat.le_of_succ_le_succ hj) (Nat.le_of_succ_le hk)
    have iht := take_merge n (b :: s) t (Nat.le_of_succ_le hj) (Nat.le_of_succ_le_succ hk)
    rw [List.take_succ_cons] at ihs iht
    rw [List.take_succ_cons, List.take_succ_cons, List.cons_merge_cons, List.cons_merge_cons]
    split
    · rw [List.take_succ_cons, List.take_succ_cons, ihs]
    · rw [List.take_succ_cons, List.take_succ_cons, iht]

variable (trans : ∀ a b c, le a b → le b c → le a c) (total : ∀ a b, le a b || le b a)

include trans total

/-- Sorting puts the first element before those that are level with it. -/
theorem mergeSort_cons_eq_orderedInsert (a : β) (l : List β) :
    (a :: l).mergeSort le = (l.mergeSort le).orderedInsert (fun b c => le b c) a := by
  obtain ⟨l₁, l₂, hcons, hl, hlt⟩ := List.mergeSort_cons trans total a l
  have hsorted := List.pairwise_mergeSort trans total (a :: l)
  rw [hcons, List.pairwise_append, List.pairwise_cons] at hsorted
  rw [hcons, hl, orderedInsert_append le (fun b hb => by simpa using hlt b hb) hsorted.2.1.1]

theorem merge_orderedInsert (a : β) : ∀ s t : List β,
    (s.orderedInsert (fun b c => le b c) a).merge t le
      = (s.merge t le).orderedInsert (fun b c => le b c) a
  | [], [] => by simp
  | b :: s, [] => by simp
  | [], c :: t => by
    have ih := merge_orderedInsert a [] t
    simp only [List.orderedInsert_nil, List.nil_merge] at ih ⊢
    rw [List.cons_merge_cons, List.orderedInsert_cons, ih, List.nil_merge]
  | b :: s, c :: t => by
    have ihs := merge_orderedInsert a s (c :: t)
    have iht := merge_orderedInsert a (b :: s) t
    rw [List.orderedInsert_cons] at iht ⊢
    by_cases hab : le a b
    · rw [if_pos hab] at iht ⊢
      by_cases hbc : le b c
      · have hac := trans a b c hab hbc
        simp [hab, hbc, hac]
      · by_cases hac : le a c
        · simp [hbc, hac]
        · simp [hbc, hac, iht]
    · rw [if_neg hab] at iht ⊢
      by_cases hbc : le b c
      · simp [hab, hbc, ihs]
      · -- `c` comes before `b` and `b` before `a`
        have hcb : le c b := by simpa [hbc] using total b c
        have hac : ¬ le a c := fun hac => hab (trans a c b hac hcb)
        simp [hbc, hac, iht]
termination_by s t => s.length + t.length

theorem mergeSort_append (l₁ l₂ : List β) :
    (l₁ ++ l₂).mergeSort le = (l₁.mergeSort le).merge (l₂.mergeSort le) le := by
  induction l₁ with
  | nil => simp
  | cons a l₁ ih =>
    rw [List.cons_append, mergeSort_cons_eq_orderedInsert le trans total, ih,
      mergeSort_cons_eq_orderedInsert le trans total, merge_orderedInsert le trans total]

end Merge

namespace SortRule

variable {α : Type} [Record α] (rule : SortRule)

theorem pairwise_apply (records : List α) :
    (rule.apply records).Pairwise fun a b => (rule.compare a b).isLE :=
  List.pairwise_mergeSort (rule.isLE_trans (α := α)) rule.isLE_total records

theorem apply_append_eq_merge (xs ys : List α) :
    rule.apply (xs ++ ys)
      = (rule.apply xs).merge (rule.apply ys) fun a b => (rule.compare a b).isLE :=
  mergeSort_append _ rule.isLE_trans rule.isLE_total xs ys

/-- Sorting leaves what is left of sorted records as it is. -/
theorem apply_of_sublist {xs ys : List α} (h : ys.Sublist (rule.apply xs)) : rule.apply ys = ys :=
  List.mergeSort_of_pairwise ((rule.pairwise_apply xs).sublist h)

variable {rule}

/-- Records that a rule has level have level identifiers, with a value or without. -/
theorem compareIds_of_compare_eq {a b : α} (h : rule.compare a b = .eq) :
    compareIds (Record.id? a) (Record.id? b) = .eq := by
  have hdirected : ∀ o, rule.direction.apply o = .eq → o = .eq := by
    intro o ho
    cases hd : rule.direction <;> rw [hd] at ho
    · exact ho
    · exact Ordering.swap_eq_eq.1 ho
  rw [compare] at h
  split at h
  · exact hdirected _ h
  · cases h
  · cases h
  · exact (Ordering.then_eq_eq.1 (hdirected _ h)).2

/-- Only one order of records with different identifiers is sorted. -/
theorem apply_eq_apply_of_perm {xs ys : List α} (hperm : xs.Perm ys)
    (hids : ∀ a ∈ xs, ∀ b ∈ xs, a ≠ b → compareIds (Record.id? a) (Record.id? b) ≠ .eq) :
    rule.apply xs = rule.apply ys := by
  have hx : (rule.apply xs).Perm xs := List.mergeSort_perm _ _
  have hy : (rule.apply ys).Perm ys := List.mergeSort_perm _ _
  refine List.Perm.eq_of_pairwise (fun a b ha hb hab hba => ?_) (rule.pairwise_apply xs)
    (rule.pairwise_apply ys) (hx.trans (hperm.trans hy.symm))
  by_contra hne
  have hlevel : rule.compare a b = .eq := OrientedCmp.isLE_antisymm hab hba
  exact hids a (hx.mem_iff.1 ha) b (hperm.mem_iff.2 (hy.mem_iff.1 hb)) hne
    (compareIds_of_compare_eq hlevel)

end SortRule

namespace Filter

variable {α : Type} [Record α]

/-! ## Another order -/

/-- A filter that sorts selects the same records, in the same order, from records in any order, if
different ones have different identifiers. -/
theorem apply_of_perm (filter : Filter) (settings : Settings) {rule : SortRule}
    (hsort : filter.sort = some rule) {checks : StatementChecks}
    (h : filter.compile settings = .ok checks) {xs ys : List α} (hperm : xs.Perm ys)
    (hids : ∀ a ∈ xs, ∀ b ∈ xs, a ≠ b → compareIds (Record.id? a) (Record.id? b) ≠ .eq) :
    ∃ selected, filter.apply settings xs = .ok selected ∧
      filter.apply settings ys = .ok selected := by
  have hkeep : (checks.keep xs).Perm (checks.keep ys) := hperm.filter _
  have hsame : rule.apply (checks.keep xs) = rule.apply (checks.keep ys) :=
    SortRule.apply_eq_apply_of_perm hkeep fun a ha b hb =>
      hids a (List.mem_of_mem_filter ha) b (List.mem_of_mem_filter hb)
  refine ⟨_, apply_eq_arrange h xs, ?_⟩
  rw [apply_eq_arrange h, arrange, arrange, hsort]
  simp only [hsame]

/-- Two records have level values and the third has none, and two of the three are asked for. -/
theorem apply_of_perm_level_values :
    let rule : SortRule := ⟨⟨"n"⟩, none, .descending⟩
    let statements : List Statement := [[[("n", .unequal (.value (.int 7)))]]]
    let filter : Filter := { statements, sort := some rule, limit := some 2 }
    let settings := Settings.ofNow ⟨0, 0, by decide⟩
    let record (id n : Value) : Value := .object [("id", id), ("n", n)]
    let xs := [record (.int 1) (.int 5), record (.text "x") .null, record (.int 2) (.int 5)]
    let ys := [record (.text "x") .null, record (.int 2) (.int 5), record (.int 1) (.int 5)]
    (∃ checks, filter.compile settings = .ok checks) ∧ xs.Perm ys ∧
      xs.Pairwise (fun a b => compareIds (Record.id? a) (Record.id? b) ≠ .eq) ∧
      ∃ selected, filter.apply settings xs = .ok selected ∧
        filter.apply settings ys = .ok selected := by
  intro rule statements filter settings record xs ys
  have hcompile : filter.compile settings = .ok [[[(⟨"n"⟩, .differs (.int 7))]]] := by
    with_unfolding_all rfl
  have hperm : xs.Perm ys := (List.perm_append_singleton _ [_, _]).symm
  have hpairs : xs.Pairwise fun a b => compareIds (Record.id? a) (Record.id? b) ≠ .eq := by
    decide +kernel
  have hids : ∀ a ∈ xs, ∀ b ∈ xs, a ≠ b →
      compareIds (Record.id? a) (Record.id? b) ≠ .eq := by
    have : Std.Symm fun a b : Value => compareIds (Record.id? a) (Record.id? b) ≠ .eq :=
      ⟨fun a b hab hba => hab (OrientedCmp.eq_symm hba)⟩
    exact fun a ha b hb hne => hpairs.forall ha hb hne
  exact ⟨⟨_, hcompile⟩, hperm, hpairs,
    apply_of_perm filter settings rfl hcompile hperm hids⟩

/-! ## Parts -/

/-- Arranging what was arranged in parts is arranging the whole. -/
theorem arrange_append (filter : Filter) (xs ys : List α) :
    filter.arrange (filter.arrange xs ++ filter.arrange ys) = filter.arrange (xs ++ ys) := by
  rcases hsort : filter.sort with _ | rule <;> rcases hlimit : filter.limit with _ | n <;>
    simp only [arrange, hsort, hlimit]
  · rw [List.take_append, List.take_append, List.take_take, List.take_take, List.length_take,
      Nat.min_self]
    congr 2
    omega
  · have hx : rule.apply (rule.apply xs) = rule.apply xs := rule.apply_of_sublist (.refl _)
    have hy : rule.apply (rule.apply ys) = rule.apply ys := rule.apply_of_sublist (.refl _)
    rw [rule.apply_append_eq_merge, hx, hy, rule.apply_append_eq_merge]
  · have hx : rule.apply ((rule.apply xs).take n) = (rule.apply xs).take n :=
      rule.apply_of_sublist (List.take_sublist n _)
    have hy : rule.apply ((rule.apply ys).take n) = (rule.apply ys).take n :=
      rule.apply_of_sublist (List.take_sublist n _)
    rw [rule.apply_append_eq_merge, hx, hy, take_merge _ n _ _ (Nat.le_refl n) (Nat.le_refl n),
      rule.apply_append_eq_merge]

theorem arrange_arrange (filter : Filter) (records : List α) :
    filter.arrange (filter.arrange records) = filter.arrange records := by
  have h := filter.arrange_append records []
  have hnil : filter.arrange ([] : List α) = [] := by
    rcases hsort : filter.sort with _ | rule <;> rcases hlimit : filter.limit with _ | n <;>
      simp [arrange, hsort, hlimit, SortRule.apply]
  rwa [hnil, List.append_nil, List.append_nil] at h

theorem mem_of_mem_arrange {filter : Filter} {records : List α} {record : α}
    (h : record ∈ filter.arrange records) : record ∈ records := by
  have hsorted : ∀ rule : SortRule, record ∈ rule.apply records → record ∈ records :=
    fun rule => List.mem_mergeSort.1
  rcases hsort : filter.sort with _ | rule <;> rcases hlimit : filter.limit with _ | n <;>
    simp only [arrange, hsort, hlimit] at h
  · exact h
  · exact List.mem_of_mem_take h
  · exact hsorted rule h
  · exact hsorted rule (List.mem_of_mem_take h)

theorem keep_append (checks : StatementChecks) (xs ys : List α) :
    checks.keep (xs ++ ys) = checks.keep xs ++ checks.keep ys :=
  List.filter_append ..

/-- Everything selected is accepted once more. -/
theorem keep_arrange (filter : Filter) (checks : StatementChecks) (records : List α) :
    checks.keep (filter.arrange (checks.keep records)) = filter.arrange (checks.keep records) :=
  List.filter_eq_self.2 fun _ hmem => (List.mem_filter.1 (mem_of_mem_arrange hmem)).2

/-- What a filter selects from records is what it selects from its selections from two parts of
them; and from what it selected it selects everything, in the order that it has. -/
theorem apply_parts (filter : Filter) (settings : Settings) {checks : StatementChecks}
    (h : filter.compile settings = .ok checks) (xs ys : List α) :
    ∃ a b whole, filter.apply settings xs = .ok a ∧ filter.apply settings ys = .ok b ∧
      filter.apply settings (xs ++ ys) = .ok whole ∧ filter.apply settings (a ++ b) = .ok whole ∧
      filter.apply settings a = .ok a := by
  refine ⟨_, _, _, apply_eq_arrange h xs, apply_eq_arrange h ys, apply_eq_arrange h (xs ++ ys), ?_,
    ?_⟩
  · rw [apply_eq_arrange h, keep_append, keep_arrange, keep_arrange, arrange_append, keep_append]
  · rw [apply_eq_arrange h, keep_arrange, arrange_arrange]

/-- A rule that has all records level, which nothing but their order tells apart. -/
theorem apply_parts_level_records :
    let rule : SortRule := ⟨⟨"n"⟩, none, .ascending⟩
    let statements : List Statement := [[[("kind", .equal (.value (.text "k")))]]]
    let filter : Filter := { statements, sort := some rule, limit := some 2 }
    let settings := Settings.ofNow ⟨0, 0, by decide⟩
    let record (mark : Int) : Value := .object [("kind", .text "k"), ("mark", .int mark)]
    let xs := [record 1, record 2, .null, record 3]
    let ys := [record 4, .object []]
    (∃ checks, filter.compile settings = .ok checks) ∧
      ∃ a b whole, filter.apply settings xs = .ok a ∧ filter.apply settings ys = .ok b ∧
        filter.apply settings (xs ++ ys) = .ok whole ∧
        filter.apply settings (a ++ b) = .ok whole ∧ filter.apply settings a = .ok a := by
  intro rule statements filter settings record xs ys
  have hcompile : filter.compile settings = .ok [[[(⟨"kind"⟩, .equals (.text "k"))]]] := by
    with_unfolding_all rfl
  exact ⟨⟨_, hcompile⟩, apply_parts filter settings hcompile xs ys⟩

end Filter

end RecordQuery

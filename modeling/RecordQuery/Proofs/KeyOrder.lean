import Mathlib.Data.List.Induction
import Mathlib.Data.List.Sort
import RecordQuery.Keyed

/-!
# Entries in key order

A list of entries in key order stays so when an entry is put in (`Keyed.sorted_insert`), and there
is only one such list of given entries (`Keyed.Sorted.eq_of_mem_iff`). So putting entries in one by
one gives the list of them in key order whatever order they come in, as long as their keys are
distinct (`Keyed.ofList_eq_of_mem_iff`); where they are not, the last one for a key counts
(`Keyed.find?_ofList`).
-/

namespace RecordQuery

open Std

/-- Where the images under `f` are distinct, one element has the image of `b`. -/
theorem filter_eq_singleton_of_nodup {β γ : Type} [DecidableEq γ] {f : β → γ} {b : β} {bs : List β}
    (hnd : (bs.map f).Nodup) (h : b ∈ bs) : (bs.filter fun c => f c = f b) = [b] := by
  obtain ⟨bs₁, bs₂, rfl⟩ := List.append_of_mem h
  rw [List.map_append, List.map_cons, List.nodup_append, List.nodup_cons] at hnd
  have h₁ : (bs₁.filter fun c => f c = f b) = [] := by
    refine List.filter_eq_nil_iff.2 fun c hc hf => ?_
    exact hnd.2.2 _ (List.mem_map_of_mem hc) _ List.mem_cons_self (of_decide_eq_true hf)
  have h₂ : (bs₂.filter fun c => f c = f b) = [] := by
    refine List.filter_eq_nil_iff.2 fun c hc hf => ?_
    exact hnd.2.1.1 (List.mem_map.2 ⟨c, hc, of_decide_eq_true hf⟩)
  rw [List.filter_append, List.filter_cons_of_pos (by simp), h₁, h₂, List.nil_append]

namespace Keyed

variable {α : Type}

def keys (entries : List (String × α)) : List String :=
  entries.map Prod.fst

@[simp] theorem keys_cons (key : String) (a : α) (entries : List (String × α)) :
    keys ((key, a) :: entries) = key :: keys entries := rfl

theorem find?_of_notMem {key : String} : ∀ {entries : List (String × α)},
    key ∉ keys entries → find? key entries = none
  | [], _ => rfl
  | (k, a) :: entries, h => by
    rw [keys_cons, List.mem_cons, not_or] at h
    rw [find?, if_neg (Ne.symm h.1), find?_of_notMem h.2]

theorem mem_of_find? {key : String} {a : α} : ∀ {entries : List (String × α)},
    find? key entries = some a → (key, a) ∈ entries
  | (k, b) :: entries, h => by
    rw [find?] at h
    split at h
    · next hk =>
      cases h
      rw [hk]
      exact List.mem_cons_self
    · exact List.mem_cons_of_mem _ (mem_of_find? h)

/-- An entry after putting one in is that one or was there before. -/
theorem mem_insert {key : String} {a : α} {entry : String × α} :
    ∀ {entries : List (String × α)}, entry ∈ insert key a entries →
      entry = (key, a) ∨ entry ∈ entries
  | [], h => .inl (List.mem_singleton.1 h)
  | (k, b) :: entries, h => by
    rw [insert] at h
    split at h
    · exact List.mem_cons.1 h
    · rcases List.mem_cons.1 h with h | h
      · exact .inl h
      · exact .inr (List.mem_cons_of_mem _ h)
    · rcases List.mem_cons.1 h with rfl | h
      · exact .inr List.mem_cons_self
      · exact (mem_insert h).imp_right (List.mem_cons_of_mem _)

def Sorted (entries : List (String × α)) : Prop :=
  entries.Pairwise fun a b => compare a.1 b.1 = .lt

/-- Keys in ascending order, which is decidable whatever is under them. -/
abbrev Ascending (keys : List String) : Prop :=
  keys.Pairwise fun k l => compare k l = .lt

theorem sorted_of_ascending {entries : List (String × α)} (h : Ascending (keys entries)) :
    Sorted entries :=
  List.pairwise_map.1 h

theorem sorted_insert (key : String) (a : α) : ∀ {entries : List (String × α)},
    Sorted entries → Sorted (insert key a entries)
  | [], _ => List.pairwise_singleton _ _
  | (k, b) :: entries, h => by
    obtain ⟨hk, hrest⟩ := List.pairwise_cons.1 h
    rw [insert]
    split
    · next hlt =>
      refine List.pairwise_cons.2 ⟨List.forall_mem_cons.2 ⟨hlt, fun e he => ?_⟩, h⟩
      exact TransCmp.lt_trans hlt (hk e he)
    · next heq =>
      obtain rfl := LawfulEqOrd.eq_of_compare heq
      exact List.pairwise_cons.2 ⟨hk, hrest⟩
    · next hgt =>
      refine List.pairwise_cons.2 ⟨fun e he => ?_, sorted_insert key a hrest⟩
      rcases mem_insert he with rfl | he
      · exact OrientedCmp.lt_of_gt hgt
      · exact hk e he

theorem Sorted.nodup_keys {entries : List (String × α)} (h : Sorted entries) :
    (keys entries).Nodup := by
  refine List.Pairwise.map _ (fun a b hab heq => ?_) h
  have hself : compare b.1 b.1 = .lt := heq ▸ hab
  rw [ReflOrd.compare_self] at hself
  cases hself

theorem sorted_ofList (entries : List (String × α)) : Sorted (ofList entries) :=
  List.foldlRecOn entries _ List.Pairwise.nil fun _ h entry _ => sorted_insert entry.1 entry.2 h

theorem mem_of_mem_ofList {entries : List (String × α)} :
    ∀ {entry}, entry ∈ ofList entries → entry ∈ entries :=
  List.foldlRecOn (motive := fun sorted => ∀ {entry}, entry ∈ sorted → entry ∈ entries) entries _
    (fun h => absurd h List.not_mem_nil) fun _ ih entry hentry e he => by
      rcases mem_insert he with rfl | he
      · exact hentry
      · exact ih he

theorem find?_insert (key : String) (a : α) (k : String) : ∀ entries : List (String × α),
    find? k (insert key a entries) = if key = k then some a else find? k entries
  | [] => rfl
  | (l, b) :: entries => by
    rw [insert]
    split
    · rfl
    · next heq =>
      obtain rfl := LawfulEqOrd.eq_of_compare heq
      rw [find?, find?]
      split <;> rfl
    · next hgt =>
      have hne : key ≠ l := by
        rintro rfl
        rw [ReflOrd.compare_self] at hgt
        cases hgt
      rw [find?, find?, find?_insert key a k entries]
      split
      · next hl => rw [if_neg (fun hk => hne (hk.trans hl.symm))]
      · rfl

/-- An entry put in later counts. -/
theorem find?_ofList (k : String) (entries : List (String × α)) :
    find? k (ofList entries) = (entries.reverse.find? fun entry => entry.1 = k).map Prod.snd := by
  induction entries using List.reverseRecOn with
  | nil => rfl
  | append_singleton entries entry ih =>
    rw [ofList, List.foldl_append, List.foldl_cons, List.foldl_nil, find?_insert, ← ofList, ih,
      List.reverse_append, List.reverse_singleton, List.singleton_append, List.find?_cons]
    by_cases hk : entry.1 = k <;> simp [hk]

/-! ## Entries with distinct keys -/

theorem mem_insert_iff {key : String} {a : α} {entry : String × α} :
    ∀ {entries : List (String × α)}, key ∉ keys entries →
      (entry ∈ insert key a entries ↔ entry = (key, a) ∨ entry ∈ entries)
  | [], _ => by rw [insert, List.mem_singleton, or_iff_left List.not_mem_nil]
  | (k, b) :: entries, h => by
    rw [keys_cons, List.mem_cons, not_or] at h
    rw [insert]
    split
    · exact List.mem_cons
    · next heq => exact absurd (LawfulEqOrd.eq_of_compare heq) h.1
    · rw [List.mem_cons, mem_insert_iff h.2, List.mem_cons, or_left_comm]

theorem mem_ofList {entries : List (String × α)} (h : (keys entries).Nodup) (entry : String × α) :
    entry ∈ ofList entries ↔ entry ∈ entries := by
  induction entries using List.reverseRecOn with
  | nil => exact Iff.rfl
  | append_singleton entries last ih =>
    rw [keys, List.map_append, List.nodup_append] at h
    have hlast : last.1 ∉ keys (ofList entries) := fun hk => by
      obtain ⟨e, he, hek⟩ := List.mem_map.1 hk
      exact h.2.2 _ (List.mem_map_of_mem (mem_of_mem_ofList he)) _ (List.mem_singleton_self _) hek
    rw [ofList, List.foldl_append, List.foldl_cons, List.foldl_nil, ← ofList, mem_insert_iff hlast,
      ih h.1, List.mem_append, List.mem_singleton, or_comm]

theorem Sorted.eq_of_mem_iff {entries others : List (String × α)} (h : Sorted entries)
    (ho : Sorted others) (hmem : ∀ entry, entry ∈ entries ↔ entry ∈ others) : entries = others := by
  have : Std.Irrefl fun a b : String × α => compare a.1 b.1 = .lt :=
    ⟨fun a ha => by rw [ReflOrd.compare_self] at ha; cases ha⟩
  have : Std.Antisymm fun a b : String × α => compare a.1 b.1 = .lt :=
    ⟨fun a b hab hba => by rw [OrientedCmp.gt_of_lt hab] at hba; cases hba⟩
  exact List.Pairwise.eq_of_mem_iff h ho hmem

theorem ofList_eq_of_mem_iff {entries sorted : List (String × α)} (h : (keys entries).Nodup)
    (hs : Sorted sorted) (hmem : ∀ entry, entry ∈ entries ↔ entry ∈ sorted) :
    ofList entries = sorted :=
  (sorted_ofList entries).eq_of_mem_iff hs fun entry => (mem_ofList h entry).trans (hmem entry)

theorem Sorted.ofList_eq {entries : List (String × α)} (h : Sorted entries) :
    ofList entries = entries :=
  ofList_eq_of_mem_iff h.nodup_keys h fun _ => Iff.rfl

end Keyed

end RecordQuery

import Mathlib.Data.List.Nodup
import RecordQuery.Bucket.Tally

/-!
# The tally's invariant

A tally that entries have been counted into holds one entry for each key, and the same inside every
entry. Counting in an entry puts it at the end if its key is new (`absorb_of_notMem`), and otherwise
joins it to the one entry with its key where that stands (`absorb_append_cons`); everything else
said of tallies rests on these two facts.
-/

namespace RecordQuery

open Json

namespace Entry

def id : Entry → Option Value
  | mk _ id _ _ => id

def inner : Entry → Tally
  | mk _ _ _ inner => inner

/-- Two entries of one key as one, under the identifier of the first. -/
def join (e f : Entry) : Entry :=
  mk e.key e.id (e.count + f.count) (e.inner.absorbAll f.inner)

@[simp] theorem key_join (e f : Entry) : (e.join f).key = e.key := rfl

@[simp] theorem id_join (e f : Entry) : (e.join f).id = e.id := rfl

@[simp] theorem count_join (e f : Entry) : (e.join f).count = e.count + f.count := rfl

@[simp] theorem inner_join (e f : Entry) : (e.join f).inner = e.inner.absorbAll f.inner := rfl

@[simp] theorem key_of (id : Option Value) (count : Nat) (inner : Tally) :
    (of id count inner).key = id.map Value.canonicalKey := rfl

@[simp] theorem id_of (id : Option Value) (count : Nat) (inner : Tally) :
    (of id count inner).id = id := rfl

@[simp] theorem count_of (id : Option Value) (count : Nat) (inner : Tally) :
    (of id count inner).count = count := rfl

@[simp] theorem inner_of (id : Option Value) (count : Nat) (inner : Tally) :
    (of id count inner).inner = inner := rfl

end Entry

namespace Tally

def keys (t : Tally) : List (Option String) :=
  t.map Entry.key

@[simp] theorem keys_nil : keys [] = [] := rfl

@[simp] theorem keys_cons (e : Entry) (t : Tally) : keys (e :: t) = e.key :: keys t := rfl

@[simp] theorem keys_append (a b : Tally) : keys (a ++ b) = keys a ++ keys b := by
  simp [keys]

theorem key_mem_keys {t : Tally} {e : Entry} (h : e ∈ t) : e.key ∈ keys t :=
  List.mem_map_of_mem h

/-! ## Counting in one entry -/

section Upsert

variable {key : Option String} {update : Entry → Entry} {new : Entry}

theorem upsert_of_notMem : ∀ {t : Tally}, key ∉ keys t → upsert key update new t = t ++ [new]
  | [], _ => rfl
  | e :: t, h => by
    simp only [keys_cons, List.mem_cons, not_or] at h
    rw [upsert, if_neg (Ne.symm h.1), upsert_of_notMem h.2]
    rfl

theorem upsert_append_cons {e : Entry} (he : e.key = key) {t₂ : Tally} :
    ∀ {t₁ : Tally}, key ∉ keys t₁ →
      upsert key update new (t₁ ++ e :: t₂) = t₁ ++ update e :: t₂
  | [], _ => by rw [List.nil_append, upsert, if_pos he]; rfl
  | f :: t₁, h => by
    simp only [keys_cons, List.mem_cons, not_or] at h
    rw [List.cons_append, upsert, if_neg (Ne.symm h.1), upsert_append_cons he h.2]
    rfl

end Upsert

theorem absorb_eq_upsert (t : Tally) (e : Entry) :
    absorb t e = upsert e.key (fun f => f.join e) e t := by
  rcases e with ⟨key, id, count, inner⟩
  rw [absorb]
  congr 1
  funext f
  cases f
  rfl

theorem absorb_cons_of_eq {t : Tally} {e f : Entry} (h : f.key = e.key) :
    absorb (f :: t) e = f.join e :: t := by
  rw [absorb_eq_upsert, upsert, if_pos h]

theorem absorb_cons_of_ne {t : Tally} {e f : Entry} (h : f.key ≠ e.key) :
    absorb (f :: t) e = f :: absorb t e := by
  rw [absorb_eq_upsert, absorb_eq_upsert, upsert, if_neg h]

theorem absorb_of_notMem {t : Tally} {e : Entry} (h : e.key ∉ keys t) : absorb t e = t ++ [e] := by
  rw [absorb_eq_upsert, upsert_of_notMem h]

theorem absorb_append_cons {t₁ t₂ : Tally} {e f : Entry} (h : e.key ∉ keys t₁)
    (hf : f.key = e.key) : absorb (t₁ ++ f :: t₂) e = t₁ ++ f.join e :: t₂ := by
  rw [absorb_eq_upsert, upsert_append_cons hf h]

theorem exists_first {t : Tally} {key : Option String} (h : key ∈ keys t) :
    ∃ t₁ e t₂, t = t₁ ++ e :: t₂ ∧ e.key = key ∧ key ∉ keys t₁ := by
  obtain ⟨ks₁, ks₂, hks, hnot⟩ := List.eq_append_cons_of_mem h
  obtain ⟨t₁, rest, rfl, rfl, hrest⟩ := List.map_eq_append_iff.1 hks
  obtain ⟨e, t₂, rfl, he, -⟩ := List.map_eq_cons_iff.1 hrest
  exact ⟨t₁, e, t₂, rfl, he, hnot⟩

theorem absorb_cases (t : Tally) (e : Entry) :
    (e.key ∉ keys t ∧ absorb t e = t ++ [e]) ∨
      ∃ t₁ f t₂, t = t₁ ++ f :: t₂ ∧ f.key = e.key ∧ e.key ∉ keys t₁ ∧
        absorb t e = t₁ ++ f.join e :: t₂ := by
  by_cases h : e.key ∈ keys t
  · obtain ⟨t₁, f, t₂, rfl, hf, hnot⟩ := exists_first h
    exact .inr ⟨t₁, f, t₂, rfl, hf, hnot, absorb_append_cons hnot hf⟩
  · exact .inl ⟨h, absorb_of_notMem h⟩

theorem keys_absorb (t : Tally) (e : Entry) :
    keys (absorb t e) = if e.key ∈ keys t then keys t else keys t ++ [e.key] := by
  rcases absorb_cases t e with ⟨h, ht⟩ | ⟨t₁, f, t₂, rfl, hf, -, ht⟩
  · rw [ht, if_neg h, keys_append]
    rfl
  · rw [ht, if_pos (by simp [hf])]
    simp

/-! ## Counting in entries one after the other -/

@[simp] theorem absorbAll_nil (t : Tally) : absorbAll t [] = t := by
  rw [absorbAll]

@[simp] theorem absorbAll_cons (t : Tally) (e : Entry) (es : List Entry) :
    absorbAll t (e :: es) = absorbAll (absorb t e) es := by
  rw [absorbAll]

theorem absorbAll_append (t : Tally) :
    ∀ es fs : List Entry, absorbAll t (es ++ fs) = absorbAll (absorbAll t es) fs
  | [], fs => by simp
  | e :: es, fs => by
    simp only [List.cons_append, absorbAll_cons]
    exact absorbAll_append (absorb t e) es fs

theorem absorbAll_concat (t : Tally) (es : List Entry) (e : Entry) :
    absorbAll t (es ++ [e]) = absorb (absorbAll t es) e := by
  rw [absorbAll_append, absorbAll_cons, absorbAll_nil]

/-- Entries with new and distinct keys stay as they are. -/
theorem absorbAll_of_nodup : ∀ {es t : List Entry}, (keys (t ++ es)).Nodup →
    absorbAll t es = t ++ es
  | [], t, _ => by simp
  | e :: es, t, h => by
    have hnot : e.key ∉ keys t := by
      intro hmem
      rw [keys_append, keys_cons] at h
      exact (List.nodup_append.1 h).2.2 _ hmem _ List.mem_cons_self rfl
    rw [absorbAll_cons, absorb_of_notMem hnot, absorbAll_of_nodup (by simpa using h)]
    simp

/-! ## The invariant -/

/-- Distinct keys, each the canonical key of its entry's identifier, and the same inside every
entry. -/
inductive Sound : Tally → Prop
  | intro {t : Tally} (nodup : (keys t).Nodup)
      (key : ∀ e ∈ t, e.key = e.id.map Value.canonicalKey)
      (inner : ∀ e ∈ t, Sound e.inner) : Sound t

namespace Sound

variable {t : Tally}

theorem nodup : Sound t → (keys t).Nodup
  | intro nodup _ _ => nodup

theorem key : Sound t → ∀ e ∈ t, e.key = e.id.map Value.canonicalKey
  | intro _ key _ => key

theorem inner : Sound t → ∀ e ∈ t, Sound e.inner
  | intro _ _ inner => inner

end Sound

/-- What an entry has to be for a tally to stay sound when it is counted in. -/
def SoundEntry (e : Entry) : Prop :=
  e.key = e.id.map Value.canonicalKey ∧ Sound e.inner

theorem Sound.entry {t : Tally} (h : Sound t) {e : Entry} (he : e ∈ t) : SoundEntry e :=
  ⟨h.key e he, h.inner e he⟩

theorem sound_of_entries {t : Tally} (nodup : (keys t).Nodup) (h : ∀ e ∈ t, SoundEntry e) :
    Sound t :=
  .intro nodup (fun e he => (h e he).1) (fun e he => (h e he).2)

theorem sound_nil : Sound [] :=
  sound_of_entries List.nodup_nil (by simp)

theorem nodup_keys_absorb {t : Tally} (h : (keys t).Nodup) (e : Entry) :
    (keys (absorb t e)).Nodup := by
  rw [keys_absorb]
  split_ifs with he
  · exact h
  · rw [← List.concat_eq_append]
    exact h.concat he

mutual

/-- The induction is on the entry: joining it counts in the entries inside it. -/
theorem sound_absorb : ∀ {t : Tally} (e : Entry), Sound t → SoundEntry e → Sound (absorb t e)
  | t, .mk key id count inner, ht, he => by
    refine sound_of_entries (nodup_keys_absorb ht.nodup _) ?_
    rcases absorb_cases t (.mk key id count inner) with ⟨-, h⟩ | ⟨t₁, f, t₂, rfl, hf, -, h⟩
    · rw [h]
      intro g hg
      rcases List.mem_append.1 hg with hg | hg
      · exact ht.entry hg
      · rw [List.mem_singleton.1 hg]
        exact he
    · rw [h]
      intro g hg
      rcases List.mem_append.1 hg with hg | hg
      · exact ht.entry (List.mem_append_left _ hg)
      rcases List.mem_cons.1 hg with rfl | hg
      · have hf' := ht.entry (e := f) (by simp)
        exact ⟨hf'.1, sound_absorbAll inner hf'.2 fun g hg => Sound.entry he.2 hg⟩
      · exact ht.entry (List.mem_append_right _ (List.mem_cons_of_mem _ hg))

theorem sound_absorbAll : ∀ {t : Tally} (es : List Entry), Sound t → (∀ e ∈ es, SoundEntry e) →
    Sound (absorbAll t es)
  | t, [], ht, _ => by rwa [absorbAll_nil]
  | t, e :: es, ht, hes => by
    rw [absorbAll_cons]
    exact sound_absorbAll es (sound_absorb e ht (hes e List.mem_cons_self)) fun f hf =>
      hes f (List.mem_cons_of_mem _ hf)

end

end Tally

end RecordQuery

import RecordQuery.Proofs.TallyInv

/-!
# Merging tallies

Merging is associative where the middle tally is sound (`absorbAll_absorbAll`): an entry counted
into the middle one joins the one entry with its key there, and commutes with the entries behind
that one, whose keys differ. So a tally of some entries can stand for the entries themselves, and
the buckets of two parts of the records merge to the buckets of the whole.
-/

namespace RecordQuery

open Json

/-- Joining is associative if merging what is inside is. -/
theorem Entry.join_join {e f : Entry}
    (h : ∀ a : Tally, a.absorbAll (e.inner.absorbAll f.inner)
      = (a.absorbAll e.inner).absorbAll f.inner)
    (g : Entry) : g.join (e.join f) = (g.join e).join f := by
  show mk g.key g.id (g.count + (e.count + f.count))
      (g.inner.absorbAll (e.inner.absorbAll f.inner))
    = mk g.key g.id (g.count + e.count + f.count) ((g.inner.absorbAll e.inner).absorbAll f.inner)
  rw [h, Nat.add_assoc]

namespace Tally

/-! ## Order of counting in -/

/-- Entries of two keys change places if the second key is there already. -/
theorem absorb_comm {e f : Entry} (hne : e.key ≠ f.key) :
    ∀ {t : Tally}, f.key ∈ keys t → absorb (absorb t e) f = absorb (absorb t f) e
  | [], h => by simp at h
  | g :: t, h => by
    by_cases he : g.key = e.key
    · have hf : g.key ≠ f.key := fun hg => hne (he.symm.trans hg)
      rw [absorb_cons_of_eq he, absorb_cons_of_ne (by simpa using hf), absorb_cons_of_ne hf,
        absorb_cons_of_eq he]
    · by_cases hf : g.key = f.key
      · rw [absorb_cons_of_ne he, absorb_cons_of_eq hf, absorb_cons_of_eq hf,
          absorb_cons_of_ne (by simpa using he)]
      · have hmem : f.key ∈ keys t := by
          rcases List.mem_cons.1 h with h | h
          · exact absurd h.symm hf
          · exact h
        rw [absorb_cons_of_ne he, absorb_cons_of_ne hf, absorb_cons_of_ne hf, absorb_cons_of_ne he,
          absorb_comm hne hmem]

/-- An entry whose key is there already can be counted in before entries with other keys. -/
theorem absorbAll_absorb_comm {f : Entry} : ∀ {es t : List Entry}, f.key ∈ keys t →
    f.key ∉ keys es → absorb (absorbAll t es) f = absorbAll (absorb t f) es
  | [], t, _, _ => by simp
  | e :: es, t, hf, hes => by
    simp only [keys_cons, List.mem_cons, not_or] at hes
    have hf' : f.key ∈ keys (absorb t e) := by
      rw [keys_absorb]
      split_ifs
      · exact hf
      · exact List.mem_append_left _ hf
    rw [absorbAll_cons, absorbAll_cons, absorbAll_absorb_comm hf' hes.2,
      absorb_comm (Ne.symm hes.1) hf]

/-- Counting in two entries of one key is counting them in joined, if merging what is inside them
is associative. -/
theorem absorb_join {e f : Entry} (h : e.key = f.key)
    (hin : ∀ a, absorbAll a (absorbAll e.inner f.inner) = absorbAll (absorbAll a e.inner) f.inner)
    (t : Tally) : absorb t (e.join f) = absorb (absorb t e) f := by
  rcases absorb_cases t e with ⟨hnot, ht⟩ | ⟨t₁, g, t₂, rfl, hg, hnot, ht⟩
  · have hnot' : f.key ∉ keys t := h ▸ hnot
    rw [ht, absorb_of_notMem (by simpa using hnot), absorb_append_cons hnot' h]
  · have hnot' : f.key ∉ keys t₁ := h ▸ hnot
    have hgf : (g.join e).key = f.key := hg.trans h
    rw [ht, absorb_append_cons hnot' hgf, absorb_append_cons (e := e.join f) hnot hg]
    rw [Entry.join_join hin]

/-! ## Associativity -/

mutual

/-- The induction is on the entry, for the merge inside it when it joins one of `b`. -/
theorem absorbAll_absorb : ∀ {a b : Tally} (e : Entry), Sound b → SoundEntry e →
    absorbAll a (absorb b e) = absorb (absorbAll a b) e
  | a, b, .mk key id count inner, hb, he => by
    rcases absorb_cases b (.mk key id count inner) with ⟨-, h⟩ | ⟨b₁, f, b₂, rfl, hf, -, h⟩
    · rw [h, absorbAll_concat]
    · have hinner : ∀ c, absorbAll c (absorbAll f.inner inner)
          = absorbAll (absorbAll c f.inner) inner := fun c =>
        absorbAll_absorbAll inner (hb.inner f (by simp)) fun g hg => Sound.entry he.2 hg
      have hb₂ : (Entry.mk key id count inner).key ∉ keys b₂ := by
        have hnd := hb.nodup
        rw [keys_append, keys_cons] at hnd
        rw [← hf]
        exact (List.nodup_cons.1 (List.nodup_append.1 hnd).2.1).1
      have hmem : (Entry.mk key id count inner).key ∈ keys (absorb (absorbAll a b₁) f) := by
        rw [← hf, keys_absorb]
        split_ifs with hk
        · exact hk
        · simp
      rw [h, absorbAll_append, absorbAll_cons, absorb_join hf hinner, absorbAll_append,
        absorbAll_cons, absorbAll_absorb_comm hmem hb₂]

theorem absorbAll_absorbAll : ∀ {a b : Tally} (c : List Entry), Sound b →
    (∀ e ∈ c, SoundEntry e) → absorbAll a (absorbAll b c) = absorbAll (absorbAll a b) c
  | a, b, [], _, _ => by simp
  | a, b, e :: c, hb, hc => by
    have he := hc e List.mem_cons_self
    rw [absorbAll_cons, absorbAll_absorbAll c (sound_absorb e hb he) fun f hf =>
      hc f (List.mem_cons_of_mem _ hf), absorbAll_absorb e hb he, absorbAll_cons]

end

/-- The tally of entries stands for the entries. -/
theorem absorbAll_tallied (t : Tally) {es : List Entry} (h : ∀ e ∈ es, SoundEntry e) :
    absorbAll t (absorbAll [] es) = absorbAll t es := by
  rw [absorbAll_absorbAll es sound_nil h, absorbAll_nil]

/-! ## Tallies of documents -/

theorem soundEntry_contributions (settings : Settings) (doc : Value) :
    ∀ (levels : List Level), ∀ e ∈ contributions settings doc levels, SoundEntry e
  | [], e, h => by simp [contributions] at h
  | level :: deeper, e, h => by
    rw [contributions] at h
    obtain ⟨key, -, rfl⟩ := List.mem_map.1 h
    exact ⟨rfl, sound_absorbAll _ sound_nil (soundEntry_contributions settings doc deeper)⟩

/-- What a list of documents contributes. -/
def contributionsOf (settings : Settings) (levels : List Level) (docs : List Value) : List Entry :=
  docs.flatMap fun doc => contributions settings doc levels

theorem soundEntry_contributionsOf (settings : Settings) (levels : List Level) (docs : List Value) :
    ∀ e ∈ contributionsOf settings levels docs, SoundEntry e := by
  intro e h
  obtain ⟨doc, -, he⟩ := List.mem_flatMap.1 h
  exact soundEntry_contributions settings doc levels e he

end Tally

namespace Grouping

variable {α : Type} [Record α]

/-- Records are counted in one at a time, which is counting in all that they contribute. -/
theorem tally_eq (grouping : Grouping) (settings : Settings) (records : List α) :
    grouping.tally settings records = Tally.absorbAll []
      (Tally.contributionsOf settings grouping.levels (records.map Record.document)) := by
  suffices h : ∀ t : Tally, records.foldl
      (fun t record => t.insert grouping settings (Record.document record)) t = t.absorbAll
        (Tally.contributionsOf settings grouping.levels (records.map Record.document)) from h []
  induction records with
  | nil => intro t; simp [Tally.contributionsOf]
  | cons record records ih =>
    intro t
    rw [List.foldl_cons, ih, Tally.insert, ← Tally.absorbAll_append]
    rfl

theorem sound_tally (grouping : Grouping) (settings : Settings) (records : List α) :
    Tally.Sound (grouping.tally settings records) := by
  rw [tally_eq]
  exact Tally.sound_absorbAll _ Tally.sound_nil (Tally.soundEntry_contributionsOf _ _ _)

theorem merge_tally (grouping : Grouping) (settings : Settings) (xs ys : List α) :
    (grouping.tally settings xs).merge (grouping.tally settings ys)
      = grouping.tally settings (xs ++ ys) := by
  rw [Tally.merge, tally_eq grouping settings ys,
    Tally.absorbAll_tallied _ (Tally.soundEntry_contributionsOf _ _ _), tally_eq, tally_eq,
    ← Tally.absorbAll_append]
  simp [Tally.contributionsOf]

end Grouping

/-! ## Tallies as lists of buckets -/

namespace Tally

mutual

theorem entryOf_bucketOf : ∀ {e : Entry}, SoundEntry e → entryOf (bucketOf e) = e
  | .mk key id count inner, h => by
    have hkey : key = id.map Value.canonicalKey := h.1
    have hnd : (keys inner).Nodup := Sound.nodup h.2
    have hin : ∀ e ∈ inner, SoundEntry e := fun e he => Sound.entry h.2 he
    rw [bucketOf, entryOf, entriesOf_toBuckets hin, absorbAll_of_nodup (by simpa using hnd),
      List.nil_append, Entry.of, hkey]

theorem entriesOf_toBuckets : ∀ {es : List Entry}, (∀ e ∈ es, SoundEntry e) →
    entriesOf (toBuckets es) = es
  | [], _ => by rw [toBuckets, entriesOf]
  | e :: es, h => by
    rw [toBuckets, entriesOf, entryOf_bucketOf (h e List.mem_cons_self),
      entriesOf_toBuckets fun f hf => h f (List.mem_cons_of_mem _ hf)]

end

theorem ofBuckets_toBuckets {t : Tally} (h : Sound t) : ofBuckets (toBuckets t) = t := by
  rw [ofBuckets, entriesOf_toBuckets fun e he => h.entry he,
    absorbAll_of_nodup (by simpa using h.nodup), List.nil_append]

end Tally

theorem mergeBuckets_toBuckets {a b : Tally} (ha : Tally.Sound a) (hb : Tally.Sound b) :
    mergeBuckets (Tally.toBuckets a) (Tally.toBuckets b) = Tally.toBuckets (a.merge b) := by
  rw [mergeBuckets, Tally.ofBuckets_toBuckets ha, Tally.ofBuckets_toBuckets hb]

namespace Grouping

variable {α : Type} [Record α]

theorem apply_of_valid {grouping : Grouping} (h : grouping.validate = .ok ()) (settings : Settings)
    (records : List α) :
    grouping.apply settings records = .ok (Tally.toBuckets (grouping.tally settings records)) := by
  rw [apply, h]
  rfl

/-- The buckets of two parts of the records merge to the buckets of the whole. -/
theorem apply_append (grouping : Grouping) (settings : Settings) (xs ys : List α)
    (h : grouping.validate = .ok ()) :
    ∃ a b, grouping.apply settings xs = .ok a ∧ grouping.apply settings ys = .ok b ∧
      grouping.apply settings (xs ++ ys) = .ok (mergeBuckets a b) := by
  refine ⟨_, _, apply_of_valid h settings xs, apply_of_valid h settings ys, ?_⟩
  rw [apply_of_valid h, mergeBuckets_toBuckets (sound_tally _ _ _) (sound_tally _ _ _),
    merge_tally]

/-- Each record has one key twice, in either part. -/
theorem apply_append_repeated_key :
    let level : Level :=
      { field := ⟨"tags"⟩, itemIds := some [.text "t"], itemProperty := some "v" }
    let grouping : Grouping := ⟨level, [{ field := ⟨"kind"⟩ }]⟩
    let settings := Settings.ofNow ⟨0, 0, by decide⟩
    let item : Value := .object [("id", .text "t"), ("v", .boolean true)]
    let record : Value := .object [("kind", .text "k"), ("tags", .list [item, item])]
    (level.keys settings record).length = 2 ∧
      grouping.validate = .ok () ∧
      ∃ a b, grouping.apply settings [record] = .ok a ∧
        grouping.apply settings [record, record] = .ok b ∧
        grouping.apply settings [record, record, record] = .ok (mergeBuckets a b) := by
  intro level grouping settings item record
  have hvalid : grouping.validate = .ok () := by rfl
  refine ⟨by decide +kernel, hvalid, ?_⟩
  exact apply_append grouping settings [record] [record, record] hvalid

end Grouping

end RecordQuery

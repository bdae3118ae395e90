import RecordQuery.Bucket.Indexed
import RecordQuery.Proofs.TallyMerge

/-!
# The index of a tally

However a tally with an index was made, its index leads to each slot from the canonical key of the
slot and from no other key, and the same holds inside every slot
(`IndexedTally.Reachable.wellIndexed`). So a slot found through the index is the one found by its
key, and leaving the index out gives the tally that keeps the keys instead
(`IndexedTally.plain_absorb`).
-/

namespace RecordQuery

open Json

namespace Slot

/-- Two slots of one key as one, under the identifier of the first. -/
def join (s t : Slot) : Slot :=
  mk s.id (s.count + t.count) (s.inner.merge t.inner)

@[simp] theorem key_join (s t : Slot) : (s.join t).key = s.key := rfl

end Slot

namespace IndexedTally

/-- The canonical keys of the slots. -/
def keys (t : IndexedTally) : List (Option String) :=
  t.slots.map Slot.key

/-- The index leads from a key to a place just if the slot at the place has the key. -/
def IndexesSlots (t : IndexedTally) : Prop :=
  ∀ key place, t.index.lookup key = some place ↔ t.keys[place]? = some key

/-- A tally itself, or what is inside its slots at any depth. -/
inductive Within : IndexedTally → IndexedTally → Prop
  | refl (t : IndexedTally) : Within t t
  | inner {s t : IndexedTally} {slot : Slot} (hslot : slot ∈ t.slots) (h : Within s slot.inner) :
      Within s t

/-- The index is exact, at every level. -/
def WellIndexed (t : IndexedTally) : Prop :=
  ∀ s, Within s t → s.IndexesSlots

namespace WellIndexed

variable {t : IndexedTally}

theorem indexesSlots (h : t.WellIndexed) : t.IndexesSlots :=
  h t (.refl t)

theorem inner (h : t.WellIndexed) {slot : Slot} (hslot : slot ∈ t.slots) :
    slot.inner.WellIndexed :=
  fun s hs => h s (.inner hslot hs)

theorem intro (h : t.IndexesSlots) (hinner : ∀ slot ∈ t.slots, slot.inner.WellIndexed) :
    t.WellIndexed := by
  intro s hs
  cases hs with
  | refl => exact h
  | inner hslot hs => exact hinner _ hslot s hs

end WellIndexed

/-! ## Exact indexes -/

section IndexesSlots

variable {t : IndexedTally}

theorem IndexesSlots.nodup (h : t.IndexesSlots) : t.keys.Nodup := by
  rw [List.nodup_iff_getElem?_ne_getElem?]
  intro i j hij hj heq
  have hkey := List.getElem?_eq_getElem hj
  have hi := (h _ _).2 (heq.trans hkey)
  rw [(h _ _).2 hkey] at hi
  exact absurd (Option.some.inj hi) (Nat.ne_of_gt hij)

theorem IndexesSlots.lookup_eq_none (h : t.IndexesSlots) {key : Option String} :
    t.index.lookup key = none ↔ key ∉ t.keys := by
  rw [List.mem_iff_getElem?, Option.eq_none_iff_forall_ne_some, not_exists]
  exact forall_congr' fun place => not_congr (h key place)

theorem absorb_eq (t : IndexedTally) (slot : Slot) :
    t.absorb slot = match t.index.lookup slot.key with
      | some place => mk t.index (t.slots.modify place fun s => s.join slot)
      | none => mk ((slot.key, t.slots.length) :: t.index) (t.slots ++ [slot]) := by
  rcases t with ⟨index, slots⟩
  rcases slot with ⟨id, count, inner⟩
  cases hplace : index.lookup (id.map Value.canonicalKey) with
  | none => simp only [absorb, Slot.key, Slot.id, IndexedTally.index, IndexedTally.slots, hplace]
  | some place =>
    simp only [absorb, Slot.key, Slot.id, IndexedTally.index, hplace]
    exact congrArg (mk index) (congrArg (slots.modify place) (funext fun s => by cases s; rfl))

/-- A slot is put at the end if its key is new, and otherwise joins the one slot with its key where
that stands. -/
theorem absorb_cases (h : t.IndexesSlots) (slot : Slot) :
    (slot.key ∉ t.keys ∧
        t.absorb slot = mk ((slot.key, t.slots.length) :: t.index) (t.slots ++ [slot])) ∨
      ∃ s₁ s s₂, t.slots = s₁ ++ s :: s₂ ∧ s.key = slot.key ∧ slot.key ∉ s₁.map Slot.key ∧
        t.absorb slot = mk t.index (s₁ ++ s.join slot :: s₂) := by
  rw [absorb_eq]
  cases hplace : t.index.lookup slot.key with
  | none => exact .inl ⟨h.lookup_eq_none.1 hplace, rfl⟩
  | some place =>
    have hkey := (h _ _).1 hplace
    have hlt : place < t.slots.length := by
      simpa [keys] using (List.getElem?_eq_some_iff.1 hkey).1
    obtain ⟨s₁, s, s₂, hslots, rfl, hmodify⟩ :=
      List.exists_of_modify (fun s : Slot => s.join slot) hlt
    have hs : s.key = slot.key := by
      simpa [keys, hslots] using hkey
    refine .inr ⟨s₁, s, s₂, hslots, hs, fun hmem => ?_, congrArg _ hmodify⟩
    have hnodup := h.nodup
    rw [keys, hslots, List.map_append, List.map_cons, hs] at hnodup
    exact (List.nodup_append.1 hnodup).2.2 _ hmem _ List.mem_cons_self rfl

theorem getElem?_concat_eq_some {β : Type} {l : List β} {b c : β} {place : Nat} :
    (l ++ [b])[place]? = some c ↔ l[place]? = some c ∨ (l.length = place ∧ b = c) := by
  rcases Nat.lt_trichotomy place l.length with hlt | rfl | hgt
  · simp [List.getElem?_append_left hlt, Nat.ne_of_gt hlt]
  · simp
  · have hlen : (l ++ [b]).length ≤ place := by
      rw [List.length_append, List.length_singleton]
      omega
    simp [List.getElem?_eq_none hlen, List.getElem?_eq_none (Nat.le_of_lt hgt), Nat.ne_of_lt hgt]

/-- A new slot at the end, with its place put into the index. -/
theorem IndexesSlots.push (h : t.IndexesSlots) {slot : Slot} (hnew : slot.key ∉ t.keys) :
    (mk ((slot.key, t.slots.length) :: t.index) (t.slots ++ [slot])).IndexesSlots := by
  intro key place
  have hkeys : (mk ((slot.key, t.slots.length) :: t.index) (t.slots ++ [slot])).keys
      = t.keys ++ [slot.key] := List.map_append
  have hlen : t.keys.length = t.slots.length := List.length_map ..
  rw [hkeys, getElem?_concat_eq_some, ← h key place, hlen, index, List.lookup_cons]
  by_cases hkey : key = slot.key
  · have hnone : t.index.lookup key = none := h.lookup_eq_none.2 (hkey ▸ hnew)
    simp [← hkey, hnone]
  · simp [beq_eq_false_iff_ne.2 hkey, Ne.symm hkey]

/-- A slot in the place of one with the same key. -/
theorem IndexesSlots.replace {s₁ s₂ : List Slot} {s s' : Slot} (h : t.IndexesSlots)
    (hslots : t.slots = s₁ ++ s :: s₂) (hkey : s'.key = s.key) :
    (mk t.index (s₁ ++ s' :: s₂)).IndexesSlots := by
  have hkeys : (mk t.index (s₁ ++ s' :: s₂)).keys = t.keys := by
    rw [keys, keys, hslots, slots, List.map_append, List.map_append, List.map_cons, List.map_cons,
      hkey]
  intro key place
  rw [hkeys]
  exact h key place

end IndexesSlots

theorem wellIndexed_empty : empty.WellIndexed :=
  .intro (fun key place => by simp [empty, index, keys, slots]) (by simp [empty, slots])

@[simp] theorem absorbAll_nil (t : IndexedTally) : t.absorbAll [] = t := by
  rw [absorbAll]

@[simp] theorem absorbAll_cons (t : IndexedTally) (slot : Slot) (slots : List Slot) :
    t.absorbAll (slot :: slots) = (t.absorb slot).absorbAll slots := by
  rw [absorbAll]

mutual

/-- The induction is on the slot: joining it merges what is inside it. -/
theorem wellIndexed_absorb : ∀ {t : IndexedTally} (slot : Slot), t.WellIndexed →
    slot.inner.WellIndexed → (t.absorb slot).WellIndexed
  | t, .mk id count inner, ht, hslot => by
    rcases absorb_cases ht.indexesSlots (.mk id count inner) with
      ⟨hnew, h⟩ | ⟨s₁, s, s₂, hslots, -, -, h⟩
    · rw [h]
      refine .intro (ht.indexesSlots.push hnew) fun s hs => ?_
      rcases List.mem_append.1 hs with hs | hs
      · exact ht.inner hs
      · rw [List.mem_singleton.1 hs]
        exact hslot
    · rw [h]
      refine .intro (ht.indexesSlots.replace hslots (Slot.key_join ..)) fun s' hs' => ?_
      rcases List.mem_append.1 hs' with hs' | hs'
      · exact ht.inner (hslots ▸ List.mem_append_left _ hs')
      rcases List.mem_cons.1 hs' with rfl | hs'
      · have hmem : s ∈ t.slots := by simp [hslots]
        exact wellIndexed_merge inner (ht.inner hmem) hslot
      · exact ht.inner (by simp [hslots, hs'])

theorem wellIndexed_merge : ∀ {t : IndexedTally} (u : IndexedTally), t.WellIndexed →
    u.WellIndexed → (t.merge u).WellIndexed
  | t, .mk index slots, ht, hu => by
    rw [merge]
    exact wellIndexed_absorbAll slots ht fun slot hslot => hu.inner hslot

theorem wellIndexed_absorbAll : ∀ {t : IndexedTally} (slots : List Slot), t.WellIndexed →
    (∀ slot ∈ slots, slot.inner.WellIndexed) → (t.absorbAll slots).WellIndexed
  | t, [], ht, _ => by rwa [absorbAll_nil]
  | t, slot :: slots, ht, hslots => by
    rw [absorbAll_cons]
    exact wellIndexed_absorbAll slots (wellIndexed_absorb slot ht (hslots slot List.mem_cons_self))
      fun s hs => hslots s (List.mem_cons_of_mem _ hs)

end

theorem wellIndexed_contributions (settings : Settings) (doc : Value) :
    ∀ levels : List Level, ∀ slot ∈ contributions settings doc levels, slot.inner.WellIndexed
  | [], slot, h => by simp [contributions] at h
  | level :: deeper, slot, h => by
    rw [contributions] at h
    obtain ⟨key, -, rfl⟩ := List.mem_map.1 h
    exact wellIndexed_absorbAll _ wellIndexed_empty (wellIndexed_contributions settings doc deeper)

mutual

theorem wellIndexed_slotOf : ∀ b : Bucket, (slotOf b).inner.WellIndexed
  | .mk id count bs => by
    rw [slotOf]
    exact wellIndexed_absorbAll _ wellIndexed_empty (wellIndexed_slotsOf bs)

theorem wellIndexed_slotsOf : ∀ bs : List Bucket, ∀ slot ∈ slotsOf bs, slot.inner.WellIndexed
  | [], slot, h => by simp [slotsOf] at h
  | b :: bs, slot, h => by
    rw [slotsOf] at h
    rcases List.mem_cons.1 h with rfl | h
    · exact wellIndexed_slotOf b
    · exact wellIndexed_slotsOf bs slot h

end

/-- The tallies that can be made, from documents, other tallies and buckets. -/
inductive Reachable : IndexedTally → Prop
  | empty : Reachable empty
  | insert {t : IndexedTally} (h : Reachable t) (grouping : Grouping) (settings : Settings)
      (doc : Value) : Reachable (t.insert grouping settings doc)
  | merge {t u : IndexedTally} (ht : Reachable t) (hu : Reachable u) : Reachable (t.merge u)
  | ofBuckets (bs : List Bucket) : Reachable (ofBuckets bs)

theorem Reachable.wellIndexed {t : IndexedTally} (h : Reachable t) : t.WellIndexed := by
  induction h with
  | empty => exact wellIndexed_empty
  | insert _ grouping settings doc ih =>
    exact wellIndexed_absorbAll _ ih (wellIndexed_contributions settings doc grouping.levels)
  | merge _ _ iht ihu => exact wellIndexed_merge _ iht ihu
  | ofBuckets bs => exact wellIndexed_absorbAll _ wellIndexed_empty (wellIndexed_slotsOf bs)

/-! ## Leaving the index out -/

mutual

/-- The tally that keeps the keys instead of an index. -/
def plain : IndexedTally → Tally
  | mk _ slots => plainSlots slots

def plainSlot : Slot → Entry
  | .mk id count inner => .of id count (plain inner)

def plainSlots : List Slot → List Entry
  | [] => []
  | slot :: slots => plainSlot slot :: plainSlots slots

end

theorem plainSlots_eq_map : ∀ slots : List Slot, plainSlots slots = slots.map plainSlot
  | [] => by rw [plainSlots, List.map_nil]
  | slot :: slots => by rw [plainSlots, plainSlots_eq_map slots, List.map_cons]

theorem plain_eq_map (t : IndexedTally) : t.plain = t.slots.map plainSlot := by
  cases t
  rw [plain, plainSlots_eq_map]
  rfl

@[simp] theorem key_plainSlot (slot : Slot) : (plainSlot slot).key = slot.key := by
  cases slot
  rw [plainSlot]
  rfl

theorem keys_map_plainSlot (slots : List Slot) :
    Tally.keys (slots.map plainSlot) = slots.map Slot.key := by
  rw [Tally.keys, List.map_map]
  exact List.map_congr_left fun slot _ => key_plainSlot slot

theorem join_plainSlot {s slot : Slot}
    (h : (s.inner.merge slot.inner).plain = s.inner.plain.absorbAll slot.inner.plain) :
    (plainSlot s).join (plainSlot slot) = plainSlot (s.join slot) := by
  rcases s with ⟨id, count, inner⟩
  rcases slot with ⟨id', count', inner'⟩
  simp only [Slot.inner] at h
  simp only [plainSlot, Slot.join, Slot.inner, h]
  rfl

mutual

/-- A slot that is found through the index is the one that is found by its key. -/
theorem plain_absorb : ∀ {t : IndexedTally} (slot : Slot), t.WellIndexed →
    slot.inner.WellIndexed → (t.absorb slot).plain = t.plain.absorb (plainSlot slot)
  | t, .mk id count inner, ht, hslot => by
    rcases absorb_cases ht.indexesSlots (.mk id count inner) with
      ⟨hnew, h⟩ | ⟨s₁, s, s₂, hslots, hkey, hnot, h⟩
    · rw [Tally.absorb_of_notMem (by rwa [plain_eq_map, keys_map_plainSlot, key_plainSlot]), h,
        plain_eq_map, plain_eq_map, slots, List.map_append]
      rfl
    · have hmem : s ∈ t.slots := by simp [hslots]
      have hmerge := plain_merge inner (ht.inner hmem) hslot
      rw [plain_eq_map t, hslots, List.map_append, List.map_cons,
        Tally.absorb_append_cons (by rwa [keys_map_plainSlot, key_plainSlot]) (by simp [hkey]),
        join_plainSlot hmerge, h, plain_eq_map, slots, List.map_append, List.map_cons]

theorem plain_merge : ∀ {t : IndexedTally} (u : IndexedTally), t.WellIndexed → u.WellIndexed →
    (t.merge u).plain = t.plain.merge u.plain
  | t, .mk index slots, ht, hu => by
    rw [merge, plain, Tally.merge]
    exact plain_absorbAll slots ht fun slot hslot => hu.inner hslot

theorem plain_absorbAll : ∀ {t : IndexedTally} (slots : List Slot), t.WellIndexed →
    (∀ slot ∈ slots, slot.inner.WellIndexed) →
      (t.absorbAll slots).plain = t.plain.absorbAll (plainSlots slots)
  | t, [], _, _ => by rw [absorbAll_nil, plainSlots, Tally.absorbAll_nil]
  | t, slot :: slots, ht, hslots => by
    have hslot := hslots slot List.mem_cons_self
    rw [absorbAll_cons, plain_absorbAll slots (wellIndexed_absorb slot ht hslot) fun s hs =>
      hslots s (List.mem_cons_of_mem _ hs), plain_absorb slot ht hslot, plainSlots,
      Tally.absorbAll_cons]

end

mutual

theorem sound_plain : ∀ t : IndexedTally, t.WellIndexed → Tally.Sound t.plain
  | .mk index slots, h => by
    have hnodup := h.indexesSlots.nodup
    rw [plain]
    refine Tally.sound_of_entries ?_ (soundEntry_plainSlots slots fun slot hslot => h.inner hslot)
    rwa [plainSlots_eq_map, keys_map_plainSlot]

theorem soundEntry_plainSlots : ∀ slots : List Slot, (∀ slot ∈ slots, slot.inner.WellIndexed) →
    ∀ e ∈ plainSlots slots, Tally.SoundEntry e
  | [], _, e, he => by simp [plainSlots] at he
  | .mk id count inner :: slots, h, e, he => by
    rw [plainSlots] at he
    rcases List.mem_cons.1 he with rfl | he
    · rw [plainSlot]
      exact ⟨rfl, sound_plain inner (h _ List.mem_cons_self)⟩
    · exact soundEntry_plainSlots slots (fun slot hslot => h slot (List.mem_cons_of_mem _ hslot)) e he

end

/-! ## Buckets and documents -/

mutual

theorem toBuckets_plain : ∀ t : IndexedTally, Tally.toBuckets t.plain = t.toBuckets
  | mk index slots => by rw [plain, toBuckets, toBuckets_plainSlots slots]

theorem bucketOf_plainSlot : ∀ slot : Slot, Tally.bucketOf (plainSlot slot) = bucketOf slot
  | .mk id count inner => by
    rw [plainSlot, Entry.of, Tally.bucketOf, bucketOf, toBuckets_plain inner]

theorem toBuckets_plainSlots : ∀ slots : List Slot,
    Tally.toBuckets (plainSlots slots) = bucketsOf slots
  | [] => by rw [plainSlots, bucketsOf, Tally.toBuckets]
  | slot :: slots => by
    rw [plainSlots, bucketsOf, Tally.toBuckets, bucketOf_plainSlot slot,
      toBuckets_plainSlots slots]

end

theorem plain_tallied {slots : List Slot} (h : ∀ slot ∈ slots, slot.inner.WellIndexed) :
    (absorbAll empty slots).plain = Tally.absorbAll [] (plainSlots slots) :=
  plain_absorbAll slots wellIndexed_empty h

mutual

theorem plainSlot_slotOf : ∀ b : Bucket, plainSlot (slotOf b) = Tally.entryOf b
  | .mk id count bs => by
    rw [slotOf, plainSlot, plain_tallied (wellIndexed_slotsOf bs), plainSlots_slotsOf bs,
      Tally.entryOf]

theorem plainSlots_slotsOf : ∀ bs : List Bucket, plainSlots (slotsOf bs) = Tally.entriesOf bs
  | [] => by rw [slotsOf, plainSlots, Tally.entriesOf]
  | b :: bs => by
    rw [slotsOf, plainSlots, plainSlot_slotOf b, plainSlots_slotsOf bs, Tally.entriesOf]

end

theorem plain_ofBuckets (bs : List Bucket) : (ofBuckets bs).plain = Tally.ofBuckets bs := by
  rw [ofBuckets, plain_tallied (wellIndexed_slotsOf bs), plainSlots_slotsOf, Tally.ofBuckets]

theorem plainSlots_contributions (settings : Settings) (doc : Value) : ∀ levels : List Level,
    plainSlots (contributions settings doc levels) = Tally.contributions settings doc levels
  | [] => by rw [contributions, plainSlots, Tally.contributions]
  | level :: deeper => by
    rw [contributions, plainSlots_eq_map, List.map_map, Tally.contributions]
    refine List.map_congr_left fun key _ => ?_
    rw [Function.comp_apply, plainSlot, plain_tallied (wellIndexed_contributions settings doc deeper),
      plainSlots_contributions settings doc deeper]

theorem plain_insert {t : IndexedTally} (h : t.WellIndexed) (grouping : Grouping)
    (settings : Settings) (doc : Value) :
    (t.insert grouping settings doc).plain = t.plain.insert grouping settings doc := by
  rw [insert, plain_absorbAll _ h (wellIndexed_contributions settings doc _),
    plainSlots_contributions, Tally.insert]

theorem plain_foldl_insert {α : Type} [Record α] (grouping : Grouping) (settings : Settings) :
    ∀ (records : List α) {t : IndexedTally}, t.WellIndexed →
      (records.foldl (fun t record => t.insert grouping settings (Record.document record)) t).plain
        = records.foldl (fun t record => t.insert grouping settings (Record.document record)) t.plain
  | [], _, _ => rfl
  | record :: records, t, h => by
    rw [List.foldl_cons, List.foldl_cons, ← plain_insert h]
    exact plain_foldl_insert grouping settings records
      (wellIndexed_absorbAll _ h (wellIndexed_contributions settings _ _))

theorem toBuckets_ofBuckets_toBuckets {t : IndexedTally} (h : t.WellIndexed) :
    (ofBuckets t.toBuckets).toBuckets = t.toBuckets := by
  rw [← toBuckets_plain, plain_ofBuckets, ← toBuckets_plain t,
    Tally.ofBuckets_toBuckets (sound_plain t h)]

/-- The index of a tally that was made in any way is exact at every level, so keys are distinct at
every level, and the tally of its buckets has the same buckets. -/
theorem exact_of_reachable {t : IndexedTally} (h : t.Reachable) :
    (∀ s, Within s t → s.IndexesSlots ∧ s.keys.Nodup) ∧
      (ofBuckets t.toBuckets).toBuckets = t.toBuckets := by
  refine ⟨fun s hs => ?_, toBuckets_ofBuckets_toBuckets h.wellIndexed⟩
  have hexact := h.wellIndexed s hs
  exact ⟨hexact, hexact.nodup⟩

/-- Buckets in which a key comes up twice, a document with that key and a new one inside it, and the
buckets once more. -/
theorem exact_of_reachable_repeated_key :
    let grouping : Grouping := ⟨{ field := ⟨"kind"⟩ }, [{ field := ⟨"state"⟩ }]⟩
    let settings := Settings.ofNow ⟨0, 0, by decide⟩
    let doc : Value := .object [("kind", .boolean true), ("state", .text "x")]
    let buckets : List Bucket := [.mk none 1 [], .mk (some (.boolean true)) 1 [],
      .mk (some (.boolean true)) 2 [.mk (some .null) 2 [], .mk none 1 []]]
    let t := ((ofBuckets buckets).insert grouping settings doc).merge (ofBuckets buckets)
    t.Reachable ∧ t.index = [(some "true", 1), (none, 0)] ∧
      t.slots.map (fun slot => slot.inner.index)
        = [[], [(some "\"x\"", 2), (none, 1), (some "null", 0)]] ∧
      (∀ s, Within s t → s.IndexesSlots ∧ s.keys.Nodup) ∧
      (ofBuckets t.toBuckets).toBuckets = t.toBuckets := by
  intro grouping settings doc buckets t
  have hreachable : t.Reachable := .merge (.insert (.ofBuckets _) _ _ _) (.ofBuckets _)
  exact ⟨hreachable, by decide +kernel, by decide +kernel, exact_of_reachable hreachable⟩

end IndexedTally

/-! ## Results without an index -/

theorem Grouping.apply_eq_indexed {α : Type} [Record α] (grouping : Grouping)
    (settings : Settings) (records : List α) :
    grouping.apply settings records = (do
      grouping.validate
      return (records.foldl (fun t record => t.insert grouping settings (Record.document record))
        IndexedTally.empty).toBuckets) := by
  rw [apply, tally, ← IndexedTally.toBuckets_plain,
    IndexedTally.plain_foldl_insert grouping settings records IndexedTally.wellIndexed_empty]
  rfl

theorem mergeBuckets_eq_indexed (as bs : List Bucket) :
    mergeBuckets as bs = ((IndexedTally.ofBuckets as).merge (IndexedTally.ofBuckets bs)).toBuckets := by
  have has := (IndexedTally.Reachable.ofBuckets as).wellIndexed
  have hbs := (IndexedTally.Reachable.ofBuckets bs).wellIndexed
  rw [mergeBuckets, ← IndexedTally.plain_ofBuckets, ← IndexedTally.plain_ofBuckets,
    ← IndexedTally.plain_merge _ has hbs, IndexedTally.toBuckets_plain]

end RecordQuery

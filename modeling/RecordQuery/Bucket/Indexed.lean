import RecordQuery.Bucket.Tally

/-!
# Tallies with an index

The same counting with slots that are found through an index instead of by their keys: a slot holds
no key, and the index says at which place the slot of a canonical key is. Slots and index are
brought up to date one after the other, and the slots inside a slot have an index of their own.
-/

namespace RecordQuery

open Json

/-- The places of keys, the latest first. -/
abbrev SlotIndex := List (Option String × Nat)

mutual

/-- An index and the slots it leads to, in the order in which their keys were first met. -/
inductive IndexedTally where
  | mk (index : SlotIndex) (slots : List Slot)

/-- A bucket so far. -/
inductive Slot where
  | mk (id : Option Value) (count : Nat) (inner : IndexedTally)

end

namespace Slot

def id : Slot → Option Value
  | mk id _ _ => id

def count : Slot → Nat
  | mk _ count _ => count

def inner : Slot → IndexedTally
  | mk _ _ inner => inner

/-- The canonical key of the identifier. -/
def key (slot : Slot) : Option String :=
  slot.id.map Value.canonicalKey

end Slot

namespace IndexedTally

def index : IndexedTally → SlotIndex
  | mk index _ => index

def slots : IndexedTally → List Slot
  | mk _ slots => slots

def empty : IndexedTally :=
  mk [] []

mutual

/-- Counts a slot in: at the place of its key, or at the end under a new key. -/
def absorb : IndexedTally → Slot → IndexedTally
  | mk index slots, .mk id count inner =>
    let key := id.map Value.canonicalKey
    match index.lookup key with
    | some place =>
      mk index (slots.modify place fun
        | .mk id' count' inner' => .mk id' (count' + count) (merge inner' inner))
    | none => mk ((key, slots.length) :: index) (slots ++ [.mk id count inner])

/-- The tally of two tallies together. -/
def merge (tally : IndexedTally) : IndexedTally → IndexedTally
  | mk _ slots => absorbAll tally slots

/-- Counts slots in, one after the other. -/
def absorbAll (tally : IndexedTally) : List Slot → IndexedTally
  | [] => tally
  | slot :: slots => absorbAll (absorb tally slot) slots

end

/-- What one document contributes at the levels given: a slot of count one for each of its keys,
with the document alone in its inner tally. -/
def contributions (settings : Settings) (doc : Value) : List Level → List Slot
  | [] => []
  | level :: deeper =>
    (level.keys settings doc).map fun key =>
      .mk key 1 (absorbAll empty (contributions settings doc deeper))

/-- Counts a document in. -/
def insert (grouping : Grouping) (settings : Settings) (tally : IndexedTally) (doc : Value) :
    IndexedTally :=
  absorbAll tally (contributions settings doc grouping.levels)

/-- The sum of the counts at the outermost level. -/
def total (tally : IndexedTally) : Nat :=
  tally.slots.foldl (fun sum slot => sum + slot.count) 0

mutual

/-- The buckets of the slots. -/
def toBuckets : IndexedTally → List Bucket
  | mk _ slots => bucketsOf slots

def bucketOf : Slot → Bucket
  | .mk id count inner => .mk id count (toBuckets inner)

def bucketsOf : List Slot → List Bucket
  | [] => []
  | slot :: slots => bucketOf slot :: bucketsOf slots

end

mutual

/-- The slot of a bucket. -/
def slotOf : Bucket → Slot
  | .mk id count buckets => .mk id count (absorbAll empty (slotsOf buckets))

def slotsOf : List Bucket → List Slot
  | [] => []
  | bucket :: buckets => slotOf bucket :: slotsOf buckets

end

/-- The tally of a list of buckets, in which a key may come up more than once. -/
def ofBuckets (buckets : List Bucket) : IndexedTally :=
  absorbAll empty (slotsOf buckets)

end IndexedTally

end RecordQuery

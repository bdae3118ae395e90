import RecordQuery.Bucket.Grouping

/-!
# Counting into buckets

A tally holds one entry for each canonical key, in the order in which the keys were first met, and
inside each entry the tally of the next level. Documents are counted one at a time, and tallies of
parts of the records can be merged: what `Tally.absorb` does with an entry whose key is there
already is to add its count and merge its inner tally.
-/

namespace RecordQuery

open Json

/-- A group of records: its key, their number and the groups inside. -/
inductive Bucket where
  | mk (id : Option Value) (count : Nat) (buckets : List Bucket)

namespace Bucket

def id : Bucket → Option Value
  | mk id _ _ => id

def count : Bucket → Nat
  | mk _ count _ => count

def buckets : Bucket → List Bucket
  | mk _ _ buckets => buckets

mutual

/-- The document that a bucket is for later steps. -/
def document : Bucket → Value
  | mk id count buckets =>
    .ofMembers [("id", id.getD .null), ("value", .int count), ("buckets", .list (documents buckets))]

def documents : List Bucket → List Value
  | [] => []
  | bucket :: buckets => bucket.document :: documents buckets

end

instance : Record Bucket where
  document := document

end Bucket

/-- An entry of a tally: the canonical key of its bucket, and the bucket so far. -/
inductive Entry where
  | mk (key : Option String) (id : Option Value) (count : Nat) (inner : List Entry)

/-- Entries with distinct keys, in the order of their first occurrence. -/
abbrev Tally := List Entry

namespace Entry

def key : Entry → Option String
  | mk key _ _ _ => key

def count : Entry → Nat
  | mk _ _ count _ => count

/-- An entry under the canonical key of its identifier. -/
def of (id : Option Value) (count : Nat) (inner : Tally) : Entry :=
  mk (id.map Value.canonicalKey) id count inner

end Entry

namespace Tally

/-- Applies `update` to the entry with the key, or puts `new` at the end. -/
def upsert (key : Option String) (update : Entry → Entry) (new : Entry) : Tally → Tally
  | [] => [new]
  | entry :: entries =>
    if entry.key = key then update entry :: entries
    else entry :: upsert key update new entries

mutual

/-- Counts an entry in. -/
def absorb (tally : Tally) : Entry → Tally
  | .mk key id count inner =>
    upsert key
      (fun | .mk key' id' count' inner' => .mk key' id' (count' + count) (absorbAll inner' inner))
      (.mk key id count inner) tally

/-- Counts entries in, one after the other. -/
def absorbAll (tally : Tally) : List Entry → Tally
  | [] => tally
  | entry :: entries => absorbAll (absorb tally entry) entries

end

/-- The tally of two tallies together. -/
def merge (a b : Tally) : Tally :=
  absorbAll a b

/-- What one document contributes at the levels given: an entry of count one for each of its keys,
with the document alone in its inner tally. -/
def contributions (settings : Settings) (doc : Value) : List Level → List Entry
  | [] => []
  | level :: deeper =>
    (level.keys settings doc).map fun key =>
      .of key 1 (absorbAll [] (contributions settings doc deeper))

/-- Counts a document in. -/
def insert (grouping : Grouping) (settings : Settings) (tally : Tally) (doc : Value) : Tally :=
  absorbAll tally (contributions settings doc grouping.levels)

/-- The sum of the counts at the outermost level. -/
def total (tally : Tally) : Nat :=
  tally.foldl (fun sum entry => sum + entry.count) 0

mutual

/-- The bucket of an entry. -/
def bucketOf : Entry → Bucket
  | .mk _ id count inner => .mk id count (toBuckets inner)

def toBuckets : List Entry → List Bucket
  | [] => []
  | entry :: entries => bucketOf entry :: toBuckets entries

end

mutual

/-- The entry of a bucket. -/
def entryOf : Bucket → Entry
  | .mk id count buckets => .of id count (absorbAll [] (entriesOf buckets))

def entriesOf : List Bucket → List Entry
  | [] => []
  | bucket :: buckets => entryOf bucket :: entriesOf buckets

end

/-- The tally of a list of buckets, in which a key may come up more than once. -/
def ofBuckets (buckets : List Bucket) : Tally :=
  absorbAll [] (entriesOf buckets)

end Tally

namespace Grouping

variable {α : Type} [Record α]

/-- The tally of a list of records. -/
def tally (grouping : Grouping) (settings : Settings) (records : List α) : Tally :=
  records.foldl (fun t record => t.insert grouping settings (Record.document record)) []

/-- The buckets of a list of records, if the grouping is valid. -/
def apply (grouping : Grouping) (settings : Settings) (records : List α) :
    Except Fault (List Bucket) := do
  grouping.validate
  return Tally.toBuckets (grouping.tally settings records)

end Grouping

/-- The buckets of two lists of buckets together: those of the first, then the new ones of the
second. -/
def mergeBuckets (a b : List Bucket) : List Bucket :=
  Tally.toBuckets ((Tally.ofBuckets a).merge (Tally.ofBuckets b))

end RecordQuery

import RecordQuery.Json.Value

/-!
# JSON text as a tree

A tree is what a text says, with members in the order written and repeated keys kept. A text that
stops being JSON half way is still a tree up to there, with `Tree.broken` where it stops, so that
whoever reads the tree in order meets the faults of its content and of its form in the order of
the text. `Tree.refused` stands for sound JSON that is no value: a number beyond every double, half
a surrogate pair, or lists and objects nested too deep.
-/

namespace RecordQuery.Json

inductive Tree where
  | null
  | boolean (b : Bool)
  | number (n : Number)
  | text (s : String)
  | list (items : List Tree)
  /-- A key that is no text is absent. -/
  | object (members : List (Option String × Tree))
  | refused
  | broken

namespace Tree

mutual

/-- Whether the text is JSON all the way through. -/
def isSound : Tree → Bool
  | list items => itemsSound items
  | object members => membersSound members
  | broken => false
  | _ => true

def itemsSound : List Tree → Bool
  | [] => true
  | item :: items => item.isSound && itemsSound items

def membersSound : List (Option String × Tree) → Bool
  | [] => true
  | (_, value) :: members => value.isSound && membersSound members

end

mutual

/-- The value a tree stands for. The last member of a key counts, but all must be values. -/
def value? : Tree → Option Value
  | null => some .null
  | boolean b => some (.boolean b)
  | number n => some (.number n)
  | text s => some (.text s)
  | list items => (itemValues? items).map .list
  | object members => (memberValues? members).map .ofMembers
  | refused | broken => none

def itemValues? : List Tree → Option (List Value)
  | [] => some []
  | item :: items => do
    let value ← item.value?
    let values ← itemValues? items
    return value :: values

def memberValues? : List (Option String × Tree) → Option (List (String × Value))
  | [] => some []
  | (key, member) :: members => do
    let key ← key
    let value ← member.value?
    let values ← memberValues? members
    return (key, value) :: values

end

mutual

/-- The tree of a value. -/
def ofValue : Value → Tree
  | .null => null
  | .boolean b => boolean b
  | .number n => number n
  | .text s => text s
  | .list items => list (ofItems items)
  | .object members => object (ofMembers members)

def ofItems : List Value → List Tree
  | [] => []
  | item :: items => ofValue item :: ofItems items

def ofMembers : List (String × Value) → List (Option String × Tree)
  | [] => []
  | (key, value) :: members => (some key, ofValue value) :: ofMembers members

end

end Tree

end RecordQuery.Json

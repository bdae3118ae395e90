import RecordQuery.Json.Number
import RecordQuery.Keyed

/-!
# JSON values

A value holds the members of an object in ascending order of their keys. `Value.same` is equality
of structure, which tells `2` from `2.0` but not `0.0` from `-0.0`.
-/

namespace RecordQuery.Json

inductive Value where
  | null
  | boolean (b : Bool)
  | number (n : Number)
  | text (s : String)
  | list (items : List Value)
  | object (members : List (String × Value))

namespace Value

instance : Inhabited Value := ⟨null⟩

/-- An object of the given members, the last one for a key winning. -/
def ofMembers (members : List (String × Value)) : Value :=
  object (Keyed.ofList members)

def int (n : Int) : Value :=
  number (.ofInt n)

mutual

/-- Equality of structure. -/
def same : Value → Value → Bool
  | null, null => true
  | boolean a, boolean b => a == b
  | number a, number b => a.same b
  | text a, text b => a == b
  | list as, list bs => sameItems as bs
  | object as, object bs => sameMembers as bs
  | _, _ => false

def sameItems : List Value → List Value → Bool
  | [], [] => true
  | a :: as, b :: bs => a.same b && sameItems as bs
  | _, _ => false

def sameMembers : List (String × Value) → List (String × Value) → Bool
  | [], [] => true
  | (k, a) :: as, (l, b) :: bs => k == l && a.same b && sameMembers as bs
  | _, _ => false

end

def isNull : Value → Bool
  | null => true
  | _ => false

/-- The member of an object under a key; other values have no members. -/
def member? (key : String) : Value → Option Value
  | object members => Keyed.find? key members
  | _ => none

end Value

end RecordQuery.Json

import RecordQuery.Error
import RecordQuery.Json.Reader

/-!
# Reading descriptions

A description is a JSON text. Its records are objects, whose unknown keys are passed over and whose
known keys come at most once, or lists of their fields in order, of which the last ones may be
missing. Reading goes through the text in order and ends at the first problem, which is either a
fault of the content or, without any more to say about it, of the form.
-/

namespace RecordQuery

open Json

/-- The result of reading a part of a description. -/
abbrev Reading := Except (Option Fault)

namespace Reading

variable {α σ : Type}

def malformed : Reading α :=
  .error none

def ofOption : Option α → Reading α
  | some a => .ok a
  | none => malformed

def ofFaulty : Except Fault α → Reading α
  | .ok a => .ok a
  | .error fault => .error (some fault)

/-- Passes over a part that no one reads. -/
def skip (tree : Tree) : Reading Unit :=
  if tree.isSound then .ok () else malformed

/-- Notes what was read for a field, which must not have been read before. -/
def once (before : Option α) (a : Reading α) : Reading (Option α) :=
  if before.isSome then malformed else a.map some

/-- What was read for a field that has no default. -/
def required : Option α → Reading α :=
  ofOption

def value (tree : Tree) : Reading Value :=
  ofOption tree.value?

def text : Tree → Reading String
  | .text s => .ok s
  | _ => malformed

def natural : Tree → Reading Nat
  | .number (.integer n _) => if 0 ≤ n then .ok n.toNat else malformed
  | _ => malformed

def double : Tree → Reading Double
  | .number n => .ok n.toDouble
  | _ => malformed

/-- A part that may be null for being absent. -/
def optional (read : Tree → Reading α) : Tree → Reading (Option α)
  | .null => .ok none
  | tree => (read tree).map some

/-- Every item of a list. -/
def list (read : Tree → Reading α) : Tree → Reading (List α)
  | .list items => items.mapM read
  | _ => malformed

/-- Whether a part can stand as the payload of a name, which has none. Where the whole part has been
taken in before it is looked at, an empty object can. -/
def isNoPayload (taken : Bool) : Tree → Bool
  | .null => true
  | .object [] => taken
  | _ => false

/-- One of some named things: the name, or an object with the name and nothing in it. -/
def named (taken : Bool) (find : String → Option α) : Tree → Reading α
  | .text s => ofOption (find s)
  | .object [(some key, payload)] =>
    if isNoPayload taken payload then ofOption (find key) else malformed
  | _ => malformed

/-- Reads the fields of an object into a state, in the order written. -/
def members (names : List String) (field : σ → String → Tree → Reading σ) (state : σ) :
    List (Option String × Tree) → Reading σ
  | [] => .ok state
  | (none, _) :: _ => malformed
  | (some key, tree) :: rest => do
    if key ∈ names then
      let state ← field state key tree
      members names field state rest
    else
      skip tree
      members names field state rest

/-- Reads the fields of a list into a state, in the order of their names. -/
def items (field : σ → String → Tree → Reading σ) (state : σ) :
    List String → List Tree → Reading σ
  | _, [] => .ok state
  | [], _ :: _ => malformed
  | name :: names, tree :: rest => do
    let state ← field state name tree
    items field state names rest

/-- Reads a record from an object or a list. -/
def record (names : List String) (field : σ → String → Tree → Reading σ) (start : σ) :
    Tree → Reading σ
  | .object ms => members names field start ms
  | .list ts => items field start names ts
  | _ => malformed

end Reading

namespace Description

/-- How many levels of lists and objects a description may nest. -/
def room : Nat := 127

/-- Reads a description and what `finish` makes of it. The text must end with it. -/
def loadAnd {α β : Type} (read : Tree → Reading α) (finish : α → Except Fault β) (text : String) :
    Except Error β :=
  let (tree, complete) := Tree.ofText room text
  match read tree with
  | .error cause => .error (.unreadable cause)
  | .ok a => if complete then (finish a).mapError .fault else .error (.unreadable none)

/-- Reads a description from a text. -/
def load {α : Type} (read : Tree → Reading α) (text : String) : Except Error α :=
  loadAnd read .ok text

/-- An object of the members that are present. -/
def object (members : List (String × Option Value)) : Value :=
  .ofMembers (members.filterMap fun (key, v) => v.map (key, ·))

end Description

end RecordQuery

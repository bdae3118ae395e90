import RecordQuery.Double.Decimal
import RecordQuery.Json.Tree
import RecordQuery.Text.Digits

/-!
# Reading JSON text

The grammar is strict: no comments, no comma before a closing bracket, no control character inside
a string, nothing but space around the value. An integer that fits 64 bits and is written without
point or exponent is read as one; all other numbers, `-0` among them, are doubles. A double is made
from the leading digits that fit a word, and this can miss the double nearest to the number by a few
ranks.

A reader gives the tree it found and the characters after it, or none when the text broke.
-/

namespace RecordQuery.Json.Tree

open RecordQuery.Text

/-- A tree and what follows it, unless the text broke inside it. -/
abbrev Read := Tree × Option (List Char)

def isSpace (c : Char) : Bool :=
  c == ' ' || c == '\t' || c == '\n' || c == '\r'

def skipSpace (cs : List Char) : List Char :=
  cs.dropWhile isSpace

/-- The digits after a point, if there is a point. -/
def readFraction? : List Char → Option (List Char × List Char)
  | '.' :: cs =>
    let (digits, rest) := spanDigits cs
    if digits.isEmpty then none else some (digits, rest)
  | cs => some ([], cs)

/-- The exponent, if there is one. -/
def readExponent? : List Char → Option (Option Int × List Char)
  | c :: cs =>
    if c == 'e' || c == 'E' then
      let (negative, cs) := match cs with
        | '-' :: cs => (true, cs)
        | '+' :: cs => (false, cs)
        | cs => (false, cs)
      let (digits, rest) := spanDigits cs
      if digits.isEmpty then none
      else
        let n : Int := digitsValue digits
        some (some (if negative then -n else n), rest)
    else some (none, c :: cs)
  | [] => some (none, [])

/-- Digits are put behind a number until it would be too long for a word. The result is the number
and the digits that are left. -/
def fillWord (n : Nat) : List Char → Nat × List Char
  | [] => (n, [])
  | c :: cs =>
    let next := 10 * n + (c.toNat - '0'.toNat)
    if next < Word.size then fillWord next cs else (n, c :: cs)

/-- The number written by these parts, if a double can hold it. Digits of the whole part that are left
still count for the exponent. After them a digit of the fraction may fit again, and is put in their
place. -/
def numberOf (negative : Bool) (whole fraction : List Char) (exponent : Option Int) : Tree :=
  let n : Int := digitsValue whole
  let signed := if negative then -n else n
  if fits : (fraction = [] ∧ exponent = none ∧ (negative = true → n ≠ 0))
      ∧ Number.Fits signed then
    number (.integer signed fits.2)
  else
    let (significand, beyond) := fillWord 0 whole
    let (significand, left) := fillWord significand fraction
    let places : Int := fraction.length - left.length
    match Double.ofDecimal? negative significand (exponent.getD 0 + beyond.length - places) with
    | some d => number (.real d)
    | none => refused

def readNumber (cs : List Char) : Read :=
  let (negative, cs) := match cs with
    | '-' :: cs => (true, cs)
    | cs => (false, cs)
  let (whole, rest) := spanDigits cs
  if whole.isEmpty || (whole.head? == some '0' && 1 < whole.length) then (broken, none)
  else
    match readFraction? rest with
    | none => (broken, none)
    | some (fraction, rest) =>
      match readExponent? rest with
      | none => (broken, none)
      | some (exponent, rest) => (numberOf negative whole fraction exponent, some rest)

/-- A piece of a string: a character, or an escaped unit of 16 bits. -/
inductive Piece where
  | char (c : Char)
  | unit (n : Nat)

def hexValue? (c : Char) : Option Nat :=
  if '0' ≤ c ∧ c ≤ '9' then some (c.toNat - '0'.toNat)
  else if 'a' ≤ c ∧ c ≤ 'f' then some (c.toNat - 'a'.toNat + 10)
  else if 'A' ≤ c ∧ c ≤ 'F' then some (c.toNat - 'A'.toNat + 10)
  else none

def unitValue? (a b c d : Char) : Option Nat := do
  let a ← hexValue? a
  let b ← hexValue? b
  let c ← hexValue? c
  let d ← hexValue? d
  return ((a * 16 + b) * 16 + c) * 16 + d

def unescape? : Char → Option Char
  | '"' => some '"'
  | '\\' => some '\\'
  | '/' => some '/'
  | 'b' => some '\x08'
  | 'f' => some '\x0c'
  | 'n' => some '\n'
  | 'r' => some '\r'
  | 't' => some '\t'
  | _ => none

/-- The pieces of a string up to its closing quote, and what follows that. -/
def readPieces? : List Char → Option (List Piece × List Char)
  | [] => none
  | '"' :: rest => some ([], rest)
  | '\\' :: 'u' :: a :: b :: c :: d :: rest => do
    let n ← unitValue? a b c d
    let (pieces, rest) ← readPieces? rest
    return (.unit n :: pieces, rest)
  | '\\' :: e :: rest => do
    let c ← unescape? e
    let (pieces, rest) ← readPieces? rest
    return (.char c :: pieces, rest)
  | c :: rest =>
    if c.toNat < 0x20 then none
    else do
      let (pieces, rest) ← readPieces? rest
      return (.char c :: pieces, rest)

def isHighSurrogate (n : Nat) : Bool :=
  0xD800 ≤ n && n < 0xDC00

def isLowSurrogate (n : Nat) : Bool :=
  0xDC00 ≤ n && n < 0xE000

/-- The characters of a string. A high surrogate has to be followed by a low one. -/
def joinPieces? : List Piece → Option (List Char)
  | [] => some []
  | .char c :: rest => (joinPieces? rest).map (c :: ·)
  | .unit n :: rest =>
    if isHighSurrogate n then
      match rest with
      | .unit m :: rest =>
        if isLowSurrogate m then
          let c := Char.ofNat (0x10000 + (n - 0xD800) * 0x400 + (m - 0xDC00))
          (joinPieces? rest).map (c :: ·)
        else none
      | _ => none
    else if isLowSurrogate n then none
    else (joinPieces? rest).map (Char.ofNat n :: ·)

def textOf? (pieces : List Piece) : Option String :=
  (joinPieces? pieces).map String.ofList

/-- A list or object, which is refused where no level of nesting is left. -/
def closed {α : Type} (room : Nat) (make : α → Tree) : α × Option (List Char) → Read
  | (content, rest) =>
    if 0 < room then (make content, rest)
    else if rest.isSome then (refused, rest)
    else (broken, none)

mutual

/-- Reads one value with `room` levels of lists and objects left. The first argument bounds the
number of steps. -/
def readValue : Nat → Nat → List Char → Read
  | 0, _, _ => (broken, none)
  | steps + 1, room, cs =>
    match skipSpace cs with
    | 'n' :: 'u' :: 'l' :: 'l' :: rest => (null, some rest)
    | 't' :: 'r' :: 'u' :: 'e' :: rest => (boolean true, some rest)
    | 'f' :: 'a' :: 'l' :: 's' :: 'e' :: rest => (boolean false, some rest)
    | '"' :: rest =>
      match readPieces? rest with
      | none => (broken, none)
      | some (pieces, rest) => (((textOf? pieces).map text).getD refused, some rest)
    | '[' :: rest =>
      match skipSpace rest with
      | ']' :: rest => closed room list ([], some rest)
      | rest => closed room list (readItems steps (room - 1) rest)
    | '\x7b' :: rest =>
      match skipSpace rest with
      | '\x7d' :: rest => closed room object ([], some rest)
      | rest => closed room object (readMembers steps (room - 1) rest)
    | rest => readNumber rest

/-- Reads the items of a list up to its closing bracket. -/
def readItems : Nat → Nat → List Char → List Tree × Option (List Char)
  | 0, _, _ => ([broken], none)
  | steps + 1, room, cs =>
    match readValue steps room cs with
    | (item, none) => ([item], none)
    | (item, some rest) =>
      match skipSpace rest with
      | ',' :: rest =>
        let (items, rest) := readItems steps room rest
        (item :: items, rest)
      | ']' :: rest => ([item], some rest)
      | _ => ([item, broken], none)

/-- Reads the members of an object up to its closing bracket. -/
def readMembers : Nat → Nat → List Char → List (Option String × Tree) × Option (List Char)
  | 0, _, _ => ([(none, broken)], none)
  | steps + 1, room, cs =>
    match skipSpace cs with
    | '"' :: rest =>
      match readPieces? rest with
      | none => ([(none, broken)], none)
      | some (pieces, rest) =>
        match skipSpace rest with
        | ':' :: rest =>
          match readValue steps room rest with
          | (value, none) => ([(textOf? pieces, value)], none)
          | (value, some rest) =>
            match skipSpace rest with
            | ',' :: rest =>
              let (members, rest) := readMembers steps room rest
              ((textOf? pieces, value) :: members, rest)
            | '\x7d' :: rest => ([(textOf? pieces, value)], some rest)
            | _ => ([(textOf? pieces, value), (none, broken)], none)
        | _ => ([(textOf? pieces, broken)], none)
    | _ => ([(none, broken)], none)

end

/-- The tree of a text with at most `room` nested levels, and whether the text ends there. -/
def ofText (room : Nat) (s : String) : Tree × Bool :=
  let cs := s.toList
  match readValue (2 * cs.length + 2) room cs with
  | (tree, none) => (tree, false)
  | (tree, some rest) => (tree, (skipSpace rest).isEmpty)

end RecordQuery.Json.Tree

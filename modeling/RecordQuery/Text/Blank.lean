/-!
# Blank characters

The characters with the White_Space property: 25 code points.
-/

namespace RecordQuery.Text

/-- Code points of the White_Space property, as first and last of each run. -/
def blankRuns : List (Nat × Nat) :=
  [(0x9, 0xD), (0x20, 0x20), (0x85, 0x85), (0xA0, 0xA0), (0x1680, 0x1680), (0x2000, 0x200A),
    (0x2028, 0x2029), (0x202F, 0x202F), (0x205F, 0x205F), (0x3000, 0x3000)]

def isBlank (c : Char) : Bool :=
  blankRuns.any fun run => run.1 ≤ c.toNat && c.toNat ≤ run.2

def skipBlanks (cs : List Char) : List Char :=
  cs.dropWhile isBlank

end RecordQuery.Text

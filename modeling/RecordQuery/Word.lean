/-!
# Words of 64 bits

The limits of integers that are held in a machine word.
-/

namespace RecordQuery.Word

/-- How many values a word has: `2 ^ 64`. -/
abbrev size : Nat := 18446744073709551616

/-- Half of them. A signed word is at least `-half` and less than `half`. -/
abbrev half : Nat := 9223372036854775808

end RecordQuery.Word

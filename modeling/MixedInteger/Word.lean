/-!
# Words of 64 bits

The limits of the integers that a JSON number, a priority or a time limit can be,
and of the bits of a floating-point number.
-/

namespace MixedInteger

/-- The number of words of 64 bits, `2⁶⁴`. -/
def wordCount : Nat := 18446744073709551616

/-- The weight of the highest bit of such a word, `2⁶³`. -/
def highBit : Nat := 9223372036854775808

end MixedInteger

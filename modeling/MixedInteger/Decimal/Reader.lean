import MixedInteger.Word

/-!
# Reading decimals

A decimal text is a sign, digits around an optional point, and an optional
exponent.  `scan` splits such a text without judging it, so that the stricter
grammar of JSON and the looser one of quoted numbers share the pieces, and
`Pieces.value` rounds it once to the nearest floating-point number.
-/

namespace MixedInteger.Decimal

/-- Splits off the leading digits. -/
def spanDigits (characters : List Char) : List Char × List Char :=
  characters.span Char.isDigit

def digitsValue (digits : List Char) : Nat :=
  digits.foldl (fun value digit => 10 * value + (digit.toNat - '0'.toNat)) 0

/-- An unsigned decimal number in pieces. -/
structure Pieces where
  whole : List Char
  /-- The digits after the point, if there is a point. -/
  fraction : Option (List Char)
  /-- The sign and the digits of the exponent, if there is an exponent mark. -/
  exponent : Option (Bool × List Char)

/-- Splits an unsigned decimal number off the front of a text. -/
def scan (characters : List Char) : Pieces × List Char :=
  let (whole, afterWhole) := spanDigits characters
  let (fraction, afterFraction) :=
    match afterWhole with
    | '.' :: rest =>
      let (digits, rest) := spanDigits rest
      (some digits, rest)
    | rest => (none, rest)
  match afterFraction with
  | mark :: rest =>
    if mark == 'e' || mark == 'E' then
      let (negative, rest) :=
        match rest with
        | '-' :: rest => (true, rest)
        | '+' :: rest => (false, rest)
        | rest => (false, rest)
      let (digits, rest) := spanDigits rest
      (⟨whole, fraction, some (negative, digits)⟩, rest)
    else (⟨whole, fraction, none⟩, mark :: rest)
  | [] => (⟨whole, fraction, none⟩, [])

/-- The nearest floating-point number to `significand * 10 ^ exponent`.  Powers
of ten far outside the range of floating point are decided without computing
them. -/
def nearest (significand : Nat) (exponent : Int) : Float :=
  if significand == 0 then 0.0
  else
    let leading := exponent + (Nat.toDigits 10 significand).length
    if leading < -400 then 0.0
    else if 400 < leading then 1.0 / 0.0
    else Float.ofScientific significand (exponent < 0) exponent.natAbs

def Pieces.value (pieces : Pieces) : Float :=
  let fraction := pieces.fraction.getD []
  let scale : Int :=
    match pieces.exponent with
    | none => 0
    | some (negative, digits) =>
      if negative then -(digitsValue digits : Int) else digitsValue digits
  nearest (digitsValue (pieces.whole ++ fraction)) (scale - fraction.length)

/-- The sign in front of a number, and what follows it. -/
def splitSign : List Char → Bool × List Char
  | '-' :: rest => (true, rest)
  | '+' :: rest => (false, rest)
  | characters => (false, characters)

/-- Reads a number as it may be quoted in a description or given on the command
line: an optional sign, then `inf`, `infinity` or `nan` in any case, or digits
with an optional point and an optional exponent.  At least one digit has to
stand beside the point. -/
def readFloat? (characters : List Char) : Option Float :=
  let (negative, unsigned) := splitSign characters
  let magnitude : Option Float :=
    match String.ofList (unsigned.map Char.toLower) with
    | "inf" => some (1.0 / 0.0)
    | "infinity" => some (1.0 / 0.0)
    | "nan" => some (0.0 / 0.0)
    | _ =>
      let (pieces, rest) := scan unsigned
      let hasDigits := !(pieces.whole.isEmpty && (pieces.fraction.getD []).isEmpty)
      let exponentComplete := pieces.exponent.all fun exponent => !exponent.2.isEmpty
      if rest.isEmpty && hasDigits && exponentComplete then some pieces.value else none
  magnitude.map fun value => if negative then -value else value

/-- Reads a natural number below `2 ^ 64`, with an optional plus sign. -/
def readWord? (characters : List Char) : Option Nat :=
  let digits :=
    match characters with
    | '+' :: rest => rest
    | digits => digits
  if digits.isEmpty || !digits.all Char.isDigit then none
  else
    let value := digitsValue digits
    if value < wordCount then some value else none

end MixedInteger.Decimal

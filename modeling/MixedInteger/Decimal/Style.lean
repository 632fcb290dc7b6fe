import MixedInteger.Decimal.Shortest
import MixedInteger.Word

/-!
# Styles of writing a number

A style decides everything about the text of a floating-point number that its
digits leave open: which magnitudes are written positionally, whether an integral
value keeps a decimal point, and how an exponent looks.  The program writes
numbers in three styles.
-/

namespace MixedInteger.Decimal

/-- The decisions that turn digits into text. -/
structure Style where
  /-- Whether a number whose leading digit has this exponent is written positionally. -/
  isPositional : Int → Bool
  /-- Whether an integral number written positionally ends in `.0`. -/
  keepsPoint : Bool
  /-- Whether a positive exponent carries a plus sign. -/
  signsExponent : Bool
  tie : Tie

/-- Numbers of a JSON text: `5.0`, `0.00001`, `1e+16`. -/
def Style.json : Style where
  isPositional exponent := -5 ≤ exponent && exponent < 16
  keepsPoint := true
  signsExponent := true
  tie := .toEven

/-- Numbers in messages: never with an exponent, `5` and `0.000000001`. -/
def Style.plain : Style where
  isPositional _ := true
  keepsPoint := false
  signsExponent := false
  tie := .up

/-- Numbers in the listing of a tableau: `5.0`, `1e-5`, `1e16`. -/
def Style.listing : Style where
  isPositional exponent := -4 ≤ exponent && exponent < 16
  keepsPoint := true
  signsExponent := false
  tie := .up

/-- The text of a non-zero decimal number without its sign. -/
def Style.layOut (style : Style) (decimal : Digits) : String :=
  let digits := Nat.toDigits 10 decimal.digits
  let leading := decimal.exponent + digits.length - 1
  if style.isPositional leading then
    if 0 ≤ decimal.exponent then
      let whole := digits ++ List.replicate decimal.exponent.toNat '0'
      String.ofList (if style.keepsPoint then whole ++ ['.', '0'] else whole)
    else if 0 ≤ leading then
      let whole := leading.toNat + 1
      String.ofList (digits.take whole ++ '.' :: digits.drop whole)
    else
      String.ofList ('0' :: '.' :: (List.replicate (-leading - 1).toNat '0' ++ digits))
  else
    let fraction := if digits.length == 1 then [] else '.' :: digits.tail
    let mark :=
      if leading < 0 then ['e', '-'] else if style.signsExponent then ['e', '+'] else ['e']
    String.ofList (digits.take 1 ++ fraction ++ mark ++ Nat.toDigits 10 leading.natAbs)

def Style.write (style : Style) (value : Float) : String :=
  if value.isNaN then "NaN"
  else
    let sign := if value.toBits.toNat < highBit then "" else "-"
    if value.isInf then sign ++ "inf"
    else
      let number := Binary.ofBits value.toBits
      if number.significand == 0 then sign ++ if style.keepsPoint then "0.0" else "0"
      else sign ++ style.layOut (number.shortest style.tie)

end MixedInteger.Decimal

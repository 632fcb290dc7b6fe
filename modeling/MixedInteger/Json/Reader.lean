import MixedInteger.Decimal.Reader
import MixedInteger.Json.Basic
import MixedInteger.Word

/-!
# Reading JSON

A text is read character by character, and each reader returns what it read with
the rest of the text.  Values nest at most 127 levels deep, which is also what
the recursion runs on.  The items of a list and the fields of an object are read
with the length of the text as budget, since each of them takes at least one
character.
-/

namespace MixedInteger.Json

open Decimal (spanDigits digitsValue scan)

/-- What a reader finds, with the rest of the text; nothing if the text does not
fit. -/
abbrev Reader (β : Type) := List Char → Option (β × List Char)

/-- Drops the blanks that may stand between the parts of a JSON text. -/
def skipBlanks (text : List Char) : List Char :=
  text.dropWhile fun c => c == ' ' || c == '\t' || c == '\n' || c == '\r'

def dropWord? : List Char → List Char → Option (List Char)
  | [], text => some text
  | expected :: word, c :: text => if c == expected then dropWord? word text else none
  | _ :: _, [] => none

def hexValue? (c : Char) : Option Nat :=
  if '0' ≤ c && c ≤ '9' then some (c.toNat - '0'.toNat)
  else if 'a' ≤ c && c ≤ 'f' then some (c.toNat - 'a'.toNat + 10)
  else if 'A' ≤ c && c ≤ 'F' then some (c.toNat - 'A'.toNat + 10)
  else none

def readUnit : Reader Nat
  | a :: b :: c :: d :: rest => do
    let a ← hexValue? a
    let b ← hexValue? b
    let c ← hexValue? c
    let d ← hexValue? d
    some (((a * 16 + b) * 16 + c) * 16 + d, rest)
  | _ => none

/-- The character of an escape with four hexadecimal digits, or with two such
escapes that form a pair of surrogates.  A lone surrogate is no character. -/
def readUnicodeEscape : Reader Char := fun text => do
  let (unit, rest) ← readUnit text
  if unit < 0xD800 || 0xDFFF < unit then some (Char.ofNat unit, rest)
  else if 0xDBFF < unit then none
  else
    match rest with
    | '\\' :: 'u' :: rest => do
      let (low, rest) ← readUnit rest
      if low < 0xDC00 || 0xDFFF < low then none
      else some (Char.ofNat (0x10000 + (unit - 0xD800) * 0x400 + (low - 0xDC00)), rest)
    | _ => none

def readEscape : Reader Char
  | '"' :: rest => some ('"', rest)
  | '\\' :: rest => some ('\\', rest)
  | '/' :: rest => some ('/', rest)
  | 'b' :: rest => some (Char.ofNat 8, rest)
  | 'f' :: rest => some (Char.ofNat 12, rest)
  | 'n' :: rest => some ('\n', rest)
  | 'r' :: rest => some ('\r', rest)
  | 't' :: rest => some ('\t', rest)
  | 'u' :: rest => readUnicodeEscape rest
  | _ => none

/-- The characters up to the closing quote, with those already read in reverse.
Control characters have to be escaped. -/
def readCharacters : Nat → List Char → Reader String
  | 0, _, _ => none
  | budget + 1, done, text =>
    match text with
    | [] => none
    | '"' :: rest => some (String.ofList done.reverse, rest)
    | '\\' :: rest => do
      let (c, rest) ← readEscape rest
      readCharacters budget (c :: done) rest
    | c :: rest => if c.toNat < 32 then none else readCharacters budget (c :: done) rest

/-- A text in quotes, the opening quote already read. -/
def readQuoted : Reader String := fun text =>
  readCharacters (text.length + 1) [] text

/-- An unsigned number and the sign in front of it.  Integers that fit 64 bits
stay integers; every other number has to have a finite nearest floating-point
number.  The integer `-0` is the floating-point number with that sign. -/
def readNumber (negative : Bool) : Reader Json := fun text => do
  let (pieces, rest) := scan text
  let leadingZero := pieces.whole.head? == some '0' && 1 < pieces.whole.length
  let fractionEmpty := pieces.fraction.any List.isEmpty
  let exponentEmpty := pieces.exponent.any fun exponent => exponent.2.isEmpty
  if pieces.whole.isEmpty || leadingZero || fractionEmpty || exponentEmpty then none
  else
    let asReal : Option (Json × List Char) :=
      let value := pieces.value
      if value.isFinite then
        some (.number (.real (if negative then -value else value)), rest)
      else none
    if pieces.fraction.isSome || pieces.exponent.isSome then asReal
    else
      let magnitude := digitsValue pieces.whole
      if negative then
        if magnitude != 0 && magnitude ≤ highBit then
          some (.number (.whole (-(magnitude : Int))), rest)
        else asReal
      else if magnitude < wordCount then some (.number (.whole magnitude), rest)
      else asReal

/-- Items separated by commas up to a closing bracket, the items already read in
reverse. -/
def readItems (readItem : Reader Json) : Nat → List Json → Reader (List Json)
  | 0, _, _ => none
  | budget + 1, done, text => do
    let (item, rest) ← readItem text
    match skipBlanks rest with
    | ',' :: rest => readItems readItem budget (item :: done) (skipBlanks rest)
    | ']' :: rest => some ((item :: done).reverse, rest)
    | _ => none

def readFields (readItem : Reader Json) :
    Nat → List (String × Json) → Reader (List (String × Json))
  | 0, _, _ => none
  | budget + 1, done, text =>
    match text with
    | '"' :: rest => do
      let (name, rest) ← readQuoted rest
      match skipBlanks rest with
      | ':' :: rest => do
        let (value, rest) ← readItem (skipBlanks rest)
        let done := OrderedMap.insert done name value
        match skipBlanks rest with
        | ',' :: rest => readFields readItem budget done (skipBlanks rest)
        | '\x7d' :: rest => some (done, rest)
        | _ => none
      | _ => none
    | _ => none

/-- A value whose lists and objects nest at most `depth` levels deep, on a text
without leading blanks. -/
def readValue (depth : Nat) : Reader Json := fun text =>
  match text with
  | 'n' :: rest => (dropWord? ['u', 'l', 'l'] rest).map fun rest => (.null, rest)
  | 't' :: rest => (dropWord? ['r', 'u', 'e'] rest).map fun rest => (.bool true, rest)
  | 'f' :: rest => (dropWord? ['a', 'l', 's', 'e'] rest).map fun rest => (.bool false, rest)
  | '"' :: rest => (readQuoted rest).map fun (value, rest) => (.string value, rest)
  | '-' :: rest => readNumber true rest
  | '[' :: rest =>
    match depth with
    | 0 => none
    | depth + 1 =>
      match skipBlanks rest with
      | ']' :: rest => some (.array [], rest)
      | rest =>
        (readItems (readValue depth) rest.length [] rest).map fun (items, rest) =>
          (.array items, rest)
  | '\x7b' :: rest =>
    match depth with
    | 0 => none
    | depth + 1 =>
      match skipBlanks rest with
      | '\x7d' :: rest => some (.object [], rest)
      | rest =>
        (readFields (readValue depth) rest.length [] rest).map fun (fields, rest) =>
          (.object fields, rest)
  | text => readNumber false text

def maximalDepth : Nat := 127

def parse? (text : String) : Option Json := do
  let (json, rest) ← readValue maximalDepth (skipBlanks text.toList)
  if (skipBlanks rest).isEmpty then some json else none

end MixedInteger.Json

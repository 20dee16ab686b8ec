import ApiImpact.Json.Reader
import ApiImpact.Text.Blank
import ApiImpact.Yaml.Cursor

/-!
The values that plain text writes: null, truth values and numbers.
-/

namespace ApiImpact.Yaml

/-- The words for null. -/
def nullWords : List String := ["null", "Null", "NULL", "~"]

/-- The words for truth values. -/
def truthWords : List String := ["true", "True", "TRUE", "false", "False", "FALSE"]

/-- The value of `c` as a digit to the base `base`. -/
def digitValue? (base : Nat) (c : Char) : Option Nat :=
  (Json.hexValue? c).filter (· < base)

/-- The number that digits to the base `base` write; there is at least one. -/
def digitsValue? (base : Nat) (digits : List Char) : Option Nat :=
  if digits.isEmpty then none
  else digits.foldlM (fun n c => (digitValue? base c).map (n * base + ·)) 0

/-- `text` without a sign in front of it. -/
def unsigned : List Char → List Char
  | '+' :: rest | '-' :: rest => rest
  | text => text

/-- Digits behind a leading zero, perhaps signed, are text and no number. -/
def hasIdleZero (text : List Char) : Bool :=
  match unsigned text with
  | '0' :: c :: rest => (c :: rest).all Char.isDigit
  | _ => false

/-- The base that a prefix announces, and the digits behind it. -/
def prefixed? : List Char → Option (Nat × List Char)
  | '0' :: 'x' :: rest => some (16, rest)
  | '0' :: 'o' :: rest => some (8, rest)
  | '0' :: 'b' :: rest => some (2, rest)
  | _ => none

/-- The natural number that the plain text writes: decimal, or with the prefix of another base; a plus may
stand in front. -/
def natural? (text : List Char) : Option Nat :=
  let positive := (Text.dropPrefix? ['+'] text).getD text
  match prefixed? positive with
  | some (base, digits) => digitsValue? base digits
  | none => if hasIdleZero text then none else digitsValue? 10 positive

/-- The magnitude of the number below zero that the plain text writes. -/
def negative? : List Char → Option Nat
  | '-' :: rest =>
    match prefixed? rest with
    | some (base, digits) => digitsValue? base digits
    | none => if hasIdleZero rest then none else digitsValue? 10 rest
  | _ => none

/-- The plain text writes an integer of at most 128 bits. -/
def isInteger (text : List Char) : Bool :=
  ((natural? text).any (· < Text.wordLimit 128)) || (negative? text).any (· ≤ Text.wordLimit 127)

/-- The words for numbers that are not finite, without a sign. -/
def infinityWords : List String := [".inf", ".Inf", ".INF"]

/-- The words for what is no number. -/
def nanWords : List String := [".nan", ".NaN", ".NAN"]

/-- The digits before and after the decimal point, which may be missing, and the text behind them. There
is at least one digit. -/
def mantissa? (text : List Char) : Option (List Char × List Char × List Char) :=
  let whole := text.takeWhile Char.isDigit
  let rest := text.drop whole.length
  let fraction := match rest with
    | '.' :: rest => rest.takeWhile Char.isDigit
    | _ => []
  let rest := match rest with
    | '.' :: rest => rest.drop fraction.length
    | rest => rest
  if whole.isEmpty && fraction.isEmpty then none else some (whole, fraction, rest)

/-- The exponent that makes up the rest of a number. -/
def exponent? : List Char → Option Int
  | [] => some 0
  | e :: rest =>
    if e != 'e' && e != 'E' then none
    else
      let digits := digitsValue? 10 (unsigned rest)
      if rest.head? == some '-' then digits.map fun n => -(n : Int) else digits.map Int.ofNat

/-- The text without a sign writes a decimal number within the range of doubles. -/
def isFiniteDecimal (text : List Char) : Bool :=
  ((mantissa? text).bind fun (whole, fraction, rest) =>
    (exponent? rest).map fun e =>
      Text.fitsDouble (Json.digitsValue (whole ++ fraction)) (e - fraction.length)).getD false

/-- The plain text writes a number with a point or an exponent, or one that is not finite. -/
def isFloat (text : List Char) : Bool :=
  infinityWords.contains (.ofList (unsigned text)) || nanWords.contains (.ofList text)
    || (!hasIdleZero text && isFiniteDecimal (unsigned text))

namespace Scalar

/-- The scalar is plain and has no tag. -/
def isBare (s : Scalar) : Bool :=
  s.style == .plain && s.tag.isNone

/-- The tag of integers. -/
def integerTag : String := "tag:yaml.org,2002:int"

/-- The tag of null. -/
def nullTag : String := "tag:yaml.org,2002:null"

/-- The natural number that a scalar writes. It is plain, or literal with the tag of integers. -/
def natural? (s : Scalar) : Option Nat :=
  if s.style == .plain || (s.style == .literal && s.tag == some integerTag) then
    Yaml.natural? s.text.toList
  else none

/-- The scalar is null: a plain word for it, or nothing at all. -/
def isNull (s : Scalar) : Bool :=
  s.style == .plain && (nullWords.contains s.text && (s.tag.isNone || s.tag == some nullTag)
    || s.text.isEmpty && s.tag.isNone)

end Scalar

end ApiImpact.Yaml

import ApiImpact.Json.Basic

/-!
The ranges of binary numbers: of words, and of floating point numbers of double width.
-/

namespace ApiImpact.Text

/-- The least natural number that needs more than `bits` bits. -/
def wordLimit (bits : Nat) : Nat := Nat.pow 2 bits

/-- The least number that is rounded to infinity: half a step above the largest double. -/
def doubleLimit : Nat := wordLimit 1024 - wordLimit 970

/-- The nearest double to `m · 10 ^ e` is finite. -/
def fitsDouble (m : Nat) (e : Int) : Bool :=
  let size : Int := (toString m).length + e
  m == 0 || (size ≤ 400 &&
    if e ≥ 0 then m * Nat.pow 10 e.toNat < doubleLimit
    else size ≤ 300 || m < doubleLimit * Nat.pow 10 (-e).toNat)

end ApiImpact.Text

/-!
Strict JSON reading. A reader takes text and gives the value at its beginning with the text behind it.
`Mode.exact` is for values that are kept: numbers must be representable and escapes must name
characters. `Mode.shape` is for values that are passed over: only their shape counts.
-/

namespace ApiImpact.Json

/-- How much a reader asks of a value. -/
inductive Mode where
  | exact
  | shape
  deriving DecidableEq

/-- `text` without the white space that JSON allows between tokens. -/
def skipBlanks (text : List Char) : List Char :=
  text.dropWhile fun c => c == ' ' || c == '\n' || c == '\t' || c == '\r'

/-- The value of a hexadecimal digit. -/
def hexValue? (c : Char) : Option Nat :=
  if c.isDigit then some (c.toNat - 48)
  else if 'a' ≤ c ∧ c ≤ 'f' then some (c.toNat - 87)
  else if 'A' ≤ c ∧ c ≤ 'F' then some (c.toNat - 55)
  else none

/-- The four hexadecimal digits at the beginning of `text`. -/
def readUnit? : List Char → Option (Nat × List Char)
  | a :: b :: c :: d :: rest => do
    some (((← hexValue? a) * 16 + (← hexValue? b)) * 256
      + (← hexValue? c) * 16 + (← hexValue? d), rest)
  | _ => none

/-- The characters of an escape whose `\u` has been read: one code unit, or two that form a pair. -/
def readUnicodeEscape? (mode : Mode) (text : List Char) : Option (Char × List Char) := do
  let (unit, rest) ← readUnit? text
  if mode = .shape then some (' ', rest)
  else if 0xDC00 ≤ unit ∧ unit ≤ 0xDFFF then none
  else if 0xD800 ≤ unit ∧ unit ≤ 0xDBFF then
    match rest with
    | '\\' :: 'u' :: rest =>
      let (low, rest) ← readUnit? rest
      if 0xDC00 ≤ low ∧ low ≤ 0xDFFF then
        some (Char.ofNat (0x10000 + (unit - 0xD800) * 0x400 + (low - 0xDC00)), rest)
      else none
    | _ => none
  else some (Char.ofNat unit, rest)

/-- The character that a backslash and `c` stand for. -/
def simpleEscape? : Char → Option Char
  | '"' => some '"'
  | '\\' => some '\\'
  | '/' => some '/'
  | 'b' => some '\x08'
  | 'f' => some '\x0c'
  | 'n' => some '\n'
  | 'r' => some '\r'
  | 't' => some '\t'
  | _ => none

/-- The contents of a string whose opening quote has been read; at most `fuel` characters. -/
def readStringBody? (mode : Mode) : Nat → List Char → Option (List Char × List Char)
  | 0, _ => none
  | _ + 1, [] => none
  | _ + 1, '"' :: rest => some ([], rest)
  | fuel + 1, '\\' :: 'u' :: rest => do
    let (c, rest) ← readUnicodeEscape? mode rest
    let (cs, rest) ← readStringBody? mode fuel rest
    some (c :: cs, rest)
  | fuel + 1, '\\' :: e :: rest => do
    let c ← simpleEscape? e
    let (cs, rest) ← readStringBody? mode fuel rest
    some (c :: cs, rest)
  | fuel + 1, c :: rest =>
    if c.toNat < 0x20 ∨ c = '\\' then none
    else do
      let (cs, rest) ← readStringBody? mode fuel rest
      some (c :: cs, rest)

/-- The string at the beginning of `text`. -/
def readString? (mode : Mode) : List Char → Option (String × List Char)
  | '"' :: rest => (readStringBody? mode (rest.length + 1) rest).map fun (cs, rest) => (.ofList cs, rest)
  | _ => none

/-- The value of a run of decimal digits. -/
def digitsValue (digits : List Char) : Nat :=
  digits.foldl (fun n c => n * 10 + (c.toNat - 48)) 0

/-- `m · 10 ^ e` as a decimal whose mantissa does not end in a zero. -/
def reduce : Nat → Int → Int → Json
  | 0, m, e => .decimal m e
  | fuel + 1, m, e => if m ≠ 0 ∧ m % 10 = 0 then reduce fuel (m / 10) (e + 1) else .decimal m e

/-- The decimal `m · 10 ^ e`, unless it is beyond the largest binary double. -/
def decimal? (negative : Bool) (m : Nat) (e : Int) : Option Json :=
  let signed : Int := if negative then -(m : Int) else m
  if m = 0 then some (.decimal 0 0)
  else if Text.fitsDouble m e then some (reduce (toString m).length signed e)
  else none

/-- The digits after a decimal point, if there is one; a point without digits is no number. -/
def readFraction? : List Char → Option (List Char × List Char)
  | '.' :: rest =>
    let digits := rest.takeWhile Char.isDigit
    if digits.isEmpty then none else some (digits, rest.drop digits.length)
  | rest => some ([], rest)

/-- The digits of an exponent after its sign. -/
def readExponentDigits? (sign : Int) (text : List Char) : Option (Int × List Char) :=
  let digits := text.takeWhile Char.isDigit
  if digits.isEmpty then none else some (sign * digitsValue digits, text.drop digits.length)

/-- The exponent, if there is one. -/
def readExponent? : List Char → Option (Option Int × List Char)
  | 'e' :: rest | 'E' :: rest =>
    match rest with
    | '-' :: rest => (readExponentDigits? (-1) rest).map fun (n, rest) => (some n, rest)
    | '+' :: rest => (readExponentDigits? 1 rest).map fun (n, rest) => (some n, rest)
    | rest => (readExponentDigits? 1 rest).map fun (n, rest) => (some n, rest)
  | rest => some (none, rest)

/-- The number at the beginning of `text`, its minus sign already read. Integers of 64 bits stay
integers; all other numbers are decimals. -/
def readUnsigned? (mode : Mode) (negative : Bool) (text : List Char) : Option (Json × List Char) := do
  let digits := text.takeWhile Char.isDigit
  if digits.isEmpty ∨ (digits.length > 1 ∧ digits.head? = some '0') then none
  else
    let (fraction, rest) ← readFraction? (text.drop digits.length)
    let (exponent, rest) ← readExponent? rest
    let whole := digitsValue digits
    let inRange :=
      if negative then 0 < whole ∧ whole ≤ Text.wordLimit 63 else whole < Text.wordLimit 64
    if mode = .shape then some (.null, rest)
    else if fraction.isEmpty ∧ exponent.isNone ∧ inRange then
      some (.integer (if negative then -(whole : Int) else whole), rest)
    else
      let value ← decimal? negative (digitsValue (digits ++ fraction))
        (exponent.getD 0 - fraction.length)
      some (value, rest)

/-- The number at the beginning of `text`. -/
def readNumber? (mode : Mode) : List Char → Option (Json × List Char)
  | '-' :: rest => readUnsigned? mode true rest
  | text => readUnsigned? mode false text

/-- The items up to the closing bracket, at most `fuel` of them, each read by `read`. -/
def readItems? (read : List Char → Option (Json × List Char)) :
    Nat → List Char → Option (List Json × List Char)
  | 0, _ => none
  | fuel + 1, text => do
    let (item, rest) ← read text
    match skipBlanks rest with
    | ',' :: rest =>
      let (items, rest) ← readItems? read fuel rest
      some (item :: items, rest)
    | ']' :: rest => some ([item], rest)
    | _ => none

/-- The array whose opening bracket has been read. -/
def readArray? (read : List Char → Option (Json × List Char)) (text : List Char) :
    Option (List Json × List Char) :=
  match skipBlanks text with
  | ']' :: rest => some ([], rest)
  | _ => readItems? read text.length text

/-- The members up to the closing brace, at most `fuel` of them; `read` may depend on the key, which
is read as `mode` asks. -/
def readMembers? (mode : Mode) (read : String → List Char → Option (Json × List Char)) :
    Nat → List Char → Option (List (String × Json) × List Char)
  | 0, _ => none
  | fuel + 1, text => do
    let (key, rest) ← readString? mode (skipBlanks text)
    match skipBlanks rest with
    | ':' :: rest =>
      let (value, rest) ← read key rest
      match skipBlanks rest with
      | ',' :: rest =>
        let (members, rest) ← readMembers? mode read fuel rest
        some ((key, value) :: members, rest)
      | '\x7d' :: rest => some ([(key, value)], rest)
      | _ => none
    | _ => none

/-- The object whose opening brace has been read. -/
def readObject? (mode : Mode) (read : String → List Char → Option (Json × List Char)) (text : List Char) :
    Option (List (String × Json) × List Char) :=
  match skipBlanks text with
  | '\x7d' :: rest => some ([], rest)
  | _ => readMembers? mode read text.length text

/-- The value at the beginning of `text`, nested at most `depth` deep. -/
def readValue? (mode : Mode) : Nat → List Char → Option (Json × List Char)
  | depth, text =>
    match skipBlanks text with
    | 'n' :: 'u' :: 'l' :: 'l' :: rest => some (.null, rest)
    | 't' :: 'r' :: 'u' :: 'e' :: rest => some (.bool true, rest)
    | 'f' :: 'a' :: 'l' :: 's' :: 'e' :: rest => some (.bool false, rest)
    | '"' :: rest => (readString? mode ('"' :: rest)).map fun (s, rest) => (.string s, rest)
    | '[' :: rest =>
      match depth with
      | 0 => none
      | depth + 1 =>
        (readArray? (readValue? mode depth) rest).map fun (items, rest) => (.array items, rest)
    | '\x7b' :: rest =>
      match depth with
      | 0 => none
      | depth + 1 =>
        (readObject? mode (fun _ => readValue? mode depth) rest).map fun (members, rest) =>
          (.object members, rest)
    | text => readNumber? mode text

/-- The value that makes up the whole of `text`. -/
def read? (text : String) : Option Json :=
  let characters := text.toList
  match readValue? .exact characters.length characters with
  | some (value, rest) => if (skipBlanks rest).isEmpty then some value else none
  | none => none

end ApiImpact.Json

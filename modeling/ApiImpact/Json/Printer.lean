import ApiImpact.Json.Basic

/-!
JSON text: a compact form on one line and an indented form. Only the quotation mark, the backslash
and control characters are escaped.
-/

namespace ApiImpact.Json

/-- The hexadecimal digit of `n`, in lower case. -/
def hexDigit (n : Nat) : Char :=
  if n < 10 then Char.ofNat (48 + n) else Char.ofNat (87 + n)

/-- The form of `c` inside a string. -/
def escape (c : Char) : List Char :=
  match c with
  | '"' => ['\\', '"']
  | '\\' => ['\\', '\\']
  | '\n' => ['\\', 'n']
  | '\r' => ['\\', 'r']
  | '\t' => ['\\', 't']
  | '\x08' => ['\\', 'b']
  | '\x0c' => ['\\', 'f']
  | c =>
    if c.toNat < 0x20 then ['\\', 'u', '0', '0', hexDigit (c.toNat / 16), hexDigit (c.toNat % 16)]
    else [c]

/-- The string literal of `text`. -/
def quote (text : String) : String :=
  .ofList ('"' :: text.toList.flatMap escape ++ ['"'])

/-- The text of a number `mantissa · 10 ^ exponent`. -/
def decimalText (mantissa exponent : Int) : String :=
  s!"{mantissa}e{exponent}"

mutual

/-- The text of a value without blanks. -/
def compact : Json → String
  | .null => "null"
  | .bool true => "true"
  | .bool false => "false"
  | .integer n => toString n
  | .decimal m e => decimalText m e
  | .string s => quote s
  | .array items => "[" ++ ",".intercalate (compactItems items) ++ "]"
  | .object members => "\x7b" ++ ",".intercalate (compactMembers members) ++ "\x7d"

/-- The texts of the items. -/
def compactItems : List Json → List String
  | [] => []
  | item :: items => compact item :: compactItems items

/-- The texts of the members. -/
def compactMembers : List (String × Json) → List String
  | [] => []
  | (key, value) :: members => (quote key ++ ":" ++ compact value) :: compactMembers members

end

/-- The items on lines of their own between brackets that begin at `margin`; the brackets alone when
there is no item. -/
def block (margin opening closing : String) (items : List String) : String :=
  if items.isEmpty then opening ++ closing
  else
    opening ++ "\n" ++ ",\n".intercalate (items.map fun item => margin ++ "  " ++ item)
      ++ "\n" ++ margin ++ closing

mutual

/-- The text of a value with one item or member to a line, two spaces deeper for each level; the
value begins on a line indented by `margin`. -/
def indented (margin : String) : Json → String
  | .null => "null"
  | .bool true => "true"
  | .bool false => "false"
  | .integer n => toString n
  | .decimal m e => decimalText m e
  | .string s => quote s
  | .array items => block margin "[" "]" (indentedItems margin items)
  | .object members => block margin "\x7b" "\x7d" (indentedMembers margin members)

/-- The texts of the items one level deeper. -/
def indentedItems (margin : String) : List Json → List String
  | [] => []
  | item :: items => indented (margin ++ "  ") item :: indentedItems margin items

/-- The texts of the members one level deeper. -/
def indentedMembers (margin : String) : List (String × Json) → List String
  | [] => []
  | (key, value) :: members =>
    (quote key ++ ": " ++ indented (margin ++ "  ") value) :: indentedMembers margin members

end

/-- The indented text of a value. -/
def pretty (value : Json) : String :=
  value.indented ""

end ApiImpact.Json

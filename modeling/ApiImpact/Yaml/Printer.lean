import ApiImpact.Json.Printer
import ApiImpact.Yaml.Style

/-!
JSON values as YAML: mappings and sequences in blocks, the items of a sequence in the column of the key
they belong to, empty collections between brackets.
-/

namespace ApiImpact.Yaml

/-- The hexadecimal digits of `n` in upper case, filled up to `width` digits. -/
def paddedHex (width n : Nat) : List Char :=
  let digits := (Nat.toDigits 16 n).map Char.toUpper
  List.replicate (width - digits.length) '0' ++ digits

/-- The letters of the escapes that have one. -/
def escapeLetters : List (Char × Char) :=
  [('\x00', '0'), ('\x07', 'a'), ('\x08', 'b'), ('\t', 't'), ('\n', 'n'), ('\x0b', 'v'),
    ('\x0c', 'f'), ('\r', 'r'), ('\x1b', 'e'), ('"', '"'), ('\\', '\\'), ('\u0085', 'N'),
    ('\u00a0', '_'), ('\u2028', 'L'), ('\u2029', 'P')]

/-- The form of `c` in double quotes. -/
def escaped (c : Char) : List Char :=
  if isPrinted c && !isBreak c && c != '"' && c != '\\' then [c]
  else match escapeLetters.lookup c with
    | some letter => ['\\', letter]
    | none =>
      if c.toNat ≤ 0xFF then '\\' :: 'x' :: paddedHex 2 c.toNat
      else if c.toNat ≤ 0xFFFF then '\\' :: 'u' :: paddedHex 4 c.toNat
      else '\\' :: 'U' :: paddedHex 8 c.toNat

/-- The text in double quotes. -/
def doubleQuoted (text : List Char) : List Char :=
  '"' :: text.flatMap escaped ++ ['"']

/-- The text behind an opening single quote, up to the closing one. Lines after line breaks are indented by
`margin`; `broken` tells whether a line break precedes. -/
def singleQuotedBody (margin : List Char) (broken : Bool) : List Char → List Char
  | [] => if broken then margin ++ ['\''] else ['\'']
  | c :: rest =>
    if isBreak c then
      (if broken || c != '\n' then [c] else ['\n', c]) ++ singleQuotedBody margin true rest
    else if c == ' ' then c :: singleQuotedBody margin broken rest
    else
      (if broken then margin else []) ++ (if c == '\'' then ['\'', c] else [c])
        ++ singleQuotedBody margin false rest

/-- The lines of a literal block, indented by `margin`; `broken` tells whether a line begins. -/
def literalBody (margin : List Char) (broken : Bool) : List Char → List Char
  | [] => []
  | c :: rest =>
    if isBreak c then c :: literalBody margin true rest
    else (if broken then margin else []) ++ c :: literalBody margin false rest

/-- The signs of a literal block: its indentation if the first line does not show it, and what happens to
the line breaks at its end. -/
def literalSigns (text : List Char) : List Char :=
  let indentation := if text.head?.any fun c => c == ' ' || isBreak c then ['2'] else []
  let chomping := match text.reverse with
    | last :: before :: _ =>
      if !isBreak last then ['-'] else if isBreak before then ['+'] else []
    | [last] => if isBreak last then ['+'] else ['-']
    | [] => ['-']
  '|' :: indentation ++ chomping

/-- A literal block without the line break at its end. -/
def literalBlock (margin text : List Char) : List Char :=
  let lines := literalSigns text ++ '\n' :: literalBody margin true text
  if text.getLast?.any isBreak then lines.dropLast else lines

/-- A text as a scalar; further lines are indented by `margin`. -/
def textScalar (margin : String) (text : String) : String :=
  let characters := text.toList
  match TextForm.of text with
  | .plain => text
  | .singleQuoted => .ofList ('\'' :: singleQuotedBody margin.toList false characters)
  | .doubleQuoted => .ofList (doubleQuoted characters)
  | .literal => .ofList (literalBlock margin.toList characters)

/-- A text as the key of an entry, which is on one line. -/
def keyScalar (text : String) : String :=
  if text.toList.any isBreak then .ofList (doubleQuoted text.toList) else textScalar "" text

/-- The first line behind `lead`, and all others indented by `margin`. -/
def hang (lead margin : String) : List String → List String
  | [] => []
  | first :: rest => (lead ++ first) :: rest.map (margin ++ ·)

mutual

/-- The lines of a value without their common indentation, which is `margin`. A scalar counts as one line;
its further lines are indented already. -/
def lines (margin : String) : Json → List String
  | .null => ["null"]
  | .bool true => ["true"]
  | .bool false => ["false"]
  | .integer n => [toString n]
  | .decimal m e => [Json.decimalText m e]
  | .string text => [textScalar margin text]
  | .array items => if items.isEmpty then ["[]"] else itemLines margin items
  | .object members => if members.isEmpty then ["\x7b\x7d"] else memberLines margin members

/-- The lines of the items. -/
def itemLines (margin : String) : List Json → List String
  | [] => []
  | item :: items => hang "- " "  " (lines (margin ++ "  ") item) ++ itemLines margin items

/-- The lines of the members. -/
def memberLines (margin : String) : List (String × Json) → List String
  | [] => []
  | (key, value) :: members =>
    let name := keyScalar key ++ ":"
    let written := match value with
      | .object (first :: rest) =>
        name :: (lines (margin ++ "  ") (.object (first :: rest))).map ("  " ++ ·)
      | .array (first :: rest) => name :: lines margin (.array (first :: rest))
      | value => hang (name ++ " ") "" (lines (margin ++ "  ") value)
    written ++ memberLines margin members

end

/-- The value as a YAML document. -/
def print (value : Json) : String :=
  String.join ((lines "" value).map (· ++ "\n"))

end ApiImpact.Yaml

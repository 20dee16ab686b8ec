import ApiImpact.Text.Blank

/-!
The lexemes of TypeScript. Each function measures the lexeme at the beginning of a text in characters.
-/

namespace ApiImpact.TypeScript

open Text

/-- White space between tokens. -/
def isSpace (c : Char) : Bool :=
  isBlank c || c.toNat == 0xFEFF || c.toNat == 0x200B || c.toNat == 0x2060

/-- A line break, as far as statements end at it. -/
def isLineBreak (c : Char) : Bool :=
  c == '\n' || c.toNat == 0x2028 || c.toNat == 0x2029

/-- The signs that no identifier holds. -/
def punctuation : List Char := ":;\x60\"'@#.,|^&<=>+-*/\\%?!~()[]\x7b\x7d".toList

/-- A character of an identifier. -/
def isIdentifierPart (c : Char) : Bool :=
  if c.toNat < 128 then c.isAlphanum || c == '_' || c == '$'
  else !isSpace c && !isLineBreak c

/-- A character that may begin an identifier. -/
def isIdentifierStart (c : Char) : Bool :=
  isIdentifierPart c && !c.isDigit

/-- The length of an escape `\uXXXX` or `\u{…}` of an identifier. -/
def unicodeEscapeLength : List Char → Nat
  | '\\' :: 'u' :: '\x7b' :: rest =>
    let digits := rest.takeWhile (· != '\x7d')
    if digits.length < rest.length then digits.length + 4 else 0
  | '\\' :: 'u' :: _ :: _ :: _ :: _ :: _ => 6
  | _ => 0

/-- The length of the run of identifier characters and escapes, at most `fuel` of them. -/
def identifierRun : Nat → List Char → Nat
  | 0, _ => 0
  | _, [] => 0
  | fuel + 1, c :: rest =>
    if isIdentifierPart c then 1 + identifierRun fuel rest
    else
      let escape := unicodeEscapeLength (c :: rest)
      if escape = 0 then 0 else escape + identifierRun fuel ((c :: rest).drop escape)

/-- The length of a word: an identifier or keyword. -/
def wordLength (text : List Char) : Nat :=
  match text with
  | [] => 0
  | c :: rest => if c.isDigit then 0 else identifierRun (rest.length + 1) text

/-- The signs of more than one character, longer ones first. -/
def longSigns : List (List Char) :=
  [">>>=", "...", "===", "!==", "**=", "<<=", ">>=", ">>>", "&&=", "||=", "??=", "=>", "==", "!=",
    "<=", ">=", "&&", "||", "??", "?.", "++", "--", "+=", "-=", "*=", "/=", "%=", "&=", "|=", "^=",
    "<<", ">>", "**"].map (·.toList)

/-- The longest sign at the beginning of a text. A question mark before a fraction stands alone. -/
def signAt : List Char → List Char
  | '?' :: '.' :: c :: _ => if c.isDigit then ['?'] else ['?', '.']
  | text =>
    match longSigns.find? (·.isPrefixOf text) with
    | some sign => sign
    | none => if text.head?.any punctuation.contains then text.take 1 else []

/-- The length of a quoted string behind its opening quote; `none` when it does not end on its line. -/
def stringTail? (quote : Char) : List Char → Option Nat
  | [] => none
  | '\\' :: '\r' :: '\n' :: rest => (stringTail? quote rest).map (· + 3)
  | '\\' :: _ :: rest => (stringTail? quote rest).map (· + 2)
  | c :: rest =>
    if c = quote then some 1
    else if c = '\n' ∨ c = '\\' then none
    else (stringTail? quote rest).map (· + 1)

/-- The length of a string literal. -/
def stringLength? : List Char → Option Nat
  | '"' :: rest => (stringTail? '"' rest).map (· + 1)
  | '\'' :: rest => (stringTail? '\'' rest).map (· + 1)
  | _ => none

/-- The length of the tail of a regular expression: its flags included, brackets hide slashes. -/
def regexTail? (inClass : Bool) : List Char → Option Nat
  | [] => none
  | '\\' :: c :: rest => if isLineBreak c then none else (regexTail? inClass rest).map (· + 2)
  | c :: rest =>
    if isLineBreak c then none
    else if c = '[' then (regexTail? true rest).map (· + 1)
    else if c = ']' then (regexTail? false rest).map (· + 1)
    else if c = '/' ∧ !inClass then some (1 + (rest.takeWhile Char.isAlpha).length)
    else (regexTail? inClass rest).map (· + 1)

/-- The length of a regular expression. -/
def regexLength? : List Char → Option Nat
  | '/' :: rest =>
    if rest.head? = some '/' ∨ rest.head? = some '*' then none
    else (regexTail? false rest).map (· + 1)
  | _ => none

/-- A digit of a number in any base, with separators. -/
def isNumberPart (c : Char) : Bool := c.isAlphanum || c == '_'

/-- The length of the exponent, whose letter is the character before `text`, when a sign begins it. -/
def signedTail (last : Option Char) (text : List Char) : Nat :=
  match text with
  | sign :: digit :: rest =>
    if (last == some 'e' || last == some 'E') && (sign == '+' || sign == '-') && digit.isDigit then
      2 + (rest.takeWhile isNumberPart).length
    else 0
  | _ => 0

/-- The length of digits and letters with a signed exponent. -/
def numberRun (text : List Char) : Nat :=
  let run := text.takeWhile isNumberPart
  run.length + signedTail run.getLast? (text.drop run.length)

/-- The length of a number. -/
def numberLength? : List Char → Option Nat
  | '.' :: rest => if rest.head?.any Char.isDigit then some (1 + numberRun rest) else none
  | text =>
    if text.head?.any Char.isDigit then
      let based := text.head? = some '0' ∧ text[1]?.any (·.isAlpha)
      let run := if based then (text.takeWhile isNumberPart).length else numberRun text
      match text.drop run with
      | '.' :: rest => if based then some run else some (run + 1 + numberRun rest)
      | _ => some run
    else none

/-- The length of a comment's contents up to and with its end; all of the text if it has no end. -/
def blockCommentTail : List Char → Nat
  | [] => 0
  | '*' :: '/' :: _ => 2
  | _ :: rest => 1 + blockCommentTail rest

/-- A character that a line comment does not go beyond. -/
def endsComment (c : Char) : Bool := c == '\r' || isLineBreak c

/-- The first comment in `text`, which holds no literals. -/
def firstComment? : List Char → Option (List Char)
  | [] => none
  | '/' :: '/' :: rest => some ('/' :: '/' :: rest.takeWhile (!endsComment ·))
  | '/' :: '*' :: rest => some ('/' :: '*' :: rest.take (blockCommentTail rest))
  | _ :: rest => firstComment? rest

/-- The length of the white space and comments at the beginning of a text, at most `fuel` pieces, and
whether a line breaks in it. -/
def triviaRun : Nat → List Char → Nat × Bool
  | 0, _ => (0, false)
  | fuel + 1, text =>
    match text with
    | [] => (0, false)
    | '/' :: '/' :: rest =>
      let comment := 2 + (rest.takeWhile (!endsComment ·)).length
      let (more, breaks) := triviaRun fuel (text.drop comment)
      (comment + more, breaks)
    | '/' :: '*' :: rest =>
      let comment := 2 + blockCommentTail rest
      let (more, breaks) := triviaRun fuel (text.drop comment)
      (comment + more, breaks || (text.take comment).any isLineBreak)
    | c :: rest =>
      if isSpace c || isLineBreak c then
        let (more, breaks) := triviaRun fuel rest
        (1 + more, breaks || isLineBreak c)
      else (0, false)

end ApiImpact.TypeScript

import ApiImpact.Text.Unicode

/-!
The character classes that scanning uses. All follow Unicode properties: blanks are `White_Space`,
word characters are letters, digits, marks, connectors and join controls.
-/

namespace ApiImpact.Text

/-- The code point of `c` lies in one of `ranges`. -/
def inRanges (ranges : List (Nat × Nat)) (c : Char) : Bool :=
  ranges.any fun (low, high) => low ≤ c.toNat && c.toNat ≤ high

/-- `c` has the Unicode property `White_Space`. -/
def isBlank (c : Char) : Bool :=
  let n := c.toNat
  (9 ≤ n && n ≤ 13) || n == 0x20 || n == 0x85 || n == 0xA0 || n == 0x1680
    || (0x2000 ≤ n && n ≤ 0x200A) || n == 0x2028 || n == 0x2029 || n == 0x202F || n == 0x205F
    || n == 0x3000

/-- `c` has the Unicode property `Alphabetic`. -/
def isAlphabetic (c : Char) : Bool :=
  if c.toNat < 128 then c.isAlpha else inRanges alphabeticRanges c

/-- `c` is a letter or any kind of number. -/
def isAlphanumeric (c : Char) : Bool :=
  if c.toNat < 128 then c.isAlphanum
  else inRanges alphabeticRanges c || inRanges decimalRanges c || inRanges otherNumberRanges c

/-- `c` may stand inside a word: a letter, a decimal digit, a mark, a connector or a join control. -/
def isWordChar (c : Char) : Bool :=
  if c.toNat < 128 then c.isAlphanum || c == '_'
  else inRanges alphabeticRanges c || inRanges decimalRanges c || inRanges joiningRanges c

/-- `c` is one of the characters of an identifier as the scanners of this library read it. -/
def isIdentifierChar (c : Char) : Bool :=
  isAlphanumeric c || c == '_' || c == '$'

/-- `c` may begin an ASCII identifier. -/
def isAsciiIdentifierStart (c : Char) : Bool :=
  c.isAlpha || c == '_' || c == '$'

/-!
Trimming, splitting at blanks and collapsing of blank runs.
-/

/-- `text` without its leading blanks. -/
def trimStart (text : List Char) : List Char :=
  text.dropWhile isBlank

/-- `text` without the longest run at its end of characters satisfying `p`. -/
def dropEndWhile (p : Char → Bool) (text : List Char) : List Char :=
  text.foldr (fun c kept => if kept.isEmpty && p c then [] else c :: kept) []

/-- `text` without its trailing blanks. -/
def trimEnd (text : List Char) : List Char :=
  dropEndWhile isBlank text

/-- `text` without the blanks around it. -/
def trim (text : List Char) : List Char :=
  trimEnd (trimStart text)

/-- `text` holds nothing but blanks. -/
def isAllBlank (text : List Char) : Bool :=
  text.all isBlank

/-- Adds `c` in front of the first of `words`, which is the word being read. -/
def consToHead (c : Char) : List (List Char) → List (List Char)
  | [] => [[c]]
  | word :: rest => (c :: word) :: rest

/-- The pieces of `text` between the characters satisfying `p`, empty ones included. -/
def splitAtChars (p : Char → Bool) : List Char → List (List Char)
  | [] => [[]]
  | c :: rest => if p c then [] :: splitAtChars p rest else consToHead c (splitAtChars p rest)

/-- The maximal runs of non-blank characters. -/
def words (text : List Char) : List (List Char) :=
  (splitAtChars isBlank text).filter (!·.isEmpty)

/-- The words of `text` with one space between neighbours. -/
def collapse (text : List Char) : List Char :=
  [' '].intercalate (words text)

/-- `text` without the copies of `part` it begins with; an empty `part` removes nothing. -/
def dropLeadingCopies (part : List Char) (text : List Char) : List Char :=
  if part.isEmpty then text
  else if part.isPrefixOf text then dropLeadingCopies part (text.drop part.length)
  else text
termination_by text.length
decreasing_by
  rename_i nonempty leads
  have short : part.length ≤ text.length := (List.isPrefixOf_iff_prefix.mp leads).length_le
  have : part.length ≠ 0 := by simpa using nonempty
  simp only [List.length_drop]
  omega

/-- What follows `part` at the beginning of `text`. -/
def dropPrefix? (part text : List Char) : Option (List Char) :=
  if part.isPrefixOf text then some (text.drop part.length) else none

/-- `text` holds `part` as a contiguous piece. -/
def holds (part : List Char) : List Char → Bool
  | [] => part.isEmpty
  | c :: rest => part.isPrefixOf (c :: rest) || holds part rest

/-- `text` begins with `part`. -/
def beginsWith (text part : String) : Bool :=
  part.toList.isPrefixOf text.toList

end ApiImpact.Text

namespace String

open ApiImpact

/-- The text with every run of blanks turned into one space and none at its ends. -/
def collapseBlanks (text : String) : String :=
  .ofList (Text.collapse text.toList)

end String

import ApiImpact.Text.Offset

/-!
Masks of a script: the text with its comments, or its comments and the contents of its literals,
blanked out. Every character is first given a shade by one scan; each mask then decides by shade
alone what it keeps. A blanked character becomes as many spaces as it has bytes and a line break
stays, so byte offsets and line numbers found in a mask are those of the script.
-/

namespace ApiImpact.Text

/-- What a character of a script belongs to. Delimiters of literals count as code. -/
inductive Shade where
  | code
  | comment
  | literal
  deriving DecidableEq, Repr

/-- Where the scan stands. -/
inductive Zone where
  | code
  | lineComment
  | blockComment
  | quoted (quote : Char)
  | template
  | regex (inClass : Bool)
  deriving DecidableEq, Repr

/-- What the scan remembers of the code behind it, to tell a regular expression from a division. -/
structure Trail where
  /-- The last character of code that is not blank. -/
  last : Option Char := none
  /-- The characters of the last word, latest first; empty after any other sign. -/
  word : List Char := []
  /-- The character just before is code and belongs to a word. -/
  inWord : Bool := false

/-- The signs after which a slash begins a regular expression. -/
def regexSigns : List Char := "(,=:[!&|?{};+-*%<>~^".toList

/-- The words after which a slash begins a regular expression. -/
def regexWords : List (List Char) :=
  ["return", "typeof", "case", "do", "else", "in", "of", "void"].map (·.toList)

/-- A slash here begins a regular expression: nothing, an operator, an opening bracket, a separator
or a word such as `return` stands before it. -/
def Trail.regexMayStart (trail : Trail) : Bool :=
  match trail.last with
  | none => true
  | some c =>
    regexSigns.contains c || (isIdentifierChar c && regexWords.contains trail.word.reverse)

/-- The trail after the code character `c`. -/
def Trail.push (trail : Trail) (c : Char) : Trail :=
  if isIdentifierChar c then
    { last := some c, word := c :: (if trail.inWord then trail.word else []), inWord := true }
  else if isBlank c then
    { trail with inWord := false }
  else
    { last := some c, word := [], inWord := false }

/-- The trail after the closing sign `c` of a literal. -/
def Trail.close (c : Char) : Trail :=
  { last := some c, word := [], inWord := false }

/-- The trail on leaving code. -/
def Trail.leave (trail : Trail) : Trail :=
  { trail with inWord := false }

/-- The shade of every character of a script, scanned from `zone` after `trail`. -/
def shadesFrom : Zone → Trail → List Char → List (Char × Shade)
  | _, _, [] => []
  | .code, trail, c :: rest =>
    if c = '/' then
      match rest with
      | '/' :: rest' => (c, .comment) :: ('/', .comment) :: shadesFrom .lineComment trail.leave rest'
      | '*' :: rest' => (c, .comment) :: ('*', .comment) :: shadesFrom .blockComment trail.leave rest'
      | rest =>
        if trail.regexMayStart then (c, .code) :: shadesFrom (.regex false) trail.leave rest
        else (c, .code) :: shadesFrom .code (trail.push c) rest
    else if c = '\'' ∨ c = '"' then (c, .code) :: shadesFrom (.quoted c) trail.leave rest
    else if c = '\x60' then (c, .code) :: shadesFrom .template trail.leave rest
    else (c, .code) :: shadesFrom .code (trail.push c) rest
  | .lineComment, trail, c :: rest =>
    (c, .comment) :: shadesFrom (if c = '\n' then .code else .lineComment) trail rest
  | .blockComment, trail, c :: rest =>
    if c = '*' then
      match rest with
      | '/' :: rest' => (c, .comment) :: ('/', .comment) :: shadesFrom .code trail rest'
      | rest => (c, .comment) :: shadesFrom .blockComment trail rest
    else (c, .comment) :: shadesFrom .blockComment trail rest
  | .quoted quote, trail, c :: rest =>
    if c = '\\' then
      match rest with
      | [] => [(c, .literal)]
      | escaped :: rest' =>
        (c, .literal) :: (escaped, .literal) :: shadesFrom (.quoted quote) trail rest'
    else if c = quote then (c, .code) :: shadesFrom .code (.close c) rest
    else if c = '\n' then (c, .code) :: shadesFrom .code trail rest
    else (c, .literal) :: shadesFrom (.quoted quote) trail rest
  | .template, trail, c :: rest =>
    if c = '\\' then
      match rest with
      | [] => [(c, .literal)]
      | escaped :: rest' => (c, .literal) :: (escaped, .literal) :: shadesFrom .template trail rest'
    else if c = '\x60' then (c, .code) :: shadesFrom .code (.close c) rest
    else (c, .literal) :: shadesFrom .template trail rest
  | .regex inClass, trail, c :: rest =>
    if c = '\\' then
      match rest with
      | [] => [(c, .literal)]
      | escaped :: rest' =>
        (c, .literal) :: (escaped, .literal) :: shadesFrom (.regex inClass) trail rest'
    else if c = '\n' then (c, .code) :: shadesFrom .code trail rest
    else if c = '[' then (c, .literal) :: shadesFrom (.regex true) trail rest
    else if c = ']' ∧ inClass then (c, .literal) :: shadesFrom (.regex false) trail rest
    else if c = '/' ∧ !inClass then (c, .code) :: shadesFrom .code (.close c) rest
    else (c, .literal) :: shadesFrom (.regex inClass) trail rest

/-- The shade of every character of `script`. -/
def shades (script : List Char) : List (Char × Shade) :=
  shadesFrom .code {} script

/-- Spaces as wide as `c`; a line break stays. -/
def blankOut (c : Char) : List Char :=
  if c = '\n' then ['\n'] else List.replicate c.utf8Size ' '

/-- The text of `shaded` with the characters of the shades in `hidden` blanked out. -/
def hide (hidden : Shade → Bool) (shaded : List (Char × Shade)) : List Char :=
  shaded.flatMap fun (c, shade) => if hidden shade then blankOut c else [c]

/-- `script` with its comments blanked out. -/
def withoutComments (script : List Char) : List Char :=
  hide (· == .comment) (shades script)

/-- `script` with its comments and the contents of its literals blanked out; the delimiters of
literals stay. -/
def codeOnly (script : List Char) : List Char :=
  hide (· != .code) (shades script)

end ApiImpact.Text

import ApiImpact.Proofs.Text.Lexical
import ApiImpact.Proofs.Text.Pieces

/-!
# Objects that are assigned to the exports

An object is written as a list of properties between braces. Its keys become exports, but what stands before a key may be taken
for it: the word `async` or `get`, and behind an asterisk no key is found.
-/

namespace ApiImpact.Assigned

open Text Lexical

/-! ## Objects as they are written -/

/-- What a sequence of items leaves in the mask. -/
def code (items : List Item) : List Char := items.flatMap Item.masked

/-- An identifier. No word is reserved. -/
structure Name where
  chars : List Char
  ne_nil : chars ≠ []
  isPart : ∀ c ∈ chars, isIdentifierChar c = true
  not_digit : ∀ c ∈ chars.head?, c.isDigit = false

/-- A literal in quotes, without escapes. -/
structure Quoted where
  mark : Char
  isMark : mark = '\'' ∨ mark = '"'
  chars : List Char
  plain : ∀ c ∈ chars, c ≠ '\\' ∧ c ∉ [mark, '\n']

inductive Key where
  | name (name : Name)
  | quoted (literal : Quoted)

/-- Blanks and comments. -/
structure Gap where
  items : List Item
  insignificant : ∀ item ∈ items, item.isSignificant = false

/-- Code that closes its brackets and has no angle brackets. -/
structure Block where
  items : List Item
  balanced : IsBalanced (code items)
  no_angle : ∀ c ∈ code items, c ≠ '<' ∧ c ≠ '>'

/-- An expression, with commas only inside brackets. -/
structure Value extends Block where
  whole : ∀ front back, code items = front ++ ',' :: back → bracketDepth front ≠ 0
  last : ∀ c ∈ (code items).getLast?, isBlank c = false

/-- What stands before the key of a method. -/
inductive Modifier where
  | none
  | async
  | generator
  | getter
  deriving DecidableEq

inductive Property where
  /-- `key` -/
  | shorthand (key : Name)
  /-- `key: value` -/
  | pair (key : Key) (value : Value)
  /-- `key(params) {body}`, perhaps behind a modifier. -/
  | method (modifier : Modifier) (key : Name) (params : Block) (gap : Gap) (body : Block)
  /-- `...value` -/
  | spread (value : Value)

/-- A property between blanks and comments. -/
structure Entry where
  before : Gap
  property : Property
  after : Gap

def Name.item (name : Name) : Item := .word name.chars name.ne_nil name.isPart

/-- The inside of the literal. -/
def Quoted.contents (literal : Quoted) : Contents [literal.mark, '\n'] where
  glyphs := literal.chars.map .plain
  avoids := by
    intro glyph hglyph
    obtain ⟨c, hc, rfl⟩ := List.mem_map.mp hglyph
    exact literal.plain c hc

def Key.item : Key → Item
  | name word => word.item
  | quoted literal => .quoted literal.mark literal.isMark literal.contents

def Key.text : Key → String
  | name word => .ofList word.chars
  | quoted literal => .ofList literal.chars

/-- A word with a blank behind it. -/
def wordItems (word : List Char) (h : word ≠ [] ∧ ∀ c ∈ word, isIdentifierChar c = true) : List Item :=
  [.word word h.1 h.2, .blanks [' '] (by decide) (by decide)]

def Modifier.items : Modifier → List Item
  | none => []
  | async => wordItems "async".toList (by decide)
  | generator => [.sign '*' (by decide)]
  | getter => wordItems "get".toList (by decide)

namespace Property

def items : Property → List Item
  | shorthand key => [key.item]
  | pair key value => key.item :: .sign ':' (by decide) :: value.items
  | method modifier key params gap body => modifier.items ++ (key.item :: .sign '(' (by decide) :: (params.items ++
      (.sign ')' (by decide) :: (gap.items ++ (.sign '\x7b' (by decide) :: (body.items ++ [.sign '\x7d' (by decide)]))))))
  | spread value => List.replicate 3 (.sign '.' (by decide)) ++ value.items

/-- The key of the property. -/
def key? : Property → Option String
  | shorthand key | method _ key _ _ _ => some (.ofList key.chars)
  | pair key _ => some key.text
  | spread _ => none

/-- What is taken for the key. -/
def taken? : Property → Option String
  | method .async _ _ _ _ => some "async"
  | method .getter _ _ _ _ => some "get"
  | method .generator _ _ _ _ => none
  | property => property.key?

/-- Something else than its key is taken for it, or nothing. -/
def IsMistaken : Property → Prop
  | method .async key _ _ _ => key.chars ≠ "async".toList
  | method .getter key _ _ _ => key.chars ≠ "get".toList
  | method .generator _ _ _ _ => True
  | _ => False

end Property

def Entry.items (entry : Entry) : List Item := entry.before.items ++ (entry.property.items ++ entry.after.items)

/-- The beginning of an assignment of an object to the exports. -/
def headItems : List Item :=
  [.word "module".toList (by decide) (by decide), .sign '.' (by decide), .word "exports".toList (by decide) (by decide),
    .blanks [' '] (by decide) (by decide), .sign '=' (by decide), .blanks [' '] (by decide) (by decide), .sign '\x7b' (by decide)]

/-- The entries with commas between them. -/
def listItems (entries : List Entry) : List Item := [Item.sign ',' (by decide)].intercalate (entries.map Entry.items)

/-- What stands behind the last entry. -/
def tailItems (ending : Gap) : List Item := .sign '\x7d' (by decide) :: .sign ';' (by decide) :: ending.items

/-- A script that assigns an object to the exports. -/
structure Assignment where
  entries : List Entry
  ending : Gap
  lexical : isLexical [] (headItems ++ (listItems entries ++ tailItems ending)) = true

namespace Assignment

variable (assignment : Assignment)

def items : List Item := headItems ++ (listItems assignment.entries ++ tailItems assignment.ending)

/-- The script. -/
def text : String := .ofList (assignment.items.flatMap Item.chars)

def properties : List Property := assignment.entries.map Entry.property

end Assignment

/-- The words before keys, as names. -/
def asyncName : Name := ⟨"async".toList, by decide, by decide, by decide⟩

def getName : Name := ⟨"get".toList, by decide, by decide, by decide⟩

/-! ## Items of other statements -/

/-- A blank. -/
@[simp] def spaceItem : Item := .blanks [' '] (by decide) (by decide)

@[simp] def exportItem : Item := .word "export".toList (by decide) (by decide)

@[simp] def equalsItem : Item := .sign '=' (by decide)

@[simp] def semicolonItem : Item := .sign ';' (by decide)

/-- The sign before a list. -/
@[simp] def listStart : Item := .sign '(' (by decide)

@[simp] def listEnd : Item := .sign ')' (by decide)

/-- The sign before a body. -/
@[simp] def bodyStart : Item := .sign '\x7b' (by decide)

@[simp] def bodyEnd : Item := .sign '\x7d' (by decide)

/-! ## Their code -/

variable {items items' : List Item} {item : Item} {c : Char} {rest : List Char}

@[simp] theorem code_nil : code [] = [] := rfl

@[simp] theorem code_cons : code (item :: items) = item.masked ++ code items := List.flatMap_cons

@[simp] theorem code_append : code (items ++ items') = code items ++ code items' := List.flatMap_append

theorem Name.ne_of_mem {sign : Char} (name : Name) (hsign : isIdentifierChar sign = false) (h : c ∈ name.chars) : c ≠ sign := by
  rintro rfl
  rw [name.isPart c h] at hsign
  cases hsign

theorem Name.isBlank (name : Name) (h : c ∈ name.chars) : Text.isBlank c = false :=
  isBlank_of_isIdentifierChar (name.isPart c h)

theorem Gap.isBlank (gap : Gap) : ∀ c ∈ code gap.items, Text.isBlank c = true := by
  have hblanked : ∀ (text : List Char), ∀ c ∈ text.flatMap blankOut, Text.isBlank c = true := by
    intro text c hc
    obtain ⟨d, -, hd⟩ := List.mem_flatMap.mp hc
    rcases mem_blankOut hd with rfl | rfl <;> rfl
  intro c hc
  obtain ⟨item, hitem, hc⟩ := List.mem_flatMap.mp hc
  have hinsignificant := gap.insignificant item hitem
  cases item with
  | blanks chars hne hblank => exact hblank c hc
  | lineComment text inLine => exact hblanked _ c hc
  | blockComment text inside => exact hblanked _ c hc
  | word | sign | quoted | template | regex | division => cases hinsignificant

/-! ### Parts -/

theorem isPart_blanks {text : List Char} (h : ∀ c ∈ text, isBlank c = true) : IsPart text := by
  refine isPart_of_forall fun c hc hmem => ?_
  have hsigns : ∀ c ∈ '<' :: '>' :: ',' :: brackets, Text.isBlank c = false := by decide
  have hblank := h c hc
  rw [hsigns c hmem] at hblank
  cases hblank

theorem Gap.isPart (gap : Gap) : IsPart (code gap.items) := isPart_blanks gap.isBlank

theorem isPart_sign (h : c ∉ '<' :: '>' :: ',' :: brackets) : IsPart [c] := isPart_of_forall (by simpa using h)

theorem Name.isPart_chars (name : Name) : IsPart name.chars := by
  have hsigns : ∀ c ∈ '<' :: '>' :: ',' :: brackets, isIdentifierChar c = false := by decide
  exact isPart_of_forall fun c hc hmem => name.ne_of_mem (hsigns c hmem) hc rfl

theorem Quoted.isPart_masked (literal : Quoted) : IsPart (Key.item (.quoted literal)).masked := by
  have hmark : IsPart [literal.mark] := by
    rcases literal.isMark with h | h <;> rw [h] <;> exact isPart_sign (by decide)
  have hinside : IsPart (literal.contents.chars.flatMap blankOut) := isPart_blanks fun c hc => by
    obtain ⟨d, -, hd⟩ := List.mem_flatMap.mp hc
    rcases mem_blankOut hd with rfl | rfl <;> rfl
  exact hmark.append (hinside.append hmark)

theorem Key.isPart (key : Key) : IsPart key.item.masked := by
  cases key with
  | name word => exact word.isPart_chars
  | quoted literal => exact literal.isPart_masked

theorem Block.isPart_nested {opener closer : Char} (block : Block) (h : closerOf? opener = some closer) :
    IsPart (opener :: (code block.items ++ [closer])) :=
  Text.isPart_nested block.balanced block.no_angle h

theorem Value.isPart (value : Value) : IsPart (code value.items) := ⟨value.balanced, value.no_angle, value.whole⟩

theorem Modifier.isPart (modifier : Modifier) : IsPart (code modifier.items) := by
  cases modifier <;> exact isPart_of_forall (by decide)

theorem Key.exists_masked (key : Key) : ∃ c rest, key.item.masked = c :: rest ∧ Text.isBlank c = false := by
  cases key with
  | name word =>
      obtain ⟨c, rest, hcons⟩ := List.exists_cons_of_ne_nil word.ne_nil
      exact ⟨c, rest, hcons, word.isBlank (hcons ▸ List.mem_cons_self)⟩
  | quoted literal =>
      refine ⟨literal.mark, _, rfl, ?_⟩
      rcases literal.isMark with h | h <;> rw [h] <;> rfl

theorem Modifier.isBlank_head (modifier : Modifier) : ∀ c ∈ (code modifier.items).head?, Text.isBlank c = false := by
  cases modifier <;> decide

theorem isBlank_last_append {front : List Char} (hc : Text.isBlank c = false) (h : ∀ d ∈ rest.getLast?, Text.isBlank d = false) :
    ∀ d ∈ (front ++ c :: rest).getLast?, Text.isBlank d = false := by
  intro d hd
  rw [List.getLast?_append_of_ne_nil _ (List.cons_ne_nil c rest)] at hd
  cases rest with
  | nil => exact Option.some.inj hd ▸ hc
  | cons e rest => exact h d hd

namespace Property

/-- The code of a method behind its key. -/
def calledCode (params : Block) (gap : Gap) (body : Block) : List Char :=
  '(' :: (code params.items ++ [')']) ++ (code gap.items ++ ('\x7b' :: (code body.items ++ ['\x7d'])))

theorem code_shorthand (key : Name) : code (shorthand key).items = key.chars := List.append_nil _

theorem code_pair (key : Key) (value : Value) : code (pair key value).items = key.item.masked ++ ':' :: code value.items := rfl

theorem code_method (modifier : Modifier) (key : Name) (params : Block) (gap : Gap) (body : Block) :
    code (method modifier key params gap body).items = code modifier.items ++ (key.chars ++ calledCode params gap body) := by
  simp [items, calledCode, Name.item, Item.masked]

theorem code_spread (value : Value) : code (spread value).items = "...".toList ++ code value.items := rfl

theorem isPart (property : Property) : IsPart (code property.items) := by
  cases property with
  | shorthand key =>
      rw [code_shorthand]
      exact key.isPart_chars
  | pair key value =>
      rw [code_pair]
      exact key.isPart.append ((isPart_sign (by decide)).append value.isPart)
  | method modifier key params gap body =>
      rw [code_method]
      exact modifier.isPart.append (key.isPart_chars.append
        ((params.isPart_nested rfl).append (gap.isPart.append (body.isPart_nested rfl))))
  | spread value =>
      rw [code_spread]
      exact (isPart_of_forall (by decide)).append value.isPart

theorem exists_cons (property : Property) : ∃ c rest, code property.items = c :: rest ∧ Text.isBlank c = false := by
  cases property with
  | shorthand key =>
      obtain ⟨c, rest, hcons, hc⟩ := (Key.name key).exists_masked
      exact ⟨c, rest, by rw [code_shorthand]; exact hcons, hc⟩
  | pair key value =>
      obtain ⟨c, rest, hcons, hc⟩ := key.exists_masked
      exact ⟨c, rest ++ ':' :: code value.items, by rw [code_pair, hcons]; rfl, hc⟩
  | method modifier key params gap body =>
      obtain ⟨c, rest, hcons, hc⟩ := (Key.name key).exists_masked
      have hkey : key.chars = c :: rest := hcons
      rw [code_method, hkey]
      have hhead := modifier.isBlank_head
      cases hmodifier : code modifier.items with
      | nil => exact ⟨c, _, rfl, hc⟩
      | cons d more => exact ⟨d, _, rfl, hhead d (by rw [hmodifier]; rfl)⟩
  | spread value => exact ⟨'.', _, rfl, by decide⟩

theorem isBlank_last (property : Property) : ∀ c ∈ (code property.items).getLast?, Text.isBlank c = false := by
  cases property with
  | shorthand key =>
      rw [code_shorthand]
      exact fun c hc => key.isBlank (List.mem_of_mem_getLast? hc)
  | pair key value =>
      rw [code_pair]
      exact isBlank_last_append (by decide) value.last
  | method modifier key params gap body =>
      have hsplit : code (method modifier key params gap body).items = (code modifier.items ++ (key.chars ++
          ('(' :: (code params.items ++ [')']) ++ (code gap.items ++ '\x7b' :: code body.items)))) ++ ['\x7d'] := by
        rw [code_method, calledCode]
        simp
      rw [hsplit]
      exact isBlank_last_append (by decide) (by simp)
  | spread value =>
      have hsplit : code (spread value).items = "..".toList ++ '.' :: code value.items := rfl
      rw [hsplit]
      exact isBlank_last_append (by decide) value.last

theorem trimmed (property : Property) : Trimmed (code property.items) where
  head := by
    obtain ⟨c, rest, hcons, hc⟩ := property.exists_cons
    simpa [hcons] using hc
  last := property.isBlank_last

end Property

theorem Entry.isPart (entry : Entry) : IsPart (code entry.items) := by
  rw [items, code_append, code_append]
  exact entry.before.isPart.append (entry.property.isPart.append entry.after.isPart)

end ApiImpact.Assigned

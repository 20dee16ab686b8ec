import ApiImpact.Proofs.Assigned.Written
import ApiImpact.Proofs.Classes.Patterns
import ApiImpact.Proofs.Program.Statement

/-!
# Classes whose members are methods

A class is written as a list of methods between braces, of which one may be the constructor, with blanks and comments before each of
them. Where the members stand in their lines makes no difference to what the class is, but a member is seen only if its line begins
with it.
-/

namespace ApiImpact.Classes

open Text Text.Pattern Lexical Script Assigned

/-! ## Classes as they are written -/

/-- Blanks in a line. -/
structure Spaces where
  chars : List Char
  ne_nil : chars ≠ []
  isGap : ∀ c ∈ chars, isGap c = true

/-- The name of a member, without the hash sign of a private one. -/
structure MemberName extends Assigned.Name where
  isNameChar : ∀ c ∈ chars, isNameChar c = true

/-- `static async #name(list) {body}`, where the words and the hash sign may be left out. -/
structure Member where
  /-- The blanks behind the word `static`, if it is there. -/
  static : Option Spaces
  /-- The blanks behind the word `async`, if it is there. -/
  async : Option Spaces
  isPrivate : Bool
  name : MemberName
  /-- The blanks behind the name. -/
  space : Option Spaces
  list : List Item
  gap : Gap
  body : List Item
  list_balanced : IsBalanced (code list)
  body_closes : Closes '\x7b' '\x7d' (code body)

/-- A member with the blanks and comments before it. -/
structure Entry where
  before : Gap
  member : Member

def Spaces.item (spaces : Spaces) : Item :=
  .blanks spaces.chars spaces.ne_nil fun c hc => isBlank_of_isGap (spaces.isGap c hc)

def staticItem : Item := .word "static".toList (by decide) (by decide)

/-- A word with blanks behind it, or nothing. -/
def spacedItems (word : Item) : Option Spaces → List Item
  | none => []
  | some spaces => [word, spaces.item]

namespace Member

variable (member : Member)

def text : String := .ofList member.name.chars

def params : List Parameter := parametersOf (code member.list)

/-- The member up to its parameters. -/
def headItems : List Item :=
  spacedItems staticItem member.static ++ (spacedItems asyncName.item member.async ++ ((if member.isPrivate then
    [.sign '#' (by decide)] else []) ++ (member.name.item :: (member.space.toList.map Spaces.item ++ [listStart]))))

/-- The member from its parameters on. -/
def tailItems : List Item :=
  member.list ++ (listEnd :: (member.gap.items ++ (bodyStart :: (member.body ++ [bodyEnd]))))

def items : List Item := member.headItems ++ member.tailItems

/-- A static method may have the name of the constructor. -/
def isConstructor : Bool := member.text == "constructor" && !member.isPrivate && member.static.isNone

end Member

def Entry.items (entry : Entry) : List Item := entry.before.items ++ entry.member.items

/-- `export class name {entries}` -/
structure Class where
  name : Assigned.Name
  gap : Gap
  entries : List Entry
  ending : Gap
  written : Program.isWritten name.chars = true
  ne_extends : name.chars ≠ "extends".toList
  distinct : (((entries.map Entry.member).filter (!·.isPrivate)).map Member.text).Nodup

namespace Class

variable (cls : Class)

def text : String := .ofList cls.name.chars

def members : List Member := cls.entries.map Entry.member

def bodyItems : List Item := cls.entries.flatMap Entry.items ++ cls.ending.items

/-- The class up to the brace that opens it. -/
def opening : List Item :=
  [exportItem, spaceItem, .word "class".toList (by decide) (by decide), spaceItem, cls.name.item] ++ (cls.gap.items ++ [bodyStart])

def items : List Item := cls.opening ++ (cls.bodyItems ++ [bodyEnd])

end Class

/-- What a class of these members is: its public methods in their order, and the parameters of its constructor. -/
def shapeOf (members : List Member) : ClassShape where
  methods := (members.filter fun member => !member.isPrivate && !member.isConstructor).map Member.text
  constructor := (members.find? Member.isConstructor).map Member.params

/-! ## What is seen of them -/

/-- Nothing but blanks stands behind the last line break. -/
def beginsLine (text : List Char) : Bool := (text.reverse.takeWhile (· != '\n')).all isGap

/-- A member, with what stands in front of it between the braces of its class. -/
structure Site where
  before : List Char
  member : Member

/-- The member is public and begins a line with a name that begins with a letter of ASCII or one of its signs. -/
def Site.isSeen (site : Site) : Bool :=
  !site.member.isPrivate && beginsLine site.before && site.member.name.chars.head?.any isAsciiIdentifierStart

/-- The members of `entries`, which stand behind `before`. -/
def sites (before : List Char) : List Entry → List Site
  | [] => []
  | entry :: entries => ⟨before ++ code entry.before.items, entry.member⟩ :: sites (before ++ code entry.items) entries

namespace Class

variable (cls : Class)

/-- The members that are seen. -/
def seen : List Member := ((sites [] cls.entries).filter Site.isSeen).map Site.member

/-- What is taken for the shape of the class. -/
def seenShape : ClassShape where
  methods := (cls.seen.map Member.text).filter (!notMethods.contains ·)
  constructor := (cls.seen.find? (·.text == "constructor")).map Member.params

/-- Every public member is seen, and no method has a name that is kept for something else. -/
def IsOpen : Prop := ∀ site ∈ sites [] cls.entries, site.member.isPrivate = false →
  site.isSeen = true ∧ (site.member.text ∈ notMethods → site.member.isConstructor = true)

end Class

/-- No line of the member outside its braces begins as a member does, the first one apart. -/
def Member.IsQuiet (member : Member) : Prop := ∀ front rest, code member.items = front ++ '\n' :: rest → braceDepth front = 0 →
  ∀ pattern ∈ memberPatterns, pattern.matchAt? (.between (front ++ ['\n']) rest) = none

end ApiImpact.Classes

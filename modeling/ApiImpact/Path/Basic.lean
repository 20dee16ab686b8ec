import Std.Data.ExtTreeMap
import ApiImpact.Text.Blank

/-!
File paths with `/` as separator. A path is read into its segments once: repeated and trailing slashes
and inner dots name nothing, so paths that differ in these alone are equal. The order is by
segments, not by characters.
-/

namespace ApiImpact

/-- One step of a path. -/
inductive Segment where
  /-- A leading `.` of a relative path. -/
  | here
  /-- The directory above. -/
  | parent
  | name (text : String)
  deriving DecidableEq, Repr, Inhabited

namespace Segment

/-- The text of a segment. -/
def text : Segment → String
  | here => "."
  | parent => ".."
  | name text => text

/-- A leading dot comes first, then the directory above, then names. -/
def level : Segment → Nat
  | here => 0
  | parent => 1
  | name _ => 2

instance : Ord Segment := ⟨compareLex (compareOn level) (compareOn text)⟩

instance : Std.TransOrd Segment :=
  inferInstanceAs (Std.TransCmp (compareLex (compareOn level) (compareOn text)))

theorem eq_of_compare_eq {a b : Segment} (h : compare a b = .eq) : a = b := by
  obtain ⟨hl, ht⟩ := compareLex_eq_eq.mp h
  have hl : a.level = b.level := Std.LawfulEqCmp.eq_of_compare hl
  have ht : a.text = b.text := Std.LawfulEqCmp.eq_of_compare ht
  cases a <;> cases b <;> simp_all [level, text]

instance : Std.LawfulEqOrd Segment := ⟨eq_of_compare_eq⟩

/-- The segment that `piece`, a text without slashes, stands for. -/
def ofPiece (piece : List Char) : Segment :=
  if piece = ['.'] then here else if piece = ['.', '.'] then parent else name (.ofList piece)

end Segment

/-- A path: whether it starts at the root, and its segments. -/
structure Path where
  absolute : Bool := false
  segments : List Segment := []
  deriving DecidableEq, Repr, Inhabited

namespace Path

/-- The steps of a path as the order compares them: the root, if any, is the step before all others. -/
def steps (path : Path) : List (Option Segment) :=
  (if path.absolute then [none] else []) ++ path.segments.map some

instance : Ord Path := ⟨compareOn steps⟩

instance : Std.TransOrd Path := inferInstanceAs (Std.TransCmp (compareOn steps))

theorem steps_injective {a b : Path} (h : a.steps = b.steps) : a = b := by
  obtain ⟨aa, as⟩ := a
  obtain ⟨ba, bs⟩ := b
  cases aa <;> cases ba
  · simpa [steps, List.map_inj_right] using h
  · cases as <;> simp [steps] at h
  · cases bs <;> simp [steps] at h
  · simpa [steps, List.map_inj_right] using h

instance : Std.LawfulEqOrd Path :=
  ⟨fun h => steps_injective (Std.LawfulEqCmp.eq_of_compare h)⟩

/-- The path that `text` writes. -/
def ofString (text : String) : Path :=
  let pieces := Text.splitAtChars (· == '/') text.toList
  let named (pieces : List (List Char)) : List Segment :=
    (pieces.filter fun piece => !piece.isEmpty && piece != ['.']).map Segment.ofPiece
  match pieces with
  | ['.'] :: rest => { segments := .here :: named rest }
  | [] :: rest => { absolute := !rest.isEmpty, segments := named rest }
  | pieces => { segments := named pieces }

/-- The path as text. -/
def toString (path : Path) : String :=
  (if path.absolute then "/" else "") ++ "/".intercalate (path.segments.map Segment.text)

instance : ToString Path := ⟨Path.toString⟩

/-- One step on a stack of segments, last segment first: a name goes on top, `..` takes the top off.
On an empty stack `..` stays. -/
def normalizeStep (stack : List Segment) : Segment → List Segment
  | .here => stack
  | .parent => match stack with
    | [] => [.parent]
    | _ :: below => below
  | .name text => .name text :: stack

/-- The path without `.` and with `..` resolved against the segments before it, read left to right. -/
def normalize (path : Path) : Path :=
  { path with segments := (path.segments.foldl normalizeStep []).reverse }

/-- The path of `other` seen from `base`; an absolute `other` stands for itself. -/
def join (base other : Path) : Path :=
  if other.absolute then other
  else if !base.absolute && base.segments.isEmpty then other
  else { base with segments := base.segments ++ other.segments.filter (· != .here) }

/-- The last segment, if it is a name. -/
def fileName? (path : Path) : Option String :=
  match path.segments.getLast? with
  | some (.name text) => some text
  | _ => none

/-- The path without its last segment; the root and the empty path have none. -/
def parent? (path : Path) : Option Path :=
  if path.segments.isEmpty then none else some { path with segments := path.segments.dropLast }

/-- The path with its last segment named `name` instead. -/
def withFileName (path : Path) (name : String) : Path :=
  { path with segments := path.segments.dropLast ++ [.name name] }

/-- The path that continues with `suffix` where the text of this one ends. -/
def appendText (path : Path) (suffix : String) : Path :=
  match path.segments.getLast? with
  | some last => path.withFileName (last.text ++ suffix)
  | none => { path with segments := [.name suffix] }

/-- What remains of `path` below `base`. -/
def relativeTo? (base path : Path) : Option Path :=
  if base.absolute then
    if path.absolute && base.segments.isPrefixOf path.segments then
      some { segments := path.segments.drop base.segments.length }
    else none
  else if base.segments.isEmpty then some path
  else if !path.absolute && base.segments.isPrefixOf path.segments then
    some { segments := path.segments.drop base.segments.length }
  else none

/-- `path` is `base` or lies below it. -/
def isUnder (base path : Path) : Bool :=
  (relativeTo? base path).isSome

/-- `text` with slashes for backslashes. -/
def slashed (text : String) : String :=
  .ofList (text.toList.map fun c => if c = '\\' then '/' else c)

/-- The text of `path` relative to `root`, with slashes; in full when it is not below `root`. -/
def display (root path : Path) : String :=
  slashed ((relativeTo? root path).getD path).toString

/-- A file name cut at its last dot: the part before it and the part after it. A name without a dot,
or whose only dot leads it, is not cut. -/
def splitExtension (name : String) : String × Option String :=
  let characters := name.toList
  let tail := characters.reverse.takeWhile (· != '.')
  let stem := (characters.reverse.drop (tail.length + 1)).reverse
  if stem.isEmpty then (name, none) else (.ofList stem, some (.ofList tail.reverse))

/-- The part of the file name after its last dot. -/
def extension? (path : Path) : Option String :=
  path.fileName?.bind fun name => (splitExtension name).2

/-- The path with another extension; unchanged when there is no file name. -/
def withExtension (path : Path) (extension : String) : Path :=
  match path.fileName? with
  | some name => path.withFileName ((splitExtension name).1 ++ "." ++ extension)
  | none => path

/-- The endings of declaration files. -/
def declarationEndings : List String := [".d.ts", ".d.mts", ".d.cts"]

/-- The file name without its extension, or without the whole ending of a declaration file. Empty when
there is no file name. -/
def stem (path : Path) : String :=
  let name := path.fileName?.getD ""
  match declarationEndings.find? fun ending => ending.toList.isSuffixOf name.toList with
  | some ending => .ofList (name.toList.take (name.length - ending.length))
  | none => (splitExtension name).1

end Path

end ApiImpact

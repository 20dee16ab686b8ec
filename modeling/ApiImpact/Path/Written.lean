import ApiImpact.Path.Basic

/-!
Paths as they are written. Text that names a path keeps its repeated slashes and inner dots; these
functions cut it without changing what they keep.
-/

namespace ApiImpact.Path

/-- A piece between slashes that names no segment. -/
def isIdle (piece : List Char) : Bool :=
  piece.isEmpty || piece == ['.']

/-- The pieces after the first `count` segments. -/
def dropSegments : Nat → List (List Char) → List (List Char)
  | 0, pieces => pieces.dropWhile isIdle
  | _, [] => []
  | count + 1, piece :: pieces =>
    if isIdle piece then dropSegments (count + 1) pieces else dropSegments count pieces

/-- The pieces without the idle ones at the end. -/
def dropIdleEnd (pieces : List (List Char)) : List (List Char) :=
  (pieces.reverse.dropWhile isIdle).reverse

/-- The pieces as text. -/
def joinPieces (pieces : List (List Char)) : String :=
  .ofList (['/'].intercalate pieces)

/-- The part of the written path `text` below `base`, as written, without slashes or dots around it. -/
def writtenBelow (base : Path) (text : String) : String :=
  let pieces := Text.splitAtChars (· == '/') text.toList
  match pieces with
  | [] => ""
  | first :: rest =>
    if base.absolute then joinPieces (dropIdleEnd (dropSegments base.segments.length rest))
    else match base.segments with
    | [] =>
      let kept := dropIdleEnd rest
      if first.isEmpty ∧ kept.isEmpty ∧ !rest.isEmpty then "/" else joinPieces (first :: kept)
    | .here :: segments => joinPieces (dropIdleEnd (dropSegments segments.length rest))
    | segments => joinPieces (dropIdleEnd (dropSegments segments.length pieces))

/-- The written path `text` relative to the written path `root`, with slashes; in full when it is not
below `root`. -/
def displayWritten (root text : String) : String :=
  let base := ofString root
  slashed (if base.isUnder (ofString text) then writtenBelow base text else text)

/-- The written path under which a file is known. Names are case-sensitive, so it is the path itself. -/
def foldCase (text : String) : String := text

/-- `text` without the marker `\\?\` of a verbatim path. -/
def plain (text : String) : String :=
  match Text.dropPrefix? ['\\', '\\', '?', '\\'] text.toList with
  | some rest => .ofList rest
  | none => text

end ApiImpact.Path

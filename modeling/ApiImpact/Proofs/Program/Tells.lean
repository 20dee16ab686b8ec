import ApiImpact.Proofs.Program.Listed

/-!
# What trees of statements add to a surface

The tree of a statement adds its keys to what is exported, and its declarations to what is published.
-/

namespace ApiImpact.Program

open Text TypeScript TypeScript.Reading

variable {source : List Char} {tree declaration : Tree} {statement : Statement} {found : Collection} {keys : List ExportKey}
  {least most : List (SymbolKind × String)} {offset : Nat} {locals : List Local} {isDefault : Bool} {line : Nat}

end ApiImpact.Program

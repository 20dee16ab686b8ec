import ApiImpact.Proofs.Program.Naming
import ApiImpact.Proofs.Program.Tells

/-!
# Statements as the grammar reads them

Every statement is read up to the end of its line, as a tree that says what the statement says.
-/

namespace ApiImpact.Program

open Text TypeScript TypeScript.Reading TypeScript.Grammar

variable {rest source : List Char} {offset depth : Nat} {afterBreak : Bool} {parts : Parts} {s s' : Spot} {mark seen : String}
  {trees : List Tree} {tree : Tree}

/-! ## Behind the word `export` -/

end ApiImpact.Program

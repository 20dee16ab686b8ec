import ApiImpact.Proofs.Program.Typed

/-!
# Programs as the grammar reads them

The statements of a program are read one after the other, up to its end, and what the trees say is what the
statements say.
-/

namespace ApiImpact.Program

open Text TypeScript TypeScript.Reading TypeScript.Grammar

variable {rest source text : List Char} {offset depth : Nat} {afterBreak isDefault : Bool} {statement : Statement}

/-! ## The text of statements -/

namespace Statement

theorem chars_star (renamed : Option Word) (module : Specifier) (semicolon : Bool) :
    (star renamed module semicolon).chars = "export ".toList ++ ("* ".toList ++ (asChars renamed ++
      ("from ".toList ++ (module.quoted ++ lineEnd semicolon)))) := by
  simp [chars, shaded, map_fst_plain, module.map_fst_shaded]

end Statement

/-! ## Statements -/

/-- The text of a program, a statement a line. -/
def code (program : List Statement) : List Char := program.flatMap Statement.chars

theorem code_cons (statement : Statement) (program : List Statement) :
    code (statement :: program) = statement.chars ++ code program :=
  List.flatMap_cons

end ApiImpact.Program

import ApiImpact.Proofs.Program.Declared

/-!
# A name as a value

A name is read as an operand, and at the end of a statement as a whole expression. That some names are words which
may also begin a declaration or a function makes no difference there.
-/

namespace ApiImpact.Program

open Text TypeScript TypeScript.Reading TypeScript.Grammar

variable {α : Type} {rest : List Char} {offset depth : Nat} {afterBreak allowIn : Bool} {parts : Parts} {name : Name}

theorem EndsValue.endsWord (h : EndsValue rest) : EndsWord rest := by
  rcases h with ⟨more, rfl⟩ | ⟨more, rfl⟩ | ⟨lines, rfl, hlines⟩
  · exact endsWord_cons (by decide) (by decide)
  · exact endsWord_cons (by decide) (by decide)
  · exact endsWord_cons (by decide) (by decide)

variable {semicolon : Bool}

end ApiImpact.Program

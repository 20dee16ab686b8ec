import ApiImpact.Proofs.Program.Declares
import ApiImpact.Proofs.Program.Names
import ApiImpact.Proofs.TypeScript.Commas
import ApiImpact.Proofs.TypeScript.Operand

/-!
# Declarations as the grammar reads them

A function, a class or variables behind the word `export` are read up to the end of their line, as a tree that
declares them.
-/

namespace ApiImpact.Program

open Text TypeScript TypeScript.Reading TypeScript.Grammar

variable {rest source text : List Char} {offset depth : Nat} {afterBreak : Bool}

/-! ## Ends -/

theorem endsExpression_of_isLines (h : IsLines rest) (offset : Nat) (afterBreak : Bool) :
    EndsExpression ⟨rest, offset, afterBreak⟩ := by
  rcases h with rfl | ⟨rest, rfl⟩
  · exact .nothing peeks_nil
  · have hword : IsWord "export".toList := by decide
    exact .statement (peeks_blank hword)

theorem EndsValue.endsExpression (h : EndsValue rest) (offset : Nat) : EndsExpression (.behind rest offset) := by
  rcases h with ⟨more, rfl⟩ | ⟨more, rfl⟩ | ⟨lines, rfl, hlines⟩
  · rw [behind_of_startsToken (startsToken_cons (by decide) (by decide) (by decide))]
    exact .comma (peeks_loneSign (by decide))
  · rw [behind_of_startsToken (startsToken_cons (by decide) (by decide) (by decide))]
    exact .semicolon (peeks_loneSign (by decide))
  · rw [behind_newline (startsToken_of_isLines hlines)]
    exact endsExpression_of_isLines hlines _ _

theorem stuck_decorator {parts : Parts} {s : Spot} {mark seen : String} (h : Peeks s mark seen) (hne : mark ≠ "@") :
    Stuck (decorator parts) s :=
  stuck_node _ (h.stuck_sign hne).bind

theorem Keyword.isWord (keyword : Keyword) : IsWord keyword.word.toList := by
  cases keyword <;> decide

end ApiImpact.Program

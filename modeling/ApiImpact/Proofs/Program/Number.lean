import ApiImpact.Proofs.Program.Naming
import ApiImpact.Proofs.Program.Signals
import ApiImpact.Proofs.Script.Cuts

/-!
# A number as a value

The grammar reads a run of digits as a number, and a script takes it for a value that is neither a function nor a class.
So a variable with such a value is the same to both.
-/

namespace ApiImpact.Program

open Text Script TypeScript TypeScript.Reading TypeScript.Grammar

variable {digits rest : List Char} {offset depth : Nat} {afterBreak allowIn : Bool} {parts : Parts} {c : Char}

def decimals : List Char := "0123456789".toList

/-- Digits, at least one of them. -/
def IsNumeral (digits : List Char) : Prop := digits ≠ [] ∧ ∀ c ∈ digits, c ∈ decimals

instance (digits : List Char) : Decidable (IsNumeral digits) :=
  inferInstanceAs (Decidable (_ ∧ _))

theorem isNameChar_decimal : ∀ c ∈ decimals, isNameChar c = true := by decide

theorem IsNumeral.exists_cons (h : IsNumeral digits) : ∃ c more, digits = c :: more ∧ c ∈ decimals := by
  obtain ⟨c, more, rfl⟩ := List.exists_cons_of_ne_nil h.1
  exact ⟨c, more, rfl, h.2 c List.mem_cons_self⟩

/-! ## The number as the grammar reads it -/

theorem EndsValue.exists_head (h : EndsValue rest) : ∃ sign ∈ [',', ';', '\n'], ∃ more, rest = sign :: more := by
  rcases h with ⟨more, rfl⟩ | ⟨more, rfl⟩ | ⟨lines, rfl, -⟩
  · exact ⟨',', by simp, _, rfl⟩
  · exact ⟨';', by simp, _, rfl⟩
  · exact ⟨'\n', by simp, _, rfl⟩

theorem IsNumeral.isQuietWord (h : IsNumeral digits) : IsQuietWord digits where
  chars := fun c hc => isNameChar_decimal c (h.2 c hc)
  ne := by
    rintro rfl
    exact absurd (h.2 'e' (by decide)) (by decide)
  no_suffix := fun hsuffix => absurd (h.2 '$' (hsuffix.subset (by decide))) (by decide)

end ApiImpact.Program

import ApiImpact.Proofs.Program.Statement

/-!
# Words of a program as tokens

A word that the patterns for scripts read whole is one token of the grammar, and no white space begins it.
-/

namespace ApiImpact.TypeScript

open Text Script

variable {c : Char} {rest : List Char}

/-- White space stands in no name. -/
theorem isSpace_of_isNameChar (h : isNameChar c = true) : isSpace c = false ∧ isLineBreak c = false := by
  have hblank : isBlank c = false := by
    by_contra hblank
    exact absurd h (by simp [isNameChar_of_isBlank (by simpa using hblank)])
  have hbreak : isLineBreak c = false := by
    by_contra hbreak
    simp only [isLineBreak, Bool.not_eq_false, Bool.or_eq_true, beq_iff_eq] at hbreak
    rcases hbreak with (rfl | hbreak) | hbreak
    · exact absurd hblank (by decide)
    · simp [isBlank, hbreak] at hblank
    · simp [isBlank, hbreak] at hblank
  have hwide (n : Nat) (hn : n ∈ [0xFEFF, 0x200B, 0x2060]) : c.toNat ≠ n := by
    intro hc
    have hranges : ∀ ranges ∈ [alphabeticRanges, decimalRanges, joiningRanges], ∀ m ∈ [0xFEFF, 0x200B, 0x2060],
        ranges.any (fun range => range.1 ≤ m && m ≤ range.2) = false := by decide +kernel
    have hnot (ranges : List (Nat × Nat)) (hmem : ranges ∈ [alphabeticRanges, decimalRanges, joiningRanges]) :
        inRanges ranges c = false := by
      rw [inRanges, hc]
      exact hranges ranges hmem n hn
    have hsmall : ¬ c.toNat < 128 := by
      simp only [List.mem_cons, List.not_mem_nil, or_false] at hn
      omega
    have hdollar : c ≠ '$' := by
      rintro rfl
      exact hsmall (by decide)
    rw [isNameChar, isWordChar, if_neg hsmall] at h
    simp [hnot, hdollar] at h
  refine ⟨?_, hbreak⟩
  simp [isSpace, hblank, hwide]

theorem isIdentifierPart_of_isNameChar (h : isNameChar c = true) : isIdentifierPart c = true := by
  rw [isIdentifierPart]
  split_ifs with hascii
  · rw [isNameChar, isWordChar, if_pos hascii] at h
    exact h
  · simp [isSpace_of_isNameChar h]

theorem startsToken_of_isNameChar (h : isNameChar c = true) : StartsToken (c :: rest) := by
  refine startsToken_cons (isSpace_of_isNameChar h).1 (isSpace_of_isNameChar h).2 ?_
  rintro rfl
  exact absurd h (by decide)

end ApiImpact.TypeScript

namespace ApiImpact.Program

open Text TypeScript TypeScript.Reading Script

variable {chars rest : List Char}

theorem isDigit_of_isAsciiIdentifierStart {c : Char} (h : isAsciiIdentifierStart c = true) : c.isDigit = false := by
  by_contra hdigit
  have hstarts : ∀ n ≤ 57, 48 ≤ n → isAsciiIdentifierStart (Char.ofNat n) = false := by decide
  have hrange : 48 ≤ c.toNat ∧ c.toNat ≤ 57 := by
    simpa [Char.isDigit, UInt32.le_iff_toNat_le] using hdigit
  have hnone := hstarts c.toNat hrange.2 hrange.1
  rw [Char.ofNat_toNat, h] at hnone
  cases hnone

theorem exists_of_isWritten (h : isWritten chars = true) : ∃ c rest, chars = c :: rest ∧
    isAsciiIdentifierStart c = true ∧ ∀ d ∈ rest, isNameChar d = true := by
  cases chars with
  | nil => cases h
  | cons c rest =>
      rw [isWritten, Bool.and_eq_true] at h
      exact ⟨c, rest, rfl, h.1, List.all_eq_true.mp h.2⟩

theorem isNameChar_of_isWritten (h : isWritten chars = true) : ∀ c ∈ chars, isNameChar c = true := by
  obtain ⟨d, rest, rfl, hd, hrest⟩ := exists_of_isWritten h
  exact List.forall_mem_cons.mpr ⟨isNameChar_of_isAsciiIdentifierStart hd, hrest⟩

namespace Word

variable (word : Word)

theorem exists_cons : ∃ c rest, word.chars = c :: rest ∧ isAsciiIdentifierStart c = true ∧
    ∀ d ∈ rest, isNameChar d = true :=
  exists_of_isWritten word.written

theorem isNameChar {c : Char} (hc : c ∈ word.chars) : isNameChar c = true :=
  isNameChar_of_isWritten word.written c hc

theorem isWord : IsWord word.chars := by
  obtain ⟨d, rest, hword, hd, hrest⟩ := word.exists_cons
  refine ⟨by simp [hword], fun c hc => isIdentifierPart_of_isNameChar (word.isNameChar hc), fun c hc => ?_⟩
  rw [hword] at hc
  obtain rfl := Option.some.inj hc
  exact isDigit_of_isAsciiIdentifierStart hd

end Word

namespace Name

variable (name : Name)

theorem ne_of_mem {text : String} (h : text ∈ notNames) : String.ofList name.chars ≠ text := by
  rintro rfl
  exact name.free h

end Name

/-! ## Ends of statements -/

theorem startsToken_of_isLines (h : IsLines rest) : StartsToken rest := by
  rcases h with rfl | ⟨rest, rfl⟩
  · exact startsToken_nil
  · exact startsToken_of_isNameChar (by decide)

end ApiImpact.Program

import ApiImpact.Proofs.Program.Declared

/-!
# Lists of names as the grammar reads them

An entry of a list is a name, perhaps with another name behind the word `as`. That the names `type`, `typeof` and
`as` are words of the grammar too makes no difference.
-/

namespace ApiImpact.Program

open Text TypeScript TypeScript.Reading TypeScript.Grammar

variable {rest source : List Char} {offset : Nat} {afterBreak : Bool} {s : Spot} {mark seen : String}

/-- What stands behind an entry: the next one, or the end of the list. -/
def EndsEntry (rest : List Char) : Prop :=
  (∃ more, rest = ',' :: ' ' :: more) ∨ ∃ more, rest = ' ' :: '\x7d' :: more

theorem EndsEntry.endsWord (h : EndsEntry rest) : EndsWord rest := by
  rcases h with ⟨more, rfl⟩ | ⟨more, rfl⟩
  · exact endsWord_cons (by decide) (by decide)
  · exact endsWord_blank _

theorem EndsEntry.exists_behind (h : EndsEntry rest) (offset : Nat) : ∃ c ∈ [',', '\x7d'], ∃ more offset',
    Spot.behind rest offset = ⟨c :: more, offset', false⟩ := by
  rcases h with ⟨more, rfl⟩ | ⟨more, rfl⟩
  · exact ⟨',', by simp, ' ' :: more, offset, behind_of_startsToken (startsToken_cons (by decide) (by decide) (by decide)) _⟩
  · have hbrace : StartsToken ('\x7d' :: more) := startsToken_cons (by decide) (by decide) (by decide)
    exact ⟨'\x7d', by simp, more, offset + 1, behind_blank hbrace _⟩

/-- Behind an entry stands a sign and no word. -/
theorem EndsEntry.exists_peeks (h : EndsEntry rest) (offset : Nat) : ∃ mark, Peeks (.behind rest offset) mark "" := by
  obtain ⟨c, hc, more, offset', hspot⟩ := h.exists_behind offset
  have hlone : ∀ d ∈ [',', '\x7d'], d ∈ loneSigns := by decide
  exact ⟨_, by rw [hspot]; exact peeks_loneSign (hlone c hc)⟩

section Alone

variable {name : Word}

end Alone

section Renamed

variable {name word : Word}

end Renamed

end ApiImpact.Program

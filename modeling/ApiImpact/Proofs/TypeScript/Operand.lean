import ApiImpact.Proofs.TypeScript.Token
import ApiImpact.TypeScript.Parse

/-!
# What stands ahead

What stands ahead is told by the sign and the word that begin there. At the end of a text and before a closing
brace no expression and no statement begins. An operand behind which a comma, a semicolon or the next statement
stands is an expression of every kind: no operator, access or call goes on with it.
-/

namespace ApiImpact.TypeScript

open Text Reading Grammar

variable {c : Char} {rest word : List Char} {offset depth : Nat} {afterBreak : Bool} {parts : Parts} {s : Spot}
  {mark text : String}

/-! ## Signs and words ahead -/

/-- At `s` the sign `mark` or the word `word` begins; either is empty where the other one stands. -/
structure Peeks (s : Spot) (mark word : String) : Prop where
  mark : Reads peekSign s mark s
  word : Reads peekWord s word s

theorem reads_peekSign (rest : List Char) (offset : Nat) (afterBreak : Bool) :
    Reads peekSign ⟨rest, offset, afterBreak⟩ (.ofList (signAt rest)) ⟨rest, offset, afterBreak⟩ :=
  (reads_ahead _).bind (reads_pure _ _)

theorem isIdentifierPart_of_mem_punctuation : ∀ c ∈ punctuation, isIdentifierPart c = false := by
  decide

theorem signAt_of_isIdentifierPart (h : isIdentifierPart c = true) : signAt (c :: rest) = [] := by
  have hlong : ∀ sign ∈ longSigns, ∀ d ∈ sign.head?, isIdentifierPart d = false := by decide
  have hnone : longSigns.find? (·.isPrefixOf (c :: rest)) = none := by
    refine List.find?_eq_none.mpr fun sign hsign hprefix => ?_
    obtain ⟨more, hmore⟩ := List.isPrefixOf_iff_prefix.mp hprefix
    cases sign with
    | nil => exact absurd hsign (by decide)
    | cons d sign =>
        obtain ⟨rfl, -⟩ := List.cons.inj hmore
        simp [hlong _ hsign d rfl] at h
  have hpunctuation : punctuation.contains c = false := by
    by_contra hc
    have hmem : c ∈ punctuation := by simpa using hc
    simp [isIdentifierPart_of_mem_punctuation c hmem] at h
  rw [signAt]
  · simpa [hnone] using hpunctuation
  · rintro d rest' he
    obtain ⟨rfl, -⟩ := List.cons.inj he
    exact absurd h (by decide)

theorem peeks_word (h : IsWord word) (hrest : EndsWord rest) :
    Peeks ⟨word ++ rest, offset, afterBreak⟩ "" (.ofList word) where
  mark := by
    have hsign : signAt (word ++ rest) = [] := by
      obtain ⟨c, word, rfl⟩ := List.exists_cons_of_ne_nil h.ne_nil
      exact signAt_of_isIdentifierPart (h.parts c List.mem_cons_self)
    have hread := reads_peekSign (word ++ rest) offset afterBreak
    rw [hsign] at hread
    exact hread
  word := reads_peekWord h hrest

theorem peeks_blank (h : IsWord text.toList) : Peeks ⟨text.toList ++ ' ' :: rest, offset, afterBreak⟩ "" text := by
  have hpeeks : Peeks ⟨text.toList ++ ' ' :: rest, offset, afterBreak⟩ "" (.ofList text.toList) :=
    peeks_word h (endsWord_blank rest)
  rwa [String.ofList_toList] at hpeeks

theorem peeks_loneSign (h : c ∈ loneSigns) : Peeks ⟨c :: rest, offset, afterBreak⟩ (.ofList [c]) "" where
  mark := by
    have hread := reads_peekSign (c :: rest) offset afterBreak
    rw [signAt_of_mem_loneSigns h] at hread
    exact hread
  word := by
    have hsigns : ∀ c ∈ loneSigns, isIdentifierPart c = false ∧ c ≠ '\\' := by decide
    exact reads_peekWord_empty (endsWord_cons (hsigns c h).1 (hsigns c h).2)

theorem peeks_nil : Peeks ⟨[], offset, afterBreak⟩ "" "" where
  mark := reads_peekSign [] offset afterBreak
  word := reads_peekWord_empty endsWord_nil

variable {seen : String}

theorem Peeks.stuck_sign (h : Peeks s mark seen) (hne : mark ≠ text) : Stuck (sign text) s :=
  h.mark.bind_stuck (stuck_check (by simpa using hne) _).bind

theorem Peeks.stuck_signOf {texts : List String} (h : Peeks s mark seen) (hmem : mark ∉ texts) : Stuck (signOf texts) s :=
  h.mark.bind_stuck (stuck_check (by simpa using hmem) _).bind

theorem Peeks.stuck_word (h : Peeks s mark seen) (hne : seen ≠ text) : Stuck (Reading.word text) s :=
  h.word.bind_stuck (stuck_check (by simpa using hne) _).bind

/-- The text ends here, or a brace closes. -/
def IsClosing (rest : List Char) : Prop :=
  rest = [] ∨ ∃ more, rest = '\x7d' :: more

theorem IsClosing.exists_peeks (h : IsClosing rest) (offset : Nat) (afterBreak : Bool) :
    ∃ mark ∈ ["", "\x7d"], Peeks ⟨rest, offset, afterBreak⟩ mark "" := by
  rcases h with rfl | ⟨more, rfl⟩
  · exact ⟨"", by simp, peeks_nil⟩
  · exact ⟨"\x7d", by simp, peeks_loneSign (by decide)⟩

variable (h : IsClosing rest)

include h

omit h

variable {s' : Spot} {tree : Tree} {allowIn : Bool}

/-- At `s` a comma, a semicolon, the next statement or the end of the text stands. -/
inductive EndsExpression (s : Spot) : Prop where
  | comma (peeks : Peeks s "," "")
  | semicolon (peeks : Peeks s ";" "")
  | statement (peeks : Peeks s "" "export")
  | nothing (peeks : Peeks s "" "")

namespace EndsExpression

theorem exists_peeks (h : EndsExpression s) : ∃ mark ∈ [",", ";", ""], ∃ seen, Peeks s mark seen := by
  cases h with
  | comma peeks => exact ⟨_, by simp, _, peeks⟩
  | semicolon peeks => exact ⟨_, by simp, _, peeks⟩
  | statement peeks => exact ⟨_, by simp, _, peeks⟩
  | nothing peeks => exact ⟨_, by simp, _, peeks⟩

theorem stuck_sign (h : EndsExpression s) {text : String} (hne : text ∉ [",", ";", ""]) : Stuck (sign text) s := by
  obtain ⟨mark, hmark, seen, hpeeks⟩ := h.exists_peeks
  exact hpeeks.stuck_sign (ne_of_mem_of_not_mem hmark hne)

theorem stuck_signOf (h : EndsExpression s) {texts : List String} (hdisjoint : ∀ text ∈ texts, text ∉ [",", ";", ""]) :
    Stuck (signOf texts) s := by
  obtain ⟨mark, hmark, seen, hpeeks⟩ := h.exists_peeks
  exact hpeeks.stuck_signOf fun hmem => hdisjoint mark hmem hmark

end EndsExpression

end ApiImpact.TypeScript

import ApiImpact.Proofs.Program.Naming
import ApiImpact.Proofs.Program.Signals
import ApiImpact.Proofs.Text.Bracket

/-!
# Parameters that are names, and classes without members

The plainest parameters and members of which both the grammar and the patterns for scripts make sense.
-/

namespace ApiImpact.Program

open Text Script TypeScript TypeScript.Reading TypeScript.Grammar

variable {rest : List Char} {offset depth : Nat} {afterBreak : Bool} {parts : Parts} {name : Name} {names : List Name} {c : Char}

/-! ## One parameter -/

/-- What stands behind a parameter: the next one, or the end of the list. -/
def EndsParameter (rest : List Char) : Prop :=
  (∃ more, rest = ',' :: ' ' :: more) ∨ ∃ more, rest = ')' :: more

theorem EndsParameter.exists_head (h : EndsParameter rest) : ∃ sign ∈ [',', ')'], ∃ more, rest = sign :: more := by
  rcases h with ⟨more, rfl⟩ | ⟨more, rfl⟩
  · exact ⟨',', by simp, _, rfl⟩
  · exact ⟨')', by simp, _, rfl⟩

theorem EndsParameter.endsWord (h : EndsParameter rest) : EndsWord rest := by
  obtain ⟨sign, hsign, more, rfl⟩ := h.exists_head
  have hsigns : ∀ sign ∈ [',', ')'], isIdentifierPart sign = false ∧ sign ≠ '\\' := by decide
  exact endsWord_cons (hsigns sign hsign).1 (hsigns sign hsign).2

theorem EndsParameter.behind (h : EndsParameter rest) (offset : Nat) : Spot.behind rest offset = ⟨rest, offset, false⟩ := by
  obtain ⟨sign, hsign, more, rfl⟩ := h.exists_head
  have hsigns : ∀ sign ∈ [',', ')'], isSpace sign = false ∧ isLineBreak sign = false ∧ sign ≠ '/' := by decide
  obtain ⟨hspace, hbreak, hslash⟩ := hsigns sign hsign
  exact behind_of_startsToken (startsToken_cons hspace hbreak hslash) offset

theorem EndsParameter.exists_peeks (h : EndsParameter rest) (offset : Nat) :
    ∃ mark ∈ [",", ")"], Peeks ⟨rest, offset, false⟩ mark "" := by
  rcases h with ⟨more, rfl⟩ | ⟨more, rfl⟩
  · exact ⟨",", by simp, peeks_loneSign (by decide)⟩
  · exact ⟨")", by simp, peeks_loneSign (by decide)⟩

theorem quiet_sign (hc : Script.isNameChar c = false) : Quiet [c] := by
  refine quiet_of_forall fun d hd hletter => ?_
  have hletters : ∀ d ∈ ['e', 'm', 'O'], isNameChar d = true := by decide
  rw [List.mem_singleton.mp hd] at hletter
  rw [hletters c hletter] at hc
  cases hc

theorem stuck_classMember (rest : List Char) (offset : Nat) : Stuck (classMember parts) ⟨'\x7d' :: rest, offset, false⟩ := by
  have hpeeks : Peeks ⟨'\x7d' :: rest, offset, false⟩ "\x7d" "" := peeks_loneSign (by decide)
  have hword : EndsWord ('\x7d' :: rest) := endsWord_cons (by decide) (by decide)
  have hmodifiers : Reads (memberModifiers classModifiers) ⟨'\x7d' :: rest, offset, false⟩ [] ⟨'\x7d' :: rest, offset, false⟩ :=
    reads_many_nil (hpeeks.word.bind_stuck (stuck_check rfl _).bind)
  have hnumber : Stuck number ⟨'\x7d' :: rest, offset, false⟩ := (reads_ahead _).bind_stuck (stuck_failure _)
  have hprivate : Stuck privateName ⟨'\x7d' :: rest, offset, false⟩ := (reads_ahead _).bind_stuck (stuck_failure _)
  have hname : Stuck (propertyName parts) ⟨'\x7d' :: rest, offset, false⟩ :=
    (stuck_anyWord _ hword).orElse_stuck ((stuck_string (by simp)).orElse_stuck (hnumber.orElse_stuck (hprivate.orElse_stuck
      (stuck_node _ (stuck_between (hpeeks.stuck_sign (by decide)))))))
  exact hmodifiers.bind_stuck ((stuck_optionally (hpeeks.stuck_sign (by decide))).bind_stuck (stuck_inRole .name hname).bind)

theorem reads_classBody_empty (rest : List Char) (offset : Nat) : ∃ tree,
    Reads (classBody parts) ⟨'\x7b' :: '\x7d' :: rest, offset, false⟩ tree (.behind rest (offset + 2)) := by
  have hpeeks : Peeks ⟨'\x7d' :: rest, offset + 1, false⟩ "\x7d" "" := peeks_loneSign (by decide)
  have hbrace : StartsToken ('\x7d' :: rest) := startsToken_cons (by decide) (by decide) (by decide)
  have hopening : Reads (sign "\x7b") ⟨'\x7b' :: '\x7d' :: rest, offset, false⟩ (.ofToken (.token "\x7b") offset ['\x7b'])
      ⟨'\x7d' :: rest, offset + 1, false⟩ :=
    (reads_sign rfl (signAt_of_mem_loneSigns (by decide))).cast (behind_of_startsToken hbrace _)
  have hreadonly : Stuck (do return (← optionally (signOf ["+", "-"])) ++ [← word "readonly"]) ⟨'\x7d' :: rest, offset + 1, false⟩ :=
    (stuck_optionally (hpeeks.stuck_signOf (by decide))).bind_stuck (hpeeks.stuck_word (by decide)).bind
  have hindex : Stuck (indexSignature parts) ⟨'\x7d' :: rest, offset + 1, false⟩ :=
    stuck_node _ ((stuck_optionalList (hpeeks.stuck_word (by decide)).bind).bind_stuck ((stuck_optionalList hreadonly).bind_stuck
      (stuck_between (hpeeks.stuck_sign (by decide))).bind))
  refine ⟨_, reads_node _ (reads_between hopening (reads_many_nil ?_) (reads_sign rfl (signAt_of_mem_loneSigns (by decide))))⟩
  refine (reads_many_nil (stuck_decorator hpeeks (by decide)).bind).bind_stuck (Stuck.bind ?_)
  refine (hpeeks.stuck_sign (by decide)).bind.orElse_stuck ((stuck_node _ (hpeeks.stuck_word (by decide)).bind).bind.orElse_stuck
    (hindex.bind.orElse_stuck (stuck_classMember rest (offset + 1))))

/-- No members. -/
def Members.none : Members where
  chars := []
  shaded := []
  scan := fun rest => ⟨_, rfl⟩
  balanced := rfl
  quiet := fun c hc _ => quiet_sign hc
  nested := by
    intro front back he
    obtain ⟨rfl, -⟩ := List.append_eq_nil_iff.mp he.symm
    exact Int.le_refl _
  read := fun depth _ rest offset => reads_classBody_empty rest offset

end ApiImpact.Program

import ApiImpact.Proofs.ModuleReference.Taken
import ApiImpact.Proofs.Program.Signals
import ApiImpact.Proofs.Script.Cuts

/-!
# Default exports of names

The value of a default export that is a name looks neither like a function nor like a class. So the pass over the
defaults publishes nothing, and adds the default export unless a declaration before it was one.
-/

namespace ApiImpact.Program

open Text Text.Pattern Script TypeScript

variable {text rest word more param before front : List Char} {c : Char} {semicolon : Bool} {s : Source} {statement : Statement}
  {program : List Statement}  {known : List ExportKey}

/-! ## Names before the end of a line -/

/-- A word that begins a text begins the name there. -/
theorem prefix_of_prefix_append (hword : ∀ d ∈ word, isNameChar d = true) (hc : isNameChar c = false)
    (h : word <+: text ++ c :: rest) : word <+: text := by
  obtain ⟨tail, htail⟩ := h
  rcases List.append_eq_append_iff.mp htail with ⟨between, rfl, -⟩ | ⟨between, rfl, hbetween⟩
  · exact List.prefix_append _ _
  · cases between with
    | nil => simp
    | cons d between =>
        obtain ⟨rfl, -⟩ := List.cons.inj hbetween
        rw [hword c (by simp)] at hc
        cases hc

theorem exists_lineEnd_cons (semicolon : Bool) : ∃ c more, lineEnd semicolon = c :: more ∧ isNameChar c = false ∧
    isIdentifierChar c = false := by
  cases semicolon
  · exact ⟨'\n', [], rfl, by decide, by decide⟩
  · exact ⟨';', ['\n'], rfl, by decide, by decide⟩

theorem prefix_of_prefix_lineEnd (hword : ∀ d ∈ word, isNameChar d = true) (h : word <+: text ++ (lineEnd semicolon ++ rest)) :
    word <+: text := by
  obtain ⟨sign, ending, hend, hsign, -⟩ := exists_lineEnd_cons semicolon
  rw [hend] at h
  exact prefix_of_prefix_append hword hsign h

namespace Reference

variable (name : Reference)

/-- Behind a leading `async` the rest of the name stands, or what follows the name. -/
theorem exists_skipAsync (semicolon : Bool) (rest : List Char) : ∃ more, (∀ d ∈ more, isNameChar d = true) ∧
    ¬ "function".toList <+: more ∧
      Source.skipAsync (name.chars ++ (lineEnd semicolon ++ rest)) = (more ++ (lineEnd semicolon ++ rest)).dropWhile isBlank := by
  rcases Source.skipAsync_eq (name.chars ++ (lineEnd semicolon ++ rest)) with ⟨heq, -⟩ | ⟨tail, htail, heq⟩
  · obtain ⟨first, tail, hname, hfirst, -⟩ := name.exists_cons
    refine ⟨name.chars, fun _ hd => name.isNameChar hd, name.bare "function" (by simp), ?_⟩
    have hblank := isBlank_of_isNameChar (isNameChar_of_isAsciiIdentifierStart hfirst)
    rw [heq, hname, List.cons_append, List.dropWhile_cons_of_neg (by simp [hblank])]
  · obtain ⟨more, hmore⟩ : "async".toList <+: name.chars := prefix_of_prefix_lineEnd (by decide) ⟨tail, htail.symm⟩
    refine ⟨more, fun _ hd => name.isNameChar (hmore ▸ List.mem_append_right _ hd), ?_, ?_⟩
    · rintro ⟨left, rfl⟩
      exact name.bare "asyncfunction" (by simp) ⟨left, hmore⟩
    · rw [← hmore, List.append_assoc] at htail
      rw [heq, ← List.append_cancel_left htail]

end Reference

/-! ## The pass over defaults -/

/-- Where there is a default export already, none is added. -/
theorem addDefaultExpression_of_hasDefault {found : Collection} (h : found.snapshot.hasDefault = true) (m : Match) :
    s.addDefaultExpression found m = .ok found := by
  unfold Source.addDefaultExpression
  rw [if_pos h]
  rfl

end ApiImpact.Program

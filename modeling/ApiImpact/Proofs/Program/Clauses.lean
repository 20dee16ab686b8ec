import ApiImpact.Proofs.ModuleReference.Taken
import ApiImpact.Proofs.Program.Defaults
import ApiImpact.Proofs.Script.Cuts

/-!
# Lists of exports and stars

The passes over export clauses and stars add what the statements of these forms say: every entry of a list under
its public name, and everything of a module under its name or under `*`.
-/

namespace ApiImpact.Program

open Text Text.Pattern Script TypeScript

variable {before rest more : List Char} {c : Char} {s : Source} {statement : Statement} {program : List Statement}
  {front back : List (Char × Shade)} {module : Specifier}

/-! ## Modules -/

theorem Specifier.byteLength_blanked (module : Specifier) :
    byteLength (module.chars.flatMap Text.blankOut) = byteLength module.chars := by
  have hhide : hide (· != .code) (module.chars.map (·, .literal)) = module.chars.flatMap Text.blankOut := List.flatMap_map _ _ _
  rw [← hhide, byteLength_hide]
  simp [Function.comp_def]

theorem Specifier.isQuote_mark (module : Specifier) : ModuleReference.isQuote module.mark = true := by
  rcases module.isMark with h | h <;> rw [h] <;> rfl

/-- The name of a module is read off its literal. -/
theorem Stands.literalAt? (h : Stands s before statement rest) (hshaded : statement.shaded = front ++ (module.shaded ++ back)) :
    s.literalAt? (byteLength (before ++ hide (· != .code) front)) = some module.name := by
  have hsize : module.mark.utf8Size = 1 := by rcases module.isMark with h | h <;> rw [h] <;> rfl
  have hcode : s.code = (before ++ hide (· != .code) front) ++ (module.mark :: (module.chars.flatMap Text.blankOut ++
      module.mark :: (hide (· != .code) back ++ rest))) := by
    rw [h.code, Statement.code, hshaded, hide_append, hide_append, module.hide_shaded, Specifier.code]
    simp
  have hmark : ∀ d ∈ module.chars.flatMap Text.blankOut, (d == module.mark) = false := by
    intro d hd
    obtain ⟨c, -, hc⟩ := List.mem_flatMap.mp hd
    rcases mem_blankOut hc with rfl | rfl <;> rcases module.isMark with h | h <;> rw [h] <;> rfl
  obtain ⟨textFront, textBack, htext, hlength⟩ := h.text
  have hquoted : hide (· == .comment) module.shaded = module.quoted := by
    simp [Specifier.shaded, Specifier.quoted, hide_append, hide_map]
  have hstart : byteLength (before ++ hide (· != .code) front) + 1 =
      byteLength ((textFront ++ hide (· == .comment) front) ++ [module.mark]) := by
    rw [byteLength_append, byteLength_append, byteLength_append, hlength, byteLength_hide, byteLength_hide, byteLength_cons, hsize]
    rfl
  have hslice : slice? s.text (byteLength (before ++ hide (· != .code) front) + 1)
      (byteLength (before ++ hide (· != .code) front) + 1 + byteLength (module.chars.flatMap Text.blankOut)) =
        some module.chars := by
    have hsplit : s.text = (textFront ++ hide (· == .comment) front ++ [module.mark]) ++ (module.chars ++
        (module.mark :: (hide (· == .comment) back ++ textBack))) := by
      rw [htext, hshaded, hide_append, hide_append, hquoted, Specifier.quoted]
      simp
    rw [hstart, module.byteLength_blanked, ← byteLength_append, hsplit, slice?_append]
  rw [Source.literalAt?, hcode, dropBytes?_byteLength]
  simp only [Option.bind_eq_bind, Option.bind_some, hsize, if_true]
  rw [findOffset?_append hmark (by simp), Option.bind_some, hslice]
  rfl

/-! ## Stars -/

end ApiImpact.Program

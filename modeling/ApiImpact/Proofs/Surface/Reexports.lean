import ApiImpact.Capture
import ApiImpact.Proofs.Script.Comments
import ApiImpact.Proofs.Script.Referenced
import ApiImpact.Proofs.Text.Literal

/-!
# Re-exports of a snapshot

An export that is taken from a module stands for a re-export that the script writes. A plain one is among the
references of the script too, and its module is named by a literal behind the word `from`. The snapshot takes
others as well, which the references do not show.
-/

namespace ApiImpact

open Text

/-! ## Blanks and words -/

theorem Text.isWordChar_of_isBlank {c : Char} (h : isBlank c = true) : isWordChar c = false := by
  rw [isWordChar]
  split_ifs with hascii
  · exact ModuleReference.isPlainChar_of_isBlank h
  · have hwide := inRanges_wideBlanks h hascii
    have hapart : ∀ ranges ∈ [alphabeticRanges, decimalRanges, joiningRanges], areDisjoint wideBlanks ranges = true := by
      decide +kernel
    simp [inRanges_eq_false_of_areDisjoint (hapart _ _) hwide]

/-! ## Literals behind a word -/

/-- A literal of `script` has the contents `literal`, and the code before it ends with `word`. -/
def Text.LiteralBehind (script word literal : List Char) : Prop :=
  ∃ before front lead mark after,
    shades script = before ++ (mark, .code) :: (literal.map (·, .literal) ++ (mark, .code) :: after) ∧
      ModuleReference.isQuote mark = true ∧ hide (· != .code) before = front ++ (word ++ lead) ∧
      (∀ c ∈ front.getLast?, isWordChar c = false) ∧ ∀ c ∈ lead, isBlank c = true

namespace Script

/-- Everything is taken under a name, which stands last. -/
def Taken.EndsInName : Taken → Prop
  | list _ | star => False
  | starAs .. => True

namespace Reexport

variable {r : Reexport} {script : List Char} {module : String} {e : Export}

/-- Quotes in one line enclose the name of the module, and no name runs into the word `from`. -/
structure IsProper (r : Reexport) : Prop where
  mark : ModuleReference.isQuote r.mark = true
  line : '\n' ∉ r.contents
  parted : r.taken.EndsInName → r.tail ≠ []

theorem sourceModule_of_mem_exports {line : Nat} (h : e ∈ r.exports line module) : e.sourceModule = some module := by
  cases htaken : r.taken with
  | list names =>
      rw [exports, htaken] at h
      obtain ⟨entry, -, h⟩ := List.mem_filterMap.mp h
      obtain ⟨_, -, rfl⟩ := Option.map_eq_some_iff.mp h
      rfl
  | star =>
      rw [exports, htaken] at h
      obtain rfl := List.mem_singleton.mp h
      rfl
  | starAs blanks gap name =>
      rw [exports, htaken] at h
      obtain rfl := List.mem_singleton.mp h
      rfl

/-- The word `from` is not the end of a longer one. -/
theorem IsProper.edge (h : r.IsProper) :
    ∀ c ∈ (r.before ++ "export".toList ++ r.gap ++ r.taken.chars ++ r.tail).getLast?, isWordChar c = false := by
  intro c hc
  by_cases htail : r.tail = []
  · have hne : r.taken.chars ≠ [] := List.cons_ne_nil _ _
    rw [htail, List.append_nil, List.getLast?_append_of_ne_nil _ hne] at hc
    have hsigns : isWordChar '\x7d' = false ∧ isWordChar '*' = false := by decide +kernel
    cases htaken : r.taken with
    | list names =>
        rw [htaken, Taken.chars_list, ← List.cons_append, List.getLast?_concat] at hc
        cases hc
        exact hsigns.1
    | star =>
        rw [htaken] at hc
        cases hc
        exact hsigns.2
    | starAs blanks gap name => exact absurd htail (h.parted (htaken ▸ trivial))
  · rw [List.getLast?_append_of_ne_nil _ htail] at hc
    exact isWordChar_of_isBlank (r.tail_blank c (List.mem_of_getLast? hc))

theorem IsProper.literalBehind (h : r.IsProper) (hcode : r.code = codeOnly script)
    (hmodule : r.module? script = some module) : LiteralBehind script "from".toList module.toList := by
  have hmark := ModuleReference.eq_of_isQuote h.mark
  obtain ⟨front, hfront⟩ : ∃ front, front = r.before ++ "export".toList ++ r.gap ++ r.taken.chars ++ r.tail := ⟨_, rfl⟩
  have hword : (front ++ ['f', 'r', 'o']) ++ 'm' :: r.lead = front ++ ("from".toList ++ r.lead) :=
    List.append_assoc _ _ _
  have hkeyword : r.before ++ r.front = front ++ ("from".toList ++ r.lead) := by
    rw [hfront, r.front_eq]
    simp only [List.append_assoc]
  have hsplit : codeOnly script =
      (front ++ ['f', 'r', 'o']) ++ 'm' :: (r.lead ++ r.mark :: (r.contents ++ r.mark :: r.after)) := by
    rw [← hcode, code, r.chars_eq_front, rest, ← List.cons_append, ← List.append_assoc (front ++ _), hword, ← hkeyword]
    simp only [List.append_assoc, List.cons_append, List.nil_append]
  obtain ⟨before, literal, after, hshades, hbefore, hlength⟩ :=
    exists_literal_of_codeOnly (by decide) r.lead_blank hmark r.closed h.line hsplit
  rw [hword] at hbefore
  have hslice := slice?_literal hshades hbefore hlength
  rw [← hkeyword, List.append_assoc, ← r.chars_eq_front] at hslice
  rw [module?, hslice] at hmodule
  obtain rfl := Option.some.inj hmodule
  have hcontents : (String.ofList literal).toList = literal := String.toList_ofList
  rw [hcontents]
  exact ⟨before, front, r.lead, r.mark, after, hshades, h.mark, hbefore, hfront ▸ h.edge, r.lead_blank⟩

end Reexport

end Script

namespace Snapshot

variable {settings : Settings} {filePath text module : String} {manifest : Option String} {s : Snapshot} {e : Export}

/-- In a file without types, the exports that are taken from a module are those of re-exports in its script. -/
theorem writesReexport_of_capture (hpath : (Path.ofString filePath).IsUntyped)
    (h : capture settings filePath text manifest = .ok s) (he : e ∈ s.exports)
    (hmodule : e.sourceModule = some module) : ∃ r, Script.Reexport.Writes text.toList r module e := by
  obtain ⟨surface, -, hexports, ⟨-, hnone⟩ | hsurface⟩ := exists_extract_of_capture hpath h
  · rw [hexports, hnone] at he
    cases he
  · rw [hexports] at he
    obtain ⟨r, module', hwrites⟩ :=
      Script.writesReexport_of_extract hsurface he (Option.isSome_iff_exists.mpr ⟨module, hmodule⟩)
    obtain rfl : module' = module :=
      Option.some.inj ((Script.Reexport.sourceModule_of_mem_exports hwrites.exported).symm.trans hmodule)
    exact ⟨r, hwrites⟩

/-- An export that is taken from a module is written as a re-export. The pattern of references fits it just when it is
plain; then the module is among the references, unless a star stands in a list that is still open. Where the
re-export is proper, the module is what a literal behind the word `from` has in it. -/
theorem reexports_referenced (hpath : (Path.ofString filePath).IsUntyped)
    (h : capture settings filePath text manifest = .ok s) (he : e ∈ s.exports) (hmodule : e.sourceModule = some module)
    (hne : module ≠ "") : ∃ r, Script.Reexport.Writes text.toList r module e ∧
      ((∃ groups, ModuleReference.reexportPattern.Fits [] r.before r.chars r.rest groups) ↔ r.IsPlain) ∧
      (r.IsPlain → ¬ r.IsHidden →
        ∃ line typeOnly names, .static module line typeOnly true names ∈ ModuleReference.extract text) ∧
      (r.IsProper → LiteralBehind text.toList "from".toList module.toList) := by
  obtain ⟨r, hwrites⟩ := writesReexport_of_capture hpath h he hmodule
  refine ⟨r, hwrites, ⟨fun ⟨_, hfits⟩ => r.isPlain_of_fits hfits, r.exists_fits⟩, fun hplain hhidden => ?_,
    fun hproper => ?_⟩
  · exact Script.Reexport.exists_static_mem_extract hplain hhidden hwrites.code_eq hwrites.module_eq hne
  · exact hproper.literalBehind hwrites.code_eq hwrites.module_eq

/-- Without a blank behind the word `export`, a snapshot has a re-export that the references do not show. -/
theorem reexports_referenced_of_tight :
    let text := "export\x7b a \x7d from './m';\n"
    ModuleReference.extract text = [] ∧ ∃ s, capture {} "m.js" text none = .ok s ∧
      ∃ e ∈ s.exports, e.sourceModule = some "./m" ∧
        ∃ r, Script.Reexport.Writes text.toList r "./m" e ∧ ¬ r.IsPlain := by
  intro text
  have hextract : ModuleReference.extract text = [] := List.isEmpty_iff.mp (by decide +kernel)
  have hexports : (capture {} "m.js" text none).toOption.any
      (·.exports.any fun e => e.sourceModule == some "./m") = true := by decide +kernel
  obtain ⟨s, hs⟩ : ∃ s, capture {} "m.js" text none = .ok s := isOk_iff.mp (by decide +kernel)
  rw [hs] at hexports
  obtain ⟨e, he, hmodule⟩ := List.any_eq_true.mp hexports
  have hmodule := beq_iff_eq.mp hmodule
  obtain ⟨r, hwrites, -, hreferenced, -⟩ := reexports_referenced (by decide +kernel) hs he hmodule (by decide)
  -- A list that is open before it would need a second word `export`.
  have hhidden : ¬ r.IsHidden := by
    rintro ⟨-, earlier, gap, modifier, names, hbefore, -⟩
    have hcount : (codeOnly text.toList).count 'x' = 1 := by decide +kernel
    have hword : "export".toList.count 'x' = 1 := by decide
    rw [← hwrites.code_eq, Script.Reexport.code, hbefore, r.chars_eq] at hcount
    simp only [List.count_append, hword] at hcount
    omega
  refine ⟨hextract, s, hs, e, he, hmodule, r, hwrites, fun hplain => ?_⟩
  obtain ⟨line, typeOnly, names, hmem⟩ := hreferenced hplain hhidden
  rw [hextract] at hmem
  cases hmem

end Snapshot

end ApiImpact

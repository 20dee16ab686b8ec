import ApiImpact.Proofs.Program.Masked
import ApiImpact.Proofs.Script.Source

/-!
# Where statements stand in a script

The code of a statement is its text with the literals blanked out. Its braces are balanced, it ends with the only
line break outside them, and it stands in the source of its program between the codes of the other statements.
-/

namespace ApiImpact.Program

open Text Script TypeScript

variable {hidden : Shade → Bool} {text front back rest : List Char} {opener : Char} {statement : Statement}
  {program : List Statement}

/-! ## The code of statements -/

theorem hide_plain (h : hidden .code = false) (text : List Char) : hide hidden (plain text) = text :=
  hide_map h text

/-- The literal with its contents blanked out. -/
def Specifier.code (module : Specifier) : List Char :=
  module.mark :: (module.chars.flatMap blankOut ++ [module.mark])

theorem Specifier.hide_shaded (module : Specifier) : hide (· != .code) module.shaded = module.code := by
  have hliteral : hide (· != .code) (module.chars.map (·, .literal)) = module.chars.flatMap blankOut := List.flatMap_map _ _ _
  simp [Specifier.shaded, Specifier.code, hide_append, hliteral]

/-- The code of a variable with its value. -/
def Declarator.code (declarator : Declarator) : List Char :=
  declarator.name.chars ++ (" = ".toList ++ declarator.value.code)

theorem Declarator.hide_shaded (declarator : Declarator) : hide (· != .code) declarator.shaded = declarator.code := by
  rw [Declarator.shaded, hide_append, hide_plain rfl, List.append_assoc]
  rfl

/-- The code that names the module of a list. -/
def fromCode (module : Option Specifier) : List Char :=
  module.elim [] fun module => " from ".toList ++ module.code

namespace Statement

theorem code_function (isDefault isAsync : Bool) (name : Name) (params : Parameters) :
    (function isDefault isAsync name params).code = exportWords isDefault ++ (asyncWord isAsync ++
      ("function ".toList ++ (name.chars ++ '(' :: (params.code ++ ") \x7b\x7d\n".toList)))) := by
  rw [code, shaded, hide_append, hide_append, hide_plain rfl, hide_plain rfl]
  simp [Piece.code]

theorem code_classType (isDefault : Bool) (name : Name) (members : Members) :
    (classType isDefault name members).code = exportWords isDefault ++ ("class ".toList ++
      (name.chars ++ ' ' :: '\x7b' :: (members.code ++ "\x7d\n".toList))) := by
  rw [code, shaded, hide_append, hide_append, hide_plain rfl, hide_plain rfl]
  simp [Piece.code]

theorem code_bindings (keyword : Keyword) (first : Declarator) (more : List Declarator) (semicolon : Bool) :
    (bindings keyword first more semicolon).code = "export ".toList ++ (keyword.word.toList ++ ' ' :: (first.code ++
      (commaed Declarator.code more ++ lineEnd semicolon))) := by
  have hmore : hide (· != .code) (more.flatMap fun declarator => plain ", ".toList ++ declarator.shaded) =
      commaed Declarator.code more := by
    have hone (declarator : Declarator) : hide (· != .code) (plain ", ".toList ++ declarator.shaded) =
        ", ".toList ++ declarator.code := by
      rw [hide_append, hide_plain rfl, Declarator.hide_shaded]
    rw [hide, List.flatMap_assoc]
    exact congrArg (more.flatMap ·) (funext hone)
  rw [code, shaded, hide_append, hide_append, hide_append, hide_plain rfl, hide_plain rfl, Declarator.hide_shaded, hmore]
  simp

theorem code_defaultName (name : Reference) (semicolon : Bool) :
    (defaultName name semicolon).code = "export ".toList ++ ("default ".toList ++ (name.chars ++ lineEnd semicolon)) := by
  rw [code, shaded, hide_plain rfl]
  simp

theorem code_names (entries : List Entry) (module : Option Specifier) (semicolon : Bool) :
    (names entries module semicolon).code = "export ".toList ++ (listChars entries ++ (fromCode module ++ lineEnd semicolon)) := by
  have hfrom : hide (· != .code) (module.elim [] fun module => plain " from ".toList ++ module.shaded) = fromCode module := by
    cases module with
    | none => rfl
    | some module =>
        rw [Option.elim, hide_append, hide_plain rfl, Specifier.hide_shaded]
        rfl
  rw [code, shaded, hide_append, hide_append, hide_plain rfl, hide_plain rfl, hfrom, List.append_assoc]

theorem code_star (renamed : Option Word) (module : Specifier) (semicolon : Bool) :
    (star renamed module semicolon).code = "export ".toList ++ ("* ".toList ++ (asChars renamed ++
      ("from ".toList ++ (module.code ++ lineEnd semicolon)))) := by
  rw [code, shaded, hide_append, hide_append, hide_plain rfl, hide_plain rfl, Specifier.hide_shaded]
  simp

end Statement

/-! ## Braces -/

theorem isNameChar_ne {c sign : Char} (h : isNameChar c = true) (hsign : isNameChar sign = false) : c ≠ sign := by
  rintro rfl
  rw [hsign] at h
  cases h

theorem Word.braceDepth_chars (word : Word) : braceDepth word.chars = 0 :=
  braceDepth_eq_zero fun _ hc => ⟨isNameChar_ne (word.isNameChar hc) (by decide), isNameChar_ne (word.isNameChar hc) (by decide)⟩

theorem Piece.braceDepth_code (piece : Piece opener) : braceDepth piece.code = 0 := piece.balanced

theorem Specifier.braceDepth_code (module : Specifier) : braceDepth module.code = 0 := by
  refine braceDepth_eq_zero fun c hc => ?_
  simp only [Specifier.code, List.mem_cons, List.mem_append, List.mem_flatMap, List.not_mem_nil, or_false] at hc
  have hc : c = '\'' ∨ c = '"' ∨ c = '\n' ∨ c = ' ' := by
    rcases hc with rfl | ⟨d, -, hd⟩ | rfl
    · exact module.isMark.imp id .inl
    · exact .inr (.inr (mem_blankOut hd))
    · exact module.isMark.imp id .inl
  rcases hc with rfl | rfl | rfl | rfl <;> decide

theorem Declarator.braceDepth_code (declarator : Declarator) : braceDepth declarator.code = 0 := by
  rw [Declarator.code, braceDepth_append, braceDepth_append, Word.braceDepth_chars, Piece.braceDepth_code]
  rfl

theorem braceDepth_commaed (more : List Declarator) : braceDepth (commaed Declarator.code more) = 0 := by
  induction more with
  | nil => rfl
  | cons declarator more ih =>
      rw [commaed] at ih ⊢
      rw [List.flatMap_cons, braceDepth_append, braceDepth_append, declarator.braceDepth_code, ih]
      rfl

theorem braceDepth_lineEnd (semicolon : Bool) : braceDepth (lineEnd semicolon) = 0 := by
  cases semicolon <;> rfl

theorem braceDepth_listChars (entries : List Entry) : braceDepth (listChars entries) = 0 := by
  have hinner : braceDepth (", ".toList.intercalate (entries.map Entry.chars)) = 0 := by
    refine braceDepth_eq_zero fun c hc => ?_
    rcases mem_entriesChars hc with hname | rfl | rfl
    · exact ⟨isNameChar_ne hname (by decide), isNameChar_ne hname (by decide)⟩
    · decide
    · decide
  rw [listChars, braceDepth_append, braceDepth_append, hinner]
  rfl

theorem braceDepth_asChars (renamed : Option Word) : braceDepth (asChars renamed) = 0 := by
  cases renamed with
  | none => rfl
  | some word =>
      rw [asChars, Option.elim, braceDepth_append, braceDepth_append, word.braceDepth_chars]
      rfl

theorem braceDepth_fromCode (module : Option Specifier) : braceDepth (fromCode module) = 0 := by
  cases module with
  | none => rfl
  | some module =>
      rw [fromCode, Option.elim, braceDepth_append, module.braceDepth_code]
      rfl

theorem braceDepth_exportWords (isDefault : Bool) : braceDepth (exportWords isDefault) = 0 := by
  cases isDefault <;> rfl

theorem braceDepth_asyncWord (isAsync : Bool) : braceDepth (asyncWord isAsync) = 0 := by
  cases isAsync <;> rfl

theorem braceDepth_keyword (keyword : Keyword) : braceDepth keyword.word.toList = 0 := by
  cases keyword <;> rfl

/-- A statement closes the braces that it opens. -/
theorem Statement.braceDepth_code (statement : Statement) : braceDepth statement.code = 0 := by
  cases statement with
  | function isDefault isAsync name params =>
      rw [code_function]
      simp only [braceDepth_append, braceDepth_cons, braceDepth_exportWords, braceDepth_asyncWord, Word.braceDepth_chars,
        Piece.braceDepth_code]
      rfl
  | classType isDefault name members =>
      rw [code_classType]
      simp only [braceDepth_append, braceDepth_cons, braceDepth_exportWords, Word.braceDepth_chars, Piece.braceDepth_code]
      rfl
  | bindings keyword first more semicolon =>
      rw [code_bindings]
      simp only [braceDepth_append, braceDepth_cons, braceDepth_keyword, Declarator.braceDepth_code, braceDepth_commaed,
        braceDepth_lineEnd]
      rfl
  | defaultName name semicolon =>
      rw [code_defaultName]
      simp only [braceDepth_append, Word.braceDepth_chars, braceDepth_lineEnd]
      rfl
  | names entries module semicolon =>
      rw [code_names]
      simp only [braceDepth_append, braceDepth_listChars, braceDepth_fromCode, braceDepth_lineEnd]
      rfl
  | star renamed module semicolon =>
      rw [code_star]
      simp only [braceDepth_append, braceDepth_asChars, Specifier.braceDepth_code, braceDepth_lineEnd]
      rfl

/-! ## Lines -/

theorem mem_of_newline_mem_hide {shaded : List (Char × Shade)} (h : '\n' ∈ hide hidden shaded) : '\n' ∈ shaded.map Prod.fst := by
  obtain ⟨⟨c, shade⟩, hmem, hc⟩ := List.mem_flatMap.mp h
  have hbreak : c = '\n' := by
    dsimp only at hc
    split_ifs at hc
    · by_contra hne
      rw [Text.blankOut, if_neg hne] at hc
      exact absurd (List.eq_of_mem_replicate hc) (by decide)
    · exact (List.mem_singleton.mp hc).symm
  exact List.mem_map.mpr ⟨_, hmem, hbreak⟩

theorem Piece.newline_notMem {piece : Piece opener} (h : '\n' ∉ piece.chars) : '\n' ∉ piece.code :=
  fun hmem => h (piece.map_fst_shaded ▸ mem_of_newline_mem_hide hmem)

theorem Word.newline_notMem (word : Word) : '\n' ∉ word.chars :=
  fun hmem => isNameChar_ne (word.isNameChar hmem) (by decide) rfl

theorem Specifier.newline_notMem (module : Specifier) : '\n' ∉ module.code := by
  rw [← module.hide_shaded]
  intro hmem
  have hchars := mem_of_newline_mem_hide hmem
  have hmark : module.mark ≠ '\n' := by
    rcases module.isMark with h | h <;> rw [h] <;> decide
  rw [module.map_fst_shaded, Specifier.quoted] at hchars
  simp only [List.mem_cons, List.mem_append, List.not_mem_nil, or_false] at hchars
  rcases hchars with h | h | h
  · exact hmark h.symm
  · exact (module.plain _ h).2.1 rfl
  · exact hmark h.symm

theorem Declarator.newline_notMem (declarator : Declarator) : '\n' ∉ declarator.code := by
  rw [Declarator.code]
  simp only [List.mem_append, not_or]
  exact ⟨declarator.name.newline_notMem, by decide, Piece.newline_notMem declarator.value.line⟩

theorem newline_notMem_commaed (more : List Declarator) : '\n' ∉ commaed Declarator.code more := by
  intro hmem
  obtain ⟨declarator, -, hdeclarator⟩ := List.mem_flatMap.mp hmem
  rcases List.mem_append.mp hdeclarator with hcomma | hmem
  · exact absurd hcomma (by decide)
  · exact declarator.newline_notMem hmem

theorem newline_notMem_listChars (entries : List Entry) : '\n' ∉ listChars entries := by
  rw [listChars]
  simp only [List.mem_append, not_or]
  refine ⟨by decide, fun hmem => ?_, by decide⟩
  rcases mem_entriesChars hmem with h | h | h
  · exact isNameChar_ne h (by decide) rfl
  · exact absurd h (by decide)
  · exact absurd h (by decide)

theorem newline_notMem_fromCode (module : Option Specifier) : '\n' ∉ fromCode module := by
  cases module with
  | none => exact List.not_mem_nil
  | some module =>
      rw [fromCode, Option.elim, List.mem_append, not_or]
      exact ⟨by decide, module.newline_notMem⟩

theorem newline_notMem_asChars (renamed : Option Word) : '\n' ∉ asChars renamed := by
  cases renamed with
  | none => exact List.not_mem_nil
  | some word =>
      rw [asChars, Option.elim]
      simp only [List.mem_append, not_or]
      exact ⟨by decide, word.newline_notMem, by decide⟩

theorem newline_notMem_exportWords (isDefault : Bool) : '\n' ∉ exportWords isDefault := by
  cases isDefault <;> decide

theorem newline_notMem_asyncWord (isAsync : Bool) : '\n' ∉ asyncWord isAsync := by
  cases isAsync <;> decide

theorem newline_notMem_keyword (keyword : Keyword) : '\n' ∉ keyword.word.toList := by
  cases keyword <;> decide

/-- The sign at the end of a line. -/
def lineSign (semicolon : Bool) : List Char := if semicolon then [';'] else []

theorem newline_notMem_lineSign (semicolon : Bool) : '\n' ∉ lineSign semicolon := by
  cases semicolon <;> decide

/-- The line of the statement ends with its only line break, or the statement is a class. -/
theorem Statement.exists_line (statement : Statement) : ∃ line, statement.code = line ++ ['\n'] ∧
    ('\n' ∉ line ∨ ∃ isDefault name members, statement = .classType isDefault name members) := by
  cases statement with
  | function isDefault isAsync name params =>
      refine ⟨exportWords isDefault ++ (asyncWord isAsync ++ ("function ".toList ++ (name.chars ++ (['('] ++
        (params.code ++ ") \x7b\x7d".toList))))), by rw [code_function]; simp, .inl ?_⟩
      simp only [List.mem_append, not_or]
      exact ⟨newline_notMem_exportWords _, newline_notMem_asyncWord _, by decide, name.newline_notMem, by decide,
        Piece.newline_notMem params.line, by decide⟩
  | classType isDefault name members =>
      exact ⟨exportWords isDefault ++ ("class ".toList ++ (name.chars ++ ' ' :: '\x7b' :: (members.code ++ ['\x7d']))),
        by rw [code_classType]; simp, .inr ⟨_, _, _, rfl⟩⟩
  | bindings keyword first more semicolon =>
      refine ⟨"export ".toList ++ (keyword.word.toList ++ ([' '] ++ (first.code ++ (commaed Declarator.code more ++
        lineSign semicolon)))), by rw [code_bindings, lineEnd, lineSign]; simp, .inl ?_⟩
      simp only [List.mem_append, not_or]
      exact ⟨by decide, newline_notMem_keyword _, by decide, first.newline_notMem, newline_notMem_commaed _,
        newline_notMem_lineSign _⟩
  | defaultName name semicolon =>
      refine ⟨"export default ".toList ++ (name.chars ++ lineSign semicolon),
        by rw [code_defaultName, lineEnd, lineSign]; simp, .inl ?_⟩
      simp only [List.mem_append, not_or]
      exact ⟨by decide, name.newline_notMem, newline_notMem_lineSign _⟩
  | names entries module semicolon =>
      refine ⟨"export ".toList ++ (listChars entries ++ (fromCode module ++ lineSign semicolon)),
        by rw [code_names, lineEnd, lineSign]; simp, .inl ?_⟩
      simp only [List.mem_append, not_or]
      exact ⟨by decide, newline_notMem_listChars _, newline_notMem_fromCode _, newline_notMem_lineSign _⟩
  | star renamed module semicolon =>
      refine ⟨"export * ".toList ++ (asChars renamed ++ ("from ".toList ++ (module.code ++ lineSign semicolon))),
        by rw [code_star, lineEnd, lineSign]; simp, .inl ?_⟩
      simp only [List.mem_append, not_or]
      exact ⟨by decide, newline_notMem_asChars _, by decide, module.newline_notMem, newline_notMem_lineSign _⟩

theorem prefix_of_concat {line : List Char} {c : Char} (he : line ++ [c] = front ++ back) (hback : back ≠ []) : front <+: line := by
  rcases List.append_eq_append_iff.mp he with ⟨more, rfl, hmore⟩ | ⟨more, rfl, -⟩
  · cases more with
    | nil => simp
    | cons d more =>
        obtain ⟨-, hnil⟩ := List.cons.inj hmore
        exact absurd (List.append_eq_nil_iff.mp hnil.symm).2 hback
  · exact List.prefix_append _ _

/-- The lines of a statement behind the first one begin inside its braces. -/
theorem Statement.braceDepth_pos (statement : Statement) (h : statement.code = front ++ back) (hback : back ≠ [])
    (hfront : front.getLast? = some '\n') : 0 < braceDepth front := by
  have hmem : '\n' ∈ front := List.mem_of_getLast? hfront
  obtain ⟨line, hline, hone | ⟨isDefault, name, members, rfl⟩⟩ := statement.exists_line
  · exact absurd ((prefix_of_concat (hline.symm.trans h) hback).subset hmem) hone
  · have hhead : '\n' ∉ exportWords isDefault ++ ("class ".toList ++ (name.chars ++ [' ', '\x7b'])) := by
      simp only [List.mem_append, not_or]
      exact ⟨newline_notMem_exportWords _, by decide, name.newline_notMem, by decide⟩
    have hsplit : front ++ back = (exportWords isDefault ++ ("class ".toList ++ (name.chars ++ [' ', '\x7b']))) ++
        ((members.code ++ ['\x7d']) ++ ['\n']) := by
      rw [← h, code_classType]
      simp
    rcases List.append_eq_append_iff.mp hsplit with ⟨more, hmore, -⟩ | ⟨more, rfl, hmore⟩
    · rw [hmore] at hhead
      exact absurd (List.mem_append_left _ hmem) hhead
    · have hlast : more.getLast? = some '\n' := by
        cases more with
        | nil => exact absurd (by simpa using hmem) hhead
        | cons c more => rwa [List.getLast?_append_of_ne_nil _ (List.cons_ne_nil _ _)] at hfront
      obtain ⟨rest, hrest⟩ := prefix_of_concat hmore hback
      have hne : rest ≠ [] := by
        rintro rfl
        rw [List.append_nil] at hrest
        rw [hrest, List.getLast?_concat] at hlast
        exact absurd hlast (by decide)
      obtain ⟨inner, hinner⟩ := prefix_of_concat hrest.symm hne
      have hnested : 0 ≤ braceDepth more := members.nested more inner hinner.symm
      simp only [braceDepth_append, braceDepth_exportWords, Word.braceDepth_chars]
      have hbrace : braceDepth "class ".toList = 0 ∧ braceDepth [' ', '\x7b'] = 1 := by decide
      omega

end ApiImpact.Program

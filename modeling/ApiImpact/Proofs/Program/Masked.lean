import ApiImpact.Proofs.ModuleReference.Masked
import ApiImpact.Proofs.Program.Parsed
import ApiImpact.Proofs.Text.Offset

/-!
# The code of programs

A statement is scanned from code to code. In its code the literals are blanked out, as many braces open as close,
and every line after the first one begins inside braces.
-/

namespace ApiImpact.Program

open Text Script TypeScript

variable {hidden : Shade → Bool} {shaded front back : List (Char × Shade)} {text rest : List Char} {opener : Char} {trail : Trail}

/-! ## Scanning -/

/-- Scanned as code behind `trail`, the text gets its shades, and the scan goes on as code. -/
def Scans (trail : Trail) (shaded : List (Char × Shade)) : Prop :=
  ∀ rest, ∃ trail', shadesFrom .code trail (shaded.map Prod.fst ++ rest) = shaded ++ shadesFrom .code trail' rest

theorem scans_nil (trail : Trail) : Scans trail [] :=
  fun _ => ⟨trail, rfl⟩

theorem Scans.append (h : Scans trail front) (hback : ∀ trail, Scans trail back) : Scans trail (front ++ back) := by
  intro rest
  obtain ⟨middle, hfront⟩ := h (back.map Prod.fst ++ rest)
  obtain ⟨trail', hrest⟩ := hback middle rest
  exact ⟨trail', by rw [List.map_append, List.append_assoc, hfront, hrest, List.append_assoc]⟩

/-- The signs that open literals and comments. -/
def openingSigns : List Char := ['/', '\'', '"', '\x60']

theorem shadesFrom_plain (h : ∀ c ∈ text, c ∉ openingSigns) (trail : Trail) (rest : List Char) :
    shadesFrom .code trail (text ++ rest) = plain text ++ shadesFrom .code (text.foldl Trail.push trail) rest :=
  shadesFrom_signless (fun c hc => by simpa [openingSigns] using h c hc) trail rest

theorem scans_plain (h : ∀ c ∈ text, c ∉ openingSigns) (trail : Trail) : Scans trail (plain text) :=
  fun rest => ⟨_, by rw [map_fst_plain, shadesFrom_plain h]⟩

/-- A piece is scanned behind its sign. -/
theorem scans_piece (piece : Piece opener) (h : ∀ c ∈ text, c ∉ openingSigns)
    (hopener : ∀ trail, text.foldl Trail.push trail = .close opener) (trail : Trail) : Scans trail (plain text ++ piece.shaded) := by
  intro rest
  obtain ⟨trail', hscan⟩ := piece.scan rest
  refine ⟨trail', ?_⟩
  rw [List.map_append, map_fst_plain, piece.map_fst_shaded, List.append_assoc, shadesFrom_plain h, hopener, hscan,
    List.append_assoc]

theorem scans_specifier (module : Specifier) (trail : Trail) : Scans trail module.shaded := by
  intro rest
  have hmark : module.mark ≠ '/' ∧ module.mark ≠ '\\' := by
    rcases module.isMark with h | h <;> rw [h] <;> decide
  refine ⟨.close module.mark, ?_⟩
  rw [module.map_fst_shaded, Specifier.quoted, List.cons_append, shadesFrom_code hmark.1, if_pos module.isMark,
    List.append_assoc, List.singleton_append, ModuleReference.shadesFrom_quoted_append hmark.2
      fun c hc => ⟨(module.plain c hc).2.2, (module.plain c hc).2.1, (module.plain c hc).1⟩]
  simp [Specifier.shaded]

theorem isNameChar_not_openingSign {c : Char} (h : isNameChar c = true) : c ∉ openingSigns := by
  rintro hc
  have hsigns : ∀ c ∈ openingSigns, isNameChar c = false := by decide
  rw [hsigns c hc] at h
  cases h

/-! ## Text of statements -/

theorem mem_entryChars {entry : Entry} {c : Char} (h : c ∈ entry.chars) : isNameChar c = true ∨ c = ' ' := by
  rcases List.mem_append.mp h with hname | hrenamed
  · exact .inl (entry.name.isNameChar hname)
  · cases hword : entry.renamed with
    | none => simp [hword] at hrenamed
    | some word =>
        have has : ∀ c ∈ " as ".toList, isNameChar c = true ∨ c = ' ' := by decide
        rw [hword] at hrenamed
        rcases List.mem_append.mp hrenamed with hmem | hmem
        · exact has c hmem
        · exact .inl (word.isNameChar hmem)

/-- A list holds names, blanks and commas between its braces. -/
theorem mem_entriesChars {entries : List Entry} {c : Char} (h : c ∈ ", ".toList.intercalate (entries.map Entry.chars)) :
    isNameChar c = true ∨ c = ' ' ∨ c = ',' := by
  cases entries with
  | nil => cases h
  | cons entry entries =>
      rw [intercalate_map] at h
      rcases List.mem_append.mp h with hfirst | hmore
      · exact (mem_entryChars hfirst).imp id .inl
      · obtain ⟨entry, -, hentry⟩ := List.mem_flatMap.mp hmore
        rcases List.mem_append.mp hentry with hcomma | hentry
        · have hcommas : ∀ c ∈ ", ".toList, isNameChar c = true ∨ c = ' ' ∨ c = ',' := by decide
          exact hcommas c hcomma
        · exact (mem_entryChars hentry).imp id .inl

/-- What a statement holds apart from its pieces and literals: names, blanks and the signs of statements. -/
def IsStatementChar (c : Char) : Prop :=
  isNameChar c = true ∨ c ∈ " \n,;*=()\x7b\x7d".toList

theorem IsStatementChar.not_openingSign {c : Char} (h : IsStatementChar c) : c ∉ openingSigns := by
  rcases h with h | h
  · exact isNameChar_not_openingSign h
  · revert c
    decide

instance (c : Char) : Decidable (IsStatementChar c) :=
  inferInstanceAs (Decidable (_ ∨ _))

theorem Word.isStatementChar (word : Word) : ∀ c ∈ word.chars, IsStatementChar c :=
  fun _ hc => .inl (word.isNameChar hc)

theorem isStatementChar_exportWords (isDefault : Bool) : ∀ c ∈ exportWords isDefault, IsStatementChar c := by
  cases isDefault <;> decide

theorem isStatementChar_asyncWord (isAsync : Bool) : ∀ c ∈ asyncWord isAsync, IsStatementChar c := by
  cases isAsync <;> decide

theorem isStatementChar_keyword (keyword : Keyword) : ∀ c ∈ keyword.word.toList, IsStatementChar c := by
  cases keyword <;> decide

theorem isStatementChar_lineEnd (semicolon : Bool) : ∀ c ∈ lineEnd semicolon, IsStatementChar c := by
  cases semicolon <;> decide

theorem isStatementChar_listChars (entries : List Entry) : ∀ c ∈ listChars entries, IsStatementChar c := by
  have hopening : ∀ c ∈ "\x7b ".toList, IsStatementChar c := by decide
  have hclosing : ∀ c ∈ " \x7d".toList, IsStatementChar c := by decide
  simp only [listChars, List.forall_mem_append]
  refine ⟨hopening, fun c hc => ?_, hclosing⟩
  rcases mem_entriesChars hc with h | rfl | rfl
  · exact .inl h
  · decide
  · decide

theorem isStatementChar_asChars (renamed : Option Word) : ∀ c ∈ asChars renamed, IsStatementChar c := by
  have has : ∀ c ∈ "as ".toList, IsStatementChar c := by decide
  have hblank : ∀ c ∈ [' '], IsStatementChar c := by decide
  cases renamed with
  | none => simp [asChars]
  | some word =>
      simp only [asChars, Option.elim, List.forall_mem_append]
      exact ⟨has, word.isStatementChar, hblank⟩

/-! ## Scanning statements -/

theorem scans_statementChars (h : ∀ c ∈ text, IsStatementChar c) (trail : Trail) : Scans trail (plain text) :=
  scans_plain (fun c hc => (h c hc).not_openingSign) trail

theorem scans_flatMap {α : Type} {items : List α} {write : α → List (Char × Shade)}
    (h : ∀ item ∈ items, ∀ trail, Scans trail (write item)) (trail : Trail) : Scans trail (items.flatMap write) := by
  induction items generalizing trail with
  | nil => exact scans_nil trail
  | cons item items ih =>
      exact (h item List.mem_cons_self trail).append (ih fun next hmem => h next (List.mem_cons_of_mem _ hmem))

theorem Declarator.scans (declarator : Declarator) (trail : Trail) : Scans trail declarator.shaded := by
  have hsign : ∀ c ∈ " = ".toList, IsStatementChar c := by decide
  refine scans_piece declarator.value.toPiece (fun c hc => IsStatementChar.not_openingSign ?_) (fun trail => ?_) trail
  · rcases List.mem_append.mp hc with hc | hc
    · exact declarator.name.isStatementChar c hc
    · exact hsign c hc
  · rw [List.foldl_append]
    rfl

theorem scans_fromShaded (module : Option Specifier) (trail : Trail) :
    Scans trail (module.elim [] fun module => plain " from ".toList ++ module.shaded) := by
  have hfrom : ∀ c ∈ " from ".toList, IsStatementChar c := by decide
  cases module with
  | none => exact scans_nil trail
  | some module => exact (scans_statementChars hfrom trail).append (scans_specifier module)

theorem Statement.scans (statement : Statement) (trail : Trail) : Scans trail statement.shaded := by
  have hexport : ∀ c ∈ "export ".toList, IsStatementChar c := by decide
  cases statement with
  | function isDefault isAsync name params =>
      have hfunction : ∀ c ∈ "function ".toList, IsStatementChar c := by decide
      have hopening : ∀ c ∈ ['('], IsStatementChar c := by decide
      have hclosing : ∀ c ∈ ") \x7b\x7d\n".toList, IsStatementChar c := by decide
      have hhead : ∀ c ∈ exportWords isDefault ++ (asyncWord isAsync ++ ("function ".toList ++ (name.chars ++ ['(']))),
          IsStatementChar c := by
        simp only [List.forall_mem_append]
        exact ⟨isStatementChar_exportWords isDefault, isStatementChar_asyncWord isAsync, hfunction, name.isStatementChar, hopening⟩
      rw [shaded, ← List.append_assoc]
      refine Scans.append (scans_piece params.toPiece (fun c hc => (hhead c hc).not_openingSign) (fun trail => ?_) trail)
        (scans_statementChars hclosing)
      simp only [List.foldl_append]
      rfl
  | classType isDefault name members =>
      have hclass : ∀ c ∈ "class ".toList, IsStatementChar c := by decide
      have hopening : ∀ c ∈ " \x7b".toList, IsStatementChar c := by decide
      have hclosing : ∀ c ∈ "\x7d\n".toList, IsStatementChar c := by decide
      have hhead : ∀ c ∈ exportWords isDefault ++ ("class ".toList ++ (name.chars ++ " \x7b".toList)), IsStatementChar c := by
        simp only [List.forall_mem_append]
        exact ⟨isStatementChar_exportWords isDefault, hclass, name.isStatementChar, hopening⟩
      rw [shaded, ← List.append_assoc]
      refine Scans.append (scans_piece members.toPiece (fun c hc => (hhead c hc).not_openingSign) (fun trail => ?_) trail)
        (scans_statementChars hclosing)
      simp only [List.foldl_append]
      rfl
  | bindings keyword first more semicolon =>
      have hblank : ∀ c ∈ [' '], IsStatementChar c := by decide
      have hcomma : ∀ c ∈ ", ".toList, IsStatementChar c := by decide
      have hhead : ∀ c ∈ "export ".toList ++ (keyword.word.toList ++ [' ']), IsStatementChar c := by
        simp only [List.forall_mem_append]
        exact ⟨hexport, isStatementChar_keyword keyword, hblank⟩
      refine (scans_statementChars hhead trail).append fun trail => (first.scans trail).append fun trail => ?_
      exact (scans_flatMap (fun declarator _ trail => (scans_statementChars hcomma trail).append declarator.scans) trail).append
        (scans_statementChars (isStatementChar_lineEnd semicolon))
  | defaultName name semicolon =>
      have hdefault : ∀ c ∈ "export default ".toList, IsStatementChar c := by decide
      refine scans_statementChars ?_ trail
      simp only [List.forall_mem_append]
      exact ⟨hdefault, name.isStatementChar, isStatementChar_lineEnd semicolon⟩
  | names entries module semicolon =>
      refine Scans.append (scans_statementChars ?_ trail) fun trail =>
        (scans_fromShaded module trail).append (scans_statementChars (isStatementChar_lineEnd semicolon))
      simp only [List.forall_mem_append]
      exact ⟨hexport, isStatementChar_listChars entries⟩
  | star renamed module semicolon =>
      have hstar : ∀ c ∈ "export * ".toList, IsStatementChar c := by decide
      have hfrom : ∀ c ∈ "from ".toList, IsStatementChar c := by decide
      refine Scans.append (scans_statementChars ?_ trail) fun trail =>
        (scans_specifier module trail).append (scans_statementChars (isStatementChar_lineEnd semicolon))
      simp only [List.forall_mem_append]
      exact ⟨hstar, isStatementChar_asChars renamed, hfrom⟩

/-- The shades of a program are those of its statements. -/
theorem shades_code (program : List Statement) : shades (Program.code program) = program.flatMap Statement.shaded := by
  obtain ⟨trail, hscan⟩ := scans_flatMap (fun statement (_ : statement ∈ program) trail => statement.scans trail) {} []
  have hchars : (program.flatMap Statement.shaded).map Prod.fst = Program.code program := List.map_flatMap
  rwa [hchars, List.append_nil, shadesFrom, List.append_nil] at hscan

end ApiImpact.Program

import ApiImpact.Proofs.Program.Passes

/-!
# Where exports are found in a program

Behind its first letter a statement holds no word by which exports are found. So a pattern for exports finds a
statement where it begins or not at all, and the character behind the word `export` tells which.
-/

namespace ApiImpact.Program

open Text Text.Pattern Script TypeScript

variable {α : Type} {pattern : Pattern} {before text rest piece more : List Char} {c sign : Char} {opener : Char}
  {statement : Statement} {groups : Groups} {m : Match}

/-! ## Quiet code -/

theorem Word.isQuietWord (word : Word) : IsQuietWord word.chars where
  chars := fun _ hc => word.isNameChar hc
  ne := word.ne_export
  no_suffix := word.no_suffix

theorem Word.quiet (word : Word) (hc : Script.isNameChar c = false) (hdot : c ≠ '.') : Quiet (word.chars ++ [c]) :=
  word.isQuietWord.quiet hc hdot

theorem quiet_keyword {word : String} (h : word ∈ ["default", "async", "function", "class", "const", "let", "var", "from"]) :
    Quiet (word.toList ++ [' ']) := by
  have hwords : ∀ word ∈ ["default", "async", "function", "class", "const", "let", "var", "from"],
      (∀ c ∈ word.toList, isNameChar c = true) ∧ word.toList ≠ "export".toList ∧ ¬ "$export".toList <:+ word.toList := by
    decide
  obtain ⟨hchars, hne, hsuffix⟩ := hwords word h
  exact IsQuietWord.quiet ⟨hchars, hne, hsuffix⟩ (by decide) (by decide)

/-- Items between commas are quiet if each of them is before a comma and before what stands behind the last. -/
theorem quiet_commaed {write : α → List Char} (h : ∀ item, ∀ c, c = ',' ∨ c = sign → Quiet (write item ++ [c])) (first : α)
    (items : List α) : Quiet (write first ++ (commaed write items ++ [sign])) := by
  induction items generalizing first with
  | nil => exact h first sign (.inr rfl)
  | cons next items ih =>
      have hblank : Quiet [' '] := quiet_of_forall (by decide)
      have hall := (h first ',' (.inl rfl)).append (hblank.append (ih next))
      rw [commaed_cons]
      simpa using hall

theorem Piece.quiet_code (piece : Piece opener) (hc : Script.isNameChar c = false) (hdot : c ≠ '.') :
    Quiet (piece.code ++ [c]) :=
  piece.quiet c hc hdot

theorem Entry.quiet (entry : Entry) (h : c = ',' ∨ c = ' ') : Quiet (entry.chars ++ [c]) := by
  have hsign : isNameChar c = false ∧ c ≠ '.' := by rcases h with rfl | rfl <;> decide
  rw [Entry.chars]
  cases entry.renamed with
  | none =>
      rw [Option.elim, List.append_nil]
      exact entry.name.quiet hsign.1 hsign.2
  | some word =>
      have has : Quiet "as ".toList := quiet_of_forall (by decide)
      have hall := (entry.name.quiet (by decide : Script.isNameChar ' ' = false) (by decide)).append (has.append (word.quiet hsign.1 hsign.2))
      simpa using hall

theorem Declarator.quiet (declarator : Declarator) (hc : Script.isNameChar c = false) (hdot : c ≠ '.') :
    Quiet (declarator.code ++ [c]) := by
  have hequals : Quiet "= ".toList := quiet_of_forall (by decide)
  have hall := (declarator.name.quiet (by decide : Script.isNameChar ' ' = false) (by decide)).append
    (hequals.append (declarator.value.quiet_code hc hdot))
  rw [Declarator.code]
  simpa using hall

theorem Specifier.quiet (module : Specifier) : Quiet module.code := by
  refine quiet_of_forall fun c hc => ?_
  simp only [Specifier.code, List.mem_cons, List.mem_append, List.mem_flatMap, List.not_mem_nil, or_false] at hc
  have hc : c = '\'' ∨ c = '"' ∨ c = '\n' ∨ c = ' ' := by
    rcases hc with rfl | ⟨d, -, hd⟩ | rfl
    · exact module.isMark.imp id .inl
    · exact .inr (.inr (mem_blankOut hd))
    · exact module.isMark.imp id .inl
  rcases hc with rfl | rfl | rfl | rfl <;> decide

theorem quiet_lineEnd (semicolon : Bool) : Quiet (lineEnd semicolon) := by
  cases semicolon
  · exact quiet_of_forall (by decide)
  · exact quiet_of_forall (by decide)

/-- The end of a line begins with a sign, and the rest of it is quiet. -/
theorem exists_lineEnd (semicolon : Bool) : ∃ c more, lineEnd semicolon = [c] ++ more ∧ isNameChar c = false ∧ c ≠ '.' ∧
    Quiet more := by
  cases semicolon
  · exact ⟨'\n', [], rfl, by decide, by decide, quiet_nil⟩
  · exact ⟨';', ['\n'], rfl, by decide, by decide, quiet_of_forall (by decide)⟩

theorem exists_quiet_exportWords (isDefault : Bool) : ∃ tail, exportWords isDefault = 'e' :: tail ∧ Quiet tail := by
  have hexport : Quiet "xport ".toList := quiet_of_forall (by decide)
  have hdefault : Quiet ("default".toList ++ [' ']) := quiet_keyword (by decide)
  cases isDefault
  · exact ⟨_, rfl, hexport⟩
  · exact ⟨_, rfl, hexport.append hdefault⟩

theorem quiet_asyncWord (isAsync : Bool) : Quiet (asyncWord isAsync) := by
  cases isAsync
  · exact quiet_nil
  · have hasync : Quiet ("async".toList ++ [' ']) := quiet_keyword (by decide)
    exact hasync

theorem Keyword.quiet (keyword : Keyword) : Quiet (keyword.word.toList ++ [' ']) := by
  cases keyword
  · exact quiet_keyword (by decide)
  · exact quiet_keyword (by decide)
  · exact quiet_keyword (by decide)

theorem quiet_listChars (entries : List Entry) : Quiet (listChars entries) := by
  have hopening : Quiet "\x7b ".toList := quiet_of_forall (by decide)
  have hclosing : Quiet "\x7d".toList := quiet_of_forall (by decide)
  have hblank : Quiet [' '] := quiet_of_forall (by decide)
  rw [listChars]
  cases entries with
  | nil => exact hopening.append (hblank.append hclosing)
  | cons entry entries =>
      rw [intercalate_map]
      have hlist : Quiet (entry.chars ++ (commaed Entry.chars entries ++ [' '])) :=
        quiet_commaed (fun entry c hc => entry.quiet hc) entry entries
      have hall := hopening.append (hlist.append hclosing)
      simpa using hall

theorem quiet_fromCode (module : Option Specifier) : Quiet (fromCode module) := by
  cases module with
  | none => exact quiet_nil
  | some module =>
      have hblank : Quiet [' '] := quiet_of_forall (by decide)
      have hfrom : Quiet ("from".toList ++ [' ']) := quiet_keyword (by decide)
      exact (hblank.append hfrom).append module.quiet

theorem quiet_asChars (renamed : Option Word) : Quiet (asChars renamed) := by
  cases renamed with
  | none => exact quiet_nil
  | some word =>
      have has : Quiet "as ".toList := quiet_of_forall (by decide)
      exact has.append (word.quiet (by decide) (by decide))

/-- A statement is quiet behind its first letter. -/
theorem Statement.exists_quiet (statement : Statement) : ∃ tail, statement.code = 'e' :: tail ∧ Quiet tail := by
  have hexport : Quiet "xport ".toList := quiet_of_forall (by decide)
  cases statement with
  | function isDefault isAsync name params =>
      have hname := name.quiet (by decide : Script.isNameChar '(' = false) (by decide)
      have hparams : Quiet (params.code ++ [')']) := params.quiet_code (by decide) (by decide)
      have hfunction : Quiet ("function".toList ++ [' ']) := quiet_keyword (by decide)
      have hclosing : Quiet " \x7b\x7d\n".toList := quiet_of_forall (by decide)
      obtain ⟨head, hhead, hquiet⟩ := exists_quiet_exportWords isDefault
      refine ⟨_, ?_, hquiet.append ((quiet_asyncWord isAsync).append (hfunction.append
        (hname.append (hparams.append hclosing))))⟩
      rw [code_function, hhead]
      simp
  | classType isDefault name members =>
      have hname := name.quiet (by decide : Script.isNameChar ' ' = false) (by decide)
      have hopening : Quiet ['\x7b'] := quiet_of_forall (by decide)
      have hmembers : Quiet (members.code ++ ['\x7d']) := members.quiet_code (by decide) (by decide)
      have hclass : Quiet ("class".toList ++ [' ']) := quiet_keyword (by decide)
      have hclosing : Quiet ['\n'] := quiet_of_forall (by decide)
      obtain ⟨head, hhead, hquiet⟩ := exists_quiet_exportWords isDefault
      refine ⟨_, ?_, hquiet.append (hclass.append (hname.append (hopening.append (hmembers.append hclosing))))⟩
      rw [code_classType, hhead]
      simp
  | bindings keyword first more semicolon =>
      obtain ⟨sign, ending, hend, hsign, hdot, hending⟩ := exists_lineEnd semicolon
      have hvalues : Quiet (first.code ++ (commaed Declarator.code more ++ [sign])) := by
        refine quiet_commaed (fun declarator c hc => ?_) first more
        rcases hc with rfl | rfl
        · exact declarator.quiet (by decide) (by decide)
        · exact declarator.quiet hsign hdot
      have hall := hexport.append (keyword.quiet.append (hvalues.append hending))
      refine ⟨_, ?_, hall⟩
      rw [code_bindings, hend]
      simp
  | defaultName name semicolon =>
      obtain ⟨sign, ending, hend, hsign, hdot, hending⟩ := exists_lineEnd semicolon
      have hdefault : Quiet ("default".toList ++ [' ']) := quiet_keyword (by decide)
      have hall := hexport.append (hdefault.append ((name.quiet hsign hdot).append hending))
      refine ⟨_, ?_, hall⟩
      rw [code_defaultName, hend]
      simp
  | names entries module semicolon =>
      have hall := hexport.append ((quiet_listChars entries).append ((quiet_fromCode module).append (quiet_lineEnd semicolon)))
      refine ⟨_, ?_, hall⟩
      rw [code_names]
      simp
  | star renamed module semicolon =>
      have hstar : Quiet "* ".toList := quiet_of_forall (by decide)
      have hfrom : Quiet ("from".toList ++ [' ']) := quiet_keyword (by decide)
      have hall := hexport.append (hstar.append ((quiet_asChars renamed).append
        (hfrom.append (module.quiet.append (quiet_lineEnd semicolon)))))
      refine ⟨_, ?_, hall⟩
      rw [code_star]
      simp

/-! ## Matches in statements -/

/-- A pattern for exports is not found in code that is quiet behind its first letter, if it does not fit there. -/
theorem findsIn_of_quiet {first : Char} {tail : List Char} (hpattern : pattern ∈ exportPatterns) (hquiet : Quiet tail)
    (h : pattern.matchAt? (.between before (first :: tail ++ rest)) = none) : FindsIn pattern before (first :: tail) rest [] := by
  refine findAllFrom_skip fun front back hsplit hne => ?_
  cases front with
  | nil =>
      obtain rfl : first :: tail = back := hsplit
      rwa [List.append_nil]
  | cons c front =>
      obtain ⟨rfl, htail⟩ := List.cons.inj hsplit
      have hnone := hquiet pattern hpattern (before ++ [first]) front back rest htail hne
      rwa [List.append_assoc] at hnone

/-- The patterns for exports by their own words, and the sign by which each of them goes on. -/
def signedPatterns : List (Pattern × Char) :=
  [(exportDefaultPattern, 'd'), (exportClausePattern, '\x7b'), (exportStarPattern, '*')]

/-- A pattern goes on with its sign behind `export` and blanks. -/
theorem exists_sign_of_fits (hpattern : (pattern, sign) ∈ signedPatterns) (h : pattern.Fits [] before piece rest groups) :
    isBlank sign = false ∧ ∃ blanks more, piece = "export".toList ++ (blanks ++ sign :: more) ∧
      ∀ c ∈ blanks, isBlank c = true := by
  simp only [signedPatterns, List.mem_cons, Prod.mk.injEq, List.not_mem_nil, or_false] at hpattern
  rcases hpattern with ⟨rfl, rfl⟩ | ⟨rfl, rfl⟩ | ⟨rfl, rfl⟩
  · obtain ⟨-, blanks, more, rfl, hblanks, -⟩ := @exists_follower_of_fits _ _ _ _ _ "default" (by simp [followedPatterns]) h
    exact ⟨by decide, blanks, "efault".toList ++ more, rfl, hblanks⟩
  · obtain ⟨-, blanks, more, rfl, hblanks, -⟩ := @exists_follower_of_fits _ _ _ _ _ "\x7b" (by simp [followedPatterns]) h
    exact ⟨by decide, blanks, more, rfl, hblanks⟩
  · obtain ⟨-, blanks, more, rfl, hblanks, -⟩ := @exists_follower_of_fits _ _ _ _ _ "*" (by simp [followedPatterns]) h
    exact ⟨by decide, blanks, more, rfl, hblanks⟩

/-- A pattern does not fit where another sign stands behind the word. -/
theorem matchAt?_eq_none_of_ne (hpattern : (pattern, sign) ∈ signedPatterns) (hne : c ≠ sign) (hc : isBlank c = false) :
    pattern.matchAt? (.between before ("export ".toList ++ c :: rest)) = none := by
  refine matchAt?_eq_none_iff.mpr fun piece after groups he hfits => ?_
  obtain ⟨hsign, blanks, more, rfl, hblanks⟩ := exists_sign_of_fits hpattern hfits
  have hsplit : [' '] ++ c :: rest = blanks ++ sign :: (more ++ after) := by
    have hexport : "export ".toList ++ c :: rest = "export".toList ++ ([' '] ++ c :: rest) := rfl
    rw [hexport, List.append_assoc] at he
    simpa using List.append_cancel_left he
  have hboth := append_inj_of_stop (p := isBlank) (by decide) (by simpa using hc) hblanks (by simpa using hsign) hsplit
  exact hne (List.cons.inj hboth.2).1

theorem not_fits_assigned (hpattern : pattern ∈ assignedPatterns) (he : "export ".toList ++ rest = piece ++ more) :
    ¬ pattern.Fits [] before piece more groups := by
  intro hfits
  have hexport : "export ".toList ++ rest = 'e' :: 'x' :: 'p' :: 'o' :: 'r' :: 't' :: ' ' :: rest := rfl
  rw [hexport] at he
  simp only [assignedPatterns, List.mem_cons, List.not_mem_nil, or_false] at hpattern
  rcases hpattern with rfl | rfl | rfl
  · simp only [moduleExportsPattern, fits_append_assoc, fits_wordEdge_append, fits_literal_append] at hfits
    obtain ⟨-, tail, rfl, -⟩ := hfits
    exact absurd (List.cons.inj he).1 (by decide)
  · simp only [exportsPropertyPattern, exportsObject, fits_append_assoc, fits_wordEdge_append, fits_optional_append,
      fits_literal_append] at hfits
    obtain ⟨-, ⟨_, rfl, -⟩ | ⟨tail, rfl, -⟩⟩ := hfits
    · exact absurd (List.cons.inj he).1 (by decide)
    · have hword : 'e' :: 'x' :: 'p' :: 'o' :: 'r' :: 't' :: ' ' :: rest =
          'e' :: 'x' :: 'p' :: 'o' :: 'r' :: 't' :: 's' :: (tail ++ more) := he
      simp at hword
  · simp only [definePropertyPattern, fits_append_assoc, fits_wordEdge_append, fits_literal_append] at hfits
    obtain ⟨-, tail, rfl, -⟩ := hfits
    exact absurd (List.cons.inj he).1 (by decide)

theorem isBlank_of_isNameChar (h : isNameChar c = true) : isBlank c = false := by
  by_contra hblank
  rw [isNameChar_of_isBlank (by simpa using hblank)] at h
  cases h

theorem tryAt_scriptName {β : Type} {visit : Groups → Place → Option β} {r : β} {name : List Char} (hname : isWritten name = true)
    (hstop : ∀ d ∈ rest.head?, isNameChar d = false) (h : visit groups (.between (before ++ name) rest) = some r) :
    scriptName.tryAt groups visit (.between before (name ++ rest)) = some r := by
  obtain ⟨first, tail, rfl, hfirst, htail⟩ := exists_of_isWritten hname
  exact tryAt_append (tryAt_one hfirst (tryAt_most htail hstop (by simpa using h)))

/-- Where the code ends no pattern for exports fits. -/
theorem matchAt?_nil (hpattern : pattern ∈ exportPatterns) (before : List Char) : pattern.matchAt? (.between before []) = none := by
  refine matchAt?_eq_none_of_signal hpattern fun word sign more hahead _ => ?_
  exact absurd hahead.symm (by simp)

end ApiImpact.Program

import ApiImpact.Proofs.Functions.Written

/-!
# What a script reads of its functions

The parameters are split at their commas and each is read on its own, and the word `async` is looked for in the words before
them. A function is declared at top level, and what begins a line of its body stands inside braces.
-/

namespace ApiImpact.Exported

open Text Text.Pattern Script Script.Source Program
open TypeScript (commaed)

variable {s : Source} {f : Function} {before rest text front blanks : List Char} {c : Char}

/-! ## Parameters -/

theorem beforeAssignment?_of_forall (h : ∀ c ∈ text, c ≠ '=') (depth : Int) (previous : Option Char) :
    beforeAssignment? depth previous text = none := by
  induction text generalizing depth previous with
  | nil => rfl
  | cons c text ih =>
      have hc : ¬ (c = '=' ∧ depth = 0 ∧ isAssignment previous text) := fun hboth => h c List.mem_cons_self hboth.1
      rw [beforeAssignment?, if_neg hc, ih fun d hd => h d (List.mem_cons_of_mem _ hd)]
      rfl

/-- Before a value by default the text up to the sign is taken. -/
theorem beforeAssignment?_append (h : ∀ c ∈ front, c ≠ '=' ∧ bracketStep c = 0) (previous : Option Char) (rest : List Char) :
    beforeAssignment? 0 previous (front ++ (" = ".toList ++ rest)) = some (front ++ [' ']) := by
  induction front generalizing previous with
  | nil => rfl
  | cons c front ih =>
      obtain ⟨hsign, hstep⟩ := h c List.mem_cons_self
      rw [List.cons_append, beforeAssignment?, if_neg (fun hboth => hsign hboth.1), hstep, Int.add_zero,
        ih fun d hd => h d (List.mem_cons_of_mem _ hd)]
      rfl

theorem Identifier.isBlank (identifier : Identifier) : ∀ c ∈ identifier.chars, isBlank c = false :=
  fun c hc => isBlank_of_isNameChar (identifier.isNameChar c hc)

theorem Identifier.ne_nil (identifier : Identifier) : identifier.chars ≠ [] := by
  obtain ⟨c, rest, hchars, -⟩ := exists_of_isWritten identifier.written
  simp [hchars]

theorem Identifier.trimmed (identifier : Identifier) : Trimmed identifier.chars := trimmed_of_forall identifier.isBlank

theorem Identifier.collapse_chars (identifier : Identifier) : collapse identifier.chars = identifier.chars := by
  rw [collapse, words_of_forall identifier.ne_nil identifier.isBlank, List.intercalate_singleton]

theorem Identifier.ne_of_mem {sign : Char} (identifier : Identifier) (hsign : Script.isNameChar sign = false)
    (h : c ∈ identifier.chars) : c ≠ sign :=
  isNameChar_ne (identifier.isNameChar c h) hsign

theorem Param.trimmed (param : Param) : Trimmed param.chars := by
  have hnumber : ∀ c ∈ numberChars, isBlank c = false := by decide
  cases param with
  | plain name => exact name.trimmed
  | withDefault name value =>
      have hvalue : Trimmed value.chars := trimmed_of_forall fun c hc => hnumber c (value.mem c hc)
      exact name.trimmed.append hvalue name.ne_nil value.ne_nil
  | rest name =>
      have hdots : Trimmed "...".toList := trimmed_of_forall (by decide)
      exact @Trimmed.append _ _ [] hdots name.trimmed (by decide) name.ne_nil

theorem Param.ne_nil (param : Param) : param.chars ≠ [] := by
  cases param with
  | plain name => exact name.ne_nil
  | withDefault name value => exact List.append_ne_nil_of_left_ne_nil name.ne_nil _
  | rest name => exact List.append_ne_nil_of_right_ne_nil _ name.ne_nil

/-- No dots stand before a name. -/
theorem Identifier.not_dots (identifier : Identifier) (more : List Char) :
    "...".toList.isPrefixOf (identifier.chars ++ more) = false := by
  obtain ⟨c, rest, hchars, -⟩ := exists_of_isWritten identifier.written
  have hc : c ≠ '.' := identifier.ne_of_mem (by decide) (hchars ▸ List.mem_cons_self)
  refine Bool.eq_false_iff.mpr fun h => hc ?_
  rw [hchars, List.cons_append] at h
  exact (List.cons_prefix_cons.mp (List.isPrefixOf_iff_prefix.mp h)).1.symm

theorem dropLeadingCopies_eq_self {part : List Char} (h : part.isPrefixOf text = false) : dropLeadingCopies part text = text := by
  rw [dropLeadingCopies, h, if_neg Bool.false_ne_true, ite_self]

/-- A parameter is read as what it tells. -/
theorem Param.parameterOf_chars (param : Param) (hblanks : ∀ c ∈ blanks, isBlank c = true) :
    parameterOf (blanks ++ param.chars) = param.told := by
  rw [parameterOf, trim_blanks_append hblanks, param.trimmed.trim_eq]
  cases param with
  | plain name =>
      have hdots := name.not_dots []
      rw [List.append_nil] at hdots
      have hnone := @beforeAssignment?_of_forall name.chars (fun c hc => name.ne_of_mem (by decide) hc) 0 none
      simp only [chars, hdots, dropLeadingCopies_eq_self hdots, hnone, Option.getD_none, Option.isSome_none, name.trimmed.trim_eq,
        name.collapse_chars]
      rfl
  | withDefault name value =>
      have hdots := name.not_dots (" = ".toList ++ value.chars)
      have hbrackets : ∀ sign ∈ ['(', '\x7b', '[', ')', '\x7d', ']'], Script.isNameChar sign = false := by decide
      have hname : ∀ c ∈ name.chars, c ≠ '=' ∧ bracketStep c = 0 := fun c hc => by
        have hnone : c ∉ ['(', '\x7b', '[', ')', '\x7d', ']'] := fun hmem => name.ne_of_mem (hbrackets c hmem) hc rfl
        simp only [List.mem_cons, List.not_mem_nil, or_false, not_or] at hnone
        exact ⟨name.ne_of_mem (by decide) hc, by simp [bracketStep, hnone]⟩
      have hsome := beforeAssignment?_append hname none value.chars
      have htrim : trim (name.chars ++ [' ']) = name.chars := by
        have htrim := @Trimmed.trim_append [] [' '] _ name.trimmed (by simp) (by decide)
        simpa using htrim
      simp only [chars, hdots, dropLeadingCopies_eq_self hdots, hsome, Option.getD_some, Option.isSome_some, htrim, name.collapse_chars]
      rfl
  | rest name =>
      have hdots := name.not_dots []
      rw [List.append_nil] at hdots
      have hnone := @beforeAssignment?_of_forall name.chars (fun c hc => name.ne_of_mem (by decide) hc) 0 none
      have hprefix : "...".toList.isPrefixOf ("...".toList ++ name.chars) = true :=
        List.isPrefixOf_iff_prefix.mpr (List.prefix_append _ _)
      simp only [chars, hprefix, dropLeadingCopies_append (by decide : "...".toList ≠ []) hdots, hnone, Option.getD_none,
        Option.isSome_none, name.trimmed.trim_eq, name.collapse_chars]
      rfl

/-- Outside brackets a list is read piece by piece. -/
theorem parametersOf_eq (h : ∀ c ∈ text, ∀ previous, depthStep previous c = 0) :
    parametersOf text = ((splitAtChars (· == ',') text).filter (!isAllBlank ·)).map parameterOf := by
  rw [parametersOf, splitTopLevel, ← map_snd_piecesOf h, List.filter_map, List.map_map]
  rfl

/-- Each parameter is a piece of the list, with the blank before it. -/
theorem splitAtChars_params (param : Param) (params : List Param) (hblanks : ∀ c ∈ blanks, isBlank c = true) :
    splitAtChars (· == ',') (blanks ++ (param.chars ++ commaed Param.chars params)) =
      (blanks ++ param.chars) :: params.map fun param => [' '] ++ param.chars := by
  have hplain (param : Param) {blanks : List Char} (hblanks : ∀ c ∈ blanks, isBlank c = true) :
      ∀ c ∈ blanks ++ param.chars, (c == ',') = false := by
    refine List.forall_mem_append.mpr ⟨fun c hc => beq_eq_false_iff_ne.mpr ?_, fun c hc => beq_eq_false_iff_ne.mpr ?_⟩
    · rintro rfl
      exact absurd (hblanks _ hc) (by decide)
    · exact ne_of_isParamChar (param.isParamChar c hc) (by decide)
  induction params generalizing param blanks with
  | nil =>
      have hnone : commaed Param.chars [] = [] := rfl
      rw [hnone, List.append_nil, splitAtChars_of_forall (hplain param hblanks)]
      rfl
  | cons next params ih =>
      have hsplit : blanks ++ (param.chars ++ commaed Param.chars (next :: params)) =
          (blanks ++ param.chars) ++ ',' :: ([' '] ++ (next.chars ++ commaed Param.chars params)) := by
        simp [commaed]
      rw [hsplit, splitAtChars_append_cons (hplain param hblanks) (by decide), ih next (by decide)]
      rfl

theorem Param.isAllBlank_chars (param : Param) (blanks : List Char) : isAllBlank (blanks ++ param.chars) = false := by
  obtain ⟨c, rest, hchars⟩ := List.exists_cons_of_ne_nil param.ne_nil
  have hc := param.trimmed.head c (by rw [hchars]; rfl)
  refine Bool.eq_false_iff.mpr fun hall => ?_
  have hblank := List.all_eq_true.mp hall c (by simp [hchars])
  rw [hc] at hblank
  cases hblank

/-- The parameters are read in their order. -/
theorem Function.parametersOf_list (f : Function) : parametersOf f.list = f.params.map Param.told := by
  have hbrackets : ∀ sign ∈ ['(', '\x7b', '[', '<', '>', ')', '\x7d', ']'], Exported.isParamChar sign = false ∧ sign ≠ ',' := by decide
  have hflat : ∀ c ∈ f.list, ∀ previous, depthStep previous c = 0 := fun c hc previous => by
    have hnone : c ∉ ['(', '\x7b', '[', '<', '>', ')', '\x7d', ']'] := fun hmem => ne_of_mem_list hc (hbrackets c hmem) rfl
    simp only [List.mem_cons, List.not_mem_nil, or_false, not_or] at hnone
    simp [depthStep, hnone]
  rw [parametersOf_eq hflat]
  cases hparams : f.params with
  | nil =>
      have hlist : f.list = [] := by simp [list, hparams]
      rw [hlist]
      rfl
  | cons param params =>
      have hsplit := @splitAtChars_params [] param params (by simp)
      rw [List.nil_append, ← list_cons hparams, List.nil_append] at hsplit
      have hkept : ∀ piece ∈ param.chars :: params.map (fun param => [' '] ++ param.chars), (!isAllBlank piece) = true := by
        refine List.forall_mem_cons.mpr ⟨?_, fun piece hpiece => ?_⟩
        · exact congrArg (!·) (param.isAllBlank_chars [])
        · obtain ⟨param, -, rfl⟩ := List.mem_map.mp hpiece
          exact congrArg (!·) (param.isAllBlank_chars [' '])
      have htold : parameterOf param.chars = param.told := @Param.parameterOf_chars [] param (by simp)
      rw [hsplit, List.filter_eq_self.mpr hkept, List.map_cons, htold, List.map_cons, List.map_map]
      exact congrArg (param.told :: ·) (List.map_congr_left fun param _ => param.parameterOf_chars (by decide))

/-! ## Functions -/

/-- Behind the beginning of a line the whole head of the function is looked through. -/
theorem Function.headBehind_head (f : Function) (hbefore : ∀ c ∈ before.getLast?, c = '\n') : headBehind (before ++ f.head) = f.head := by
  have hends : ∀ sign, endsHead sign = true → Script.isNameChar sign = false ∧ sign ≠ ' ' := by
    intro sign hsign
    have hsigns : ∀ sign ∈ ['\n', ';', '=', '('], Script.isNameChar sign = false ∧ sign ≠ ' ' := by decide
    exact hsigns sign (by simpa [endsHead, or_assoc] using hsign)
  have hhead : ∀ c ∈ f.head.reverse, (!endsHead c) = true := fun c hc => by
    by_contra hend
    exact ne_of_mem_head (List.mem_reverse.mp hc) (hends c (by simpa using hend)) rfl
  have hstop : ∀ c ∈ before.reverse.head?, (!endsHead c) = false := by
    rw [List.head?_reverse]
    intro c hc
    rw [hbefore c hc]
    decide
  rw [headBehind, List.reverse_append, takeWhile_append hhead hstop, List.reverse_reverse]

/-- The words before the parameters hold `async` as the function says. -/
theorem Function.contains_async (f : Function) : (words f.head).contains "async".toList = f.isAsync := by
  have hword {word : List Char} (hne : word ≠ []) (hword : ∀ c ∈ word, isBlank c = false) (rest : List Char) :
      words (word ++ ' ' :: rest) = word :: words rest := words_word_append hne hword (by decide)
  have hname : words ("function ".toList ++ f.name.chars) = ["function".toList, f.name.chars] := by
    rw [← words_of_forall f.name.ne_nil f.name.isBlank]
    exact @hword "function".toList (by decide) (by decide) f.name.chars
  have hasync (rest : List Char) : words (asyncWord f.isAsync ++ rest) = (if f.isAsync then ["async".toList] else []) ++ words rest := by
    cases f.isAsync with
    | true => exact @hword "async".toList (by decide) (by decide) rest
    | false => rfl
  have hexport (rest : List Char) : words (exportWords f.isDefault ++ rest) =
      "export".toList :: ((if f.isDefault then ["default".toList] else []) ++ words rest) := by
    cases f.isDefault with
    | true =>
        have hsplit : exportWords true ++ rest = "export".toList ++ ' ' :: ("default".toList ++ ' ' :: rest) := rfl
        rw [hsplit, @hword "export".toList (by decide) (by decide), @hword "default".toList (by decide) (by decide)]
        rfl
    | false => exact @hword "export".toList (by decide) (by decide) rest
  have hne : ¬ ['a', 's', 'y', 'n', 'c'] = f.name.chars := fun h => f.ne_async h.symm
  rw [head, hexport, hasync, hname]
  cases f.isDefault <;> cases f.isAsync <;> simp [hne]

/-- In the source `s` the function stands at the beginning of a line outside all braces. -/
structure Placed (s : Source) (before : List Char) (f : Function) (rest : List Char) : Prop where
  code : s.code = before ++ (f.code ++ rest)
  position : s.position = positionOf s.code
  begins : ∀ c ∈ before.getLast?, c = '\n'
  level : braceDepth before = 0

theorem placed (front : List Function) (f : Function) (back : List Function) :
    Placed (Source.of (code (front ++ f :: back))) (code front) f (code back) where
  code := by rw [Source.of, codeOnly_code, code_append, code_cons]
  position := by rw [Source.of, codeOnly_code]
  begins := getLast?_code front
  level := braceDepth_code front

namespace Function

/-- What the pattern for declarations takes of the function. -/
def words (f : Function) : DeclarationWords :=
  headWords f.isDefault f.isAsync List.mem_cons_self f.name.written

theorem chars_words (f : Function) : f.words.chars = f.head := chars_headWords

/-- Each line of a function but the first begins inside braces. -/
theorem braceDepth_pos (f : Function) {front piece back : List Char}
    (h : f.tail = front ++ (piece ++ back)) (hne : piece ≠ [])
    (hlast : ∀ c ∈ front.getLast?, c = '\n') (hfront : front ≠ []) : 0 < braceDepth front := by
  have hmem : '\n' ∈ front := by
    have hsome := List.getLast?_eq_some_getLast hfront
    rw [← hlast _ hsome]
    exact List.getLast_mem hfront
  rcases List.append_eq_append_iff.mp h with ⟨front, rfl, hbody⟩ | ⟨between, hlist, -⟩
  · rw [braceDepth_append, f.braceDepth_opening]
    have hdepth : 0 ≤ braceDepth front := by
      rcases List.append_eq_append_iff.mp hbody with ⟨sign, rfl, hsign⟩ | ⟨between, hprefix, -⟩
      · -- the closing brace ends no line, and nothing stands behind the last line break
        have hclosing : sign ++ (piece ++ back) = ['\x7d', '\n'] := hsign.symm
        rcases List.append_eq_cons_iff.mp hclosing with ⟨rfl, -⟩ | ⟨sign, rfl, hbreak⟩
        · rw [List.append_nil, f.body.balanced]
        · rcases List.append_eq_cons_iff.mp hbreak.symm with ⟨rfl, -⟩ | ⟨sign, rfl, hnil⟩
          · rw [← List.append_assoc, List.getLast?_concat] at hlast
            exact absurd (hlast '\x7d' rfl) (by decide)
          · exact absurd (List.append_eq_nil_iff.mp (List.append_eq_nil_iff.mp hnil.symm).2).1 hne
      · exact f.body.nested front ⟨between, hprefix.symm⟩
    omega
  · exact absurd (List.mem_append_right f.head (hlist ▸ List.mem_append_left between hmem)) f.newline_notMem

end Function

/-- At a function its words are found, and nothing else that counts. -/
theorem exists_findsIn (h : Placed s before f rest) : ∃ found, FindsIn declarationPattern before f.code rest
    (headMatch before f.isDefault f.isAsync List.mem_cons_self f.name.written :: found) ∧
      ∀ m ∈ found, ∀ surface, takeMatch s surface m = .ok surface := by
  have hends : ∀ c ∈ f.tail.getLast?, c = '\n' := by
    obtain ⟨line, hline⟩ := f.exists_line
    have hcode : ∀ c ∈ f.code.getLast?, c = '\n' := by
      rw [hline, List.getLast?_concat]
      simp
    exact getLast?_of_append hcode
  have hparen : ∀ c ∈ (f.tail ++ rest).head?, Script.isNameChar c = false := by
    rintro c ⟨⟩
    decide
  obtain ⟨found, hfound, hall⟩ := @exists_findsIn_words before rest _ f.isDefault f.isAsync "function" List.mem_cons_self f.name.chars
    f.name.written h.begins hends hparen
  have hchars : (headWords f.isDefault f.isAsync List.mem_cons_self f.name.written).chars = f.head := f.chars_words
  rw [hchars] at hfound hall
  refine ⟨found, hfound, fun m hm surface => ?_⟩
  obtain ⟨front, piece, back, hsplit, hfits, hspan⟩ := hall m hm
  obtain ⟨hbegins, d, rfl, -⟩ := exists_of_fits_declaration hfits
  have hcode : s.code = (before ++ (f.head ++ front)) ++ (d.chars ++ (back ++ rest)) := by
    rw [h.code, Function.code, hsplit]
    simp only [List.append_assoc]
  have hhead : f.head ≠ [] := List.append_ne_nil_of_left_ne_nil (List.append_ne_nil_of_left_ne_nil (by decide) _) _
  have hlast : ∀ c ∈ (f.head ++ front).getLast?, c = '\n' := getLast?_of_append hbegins
  have hne : front ≠ [] := by
    rintro rfl
    rw [List.append_nil] at hlast
    have hsome := List.getLast?_eq_some_getLast hhead
    exact Function.ne_of_mem_head (List.getLast_mem hhead) (by decide) (hlast _ hsome)
  have hdepth : 0 < braceDepth (before ++ (f.head ++ front)) := by
    rw [braceDepth_append, h.level, braceDepth_append, f.braceDepth_head, Int.zero_add, Int.zero_add]
    exact f.braceDepth_pos hsplit d.chars_ne_nil (getLast?_of_append hlast) hne
  exact takeMatch_nested (fun offset => congrArg Position.line (congrFun h.position offset)) hcode hfits hspan (Int.ne_of_gt hdepth)
    surface

/-! ## The pass over declarations -/

/-- The function is read with its parameters and the word before it. -/
theorem Placed.functionAt? (h : Placed s before f rest) : ∃ stop, s.functionAt? (byteLength (before ++ f.head)) =
    .ok (some ({ params := f.params.map Param.told, isAsync := f.isAsync }, stop)) := by
  have hcode : s.code = (before ++ f.head) ++ ([] ++ '(' :: (f.list ++ ')' :: (" \x7b".toList ++ (f.body.chars ++ "\x7d\n".toList) ++ rest))) := by
    rw [h.code, Function.code, Function.tail, Function.opening]
    simp
  have hparens : ∀ c ∈ f.list, c ≠ '(' ∧ c ≠ ')' := fun c hc =>
    ⟨Function.ne_of_mem_list hc (by decide), Function.ne_of_mem_list hc (by decide)⟩
  have hfound := functionAt?_eq (List.forall_mem_nil _) hcode fun start => closeFrom_append (by decide) hparens start _
  rw [List.append_nil, f.parametersOf_list, f.headBehind_head h.begins, f.contains_async] at hfound
  exact ⟨_, hfound⟩

/-- A function is published and exported as itself. -/
theorem Placed.addDeclaration (h : Placed s before f rest) (surface : Collection) : ∃ declared : Local,
    unsigned { declared.symbol with exported := true } = f.symbol (1 + before.count '\n') ∧
      s.addDeclaration surface (f.words.head before) = .ok { (surface.publish declared.symbol).addExport
        (f.entry (1 + before.count '\n')) with locals := surface.locals ++ [declared] } := by
  have hline (offset : Nat) : s.lineOf offset = (positionOf s.code offset).line :=
    congrArg Position.line (congrFun h.position offset)
  have hstart : (f.words.head before).start = byteLength before := by
    rw [DeclarationWords.head]
    exact congrArg byteLength (List.append_nil before)
  have hstartLine : s.lineOf (byteLength before) = 1 + before.count '\n' := by
    rw [hline, h.code, line_positionOf]
  have hcolumn : s.columnOf (byteLength before) = 0 := by
    rw [Source.columnOf, h.position, h.code, column_positionOf h.begins]
  have htop : s.isTopLevel (f.words.head before).start = true := by
    have heq := @isTopLevel_eq s _ before [] hline h.code h.begins List.not_mem_nil
    rw [List.append_nil] at heq
    rw [hstart, heq, h.level]
    rfl
  have hname : (f.words.head before).name ≠ "extends" := fun heq => f.ne_extends (String.ofList_injective heq)
  obtain ⟨stop, hfound⟩ := h.functionAt?
  rw [← f.chars_words] at hfound
  have hdeclaration := @declarationAt?_function s (f.words.head before) _ _ rfl hfound
  have hskip : (!s.isTopLevel (f.words.head before).start || (f.words.head before).name == "extends") = false := by
    simp [htop, hname]
  have hwords : ∀ isDefault, (!(if isDefault then "default ".toList else []).isEmpty) = isDefault := by decide
  have hdefault : (f.words.head before).isDefault = f.isDefault := hwords f.isDefault
  rw [hstart] at hdeclaration
  refine ⟨s.functionLocal (byteLength before) f.name.name { params := f.params.map Param.told, isAsync := f.isAsync } stop, ?_, ?_⟩
  · rw [functionLocal, symbolAt, hstartLine, hcolumn]
    rfl
  · have hexported : (f.words.head before).exported = true := rfl
    rw [Source.addDeclaration, hskip, if_neg Bool.false_ne_true, bind_eq_of_ok hdeclaration, hstart, hstartLine]
    dsimp only
    rw [if_pos hexported, hdefault]
    rfl

/-- The matches at a function take it into what is found of the functions before it. -/
theorem exists_step {front back : List Function} (hdistinct : AreDistinct (front ++ f :: back)) {surface : Collection}
    (hsurface : Recovers surface.snapshot front) : ∃ next : Collection, Recovers next.snapshot (front ++ [f]) ∧
      (declarationPattern.findAllFrom (.between (code front) (code (f :: back)))).foldlM
          (takeMatch (Source.of (code (front ++ f :: back)))) surface =
        (declarationPattern.findAllFrom (.between (code (front ++ [f])) (code back))).foldlM
          (takeMatch (Source.of (code (front ++ f :: back)))) next := by
  have hplaced := placed front f back
  obtain ⟨found, hfound, hnested⟩ := exists_findsIn hplaced
  obtain ⟨declared, hdeclared, hadds⟩ := hplaced.addDeclaration surface
  have hsplit : (Source.of (code (front ++ f :: back))).code = code front ++ (f.words.chars ++ (f.tail ++ code back)) := by
    rw [hplaced.code, f.chars_words, Function.code, List.append_assoc]
  have hhead : (Source.of (code (front ++ f :: back))).declarationHead?
      (headMatch (code front) f.isDefault f.isAsync List.mem_cons_self f.name.written) = some (f.words.head (code front)) :=
    (isMarked_headMatch (code front)).declarationHead? rfl hsplit
  have hnext : code (front ++ [f]) = code front ++ f.code := by rw [code_append, code_singleton]
  obtain ⟨hname, hsingle⟩ := hdistinct.separate
  refine ⟨{ (surface.publish declared.symbol).addExport (f.entry (1 + (code front).count '\n')) with
    locals := surface.locals ++ [declared] }, hsurface.concat hname hsingle hdeclared, ?_⟩
  rw [FindsIn, ← hnext, ← code_cons] at hfound
  rw [hfound, List.foldlM_append, List.foldlM_cons, takeMatch_eq hhead, bind_eq_of_ok hadds, bind_eq_of_ok (foldlM_of_forall hnested _)]

/-- Behind the last function nothing is declared. -/
theorem findAllFrom_code_nil (before : List Char) : declarationPattern.findAllFrom (.between before (code [])) = [] := by
  refine findAllFrom_of_none_nil (matchAt?_eq_none_iff.mpr fun piece after groups he hfits => ?_)
  obtain ⟨rfl, -⟩ := List.append_eq_nil_iff.mp he.symm
  exact not_fits_declaration_nil hfits

theorem succeeds_addDeclarations {functions : List Function} (hdistinct : AreDistinct functions) {surface : Collection}
    (hsurface : Recovers surface.snapshot []) :
    Succeeds (fun found => Recovers found.snapshot functions) ((Source.of (code functions)).addDeclarations surface) := by
  -- the induction is on the functions that are left; those before are found already
  have hall : ∀ back front, functions = front ++ back → ∀ surface : Collection, Recovers surface.snapshot front →
      Succeeds (fun found => Recovers found.snapshot functions)
        ((declarationPattern.findAllFrom (.between (code front) (code back))).foldlM (takeMatch (Source.of (code functions))) surface) := by
    intro back
    induction back with
    | nil =>
        intro front hfunctions surface hsurface
        rw [List.append_nil] at hfunctions
        rw [findAllFrom_code_nil, hfunctions]
        exact succeeds_pure hsurface
    | cons f back ih =>
        rintro front rfl surface hsurface
        obtain ⟨next, hnext, hstep⟩ := exists_step hdistinct hsurface
        rw [hstep]
        exact ih (front ++ [f]) (by simp) next hnext
  rw [addDeclarations_eq, source_code]
  exact hall functions [] rfl surface hsurface

end ApiImpact.Exported

import ApiImpact.Proofs.Program.Clauses
import ApiImpact.Proofs.Program.Heads
import ApiImpact.Proofs.Script.BreakOff

/-!
# What a script takes in of the declarations of a program

A script takes in the first name that a statement declares, and makes it known as the statement does. What it finds on
a later line of a statement stands inside braces and is passed over.
-/

namespace ApiImpact.Program

open Text Text.Pattern Script Script.Source TypeScript

variable {s : Source} {before rest front piece back more indent : List Char} {statement : Statement} {m : Match}
  {program : List Statement} {isDefault isAsync : Bool} {keyword : String} {hkeyword : keyword ∈ "function" :: plainKeywords}
  {word : List Char} {hname : isWritten word = true} {kind : SymbolKind} {start : Nat}

/-! ## Matches -/

/-- What is done at a match: the declaration is taken in. -/
def takeMatch (s : Source) (surface : Collection) (m : Match) : Except InsideCharacter Collection :=
  match s.declarationHead? m with
  | some head => s.addDeclaration surface head
  | none => pure surface

theorem addDeclarations_eq (s : Source) :
    s.addDeclarations = fun surface => (declarationPattern.findAll s.code).foldlM (takeMatch s) surface := by
  funext surface
  rw [Source.addDeclarations, List.foldlM_filterMap]
  congr
  funext surface m
  rw [takeMatch]
  cases s.declarationHead? m <;> rfl

theorem takeMatch_eq {head : DeclarationHead} (h : s.declarationHead? m = some head) (surface : Collection) :
    takeMatch s surface m = s.addDeclaration surface head := by
  rw [takeMatch, h]

/-- A line is at top level if the braces before it are closed. -/
theorem isTopLevel_eq (hline : ∀ offset, s.lineOf offset = (positionOf s.code offset).line)
    (hcode : s.code = front ++ (indent ++ rest)) (hfront : ∀ c ∈ front.getLast?, c = '\n') (hindent : '\n' ∉ indent) :
    s.isTopLevel (byteLength (front ++ indent)) = (braceDepth front == 0) := by
  have hlines : s.lineOf (byteLength (front ++ indent)) - 1 = front.count '\n' := by
    rw [hline, hcode, ← List.append_assoc, line_positionOf, Nat.add_sub_cancel_left, List.count_append,
      List.count_eq_zero.mpr hindent, Nat.add_zero]
  rw [Source.isTopLevel, hlines, hcode, getElem?_lineDepths hfront]
  rfl

/-- What begins a line inside braces is passed over. -/
theorem takeMatch_nested (hline : ∀ offset, s.lineOf offset = (positionOf s.code offset).line) (hcode : s.code = front ++ (piece ++ back))
    (hfits : declarationPattern.Fits [] front piece back m.groups)
    (hspan : m.span = ⟨byteLength front, byteLength (front ++ piece)⟩) (hdepth : braceDepth front ≠ 0) (surface : Collection) :
    takeMatch s surface m = .ok surface := by
  obtain ⟨hbegins, d, rfl, hmarked⟩ := exists_of_fits_declaration hfits
  have hindent : '\n' ∉ d.indent := fun hmem => absurd (d.indent_gap _ hmem) (by decide)
  have hindented : s.code = front ++ (d.indent ++ (d.exporting ++ (d.defaulting ++ (d.modifier ++ (d.keyword.toList ++
      (d.behind ++ d.name)))) ++ back)) := by
    rw [hcode, d.chars_eq, List.append_assoc d.indent]
  have htop : s.isTopLevel (d.head front).start = false := by
    have heq := isTopLevel_eq hline hindented hbegins hindent
    rw [show (d.head front).start = byteLength (front ++ d.indent) from rfl, heq]
    exact beq_eq_false_iff_ne.mpr hdepth
  rw [takeMatch_eq (hmarked.declarationHead? hspan hcode), Source.addDeclaration, htop]
  rfl

/-- What begins a later line of a statement is passed over. -/
theorem takeMatch_later (h : Stands s before statement rest) (hcode : statement.code = front ++ (piece ++ back)) (hne : front ≠ [])
    (hfits : declarationPattern.Fits [] (before ++ front) piece (back ++ rest) m.groups)
    (hspan : m.span = ⟨byteLength (before ++ front), byteLength (before ++ front ++ piece)⟩) (surface : Collection) :
    takeMatch s surface m = .ok surface := by
  obtain ⟨hbegins, d, rfl, -⟩ := exists_of_fits_declaration hfits
  have hsplit : s.code = (before ++ front) ++ (d.chars ++ (back ++ rest)) := by
    rw [h.code, hcode]
    simp only [List.append_assoc]
  have hlast : front.getLast? = some '\n' := by
    have hsome := List.getLast?_eq_some_getLast hne
    rw [List.getLast?_append_of_ne_nil _ hne] at hbegins
    rw [hsome, hbegins _ hsome]
  have hword : d.chars ++ back ≠ [] := List.append_ne_nil_of_left_ne_nil d.chars_ne_nil back
  have hdepth : 0 < braceDepth (before ++ front) := by
    rw [braceDepth_append, h.level, Int.zero_add]
    exact statement.braceDepth_pos hcode hword hlast
  exact takeMatch_nested h.line hsplit hfits hspan (Int.ne_of_gt hdepth) surface

theorem getLast?_code (statement : Statement) : ∀ c ∈ statement.code.getLast?, c = '\n' := by
  obtain ⟨line, hline, -⟩ := statement.exists_line
  rw [hline, List.getLast?_concat]
  simp

/-- A statement without a head is passed over. -/
theorem exists_findsIn (h : Stands s before statement rest)
    (hnone : declarationPattern.matchAt? (.between before (statement.code ++ rest)) = none) : ∃ found,
      FindsIn declarationPattern before statement.code rest found ∧ ∀ m ∈ found, ∀ surface, takeMatch s surface m = .ok surface := by
  obtain ⟨found, hfound, hall⟩ := exists_findAllFrom_append (fun _ _ _ => not_fits_declaration_nil)
    newline_notMem_of_fits (getLast?_code statement) before
  refine ⟨found, hfound, fun m hm surface => ?_⟩
  obtain ⟨front, piece, back, hcode, hfits, hspan⟩ := hall m hm
  refine takeMatch_later h hcode ?_ hfits hspan surface
  rintro rfl
  rw [List.append_nil] at hfits
  exact matchAt?_eq_none_iff.mp hnone piece (back ++ rest) m.groups (by rw [hcode]; simp) hfits

theorem foldlM_eq_self {σ : Type} {found : List σ} {step : Collection → σ → Except InsideCharacter Collection} {surface : Collection}
    (h : ∀ m ∈ found, step surface m = .ok surface) : found.foldlM step surface = .ok surface := by
  induction found with
  | nil => rfl
  | cons m found ih =>
      rw [List.foldlM_cons, bind_eq_of_ok (h m List.mem_cons_self)]
      exact ih fun m' hm' => h m' (List.mem_cons_of_mem _ hm')

theorem foldlM_of_forall {found : List Match} {step : Collection → Match → Except InsideCharacter Collection}
    (h : ∀ m ∈ found, ∀ surface, step surface m = .ok surface) (surface : Collection) : found.foldlM step surface = .ok surface :=
  foldlM_eq_self fun m hm => h m hm surface

section

variable {text rest front : List Char} {start offset : Nat}

/-- The text behind the last sign at which the head of a function begins. -/
def headBehind (text : List Char) : List Char := (text.reverse.takeWhile (!endsHead ·)).reverse

/-- A function is read from its head, behind which its parameters open. -/
theorem functionAt?_eq {head : List Char} (hhead : ∀ c ∈ head, c ≠ '(' ∧ isFunctionHead c = true)
    (h : s.code = front ++ (head ++ '(' :: (text ++ ')' :: rest)))
    (hclosed : ∀ start, closeFrom '(' ')' 1 start (text ++ ')' :: rest) = some (start + byteLength text)) :
    s.functionAt? (byteLength front) = .ok (some (
      { params := parametersOf text, isAsync := (words (headBehind (front ++ head))).contains "async".toList },
      byteLength (front ++ head ++ '(' :: text) + 1)) := by
  have hfront : s.code = (front ++ head) ++ '(' :: (text ++ ')' :: rest) := by rw [h, List.append_assoc]
  have htake : (head ++ '(' :: (text ++ ')' :: rest)).takeWhile (· != '(') = head :=
    takeWhile_append (fun c hc => by simp [(hhead c hc).1]) (by simp)
  have hguard : ¬ (head.length = (head ++ '(' :: (text ++ ')' :: rest)).length ∨ (!head.all isFunctionHead) = true) := by
    have hall : head.all isFunctionHead = true := List.all_eq_true.mpr fun c hc => (hhead c hc).2
    simp [hall]
  have hclose := @matchingClose?_of_closeFrom '(' ')' text (front ++ head) rest rfl (hclosed (byteLength (front ++ head ++ ['('])))
  unfold functionAt?
  rw [bind_eq_of_ok (codeFrom_byteLength h)]
  dsimp only
  rw [htake, if_neg hguard, ← byteLength_append, hfront, hclose]
  dsimp only
  rw [bind_eq_of_ok (codeBetween_bracket hfront rfl), bind_eq_of_ok (codeBetween_zero hfront)]
  rfl

theorem exists_of_classAt (s : Source) (start : Nat) (name : String) (head : Nat) :
    Gives (fun found => ∃ stop shape, found =
      ⟨s.symbolAt name .classType start (s.signature start stop) (.classType shape), .classType⟩) (s.classAt start name head) := by
  unfold classAt
  refine gives_bind fun rest _ => ?_
  extract_lets body stop next
  have hnext (shape : ClassShape) : Gives (fun found => ∃ stop shape, found =
      ⟨s.symbolAt name .classType start (s.signature start stop) (.classType shape), .classType⟩) (next shape) :=
    gives_pure ⟨stop, shape, rfl⟩
  cases body with
  | none => exact gives_bind fun shape _ => hnext shape
  | some body => exact gives_bind fun shape _ => hnext shape

theorem declared_classAt (s : Source) (start : Nat) (name : String) (head : Nat) :
    Gives (fun found => found.symbol.declared = (.classType, name)) (s.classAt start name head) := by
  intro found hfound
  obtain ⟨stop, shape, rfl⟩ := exists_of_classAt s start name head found hfound
  rfl

/-- A variable is read by the shape of its value. -/
theorem bindingAt_of_shape {c : Char} {shape : ValueShape} (h : s.code = front ++ (" = ".toList ++ c :: rest)) (hc : isBlank c = false)
    (start : Nat) (name keyword : String) : s.valueShapeAt (byteLength (front ++ " = ".toList)) = .ok shape →
    s.bindingAt start name (byteLength front) keyword = match shape with
      | .function => do
        match ← s.anyFunctionAt? (byteLength (front ++ " = ".toList)) with
        | some (shape, stop) => return s.functionLocal start name shape stop
        | none => return s.variableLocal start name s!"{keyword} {name}" .binding
      | .classType => do
        let found ← s.classAt (byteLength (front ++ " = ".toList)) name (byteLength (front ++ " = ".toList) + "class".length)
        return { found with symbol := { found.symbol with line := s.lineOf start, column := s.columnOf start } }
      | .object => .ok (s.variableLocal start name s!"{keyword} {name}" .object)
      | .other => .ok (s.variableLocal start name s!"{keyword} {name}" .binding) := by
  intro hshape
  have hblank : s.code = (front ++ [' ']) ++ ('=' :: ' ' :: c :: rest) := by simp [h]
  have hsign : s.skipBlanks (byteLength front) = .ok (byteLength (front ++ [' '])) := skipBlanks_byteLength h
  have hequals : s.code = (front ++ " =".toList) ++ (' ' :: c :: rest) := by simp [h]
  have hlength : byteLength (front ++ [' ']) + 1 = byteLength (front ++ " =".toList) := by
    rw [byteLength_append, byteLength_append]
    rfl
  have hvalue : s.skipBlanks (byteLength (front ++ [' ']) + 1) = .ok (byteLength (front ++ " = ".toList)) := by
    rw [hlength, skipBlanks_blank hc hequals, List.append_assoc]
    rfl
  have htrue : (!("=".toList.isPrefixOf ('=' :: ' ' :: c :: rest) && !"==".toList.isPrefixOf ('=' :: ' ' :: c :: rest))) = false := rfl
  unfold bindingAt
  rw [bind_eq_of_ok hsign, bind_eq_of_ok (hasAt_byteLength hblank "="), bind_eq_of_ok (hasAt_byteLength hblank "=="),
    bind_eq_of_ok hvalue]
  dsimp only
  rw [htrue, if_neg Bool.false_ne_true, bind_eq_of_ok hshape]
  cases shape <;> rfl

theorem declarationAt?_function {head : DeclarationHead} {shape : FunctionShape} {stop : Nat} (hkeyword : head.keyword = "function")
    (hfound : s.functionAt? head.afterName = .ok (some (shape, stop))) :
    s.declarationAt? head = .ok (some (s.functionLocal head.start head.name shape stop)) := by
  unfold declarationAt?
  split
  · rw [bind_eq_of_ok hfound]
    rfl
  · rename_i hclass
    exact absurd (hkeyword.symm.trans hclass) (by decide)
  · rename_i hfunction _
    exact absurd hkeyword hfunction

theorem declarationAt?_class {head : DeclarationHead} {declared : Local} (hkeyword : head.keyword = "class")
    (hfound : s.classAt head.start head.name head.afterName = .ok declared) : s.declarationAt? head = .ok (some declared) := by
  unfold declarationAt?
  split
  · rename_i hfunction
    exact absurd (hkeyword.symm.trans hfunction) (by decide)
  · exact bind_eq_ok_iff.mpr ⟨declared, hfound, rfl⟩
  · rename_i hclass
    exact absurd hkeyword hclass

theorem declarationAt?_binding {head : DeclarationHead} {declared : Local} (hkeyword : head.keyword ∈ ["const", "let", "var"])
    (hfound : s.bindingAt head.start head.name head.afterName head.keyword = .ok declared) :
    s.declarationAt? head = .ok (some declared) := by
  unfold declarationAt?
  split
  · rename_i hfunction
    rw [hfunction] at hkeyword
    exact absurd hkeyword (by decide)
  · rename_i hclass
    rw [hclass] at hkeyword
    exact absurd hkeyword (by decide)
  · exact bind_eq_ok_iff.mpr ⟨declared, hfound, rfl⟩

end

/-! ## The pass over declarations -/

theorem Keyword.mem_keywords (keyword : Keyword) : keyword.word ∈ "function" :: plainKeywords ∧ keyword.word ∈ ["const", "let", "var"] := by
  cases keyword <;> decide

end ApiImpact.Program

import ApiImpact.Proofs.Script.Shown

/-!
# Constants that are bound to calls

What a constant is taken for is told by the text of its value. If the name of what is called begins with the word `function`, also
behind `async`, then the arguments are taken for the parameters of a function, and a name that begins with `class$` is taken for a
class. Any other call makes a variable.
-/

namespace ApiImpact.Called

open Text Lexical Script Script.Source Assigned
open Program (isWritten exists_of_isWritten headWords chars_headWords headBehind functionAt?_eq bindingAt_of_shape declarationAt?_binding exists_of_classAt)

/-! ## Calls as they are written -/

/-- An identifier. No word is reserved. -/
structure Name where
  chars : List Char
  written : isWritten chars = true
  isPart : ∀ c ∈ chars, isIdentifierChar c = true

namespace Name

variable (name : Name)

def text : String := .ofList name.chars

theorem ne_nil : name.chars ≠ [] := by
  obtain ⟨c, rest, hcons, -⟩ := exists_of_isWritten name.written
  simp [hcons]

def item : Item := .word name.chars name.ne_nil name.isPart

/-- The word `function` begins it, perhaps behind the word `async`. -/
def BeginsFunction : Prop := "function".toList <+: name.chars ∨ "asyncfunction".toList <+: name.chars

/-- It is the word `class`, or begins with this word and a dollar sign. -/
def BeginsClass : Prop := name.chars = "class".toList ∨ "class$".toList <+: name.chars

instance : Decidable name.BeginsFunction := inferInstanceAs (Decidable (_ ∨ _))

instance : Decidable name.BeginsClass := inferInstanceAs (Decidable (_ ∨ _))

/-- What a constant is taken for that is bound to a call of this name. -/
def seen : SymbolKind := if name.BeginsFunction then .function else if name.BeginsClass then .classType else .binding

end Name

/-- `export const name = callee(arguments);` -/
structure Call where
  name : Name
  callee : Name
  arguments : List Item
  balanced : IsBalanced (code arguments)
  ne_extends : name.chars ≠ "extends".toList

namespace Call

variable (call : Call)

/-- The statement up to the arguments. -/
def opening : List Item :=
  [exportItem, spaceItem, .word "const".toList (by decide) (by decide), spaceItem, call.name.item, spaceItem, equalsItem, spaceItem,
    call.callee.item, listStart]

def items : List Item := call.opening ++ (call.arguments ++ [listEnd, semicolonItem])

/-- What the symbol tells that the constant makes on `line`. -/
structure IsTold (line : Nat) (symbol : Symbol) : Prop where
  name : symbol.qualifiedName = call.name.text
  line : symbol.line = line
  kind : symbol.kind = call.callee.seen
  function : call.callee.seen = .function → symbol.shape = .function { params := parametersOf (code call.arguments) }
  binding : call.callee.seen = .binding → symbol.shape = .binding none

end Call

variable {s : Source} {name : Name} {call : Call} {front rest list : List Char} {c : Char} {start : Nat}

/-! ## The name of what is called -/

theorem Name.exists_cons (name : Name) : ∃ c rest, name.chars = c :: rest ∧ isBlank c = false ∧ c ≠ '\x7b' := by
  obtain ⟨c, rest, hcons⟩ := List.exists_cons_of_ne_nil name.ne_nil
  have hpart := name.isPart c (hcons ▸ List.mem_cons_self)
  refine ⟨c, rest, hcons, isBlank_of_isIdentifierChar hpart, ?_⟩
  rintro rfl
  exact absurd hpart (by decide)

theorem Name.ne_of_mem {sign : Char} (hsign : isIdentifierChar sign = false) (h : c ∈ name.chars) : c ≠ sign := by
  rintro rfl
  rw [name.isPart c h] at hsign
  cases hsign

/-- A word that stands before the parenthesis begins the name. -/
theorem prefix_append_iff {word text : List Char} (hword : '(' ∉ word) (rest : List Char) : word <+: text ++ '(' :: rest ↔ word <+: text := by
  refine ⟨fun h => ?_, fun h => h.trans (List.prefix_append _ _)⟩
  rcases List.prefix_or_prefix_of_prefix h (List.prefix_append text _) with hprefix | ⟨more, rfl⟩
  · exact hprefix
  · rw [List.prefix_append_right_inj] at h
    cases more with
    | nil => exact (List.append_nil text).symm ▸ List.prefix_refl text
    | cons d more =>
        obtain rfl := (List.cons_prefix_cons.mp h).1
        exact absurd (List.mem_append_right text List.mem_cons_self) hword

/-- The code of a call behind the word `async`, if that begins the name. -/
theorem exists_skipAsync_call (name : Name) (rest : List Char) : ∃ tail, skipAsync (name.chars ++ '(' :: rest) = tail ++ '(' :: rest ∧
    (∀ c ∈ tail, isIdentifierChar c = true) ∧ (tail = [] ↔ name.chars = "async".toList) ∧
      ("function".toList <+: tail ↔ name.BeginsFunction) := by
  have hwords : '(' ∉ "async".toList := by decide
  rcases skipAsync_eq (name.chars ++ '(' :: rest) with ⟨heq, hno⟩ | ⟨tail, hcode, heq⟩
  · have hasync : ¬ "async".toList <+: name.chars := by
      rw [← prefix_append_iff hwords rest, ← List.isPrefixOf_iff_prefix, hno]
      exact Bool.false_ne_true
    refine ⟨name.chars, heq, name.isPart, ?_, ?_⟩
    · exact iff_of_false name.ne_nil fun h => hasync (h ▸ List.prefix_refl _)
    · have hbehind : ¬ "asyncfunction".toList <+: name.chars := fun h => hasync ((List.prefix_append "async".toList "function".toList).trans h)
      simp only [Name.BeginsFunction, hbehind, or_false]
  · have hasync : "async".toList <+: name.chars := (prefix_append_iff hwords rest).mp ⟨tail, hcode.symm⟩
    obtain ⟨more, hname⟩ := hasync
    rw [← hname, List.append_assoc] at hcode
    obtain rfl := List.append_cancel_left hcode
    have hmore : ∀ c ∈ more, isIdentifierChar c = true := fun c hc => name.isPart c (hname ▸ List.mem_append_right _ hc)
    have hdrop : (more ++ '(' :: rest).dropWhile isBlank = more ++ '(' :: rest := by
      refine @dropWhile_append isBlank [] _ (by simp) ?_
      cases more with
      | nil =>
          rintro _ ⟨⟩
          decide
      | cons d more =>
          rintro _ ⟨⟩
          exact isBlank_of_isIdentifierChar (hmore d List.mem_cons_self)
    rw [heq, hdrop]
    refine ⟨more, rfl, hmore, ?_, ?_⟩
    · rw [← hname]
      simp
    · have hplain : ¬ "function".toList <+: name.chars := by
        rw [← hname]
        exact fun h => absurd (List.cons_prefix_cons.mp h).1 (by decide)
      have hbehind : "asyncfunction".toList <+: name.chars ↔ "function".toList <+: more := by
        rw [← hname]
        exact List.prefix_append_right_inj "async".toList
      simp only [Name.BeginsFunction, hplain, hbehind, false_or]

theorem isClass_call (name : Name) (rest : List Char) :
    ("class".toList.isPrefixOf (name.chars ++ '(' :: rest) &&
      !((name.chars ++ '(' :: rest)[5]?.any fun c => isAlphanumeric c || c == '_')) = decide name.BeginsClass := by
  have hwords : '(' ∉ "class".toList := by decide
  by_cases h : "class".toList <+: name.chars
  · obtain ⟨more, hname⟩ := h
    rw [← hname, List.append_assoc, List.isPrefixOf_iff_prefix.mpr (List.prefix_append _ _), Bool.true_and]
    have hsix : ("class".toList ++ (more ++ '(' :: rest))[5]? = (more ++ '(' :: rest).head? := by
      rw [List.getElem?_append_right (by decide), List.head?_eq_getElem?]
      rfl
    rw [hsix]
    cases more with
    | nil =>
        have hclass : name.BeginsClass := .inl (by rw [← hname, List.append_nil])
        rw [decide_eq_true hclass]
        rfl
    | cons d more =>
        have hd := name.isPart d (by simp [← hname])
        have hiff : name.BeginsClass ↔ d = '$' := by
          rw [Name.BeginsClass, ← hname]
          refine ⟨?_, fun hd => .inr (hd ▸ ⟨more, rfl⟩)⟩
          rintro (h | h)
          · simp at h
          · have hbehind : ['$'] <+: d :: more := (List.prefix_append_right_inj "class".toList).mp h
            exact (List.cons_prefix_cons.mp hbehind).1.symm
        have hdollar : (isAlphanumeric d || d == '_') = !decide (d = '$') := by
          by_cases heq : d = '$'
          · rw [heq]
            decide
          · simpa [isIdentifierChar, heq] using hd
        rw [decide_eq_decide.mpr hiff, List.cons_append, List.head?_cons, Option.any_some, hdollar, Bool.not_not]
  · have hclass : ¬ name.BeginsClass := by
      rintro (heq | hprefix)
      · exact h (heq ▸ List.prefix_refl _)
      · exact h ((List.prefix_append "class".toList ['$']).trans hprefix)
    have hno : "class".toList.isPrefixOf (name.chars ++ '(' :: rest) = false :=
      Bool.eq_false_iff.mpr fun hprefix => h ((prefix_append_iff hwords _).mp (List.isPrefixOf_iff_prefix.mp hprefix))
    rw [hno, decide_eq_false hclass]
    rfl

/-- No parameter with an arrow behind it begins a call. -/
theorem noArrow_call {tail : List Char} (h : ∀ c ∈ tail, isIdentifierChar c = true) (rest : List Char) : NoArrow (tail ++ '(' :: rest) := by
  intro param more hparam hsplit
  cases tail with
  | nil => cases hparam
  | cons first tail =>
      obtain ⟨-, htail⟩ := List.forall_mem_cons.mp h
      have htake : (tail ++ '(' :: rest).takeWhile isIdentifierChar = tail := takeWhile_append htail (by
        rintro _ ⟨⟩
        decide)
      rw [List.cons_append, leadingIdentifier?, htake] at hparam
      split_ifs at hparam
      cases hparam
      obtain rfl : more = '(' :: rest := (@List.append_cancel_left _ (first :: tail) _ _ hsplit).symm
      intro harrow
      exact absurd (List.cons_prefix_cons.mp harrow).1 (by decide)

/-! ## What a call is read as -/

/-- What the value looks like. -/
def Name.shape (name : Name) : ValueShape :=
  if name.BeginsFunction then .function else if name.BeginsClass then .classType else .other

/-- Behind the arguments no arrow stands, so the name alone tells. -/
theorem valueShapeAt_call (h : s.code = front ++ (name.chars ++ '(' :: (list ++ ')' :: ';' :: rest))) (hlist : Closes '(' ')' list) :
    s.valueShapeAt (byteLength front) = .ok name.shape := by
  obtain ⟨tail, hskip, htail, hempty, hbehind⟩ := exists_skipAsync_call name (list ++ ')' :: ';' :: rest)
  have hfunction : "function".toList.isPrefixOf (tail ++ '(' :: (list ++ ')' :: ';' :: rest)) = true ↔ name.BeginsFunction := by
    rw [List.isPrefixOf_iff_prefix, prefix_append_iff (by decide), hbehind]
  have hobject : (name.chars ++ '(' :: (list ++ ')' :: ';' :: rest)).head? ≠ some '\x7b' := by
    obtain ⟨first, letters, hname, -, hbrace⟩ := name.exists_cons
    rw [hname]
    simpa using hbrace
  unfold valueShapeAt
  refine bind_eq_ok_iff.mpr ⟨_, codeFrom_byteLength h, ?_⟩
  dsimp only
  rw [hskip, isClass_call, Name.shape]
  by_cases hbegins : name.BeginsFunction
  · rw [if_pos (hfunction.mpr hbegins), if_pos hbegins]
    rfl
  rw [if_neg (mt hfunction.mp hbegins), if_neg hbegins]
  by_cases hclass : name.BeginsClass
  · rw [if_pos (decide_eq_true hclass), if_pos hclass]
    rfl
  rw [decide_eq_false hclass, if_neg Bool.false_ne_true, if_neg hclass, if_neg hobject]
  split_ifs with hparens
  · -- the name is `async`, and what looks like parameters is the list of arguments
    have hnil : tail = [] := by
      cases tail with
      | nil => rfl
      | cons c tail =>
          obtain rfl : c = '(' := Option.some.inj hparens
          exact absurd (htail '(' List.mem_cons_self) (by decide)
    have hsplit : s.code = (front ++ name.chars) ++ '(' :: (list ++ ')' :: ';' :: rest) := by rw [h, List.append_assoc]
    have hbehind : s.code = (front ++ name.chars ++ '(' :: list ++ [')']) ++ ';' :: rest := by rw [hsplit]; simp
    have hopening : byteLength front + (byteLength (name.chars ++ '(' :: (list ++ ')' :: ';' :: rest)) -
        byteLength (tail ++ '(' :: (list ++ ')' :: ';' :: rest))) = byteLength (front ++ name.chars) := by
      simp only [hnil, List.nil_append, byteLength_append]
      omega
    have hclose := matchingClose?_of_closeFrom rfl (closeFrom_of_closes (by decide) hlist (byteLength (front ++ name.chars ++ ['('])) (';' :: rest))
    rw [hopening, hsplit, hclose]
    have hstop : byteLength (front ++ name.chars ++ '(' :: list) + 1 = byteLength (front ++ name.chars ++ '(' :: list ++ [')']) := by
      rw [byteLength_append _ [')']]
      rfl
    have hsign : s.skipBlanks (byteLength (front ++ name.chars ++ '(' :: list) + 1) =
        .ok (byteLength (front ++ name.chars ++ '(' :: list ++ [')'])) := by
      rw [hstop, skipBlanks_byteLength hbehind]
      simp [isBlank]
    dsimp only
    rw [bind_eq_of_ok hsign, bind_eq_of_ok (hasAt_byteLength hbehind "=>")]
    rfl
  · refine bind_eq_ok_iff.mpr ⟨none, bareArrowAt?_eq_none ?_ h, rfl⟩
    rw [hskip]
    exact noArrow_call htail _

/-- The name and the arguments are read as a function and its parameters. -/
theorem functionAt?_call (h : s.code = (front ++ " = ".toList) ++ (name.chars ++ '(' :: (list ++ ')' :: rest))) (hlist : Closes '(' ')' list)
    (hbegins : name.BeginsFunction) : ∃ stop, s.functionAt? (byteLength (front ++ " = ".toList)) =
      .ok (some ({ params := parametersOf list }, stop)) := by
  have hhead : ∀ c ∈ name.chars, c ≠ '(' ∧ isFunctionHead c = true := fun c hc => by
    have hpart := name.isPart c hc
    refine ⟨name.ne_of_mem (by decide) hc, ?_⟩
    simp only [isIdentifierChar, Bool.or_eq_true, beq_iff_eq, isFunctionHead] at hpart ⊢
    tauto
  have hfound := functionAt?_eq hhead h fun start => closeFrom_of_closes (by decide) hlist start rest
  have hbehind : headBehind (front ++ " = ".toList ++ name.chars) = ' ' :: name.chars := by
    have hends : ∀ c ∈ (' ' :: name.chars).reverse, (!endsHead c) = true := fun c hc => by
      rcases List.mem_cons.mp (List.mem_reverse.mp hc) with rfl | hc
      · decide
      · have hsigns : ∀ sign ∈ ['\n', ';', '=', '('], isIdentifierChar sign = false := by decide
        have hnone : ∀ sign ∈ ['\n', ';', '=', '('], c ≠ sign := fun sign hsign => name.ne_of_mem (hsigns sign hsign) hc
        simpa [endsHead, and_assoc] using hnone
    have hsplit : front ++ " = ".toList ++ name.chars = (front ++ " =".toList) ++ ' ' :: name.chars := by simp
    have hstop : ∀ c ∈ (front ++ " =".toList).reverse.head?, (!endsHead c) = false := by
      rw [List.reverse_append]
      rintro _ ⟨⟩
      decide
    rw [hsplit, headBehind, List.reverse_append, takeWhile_append hends hstop, List.reverse_reverse]
  have hwords : (words (' ' :: name.chars)).contains "async".toList = false := by
    rw [words_cons_blank (by decide), words_of_forall name.ne_nil fun c hc => isBlank_of_isIdentifierChar (name.isPart c hc)]
    have hne : name.chars ≠ "async".toList := by
      intro heq
      rw [Name.BeginsFunction, heq] at hbegins
      exact absurd hbegins (by decide)
    simpa using hne.symm
  rw [hbehind, hwords] at hfound
  exact ⟨_, hfound⟩

/-- The word at the beginning of the name is read as the beginning of a class. -/
theorem exists_classAt_call (hs : s.IsMasked) (h : s.code = front ++ (name.chars ++ '(' :: rest)) (hclass : name.BeginsClass)
    (symbol : String) : ∃ stop shape, s.classAt (byteLength front) symbol (byteLength front + "class".length) = .ok
      ⟨s.symbolAt symbol .classType (byteLength front) (s.signature (byteLength front) stop) (.classType shape), .classType⟩ := by
  obtain ⟨more, hword⟩ : "class".toList <+: name.chars := by
    rcases hclass with heq | hprefix
    · exact heq ▸ List.prefix_refl _
    · exact (List.prefix_append "class".toList ['$']).trans hprefix
  have hhas : s.HasWord (byteLength front) "class".toList :=
    ⟨front, more ++ '(' :: rest, by rw [h, ← hword, List.append_assoc], rfl⟩
  have hbehind := hhas.isCut_behind
  rw [← byteLength_class] at hbehind
  obtain ⟨found, hfound, -⟩ := succeeds_classAt hs ⟨'c', HasWord.head hhas, by decide⟩ hbehind
    (Nat.lt_add_of_pos_right (by decide)) symbol
  obtain ⟨stop, shape, rfl⟩ := exists_of_classAt _ _ _ _ found hfound
  exact ⟨stop, shape, hfound⟩

/-- A constant is read as its value is, on the line on which it begins. -/
theorem exists_bindingAt_call (hs : s.IsMasked) (h : s.code = (front ++ " = ".toList) ++
      (call.callee.chars ++ '(' :: (code call.arguments ++ ')' :: ';' :: rest))) (start : Nat) :
    ∃ declared, s.bindingAt start call.name.text (byteLength front) "const" = .ok declared ∧
      call.IsTold (s.lineOf start) { declared.symbol with exported := true } ∧
      declared.exportKind = .ofSymbol call.callee.seen := by
  have hlist : Closes '(' ')' (code call.arguments) := call.balanced _ _ rfl
  obtain ⟨first, letters, hname, hblank, -⟩ := call.callee.exists_cons
  have hsplit : s.code = front ++ (" = ".toList ++ first :: (letters ++ '(' :: (code call.arguments ++ ')' :: ';' :: rest))) := by
    rw [h, List.append_assoc, hname]
    rfl
  have hbinding := bindingAt_of_shape hsplit hblank start call.name.text "const" (valueShapeAt_call h hlist)
  by_cases hbegins : call.callee.BeginsFunction
  · have hseen : call.callee.seen = .function := if_pos hbegins
    have hshape : call.callee.shape = .function := if_pos hbegins
    obtain ⟨stop, hfunction⟩ := functionAt?_call h hlist hbegins
    have hany : s.anyFunctionAt? (byteLength (front ++ " = ".toList)) =
        .ok (some ({ params := parametersOf (code call.arguments) }, stop)) := bind_eq_ok_iff.mpr ⟨_, hfunction, rfl⟩
    rw [hshape] at hbinding
    dsimp only at hbinding
    rw [bind_eq_of_ok hany] at hbinding
    exact ⟨_, hbinding, ⟨rfl, rfl, hseen.symm, fun _ => rfl, by simp [hseen]⟩, by rw [hseen]; rfl⟩
  by_cases hclass : call.callee.BeginsClass
  · have hseen : call.callee.seen = .classType := by rw [Name.seen, if_neg hbegins, if_pos hclass]
    have hshape : call.callee.shape = .classType := by rw [Name.shape, if_neg hbegins, if_pos hclass]
    obtain ⟨stop, shape, hfound⟩ := exists_classAt_call hs h hclass call.name.text
    rw [hshape] at hbinding
    dsimp only at hbinding
    rw [bind_eq_of_ok hfound] at hbinding
    exact ⟨_, hbinding, ⟨rfl, rfl, hseen.symm, by simp [hseen], by simp [hseen]⟩, by rw [hseen]; rfl⟩
  · have hseen : call.callee.seen = .binding := by rw [Name.seen, if_neg hbegins, if_neg hclass]
    have hshape : call.callee.shape = .other := by rw [Name.shape, if_neg hbegins, if_neg hclass]
    rw [hshape] at hbinding
    exact ⟨_, hbinding, ⟨rfl, rfl, hseen.symm, by simp [hseen], fun _ => rfl⟩, by rw [hseen]; rfl⟩

/-! ## Scripts with a call -/

namespace Call

variable (call : Call)

theorem mem_const : "const" ∈ "function" :: plainKeywords ∧ "const" ∈ ["const", "let", "var"] := by decide

/-- The words up to the name. -/
def words : DeclarationWords := headWords false false mem_const.1 call.name.written

/-- What stands behind the name. -/
def tail : List Char := " = ".toList ++ (call.callee.chars ++ '(' :: (code call.arguments ++ ')' :: [';']))

theorem code_items : code call.items = call.words.chars ++ call.tail := by
  have hopening : code call.opening =
      "export ".toList ++ ("const".toList ++ ' ' :: call.name.chars) ++ (" = ".toList ++ (call.callee.chars ++ ['('])) := by
    simp only [opening, Name.item, exportItem, spaceItem, equalsItem, listStart, code_cons, code_nil, Item.masked, List.append_nil,
      List.append_assoc]
    rfl
  have hwords : call.words.chars = "export ".toList ++ ("const".toList ++ ' ' :: call.name.chars) := chars_headWords
  rw [items, code_append, hopening, hwords, tail]
  simp [Item.masked]

theorem exports (script : Framed call.items) :
    script.source.Exports (code script.before) call.words (call.tail ++ code script.after) := by
  refine script.exports call.code_items ?_
  rintro _ ⟨⟩
  decide

/-- What is declared is told by the name of what is called. -/
theorem exists_declarationAt? (script : Framed call.items) : ∃ declared,
    script.source.declarationAt? (call.words.head (code script.before)) = .ok (some declared) ∧
      call.IsTold script.line { declared.symbol with exported := true } ∧ declared.exportKind = .ofSymbol call.callee.seen := by
  have hcode : script.source.code = (code script.before ++ call.words.chars ++ " = ".toList) ++ (call.callee.chars ++
      '(' :: (code call.arguments ++ ')' :: ';' :: code script.after)) := by
    rw [script.code_source, call.code_items, tail]
    simp
  have hstart : (call.words.head (code script.before)).start = byteLength (code script.before) :=
    congrArg byteLength (List.append_nil (code script.before))
  have hline : script.source.lineOf (call.words.head (code script.before)).start = script.line := by
    rw [hstart, (call.exports script).line]
    rfl
  obtain ⟨declared, hbinding, htold, hkind⟩ := exists_bindingAt_call script.isMasked hcode (call.words.head (code script.before)).start
  exact ⟨declared, declarationAt?_binding mem_const.2 hbinding, hline ▸ htold, hkind⟩

end Call

/-- A constant that is bound to a call shows as what the name of the call is taken for: a variable, unless the name begins with
`function`, perhaps behind `async`, or is `class` or begins with `class$`. Where nothing else is exported nothing else shows. -/
theorem calls_told (script : Framed call.items) (h : script.source.Admits script.start call.name.text) (filePath : String)
    (language : Language) : ∃ found symbol, extract filePath language script.text = .ok found ∧
      found.Presents symbol (.named call.name.text script.line (.ofSymbol call.callee.seen) .declarative) ∧
      call.IsTold script.line symbol ∧
      (script.source.IsSingle → found.symbols = [symbol] ∧
        found.exports = [.named call.name.text script.line (.ofSymbol call.callee.seen) .declarative]) ∧
      (symbol.kind = .binding ↔ ¬ call.callee.BeginsFunction ∧ ¬ call.callee.BeginsClass) := by
  obtain ⟨declared, hdeclared, htold, hkind⟩ := call.exists_declarationAt? script
  have hne : String.ofList call.name.chars ≠ "extends" := fun heq => call.ne_extends (String.ofList_injective heq)
  obtain ⟨found, hfound, hpresents, hsingle⟩ := (call.exports script).exists_extract h hne hdeclared filePath language
  rw [hkind] at hpresents hsingle
  refine ⟨found, _, hfound, hpresents, htold, hsingle, ?_⟩
  rw [htold.kind, Name.seen]
  split_ifs with hbegins hclass
  · simp [hbegins]
  · simp [hclass]
  · simp [hbegins, hclass]

/-- The name `text`, if it is one. -/
def nameOf (text : String) (h : isWritten text.toList = true ∧ ∀ c ∈ text.toList, isIdentifierChar c = true) : Name :=
  ⟨text.toList, h.1, h.2⟩

/-- Of two calls with the same arguments one makes a variable and the other a function with the arguments for parameters. -/
theorem calls_told_of_renamed : ∃ call renamed : Call, ∃ (script : Framed call.items) (other : Framed renamed.items),
    script.text = "export const n = classify(1, [x]);\n" ∧ other.text = "export const n = functionalize(1, [x]);\n" ∧
    (∃ found symbol, extract "m.js" .javaScript script.text = .ok found ∧ found.symbols = [symbol] ∧ symbol.kind = .binding ∧
      found.exports = [.named "n" 1 .binding .declarative]) ∧
    ∃ found symbol, extract "m.js" .javaScript other.text = .ok found ∧ found.symbols = [symbol] ∧ symbol.kind = .function ∧
      symbol.shape = .function { params := [{ name := "1" }, { name := "[x]" }] } ∧
      found.exports = [.named "n" 1 .function .declarative] := by
  let arguments : List Item := [.word ['1'] (by decide) (by decide), .sign ',' (by decide), spaceItem,
    .sign '[' (by decide), .word ['x'] (by decide) (by decide), .sign ']' (by decide)]
  let call : Call := ⟨nameOf "n" (by decide), nameOf "classify" (by decide), arguments, by decide, by decide⟩
  let renamed : Call := ⟨nameOf "n" (by decide), nameOf "functionalize" (by decide), arguments, by decide, by decide⟩
  let ending : List Item := [.blanks ['\n'] (by decide) (by decide)]
  let script : Framed call.items := ⟨[], ending, by decide +kernel, nofun, by decide⟩
  let other : Framed renamed.items := ⟨[], ending, by decide +kernel, nofun, by decide⟩
  have hadmits : script.source.Admits script.start call.name.text := by
    refine ⟨fun head _ hlt => ?_, fun head _ => not_breaksOff (by decide +kernel) head⟩
    exact absurd hlt (Nat.not_lt_zero head.start)
  have hadmits' : other.source.Admits other.start renamed.name.text := by
    refine ⟨fun head _ hlt => ?_, fun head _ => not_breaksOff (by decide +kernel) head⟩
    exact absurd hlt (Nat.not_lt_zero head.start)
  obtain ⟨found, symbol, hfound, -, htold, hsingle, hkind⟩ := calls_told script hadmits "m.js" .javaScript
  obtain ⟨found', symbol', hfound', -, htold', hsingle', -⟩ := calls_told other hadmits' "m.js" .javaScript
  obtain ⟨hsymbols, hexports⟩ := hsingle ⟨by decide +kernel, by decide +kernel⟩
  obtain ⟨hsymbols', hexports'⟩ := hsingle' ⟨by decide +kernel, by decide +kernel⟩
  refine ⟨call, renamed, script, other, by decide +kernel, by decide +kernel, ⟨found, symbol, hfound, hsymbols, ?_, ?_⟩,
    found', symbol', hfound', hsymbols', ?_, ?_, ?_⟩
  · exact hkind.mpr (by decide)
  · exact hexports.trans (by decide +kernel)
  · exact htold'.kind.trans (by decide)
  · exact (htold'.function (by decide)).trans (by decide +kernel)
  · exact hexports'.trans (by decide +kernel)

end ApiImpact.Called

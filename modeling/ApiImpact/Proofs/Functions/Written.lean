import ApiImpact.Proofs.Program.Scripted

/-!
# Exported functions as text

A script of functions that are exported, one after the other, each from the beginning of a line on. What is written of a
function tells the symbol and the export that it makes, apart from the signature.
-/

namespace ApiImpact.Exported

open Text Script TypeScript Program

/-! ## Functions -/

/-- A letter of ASCII, `_` or `$` with letters, digits, `_` and `$` behind it. -/
structure Identifier where
  chars : List Char
  written : isWritten chars = true

def Identifier.name (identifier : Identifier) : String := .ofList identifier.chars

/-- The digits, signs and letters of numbers, with or without a prefix, an exponent or the suffix of big integers. -/
def numberChars : List Char := "0123456789abcdefABCDEFoxOXn_.+-".toList

/-- A number as it is written. -/
structure Numeral where
  chars : List Char
  ne_nil : chars ≠ []
  mem : ∀ c ∈ chars, c ∈ numberChars

/-- One parameter. -/
inductive Param where
  | plain (name : Identifier)
  | withDefault (name : Identifier) (value : Numeral)
  | rest (name : Identifier)

def Param.chars : Param → List Char
  | plain name => name.chars
  | withDefault name value => name.chars ++ (" = ".toList ++ value.chars)
  | rest name => "...".toList ++ name.chars

/-- What the parameter tells. -/
def Param.told : Param → Parameter
  | plain name => { name := name.name }
  | withDefault name _ => { name := name.name, hasDefault := true }
  | rest name => { name := name.name, rest := true }

/-- The lines between the braces of a function. They may declare whatever they like, without literals and comments. -/
structure Body where
  chars : List Char
  plain : ∀ c ∈ chars, c ∉ openingSigns
  no_export : ¬ "export".toList <:+: chars
  balanced : braceDepth chars = 0
  nested : ∀ front, front <+: chars → 0 ≤ braceDepth front

/-- `export [default] [async] function name(params) {body}` -/
structure Function where
  isDefault : Bool
  isAsync : Bool
  name : Identifier
  params : List Param
  body : Body
  ne_async : name.chars ≠ "async".toList
  ne_extends : name.chars ≠ "extends".toList

namespace Function

variable (f : Function)

/-- The words up to the name. -/
def head : List Char :=
  exportWords f.isDefault ++ (asyncWord f.isAsync ++ ("function ".toList ++ f.name.chars))

/-- The parameters with commas between them. -/
def list : List Char := ", ".toList.intercalate (f.params.map Param.chars)

/-- The parameters up to the brace that opens the body. -/
def opening : List Char := '(' :: (f.list ++ ") \x7b".toList)

/-- What stands behind the name. -/
def tail : List Char := f.opening ++ (f.body.chars ++ "\x7d\n".toList)

def code : List Char := f.head ++ f.tail

/-- The number of lines on which it stands. -/
def lines : Nat := f.body.chars.count '\n' + 1

/-- The symbol of a function that starts on `line`, without its signature. -/
def symbol (line : Nat) : Symbol where
  name := f.name.name
  qualifiedName := f.name.name
  kind := .function
  line := line
  column := 0
  signature := ""
  exported := true
  shape := .function { params := f.params.map Param.told, isAsync := f.isAsync }

/-- The export of a function that starts on `line`. -/
def entry (line : Nat) : Export :=
  if f.isDefault then .default line .function (some f.name.name) .declarative
  else .named f.name.name line .function .declarative

end Function

/-- The functions one after the other. -/
def code (functions : List Function) : List Char := functions.flatMap Function.code

/-- What each of the functions makes on the line on which it starts, if the first one starts on `line`. -/
def numbered {α : Type} (make : Function → Nat → α) (line : Nat) : List Function → List α
  | [] => []
  | f :: functions => make f line :: numbered make (line + f.lines) functions

/-- The symbol without its signature. -/
def unsigned (symbol : Symbol) : Symbol := { symbol with signature := "" }

/-- The functions, each of them as a symbol and as an export, are all that is found. -/
structure Recovers (found : Snapshot) (functions : List Function) : Prop where
  symbols : found.symbols.map unsigned = numbered Function.symbol 1 functions
  exports : found.exports = numbered Function.entry 1 functions

/-- The names are distinct, and one function at most is the default export. -/
structure AreDistinct (functions : List Function) : Prop where
  names : (functions.map fun f => f.name.name).Nodup
  single : functions.countP (·.isDefault) ≤ 1

/-! ## Characters -/

variable {f : Function} {c : Char}

theorem Identifier.isNameChar (identifier : Identifier) : ∀ c ∈ identifier.chars, isNameChar c = true :=
  isNameChar_of_isWritten identifier.written

/-- What a parameter is made of: its name, its number, and the signs between and before them. -/
def isParamChar (c : Char) : Bool := Script.isNameChar c || " =.+-".toList.contains c

theorem ne_of_isParamChar {sign : Char} (h : isParamChar c = true) (hsign : isParamChar sign = false) : c ≠ sign := by
  rintro rfl
  rw [hsign] at h
  cases h

theorem Identifier.isParamChar (identifier : Identifier) : ∀ c ∈ identifier.chars, isParamChar c = true :=
  fun c hc => Bool.or_eq_true_iff.mpr (.inl (identifier.isNameChar c hc))

theorem Numeral.isParamChar (value : Numeral) : ∀ c ∈ value.chars, isParamChar c = true := by
  have hchars : ∀ c ∈ numberChars, Exported.isParamChar c = true := by decide
  exact fun c hc => hchars c (value.mem c hc)

theorem Param.isParamChar (param : Param) : ∀ c ∈ param.chars, isParamChar c = true := by
  have hequals : ∀ c ∈ " = ".toList, Exported.isParamChar c = true := by decide
  have hdots : ∀ c ∈ "...".toList, Exported.isParamChar c = true := by decide
  cases param with
  | plain name => exact name.isParamChar
  | withDefault name value =>
      simp only [chars, List.forall_mem_append]
      exact ⟨name.isParamChar, hequals, value.isParamChar⟩
  | rest name =>
      simp only [chars, List.forall_mem_append]
      exact ⟨hdots, name.isParamChar⟩

namespace Function

theorem list_cons {param : Param} {params : List Param} (h : f.params = param :: params) :
    f.list = param.chars ++ commaed Param.chars params := by
  rw [list, h, intercalate_map]

theorem mem_list (h : c ∈ f.list) : isParamChar c = true ∨ c = ',' := by
  have hcommas : ∀ c ∈ ", ".toList, isParamChar c = true ∨ c = ',' := by decide
  cases hparams : f.params with
  | nil => simp [list, hparams] at h
  | cons param params =>
      rw [list_cons hparams] at h
      rcases List.mem_append.mp h with h | h
      · exact .inl (param.isParamChar c h)
      · obtain ⟨param, -, hparam⟩ := List.mem_flatMap.mp h
        exact (List.mem_append.mp hparam).elim (hcommas c) fun h => .inl (param.isParamChar c h)

theorem ne_of_mem_list {sign : Char} (h : c ∈ f.list) (hsign : isParamChar sign = false ∧ sign ≠ ',') : c ≠ sign :=
  (mem_list h).elim (ne_of_isParamChar · hsign.1) fun hcomma => hcomma ▸ hsign.2.symm

/-- The words before the parameters hold names and blanks. -/
theorem mem_head (h : c ∈ f.head) : Script.isNameChar c = true ∨ c = ' ' := by
  have hwords : ∀ isDefault isAsync, ∀ c ∈ exportWords isDefault ++ (asyncWord isAsync ++ "function ".toList),
      Script.isNameChar c = true ∨ c = ' ' := by decide
  rw [head, ← List.append_assoc, ← List.append_assoc, List.append_assoc (exportWords _)] at h
  exact (List.mem_append.mp h).elim (hwords _ _ c) fun h => .inl (f.name.isNameChar c h)

theorem ne_of_mem_head {sign : Char} (h : c ∈ f.head) (hsign : Script.isNameChar sign = false ∧ sign ≠ ' ') : c ≠ sign :=
  (mem_head h).elim (isNameChar_ne · hsign.1) fun hblank => hblank ▸ hsign.2.symm

end Function

/-! ## The code of functions -/

theorem codeOnly_eq {text : List Char} (h : ∀ c ∈ text, c ∉ openingSigns) : codeOnly text = text := by
  have hshades := shadesFrom_plain h {} []
  rw [List.append_nil, shadesFrom, List.append_nil] at hshades
  rw [codeOnly, shades, hshades, hide_plain rfl]

namespace Function

/-- No literal or comment begins in a function. -/
theorem not_openingSign (f : Function) : ∀ c ∈ f.code, c ∉ openingSigns := by
  have hhead : ∀ sign ∈ openingSigns, Script.isNameChar sign = false ∧ sign ≠ ' ' := by decide
  have hlist : ∀ sign ∈ openingSigns, Exported.isParamChar sign = false ∧ sign ≠ ',' := by decide
  have hopening : ∀ c ∈ ") \x7b".toList, c ∉ openingSigns := by decide
  have hclosing : ∀ c ∈ "\x7d\n".toList, c ∉ openingSigns := by decide
  simp only [code, tail, opening, List.forall_mem_append, List.cons_append, List.forall_mem_cons]
  exact ⟨fun c hc hsign => ne_of_mem_head hc (hhead c hsign) rfl, by decide,
    ⟨fun c hc hsign => ne_of_mem_list hc (hlist c hsign) rfl, hopening⟩, f.body.plain, hclosing⟩

theorem braceDepth_head (f : Function) : braceDepth f.head = 0 :=
  braceDepth_eq_zero fun _ hc => ⟨ne_of_mem_head hc (by decide), ne_of_mem_head hc (by decide)⟩

/-- The parameters are followed by the brace that opens the body. -/
theorem braceDepth_opening (f : Function) : braceDepth f.opening = 1 := by
  have hlist : braceDepth f.list = 0 :=
    braceDepth_eq_zero fun _ hc => ⟨ne_of_mem_list hc (by decide), ne_of_mem_list hc (by decide)⟩
  rw [opening, braceDepth_cons, braceDepth_append, hlist]
  rfl

theorem braceDepth_code (f : Function) : braceDepth f.code = 0 := by
  rw [code, tail, braceDepth_append, braceDepth_append, braceDepth_append, f.braceDepth_head, f.braceDepth_opening, f.body.balanced]
  rfl

theorem newline_notMem (f : Function) : '\n' ∉ f.head ++ f.opening := by
  simp only [opening, List.mem_append, List.mem_cons, not_or]
  exact ⟨fun h => ne_of_mem_head h (by decide) rfl, by decide, fun h => ne_of_mem_list h (by decide) rfl, by decide⟩

theorem count_code (f : Function) : f.code.count '\n' = f.lines := by
  rw [code, tail, ← List.append_assoc, List.count_append, List.count_eq_zero.mpr f.newline_notMem, List.count_append, Nat.zero_add]
  rfl

theorem exists_line (f : Function) : ∃ line, f.code = line ++ ['\n'] :=
  ⟨f.head ++ (f.opening ++ (f.body.chars ++ "\x7d".toList)), by simp [code, tail]⟩

end Function

theorem codeOnly_code (functions : List Function) : codeOnly (code functions) = code functions := by
  refine codeOnly_eq fun c hc => ?_
  obtain ⟨f, -, hf⟩ := List.mem_flatMap.mp hc
  exact f.not_openingSign c hf

theorem source_code (functions : List Function) : (Source.of (code functions)).code = code functions := codeOnly_code functions

theorem code_cons (f : Function) (functions : List Function) : code (f :: functions) = f.code ++ code functions :=
  List.flatMap_cons

theorem code_singleton (f : Function) : code [f] = f.code := List.flatMap_singleton ..

theorem code_append (front back : List Function) : code (front ++ back) = code front ++ code back :=
  List.flatMap_append

theorem braceDepth_code (functions : List Function) : braceDepth (code functions) = 0 := by
  induction functions with
  | nil => rfl
  | cons f functions ih => rw [code_cons, braceDepth_append, f.braceDepth_code, ih]; rfl

theorem getLast?_code (functions : List Function) : ∀ c ∈ (code functions).getLast?, c = '\n' := by
  rcases List.eq_nil_or_concat functions with rfl | ⟨front, f, rfl⟩
  · simp [code]
  · obtain ⟨line, hline⟩ := f.exists_line
    rw [List.concat_eq_append, code_append, code_singleton, hline, ← List.append_assoc, List.getLast?_concat]
    simp

/-- Each function is numbered by the line breaks before it. -/
theorem numbered_concat {α : Type} (make : Function → Nat → α) (line : Nat) (front : List Function) (f : Function) :
    numbered make line (front ++ [f]) = numbered make line front ++ [make f (line + (code front).count '\n')] := by
  induction front generalizing line with
  | nil => rfl
  | cons g front ih =>
      rw [List.cons_append, numbered, numbered, ih, code_cons, List.count_append, g.count_code, Nat.add_assoc]
      rfl

theorem mem_numbered {α : Type} {make : Function → Nat → α} {line : Nat} {functions : List Function} {made : α}
    (h : made ∈ numbered make line functions) : ∃ f ∈ functions, ∃ line, made = make f line := by
  induction functions generalizing line with
  | nil => cases h
  | cons f functions ih =>
      rcases List.mem_cons.mp h with rfl | h
      · exact ⟨f, List.mem_cons_self, line, rfl⟩
      · obtain ⟨g, hg, line, rfl⟩ := ih h
        exact ⟨g, List.mem_cons_of_mem _ hg, line, rfl⟩

theorem exists_mem_numbered {α : Type} {functions : List Function} (make : Function → Nat → α) (line : Nat) (h : f ∈ functions) :
    ∃ line', make f line' ∈ numbered make line functions := by
  induction functions generalizing line with
  | nil => cases h
  | cons g functions ih =>
      rcases List.mem_cons.mp h with rfl | h
      · exact ⟨line, List.mem_cons_self⟩
      · obtain ⟨line', hmem⟩ := ih (line + g.lines) h
        exact ⟨line', List.mem_cons_of_mem _ hmem⟩

/-! ## One function more -/

theorem Function.key_entry_ne {f g : Function} (hname : f.name.name ≠ g.name.name) (hsingle : ¬ (f.isDefault ∧ g.isDefault))
    (line line' : Nat) : (f.entry line).key ≠ (g.entry line').key := by
  intro h
  rw [entry, entry] at h
  split_ifs at h with hf hg hg
  · exact hsingle ⟨hf, hg⟩
  · cases congrArg ExportKey.exportType h
  · cases congrArg ExportKey.exportType h
  · exact hname (congrArg ExportKey.name h)

/-- A function of another name is found besides the others, if it is not a second default export. -/
theorem Recovers.concat {found : Snapshot} {front : List Function} {symbol : Symbol} (h : Recovers found front)
    (hname : ∀ g ∈ front, g.name.name ≠ f.name.name) (hsingle : ∀ g ∈ front, ¬ (g.isDefault ∧ f.isDefault))
    (hsymbol : unsigned { symbol with exported := true } = f.symbol (1 + (code front).count '\n')) :
    Recovers ((found.publish symbol).addExport (f.entry (1 + (code front).count '\n'))) (front ++ [f]) := by
  have hnew : ∀ other ∈ found.symbols, other.qualifiedName ≠ symbol.qualifiedName := by
    intro other hother heq
    have hmem : unsigned other ∈ numbered Function.symbol 1 front := h.symbols ▸ List.mem_map_of_mem hother
    obtain ⟨g, hg, line, hmade⟩ := mem_numbered hmem
    have hother : other.qualifiedName = g.name.name := congrArg Symbol.qualifiedName hmade
    have hsymbol : symbol.qualifiedName = f.name.name := congrArg Symbol.qualifiedName hsymbol
    exact hname g hg (hother.symm.trans (heq.trans hsymbol))
  have hpublish : found.publish symbol = { found with symbols := found.symbols ++ [{ symbol with exported := true }] } := by
    rw [Snapshot.publish, Snapshot.addSymbol, if_neg]
    rw [List.any_eq_true]
    rintro ⟨other, hother, heq⟩
    exact hnew other (List.mem_of_mem_filter hother) (eq_of_beq heq)
  have hexport : (found.publish symbol).addExport (f.entry (1 + (code front).count '\n')) = { found.publish symbol with
      exports := found.exports ++ [f.entry (1 + (code front).count '\n')] } := by
    rw [hpublish, Snapshot.addExport, if_neg]
    rw [List.any_eq_true]
    rintro ⟨other, hother, heq⟩
    obtain ⟨g, hg, line, rfl⟩ := mem_numbered (h.exports ▸ hother)
    exact Function.key_entry_ne (hname g hg) (hsingle g hg) _ _ (eq_of_beq heq)
  constructor
  · rw [hexport, hpublish, List.map_append, h.symbols, numbered_concat]
    exact congrArg (_ ++ [·]) hsymbol
  · rw [hexport, h.exports, numbered_concat]

theorem AreDistinct.separate {front back : List Function} (h : AreDistinct (front ++ f :: back)) :
    (∀ g ∈ front, g.name.name ≠ f.name.name) ∧ ∀ g ∈ front, ¬ (g.isDefault ∧ f.isDefault) := by
  refine ⟨fun g hg => ?_, fun g hg hboth => ?_⟩
  · have hnames := h.names
    rw [List.map_append, List.nodup_append] at hnames
    exact hnames.2.2 _ (List.mem_map_of_mem hg) _ List.mem_cons_self
  · have hfront : 0 < front.countP (·.isDefault) := List.countP_pos_iff.mpr ⟨g, hg, hboth.1⟩
    have hback : 0 < (f :: back).countP (·.isDefault) := List.countP_pos_iff.mpr ⟨f, List.mem_cons_self, hboth.2⟩
    have hsingle := h.single
    rw [List.countP_append] at hsingle
    omega

end ApiImpact.Exported

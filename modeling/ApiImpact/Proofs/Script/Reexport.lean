import ApiImpact.Proofs.ModuleReference.Silent
import ApiImpact.Proofs.Script.Source
import ApiImpact.Proofs.Script.Additions
import ApiImpact.Proofs.Text.Bracket
import ApiImpact.Proofs.Text.Pattern

/-!
# Re-exports as a script writes them

Each export of a script that is taken from a module is written in the code of the script: the word `export`,
what is taken, the word `from` and a literal. The two patterns for exports are lenient: blanks may be missing,
braces may be nested in a list, and behind the `from` of a list any sign of one byte serves as a quote.
-/

namespace ApiImpact.Script

open Text Text.Pattern

/-- What a re-export takes from its module. -/
inductive Taken where
  /-- The names of a list in braces. -/
  | list (names : List Char)
  /-- Everything. -/
  | star
  /-- Everything, under a name. -/
  | starAs (blanks gap name : List Char)

namespace Taken

/-- The brace or the star it begins with. -/
def sign : Taken → Char
  | list _ => '\x7b'
  | star | starAs .. => '*'

/-- What follows that sign. -/
def body : Taken → List Char
  | list names => names ++ ['\x7d']
  | star => []
  | starAs blanks gap name => blanks ++ ("as".toList ++ (gap ++ name))

def chars (taken : Taken) : List Char :=
  taken.sign :: taken.body

theorem chars_list (names : List Char) : (list names).chars = '\x7b' :: (names ++ ['\x7d']) := rfl

theorem chars_star : star.chars = ['*'] := rfl

theorem chars_starAs (blanks gap name : List Char) :
    (starAs blanks gap name).chars = '*' :: (blanks ++ ("as".toList ++ (gap ++ name))) := rfl

/-- Blanks and names stand where they belong. -/
def IsWritten : Taken → Prop
  | list _ | star => True
  | starAs blanks gap name => (∀ c ∈ blanks, isBlank c = true) ∧ (gap ≠ [] ∧ ∀ c ∈ gap, isBlank c = true) ∧
      name ≠ [] ∧ ∀ c ∈ name, isNameChar c = true

/-- The list has no braces inside, a blank parts the star from its name. -/
def IsPlain : Taken → Prop
  | list names => '\x7d' ∉ names
  | star => True
  | starAs blanks _ _ => blanks ≠ []

def IsList : Taken → Prop
  | list _ => True
  | star | starAs .. => False

end Taken

/-- Nothing, or the word `type` with blanks behind it. -/
def IsModifier (text : List Char) : Prop :=
  text = [] ∨ ∃ blanks, text = "type".toList ++ blanks ∧ ∀ c ∈ blanks, isBlank c = true

/-- The list of an `export` is open where `text` ends. -/
def OpensList (text : List Char) : Prop :=
  ∃ earlier gap modifier names, text = earlier ++ ("export".toList ++ (gap ++ (modifier ++ '\x7b' :: names))) ∧
    (gap ≠ [] ∧ ∀ c ∈ gap, isBlank c = true) ∧ IsModifier modifier ∧ '\x7d' ∉ names

/-- A re-export in the code of a script. -/
structure Reexport where
  /-- The code before the word `export`. -/
  before : List Char
  /-- The blanks behind that word. -/
  gap : List Char
  taken : Taken
  /-- The blanks before the word `from`. -/
  tail : List Char
  /-- The blanks behind that word. -/
  lead : List Char
  /-- The sign on both sides of the name of the module. -/
  mark : Char
  /-- What the code has in place of the name of the module. -/
  contents : List Char
  after : List Char
  edge : ∀ c ∈ before.getLast?, isWordChar c = false
  gap_blank : ∀ c ∈ gap, isBlank c = true
  written : taken.IsWritten
  tail_blank : ∀ c ∈ tail, isBlank c = true
  lead_blank : ∀ c ∈ lead, isBlank c = true
  closed : mark ∉ contents

namespace Reexport

/-- From the word `export` up to the sign before the name of the module. -/
def chars (r : Reexport) : List Char :=
  "export".toList ++ (r.gap ++ (r.taken.chars ++ (r.tail ++ ("from".toList ++ (r.lead ++ [r.mark])))))

/-- The code behind that sign. -/
def rest (r : Reexport) : List Char :=
  r.contents ++ r.mark :: r.after

def code (r : Reexport) : List Char :=
  r.before ++ (r.chars ++ r.rest)

theorem chars_eq (r : Reexport) : r.chars =
    "export".toList ++ (r.gap ++ (r.taken.chars ++ (r.tail ++ ("from".toList ++ (r.lead ++ [r.mark]))))) := rfl

/-- The name of the module, for a re-export in the code of `script`. -/
def module? (r : Reexport) (script : List Char) : Option String :=
  (slice? (withoutComments script) (byteLength (r.before ++ r.chars))
    (byteLength (r.before ++ r.chars ++ r.contents))).map .ofList

/-- The exports that a re-export on `line` makes. -/
def exports (r : Reexport) (line : Nat) (module : String) : List Export :=
  match r.taken with
  | .list names => (splitTopLevel names).filterMap fun (_, entry) =>
      (Source.clauseNames? entry).map fun (localName, publicName) =>
        Source.clauseExport line .unknown localName publicName (some module)
  | .star => [{ Export.named "*" line .star .declarative with sourceModule := some module }]
  | .starAs _ _ name =>
    [{ Export.named (.ofList name) line .star .declarative with
        sourceName := some "*", sourceModule := some module }]

/-- A blank follows the word `export`, the module stands in quotes, and the names have a plain form. -/
structure IsPlain (r : Reexport) : Prop where
  gap_ne_nil : r.gap ≠ []
  taken : r.taken.IsPlain
  mark : ModuleReference.isQuote r.mark = true

/-- Nothing but a star is taken, and it stands inside the list of an earlier re-export. -/
def IsHidden (r : Reexport) : Prop :=
  ¬ r.taken.IsList ∧ OpensList r.before

/-- `script` writes the re-export `r`, which takes `e` from `module`. -/
structure Writes (script : List Char) (r : Reexport) (module : String) (e : Export) : Prop where
  code_eq : r.code = codeOnly script
  module_eq : r.module? script = some module
  exported : e ∈ r.exports (lineOf script (byteLength r.before)) module

end Reexport

section Reading

variable {script before gap tail lead piece rest : List Char} {taken : Taken} {module : String} {m : Match}
  {groups groups' : Groups} {c : Char}

/-- Blanks, a star or a list, blanks and a literal in the right order are a re-export. -/
theorem exists_reexport (edge : ∀ c ∈ before.getLast?, isWordChar c = false) (gap_blank : ∀ c ∈ gap, isBlank c = true)
    (written : taken.IsWritten) (tail_blank : ∀ c ∈ tail, isBlank c = true) (lead_blank : ∀ c ∈ lead, isBlank c = true)
    (hcode : codeOnly script =
      before ++ ("export".toList ++ (gap ++ (taken.chars ++ (tail ++ ("from".toList ++ (lead ++ rest)))))))
    (hliteral : (Source.of script).literalAt? (byteLength
      (before ++ ("export".toList ++ (gap ++ (taken.chars ++ (tail ++ ("from".toList ++ lead))))))) = some module) :
    ∃ r : Reexport, r.before = before ∧ r.taken = taken ∧ r.code = codeOnly script ∧
      r.module? script = some module := by
  have hfront : (Source.of script).code =
      (before ++ ("export".toList ++ (gap ++ (taken.chars ++ (tail ++ ("from".toList ++ lead)))))) ++ rest :=
    hcode.trans (by simp only [List.append_assoc])
  obtain ⟨mark, contents, after, rfl, closed, hmodule⟩ := Source.exists_of_literalAt? hfront hliteral
  refine ⟨⟨before, gap, taken, tail, lead, mark, contents, after, edge, gap_blank, written, tail_blank, lead_blank,
    closed⟩, rfl, rfl, ?_, ?_⟩
  · rw [hcode]
    simp only [Reexport.code, Reexport.chars_eq, Reexport.rest, List.append_assoc, List.cons_append,
      List.nil_append]
  · have htext : (Source.of script).text = withoutComments script := rfl
    simp only [htext, List.append_assoc] at hmodule
    simp only [Reexport.module?, Reexport.chars_eq, List.append_assoc, List.singleton_append, hmodule,
      Option.map_some, String.ofList_toList]

/-! ## Stars -/

theorem isNameChar_of_isAsciiIdentifierStart (h : isAsciiIdentifierStart c = true) : isNameChar c = true := by
  simp only [isAsciiIdentifierStart, Bool.or_eq_true] at h
  rcases h with (halpha | hunder) | hdollar
  · have hplain : ModuleReference.isPlainChar c = true := by simp [ModuleReference.isPlainChar, Char.isAlphanum, halpha]
    simp [isNameChar, ModuleReference.isWordChar_of_isPlainChar hplain]
  · have hplain : ModuleReference.isPlainChar c = true := by simp [ModuleReference.isPlainChar, hunder]
    simp [isNameChar, ModuleReference.isWordChar_of_isPlainChar hplain]
  · simp [isNameChar, hdollar]

theorem exists_of_fits_scriptName (h : scriptName.Fits groups before piece rest groups') :
    groups' = groups ∧ piece ≠ [] ∧ ∀ c ∈ piece, isNameChar c = true := by
  rw [scriptName, fits_one_append] at h
  obtain ⟨c, more, rfl, hc, rfl, hmore⟩ := h
  exact ⟨rfl, by simp, by simpa [isNameChar_of_isAsciiIdentifierStart hc] using hmore⟩

theorem not_fits_exportStar_nil : ¬ exportStarPattern.Fits [] before [] rest groups := by
  simp only [exportStarPattern, fits_append_assoc, fits_wordEdge_append, fits_literal_append]
  rintro ⟨-, more, he, -⟩
  cases he

/-- Where the name stands under which everything is taken, behind `front`. -/
def Taken.aliasSpan? (front : List Char) : Taken → Option Span
  | list _ | star => none
  | starAs blanks gap name => some (ModuleReference.spanOf (front ++ '*' :: (blanks ++ ("as".toList ++ gap))) name)

theorem Taken.aliasSpan?_starAs (front blanks gap name : List Char) : (starAs blanks gap name).aliasSpan? front =
    some (ModuleReference.spanOf (front ++ '*' :: (blanks ++ ("as".toList ++ gap))) name) := rfl

theorem exists_of_fits_exportStar (h : exportStarPattern.Fits [] before piece rest groups) :
    ∃ (gap : List Char) (taken : Taken) (tail lead : List Char) (mark : Char),
      piece = "export".toList ++ (gap ++ (taken.chars ++ (tail ++
        ("from".toList ++ (lead ++ [mark]))))) ∧
      (∀ c ∈ before.getLast?, isWordChar c = false) ∧ (∀ c ∈ gap, isBlank c = true) ∧ taken.IsWritten ∧ ¬ taken.IsList ∧
      (∀ c ∈ tail, isBlank c = true) ∧ (∀ c ∈ lead, isBlank c = true) ∧
      groups.lookup 2 = some (ModuleReference.spanOf (before ++ ("export".toList ++ (gap ++ (taken.chars ++ (tail ++
        ("from".toList ++ lead)))))) [mark]) ∧
      groups.lookup 1 = taken.aliasSpan? (before ++ ("export".toList ++ gap)) := by
  simp only [exportStarPattern, fits_append_assoc, fits_wordEdge_append, fits_literal_append,
    fits_most_append, fits_char_append, fits_optional_append, fits_most1_append] at h
  obtain ⟨hedge, _, rfl, gap, _, rfl, hgap, _, rfl, blanks, _, rfl, hblanks, h⟩ := h
  have hbefore := (atWordEdge_iff (by rfl)).mp hedge
  rcases h with ⟨_, rfl, gap', _, rfl, hne, hgap', name, _, _, rfl, ⟨_, hfits, rfl⟩, h⟩ | ⟨_, rfl, h⟩
  · obtain ⟨rfl, hname⟩ := exists_of_fits_scriptName hfits
    simp only [fits_most_append, fits_literal_append] at h
    obtain ⟨tail, _, rfl, htail, _, rfl, lead, _, rfl, hlead, _, ⟨rfl, mark, rfl, -⟩, rfl⟩ := h
    refine ⟨gap, .starAs blanks gap' name, tail, lead, mark, ?_, hbefore, hgap, ⟨hblanks, ⟨hne, hgap'⟩, hname⟩,
      not_false, htail, hlead, ?_, ?_⟩
    · simp only [Taken.chars_starAs, List.append_assoc, List.cons_append]
    · simp only [List.lookup_cons_self, Taken.chars_starAs, ModuleReference.spanOf, List.append_assoc, List.cons_append,
        List.nil_append]
    · simp only [Taken.aliasSpan?_starAs, ModuleReference.spanOf, List.append_assoc, List.cons_append, List.nil_append]
      rfl
  · obtain ⟨lead, _, rfl, hlead, _, ⟨rfl, mark, rfl, -⟩, rfl⟩ := h
    refine ⟨gap, .star, blanks, lead, mark, rfl, hbefore, hgap, trivial, not_false, hblanks, hlead, ?_, rfl⟩
    simp only [List.lookup_cons_self, Taken.chars_star, ModuleReference.spanOf, List.append_assoc, List.cons_append,
      List.nil_append]

/-- The export that a match of the star pattern makes is written as a re-export. -/
theorem writes_of_star {quote : Span} (hm : m ∈ exportStarPattern.findAll (codeOnly script))
    (hquote : m.group? 2 = some quote) (hliteral : (Source.of script).literalAt? quote.start = some module) :
    ∃ r : Reexport, r.Writes script module
      { Export.named (((m.group? 1).map fun span => String.ofList ((Source.of script).spanText span)).getD "*")
          ((Source.of script).lineOf m.span.start) .star .declarative with
        sourceName := ((m.group? 1).map fun span => String.ofList ((Source.of script).spanText span)).map fun _ => "*"
        sourceModule := some module } := by
  obtain ⟨before, piece, after, hcode, hfits, hspan⟩ :=
    exists_fits_of_mem_findAll (fun _ _ _ => not_fits_exportStar_nil) hm
  obtain ⟨gap, taken, tail, lead, mark, rfl, hbefore, hgap, hwritten, hlist, htail, hlead, hmark, halias⟩ :=
    exists_of_fits_exportStar hfits
  obtain rfl := Option.some.inj (hquote.symm.trans hmark)
  have hsplit : codeOnly script = before ++ ("export".toList ++ (gap ++ (taken.chars ++ (tail ++
      ("from".toList ++ (lead ++ mark :: after)))))) := by
    simpa only [List.append_assoc, List.cons_append, List.nil_append] using hcode
  obtain ⟨r, rfl, rfl, hr, hmodule⟩ := exists_reexport hbefore hgap hwritten htail hlead hsplit hliteral
  refine ⟨r, hr, hmodule, ?_⟩
  rw [hspan, Match.group?, halias]
  cases htaken : r.taken with
  | list names =>
      rw [htaken] at hlist
      exact absurd trivial hlist
  | star =>
      simp only [Reexport.exports, htaken]
      exact List.mem_singleton.mpr rfl
  | starAs blanks gap' name =>
      have hfront : (Source.of script).code = (r.before ++ ("export".toList ++ gap) ++
          '*' :: (blanks ++ ("as".toList ++ gap'))) ++
            (name ++ (tail ++ ("from".toList ++ (lead ++ mark :: after)))) := by
        rw [htaken] at hsplit
        exact hsplit.trans (by simp only [Taken.chars_starAs, List.append_assoc, List.cons_append])
      have hname := Source.spanText_byteLength hfront
      simp only [Reexport.exports, htaken, Taken.aliasSpan?_starAs, ModuleReference.spanOf, Option.map_some, hname]
      exact List.mem_singleton.mpr rfl

/-! ## Lists -/

theorem not_fits_exportClause_nil : ¬ exportClausePattern.Fits [] before [] rest groups := by
  simp only [exportClausePattern, fits_append_assoc, fits_wordEdge_append, fits_literal_append]
  rintro ⟨-, more, he, -⟩
  cases he

theorem exists_of_fits_exportClause (h : exportClausePattern.Fits [] before piece rest groups) :
    ∃ gap, piece = "export".toList ++ (gap ++ ['\x7b']) ∧ (∀ c ∈ before.getLast?, isWordChar c = false) ∧
      ∀ c ∈ gap, isBlank c = true := by
  simp only [exportClausePattern, fits_append_assoc, fits_wordEdge_append, fits_literal_append,
    fits_most_append, fits_char] at h
  obtain ⟨hedge, _, rfl, gap, _, rfl, hgap, -, rfl⟩ := h
  exact ⟨gap, rfl, (atWordEdge_iff (by rfl)).mp hedge, hgap⟩

/-- `script` writes `e` as a re-export. -/
def WritesReexport (script : List Char) (e : Export) : Prop :=
  ∃ r module, Reexport.Writes script r module e

/-- If `e` is taken from a module, then `script` writes it as a re-export. -/
def IsCovered (script : List Char) (e : Export) : Prop :=
  e.sourceModule.isSome → WritesReexport script e

theorem isCovered_of_isOwn {style : ExportStyle} (e : Export) (h : e.IsOwn style) : IsCovered script e := by
  rw [IsCovered, h.unsourced]
  exact nofun

/-- An entry of a list before a `from` makes an export that is written as a re-export. -/
theorem writesReexport_of_entry {names : List Char} {localName publicName : String}
    {entry : Nat × List Char} (hbefore : ∀ c ∈ before.getLast?, isWordChar c = false)
    (hgap : ∀ c ∈ gap, isBlank c = true)
    (htail : ∀ c ∈ tail, isBlank c = true) (hlead : ∀ c ∈ lead, isBlank c = true)
    (hcode : codeOnly script =
      before ++ ("export".toList ++ (gap ++ ((Taken.list names).chars ++ (tail ++ ("from".toList ++ (lead ++ rest)))))))
    (hliteral : (Source.of script).literalAt? (byteLength
      (before ++ ("export".toList ++ (gap ++ ((Taken.list names).chars ++ (tail ++ ("from".toList ++ lead))))))) =
        some module)
    (hentry : entry ∈ splitTopLevel names) (hnames : Source.clauseNames? entry.2 = some (localName, publicName)) :
    WritesReexport script
      (Source.clauseExport (lineOf script (byteLength before)) .unknown localName publicName (some module)) := by
  obtain ⟨r, rfl, htaken, hr, hmodule⟩ := exists_reexport hbefore hgap
    (show (Taken.list names).IsWritten from trivial) htail hlead hcode hliteral
  refine ⟨r, module, hr, hmodule, ?_⟩
  rw [Reexport.exports, htaken]
  exact List.mem_filterMap.mpr ⟨entry, hentry, (congrArg (Option.map _) hnames).trans rfl⟩

/-- So does an entry of a list behind which `from` is read. -/
theorem writesReexport_of_from {names : List Char} {localName publicName : String} {entry : Nat × List Char}
    {offset offset' : Nat} (hbefore : ∀ c ∈ before.getLast?, isWordChar c = false) (hgap : ∀ c ∈ gap, isBlank c = true)
    (hcode : (Source.of script).code = before ++ ("export".toList ++ gap) ++ '\x7b' :: (names ++ '\x7d' :: rest))
    (hoffset : (Source.of script).skipBlanks (byteLength (before ++ ("export".toList ++ gap) ++ '\x7b' :: names) + 1) =
      .ok offset)
    (hfrom : (Source.of script).hasAt offset "from" = .ok true)
    (hoffset' : (Source.of script).skipBlanks (offset + "from".length) = .ok offset')
    (hliteral : (Source.of script).literalAt? offset' = some module)
    (hentry : entry ∈ splitTopLevel names) (hnames : Source.clauseNames? entry.2 = some (localName, publicName)) :
    WritesReexport script
      (Source.clauseExport (lineOf script (byteLength before)) .unknown localName publicName (some module)) := by
  have hlist : (Source.of script).code = (before ++ ("export".toList ++ gap) ++ (Taken.list names).chars) ++ rest :=
    hcode.trans (by simp only [Taken.chars_list, List.append_assoc, List.cons_append, List.nil_append])
  have hclosed : byteLength (before ++ ("export".toList ++ gap) ++ '\x7b' :: names) + 1 =
      byteLength (before ++ ("export".toList ++ gap) ++ (Taken.list names).chars) := by
    simp only [Taken.chars_list, ← List.cons_append, ← List.append_assoc, byteLength_append _ ['\x7d']]
    rfl
  rw [hclosed] at hoffset
  obtain ⟨tail, lead, rest, rfl, htail, hlead, rfl⟩ := Source.exists_of_from hlist hoffset hfrom hoffset'
  simp only [List.append_assoc] at hlist hliteral
  exact writesReexport_of_entry hbefore hgap htail hlead hlist hliteral hentry hnames

theorem isCovered_addExportClause {surface : Collection} (hm : m ∈ exportClausePattern.findAll (codeOnly script))
    (h : surface.Consists (IsCovered script)) :
    Gives (Collection.Consists (IsCovered script)) ((Source.of script).addExportClause surface m) := by
  obtain ⟨before, piece, after, hcode, hfits, hspan⟩ :=
    exists_fits_of_mem_findAll (fun _ _ _ => not_fits_exportClause_nil) hm
  obtain ⟨gap, rfl, hbefore, hgap⟩ := exists_of_fits_exportClause hfits
  obtain ⟨front, hkeyword⟩ : ∃ front, front = before ++ ("export".toList ++ gap) := ⟨_, rfl⟩
  have hfront : (Source.of script).code = front ++ '\x7b' :: after := by
    rw [hkeyword]
    exact hcode.trans (by simp only [List.append_assoc, List.cons_append, List.nil_append])
  have hstop : m.span.stop = byteLength front + 1 := by
    rw [hspan, hkeyword, ← List.append_assoc "export".toList, ← List.append_assoc before, byteLength_append]
    rfl
  have hline : (Source.of script).lineOf m.span.start = lineOf script (byteLength before) := by
    rw [hspan]
    rfl
  unfold Source.addExportClause
  rw [hstop, Nat.add_sub_cancel, hfront]
  extract_lets opening
  split
  · exact gives_pure h
  · rename_i closing hclosing
    obtain ⟨names, after, rfl, rfl⟩ := exists_of_matchingClose? hclosing
    refine gives_bind fun offset hoffset => gives_bind fun isFrom hfrom => ?_
    extract_lets next
    have hnext (module : Option String)
        (hmodule : ∀ entry ∈ splitTopLevel names, ∀ localName publicName,
          Source.clauseNames? entry.2 = some (localName, publicName) → module.isSome → WritesReexport script
            (Source.clauseExport (lineOf script (byteLength before)) .unknown localName publicName module)) :
        Gives (Collection.Consists (IsCovered script)) (next module) := by
      refine gives_bind fun list hlist => gives_pure ?_
      obtain rfl : names = list := by
        have hbetween := Source.codeBetween_byteLength (hfront.trans (List.append_cons _ _ _))
        rw [← List.append_cons, byteLength_append _ ['\x7b']] at hbetween
        exact Except.ok.inj (hbetween.symm.trans hlist)
      rw [hline]
      exact List.foldlRecOn _ _ h fun surface h entry hentry => Source.consists_addClauseEntry h
        (fun localName publicName hnames hsome _ => hmodule entry hentry localName publicName hnames hsome)
        isCovered_of_isOwn
    split_ifs with hword
    · refine gives_bind fun offset' hoffset' => gives_bind fun module hmodule => hnext module ?_
      intro entry hentry localName publicName hnames hsome
      obtain ⟨module, rfl⟩ := Option.isSome_iff_exists.mp hsome
      subst hkeyword hword
      exact writesReexport_of_from hbefore hgap hfront hoffset hfrom hoffset' (Except.ok.inj hmodule) hentry hnames
    · refine gives_bind fun module hmodule => hnext module ?_
      cases hmodule
      exact fun _ _ _ _ _ => nofun

theorem isCovered_addExportStar {surface : Collection} (hm : m ∈ exportStarPattern.findAll (codeOnly script))
    (h : surface.Consists (IsCovered script)) :
    ((Source.of script).addExportStar surface m).Consists (IsCovered script) := by
  unfold Source.addExportStar
  split
  · exact h
  · rename_i module hmodule
    obtain ⟨quote, hquote, hliteral⟩ := Option.bind_eq_some_iff.mp hmodule
    obtain ⟨r, hr⟩ := writes_of_star hm hquote hliteral
    exact h.addExport fun _ => ⟨r, module, hr⟩

end Reading

/-- Every export of a script that is taken from a module is written as a re-export. -/
theorem writesReexport_of_extract {filePath text : String} {language : Language} {snapshot : Snapshot} {e : Export}
    (h : extract filePath language text = .ok snapshot) (he : e ∈ snapshot.exports) (hmodule : e.sourceModule.isSome) :
    WritesReexport text.toList e := by
  refine (consists_of_extract h (fun _ _ _ => isCovered_of_isOwn) (fun _ _ => isCovered_of_isOwn)
    (fun m hm surface h => ?_) (fun m hm surface h => ?_) fun _ _ _ _ => isCovered_of_isOwn).2.1 e he hmodule
  · exact isCovered_addExportClause hm h
  · exact isCovered_addExportStar hm h

end ApiImpact.Script

import ApiImpact.Proofs.Script.Quiet

/-!
# Declarations as a script writes them

What the pattern for declarations takes: words, each with the blanks behind it, and a name. The head that is read off
a match tells the keyword, the name and where the name ends.
-/

namespace ApiImpact.Script

open Text Text.Pattern

variable {groups groups' : Groups} {before piece after gap text rest front : List Char} {word : String} {c : Char}

/-! ## Words in a line -/

theorem isBlank_of_isGap (h : isGap c = true) : isBlank c = true := by
  rw [isGap, Bool.or_eq_true, beq_iff_eq, beq_iff_eq] at h
  rcases h with rfl | rfl <;> decide

/-- The text is the word with blanks behind it. -/
def IsSpaced (word : String) (text : List Char) : Prop :=
  ∃ gap, text = word.toList ++ gap ∧ gap ≠ [] ∧ ∀ c ∈ gap, isGap c = true

theorem IsSpaced.ne_nil (h : IsSpaced word text) : text ≠ [] := by
  obtain ⟨gap, rfl, hne, -⟩ := h
  exact List.append_ne_nil_of_right_ne_nil _ hne

theorem IsSpaced.isNameChar_or_isGap (h : IsSpaced word text) (hword : ∀ c ∈ word.toList, isNameChar c = true) :
    ∀ c ∈ text, isNameChar c = true ∨ isGap c = true := by
  obtain ⟨gap, rfl, -, hgap⟩ := h
  exact fun c hc => (List.mem_append.mp hc).imp (hword c) (hgap c)

theorem fits_spaced_append {next : Pattern} :
    (literal word ++ (most1 isGap ++ next)).Fits groups before piece after groups' ↔
      ∃ text rest, piece = text ++ rest ∧ IsSpaced word text ∧ next.Fits groups (before ++ text) rest after groups' := by
  simp only [fits_literal_append, fits_most1_append]
  constructor
  · rintro ⟨_, rfl, gap, rest, rfl, hne, hgap, hnext⟩
    exact ⟨word.toList ++ gap, rest, by rw [List.append_assoc], ⟨gap, rfl, hne, hgap⟩, by rwa [List.append_assoc] at hnext⟩
  · rintro ⟨_, rest, rfl, ⟨gap, rfl, hne, hgap⟩, hnext⟩
    exact ⟨gap ++ rest, by rw [List.append_assoc], gap, rest, rfl, hne, hgap, by rwa [List.append_assoc]⟩

theorem fits_spaced : (literal word ++ most1 isGap).Fits groups before piece after groups' ↔
    groups' = groups ∧ IsSpaced word piece := by
  rw [fits_literal_append]
  constructor
  · rintro ⟨gap, rfl, hgap⟩
    obtain ⟨rfl, hne, hgap⟩ := fits_most1.mp hgap
    exact ⟨rfl, gap, rfl, hne, hgap⟩
  · rintro ⟨rfl, gap, rfl, hne, hgap⟩
    exact ⟨gap, rfl, fits_most1.mpr ⟨rfl, hne, hgap⟩⟩

/-! ## The words of a declaration -/

/-- The words that begin a declaration without parameters. -/
def plainKeywords : List String := ["class", "const", "let", "var"]

/-- What stands between a keyword and the name behind it: blanks, and a star for a generator. -/
def IsBehind (keyword : String) (text : List Char) : Prop :=
  keyword = "function" ∧ (∃ gap star tail, text = gap ++ (star ++ tail) ∧ (∀ c ∈ gap, isGap c = true) ∧
      (star = [] ∨ star = ['*']) ∧ ∀ c ∈ tail, isGap c = true) ∨
    keyword ∈ plainKeywords ∧ text ≠ [] ∧ ∀ c ∈ text, isGap c = true

/-- The words of a declaration in the order in which they stand, each with the blanks behind it; a word that is left
out is empty. -/
structure DeclarationWords where
  /-- The blanks at the beginning of the line. -/
  indent : List Char
  /-- The word `export`. -/
  exporting : List Char
  /-- The word `default`. -/
  defaulting : List Char
  /-- The word `async`. -/
  modifier : List Char
  keyword : String
  /-- What stands between the keyword and the name. -/
  behind : List Char
  name : List Char
  indent_gap : ∀ c ∈ indent, isGap c = true
  exporting_eq : exporting = [] ∨ IsSpaced "export" exporting
  defaulting_eq : defaulting = [] ∨ exporting ≠ [] ∧ IsSpaced "default" defaulting
  modifier_eq : modifier = [] ∨ IsSpaced "async" modifier
  behind_eq : IsBehind keyword behind
  name_ne : name ≠ []
  name_chars : ∀ c ∈ name, isNameChar c = true

namespace DeclarationWords

variable (d : DeclarationWords)

/-- All before the keyword. -/
def lead : List Char :=
  d.indent ++ (d.exporting ++ (d.defaulting ++ d.modifier))

def chars : List Char :=
  d.lead ++ (d.keyword.toList ++ (d.behind ++ d.name))

end DeclarationWords

namespace DeclarationWords

/-- What a script reads off the declaration behind `before`. -/
def head (d : DeclarationWords) (before : List Char) : DeclarationHead where
  start := byteLength (before ++ d.indent)
  name := .ofList d.name
  afterName := byteLength (before ++ d.chars)
  keyword := d.keyword
  exported := !d.exporting.isEmpty
  isDefault := !d.defaulting.isEmpty

/-- The keyword and the name stand where a match says, and it tells whether `export` and `default` do. -/
structure IsMarked (d : DeclarationWords) (before : List Char) (groups : Groups) : Prop where
  keyword : groups.lookup 4 =
    some ⟨byteLength (before ++ d.lead), byteLength (before ++ d.lead ++ (d.keyword.toList ++ d.behind))⟩
  name : groups.lookup 5 =
    some ⟨byteLength (before ++ d.lead ++ (d.keyword.toList ++ d.behind)), byteLength (before ++ d.chars)⟩
  exported : (groups.lookup 1).isSome = !d.exporting.isEmpty
  isDefault : (groups.lookup 2).isSome = !d.defaulting.isEmpty

end DeclarationWords

theorem exists_of_fits_keyword (h : (firstOf [
      literal "function" ++ wordEdge ++ optional (most isGap ++ char '*') ++ most isGap,
      firstOf [literal "class", literal "const", literal "let", literal "var"] ++ most1 isGap]).Fits
        groups before piece after groups') :
    groups' = groups ∧ ∃ keyword behind, piece = keyword.toList ++ behind ∧ IsBehind keyword behind := by
  rw [fits_firstOf] at h
  obtain ⟨pattern, hpattern, hfits⟩ := h
  simp only [List.mem_cons, List.not_mem_nil, or_false] at hpattern
  rcases hpattern with rfl | rfl
  · simp only [fits_append_assoc, fits_literal_append, fits_wordEdge_append, fits_optional_append, fits_most_append,
      fits_char_append] at hfits
    obtain ⟨_, rfl, -, ⟨gap, _, rfl, hgap, tail, rfl, rfl, htail⟩ | ⟨rfl, htail⟩⟩ := hfits
    · exact ⟨rfl, "function", _, rfl, .inl ⟨rfl, gap, ['*'], tail, rfl, hgap, .inr rfl, htail⟩⟩
    · exact ⟨rfl, "function", _, rfl, .inl ⟨rfl, [], [], _, rfl, nofun, .inl rfl, htail⟩⟩
  · rw [fits_append] at hfits
    obtain ⟨_, behind, recorded, rfl, hword, hbehind⟩ := hfits
    obtain ⟨rfl, hne, hgap⟩ := fits_most1.mp hbehind
    rw [fits_firstOf] at hword
    obtain ⟨pattern, hpattern, hword⟩ := hword
    obtain ⟨word, hmem, rfl⟩ : ∃ word ∈ plainKeywords, literal word = pattern := by
      simpa [plainKeywords, eq_comm] using hpattern
    obtain ⟨rfl, rfl⟩ := fits_literal.mp hword
    exact ⟨rfl, word, behind, rfl, .inr ⟨hmem, hne, hgap⟩⟩

theorem exists_of_fits_exporting (h : (optional (group 1 (literal "export" ++ most1 isGap
      ++ optional (group 2 (literal "default" ++ most1 isGap))))).Fits [] before piece after groups) :
    ∃ exporting defaulting, piece = exporting ++ defaulting ∧ (exporting = [] ∨ IsSpaced "export" exporting) ∧
      (defaulting = [] ∨ exporting ≠ [] ∧ IsSpaced "default" defaulting) ∧
        (groups.lookup 1).isSome = !exporting.isEmpty ∧ (groups.lookup 2).isSome = !defaulting.isEmpty := by
  rcases h with ⟨recorded, h, rfl⟩ | ⟨rfl, rfl⟩
  · simp only [fits_append_assoc, fits_spaced_append] at h
    obtain ⟨exporting, defaulting, rfl, hexporting, h⟩ := h
    have hne : exporting ≠ [] := hexporting.ne_nil
    rcases h with ⟨recorded', h, rfl⟩ | ⟨rfl, rfl⟩
    · obtain ⟨rfl, hdefaulting⟩ := fits_spaced.mp h
      refine ⟨exporting, defaulting, rfl, .inr hexporting, .inr ⟨hne, hdefaulting⟩, ?_, ?_⟩
      · simp [hne]
      · simp [List.lookup_cons, hdefaulting.ne_nil]
    · refine ⟨exporting, [], rfl, .inr hexporting, .inl rfl, ?_, rfl⟩
      simp [hne]
  · exact ⟨[], [], rfl, .inl rfl, .inl rfl, rfl, rfl⟩

theorem exists_of_fits_modifier (h : (optional (group 3 (literal "async" ++ most1 isGap))).Fits groups before piece after groups') :
    (piece = [] ∨ IsSpaced "async" piece) ∧ groups'.lookup 1 = groups.lookup 1 ∧ groups'.lookup 2 = groups.lookup 2 := by
  rcases h with ⟨recorded, h, rfl⟩ | ⟨rfl, rfl⟩
  · obtain ⟨rfl, hspaced⟩ := fits_spaced.mp h
    exact ⟨.inr hspaced, rfl, rfl⟩
  · exact ⟨.inl rfl, rfl, rfl⟩

/-- A match is a declaration at the beginning of a line. -/
theorem exists_of_fits_declaration (h : declarationPattern.Fits [] before piece after groups) :
    (∀ c ∈ before.getLast?, c = '\n') ∧ ∃ d : DeclarationWords, piece = d.chars ∧ d.IsMarked before groups := by
  rw [declarationPattern] at h
  obtain ⟨_, name, _, rfl, ⟨_, _, _, rfl, ⟨_, modifier, marked, rfl, ⟨_, _, recorded, rfl,
    ⟨_, indent, _, rfl, ⟨rfl, rfl, hbefore⟩, rfl, hindent⟩, hexports⟩, hasync⟩, _, hword, rfl⟩, _, hname, rfl⟩ := h
  obtain ⟨exporting, defaulting, rfl, hexporting, hdefaulting, hexported, hisDefault⟩ := exists_of_fits_exporting hexports
  obtain ⟨hmodifier, hfirst, hsecond⟩ := exists_of_fits_modifier hasync
  obtain ⟨rfl, keyword, behind, rfl, hbehind⟩ := exists_of_fits_keyword hword
  obtain ⟨rfl, hne, hchars⟩ := exists_of_fits_scriptName hname
  refine ⟨hbefore, ⟨indent, exporting, defaulting, modifier, keyword, behind, name, hindent, hexporting, hdefaulting, hmodifier,
    hbehind, hne, hchars⟩, ?_, ?_⟩
  · simp only [DeclarationWords.chars, DeclarationWords.lead, List.append_assoc, List.nil_append]
  · refine ⟨?_, ?_, ?_, ?_⟩
    · simp [List.lookup_cons, DeclarationWords.lead]
    · simp [DeclarationWords.chars, DeclarationWords.lead]
    · rw [← hexported, ← hfirst]
      rfl
    · rw [← hisDefault, ← hsecond]
      rfl

/-! ## The head of a declaration -/

theorem IsBehind.mem {keyword : String} (h : IsBehind keyword text) : keyword ∈ "function" :: plainKeywords := by
  rcases h with ⟨rfl, -⟩ | ⟨hmem, -⟩
  · exact List.mem_cons_self
  · exact List.mem_cons_of_mem _ hmem

theorem keyword_chars : ∀ keyword ∈ "function" :: plainKeywords, keyword.toList ≠ [] ∧
    ∀ c ∈ keyword.toList, isBlank c = false ∧ (c == '*') = false := by
  decide

theorem trim_append_gap (h : Trimmed text) (hgap : ∀ c ∈ gap, isGap c = true) : trim (text ++ gap) = text := by
  have htrim : trim ([] ++ (text ++ gap)) = text := h.trim_append (by simp) fun c hc => isBlank_of_isGap (hgap c hc)
  simpa using htrim

theorem IsBehind.trim_keyword {keyword : String} (h : IsBehind keyword text) :
    trim (dropEndWhile (· == '*') (trim (keyword.toList ++ text))) = keyword.toList := by
  obtain ⟨hne, hplain⟩ := keyword_chars keyword h.mem
  have htrimmed : Trimmed keyword.toList := trimmed_of_forall fun c hc => (hplain c hc).1
  have hkept {gap : List Char} (hgap : ∀ c ∈ gap, isGap c = true) :
      dropEndWhile (· == '*') (keyword.toList ++ gap) = keyword.toList ++ gap := by
    refine dropEndWhile_eq_self fun c hc => ?_
    rcases List.mem_append.mp (List.mem_of_mem_getLast? hc) with hc | hc
    · exact (hplain c hc).2
    · refine beq_eq_false_iff_ne.mpr ?_
      rintro rfl
      exact absurd (hgap _ hc) (by decide)
  have hgaps {gap : List Char} (hgap : ∀ c ∈ gap, isGap c = true) :
      trim (dropEndWhile (· == '*') (trim (keyword.toList ++ gap))) = keyword.toList := by
    have hword : dropEndWhile (· == '*') (keyword.toList ++ []) = keyword.toList ++ [] := hkept (by simp)
    rw [List.append_nil] at hword
    rw [trim_append_gap htrimmed hgap, hword, htrimmed.trim_eq]
  rcases h with ⟨-, gap, star, tail, rfl, hgap, rfl | rfl, htail⟩ | ⟨-, -, hgap⟩
  · exact hgaps fun c hc => (List.mem_append.mp hc).elim (hgap c) (htail c)
  · have hstar : Trimmed (keyword.toList ++ (gap ++ ['*'])) := htrimmed.append ⟨by decide, by decide⟩ hne (by simp)
    have hsplit : keyword.toList ++ (gap ++ (['*'] ++ tail)) = keyword.toList ++ (gap ++ ['*']) ++ tail := by simp
    have hdrop : dropEndWhile (· == '*') (keyword.toList ++ gap ++ ['*']) = dropEndWhile (· == '*') (keyword.toList ++ gap) :=
      dropEndWhile_append (by simp)
    rw [hsplit, trim_append_gap hstar htail, ← List.append_assoc, hdrop, hkept hgap, trim_append_gap htrimmed hgap]
  · exact hgaps hgap

namespace DeclarationWords

variable {d : DeclarationWords} {m : Match} {s : Source}

/-- Behind the words `export` and `default` there is the word `async` or the keyword. -/
theorem exists_modifier_or_keyword (d : DeclarationWords) : ∃ word ∈ "async" :: "function" :: plainKeywords, ∃ rest,
    d.modifier ++ (d.keyword.toList ++ (d.behind ++ d.name)) = word.toList ++ rest := by
  rcases d.modifier_eq with hmodifier | ⟨gap, hmodifier, -⟩
  · exact ⟨d.keyword, List.mem_cons_of_mem _ d.behind_eq.mem, d.behind ++ d.name, by rw [hmodifier, List.nil_append]⟩
  · exact ⟨"async", List.mem_cons_self, gap ++ (d.keyword.toList ++ (d.behind ++ d.name)),
      by rw [hmodifier, List.append_assoc]⟩

theorem chars_eq (d : DeclarationWords) :
    d.chars = d.indent ++ (d.exporting ++ (d.defaulting ++ (d.modifier ++ (d.keyword.toList ++ (d.behind ++ d.name))))) := by
  simp only [chars, lead, List.append_assoc]

theorem chars_ne_nil (d : DeclarationWords) : d.chars ≠ [] := by
  simp [chars, d.name_ne]

/-- A word begins behind the indent. -/
theorem exists_word (d : DeclarationWords) : ∃ word ∈ "export" :: "async" :: "function" :: plainKeywords, ∃ rest,
    d.chars = d.indent ++ (word.toList ++ rest) := by
  rw [chars_eq]
  rcases d.exporting_eq with hexporting | ⟨gap, hexporting, -⟩
  · have hdefaulting : d.defaulting = [] := d.defaulting_eq.resolve_right fun h => h.1 hexporting
    obtain ⟨word, hmem, rest, hrest⟩ := d.exists_modifier_or_keyword
    exact ⟨word, List.mem_cons_of_mem _ hmem, rest, by rw [hexporting, hdefaulting, List.nil_append, List.nil_append, hrest]⟩
  · exact ⟨"export", List.mem_cons_self, _, by rw [hexporting, List.append_assoc]⟩

/-- A declaration is one of words, blanks inside the line and the star of a generator. -/
theorem mem_chars (d : DeclarationWords) (h : c ∈ d.chars) : isNameChar c = true ∨ isGap c = true ∨ c = '*' := by
  have hwords : ∀ word ∈ "export" :: "default" :: "async" :: "function" :: plainKeywords, ∀ c ∈ word.toList, isNameChar c = true := by
    decide
  simp only [chars_eq, List.mem_append] at h
  rcases h with h | h | h | h | h | h | h
  · exact .inr (.inl (d.indent_gap c h))
  · rcases d.exporting_eq with hempty | hspaced
    · simp [hempty] at h
    · exact (hspaced.isNameChar_or_isGap (hwords "export" (by simp)) c h).imp_right .inl
  · rcases d.defaulting_eq with hempty | ⟨-, hspaced⟩
    · simp [hempty] at h
    · exact (hspaced.isNameChar_or_isGap (hwords "default" (by simp)) c h).imp_right .inl
  · rcases d.modifier_eq with hempty | hspaced
    · simp [hempty] at h
    · exact (hspaced.isNameChar_or_isGap (hwords "async" (by simp)) c h).imp_right .inl
  · exact .inl (hwords d.keyword (List.mem_cons_of_mem _ (List.mem_cons_of_mem _ (List.mem_cons_of_mem _ d.behind_eq.mem))) c h)
  · rcases d.behind_eq with ⟨-, gap, star, tail, htext, hgap, hstar, htail⟩ | ⟨-, -, hgap⟩
    · rw [htext, List.mem_append, List.mem_append] at h
      rcases h with h | h | h
      · exact .inr (.inl (hgap c h))
      · rcases hstar with rfl | rfl
        · cases h
        · exact .inr (.inr (List.mem_singleton.mp h))
      · exact .inr (.inl (htail c h))
    · exact .inr (.inl (hgap c h))
  · exact .inl (d.name_chars c h)

theorem newline_notMem_chars (d : DeclarationWords) : '\n' ∉ d.chars := by
  intro h
  rcases d.mem_chars h with h | h | h
  · exact absurd h (by decide)
  · exact absurd h (by decide)
  · exact absurd h (by decide)

/-- Nothing else is blank at the beginning. -/
theorem takeWhile_chars (d : DeclarationWords) : d.chars.takeWhile isBlank = d.indent := by
  have hwords : ∀ word ∈ "export" :: "async" :: "function" :: plainKeywords,
      word.toList ≠ [] ∧ ∀ c ∈ word.toList.head?, isBlank c = false := by decide
  obtain ⟨word, hmem, rest, hchars⟩ := d.exists_word
  obtain ⟨hne, hhead⟩ := hwords word hmem
  rw [hchars]
  refine takeWhile_append (fun c hc => isBlank_of_isGap (d.indent_gap c hc)) ?_
  rwa [List.head?_append_of_ne_nil _ hne]

/-- The head of a declaration is read off its match. -/
theorem IsMarked.declarationHead? (h : d.IsMarked before m.groups) (hspan : m.span = ⟨byteLength before, byteLength (before ++ d.chars)⟩)
    (hcode : s.code = before ++ (d.chars ++ after)) : s.declarationHead? m = some (d.head before) := by
  have hchars : before ++ (d.chars ++ after) =
      (before ++ d.lead) ++ ((d.keyword.toList ++ d.behind) ++ (d.name ++ after)) := by simp [chars]
  have hname : before ++ (d.chars ++ after) =
      (before ++ d.lead ++ (d.keyword.toList ++ d.behind)) ++ (d.name ++ after) := by simp [chars]
  have hend : before ++ d.chars = before ++ d.lead ++ (d.keyword.toList ++ d.behind) ++ d.name := by simp [chars]
  have hspanText := Source.spanText_byteLength hcode
  have hkeywordText := Source.spanText_byteLength (hcode.trans hchars)
  have hnameText := Source.spanText_byteLength (hcode.trans hname)
  rw [← hend] at hnameText
  rw [Source.declarationHead?, Match.group?, Match.group?, Match.group?, Match.group?, h.name, h.keyword, h.exported,
    h.isDefault, hspan]
  simp only [Option.bind_eq_bind, Option.bind_some, hspanText, hkeywordText, hnameText, d.takeWhile_chars, d.behind_eq.trim_keyword,
    String.ofList_toList]
  rw [head, byteLength_append before d.indent]

end DeclarationWords

theorem not_fits_declaration_nil : ¬ declarationPattern.Fits [] before [] after groups :=
  not_fits_nil (by decide) before after groups

theorem newline_notMem_of_fits (before piece after : List Char) (groups : Groups)
    (h : declarationPattern.Fits [] before piece after groups) : '\n' ∉ piece := by
  obtain ⟨-, d, rfl, -⟩ := exists_of_fits_declaration h
  exact d.newline_notMem_chars

/-- Every declaration that a script takes in stands in its code. -/
theorem exists_words_of_mem_findAll {s : Source} {m : Match} (hm : m ∈ declarationPattern.findAll s.code) :
    ∃ before d after, s.code = before ++ (DeclarationWords.chars d ++ after) ∧ (∀ c ∈ before.getLast?, c = '\n') ∧
      s.declarationHead? m = some (d.head before) := by
  obtain ⟨before, piece, after, hcode, hfits, hspan⟩ :=
    exists_fits_of_mem_findAll (fun _ _ _ => not_fits_declaration_nil) hm
  obtain ⟨hbefore, d, rfl, hmarked⟩ := exists_of_fits_declaration hfits
  exact ⟨before, d, after, hcode, hbefore, hmarked.declarationHead? hspan hcode⟩

end ApiImpact.Script

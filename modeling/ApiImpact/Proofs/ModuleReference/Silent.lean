import ApiImpact.Proofs.ModuleReference.Words

/-!
# Statements passed over by the other patterns

A pattern finds nothing in a statement of another form, wherever it looks, and nothing in what is left of a
statement behind its opening mark.
-/

namespace ApiImpact.ModuleReference

open Text Text.Pattern

variable {groups groups' : Groups} {before front back piece rest after text : List Char} {c : Char}

/-! ## How matches begin -/

theorem isPlainChar_of_isBlank (h : isBlank c = true) : isPlainChar c = false := by
  by_contra hplain
  rw [isBlank_of_isPlainChar (by simpa using hplain)] at h
  cases h

theorem isPlainChar_of_isQuote (h : isQuote c = true) : isPlainChar c = false := by
  rcases eq_of_isQuote h with rfl | rfl <;> decide

/-- Behind `before` a text begins with `word`, which is a word of its own. -/
structure BeginsWith (word before text : List Char) : Prop where
  behind : ∀ d ∈ before.getLast?, isPlainChar d = false
  ends : ∃ c rest, text = word ++ c :: rest ∧ isPlainChar c = false

theorem isPlainChar_of_atWordEdge (h : atWordEdge (.between before text) = true)
    (htext : text.head?.any isWordChar = true) : ∀ d ∈ before.getLast?, isPlainChar d = false := by
  intro d hd
  by_contra hplain
  have hword : isWordChar d = true := isWordChar_of_isPlainChar (by simpa using hplain)
  rw [(atWordEdge_iff htext).mp h d hd] at hword
  cases hword

/-- The first word of what the pattern of a kind matches. Declarations may begin with several words. -/
def Kind.keyword? : Kind → Option (List Char)
  | importFrom | bareImport | dynamicImport => some "import".toList
  | exportFrom => some "export".toList
  | requireCall => none

theorem beginsWith_of_blanks {word run : List Char} (hbehind : ∀ d ∈ before.getLast?, isPlainChar d = false)
    (hne : run ≠ []) (hrun : ∀ c ∈ run, isBlank c = true) (rest : List Char) :
    BeginsWith word before (word ++ (run ++ rest)) := by
  obtain ⟨c, run, rfl⟩ := List.exists_cons_of_ne_nil hne
  exact ⟨hbehind, c, run ++ rest, rfl, isPlainChar_of_isBlank (hrun c List.mem_cons_self)⟩

theorem beginsWith_of_sign {word blanks : List Char} {d : Char}
    (hbehind : ∀ d ∈ before.getLast?, isPlainChar d = false) (hblanks : ∀ c ∈ blanks, isBlank c = true)
    (hd : isPlainChar d = false) (rest : List Char) : BeginsWith word before (word ++ (blanks ++ d :: rest)) := by
  cases blanks with
  | nil => exact ⟨hbehind, d, rest, rfl, hd⟩
  | cons c blanks => exact beginsWith_of_blanks hbehind (List.cons_ne_nil c blanks) hblanks (d :: rest)

theorem Kind.beginsWith_of_fits {kind : Kind} {word : List Char} (hkind : kind.keyword? = some word)
    (h : kind.pattern.Fits groups before piece after groups') : BeginsWith word before piece := by
  cases kind with
  | importFrom =>
      cases hkind
      simp only [pattern, staticPattern, fits_append_assoc, fits_wordEdge_append, fits_literal_append,
        fits_most1_append] at h
      obtain ⟨hedge, _, rfl, blanks, more, rfl, hne, hblanks, -⟩ := h
      exact beginsWith_of_blanks (isPlainChar_of_atWordEdge hedge rfl) hne hblanks more
  | bareImport =>
      cases hkind
      simp only [pattern, bareImportPattern, fits_append_assoc, fits_wordEdge_append, fits_literal_append,
        fits_most_append] at h
      obtain ⟨hedge, _, rfl, blanks, _, rfl, hblanks, _, ⟨rfl, d, rfl, hd⟩, -⟩ := h
      exact beginsWith_of_sign (isPlainChar_of_atWordEdge hedge rfl) hblanks (isPlainChar_of_isQuote hd) []
  | exportFrom =>
      cases hkind
      simp only [pattern, reexportPattern, fits_append_assoc, fits_wordEdge_append, fits_literal_append,
        fits_most1_append] at h
      obtain ⟨hedge, _, rfl, blanks, more, rfl, hne, hblanks, -⟩ := h
      exact beginsWith_of_blanks (isPlainChar_of_atWordEdge hedge rfl) hne hblanks more
  | dynamicImport =>
      cases hkind
      simp only [pattern, dynamicPattern, fits_append_assoc, fits_wordEdge_append, fits_literal_append,
        fits_most_append, fits_char_append] at h
      obtain ⟨hedge, _, rfl, blanks, _, rfl, hblanks, more, rfl, -⟩ := h
      exact beginsWith_of_sign (isPlainChar_of_atWordEdge hedge rfl) hblanks (by decide) more
  | requireCall => cases hkind

/-- The first sign behind the word `import` in what a pattern matches. -/
def Kind.opens : Kind → Char → Bool
  | importFrom => isClauseChar
  | bareImport => isQuote
  | dynamicImport => (· == '(')
  | exportFrom | requireCall => fun _ => false

/-- The first sign behind `import` tells which pattern matches. -/
theorem Kind.eq_of_opens {kind kind' : Kind} (h : kind.opens c = true) (h' : kind'.opens c = true) : kind = kind' := by
  have hquote : isQuote c = true → isClauseChar c = false := isClauseChar_of_isQuote
  have hparen : c = '(' → isClauseChar c = false ∧ isQuote c = false := by
    rintro rfl
    decide
  cases kind <;> cases kind' <;> simp_all [opens]

/-- `d` is the first sign of `text`. -/
def FirstSign (d : Char) (text : List Char) : Prop :=
  ∃ blanks rest, text = blanks ++ d :: rest ∧ (∀ c ∈ blanks, isBlank c = true) ∧ isBlank d = false

theorem FirstSign.unique {d d' : Char} (h : FirstSign d text) (h' : FirstSign d' text) : d = d' := by
  obtain ⟨blanks, rest, rfl, hblanks, hd⟩ := h
  obtain ⟨blanks', rest', he, hblanks', hd'⟩ := h'
  have hrest := (append_inj_of_stop hblanks (by simpa using hd) hblanks' (by simpa using hd') he).2
  exact (List.cons.inj hrest).1

theorem FirstSign.append (h : FirstSign c text) (rest : List Char) : FirstSign c (text ++ rest) := by
  obtain ⟨blanks, more, rfl, hblanks, hc⟩ := h
  exact ⟨blanks, more ++ rest, by simp, hblanks, hc⟩

theorem exists_firstSign (h : ∃ d ∈ text, isBlank d = false) (rest : List Char) :
    ∃ d ∈ text, FirstSign d (text ++ rest) := by
  obtain ⟨e, he, hblank⟩ := h
  obtain ⟨d, hd⟩ := Option.isSome_iff_exists.mp
    (List.find?_isSome.mpr ⟨e, he, by simpa using hblank⟩ : (text.find? (!isBlank ·)).isSome)
  obtain ⟨hsign, blanks, more, rfl, hblanks⟩ := List.find?_eq_some_iff_append.mp hd
  exact ⟨d, by simp, blanks, more ++ rest, by simp, by simpa using hblanks, by simpa using hsign⟩

theorem isClauseChar_of_isBlank (h : isBlank c = true) : isClauseChar c = true := by
  rw [isClauseChar, h, Bool.or_true]

theorem isClauseChar_of_fits_typeModifier (h : typeModifier.Fits groups before piece after groups') :
    ∀ c ∈ piece, isClauseChar c = true := by
  rcases h with ⟨_, ⟨word, blanks, _, rfl, hword, hblanks⟩, rfl⟩ | ⟨rfl, rfl⟩
  · obtain ⟨rfl, rfl⟩ := fits_literal.mp hword
    rw [List.forall_mem_append]
    exact ⟨by decide, fun c hc => isClauseChar_of_isBlank ((fits_most1.mp hblanks).2.2 c hc)⟩
  · simp

theorem Kind.exists_firstSign_of_fits {kind : Kind} (hkind : kind.keyword? = some "import".toList)
    (h : kind.pattern.Fits groups before ("import".toList ++ text) after groups') :
    ∃ d, FirstSign d text ∧ kind.opens d = true := by
  cases kind with
  | importFrom =>
      simp only [pattern, staticPattern, fits_append_assoc, fits_wordEdge_append, fits_literal_append,
        fits_most1_append] at h
      obtain ⟨-, _, he, blanks, _, rfl, -, hblanks, word, _, _, rfl, hword, clause, _, _, rfl, ⟨_, hclause, rfl⟩, h⟩ := h
      obtain ⟨blanks', blanks'', q, rfl, hblanks', -⟩ := exists_of_fits_fromPattern h
      have hclass : ∀ c ∈ blanks ++ word ++ clause ++ blanks' ++ "from".toList, isClauseChar c = true := by
        simp only [List.forall_mem_append]
        exact ⟨⟨⟨⟨fun _ hc => isClauseChar_of_isBlank (hblanks _ hc), isClauseChar_of_fits_typeModifier hword⟩,
          (fits_most1.mp (fits_fewest1.mp hclause)).2.2⟩, fun _ hc => isClauseChar_of_isBlank (hblanks' _ hc)⟩,
          by decide⟩
      obtain ⟨d, hd, hfirst⟩ : ∃ d ∈ blanks ++ word ++ clause ++ blanks' ++ "from".toList, FirstSign d
          (blanks ++ word ++ clause ++ blanks' ++ "from".toList ++ (blanks'' ++ [q])) :=
        exists_firstSign ⟨'f', by simp, by decide⟩ _
      refine ⟨d, ?_, hclass d hd⟩
      rw [List.append_cancel_left he]
      simpa using hfirst
  | bareImport =>
      simp only [pattern, bareImportPattern, fits_append_assoc, fits_wordEdge_append, fits_literal_append,
        fits_most_append] at h
      obtain ⟨-, _, he, blanks, _, rfl, hblanks, _, ⟨rfl, d, rfl, hd⟩, -⟩ := h
      exact ⟨d, ⟨blanks, [], List.append_cancel_left he, hblanks, isBlank_of_isQuote hd⟩, hd⟩
  | dynamicImport =>
      simp only [pattern, dynamicPattern, fits_append_assoc, fits_wordEdge_append, fits_literal_append,
        fits_most_append, fits_char_append] at h
      obtain ⟨-, _, he, blanks, _, rfl, hblanks, more, rfl, -⟩ := h
      exact ⟨'(', ⟨blanks, more, List.append_cancel_left he, hblanks, by decide⟩, by decide⟩
  | exportFrom => cases hkind
  | requireCall => cases hkind

/-- The first sign behind the first word of an import is that of its form. -/
theorem Statement.exists_firstSign {s : Statement} (h : s.form.keyword = "import".toList) (rest : List Char) :
    ∃ d, FirstSign d (s.form.afterKeyword ++ s.mark.char :: rest) ∧ s.form.kind.opens d = true := by
  have hspace (space : Spacing) {d : Char} (more : List Char) (hd : isBlank d = false) :
      FirstSign d (space.chars ++ d :: more) := ⟨space.chars, more, rfl, fun _ => space.isBlank, hd⟩
  cases hform : s.form with
  | importFrom gap modifier clause space =>
      have hclause : (modifierChars modifier ++ clause.core).all (isOf clauseSigns) = true := by
        rw [List.all_append, all_isOf_modifier, clause.all_isOf]
        rfl
      have hne : modifierChars modifier ++ clause.core ≠ [] := by simp [clause.core_ne_nil]
      have hsome : ∃ d ∈ gap.chars ++ (modifierChars modifier ++ clause.core), isBlank d = false := by
        refine ⟨clause.core.head clause.core_ne_nil, by simp, ?_⟩
        exact clause.trimmed_core.head _ (List.head?_eq_some_head clause.core_ne_nil)
      obtain ⟨d, hd, hfirst⟩ := ModuleReference.exists_firstSign hsome
        (clause.after.chars ++ ("from".toList ++ (space.chars ++ s.mark.char :: rest)))
      refine ⟨d, by simpa [Form.afterKeyword_importFrom] using hfirst, ?_⟩
      rcases List.mem_append.mp hd with hgap | hd
      · exact isClauseChar_of_isBlank (gap.isBlank hgap)
      · exact isClauseChar_of_isOf (List.all_eq_true.mp hclause d hd)
  | bareImport space =>
      have hquote := s.isQuote_mark (by simp [hform])
      exact ⟨s.mark.char, hspace space rest (isBlank_of_isQuote hquote), hquote⟩
  | exportFrom gap modifier clause space =>
      rw [hform] at h
      exact absurd h (by decide : "export".toList ≠ "import".toList)
  | dynamicImport outer inner =>
      refine ⟨'(', ?_, rfl⟩
      simpa [Form.afterKeyword_dynamicImport] using hspace outer (inner.chars ++ s.mark.char :: rest) (by decide : isBlank '(' = false)
  | requireCall declaration outer inner =>
      rw [hform] at h
      cases declaration with
      | none => exact absurd h (by decide : "require".toList ≠ "import".toList)
      | some declaration => exact absurd h (by decide : "const".toList ≠ "import".toList)

theorem Kind.mem_keywords {kind : Kind} {word : List Char} (h : kind.keyword? = some word) : word ∈ keywords := by
  cases kind <;> cases h <;> decide

theorem Form.kind_of_keyword {form : Form} (h : form.keyword = "export".toList) : form.kind = .exportFrom := by
  cases form with
  | exportFrom gap modifier clause space => rfl
  | requireCall declaration outer inner =>
      cases declaration with
      | none => exact absurd h (by decide : "require".toList ≠ "export".toList)
      | some declaration => exact absurd h (by decide : "const".toList ≠ "export".toList)
  | _ => exact absurd h (by decide : "import".toList ≠ "export".toList)

/-- A pattern that begins with one word finds nothing in a statement of another form. -/
theorem Statement.matchAt?_eq_none {s : Statement} {kind : Kind} {word : List Char}
    (hkind : kind.keyword? = some word) (hne : s.form.kind ≠ kind) (hsplit : s.masked = front ++ back)
    (hback : back ≠ []) : kind.pattern.matchAt? (.between (before ++ front) (back ++ after)) = none := by
  refine matchAt?_eq_none_iff.mpr fun piece after' groups' he hfits => hne ?_
  obtain ⟨hbehind, c, rest, rfl, hc⟩ := kind.beginsWith_of_fits hkind hfits
  rw [List.append_assoc, List.cons_append] at he
  obtain ⟨rfl, hword⟩ := s.eq_keyword (kind.mem_keywords hkind) hsplit hback hbehind hc he
  rcases (by simpa [keywords] using kind.mem_keywords hkind : word = "import".toList ∨ word = "export".toList)
    with rfl | rfl
  · obtain ⟨d, hd, hopens⟩ := kind.exists_firstSign_of_fits hkind hfits
    obtain ⟨d', hd', hopens'⟩ := s.exists_firstSign hword.symm s.remainder
    have hbehind : s.form.afterKeyword ++ s.mark.char :: s.remainder ++ after = c :: rest ++ after' := by
      have hmasked : s.masked = "import".toList ++ (s.form.afterKeyword ++ s.mark.char :: s.remainder) := by
        rw [hword]
        simp [masked_eq, opening, s.form.chars_eq]
      rw [← hsplit.trans (List.nil_append back), hmasked, List.append_assoc] at he
      exact List.append_cancel_left he
    have hsame := (hd'.append after).unique (hbehind ▸ hd.append after')
    exact Kind.eq_of_opens hopens' (hsame ▸ hopens)
  · rw [s.form.kind_of_keyword hword.symm]
    cases kind with
    | exportFrom => rfl
    | requireCall => cases hkind
    | _ => exact absurd (Option.some.inj hkind) (by decide)

/-! ## Calls of `require` -/

/-- The words that may begin the declaration of a required module. -/
def declarationWords : List (List Char) := ["const".toList, "let".toList, "var".toList, "import".toList]

theorem fits_braced : braced.Fits groups before piece after groups' ↔
    groups' = groups ∧ ∃ inner, piece = '\x7b' :: (inner ++ ['\x7d']) ∧ '\x7d' ∉ inner := by
  simp only [braced, fits_append_assoc, fits_char_append, fits_most_append, fits_char]
  constructor
  · rintro ⟨_, rfl, inner, _, rfl, hinner, rfl, rfl⟩
    exact ⟨rfl, inner, rfl, fun hm => absurd (hinner _ hm) (by decide)⟩
  · rintro ⟨rfl, inner, rfl, hinner⟩
    exact ⟨_, rfl, inner, _, rfl, fun c hc => bne_iff_ne.mpr (ne_of_mem_of_not_mem hc hinner), rfl, rfl⟩

/-- What a match of a call of `require` begins with: the call, or a declaration up to its sign, behind which the
call follows. -/
theorem exists_of_fits_require (h : requirePattern.Fits groups before piece after groups') :
    (BeginsWith "require".toList before piece ∧
      ∃ blanks rest, piece = "require".toList ++ (blanks ++ '(' :: rest) ∧ ∀ c ∈ blanks, isBlank c = true) ∨
    ∃ word ∈ declarationWords, BeginsWith word before piece ∧ ∃ blanks target blanks' rest,
      piece = word ++ (blanks ++ (target ++ (blanks' ++ '=' :: rest))) ∧ (∀ c ∈ blanks, isBlank c = true) ∧
      (∀ c ∈ blanks', isBlank c = true) ∧ FirstSign 'r' rest ∧ ((∀ c ∈ target, isNameChar c = true) ∨
        ∃ inner, target = '\x7b' :: (inner ++ ['\x7d']) ∧ '\x7d' ∉ inner) := by
  simp only [requirePattern, fits_append_assoc, fits_optional_append] at h
  rcases h with h | h
  · simp only [fits_wordEdge_append] at h
    obtain ⟨hedge, word, _, _, rfl, hword, h⟩ := h
    obtain ⟨pattern, hp, hword⟩ := fits_firstOf.mp hword
    simp only [fits_most1_append] at h
    obtain ⟨blanks, _, rfl, hne, hblanks, target, _, _, rfl, ⟨_, htarget, rfl⟩, h⟩ := h
    simp only [fits_most_append, fits_char_append, fits_wordEdge_append, fits_literal_append] at h
    obtain ⟨blanks', _, rfl, hblanks', _, rfl, blanks'', _, rfl, hblanks'', -, more, rfl, -⟩ := h
    have hdeclares : word ∈ declarationWords := by
      simp only [List.mem_cons, List.not_mem_nil, or_false] at hp
      rcases hp with rfl | rfl | rfl | rfl <;> obtain ⟨-, rfl⟩ := fits_literal.mp hword <;> decide
    have hletter (rest : List Char) : (word ++ rest).head?.any isWordChar = true := by
      simp only [declarationWords, List.mem_cons, List.not_mem_nil, or_false] at hdeclares
      rcases hdeclares with rfl | rfl | rfl | rfl <;> rfl
    rw [List.append_assoc] at hedge
    refine .inr ⟨word, hdeclares, ?_, blanks, target, blanks', blanks'' ++ ("require".toList ++ more), rfl, hblanks,
      hblanks', ⟨blanks'', "equire".toList ++ more, rfl, hblanks'', by decide⟩, ?_⟩
    · exact beginsWith_of_blanks (isPlainChar_of_atWordEdge hedge (hletter _)) hne hblanks _
    · obtain ⟨pattern, hp, htarget⟩ := fits_firstOf.mp htarget
      simp only [List.mem_cons, List.not_mem_nil, or_false] at hp
      rcases hp with rfl | rfl
      · exact .inl (fits_most1.mp htarget).2.2
      · exact .inr (fits_braced.mp htarget).2
  · simp only [fits_wordEdge_append, fits_literal_append, fits_most_append, fits_char_append] at h
    obtain ⟨hedge, _, rfl, blanks, _, rfl, hblanks, more, rfl, -⟩ := h
    exact .inl ⟨beginsWith_of_sign (isPlainChar_of_atWordEdge hedge rfl) hblanks (by decide) more, blanks, more, rfl,
      hblanks⟩

theorem Kind.exists_letter_of_fits {kind : Kind} (h : kind.pattern.Fits groups before piece after groups') :
    ∃ c rest, piece = c :: rest ∧ isPlainChar c = true := by
  have hletter {word rest : List Char} (hword : word.head?.any isPlainChar = true) (hpiece : piece = word ++ rest) :
      ∃ c rest, piece = c :: rest ∧ isPlainChar c = true := by
    cases word with
    | nil => cases hword
    | cons c word => exact ⟨c, word ++ rest, hpiece, hword⟩
  cases hkind : kind.keyword? with
  | some word =>
      obtain ⟨-, c, rest, hpiece, -⟩ := kind.beginsWith_of_fits hkind h
      exact hletter ((by decide : ∀ w ∈ keywords, w.head?.any isPlainChar = true) word (kind.mem_keywords hkind)) hpiece
  | none =>
      cases kind with
      | requireCall =>
          rcases exists_of_fits_require h with ⟨-, blanks, rest, hpiece, -⟩ |
            ⟨word, hword, -, blanks, target, blanks', rest, hpiece, -⟩
          · exact hletter (by decide) hpiece
          · exact hletter
              ((by decide : ∀ w ∈ declarationWords, w.head?.any isPlainChar = true) word hword) hpiece
      | _ => cases hkind

/-- Behind every brace that opens there is one that closes. -/
def BracesClosed (text : List Char) : Prop :=
  ∀ front back, text = front ++ '\x7b' :: back → '\x7d' ∈ back

/-- A text in which a call of `require` cannot begin, whatever follows it. -/
structure Settled (text : List Char) : Prop where
  /-- Nothing is assigned. -/
  unassigned : '=' ∉ text
  /-- Nothing is called, unless it is no call of `require`. -/
  uncalled : '(' ∉ text ∨ 'q' ∉ text
  /-- It ends with a semicolon and a line break. -/
  ended : ∃ body, text = body ++ [';', '\n']
  closed : BracesClosed text

/-- A piece up to a sign lies inside a text that holds another sign behind it. -/
theorem exists_of_mem {sign : Char} (hsign : sign ∈ back) (hpiece : sign ∉ piece)
    (h : back ++ after = piece ++ c :: rest) : ∃ tail, back = piece ++ c :: tail ∧ tail ++ after = rest := by
  rcases List.append_eq_append_iff.mp h with ⟨more, rfl, -⟩ | ⟨more, hback, hmore⟩
  · exact absurd (List.mem_append_left more hsign) hpiece
  · cases more with
    | nil => exact absurd (by simpa [hback] using hsign) hpiece
    | cons d more =>
        obtain ⟨rfl, hrest⟩ := List.cons.inj hmore
        exact ⟨more, hback, hrest.symm⟩

/-- Behind any other character the semicolon is still to come. -/
theorem Settled.semicolon_mem (h : Settled text) (hsplit : text = front ++ back)
    (hother : ∃ d ∈ back, d ≠ ';' ∧ d ≠ '\n') : ';' ∈ back := by
  obtain ⟨body, hbody⟩ := h.ended
  obtain ⟨d, hd, hsemicolon, hbreak⟩ := hother
  rcases List.append_eq_append_iff.mp (hsplit.symm.trans hbody) with ⟨more, -, rfl⟩ | ⟨more, -, hmore⟩
  · simp
  · have hm : d ∈ [';', '\n'] := hmore ▸ List.mem_append_right more hd
    simp [hsemicolon, hbreak] at hm

theorem not_mem_of_isBlank (hc : isBlank c = false) (h : ∀ d ∈ text, isBlank d = true) : c ∉ text := by
  intro hm
  rw [h c hm] at hc
  cases hc

/-- A declaration cannot begin in a settled text: its sign of assignment would have to stand there. -/
theorem Settled.append_ne_declaration (h : Settled text) (hsplit : text = front ++ back) (hsemicolon : ';' ∈ back)
    {word blanks target blanks' : List Char} (hword : word ∈ declarationWords)
    (hblanks : ∀ c ∈ blanks, isBlank c = true) (hblanks' : ∀ c ∈ blanks', isBlank c = true)
    (htarget : (∀ c ∈ target, isNameChar c = true) ∨
      ∃ inner, target = '\x7b' :: (inner ++ ['\x7d']) ∧ '\x7d' ∉ inner) :
    back ++ after ≠ word ++ (blanks ++ (target ++ (blanks' ++ '=' :: rest))) := by
  intro he
  have hnot : ';' ∉ word ∧ ';' ∉ blanks ∧ ';' ∉ blanks' :=
    ⟨(by decide : ∀ w ∈ declarationWords, ';' ∉ w) word hword, not_mem_of_isBlank (by decide) hblanks,
      not_mem_of_isBlank (by decide) hblanks'⟩
  rcases htarget with htarget | ⟨inner, rfl, hinner⟩
  · have htext : ';' ∉ target := fun hm => absurd (htarget _ hm) (by decide)
    obtain ⟨tail, rfl, -⟩ : ∃ tail, back = (word ++ (blanks ++ (target ++ blanks'))) ++ '=' :: tail ∧
        tail ++ after = rest := exists_of_mem hsemicolon (by simp [hnot, htext]) (by simpa using he)
    exact h.unassigned (by simp [hsplit])
  · obtain ⟨tail, rfl, htail⟩ : ∃ tail, back = (word ++ blanks) ++ '\x7b' :: tail ∧
        tail ++ after = inner ++ '\x7d' :: (blanks' ++ '=' :: rest) :=
      exists_of_mem hsemicolon (by simp [hnot]) (by simpa using he)
    have hclose : '\x7d' ∈ tail := h.closed (front ++ (word ++ blanks)) tail (by simp [hsplit])
    obtain ⟨tail, rfl, hbehind⟩ := exists_of_mem hclose hinner htail
    have hlater : ';' ∈ tail := by
      have hbrace : text = (front ++ ((word ++ blanks) ++ '\x7b' :: inner)) ++ '\x7d' :: tail := by simp [hsplit]
      simpa using h.semicolon_mem hbrace ⟨'\x7d', by simp, by decide, by decide⟩
    obtain ⟨more, rfl, -⟩ := exists_of_mem hlater hnot.2.2 hbehind
    exact h.unassigned (by simp [hsplit])

theorem Settled.matchAt?_eq_none (h : Settled text) (hsplit : text = front ++ back) (hne : back ≠ []) :
    requirePattern.matchAt? (.between (before ++ front) (back ++ after)) = none := by
  refine matchAt?_eq_none_iff.mpr fun piece after' groups' he hfits => ?_
  have hsemicolon {d : Char} {more : List Char} (hd : d ≠ ';' ∧ d ≠ '\n') (hpiece : piece = d :: more) :
      ';' ∈ back := by
    obtain ⟨e, back, rfl⟩ := List.exists_cons_of_ne_nil hne
    rw [hpiece] at he
    obtain rfl : e = d := (List.cons.inj he).1
    exact h.semicolon_mem hsplit ⟨e, by simp, hd⟩
  rcases exists_of_fits_require hfits with ⟨-, blanks, rest, hpiece, hblanks⟩ |
    ⟨word, hword, -, blanks, target, blanks', rest, hpiece, hblanks, hblanks', -, htarget⟩
  · have hnot : ';' ∉ "require".toList ++ blanks :=
      List.not_mem_append (by decide) (not_mem_of_isBlank (by decide) hblanks)
    obtain ⟨tail, rfl, -⟩ := exists_of_mem (hsemicolon (by decide) hpiece) hnot
      (by simpa [hpiece] using he : back ++ after = ("require".toList ++ blanks) ++ '(' :: (rest ++ after'))
    rcases h.uncalled with hcall | hcall
    · exact hcall (by simp [hsplit])
    · exact hcall (by simp [hsplit])
  · obtain ⟨d, letters, rfl, hd⟩ : ∃ d letters, word = d :: letters ∧ d ≠ ';' ∧ d ≠ '\n' := by
      simp only [declarationWords, List.mem_cons, List.not_mem_nil, or_false] at hword
      rcases hword with rfl | rfl | rfl | rfl <;> exact ⟨_, _, rfl, by decide, by decide⟩
    exact h.append_ne_declaration hsplit (hsemicolon hd hpiece) hword hblanks hblanks' htarget
      (by simpa [hpiece] using he)

/-! ## Braces -/

theorem bracesClosed_of_not_mem (h : '\x7b' ∉ text) : BracesClosed text := by
  rintro front back rfl
  exact absurd (by simp) h

theorem BracesClosed.append_left (h : BracesClosed back) (hfront : '\x7b' ∉ front) : BracesClosed (front ++ back) := by
  intro before after he
  rcases List.append_eq_append_iff.mp he with ⟨more, -, hmore⟩ | ⟨more, rfl, hmore⟩
  · exact h more after hmore
  · cases more with
    | nil => exact h [] after hmore.symm
    | cons d more =>
        obtain ⟨rfl, -⟩ := List.cons.inj hmore
        exact absurd (by simp) hfront

theorem BracesClosed.append_right (h : BracesClosed front) (hback : '\x7b' ∉ back) : BracesClosed (front ++ back) := by
  intro before after he
  rcases List.append_eq_append_iff.mp he with ⟨more, -, rfl⟩ | ⟨more, rfl, hmore⟩
  · exact absurd (by simp) hback
  · cases more with
    | nil =>
        rw [List.nil_append] at hmore
        exact absurd (by simp [← hmore]) hback
    | cons d more =>
        obtain ⟨rfl, rfl⟩ := List.cons.inj hmore
        exact List.mem_append_left _ (h before more rfl)

theorem Listing.bracesClosed {α : Type} {write : α → List Char} (list : Listing α) (h : '\x7b' ∉ list.inner write) :
    BracesClosed (list.chars write) := by
  intro front back he
  cases front with
  | nil =>
      obtain ⟨-, rfl⟩ := List.cons.inj he
      simp
  | cons d front =>
      have hinner : '\x7b' ∈ list.inner write ++ ['\x7d'] := by
        rw [(List.cons.inj he).2]
        simp
      exact absurd hinner (List.not_mem_append h (by decide))

theorem Bindings.bracesClosed (bindings : Bindings) : BracesClosed bindings.core := by
  cases bindings with
  | whole beforeAs afterAs name after =>
      exact bracesClosed_of_not_mem (not_mem_of_all_isOf (all_isOf_whole beforeAs afterAs name after) (by decide))
  | names list after => exact list.bracesClosed (list.not_mem_inner fun entry => all_isOf_mono (by simp) entry.all_isOf).1

theorem ImportClause.bracesClosed (clause : ImportClause) : BracesClosed clause.core := by
  cases clause with
  | default name after => exact bracesClosed_of_not_mem fun hm => name.ne hm (by decide) rfl
  | bindings inner => exact inner.bracesClosed
  | both name beforeComma afterComma inner =>
      have hall : (name.chars ++ (beforeComma.chars ++ ',' :: afterComma.chars)).all (isOf [',']) = true := by
        simp (disch := decide) [isOf_of_mem]
      have hcore := inner.bracesClosed.append_left (not_mem_of_all_isOf hall (by decide))
      simpa [core] using hcore

theorem ExportClause.bracesClosed (clause : ExportClause) : BracesClosed clause.core := by
  cases clause with
  | star after => exact bracesClosed_of_not_mem (by simp [core])
  | bindings inner => exact inner.bracesClosed

theorem Form.all_isOf_dynamicImport (outer inner : Spacing) :
    (dynamicImport outer inner).chars.all (isOf ['(']) = true := by
  rw [chars_dynamicImport, List.all_append, List.all_append, List.all_cons, all_isOf_of_plain (by decide),
    outer.all_isOf, inner.all_isOf]
  rfl

/-- Nothing is called or assigned outside calls. -/
theorem Form.all_isOf_clauseSigns {form : Form} (hrequire : form.kind ≠ .requireCall)
    (hdynamic : form.kind ≠ .dynamicImport) : form.chars.all (isOf clauseSigns) = true := by
  have himport : "import".toList.all (isOf clauseSigns) = true := all_isOf_of_plain (by decide)
  have hexport : "export".toList.all (isOf clauseSigns) = true := all_isOf_of_plain (by decide)
  have hfrom : "from".toList.all (isOf clauseSigns) = true := all_isOf_of_plain (by decide)
  cases form with
  | importFrom gap modifier clause space =>
      simp only [chars_importFrom, List.all_append, himport, hfrom, Spacing.all_isOf, all_isOf_modifier,
        clause.all_isOf, Bool.and_self]
  | bareImport space => simp only [chars_bareImport, List.all_append, himport, Spacing.all_isOf, Bool.and_self]
  | exportFrom gap modifier clause space =>
      simp only [chars_exportFrom, List.all_append, hexport, hfrom, Spacing.all_isOf, all_isOf_modifier,
        clause.all_isOf, Bool.and_self]
  | dynamicImport outer inner => exact absurd rfl hdynamic
  | requireCall declaration outer inner => exact absurd rfl hrequire

theorem Form.bracesClosed {form : Form} (h : form.kind ≠ .requireCall) : BracesClosed form.chars := by
  have hword (signs : List Char) (text : List Char) (htext : text.all (isOf []) = true) : '\x7b' ∉ text :=
    not_mem_of_all_isOf htext (by decide)
  have hgap (word : String) (hplain : word.toList.all isPlainChar = true) (gap : Gap) (modifier : Option Gap) :
      '\x7b' ∉ word.toList ++ (gap.chars ++ modifierChars modifier) := by
    refine hword [] _ ?_
    rw [List.all_append, List.all_append, all_isOf_of_plain hplain, gap.all_isOf, all_isOf_modifier]
    rfl
  have hfrom (after space : Spacing) : '\x7b' ∉ after.chars ++ ("from".toList ++ space.chars) := by
    refine hword [] _ ?_
    rw [List.all_append, List.all_append, after.all_isOf, all_isOf_of_plain (by decide), space.all_isOf]
    rfl
  cases form with
  | importFrom gap modifier clause space =>
      have hclosed := (clause.bracesClosed.append_right (hfrom clause.after space)).append_left
        (hgap "import" (by decide) gap modifier)
      simpa only [chars_importFrom, List.append_assoc] using hclosed
  | bareImport space =>
      refine bracesClosed_of_not_mem (hword [] _ ?_)
      rw [chars_bareImport, List.all_append, all_isOf_of_plain (by decide), space.all_isOf]
      rfl
  | exportFrom gap modifier clause space =>
      have hclosed := (clause.bracesClosed.append_right (hfrom clause.after space)).append_left
        (hgap "export" (by decide) gap modifier)
      simpa only [chars_exportFrom, List.append_assoc] using hclosed
  | dynamicImport outer inner =>
      exact bracesClosed_of_not_mem (not_mem_of_all_isOf (all_isOf_dynamicImport outer inner) (by decide))
  | requireCall declaration outer inner => exact absurd rfl h

namespace Statement

variable {s : Statement}

theorem all_isOf_remainder : (s.mark.char :: s.remainder).all (isOf [')', ';', '\'', '"', '\x60']) = true := by
  have hmark : isOf [')', ';', '\'', '"', '\x60'] s.mark.char = true := by cases s.mark <;> decide
  have hblanked : s.blanked.all (isOf [')', ';', '\'', '"', '\x60']) = true := by
    refine List.all_eq_true.mpr fun c hc => ?_
    obtain ⟨d, -, hd⟩ := List.mem_flatMap.mp hc
    rcases mem_blankOut hd with rfl | rfl <;> decide
  have hending := all_isOf_mono (by decide : [')', ';'] ⊆ [')', ';', '\'', '"', '\x60']) s.all_isOf_ending
  simp only [remainder, List.all_cons, List.all_append, hmark, hblanked, hending, Bool.and_self]

/-- A call of `require` does not begin in a statement of another form. -/
theorem settled (h : s.form.kind ≠ .requireCall) : Settled s.masked := by
  have hmasked : s.masked = s.form.chars ++ s.mark.char :: s.remainder := by simp [masked_eq, opening]
  have hnot {c : Char} (hc : isOf [')', ';', '\'', '"', '\x60'] c = false) (hform : c ∉ s.form.chars) :
      c ∉ s.masked := by
    rw [hmasked]
    exact List.not_mem_append hform (not_mem_of_all_isOf s.all_isOf_remainder hc)
  have hclosed : BracesClosed s.masked := by
    rw [hmasked]
    exact (Form.bracesClosed h).append_right (not_mem_of_all_isOf s.all_isOf_remainder (by decide))
  by_cases hdynamic : s.form.kind = .dynamicImport
  · cases hform : s.form with
    | dynamicImport outer inner =>
        have hall := Form.all_isOf_dynamicImport outer inner
        have hletter : 'q' ∉ s.masked := by
          have hplain : ∀ {c : Char}, isPlainChar c = false → 'q' ≠ c := by
            rintro c hc rfl
            cases hc
          rw [hmasked, hform, Form.chars_dynamicImport]
          simp only [List.mem_append, List.mem_cons, not_or]
          exact ⟨⟨by decide, fun hm => hplain (outer.isPlainChar_eq_false hm) rfl, by decide,
            fun hm => hplain (inner.isPlainChar_eq_false hm) rfl⟩, hplain s.isPlainChar_mark,
            fun hm => hplain (s.isPlainChar_remainder _ hm) rfl⟩
        exact ⟨hnot (by decide) (hform ▸ not_mem_of_all_isOf hall (by decide)), .inr hletter, s.exists_body, hclosed⟩
    | _ => simp [hform, Form.kind] at hdynamic
  · have hall := Form.all_isOf_clauseSigns h hdynamic
    exact ⟨hnot (by decide) (not_mem_of_all_isOf hall (by decide)),
      .inl (hnot (by decide) (not_mem_of_all_isOf hall (by decide))), s.exists_body, hclosed⟩

/-- No pattern begins a match behind the opening mark of a statement. -/
theorem matchAt?_remainder (kind : Kind) (hsplit : s.remainder = front ++ back) (hne : back ≠ []) :
    kind.pattern.matchAt? (.between (before ++ front) (back ++ after)) = none := by
  refine matchAt?_eq_none_iff.mpr fun piece after' groups' he hfits => ?_
  obtain ⟨c, rest, rfl, hc⟩ := kind.exists_letter_of_fits hfits
  obtain ⟨d, back, rfl⟩ := List.exists_cons_of_ne_nil hne
  obtain rfl : d = c := (List.cons.inj he).1
  rw [s.isPlainChar_remainder d (by simp [hsplit])] at hc
  cases hc

end Statement

end ApiImpact.ModuleReference

import ApiImpact.Proofs.Script.Reexport

/-!
# Re-exports among the references of a script

The references of a script are found by a stricter pattern than its exports are. It fits a re-export just
when that is plain, and what it finds at a plain one names the same module.
-/

namespace ApiImpact.Script

open Text Text.Pattern

/-! ## What the pattern of references fits -/

section Shape

variable {before piece rest text text' : List Char} {groups : Groups} {c mark mark' : Char}

/-- A character of words and of the blanks between them. -/
def isWordy (c : Char) : Bool := isNameChar c || isBlank c

theorem isWordy_of_isBlank (h : isBlank c = true) : isWordy c = true := by
  rw [isWordy, h, Bool.or_true]

theorem isWordy_of_isNameChar (h : isNameChar c = true) : isWordy c = true := by
  rw [isWordy, h, Bool.true_or]

theorem isWordy_of_isQuote (h : ModuleReference.isQuote c = true) : isWordy c = false := by
  rcases ModuleReference.eq_of_isQuote h with rfl | rfl <;> decide

theorem isWordy_of_isModifier (h : IsModifier text) : ∀ c ∈ text, isWordy c = true := by
  rcases h with rfl | ⟨blanks, rfl, hblanks⟩
  · simp
  · rw [List.forall_mem_append]
    exact ⟨by decide, fun c hc => isWordy_of_isBlank (hblanks c hc)⟩

/-- The first sign of a text is the first in every way to cut it. -/
theorem cut_at_sign {rest' : List Char} (h : ∀ c ∈ text, isWordy c = true) (hmark : isWordy mark = false)
    (h' : ∀ c ∈ text', isWordy c = true) (hmark' : isWordy mark' = false)
    (he : text ++ mark :: rest = text' ++ mark' :: rest') : text = text' ∧ mark = mark' ∧ rest = rest' := by
  obtain ⟨htext, hrest⟩ := append_inj_of_stop (p := isWordy) h (by simpa using hmark) h' (by simpa using hmark') he
  exact ⟨htext, List.cons.inj hrest⟩

theorem Taken.isList_iff (taken : Taken) : taken.IsList ↔ taken.sign = '\x7b' := by
  have hstar : '*' ≠ '\x7b' := by decide
  cases taken with
  | list names => exact iff_of_true trivial rfl
  | star => exact iff_of_false id hstar
  | starAs blanks gap name => exact iff_of_false id hstar

theorem Taken.isList_iff_of_sign_eq {taken taken' : Taken} (h : taken.sign = taken'.sign) :
    taken.IsList ↔ taken'.IsList := by
  rw [isList_iff, isList_iff, h]

theorem Taken.IsList.exists_names {taken : Taken} (h : taken.IsList) : ∃ names, taken = list names := by
  cases taken with
  | list names => exact ⟨names, rfl⟩
  | star => exact h.elim
  | starAs blanks gap name => exact h.elim

theorem Taken.isWordy_sign (taken : Taken) : isWordy taken.sign = false := by
  have hsigns : isWordy '\x7b' = false ∧ isWordy '*' = false := by decide
  cases taken with
  | list names => exact hsigns.1
  | star => exact hsigns.2
  | starAs blanks gap name => exact hsigns.2

theorem Taken.not_isQuote_sign (taken : Taken) : ¬ ModuleReference.isQuote taken.sign = true := by
  have hsigns : ¬ ModuleReference.isQuote '\x7b' = true ∧ ¬ ModuleReference.isQuote '*' = true := by decide
  cases taken with
  | list names => exact hsigns.1
  | star => exact hsigns.2
  | starAs blanks gap name => exact hsigns.2

/-- Behind a star there is no sign. -/
theorem Taken.isWordy_body {taken : Taken} (h : taken.IsWritten) (hlist : ¬ taken.IsList) :
    ∀ c ∈ taken.body, isWordy c = true := by
  cases taken with
  | list names => exact absurd trivial hlist
  | star => exact nofun
  | starAs blanks gap name =>
      obtain ⟨hblanks, ⟨-, hgap⟩, -, hname⟩ := h
      have has : ∀ c ∈ "as".toList, isWordy c = true := by decide
      rw [show (starAs blanks gap name).body = blanks ++ ("as".toList ++ (gap ++ name)) from rfl]
      simp only [List.forall_mem_append]
      exact ⟨fun c hc => isWordy_of_isBlank (hblanks c hc), has, fun c hc => isWordy_of_isBlank (hgap c hc),
        fun c hc => isWordy_of_isNameChar (hname c hc)⟩

/-- A piece that the pattern for the references by re-exports fits, taken apart. -/
structure Shape (piece gap modifier : List Char) (taken : Taken) (tail lead : List Char) (mark : Char) : Prop where
  piece_eq : piece = "export".toList ++ (gap ++ (modifier ++ (taken.chars ++ (tail ++
    ("from".toList ++ (lead ++ [mark]))))))
  gap_ne_nil : gap ≠ []
  gap_blank : ∀ c ∈ gap, isBlank c = true
  modifier : IsModifier modifier
  written : taken.IsWritten
  plain : taken.IsPlain
  tail_blank : ∀ c ∈ tail, isBlank c = true
  lead_blank : ∀ c ∈ lead, isBlank c = true
  mark : ModuleReference.isQuote mark = true

theorem isModifier_of_fits {groups groups' : Groups}
    (h : ModuleReference.typeModifier.Fits groups before piece rest groups') : IsModifier piece := by
  rcases h with ⟨_, h, -⟩ | ⟨-, rfl⟩
  · obtain ⟨blanks, rfl, hfits⟩ := fits_literal_append.mp h
    obtain ⟨-, -, hblanks⟩ := fits_most1.mp hfits
    exact .inr ⟨blanks, rfl, hblanks⟩
  · exact .inl rfl

/-- What a re-export takes, as the pattern for references reads it. -/
def takenPattern : Pattern :=
  firstOf [char '*' ++ optional (most1 isBlank ++ literal "as" ++ most1 isBlank ++ most1 ModuleReference.isNameChar),
    ModuleReference.braced]

theorem exists_of_fits_takenPattern {groups groups' : Groups} (h : takenPattern.Fits groups before piece rest groups') :
    groups' = groups ∧ ∃ taken : Taken, piece = taken.chars ∧ taken.IsWritten ∧ taken.IsPlain := by
  rcases h with h | h
  · obtain ⟨more, rfl, h | ⟨rfl, rfl⟩⟩ := fits_char_append.mp h
    · simp only [fits_append_assoc, fits_most1_append, fits_literal_append, fits_most1] at h
      obtain ⟨blanks, _, rfl, hne, hblanks, _, rfl, gap, name, rfl, hgap, hgapBlank, rfl, hname, hnameChar⟩ := h
      exact ⟨rfl, .starAs blanks gap name, rfl, ⟨hblanks, ⟨hgap, hgapBlank⟩, hname, hnameChar⟩, hne⟩
    · exact ⟨rfl, .star, rfl, trivial, trivial⟩
  · obtain ⟨rfl, names, rfl, hnames⟩ := ModuleReference.fits_braced.mp h
    exact ⟨rfl, .list names, rfl, trivial, hnames⟩

theorem fits_takenPattern {groups : Groups} {taken : Taken} (hwritten : taken.IsWritten) (hplain : taken.IsPlain) :
    takenPattern.Fits groups before taken.chars rest groups := by
  cases taken with
  | list names => exact .inr (ModuleReference.fits_braced.mpr ⟨rfl, names, rfl, hplain⟩)
  | star => exact .inl (fits_char_append.mpr ⟨[], rfl, .inr ⟨rfl, rfl⟩⟩)
  | starAs blanks gap name =>
      obtain ⟨hblanks, ⟨hgap, hgapBlank⟩, hname, hnameChar⟩ := hwritten
      refine .inl (fits_char_append.mpr ⟨_, rfl, .inl ?_⟩)
      simp only [fits_append_assoc, fits_most1_append, fits_literal_append, fits_most1, true_and]
      exact ⟨blanks, _, rfl, hplain, hblanks, _, rfl, gap, name, rfl, hgap, hgapBlank, hname, hnameChar⟩

theorem exists_shape_of_fits (h : ModuleReference.reexportPattern.Fits [] before piece rest groups) :
    ∃ gap modifier taken tail lead mark, Shape piece gap modifier taken tail lead mark ∧
      ∃ front, piece = front ++ [mark] ∧ groups.lookup 3 = some (ModuleReference.spanOf (before ++ front) [mark]) := by
  simp only [ModuleReference.reexportPattern, fits_append_assoc, fits_wordEdge_append, fits_literal_append,
    fits_most1_append] at h
  obtain ⟨-, _, rfl, gap, _, rfl, hne, hgap, modifier, _, _, rfl, hmodifier, _, _, _, rfl, ⟨_, htaken, rfl⟩, h⟩ := h
  obtain ⟨-, taken, rfl, hwritten, hplain⟩ := exists_of_fits_takenPattern htaken
  simp only [fits_most_append, fits_literal_append] at h
  obtain ⟨tail, _, rfl, htail, _, rfl, lead, _, rfl, hlead, _, ⟨rfl, mark, rfl, hmark⟩, rfl⟩ := h
  refine ⟨gap, modifier, taken, tail, lead, mark, ⟨rfl, hne, hgap, isModifier_of_fits hmodifier, hwritten, hplain,
    htail, hlead, hmark⟩,
    "export".toList ++ (gap ++ (modifier ++ (taken.chars ++ (tail ++ ("from".toList ++ lead))))), ?_, ?_⟩
  · simp only [List.append_assoc]
  · simp only [List.lookup_cons_self, ModuleReference.spanOf, List.append_assoc]

theorem isBlank_getLast_export (text : List Char) : ∀ c ∈ (text ++ "export".toList).getLast?, isBlank c = false := by
  rw [List.getLast?_append_of_ne_nil _ (by decide)]
  decide

/-- The word `export` is not found a second time before the sign that follows it. -/
theorem keyword_unique {back gap gap' modifier : List Char} (hmodifier : IsModifier modifier)
    (hgap : ∀ c ∈ gap, isBlank c = true) (hgap' : ∀ c ∈ gap', isBlank c = true)
    (he : "export".toList ++ (gap ++ modifier) = back ++ ("export".toList ++ gap')) :
    back = [] ∧ modifier = [] ∧ gap = gap' := by
  rw [← List.append_assoc back] at he
  rcases hmodifier with rfl | ⟨blanks, rfl, hblanks⟩
  · rw [List.append_nil] at he
    obtain ⟨hback, rfl⟩ :=
      append_inj_of_stop_right hgap (isBlank_getLast_export []) hgap' (isBlank_getLast_export back) he
    exact ⟨List.append_left_eq_self.mp hback.symm, rfl, rfl⟩
  · have htype : ∀ c ∈ ("export".toList ++ gap ++ "type".toList).getLast?, isBlank c = false := by
      rw [List.getLast?_append_of_ne_nil _ (by decide)]
      decide
    have hword := (append_inj_of_stop_right hblanks htype hgap' (isBlank_getLast_export back) (by simpa using he)).1
    have hlast := congrArg List.getLast? hword
    rw [List.getLast?_append_of_ne_nil _ (by decide), List.getLast?_append_of_ne_nil _ (by decide)] at hlast
    exact absurd hlast (by decide)

theorem fits_from {groups : Groups} {tail lead : List Char} (htail : ∀ c ∈ tail, isBlank c = true)
    (hlead : ∀ c ∈ lead, isBlank c = true) (hmark : ModuleReference.isQuote mark = true) :
    (most isBlank ++ (literal "from" ++ (most isBlank ++ group 3 (one ModuleReference.isQuote)))).Fits groups before
      (tail ++ ("from".toList ++ (lead ++ [mark]))) rest
      ((3, ModuleReference.spanOf (before ++ tail ++ "from".toList ++ lead) [mark]) :: groups) := by
  simp only [fits_most_append, fits_literal_append]
  exact ⟨tail, _, rfl, htail, _, rfl, lead, _, rfl, hlead, _, ⟨rfl, mark, rfl, hmark⟩, rfl⟩

/-- From the word `from` to the mark there is no sign. -/
theorem isWordy_from {tail lead : List Char} (htail : ∀ c ∈ tail, isBlank c = true)
    (hlead : ∀ c ∈ lead, isBlank c = true) : ∀ c ∈ tail ++ ("from".toList ++ lead), isWordy c = true := by
  simp only [List.forall_mem_append]
  exact ⟨fun c hc => isWordy_of_isBlank (htail c hc), by decide, fun c hc => isWordy_of_isBlank (hlead c hc)⟩

/-- The first closing brace of a text is the first in every way to cut it. -/
theorem cut_at_brace {rest' : List Char} (h : '\x7d' ∉ text) (h' : '\x7d' ∉ text')
    (he : text ++ '\x7d' :: rest = text' ++ '\x7d' :: rest') : text = text' ∧ rest = rest' := by
  have hstop {names : List Char} (hnames : '\x7d' ∉ names) : ∀ c ∈ names, (c != '\x7d') = true :=
    fun c hc => bne_iff_ne.mpr (ne_of_mem_of_not_mem hc hnames)
  obtain ⟨htext, hrest⟩ := append_inj_of_stop (hstop h) (by simp) (hstop h') (by simp) he
  exact ⟨htext, (List.cons.inj hrest).2⟩

end Shape

/-! ## A plain re-export is what it fits -/

section Plain

variable {piece gap modifier tail lead : List Char} {taken : Taken} {mark : Char} {groups : Groups}

/-- The keyword with what may stand between it and the first sign. -/
theorem isWordy_keyword (hgap : ∀ c ∈ gap, isBlank c = true) (hmodifier : IsModifier modifier) :
    ∀ c ∈ "export".toList ++ (gap ++ modifier), isWordy c = true := by
  simp only [List.forall_mem_append]
  exact ⟨by decide, fun c hc => isWordy_of_isBlank (hgap c hc), isWordy_of_isModifier hmodifier⟩

theorem Shape.piece_cut (h : Shape piece gap modifier taken tail lead mark) : piece =
    ("export".toList ++ (gap ++ modifier)) ++
      taken.sign :: (taken.body ++ ((tail ++ ("from".toList ++ lead)) ++ [mark])) := by
  rw [h.piece_eq]
  simp only [Taken.chars, List.append_assoc, List.cons_append]

/-- A star that fits is not followed by the word `as` at once. -/
theorem Shape.body_ne (h : Shape piece gap modifier taken tail lead mark) (hlist : ¬ taken.IsList)
    (rest rest' : List Char) : taken.body ++ ((tail ++ ("from".toList ++ lead)) ++ rest) ≠ 'a' :: rest' := by
  have hblank {blanks more : List Char} (hblanks : ∀ c ∈ blanks, isBlank c = true) (hne : blanks ≠ []) :
      blanks ++ more ≠ 'a' :: rest' := by
    intro he
    obtain ⟨c, blanks, rfl⟩ := List.exists_cons_of_ne_nil hne
    obtain ⟨rfl, -⟩ := List.cons.inj he
    exact absurd (hblanks 'a' List.mem_cons_self) (by decide)
  cases taken with
  | list names => exact absurd trivial hlist
  | star =>
      by_cases hne : tail = []
      · rw [hne]
        exact fun he => absurd (List.cons.inj he).1 (by decide)
      · rw [show Taken.star.body = [] from rfl, List.nil_append, List.append_assoc]
        exact hblank h.tail_blank hne
  | starAs blanks gap name =>
      rw [show (Taken.starAs blanks gap name).body = blanks ++ ("as".toList ++ (gap ++ name)) from rfl,
        List.append_assoc]
      exact hblank h.written.1 h.plain

theorem count_from {tail lead : List Char} (htail : ∀ c ∈ tail, isBlank c = true) (hlead : ∀ c ∈ lead, isBlank c = true)
    (hmark : ModuleReference.isQuote mark = true) :
    ((tail ++ ("from".toList ++ lead)) ++ [mark]).count '\x7d' = 0 := by
  refine List.count_eq_zero.mpr fun hmem => ?_
  have hwordy : isWordy '\x7d' = false := by decide
  rcases List.mem_append.mp hmem with hmem | hmem
  · rw [isWordy_from htail hlead _ hmem] at hwordy
    cases hwordy
  · rw [← List.mem_singleton.mp hmem] at hmark
    exact absurd hmark (by decide)

namespace Reexport

variable (r : Reexport)

theorem chars_cut : r.chars = ("export".toList ++ r.gap) ++
    r.taken.sign :: (r.taken.body ++ ((r.tail ++ ("from".toList ++ r.lead)) ++ [r.mark])) := by
  rw [r.chars_eq]
  simp only [Taken.chars, List.append_assoc, List.cons_append]

/-- From the word `export` up to the mark. -/
def front : List Char :=
  "export".toList ++ (r.gap ++ (r.taken.chars ++ (r.tail ++ ("from".toList ++ r.lead))))

theorem front_eq : r.front =
    "export".toList ++ (r.gap ++ (r.taken.chars ++ (r.tail ++ ("from".toList ++ r.lead)))) := rfl

theorem chars_eq_front : r.chars = r.front ++ [r.mark] := by
  rw [r.chars_eq, r.front_eq]
  simp only [List.append_assoc]

theorem isWordy_export_gap : ∀ c ∈ "export".toList ++ r.gap, isWordy c = true := by
  have h := isWordy_keyword r.gap_blank (.inl rfl)
  rwa [List.append_nil] at h

theorem exists_fits (h : r.IsPlain) :
    ∃ groups, ModuleReference.reexportPattern.Fits [] r.before r.chars r.rest groups := by
  have hedge : atWordEdge (.between r.before (r.chars ++ r.rest)) = true := (atWordEdge_iff rfl).mpr r.edge
  rw [r.chars_eq] at hedge ⊢
  simp only [ModuleReference.reexportPattern, fits_append_assoc, fits_wordEdge_append, fits_literal_append,
    fits_most1_append]
  exact ⟨_, hedge, _, rfl, r.gap, _, rfl, h.gap_ne_nil, r.gap_blank, [], _, _, rfl, .inr ⟨rfl, rfl⟩, r.taken.chars, _, _,
    rfl, ⟨_, fits_takenPattern r.written h.taken, rfl⟩, fits_from r.tail_blank r.lead_blank h.mark⟩

theorem isPlain_of_fits (h : ModuleReference.reexportPattern.Fits [] r.before r.chars r.rest groups) : r.IsPlain := by
  obtain ⟨gap, modifier, taken, tail, lead, mark, hshape, front, hfront, -⟩ := exists_shape_of_fits h
  have hmark : r.mark = mark := by
    rw [r.chars_eq_front] at hfront
    exact List.singleton_inj.mp (List.append_inj' hfront rfl).2
  have he := r.chars_cut.symm.trans hshape.piece_cut
  obtain ⟨hhead, hsign, hbody⟩ := cut_at_sign r.isWordy_export_gap r.taken.isWordy_sign
    (isWordy_keyword hshape.gap_blank hshape.modifier) taken.isWordy_sign he
  obtain ⟨-, -, hgap⟩ := @keyword_unique [] gap r.gap modifier hshape.modifier hshape.gap_blank r.gap_blank hhead.symm
  refine ⟨hgap ▸ hshape.gap_ne_nil, ?_, hmark ▸ hshape.mark⟩
  have hlists := Taken.isList_iff_of_sign_eq hsign
  cases htaken : r.taken with
  | list names =>
      rw [htaken] at hlists hbody
      obtain ⟨names', rfl⟩ := (hlists.mp trivial).exists_names
      have hcount := congrArg (List.count '\x7d') hbody
      simp only [Taken.body, List.count_append, hmark, count_from r.tail_blank r.lead_blank hshape.mark,
        count_from hshape.tail_blank hshape.lead_blank hshape.mark, List.count_eq_zero.mpr hshape.plain] at hcount
      exact List.count_eq_zero.mp (by omega)
  | star => trivial
  | starAs blanks gap' name =>
      rw [htaken] at hlists hbody
      rintro rfl
      exact hshape.body_ne (mt hlists.mpr id) _ _ hbody.symm

/-! ## A match that covers a plain re-export -/

theorem chars_rest_cut : r.chars ++ r.rest = ("export".toList ++ r.gap) ++
    r.taken.sign :: (r.taken.body ++ ((r.tail ++ ("from".toList ++ r.lead)) ++ r.mark :: r.rest)) := by
  rw [r.chars_cut]
  simp only [List.append_assoc, List.cons_append, List.nil_append]

/-- Behind the same sign stands the same mark. -/
theorem mark_eq_of_body (h : r.IsPlain) (hshape : Shape piece gap modifier taken tail lead mark) {after : List Char}
    (hsign : r.taken.sign = taken.sign)
    (he : r.taken.body ++ ((r.tail ++ ("from".toList ++ r.lead)) ++ r.mark :: r.rest) =
      taken.body ++ ((tail ++ ("from".toList ++ lead)) ++ mark :: after)) : r.mark = mark ∧ r.rest = after := by
  have hlists := Taken.isList_iff_of_sign_eq hsign
  have hfrom := isWordy_from r.tail_blank r.lead_blank
  have hfrom' := isWordy_from hshape.tail_blank hshape.lead_blank
  by_cases hlist : taken.IsList
  · obtain ⟨names, rfl⟩ := hlist.exists_names
    obtain ⟨names', htaken⟩ := (hlists.mpr hlist).exists_names
    have hplain := h.taken
    rw [htaken] at he hplain
    have hbraces : names' ++ '\x7d' :: ((r.tail ++ ("from".toList ++ r.lead)) ++ r.mark :: r.rest) =
        names ++ '\x7d' :: ((tail ++ ("from".toList ++ lead)) ++ mark :: after) := by
      simpa only [Taken.body, List.append_assoc, List.cons_append, List.nil_append] using he
    exact (cut_at_sign hfrom (isWordy_of_isQuote h.mark) hfrom' (isWordy_of_isQuote hshape.mark)
      (cut_at_brace hplain hshape.plain hbraces).2).2
  · rw [← List.append_assoc r.taken.body, ← List.append_assoc taken.body] at he
    refine (cut_at_sign ?_ (isWordy_of_isQuote h.mark) ?_ (isWordy_of_isQuote hshape.mark) he).2
    · exact List.forall_mem_append.mpr ⟨Taken.isWordy_body r.written (mt hlists.mp hlist), hfrom⟩
    · exact List.forall_mem_append.mpr ⟨Taken.isWordy_body hshape.written hlist, hfrom'⟩

/-- A re-export does not begin between the last sign of a match and its mark. -/
theorem not_behind_sign {text rest skipped after : List Char} (htext : ∀ c ∈ text, isWordy c = true)
    (hmark : ModuleReference.isQuote mark = true) (hne : rest ≠ []) (hcut : text ++ [mark] = skipped ++ rest)
    (he : r.chars ++ r.rest = rest ++ after) : False := by
  obtain ⟨word, last, rfl⟩ : ∃ word last, rest = word ++ [last] :=
    ⟨rest.dropLast, rest.getLast hne, (List.dropLast_concat_getLast hne).symm⟩
  rw [← List.append_assoc] at hcut
  obtain ⟨rfl, hlast⟩ := List.append_inj' hcut rfl
  obtain rfl := List.singleton_inj.mp hlast
  rw [r.chars_rest_cut, List.append_assoc word] at he
  obtain ⟨-, hsign, -⟩ := cut_at_sign r.isWordy_export_gap r.taken.isWordy_sign
    (fun c hc => htext c (List.mem_append_right _ hc)) (isWordy_of_isQuote hmark) he
  rw [← hsign] at hmark
  exact absurd hmark r.taken.not_isQuote_sign

/-- Inside the list of a match stands nothing but a list that is closed where that of the match is, or a star
that is hidden. -/
theorem mark_eq_of_inside (h : r.IsPlain) (hhidden : ¬ r.IsHidden)
    (hshape : Shape piece gap modifier taken tail lead mark) {front word more after : List Char}
    (hbefore : r.before = front ++ (("export".toList ++ (gap ++ modifier)) ++ '\x7b' :: word))
    (hnames : '\x7d' ∉ word ++ more)
    (he : r.chars ++ r.rest = (more ++ '\x7d' :: ((tail ++ ("from".toList ++ lead)) ++ [mark])) ++ after) :
    r.mark = mark ∧ r.rest = after := by
  have hword : '\x7d' ∉ word := fun hc => hnames (List.mem_append_left _ hc)
  have hmore : '\x7d' ∉ more := fun hc => hnames (List.mem_append_right _ hc)
  by_cases hlist : r.taken.IsList
  · obtain ⟨names, htaken⟩ := hlist.exists_names
    have hplain := h.taken
    rw [htaken] at hplain
    have hopening : '\x7d' ∉ ("export".toList ++ r.gap) ++ '\x7b' :: names := by
      intro hc
      rcases List.mem_append.mp hc with hc | hc
      · exact absurd (r.isWordy_export_gap _ hc) (by decide)
      · rcases List.mem_cons.mp hc with hc | hc
        · exact absurd hc (by decide)
        · exact hplain hc
    rw [r.chars_rest_cut, htaken] at he
    have hbraces : (("export".toList ++ r.gap) ++ '\x7b' :: names) ++
        '\x7d' :: ((r.tail ++ ("from".toList ++ r.lead)) ++ r.mark :: r.rest) =
          more ++ '\x7d' :: ((tail ++ ("from".toList ++ lead)) ++ mark :: after) := by
      simpa only [Taken.body, Taken.sign, List.append_assoc, List.cons_append, List.nil_append] using he
    exact (cut_at_sign (isWordy_from r.tail_blank r.lead_blank) (isWordy_of_isQuote h.mark)
      (isWordy_from hshape.tail_blank hshape.lead_blank) (isWordy_of_isQuote hshape.mark)
      (cut_at_brace hopening hmore hbraces).2).2
  · refine absurd ⟨hlist, front, gap, modifier, word, ?_, ⟨hshape.gap_ne_nil, hshape.gap_blank⟩, hshape.modifier,
      hword⟩ hhidden
    rw [hbefore]
    simp only [List.append_assoc]

/-- A match that covers a plain re-export ends with its mark, unless the re-export stands in a list. -/
theorem mark_eq_of_covers (h : r.IsPlain) (hhidden : ¬ r.IsHidden)
    (hshape : Shape piece gap modifier taken tail lead mark) {front back rest after : List Char}
    (hbefore : r.before = front ++ back) (hpiece : piece = back ++ rest) (hne : rest ≠ [])
    (he : r.chars ++ r.rest = rest ++ after) : r.mark = mark ∧ r.rest = after := by
  have hfrom := isWordy_from hshape.tail_blank hshape.lead_blank
  have hcut := hpiece.symm.trans hshape.piece_cut
  rcases List.append_eq_append_iff.mp hcut with ⟨word, hword, rfl⟩ | ⟨word, rfl, hrest⟩
  · -- The re-export begins before the first sign of the match, so at the beginning of the match.
    have hsame := he
    rw [r.chars_rest_cut, List.append_assoc word, List.cons_append] at hsame
    have hwordy : ∀ c ∈ word, isWordy c = true := fun c hc =>
      isWordy_keyword hshape.gap_blank hshape.modifier c (hword ▸ List.mem_append_right back hc)
    obtain ⟨rfl, hsign, hbody⟩ := cut_at_sign r.isWordy_export_gap r.taken.isWordy_sign hwordy taken.isWordy_sign hsame
    refine r.mark_eq_of_body h hshape hsign (hbody.trans ?_)
    simp only [List.append_assoc, List.cons_append, List.nil_append]
  · cases word with
    | nil =>
        obtain rfl : _ = rest := hrest
        have hletter : 'e' = taken.sign := Option.some.inj (congrArg List.head? he)
        have hsign := taken.isWordy_sign
        rw [← hletter] at hsign
        exact absurd hsign (by decide)
    | cons sign word =>
        obtain ⟨rfl, hinside⟩ := List.cons.inj hrest
        have hbody : taken.body ++ ((tail ++ ("from".toList ++ lead)) ++ [mark]) = word ++ rest := hinside
        by_cases hlist : taken.IsList
        · obtain ⟨names, rfl⟩ := hlist.exists_names
          have hnames : names ++ '\x7d' :: ((tail ++ ("from".toList ++ lead)) ++ [mark]) = word ++ rest := by
            simpa only [Taken.body, List.append_assoc, List.cons_append, List.nil_append] using hbody
          rcases List.append_eq_append_iff.mp hnames with ⟨more, rfl, hmore⟩ | ⟨more, rfl, rfl⟩
          · cases more with
            | nil =>
                obtain rfl : _ = rest := hmore
                have hletter : 'e' = '\x7d' := Option.some.inj (congrArg List.head? he)
                exact absurd hletter (by decide)
            | cons brace more => exact (r.not_behind_sign hfrom hshape.mark hne (List.cons.inj hmore).2 he).elim
          · have hplain : '\x7d' ∉ word ++ more := hshape.plain
            exact r.mark_eq_of_inside h hhidden hshape hbefore hplain he
        · rw [← List.append_assoc] at hbody
          have hwordy : ∀ c ∈ taken.body ++ (tail ++ ("from".toList ++ lead)), isWordy c = true :=
            List.forall_mem_append.mpr ⟨Taken.isWordy_body hshape.written hlist, hfrom⟩
          exact (r.not_behind_sign hwordy hshape.mark hne hbody he).elim

end Reexport

end Plain

/-! ## The reference -/

theorem not_fits_reexport_nil {before after : List Char} {groups : Groups} :
    ¬ ModuleReference.reexportPattern.Fits [] before [] after groups := by
  intro h
  obtain ⟨gap, modifier, taken, tail, lead, mark, hshape, -⟩ := exists_shape_of_fits h
  have hlength := congrArg List.length hshape.piece_eq
  simp at hlength

namespace Reexport

/-- A match that ends at the mark of a plain re-export is there, unless the re-export is hidden. -/
theorem exists_match {r : Reexport} (h : r.IsPlain) (hhidden : ¬ r.IsHidden) :
    ∃ m ∈ ModuleReference.reexportPattern.findAll r.code,
      m.group? 3 = some (ModuleReference.spanOf (r.before ++ r.front) [r.mark]) := by
  obtain ⟨groups, hfits⟩ := r.exists_fits h
  obtain ⟨m, hm, front, back, rest, after, hbefore, hne, he, hcovers, -⟩ :=
    exists_mem_findAll_of_fits (fun _ _ _ => not_fits_reexport_nil) hfits
  obtain ⟨gap, modifier, taken, tail, lead, mark, hshape, whole, hwhole, hgroup⟩ := exists_shape_of_fits hcovers
  obtain ⟨rfl, rfl⟩ := r.mark_eq_of_covers h hhidden hshape hbefore rfl hne he
  have hsame : (front ++ whole) ++ ([r.mark] ++ r.rest) = (r.before ++ r.front) ++ ([r.mark] ++ r.rest) := by
    calc (front ++ whole) ++ ([r.mark] ++ r.rest)
      _ = front ++ ((whole ++ [r.mark]) ++ r.rest) := by simp only [List.append_assoc]
      _ = (front ++ back) ++ (rest ++ r.rest) := by rw [← hwhole]; simp only [List.append_assoc]
      _ = r.before ++ (r.chars ++ r.rest) := by rw [hbefore, he]
      _ = (r.before ++ r.front) ++ ([r.mark] ++ r.rest) := by rw [r.chars_eq_front]; simp only [List.append_assoc]
  rw [List.append_cancel_right hsame] at hgroup
  exact ⟨m, hm, hgroup⟩

/-- A plain re-export that is not hidden is among the references. -/
theorem exists_static_mem_extract {r : Reexport} {source module : String} (h : r.IsPlain) (hhidden : ¬ r.IsHidden)
    (hcode : r.code = codeOnly source.toList) (hmodule : r.module? source.toList = some module) (hne : module ≠ "") :
    ∃ line typeOnly names, .static module line typeOnly true names ∈ ModuleReference.extract source := by
  obtain ⟨m, hm, hgroup⟩ := exists_match h hhidden
  obtain ⟨contents, hcontents, rfl⟩ := Option.map_eq_some_iff.mp hmodule
  rw [r.chars_eq_front, ← List.append_assoc r.before] at hcontents
  have hsplit : (ModuleReference.Masks.of source.toList).code =
      (r.before ++ r.front) ++ ([r.mark] ++ (r.contents ++ r.mark :: r.after)) := by
    refine hcode.symm.trans ?_
    rw [code, r.chars_eq_front]
    simp only [rest, List.append_assoc]
  have hcontents_ne : contents ≠ [] := by
    rintro rfl
    exact hne rfl
  have hquoted := ModuleReference.Masks.quoted?_eq hgroup hsplit r.closed hcontents hcontents_ne
  rw [hcode] at hm
  exact ⟨_, _, _, @ModuleReference.Kind.mem_extract .exportFrom _ _ _ _ hm hquoted rfl⟩

end Reexport

end ApiImpact.Script

import ApiImpact.Proofs.Script.Reexport
import ApiImpact.Proofs.Surface.Reexports
import ApiImpact.Proofs.Text.Blank

/-!
# Code in which no export is found

Apart from the declarations, which begin lines, exports are found by a word and the sign behind it. Code that
holds no such word is passed over, whatever stands around it.
-/

namespace ApiImpact.Script

open Text Text.Pattern

variable {pattern : Pattern} {groups : Groups} {before piece after code word : List Char} {c : Char}

/-- The patterns that find exports by a word. -/
def exportPatterns : List Pattern :=
  [exportDefaultPattern, exportClausePattern, exportStarPattern, moduleExportsPattern, exportsPropertyPattern,
    definePropertyPattern]

/-- A word by which exports are found, and the sign behind it. -/
def IsSignal (word : List Char) (sign : Char) : Prop :=
  word = "export".toList ∧ isNameChar sign = false ∨
    word ∈ ["module", "exports", "Object"].map (·.toList) ∧ sign = '.'

theorem isNameChar_of_isBlank (h : isBlank c = true) : isNameChar c = false := by
  have hdollar : c ≠ '$' := by
    rintro rfl
    exact absurd h (by decide)
  simp [isNameChar, isWordChar_of_isBlank h, hdollar]

/-- What stands behind blanks or at once is no part of a name if neither blanks nor the sign are. -/
theorem exists_sign (run : List Char) (hrun : ∀ d ∈ run, isBlank d = true) (hc : isNameChar c = false)
    (rest : List Char) : ∃ d more, run ++ c :: rest = d :: more ∧ isNameChar d = false := by
  cases run with
  | nil => exact ⟨c, rest, rfl, hc⟩
  | cons d run => exact ⟨d, run ++ c :: rest, rfl, isNameChar_of_isBlank (hrun d List.mem_cons_self)⟩

/-- The patterns for exports behind the word `export`, and the word or sign with which each of them goes on. -/
def followedPatterns : List (Pattern × String) :=
  [(exportDefaultPattern, "default"), (exportClausePattern, "\x7b"), (exportStarPattern, "*")]

/-- A pattern goes on with its word or sign behind `export` and blanks. -/
theorem exists_follower_of_fits {follower : String} (hpattern : (pattern, follower) ∈ followedPatterns)
    (h : pattern.Fits [] before piece after groups) : (∀ d ∈ before.getLast?, isWordChar d = false) ∧ ∃ blanks more,
      piece = "export".toList ++ (blanks ++ (follower.toList ++ more)) ∧ (∀ c ∈ blanks, isBlank c = true) ∧
        ∀ d ∈ (blanks ++ follower.toList).head?, isNameChar d = false := by
  have hhead {sign : Char} (hsign : isNameChar sign = false) {blanks : List Char} (hblanks : ∀ c ∈ blanks, isBlank c = true) :
      ∀ d ∈ (blanks ++ [sign]).head?, isNameChar d = false := by
    obtain ⟨e, more, he, hname⟩ := exists_sign blanks hblanks hsign []
    rw [he]
    exact fun d hd => Option.some.inj hd ▸ hname
  simp only [followedPatterns, List.mem_cons, Prod.mk.injEq, List.not_mem_nil, or_false] at hpattern
  rcases hpattern with ⟨rfl, rfl⟩ | ⟨rfl, rfl⟩ | ⟨rfl, rfl⟩
  · simp only [exportDefaultPattern, fits_append_assoc, fits_wordEdge_append, fits_literal_append, fits_most1_append] at h
    obtain ⟨hedge, _, rfl, blanks, _, rfl, hne, hblanks, more, rfl, -⟩ := h
    refine ⟨(atWordEdge_iff (by rfl)).mp hedge, blanks, more, rfl, hblanks, ?_⟩
    rw [List.head?_append_of_ne_nil _ hne]
    exact fun d hd => isNameChar_of_isBlank (hblanks d (List.mem_of_mem_head? hd))
  · obtain ⟨blanks, rfl, hedge, hblanks⟩ := exists_of_fits_exportClause h
    exact ⟨hedge, blanks, [], rfl, hblanks, hhead (by decide) hblanks⟩
  · simp only [exportStarPattern, fits_append_assoc, fits_wordEdge_append, fits_literal_append, fits_most_append,
      fits_char_append] at h
    obtain ⟨hedge, _, rfl, blanks, _, rfl, hblanks, more, rfl, -⟩ := h
    exact ⟨(atWordEdge_iff (by rfl)).mp hedge, blanks, more, rfl, hblanks, hhead (by decide) hblanks⟩

/-- The patterns for assignments to the exports. -/
def assignedPatterns : List Pattern := [moduleExportsPattern, exportsPropertyPattern, definePropertyPattern]

/-- A pattern for assignments begins with a word and a dot, and goes on to the word `export`. -/
theorem exists_dotted_of_fits (hpattern : pattern ∈ assignedPatterns) (h : pattern.Fits [] before piece after groups) :
    (∀ d ∈ before.getLast?, isWordChar d = false) ∧ ∃ word more, piece = word ++ '.' :: more ∧
      word ∈ ["module", "exports", "Object"].map (·.toList) ∧
        ∃ lead rest, piece = lead ++ ("export".toList ++ rest) ∧ '\x7d' ∉ lead := by
  have hobject {next : Pattern} {groups' : Groups} {before' piece' : List Char}
      (h : (exportsObject ++ next).Fits groups' before' piece' after groups) :
      ∃ lead rest, piece' = lead ++ ("export".toList ++ 's' :: rest) ∧ lead ∈ ["module.".toList, []] ∧
        ∃ before'', next.Fits groups' before'' rest after groups := by
    simp only [exportsObject, fits_append_assoc, fits_optional_append, fits_literal_append] at h
    rcases h with ⟨_, rfl, rest, rfl, h⟩ | ⟨rest, rfl, h⟩
    · exact ⟨"module.".toList, rest, rfl, by simp, _, h⟩
    · exact ⟨[], rest, rfl, by simp, _, h⟩
  simp only [assignedPatterns, List.mem_cons, List.not_mem_nil, or_false] at hpattern
  rcases hpattern with rfl | rfl | rfl
  · simp only [moduleExportsPattern, fits_append_assoc, fits_wordEdge_append, fits_literal_append] at h
    obtain ⟨hedge, rest, rfl, -⟩ := h
    exact ⟨(atWordEdge_iff (by rfl)).mp hedge, "module".toList, _, rfl, by simp, "module.".toList, 's' :: rest, rfl, by decide⟩
  · simp only [exportsPropertyPattern, fits_append_assoc, fits_wordEdge_append] at h
    obtain ⟨hedge, h⟩ := h
    obtain ⟨lead, rest, rfl, hlead, _, hdot⟩ := hobject h
    rw [fits_char_append] at hdot
    obtain ⟨name, rfl, -⟩ := hdot
    simp only [List.mem_cons, List.not_mem_nil, or_false] at hlead
    rcases hlead with rfl | rfl
    · exact ⟨(atWordEdge_iff (by rfl)).mp hedge, "module".toList, _, rfl, by simp, "module.".toList, _, rfl, by decide⟩
    · exact ⟨(atWordEdge_iff (by rfl)).mp hedge, "exports".toList, _, rfl, by simp, [], _, rfl, by simp⟩
  · simp only [definePropertyPattern, fits_append_assoc, fits_wordEdge_append, fits_literal_append, fits_most_append] at h
    obtain ⟨hedge, _, rfl, blanks, _, rfl, hblanks, h⟩ := h
    obtain ⟨lead, rest, rfl, hlead, -⟩ := hobject h
    refine ⟨(atWordEdge_iff (by rfl)).mp hedge, "Object".toList, _, rfl, by simp,
      "Object.defineProperty(".toList ++ (blanks ++ lead), 's' :: rest, by simp, ?_⟩
    have hleads : ∀ lead ∈ ["module.".toList, []], '\x7d' ∉ lead := by decide
    simp only [List.mem_append, not_or]
    exact ⟨by decide, fun hmem => absurd (hblanks _ hmem) (by decide), hleads lead hlead⟩

theorem mem_exportPatterns (h : pattern ∈ exportPatterns) :
    (∃ follower, (pattern, follower) ∈ followedPatterns) ∨ pattern ∈ assignedPatterns := by
  simp only [exportPatterns, List.mem_cons, List.not_mem_nil, or_false] at h
  rcases h with rfl | rfl | rfl | rfl | rfl | rfl
  · exact .inl ⟨"default", by simp [followedPatterns]⟩
  · exact .inl ⟨"\x7b", by simp [followedPatterns]⟩
  · exact .inl ⟨"*", by simp [followedPatterns]⟩
  · exact .inr (by simp [assignedPatterns])
  · exact .inr (by simp [assignedPatterns])
  · exact .inr (by simp [assignedPatterns])

theorem exists_signal_of_fits (hpattern : pattern ∈ exportPatterns) (h : pattern.Fits [] before piece after groups) :
    (∀ d ∈ before.getLast?, isWordChar d = false) ∧
      ∃ word sign more, piece = word ++ sign :: more ∧ IsSignal word sign := by
  rcases mem_exportPatterns hpattern with ⟨follower, hfollowed⟩ | hassigned
  · obtain ⟨hedge, blanks, more, rfl, -, hsign⟩ := exists_follower_of_fits hfollowed h
    have hfollowers : ∀ entry ∈ followedPatterns, entry.2.toList ≠ [] := by
      simp [followedPatterns]
    obtain ⟨d, rest, hd⟩ := List.exists_cons_of_ne_nil (List.append_ne_nil_of_right_ne_nil blanks (hfollowers _ hfollowed))
    rw [hd] at hsign
    rw [← List.append_assoc blanks, hd]
    exact ⟨hedge, "export".toList, d, rest ++ more, rfl, .inl ⟨rfl, hsign d rfl⟩⟩
  · obtain ⟨hedge, word, more, rfl, hword, -⟩ := exists_dotted_of_fits hassigned h
    exact ⟨hedge, word, '.', more, rfl, .inr ⟨hword, rfl⟩⟩

/-- Every pattern for exports holds the word `export`, and no closing brace before it. -/
theorem exists_export_of_fits (hpattern : pattern ∈ exportPatterns) (h : pattern.Fits [] before piece after groups) :
    ∃ lead more, piece = lead ++ ("export".toList ++ more) ∧ '\x7d' ∉ lead := by
  rcases mem_exportPatterns hpattern with ⟨follower, hfollowed⟩ | hassigned
  · obtain ⟨-, blanks, more, rfl, -⟩ := exists_follower_of_fits hfollowed h
    exact ⟨[], _, rfl, List.not_mem_nil⟩
  · obtain ⟨-, -, -, -, -, hlead⟩ := exists_dotted_of_fits hassigned h
    exact hlead

/-! ## Quiet code -/

/-- No export is found by a word at any place of the code, whatever stands around it. -/
def Quiet (code : List Char) : Prop :=
  ∀ pattern ∈ exportPatterns, ∀ before front back after, code = front ++ back → back ≠ [] →
    pattern.matchAt? (.between (before ++ front) (back ++ after)) = none

theorem quiet_nil : Quiet [] := by
  rintro pattern - before front back after he hne
  exact absurd (List.append_eq_nil_iff.mp he.symm).2 hne

theorem Quiet.append {code' : List Char} (h : Quiet code) (h' : Quiet code') : Quiet (code ++ code') := by
  intro pattern hpattern before front back after he hne
  rcases List.append_eq_append_iff.mp he with ⟨more, rfl, rfl⟩ | ⟨more, rfl, rfl⟩
  · rw [← List.append_assoc]
    exact h' pattern hpattern (before ++ code) more back after rfl hne
  · cases more with
    | nil =>
        simpa using h' pattern hpattern (before ++ front) [] code' after rfl hne
    | cons c more =>
        rw [List.append_assoc]
        exact h pattern hpattern before front (c :: more) (code' ++ after) rfl (List.cons_ne_nil _ _)

/-- Where a pattern fits, a word with its sign begins. -/
theorem matchAt?_eq_none_of_signal {ahead : List Char} (hpattern : pattern ∈ exportPatterns)
    (h : ∀ word sign more, ahead = word ++ sign :: more → IsSignal word sign →
      ∃ d ∈ before.getLast?, isWordChar d = true) : pattern.matchAt? (.between before ahead) = none := by
  refine matchAt?_eq_none_iff.mpr fun piece after groups he hfits => ?_
  obtain ⟨hedge, word, sign, more, rfl, hsignal⟩ := exists_signal_of_fits hpattern hfits
  obtain ⟨d, hd, hword⟩ := h word sign (more ++ after) (by simp [he]) hsignal
  exact absurd hword (by simp [hedge d hd])

theorem IsSignal.head {sign : Char} (h : IsSignal word sign) : ∃ c rest, word = c :: rest ∧ c ∈ ['e', 'm', 'O'] := by
  rcases h with ⟨rfl, -⟩ | ⟨hword, -⟩
  · exact ⟨'e', _, rfl, by simp⟩
  · simp only [List.map_cons, List.map_nil, List.mem_cons, List.not_mem_nil, or_false] at hword
    rcases hword with rfl | rfl | rfl
    · exact ⟨'m', _, rfl, by simp⟩
    · exact ⟨'e', _, rfl, by simp⟩
    · exact ⟨'O', _, rfl, by simp⟩

/-- A text is quiet if no word by which exports are found begins in it. -/
theorem quiet_of_forall (h : ∀ c ∈ code, c ∉ ['e', 'm', 'O']) : Quiet code := by
  intro pattern hpattern before front back after he hne
  refine matchAt?_eq_none_of_signal hpattern fun word sign more hahead hsignal => ?_
  obtain ⟨c, rest, rfl, hc⟩ := hsignal.head
  obtain ⟨d, back, rfl⟩ := List.exists_cons_of_ne_nil hne
  obtain ⟨rfl, -⟩ := List.cons.inj hahead
  exact absurd hc (h d (by simp [he]))

/-- The word is not `export`, and does not end in it behind a dollar sign. -/
structure IsQuietWord (word : List Char) : Prop where
  chars : ∀ c ∈ word, isNameChar c = true
  ne : word ≠ "export".toList
  no_suffix : ¬ "$export".toList <:+ word

theorem IsSignal.chars {sign : Char} (h : IsSignal word sign) :
    (∀ c ∈ word, isNameChar c = true) ∧ isNameChar sign = false := by
  rcases h with ⟨rfl, hsign⟩ | ⟨hword, rfl⟩
  · exact ⟨by decide, hsign⟩
  · simp only [List.map_cons, List.map_nil, List.mem_cons, List.not_mem_nil, or_false] at hword
    rcases hword with rfl | rfl | rfl <;> exact ⟨by decide, by decide⟩

/-- Behind a cut of a text with one sign more the text goes on up to the sign. -/
theorem exists_of_append_sign {front back : List Char} (he : code ++ [c] = front ++ back) (hne : back ≠ []) :
    ∃ rest, code = front ++ rest ∧ back = rest ++ [c] := by
  have hlast := List.dropLast_append_getLast hne
  rw [← hlast, ← List.append_assoc] at he
  obtain ⟨hcode, hc⟩ := List.append_inj' he rfl
  rw [← hc] at hlast
  exact ⟨back.dropLast, hcode, hlast.symm⟩

/-- A word with a sign behind it is quiet. -/
theorem IsQuietWord.quiet (h : IsQuietWord word) (hc : isNameChar c = false) (hdot : c ≠ '.') : Quiet (word ++ [c]) := by
  intro pattern hpattern before front back after he hne
  refine matchAt?_eq_none_of_signal hpattern fun signal sign more hahead hsignal => ?_
  obtain ⟨hchars, hsign⟩ := hsignal.chars
  obtain ⟨rest, rfl, rfl⟩ := exists_of_append_sign he hne
  rw [List.append_assoc, List.singleton_append] at hahead
  obtain ⟨rfl, hmore⟩ := append_inj_of_stop (p := isNameChar) (fun d hd => h.chars d (by simp [hd]))
    (by simpa using hc) hchars (by simpa using hsign) hahead
  obtain ⟨rfl, -⟩ := List.cons.inj hmore
  rcases hsignal with ⟨rfl, -⟩ | ⟨-, rfl⟩
  · rcases List.eq_nil_or_concat front with rfl | ⟨front, d, rfl⟩
    · exact absurd rfl h.ne
    · refine ⟨d, by simp, ?_⟩
      have hname : isNameChar d = true := h.chars d (by simp)
      by_contra hedge
      have hd : d = '$' := by simpa [isNameChar, hedge] using hname
      exact h.no_suffix ⟨front, by simp [hd]⟩
  · exact absurd rfl hdot

/-- A word with blanks and a sign behind it is quiet, whatever word it is, if no pattern goes on with the sign. -/
theorem quiet_word_append {gap : List Char} (hword : ∀ d ∈ word, isNameChar d = true) (hgap : ∀ d ∈ gap, isBlank d = true)
    (hname : isNameChar c = false) (hblank : isBlank c = false) (hc : c ∉ ['.', '\x7b', '*']) : Quiet (word ++ (gap ++ [c])) := by
  intro pattern hpattern before front back after he hne
  refine matchAt?_eq_none_iff.mpr fun piece after' groups hpiece hfits => ?_
  rw [← List.append_assoc] at he
  obtain ⟨rest, hrest, rfl⟩ := exists_of_append_sign he hne
  obtain ⟨left, blanks, rfl, hleft, hblanks⟩ : ∃ left blanks, rest = left ++ blanks ∧ (∀ d ∈ left, isNameChar d = true) ∧
      ∀ d ∈ blanks, isBlank d = true := by
    rcases List.append_eq_append_iff.mp hrest with ⟨between, -, rfl⟩ | ⟨left, rfl, rfl⟩
    · exact ⟨[], rest, rfl, List.forall_mem_nil _, fun d hd => hgap d (List.mem_append_right _ hd)⟩
    · exact ⟨left, gap, rfl, fun d hd => hword d (List.mem_append_right _ hd), hgap⟩
  have hahead : left ++ (blanks ++ c :: after) = piece ++ after' := by simpa using hpiece
  have hbehind : ∀ d ∈ (blanks ++ c :: after).head?, isNameChar d = false := by
    obtain ⟨d, more, hd, hsign⟩ := exists_sign blanks hblanks hname after
    rw [hd]
    exact fun e he => Option.some.inj he ▸ hsign
  rcases mem_exportPatterns hpattern with ⟨follower, hfollowed⟩ | hassigned
  · have hfollowers : ∀ entry ∈ followedPatterns, entry.2 ∈ ["default", "\x7b", "*"] := by simp [followedPatterns]
    have hwords : ∀ follower ∈ ["default", "\x7b", "*"], follower.toList ≠ [] ∧
        ∀ d ∈ follower.toList.head?, isBlank d = false ∧ (isNameChar d = true ∨ d ∈ ['.', '\x7b', '*']) := by decide
    obtain ⟨hne, hhead⟩ := hwords follower (hfollowers _ hfollowed)
    obtain ⟨d, letters, hletters⟩ := List.exists_cons_of_ne_nil hne
    obtain ⟨-, gap', more, rfl, hgap', hsign⟩ := exists_follower_of_fits hfollowed hfits
    rw [hletters] at hhead hsign
    have hsplit : left ++ (blanks ++ c :: after) = "export".toList ++ (gap' ++ d :: letters ++ (more ++ after')) := by
      rw [hahead, hletters]
      simp
    obtain ⟨-, hsplit⟩ := append_inj_of_stop hleft hbehind (by decide) (by rwa [List.head?_append_of_ne_nil _ (by simp)]) hsplit
    rw [List.append_assoc, List.cons_append] at hsplit
    obtain ⟨-, hsplit⟩ := append_inj_of_stop hblanks (by simpa using hblank) hgap' (by simpa using (hhead d rfl).1) hsplit
    obtain ⟨rfl, -⟩ := List.cons.inj hsplit
    rcases (hhead c rfl).2 with hd | hd
    · exact absurd hd (by simp [hname])
    · exact hc hd
  · obtain ⟨-, signal, more, rfl, hsignal, -⟩ := exists_dotted_of_fits hassigned hfits
    have hsplit : left ++ (blanks ++ c :: after) = signal ++ '.' :: (more ++ after') := by simpa using hahead
    obtain ⟨hchars, hdot⟩ := IsSignal.chars (.inr ⟨hsignal, rfl⟩)
    obtain ⟨-, hsplit⟩ := append_inj_of_stop hleft hbehind hchars (by simpa using hdot) hsplit
    cases blanks with
    | nil => exact hc (by simp [(List.cons.inj hsplit).1])
    | cons b blanks =>
        obtain ⟨rfl, -⟩ := List.cons.inj hsplit
        exact absurd (hblanks '.' List.mem_cons_self) (by decide)

/-- Each word by which exports are found holds one of these letters. -/
theorem quiet_of_letters (h : ∀ d ∈ code, d ∉ ['p', 'm', 'j']) (hc : isNameChar c = false) : Quiet (code ++ [c]) := by
  intro pattern hpattern before front back after he hne
  refine matchAt?_eq_none_of_signal hpattern fun signal sign more hahead hsignal => ?_
  obtain ⟨rest, rfl, rfl⟩ := exists_of_append_sign he hne
  have hletter : ∃ d ∈ signal, d ∈ ['p', 'm', 'j'] := by
    rcases hsignal with ⟨rfl, -⟩ | ⟨hword, -⟩
    · exact ⟨'p', by decide, by decide⟩
    · simp only [List.map_cons, List.map_nil, List.mem_cons, List.not_mem_nil, or_false] at hword
      rcases hword with rfl | rfl | rfl
      · exact ⟨'m', by decide, by decide⟩
      · exact ⟨'p', by decide, by decide⟩
      · exact ⟨'j', by decide, by decide⟩
  obtain ⟨d, hd, hletter⟩ := hletter
  have hsplit : rest ++ c :: after = signal ++ sign :: more := by simpa using hahead
  have hmem : d ∈ rest := by
    rcases List.append_eq_append_iff.mp hsplit with ⟨between, rfl, hbetween⟩ | ⟨between, rfl, -⟩
    · cases between with
      | nil => simpa using hd
      | cons b between =>
          obtain ⟨rfl, -⟩ := List.cons.inj hbetween
          have hname := hsignal.chars.1 c (by simp)
          rw [hc] at hname
          cases hname
    · exact List.mem_append_left _ hd
  exact absurd hletter (h d (List.mem_append_right _ hmem))

/-- Code without the word `export` is quiet up to a closing brace. -/
theorem quiet_closed (h : ¬ "export".toList <:+: code) : Quiet (code ++ ['\x7d']) := by
  intro pattern hpattern before front back after he hne
  refine matchAt?_eq_none_iff.mpr fun piece after' groups hpiece hfits => ?_
  obtain ⟨lead, more, rfl, hlead⟩ := exists_export_of_fits hpattern hfits
  obtain ⟨rest, rfl, rfl⟩ := exists_of_append_sign he hne
  have hsplit : rest ++ '\x7d' :: after = (lead ++ "export".toList) ++ (more ++ after') := by simpa using hpiece
  rcases List.append_eq_append_iff.mp hsplit with ⟨between, hbetween, hafter⟩ | ⟨between, rfl, -⟩
  · cases between with
    | nil => exact h ⟨front ++ lead, [], by rw [List.append_nil, List.append_assoc, hbetween, List.append_nil]⟩
    | cons d between =>
        obtain ⟨rfl, -⟩ := List.cons.inj hafter
        have hmem : '\x7d' ∈ lead ++ "export".toList := hbetween ▸ by simp
        exact (List.mem_append.mp hmem).elim hlead (by decide)
  · exact h ⟨front ++ lead, between, by simp⟩

end ApiImpact.Script

import Mathlib.Data.List.Basic
import Mathlib.Data.List.TakeWhile
import ApiImpact.Text.Blank

/-!
# Trimming, splitting and words of a text that is put together

What these give on pieces set side by side, when it is known where the blanks and the separators are.
-/

namespace ApiImpact.Text

/-- The characters of a text are gone through, not all that exist. -/
instance (priority := 2000) decidableForallMem (p : Char → Prop) [DecidablePred p] (text : List Char) :
    Decidable (∀ c ∈ text, p c) :=
  List.decidableBAll p text

instance (priority := 2000) decidableForallMemOption (p : Char → Prop) [DecidablePred p] (c : Option Char) :
    Decidable (∀ d ∈ c, p d) :=
  Option.decidableForallMem c

variable {p : Char → Bool} {front back text piece word rest : List Char} {c : Char}

/-! ## Blanks and letters -/

/-- The blanks outside ASCII. -/
def wideBlanks : List (Nat × Nat) :=
  [(0x85, 0x85), (0xA0, 0xA0), (0x1680, 0x1680), (0x2000, 0x200A), (0x2028, 0x2029), (0x202F, 0x202F), (0x205F, 0x205F),
    (0x3000, 0x3000)]

/-- No number lies in ranges of both lists. -/
def areDisjoint (ranges ranges' : List (Nat × Nat)) : Bool :=
  ranges.all fun (low, high) => ranges'.all fun (low', high') => high < low' || high' < low

theorem inRanges_eq_false_of_areDisjoint {ranges ranges' : List (Nat × Nat)} {c : Char}
    (h : areDisjoint ranges ranges' = true) (hc : inRanges ranges c = true) : inRanges ranges' c = false := by
  obtain ⟨⟨low, high⟩, hrange, hin⟩ := List.any_eq_true.mp hc
  refine List.any_eq_false.mpr fun ⟨low', high'⟩ hrange' => ?_
  have hapart := List.all_eq_true.mp (List.all_eq_true.mp h _ hrange) _ hrange'
  simp only [Bool.and_eq_true, Bool.or_eq_true, decide_eq_true_eq] at hin hapart ⊢
  omega

theorem inRanges_wideBlanks (h : isBlank c = true) (hwide : ¬ c.toNat < 128) : inRanges wideBlanks c = true := by
  simp only [isBlank, Bool.or_eq_true, Bool.and_eq_true, decide_eq_true_eq, beq_iff_eq] at h
  simp only [inRanges, wideBlanks, List.any_cons, List.any_nil, Bool.or_eq_true, Bool.and_eq_true, decide_eq_true_eq]
  omega

theorem isAlphanum_of_isBlank (h : isBlank c = true) (hascii : c.toNat < 128) : c.isAlphanum = false := by
  rw [Bool.eq_false_iff]
  intro hletter
  simp only [isBlank, Bool.or_eq_true, Bool.and_eq_true, decide_eq_true_eq, beq_iff_eq] at h
  unfold Char.isAlphanum Char.isAlpha Char.isUpper Char.isLower Char.isDigit at hletter
  simp only [Bool.or_eq_true, Bool.and_eq_true, decide_eq_true_eq, UInt32.le_iff_toNat_le, ge_iff_le] at hletter
  have : c.toNat = c.val.toNat := rfl
  have : 'A'.val.toNat = 0x41 := rfl
  have : 'a'.val.toNat = 0x61 := rfl
  have : '0'.val.toNat = 0x30 := rfl
  omega

/-- No blank belongs to an identifier. -/
theorem isIdentifierChar_of_isBlank (h : isBlank c = true) : isIdentifierChar c = false := by
  have hsigns : c ≠ '_' ∧ c ≠ '$' := by
    constructor
    all_goals
      rintro rfl
      exact absurd h (by decide)
  have hletter : isAlphanumeric c = false := by
    rw [isAlphanumeric]
    split_ifs with hascii
    · exact isAlphanum_of_isBlank h hascii
    · have hwide := inRanges_wideBlanks h hascii
      have hapart : ∀ ranges ∈ [alphabeticRanges, decimalRanges, otherNumberRanges], areDisjoint wideBlanks ranges = true := by
        decide +kernel
      simp [inRanges_eq_false_of_areDisjoint (hapart _ _) hwide]
  simp [isIdentifierChar, hletter, hsigns]

theorem isBlank_of_isIdentifierChar (h : isIdentifierChar c = true) : isBlank c = false := by
  refine Bool.eq_false_iff.mpr fun hblank => ?_
  rw [isIdentifierChar_of_isBlank hblank] at h
  cases h

theorem ne_of_isBlank {sign : Char} (h : isBlank c = true) (hsign : isBlank sign = false) : c ≠ sign := by
  rintro rfl
  rw [hsign] at h
  cases h

/-! ## Ends -/

theorem dropEndWhile_append (h : ∀ c ∈ back, p c = true) :
    dropEndWhile p (front ++ back) = dropEndWhile p front := by
  have hback : dropEndWhile p back = [] := by
    induction back with
    | nil => rfl
    | cons c back ih =>
        have hrest : dropEndWhile p back = [] := ih fun d hd => h d (List.mem_cons_of_mem _ hd)
        rw [dropEndWhile] at hrest
        rw [dropEndWhile, List.foldr_cons, hrest, h c List.mem_cons_self]
        rfl
  rw [dropEndWhile] at hback
  rw [dropEndWhile, List.foldr_append, hback]
  rfl

theorem dropEndWhile_eq_self (h : ∀ c ∈ text.getLast?, p c = false) : dropEndWhile p text = text := by
  induction text with
  | nil => rfl
  | cons c text ih =>
      rw [dropEndWhile, List.foldr_cons]
      cases text with
      | nil => simp [h c rfl]
      | cons d text =>
          rw [List.getLast?_cons_cons] at h
          have hrest := ih h
          rw [dropEndWhile] at hrest
          rw [hrest]
          rfl

theorem dropEndWhile_cons_of_neg (h : p c = false) : dropEndWhile p (c :: text) = c :: dropEndWhile p text := by
  simp [dropEndWhile, h]

theorem exists_dropEndWhile_append (p : Char → Bool) (text : List Char) : ∃ back, text = dropEndWhile p text ++ back := by
  induction text with
  | nil => exact ⟨[], rfl⟩
  | cons c text ih =>
      obtain ⟨back, hback⟩ := ih
      rw [dropEndWhile] at hback
      rw [dropEndWhile, List.foldr_cons]
      split
      · exact ⟨c :: text, rfl⟩
      · exact ⟨back, congrArg (c :: ·) hback⟩

theorem dropEndWhile_append_cons (h : p c = false) (front back : List Char) :
    dropEndWhile p (front ++ c :: back) = front ++ c :: dropEndWhile p back := by
  induction front with
  | nil => exact dropEndWhile_cons_of_neg h
  | cons d front ih =>
      rw [dropEndWhile] at ih
      rw [List.cons_append, dropEndWhile, List.foldr_cons, ih]
      simp

/-- Texts that part at a character that stays are still different without their ends. -/
theorem dropEndWhile_ne {d : Char} (h : p c = false) (hne : c ≠ d) (front back rest : List Char) :
    dropEndWhile p (front ++ c :: back) ≠ dropEndWhile p (front ++ d :: rest) := by
  intro heq
  obtain ⟨tail, htail⟩ := exists_dropEndWhile_append p (front ++ d :: rest)
  rw [← heq, dropEndWhile_append_cons h, List.append_assoc] at htail
  exact hne (List.cons.inj (List.append_cancel_left htail)).1.symm

theorem dropWhile_append (h : ∀ c ∈ front, p c = true) (hstop : ∀ c ∈ rest.head?, p c = false) :
    (front ++ rest).dropWhile p = rest := by
  rw [List.dropWhile_append_of_pos h]
  cases rest with
  | nil => rfl
  | cons c rest => rw [List.dropWhile_cons_of_neg (by simp [hstop c rfl])]

theorem takeWhile_append (h : ∀ c ∈ front, p c = true) (hstop : ∀ c ∈ rest.head?, p c = false) :
    (front ++ rest).takeWhile p = front := by
  rw [List.takeWhile_append_of_pos h]
  cases rest with
  | nil => simp
  | cons c rest => rw [List.takeWhile_cons_of_neg (by simp [hstop c rfl]), List.append_nil]

/-- A text is cut in one way only where a class of characters first ends. -/
theorem append_inj_of_stop {front' rest' : List Char} (h : ∀ c ∈ front, p c = true)
    (hstop : ∀ c ∈ rest.head?, p c = false) (h' : ∀ c ∈ front', p c = true)
    (hstop' : ∀ c ∈ rest'.head?, p c = false) (he : front ++ rest = front' ++ rest') :
    front = front' ∧ rest = rest' := by
  have hfront := takeWhile_append h hstop
  rw [he, takeWhile_append h' hstop'] at hfront
  subst hfront
  exact ⟨rfl, List.append_cancel_left he⟩

theorem append_inj_of_stop_right {front' back' : List Char} (h : ∀ c ∈ back, p c = true)
    (hstop : ∀ c ∈ front.getLast?, p c = false) (h' : ∀ c ∈ back', p c = true)
    (hstop' : ∀ c ∈ front'.getLast?, p c = false) (he : front ++ back = front' ++ back') :
    front = front' ∧ back = back' := by
  have hreverse := congrArg List.reverse he
  rw [List.reverse_append, List.reverse_append] at hreverse
  have hboth := append_inj_of_stop (p := p) (by simpa using h) (by simpa using hstop) (by simpa using h')
    (by simpa using hstop') hreverse
  exact ⟨List.reverse_injective hboth.2, List.reverse_injective hboth.1⟩

/-- Neither end of `text` is blank. -/
structure Trimmed (text : List Char) : Prop where
  head : ∀ c ∈ text.head?, isBlank c = false
  last : ∀ c ∈ text.getLast?, isBlank c = false

theorem trimmed_nil : Trimmed [] := ⟨by simp, by simp⟩

theorem trimmed_of_forall (h : ∀ c ∈ text, isBlank c = false) : Trimmed text :=
  ⟨fun c hc => h c (List.mem_of_mem_head? hc), fun c hc => h c (List.mem_of_mem_getLast? hc)⟩

/-- Two trimmed texts hold what is between them. -/
theorem Trimmed.append (hfront : Trimmed front) (hback : Trimmed back) (hne : front ≠ [])
    (hne' : back ≠ []) : Trimmed (front ++ (piece ++ back)) := by
  constructor
  · rw [List.head?_append_of_ne_nil _ hne]
    exact hfront.head
  · rw [List.getLast?_append_of_ne_nil _ (by simp [hne']), List.getLast?_append_of_ne_nil _ hne']
    exact hback.last

/-- Trimming takes off the blanks around a text that has none at its ends. -/
theorem Trimmed.trim_append (h : Trimmed text) (hfront : ∀ c ∈ front, isBlank c = true)
    (hback : ∀ c ∈ back, isBlank c = true) : trim (front ++ (text ++ back)) = text := by
  rw [trim, trimStart, trimEnd]
  cases text with
  | nil =>
      rw [List.nil_append, List.dropWhile_append_of_pos hfront, List.dropWhile_eq_nil_iff.mpr hback]
      rfl
  | cons c rest =>
      rw [dropWhile_append hfront (by simpa using h.head), dropEndWhile_append hback,
        dropEndWhile_eq_self h.last]

theorem Trimmed.trim_eq (h : Trimmed text) : trim text = text := by
  have htrim : trim ([] ++ (text ++ [])) = text := h.trim_append (by simp) (by simp)
  simpa using htrim

/-- A text with a sign in it keeps that when it is trimmed, behind the blanks at its beginning. -/
theorem exists_trim (h : isAllBlank text = false) : ∃ c word back, trim text = c :: word ∧ isBlank c = false ∧
    text = text.takeWhile isBlank ++ (trim text ++ back) := by
  have hsplit : text.takeWhile isBlank ++ text.dropWhile isBlank = text := List.takeWhile_append_dropWhile
  obtain ⟨back, hback⟩ := exists_dropEndWhile_append isBlank (text.dropWhile isBlank)
  cases hrest : text.dropWhile isBlank with
  | nil =>
      have hall : isAllBlank text = true := List.all_eq_true.mpr (List.dropWhile_eq_nil_iff.mp hrest)
      exact absurd (h.symm.trans hall) Bool.false_ne_true
  | cons c rest =>
      have hc : isBlank c = false := by
        have hhead := List.head?_dropWhile_not isBlank text
        rw [hrest] at hhead
        simpa using hhead
      refine ⟨c, dropEndWhile isBlank rest, back, ?_, hc, ?_⟩
      · rw [trim, trimStart, trimEnd, hrest, dropEndWhile_cons_of_neg hc]
      · rw [trim, trimStart, trimEnd, ← hback, hsplit]

theorem trim_blanks_append (h : ∀ c ∈ front, isBlank c = true) : trim (front ++ text) = trim text := by
  rw [trim, trimStart, List.dropWhile_append_of_pos h]
  rfl

theorem trim_blanks (h : ∀ c ∈ text, isBlank c = true) : trim text = [] := by
  have htrim : trim (text ++ ([] ++ [])) = [] := trimmed_nil.trim_append h (by simp)
  simpa using htrim

/-! ## Pieces -/

theorem splitAtChars_of_forall (h : ∀ c ∈ text, p c = false) : splitAtChars p text = [text] := by
  induction text with
  | nil => rfl
  | cons c text ih =>
      rw [splitAtChars, h c List.mem_cons_self, if_neg Bool.false_ne_true,
        ih fun d hd => h d (List.mem_cons_of_mem _ hd)]
      rfl

theorem consToHead_append {pieces more : List (List Char)} (hne : pieces ≠ []) :
    consToHead c (pieces ++ more) = consToHead c pieces ++ more := by
  cases pieces with
  | nil => exact absurd rfl hne
  | cons piece pieces => rfl

theorem splitAtChars_ne_nil (p : Char → Bool) (text : List Char) : splitAtChars p text ≠ [] := by
  cases text with
  | nil => exact List.cons_ne_nil _ _
  | cons c text =>
      rw [splitAtChars]
      split_ifs
      · exact List.cons_ne_nil _ _
      · cases splitAtChars p text <;> exact List.cons_ne_nil _ _

theorem exists_splitAtChars_cons (hc : p c = false) (text : List Char) :
    ∃ word more, splitAtChars p text = word :: more ∧ splitAtChars p (c :: text) = (c :: word) :: more := by
  rw [splitAtChars, if_neg (by simp [hc])]
  cases hsplit : splitAtChars p text with
  | nil => exact absurd hsplit (splitAtChars_ne_nil p text)
  | cons word more => exact ⟨word, more, rfl, rfl⟩

/-- A text is split at each separator on its own. -/
theorem splitAtChars_append (hc : p c = true) :
    splitAtChars p (front ++ c :: back) = splitAtChars p front ++ splitAtChars p back := by
  induction front with
  | nil => exact if_pos hc
  | cons d front ih =>
      rw [List.cons_append, splitAtChars, splitAtChars, ih]
      split_ifs
      · rfl
      · exact consToHead_append (splitAtChars_ne_nil p front)

theorem splitAtChars_append_cons (h : ∀ c ∈ piece, p c = false) (hc : p c = true) :
    splitAtChars p (piece ++ c :: rest) = piece :: splitAtChars p rest := by
  rw [splitAtChars_append hc, splitAtChars_of_forall h]
  rfl

/-- Splitting undoes joining. -/
theorem splitAtChars_intercalate {pieces : List (List Char)} (hne : pieces ≠ []) (hc : p c = true)
    (h : ∀ piece ∈ pieces, ∀ d ∈ piece, p d = false) :
    splitAtChars p ([c].intercalate pieces) = pieces := by
  induction pieces with
  | nil => exact absurd rfl hne
  | cons piece pieces ih =>
      have hpiece := h piece List.mem_cons_self
      cases pieces with
      | nil => rw [List.intercalate_singleton, splitAtChars_of_forall hpiece]
      | cons next pieces =>
          rw [List.intercalate_cons_cons, List.append_assoc, List.singleton_append,
            splitAtChars_append_cons hpiece hc,
            ih (List.cons_ne_nil _ _) fun piece hp => h piece (List.mem_cons_of_mem _ hp)]

/-- What stands in joined parts is the separator or stands in a part. -/
theorem mem_intercalate {parts : List (List Char)} {sign : Char} (h : c ∈ [sign].intercalate parts) :
    c = sign ∨ ∃ part ∈ parts, c ∈ part := by
  induction parts with
  | nil => simp at h
  | cons part parts ih =>
      cases parts with
      | nil => exact .inr ⟨part, by simp, by simpa using h⟩
      | cons next parts =>
          rw [List.intercalate_cons_cons, List.mem_append, List.mem_append, List.mem_singleton] at h
          rcases h with (h | h) | h
          · exact .inr ⟨part, by simp, h⟩
          · exact .inl h
          · rcases ih h with hsign | ⟨part, hp, hc⟩
            · exact .inl hsign
            · exact .inr ⟨part, List.mem_cons_of_mem _ hp, hc⟩

theorem words_cons_blank (h : isBlank c = true) : words (c :: text) = words text := by
  rw [words, splitAtChars, if_pos h]
  rfl

theorem words_blanks_append (h : ∀ c ∈ front, isBlank c = true) : words (front ++ text) = words text := by
  induction front with
  | nil => rfl
  | cons c front ih =>
      rw [List.cons_append, words_cons_blank (h c List.mem_cons_self),
        ih fun d hd => h d (List.mem_cons_of_mem _ hd)]

theorem words_blanks (h : ∀ c ∈ text, isBlank c = true) : words text = [] := by
  rw [← List.append_nil text, words_blanks_append h]
  rfl

theorem words_append_blanks (h : ∀ c ∈ back, isBlank c = true) : words (text ++ back) = words text := by
  cases back with
  | nil => rw [List.append_nil]
  | cons c back =>
      have hback : words back = [] := words_blanks fun d hd => h d (List.mem_cons_of_mem _ hd)
      rw [words] at hback
      rw [words, splitAtChars_append (h c List.mem_cons_self), List.filter_append, hback, List.append_nil, words]

theorem words_of_forall (hne : word ≠ []) (h : ∀ c ∈ word, isBlank c = false) : words word = [word] := by
  rw [words, splitAtChars_of_forall h]
  simp [hne]

theorem words_word_append (hne : word ≠ []) (h : ∀ c ∈ word, isBlank c = false) (hc : isBlank c = true) :
    words (word ++ c :: rest) = word :: words rest := by
  rw [words, splitAtChars_append_cons h hc]
  simp [hne, words]

/-! ## One space between words -/

/-- What is left of a text behind a letter when words are joined: blanks at its beginning keep the words apart. -/
def collapseBehind (text : List Char) : List Char :=
  if text.head?.any isBlank && !(collapse text).isEmpty then ' ' :: collapse text else collapse text

@[simp] theorem collapse_nil : collapse [] = [] := rfl

@[simp] theorem collapseBehind_nil : collapseBehind [] = [] := rfl

theorem collapse_blanks_append (h : ∀ c ∈ front, isBlank c = true) : collapse (front ++ text) = collapse text := by
  rw [collapse, words_blanks_append h, collapse]

theorem collapse_append_blanks (h : ∀ c ∈ back, isBlank c = true) : collapse (text ++ back) = collapse text := by
  rw [collapse, words_append_blanks h, collapse]

theorem collapse_cons_blank (h : isBlank c = true) : collapse (c :: text) = collapse text := by
  rw [collapse, words_cons_blank h, collapse]

theorem collapseBehind_of_head (h : ∀ c ∈ text.head?, isBlank c = false) : collapseBehind text = collapse text := by
  cases text with
  | nil => rfl
  | cons c text => simp [collapseBehind, h c rfl]

/-- The word that a letter begins is read on with what follows it. -/
theorem collapse_cons (h : isBlank c = false) : collapse (c :: text) = c :: collapseBehind text := by
  have hletter : ∀ d ∈ [c], isBlank d = false := by simpa using h
  cases text with
  | nil => rw [collapse, words_of_forall (List.cons_ne_nil _ _) hletter, List.intercalate_singleton, collapseBehind_nil]
  | cons d text =>
      cases hd : isBlank d with
      | true =>
          have hwords : words (c :: d :: text) = [c] :: words text := words_word_append (List.cons_ne_nil _ _) hletter hd
          rw [collapseBehind, collapse_cons_blank hd, collapse, hwords, collapse]
          cases hmore : words text with
          | nil => simp
          | cons word more =>
              have hword : word ≠ [] := by
                have hmem : word ∈ words text := by simp [hmore]
                simpa [words] using (List.mem_filter.mp hmem).2
              cases more with
              | nil => simp [hd, hword]
              | cons next more => simp [List.intercalate_cons_cons, hd, hword]
      | false =>
          obtain ⟨word, more, hsplit, hsplit'⟩ := exists_splitAtChars_cons hd text
          rw [collapseBehind_of_head (by simpa using hd), collapse, collapse, words, words]
          rw [splitAtChars, hsplit', if_neg (by simp [h])]
          cases hmore : more.filter (!·.isEmpty) with
          | nil => simp [consToHead, hmore]
          | cons next more' => simp [consToHead, hmore, List.intercalate_cons_cons]

theorem collapse_eq_nil : collapse text = [] ↔ ∀ c ∈ text, isBlank c = true := by
  induction text with
  | nil => simp
  | cons c text ih =>
      cases hc : isBlank c with
      | false => simp [collapse_cons hc, hc]
      | true => simp [collapse_cons_blank hc, hc, ih]

/-- Behind a letter the words of the rest go on. -/
theorem collapse_append (hlast : ∀ c ∈ front.getLast?, isBlank c = false) (hne : front ≠ []) :
    collapse (front ++ rest) = collapse front ++ collapseBehind rest := by
  induction front with
  | nil => exact absurd rfl hne
  | cons c front ih =>
      cases front with
      | nil =>
          have hc : isBlank c = false := hlast c rfl
          simp [collapse_cons hc]
      | cons d front =>
          have hrest : collapse (d :: (front ++ rest)) = collapse (d :: front) ++ collapseBehind rest :=
            ih (by simpa using hlast) (List.cons_ne_nil _ _)
          -- The last letter keeps the blanks in front of it from being at the end.
          have hne' : collapse (d :: front) ≠ [] := by
            rw [Ne, collapse_eq_nil]
            intro hblank
            obtain ⟨e, he⟩ := Option.isSome_iff_exists.mp (List.getLast?_isSome.mpr (List.cons_ne_nil d front))
            have hletter : isBlank e = false := hlast e (by simpa using he)
            exact absurd (hblank e (List.mem_of_getLast? he)) (by simp [hletter])
          cases hc : isBlank c with
          | true =>
              rw [List.cons_append, collapse_cons_blank hc, collapse_cons_blank hc]
              exact hrest
          | false =>
              have hbehind : collapseBehind ((d :: front) ++ rest) = collapseBehind (d :: front) ++ collapseBehind rest := by
                generalize collapseBehind rest = tail at hrest ⊢
                cases hd : isBlank d <;> simp [collapseBehind, hd, hrest, hne']
              rw [List.cons_append, collapse_cons hc, hbehind, collapse_cons hc, List.cons_append]

/-! ## Prefixes -/

theorem dropPrefix?_append (front rest : List Char) : dropPrefix? front (front ++ rest) = some rest := by
  simp [dropPrefix?]

theorem dropLeadingCopies_append (hne : front ≠ []) (h : front.isPrefixOf rest = false) :
    dropLeadingCopies front (front ++ rest) = rest := by
  rw [dropLeadingCopies, if_neg (by simpa using hne), if_pos (by simp), List.drop_left,
    dropLeadingCopies, if_neg (by simpa using hne), if_neg (by simp [h])]

end ApiImpact.Text

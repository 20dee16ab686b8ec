import Mathlib.Data.List.Infix
import ApiImpact.Proofs.Text.Blank
import ApiImpact.Proofs.Text.Shade

/-!
# The lexical grammar of the mask

A script is a sequence of items: blanks, words, signs, comments, literals and divisions. Where they follow one
another as the grammar allows, the scan reads them one by one, and the mask has the code as it is, the comments
blanked out, and the literals blanked out between their marks. A line break is a line feed.
-/

namespace ApiImpact.Lexical

open Text

/-! ## The grammar -/

/-- A character of a literal: one that stands for itself, or one behind a backslash. -/
inductive Glyph where
  | plain (c : Char)
  | escaped (c : Char)

namespace Glyph

/-- The glyph as it is written. -/
def chars : Glyph → List Char
  | plain c => [c]
  | escaped c => ['\\', c]

/-- None of `ends` stands for itself. -/
def Avoids (ends : List Char) : Glyph → Prop
  | plain c => c ≠ '\\' ∧ c ∉ ends
  | escaped _ => True

instance (ends : List Char) (glyph : Glyph) : Decidable (glyph.Avoids ends) :=
  match glyph with
  | plain c => inferInstanceAs (Decidable (c ≠ '\\' ∧ c ∉ ends))
  | escaped _ => inferInstanceAs (Decidable True)

end Glyph

/-- The inside of a literal that none of `ends` interrupts. -/
structure Contents (ends : List Char) where
  glyphs : List Glyph
  avoids : ∀ glyph ∈ glyphs, glyph.Avoids ends

/-- The inside as it is written. -/
def Contents.chars {ends : List Char} (contents : Contents ends) : List Char :=
  contents.glyphs.flatMap Glyph.chars

/-- A part of a regular expression. -/
inductive RegexPart where
  | single (glyph : Glyph) (avoids : glyph.Avoids ['/', '[', '\n'])
  /-- A class of characters, in which a slash stands for itself. -/
  | range (contents : Contents [']', '\n'])

/-- The part as it is written. -/
def RegexPart.chars : RegexPart → List Char
  | single glyph _ => glyph.chars
  | range contents => '[' :: (contents.chars ++ [']'])

/-- The inside of a regular expression; an asterisk at its beginning would open a comment. -/
structure RegexBody where
  first : RegexPart
  more : List RegexPart
  opens : first.chars.head? ≠ some '*'

/-- The inside as it is written. -/
def RegexBody.chars (body : RegexBody) : List Char :=
  (body.first :: body.more).flatMap RegexPart.chars

/-- `c` stands on its own: it belongs to no word, is no blank and opens neither a comment nor a literal. -/
def isSign (c : Char) : Bool :=
  !isIdentifierChar c && !isBlank c && !(['/', '\'', '"', '\x60'].contains c)

/-- A piece of a script. -/
inductive Item where
  | blanks (chars : List Char) (ne_nil : chars ≠ []) (isBlank : ∀ c ∈ chars, isBlank c = true)
  | word (chars : List Char) (ne_nil : chars ≠ []) (isPart : ∀ c ∈ chars, isIdentifierChar c = true)
  | sign (c : Char) (isSign : isSign c = true)
  /-- A comment up to the end of the line. -/
  | lineComment (text : List Char) (inLine : '\n' ∉ text)
  | blockComment (text : List Char) (inside : ¬ "*/".toList <:+: text)
  /-- A literal in quotes; a line break in it is escaped. -/
  | quoted (mark : Char) (isMark : mark = '\'' ∨ mark = '"') (contents : Contents [mark, '\n'])
  | template (contents : Contents ['\x60'])
  | regex (body : RegexBody)
  | division

namespace Item

/-- The item as it is written. -/
def chars : Item → List Char
  | blanks chars _ _ | word chars _ _ => chars
  | sign c _ => [c]
  | lineComment text _ => "//".toList ++ (text ++ ['\n'])
  | blockComment text _ => "/*".toList ++ (text ++ "*/".toList)
  | quoted mark _ contents => mark :: (contents.chars ++ [mark])
  | template contents => '\x60' :: (contents.chars ++ ['\x60'])
  | regex body => '/' :: (body.chars ++ ['/'])
  | division => ['/']

/-- The item in the mask: code as it is, comments blanked out, literals blanked out between their marks. -/
def masked : Item → List Char
  | blanks chars _ _ | word chars _ _ => chars
  | sign c _ => [c]
  | lineComment text inLine => (lineComment text inLine).chars.flatMap blankOut
  | blockComment text inside => (blockComment text inside).chars.flatMap blankOut
  | quoted mark _ contents => mark :: (contents.chars.flatMap blankOut ++ [mark])
  | template contents => '\x60' :: (contents.chars.flatMap blankOut ++ ['\x60'])
  | regex body => '/' :: (body.chars.flatMap blankOut ++ ['/'])
  | division => ['/']

def isWord : Item → Bool
  | word _ _ _ => true
  | _ => false

def isDivision : Item → Bool
  | division => true
  | _ => false

/-- The item counts for what a slash behind it means; blanks and comments do not. -/
def isSignificant : Item → Bool
  | blanks _ _ _ | lineComment _ _ | blockComment _ _ => false
  | _ => true

end Item

/-- The last significant item; `before` has the latest item first. -/
def lastOf (before : List Item) : Option Item :=
  before.find? Item.isSignificant

/-- A regular expression may stand behind this significant item: there is none, or it is one of the operators
or of the words before which no value ends. -/
def allowsRegex : Option Item → Bool
  | none => true
  | some (.sign c _) => regexSigns.contains c
  | some (.word chars _ _) => regexWords.contains chars
  | _ => false

/-- A division may stand behind this significant item: it ends a value. -/
def allowsDivision : Option Item → Bool
  | some (.sign c _) => c == ')' || c == ']'
  | some (.word chars _ _) => !regexWords.contains chars
  | some (.quoted _ _ _) | some (.template _) | some (.regex _) => true
  | _ => false

/-- The item may stand behind the items `before`, the latest of which is the first: words are maximal, a slash
is what the significant item before it makes of it, and a division does not become a comment. -/
def Item.mayFollow (before : List Item) (item : Item) : Bool :=
  (match item with
    | word _ _ _ => !before.head?.any Item.isWord
    | regex _ => allowsRegex (lastOf before)
    | division => allowsDivision (lastOf before)
    | _ => true)
  && !(before.head?.any Item.isDivision && item.chars.head?.any ['/', '*'].contains)

/-- The items may follow one another, behind the items `before`. -/
def isLexical (before : List Item) : List Item → Bool
  | [] => true
  | item :: items => item.mayFollow before && isLexical (item :: before) items

/-! ## Scanning the inside of literals -/

variable {zone : Zone} {trail : Trail} {ends : List Char} {rest : List Char}

/-- In `zone` the scan goes on as long as it meets none of `ends`. -/
structure Runs (zone : Zone) (ends : List Char) : Prop where
  plain : ∀ (trail : Trail) (c : Char) (rest : List Char), c ≠ '\\' → c ∉ ends →
    shadesFrom zone trail (c :: rest) = (c, .literal) :: shadesFrom zone trail rest
  escaped : ∀ (trail : Trail) (c : Char) (rest : List Char),
    shadesFrom zone trail ('\\' :: c :: rest) = ('\\', .literal) :: (c, .literal) :: shadesFrom zone trail rest

theorem runs_quoted (mark : Char) : Runs (.quoted mark) [mark, '\n'] where
  plain trail c rest hescape hends := by
    obtain ⟨hmark, hbreak⟩ : c ≠ mark ∧ c ≠ '\n' := by simpa using hends
    rw [shadesFrom_quoted hescape, if_neg hmark, if_neg hbreak]
  escaped trail c rest := by simp [shadesFrom]

theorem runs_template : Runs .template ['\x60'] where
  plain trail c rest hescape hends := by
    rw [shadesFrom_template hescape, if_neg (by simpa using hends)]
  escaped trail c rest := by simp [shadesFrom]

theorem runs_regex : Runs (.regex false) ['/', '[', '\n'] where
  plain trail c rest hescape hends := by
    obtain ⟨hslash, hopen, hbreak⟩ : c ≠ '/' ∧ c ≠ '[' ∧ c ≠ '\n' := by simpa using hends
    rw [shadesFrom_regex hescape, if_neg hbreak, if_neg hopen, if_neg (by simp), if_neg (by simp [hslash])]
  escaped trail c rest := by simp [shadesFrom]

theorem runs_range : Runs (.regex true) [']', '\n'] where
  plain trail c rest hescape hends := by
    obtain ⟨hclose, hbreak⟩ : c ≠ ']' ∧ c ≠ '\n' := by simpa using hends
    rw [shadesFrom_regex hescape, if_neg hbreak]
    split_ifs <;> simp_all
  escaped trail c rest := by simp [shadesFrom]

theorem Runs.glyph (h : Runs zone ends) {glyph : Glyph} (havoids : glyph.Avoids ends) :
    shadesFrom zone trail (glyph.chars ++ rest) =
      glyph.chars.map (·, .literal) ++ shadesFrom zone trail rest := by
  cases glyph with
  | plain c => exact h.plain trail c rest havoids.1 havoids.2
  | escaped c => exact h.escaped trail c rest

/-- The inside of a literal is scanned as a whole. -/
theorem Runs.contents (h : Runs zone ends) (contents : Contents ends) :
    shadesFrom zone trail (contents.chars ++ rest) =
      contents.chars.map (·, .literal) ++ shadesFrom zone trail rest := by
  obtain ⟨glyphs, havoids⟩ := contents
  simp only [Contents.chars]
  induction glyphs with
  | nil => rfl
  | cons glyph glyphs ih =>
      rw [List.flatMap_cons, List.append_assoc, h.glyph (havoids glyph List.mem_cons_self),
        ih fun next hnext => havoids next (List.mem_cons_of_mem _ hnext), List.map_append, List.append_assoc]

theorem shadesFrom_regexPart (part : RegexPart) : shadesFrom (.regex false) trail (part.chars ++ rest) =
    part.chars.map (·, .literal) ++ shadesFrom (.regex false) trail rest := by
  cases part with
  | single glyph havoids => exact runs_regex.glyph havoids
  | range contents =>
      have hopen (tail : List Char) : shadesFrom (.regex false) trail ('[' :: tail) =
          ('[', .literal) :: shadesFrom (.regex true) trail tail := by
        rw [shadesFrom_regex (by decide), if_neg (by decide), if_pos rfl]
      have hclose (tail : List Char) : shadesFrom (.regex true) trail (']' :: tail) =
          (']', .literal) :: shadesFrom (.regex false) trail tail := by
        rw [shadesFrom_regex (by decide), if_neg (by decide), if_neg (by decide), if_pos (by decide)]
      simp only [RegexPart.chars, List.cons_append, List.append_assoc, hopen, runs_range.contents, List.nil_append,
        hclose, List.map_cons, List.map_append, List.map_nil]

theorem shadesFrom_regexParts (parts : List RegexPart) :
    shadesFrom (.regex false) trail (parts.flatMap RegexPart.chars ++ rest) =
      (parts.flatMap RegexPart.chars).map (·, .literal) ++ shadesFrom (.regex false) trail rest := by
  induction parts with
  | nil => rfl
  | cons part parts ih =>
      rw [List.flatMap_cons, List.append_assoc, shadesFrom_regexPart, ih, List.map_append, List.append_assoc]

theorem RegexPart.exists_cons (part : RegexPart) : ∃ c tail, part.chars = c :: tail ∧ c ≠ '/' := by
  cases part with
  | single glyph havoids =>
      cases glyph with
      | plain c =>
          refine ⟨c, [], rfl, ?_⟩
          rintro rfl
          exact havoids.2 List.mem_cons_self
      | escaped c => exact ⟨'\\', [c], rfl, by decide⟩
  | range contents => exact ⟨'[', contents.chars ++ [']'], rfl, by decide⟩

/-- No comment opens at the beginning of a regular expression. -/
theorem RegexBody.head?_append (body : RegexBody) (rest : List Char) :
    ∀ c ∈ (body.chars ++ rest).head?, c ≠ '/' ∧ c ≠ '*' := by
  obtain ⟨c, tail, hfirst, hslash⟩ := body.first.exists_cons
  have hstar : c ≠ '*' := by
    rintro rfl
    exact body.opens (by rw [hfirst]; rfl)
  intro d hd
  rw [RegexBody.chars, List.flatMap_cons, hfirst] at hd
  obtain rfl : c = d := by simpa using hd
  exact ⟨hslash, hstar⟩

/-! ## Scanning comments -/

theorem shadesFrom_lineComment (trail : Trail) {text : List Char} (h : '\n' ∉ text) (rest : List Char) :
    shadesFrom .lineComment trail (text ++ '\n' :: rest) =
      (text ++ ['\n']).map (·, .comment) ++ shadesFrom .code trail rest := by
  induction text with
  | nil => simp [shadesFrom]
  | cons c text ih =>
      obtain ⟨hc, htext⟩ : '\n' ≠ c ∧ '\n' ∉ text := by simpa using h
      rw [List.cons_append, shadesFrom, if_neg hc.symm, ih htext]
      rfl

/-- A character of a comment that does not begin its end. -/
theorem shadesFrom_blockComment {c : Char} (h : c = '*' → ∀ rest', rest ≠ '/' :: rest') :
    shadesFrom .blockComment trail (c :: rest) = (c, .comment) :: shadesFrom .blockComment trail rest := by
  rw [shadesFrom.eq_def]
  by_cases hc : c = '*'
  · simp only [hc, if_true]
    split
    · exact absurd rfl (h hc _)
    · rfl
  · simp only [hc, if_false]

theorem shadesFrom_blockComment_append (trail : Trail) {text : List Char} (h : ¬ "*/".toList <:+: text)
    (rest : List Char) :
    shadesFrom .blockComment trail (text ++ '*' :: '/' :: rest) =
      (text ++ "*/".toList).map (·, .comment) ++ shadesFrom .code trail rest := by
  induction text with
  | nil => simp [shadesFrom]
  | cons c text ih =>
      have hnot : c = '*' → ∀ rest', text ++ '*' :: '/' :: rest ≠ '/' :: rest' := by
        rintro rfl rest' heq
        cases text with
        | nil => simp at heq
        | cons d text =>
            obtain ⟨rfl, -⟩ := List.cons.inj heq
            exact h (List.prefix_append _ text).isInfix
      rw [List.cons_append, shadesFrom_blockComment hnot, ih fun hin => h (hin.trans (List.suffix_cons c text).isInfix)]
      rfl

/-! ## Scanning one item -/

/-- The item with its shades. -/
def Item.shaded : Item → List (Char × Shade)
  | blanks chars _ _ | word chars _ _ => chars.map (·, .code)
  | sign c _ => [(c, .code)]
  | lineComment text inLine => (lineComment text inLine).chars.map (·, .comment)
  | blockComment text inside => (blockComment text inside).chars.map (·, .comment)
  | quoted mark _ contents => (mark, .code) :: (contents.chars.map (·, .literal) ++ [(mark, .code)])
  | template contents => ('\x60', .code) :: (contents.chars.map (·, .literal) ++ [('\x60', .code)])
  | regex body => ('/', .code) :: (body.chars.map (·, .literal) ++ [('/', .code)])
  | division => [('/', .code)]

/-- What the scan remembers behind the item. -/
def Item.leaves (trail : Trail) : Item → Trail
  | blanks _ _ _ | lineComment _ _ | blockComment _ _ => trail.leave
  | word chars _ _ => chars.foldl Trail.push trail
  | sign c _ => .close c
  | quoted mark _ _ => .close mark
  | template _ => .close '\x60'
  | regex _ | division => .close '/'

theorem hide_shaded (item : Item) : hide (· != .code) item.shaded = item.masked := by
  cases item with
  | blanks chars _ _ => exact hide_map rfl chars
  | word chars _ _ => exact hide_map rfl chars
  | sign c _ => rfl
  | lineComment text inLine => exact hide_map_hidden rfl _
  | blockComment text inside => exact hide_map_hidden rfl _
  | quoted mark _ contents =>
      rw [Item.shaded, hide_cons, hide_append, hide_map_hidden rfl]
      rfl
  | template contents =>
      rw [Item.shaded, hide_cons, hide_append, hide_map_hidden rfl]
      rfl
  | regex body =>
      rw [Item.shaded, hide_cons, hide_append, hide_map_hidden rfl]
      rfl
  | division => rfl

theorem not_opening_of_isBlank {c : Char} (h : isBlank c = true) : c ≠ '/' ∧ c ≠ '\'' ∧ c ≠ '"' ∧ c ≠ '\x60' := by
  refine ⟨?_, ?_, ?_, ?_⟩
  all_goals
    rintro rfl
    exact absurd h (by decide)

theorem not_opening_of_isIdentifierChar {c : Char} (h : isIdentifierChar c = true) :
    c ≠ '/' ∧ c ≠ '\'' ∧ c ≠ '"' ∧ c ≠ '\x60' := by
  refine ⟨?_, ?_, ?_, ?_⟩
  all_goals
    rintro rfl
    exact absurd h (by decide)

theorem push_of_isBlank {c : Char} (h : isBlank c = true) (trail : Trail) : trail.push c = trail.leave := by
  rw [Trail.push, if_neg (by simp [isIdentifierChar_of_isBlank h]), if_pos h]
  rfl

theorem foldl_push_blanks {chars : List Char} (hne : chars ≠ []) (h : ∀ c ∈ chars, isBlank c = true) (trail : Trail) :
    chars.foldl Trail.push trail = trail.leave := by
  induction chars generalizing trail with
  | nil => exact absurd rfl hne
  | cons c chars ih =>
      rw [List.foldl_cons, push_of_isBlank (h c List.mem_cons_self)]
      cases chars with
      | nil => rfl
      | cons d chars => exact ih (List.cons_ne_nil d chars) (fun e he => h e (List.mem_cons_of_mem _ he)) trail.leave

/-- Behind a word the scan remembers all of it. -/
theorem foldl_push_word {chars : List Char} (hne : chars ≠ []) (h : ∀ c ∈ chars, isIdentifierChar c = true)
    (trail : Trail) : chars.foldl Trail.push trail =
      ⟨chars.getLast?, chars.reverse ++ if trail.inWord then trail.word else [], true⟩ := by
  induction chars generalizing trail with
  | nil => exact absurd rfl hne
  | cons c chars ih =>
      have hpush : trail.push c = ⟨some c, c :: if trail.inWord then trail.word else [], true⟩ := by
        rw [Trail.push, if_pos (h c List.mem_cons_self)]
      rw [List.foldl_cons, hpush]
      cases chars with
      | nil => rfl
      | cons d chars =>
          rw [ih (List.cons_ne_nil d chars) fun e he => h e (List.mem_cons_of_mem _ he)]
          simp

theorem push_of_isSign {c : Char} (h : isSign c = true) (trail : Trail) :
    shadesFrom .code trail (c :: rest) = (c, .code) :: shadesFrom .code (.close c) rest := by
  obtain ⟨⟨hword, hblank⟩, hslash, hsingle, hdouble, htemplate⟩ :
      (isIdentifierChar c = false ∧ isBlank c = false) ∧ c ≠ '/' ∧ c ≠ '\'' ∧ c ≠ '"' ∧ c ≠ '\x60' := by
    simpa [isSign] using h
  have hpush : trail.push c = .close c := by
    rw [Trail.push, if_neg (by simp [hword]), if_neg (by simp [hblank])]
    rfl
  rw [shadesFrom_code hslash, if_neg (not_or.mpr ⟨hsingle, hdouble⟩), if_neg htemplate, hpush]

/-- Scanned as code, an item gets its shades, and the scan goes on as code. A slash must be what the trail makes
of it. -/
theorem shadesFrom_item (item : Item) (trail : Trail) (rest : List Char)
    (hregex : ∀ body, item = .regex body → trail.regexMayStart = true)
    (hdivision : item = .division → trail.regexMayStart = false ∧ ∀ c ∈ rest.head?, c ≠ '/' ∧ c ≠ '*') :
    shadesFrom .code trail (item.chars ++ rest) = item.shaded ++ shadesFrom .code (item.leaves trail) rest := by
  cases item with
  | blanks chars hne hblank =>
      rw [Item.chars, shadesFrom_signless fun c hc => not_opening_of_isBlank (hblank c hc),
        foldl_push_blanks hne hblank]
      rfl
  | word chars hne hpart =>
      exact shadesFrom_signless (fun c hc => not_opening_of_isIdentifierChar (hpart c hc)) trail rest
  | sign c hsign => exact push_of_isSign hsign trail
  | lineComment text hline =>
      have hopen (tail : List Char) : shadesFrom .code trail ('/' :: '/' :: tail) =
          ('/', .comment) :: ('/', .comment) :: shadesFrom .lineComment trail.leave tail := by
        simp [shadesFrom]
      have htext := shadesFrom_lineComment trail.leave hline rest
      simpa [Item.chars, Item.shaded, Item.leaves, hopen] using htext
  | blockComment text hinside =>
      have hopen (tail : List Char) : shadesFrom .code trail ('/' :: '*' :: tail) =
          ('/', .comment) :: ('*', .comment) :: shadesFrom .blockComment trail.leave tail := by
        simp [shadesFrom]
      have htext := shadesFrom_blockComment_append trail.leave hinside rest
      simpa [Item.chars, Item.shaded, Item.leaves, hopen] using htext
  | quoted mark hmark contents =>
      have hslash : mark ≠ '/' ∧ mark ≠ '\\' := by rcases hmark with rfl | rfl <;> decide
      simp only [Item.chars, Item.shaded, Item.leaves, List.cons_append, List.append_assoc, List.nil_append]
      rw [shadesFrom_code hslash.1, if_pos hmark, (runs_quoted mark).contents, shadesFrom_quoted hslash.2, if_pos rfl]
  | template contents =>
      simp only [Item.chars, Item.shaded, Item.leaves, List.cons_append, List.append_assoc, List.nil_append]
      rw [shadesFrom_code (by decide), if_neg (by decide), if_pos rfl, runs_template.contents,
        shadesFrom_template (by decide), if_pos rfl]
  | regex body =>
      have hfirst := body.head?_append ('/' :: rest)
      simp only [Item.chars, Item.shaded, Item.leaves, List.cons_append, List.append_assoc, List.nil_append]
      rw [shadesFrom_slash hfirst, if_pos (hregex body rfl), RegexBody.chars, shadesFrom_regexParts,
        shadesFrom_regex (by decide), if_neg (by decide), if_neg (by decide), if_neg (by decide), if_pos (by decide)]
  | division =>
      obtain ⟨hvalue, hnext⟩ := hdivision rfl
      rw [Item.chars, List.singleton_append, shadesFrom_slash hnext, hvalue]
      rfl

/-! ## Scanning a script -/

/-- The trail is what the items `before` leave behind. -/
structure Recalls (before : List Item) (trail : Trail) : Prop where
  last : trail.last = (lastOf before).bind fun item => item.chars.getLast?
  word : ∀ chars hne hpart, lastOf before = some (.word chars hne hpart) → trail.word = chars.reverse
  inWord : trail.inWord = true → before.head?.any Item.isWord = true

theorem recalls_nil : Recalls [] {} where
  last := rfl
  word := by simp [lastOf]
  inWord := by simp

theorem getLast?_literal (mark close : Char) (inside : List Char) :
    (mark :: (inside ++ [close])).getLast? = some close := by
  rw [← List.cons_append, List.getLast?_concat]

theorem isSignificant_of_lastOf {before : List Item} {item : Item} (h : lastOf before = some item) :
    item.isSignificant = true :=
  List.find?_some h

/-- A slash begins a regular expression just where the grammar says so. -/
theorem Recalls.regexMayStart_eq {before : List Item} (h : Recalls before trail) :
    trail.regexMayStart = allowsRegex (lastOf before) := by
  have hlast := h.last
  have hsigns : ∀ c ∈ regexSigns, isIdentifierChar c = false := by decide
  -- Behind a sign or a mark its character decides.
  have hmark {c : Char} (hc : isIdentifierChar c = false) (heq : trail.last = some c) :
      trail.regexMayStart = regexSigns.contains c := by
    simp [Trail.regexMayStart, heq, hc]
  cases hbefore : lastOf before with
  | none =>
      rw [hbefore] at hlast
      simp [Trail.regexMayStart, hlast, allowsRegex]
  | some item =>
      rw [hbefore, Option.bind_some] at hlast
      cases item with
      | blanks | lineComment | blockComment => exact absurd (isSignificant_of_lastOf hbefore) (by simp [Item.isSignificant])
      | word chars hne hpart =>
          obtain ⟨c, hc⟩ := Option.isSome_iff_exists.mp (List.getLast?_isSome.mpr hne)
          have hident := hpart c (List.mem_of_getLast? hc)
          have hnot : c ∉ regexSigns := fun hmem => absurd hident (by simp [hsigns c hmem])
          have hword := h.word chars hne hpart hbefore
          rw [Item.chars, hc] at hlast
          simp [Trail.regexMayStart, hlast, hident, hnot, hword, allowsRegex]
      | sign c hsign =>
          have hident : isIdentifierChar c = false := by
            simp only [isSign, Bool.and_eq_true, Bool.not_eq_true'] at hsign
            exact hsign.1.1
          exact hmark hident hlast
      | quoted mark hismark contents =>
          have heq : trail.last = some mark := hlast.trans (getLast?_literal mark mark contents.chars)
          rcases hismark with rfl | rfl <;> exact hmark (by decide) heq
      | template contents => exact hmark (by decide) (hlast.trans (getLast?_literal _ _ contents.chars))
      | regex body => exact hmark (by decide) (hlast.trans (getLast?_literal _ _ body.chars))
      | division => exact hmark (by decide) hlast

/-- Where a value ends, no regular expression begins. -/
theorem allowsRegex_of_allowsDivision {last : Option Item} (h : allowsDivision last = true) :
    allowsRegex last = false := by
  cases last with
  | none => cases h
  | some item =>
      cases item with
      | word chars _ _ => simpa [allowsDivision, allowsRegex] using h
      | sign c _ =>
          have hc : c = ')' ∨ c = ']' := by simpa [allowsDivision] using h
          rw [allowsRegex]
          rcases hc with rfl | rfl <;> decide
      | _ => rfl

/-- What an item that is not significant leaves behind. -/
theorem Recalls.leave {before : List Item} (h : Recalls before trail) {item : Item} (hitem : item.isSignificant = false) :
    Recalls (item :: before) trail.leave := by
  have hlastOf : lastOf (item :: before) = lastOf before := by rw [lastOf, List.find?_cons_of_neg (by simp [hitem]), lastOf]
  refine ⟨?_, ?_, fun h => nomatch h⟩
  · rw [hlastOf]
    exact h.last
  · rw [hlastOf]
    exact h.word

/-- What a sign or a literal leaves behind. -/
theorem recalls_close {before : List Item} {item : Item} {c : Char} (hitem : item.isSignificant = true)
    (hword : item.isWord = false) (hlast : item.chars.getLast? = some c) : Recalls (item :: before) (.close c) := by
  have hlastOf : lastOf (item :: before) = some item := by rw [lastOf, List.find?_cons_of_pos hitem]
  refine ⟨?_, ?_, fun h => nomatch h⟩
  · rw [hlastOf, Option.bind_some, hlast]
    rfl
  · intro chars hne hpart heq
    rw [hlastOf, Option.some.injEq] at heq
    subst heq
    cases hword

theorem Recalls.step {before : List Item} (h : Recalls before trail) {item : Item}
    (hfollow : item.mayFollow before = true) : Recalls (item :: before) (item.leaves trail) := by
  cases item with
  | blanks | lineComment | blockComment => exact h.leave rfl
  | word chars hne hpart =>
      have hapart : trail.inWord = false := by
        have hnot : before.head?.any Item.isWord = false := by
          simp only [Item.mayFollow, Bool.and_eq_true, Bool.not_eq_true'] at hfollow
          exact hfollow.1
        exact Bool.eq_false_iff.mpr fun hin => absurd (h.inWord hin) (by simp [hnot])
      have hleaves : (Item.word chars hne hpart).leaves trail = ⟨chars.getLast?, chars.reverse, true⟩ := by
        rw [Item.leaves, foldl_push_word hne hpart, hapart]
        simp
      rw [hleaves]
      refine ⟨rfl, fun other _ _ heq => ?_, fun _ => rfl⟩
      have heq : some (Item.word chars hne hpart) = some (.word other _ _) := heq
      cases heq
      rfl
  | sign c hsign => exact recalls_close rfl rfl rfl
  | quoted mark hmark contents => exact recalls_close rfl rfl (getLast?_literal mark mark contents.chars)
  | template contents => exact recalls_close rfl rfl (getLast?_literal _ _ contents.chars)
  | regex body => exact recalls_close rfl rfl (getLast?_literal _ _ body.chars)
  | division => exact recalls_close rfl rfl rfl

theorem Item.chars_ne_nil (item : Item) : item.chars ≠ [] := by
  cases item with
  | blanks _ hne _ | word _ hne _ => exact hne
  | _ => exact List.cons_ne_nil _ _

/-- Behind a division no comment opens. -/
theorem head?_behind_division {before items : List Item} (h : isLexical (.division :: before) items = true) :
    ∀ c ∈ (items.flatMap Item.chars).head?, c ≠ '/' ∧ c ≠ '*' := by
  cases items with
  | nil => simp
  | cons next items =>
      intro c hc
      rw [List.flatMap_cons, List.head?_append_of_ne_nil _ next.chars_ne_nil] at hc
      have hfollow : next.mayFollow (.division :: before) = true := (Bool.and_eq_true_iff.mp h).1
      have hnext : next.chars.head?.any ['/', '*'].contains = false := by
        simpa [Item.isDivision] using (Bool.and_eq_true_iff.mp hfollow).2
      rw [Option.mem_def.mp hc] at hnext
      simpa using hnext

/-- Items that may follow one another are scanned one by one. -/
theorem shadesFrom_items {before items : List Item} (h : Recalls before trail) (hitems : isLexical before items = true) :
    shadesFrom .code trail (items.flatMap Item.chars) = items.flatMap Item.shaded := by
  induction items generalizing before trail with
  | nil => simp [shadesFrom]
  | cons item items ih =>
      obtain ⟨hfollow, hrest⟩ := Bool.and_eq_true_iff.mp hitems
      rw [List.flatMap_cons, List.flatMap_cons, shadesFrom_item, ih (h.step hfollow) hrest]
      · rintro body rfl
        rw [h.regexMayStart_eq]
        exact (Bool.and_eq_true_iff.mp hfollow).1
      · rintro rfl
        rw [h.regexMayStart_eq]
        exact ⟨allowsRegex_of_allowsDivision (Bool.and_eq_true_iff.mp hfollow).1, head?_behind_division hrest⟩

theorem hide_items (items : List Item) : hide (· != .code) (items.flatMap Item.shaded) = items.flatMap Item.masked := by
  rw [hide_flatMap]
  exact List.flatMap_congr fun item _ => hide_shaded item

/-- The mask of a script made of items that may follow one another is made of their masks. -/
theorem codeOnly_items {items : List Item} (h : isLexical [] items = true) :
    codeOnly (items.flatMap Item.chars) = items.flatMap Item.masked := by
  rw [codeOnly, shades, shadesFrom_items recalls_nil h, hide_items]

/-- A regular expression behind a word, divisions behind a word and a comment, marks in comments and literals. -/
theorem codeOnly_items_of_slashes :
    let items : List Item := [.word "return".toList (by decide) (by decide), .blanks [' '] (by decide) (by decide),
      .regex ⟨.range ⟨[.plain '/', .plain '\''], by decide⟩, [.single (.plain '+') (by decide), .single (.escaped '/') trivial],
        by decide⟩, .word ['g'] (by decide) (by decide), .blanks [' '] (by decide) (by decide),
      .division, .blanks [' '] (by decide) (by decide), .word ['2'] (by decide) (by decide), .sign ';' (by decide),
      .blanks [' '] (by decide) (by decide), .lineComment " it's".toList (by decide),
      .word ['f'] (by decide) (by decide), .sign '(' (by decide),
      .quoted '\'' (by decide) ⟨[.plain 'x', .escaped '\'', .escaped '\n', .plain '"'], by decide⟩, .sign ')' (by decide),
      .blanks [' '] (by decide) (by decide), .blockComment ['\x60'] (by decide), .blanks [' '] (by decide) (by decide),
      .division, .blanks [' '] (by decide) (by decide),
      .template ⟨[.plain '/', .plain '/', .escaped '\x60'], by decide⟩, .sign ';' (by decide)]
    isLexical [] items = true ∧
      items.flatMap Item.chars = "return /[/']+\\//g / 2; // it's\nf('x\\'\\\n\"') /*\x60*/ / \x60//\\\x60\x60;".toList ∧
      codeOnly (items.flatMap Item.chars) =
        "return /       /g / 2;        \nf('    \n ')       / \x60    \x60;".toList := by
  intro items
  have hlexical : isLexical [] items = true := by decide
  refine ⟨hlexical, by decide, ?_⟩
  rw [codeOnly_items hlexical]
  decide

end ApiImpact.Lexical

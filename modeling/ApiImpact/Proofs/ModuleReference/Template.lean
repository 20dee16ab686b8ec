import ApiImpact.Proofs.ModuleReference.Scattered
import ApiImpact.Proofs.Text.Lexical

/-!
# Statements in template literals

The scan keeps no account of how template literals nest: a backtick leads into a template where there is none,
and out of it where there is one. So the inside of a literal is covered with the code of its substitutions, the
inside of a template in such a substitution is read as code, a template in a substitution of that one is covered
again, and so on. Extraction gives the statements in all that is read as code.
-/

namespace ApiImpact.ModuleReference

open Text Text.Pattern

/-! ## Literals in literals -/

/-- How the scan reads a text: as the inside of a template, or as code. -/
inductive Reading where
  | covered
  | bare

namespace Reading

/-- The reading behind a backtick. -/
def other : Reading → Reading
  | covered => bare
  | bare => covered

def zone : Reading → Zone
  | covered => .template
  | bare => .code

def shade : Reading → Shade
  | covered => .literal
  | bare => .code

theorem other_other (reading : Reading) : reading.other.other = reading := by
  cases reading <;> rfl

end Reading

/-- The item is scanned the same way wherever it stands, and does not lead into a template. -/
def isPlainItem : Lexical.Item → Bool
  | .template _ | .regex _ | .division => false
  | _ => true

/-- Text that is read as code and holds none of the words with which references to modules begin. -/
structure Prose where
  items : List Lexical.Item
  plain : ∀ item ∈ items, isPlainItem item = true
  avoids : ∀ word ∈ openingWords, Avoids word (items.flatMap Lexical.Item.masked)

namespace Prose

def chars (prose : Prose) : List Char := prose.items.flatMap Lexical.Item.chars

def shaded (prose : Prose) : List (Char × Shade) := prose.items.flatMap Lexical.Item.shaded

def masked (prose : Prose) : List Char := prose.items.flatMap Lexical.Item.masked

end Prose

/-- A statement behind prose, set off from it. -/
structure Passage where
  prose : Prose
  edge : ∀ c ∈ prose.masked.getLast?, isWordChar c = false
  statement : Statement

def Passage.chars (passage : Passage) : List Char :=
  passage.prose.chars ++ passage.statement.chars

/-- Text that no delimiter interrupts: any text where it is covered, statements and prose where it is bare. -/
inductive Chunk : Reading → Type where
  | covered (contents : Lexical.Contents ['\x60']) : Chunk .covered
  | bare (passages : List Passage) (last : Prose) : Chunk .bare

def Chunk.chars {reading : Reading} : Chunk reading → List Char
  | covered contents => contents.chars
  | bare passages last => passages.flatMap Passage.chars ++ last.chars

/-- What a text belongs to: the characters of a template literal, or the code of a substitution. -/
inductive Part where
  | data
  | code
  deriving DecidableEq

/-- The inside of a template literal, which substitutions interrupt, or the code of a substitution, which template
literals interrupt. -/
inductive Nest : Part → Reading → Type where
  | text {part : Part} {reading : Reading} (chunk : Chunk reading) : Nest part reading
  | substitution {reading : Reading} (before : Chunk reading) (inside : Nest .code reading) (after : Nest .data reading) :
      Nest .data reading
  | template {reading : Reading} (before : Chunk reading) (inside : Nest .data reading.other)
      (after : Nest .code reading) : Nest .code reading

/-- What interrupts a text. -/
inductive Delimiter where
  | opening
  | closing
  | tick

def Delimiter.chars : Delimiter → List Char
  | opening => "$\x7b".toList
  | closing => "\x7d".toList
  | tick => "\x60".toList

/-- The nest as it is written. -/
def Nest.chars {part : Part} {reading : Reading} : Nest part reading → List Char
  | text chunk => chunk.chars
  | substitution before inside after => before.chars ++ (Delimiter.opening.chars ++
      (inside.chars ++ (Delimiter.closing.chars ++ after.chars)))
  | template before inside after => before.chars ++ (Delimiter.tick.chars ++
      (inside.chars ++ (Delimiter.tick.chars ++ after.chars)))

/-- A statement that is read as one. -/
structure Occurrence where
  part : Part
  line : Nat
  statement : Statement

def Occurrence.reference (occurrence : Occurrence) : ModuleReference :=
  occurrence.statement.reference occurrence.line

/-- The statements of passages that begin on line `line`. -/
def Passage.occurrences (part : Part) : Nat → List Passage → List Occurrence
  | _, [] => []
  | line, passage :: passages =>
    ⟨part, line + passage.prose.chars.count '\n', passage.statement⟩ ::
      occurrences part (line + passage.chars.count '\n') passages

def Chunk.occurrences {reading : Reading} (part : Part) (line : Nat) : Chunk reading → List Occurrence
  | covered _ => []
  | bare passages _ => Passage.occurrences part line passages

/-- The statements in the bare text of a nest that begins on line `line`. -/
def Nest.occurrences {part : Part} {reading : Reading} (line : Nat) : Nest part reading → List Occurrence
  | text chunk => chunk.occurrences part line
  | substitution before inside after => before.occurrences .data line ++
      (inside.occurrences (line + before.chars.count '\n') ++
        after.occurrences (line + before.chars.count '\n' + inside.chars.count '\n'))
  | template before inside after => before.occurrences .code line ++
      (inside.occurrences (line + before.chars.count '\n') ++
        after.occurrences (line + before.chars.count '\n' + inside.chars.count '\n'))

/-! ## Scanning a nest -/

/-- Read as `reading`, a text gets its shades, and the scan goes on as `reading'`. -/
def Scans (reading : Reading) (text : List Char) (shaded : List (Char × Shade)) (reading' : Reading) : Prop :=
  ∀ trail rest, ∃ trail',
    shadesFrom reading.zone trail (text ++ rest) = shaded ++ shadesFrom reading'.zone trail' rest

section Scans

variable {reading reading' reading'' : Reading} {text text' : List Char} {shaded shaded' : List (Char × Shade)}

theorem Scans.nil : Scans reading [] [] reading := fun trail _ => ⟨trail, rfl⟩

theorem Scans.append (h : Scans reading text shaded reading') (h' : Scans reading' text' shaded' reading'') :
    Scans reading (text ++ text') (shaded ++ shaded') reading'' := by
  intro trail rest
  obtain ⟨behind, hfront⟩ := h trail (text' ++ rest)
  obtain ⟨trail', hback⟩ := h' behind rest
  exact ⟨trail', by rw [List.append_assoc, hfront, hback, List.append_assoc]⟩

theorem Scans.map_fst (h : Scans reading text shaded reading') : shaded.map Prod.fst = text := by
  obtain ⟨trail', hshaded⟩ := h {} []
  exact map_fst_of_shadesFrom hshaded

theorem scans_flatMap {α : Type} {items : List α} {chars : α → List Char} {shaded : α → List (Char × Shade)}
    (h : ∀ item ∈ items, Scans reading (chars item) (shaded item) reading) :
    Scans reading (items.flatMap chars) (items.flatMap shaded) reading := by
  induction items with
  | nil => exact .nil
  | cons item items ih =>
      exact (h item List.mem_cons_self).append (ih fun next hnext => h next (List.mem_cons_of_mem _ hnext))

end Scans

theorem scans_contents (contents : Lexical.Contents ['\x60']) :
    Scans .covered contents.chars (contents.chars.map (·, .literal)) .covered :=
  fun trail _ => ⟨trail, Lexical.runs_template.contents contents⟩

theorem scans_signless {text : List Char} (h : ∀ c ∈ text, c ≠ '/' ∧ c ≠ '\'' ∧ c ≠ '"' ∧ c ≠ '\x60') :
    Scans .bare text (text.map (·, .code)) .bare :=
  fun trail rest => ⟨_, shadesFrom_signless h trail rest⟩

theorem scans_item {item : Lexical.Item} (h : isPlainItem item = true) : Scans .bare item.chars item.shaded .bare := by
  refine fun trail rest => ⟨item.leaves trail, Lexical.shadesFrom_item item trail rest ?_ ?_⟩
  · rintro body rfl
    cases h
  · rintro rfl
    cases h

namespace Delimiter

variable (delimiter : Delimiter) (reading : Reading)

/-- The reading behind the delimiter. -/
def next : Reading :=
  match delimiter with
  | opening | closing => reading
  | tick => reading.other

def shaded : List (Char × Shade) :=
  match delimiter with
  | opening | closing => delimiter.chars.map (·, reading.shade)
  | tick => [('\x60', .code)]

/-- A backtick changes the reading, whether it opens a template or closes one. -/
theorem scans : Scans reading delimiter.chars (delimiter.shaded reading) (delimiter.next reading) := by
  cases reading with
  | covered =>
      cases delimiter with
      | opening => exact scans_contents ⟨[.plain '$', .plain '\x7b'], by decide⟩
      | closing => exact scans_contents ⟨[.plain '\x7d'], by decide⟩
      | tick => exact fun trail rest => ⟨.close '\x60', (shadesFrom_template (by decide)).trans (if_pos rfl)⟩
  | bare =>
      cases delimiter with
      | opening => exact scans_signless (by decide)
      | closing => exact scans_signless (by decide)
      | tick =>
          refine fun trail rest => ⟨trail.leave, (shadesFrom_code (by decide)).trans ?_⟩
          exact congrArg (('\x60', Shade.code) :: ·) ((if_neg (by decide)).trans (if_pos rfl))

def masked : List Char := hide (· != .code) (delimiter.shaded reading)

theorem masked_ne_nil : delimiter.masked reading ≠ [] := by
  cases delimiter <;> cases reading <;> decide

theorem isWordChar_masked : ∀ c ∈ delimiter.masked reading, isWordChar c = false := by
  cases delimiter <;> cases reading <;> decide

theorem count_chars : delimiter.chars.count '\n' = 0 := by
  cases delimiter <;> rfl

variable {delimiter reading}

theorem silent_append {shaded : List (Char × Shade)} (h : ∀ word ∈ openingWords, Avoids word (hide (· != .code) shaded)) :
    Silent (hide (· != .code) (shaded ++ delimiter.shaded reading)) := by
  rw [hide_append]
  exact ModuleReference.silent_append h (delimiter.masked_ne_nil reading) (delimiter.isWordChar_masked reading)

end Delimiter

theorem Prose.hide_shaded (prose : Prose) : hide (· != .code) prose.shaded = prose.masked :=
  Lexical.hide_items prose.items

theorem Prose.scans (prose : Prose) : Scans .bare prose.chars prose.shaded .bare :=
  scans_flatMap fun item hitem => scans_item (prose.plain item hitem)

namespace Passage

def blocks (passage : Passage) : List Block :=
  [.silent passage.prose.shaded (passage.prose.hide_shaded ▸ silent_of_avoids passage.prose.avoids passage.edge),
    .statement passage.statement]

theorem scans (passage : Passage) :
    Scans .bare passage.chars (passage.blocks.flatMap Block.shaded) .bare := by
  have hstatement : Scans .bare passage.statement.chars (passage.statement.shaded ++ []) .bare := by
    rw [List.append_nil]
    exact passage.statement.exists_shadesFrom
  exact passage.prose.scans.append hstatement

theorem references_blocks (part : Part) (line : Nat) (passages : List Passage) :
    Block.references line (passages.flatMap blocks) = (occurrences part line passages).map Occurrence.reference := by
  induction passages generalizing line with
  | nil => rfl
  | cons passage passages ih =>
      rw [List.flatMap_cons, occurrences, List.map_cons, ← ih, chars, List.count_append, ← Nat.add_assoc,
        ← passage.prose.scans.map_fst]
      rfl

end Passage

theorem avoids_covered (text : List Char) :
    ∀ word ∈ openingWords, Avoids word (hide (· != .code) (text.map (·, .literal))) := by
  intro word hword
  refine avoids_of_forall_not (ne_nil_of_mem_openingWords hword) fun c hc => ?_
  rw [hide_map_hidden rfl] at hc
  obtain ⟨d, -, hd⟩ := List.mem_flatMap.mp hc
  rcases mem_blankOut hd with rfl | rfl <;> decide

namespace Chunk

variable {reading : Reading} (delimiter : Delimiter)

/-- A chunk and the delimiter behind it. -/
def blocks : Chunk reading → List Block
  | covered contents => [.silent (contents.chars.map (·, .literal) ++ delimiter.shaded .covered)
      (Delimiter.silent_append (avoids_covered contents.chars))]
  | bare passages last => passages.flatMap Passage.blocks ++ [.silent (last.shaded ++ delimiter.shaded .bare)
      (Delimiter.silent_append (last.hide_shaded ▸ last.avoids))]

theorem scans (chunk : Chunk reading) : Scans reading (chunk.chars ++ delimiter.chars)
    ((chunk.blocks delimiter).flatMap Block.shaded) (delimiter.next reading) := by
  cases chunk with
  | covered contents =>
      have hscans := (scans_contents contents).append (delimiter.scans .covered)
      simpa [chars, blocks, Block.shaded] using hscans
  | bare passages last =>
      have hpassages := scans_flatMap fun passage (_ : passage ∈ passages) => passage.scans
      have hscans := hpassages.append (last.scans.append (delimiter.scans .bare))
      simpa [chars, blocks, Block.shaded, List.flatMap_assoc] using hscans

theorem references_blocks (part : Part) (line : Nat) (chunk : Chunk reading) :
    Block.references line (chunk.blocks delimiter) = (chunk.occurrences part line).map Occurrence.reference := by
  cases chunk with
  | covered contents => rfl
  | bare passages last =>
      rw [blocks, Block.references_append, Passage.references_blocks part]
      exact List.append_nil _

end Chunk

/-- A delimiter behind a text adds no line to it. -/
theorem Scans.count_blocks {reading reading' : Reading} {text : List Char} {delimiter : Delimiter} {blocks : List Block}
    (h : Scans reading (text ++ delimiter.chars) (blocks.flatMap Block.shaded) reading') :
    (blocks.flatMap Block.chars).count '\n' = text.count '\n' := by
  have hchars : blocks.flatMap Block.chars = text ++ delimiter.chars := List.map_flatMap.symm.trans h.map_fst
  rw [hchars, List.count_append, delimiter.count_chars, Nat.add_zero]

namespace Nest

variable {part : Part} {reading : Reading}

/-- A nest and the delimiter behind it. -/
def blocks {part : Part} {reading : Reading} (delimiter : Delimiter) : Nest part reading → List Block
  | .text chunk => chunk.blocks delimiter
  | .substitution before inside after => before.blocks .opening ++ (inside.blocks .closing ++ after.blocks delimiter)
  | .template before inside after => before.blocks .tick ++ (inside.blocks .tick ++ after.blocks delimiter)

/-- Behind a nest the scan goes on as it began: the backticks of a template in it change the reading twice. -/
theorem scans (delimiter : Delimiter) (nest : Nest part reading) : Scans reading (nest.chars ++ delimiter.chars)
    ((nest.blocks delimiter).flatMap Block.shaded) (delimiter.next reading) := by
  induction nest generalizing delimiter with
  | text chunk => exact chunk.scans delimiter
  | substitution before inside after ihInside ihAfter =>
      have hscans := (before.scans .opening).append ((ihInside .closing).append (ihAfter delimiter))
      simpa only [chars, blocks, List.append_assoc, List.flatMap_append] using hscans
  | template before inside after ihInside ihAfter =>
      -- The inside is scanned as the other reading, up to the backtick that changes it back.
      have hinside := ihInside .tick
      rw [Delimiter.next, Reading.other_other] at hinside
      have hscans := (before.scans .tick).append (hinside.append (ihAfter delimiter))
      simpa only [chars, blocks, List.append_assoc, List.flatMap_append] using hscans

theorem references_blocks (delimiter : Delimiter) (nest : Nest part reading) (line : Nat) :
    Block.references line (nest.blocks delimiter) = (nest.occurrences line).map Occurrence.reference := by
  induction nest generalizing delimiter line with
  | text chunk => exact chunk.references_blocks delimiter _ line
  | substitution before inside after ihInside ihAfter =>
      simp only [blocks, occurrences, Block.references_append, (before.scans _).count_blocks, (inside.scans _).count_blocks,
        before.references_blocks _ .data, ihInside, ihAfter, List.map_append]
  | template before inside after ihInside ihAfter =>
      simp only [blocks, occurrences, Block.references_append, (before.scans _).count_blocks, (inside.scans _).count_blocks,
        before.references_blocks _ .code, ihInside, ihAfter, List.map_append]

end Nest

/-! ## A binding -/

def bindingWords : List (List Char) := ["const".toList, "let".toList, "var".toList]

/-- A declaration of one name, with a template literal for its value. -/
structure Binding where
  keyword : List Char
  declares : keyword ∈ bindingWords
  name : Name
  literal : Nest .data .covered

namespace Binding

variable (binding : Binding)

/-- The declaration up to the sign of assignment. -/
def declared : List Char := binding.keyword ++ ' ' :: (binding.name.chars ++ [' '])

/-- The declaration up to the mark that opens its value. -/
def head : List Char := binding.declared ++ '=' :: [' ', '\x60']

def chars : List Char := binding.head ++ ((binding.literal.chars ++ Delimiter.tick.chars) ++ [';', '\n'])

theorem keyword_plain : binding.keyword.all isPlainChar = true :=
  (by decide : ∀ w ∈ bindingWords, w.all isPlainChar = true) _ binding.declares

theorem all_isOf_declared : binding.declared.all (isOf []) = true := by
  have hspace : isOf [] ' ' = true := by decide
  simp only [declared, List.all_append, List.all_cons, List.all_nil, all_isOf_of_plain binding.keyword_plain, hspace,
    binding.name.all_isOf, Bool.and_self]

theorem all_isOf_head : binding.head.all (isOf ['=', '\x60']) = true := by
  have hmark : ['=', ' ', '\x60'].all (isOf ['=', '\x60']) = true := by decide
  rw [head, List.all_append, all_isOf_mono (List.nil_subset _) binding.all_isOf_declared, hmark]
  rfl

theorem avoids_head {word : List Char} (hword : word ∈ keywords) : Avoids word binding.head := by
  have hkeyword : binding.keyword ∉ keywords := (by decide : ∀ w ∈ bindingWords, w ∉ keywords) _ binding.declares
  have hname : Avoids word (binding.name.chars ++ ' ' :: '=' :: [' ', '\x60']) :=
    (avoids_append_cons (by decide)).mpr ⟨binding.name.avoids hword, avoids_of_forall hword (by decide)⟩
  have hsplit : binding.head = binding.keyword ++ ' ' :: (binding.name.chars ++ ' ' :: '=' :: [' ', '\x60']) := by
    simp [head, declared]
  rw [hsplit]
  exact (avoids_append_cons (by decide)).mpr ⟨avoids_word hword binding.keyword_plain hkeyword, hname⟩

theorem count_head : binding.head.count '\n' = 0 := by
  have hkeyword : '\n' ∉ binding.keyword := fun hm =>
    absurd (List.all_eq_true.mp binding.keyword_plain _ hm) (by decide)
  have hname : '\n' ∉ binding.name.chars := fun hm => binding.name.ne hm (by decide) rfl
  refine List.count_eq_zero.mpr ?_
  simp [head, declared, hkeyword, hname]

section Requires

variable {binding} {front back after rest word blanks target blanks' : List Char}

/-- What ends with the mark holds it. -/
theorem mark_mem (hsplit : binding.head = front ++ back) (hne : back ≠ []) : '\x60' ∈ back := by
  have hlast : (front ++ back).getLast? = some '\x60' := by
    rw [← hsplit, head]
    simp
  rw [List.getLast?_append_of_ne_nil _ hne] at hlast
  exact List.mem_of_getLast? hlast

theorem not_mem_of_split (hsplit : binding.head = front ++ back) {c : Char} (hc : isOf ['=', '\x60'] c = false) :
    c ∉ back := fun hm =>
  not_mem_of_all_isOf binding.all_isOf_head hc (hsplit ▸ List.mem_append_right front hm)

theorem append_ne_call (hsplit : binding.head = front ++ back) (hne : back ≠ [])
    (hblanks : ∀ c ∈ blanks, isBlank c = true) : back ++ after ≠ "require".toList ++ (blanks ++ '(' :: rest) := by
  intro he
  have hpiece : '\x60' ∉ "require".toList ++ blanks :=
    List.not_mem_append (by decide) (not_mem_of_isBlank (by decide) hblanks)
  rw [← List.append_assoc] at he
  obtain ⟨tail, rfl, -⟩ := exists_of_mem (mark_mem hsplit hne) hpiece he
  exact not_mem_of_split hsplit (by decide : isOf ['=', '\x60'] '(' = false) (by simp)

/-- A declared call would have to follow the sign of assignment, where the mark stands. -/
theorem append_ne_declaration (hsplit : binding.head = front ++ back) (hne : back ≠ []) (hword : word ∈ declarationWords)
    (hblanks : ∀ c ∈ blanks, isBlank c = true) (hblanks' : ∀ c ∈ blanks', isBlank c = true) (hcall : FirstSign 'r' rest)
    (htarget : (∀ c ∈ target, isNameChar c = true) ∨ ∃ inner, target = '\x7b' :: (inner ++ ['\x7d']) ∧ '\x7d' ∉ inner) :
    back ++ after ≠ word ++ (blanks ++ (target ++ (blanks' ++ '=' :: rest))) := by
  intro he
  have hwords : '\x60' ∉ word ++ blanks := List.not_mem_append
    ((by decide : ∀ w ∈ declarationWords, '\x60' ∉ w) word hword) (not_mem_of_isBlank (by decide) hblanks)
  rw [← List.append_assoc] at he
  rcases htarget with htarget | ⟨inner, rfl, -⟩
  · have hpiece : '\x60' ∉ (word ++ blanks) ++ (target ++ blanks') := by
      refine List.not_mem_append hwords (List.not_mem_append (fun hm => ?_) (not_mem_of_isBlank (by decide) hblanks'))
      exact absurd (htarget _ hm) (by decide)
    rw [← List.append_assoc, ← List.append_assoc] at he
    obtain ⟨tail, rfl, htail⟩ := exists_of_mem (mark_mem hsplit hne) (by simpa using hpiece) he
    -- The head has one sign of assignment, so the call would begin right behind that.
    rw [head, ← List.append_assoc] at hsplit
    have hdeclared : '=' ∉ binding.declared := not_mem_of_all_isOf binding.all_isOf_declared (by decide)
    obtain ⟨-, -, rfl⟩ := (List.append_cons_inj_of_notMem hdeclared (by decide)).mp hsplit
    have hsign : FirstSign '\x60' ([' ', '\x60'] ++ after) := ⟨[' '], after, rfl, by decide, by decide⟩
    rw [htail] at hsign
    exact absurd (hsign.unique hcall) (by decide)
  · obtain ⟨tail, rfl, -⟩ := exists_of_mem (mark_mem hsplit hne) hwords he
    exact not_mem_of_split hsplit (by decide : isOf ['=', '\x60'] '\x7b' = false) (by simp)

end Requires

theorem silent_head : Silent binding.head := by
  have hedge : ∀ c ∈ binding.head.getLast?, isWordChar c = false := by
    rw [head, List.getLast?_append_of_ne_nil _ (by simp)]
    decide
  refine ⟨fun kind before front back after hsplit hne => ?_, hedge⟩
  refine matchAt?_eq_none_iff.mpr fun piece after' groups' he hfits => ?_
  -- The head begins with a word with which a match of a call of `require` may begin, but no other match.
  cases hkind : kind.keyword? with
  | some word =>
      have hword := kind.mem_keywords hkind
      have hplain : word.all isPlainChar = true := (by decide : ∀ w ∈ keywords, w.all isPlainChar = true) word hword
      have havoids := binding.avoids_head hword
      rw [hsplit] at havoids hedge
      exact havoids.not_beginsWith hplain hedge hne he (kind.beginsWith_of_fits hkind hfits)
  | none =>
      cases kind with
      | requireCall =>
          rcases exists_of_fits_require hfits with ⟨-, blanks, rest, rfl, hblanks⟩ |
            ⟨word, hword, -, blanks, target, blanks', rest, rfl, hblanks, hblanks', hcall, htarget⟩
          · simp only [List.append_assoc, List.cons_append] at he
            exact append_ne_call hsplit hne hblanks he
          · simp only [List.append_assoc, List.cons_append] at he
            exact append_ne_declaration hsplit hne hword hblanks hblanks' (hcall.append after') htarget he
      | _ => cases hkind

theorem silent_tail : Silent [';', '\n'] := by
  refine silent_of_avoids (fun word hword => ?_) (by decide)
  exact avoids_of_forall_not (ne_nil_of_mem_openingWords hword) (by decide)

/-- The binding as silent text and statements. -/
def blocks : List Block :=
  .silent (binding.head.map (·, .code)) binding.silent_head.code ::
    (binding.literal.blocks .tick ++ [.silent ([';', '\n'].map (·, .code)) silent_tail.code])

theorem scans_head : Scans .bare binding.head (binding.head.map (·, .code)) .covered := by
  have hdeclared : (binding.declared ++ ['=', ' ']).all (isOf ['=']) = true := by
    have hsign : ['=', ' '].all (isOf ['=']) = true := by decide
    rw [List.all_append, all_isOf_mono (List.nil_subset _) binding.all_isOf_declared, hsign]
    rfl
  have hscans : Scans .bare (binding.declared ++ ['=', ' ']) ((binding.declared ++ ['=', ' ']).map (·, .code)) .bare :=
    fun trail rest => ⟨_, shadesFrom_append hdeclared (by decide)⟩
  have hhead : binding.head = (binding.declared ++ ['=', ' ']) ++ Delimiter.tick.chars := by
    rw [head, List.append_assoc]
    rfl
  rw [hhead, List.map_append]
  exact hscans.append (Delimiter.tick.scans .bare)

theorem shades_chars : shades binding.chars = binding.blocks.flatMap Block.shaded := by
  have hscans := binding.scans_head.append
    ((binding.literal.scans .tick).append (scans_signless (by decide : ∀ c ∈ [';', '\n'], _)))
  obtain ⟨trail, hshades⟩ := hscans {} []
  simpa [shades, chars, blocks, Block.shaded, Reading.zone, shadesFrom] using hshades

end Binding

/-- Of a binding of a template literal extraction gives the statements in all that is read as code. These are
statements of code alone just when none stands among the characters of a template that is read as code. -/
theorem extract_binding (binding : Binding) :
    extract (.ofList binding.chars) = (binding.literal.occurrences 1).map Occurrence.reference ∧
      (extract (.ofList binding.chars) =
          ((binding.literal.occurrences 1).filter (·.part = .code)).map Occurrence.reference ↔
        ∀ occurrence ∈ binding.literal.occurrences 1, occurrence.part = .code) := by
  have hhead : (Block.silent (binding.head.map (·, .code)) binding.silent_head.code).chars = binding.head := by
    simp [Block.chars, Block.shaded, Function.comp_def]
  have hextract : extract (.ofList binding.chars) = (binding.literal.occurrences 1).map Occurrence.reference := by
    rw [extract_blocks binding.shades_chars, Binding.blocks, Block.references, hhead, binding.count_head,
      Block.references_append, Nest.references_blocks]
    exact List.append_nil _
  refine ⟨hextract, ?_⟩
  rw [hextract]
  constructor
  · intro h
    -- A statement among characters would give one reference more.
    have hlength := congrArg List.length h
    rw [List.length_map, List.length_map] at hlength
    simpa using List.length_filter_eq_length_iff.mp hlength.symm
  · intro h
    rw [List.filter_eq_self.mpr (by simpa using h)]

/-- An import among the characters of a template in a substitution. -/
theorem extract_binding_of_nested :
    let empty : Prose := ⟨[], by simp, by decide⟩
    let covered : Chunk .covered := .covered ⟨[], by simp⟩
    let statement : Statement := ⟨.bareImport ⟨[' '], by decide⟩, .apostrophe,
      ⟨"./b".toList, by decide, by decide, by decide⟩, ⟨[], by simp⟩, by simp⟩
    let literal : Nest .data .covered := .substitution covered
      (.template covered (.text (.bare [⟨empty, by decide, statement⟩] empty)) (.text covered)) (.text covered)
    let binding : Binding := ⟨"const".toList, by decide, ⟨['x'], by decide, by decide⟩, literal⟩
    binding.chars = "const x = \x60$\x7b\x60import './b';\n\x60\x7d\x60;\n".toList ∧
      (literal.occurrences 1).map Occurrence.part = [.data] ∧
      extract (.ofList binding.chars) = [.static "./b" 1 false false []] := by
  intro empty covered statement literal binding
  refine ⟨by decide, rfl, ?_⟩
  rw [(extract_binding binding).1]
  decide

end ApiImpact.ModuleReference

import ApiImpact.Proofs.ModuleReference.Roundtrip

/-!
# Statements among other text

Where a source is made of statements and of text in which no pattern begins a match, extraction gives the
statements, each at its line.
-/

namespace ApiImpact.ModuleReference

open Text Text.Pattern

variable {before front back piece after rest text : List Char} {groups groups' : Groups} {kind : Kind}

/-! ## Text without matches -/

/-- No pattern begins a match in `text`, whatever stands around it, and no word goes on behind it. -/
structure Silent (text : List Char) : Prop where
  none : ∀ (kind : Kind) (before front back after : List Char), text = front ++ back → back ≠ [] →
    kind.pattern.matchAt? (.between (before ++ front) (back ++ after)) = none
  edge : ∀ c ∈ text.getLast?, isWordChar c = false

/-- The words with which matches begin. -/
def openingWords : List (List Char) :=
  "export".toList :: "require".toList :: declarationWords

theorem ne_nil_of_mem_openingWords {word : List Char} (h : word ∈ openingWords) : word ≠ [] :=
  (by decide : ∀ w ∈ openingWords, w ≠ []) word h

theorem Kind.exists_beginsWith_of_fits (h : kind.pattern.Fits groups before piece after groups') :
    ∃ word ∈ openingWords, BeginsWith word before piece := by
  cases hkind : kind.keyword? with
  | some word =>
      have hkeywords : ∀ w ∈ keywords, w ∈ openingWords := by decide
      exact ⟨word, hkeywords word (kind.mem_keywords hkind), kind.beginsWith_of_fits hkind h⟩
  | none =>
      cases kind with
      | requireCall =>
          rcases exists_of_fits_require h with ⟨hbegins, -⟩ | ⟨word, hword, hbegins, -⟩
          · exact ⟨"require".toList, by decide, hbegins⟩
          · exact ⟨word, List.mem_cons_of_mem _ (List.mem_cons_of_mem _ hword), hbegins⟩
      | _ => cases hkind

theorem isPlainChar_of_isWordChar {c : Char} (h : isWordChar c = false) : isPlainChar c = false :=
  Bool.eq_false_iff.mpr fun hplain => absurd (isWordChar_of_isPlainChar hplain) (by simp [h])

/-- A word that is not one of the words of a text does not begin in it. -/
theorem Avoids.not_beginsWith {word : List Char} (h : Avoids word (front ++ back)) (hword : word.all isPlainChar = true)
    (hedge : ∀ c ∈ (front ++ back).getLast?, isWordChar c = false) (hne : back ≠ [])
    (he : back ++ after = piece ++ rest) : ¬ BeginsWith word (before ++ front) piece := by
  rintro ⟨hbehind, c, more, rfl, hc⟩
  have hfront : ∀ d ∈ front.getLast?, isPlainChar d = false := fun d hd =>
    hbehind d (by rw [List.getLast?_append, Option.mem_def.mp hd]; rfl)
  rw [List.getLast?_append_of_ne_nil _ hne] at hedge
  rw [List.append_assoc, List.cons_append] at he
  exact h.append_ne hword hfront (fun d hd => isPlainChar_of_isWordChar (hedge d hd)) hne hc he

/-- A text without those words is silent, if no word goes on behind it. -/
theorem silent_of_avoids (h : ∀ word ∈ openingWords, Avoids word text) (hedge : ∀ c ∈ text.getLast?, isWordChar c = false) :
    Silent text := by
  refine ⟨?_, hedge⟩
  rintro kind before front back after rfl hne
  refine matchAt?_eq_none_iff.mpr fun piece after' groups' he hfits => ?_
  obtain ⟨word, hword, hbegins⟩ := kind.exists_beginsWith_of_fits hfits
  have hplain : word.all isPlainChar = true := (by decide : ∀ w ∈ openingWords, w.all isPlainChar = true) word hword
  exact (h word hword).not_beginsWith hplain hedge hne he hbegins

theorem silent_append (h : ∀ word ∈ openingWords, Avoids word text) (hne : back ≠ [])
    (hback : ∀ c ∈ back, isWordChar c = false) : Silent (text ++ back) := by
  refine silent_of_avoids (fun word hword => ?_) ?_
  · have hplain : ∀ c ∈ back, isPlainChar c = false := fun c hc => isPlainChar_of_isWordChar (hback c hc)
    exact (avoids_append_of_forall_not (ne_nil_of_mem_openingWords hword) hplain).mpr (h word hword)
  · rw [List.getLast?_append_of_ne_nil _ hne]
    exact fun c hc => hback c (List.mem_of_getLast? hc)

theorem Silent.code (h : Silent text) : Silent (hide (· != .code) (text.map (·, .code))) := by
  rwa [hide_map rfl]

/-! ## Blocks -/

/-- A part of a source, with its shades. -/
inductive Block where
  | silent (shaded : List (Char × Shade)) (isSilent : Silent (hide (· != .code) shaded))
  | statement (s : Statement)

namespace Block

def shaded : Block → List (Char × Shade)
  | silent shaded _ => shaded
  | statement s => s.shaded

/-- The block as it is written. -/
def chars (block : Block) : List Char := block.shaded.map Prod.fst

/-- The block without its comments. -/
def uncommented (block : Block) : List Char := hide (· == .comment) block.shaded

/-- The block in the code alone. -/
def masked (block : Block) : List Char := hide (· != .code) block.shaded

theorem uncommented_statement (s : Statement) : (statement s).uncommented = s.chars := s.hide_comment_shaded

theorem masked_statement (s : Statement) : (statement s).masked = s.masked := s.hide_code_shaded

theorem chars_statement (s : Statement) : (statement s).chars = s.chars := by
  simp [chars, shaded, Statement.shaded, Statement.chars, Function.comp_def]

theorem byteLength_masked (block : Block) : byteLength block.masked = byteLength block.chars :=
  byteLength_hide _ _

theorem edge (block : Block) : ∀ c ∈ block.masked.getLast?, isWordChar c = false := by
  cases block with
  | silent shaded isSilent => exact isSilent.edge
  | statement s =>
      obtain ⟨body, hbody⟩ := s.exists_body
      rw [masked_statement, hbody, List.getLast?_append_of_ne_nil _ (by simp)]
      simpa using (by decide : isWordChar '\n' = false)

/-- No word goes on behind a block. -/
theorem edge_append (h : ∀ c ∈ before.getLast?, isWordChar c = false) (block : Block) :
    ∀ c ∈ (before ++ block.masked).getLast?, isWordChar c = false := by
  cases hmasked : block.masked with
  | nil => simpa using h
  | cons c rest =>
      rw [List.getLast?_append_of_ne_nil _ (by simp), ← hmasked]
      exact block.edge

end Block

variable {blocks : List Block} {entry : List Char × Statement}

theorem byteLength_flatMap_hide (hidden : Shade → Bool) (blocks : List Block) :
    byteLength (blocks.flatMap fun block => hide hidden block.shaded) = byteLength (blocks.flatMap Block.chars) := by
  rw [← hide_flatMap, byteLength_hide, List.map_flatMap]
  rfl

/-- The statements among blocks, each with the code before it. -/
def standing : List Char → List Block → List (List Char × Statement)
  | _, [] => []
  | before, .silent shaded isSilent :: blocks => standing (before ++ (Block.silent shaded isSilent).masked) blocks
  | before, .statement s :: blocks => (before, s) :: standing (before ++ s.masked) blocks

theorem exists_of_mem_standing (h : entry ∈ standing before blocks) :
    ∃ front back, blocks = front ++ .statement entry.2 :: back ∧ entry.1 = before ++ front.flatMap Block.masked := by
  induction blocks generalizing before with
  | nil => cases h
  | cons block blocks ih =>
      cases block with
      | silent shaded isSilent =>
          obtain ⟨front, back, rfl, hbefore⟩ := ih h
          exact ⟨.silent shaded isSilent :: front, back, rfl, by rw [hbefore, List.flatMap_cons, List.append_assoc]⟩
      | statement s =>
          rcases List.mem_cons.mp h with rfl | h
          · exact ⟨[], blocks, rfl, (List.append_nil before).symm⟩
          · obtain ⟨front, back, rfl, hbefore⟩ := ih h
            refine ⟨.statement s :: front, back, rfl, ?_⟩
            rw [hbefore, List.flatMap_cons, Block.masked_statement, List.append_assoc]

/-! ## Matches -/

/-- Each pattern finds the statements of its form. -/
theorem Kind.findAllFrom_blocks (h : ∀ c ∈ before.getLast?, isWordChar c = false) :
    kind.pattern.findAllFrom (.between before (blocks.flatMap Block.masked)) =
      ((standing before blocks).filter (·.2.form.kind = kind)).map fun entry => entry.2.found entry.1 := by
  induction blocks generalizing before with
  | nil => exact kind.findAllFrom_nil before
  | cons block blocks ih =>
      have hrest := ih (block.edge_append h)
      cases block with
      | silent shaded isSilent =>
          -- The search passes over silent text place by place, whatever stands behind it.
          have hskip (after : List Char) : kind.pattern.findAllFrom (.between before (hide (· != .code) shaded ++ after)) =
              kind.pattern.findAllFrom (.between (before ++ hide (· != .code) shaded) after) :=
            findAllFrom_skip fun front back => isSilent.none kind before front back after
          exact (hskip _).trans hrest
      | statement s =>
          rw [Block.masked_statement] at hrest
          rw [List.flatMap_cons, Block.masked_statement, s.findAllFrom_append h, hrest, standing]
          split_ifs with hkind
          · rw [List.filter_cons_of_pos (by simpa using hkind)]
            rfl
          · rw [List.filter_cons_of_neg (by simpa using hkind)]
            rfl

/-! ## References -/

/-- The statement that stands behind a text, with the offset at which it begins. -/
def placeOf (entry : List Char × Statement) : Nat × Statement :=
  (byteLength entry.1, entry.2)

theorem readMatch_standing {masks : Masks} (hcode : masks.code = blocks.flatMap Block.masked)
    (htext : masks.text = blocks.flatMap Block.uncommented) (h : entry ∈ standing [] blocks) :
    entry.2.form.kind.readMatch masks (entry.2.found entry.1) = some (referenceAt masks.position (placeOf entry)) := by
  obtain ⟨front, back, rfl, hbefore⟩ := exists_of_mem_standing h
  rw [List.nil_append] at hbefore
  have hcode' : masks.code = entry.1 ++ (entry.2.masked ++ back.flatMap Block.masked) := by
    rw [hcode, hbefore, List.flatMap_append, List.flatMap_cons, Block.masked_statement]
  have htext' : masks.text = front.flatMap Block.uncommented ++ (entry.2.chars ++ back.flatMap Block.uncommented) := by
    rw [htext, List.flatMap_append, List.flatMap_cons, Block.uncommented_statement]
  have hlength : byteLength (front.flatMap Block.uncommented) = byteLength entry.1 := by
    rw [hbefore]
    exact (byteLength_flatMap_hide _ front).trans (byteLength_flatMap_hide _ front).symm
  exact entry.2.readMatch_found hcode' htext' hlength

/-- The references of a kind are those of the statements of that form. -/
theorem Kind.found_blocks {source : List Char} (hshades : shades source = blocks.flatMap Block.shaded) (kind : Kind) :
    kind.found (.of source) = ((standing [] blocks).filter (·.2.form.kind = kind)).map fun entry =>
      referenceAt (positionOf source) (placeOf entry) := by
  have hcode : (Masks.of source).code = blocks.flatMap Block.masked := by
    rw [Masks.of, codeOnly, hshades, hide_flatMap]
    rfl
  have htext : (Masks.of source).text = blocks.flatMap Block.uncommented := by
    rw [Masks.of, withoutComments, hshades, hide_flatMap]
    rfl
  have hfound : kind.found (.of source) =
      (kind.pattern.findAll (Masks.of source).code).filterMap (kind.readMatch (.of source)) := rfl
  have hbefore : ∀ c ∈ ([] : List Char).getLast?, isWordChar c = false := by simp
  have hmatches : kind.pattern.findAll (blocks.flatMap Block.masked) =
      ((standing [] blocks).filter (·.2.form.kind = kind)).map fun entry => entry.2.found entry.1 :=
    Kind.findAllFrom_blocks hbefore
  rw [hfound, hcode, hmatches, List.filterMap_map, ← List.filterMap_eq_map]
  refine List.filterMap_congr fun entry hm => ?_
  obtain ⟨hentry, hkind⟩ := List.mem_filter.mp hm
  have hread := readMatch_standing hcode htext hentry
  rwa [of_decide_eq_true hkind] at hread

/-! ## In order -/

theorem le_of_mem_standing (h : entry ∈ standing before blocks) : byteLength before ≤ byteLength entry.1 := by
  obtain ⟨front, back, -, hbefore⟩ := exists_of_mem_standing h
  rw [hbefore, byteLength_append]
  exact Nat.le_add_right _ _

theorem standing_pairwise (before : List Char) (blocks : List Block) :
    (standing before blocks).Pairwise fun a b => byteLength a.1 < byteLength b.1 := by
  induction blocks generalizing before with
  | nil => exact List.Pairwise.nil
  | cons block blocks ih =>
      cases block with
      | silent shaded isSilent => exact ih _
      | statement s =>
          refine List.pairwise_cons.mpr ⟨fun entry h => Nat.lt_of_lt_of_le ?_ (le_of_mem_standing h), ih _⟩
          have hmark := s.mark.char.utf8Size_pos
          simp only [Statement.masked, byteLength_append, byteLength_cons]
          omega

/-- The references of the statements among blocks that begin on line `line`. -/
def Block.references : Nat → List Block → List ModuleReference
  | _, [] => []
  | line, .silent shaded isSilent :: blocks =>
    references (line + (Block.silent shaded isSilent).chars.count '\n') blocks
  | line, .statement s :: blocks => s.reference line :: references (line + s.chars.count '\n') blocks

theorem Block.references_append (line : Nat) (front back : List Block) : references line (front ++ back) =
    references line front ++ references (line + (front.flatMap chars).count '\n') back := by
  induction front generalizing line with
  | nil => rfl
  | cons block front ih =>
      rw [List.flatMap_cons, List.count_append, ← Nat.add_assoc]
      cases block with
      | silent shaded isSilent => exact ih _
      | statement s =>
          rw [chars_statement]
          exact congrArg (s.reference line :: ·) (ih _)

theorem map_referenceAt_standing {front : List Char} (hlength : byteLength before = byteLength front)
    (blocks : List Block) : (standing before blocks).map (fun entry =>
      (referenceAt (positionOf (front ++ blocks.flatMap Block.chars)) (placeOf entry)).2) =
        Block.references (1 + front.count '\n') blocks := by
  induction blocks generalizing before front with
  | nil => rfl
  | cons block blocks ih =>
      have hlength' : byteLength (before ++ block.masked) = byteLength (front ++ block.chars) := by
        rw [byteLength_append, byteLength_append, hlength, block.byteLength_masked]
      have hrest := ih hlength'
      rw [List.count_append, ← Nat.add_assoc, List.append_assoc, ← List.flatMap_cons] at hrest
      cases block with
      | silent shaded isSilent => exact hrest
      | statement s =>
          rw [Block.chars_statement, Block.masked_statement] at hrest
          rw [standing, List.map_cons, hrest, Block.references, placeOf, referenceAt, hlength, line_positionOf]

/-- Extraction gives the statements among silent text, in order. -/
theorem extract_blocks {source : List Char} (hshades : shades source = blocks.flatMap Block.shaded) :
    extract (.ofList source) = Block.references 1 blocks := by
  have hsource : source = blocks.flatMap Block.chars := by
    rw [← map_fst_shades source, hshades, List.map_flatMap]
    rfl
  have hfound : (found (.of source)).Perm
      ((standing [] blocks).map fun entry => referenceAt (positionOf source) (placeOf entry)) := by
    rw [found_eq_flatMap, List.flatMap_congr fun kind _ => kind.found_blocks hshades, ← List.map_flatMap]
    exact (flatMap_filter_perm (·.2.form.kind) (standing [] blocks)).map _
  have hsorted := mergeSort_eq_of_perm hfound (List.pairwise_map.mpr (standing_pairwise [] blocks))
  have hreferences : (standing [] blocks).map (fun entry =>
      (referenceAt (positionOf ([] ++ blocks.flatMap Block.chars)) (placeOf entry)).2) = Block.references (1 + 0) blocks :=
    map_referenceAt_standing rfl blocks
  rw [extract, String.toList_ofList, hsorted, List.map_map, hsource]
  exact hreferences

end ApiImpact.ModuleReference

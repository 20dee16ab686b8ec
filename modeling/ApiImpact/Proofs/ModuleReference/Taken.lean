import ApiImpact.Proofs.ModuleReference.Masked
import ApiImpact.Proofs.Text.Offset
import ApiImpact.Proofs.Text.Pattern

/-!
# Statements found by their patterns

For each form of a statement there is one pattern. At the beginning of a statement the pattern of its form
takes all of it up to the opening mark of the specifier, and records the modifier, the clause and the mark.
-/

namespace ApiImpact.ModuleReference

open Text Text.Pattern

/-! ## Kinds -/

/-- The forms of statements, without what is written in them. -/
inductive Kind where
  | importFrom
  | bareImport
  | exportFrom
  | dynamicImport
  | requireCall
  deriving DecidableEq

namespace Kind

def all : List Kind := [importFrom, bareImport, exportFrom, dynamicImport, requireCall]

def pattern : Kind → Pattern
  | importFrom => staticPattern
  | bareImport => bareImportPattern
  | exportFrom => reexportPattern
  | dynamicImport => dynamicPattern
  | requireCall => requirePattern

/-- The group that records the opening mark of the specifier. -/
def quote : Kind → Nat
  | importFrom | exportFrom => 3
  | bareImport | dynamicImport => 1
  | requireCall => 2

/-- The reference that a match stands for. -/
def read (masks : Masks) : Kind → Match → String → Option ModuleReference
  | importFrom, m, specifier => some (.static specifier (masks.lineOf m) (m.group? 1).isSome false
      (importClause (masks.groupText m 2)))
  | bareImport, m, specifier => some (.static specifier (masks.lineOf m) false false [])
  | exportFrom, m, specifier => some (.static specifier (masks.lineOf m) (m.group? 1).isSome true
      (reexportClause (masks.groupText m 2)))
  | dynamicImport, m, specifier =>
      if holds "$\x7b".toList specifier.toList then none else some (.dynamic specifier (masks.lineOf m))
  | requireCall, m, specifier => some (.require specifier (masks.lineOf m)
      (if (m.group? 1).isSome then requireBinding (masks.groupText m 1) else []))

/-- The references of a kind, with the offsets at which they begin. -/
def found (masks : Masks) (kind : Kind) : List (Nat × ModuleReference) :=
  masks.collect kind.pattern kind.quote (kind.read masks)

end Kind

theorem found_eq_flatMap (masks : Masks) : found masks = Kind.all.flatMap (Kind.found masks) := by
  simp only [found, Kind.all, List.flatMap_cons, List.flatMap_nil, List.append_nil, List.append_assoc]
  rfl

/-- What a match of a kind is read as is extracted. -/
theorem Kind.mem_extract {kind : Kind} {source specifier : String} {m : Match} {reference : ModuleReference}
    (hm : m ∈ kind.pattern.findAll (codeOnly source.toList))
    (hquoted : (Masks.of source.toList).quoted? m kind.quote = some specifier)
    (hread : kind.read (.of source.toList) m specifier = some reference) : reference ∈ extract source := by
  have hkind : kind ∈ Kind.all := by cases kind <;> decide
  have hcollect : (m.span.start, reference) ∈ kind.found (.of source.toList) := by
    refine List.mem_filterMap.mpr ⟨m, hm, ?_⟩
    simp only [hquoted, Option.bind_eq_bind, Option.bind_some, hread]
  have hfound : (m.span.start, reference) ∈ ModuleReference.found (.of source.toList) := by
    rw [found_eq_flatMap]
    exact List.mem_flatMap.mpr ⟨kind, hkind, hcollect⟩
  exact List.mem_map_of_mem (List.mem_mergeSort.mpr hfound)

def Form.kind : Form → Kind
  | importFrom .. => .importFrom
  | bareImport .. => .bareImport
  | exportFrom .. => .exportFrom
  | dynamicImport .. => .dynamicImport
  | requireCall .. => .requireCall

/-! ## What is recorded -/

/-- The span of `piece` behind `before`. -/
def spanOf (before piece : List Char) : Span := ⟨byteLength before, byteLength (before ++ piece)⟩

/-- The specifier of a match is read from the text, up to where its mark stands again in the code. -/
theorem Masks.quoted?_eq {masks : Masks} {m : Match} {index : Nat} {front blanked contents rest : List Char}
    {mark : Char} (hgroup : m.group? index = some (spanOf front [mark]))
    (hcode : masks.code = front ++ ([mark] ++ (blanked ++ mark :: rest))) (hblanked : mark ∉ blanked)
    (hcontents : slice? masks.text (byteLength (front ++ [mark])) (byteLength (front ++ [mark] ++ blanked)) =
      some contents) (hne : contents ≠ []) : masks.quoted? m index = some (.ofList contents) := by
  have hmark : slice? masks.code (byteLength front) (byteLength (front ++ [mark])) = some [mark] := by
    rw [hcode, slice?_append]
  have hdrop : dropBytes? masks.code (byteLength (front ++ [mark])) = some (blanked ++ mark :: rest) := by
    rw [hcode, ← List.append_assoc, dropBytes?_byteLength]
  have hfind : findOffset? (· == mark) (blanked ++ mark :: rest) = some (byteLength blanked) :=
    findOffset?_append (fun c hc => beq_eq_false_iff_ne.mpr (ne_of_mem_of_not_mem hc hblanked)) (beq_self_eq_true mark)
  rw [byteLength_append _ blanked] at hcontents
  simp only [Masks.quoted?, hgroup, spanOf, Option.bind_eq_bind, Option.bind_some, hmark, List.head?_cons, hdrop,
    hfind, hcontents]
  rw [if_neg (by simpa using hne)]

/-- The group of the modifier `type`. -/
def modifierGroups (before : List Char) (modifier : Option Gap) : Groups :=
  modifier.elim [] fun gap => [(1, spanOf before ("type".toList ++ gap.chars))]

/-- The groups behind the clause of an import or re-export that begins with `word`. -/
def clauseGroups (before word : List Char) (gap : Gap) (modifier : Option Gap) (clause : List Char) :
    Groups :=
  (2, spanOf (before ++ (word ++ (gap.chars ++ modifierChars modifier))) clause) ::
    modifierGroups (before ++ (word ++ gap.chars)) modifier

/-- The groups that are recorded on the way to the opening mark. -/
def Form.clauseGroups (before : List Char) : Form → Groups
  | importFrom gap modifier clause _ =>
    ModuleReference.clauseGroups before "import".toList gap modifier clause.core
  | exportFrom gap modifier clause _ =>
    ModuleReference.clauseGroups before "export".toList gap modifier clause.core
  | bareImport _ | dynamicImport .. => []
  | requireCall declaration .. => declaration.elim [] fun declaration =>
    [(1, spanOf (before ++ ("const".toList ++ declaration.gap.chars)) declaration.target.chars)]

variable {α : Type} {groups : Groups} {visit : Groups → Place → Option α} {before rest : List Char} {r : α}

/-! ## Parts of the patterns -/

theorem tryAt_spacing {space : Spacing} (hstop : ∀ c ∈ rest.head?, isBlank c = false)
    (h : visit groups (.between (before ++ space.chars) rest) = some r) :
    (most isBlank).tryAt groups visit (.between before (space.chars ++ rest)) = some r :=
  tryAt_most (fun _ => space.isBlank) hstop h

theorem tryAt_gap {gap : Gap} (hstop : ∀ c ∈ rest.head?, isBlank c = false)
    (h : visit groups (.between (before ++ gap.chars) rest) = some r) :
    (most1 isBlank).tryAt groups visit (.between before (gap.chars ++ rest)) = some r :=
  tryAt_most1 gap.ne_nil (fun _ => gap.isBlank) hstop h

/-- A clause that does not begin with the word `type` is not taken for a modifier. -/
theorem tryAt_typeModifier {modifier : Option Gap} (hstop : ∀ c ∈ rest.head?, isBlank c = false)
    (hfree : ∀ b tail, isBlank b = true → rest ≠ "type".toList ++ b :: tail)
    (h : visit (modifierGroups before modifier ++ groups)
      (.between (before ++ modifierChars modifier) rest) = some r) :
    typeModifier.tryAt groups visit (.between before (modifierChars modifier ++ rest)) = some r := by
  cases modifier with
  | none =>
      refine tryAt_optional_skip (tryAt_eq_none_iff.mpr ?_) (by simpa [modifierChars, modifierGroups] using h)
      rintro piece after groups' he ⟨recorded, ⟨x, y, between, rfl, hx, hy⟩, rfl⟩
      obtain ⟨rfl, rfl⟩ := fits_literal.mp hx
      obtain ⟨rfl, hne, hblank⟩ := fits_most1.mp hy
      obtain ⟨b, blanks, rfl⟩ := List.exists_cons_of_ne_nil hne
      exact absurd (by simpa [modifierChars] using he) (hfree b (blanks ++ after) (hblank b (by simp)))
  | some gap =>
      have hsplit : modifierChars (some gap) ++ rest = "type".toList ++ (gap.chars ++ rest) := by
        simp [modifierChars]
      rw [hsplit]
      refine tryAt_optional (tryAt_group (tryAt_append (tryAt_literal (tryAt_gap hstop ?_))))
      simpa [modifierChars, modifierGroups, spanOf] using h

theorem atWordEdge_append {word : List Char} (hbefore : ∀ c ∈ before.getLast?, isWordChar c = false)
    (hword : word.head?.any isWordChar = true) : atWordEdge (.between before (word ++ rest)) = true := by
  refine (atWordEdge_iff ?_).mpr hbefore
  cases word with
  | nil => cases hword
  | cons c word => exact hword

theorem isBlank_head_append {text : List Char} (hne : text ≠ []) (h : ∀ c ∈ text.head?, isBlank c = false) :
    ∀ c ∈ (text ++ rest).head?, isBlank c = false := by
  rwa [List.head?_append_of_ne_nil _ hne]

theorem isBlank_head_cons {c : Char} (h : isBlank c = false) : ∀ d ∈ (c :: rest).head?, isBlank d = false := by
  simpa using h

theorem isBlank_head_modifier {modifier : Option Gap} (hstop : ∀ c ∈ rest.head?, isBlank c = false) :
    ∀ c ∈ (modifierChars modifier ++ rest).head?, isBlank c = false := by
  cases modifier with
  | none => exact hstop
  | some gap =>
      rintro c hc
      obtain rfl : 't' = c := Option.some.inj hc
      decide

/-- The keyword of an import or re-export and its modifier. -/
theorem tryAt_keyword {word : String} {gap : Gap} {modifier : Option Gap}
    (hbefore : ∀ c ∈ before.getLast?, isWordChar c = false) (hword : word.toList.head?.any isWordChar = true)
    (hstop : ∀ c ∈ rest.head?, isBlank c = false)
    (hfree : ∀ b tail, isBlank b = true → rest ≠ "type".toList ++ b :: tail)
    (h : visit (modifierGroups (before ++ (word.toList ++ gap.chars)) modifier ++ groups)
      (.between (before ++ (word.toList ++ (gap.chars ++ modifierChars modifier))) rest) = some r) :
    (wordEdge ++ literal word ++ most1 isBlank ++ typeModifier).tryAt groups visit
      (.between before (word.toList ++ (gap.chars ++ (modifierChars modifier ++ rest)))) = some r := by
  refine tryAt_append (tryAt_append (tryAt_append (tryAt_wordEdge (atWordEdge_append hbefore hword)
    (tryAt_literal (tryAt_gap (isBlank_head_modifier hstop) (tryAt_typeModifier hstop hfree ?_))))))
  simpa using h

/-- The mark behind the blanks before it. -/
theorem tryAt_mark {index : Nat} {space : Spacing} {c : Char} {p : Char → Bool} (hc : p c = true)
    (hblank : isBlank c = false)
    (h : visit ((index, spanOf (before ++ space.chars) [c]) :: groups)
      (.between (before ++ (space.chars ++ [c])) rest) = some r) :
    (most isBlank).tryAt groups (fun groups place => (group index (one p)).tryAt groups visit place)
      (.between before (space.chars ++ c :: rest)) = some r := by
  refine tryAt_spacing (by simpa using hblank) (tryAt_group (tryAt_one hc ?_))
  simpa [spanOf] using h

/-! ## Clauses -/

section Last

variable {text : List Char}

theorem isWordChar_of_mem_plainBlanks {c : Char} (h : c ∈ plainBlanks) : isWordChar c = false := by
  revert c
  decide

theorem Gap.isWordChar_getLast (gap : Gap) :
    ∀ c ∈ (text ++ gap.chars).getLast?, isWordChar c = false := by
  intro c hc
  rw [List.getLast?_append_of_ne_nil _ gap.ne_nil] at hc
  exact isWordChar_of_mem_plainBlanks (gap.blank c (List.mem_of_mem_getLast? hc))

theorem Spacing.isWordChar_getLast (space : Spacing) (h : ∀ c ∈ text.getLast?, isWordChar c = false) :
    ∀ c ∈ (text ++ space.chars).getLast?, isWordChar c = false := by
  by_cases hne : space.chars = []
  · simpa [hne] using h
  · exact Gap.isWordChar_getLast ⟨space, hne⟩

end Last

theorem Bindings.head_core (bindings : Bindings) :
    ∀ c ∈ (bindings.core ++ rest).head?, c = '*' ∨ c = '\x7b' := by
  cases bindings <;> simp [core, Listing.chars]

/-- Nothing that may stand in a word stands just before `from`. -/
theorem Bindings.isWordChar_getLast (bindings : Bindings) :
    ∀ c ∈ (bindings.core ++ bindings.after.chars).getLast?, isWordChar c = false := by
  cases bindings with
  | whole beforeAs afterAs name after => exact after.isWordChar_getLast
  | names list after =>
      refine after.isWordChar_getLast fun c hc => ?_
      have hlast : (core (names list after)).getLast? = some '\x7d' := by
        simp [core, Listing.chars, List.getLast?_cons]
      obtain rfl := Option.some.inj (hlast.symm.trans hc)
      decide

namespace ImportClause

variable (clause : ImportClause)

theorem trimmed_core : Trimmed clause.core := by
  cases clause with
  | default name after => exact name.trimmed
  | bindings inner => exact inner.trimmed_core
  | both name beforeComma afterComma inner =>
      have hboth : Trimmed (name.chars ++ ((beforeComma.chars ++ ',' :: afterComma.chars) ++ inner.core)) :=
        name.trimmed.append inner.trimmed_core name.ne_nil inner.core_ne_nil
      simpa [core] using hboth

theorem core_ne_nil : clause.core ≠ [] := by
  cases clause with
  | default name after => exact name.ne_nil
  | bindings inner => exact inner.core_ne_nil
  | both name beforeComma afterComma inner => simp [core]

theorem isWordChar_getLast : ∀ c ∈ (clause.core ++ clause.after.chars).getLast?, isWordChar c = false := by
  cases clause with
  | default name after => exact after.isWordChar_getLast
  | bindings inner => exact inner.isWordChar_getLast
  | both name beforeComma afterComma inner =>
      have hinner := inner.isWordChar_getLast
      have hne : inner.core ++ inner.after.chars ≠ [] := by simp [inner.core_ne_nil]
      have hsplit : core (both name beforeComma afterComma inner) ++ inner.after.chars =
          (name.chars ++ (beforeComma.chars ++ ',' :: afterComma.chars)) ++ (inner.core ++ inner.after.chars) := by
        simp [core]
      rw [after, hsplit, List.getLast?_append_of_ne_nil _ hne]
      exact hinner

/-- The first word of a clause is not `type`. -/
theorem append_ne_type {b : Char} (hb : isBlank b = true) (tail : List Char) :
    clause.core ++ (clause.after.chars ++ rest) ≠ "type".toList ++ b :: tail := by
  have hplain : isPlainChar b = false := by
    by_contra hplain
    rw [isBlank_of_isPlainChar (by simpa using hplain)] at hb
    cases hb
  have hfree (name : Name) : name.chars ≠ "type".toList := by
    intro htype
    exact name.free (by simp [htype])
  have hinner (inner : Bindings) (text : List Char) : inner.core ++ text ≠ "type".toList ++ b :: tail := by
    intro h
    rcases inner.head_core 't' (by rw [h]; rfl) with ht | ht <;> cases ht
  intro h
  cases clause with
  | default name after => exact hfree name (name.eq_of_append_eq (by decide) hplain
      (fun _ hc => isPlainChar_of_mem_plainBlanks (after.mem_head hc)) h)
  | bindings inner => exact hinner inner _ h
  | both name beforeComma afterComma inner =>
      rw [core, List.append_assoc, List.append_assoc] at h
      refine hfree name (name.eq_of_append_eq (by decide) hplain (fun c hc => ?_) h)
      rcases beforeComma.mem_head hc with hblank | hcomma
      · exact isPlainChar_of_mem_plainBlanks hblank
      · obtain rfl : ',' = c := Option.some.inj hcomma
        decide

end ImportClause

theorem isClauseChar_of_isOf {c : Char} (h : isOf clauseSigns c = true) : isClauseChar c = true := by
  rcases isOf_iff.mp h with hplain | hblank | hsign
  · simp [isClauseChar, isNameChar, isWordChar_of_isPlainChar hplain]
  · simp [isClauseChar, isBlank_of_mem_plainBlanks hblank]
  · have hsigns : ∀ d ∈ clauseSigns, isClauseChar d = true := by decide
    exact hsigns c hsign

theorem eq_of_isQuote {c : Char} (h : isQuote c = true) : c = '\'' ∨ c = '"' := by
  simpa [isQuote] using h

theorem isClauseChar_of_isQuote {c : Char} (h : isQuote c = true) : isClauseChar c = false := by
  rcases eq_of_isQuote h with rfl | rfl <;> decide

theorem isBlank_of_isQuote {c : Char} (h : isQuote c = true) : isBlank c = false := by
  rcases eq_of_isQuote h with rfl | rfl <;> decide

/-- What follows the clause of an import. -/
def fromPattern : Pattern :=
  most isBlank ++ (wordEdge ++ (literal "from" ++ (most isBlank ++ group 3 (one isQuote))))

theorem exists_of_fits_fromPattern {piece after : List Char} {groups' : Groups}
    (h : fromPattern.Fits groups before piece after groups') : ∃ blanks blanks' c,
      piece = blanks ++ ("from".toList ++ (blanks' ++ [c])) ∧ (∀ d ∈ blanks, isBlank d = true) ∧
        (∀ d ∈ blanks', isBlank d = true) ∧ isQuote c = true := by
  obtain ⟨blanks, _, _, rfl, ⟨rfl, hblanks⟩, h⟩ := h
  obtain ⟨_, _, _, rfl, ⟨rfl, rfl, -⟩, h⟩ := h
  obtain ⟨x, _, _, rfl, hx, h⟩ := h
  obtain ⟨rfl, rfl⟩ := fits_literal.mp hx
  obtain ⟨blanks', _, _, rfl, ⟨rfl, hblanks'⟩, _, ⟨rfl, c, rfl, hc⟩, rfl⟩ := h
  exact ⟨blanks, blanks', c, by simp, hblanks, hblanks', hc⟩

/-- No shorter clause is followed by `from` and a mark: the blanks before `from` begin where the clause
ends. -/
theorem tryAt_fromPattern_eq_none {clause after space : List Char} {c : Char} {front back : List Char}
    (hclause : ∀ d ∈ clause.getLast?, isBlank d = false) (hall : ∀ d ∈ clause, isClauseChar d = true)
    (hafter : ∀ d ∈ after, isBlank d = true) (hspace : ∀ d ∈ space, isBlank d = true) (hc : isQuote c = true)
    (hsplit : clause = front ++ back) (hne : back ≠ []) :
    fromPattern.tryAt groups visit
      (.between before (back ++ (after ++ ("from".toList ++ (space ++ c :: rest))))) = none := by
  refine tryAt_eq_none_iff.mpr fun piece after' groups' he hfits => ?_
  obtain ⟨blanks, blanks', c', rfl, hblanks, hblanks', hc'⟩ := exists_of_fits_fromPattern hfits
  have hclass {d : Char} (hd : isBlank d = true) : isClauseChar d = true := by simp [isClauseChar, hd]
  have hfrom : ∀ d ∈ "from".toList, isClauseChar d = true := by decide
  have hword : (back ++ after) ++ "from".toList ++ space = blanks ++ "from".toList ++ blanks' := by
    have hsame : ((back ++ after) ++ "from".toList ++ space) ++ c :: rest =
        (blanks ++ "from".toList ++ blanks') ++ c' :: after' := by simpa using he
    refine (append_inj_of_stop (p := isClauseChar) ?_ ?_ ?_ ?_ hsame).1
    · simp only [List.forall_mem_append]
      exact ⟨⟨⟨fun d hd => hall d (by simp [hsplit, hd]), fun d hd => hclass (hafter d hd)⟩, hfrom⟩,
        fun d hd => hclass (hspace d hd)⟩
    · simpa using isClauseChar_of_isQuote hc
    · simp only [List.forall_mem_append]
      exact ⟨⟨fun d hd => hclass (hblanks d hd), hfrom⟩, fun d hd => hclass (hblanks' d hd)⟩
    · simpa using isClauseChar_of_isQuote hc'
  have hlast (text : List Char) : ∀ d ∈ (text ++ "from".toList).getLast?, isBlank d = false := by
    rw [List.getLast?_append_of_ne_nil _ (by decide)]
    decide
  have hbefore := (append_inj_of_stop_right hspace (hlast _) hblanks' (hlast _) hword).1
  have hback : ∀ d ∈ back, isBlank d = true := by
    intro d hd
    exact hblanks d (List.append_cancel_right hbefore ▸ List.mem_append_left _ hd)
  have hend := hclause (back.getLast hne) (by simp [hsplit, List.getLast?_append_of_ne_nil _ hne, List.getLast?_eq_some_getLast hne])
  rw [hback _ (List.getLast_mem hne)] at hend
  cases hend

theorem matchAt?_importFrom {gap : Gap} {modifier : Option Gap} {clause : ImportClause} {space : Spacing} {c : Char}
    (hbefore : ∀ c ∈ before.getLast?, isWordChar c = false) (hc : isQuote c = true) :
    staticPattern.matchAt? (.between before ((Form.importFrom gap modifier clause space).chars ++ c :: rest)) =
      some (⟨spanOf before ((Form.importFrom gap modifier clause space).chars ++ [c]),
        (3, spanOf (before ++ (Form.importFrom gap modifier clause space).chars) [c]) ::
          clauseGroups before "import".toList gap modifier clause.core⟩,
        .between (before ++ ((Form.importFrom gap modifier clause space).chars ++ [c])) rest) := by
  have hall : ∀ d ∈ clause.core, isClauseChar d = true := fun d hd =>
    isClauseChar_of_isOf (List.all_eq_true.mp clause.all_isOf d hd)
  simp only [Form.chars_importFrom, List.append_assoc, matchAt?, staticPattern]
  refine tryAt_append (tryAt_append (tryAt_append (tryAt_append (tryAt_append (tryAt_append
    (tryAt_keyword hbefore (by decide) ?_ (fun b tail hb => clause.append_ne_type hb tail)
      (tryAt_group (tryAt_fewest1 clause.core_ne_nil hall (fun front back he _ hne => ?_)
        (tryAt_spacing ?_ (tryAt_wordEdge ?_ (tryAt_literal
          (tryAt_mark hc (isBlank_of_isQuote hc) ?_))))))))))))
  · exact isBlank_head_append clause.core_ne_nil clause.trimmed_core.head
  · exact tryAt_fromPattern_eq_none clause.trimmed_core.last hall (fun _ => clause.after.isBlank)
      (fun _ => space.isBlank) hc he hne
  · exact isBlank_head_append (by decide) (by decide)
  · refine atWordEdge_append ?_ (by decide)
    rw [List.append_assoc, List.getLast?_append_of_ne_nil _ (by simp [clause.core_ne_nil])]
    exact clause.isWordChar_getLast
  · simp [spanOf, clauseGroups]

/-! ## Re-exports -/

theorem ExportClause.head_core (clause : ExportClause) :
    ∀ c ∈ (clause.core ++ rest).head?, c = '*' ∨ c = '\x7b' := by
  cases clause with
  | star after => simp [core]
  | bindings inner => exact inner.head_core

theorem isNameChar_of_mem_plainBlanks {c : Char} (h : c ∈ plainBlanks) : isNameChar c = false := by
  revert c
  decide

theorem Name.isNameChar (name : Name) {c : Char} (h : c ∈ name.chars) : isNameChar c = true := by
  rw [ModuleReference.isNameChar, isWordChar_of_isPlainChar (name.isPlainChar h), Bool.true_or]

/-- A list in braces is taken up to the first brace that closes. -/
theorem tryAt_braced {β : Type} {write : β → List Char} {list : Listing β} (hclose : '\x7d' ∉ list.inner write)
    (h : visit groups (.between (before ++ list.chars write) rest) = some r) :
    braced.tryAt groups visit (.between before (list.chars write ++ rest)) = some r := by
  have hsplit : list.chars write ++ rest = '\x7b' :: (list.inner write ++ '\x7d' :: rest) := by
    simp [Listing.chars]
  have hall : ∀ c ∈ list.inner write, (c != '\x7d') = true := fun c hc =>
    bne_iff_ne.mpr (ne_of_mem_of_not_mem hc hclose)
  rw [hsplit]
  refine tryAt_append (tryAt_append (tryAt_one (by decide) (tryAt_most hall (by simp) (tryAt_one (by decide) ?_))))
  simpa [Listing.chars] using h

/-- Behind a star, `from` is not taken for `as`. -/
theorem tryAt_as_eq_none {after : Spacing} :
    (most1 isBlank ++ literal "as" ++ most1 isBlank ++ most1 isNameChar).tryAt groups visit
      (.between before (after.chars ++ ("from".toList ++ rest))) = none := by
  refine tryAt_eq_none_iff.mpr ?_
  rintro piece tail groups' he ⟨_, _, _, rfl, ⟨_, _, _, rfl, ⟨blanks, word, _, rfl, hx, hword⟩, -⟩, -⟩
  obtain ⟨-, -, hblanks⟩ := fits_most1.mp hx
  obtain ⟨-, rfl⟩ := fits_literal.mp hword
  simp only [List.append_assoc] at he
  have hsame := (append_inj_of_stop (fun _ => after.isBlank) (isBlank_head_append (by decide) (by decide)) hblanks
    (isBlank_head_append (by decide) (by decide)) he).2
  cases hsame

theorem tryAt_exportClause {clause : ExportClause}
    (h : visit groups (.between (before ++ clause.core) (clause.after.chars ++ ("from".toList ++ rest))) =
      some r) :
    (firstOf [char '*' ++ optional (most1 isBlank ++ literal "as" ++ most1 isBlank ++ most1 isNameChar),
        braced]).tryAt groups visit
      (.between before (clause.core ++ (clause.after.chars ++ ("from".toList ++ rest)))) = some r := by
  cases clause with
  | star after =>
      exact tryAt_orElse_left (tryAt_append (tryAt_one (by decide) (tryAt_optional_skip tryAt_as_eq_none h)))
  | bindings inner =>
      cases inner with
      | whole beforeAs afterAs name after =>
          have hsplit : Bindings.core (.whole beforeAs afterAs name after) ++ (after.chars ++ ("from".toList ++ rest)) =
              '*' :: (beforeAs.chars ++ ("as".toList ++ (afterAs.chars ++ (name.chars ++
                (after.chars ++ ("from".toList ++ rest)))))) := by simp [Bindings.core]
          rw [ExportClause.core, ExportClause.after, Bindings.after, hsplit]
          refine tryAt_orElse_left (tryAt_append (tryAt_one (by decide) (tryAt_optional
            (tryAt_append (tryAt_append (tryAt_append (tryAt_gap ?_ (tryAt_literal
              (tryAt_gap ?_ (tryAt_most1 name.ne_nil (fun _ => name.isNameChar) ?_ ?_))))))))))
          · exact isBlank_head_append (by decide) (by decide)
          · exact isBlank_head_append name.ne_nil name.trimmed.head
          · exact fun c hc => isNameChar_of_mem_plainBlanks (after.mem_head hc)
          · simpa [ExportClause.core, ExportClause.after, Bindings.core, Bindings.after] using h
      | names list after =>
          have hclose := (list.not_mem_inner fun entry => all_isOf_mono (by simp) entry.all_isOf).2
          refine tryAt_orElse_right rfl (tryAt_braced hclose h)

theorem matchAt?_exportFrom {gap : Gap} {modifier : Option Gap} {clause : ExportClause} {space : Spacing} {c : Char}
    (hbefore : ∀ c ∈ before.getLast?, isWordChar c = false) (hc : isQuote c = true) :
    reexportPattern.matchAt? (.between before ((Form.exportFrom gap modifier clause space).chars ++ c :: rest)) =
      some (⟨spanOf before ((Form.exportFrom gap modifier clause space).chars ++ [c]),
        (3, spanOf (before ++ (Form.exportFrom gap modifier clause space).chars) [c]) ::
          clauseGroups before "export".toList gap modifier clause.core⟩,
        .between (before ++ ((Form.exportFrom gap modifier clause space).chars ++ [c])) rest) := by
  simp only [Form.chars_exportFrom, List.append_assoc, matchAt?, reexportPattern]
  refine tryAt_append (tryAt_append (tryAt_append (tryAt_append (tryAt_append
    (tryAt_keyword hbefore (by decide) ?_ ?_ (tryAt_group (tryAt_exportClause
      (tryAt_spacing ?_ (tryAt_literal (tryAt_mark hc (isBlank_of_isQuote hc) ?_))))))))))
  · intro d hd
    rcases clause.head_core d hd with rfl | rfl <;> decide
  · intro b tail hb h
    rcases clause.head_core 't' (by rw [h]; rfl) with ht | ht <;> cases ht
  · exact isBlank_head_append (by decide) (by decide)
  · simp [spanOf, clauseGroups]

/-! ## Forms without a clause -/

theorem matchAt?_bareImport {space : Spacing} {c : Char}
    (hbefore : ∀ c ∈ before.getLast?, isWordChar c = false) (hc : isQuote c = true) :
    bareImportPattern.matchAt? (.between before ((Form.bareImport space).chars ++ c :: rest)) =
      some (⟨spanOf before ((Form.bareImport space).chars ++ [c]),
        [(1, spanOf (before ++ (Form.bareImport space).chars) [c])]⟩,
        .between (before ++ ((Form.bareImport space).chars ++ [c])) rest) := by
  simp only [Form.chars_bareImport, List.append_assoc, matchAt?, bareImportPattern]
  refine tryAt_append (tryAt_append (tryAt_append (tryAt_wordEdge (atWordEdge_append hbefore (by decide))
    (tryAt_literal (tryAt_mark hc (isBlank_of_isQuote hc) ?_)))))
  simp [spanOf]

theorem matchAt?_dynamicImport {outer inner : Spacing} {c : Char}
    (hbefore : ∀ c ∈ before.getLast?, isWordChar c = false) (hc : (isQuote c || c == '\x60') = true) :
    dynamicPattern.matchAt? (.between before ((Form.dynamicImport outer inner).chars ++ c :: rest)) =
      some (⟨spanOf before ((Form.dynamicImport outer inner).chars ++ [c]),
        [(1, spanOf (before ++ (Form.dynamicImport outer inner).chars) [c])]⟩,
        .between (before ++ ((Form.dynamicImport outer inner).chars ++ [c])) rest) := by
  have hblank : isBlank c = false := by
    rcases Bool.or_eq_true_iff.mp hc with hquote | hback
    · exact isBlank_of_isQuote hquote
    · rw [beq_iff_eq.mp hback]
      decide
  simp only [Form.chars_dynamicImport, List.append_assoc, List.cons_append, matchAt?, dynamicPattern]
  refine tryAt_append (tryAt_append (tryAt_append (tryAt_append (tryAt_append
    (tryAt_wordEdge (atWordEdge_append hbefore (by decide)) (tryAt_literal (tryAt_spacing
      (isBlank_head_cons (by decide)) (tryAt_one (by decide) (tryAt_mark hc hblank ?_)))))))))
  simp [spanOf]

namespace Target

variable (target : Target)

theorem trimmed : Trimmed target.chars := by
  cases target with
  | whole name => exact name.trimmed
  | properties list => exact list.trimmed _

theorem chars_ne_nil : target.chars ≠ [] := by
  cases target with
  | whole name => exact name.ne_nil
  | properties list => exact List.cons_ne_nil _ _

end Target

theorem tryAt_target {target : Target} (hstop : ∀ c ∈ rest.head?, isNameChar c = false)
    (h : visit groups (.between (before ++ target.chars) rest) = some r) :
    (firstOf [most1 isNameChar, braced]).tryAt groups visit (.between before (target.chars ++ rest)) = some r := by
  cases target with
  | whole name => exact tryAt_orElse_left (tryAt_most1 name.ne_nil (fun _ => name.isNameChar) hstop h)
  | properties list =>
      have hclose := (list.not_mem_inner Property.all_isOf).2
      exact tryAt_orElse_right rfl (tryAt_braced hclose h)

theorem tryAt_declaration {declaration : Declaration} (hbefore : ∀ c ∈ before.getLast?, isWordChar c = false)
    (hstop : ∀ c ∈ rest.head?, isBlank c = false)
    (h : visit ((1, spanOf (before ++ ("const".toList ++ declaration.gap.chars)) declaration.target.chars) ::
      groups) (.between (before ++ declaration.chars) rest) = some r) :
    (wordEdge ++ firstOf [literal "const", literal "let", literal "var", literal "import"] ++ most1 isBlank
        ++ group 1 (firstOf [most1 isNameChar, braced]) ++ most isBlank ++ char '=' ++ most isBlank).tryAt groups
      visit (.between before (declaration.chars ++ rest)) = some r := by
  have hsplit : declaration.chars ++ rest = "const".toList ++ (declaration.gap.chars ++
      (declaration.target.chars ++ (declaration.beforeSign.chars ++ '=' :: (declaration.afterSign.chars ++ rest)))) := by
    simp [Declaration.chars_eq]
  rw [hsplit]
  refine tryAt_append (tryAt_append (tryAt_append (tryAt_append (tryAt_append (tryAt_append
    (tryAt_wordEdge (atWordEdge_append hbefore (by decide)) (tryAt_orElse_left (tryAt_literal (tryAt_gap ?_
      (tryAt_group (tryAt_target ?_ (tryAt_spacing (isBlank_head_cons (by decide))
        (tryAt_one (by decide) (tryAt_spacing hstop ?_))))))))))))))
  · exact isBlank_head_append declaration.target.chars_ne_nil declaration.target.trimmed.head
  · intro c hc
    rcases declaration.beforeSign.mem_head hc with hblank | hsign
    · exact isNameChar_of_mem_plainBlanks hblank
    · obtain rfl : '=' = c := Option.some.inj hsign
      decide
  · simpa [Declaration.chars_eq, spanOf] using h

/-- The word `require` does not begin a declaration. -/
theorem tryAt_declaration_eq_none : (wordEdge ++ firstOf [literal "const", literal "let", literal "var", literal "import"]
    ++ most1 isBlank ++ group 1 (firstOf [most1 isNameChar, braced]) ++ most isBlank ++ char '='
    ++ most isBlank).tryAt groups visit (.between before ("require".toList ++ rest)) = none := by
  change (if atWordEdge (.between before ("require".toList ++ rest)) then _ else none) = none
  split_ifs <;> rfl

theorem matchAt?_requireCall {declaration : Option Declaration} {outer inner : Spacing} {c : Char}
    (hbefore : ∀ c ∈ before.getLast?, isWordChar c = false) (hc : isQuote c = true) :
    requirePattern.matchAt?
        (.between before ((Form.requireCall declaration outer inner).chars ++ c :: rest)) =
      some (⟨spanOf before ((Form.requireCall declaration outer inner).chars ++ [c]),
        (2, spanOf (before ++ (Form.requireCall declaration outer inner).chars) [c]) ::
          (Form.requireCall declaration outer inner).clauseGroups before⟩,
        .between (before ++ ((Form.requireCall declaration outer inner).chars ++ [c])) rest) := by
  simp only [Form.chars_requireCall, List.append_assoc, List.cons_append, matchAt?, requirePattern]
  refine tryAt_append (tryAt_append (tryAt_append (tryAt_append (tryAt_append (tryAt_append ?_)))))
  cases declaration with
  | none =>
      rw [Option.elim_none, List.nil_append]
      refine tryAt_optional_skip tryAt_declaration_eq_none (tryAt_wordEdge (atWordEdge_append hbefore (by decide))
        (tryAt_literal (tryAt_spacing (isBlank_head_cons (by decide)) (tryAt_one (by decide)
          (tryAt_mark hc (isBlank_of_isQuote hc) ?_)))))
      simp [spanOf, Form.clauseGroups]
  | some declaration =>
      refine tryAt_optional (tryAt_declaration hbefore (isBlank_head_append (by decide) (by decide))
        (tryAt_wordEdge (atWordEdge_append ?_ (by decide)) (tryAt_literal (tryAt_spacing (isBlank_head_cons (by decide))
          (tryAt_one (by decide) (tryAt_mark hc (isBlank_of_isQuote hc) ?_))))))
      · have hsplit : before ++ declaration.chars = (before ++ ("const".toList ++ (declaration.gap.chars ++
            (declaration.target.chars ++ declaration.beforeSign.chars))) ++ ['=']) ++
              declaration.afterSign.chars := by simp [Declaration.chars_eq]
        rw [hsplit]
        refine declaration.afterSign.isWordChar_getLast ?_
        rw [List.getLast?_concat]
        simpa using (by decide : isWordChar '=' = false)
      · simp [spanOf, Form.clauseGroups]

/-! ## Statements -/

namespace Statement

variable (s : Statement)

/-- The statement up to the opening mark of its specifier. -/
def opening : List Char := s.form.chars ++ [s.mark.char]

/-- The rest of the statement in the code alone. -/
def remainder : List Char := s.blanked ++ s.mark.char :: s.ending

theorem masked_eq : s.masked = s.opening ++ s.remainder := by
  simp [masked, opening, remainder]

/-- The match that stands for the statement behind `before`. -/
def found (before : List Char) : Match :=
  ⟨spanOf before s.opening,
    (s.form.kind.quote, spanOf (before ++ s.form.chars) [s.mark.char]) :: s.form.clauseGroups before⟩

theorem isQuote_mark (h : ∀ outer inner, s.form ≠ .dynamicImport outer inner) :
    isQuote s.mark.char = true := by
  cases hm : s.mark with
  | apostrophe => rfl
  | quotation => rfl
  | backtick =>
      obtain ⟨outer, inner, hform⟩ := s.template hm
      exact absurd hform (h outer inner)

theorem isQuote_or_mark : (isQuote s.mark.char || s.mark.char == '\x60') = true := by
  cases s.mark <;> rfl

/-- At the beginning of a statement its pattern takes it up to the opening mark. -/
theorem matchAt?_pattern (hbefore : ∀ c ∈ before.getLast?, isWordChar c = false) :
    s.form.kind.pattern.matchAt? (.between before (s.opening ++ rest)) =
      some (s.found before, .between (before ++ s.opening) rest) := by
  rw [found, opening, List.append_assoc]
  cases hform : s.form with
  | importFrom gap modifier clause space => exact matchAt?_importFrom hbefore (s.isQuote_mark (by simp [hform]))
  | bareImport space => exact matchAt?_bareImport hbefore (s.isQuote_mark (by simp [hform]))
  | exportFrom gap modifier clause space => exact matchAt?_exportFrom hbefore (s.isQuote_mark (by simp [hform]))
  | dynamicImport outer inner => exact matchAt?_dynamicImport hbefore s.isQuote_or_mark
  | requireCall declaration outer inner => exact matchAt?_requireCall hbefore (s.isQuote_mark (by simp [hform]))

end Statement

end ApiImpact.ModuleReference

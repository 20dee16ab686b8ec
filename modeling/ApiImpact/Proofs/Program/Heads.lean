import Mathlib.Data.List.Infix
import ApiImpact.Proofs.Program.Defaults
import ApiImpact.Proofs.Script.Declaration

/-!
# The heads of declarations in a program

The pattern for declarations finds a statement that declares something at its first letter, and the words up to the
first name are its match. Whatever else it finds in a statement begins a later line of it.
-/

namespace ApiImpact.Program

open Text Text.Pattern Script

variable {α : Type} {pattern : Pattern} {visit : Groups → Place → Option α} {groups : Groups}
  {before rest more : List Char} {r : α}
  {isDefault isAsync : Bool} {keyword : String}

/-! ## Words one after the other -/

/-- What is recorded at `export` and at `default`. -/
def exportGroups (before : List Char) (isDefault : Bool) : Groups :=
  (1, ⟨byteLength before, byteLength (before ++ exportWords isDefault)⟩) ::
    if isDefault then [(2, ⟨byteLength (before ++ "export ".toList), byteLength (before ++ exportWords isDefault)⟩)] else []

/-- What is recorded at `async`. -/
def asyncGroups (before : List Char) (isAsync : Bool) (groups : Groups) : Groups :=
  if isAsync then (3, ⟨byteLength before, byteLength (before ++ asyncWord isAsync)⟩) :: groups else groups

theorem tryAt_exporting (hrest : ∀ c ∈ rest.head?, isGap c = false ∧ c ≠ 'd')
    (h : visit (exportGroups before isDefault) (.between (before ++ exportWords isDefault) rest) = some r) :
    (optional (group 1 (literal "export" ++ most1 isGap ++ optional (group 2 (literal "default" ++ most1 isGap))))).tryAt [] visit
      (.between before (exportWords isDefault ++ rest)) = some r := by
  have hgap : ∀ c ∈ [' '], isGap c = true := by decide
  have hstop : ∀ c ∈ rest.head?, isGap c = false := fun c hc => (hrest c hc).1
  cases isDefault with
  | true =>
      have hsplit : exportWords true ++ rest = "export".toList ++ ([' '] ++ ("default".toList ++ ([' '] ++ rest))) := rfl
      have hend : before ++ exportWords true = before ++ "export".toList ++ [' '] ++ "default".toList ++ [' '] := by
        simp only [List.append_assoc]
        rfl
      have hmiddle : before ++ "export ".toList = before ++ "export".toList ++ [' '] := by
        simp only [List.append_assoc]
        rfl
      rw [exportGroups, if_pos rfl, hend, hmiddle] at h
      rw [hsplit]
      refine tryAt_optional (tryAt_group (tryAt_append (tryAt_append (tryAt_literal (tryAt_most1 (by decide) hgap ?_ ?_)))))
      · rintro c ⟨⟩
        decide
      · exact tryAt_optional (tryAt_group (tryAt_append (tryAt_literal (tryAt_most1 (by decide) hgap hstop h))))
  | false =>
      have hsplit : exportWords false ++ rest = "export".toList ++ ([' '] ++ rest) := rfl
      have hend : before ++ exportWords false = before ++ "export".toList ++ [' '] := by
        simp only [List.append_assoc]
        rfl
      rw [exportGroups, if_neg Bool.false_ne_true, hend] at h
      rw [hsplit]
      refine tryAt_optional (tryAt_group (tryAt_append (tryAt_append (tryAt_literal (tryAt_most1 (by decide) hgap hstop ?_)))))
      refine tryAt_optional_skip (tryAt_eq_none_iff.mpr ?_) h
      rintro piece after groups' he ⟨recorded, hfits, -⟩
      rw [fits_literal_append] at hfits
      obtain ⟨tail, rfl, -⟩ := hfits
      exact absurd rfl (hrest 'd' (by rw [he]; rfl)).2

theorem tryAt_modifier (hrest : ∀ c ∈ rest.head?, isGap c = false ∧ c ≠ 'a')
    (h : visit (asyncGroups before isAsync groups) (.between (before ++ asyncWord isAsync) rest) = some r) :
    (optional (group 3 (literal "async" ++ most1 isGap))).tryAt groups visit (.between before (asyncWord isAsync ++ rest)) = some r := by
  have hgap : ∀ c ∈ [' '], isGap c = true := by decide
  cases isAsync with
  | true =>
      have hend : before ++ asyncWord true = before ++ "async".toList ++ [' '] := by
        simp only [List.append_assoc]
        rfl
      have hsplit : asyncWord true ++ rest = "async".toList ++ ([' '] ++ rest) := rfl
      rw [asyncGroups, if_pos rfl, hend] at h
      rw [hsplit]
      exact tryAt_optional (tryAt_group (tryAt_append (tryAt_literal (tryAt_most1 (by decide) hgap (fun c hc => (hrest c hc).1) h))))
  | false =>
      have hend : before ++ asyncWord false = before := List.append_nil before
      rw [asyncGroups, if_neg Bool.false_ne_true, hend] at h
      refine tryAt_optional_skip (tryAt_eq_none_iff.mpr ?_) h
      rintro piece after groups' he ⟨recorded, hfits, -⟩
      rw [fits_literal_append] at hfits
      obtain ⟨tail, rfl, -⟩ := hfits
      have hrest' : rest = "async".toList ++ tail ++ after := he
      exact absurd rfl (hrest 'a' (by rw [hrest']; rfl)).2

/-- A word is not found where another one begins. -/
theorem tryAt_literal_eq_none {word : String} {ahead : List Char} (h : ¬ word.toList <+: ahead) :
    (literal word).tryAt groups visit (.between before ahead) = none := by
  refine tryAt_eq_none_iff.mpr fun piece after groups' he hfits => ?_
  obtain ⟨-, rfl⟩ := fits_literal.mp hfits
  exact absurd ⟨after, he.symm⟩ h

theorem tryAt_plainKeyword (hkeyword : keyword ∈ plainKeywords)
    (h : visit groups (.between (before ++ keyword.toList) rest) = some r) :
    (firstOf [literal "class", literal "const", literal "let", literal "var"]).tryAt groups visit
      (.between before (keyword.toList ++ rest)) = some r := by
  have hnone {word : String} (hword : word ∈ plainKeywords) (hne : word ≠ keyword) :
      (literal word).tryAt groups visit (.between before (keyword.toList ++ rest)) = none := by
    have hwords : ∀ word ∈ plainKeywords, ∀ keyword ∈ plainKeywords, word ≠ keyword →
        ¬ word.toList.take 3 <+: keyword.toList.take 3 := by decide
    refine tryAt_literal_eq_none fun hprefix => hwords word hword keyword hkeyword hne ?_
    have hlength : 3 ≤ keyword.toList.length := by
      have hlengths : ∀ keyword ∈ plainKeywords, 3 ≤ keyword.toList.length := by decide
      exact hlengths keyword hkeyword
    have htake := List.IsPrefix.take hprefix 3
    rwa [List.take_append_of_le_length hlength] at htake
  simp only [plainKeywords, List.mem_cons, List.not_mem_nil, or_false] at hkeyword
  rcases hkeyword with rfl | rfl | rfl | rfl
  · exact tryAt_orElse_left (tryAt_literal h)
  · exact tryAt_orElse_right (hnone (by decide) (by decide)) (tryAt_orElse_left (tryAt_literal h))
  · exact tryAt_orElse_right (hnone (by decide) (by decide)) (tryAt_orElse_right (hnone (by decide) (by decide))
      (tryAt_orElse_left (tryAt_literal h)))
  · exact tryAt_orElse_right (hnone (by decide) (by decide)) (tryAt_orElse_right (hnone (by decide) (by decide))
      (tryAt_orElse_right (hnone (by decide) (by decide)) (tryAt_literal h)))

theorem tryAt_keyword (hkeyword : keyword ∈ "function" :: plainKeywords) (hrest : ∀ c ∈ rest.head?, isGap c = false ∧ c ≠ '*')
    (h : visit groups (.between (before ++ keyword.toList ++ [' ']) rest) = some r) : (firstOf [
      literal "function" ++ wordEdge ++ optional (most isGap ++ char '*') ++ most isGap,
      firstOf [literal "class", literal "const", literal "let", literal "var"] ++ most1 isGap]).tryAt groups visit
        (.between before (keyword.toList ++ ([' '] ++ rest))) = some r := by
  have hgap : ∀ c ∈ [' '], isGap c = true := by decide
  have hstop : ∀ c ∈ rest.head?, isGap c = false := fun c hc => (hrest c hc).1
  rcases List.mem_cons.mp hkeyword with rfl | hplain
  · have hedge : atWordEdge (.between (before ++ "function".toList) ([' '] ++ rest)) = true := by
      have hlast : (before ++ "function".toList).getLast? = some 'n' := by
        rw [List.getLast?_append_of_ne_nil _ (by decide)]
        decide
      rw [atWordEdge, Place.between, hlast]
      rfl
    have hstar : (most isGap ++ char '*').tryAt groups (fun groups place => (most isGap).tryAt groups visit place)
        (.between (before ++ "function".toList) ([' '] ++ rest)) = none := by
      refine tryAt_eq_none_iff.mpr fun piece after groups' he hfits => ?_
      rw [fits_most_append] at hfits
      obtain ⟨run, _, rfl, hrun, hfits⟩ := hfits
      obtain ⟨-, rfl⟩ := fits_char.mp hfits
      rw [List.append_assoc] at he
      obtain ⟨-, rfl⟩ := append_inj_of_stop hgap hstop hrun (by rintro c ⟨⟩; decide) he
      exact absurd rfl (hrest '*' rfl).2
    refine tryAt_orElse_left (tryAt_append (tryAt_append (tryAt_append (tryAt_literal (tryAt_wordEdge hedge ?_)))))
    exact tryAt_optional_skip hstar (tryAt_most hgap hstop h)
  · have hnone : ∀ visit : Groups → Place → Option α,
        (literal "function").tryAt groups visit (.between before (keyword.toList ++ ([' '] ++ rest))) = none := by
      intro visit
      have hheads : ∀ keyword ∈ plainKeywords, keyword.toList ≠ [] ∧ ∀ c ∈ keyword.toList.head?, c ≠ 'f' := by decide
      obtain ⟨hne, hhead⟩ := hheads keyword hplain
      obtain ⟨c, tail, hword⟩ := List.exists_cons_of_ne_nil hne
      refine tryAt_literal_eq_none fun hprefix => ?_
      rw [hword] at hprefix hhead
      exact hhead c rfl (List.cons_prefix_cons.mp hprefix).1.symm
    refine tryAt_orElse_right (hnone _) (tryAt_append (tryAt_plainKeyword hplain ?_))
    exact tryAt_most1 (by decide) hgap hstop h

/-! ## The words of a statement -/

/-- The words of a declaration, with one blank behind each. -/
def headWords (isDefault isAsync : Bool) (hkeyword : keyword ∈ "function" :: plainKeywords)
    {name : List Char} (hname : isWritten name = true) : DeclarationWords where
  indent := []
  exporting := "export ".toList
  defaulting := if isDefault then "default ".toList else []
  modifier := asyncWord isAsync
  keyword := keyword
  behind := [' ']
  name := name
  indent_gap := by simp
  exporting_eq := .inr ⟨[' '], rfl, by decide, by decide⟩
  defaulting_eq := by
    cases isDefault with
    | true => exact .inr ⟨by decide, [' '], rfl, by decide, by decide⟩
    | false => exact .inl rfl
  modifier_eq := by
    cases isAsync with
    | true => exact .inr ⟨[' '], rfl, by decide, by decide⟩
    | false => exact .inl rfl
  behind_eq := by
    rcases List.mem_cons.mp hkeyword with rfl | hplain
    · exact .inl ⟨rfl, [' '], [], [], rfl, by decide, .inl rfl, by simp⟩
    · exact .inr ⟨hplain, by decide, by decide⟩
  name_ne := by
    obtain ⟨c, rest, rfl, -⟩ := exists_of_isWritten hname
    exact List.cons_ne_nil c rest
  name_chars := isNameChar_of_isWritten hname

variable {hkeyword : keyword ∈ "function" :: plainKeywords} {name : List Char} {hname : isWritten name = true}

theorem lead_headWords : (headWords isDefault isAsync hkeyword hname).lead = exportWords isDefault ++ asyncWord isAsync :=
  (List.append_assoc "export ".toList (if isDefault then "default ".toList else []) (asyncWord isAsync)).symm

theorem append_lead (before : List Char) :
    before ++ (headWords isDefault isAsync hkeyword hname).lead = before ++ exportWords isDefault ++ asyncWord isAsync := by
  rw [lead_headWords, List.append_assoc]

theorem append_chars (before : List Char) : before ++ (headWords isDefault isAsync hkeyword hname).chars =
    before ++ exportWords isDefault ++ asyncWord isAsync ++ keyword.toList ++ [' '] ++ name := by
  have hchars : (headWords isDefault isAsync hkeyword hname).chars =
      (headWords isDefault isAsync hkeyword hname).lead ++ (keyword.toList ++ ([' '] ++ name)) := rfl
  rw [hchars, ← List.append_assoc, append_lead]
  simp only [List.append_assoc]

theorem chars_headWords : (headWords isDefault isAsync hkeyword hname).chars =
    exportWords isDefault ++ (asyncWord isAsync ++ (keyword.toList ++ ' ' :: name)) := by
  have hchars := @append_chars isDefault isAsync keyword hkeyword name hname []
  rw [List.nil_append, List.nil_append] at hchars
  simp [hchars]

/-- The match of the words of a declaration. -/
def headMatch (before : List Char) (isDefault isAsync : Bool) (hkeyword : keyword ∈ "function" :: plainKeywords)
    {name : List Char} (hname : isWritten name = true) : Match :=
  ⟨⟨byteLength before, byteLength (before ++ (headWords isDefault isAsync hkeyword hname).chars)⟩,
    (5, ⟨byteLength (before ++ exportWords isDefault ++ asyncWord isAsync ++ keyword.toList ++ [' ']),
      byteLength (before ++ (headWords isDefault isAsync hkeyword hname).chars)⟩) ::
    (4, ⟨byteLength (before ++ exportWords isDefault ++ asyncWord isAsync),
      byteLength (before ++ exportWords isDefault ++ asyncWord isAsync ++ keyword.toList ++ [' '])⟩) ::
    asyncGroups (before ++ exportWords isDefault) isAsync (exportGroups before isDefault)⟩

theorem isMarked_headMatch (before : List Char) :
    (headWords isDefault isAsync hkeyword hname).IsMarked before (headMatch before isDefault isAsync hkeyword hname).groups := by
  have hbehind : before ++ (headWords isDefault isAsync hkeyword hname).lead ++ (keyword.toList ++ [' ']) =
      before ++ exportWords isDefault ++ asyncWord isAsync ++ keyword.toList ++ [' '] := by
    rw [append_lead]
    simp only [List.append_assoc]
  refine ⟨?_, ?_, ?_, ?_⟩
  · have hlookup : (headMatch before isDefault isAsync hkeyword hname).groups.lookup 4 =
        some ⟨byteLength (before ++ exportWords isDefault ++ asyncWord isAsync),
          byteLength (before ++ exportWords isDefault ++ asyncWord isAsync ++ keyword.toList ++ [' '])⟩ := rfl
    rw [hlookup, ← hbehind, ← append_lead]
    rfl
  · have hlookup : (headMatch before isDefault isAsync hkeyword hname).groups.lookup 5 =
        some ⟨byteLength (before ++ exportWords isDefault ++ asyncWord isAsync ++ keyword.toList ++ [' ']),
          byteLength (before ++ (headWords isDefault isAsync hkeyword hname).chars)⟩ := rfl
    rw [hlookup, ← hbehind]
    rfl
  · cases isDefault <;> cases isAsync <;> rfl
  · cases isDefault <;> cases isAsync <;> rfl

/-- A statement that declares something is found by its words. -/
theorem matchAt?_head (hbefore : ∀ c ∈ before.getLast?, c = '\n') (hrest : ∀ c ∈ rest.head?, isNameChar c = false) :
    declarationPattern.matchAt? (.between before ((headWords isDefault isAsync hkeyword hname).chars ++ rest)) =
      some (headMatch before isDefault isAsync hkeyword hname,
        .between (before ++ (headWords isDefault isAsync hkeyword hname).chars) rest) := by
  have hsplit : (headWords isDefault isAsync hkeyword hname).chars ++ rest =
      exportWords isDefault ++ (asyncWord isAsync ++ (keyword.toList ++ ([' '] ++ (name ++ rest)))) := by
    rw [chars_headWords]
    simp
  have hexport : ∀ c ∈ (exportWords isDefault ++ (asyncWord isAsync ++ (keyword.toList ++ ([' '] ++ (name ++ rest))))).head?,
      isGap c = false := by
    cases isDefault <;> rintro c ⟨⟩ <;> decide
  have hheads : ∀ keyword ∈ "function" :: plainKeywords, keyword.toList ≠ [] ∧
      ∀ c ∈ keyword.toList.head?, isGap c = false ∧ c ≠ 'd' ∧ c ≠ 'a' := by decide
  obtain ⟨hne, hhead⟩ := hheads keyword hkeyword
  have hword : ∀ c ∈ (keyword.toList ++ ([' '] ++ (name ++ rest))).head?, isGap c = false ∧ c ≠ 'd' ∧ c ≠ 'a' := by
    rwa [List.head?_append_of_ne_nil _ hne]
  have hmodifier : ∀ c ∈ (asyncWord isAsync ++ (keyword.toList ++ ([' '] ++ (name ++ rest)))).head?,
      isGap c = false ∧ c ≠ 'd' := by
    cases isAsync with
    | true =>
        rintro c ⟨⟩
        decide
    | false => exact fun c hc => ⟨(hword c hc).1, (hword c hc).2.1⟩
  have hbehind : ∀ c ∈ (name ++ rest).head?, isGap c = false ∧ c ≠ '*' := by
    obtain ⟨first, tail, rfl, hfirst, -⟩ := exists_of_isWritten hname
    have hchar := isNameChar_of_isAsciiIdentifierStart hfirst
    rintro c ⟨⟩
    refine ⟨?_, isNameChar_ne hchar (by decide)⟩
    by_contra hgap
    exact absurd (isBlank_of_isGap (by simpa using hgap)) (by simp [isBlank_of_isNameChar hchar])
  rw [hsplit, matchAt?, declarationPattern, headMatch, append_chars]
  refine tryAt_append (tryAt_append (tryAt_append (tryAt_append (tryAt_append (tryAt_lineStart hbefore ?_)))))
  refine tryAt_most_skip hexport (tryAt_exporting hmodifier ?_)
  refine tryAt_modifier (fun c hc => ⟨(hword c hc).1, (hword c hc).2.2⟩) ?_
  exact tryAt_group (tryAt_keyword hkeyword hbehind (tryAt_group (tryAt_scriptName hname hrest rfl)))

/-- At the words of a declaration these are found first, then what fits behind them in the same code. -/
theorem exists_findsIn_words (hbefore : ∀ c ∈ before.getLast?, c = '\n') (hlast : ∀ c ∈ more.getLast?, c = '\n')
    (hmore : ∀ c ∈ (more ++ rest).head?, isNameChar c = false) : ∃ found,
      FindsIn declarationPattern before ((headWords isDefault isAsync hkeyword hname).chars ++ more) rest
        (headMatch before isDefault isAsync hkeyword hname :: found) ∧ ∀ m ∈ found, ∃ front piece back, more = front ++ (piece ++ back) ∧
          declarationPattern.Fits [] (before ++ ((headWords isDefault isAsync hkeyword hname).chars ++ front)) piece (back ++ rest) m.groups ∧
            m.span = ⟨byteLength (before ++ ((headWords isDefault isAsync hkeyword hname).chars ++ front)),
              byteLength (before ++ ((headWords isDefault isAsync hkeyword hname).chars ++ front) ++ piece)⟩ := by
  obtain ⟨found, hfound, hall⟩ := exists_findAllFrom_append (fun _ _ _ => not_fits_declaration_nil) newline_notMem_of_fits
    hlast (before ++ (headWords isDefault isAsync hkeyword hname).chars)
  refine ⟨found, ?_, fun m hm => ?_⟩
  · rw [FindsIn, List.append_assoc, findAllFrom_of_some (DeclarationWords.chars_ne_nil _) (matchAt?_head hbefore hmore), hfound, List.append_assoc]
    rfl
  · obtain ⟨front, piece, back, hsplit, hfits, hspan⟩ := hall m hm
    rw [List.append_assoc] at hfits hspan
    exact ⟨front, piece, back, hsplit, hfits, hspan⟩

/-! ## Statements without a head -/

variable {statement : Statement} {s : Source} {front piece back : List Char} {m : Match}

end ApiImpact.Program

import Mathlib.Data.List.Nodup
import ApiImpact.Proofs.ModuleReference.Silent
import ApiImpact.Proofs.Text.Offset

/-!
# Extraction gives back the statements

Each pattern finds the statements of its form, and them alone, and reads from each what it was written from.
Put in order of their offsets, the references of all patterns are those of the statements as they stand.
-/

namespace ApiImpact.ModuleReference

open Text Text.Pattern

variable {before : List Char} {statements : List Statement} {kind : Kind}

/-! ## Matches -/

/-- The matches of a kind in statements behind `before`. -/
def Kind.matches (kind : Kind) : List Char → List Statement → List Match
  | _, [] => []
  | before, s :: statements =>
    (if s.form.kind = kind then [s.found before] else []) ++ kind.matches (before ++ s.masked) statements

theorem Statement.findAllFrom_append {s : Statement} {rest : List Char} (hbefore : ∀ c ∈ before.getLast?, isWordChar c = false) :
    kind.pattern.findAllFrom (.between before (s.masked ++ rest)) =
      (if s.form.kind = kind then [s.found before] else []) ++
        kind.pattern.findAllFrom (.between (before ++ s.masked) rest) := by
  split_ifs with hkind
  · subst hkind
    have hopening : s.opening ≠ [] := by simp [opening]
    rw [masked_eq, List.append_assoc, findAllFrom_of_some hopening (s.matchAt?_pattern hbefore),
      findAllFrom_skip fun front back hsplit hne => s.matchAt?_remainder _ hsplit hne, List.append_assoc]
    rfl
  · refine findAllFrom_skip fun front back hsplit hne => ?_
    cases hword : kind.keyword? with
    | some word => exact s.matchAt?_eq_none hword hkind hsplit hne
    | none =>
        cases kind with
        | requireCall => exact (s.settled hkind).matchAt?_eq_none hsplit hne
        | _ => cases hword

theorem Kind.findAllFrom_nil (kind : Kind) (before : List Char) : kind.pattern.findAllFrom (.between before []) = [] := by
  refine findAllFrom_of_none_nil (matchAt?_eq_none_iff.mpr fun piece after groups' he hfits => ?_)
  obtain ⟨c, rest, rfl, -⟩ := kind.exists_letter_of_fits hfits
  cases he

/-- Each pattern finds the statements of its form. -/
theorem Kind.findAllFrom_statements (hbefore : ∀ c ∈ before.getLast?, isWordChar c = false) :
    kind.pattern.findAllFrom (.between before (statements.flatMap Statement.masked)) =
      kind.matches before statements := by
  induction statements generalizing before with
  | nil => exact kind.findAllFrom_nil before
  | cons s statements ih =>
      have hend : ∀ c ∈ (before ++ s.masked).getLast?, isWordChar c = false := by
        obtain ⟨body, hbody⟩ := s.exists_body
        rw [hbody, ← List.append_assoc, List.getLast?_append_of_ne_nil _ (by simp)]
        simpa using (by decide : isWordChar '\n' = false)
      rw [List.flatMap_cons, s.findAllFrom_append hbefore, ih hend, Kind.matches]

/-! ## References -/

namespace Statement

variable {s : Statement} {masks : Masks} {after text after' : List Char}

/-- The specifier is read from the text at the offsets that the code gives. -/
theorem quoted?_found (hcode : masks.code = before ++ (s.masked ++ after))
    (htext : masks.text = text ++ (s.chars ++ after')) (hlength : byteLength text = byteLength before) :
    masks.quoted? (s.found before) s.form.kind.quote = some (.ofList s.specifier.chars) := by
  have hgroup : (s.found before).group? s.form.kind.quote =
      some (spanOf (before ++ s.form.chars) [s.mark.char]) := by
    simp [found, Match.group?]
  have hcode' : masks.code = (before ++ s.form.chars) ++ ([s.mark.char] ++
      (s.blanked ++ s.mark.char :: (s.ending ++ after))) := by
    simp [hcode, masked]
  have hmark (mark : Mark) : mark.char ≠ '\n' ∧ mark.char ≠ ' ' := by cases mark <;> decide
  have hblanked : s.mark.char ∉ s.blanked := by
    intro hmem
    obtain ⟨d, -, hd⟩ := List.mem_flatMap.mp hmem
    rcases mem_blankOut hd with hbreak | hspace
    · exact (hmark s.mark).1 hbreak
    · exact (hmark s.mark).2 hspace
  have hcontents : slice? masks.text (byteLength (before ++ s.form.chars ++ [s.mark.char]))
      (byteLength (before ++ s.form.chars ++ [s.mark.char] ++ s.blanked)) = some s.specifier.chars := by
    have htext' : masks.text = (text ++ s.form.chars ++ [s.mark.char]) ++ (s.specifier.chars ++
        s.mark.char :: (s.ending ++ after')) := by
      simp [htext, chars]
    have hstart : byteLength (before ++ s.form.chars ++ [s.mark.char]) =
        byteLength (text ++ s.form.chars ++ [s.mark.char]) := by simp [hlength]
    rw [htext', byteLength_append _ s.blanked, hstart, s.byteLength_blanked, ← byteLength_append, slice?_append]
  exact Masks.quoted?_eq hgroup hcode' hblanked hcontents s.specifier.ne_nil

theorem groupText_eq {m : Match} {index : Nat} {front piece rest : List Char}
    (hgroup : m.group? index = some (spanOf front piece)) (hcode : masks.code = front ++ (piece ++ rest)) :
    masks.groupText m index = piece := by
  simp only [Masks.groupText, hgroup, spanOf, hcode, slice?_append, Option.getD_some]

theorem isSome_lookup_modifierGroups (front : List Char) (modifier : Option Gap) :
    ((modifierGroups front modifier).lookup 1).isSome = modifier.isSome := by
  cases modifier <;> rfl

/-- The clause of an import or re-export and its modifier, as they are recorded. -/
theorem clauseGroups_read {m : Match} {quote : Span} {word : List Char} {gap : Gap} {modifier : Option Gap}
    {clause rest : List Char} (hgroups : m.groups = (3, quote) :: clauseGroups before word gap modifier clause)
    (hcode : masks.code = before ++ (word ++ (gap.chars ++ (modifierChars modifier ++ (clause ++ rest))))) :
    masks.groupText m 2 = clause ∧ (m.group? 1).isSome = modifier.isSome := by
  constructor
  · have hgroup : m.group? 2 =
        some (spanOf (before ++ (word ++ (gap.chars ++ modifierChars modifier))) clause) := by
      rw [Match.group?, hgroups]
      rfl
    exact groupText_eq hgroup (by simpa using hcode)
  · rw [Match.group?, hgroups]
    exact isSome_lookup_modifierGroups _ modifier

/-- What a pattern reads from its statement. -/
theorem read_found (hcode : masks.code = before ++ (s.masked ++ after)) :
    s.form.kind.read masks (s.found before) (.ofList s.specifier.chars) =
      some (s.reference (masks.position (byteLength before)).line) := by
  have hcode' : masks.code = before ++ (s.form.chars ++ (s.mark.char :: (s.remainder ++ after))) := by
    simp [hcode, masked_eq, opening]
  rw [reference]
  cases hform : s.form with
  | importFrom gap modifier clause space =>
      have hgroups : (s.found before).groups = (3, spanOf (before ++ s.form.chars) [s.mark.char]) ::
          clauseGroups before "import".toList gap modifier clause.core := by
        rw [found, hform]
        rfl
      simp only [hform, Form.chars_importFrom, List.append_assoc] at hcode'
      obtain ⟨hclause, hmodifier⟩ := clauseGroups_read hgroups hcode'
      simp only [Form.kind, Kind.read, hclause, hmodifier, importClause_core]
      rfl
  | bareImport space => rfl
  | exportFrom gap modifier clause space =>
      have hgroups : (s.found before).groups = (3, spanOf (before ++ s.form.chars) [s.mark.char]) ::
          clauseGroups before "export".toList gap modifier clause.core := by
        rw [found, hform]
        rfl
      simp only [hform, Form.chars_exportFrom, List.append_assoc] at hcode'
      obtain ⟨hclause, hmodifier⟩ := clauseGroups_read hgroups hcode'
      simp only [Form.kind, Kind.read, hclause, hmodifier, reexportClause_core]
      rfl
  | dynamicImport outer inner =>
      simp only [Form.kind, Kind.read, String.toList_ofList]
      rw [s.specifier.whole, if_neg Bool.false_ne_true]
      rfl
  | requireCall declaration outer inner =>
      cases declaration with
      | none =>
          have hgroup : (s.found before).group? 1 = none := by
            rw [found, hform]
            rfl
          simp only [Form.kind, Kind.read, hgroup]
          rfl
      | some declaration =>
          have hgroup : (s.found before).group? 1 =
              some (spanOf (before ++ ("const".toList ++ declaration.gap.chars)) declaration.target.chars) := by
            rw [found, hform]
            rfl
          simp only [hform, Form.chars_requireCall, Option.elim_some, Declaration.chars_eq] at hcode'
          have htarget : masks.groupText (s.found before) 1 = declaration.target.chars :=
            groupText_eq hgroup (hcode'.trans (by simp; rfl))
          simp only [Form.kind, Kind.read, hgroup, htarget, requireBinding_chars]
          rfl

end Statement

/-! ## In order -/

/-- Statements with the offsets at which they begin, from `offset` on. -/
def placed : Nat → List Statement → List (Nat × Statement)
  | _, [] => []
  | offset, s :: statements => (offset, s) :: placed (offset + byteLength s.chars) statements

/-- The reference of a statement that begins at an offset. -/
def referenceAt (position : Nat → Position) (entry : Nat × Statement) : Nat × ModuleReference :=
  (entry.1, entry.2.reference (position entry.1).line)

/-- The reference of a match, with the offset at which it begins. -/
def Kind.readMatch (kind : Kind) (masks : Masks) (m : Match) : Option (Nat × ModuleReference) := do
  let reference ← kind.read masks m (← masks.quoted? m kind.quote)
  some (m.span.start, reference)

theorem Statement.readMatch_found {s : Statement} {masks : Masks} {after text after' : List Char}
    (hcode : masks.code = before ++ (s.masked ++ after)) (htext : masks.text = text ++ (s.chars ++ after'))
    (hlength : byteLength text = byteLength before) :
    s.form.kind.readMatch masks (s.found before) = some (referenceAt masks.position (byteLength before, s)) := by
  simp only [Kind.readMatch, quoted?_found hcode htext hlength, read_found hcode, Option.bind_eq_bind, Option.bind_some]
  rfl

/-- The references of a kind are those of the statements of that form. -/
theorem Kind.filterMap_matches {masks : Masks} {text : List Char}
    (hcode : masks.code = before ++ statements.flatMap Statement.masked)
    (htext : masks.text = text ++ statements.flatMap Statement.chars) (hlength : byteLength text = byteLength before) :
    (kind.matches before statements).filterMap (kind.readMatch masks) =
      ((placed (byteLength before) statements).filter (·.2.form.kind = kind)).map (referenceAt masks.position) := by
  induction statements generalizing before text with
  | nil => rfl
  | cons s statements ih =>
      have hrest := @ih (before ++ s.masked) (text ++ s.chars) (by simp [hcode]) (by simp [htext])
        (by simp [hlength, s.byteLength_masked])
      rw [byteLength_append, s.byteLength_masked] at hrest
      rw [Kind.matches, List.filterMap_append, hrest, placed]
      split_ifs with hkind
      · subst hkind
        rw [List.filterMap_cons_some (s.readMatch_found hcode htext hlength), List.filter_cons_of_pos (by simp)]
        rfl
      · rw [List.filter_cons_of_neg (by simpa using hkind)]
        rfl

theorem Kind.found_statements (kind : Kind) (statements : List Statement) :
    kind.found (.of (statements.flatMap Statement.chars)) =
      ((placed 0 statements).filter (·.2.form.kind = kind)).map
        (referenceAt (positionOf (statements.flatMap Statement.chars))) := by
  have hbefore : ∀ c ∈ ([] : List Char).getLast?, isWordChar c = false := by simp
  have hmatches : kind.pattern.findAll (codeOnly (statements.flatMap Statement.chars)) = kind.matches [] statements := by
    rw [codeOnly_statements]
    exact Kind.findAllFrom_statements hbefore
  have hfound : kind.found (.of (statements.flatMap Statement.chars)) =
      (kind.pattern.findAll (codeOnly (statements.flatMap Statement.chars))).filterMap
        (kind.readMatch (.of (statements.flatMap Statement.chars))) := rfl
  have hcode : (Masks.of (statements.flatMap Statement.chars)).code = [] ++ statements.flatMap Statement.masked :=
    codeOnly_statements statements
  have htext : (Masks.of (statements.flatMap Statement.chars)).text = [] ++ statements.flatMap Statement.chars :=
    withoutComments_statements statements
  rw [hfound, hmatches]
  exact Kind.filterMap_matches hcode htext rfl

/-- Taking a list apart by kinds changes its order alone. -/
theorem flatMap_filter_perm {α : Type} (key : α → Kind) (entries : List α) :
    (Kind.all.flatMap fun kind => entries.filter (key · = kind)).Perm entries := by
  classical
  refine List.perm_iff_count.mpr fun entry => ?_
  have hcount (kind : Kind) : (entries.filter (key · = kind)).count entry =
      if key entry = kind then entries.count entry else 0 := by
    split_ifs with hkind
    · exact List.count_filter (by simpa using hkind)
    · exact List.count_eq_zero.mpr fun hm => hkind (by simpa using (List.mem_filter.mp hm).2)
  simp only [Kind.all, List.flatMap_cons, List.flatMap_nil, List.append_nil, List.count_append, hcount]
  cases key entry <;> simp

theorem le_of_mem_placed {offset : Nat} {entry : Nat × Statement} (h : entry ∈ placed offset statements) :
    offset ≤ entry.1 := by
  induction statements generalizing offset with
  | nil => cases h
  | cons s statements ih =>
      rcases List.mem_cons.mp h with rfl | h
      · exact Nat.le_refl _
      · exact Nat.le_of_add_right_le (ih h)

theorem placed_pairwise (offset : Nat) (statements : List Statement) :
    (placed offset statements).Pairwise fun a b => a.1 < b.1 := by
  induction statements generalizing offset with
  | nil => exact List.Pairwise.nil
  | cons s statements ih =>
      refine List.pairwise_cons.mpr ⟨fun entry h => ?_, ih _⟩
      have hpos : 0 < byteLength s.chars := by
        have hmark := s.mark.char.utf8Size_pos
        simp only [Statement.chars, byteLength_append, byteLength_cons]
        omega
      have hle := le_of_mem_placed h
      omega

theorem map_referenceAt (front : List Char) (statements : List Statement) :
    ((placed (byteLength front) statements).map
      (referenceAt (positionOf (front ++ statements.flatMap Statement.chars)))).map Prod.snd =
      Statement.references (1 + front.count '\n') statements := by
  induction statements generalizing front with
  | nil => rfl
  | cons s statements ih =>
      have hrest := ih (front ++ s.chars)
      rw [byteLength_append, List.count_append, ← Nat.add_assoc, List.append_assoc] at hrest
      rw [placed, List.map_cons, List.map_cons, List.flatMap_cons, hrest, Statement.references]
      rw [referenceAt, line_positionOf]

/-- Sorting by offsets restores the order of entries whose offsets increase. -/
theorem mergeSort_eq_of_perm {found entries : List (Nat × ModuleReference)} (h : found.Perm entries)
    (hentries : entries.Pairwise fun a b => a.1 < b.1) : found.mergeSort (fun a b => a.1 ≤ b.1) = entries := by
  have hperm := (List.mergeSort_perm found fun a b => decide (a.1 ≤ b.1)).trans h
  have hsorted : (found.mergeSort fun a b => a.1 ≤ b.1).Pairwise fun a b => a.1 ≤ b.1 := by
    have hdecide : (found.mergeSort fun a b => a.1 ≤ b.1).Pairwise fun a b => decide (a.1 ≤ b.1) = true :=
      List.pairwise_mergeSort (fun a b c => by simpa using Nat.le_trans)
        (fun a b => by simpa using Nat.le_total a.1 b.1) found
    simpa using hdecide
  have hnodup : (entries.map Prod.fst).Nodup := List.pairwise_map.mpr (hentries.imp Nat.ne_of_lt)
  refine hperm.eq_of_pairwise (fun a b ha hb hab hba => ?_) hsorted (hentries.imp Nat.le_of_lt)
  exact List.inj_on_of_nodup_map hnodup (hperm.mem_iff.mp ha) hb (Nat.le_antisymm hab hba)

/-- The references of all statements, sorted by their offsets, stand in the order of the statements. -/
theorem mergeSort_found {found : List (Nat × ModuleReference)} {position : Nat → Position} {offset : Nat}
    (h : found.Perm ((placed offset statements).map (referenceAt position))) :
    found.mergeSort (fun a b => a.1 ≤ b.1) = (placed offset statements).map (referenceAt position) :=
  mergeSort_eq_of_perm h (List.pairwise_map.mpr (placed_pairwise offset statements))

/-- Extraction gives back the statements that were written, in order. -/
theorem extract_statements (statements : List Statement) :
    extract (.ofList (statements.flatMap Statement.chars)) = Statement.references 1 statements := by
  have hfound : (found (.of (statements.flatMap Statement.chars))).Perm
      ((placed 0 statements).map (referenceAt (positionOf (statements.flatMap Statement.chars)))) := by
    rw [found_eq_flatMap, List.flatMap_congr fun kind _ => kind.found_statements statements, ← List.map_flatMap]
    exact (flatMap_filter_perm (·.2.form.kind) (placed 0 statements)).map _
  rw [extract, String.toList_ofList, mergeSort_found hfound]
  exact map_referenceAt [] statements

end ApiImpact.ModuleReference

import ApiImpact.Change.Declaration
import ApiImpact.Proofs.Change.Spacing
import ApiImpact.Proofs.Text.Pieces

/-!
# Types that include one another

One type includes another if it takes every value or has all members of the other. This is a preorder, and it sees the members
alone: a union is read as the set of its parts, in whatever order, however often and with whatever blanks they are written.
-/

namespace ApiImpact.Text

variable {separator previous previous' : Char} {depth : Int} {text : List Char}

/-! ## Parts between separators -/

theorem depthStep_of_ne (h : previous ≠ '=') (h' : previous' ≠ '=') (c : Char) : depthStep previous c = depthStep previous' c := by
  simp [depthStep, h, h']

/-- Only an equals sign before a text makes a difference for its depth. -/
theorem depthBehind_of_ne (h : previous ≠ '=') (h' : previous' ≠ '=') : depthBehind previous text = depthBehind previous' text := by
  cases text with
  | nil => rfl
  | cons c text => rw [depthBehind_cons, depthBehind_cons, depthStep_of_ne h h']

theorem isUncut_of_ne (h : previous ≠ '=') (h' : previous' ≠ '=') :
    IsUncut separator depth previous text ↔ IsUncut separator depth previous' text := by
  cases text with
  | nil => exact iff_of_true isUncut_nil isUncut_nil
  | cons c text => rw [isUncut_cons, isUncut_cons, depthStep_of_ne h h']

end ApiImpact.Text

namespace ApiImpact.TypeText

open Text

/-! ## Unions as they are written -/

/-- By the count of the splitter the brackets are closed, and no bar stands outside of them. -/
structure IsWhole (text : List Char) : Prop where
  closed : depthBehind ' ' text = 0
  uncut : IsUncut '|' 0 ' ' text

instance (text : List Char) : Decidable (IsWhole text) :=
  decidable_of_iff (depthBehind ' ' text = 0 ∧ IsUncut '|' 0 ' ' text) ⟨fun h => ⟨h.1, h.2⟩, fun h => ⟨h.1, h.2⟩⟩

/-- A part of a union with the blanks around it. -/
structure Part where
  before : Gap
  text : List Char
  after : Gap
  isWhole : IsWhole text

def Part.chars (part : Part) : List Char := part.before.chars ++ (part.text ++ part.after.chars)

/-- Parts with bars between them. There may be a bar in front of the first one, and blanks before it. -/
structure WrittenUnion where
  lead : Option Gap
  parts : List Part

namespace WrittenUnion

def pieces (union : WrittenUnion) : List (List Char) := union.lead.toList.map Gap.chars ++ union.parts.map Part.chars

def text (union : WrittenUnion) : String := .ofList (['|'].intercalate union.pieces)

end WrittenUnion

/-! ## The members of a union -/

variable {a a' b b' c : String} {previous : Char} {piece text : List Char}

/-- Whatever but an equals sign stands before it, the splitter takes the text for one part. -/
def IsPiece (text : List Char) : Prop :=
  ∀ previous, previous ≠ '=' → depthBehind previous text = 0 ∧ IsUncut '|' 0 previous text

theorem IsWhole.isPiece (h : IsWhole text) : IsPiece text := fun previous hprevious => by
  rw [depthBehind_of_ne hprevious (by decide : ' ' ≠ '='), isUncut_of_ne hprevious (by decide : ' ' ≠ '=')]
  exact ⟨h.closed, h.uncut⟩

theorem IsPiece.append_of_blank {front : List Char} (hfront : ∀ c ∈ front, isBlank c = true) (h : IsPiece text) : IsPiece (front ++ text) := by
  induction front with
  | nil => exact h
  | cons c front ih =>
      obtain ⟨hc, hfront⟩ := List.forall_mem_cons.mp hfront
      have hne : ∀ sign ∈ ['(', '\x7b', '[', '<', ')', '\x7d', ']', '>', '=', '|'], c ≠ sign := by
        have hsigns : ∀ sign ∈ ['(', '\x7b', '[', '<', ')', '\x7d', ']', '>', '=', '|'], isBlank sign = false := by decide
        rintro sign hsign rfl
        exact absurd hc (by simp [hsigns c hsign])
      intro previous hprevious
      have hstep : depthStep previous c = 0 := by
        simp only [List.forall_mem_cons] at hne
        simp [depthStep, hne]
      obtain ⟨hdepth, huncut⟩ := ih hfront c (hne '=' (by decide))
      rw [List.cons_append, depthBehind_cons, isUncut_cons, hstep, Int.zero_add, Int.zero_add]
      exact ⟨hdepth, fun hbar => hne '|' (by decide) hbar.1, huncut⟩

theorem isPiece_of_blank (h : ∀ c ∈ text, isBlank c = true) : IsPiece text := by
  have hnil : IsPiece [] := fun previous _ => ⟨rfl, isUncut_nil⟩
  simpa using hnil.append_of_blank h

theorem IsPiece.append_blank {back : List Char} (h : IsPiece text) (hback : ∀ c ∈ back, isBlank c = true) : IsPiece (text ++ back) := by
  intro previous hprevious
  obtain ⟨hdepth, huncut⟩ := h previous hprevious
  -- blanks are no brackets, not even behind an equals sign
  have hflat (previous : Char) : depthBehind previous back = 0 ∧ IsUncut '|' 0 previous back := by
    cases back with
    | nil => exact ⟨rfl, isUncut_nil⟩
    | cons c back =>
        have hsigns : ∀ sign ∈ ['>', '='], isBlank sign = false := by decide
        have hne : ∀ sign ∈ ['>', '='], c ≠ sign := by
          rintro sign hsign rfl
          exact absurd (hback c List.mem_cons_self) (by simp [hsigns c hsign])
        have hstep : depthStep previous c = depthStep ' ' c := by simp [depthStep, hne '>' (by decide)]
        have hspace := isPiece_of_blank hback ' ' (by decide)
        rwa [depthBehind_cons, isUncut_cons, hstep, ← depthBehind_cons, ← isUncut_cons]
  rw [depthBehind_append, isUncut_append, hdepth, (hflat _).1]
  exact ⟨rfl, huncut, (hflat _).2⟩

theorem Part.isPiece (part : Part) : IsPiece part.chars :=
  (part.isWhole.isPiece.append_blank part.after.isBlank).append_of_blank part.before.isBlank

theorem WrittenUnion.isPiece_of_mem (union : WrittenUnion) (h : piece ∈ union.pieces) : IsPiece piece := by
  rcases List.mem_append.mp h with h | h
  · obtain ⟨gap, -, rfl⟩ := List.mem_map.mp h
    exact isPiece_of_blank gap.isBlank
  · obtain ⟨part, -, rfl⟩ := List.mem_map.mp h
    exact part.isPiece

/-- Splitting undoes joining with bars. -/
theorem map_snd_piecesFrom_bar {pieces : List (List Char)} (h : ∀ piece ∈ pieces, IsPiece piece) (hne : pieces ≠ [])
    (hprevious : previous ≠ '=') (start : Nat) :
    (piecesFrom '|' 0 previous start [] start (['|'].intercalate pieces)).map Prod.snd = pieces := by
  induction pieces generalizing previous start with
  | nil => exact absurd rfl hne
  | cons piece pieces ih =>
      obtain ⟨hpiece, hpieces⟩ := List.forall_mem_cons.mp h
      obtain ⟨hdepth, huncut⟩ := hpiece previous hprevious
      cases pieces with
      | nil => rw [List.intercalate_singleton, piecesFrom_last huncut]; rfl
      | cons next pieces =>
          rw [List.intercalate_cons_cons, List.append_assoc, List.singleton_append, piecesFrom_piece huncut hdepth, List.map_cons,
            ih hpieces (List.cons_ne_nil _ _) (by decide)]
          rfl

theorem Part.normalize_chars (part : Part) : normalize part.chars = normalize part.text := by
  rw [normalize, normalize, chars, collapse_blanks_append part.before.isBlank, collapse_append_blanks part.after.isBlank]

/-- The members of a union are its parts, without regard to their blanks; parts that are empty are none. -/
theorem WrittenUnion.mem_members_iff (union : WrittenUnion) :
    piece ∈ members union.text ↔ piece ≠ [] ∧ ∃ text ∈ union.parts.map Part.text, normalize text = piece := by
  have hpieces : piece ∈ members union.text ↔ piece ≠ [] ∧ ∃ text ∈ union.pieces, normalize text = piece := by
    have hmap : members union.text = (((piecesOf '|' (['|'].intercalate union.pieces)).map Prod.snd).map normalize).filter
        (!·.isEmpty) := by
      rw [List.map_map, members, text, String.toList_ofList]
      rfl
    rw [hmap]
    by_cases hne : union.pieces = []
    · rw [hne]
      simp [piecesOf, piecesFrom, normalize, dropEndWhile]
    · rw [piecesOf, map_snd_piecesFrom_bar (fun _ => union.isPiece_of_mem) hne (by decide)]
      simp [and_comm]
  have hlead (gap : Gap) : normalize gap.chars = [] := by
    rw [normalize, collapse_eq_nil.mpr gap.isBlank]
    rfl
  rw [hpieces]
  refine and_congr_right fun hne => ⟨?_, ?_⟩
  · rintro ⟨text, htext, rfl⟩
    rcases List.mem_append.mp htext with htext | htext
    · obtain ⟨gap, -, rfl⟩ := List.mem_map.mp htext
      exact absurd (hlead gap) hne
    · obtain ⟨part, hpart, rfl⟩ := List.mem_map.mp htext
      exact ⟨part.text, List.mem_map_of_mem hpart, part.normalize_chars.symm⟩
  · rintro ⟨text, htext, rfl⟩
    obtain ⟨part, hpart, rfl⟩ := List.mem_map.mp htext
    exact ⟨part.chars, List.mem_append_right _ (List.mem_map_of_mem hpart), part.normalize_chars⟩

/-! ## Inclusion by members -/

theorem isAny_iff : isAny a = true ↔ "any".toList ∈ members a ∨ "unknown".toList ∈ members a := by
  rw [isAny, Bool.or_eq_true, List.contains_iff_mem, List.contains_iff_mem]

theorem isIncluded_iff_members : isIncluded a b = true ↔ isAny b = true ∨ members a ⊆ members b := by
  rw [isIncluded, Bool.or_eq_true, List.all_eq_true]
  exact or_congr_right (forall₂_congr fun _ _ => List.contains_iff_mem)

theorem isAny_of_subset (h : members a ⊆ members b) (hany : isAny a = true) : isAny b = true :=
  isAny_iff.mpr ((isAny_iff.mp hany).imp (h ·) (h ·))

theorem isIncluded_refl (a : String) : isIncluded a a = true := isIncluded_iff_members.mpr (.inr (List.Subset.refl _))

/-- A type that includes one that takes every value takes every value. -/
theorem isIncluded_trans (hab : isIncluded a b = true) (hbc : isIncluded b c = true) : isIncluded a c = true := by
  rw [isIncluded_iff_members] at hab hbc ⊢
  rcases hbc with hc | hbc
  · exact .inl hc
  · exact hab.imp (isAny_of_subset hbc) fun hab => List.Subset.trans hab hbc

/-- Inclusion sees the members alone. -/
theorem isIncluded_congr (ha : ∀ piece, piece ∈ members a ↔ piece ∈ members a') (hb : ∀ piece, piece ∈ members b ↔ piece ∈ members b') :
    isIncluded a b = isIncluded a' b' := by
  have hany : isAny b = true ↔ isAny b' = true := by rw [isAny_iff, isAny_iff, hb, hb]
  have hsubset : members a ⊆ members b ↔ members a' ⊆ members b' :=
    forall_congr' fun piece => imp_congr (ha piece) (hb piece)
  rw [Bool.eq_iff_iff, isIncluded_iff_members, isIncluded_iff_members, hany, hsubset]

/-! ## Changes that are composed -/

theorem typeChanged_mem_iff {name : String} {widening : Bool} :
    ParameterChange.typeChanged name a b widening ∈ ParameterChange.ofTypes name (some a) (some b) ↔
      differ a b = true ∧ isIncluded a b = widening := by
  rw [ParameterChange.ofTypes]
  split_ifs with h
  · simp [h, eq_comm]
  · simp [h]

theorem returnTypeChanged_mem_iff {narrowing : Bool} :
    DeclarationChange.returnTypeChanged a b narrowing ∈ DeclarationChange.ofReturnTypes (some a) (some b) ↔
      differ a b = true ∧ isIncluded b a = narrowing := by
  rw [DeclarationChange.ofReturnTypes]
  split_ifs with h
  · simp [h, eq_comm]
  · simp [h]

/-- Inclusion is a preorder, and it is the same for unions that have the same parts, in whatever order, however often, with whatever
blanks around them and with or without a bar in front of them. So two changes of a parameter to a wider type make a change to a wider
one, if any, and two changes of a result to a narrower type make a change to a narrower one. -/
theorem isIncluded_preorder :
    (∀ a, isIncluded a a = true) ∧
    (∀ a b c, isIncluded a b = true → isIncluded b c = true → isIncluded a c = true) ∧
    (∀ u v : WrittenUnion, (∀ text, text ∈ u.parts.map Part.text ↔ text ∈ v.parts.map Part.text) →
      ∀ other, isIncluded u.text other = isIncluded v.text other ∧ isIncluded other u.text = isIncluded other v.text) ∧
    (∀ name a b c, .typeChanged name a b true ∈ ParameterChange.ofTypes name (some a) (some b) →
      .typeChanged name b c true ∈ ParameterChange.ofTypes name (some b) (some c) →
        .typeChanged name a c false ∉ ParameterChange.ofTypes name (some a) (some c)) ∧
    (∀ a b c, .returnTypeChanged a b true ∈ DeclarationChange.ofReturnTypes (some a) (some b) →
      .returnTypeChanged b c true ∈ DeclarationChange.ofReturnTypes (some b) (some c) →
        .returnTypeChanged a c false ∉ DeclarationChange.ofReturnTypes (some a) (some c)) := by
  refine ⟨isIncluded_refl, fun a b c => isIncluded_trans, fun u v h other => ?_, fun name a b c hab hbc hac => ?_,
    fun a b c hab hbc hac => ?_⟩
  · have hmembers (piece : List Char) : piece ∈ members u.text ↔ piece ∈ members v.text := by
      simp only [WrittenUnion.mem_members_iff, h]
    exact ⟨isIncluded_congr hmembers fun _ => .rfl, isIncluded_congr (fun _ => .rfl) hmembers⟩
  · rw [typeChanged_mem_iff] at hab hbc hac
    exact absurd (isIncluded_trans hab.2 hbc.2) (by simp [hac.2])
  · rw [returnTypeChanged_mem_iff] at hab hbc hac
    exact absurd (isIncluded_trans hbc.2 hab.2) (by simp [hac.2])

/-- A union of two parts, once with a bar in front, a part twice and blanks around the parts. A text goes to it, and then to a type
that takes every value. -/
theorem isIncluded_preorder_of_repeated : ∃ u v : WrittenUnion, u.text = " | B | A<C | D>|\tB" ∧ v.text = "A<C | D>|B" ∧
    (∀ text, text ∈ u.parts.map Part.text ↔ text ∈ v.parts.map Part.text) ∧
    (isIncluded u.text "B" = isIncluded v.text "B" ∧ isIncluded "B" u.text = isIncluded "B" v.text) ∧
    isIncluded "B" v.text = true ∧ isIncluded v.text "E | any" = true ∧ isIncluded "B" "E | any" = true ∧
    .typeChanged "p" "B" "E | any" false ∉ ParameterChange.ofTypes "p" (some "B") (some "E | any") ∧
    .returnTypeChanged "E | any" "B" false ∉ DeclarationChange.ofReturnTypes (some "E | any") (some "B") := by
  let none : Gap := ⟨[], by decide⟩
  let space : Gap := ⟨[' '], by decide⟩
  let b : List Char := "B".toList
  let applied : List Char := "A<C | D>".toList
  let u : WrittenUnion := ⟨some space, [⟨space, b, space, by decide⟩, ⟨space, applied, none, by decide⟩,
    ⟨⟨['\t'], by decide⟩, b, none, by decide⟩]⟩
  let v : WrittenUnion := ⟨.none, [⟨none, applied, none, by decide⟩, ⟨none, b, none, by decide⟩]⟩
  obtain ⟨-, htrans, hparts, hparameters, hresults⟩ := isIncluded_preorder
  have hsame (text : List Char) : text ∈ u.parts.map Part.text ↔ text ∈ v.parts.map Part.text := by
    change text ∈ [b, applied, b] ↔ text ∈ [applied, b]
    simp only [List.mem_cons, List.not_mem_nil, or_false]
    tauto
  have hwide : isIncluded "B" v.text = true := by decide
  have hany : isIncluded v.text "E | any" = true := by decide
  exact ⟨u, v, by decide, by decide, hsame, hparts u v hsame "B", hwide, hany, htrans "B" v.text "E | any" hwide hany,
    hparameters "p" "B" v.text "E | any" (by decide) (by decide), hresults "E | any" v.text "B" (by decide) (by decide)⟩

end ApiImpact.TypeText

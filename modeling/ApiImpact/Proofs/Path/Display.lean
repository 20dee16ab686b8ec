import ApiImpact.Proofs.Path.Steps

/-!
# How paths are shown

A path that comes from text without backslashes is read back from the text that shows it. So two paths below a
root are shown alike only if they are the same.
-/

namespace ApiImpact

/-- The segment is one that text between slashes stands for, and its text has no backslash. -/
def Segment.IsPlain (segment : Segment) : Prop :=
  segment.IsWritten ∧ '\\' ∉ segment.text.toList

/-- Pieces between separators hold nothing but what the text holds. -/
theorem Text.mem_of_mem_splitAtChars {p : Char → Bool} {text piece : List Char} {c : Char}
    (hp : piece ∈ splitAtChars p text) (hc : c ∈ piece) : c ∈ text := by
  induction text generalizing piece with
  | nil => simp_all [splitAtChars]
  | cons d rest ih =>
      rw [splitAtChars] at hp
      split at hp
      · rcases List.mem_cons.mp hp with rfl | hp
        · cases hc
        · exact List.mem_cons_of_mem _ (ih hp hc)
      · generalize he : splitAtChars p rest = pieces at hp ih
        cases pieces with
        | nil => exact absurd he (splitAtChars_ne_nil p rest)
        | cons word words =>
            rcases List.mem_cons.mp hp with rfl | hp
            · rcases List.mem_cons.mp hc with rfl | hc
              · exact List.mem_cons_self
              · exact List.mem_cons_of_mem _ (ih List.mem_cons_self hc)
            · exact List.mem_cons_of_mem _ (ih (List.mem_cons_of_mem _ hp) hc)

theorem Segment.isPlain_ofPiece {piece : List Char} (hne : piece ≠ []) (hs : '/' ∉ piece) (hb : '\\' ∉ piece) :
    (ofPiece piece).IsPlain := by
  refine ⟨isWritten_ofPiece hne hs, ?_⟩
  unfold ofPiece
  split_ifs
  · decide
  · decide
  · simpa [text] using hb

namespace Path

variable {path other root inner : Path} {text : String}

/-- The segments of the path come from text without backslashes. -/
def IsPlain (path : Path) : Prop := ∀ segment ∈ path.segments, segment.IsPlain

theorem isPlain_ofString (h : '\\' ∉ text.toList) : (ofString text).IsPlain := by
  have hpieces : ∀ piece ∈ Text.splitAtChars (· == '/') text.toList, '/' ∉ piece ∧ '\\' ∉ piece := by
    refine fun piece hp => ⟨fun hs => ?_, fun hb => h (Text.mem_of_mem_splitAtChars hp hb)⟩
    simpa using Text.eq_false_of_mem_splitAtChars hp '/' hs
  have hnamed (pieces : List (List Char)) (hp : ∀ piece ∈ pieces, '/' ∉ piece ∧ '\\' ∉ piece) :
      ∀ segment ∈ (pieces.filter fun piece => !piece.isEmpty && piece != ['.']).map Segment.ofPiece,
        segment.IsPlain := by
    intro segment hsegment
    obtain ⟨piece, hfiltered, rfl⟩ := List.mem_map.mp hsegment
    obtain ⟨hm, hkept⟩ := List.mem_filter.mp hfiltered
    have hne : piece ≠ [] := by
      rintro rfl
      simp at hkept
    exact Segment.isPlain_ofPiece hne (hp piece hm).1 (hp piece hm).2
  intro segment hsegment
  simp only [ofString] at hsegment
  split at hsegment
  · rename_i rest heq
    rcases List.mem_cons.mp hsegment with rfl | hm
    · exact ⟨trivial, by decide⟩
    · exact hnamed rest (fun piece hp => hpieces piece (by simp [heq, hp])) segment hm
  · rename_i rest heq
    exact hnamed rest (fun piece hp => hpieces piece (by simp [heq, hp])) segment hsegment
  · exact hnamed _ hpieces segment hsegment

theorem IsPlain.normalize (h : path.IsPlain) : path.normalize.IsPlain := by
  intro segment hsegment
  rcases mem_of_mem_normalize hsegment with hm | rfl
  · exact h segment hm
  · exact ⟨trivial, by decide⟩

theorem IsNormal.here_notMem (h : path.IsNormal) : Segment.here ∉ path.segments := by
  obtain ⟨hfirst, hrest⟩ := isNormal_iff.mp h
  intro hm
  cases hsegments : path.segments with
  | nil => simp [hsegments] at hm
  | cons first rest =>
      rw [hsegments] at hm hfirst hrest
      rcases List.mem_cons.mp hm with rfl | hm
      · exact hfirst rfl
      · simpa [Segment.isName] using hrest .here hm

/-! ## Text of paths -/

theorem toList_toString (path : Path) : path.toString.toList =
    (if path.absolute then ['/'] else []) ++ ['/'].intercalate (path.segments.map (·.text.toList)) := by
  have hslash : "/".toList = ['/'] := rfl
  rw [toString, String.toList_append, String.toList_intercalate, List.map_map, hslash]
  cases path.absolute <;> rfl

/-- The piece of text that a segment is written as. -/
theorem Segment.IsPlain.piece {segment : Segment} (h : segment.IsPlain) (hhere : segment ≠ .here) :
    segment.text.toList ≠ [] ∧ segment.text.toList ≠ ['.'] ∧ '/' ∉ segment.text.toList ∧
      Segment.ofPiece segment.text.toList = segment := by
  cases segment with
  | here => exact absurd rfl hhere
  | parent => decide
  | name text =>
      obtain ⟨⟨hne, hdot, hdots, hs⟩, -⟩ := h
      exact ⟨hne, hdot, hs, by simp [Segment.ofPiece, Segment.text, hdot, hdots]⟩

/-- A path without dots is read back from its text. -/
theorem ofString_toString (h : path.IsPlain) (hhere : Segment.here ∉ path.segments) : ofString path.toString = path := by
  have hpiece : ∀ segment ∈ path.segments, segment.text.toList ≠ [] ∧ segment.text.toList ≠ ['.'] ∧
      '/' ∉ segment.text.toList ∧ Segment.ofPiece segment.text.toList = segment := fun segment hm =>
    Segment.IsPlain.piece (h segment hm) (ne_of_mem_of_not_mem hm hhere)
  obtain ⟨absolute, segments⟩ := path
  dsimp only at hpiece
  have hnamed : ((segments.map (·.text.toList)).filter fun piece => !piece.isEmpty && piece != ['.']).map Segment.ofPiece =
      segments := by
    have hkept : ∀ piece ∈ segments.map (·.text.toList), (!piece.isEmpty && piece != ['.']) = true := by
      intro piece hmapped
      obtain ⟨segment, hm, rfl⟩ := List.mem_map.mp hmapped
      have hsegment := hpiece segment hm
      simp [List.isEmpty_eq_false_iff.mpr hsegment.1, hsegment.2.1]
    rw [List.filter_eq_self.mpr hkept, List.map_map]
    exact (List.map_congr_left fun segment hm => (hpiece segment hm).2.2.2).trans (List.map_id _)
  have hsplit (hne : segments ≠ []) : Text.splitAtChars (· == '/') (['/'].intercalate (segments.map (·.text.toList))) =
      segments.map (·.text.toList) := by
    refine Text.splitAtChars_intercalate (by simpa using hne) rfl fun piece hmapped d hd => ?_
    obtain ⟨segment, hm, rfl⟩ := List.mem_map.mp hmapped
    rw [beq_eq_false_iff_ne]
    exact ne_of_mem_of_not_mem hd (hpiece segment hm).2.2.1
  rw [ofString, toList_toString]
  cases segments with
  | nil => cases absolute <;> rfl
  | cons first rest =>
      have hsplit := hsplit (List.cons_ne_nil _ _)
      have hfirst := hpiece first List.mem_cons_self
      cases absolute with
      | true =>
          have hslash : Text.splitAtChars (· == '/') (['/'] ++ ['/'].intercalate ((first :: rest).map (·.text.toList))) =
              [] :: (first :: rest).map (·.text.toList) := by
            rw [List.singleton_append, Text.splitAtChars, if_pos (beq_self_eq_true '/'), hsplit]
          simp only [if_true, hslash]
          exact congrArg (Path.mk true) hnamed
      | false =>
          simp only [Bool.false_eq_true, if_false, List.nil_append]
          rw [hsplit, List.map_cons]
          split
          · rename_i heq
            exact absurd (List.cons.inj heq).1 hfirst.2.1
          · rename_i heq
            exact absurd (List.cons.inj heq).1 hfirst.1
          · exact congrArg (Path.mk false) hnamed

/-! ## Paths relative to a root -/

/-- What is shown of a path: its part below the root, or all of it. -/
def shown (root path : Path) : Path := (relativeTo? root path).getD path

theorem mem_of_mem_shown {segment : Segment} (h : segment ∈ (shown root path).segments) : segment ∈ path.segments := by
  cases hinner : relativeTo? root path with
  | none => rwa [shown, hinner] at h
  | some inner =>
      rw [shown, hinner, Option.getD_some, ← filterMap_steps] at h
      rw [← filterMap_steps, relativeTo?_eq_some_iff.mp hinner, List.filterMap_append]
      exact List.mem_append_right _ h

theorem display_eq_toString (h : path.IsPlain) : display root path = (shown root path).toString := by
  have hbackslash : '\\' ∉ (shown root path).toString.toList := by
    rw [toList_toString]
    intro hm
    rcases List.mem_append.mp hm with hm | hm
    · cases hroot : (shown root path).absolute <;> simp [hroot] at hm
    · obtain hslash | ⟨piece, hpiece, hm⟩ := Text.mem_intercalate hm
      · simp at hslash
      · obtain ⟨segment, hsegment, rfl⟩ := List.mem_map.mp hpiece
        exact (h segment (mem_of_mem_shown hsegment)).2 hm
  have hsame : (shown root path).toString.toList.map (fun c => if c = '\\' then '/' else c) =
      (shown root path).toString.toList := by
    refine (List.map_congr_left fun c hc => ?_).trans (List.map_id _)
    exact if_neg (ne_of_mem_of_not_mem hc hbackslash)
  rw [display, slashed, ← shown, hsame, String.ofList_toList]

theorem ofString_display (h : path.IsPlain) (hn : path.IsNormal) : ofString (display root path) = shown root path := by
  rw [display_eq_toString h]
  exact ofString_toString (fun segment hm => h segment (mem_of_mem_shown hm)) fun hm => hn.here_notMem (mem_of_mem_shown hm)

/-- Paths that are shown alike are the same if both lie below the root, or all three are absolute. -/
theorem display_inj (h : path.IsPlain) (hn : path.IsNormal) (h' : other.IsPlain) (hn' : other.IsNormal)
    (hunder : root.isUnder path) (hother : root.isUnder other ∨ root.absolute = true ∧ other.absolute = true)
    (heq : display root path = display root other) : path = other := by
  have hshown : shown root path = shown root other := by rw [← ofString_display h hn, heq, ofString_display h' hn']
  obtain ⟨inner, hinner⟩ := Option.isSome_iff_exists.mp hunder
  have hsteps := relativeTo?_eq_some_iff.mp hinner
  cases hrelative : relativeTo? root other with
  | some inner' =>
      rw [shown, shown, hinner, hrelative] at hshown
      obtain rfl : inner = inner' := hshown
      exact steps_injective (hsteps.trans (relativeTo?_eq_some_iff.mp hrelative).symm)
  | none =>
      obtain ⟨hroot, habsolute⟩ : root.absolute = true ∧ other.absolute = true := by
        refine hother.resolve_left ?_
        rw [isUnder, hrelative]
        exact Bool.false_ne_true
      -- What is shown of the path is relative, and all of the other one is absolute.
      rw [shown, shown, hinner, hrelative] at hshown
      obtain rfl : inner = other := hshown
      have htail := path.none_notMem_tail_steps
      rw [hsteps, steps, steps, hroot, habsolute] at htail
      simp at htail

end Path

end ApiImpact

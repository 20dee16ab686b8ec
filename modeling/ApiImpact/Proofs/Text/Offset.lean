import Mathlib.Order.Bounds.Basic
import ApiImpact.Proofs.Text.Mask

/-!
# Cuts and lines

What stands at an offset of a text that is put together from pieces, when the offset is the length of the
first of them; and the line and the column of any offset, by the line breaks in front of it and by a table of
the places at which lines begin.
-/

namespace ApiImpact.Text

variable {p : Char → Bool} {front piece rest : List Char} {c : Char}

theorem takeBytes?_byteLength (front rest : List Char) : takeBytes? (front ++ rest) (byteLength front) = some front := by
  induction front with
  | nil => simp [takeBytes?]
  | cons c front ih =>
      have hc := c.utf8Size_pos
      obtain ⟨n, hn⟩ : ∃ n, byteLength (c :: front) = n + 1 := ⟨byteLength (c :: front) - 1, by simp; omega⟩
      rw [hn, List.cons_append, takeBytes?, ← hn, if_pos (by simp), byteLength_cons, Nat.add_sub_cancel_left, ih]
      rfl

/-- The offsets at the ends of a piece cut it out. -/
theorem slice?_append (front piece rest : List Char) :
    slice? (front ++ (piece ++ rest)) (byteLength front) (byteLength (front ++ piece)) = some piece := by
  rw [slice?, if_pos (by simp), dropBytes?_byteLength, byteLength_append, Nat.add_sub_cancel_left]
  exact takeBytes?_byteLength piece rest

/-- An offset cuts a text in one way. -/
theorem append_inj_of_byteLength {front' rest' : List Char} (h : front ++ rest = front' ++ rest')
    (hlength : byteLength front = byteLength front') : front = front' ∧ rest = rest' := by
  have hfront := takeBytes?_byteLength front rest
  rw [h, hlength, takeBytes?_byteLength] at hfront
  obtain rfl := Option.some.inj hfront
  exact ⟨rfl, List.append_cancel_left h⟩

/-- Two cuts of a text, one not behind the other, have a piece of it between them. -/
theorem exists_slice? {text front' rest' : List Char} (h : text = front ++ rest) (h' : text = front' ++ rest')
    (hle : byteLength front ≤ byteLength front') : ∃ piece, front' = front ++ piece ∧ rest = piece ++ rest' ∧
      slice? text (byteLength front) (byteLength front') = some piece := by
  obtain ⟨piece, rfl, rfl⟩ : ∃ piece, front' = front ++ piece ∧ rest = piece ++ rest' := by
    rcases List.append_eq_append_iff.mp (h.symm.trans h') with hsplit | ⟨more, rfl, rfl⟩
    · exact hsplit
    · cases more with
      | nil => exact ⟨[], by simp, rfl⟩
      | cons c more =>
          have hc := c.utf8Size_pos
          simp only [byteLength_append, byteLength_cons] at hle
          omega
  exact ⟨piece, rfl, rfl, h ▸ slice?_append front piece rest'⟩

theorem exists_of_takeBytes? {text : List Char} {count : Nat} (h : takeBytes? text count = some piece) :
    ∃ rest, text = piece ++ rest ∧ byteLength piece = count := by
  fun_induction takeBytes? text count generalizing piece with
  | case1 text =>
      cases h
      exact ⟨text, rfl, rfl⟩
  | case2 => cases h
  | case3 c text count hc ih =>
      obtain ⟨piece, hpiece, rfl⟩ := Option.map_eq_some_iff.mp h
      obtain ⟨rest, rfl, hlength⟩ := ih hpiece
      exact ⟨rest, rfl, by rw [byteLength_cons, hlength]; omega⟩
  | case4 => cases h

/-- What is cut out of a text stands in it between the two offsets. -/
theorem exists_of_slice? {text : List Char} {start stop : Nat} (h : slice? text start stop = some piece) :
    ∃ front rest, text = front ++ (piece ++ rest) ∧ start = byteLength front ∧ stop = byteLength (front ++ piece) := by
  rw [slice?] at h
  split_ifs at h with hle
  obtain ⟨text', hdrop, htake⟩ := Option.bind_eq_some_iff.mp h
  obtain ⟨front, rfl, hfront⟩ := exists_of_dropBytes? hdrop
  obtain ⟨rest, rfl, hpiece⟩ := exists_of_takeBytes? htake
  exact ⟨front, rest, rfl, hfront.symm, by rw [byteLength_append]; omega⟩

theorem findOffset?_append (h : ∀ d ∈ front, p d = false) (hc : p c = true) :
    findOffset? p (front ++ c :: rest) = some (byteLength front) := by
  induction front with
  | nil => rw [List.nil_append, findOffset?, if_pos hc]; rfl
  | cons d front ih =>
      rw [List.cons_append, findOffset?, if_neg (by simp [h d List.mem_cons_self]),
        ih fun e he => h e (List.mem_cons_of_mem _ he)]
      rfl

theorem exists_of_findOffset? {text : List Char} {offset : Nat} (h : findOffset? p text = some offset) :
    ∃ front c rest, text = front ++ c :: rest ∧ byteLength front = offset ∧ p c = true ∧
      ∀ d ∈ front, p d = false := by
  induction text generalizing offset with
  | nil => cases h
  | cons c text ih =>
      rw [findOffset?] at h
      split_ifs at h with hc
      · cases h
        exact ⟨[], c, text, rfl, rfl, hc, by simp⟩
      · obtain ⟨offset, hoffset, rfl⟩ := Option.map_eq_some_iff.mp h
        obtain ⟨front, d, rest, rfl, rfl, hd, hfront⟩ := ih hoffset
        exact ⟨c :: front, d, rest, rfl, rfl, hd, by simpa [hc] using hfront⟩

theorem le_line_advance (position : Position) (text : List Char) (offset : Nat) :
    position.line ≤ (position.advance text offset).line := by
  induction text generalizing position offset with
  | nil => exact Nat.le_refl _
  | cons c text ih =>
      rw [Position.advance]
      split_ifs
      · exact Nat.le_refl _
      · exact Nat.le_trans (Nat.le_succ _) (ih ⟨position.line + 1, 0⟩ (offset - c.utf8Size))
      · exact ih ⟨position.line, position.column + c.utf8Size⟩ (offset - c.utf8Size)

theorem line_advance (position : Position) (front rest : List Char) :
    (position.advance (front ++ rest) (byteLength front)).line = position.line + front.count '\n' := by
  induction front generalizing position with
  | nil =>
      cases rest with
      | nil => rfl
      | cons c rest =>
          rw [List.nil_append, byteLength_nil, Position.advance, if_pos c.utf8Size_pos]
          rfl
  | cons c front ih =>
      rw [List.cons_append, Position.advance, if_neg (by simp), byteLength_cons, Nat.add_sub_cancel_left, ih,
        List.count_cons]
      split_ifs <;> simp_all
      omega

/-- The line at the end of a piece is counted by its line breaks. -/
theorem line_positionOf (front rest : List Char) :
    (positionOf (front ++ rest) (byteLength front)).line = 1 + front.count '\n' :=
  line_advance ⟨1, 0⟩ front rest

theorem column_advance (position : Position) (front rest : List Char) :
    (position.advance (front ++ '\n' :: rest) (byteLength (front ++ ['\n']))).column = 0 := by
  induction front generalizing position with
  | nil =>
      have hbreak : byteLength ([] ++ ['\n']) - '\n'.utf8Size = 0 := rfl
      rw [List.nil_append, Position.advance, if_neg (by decide), if_pos rfl, hbreak]
      cases rest with
      | nil => rfl
      | cons c rest =>
          rw [Position.advance, if_pos c.utf8Size_pos]
  | cons c front ih =>
      rw [List.cons_append, List.cons_append, Position.advance, if_neg (by simp), byteLength_cons, Nat.add_sub_cancel_left]
      exact ih _

/-- Where a line begins the column is zero. -/
theorem column_positionOf (h : ∀ c ∈ front.getLast?, c = '\n') (rest : List Char) :
    (positionOf (front ++ rest) (byteLength front)).column = 0 := by
  rcases List.eq_nil_or_concat front with rfl | ⟨front, c, rfl⟩
  · cases rest with
    | nil => rfl
    | cons c rest =>
        rw [positionOf, List.nil_append, byteLength_nil, Position.advance, if_pos c.utf8Size_pos]
  · obtain rfl : c = '\n' := h c (by simp)
    rw [List.concat_eq_append, List.append_assoc]
    exact column_advance ⟨1, 0⟩ front rest

/-! ## Depth of lines -/

theorem length_depthsAfterBreaks (depth : Int) (text : List Char) : (depthsAfterBreaks depth text).length = text.count '\n' := by
  induction text generalizing depth with
  | nil => rfl
  | cons c text ih =>
      rw [depthsAfterBreaks, List.count_cons]
      split_ifs with hc hbreak hbreak
      · rw [List.length_cons, ih]
      · simp [hc] at hbreak
      · exact absurd (by simpa using hbreak) hc
      · exact ih _

/-- How far the braces of `text` leave the depth from where it began. -/
def braceDepth : List Char → Int
  | [] => 0
  | c :: text => braceStep c + braceDepth text

theorem braceDepth_cons (c : Char) (text : List Char) : braceDepth (c :: text) = braceStep c + braceDepth text := rfl

theorem braceDepth_append (front back : List Char) : braceDepth (front ++ back) = braceDepth front + braceDepth back := by
  induction front with
  | nil => exact (Int.zero_add _).symm
  | cons c front ih => rw [List.cons_append, braceDepth_cons, braceDepth_cons, ih, Int.add_assoc]

theorem braceDepth_eq_zero {text : List Char} (h : ∀ c ∈ text, c ≠ '\x7b' ∧ c ≠ '\x7d') : braceDepth text = 0 := by
  induction text with
  | nil => rfl
  | cons c text ih =>
      obtain ⟨hopening, hclosing⟩ := h c List.mem_cons_self
      have hstep : braceStep c = 0 := by rw [braceStep, if_neg hopening, if_neg hclosing]
      have hrest := ih fun d hd => h d (List.mem_cons_of_mem _ hd)
      rw [braceDepth_cons, hstep, hrest]
      rfl

/-- A character is as deep as the braces in front of it leave it. -/
theorem depthAt?_byteLength (depth : Int) (front : List Char) (c : Char) (rest : List Char) :
    depthAt? depth (front ++ c :: rest) (byteLength front) = some (depth + braceDepth front) := by
  induction front generalizing depth with
  | nil =>
      rw [List.nil_append, byteLength_nil, depthAt?, if_pos c.utf8Size_pos, braceDepth, Int.add_zero]
  | cons d front ih =>
      rw [List.cons_append, byteLength_cons, depthAt?, if_neg (by omega), Nat.add_sub_cancel_left, ih, braceDepth_cons, Int.add_assoc]

theorem depthsAfterBreaks_append (depth : Int) (front rest : List Char) : depthsAfterBreaks depth (front ++ rest) =
    depthsAfterBreaks depth front ++ depthsAfterBreaks (depth + braceDepth front) rest := by
  induction front generalizing depth with
  | nil => rw [braceDepth, Int.add_zero]; rfl
  | cons c front ih =>
      rw [List.cons_append, depthsAfterBreaks, depthsAfterBreaks, braceDepth_cons, ← Int.add_assoc]
      split_ifs with hc
      · have hbreak : braceStep c = 0 := by rw [hc]; rfl
        rw [ih, hbreak, Int.add_zero, List.cons_append]
      · exact ih _

/-- The line that begins behind `front` is as deep as the braces of `front` leave it. -/
theorem getElem?_lineDepths (h : ∀ c ∈ front.getLast?, c = '\n') (rest : List Char) :
    (lineDepths (front ++ rest))[front.count '\n']? = some (braceDepth front) := by
  rcases List.eq_nil_or_concat front with rfl | ⟨front, c, rfl⟩
  · rfl
  · obtain rfl : c = '\n' := h c (by simp)
    have hcount : (front ++ ['\n']).count '\n' = (depthsAfterBreaks 0 front).length + 1 := by
      rw [List.count_append, length_depthsAfterBreaks]
      rfl
    have hdepth : braceDepth (front ++ ['\n']) = braceDepth front := by
      rw [braceDepth_append]
      exact Int.add_zero _
    rw [List.concat_eq_append, lineDepths, List.append_assoc, List.singleton_append, depthsAfterBreaks_append, hcount, hdepth,
      List.getElem?_cons_succ, List.getElem?_append_right (Nat.le_refl _), Nat.sub_self, depthsAfterBreaks, if_pos rfl]
    simp

/-! ## Lines by their line breaks -/

variable {text : List Char} {position : Position} {start here offset low high k : Nat} {starts : List Nat}

theorem breakByte_notMem (h : c ≠ '\n') : breakByte ∉ String.utf8EncodeChar c := fun hmem => h (eq_newline_of_mem hmem)

theorem take_bytes_cons (hsize : c.utf8Size ≤ offset) :
    (bytes (c :: text)).take offset = String.utf8EncodeChar c ++ (bytes text).take (offset - c.utf8Size) := by
  rw [bytes_cons, List.take_append, String.length_utf8EncodeChar,
    List.take_of_length_le (by rwa [String.length_utf8EncodeChar])]

/-- The line of an offset is counted by the line breaks among the bytes before it. -/
theorem line_advance_bytes (position : Position) (text : List Char) (offset : Nat) :
    (position.advance text offset).line = position.line + ((bytes text).take offset).count breakByte := by
  induction text generalizing position offset with
  | nil => simp [Position.advance, bytes]
  | cons c text ih =>
      rw [Position.advance]
      split_ifs with hlt hbreak
      · have hinside : breakByte ∉ (bytes (c :: text)).take offset := by
          rw [bytes_cons, List.take_append_of_le_length (by rw [String.length_utf8EncodeChar]; exact Nat.le_of_lt hlt)]
          intro hmem
          obtain rfl := eq_newline_of_mem (List.mem_of_mem_take hmem)
          obtain rfl : offset = 0 := Nat.lt_one_iff.mp hlt
          simp at hmem
        rw [List.count_eq_zero.mpr hinside, Nat.add_zero]
      · have hone : (String.utf8EncodeChar c).count breakByte = 1 := by
          rw [hbreak]
          rfl
        rw [take_bytes_cons (Nat.le_of_not_lt hlt), List.count_append, hone, ih, Nat.add_assoc]
      · rw [take_bytes_cons (Nat.le_of_not_lt hlt), List.count_append, List.count_eq_zero.mpr (breakByte_notMem hbreak),
          Nat.zero_add, ih]

/-! ## Lines by their beginnings -/

/-- The offsets behind the line breaks of a text that begins at `here`. -/
def startsFrom (here : Nat) : List Char → List Nat
  | [] => []
  | c :: text => if c = '\n' then (here + 1) :: startsFrom (here + 1) text else startsFrom (here + c.utf8Size) text

/-- The offsets at which the lines of a text begin. -/
def lineStarts (text : List Char) : List Nat := 0 :: startsFrom 0 text

/-- A line begins behind every byte that is a line break. -/
theorem mem_startsFrom_iff : start ∈ startsFrom here text ↔ ∃ i, (bytes text)[i]? = some breakByte ∧ start = here + i + 1 := by
  induction text generalizing here with
  | nil => simp [startsFrom, bytes]
  | cons c text ih =>
      rw [startsFrom, bytes_cons]
      split_ifs with hbreak
      · rw [hbreak, List.mem_cons, ih]
        constructor
        · rintro (rfl | ⟨i, hi, rfl⟩)
          · exact ⟨0, rfl, rfl⟩
          · exact ⟨i + 1, hi, by omega⟩
        · rintro ⟨_ | i, hi, rfl⟩
          · exact .inl rfl
          · exact .inr ⟨i, hi, by omega⟩
      · rw [ih]
        constructor
        · rintro ⟨i, hi, rfl⟩
          refine ⟨c.utf8Size + i, ?_, by omega⟩
          rw [List.getElem?_append_right (by rw [String.length_utf8EncodeChar]; omega), String.length_utf8EncodeChar,
            Nat.add_sub_cancel_left, hi]
        · rintro ⟨i, hi, rfl⟩
          by_cases hlt : i < c.utf8Size
          · rw [List.getElem?_append_left (by rwa [String.length_utf8EncodeChar])] at hi
            exact absurd (List.mem_of_getElem? hi) (breakByte_notMem hbreak)
          · rw [List.getElem?_append_right (by rw [String.length_utf8EncodeChar]; omega), String.length_utf8EncodeChar] at hi
            exact ⟨i - c.utf8Size, hi, by omega⟩

theorem lt_of_mem_startsFrom (h : start ∈ startsFrom here text) : here < start := by
  obtain ⟨i, -, rfl⟩ := mem_startsFrom_iff.mp h
  omega

theorem pairwise_startsFrom (here : Nat) (text : List Char) : (startsFrom here text).Pairwise (· < ·) := by
  induction text generalizing here with
  | nil => exact .nil
  | cons c text ih =>
      rw [startsFrom]
      split_ifs
      · exact List.pairwise_cons.mpr ⟨fun start hstart => lt_of_mem_startsFrom hstart, ih _⟩
      · exact ih _

theorem pairwise_lineStarts (text : List Char) : (lineStarts text).Pairwise (· < ·) :=
  List.pairwise_cons.mpr ⟨fun _ hstart => lt_of_mem_startsFrom hstart, pairwise_startsFrom 0 text⟩

/-- The line with the number `k`, counted from 0, is the one in which `offset` lies: it begins at or before the offset, and
the next one behind it. -/
structure IsLineOf (starts : List Nat) (offset k start : Nat) : Prop where
  begins : starts[k]? = some start
  le : start ≤ offset
  lt : ∀ next ∈ starts[k + 1]?, offset < next

/-- The position of an offset tells the line in which it lies, and how far behind the beginning of the line. -/
theorem exists_isLineOf_advance (hcolumn : start + position.column = here) (offset : Nat) : ∃ k begin,
    (position.advance text offset).line = position.line + k ∧ begin + (position.advance text offset).column = here + offset ∧
      IsLineOf (start :: startsFrom here text) (here + offset) k begin := by
  induction text generalizing position start here offset with
  | nil => exact ⟨0, start, rfl, by rw [← hcolumn, Nat.add_assoc]; rfl, rfl, by omega, by simp [startsFrom]⟩
  | cons c text ih =>
      rw [Position.advance, startsFrom]
      split_ifs with hlt hbreak hbreak
      · obtain rfl : offset = 0 := by rw [hbreak] at hlt; exact Nat.lt_one_iff.mp hlt
        refine ⟨0, start, rfl, hcolumn, rfl, by omega, ?_⟩
        rintro _ ⟨⟩
        exact Nat.lt_succ_self here
      · refine ⟨0, start, rfl, by rw [← hcolumn, Nat.add_assoc], rfl, by omega, fun next hnext => ?_⟩
        have hle := lt_of_mem_startsFrom (List.mem_of_getElem? hnext)
        omega
      · obtain ⟨k, begin, hline, hoffset, hbegins, hle, hnext⟩ :=
          @ih ⟨position.line + 1, 0⟩ (here + 1) (here + 1) rfl (offset - c.utf8Size)
        have hsize : here + 1 + (offset - c.utf8Size) = here + offset := by
          rw [hbreak] at hlt ⊢
          have hone : '\n'.utf8Size = 1 := rfl
          omega
        rw [hsize] at hoffset hle hnext
        exact ⟨k + 1, begin, by rw [hline]; dsimp only; omega, hoffset, hbegins, hle, hnext⟩
      · obtain ⟨k, begin, hline, hoffset, hlineOf⟩ :=
          @ih ⟨position.line, position.column + c.utf8Size⟩ start (here + c.utf8Size) (by dsimp only; omega) (offset - c.utf8Size)
        rw [show here + c.utf8Size + (offset - c.utf8Size) = here + offset by omega] at hoffset hlineOf
        exact ⟨k, begin, hline, hoffset, hlineOf⟩

theorem exists_isLineOf (text : List Char) (offset : Nat) : ∃ k start, lineOf text offset = k + 1 ∧
    start + columnOf text offset = offset ∧ IsLineOf (lineStarts text) offset k start := by
  obtain ⟨k, start, hline, hcolumn, hlineOf⟩ := @exists_isLineOf_advance text ⟨1, 0⟩ 0 0 rfl offset
  rw [Nat.zero_add] at hcolumn hlineOf
  exact ⟨k, start, by rw [lineOf, positionOf, hline, Nat.add_comm], hcolumn, hlineOf⟩

/-- The line and the column tell the offset. -/
theorem positionOf_injective (text : List Char) : Function.Injective (positionOf text) := by
  intro offset offset' heq
  obtain ⟨k, start, hline, hcolumn, h⟩ := exists_isLineOf text offset
  obtain ⟨k', start', hline', hcolumn', h'⟩ := exists_isLineOf text offset'
  have hlines : lineOf text offset = lineOf text offset' := congrArg Position.line heq
  have hcolumns : columnOf text offset = columnOf text offset' := congrArg Position.column heq
  obtain rfl : k = k' := by omega
  obtain rfl : start = start' := Option.some.inj (h.begins.symm.trans h'.begins)
  omega

section

variable (hstarts : starts.Pairwise (· < ·))

include hstarts

/-- No line behind that of an offset begins at or before it. -/
theorem IsLineOf.le_of_le {i next : Nat} (h : IsLineOf starts offset k start) (hnext : starts[i]? = some next)
    (hle : next ≤ offset) : i ≤ k := by
  by_contra hlt
  obtain ⟨hi, rfl⟩ := List.getElem?_eq_some_iff.mp hnext
  have hk : k + 1 < starts.length := by omega
  have hbehind := h.lt starts[k + 1] (by rw [List.getElem?_eq_getElem hk]; rfl)
  rcases (by omega : k + 1 < i ∨ i = k + 1) with hlt | rfl
  · have hsorted := List.pairwise_iff_getElem.mp hstarts (k + 1) i hk hi hlt
    omega
  · omega

theorem IsLineOf.le_start {i next : Nat} (h : IsLineOf starts offset k start) (hnext : starts[i]? = some next)
    (hle : i ≤ k) : next ≤ start := by
  obtain ⟨hi, rfl⟩ := List.getElem?_eq_some_iff.mp hnext
  obtain ⟨hk, rfl⟩ := List.getElem?_eq_some_iff.mp h.begins
  rcases Nat.lt_or_eq_of_le hle with hlt | rfl
  · exact Nat.le_of_lt (List.pairwise_iff_getElem.mp hstarts i k hi hk hlt)
  · exact Nat.le_refl _

/-- An offset at which a line begins lies in this line. -/
theorem IsLineOf.eq_of_begins {i : Nat} (h : IsLineOf starts offset k start) (hbegins : starts[i]? = some offset) : i = k := by
  refine Nat.le_antisymm (h.le_of_le hstarts hbegins (Nat.le_refl _)) ?_
  by_contra hlt
  obtain ⟨hi, hoffset⟩ := List.getElem?_eq_some_iff.mp hbegins
  obtain ⟨hk, hstart⟩ := List.getElem?_eq_some_iff.mp h.begins
  have hsorted := List.pairwise_iff_getElem.mp hstarts i k hi hk (Nat.lt_of_not_le hlt)
  rw [hoffset, hstart] at hsorted
  exact Nat.not_lt_of_le h.le hsorted

end

/-- The column counts from the text's beginning or the last line break in front of the offset, whichever comes last. -/
theorem exists_isGreatest_column (text : List Char) (offset : Nat) : ∃ start, start + columnOf text offset = offset ∧
    IsGreatest {start | start = 0 ∨ ∃ i < offset, (bytes text)[i]? = some breakByte ∧ start = i + 1} start := by
  obtain ⟨k, start, -, hcolumn, h⟩ := exists_isLineOf text offset
  refine ⟨start, hcolumn, ?_, fun next hnext => ?_⟩
  · rcases List.mem_cons.mp (List.mem_of_getElem? h.begins) with rfl | hbreak
    · exact .inl rfl
    · obtain ⟨i, hi, rfl⟩ := mem_startsFrom_iff.mp hbreak
      exact .inr ⟨i, by have := h.le; omega, hi, by omega⟩
  · have hmem : next ∈ lineStarts text ∧ next ≤ offset := by
      rcases hnext with rfl | ⟨i, hlt, hi, rfl⟩
      · exact ⟨List.mem_cons_self, Nat.zero_le _⟩
      · exact ⟨List.mem_cons_of_mem _ (mem_startsFrom_iff.mpr ⟨i, hi, by omega⟩), hlt⟩
    obtain ⟨j, hj⟩ := List.getElem?_of_mem hmem.1
    exact h.le_start (pairwise_lineStarts text) hj (h.le_of_le (pairwise_lineStarts text) hj hmem.2)

/-! ### Looking a line up -/

/-- Where `key` stands in a sorted table, between two places, or else where it would have to. -/
def search? (table : List Nat) (key : Nat) (low high : Nat) : Option (Except Nat Nat) :=
  if low < high then do
    let entry ← table[(low + high) / 2]?
    if entry < key then search? table key ((low + high) / 2 + 1) high
    else if key < entry then search? table key low ((low + high) / 2)
    else return .ok ((low + high) / 2)
  else return .error low
termination_by high - low

/-- The position of an offset, by a table of the beginnings of lines. `none` if the offset lies in front of all lines, or the
table is read outside of its bounds. -/
def lookUp? (starts : List Nat) (offset : Nat) : Option Position := do
  let line := match ← search? starts offset 0 starts.length with
    | .ok k => k + 1
    | .error next => next
  let start ← if line = 0 then none else starts[line - 1]?
  if start ≤ offset then return ⟨line, offset - start⟩ else none

/-- The bisection ends at the line of an offset, or where the next line would have to begin. What it keeps is that the next
line is counted between the two places. -/
theorem search?_eq (hstarts : starts.Pairwise (· < ·)) (h : IsLineOf starts offset k start) (hlow : low ≤ k + 1)
    (hhigh : k + 1 ≤ high) (hlength : high ≤ starts.length) :
    search? starts offset low high = some (.ok k) ∨ search? starts offset low high = some (.error (k + 1)) := by
  fun_induction search? starts offset low high with
  | case1 low high hlt ihabove ihbelow =>
      have hmiddle : (low + high) / 2 < starts.length := by omega
      have hentry := List.getElem?_eq_getElem hmiddle
      rw [hentry, Option.bind_eq_bind, Option.bind_some]
      split_ifs with hless hmore
      · exact ihabove (Nat.succ_le_succ (h.le_of_le hstarts hentry (Nat.le_of_lt hless))) hhigh hlength
      · refine ihbelow hlow ?_ (Nat.le_of_lt hmiddle)
        by_contra hle
        have hstart := h.le_start hstarts hentry (Nat.le_of_not_lt hle)
        exact absurd (Nat.lt_of_lt_of_le hmore hstart) (Nat.not_lt_of_le h.le)
      · have heq : starts[(low + high) / 2] = offset := by omega
        have hk : (low + high) / 2 = k := h.eq_of_begins hstarts (by rw [hentry, heq])
        exact .inl (by rw [hk]; rfl)
  | case2 low high hge =>
      obtain rfl : low = k + 1 := by omega
      exact .inr rfl

/-- Looking an offset up reads the table within its bounds, and tells the position. -/
theorem lookUp?_lineStarts (text : List Char) (offset : Nat) : lookUp? (lineStarts text) offset = some (positionOf text offset) := by
  obtain ⟨k, start, hline, hcolumn, h⟩ := exists_isLineOf text offset
  obtain ⟨hlt, -⟩ := List.getElem?_eq_some_iff.mp h.begins
  have hposition : positionOf text offset = ⟨k + 1, offset - start⟩ := by
    rw [show positionOf text offset = ⟨lineOf text offset, columnOf text offset⟩ from rfl, hline]
    congr 1
    omega
  rw [hposition]
  rcases search?_eq (pairwise_lineStarts text) h (Nat.zero_le _) hlt (Nat.le_refl _) with hfound | hmissing
  · simp [lookUp?, hfound, h.begins, h.le]
  · simp [lookUp?, hmissing, h.begins, h.le]

end ApiImpact.Text

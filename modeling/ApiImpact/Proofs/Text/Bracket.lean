import ApiImpact.Proofs.Text.Mask
import ApiImpact.Text.Bracket

/-!
# Where brackets close
-/

namespace ApiImpact.Text

variable {opener closer : Char} {depth start stop : Nat} {text front rest : List Char}

/-- The bracket that closes stands behind a piece of the text. -/
theorem exists_of_closeFrom (h : closeFrom opener closer depth start text = some stop) :
    ∃ inner rest, text = inner ++ closer :: rest ∧ stop = start + byteLength inner := by
  induction text generalizing depth start with
  | nil => cases h
  | cons c text ih =>
      have hlater {depth' : Nat} (h : closeFrom opener closer depth' (start + c.utf8Size) text = some stop) :
          ∃ inner rest, c :: text = inner ++ closer :: rest ∧ stop = start + byteLength inner := by
        obtain ⟨inner, rest, rfl, rfl⟩ := ih h
        exact ⟨c :: inner, rest, rfl, Nat.add_assoc _ _ _⟩
      rw [closeFrom] at h
      split_ifs at h with hopens hcloses
      · exact hlater h
      · cases h
        exact ⟨[], text, by rw [hcloses]; rfl, rfl⟩
      · exact hlater h
      · exact hlater h

/-- A bracket is closed by one of its kind behind it. -/
theorem exists_of_matchingClose?_cons (hcloser : closerOf? opener = some closer)
    (h : matchingClose? (front ++ opener :: rest) (byteLength front) = some stop) :
    ∃ inner after, rest = inner ++ closer :: after ∧ stop = byteLength (front ++ opener :: inner) := by
  rw [matchingClose?, dropBytes?_byteLength] at h
  simp only [hcloser, Option.bind_eq_bind, Option.bind_some] at h
  obtain ⟨inner, after, rfl, rfl⟩ := exists_of_closeFrom h
  exact ⟨inner, after, rfl, by simp [Nat.add_assoc]⟩

/-- A brace is closed by a brace behind it. -/
theorem exists_of_matchingClose? (h : matchingClose? (front ++ '\x7b' :: rest) (byteLength front) = some stop) :
    ∃ inner after, rest = inner ++ '\x7d' :: after ∧ stop = byteLength (front ++ '\x7b' :: inner) :=
  exists_of_matchingClose?_cons rfl h

theorem closeFrom_append (hne : closer ≠ opener) (h : ∀ c ∈ text, c ≠ opener ∧ c ≠ closer) (start : Nat) (rest : List Char) :
    closeFrom opener closer 1 start (text ++ closer :: rest) = some (start + byteLength text) := by
  induction text generalizing start with
  | nil => rw [List.nil_append, closeFrom, if_neg hne, if_pos rfl, if_pos (Nat.le_refl 1), byteLength_nil, Nat.add_zero]
  | cons c text ih =>
      obtain ⟨hopener, hcloser⟩ := h c List.mem_cons_self
      rw [List.cons_append, closeFrom, if_neg hopener, if_neg hcloser, ih fun d hd => h d (List.mem_cons_of_mem _ hd),
        byteLength_cons, Nat.add_assoc]

/-- A bracket that closes behind `text` is matched. -/
theorem matchingClose?_of_closeFrom (hcloser : closerOf? opener = some closer)
    (h : closeFrom opener closer 1 (byteLength (front ++ [opener])) (text ++ closer :: rest) =
      some (byteLength (front ++ [opener]) + byteLength text)) :
    matchingClose? (front ++ opener :: (text ++ closer :: rest)) (byteLength front) = some (byteLength (front ++ opener :: text)) := by
  rw [matchingClose?, dropBytes?_byteLength]
  simp only [hcloser, Option.bind_eq_bind, Option.bind_some]
  have hlength : byteLength (front ++ opener :: text) = byteLength (front ++ [opener]) + byteLength text := by
    simp [Nat.add_assoc]
  rw [hlength, ← h]
  simp

/-! ## Pieces between separators -/

/-- Outside all brackets a text is cut at each separator, and the first piece goes on. -/
theorem exists_map_snd_piecesFrom {separator : Char} (h : ∀ c ∈ text, ∀ previous, depthStep previous c = 0) (previous : Char)
    (start here : Nat) (piece : List Char) : ∃ head tail, splitAtChars (· == separator) text = head :: tail ∧
      (piecesFrom separator 0 previous start piece here text).map Prod.snd = (piece.reverse ++ head) :: tail := by
  induction text generalizing previous start here piece with
  | nil => exact ⟨[], [], rfl, by simp [piecesFrom]⟩
  | cons c text ih =>
      have hrest : ∀ d ∈ text, ∀ previous, depthStep previous d = 0 := fun d hd => h d (List.mem_cons_of_mem _ hd)
      rw [splitAtChars, piecesFrom]
      by_cases hc : c = separator
      · obtain ⟨head, tail, hsplit, hpieces⟩ := ih hrest c (here + c.utf8Size) (here + c.utf8Size) []
        refine ⟨[], head :: tail, by rw [if_pos (beq_iff_eq.mpr hc), hsplit], ?_⟩
        rw [if_pos ⟨hc, rfl⟩]
        dsimp only
        rw [List.map_cons, hpieces, List.append_nil]
        rfl
      · obtain ⟨head, tail, hsplit, hpieces⟩ := ih hrest c start (here + c.utf8Size) (c :: piece)
        refine ⟨c :: head, tail, ?_, ?_⟩
        · rw [if_neg (by simpa using hc), hsplit]
          rfl
        · rw [if_neg (fun hboth => hc hboth.1), h c List.mem_cons_self, Int.add_zero, hpieces]
          simp

theorem map_snd_piecesOf {separator : Char} (h : ∀ c ∈ text, ∀ previous, depthStep previous c = 0) :
    (piecesOf separator text).map Prod.snd = splitAtChars (· == separator) text := by
  obtain ⟨head, tail, hsplit, hpieces⟩ := exists_map_snd_piecesFrom h ' ' 0 0 []
  rw [piecesOf, hpieces, hsplit]
  rfl

/-- A piece stands in the text at its offset. -/
theorem exists_of_mem_piecesFrom {separator : Char} {depth : Int} {previous : Char} {earlier piece text : List Char}
    {start here : Nat} {entry : Nat × List Char} (hstart : start = byteLength earlier)
    (hhere : here = byteLength (earlier ++ piece.reverse))
    (h : entry ∈ piecesFrom separator depth previous start piece here text) :
    ∃ front rest, earlier ++ (piece.reverse ++ text) = front ++ (entry.2 ++ rest) ∧ entry.1 = byteLength front := by
  induction text generalizing depth previous earlier piece start here with
  | nil =>
      obtain rfl := List.mem_singleton.mp h
      exact ⟨earlier, [], rfl, hstart⟩
  | cons c text ih =>
      rw [piecesFrom] at h
      split_ifs at h with hcut
      · dsimp only at h
        rcases List.mem_cons.mp h with rfl | h
        · exact ⟨earlier, c :: text, rfl, hstart⟩
        · have hnext : here + c.utf8Size = byteLength (earlier ++ piece.reverse ++ [c]) := by
            rw [hhere, byteLength_append (earlier ++ piece.reverse)]
            rfl
          obtain ⟨front, rest, hsplit, hfront⟩ := ih hnext (by simpa using hnext) h
          exact ⟨front, rest, by simpa using hsplit, hfront⟩
      · obtain ⟨front, rest, hsplit, hfront⟩ := ih hstart (by simp [hhere, Nat.add_assoc]) h
        exact ⟨front, rest, by simpa using hsplit, hfront⟩

/-- A piece between commas stands in the text at its offset, and is not blank. -/
theorem exists_of_mem_splitTopLevel {text : List Char} {entry : Nat × List Char} (h : entry ∈ splitTopLevel text) :
    isAllBlank entry.2 = false ∧ ∃ front rest, text = front ++ (entry.2 ++ rest) ∧ entry.1 = byteLength front := by
  obtain ⟨hmem, hblank⟩ := List.mem_filter.mp h
  obtain ⟨front, rest, hsplit, hfront⟩ := @exists_of_mem_piecesFrom ',' 0 ' ' [] [] text 0 0 entry rfl rfl hmem
  exact ⟨by simpa using hblank, front, rest, hsplit, hfront⟩

end ApiImpact.Text

import Mathlib.Data.List.TakeWhile
import ApiImpact.Proofs.Text.Offset
import ApiImpact.Script.Exports

/-!
# Reading a script at the end of a piece

What a script is read as at an offset that is the length of what stands before.
-/

namespace ApiImpact.Script.Source

open Text

variable {s : Source} {front piece rest : List Char}

theorem codeFrom_byteLength (h : s.code = front ++ rest) : s.codeFrom (byteLength front) = .ok rest := by
  rw [codeFrom, h, dropBytes?_byteLength, byteLength_append]
  split_ifs with hend
  · cases rest with
    | nil => rfl
    | cons c rest =>
        have hc := c.utf8Size_pos
        rw [byteLength_cons] at hend
        omega
  · rfl

theorem exists_of_skipBlanks {offset : Nat} (h : s.code = front ++ rest)
    (hskip : s.skipBlanks (byteLength front) = .ok offset) : ∃ blanks rest', rest = blanks ++ rest' ∧
      (∀ c ∈ blanks, isBlank c = true) ∧ offset = byteLength (front ++ blanks) := by
  rw [skipBlanks, codeFrom_byteLength h] at hskip
  cases hskip
  exact ⟨rest.takeWhile isBlank, rest.dropWhile isBlank, List.takeWhile_append_dropWhile.symm,
    fun c hc => List.mem_takeWhile_imp hc, (byteLength_append _ _).symm⟩

theorem exists_of_hasAt {word : String} (h : s.code = front ++ rest)
    (hword : s.hasAt (byteLength front) word = .ok true) : ∃ rest', rest = word.toList ++ rest' := by
  rw [hasAt, codeFrom_byteLength h] at hword
  obtain ⟨rest', rfl⟩ := List.isPrefixOf_iff_prefix.mp (Except.ok.inj hword)
  exact ⟨rest', rfl⟩

/-- The word `from`, with the blanks on both sides of it. -/
theorem exists_of_from {offset offset' : Nat} (h : s.code = front ++ rest)
    (hoffset : s.skipBlanks (byteLength front) = .ok offset) (hfrom : s.hasAt offset "from" = .ok true)
    (hoffset' : s.skipBlanks (offset + "from".length) = .ok offset') : ∃ tail lead rest',
      rest = tail ++ ("from".toList ++ (lead ++ rest')) ∧ (∀ c ∈ tail, isBlank c = true) ∧
        (∀ c ∈ lead, isBlank c = true) ∧ offset' = byteLength (front ++ (tail ++ ("from".toList ++ lead))) := by
  obtain ⟨tail, rest, rfl, htail, rfl⟩ := exists_of_skipBlanks h hoffset
  rw [← List.append_assoc] at h
  obtain ⟨rest, rfl⟩ := exists_of_hasAt h hfrom
  rw [← List.append_assoc] at h
  have hlength : byteLength (front ++ tail) + "from".length = byteLength (front ++ tail ++ "from".toList) := by
    rw [byteLength_append (front ++ tail)]
    rfl
  rw [hlength] at hoffset'
  obtain ⟨lead, rest, rfl, hlead, rfl⟩ := exists_of_skipBlanks h hoffset'
  exact ⟨tail, lead, rest, rfl, htail, hlead, by simp only [List.append_assoc]⟩

theorem codeBetween_byteLength (h : s.code = front ++ (piece ++ rest)) :
    s.codeBetween (byteLength front) (byteLength (front ++ piece)) = .ok piece := by
  rw [codeBetween, h, slice?_append]

theorem spanText_byteLength (h : s.code = front ++ (piece ++ rest)) :
    s.spanText ⟨byteLength front, byteLength (front ++ piece)⟩ = piece := by
  rw [spanText, h, slice?_append]
  rfl

/-- A literal stands between one sign of a single byte and the next of its kind. -/
theorem exists_of_literalAt? {literal : String} (h : s.code = front ++ rest)
    (hliteral : s.literalAt? (byteLength front) = some literal) : ∃ mark contents after,
      rest = mark :: (contents ++ mark :: after) ∧ mark ∉ contents ∧
        slice? s.text (byteLength (front ++ [mark])) (byteLength (front ++ mark :: contents)) =
          some literal.toList := by
  rw [literalAt?, h, dropBytes?_byteLength] at hliteral
  cases rest with
  | nil => cases hliteral
  | cons mark rest =>
      simp only [Option.bind_eq_bind, Option.bind_some] at hliteral
      split_ifs at hliteral with hsize
      obtain ⟨width, hwidth, hsome⟩ := Option.bind_eq_some_iff.mp hliteral
      obtain ⟨contents, hcontents, hname⟩ := Option.bind_eq_some_iff.mp hsome
      obtain ⟨blanked, c, after, rfl, rfl, hc, hblanked⟩ := exists_of_findOffset? hwidth
      obtain rfl : c = mark := by simpa using hc
      cases hname
      refine ⟨c, blanked, after, rfl, fun hm => by simpa using hblanked c hm, ?_⟩
      have hstop : byteLength (front ++ c :: blanked) = byteLength front + 1 + byteLength blanked := by
        simp [hsize, Nat.add_assoc]
      rw [hstop, String.toList_ofList]
      simpa [hsize] using hcontents

end ApiImpact.Script.Source

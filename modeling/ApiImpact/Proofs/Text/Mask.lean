import ApiImpact.Proofs.Text.Shade
import ApiImpact.Text.Offset

/-!
# Masks stand over their script byte by byte

A mask has each byte of its script or a space in its place, and all of its line breaks. So an offset that
cuts the script between two characters cuts the masks too, and stands in the same line and column there.
-/

namespace ApiImpact.Text

variable {hidden : Shade → Bool} {shade : Shade} {shaded : List (Char × Shade)} {c : Char}
  {text rest : List Char} {offset : Nat}

/-! ## Bytes -/

/-- The bytes of `text` in UTF-8. -/
def bytes (text : List Char) : List UInt8 :=
  text.flatMap String.utf8EncodeChar

def spaceByte : UInt8 := ' '.toUInt8

def breakByte : UInt8 := '\n'.toUInt8

/-- The byte that stands for `b` where its character is blanked out. -/
def blankByte (b : UInt8) : UInt8 :=
  if b = breakByte then breakByte else spaceByte

theorem blankByte_eq_or (b : UInt8) : blankByte b = b ∨ blankByte b = spaceByte := by
  unfold blankByte
  split_ifs with hb
  · exact .inl hb.symm
  · exact .inr rfl

theorem blankByte_eq_breakByte_iff (b : UInt8) : blankByte b = breakByte ↔ b = breakByte := by
  unfold blankByte
  split_ifs with hb
  · simp [hb]
  · simpa [hb] using (by decide : spaceByte ≠ breakByte)

/-- The bytes of a shaded text, each with the shade of its character. -/
def shadedBytes (shaded : List (Char × Shade)) : List (UInt8 × Shade) :=
  shaded.flatMap fun (c, shade) => (String.utf8EncodeChar c).map (·, shade)

theorem bytes_cons (c : Char) (rest : List Char) :
    bytes (c :: rest) = String.utf8EncodeChar c ++ bytes rest := rfl

theorem bytes_append (a b : List Char) : bytes (a ++ b) = bytes a ++ bytes b :=
  List.flatMap_append

theorem length_bytes (text : List Char) : (bytes text).length = byteLength text := by
  induction text with
  | nil => rfl
  | cons c text ih => rw [bytes_cons, List.length_append, String.length_utf8EncodeChar, ih, byteLength_cons]

theorem shadedBytes_cons : shadedBytes ((c, shade) :: shaded) =
    (String.utf8EncodeChar c).map (·, shade) ++ shadedBytes shaded := rfl

/-- The bytes of a longer character are those of no sign. -/
theorem eq_of_mem_utf8EncodeChar {sign : Char} (hsign : sign.utf8Size = 1)
    (h : sign.toUInt8 ∈ String.utf8EncodeChar c) : c = sign := by
  have hsize : sign.val.toNat ≤ 127 := Char.utf8Size_eq_one_iff.mp hsign
  have heq {n : Nat} (hn : n < 256) (h : sign.toUInt8 = UInt8.ofNat n) : n = sign.val.toNat := by
    have htoNat := congrArg UInt8.toNat h
    rw [UInt8.toNat_ofNat_of_lt' hn, Char.toUInt8, UInt32.toNat_toUInt8] at htoNat
    omega
  have hval : c.val.toNat = sign.val.toNat := by
    unfold String.utf8EncodeChar at h
    dsimp only at h
    split_ifs at h <;> simp only [List.mem_cons, List.not_mem_nil, or_false] at h
    · exact heq (by omega) h
    · rcases h with h | h <;> have := heq (by omega) h <;> omega
    · rcases h with h | h | h <;> have := heq (by omega) h <;> omega
    · rcases h with h | h | h | h <;> have := heq (by omega) h <;> omega
  exact Char.ext (UInt32.toNat_inj.mp hval)

/-- No byte of a longer character looks like a line break. -/
theorem eq_newline_of_mem (h : breakByte ∈ String.utf8EncodeChar c) : c = '\n' :=
  eq_of_mem_utf8EncodeChar rfl h

theorem bytes_replicate_space (n : Nat) : bytes (List.replicate n ' ') = List.replicate n spaceByte := by
  induction n with
  | zero => rfl
  | succ n ih =>
      rw [List.replicate_succ, bytes_cons, ih, List.replicate_succ]
      rfl

theorem bytes_blankOut (c : Char) : bytes (blankOut c) = (String.utf8EncodeChar c).map blankByte := by
  by_cases hc : c = '\n'
  · subst hc
    rfl
  · have hbytes : ∀ b ∈ String.utf8EncodeChar c, blankByte b = spaceByte := by
      intro b hb
      refine if_neg ?_
      rintro rfl
      exact hc (eq_newline_of_mem hb)
    rw [blankOut, if_neg hc, bytes_replicate_space, List.map_congr_left hbytes, List.map_const',
      String.length_utf8EncodeChar]

theorem map_fst_shadedBytes (shaded : List (Char × Shade)) :
    (shadedBytes shaded).map Prod.fst = bytes (shaded.map Prod.fst) := by
  induction shaded with
  | nil => rfl
  | cons entry shaded ih =>
      obtain ⟨c, shade⟩ := entry
      rw [shadedBytes_cons, List.map_append, ih, List.map_cons, bytes_cons, List.map_map]
      exact congrArg (· ++ _) (List.map_id _)

/-- A mask acts on each byte by the shade of its character. -/
theorem bytes_hide (hidden : Shade → Bool) (shaded : List (Char × Shade)) :
    bytes (hide hidden shaded) =
      (shadedBytes shaded).map fun (b, shade) => if hidden shade then blankByte b else b := by
  induction shaded with
  | nil => rfl
  | cons entry shaded ih =>
      obtain ⟨c, shade⟩ := entry
      rw [hide_cons, bytes_append, ih, shadedBytes_cons, List.map_append, List.map_map]
      congr 1
      cases hh : hidden shade
      · simp [bytes, Function.comp_def, hh]
      · simp [bytes_blankOut, Function.comp_def, hh]

/-! ## Cuts -/

theorem dropBytes?_byteLength (front rest : List Char) :
    dropBytes? (front ++ rest) (byteLength front) = some rest := by
  induction front with
  | nil => simp [dropBytes?]
  | cons c front ih =>
      have hc := c.utf8Size_pos
      obtain ⟨n, hn⟩ : ∃ n, byteLength (c :: front) = n + 1 := ⟨byteLength (c :: front) - 1, by simp; omega⟩
      rw [hn, List.cons_append, dropBytes?, ← hn, if_pos (by simp), byteLength_cons, Nat.add_sub_cancel_left, ih]

theorem exists_of_dropBytes? (h : dropBytes? text offset = some rest) :
    ∃ front, text = front ++ rest ∧ byteLength front = offset := by
  fun_induction dropBytes? text offset with
  | case1 text =>
      cases h
      exact ⟨[], rfl, rfl⟩
  | case2 => cases h
  | case3 c text offset hc ih =>
      obtain ⟨front, rfl, hfront⟩ := ih h
      exact ⟨c :: front, rfl, by rw [byteLength_cons, hfront]; omega⟩
  | case4 => cases h

theorem dropBytes?_eq_some_iff :
    dropBytes? text offset = some rest ↔ ∃ front, text = front ++ rest ∧ byteLength front = offset := by
  constructor
  · exact exists_of_dropBytes?
  · rintro ⟨front, rfl, rfl⟩
    exact dropBytes?_byteLength front rest

/-- An offset that cuts a script cuts its masks. -/
theorem isSome_dropBytes?_hide (h : (dropBytes? (shaded.map Prod.fst) offset).isSome) :
    (dropBytes? (hide hidden shaded) offset).isSome := by
  obtain ⟨rest, hrest⟩ := Option.isSome_iff_exists.mp h
  obtain ⟨front, hsplit, rfl⟩ := dropBytes?_eq_some_iff.mp hrest
  obtain ⟨shadedFront, shadedRest, rfl, rfl, -⟩ := List.map_eq_append_iff.mp hsplit
  refine Option.isSome_iff_exists.mpr ⟨hide hidden shadedRest, dropBytes?_eq_some_iff.mpr ?_⟩
  exact ⟨hide hidden shadedFront, hide_append _ _, byteLength_hide _ _⟩

/-! ## Lines -/

theorem advance_replicate_space (position : Position) (n : Nat) (rest : List Char) (offset : Nat) :
    position.advance (List.replicate n ' ' ++ rest) offset =
      if offset < n then { position with column := position.column + offset }
      else Position.advance ⟨position.line, position.column + n⟩ rest (offset - n) := by
  induction n generalizing position offset with
  | zero => rfl
  | succ n ih =>
      have hsize : ' '.utf8Size = 1 := rfl
      have hspace : ' ' ≠ '\n' := by decide
      rw [List.replicate_succ, List.cons_append, Position.advance, hsize]
      cases offset with
      | zero => simp
      | succ offset =>
          have hcolumn (k : Nat) : position.column + 1 + k = position.column + (k + 1) := by omega
          simp [hspace, ih, hcolumn]

theorem advance_blankOut (position : Position) (c : Char) (rest : List Char) (offset : Nat) :
    position.advance (blankOut c ++ rest) offset = position.advance (c :: rest) offset := by
  unfold blankOut
  split_ifs with hc
  · rw [hc]
    rfl
  · rw [advance_replicate_space, Position.advance, if_neg hc]

theorem advance_hide (hidden : Shade → Bool) (shaded : List (Char × Shade)) (position : Position)
    (offset : Nat) :
    position.advance (hide hidden shaded) offset = position.advance (shaded.map Prod.fst) offset := by
  induction shaded generalizing position offset with
  | nil => rfl
  | cons entry shaded ih =>
      obtain ⟨c, shade⟩ := entry
      have hstep (masked : List Char)
          (h : ∀ position offset, Position.advance position masked offset =
            Position.advance position (shaded.map Prod.fst) offset) :
          position.advance (c :: masked) offset = position.advance (c :: shaded.map Prod.fst) offset := by
        simp only [Position.advance, h]
      rw [hide_cons, List.map_cons]
      split_ifs
      · rw [advance_blankOut]
        exact hstep _ ih
      · exact hstep _ ih

/-- Every offset has one line and column in a script and its masks. -/
theorem positionOf_withoutComments (script : List Char) :
    positionOf (withoutComments script) = positionOf script := by
  funext offset
  rw [positionOf, withoutComments, advance_hide, map_fst_shades]
  rfl

theorem positionOf_codeOnly (script : List Char) : positionOf (codeOnly script) = positionOf script := by
  funext offset
  rw [positionOf, codeOnly, advance_hide, map_fst_shades]
  rfl

/-- Both masks have the length of the script, byte for byte its bytes or spaces, and the same line breaks;
what is left where contents of literals are blanked out too is left where comments alone are. -/
theorem masks_aligned (script : List Char) :
    (bytes (withoutComments script)).length = (bytes script).length ∧
    (bytes (codeOnly script)).length = (bytes script).length ∧
    (∀ (i : Nat) (b t c : UInt8), (bytes script)[i]? = some b →
      (bytes (withoutComments script))[i]? = some t → (bytes (codeOnly script))[i]? = some c →
        (t = b ∨ t = spaceByte) ∧ (c = b ∨ c = spaceByte) ∧ (t = breakByte ↔ b = breakByte) ∧
          (c = breakByte ↔ b = breakByte) ∧ (c ≠ spaceByte → t = c)) ∧
    ∀ offset, (dropBytes? script offset).isSome →
      (dropBytes? (withoutComments script) offset).isSome ∧ (dropBytes? (codeOnly script) offset).isSome := by
  have hscript : bytes script = (shadedBytes (shades script)).map Prod.fst := by
    rw [map_fst_shadedBytes, map_fst_shades]
  refine ⟨?_, ?_, fun i b t c hb ht hc => ?_, fun offset h => ?_⟩
  · rw [hscript, withoutComments, bytes_hide, List.length_map, List.length_map]
  · rw [hscript, codeOnly, bytes_hide, List.length_map, List.length_map]
  · rw [hscript, List.getElem?_map, Option.map_eq_some_iff] at hb
    obtain ⟨⟨b, shade⟩, hshaded, rfl⟩ := hb
    rw [withoutComments, bytes_hide, List.getElem?_map, hshaded] at ht
    rw [codeOnly, bytes_hide, List.getElem?_map, hshaded] at hc
    cases ht
    cases hc
    have hkept := blankByte_eq_or b
    have hbreak := blankByte_eq_breakByte_iff b
    cases shade with
    | code => exact ⟨.inl rfl, .inl rfl, Iff.rfl, Iff.rfl, fun _ => rfl⟩
    | comment => exact ⟨hkept, hkept, hbreak, hbreak, fun _ => rfl⟩
    | literal => exact ⟨.inl rfl, hkept, Iff.rfl, hbreak, fun hc => (hkept.resolve_right hc).symm⟩
  · rw [← map_fst_shades script] at h
    exact ⟨isSome_dropBytes?_hide h, isSome_dropBytes?_hide h⟩

end ApiImpact.Text

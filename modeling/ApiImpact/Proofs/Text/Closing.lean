import Mathlib.Order.Lattice.Nat
import Mathlib.Order.Bounds.Basic
import ApiImpact.Proofs.Text.Bracket

/-!
# The bracket that closes

A bracket is closed at the first place behind it up to which as many brackets of its kind are closed as opened, byte by
byte. The depth is counted here with a check: to close a bracket when none is open is an error. Behind an opening
bracket it never comes to that, and the count with the check finds what the count without it finds.
-/

namespace ApiImpact.Text

variable {opener closer c : Char} {opening closing : UInt8} {depth depth' here offset i : Nat} {text : List Char}
  {b : UInt8} {bs rest : List UInt8}

/-! ## Counting with a check -/

/-- A bracket is closed where none is open. -/
structure NoneOpen where
  offset : Nat
  deriving DecidableEq, Repr

/-- The place at which `depth` open brackets are closed, for bytes that begin at `here`. -/
def closeIn (opening closing : UInt8) : Nat → Nat → List UInt8 → Except NoneOpen (Option Nat)
  | _, _, [] => .ok none
  | depth, here, b :: bs =>
    if b = opening then closeIn opening closing (depth + 1) (here + 1) bs
    else if b = closing then
      if depth = 0 then .error ⟨here⟩
      else if depth - 1 = 0 then .ok (some here)
      else closeIn opening closing (depth - 1) (here + 1) bs
    else closeIn opening closing depth (here + 1) bs

/-- The byte that closes the bracket `b`. -/
def closingByte? (b : UInt8) : Option UInt8 :=
  (closerOf? (.ofUInt8 b)).map Char.toUInt8

/-- The place of the byte that closes the bracket at `offset`. The count begins in front of that bracket. -/
def closeAt (bs : List UInt8) (offset : Nat) : Except NoneOpen (Option Nat) :=
  match bs[offset]? with
  | none => .ok none
  | some b =>
    match closingByte? b with
    | none => .ok none
    | some closing => closeIn b closing 0 offset (bs.drop offset)

/-! ## Where the brackets are even -/

/-- The places in bytes that begin at `here`, behind `depth` open brackets, up to which as many brackets are closed as
opened. -/
def evenPlaces (opening closing : UInt8) (depth here : Nat) (bs : List UInt8) : Set Nat :=
  {i | here ≤ i ∧ i < here + bs.length ∧
    depth + (bs.take (i + 1 - here)).count opening = (bs.take (i + 1 - here)).count closing}

/-- After one byte the brackets are even here, or as even as they are with the new depth behind it. -/
theorem mem_evenPlaces_cons (hdepth : depth + [b].count opening = depth' + [b].count closing) :
    i ∈ evenPlaces opening closing depth here (b :: bs) ↔
      (i = here ∧ depth' = 0) ∨ i ∈ evenPlaces opening closing depth' (here + 1) bs := by
  simp only [evenPlaces, Set.mem_ofPred_eq, List.length_cons]
  rcases Nat.lt_trichotomy i here with hlt | rfl | hlt
  · omega
  · have htake : (b :: bs).take (i + 1 - i) = [b] := by rw [Nat.add_sub_cancel_left]; rfl
    rw [htake]
    omega
  · have htake : (b :: bs).take (i + 1 - here) = [b] ++ bs.take (i + 1 - (here + 1)) := by
      rw [show i + 1 - here = (i + 1 - (here + 1)) + 1 by omega, List.take_succ_cons]
      rfl
    rw [htake, List.count_append, List.count_append]
    omega

theorem evenPlaces_cons_of_pos (hdepth : depth + [b].count opening = depth' + [b].count closing) (hpos : 0 < depth') :
    evenPlaces opening closing depth here (b :: bs) = evenPlaces opening closing depth' (here + 1) bs := by
  ext i
  rw [mem_evenPlaces_cons hdepth]
  exact or_iff_right fun hhere => Nat.ne_of_gt hpos hhere.2

theorem isLeast_evenPlaces_cons (hdepth : depth + [b].count opening = [b].count closing) :
    IsLeast (evenPlaces opening closing depth here (b :: bs)) here :=
  ⟨(mem_evenPlaces_cons (hdepth.trans (Nat.zero_add _).symm)).mpr (.inl ⟨rfl, rfl⟩), fun _ hi => hi.1⟩

/-- Behind an open bracket the count does not fail, and it stops where the brackets are even for the first time. -/
theorem closeIn_eq_ok (hne : closing ≠ opening) (hpos : 0 < depth) : ∃ result,
    closeIn opening closing depth here bs = .ok result ∧
      ∀ i, result = some i ↔ IsLeast (evenPlaces opening closing depth here bs) i := by
  induction bs generalizing depth here with
  | nil =>
      refine ⟨none, rfl, fun i => iff_of_false nofun fun hleast => ?_⟩
      have hi := hleast.1
      simp only [evenPlaces, Set.mem_ofPred_eq, List.length_nil] at hi
      omega
  | cons b bs ih =>
      rw [closeIn]
      split_ifs with hopens hcloses hnone hlast
      · have hcount : depth + [b].count opening = (depth + 1) + [b].count closing := by
          simp [hopens, List.count_cons_of_ne hne.symm]
        rw [evenPlaces_cons_of_pos hcount (Nat.succ_pos depth)]
        exact ih (Nat.succ_pos depth)
      · exact absurd hnone (Nat.ne_of_gt hpos)
      · have hcount : depth + [b].count opening = [b].count closing := by
          simp [hcloses, List.count_cons_of_ne hne]
          omega
        have hleast : IsLeast (evenPlaces opening closing depth here (b :: bs)) here := isLeast_evenPlaces_cons hcount
        refine ⟨some here, rfl, fun i => ⟨?_, fun hi => congrArg some (hleast.unique hi)⟩⟩
        rintro ⟨⟩
        exact hleast
      · have hcount : depth + [b].count opening = (depth - 1) + [b].count closing := by
          simp [hcloses, List.count_cons_of_ne hne]
          omega
        rw [evenPlaces_cons_of_pos hcount (Nat.pos_of_ne_zero hlast)]
        exact ih (Nat.pos_of_ne_zero hlast)
      · have hcount : depth + [b].count opening = depth + [b].count closing := by simp [hopens, hcloses]
        rw [evenPlaces_cons_of_pos hcount hpos]
        exact ih hpos

/-! ## Bytes of brackets -/

/-- The three pairs of brackets. -/
def bracketPairs : List (Char × Char) := [('(', ')'), ('\x7b', '\x7d'), ('[', ']')]

theorem closerOf?_eq_some_iff : closerOf? opener = some closer ↔ (opener, closer) ∈ bracketPairs := by
  constructor
  · intro h
    unfold closerOf? at h
    split at h <;> cases h <;> decide
  · intro h
    simp only [bracketPairs, List.mem_cons, Prod.mk.injEq, List.not_mem_nil, or_false] at h
    rcases h with ⟨rfl, rfl⟩ | ⟨rfl, rfl⟩ | ⟨rfl, rfl⟩ <;> rfl

theorem size_of_pair (h : (opener, closer) ∈ bracketPairs) : opener.utf8Size = 1 ∧ closer.utf8Size = 1 := by
  have hall : ∀ pair ∈ bracketPairs, pair.1.utf8Size = 1 ∧ pair.2.utf8Size = 1 := by decide
  exact hall _ h

theorem byte_of_pair (h : (opener, closer) ∈ bracketPairs) :
    closer.toUInt8 ≠ opener.toUInt8 ∧ closingByte? opener.toUInt8 = some closer.toUInt8 := by
  have hall : ∀ pair ∈ bracketPairs, pair.2.toUInt8 ≠ pair.1.toUInt8 ∧ closingByte? pair.1.toUInt8 = some pair.2.toUInt8 := by decide
  exact hall _ h

/-- A bracket has one pair. -/
theorem bracketPairs_inj : ∀ pair ∈ bracketPairs, ∀ pair' ∈ bracketPairs, pair.1.toUInt8 = pair'.1.toUInt8 → pair = pair' := by decide

theorem exists_of_closingByte? (h : closingByte? b = some closing) : ∃ opener closer, (opener, closer) ∈ bracketPairs ∧
    b = opener.toUInt8 ∧ closing = closer.toUInt8 := by
  obtain ⟨closer, hcloser, rfl⟩ := Option.map_eq_some_iff.mp h
  exact ⟨.ofUInt8 b, closer, closerOf?_eq_some_iff.mp hcloser, (UInt8.toUInt8_toUInt32 b).symm, rfl⟩

theorem utf8EncodeChar_sign (hc : c.utf8Size = 1) : String.utf8EncodeChar c = [c.toUInt8] :=
  String.utf8EncodeChar_eq_singleton hc

/-- A sign of one byte stands among the bytes of a text where it stands in the text. -/
theorem getElem?_bytes_iff (hc : c.utf8Size = 1) :
    (bytes text)[offset]? = some c.toUInt8 ↔ ∃ front rest, text = front ++ c :: rest ∧ offset = byteLength front := by
  constructor
  · intro h
    induction text generalizing offset with
    | nil => cases h
    | cons d text ih =>
        rw [bytes_cons] at h
        by_cases hlt : offset < d.utf8Size
        · rw [List.getElem?_append_left (by rwa [String.length_utf8EncodeChar])] at h
          obtain rfl : d = c := eq_of_mem_utf8EncodeChar hc (List.mem_of_getElem? h)
          exact ⟨[], text, rfl, by rw [hc] at hlt; exact Nat.lt_one_iff.mp hlt⟩
        · rw [List.getElem?_append_right (by rw [String.length_utf8EncodeChar]; omega), String.length_utf8EncodeChar] at h
          obtain ⟨front, rest, rfl, hoffset⟩ := ih h
          exact ⟨d :: front, rest, rfl, by rw [byteLength_cons]; omega⟩
  · rintro ⟨front, rest, rfl, rfl⟩
    rw [bytes_append, List.getElem?_append_right (Nat.le_of_eq (length_bytes front)), length_bytes, Nat.sub_self, bytes_cons,
      utf8EncodeChar_sign hc]
    rfl

/-! ## Counting characters and counting bytes -/

theorem closeIn_append (h : ∀ b ∈ bs, b ≠ opening ∧ b ≠ closing) (more : List UInt8) :
    closeIn opening closing depth here (bs ++ more) = closeIn opening closing depth (here + bs.length) more := by
  induction bs generalizing here with
  | nil => rfl
  | cons b bs ih =>
      obtain ⟨⟨hopens, hcloses⟩, hrest⟩ := List.forall_mem_cons.mp h
      rw [List.cons_append, closeIn, if_neg hopens, if_neg hcloses, ih hrest, List.length_cons, Nat.add_assoc, Nat.add_comm 1]

/-- Brackets of one byte are counted alike among the characters of a text and among its bytes. -/
theorem closeIn_bytes (hopener : opener.utf8Size = 1) (hcloser : closer.utf8Size = 1) (hne : closer.toUInt8 ≠ opener.toUInt8)
    (hpos : 0 < depth) : closeIn opener.toUInt8 closer.toUInt8 depth here (bytes text) = .ok (closeFrom opener closer depth here text) := by
  induction text generalizing depth here with
  | nil => rfl
  | cons c text ih =>
      rw [bytes_cons, closeFrom]
      split_ifs with hopens hcloses hlast
      · subst hopens
        rw [utf8EncodeChar_sign hopener, hopener, List.singleton_append, closeIn, if_pos rfl, ih (Nat.succ_pos depth)]
      · subst hcloses
        rw [utf8EncodeChar_sign hcloser, List.singleton_append, closeIn, if_neg hne, if_pos rfl,
          if_neg (Nat.ne_of_gt hpos), if_pos (by omega)]
      · subst hcloses
        rw [utf8EncodeChar_sign hcloser, hcloser, List.singleton_append, closeIn, if_neg hne, if_pos rfl,
          if_neg (Nat.ne_of_gt hpos), if_neg (by omega), ih (by omega)]
      · have hother : ∀ b ∈ String.utf8EncodeChar c, b ≠ opener.toUInt8 ∧ b ≠ closer.toUInt8 := by
          refine fun b hb => ⟨?_, ?_⟩
          · rintro rfl
            exact hopens (eq_of_mem_utf8EncodeChar hopener hb)
          · rintro rfl
            exact hcloses (eq_of_mem_utf8EncodeChar hcloser hb)
        rw [closeIn_append hother, String.length_utf8EncodeChar, ih hpos]

/-- The bytes from `start` to `stop`, with those at both ends. -/
def bytesBetween (bs : List UInt8) (start stop : Nat) : List UInt8 := (bs.drop start).take (stop + 1 - start)

/-- The places behind the bracket at `offset` up to which, from that bracket on, as many brackets are closed as opened. -/
def closingPlaces (opening closing : UInt8) (bs : List UInt8) (offset : Nat) : Set Nat :=
  {i | offset < i ∧ i < bs.length ∧ (bytesBetween bs offset i).count opening = (bytesBetween bs offset i).count closing}

theorem closingPlaces_eq (hne : closing ≠ opening) (h : bs.drop offset = opening :: rest) :
    closingPlaces opening closing bs offset = evenPlaces opening closing 1 (offset + 1) rest := by
  have hcount : 0 + [opening].count opening = 1 + [opening].count closing := by simp [List.count_cons_of_ne hne.symm]
  have hlength := congrArg List.length h
  rw [List.length_drop, List.length_cons] at hlength
  have hplaces : evenPlaces opening closing 0 offset (bs.drop offset) = evenPlaces opening closing 1 (offset + 1) rest := by
    rw [h]
    exact evenPlaces_cons_of_pos hcount Nat.one_pos
  ext i
  rw [← hplaces]
  constructor
  · rintro ⟨hlt, hend, heven⟩
    exact ⟨Nat.le_of_lt hlt, by rw [List.length_drop]; omega, by rw [Nat.zero_add]; exact heven⟩
  · intro hi
    -- the brackets are not even at the first of them
    have hlt : offset + 1 ≤ i := (hplaces ▸ hi).1
    obtain ⟨-, hend, heven⟩ := hi
    rw [List.length_drop] at hend
    exact ⟨hlt, by omega, by rw [Nat.zero_add] at heven; exact heven⟩

/-! ## Matching -/

theorem matchingClose?_of_pair (hpair : (opener, closer) ∈ bracketPairs) (h : (bytes text)[offset]? = some opener.toUInt8) :
    closeAt (bytes text) offset = .ok (matchingClose? text offset) ∧
      ∀ i, matchingClose? text offset = some i ↔ IsLeast (closingPlaces opener.toUInt8 closer.toUInt8 (bytes text) offset) i := by
  obtain ⟨hopener, hcloser⟩ := size_of_pair hpair
  obtain ⟨hne, hclosing⟩ := byte_of_pair hpair
  obtain ⟨front, after, rfl, rfl⟩ := (getElem?_bytes_iff hopener).mp h
  have hdrop : (bytes (front ++ opener :: after)).drop (byteLength front) = opener.toUInt8 :: bytes after := by
    rw [bytes_append, List.drop_left' (length_bytes front), bytes_cons, utf8EncodeChar_sign hopener]
    rfl
  have hmatching : matchingClose? (front ++ opener :: after) (byteLength front) =
      closeFrom opener closer 1 (byteLength front + 1) after := by
    rw [matchingClose?, dropBytes?_byteLength]
    simp only [closerOf?_eq_some_iff.mpr hpair, hopener, Option.bind_eq_bind, Option.bind_some]
  have hscan := @closeIn_bytes opener closer 1 (byteLength front + 1) after hopener hcloser hne Nat.one_pos
  obtain ⟨result, hresult, hleast⟩ := @closeIn_eq_ok opener.toUInt8 closer.toUInt8 1 (byteLength front + 1) (bytes after) hne Nat.one_pos
  obtain rfl := Except.ok.inj (hresult.symm.trans hscan)
  refine ⟨?_, fun i => ?_⟩
  · rw [closeAt, h]
    simp only [hclosing]
    rw [hdrop, closeIn, if_pos rfl, hscan, hmatching]
  · rw [hmatching, hleast, closingPlaces_eq hne hdrop]

theorem matchingClose?_of_no_pair (h : ∀ pair ∈ bracketPairs, (bytes text)[offset]? ≠ some pair.1.toUInt8) :
    closeAt (bytes text) offset = .ok none ∧ matchingClose? text offset = none := by
  constructor
  · unfold closeAt
    split
    · rfl
    · rename_i b hb
      split
      · rfl
      · rename_i closing hclosing
        obtain ⟨opener, closer, hpair, rfl, -⟩ := exists_of_closingByte? hclosing
        exact absurd hb (h _ hpair)
  · unfold matchingClose?
    split
    · rename_i c after hdrop
      cases hcloser : closerOf? c with
      | none => rfl
      | some closer =>
          have hpair := closerOf?_eq_some_iff.mp hcloser
          obtain ⟨front, rfl, rfl⟩ := exists_of_dropBytes? hdrop
          exact absurd ((getElem?_bytes_iff (size_of_pair hpair).1).mpr ⟨front, after, rfl, rfl⟩) (h _ hpair)
    · rfl

theorem closing_of_matchingClose? (hpair : (opener, closer) ∈ bracketPairs) (h : (bytes text)[offset]? = some opener.toUInt8)
    (hmatching : matchingClose? text offset = some i) : (bytes text)[i]? = some closer.toUInt8 := by
  obtain ⟨hopener, hcloser⟩ := size_of_pair hpair
  obtain ⟨front, after, rfl, rfl⟩ := (getElem?_bytes_iff hopener).mp h
  obtain ⟨inner, behind, rfl, rfl⟩ := exists_of_matchingClose?_cons (closerOf?_eq_some_iff.mpr hpair) hmatching
  exact (getElem?_bytes_iff hcloser).mpr ⟨front ++ opener :: inner, behind, by simp, rfl⟩

theorem matchingClose?_eq_none_iff (hpair : (opener, closer) ∈ bracketPairs) (h : (bytes text)[offset]? = some opener.toUInt8) :
    matchingClose? text offset = none ↔ ¬ (closingPlaces opener.toUInt8 closer.toUInt8 (bytes text) offset).Nonempty := by
  obtain ⟨-, hleast⟩ := matchingClose?_of_pair hpair h
  rw [Option.eq_none_iff_forall_ne_some]
  constructor
  · rintro hnone hplaces
    exact hnone _ ((hleast _).mpr ⟨Nat.sInf_mem hplaces, fun i hi => Nat.sInf_le hi⟩)
  · exact fun hempty i hi => hempty ⟨i, ((hleast i).mp hi).1⟩

/-- A bracket is matched with the first place behind it up to which as many brackets of its pair are closed as opened. A
byte that closes its pair stands there. There is none if no bracket opens at the offset, or if the brackets are never
even. In no case is a bracket closed where none is open. -/
theorem matchingClose?_exact (text : List Char) (offset : Nat) :
    (∀ i, matchingClose? text offset = some i ↔ ∃ opener closer, (opener, closer) ∈ bracketPairs ∧
      (bytes text)[offset]? = some opener.toUInt8 ∧ (bytes text)[i]? = some closer.toUInt8 ∧
        IsLeast (closingPlaces opener.toUInt8 closer.toUInt8 (bytes text) offset) i) ∧
    (matchingClose? text offset = none ↔ ¬ ∃ opener closer, (opener, closer) ∈ bracketPairs ∧
      (bytes text)[offset]? = some opener.toUInt8 ∧ (closingPlaces opener.toUInt8 closer.toUInt8 (bytes text) offset).Nonempty) ∧
    closeAt (bytes text) offset = .ok (matchingClose? text offset) := by
  by_cases hopens : ∃ pair ∈ bracketPairs, (bytes text)[offset]? = some pair.1.toUInt8
  · obtain ⟨⟨opener, closer⟩, hpair, hbyte⟩ := hopens
    obtain ⟨hclose, hleast⟩ := matchingClose?_of_pair hpair hbyte
    have hunique {opener' closer' : Char} (hpair' : (opener', closer') ∈ bracketPairs)
        (hbyte' : (bytes text)[offset]? = some opener'.toUInt8) : (opener', closer') = (opener, closer) :=
      bracketPairs_inj _ hpair' _ hpair (Option.some.inj (hbyte'.symm.trans hbyte))
    refine ⟨fun i => ⟨fun hi => ?_, ?_⟩, ?_, hclose⟩
    · exact ⟨opener, closer, hpair, hbyte, closing_of_matchingClose? hpair hbyte hi, (hleast i).mp hi⟩
    · rintro ⟨opener', closer', hpair', hbyte', -, hi⟩
      obtain ⟨rfl, rfl⟩ := Prod.mk.inj (hunique hpair' hbyte')
      exact (hleast i).mpr hi
    · rw [matchingClose?_eq_none_iff hpair hbyte, not_iff_not]
      refine ⟨fun hplaces => ⟨opener, closer, hpair, hbyte, hplaces⟩, ?_⟩
      rintro ⟨opener', closer', hpair', hbyte', hplaces⟩
      obtain ⟨rfl, rfl⟩ := Prod.mk.inj (hunique hpair' hbyte')
      exact hplaces
  · push Not at hopens
    obtain ⟨hclose, hnone⟩ := matchingClose?_of_no_pair hopens
    rw [hnone]
    refine ⟨fun i => iff_of_false nofun ?_, iff_of_true rfl ?_, hclose⟩
    · rintro ⟨opener, closer, hpair, hbyte, -, -⟩
      exact hopens _ hpair hbyte
    · rintro ⟨opener, closer, hpair, hbyte, -⟩
      exact hopens _ hpair hbyte

/-- Brackets of the other pairs do not count, nor what stands in front of the offset. -/
example : matchingClose? "\u00e9)(a, [b), c]".toList 3 = some 9 := by decide +kernel

end ApiImpact.Text

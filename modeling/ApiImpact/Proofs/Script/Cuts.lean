import ApiImpact.Proofs.Result
import ApiImpact.Proofs.Script.Source
import ApiImpact.Proofs.Text.Blank
import ApiImpact.Proofs.Text.Bracket
import ApiImpact.Proofs.Text.Literal

/-!
# Reading a script between two characters

A script can be read wherever one character ends and the next begins. Functions, classes and values are looked for from
such a place on, and every offset that is computed on the way is such a place again. The text is cut where the code has
a sign, before the sign and behind it.

A value is told by how its code begins. One that begins with none of the words and brackets of functions, classes
and objects, and with no parameter before an arrow, is a value of any other kind.
-/

namespace ApiImpact

/-- The symbol shows something of how it is declared. -/
def Symbol.IsSigned (symbol : Symbol) : Prop :=
  symbol.signature ≠ ""

namespace Script

open Text Text.Pattern

theorem exists_of_mem_publicMembers {pattern : Pattern} {body : List Char} {member : String × Nat}
    (h : member ∈ publicMembers pattern body) : ∃ front rest, body = front ++ rest ∧ member.2 = byteLength front := by
  obtain ⟨m, -, hsome⟩ := List.mem_filterMap.mp h
  obtain ⟨span, -, hspan⟩ := Option.bind_eq_some_iff.mp hsome
  obtain ⟨text, htext, hmember⟩ := Option.bind_eq_some_iff.mp hspan
  split_ifs at hmember
  cases hmember
  obtain ⟨front, rest, rfl, -, hstop⟩ := exists_of_slice? htext
  exact ⟨front ++ text, rest, by simp, hstop⟩

/-- The words of a text are joined to nothing only if it is blank. -/
theorem collapse_ne_nil {c : Char} (hc : isBlank c = false) (rest : List Char) : collapse (c :: rest) ≠ [] := by
  rw [collapse_cons hc]
  exact List.cons_ne_nil _ _

namespace Source

variable {s : Source} {front rest inner : List Char} {c : Char} {offset start stop : Nat} {word : String}

/-! ## Places in the code and in the text -/

/-- The code has the word at `offset`. -/
def HasWord (s : Source) (offset : Nat) (word : List Char) : Prop :=
  ∃ front rest, s.code = front ++ (word ++ rest) ∧ offset = byteLength front

/-- One character of the code ends at `offset`, and the next one begins. -/
def IsCut (s : Source) (offset : Nat) : Prop :=
  s.HasWord offset []

theorem isCut_byteLength (h : s.code = front ++ rest) : s.IsCut (byteLength front) := ⟨front, rest, h, rfl⟩

theorem HasWord.isCut {word : List Char} (h : s.HasWord offset word) : s.IsCut offset := by
  obtain ⟨front, rest, hcode, rfl⟩ := h
  exact isCut_byteLength hcode

theorem HasWord.head {word : List Char} (h : s.HasWord offset (c :: word)) : s.HasWord offset [c] := by
  obtain ⟨front, rest, hcode, rfl⟩ := h
  exact ⟨front, word ++ rest, hcode, rfl⟩

theorem HasWord.isCut_behind {word : List Char} (h : s.HasWord offset word) : s.IsCut (offset + byteLength word) := by
  obtain ⟨front, rest, hcode, rfl⟩ := h
  rw [← byteLength_append]
  exact isCut_byteLength (by rw [hcode, List.append_assoc])

/-- A word stands at `offset` with a sign at its beginning. -/
def HasSign (s : Source) (offset : Nat) : Prop :=
  ∃ c, s.HasWord offset [c] ∧ isBlank c = false

/-- A piece of the text ends at `stop`, behind `start`. -/
def EndsBehind (s : Source) (start stop : Nat) : Prop :=
  start < stop ∧ ∃ front rest, s.text = front ++ rest ∧ stop = byteLength front

theorem EndsBehind.mono (h : s.EndsBehind offset stop) (hle : start ≤ offset) : s.EndsBehind start stop :=
  ⟨Nat.lt_of_le_of_lt hle h.1, h.2⟩

/-- The masks have one length, and the signs of the code stand in the text too, at the same offsets. -/
structure IsMasked (s : Source) : Prop where
  length : byteLength s.text = byteLength s.code
  sign : ∀ front c rest, s.code = front ++ c :: rest → c ≠ ' ' → ∃ front' rest', s.text = front' ++ c :: rest' ∧
    byteLength front' = byteLength front

theorem isMasked_of (script : List Char) : (Source.of script).IsMasked where
  length := (byteLength_hide (· == .comment) (shades script)).trans (byteLength_hide (· != .code) (shades script)).symm
  sign := fun _ _ _ h hspace => exists_text_of_codeOnly hspace h

theorem IsMasked.endsBehind (hs : s.IsMasked) (h : s.HasWord offset [c]) (hspace : c ≠ ' ') (hlt : start < offset) :
    s.EndsBehind start offset := by
  obtain ⟨front, rest, hcode, rfl⟩ := h
  obtain ⟨front', rest', htext, hlength⟩ := hs.sign front c rest hcode hspace
  exact ⟨hlt, front', c :: rest', htext, hlength.symm⟩

theorem IsMasked.endsBehind_sign (hs : s.IsMasked) (h : s.HasWord offset [c]) (hspace : c ≠ ' ') (hle : start ≤ offset) :
    s.EndsBehind start (offset + c.utf8Size) := by
  obtain ⟨front, rest, hcode, rfl⟩ := h
  obtain ⟨front', rest', htext, hlength⟩ := hs.sign front c rest hcode hspace
  have hc := c.utf8Size_pos
  exact ⟨by omega, front' ++ [c], rest', by rw [htext, List.append_assoc]; rfl, by simp [hlength]⟩

theorem IsMasked.endsBehind_length (hs : s.IsMasked) (hstart : s.HasSign start) : s.EndsBehind start (byteLength s.text) := by
  obtain ⟨c, ⟨front, rest, hcode, rfl⟩, -⟩ := hstart
  have hc := c.utf8Size_pos
  refine ⟨?_, s.text, [], (List.append_nil _).symm, rfl⟩
  simp only [hs.length, hcode, byteLength_append, byteLength_cons]
  omega

/-- The text between a sign and a later place is not blank. -/
theorem signature_ne (hs : s.IsMasked) (hstart : s.HasSign start) (hstop : s.EndsBehind start stop) :
    s.signature start stop ≠ "" := by
  obtain ⟨c, ⟨front, rest, hcode, rfl⟩, hc⟩ := hstart
  obtain ⟨hlt, front₂, rest₂, htext₂, rfl⟩ := hstop
  have hspace : c ≠ ' ' := by
    rintro rfl
    exact absurd hc (by decide)
  obtain ⟨front₁, rest₁, htext₁, hlength⟩ := hs.sign front c rest hcode hspace
  rw [← hlength] at hlt ⊢
  obtain ⟨piece, rfl, hpiece, hslice⟩ := exists_slice? htext₁ htext₂ (Nat.le_of_lt hlt)
  cases piece with
  | nil => simp at hlt
  | cons d piece =>
      obtain ⟨rfl, -⟩ := List.cons.inj hpiece
      rw [signature, hslice]
      exact fun hempty => collapse_ne_nil hc piece (by simpa using hempty)

/-! ## Steps -/

theorem succeeds_codeFrom (h : s.IsCut offset) :
    Succeeds (fun rest => ∃ front, s.code = front ++ rest ∧ offset = byteLength front) (s.codeFrom offset) := by
  obtain ⟨front, rest, hcode, rfl⟩ := h
  exact ⟨rest, codeFrom_byteLength hcode, front, hcode, rfl⟩

theorem succeeds_skipBlanks (h : s.IsCut offset) :
    Succeeds (fun offset' => offset ≤ offset' ∧ s.IsCut offset') (s.skipBlanks offset) := by
  refine (succeeds_codeFrom h).bind fun rest hrest => succeeds_pure ?_
  obtain ⟨front, hcode, rfl⟩ := hrest
  rw [← byteLength_append]
  refine ⟨by simp, @isCut_byteLength _ _ (rest.dropWhile isBlank) ?_⟩
  rw [hcode, List.append_assoc, List.takeWhile_append_dropWhile]

theorem succeeds_hasAt (h : s.IsCut offset) (word : String) :
    Succeeds (fun found => found = true → s.HasWord offset word.toList) (s.hasAt offset word) := by
  refine (succeeds_codeFrom h).bind fun rest hrest => succeeds_pure fun hword => ?_
  obtain ⟨front, hcode, rfl⟩ := hrest
  obtain ⟨rest', rfl⟩ := List.isPrefixOf_iff_prefix.mp hword
  exact ⟨front, rest', hcode, rfl⟩

theorem exists_of_leadingIdentifier? {code param : List Char} (h : leadingIdentifier? code = some param) :
    param ≠ [] ∧ ∃ rest, code = param ++ rest := by
  cases code with
  | nil => cases h
  | cons c code =>
      rw [leadingIdentifier?] at h
      split_ifs at h
      obtain rfl := Option.some.inj h
      exact ⟨List.cons_ne_nil _ _, code.dropWhile isIdentifierChar, by simp⟩

theorem succeeds_identifierAt? (h : s.IsCut offset) :
    Succeeds (fun found => ∀ name ∈ found, name ≠ [] ∧ s.HasWord offset name) (s.identifierAt? offset) := by
  refine (succeeds_codeFrom h).bind fun rest hrest => succeeds_pure fun name hname => ?_
  obtain ⟨front, hcode, rfl⟩ := hrest
  obtain ⟨hne, rest', rfl⟩ := exists_of_leadingIdentifier? hname
  exact ⟨hne, front, rest', hcode, rfl⟩

theorem codeBetween_bracket (h : s.code = front ++ c :: (inner ++ rest)) (hc : c.utf8Size = 1) :
    s.codeBetween (byteLength front + 1) (byteLength (front ++ c :: inner)) = .ok inner := by
  have hstart : byteLength front + 1 = byteLength (front ++ [c]) := by simp [hc]
  have hstop : front ++ c :: inner = front ++ [c] ++ inner := by simp
  rw [hstart, hstop]
  exact codeBetween_byteLength (by simpa using h)

theorem codeBetween_zero (h : s.code = front ++ rest) : s.codeBetween 0 (byteLength front) = .ok front := by
  have hbetween : s.codeBetween (byteLength []) (byteLength ([] ++ front)) = .ok front := codeBetween_byteLength h
  simpa using hbetween

/-! ## Functions -/

/-- Where a text is cut before a sign, the sign follows if there is more. -/
theorem eq_sign_of_takeWhile {sign : Char} {text : List Char} (h : (text.takeWhile (· != sign)).length ≠ text.length) :
    ∃ tail, text = text.takeWhile (· != sign) ++ sign :: tail := by
  have hsplit : text.takeWhile (· != sign) ++ text.dropWhile (· != sign) = text := List.takeWhile_append_dropWhile
  cases htail : text.dropWhile (· != sign) with
  | nil =>
      rw [htail, List.append_nil] at hsplit
      exact absurd (congrArg List.length hsplit) h
  | cons c tail =>
      obtain rfl : c = sign := by
        have hhead := List.head?_dropWhile_not (· != sign) text
        rw [htail] at hhead
        simpa using hhead
      exact ⟨tail, by rw [← htail, hsplit]⟩

theorem succeeds_functionAt? (hs : s.IsMasked) (h : s.IsCut start) :
    Succeeds (fun found => ∀ entry ∈ found, s.EndsBehind start entry.2) (s.functionAt? start) := by
  unfold functionAt?
  refine (succeeds_codeFrom h).bind fun rest hrest => ?_
  obtain ⟨front, hcode, rfl⟩ := hrest
  extract_lets head opening
  split_ifs with hhead
  · exact succeeds_pure nofun
  · rw [not_or] at hhead
    obtain ⟨tail, hrest⟩ := eq_sign_of_takeWhile hhead.1
    have hopening : opening = byteLength (front ++ head) := (byteLength_append _ _).symm
    have hsplit : s.code = (front ++ head) ++ '(' :: tail := by rw [hcode, hrest, List.append_assoc]
    split
    · exact succeeds_pure nofun
    · rename_i closing hclose
      rw [hopening, hsplit] at hclose
      obtain ⟨inner, after, rfl, rfl⟩ := exists_of_matchingClose?_cons rfl hclose
      rw [hopening]
      refine (succeeds_of_eq (codeBetween_bracket hsplit rfl)).bind fun list _ => ?_
      refine (succeeds_of_eq (codeBetween_zero hsplit)).bind fun before _ => succeeds_pure ?_
      rintro _ ⟨⟩
      have hparenthesis : s.HasWord (byteLength (front ++ head ++ '(' :: inner)) [')'] :=
        ⟨front ++ head ++ '(' :: inner, after, by simp [hsplit], rfl⟩
      exact hs.endsBehind_sign hparenthesis (by decide) (by simp)

theorem byteLength_async : "async".length = byteLength "async".toList := by decide

theorem succeeds_bareArrowAt? (hs : s.IsMasked) (h : s.IsCut start) :
    Succeeds (fun found => ∀ entry ∈ found, s.EndsBehind start entry.2) (s.bareArrowAt? start) := by
  unfold bareArrowAt?
  refine (succeeds_hasAt h "async").bind fun isAsync hasync => ?_
  extract_lets next
  have hnext {name : Nat} (hname : start ≤ name ∧ s.IsCut name) :
      Succeeds (fun found => ∀ entry ∈ found, s.EndsBehind start entry.2) (next name) := by
    refine (succeeds_identifierAt? hname.2).bind fun found hfound => ?_
    cases found with
    | none => exact succeeds_pure nofun
    | some param =>
        obtain ⟨hne, hword⟩ := hfound param rfl
        refine (succeeds_skipBlanks hword.isCut_behind).bind fun arrow harrow => ?_
        refine (succeeds_hasAt harrow.2 "=>").bind fun isArrow hisArrow => ?_
        split_ifs with hsign
        · refine succeeds_pure ?_
          rintro _ ⟨⟩
          obtain ⟨front, rest, hcode, hfront⟩ := hisArrow hsign
          have hlength : 0 < byteLength param := by
            obtain ⟨c, param, rfl⟩ := List.exists_cons_of_ne_nil hne
            have hc := c.utf8Size_pos
            simp only [byteLength_cons]
            omega
          refine hs.endsBehind (c := '=') ⟨front, '>' :: rest, hcode, hfront⟩ (by decide) ?_
          have hle := hname.1
          have hle' := harrow.1
          omega
        · exact succeeds_pure nofun
  split_ifs with hprefix
  · have hbehind := (hasync hprefix).isCut_behind
    rw [← byteLength_async] at hbehind
    refine (succeeds_skipBlanks hbehind).bind fun name hname => hnext ⟨?_, hname.2⟩
    have hle := hname.1
    omega
  · exact (succeeds_of_eq rfl).bind fun name hname => hname ▸ hnext ⟨Nat.le_refl _, h⟩

theorem succeeds_anyFunctionAt? (hs : s.IsMasked) (h : s.IsCut start) :
    Succeeds (fun found => ∀ entry ∈ found, s.EndsBehind start entry.2) (s.anyFunctionAt? start) := by
  unfold anyFunctionAt?
  refine (succeeds_functionAt? hs h).bind fun found hfound => ?_
  cases found with
  | some entry => exact succeeds_pure hfound
  | none => exact succeeds_bareArrowAt? hs h

/-! ## Values -/

theorem exists_skipAsync (code : List Char) : ∃ front, code = front ++ skipAsync code := by
  rw [skipAsync]
  split
  · rename_i rest hrest
    rw [dropPrefix?] at hrest
    split_ifs at hrest with hprefix
    obtain ⟨tail, rfl⟩ := List.isPrefixOf_iff_prefix.mp hprefix
    obtain rfl : tail = rest := by simpa using hrest
    refine ⟨"async".toList ++ tail.takeWhile isBlank, ?_⟩
    rw [trimStart, List.append_assoc, List.takeWhile_append_dropWhile]
  · exact ⟨[], rfl⟩

theorem byteLength_class : "class".length = byteLength "class".toList := by decide

theorem succeeds_valueShapeAt (hs : s.IsMasked) (h : s.IsCut start) :
    Succeeds (fun shape => shape = .classType → s.HasWord start "class".toList) (s.valueShapeAt start) := by
  unfold valueShapeAt
  refine (succeeds_codeFrom h).bind fun rest hrest => ?_
  obtain ⟨front, hcode, rfl⟩ := hrest
  extract_lets value
  split_ifs with hfunction hclass hobject hparenthesis
  · exact succeeds_pure nofun
  · refine succeeds_pure fun _ => ?_
    obtain ⟨rest', rfl⟩ := List.isPrefixOf_iff_prefix.mp (Bool.and_eq_true_iff.mp hclass).1
    exact ⟨front, rest', hcode, rfl⟩
  · exact succeeds_pure nofun
  · obtain ⟨lead, hlead⟩ := exists_skipAsync rest
    obtain ⟨tail, hvalue⟩ : ∃ tail, value = '(' :: tail := by
      obtain ⟨c, tail, hvalue⟩ : ∃ c tail, value = c :: tail := List.exists_cons_of_ne_nil (by
        intro hnil
        simp [hnil] at hparenthesis)
      rw [hvalue] at hparenthesis
      obtain rfl : c = '(' := by simpa using hparenthesis
      exact ⟨tail, hvalue⟩
    have hopening : byteLength front + (byteLength rest - byteLength value) = byteLength (front ++ lead) := by
      have hlength : byteLength rest = byteLength lead + byteLength value := by
        rw [← byteLength_append]
        exact congrArg byteLength hlead
      rw [hlength, Nat.add_sub_cancel, byteLength_append]
    have hsplit : s.code = (front ++ lead) ++ '(' :: tail := by
      rw [hcode, hlead, List.append_assoc]
      exact congrArg (fun code => front ++ (lead ++ code)) hvalue
    rw [hopening]
    split
    · exact succeeds_pure nofun
    · rename_i closing hclose
      rw [hsplit] at hclose
      obtain ⟨inner, after, rfl, rfl⟩ := exists_of_matchingClose?_cons rfl hclose
      have hclosed : s.IsCut (byteLength (front ++ lead ++ '(' :: inner) + 1) :=
        @HasWord.isCut_behind _ _ [')'] ⟨front ++ lead ++ '(' :: inner, after, by simp [hsplit], rfl⟩
      refine (succeeds_skipBlanks hclosed).bind fun arrow harrow => ?_
      refine (succeeds_hasAt harrow.2 "=>").bind fun isArrow _ => succeeds_pure ?_
      split_ifs <;> exact nofun
  · refine (succeeds_bareArrowAt? hs h).bind fun found _ => succeeds_pure ?_
    split_ifs <;> exact nofun

/-! ## Classes -/

theorem succeeds_classShape (hs : s.IsMasked) {after : List Char} (h : s.code = front ++ '\x7b' :: (inner ++ after)) :
    Succeeds (fun _ => True) (s.classShape (byteLength front) (byteLength (front ++ '\x7b' :: inner))) := by
  refine (succeeds_of_eq (codeBetween_bracket h rfl)).bind fun body hbody => ?_
  subst hbody
  extract_lets members
  refine Succeeds.bind (P := fun _ => True) (succeeds_foldlM (fun member hmember found _ => ?_) trivial)
    fun constructor _ => succeeds_pure trivial
  obtain ⟨before, behind, rfl, hstop⟩ := exists_of_mem_publicMembers hmember
  dsimp only
  split_ifs
  · have hcut : s.IsCut (byteLength front + 1 + member.2) := by
      have hlength : byteLength front + 1 + member.2 = byteLength (front ++ '\x7b' :: before) := by
        rw [hstop, byteLength_append, byteLength_cons, ← Nat.add_assoc]
        rfl
      rw [hlength]
      exact @isCut_byteLength _ _ (behind ++ after) (by simp [h])
    exact (succeeds_functionAt? hs hcut).bind fun found _ => succeeds_pure trivial
  · exact succeeds_pure trivial

/-- A class is read off wherever its head ends. -/
theorem succeeds_classAt (hs : s.IsMasked) (hstart : s.HasSign start) (hhead : s.IsCut offset) (hlt : start < offset)
    (name : String) : Succeeds (fun found => found.symbol.IsSigned) (s.classAt start name offset) := by
  unfold classAt
  refine (succeeds_codeFrom hhead).bind fun rest hrest => ?_
  obtain ⟨front, hcode, rfl⟩ := hrest
  extract_lets body stop next
  have hnext (hstop : s.EndsBehind start stop) (shape : ClassShape) :
      Succeeds (fun found => found.symbol.IsSigned) (next shape) :=
    succeeds_pure (signature_ne hs hstart hstop)
  cases hbody : body with
  | none =>
      have hstop : stop = byteLength s.text := by simp only [stop, hbody]
      exact (succeeds_of_eq rfl).bind fun shape _ => hnext (hstop ▸ hs.endsBehind_length hstart) shape
  | some entry =>
      obtain ⟨width, hwidth, hclosing⟩ := Option.bind_eq_some_iff.mp hbody
      obtain ⟨closing, hclose, rfl⟩ := Option.map_eq_some_iff.mp hclosing
      have hstop : stop = byteLength front + width := by simp only [stop, hbody]
      obtain ⟨head, c, tail, rfl, rfl, hc, -⟩ := exists_of_findOffset? hwidth
      obtain rfl : c = '\x7b' := by simpa using hc
      have hsplit : s.code = (front ++ head) ++ '\x7b' :: tail := by rw [hcode, List.append_assoc]
      rw [← byteLength_append] at hclose hstop ⊢
      rw [hsplit] at hclose
      obtain ⟨inner, after, rfl, rfl⟩ := exists_of_matchingClose? hclose
      have hends : s.EndsBehind start (byteLength (front ++ head)) := by
        refine hs.endsBehind ⟨front ++ head, inner ++ '\x7d' :: after, hsplit, rfl⟩ (by decide) ?_
        rw [byteLength_append]
        omega
      exact (succeeds_classShape hs hsplit).bind fun shape _ => hnext (hstop ▸ hends) shape

end Source

/-! ## Values of any other kind -/

/-- No parameter with an arrow behind it begins the code. -/
def NoArrow (code : List Char) : Prop :=
  ∀ param rest, Source.leadingIdentifier? code = some param → code = param ++ rest → ¬ "=>".toList <+: rest.dropWhile isBlank

namespace Source

variable {s : Source} {front code rest blanks tail : List Char} {word : String}

theorem skipBlanks_byteLength (h : s.code = front ++ rest) :
    s.skipBlanks (byteLength front) = .ok (byteLength (front ++ rest.takeWhile isBlank)) := by
  rw [skipBlanks, codeFrom_byteLength h, byteLength_append]
  rfl

/-- One blank before a sign is passed over. -/
theorem skipBlanks_blank {c : Char} (hc : isBlank c = false) (h : s.code = front ++ ' ' :: c :: rest) :
    s.skipBlanks (byteLength front) = .ok (byteLength (front ++ [' '])) := by
  have hgap : ∀ d ∈ [' '], isBlank d = true := by decide
  have htake : ([' '] ++ c :: rest).takeWhile isBlank = [' '] := takeWhile_append hgap (by simpa using hc)
  rw [List.singleton_append] at htake
  rw [skipBlanks_byteLength h, htake]

theorem hasAt_byteLength (h : s.code = front ++ rest) (word : String) :
    s.hasAt (byteLength front) word = .ok (word.toList.isPrefixOf rest) := by
  rw [hasAt, codeFrom_byteLength h]
  rfl

theorem identifierAt?_byteLength (h : s.code = front ++ rest) :
    s.identifierAt? (byteLength front) = .ok (leadingIdentifier? rest) := by
  rw [identifierAt?, codeFrom_byteLength h]
  rfl

/-- What stands behind blanks. -/
theorem code_behind_blanks (h : s.code = front ++ rest) :
    s.code = (front ++ rest.takeWhile isBlank) ++ rest.dropWhile isBlank := by
  rw [h, List.append_assoc, List.takeWhile_append_dropWhile]

theorem bareArrowAt?_of_noArrow {start : Nat} {isAsync : Bool} (hasync : s.hasAt start "async" = .ok isAsync)
    (hname : (if isAsync then s.skipBlanks (start + "async".length) else pure start) = .ok (byteLength front))
    (h : s.code = front ++ code) (harrow : NoArrow code) : s.bareArrowAt? start = .ok none := by
  unfold bareArrowAt?
  refine bind_eq_ok_iff.mpr ⟨isAsync, hasync, ?_⟩
  extract_lets next
  have hnext : next (byteLength front) = .ok none := by
    refine bind_eq_ok_iff.mpr ⟨leadingIdentifier? code, identifierAt?_byteLength h, ?_⟩
    cases hparam : leadingIdentifier? code with
    | none => rfl
    | some param =>
        obtain ⟨-, rest, rfl⟩ := exists_of_leadingIdentifier? hparam
        have hcode : s.code = (front ++ param) ++ rest := by rw [h, List.append_assoc]
        have hno : "=>".toList.isPrefixOf (rest.dropWhile isBlank) = false :=
          Bool.eq_false_iff.mpr fun hprefix => harrow param rest hparam rfl (List.isPrefixOf_iff_prefix.mp hprefix)
        refine bind_eq_ok_iff.mpr ⟨byteLength (front ++ param ++ rest.takeWhile isBlank), ?_,
          bind_eq_ok_iff.mpr ⟨false, ?_, rfl⟩⟩
        · rw [← byteLength_append, skipBlanks_byteLength hcode]
        · rw [hasAt_byteLength (code_behind_blanks hcode), hno]
  cases isAsync with
  | true => exact bind_eq_ok_iff.mpr ⟨byteLength front, hname, hnext⟩
  | false => exact bind_eq_ok_iff.mpr ⟨byteLength front, hname, hnext⟩

/-- The code of a value that is neither a function, nor a class, nor an object. -/
structure IsOther (code : List Char) : Prop where
  no_function : ¬ "function".toList <+: skipAsync code
  no_class : ¬ "class".toList <+: code
  no_object : code.head? ≠ some '\x7b'
  no_parameters : (skipAsync code).head? ≠ some '('
  no_arrow : NoArrow (skipAsync code)

theorem skipAsync_eq (code : List Char) : skipAsync code = code ∧ "async".toList.isPrefixOf code = false ∨
    ∃ tail, code = "async".toList ++ tail ∧ skipAsync code = tail.dropWhile isBlank := by
  by_cases h : "async".toList.isPrefixOf code = true
  · obtain ⟨tail, rfl⟩ := List.isPrefixOf_iff_prefix.mp h
    refine .inr ⟨tail, rfl, ?_⟩
    rw [skipAsync, dropPrefix?_append]
    rfl
  · have hnone : dropPrefix? "async".toList code = none := by rw [dropPrefix?, if_neg h]
    refine .inl ⟨?_, Bool.eq_false_iff.mpr h⟩
    rw [skipAsync, hnone]

theorem bareArrowAt?_eq_none (harrow : NoArrow (skipAsync code)) (h : s.code = front ++ code) :
    s.bareArrowAt? (byteLength front) = .ok none := by
  have hasync := hasAt_byteLength h "async"
  rcases skipAsync_eq code with ⟨heq, hno⟩ | ⟨tail, rfl, heq⟩
  · rw [heq] at harrow
    rw [hno] at hasync
    exact bareArrowAt?_of_noArrow hasync rfl h harrow
  · have hcode : s.code = (front ++ "async".toList) ++ tail := by rw [h, List.append_assoc]
    have hlength : byteLength front + "async".length = byteLength (front ++ "async".toList) := by
      rw [byteLength_append]
      rfl
    rw [heq] at harrow
    rw [List.isPrefixOf_iff_prefix.mpr (List.prefix_append _ _)] at hasync
    refine bareArrowAt?_of_noArrow hasync ?_ (code_behind_blanks hcode) harrow
    rw [if_pos rfl, hlength, skipBlanks_byteLength hcode]

theorem IsOther.valueShapeAt (hother : IsOther code) (h : s.code = front ++ code) :
    s.valueShapeAt (byteLength front) = .ok .other := by
  have hfunction : "function".toList.isPrefixOf (skipAsync code) = false :=
    Bool.eq_false_iff.mpr fun hprefix => hother.no_function (List.isPrefixOf_iff_prefix.mp hprefix)
  have hclass : "class".toList.isPrefixOf code = false :=
    Bool.eq_false_iff.mpr fun hprefix => hother.no_class (List.isPrefixOf_iff_prefix.mp hprefix)
  unfold Source.valueShapeAt
  refine bind_eq_ok_iff.mpr ⟨code, codeFrom_byteLength h, ?_⟩
  dsimp only
  rw [hfunction, hclass, if_neg Bool.false_ne_true, Bool.false_and, if_neg Bool.false_ne_true, if_neg hother.no_object,
    if_neg hother.no_parameters]
  exact bind_eq_ok_iff.mpr ⟨none, bareArrowAt?_eq_none hother.no_arrow h, rfl⟩

end Source

end Script

end ApiImpact

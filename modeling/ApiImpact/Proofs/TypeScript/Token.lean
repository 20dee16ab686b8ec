import ApiImpact.Proofs.Text.Blank
import ApiImpact.Proofs.TypeScript.Reads
import ApiImpact.Text.Offset

/-!
# Tokens

What stands ahead is a token and the text behind it. A reader of the token takes it, and stops where the white
space behind it ends.
-/

namespace ApiImpact.TypeScript

open Text

variable {c : Char} {text token rest word : List Char} {offset : Nat} {afterBreak : Bool} {label : Label}

/-! ## White space -/

/-- The place where the white space and comments end that `text` begins with. -/
def Spot.behind (text : List Char) (offset : Nat) : Spot where
  ahead := text.drop (triviaRun (text.length + 1) text).1
  offset := offset + byteLength (text.take (triviaRun (text.length + 1) text).1)
  afterBreak := (triviaRun (text.length + 1) text).2

/-- No white space and no comment stands at the beginning of the text. -/
def StartsToken (text : List Char) : Prop :=
  ∀ fuel, triviaRun fuel text = (0, false)

theorem startsToken_nil : StartsToken [] := by
  intro fuel
  cases fuel <;> rfl

theorem triviaRun_cons (hslash : c ≠ '/') (fuel : Nat) : triviaRun (fuel + 1) (c :: rest) =
    if isSpace c || isLineBreak c then (1 + (triviaRun fuel rest).1, (triviaRun fuel rest).2 || isLineBreak c)
    else (0, false) := by
  rw [triviaRun.eq_def]
  dsimp only
  split
  · contradiction
  · rename_i he
    cases he
    exact absurd rfl hslash
  · rename_i he
    cases he
    exact absurd rfl hslash
  · rename_i he
    cases he
    rfl

theorem startsToken_cons (h : isSpace c = false) (hbreak : isLineBreak c = false) (hslash : c ≠ '/') :
    StartsToken (c :: rest) := by
  intro fuel
  cases fuel with
  | zero => rfl
  | succ fuel => rw [triviaRun_cons hslash, if_neg (by simp [h, hbreak])]

theorem behind_of_startsToken (h : StartsToken text) (offset : Nat) : Spot.behind text offset = ⟨text, offset, false⟩ := by
  simp [Spot.behind, h _]

theorem behind_cons (h : (isSpace c || isLineBreak c) = true) (hslash : c ≠ '/') (text : List Char) (offset : Nat) :
    Spot.behind (c :: text) offset = { Spot.behind text (offset + c.utf8Size) with
      afterBreak := (Spot.behind text (offset + c.utf8Size)).afterBreak || isLineBreak c } := by
  have hrun : triviaRun ((c :: text).length + 1) (c :: text) =
      (1 + (triviaRun (text.length + 1) text).1, (triviaRun (text.length + 1) text).2 || isLineBreak c) := by
    rw [triviaRun_cons hslash, if_pos h]
    rfl
  simp only [Spot.behind, hrun, Nat.add_comm 1, List.drop_succ_cons, List.take_succ_cons, byteLength_cons,
    Nat.add_assoc]

/-- A blank parts tokens. -/
theorem behind_blank (h : StartsToken text) (offset : Nat) : Spot.behind (' ' :: text) offset = ⟨text, offset + 1, false⟩ := by
  rw [behind_cons (by decide) (by decide), behind_of_startsToken h]
  rfl

theorem behind_newline (h : StartsToken text) (offset : Nat) : Spot.behind ('\n' :: text) offset = ⟨text, offset + 1, true⟩ := by
  rw [behind_cons (by decide) (by decide), behind_of_startsToken h]
  rfl

/-! ## Taking a token -/

theorem advance_eq (cursor : Cursor) (length : Nat) : cursor.advance length =
    { cursor with
      ahead := cursor.ahead.drop length
      offset := cursor.offset + byteLength (cursor.ahead.take length) } := by
  induction length generalizing cursor with
  | zero => simp [Cursor.advance]
  | succ length ih =>
      obtain ⟨ahead, offset, afterBreak, elements, furthest⟩ := cursor
      cases ahead with
      | nil => simp [Cursor.advance]
      | cons c ahead => simp [Cursor.advance, ih, Nat.add_assoc]

theorem skipTrivia_eq (text : List Char) (offset furthest : Nat) (afterBreak : Bool) :
    Cursor.skipTrivia ⟨text, offset, afterBreak, false, furthest⟩ = (Spot.behind text offset).cursor furthest := by
  simp [Cursor.skipTrivia, advance_eq, Spot.behind, Spot.cursor]

/-- The token of `label` that begins at `offset`. -/
def Tree.ofToken (label : Label) (offset : Nat) (token : List Char) : Tree :=
  .mk label none offset (offset + byteLength token) []

namespace Reading

theorem reads_take (label : Label) (hne : token ≠ []) : Reads (take label token.length) ⟨token ++ rest, offset, afterBreak⟩
    (.ofToken label offset token) (.behind rest (offset + byteLength token)) := by
  have hlength : (token.length != 0) = true := by simpa using hne
  refine (reads_check hlength _).bind fun furthest => ⟨furthest, ?_⟩
  have hadvance : (Spot.cursor ⟨token ++ rest, offset, afterBreak⟩ furthest).advance token.length =
      ⟨rest, offset + byteLength token, afterBreak, false, furthest⟩ := by
    simp [advance_eq, Spot.cursor]
  have hrun : ∀ cursor : Cursor, (do
      let cursor ← get
      let after := cursor.advance token.length
      set after.skipTrivia
      return Tree.mk label none cursor.offset after.offset [] : Reading Tree) cursor =
        .ok (.mk label none cursor.offset (cursor.advance token.length).offset [])
          (cursor.advance token.length).skipTrivia := fun _ => rfl
  rw [hrun, hadvance, skipTrivia_eq]
  rfl

/-! ## Words -/

/-- `word` is an identifier or a keyword. -/
structure IsWord (word : List Char) : Prop where
  ne_nil : word ≠ []
  parts : ∀ c ∈ word, isIdentifierPart c = true
  start : ∀ c ∈ word.head?, c.isDigit = false

instance (word : List Char) : Decidable (IsWord word) :=
  decidable_of_iff (word ≠ [] ∧ (∀ c ∈ word, isIdentifierPart c = true) ∧ ∀ c ∈ word.head?, c.isDigit = false)
    ⟨fun h => ⟨h.1, h.2.1, h.2.2⟩, fun h => ⟨h.ne_nil, h.parts, h.start⟩⟩

/-- No word goes on in `rest`. -/
def EndsWord (rest : List Char) : Prop :=
  ∀ c ∈ rest.head?, isIdentifierPart c = false ∧ c ≠ '\\'

theorem endsWord_cons (h : isIdentifierPart c = false) (hslash : c ≠ '\\') : EndsWord (c :: rest) := by
  intro d hd
  obtain rfl := Option.some.inj hd
  exact ⟨h, hslash⟩

theorem endsWord_blank (rest : List Char) : EndsWord (' ' :: rest) :=
  endsWord_cons (by decide) (by decide)

theorem endsWord_nil : EndsWord [] :=
  fun _ hd => absurd hd (by simp)

theorem unicodeEscapeLength_eq_zero (h : c ≠ '\\') : unicodeEscapeLength (c :: rest) = 0 := by
  rw [unicodeEscapeLength]
  · rintro rest' he
    exact absurd (List.cons.inj he).1 h
  · rintro _ _ _ _ _ he
    exact absurd (List.cons.inj he).1 h

theorem identifierRun_append {fuel : Nat} (h : ∀ c ∈ word, isIdentifierPart c = true) (hrest : EndsWord rest)
    (hfuel : word.length ≤ fuel) : identifierRun fuel (word ++ rest) = word.length := by
  induction word generalizing fuel with
  | nil =>
      cases fuel with
      | zero => rfl
      | succ fuel =>
          cases rest with
          | nil => rfl
          | cons c rest =>
              obtain ⟨hpart, hslash⟩ := hrest c rfl
              simp [identifierRun, hpart, unicodeEscapeLength_eq_zero hslash]
  | cons c word ih =>
      cases fuel with
      | zero => simp at hfuel
      | succ fuel =>
          rw [List.cons_append, identifierRun, if_pos (h c List.mem_cons_self),
            ih (fun d hd => h d (List.mem_cons_of_mem _ hd)) (by simpa using hfuel), List.length_cons, Nat.add_comm]

theorem wordLength_append (h : IsWord word) (hrest : EndsWord rest) : wordLength (word ++ rest) = word.length := by
  obtain ⟨c, word, rfl⟩ := List.exists_cons_of_ne_nil h.ne_nil
  have hrun : identifierRun ((word ++ rest).length + 1) (c :: word ++ rest) = (c :: word).length :=
    identifierRun_append h.parts hrest (by simp)
  rw [List.cons_append, wordLength, if_neg (by simp [h.start c rfl])]
  exact hrun

theorem wordLength_eq_zero (hrest : EndsWord rest) : wordLength rest = 0 := by
  cases rest with
  | nil => rfl
  | cons c rest =>
      rw [wordLength]
      split_ifs
      · rfl
      · have hnone : ∀ d ∈ ([] : List Char), isIdentifierPart d = true := by simp
        exact identifierRun_append hnone hrest (Nat.zero_le _)

theorem reads_peekWord (h : IsWord word) (hrest : EndsWord rest) :
    Reads peekWord ⟨word ++ rest, offset, afterBreak⟩ (.ofList word) ⟨word ++ rest, offset, afterBreak⟩ := by
  have hword : (word ++ rest).take (wordLength (word ++ rest)) = word := by simp [wordLength_append h hrest]
  refine (reads_ahead _).bind ?_
  rw [hword]
  exact reads_pure _ _

/-- Where no word begins, the word ahead is empty. -/
theorem reads_peekWord_empty (hrest : EndsWord rest) :
    Reads peekWord ⟨rest, offset, afterBreak⟩ "" ⟨rest, offset, afterBreak⟩ := by
  refine (reads_ahead _).bind ?_
  rw [wordLength_eq_zero hrest]
  exact reads_pure _ _

theorem stuck_word {text : String} (h : IsWord word) (hrest : EndsWord rest) (hne : String.ofList word ≠ text) :
    Stuck (Reading.word text) ⟨word ++ rest, offset, afterBreak⟩ :=
  (reads_peekWord h hrest).bind_stuck (stuck_check (by simpa using hne) _).bind

theorem stuck_anyWord (kind : Kind) (hrest : EndsWord rest) : Stuck (anyWord kind) ⟨rest, offset, afterBreak⟩ := by
  refine (reads_ahead _).bind_stuck ?_
  rw [wordLength_eq_zero hrest]
  exact (stuck_check rfl _).bind

/-- The signs that are no beginning of a longer one. -/
def loneSigns : List Char := [',', ';', '(', ')', '\x7b', '\x7d']

theorem signAt_of_find?_eq_none (h : longSigns.find? (·.isPrefixOf (c :: rest)) = none)
    (hmark : c ≠ '?') (hc : punctuation.contains c = true) : signAt (c :: rest) = [c] := by
  rw [signAt]
  · simpa [h] using hc
  · rintro d rest' he
    exact absurd (List.cons.inj he).1 hmark

theorem signAt_of_mem_loneSigns (h : c ∈ loneSigns) : signAt (c :: rest) = [c] := by
  have hlong : ∀ d ∈ loneSigns, ∀ sign ∈ longSigns, sign.head? ≠ some d := by decide
  have hmark : ∀ d ∈ loneSigns, d ≠ '?' ∧ punctuation.contains d = true := by decide
  refine signAt_of_find?_eq_none ?_ (hmark c h).1 (hmark c h).2
  refine List.find?_eq_none.mpr fun sign hsign hprefix => hlong c h sign hsign ?_
  obtain ⟨more, hmore⟩ := List.isPrefixOf_iff_prefix.mp hprefix
  cases sign with
  | nil => exact absurd hsign (by decide)
  | cons d sign => rw [(List.cons.inj hmore).1]; rfl

theorem reads_sign {text : String} (htext : text.toList = [c]) (h : signAt (c :: rest) = [c]) :
    Reads (sign text) ⟨c :: rest, offset, afterBreak⟩ (.ofToken (.token text) offset [c])
      (.behind rest (offset + c.utf8Size)) := by
  have hsign : Reads peekSign ⟨c :: rest, offset, afterBreak⟩ text ⟨c :: rest, offset, afterBreak⟩ := by
    refine (reads_ahead _).bind ?_
    rw [h, ← htext, String.ofList_toList]
    exact reads_pure _ _
  refine hsign.bind ((reads_check (by simp) _).bind ?_)
  have hlength : text.length = [c].length := by rw [← String.length_toList, htext]
  rw [hlength]
  have htake : Reads (take (.token text) [c].length) ⟨[c] ++ rest, offset, afterBreak⟩ (.ofToken (.token text) offset [c])
      (.behind rest (offset + byteLength [c])) := reads_take _ (List.cons_ne_nil _ _)
  exact htake

theorem stuck_sign {text : String} (h : signAt rest ≠ text.toList) : Stuck (sign text) ⟨rest, offset, afterBreak⟩ := by
  have hsign : Reads peekSign ⟨rest, offset, afterBreak⟩ (.ofList (signAt rest)) ⟨rest, offset, afterBreak⟩ :=
    (reads_ahead _).bind (reads_pure _ _)
  refine hsign.bind_stuck (stuck_check ?_ _).bind
  rw [beq_eq_false_iff_ne]
  exact fun he => h (by rw [← he, String.toList_ofList])

theorem stringLength?_eq_none (h : ∀ c ∈ rest.head?, c ≠ '\'' ∧ c ≠ '"') : stringLength? rest = none := by
  unfold stringLength?
  split
  · exact absurd rfl (h '"' rfl).2
  · exact absurd rfl (h '\'' rfl).1
  · rfl

theorem stuck_string (h : ∀ c ∈ rest.head?, c ≠ '\'' ∧ c ≠ '"') : Stuck string ⟨rest, offset, afterBreak⟩ := by
  refine (reads_ahead _).bind_stuck ?_
  rw [stringLength?_eq_none h]
  exact stuck_failure _

/-! ## Lists -/

section Lists

variable {reader : Reading Tree} {trees : Reading (List Tree)} {s s' s'' : Spot} {tree : Tree} {runs : List (List Tree)}

variable {opening closing : String}

theorem reads_between {first last : Tree} {ts : List Tree} {after : Spot}
    (hopening : Reads (sign opening) s first s') (hinner : Reads trees s' ts s'')
    (hclosing : Reads (sign closing) s'' last after) :
    Reads (between opening trees closing) s (first :: ts ++ [last]) after :=
  hopening.bind (hinner.bind (hclosing.bind (reads_pure _ _)))

theorem stuck_between (h : Stuck (sign opening) s) : Stuck (between opening trees closing) s :=
  h.bind

end Lists

/-! ## The end of a statement -/

end Reading

end ApiImpact.TypeScript

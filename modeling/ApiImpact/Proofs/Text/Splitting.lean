import ApiImpact.Proofs.Text.Pieces
import Mathlib.Data.List.Chain

/-!
# Cutting a text at its commas

A text is cut at the commas in front of which as many brackets are closed as opened. The pieces are what stands between
the cuts, in the order of the text, with one comma between one piece and the next. So a text is put together again from
its pieces, those of blanks alone with the others.
-/

namespace ApiImpact.Text

variable {previous c : Char} {depth : Int} {start here : Nat} {earlier piece front back rest text : List Char}
  {entry entry' : Nat × List Char}

/-! ## Running depth -/

/-- How many brackets are open behind a text. The sign of an arrow closes none. -/
def runningDepth (text : List Char) : Int :=
  text.countP (· ∈ ['(', '\x7b', '[', '<']) - text.countP (· ∈ [')', '\x7d', ']', '>']) +
    (text.zip text.tail).count ('=', '>')

theorem depthStep_eq (previous c : Char) : depthStep previous c =
    [c].countP (· ∈ ['(', '\x7b', '[', '<']) - [c].countP (· ∈ [')', '\x7d', ']', '>']) + [(previous, c)].count ('=', '>') := by
  by_cases hbracket : c ∈ ['(', '\x7b', '[', '<', ')', '\x7d', ']', '>']
  · simp only [List.mem_cons, List.not_mem_nil, or_false] at hbracket
    rcases hbracket with rfl | rfl | rfl | rfl | rfl | rfl | rfl | rfl <;> simp [depthStep]
    split_ifs <;> simp_all
  · simp only [List.mem_cons, List.not_mem_nil, or_false, not_or] at hbracket
    simp [depthStep, hbracket]

theorem depthBehind_eq (previous : Char) (text : List Char) : depthBehind previous text =
    text.countP (· ∈ ['(', '\x7b', '[', '<']) - text.countP (· ∈ [')', '\x7d', ']', '>']) +
      ((previous :: text).zip text).count ('=', '>') := by
  induction text generalizing previous with
  | nil => rfl
  | cons c text ih =>
      have hcount (brackets : List Char) :
          (c :: text).countP (· ∈ brackets) = [c].countP (· ∈ brackets) + text.countP (· ∈ brackets) :=
        @List.countP_append _ _ [c] text
      have harrow : ((previous, c) :: (c :: text).zip text).count ('=', '>') =
          [(previous, c)].count ('=', '>') + ((c :: text).zip text).count ('=', '>') := by
        rw [← List.count_append, List.singleton_append]
      rw [depthBehind_cons, ih, depthStep_eq, List.zip_cons_cons, hcount, hcount, harrow]
      omega

/-- The depth that the cuts are made by is the running depth of what was read. -/
theorem depthBehind_eq_runningDepth (text : List Char) : depthBehind ' ' text = runningDepth text := by
  rw [depthBehind_eq, runningDepth]
  cases text with
  | nil => rfl
  | cons c text =>
      have hblank : (' ', c) ≠ ('=', '>') := by simp
      rw [List.zip_cons_cons, List.count_cons_of_ne hblank, List.tail_cons]

theorem runningDepth_concat (text : List Char) (c : Char) :
    runningDepth (text ++ [c]) = runningDepth text + depthStep (text.getLastD ' ') c := by
  rw [← depthBehind_eq_runningDepth, ← depthBehind_eq_runningDepth, depthBehind_append, depthBehind_cons, depthBehind_nil, Int.add_zero]

/-! ## Cuts -/

/-- What stands between two cuts of a text: a text is cut at the commas of running depth zero, and it has its two ends. -/
structure IsBetweenCuts (front piece back : List Char) : Prop where
  begins : front = [] ∨ ∃ front', front = front' ++ [','] ∧ runningDepth front' = 0
  uncut : ∀ more less, piece = more ++ ',' :: less → runningDepth (front ++ more) ≠ 0
  ends : back = [] ∨ ∃ back', back = ',' :: back' ∧ runningDepth (front ++ piece) = 0

/-- A piece of a text stands at its offset. -/
def IsPieceAt (text : List Char) (entry : Nat × List Char) : Prop :=
  ∃ front back, text = front ++ (entry.2 ++ back) ∧ entry.1 = byteLength front ∧ IsBetweenCuts front entry.2 back

theorem IsBetweenCuts.front_eq {front' piece' back' : List Char} (h : IsBetweenCuts front piece back)
    (h' : IsBetweenCuts front' piece' back')
    (hsame : front ++ (piece ++ back) = front' ++ (piece' ++ back')) (hle : byteLength front ≤ byteLength front')
    (hle' : byteLength front' ≤ byteLength (front ++ piece)) : front' = front := by
  obtain ⟨more, rfl, hmore, -⟩ := exists_slice? rfl hsame hle
  rw [byteLength_append, byteLength_append, Nat.add_le_add_iff_left] at hle'
  obtain ⟨less, rfl, -, -⟩ := exists_slice? hmore rfl hle'
  rcases h'.begins with hnil | ⟨front', hcomma, hdepth⟩
  · rw [(List.append_eq_nil_iff.mp hnil).2, List.append_nil]
  · cases more using List.reverseRecOn with
    | nil => rw [List.append_nil]
    | append_singleton more c =>
        rw [← List.append_assoc] at hcomma
        obtain ⟨rfl, hc⟩ := List.append_inj' hcomma rfl
        obtain rfl := List.singleton_inj.mp hc
        exact absurd hdepth (h.uncut more less (by simp))

theorem IsBetweenCuts.not_longer (h : IsBetweenCuts front piece back) {piece' back' : List Char}
    (h' : IsBetweenCuts front piece' back') (hsame : piece ++ back = piece' ++ back') : byteLength piece' ≤ byteLength piece := by
  by_contra hlt
  obtain ⟨more, rfl, rfl, -⟩ := exists_slice? rfl hsame (Nat.le_of_not_le hlt)
  rcases h.ends with hnil | ⟨back, hcomma, hdepth⟩
  · simp [(List.append_eq_nil_iff.mp hnil).1] at hlt
  · cases more with
    | nil => simp at hlt
    | cons c more =>
        obtain ⟨rfl, -⟩ := List.cons.inj hcomma
        exact h'.uncut piece more rfl hdepth

/-- Two pieces of a text are the same if one begins in the other or behind its end. -/
theorem IsPieceAt.eq_of_le (h : IsPieceAt text entry) (h' : IsPieceAt text entry') (hle : entry.1 ≤ entry'.1)
    (hle' : entry'.1 ≤ entry.1 + byteLength entry.2) : entry' = entry := by
  obtain ⟨start, piece⟩ := entry
  obtain ⟨start', piece'⟩ := entry'
  obtain ⟨front, back, rfl, rfl, hcuts⟩ := h
  obtain ⟨front', back', hsame, rfl, hcuts'⟩ := h'
  rw [← byteLength_append] at hle'
  obtain rfl := hcuts.front_eq hcuts' hsame hle hle'
  have hrest := List.append_cancel_left hsame
  have hlength := Nat.le_antisymm (hcuts'.not_longer hcuts hrest.symm) (hcuts.not_longer hcuts' hrest)
  obtain rfl : piece = piece' := (append_inj_of_byteLength hrest hlength).1
  rfl

/-! ## The scan -/

/-- Where the scan stands: what it remembers of the text that it read, `earlier` up to the last cut and `piece` from
there on, latest character first. -/
structure Reads (earlier piece : List Char) (depth : Int) (previous : Char) (start here : Nat) : Prop where
  depth_eq : depth = runningDepth (earlier ++ piece.reverse)
  previous_eq : previous = (earlier ++ piece.reverse).getLastD ' '
  start_eq : start = byteLength earlier
  here_eq : here = byteLength (earlier ++ piece.reverse)
  begins : earlier = [] ∨ ∃ front, earlier = front ++ [','] ∧ runningDepth front = 0
  uncut : ∀ more less, piece.reverse = more ++ ',' :: less → runningDepth (earlier ++ more) ≠ 0

theorem reads_nothing : Reads [] [] 0 ' ' 0 0 where
  depth_eq := rfl
  previous_eq := rfl
  start_eq := rfl
  here_eq := rfl
  begins := .inl rfl
  uncut := by simp

/-- Behind a cut a new piece begins. -/
theorem Reads.cut (h : Reads earlier piece depth previous start here) (hdepth : depth = 0) :
    Reads (earlier ++ piece.reverse ++ [',']) [] 0 ',' (here + ','.utf8Size) (here + ','.utf8Size) where
  depth_eq := by
    rw [List.reverse_nil, List.append_nil, runningDepth_concat, ← h.depth_eq, hdepth]
    rfl
  previous_eq := by simp
  start_eq := by rw [byteLength_append _ [','], h.here_eq]; rfl
  here_eq := by rw [List.reverse_nil, List.append_nil, byteLength_append _ [','], h.here_eq]; rfl
  begins := .inr ⟨_, rfl, by rw [← h.depth_eq, hdepth]⟩
  uncut := by simp

/-- Any other character goes on with the piece. -/
theorem Reads.more (h : Reads earlier piece depth previous start here) (hcut : ¬ (c = ',' ∧ depth = 0)) :
    Reads earlier (c :: piece) (depth + depthStep previous c) c start (here + c.utf8Size) where
  depth_eq := by rw [List.reverse_cons, ← List.append_assoc, runningDepth_concat, h.depth_eq, h.previous_eq]
  previous_eq := by rw [List.reverse_cons, ← List.append_assoc, List.getLastD_concat]
  start_eq := h.start_eq
  here_eq := by rw [List.reverse_cons, ← List.append_assoc, byteLength_append _ [c], h.here_eq]; rfl
  begins := h.begins
  uncut := fun more less hsplit => by
    rw [List.reverse_cons] at hsplit
    cases less using List.reverseRecOn with
    | nil =>
        obtain ⟨rfl, hc⟩ := List.append_inj' hsplit rfl
        obtain rfl := List.singleton_inj.mp hc
        rw [← h.depth_eq]
        exact fun hdepth => hcut ⟨rfl, hdepth⟩
    | append_singleton less d =>
        rw [← List.cons_append, ← List.append_assoc] at hsplit
        exact h.uncut more less (List.append_inj' hsplit rfl).1

/-- The piece that was read stands between cuts as soon as the text is cut or ends. -/
theorem Reads.isPieceAt (h : Reads earlier piece depth previous start here)
    (hrest : rest = [] ∨ ∃ back, rest = ',' :: back ∧ depth = 0) :
    IsPieceAt (earlier ++ (piece.reverse ++ rest)) (start, piece.reverse) := by
  refine ⟨earlier, rest, rfl, h.start_eq, h.begins, h.uncut, hrest.imp_right ?_⟩
  rintro ⟨back, hback, hdepth⟩
  exact ⟨back, hback, h.depth_eq ▸ hdepth⟩

theorem IsPieceAt.le_byteLength (h : IsPieceAt text entry) : entry.1 ≤ byteLength text := by
  obtain ⟨front, back, rfl, hfront, -⟩ := h
  rw [hfront, byteLength_append]
  exact Nat.le_add_right _ _

/-- The scan makes the pieces from the last cut on. -/
theorem Reads.mem_piecesFrom_iff (h : Reads earlier piece depth previous start here) :
    entry ∈ piecesFrom ',' depth previous start piece here text ↔
      IsPieceAt (earlier ++ (piece.reverse ++ text)) entry ∧ start ≤ entry.1 := by
  induction text generalizing earlier piece depth previous start here with
  | nil =>
      have hpiece := h.isPieceAt (.inl rfl)
      rw [piecesFrom, List.mem_singleton]
      constructor
      · rintro rfl
        exact ⟨hpiece, Nat.le_refl _⟩
      · rintro ⟨hentry, hle⟩
        refine hpiece.eq_of_le hentry hle (Nat.le_trans hentry.le_byteLength (Nat.le_of_eq ?_))
        rw [List.append_nil, byteLength_append, h.start_eq]
  | cons c text ih =>
      rw [piecesFrom]
      split_ifs with hcut
      · obtain ⟨rfl, hdepth⟩ := hcut
        have hpiece := h.isPieceAt (.inr ⟨text, rfl, hdepth⟩)
        have hhere : here = start + byteLength piece.reverse := by rw [h.here_eq, h.start_eq, byteLength_append]
        have hsplit : earlier ++ piece.reverse ++ [','] ++ ([].reverse ++ text) =
            earlier ++ (piece.reverse ++ ',' :: text) := by simp
        dsimp only
        rw [List.mem_cons, hdepth, ih (h.cut hdepth), hsplit]
        constructor
        · rintro (rfl | ⟨hentry, hle⟩)
          · exact ⟨hpiece, Nat.le_refl _⟩
          · exact ⟨hentry, by omega⟩
        · rintro ⟨hentry, hle⟩
          by_cases hbefore : entry.1 ≤ here
          · exact .inl (hpiece.eq_of_le hentry hle (hhere ▸ hbefore))
          · exact .inr ⟨hentry, Nat.lt_of_not_le hbefore⟩
      · have hsplit : earlier ++ ((c :: piece).reverse ++ text) = earlier ++ (piece.reverse ++ c :: text) := by simp
        rw [ih (h.more hcut), hsplit]

theorem mem_piecesOf_iff : entry ∈ piecesOf ',' text ↔ IsPieceAt text entry := by
  rw [piecesOf, reads_nothing.mem_piecesFrom_iff]
  exact and_iff_left (Nat.zero_le _)

/-! ## Pieces in a row -/

/-- The second piece begins behind the comma at the end of the first one. -/
def Follows (entry entry' : Nat × List Char) : Prop := entry'.1 = entry.1 + byteLength entry.2 + ','.utf8Size

theorem isChain_piecesFrom (hhere : here = start + byteLength piece.reverse) :
    (piecesFrom ',' depth previous start piece here text).IsChain Follows := by
  induction text generalizing depth previous start piece here with
  | nil => exact .singleton _
  | cons c text ih =>
      rw [piecesFrom]
      split_ifs with hcut
      · obtain ⟨rfl, -⟩ := hcut
        have hrest := @ih ',' depth (here + ','.utf8Size) (here + ','.utf8Size) [] rfl
        obtain ⟨more, entries, hmore⟩ := exists_piecesFrom ',' depth ',' (here + ','.utf8Size) [] (here + ','.utf8Size) text
        dsimp only
        rw [hmore] at hrest ⊢
        exact List.isChain_cons_cons.mpr ⟨by rw [Follows, hhere], hrest⟩
      · refine ih ?_
        rw [hhere, List.reverse_cons, byteLength_append _ [c], Nat.add_assoc]
        rfl

/-- No character is lost between the pieces but the commas at the cuts. -/
theorem intercalate_piecesFrom (separator : Char) (depth : Int) (previous : Char) (start : Nat) (piece : List Char) (here : Nat)
    (text : List Char) : [separator].intercalate ((piecesFrom separator depth previous start piece here text).map Prod.snd) =
      piece.reverse ++ text := by
  induction text generalizing depth previous start piece here with
  | nil => rw [piecesFrom, List.map_singleton, List.intercalate_singleton, List.append_nil]
  | cons c text ih =>
      rw [piecesFrom]
      split_ifs with hcut
      · obtain ⟨rfl, -⟩ := hcut
        have hrest := ih depth c (here + c.utf8Size) [] (here + c.utf8Size)
        obtain ⟨more, entries, hmore⟩ := exists_piecesFrom c depth c (here + c.utf8Size) [] (here + c.utf8Size) text
        dsimp only
        rw [hmore, List.map_cons] at hrest ⊢
        rw [List.map_cons, List.intercalate_cons_cons, hrest]
        simp
      · rw [ih, List.reverse_cons, List.append_assoc]
        rfl

/-- The pieces of a text without the one that is empty because the text ends with a cut. -/
def piecesAhead (text : List Char) : List (Nat × List Char) :=
  (piecesOf ',' text).filter (·.1 < byteLength text)

theorem IsPieceAt.eq_nil_of_le (h : IsPieceAt text entry) (hle : byteLength text ≤ entry.1) : entry.2 = [] := by
  obtain ⟨front, back, rfl, hfront, -⟩ := h
  rw [hfront, byteLength_append, byteLength_append] at hle
  cases hpiece : entry.2 with
  | nil => rfl
  | cons c piece =>
      have hc := c.utf8Size_pos
      rw [hpiece, byteLength_cons] at hle
      omega

theorem splitTopLevel_eq (text : List Char) : splitTopLevel text = (piecesAhead text).filter (!isAllBlank ·.2) := by
  rw [piecesAhead, List.filter_filter]
  refine List.filter_congr fun entry hentry => ?_
  by_cases hlt : entry.1 < byteLength text
  · simp [hlt]
  · have hnil := (mem_piecesOf_iff.mp hentry).eq_nil_of_le (Nat.le_of_not_lt hlt)
    simp [hnil, hlt, isAllBlank]

theorem pairwise_piecesOf (text : List Char) : (piecesOf ',' text).Pairwise (·.1 < ·.1) := by
  have hchain : (piecesOf ',' text).IsChain (·.1 < ·.1) := (isChain_piecesFrom rfl).imp fun entry entry' hfollows => by
    have hcomma := ','.utf8Size_pos
    rw [hfollows]
    omega
  exact List.pairwise_map.mp ((List.isChain_map Prod.fst).mpr hchain).pairwise

theorem intercalate_concat (separator piece : List Char) {pieces : List (List Char)} (h : pieces ≠ []) :
    separator.intercalate (pieces ++ [piece]) = separator.intercalate pieces ++ separator ++ piece := by
  induction pieces with
  | nil => exact absurd rfl h
  | cons first pieces ih =>
      cases pieces with
      | nil => simp [List.intercalate_cons_cons]
      | cons second pieces =>
          rw [List.cons_append, List.cons_append, List.intercalate_cons_cons, ← List.cons_append, ih (List.cons_ne_nil _ _),
            List.intercalate_cons_cons]
          simp only [List.append_assoc]

/-- Without that piece the text is put together up to the comma at its end. -/
theorem intercalate_piecesAhead (text : List Char) :
    let joined := [','].intercalate ((piecesAhead text).map Prod.snd)
    text = joined ∨ text = joined ++ [','] := by
  have hjoined : [','].intercalate ((piecesOf ',' text).map Prod.snd) = text := intercalate_piecesFrom ',' 0 ' ' 0 [] 0 text
  have hpairwise := pairwise_piecesOf text
  by_cases hall : ∀ entry ∈ piecesOf ',' text, entry.1 < byteLength text
  · left
    rw [piecesAhead, List.filter_eq_self.mpr (by simpa using hall), hjoined]
  · push Not at hall
    obtain ⟨last, hmem, hle⟩ := hall
    -- behind the end of the text no further piece begins
    obtain ⟨pieces, after, hsplit⟩ := List.append_of_mem hmem
    have hlast : last.2 = [] := (mem_piecesOf_iff.mp hmem).eq_nil_of_le hle
    rw [hsplit] at hpairwise
    obtain ⟨-, hbehind, hbefore⟩ := List.pairwise_append.mp hpairwise
    have hafter : after = [] := by
      refine List.eq_nil_iff_forall_not_mem.mpr fun entry hentry => ?_
      have hlt := List.rel_of_pairwise_cons hbehind hentry
      have hend := (mem_piecesOf_iff.mp (by rw [hsplit]; simp [hentry] : entry ∈ piecesOf ',' text)).le_byteLength
      omega
    have hahead : piecesAhead text = pieces := by
      have hpieces : ∀ entry ∈ pieces, entry.1 < byteLength text := fun entry hentry =>
        Nat.lt_of_lt_of_le (hbefore entry hentry last List.mem_cons_self) (mem_piecesOf_iff.mp hmem).le_byteLength
      rw [piecesAhead, hsplit, hafter, List.filter_append, List.filter_eq_self.mpr (by simpa using hpieces),
        List.filter_cons_of_neg (by simpa using hle), List.filter_nil, List.append_nil]
    rw [hsplit, hafter, List.map_append, List.map_singleton, hlast] at hjoined
    rw [hahead]
    by_cases hnone : pieces = []
    · left
      rw [← hjoined, hnone]
      rfl
    · right
      rw [← hjoined, intercalate_concat _ _ (by simpa using hnone), List.append_nil]

/-! ## Splitting -/

/-- Behind the end of a piece stands one comma, and then the piece that follows. -/
theorem slice?_of_follows (h : IsPieceAt text entry) (h' : IsPieceAt text entry') (hfollows : Follows entry entry') :
    slice? text (entry.1 + byteLength entry.2) entry'.1 = some [','] := by
  have hle := h'.le_byteLength
  obtain ⟨front, back, rfl, hfront, hcuts⟩ := h
  rw [Follows, hfront, ← byteLength_append] at hfollows
  rw [hfollows, ← List.append_assoc, byteLength_append _ back] at hle
  rcases hcuts.ends with rfl | ⟨back, rfl, -⟩
  · have hcomma := ','.utf8Size_pos
    simp at hle
    omega
  · rw [hfollows, hfront, ← byteLength_append, ← List.append_assoc]
    have hslice := slice?_append (front ++ entry.2) [','] back
    rwa [byteLength_append _ [',']] at hslice

/-- A text is split into the pieces between its cuts that are not blank, in their order and each at its offset. Between one
piece and the next, blank or not, stands one comma. So the pieces make up the text, up to a comma at its end. -/
theorem splitTopLevel_exact (text : List Char) :
    (∀ entry, entry ∈ splitTopLevel text ↔ IsPieceAt text entry ∧ isAllBlank entry.2 = false) ∧
    (splitTopLevel text).Pairwise (·.1 < ·.1) ∧
    (∀ entry ∈ splitTopLevel text, slice? text entry.1 (entry.1 + byteLength entry.2) = some entry.2) ∧
    splitTopLevel text = (piecesAhead text).filter (!isAllBlank ·.2) ∧
    (∀ entry, entry ∈ piecesOf ',' text ↔ IsPieceAt text entry) ∧
    (piecesOf ',' text).IsChain (fun entry entry' => entry'.1 = entry.1 + byteLength entry.2 + 1 ∧
      slice? text (entry.1 + byteLength entry.2) entry'.1 = some [',']) ∧
    [','].intercalate ((piecesOf ',' text).map Prod.snd) = text ∧
    (text = [','].intercalate ((piecesAhead text).map Prod.snd) ∨
      text = [','].intercalate ((piecesAhead text).map Prod.snd) ++ [',']) := by
  refine ⟨fun entry => ?_, (pairwise_piecesOf text).filter _, fun entry hentry => ?_, splitTopLevel_eq text,
    fun entry => mem_piecesOf_iff, ?_, intercalate_piecesFrom ',' 0 ' ' 0 [] 0 text, intercalate_piecesAhead text⟩
  · rw [splitTopLevel, List.mem_filter, mem_piecesOf_iff, Bool.not_eq_true']
  · obtain ⟨-, front, rest, rfl, hfront⟩ := exists_of_mem_splitTopLevel hentry
    rw [hfront, ← byteLength_append]
    exact slice?_append front entry.2 rest
  · have hchain : (piecesOf ',' text).IsChain Follows := isChain_piecesFrom rfl
    refine List.IsChain.imp_of_mem_imp (fun entry entry' hentry hentry' hfollows => ?_) hchain
    exact ⟨hfollows, slice?_of_follows (mem_piecesOf_iff.mp hentry) (mem_piecesOf_iff.mp hentry') hfollows⟩

/-- The sign of an arrow, a piece of a blank alone and a comma at the end. -/
theorem splitTopLevel_exact_of_arrow :
    let text := "\u00e9<a, b>, (x) => y, ,".toList
    (9, " (x) => y".toList) ∈ splitTopLevel text ∧ slice? text 9 18 = some " (x) => y".toList ∧
      text = [','].intercalate ((piecesAhead text).map Prod.snd) ++ [','] := by
  intro text
  have hmem : (9, " (x) => y".toList) ∈ splitTopLevel text := by decide +kernel
  obtain ⟨-, -, hslice, -, -, -, -, hjoined⟩ := splitTopLevel_exact text
  exact ⟨hmem, hslice _ hmem, hjoined.resolve_left (by decide +kernel)⟩

end ApiImpact.Text

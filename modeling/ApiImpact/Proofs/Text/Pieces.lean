import ApiImpact.Proofs.Text.Blank
import ApiImpact.Proofs.Text.Bracket
import ApiImpact.Proofs.Text.Offset
import Mathlib.Data.List.Infix

/-!
# Brackets that are closed, and where a text is cut

A bracket is matched by counting the brackets of its own kind alone. A text is cut by one count for all brackets, and the angle
brackets are counted with the others. Unlike them, an angle bracket may be an operator, and then nothing closes it.
-/

namespace ApiImpact.Text

variable {opener closer separator previous c : Char} {depth : Int} {front back piece rest text : List Char} {start here : Nat}

/-! ## Balance -/

/-- How many more brackets `opener` than brackets `closer` stand in a text. -/
def excess (opener closer : Char) (text : List Char) : Int := text.count opener - text.count closer

@[simp] theorem excess_nil : excess opener closer [] = 0 := by simp [excess]

theorem excess_append : excess opener closer (front ++ back) = excess opener closer front + excess opener closer back := by
  simp only [excess, List.count_append]
  omega

theorem excess_cons : excess opener closer (c :: text) = excess opener closer [c] + excess opener closer text :=
  @excess_append opener closer [c] text

theorem excess_opener (hne : closer ≠ opener) : excess opener closer [opener] = 1 := by
  simp [excess, List.count_cons_of_ne hne.symm]

theorem excess_closer (hne : closer ≠ opener) : excess opener closer [closer] = -1 := by
  simp [excess, List.count_cons_of_ne hne]

theorem excess_eq_zero (hopener : opener ∉ text) (hcloser : closer ∉ text) : excess opener closer text = 0 := by
  simp [excess, List.count_eq_zero.mpr hopener, List.count_eq_zero.mpr hcloser]

/-- The brackets `closer` of a text close its brackets `opener`, and all of them. -/
structure Closes (opener closer : Char) (text : List Char) : Prop where
  nonneg : ∀ front, front <+: text → 0 ≤ excess opener closer front
  total : excess opener closer text = 0

instance : Decidable (Closes opener closer text) :=
  decidable_of_iff ((∀ front ∈ text.inits, 0 ≤ excess opener closer front) ∧ excess opener closer text = 0)
    ⟨fun h => ⟨fun front hfront => h.1 front ((List.mem_inits _ _).mpr hfront), h.2⟩,
      fun h => ⟨fun front hfront => h.nonneg front ((List.mem_inits _ _).mp hfront), h.total⟩⟩

theorem closes_of_forall (h : ∀ c ∈ text, c ≠ opener ∧ c ≠ closer) : Closes opener closer text := by
  have hzero {front : List Char} (hfront : front <+: text) : excess opener closer front = 0 :=
    excess_eq_zero (fun hmem => (h _ (hfront.subset hmem)).1 rfl) fun hmem => (h _ (hfront.subset hmem)).2 rfl
  exact ⟨fun front hfront => Int.le_of_eq (hzero hfront).symm, hzero (List.prefix_refl text)⟩

theorem Closes.append (hfront : Closes opener closer front) (hback : Closes opener closer back) :
    Closes opener closer (front ++ back) := by
  refine ⟨?_, by rw [excess_append, hfront.total, hback.total, Int.add_zero]⟩
  rintro piece ⟨rest, hsplit⟩
  rcases List.append_eq_append_iff.mp hsplit with ⟨more, hmore, -⟩ | ⟨more, rfl, hmore⟩
  · exact hfront.nonneg piece ⟨more, hmore.symm⟩
  · rw [excess_append, hfront.total, Int.zero_add]
    exact hback.nonneg more ⟨rest, hmore.symm⟩

/-- The depth of braces counts them. -/
theorem braceDepth_eq_excess (text : List Char) : braceDepth text = excess '\x7b' '\x7d' text := by
  induction text with
  | nil => rfl
  | cons c text ih =>
      have hstep : braceStep c = excess '\x7b' '\x7d' [c] := by
        by_cases hopens : c = '\x7b'
        · rw [hopens]
          rfl
        · by_cases hcloses : c = '\x7d'
          · rw [hcloses]
            rfl
          · simp [braceStep, excess, hopens, hcloses]
      rw [braceDepth_cons, excess_cons, ih, hstep]

/-- Behind its opening bracket a bracket is matched over what closes its own. -/
theorem closeFrom_of_closes (hne : closer ≠ opener) (h : Closes opener closer text) (start : Nat) (rest : List Char) :
    closeFrom opener closer 1 start (text ++ closer :: rest) = some (start + byteLength text) := by
  -- the induction is over the text that is left, behind which `depth` brackets are open and never fewer than one
  have hopen : ∀ (text : List Char) (depth start : Nat), (∀ front, front <+: text → 1 ≤ depth + excess opener closer front) →
      (depth + excess opener closer text : Int) = 1 →
        closeFrom opener closer depth start (text ++ closer :: rest) = some (start + byteLength text) := by
    intro text
    induction text with
    | nil =>
        intro depth start _ htotal
        have hdepth : depth ≤ 1 := by simp at htotal; omega
        rw [List.nil_append, closeFrom, if_neg hne, if_pos rfl, if_pos hdepth]
        rfl
    | cons c text ih =>
        intro depth start hnonneg htotal
        have hfirst := hnonneg [c] ⟨text, rfl⟩
        have hrest {depth' : Nat} (hdepth : (depth' : Int) = depth + excess opener closer [c]) :
            closeFrom opener closer depth' (start + c.utf8Size) (text ++ closer :: rest) = some (start + byteLength (c :: text)) := by
          rw [excess_cons] at htotal
          rw [ih depth' (start + c.utf8Size) (fun front hfront => ?_) (by omega), byteLength_cons, Nat.add_assoc]
          have hlead := hnonneg (c :: front) ((List.prefix_cons_inj c).mpr hfront)
          rw [excess_cons] at hlead
          omega
        rw [List.cons_append, closeFrom]
        split_ifs with hopens hcloses hlast
        · rw [hopens, excess_opener hne] at hrest
          exact hopens ▸ hrest (Int.natCast_succ depth)
        · rw [hcloses, excess_closer hne] at hfirst
          omega
        · rw [hcloses, excess_closer hne] at hrest
          exact hcloses ▸ hrest (by omega)
        · have hzero : excess opener closer [c] = 0 := excess_eq_zero (by simpa using Ne.symm hopens) (by simpa using Ne.symm hcloses)
          exact hrest (by rw [hzero, Int.add_zero])
  refine hopen text 1 start (fun front hfront => ?_) (by rw [h.total]; rfl)
  have hnonneg := h.nonneg front hfront
  omega

/-- The brackets of all three pairs are closed. -/
def IsBalanced (text : List Char) : Prop := ∀ opener closer, closerOf? opener = some closer → Closes opener closer text

theorem isBalanced_iff : IsBalanced text ↔ Closes '(' ')' text ∧ Closes '\x7b' '\x7d' text ∧ Closes '[' ']' text := by
  refine ⟨fun h => ⟨h _ _ rfl, h _ _ rfl, h _ _ rfl⟩, fun ⟨hround, hcurly, hsquare⟩ opener closer hcloser => ?_⟩
  unfold closerOf? at hcloser
  split at hcloser <;> cases hcloser
  · exact hround
  · exact hcurly
  · exact hsquare

instance : Decidable (IsBalanced text) := decidable_of_iff' _ isBalanced_iff

theorem IsBalanced.append (hfront : IsBalanced front) (hback : IsBalanced back) : IsBalanced (front ++ back) :=
  fun opener closer hcloser => (hfront opener closer hcloser).append (hback opener closer hcloser)

/-- The brackets of the three pairs. -/
def brackets : List Char := "()\x7b\x7d[]".toList

theorem mem_brackets (h : closerOf? opener = some closer) : opener ∈ brackets ∧ closer ∈ brackets ∧ closer ≠ opener := by
  unfold closerOf? at h
  split at h <;> cases h <;> decide

theorem isBalanced_of_forall (h : ∀ c ∈ text, c ∉ brackets) : IsBalanced text := by
  intro opener closer hcloser
  obtain ⟨hmem, hmem', -⟩ := mem_brackets hcloser
  refine closes_of_forall fun c hc => ⟨?_, ?_⟩
  · rintro rfl
    exact h c hc hmem
  · rintro rfl
    exact h c hc hmem'

/-- How many brackets of the three pairs are open behind a text. -/
def bracketDepth (text : List Char) : Int := excess '(' ')' text + excess '\x7b' '\x7d' text + excess '[' ']' text

@[simp] theorem bracketDepth_nil : bracketDepth [] = 0 := rfl

theorem bracketDepth_append : bracketDepth (front ++ back) = bracketDepth front + bracketDepth back := by
  simp only [bracketDepth, excess_append]
  omega

theorem IsBalanced.bracketDepth_eq (h : IsBalanced text) : bracketDepth text = 0 := by
  rw [bracketDepth, (h _ _ rfl).total, (h _ _ rfl).total, (h _ _ rfl).total]
  rfl

theorem IsBalanced.bracketDepth_nonneg (h : IsBalanced text) (hfront : front <+: text) : 0 ≤ bracketDepth front :=
  Int.add_nonneg (Int.add_nonneg ((h _ _ rfl).nonneg _ hfront) ((h _ _ rfl).nonneg _ hfront)) ((h _ _ rfl).nonneg _ hfront)

theorem bracketDepth_eq_zero (h : ∀ c ∈ text, c ∉ brackets) : bracketDepth text = 0 := (isBalanced_of_forall h).bracketDepth_eq

section Nested

variable {opener' closer' : Char} {inside : List Char}

theorem excess_pair (hcloser : closerOf? opener = some closer) (hcloser' : closerOf? opener' = some closer') :
    0 ≤ excess opener' closer' [opener] ∧ excess opener' closer' [opener] + excess opener' closer' [closer] = 0 := by
  unfold closerOf? at hcloser hcloser'
  split at hcloser <;> split at hcloser' <;> cases hcloser <;> cases hcloser' <;> decide

/-- What closes the brackets of one pair goes on doing so between two brackets. -/
theorem Closes.nested (h : Closes opener' closer' inside) (hcloser : closerOf? opener = some closer)
    (hcloser' : closerOf? opener' = some closer') : Closes opener' closer' (opener :: (inside ++ [closer])) := by
  obtain ⟨hnonneg, hzero⟩ := excess_pair hcloser hcloser'
  have hclosed : excess opener' closer' (inside ++ [closer]) = excess opener' closer' [closer] := by
    rw [excess_append, h.total, Int.zero_add]
  refine ⟨fun front hfront => ?_, by rw [excess_cons, hclosed, hzero]⟩
  cases front with
  | nil => simp
  | cons c front =>
      obtain ⟨rfl, hrest⟩ := List.cons_prefix_cons.mp hfront
      rw [excess_cons]
      rcases List.prefix_concat_iff.mp hrest with rfl | hrest
      · exact Int.le_of_eq (by rw [hclosed, hzero])
      · exact Int.add_nonneg hnonneg (h.nonneg front hrest)

/-- A balanced text stays so between two brackets. -/
theorem IsBalanced.nested (h : IsBalanced inside) (hcloser : closerOf? opener = some closer) :
    IsBalanced (opener :: (inside ++ [closer])) :=
  fun _ _ hcloser' => (h _ _ hcloser').nested hcloser hcloser'

/-- Inside brackets another sign does not stand at depth zero. -/
theorem IsBalanced.bracketDepth_ne (h : IsBalanced inside) (hcloser : closerOf? opener = some closer) {sign : Char}
    (hsign : sign ∉ brackets) (hsplit : opener :: (inside ++ [closer]) = front ++ sign :: back) : bracketDepth front ≠ 0 := by
  obtain ⟨hmem, hmem', -⟩ := mem_brackets hcloser
  have hopens : bracketDepth [opener] = 1 := by
    unfold closerOf? at hcloser
    split at hcloser <;> cases hcloser <;> rfl
  cases front with
  | nil => exact absurd ((List.cons.inj hsplit).1 ▸ hmem) hsign
  | cons c front =>
      obtain ⟨rfl, hrest⟩ := List.cons.inj hsplit
      have hfront : front <+: inside := by
        rcases List.prefix_concat_iff.mp ⟨sign :: back, hrest.symm⟩ with rfl | hfront
        · simp at hrest
        · exact hfront
      have hcons : bracketDepth (opener :: front) = bracketDepth [opener] + bracketDepth front := @bracketDepth_append [opener] front
      have hnonneg := h.bracketDepth_nonneg hfront
      omega

end Nested

/-! ## Depth -/

/-- How many angle brackets are open behind a text that stands behind `previous`, those that end an arrow left out. -/
def angleDepth (previous : Char) : List Char → Int
  | [] => 0
  | c :: text => (if c = '<' then 1 else if c = '>' ∧ previous ≠ '=' then -1 else 0) + angleDepth c text

/-- The depth behind a text. -/
def depthBehind (previous : Char) (text : List Char) : Int := bracketDepth text + angleDepth previous text

@[simp] theorem depthBehind_nil : depthBehind previous [] = 0 := rfl

theorem depthBehind_cons : depthBehind previous (c :: text) = depthStep previous c + depthBehind c text := by
  have hstep : depthStep previous c = bracketDepth [c] + if c = '<' then 1 else if c = '>' ∧ previous ≠ '=' then -1 else 0 := by
    by_cases hbracket : c ∈ ['(', ')', '\x7b', '\x7d', '[', ']', '<', '>']
    · simp only [List.mem_cons, List.not_mem_nil, or_false] at hbracket
      rcases hbracket with rfl | rfl | rfl | rfl | rfl | rfl | rfl | rfl <;> simp [depthStep, bracketDepth, excess]
    · simp only [List.mem_cons, List.not_mem_nil, or_false, not_or] at hbracket
      simp [depthStep, bracketDepth, excess, hbracket]
  have hsplit : bracketDepth (c :: text) = bracketDepth [c] + bracketDepth text := @bracketDepth_append [c] text
  rw [depthBehind, depthBehind, hsplit, hstep, angleDepth]
  omega

theorem depthBehind_append (previous : Char) (front back : List Char) :
    depthBehind previous (front ++ back) = depthBehind previous front + depthBehind (front.getLastD previous) back := by
  induction front generalizing previous with
  | nil => simp
  | cons c front ih => rw [List.cons_append, depthBehind_cons, ih, depthBehind_cons, List.getLastD_cons, Int.add_assoc]

theorem angleDepth_eq_zero (h : ∀ c ∈ text, c ≠ '<' ∧ c ≠ '>') (previous : Char) : angleDepth previous text = 0 := by
  induction text generalizing previous with
  | nil => rfl
  | cons c text ih =>
      obtain ⟨hopens, hcloses⟩ := h c List.mem_cons_self
      rw [angleDepth, if_neg hopens, if_neg fun hboth => hcloses hboth.1, ih fun d hd => h d (List.mem_cons_of_mem _ hd)]
      rfl

/-- A text that closes its brackets, with commas only inside of them and without angle brackets. -/
structure IsPart (text : List Char) : Prop where
  balanced : IsBalanced text
  no_angle : ∀ c ∈ text, c ≠ '<' ∧ c ≠ '>'
  whole : ∀ front back, text = front ++ ',' :: back → bracketDepth front ≠ 0

theorem isPart_of_forall (h : ∀ c ∈ text, c ∉ '<' :: '>' :: ',' :: brackets) : IsPart text := by
  simp only [List.mem_cons, not_or] at h
  exact ⟨isBalanced_of_forall fun c hc => (h c hc).2.2.2, fun c hc => ⟨(h c hc).1, (h c hc).2.1⟩,
    fun front back hsplit => absurd rfl (h ',' (by simp [hsplit])).2.2.1⟩

theorem IsPart.append (hfront : IsPart front) (hback : IsPart back) : IsPart (front ++ back) where
  balanced := hfront.balanced.append hback.balanced
  no_angle := List.forall_mem_append.mpr ⟨hfront.no_angle, hback.no_angle⟩
  whole := by
    intro before after hsplit
    rcases List.append_eq_append_iff.mp hsplit with ⟨more, rfl, hmore⟩ | ⟨more, hmore, hafter⟩
    · rw [bracketDepth_append, hfront.balanced.bracketDepth_eq, Int.zero_add]
      exact hback.whole more after hmore
    · cases more with
      | nil =>
          have hzero := hback.whole [] after (by simpa using hafter.symm)
          exact absurd rfl hzero
      | cons d more =>
          obtain ⟨rfl, -⟩ := List.cons.inj hafter
          exact hfront.whole before more hmore

theorem isPart_nested {inside : List Char} (h : IsBalanced inside) (hangle : ∀ c ∈ inside, c ≠ '<' ∧ c ≠ '>')
    (hcloser : closerOf? opener = some closer) : IsPart (opener :: (inside ++ [closer])) where
  balanced := h.nested hcloser
  no_angle := by
    have hbrackets : ∀ c ∈ brackets, c ≠ '<' ∧ c ≠ '>' := by decide
    obtain ⟨hopener, hcloser, -⟩ := mem_brackets hcloser
    simp only [List.forall_mem_cons, List.forall_mem_append]
    exact ⟨hbrackets _ hopener, hangle, hbrackets _ hcloser, by simp⟩
  whole := fun front back hsplit => h.bracketDepth_ne hcloser (by decide) hsplit

theorem IsPart.depthBehind_eq (h : IsPart text) (previous : Char) : depthBehind previous text = 0 := by
  rw [depthBehind, h.balanced.bracketDepth_eq, angleDepth_eq_zero h.no_angle]
  rfl

/-! ## Pieces -/

/-- No `separator` of a text stands at depth zero when the text begins at `depth`. -/
def IsUncut (separator : Char) (depth : Int) (previous : Char) (text : List Char) : Prop :=
  ∀ front back, text = front ++ separator :: back → depth + depthBehind previous front ≠ 0

theorem isUncut_nil : IsUncut separator depth previous [] := by simp [IsUncut]

theorem isUncut_cons : IsUncut separator depth previous (c :: text) ↔
    ¬ (c = separator ∧ depth = 0) ∧ IsUncut separator (depth + depthStep previous c) c text := by
  have hdepth (front : List Char) : depth + depthBehind previous (c :: front) = depth + depthStep previous c + depthBehind c front := by
    rw [depthBehind_cons, Int.add_assoc]
  constructor
  · refine fun h => ⟨fun hcut => ?_, fun front back hsplit => ?_⟩
    · exact h [] text (by rw [hcut.1]; rfl) (by rw [hcut.2]; rfl)
    · rw [← hdepth]
      exact h (c :: front) back (by rw [hsplit]; rfl)
  · rintro ⟨hcut, h⟩ (_ | ⟨d, front⟩) back hsplit
    · obtain ⟨rfl, rfl⟩ := List.cons.inj hsplit
      simpa using fun hzero => hcut ⟨rfl, hzero⟩
    · obtain ⟨rfl, rfl⟩ := List.cons.inj hsplit
      rw [hdepth]
      exact h front back rfl

theorem isUncut_append : IsUncut separator depth previous (front ++ back) ↔ IsUncut separator depth previous front ∧
    IsUncut separator (depth + depthBehind previous front) (front.getLastD previous) back := by
  induction front generalizing depth previous with
  | nil => simp [isUncut_nil]
  | cons c front ih =>
      rw [List.cons_append, isUncut_cons, ih, isUncut_cons, depthBehind_cons, List.getLastD_cons, Int.add_assoc, and_assoc]

instance decidableIsUncut (separator : Char) (depth : Int) (previous : Char) : (text : List Char) →
    Decidable (IsUncut separator depth previous text)
  | [] => .isTrue isUncut_nil
  | c :: text =>
      have := decidableIsUncut separator (depth + depthStep previous c) c text
      decidable_of_iff' _ isUncut_cons

theorem IsPart.isUncut (h : IsPart text) (previous : Char) : IsUncut ',' 0 previous text := by
  intro front back hsplit
  have hangle : angleDepth previous front = 0 := angleDepth_eq_zero (fun c hc => h.no_angle c (by simp [hsplit, hc])) previous
  rw [depthBehind, hangle, Int.zero_add, Int.add_zero]
  exact h.whole front back hsplit

/-- What is not cut is read on. -/
theorem piecesFrom_append (h : IsUncut separator depth previous text) (start : Nat) (piece : List Char) (here : Nat) (rest : List Char) :
    piecesFrom separator depth previous start piece here (text ++ rest) =
      piecesFrom separator (depth + depthBehind previous text) (text.getLastD previous) start (text.reverse ++ piece)
        (here + byteLength text) rest := by
  induction text generalizing depth previous piece here with
  | nil => simp
  | cons c text ih =>
      obtain ⟨hcut, hrest⟩ := isUncut_cons.mp h
      rw [List.cons_append, piecesFrom, if_neg hcut, ih hrest, depthBehind_cons, List.getLastD_cons, byteLength_cons, Int.add_assoc,
        Nat.add_assoc, List.reverse_cons, List.append_assoc]
      rfl

/-- A text that is cut is so at a first place. -/
theorem exists_cut (h : ¬ IsUncut separator depth previous text) : ∃ front back, text = front ++ separator :: back ∧
    IsUncut separator depth previous front ∧ depth + depthBehind previous front = 0 := by
  induction text generalizing depth previous with
  | nil => exact absurd isUncut_nil h
  | cons c text ih =>
      by_cases hcut : c = separator ∧ depth = 0
      · exact ⟨[], text, by rw [hcut.1]; rfl, isUncut_nil, by rw [hcut.2]; rfl⟩
      · obtain ⟨front, back, rfl, hfront, hdepth⟩ := ih fun hrest => h (isUncut_cons.mpr ⟨hcut, hrest⟩)
        exact ⟨c :: front, back, rfl, isUncut_cons.mpr ⟨hcut, hfront⟩, by rw [depthBehind_cons, ← Int.add_assoc, hdepth]⟩

theorem piecesFrom_cut (hdepth : depth = 0) : piecesFrom separator depth previous start piece here (separator :: rest) =
    (start, piece.reverse) :: piecesFrom separator 0 separator (here + separator.utf8Size) [] (here + separator.utf8Size) rest := by
  rw [piecesFrom, if_pos ⟨rfl, hdepth⟩, hdepth]

/-- A piece in front of a separator. -/
theorem piecesFrom_piece (h : IsUncut separator 0 previous text) (hdepth : depthBehind previous text = 0) (start : Nat) (piece : List Char)
    (here : Nat) (rest : List Char) : piecesFrom separator 0 previous start piece here (text ++ separator :: rest) =
      (start, piece.reverse ++ text) :: piecesFrom separator 0 separator (here + byteLength text + separator.utf8Size) []
        (here + byteLength text + separator.utf8Size) rest := by
  rw [piecesFrom_append h, piecesFrom_cut (by rw [hdepth, Int.add_zero]), List.reverse_append, List.reverse_reverse]

theorem piecesFrom_last (h : IsUncut separator 0 previous text) (start : Nat) (piece : List Char) (here : Nat) :
    piecesFrom separator 0 previous start piece here text = [(start, piece.reverse ++ text)] := by
  have hpieces := piecesFrom_append h start piece here []
  rw [List.append_nil] at hpieces
  rw [hpieces, piecesFrom, List.reverse_append, List.reverse_reverse]

/-- The piece that is being read is the first one, with what is read on. -/
theorem exists_piecesFrom (separator : Char) (depth : Int) (previous : Char) (start : Nat) (piece : List Char) (here : Nat)
    (text : List Char) : ∃ more entries,
      piecesFrom separator depth previous start piece here text = (start, piece.reverse ++ more) :: entries := by
  induction text generalizing depth previous piece here with
  | nil => exact ⟨[], [], by simp [piecesFrom]⟩
  | cons c text ih =>
      rw [piecesFrom]
      split_ifs with hcut
      · exact ⟨[], _, by rw [List.append_nil]⟩
      · obtain ⟨more, entries, hmore⟩ := ih (depth + depthStep previous c) c (c :: piece) (here + c.utf8Size)
        exact ⟨c :: more, entries, by rw [hmore]; simp⟩

/-- A piece that leaves brackets open goes on behind the separator. -/
theorem exists_overrun (h : IsUncut separator 0 previous text) (hdepth : depthBehind previous text ≠ 0) (start : Nat) (piece : List Char)
    (here : Nat) (rest : List Char) : ∃ more entries, piecesFrom separator 0 previous start piece here (text ++ separator :: rest) =
      (start, piece.reverse ++ (text ++ separator :: more)) :: entries := by
  have hopen : ¬ (separator = separator ∧ 0 + depthBehind previous text = 0) := fun hcut => hdepth (by rw [← hcut.2, Int.zero_add])
  obtain ⟨more, entries, hmore⟩ := exists_piecesFrom separator (0 + depthBehind previous text + depthStep (text.getLastD previous) separator)
    separator start (separator :: (text.reverse ++ piece)) (here + byteLength text + separator.utf8Size) rest
  refine ⟨more, entries, ?_⟩
  rw [piecesFrom_append h, piecesFrom, if_neg hopen, hmore]
  simp

/-- A separator makes one more piece at most. -/
theorem length_piecesFrom_le (separator : Char) (depth : Int) (previous : Char) (start : Nat) (piece : List Char) (here : Nat)
    (text : List Char) : (piecesFrom separator depth previous start piece here text).length ≤ text.count separator + 1 := by
  induction text generalizing depth previous start piece here with
  | nil => exact Nat.le_refl 1
  | cons c text ih =>
      rw [piecesFrom, List.count_cons]
      split_ifs with hcut hsign
      · exact Nat.succ_le_succ (ih _ _ _ _ _)
      · exact absurd (beq_iff_eq.mpr hcut.1) hsign
      · exact Nat.le_succ_of_le (ih _ _ _ _ _)
      · exact ih _ _ _ _ _

/-! ## Entries of a list -/

/-- What a list holds between its commas. -/
structure IsEntry (text : List Char) : Prop where
  ne_nil : text ≠ []
  trimmed : Trimmed text
  not_comma : text.head? ≠ some ','

/-- What is read of the pieces of a list. -/
def entriesOf (pieces : List (Nat × List Char)) : List (List Char) :=
  (pieces.filter (!isAllBlank ·.2)).map (trim ·.2)

theorem entriesOf_cons (hc : isBlank c = false) (hblanks : ∀ d ∈ piece, isBlank d = true) (start : Nat) (rest : List Char)
    (pieces : List (Nat × List Char)) : entriesOf ((start, piece ++ c :: rest) :: pieces) = trim (c :: rest) :: entriesOf pieces := by
  have hblank : isAllBlank (piece ++ c :: rest) = false := by simp [isAllBlank, hc]
  rw [entriesOf, List.filter_cons_of_pos (by simp [hblank]), List.map_cons, trim_blanks_append hblanks, entriesOf]

section

variable {entry next : List Char} {entries : List (List Char)}

theorem IsEntry.exists_cons (h : IsEntry entry) : ∃ c rest, entry = c :: rest ∧ isBlank c = false ∧ c ≠ ',' := by
  obtain ⟨c, rest, rfl⟩ := List.exists_cons_of_ne_nil h.ne_nil
  exact ⟨c, rest, rfl, h.trimmed.head c rfl, fun hc => h.not_comma (by rw [hc]; rfl)⟩

/-- The first entry is read as soon as the piece is known that it stands in. -/
theorem IsEntry.entriesOf_cons (h : IsEntry entry) (hblanks : ∀ d ∈ piece, isBlank d = true) (start : Nat) (pieces : List (Nat × List Char)) :
    entriesOf ((start, piece ++ entry) :: pieces) = entry :: entriesOf pieces := by
  obtain ⟨c, rest, rfl, hc, -⟩ := h.exists_cons
  rw [Text.entriesOf_cons hc hblanks, h.trimmed.trim_eq]

/-- A piece that goes on behind the entry is not read as it. -/
theorem IsEntry.head_ne_of_overrun (h : IsEntry entry) (hblanks : ∀ d ∈ piece, isBlank d = true) (start : Nat) (more : List Char)
    (pieces : List (Nat × List Char)) : (entriesOf ((start, piece ++ (entry ++ ',' :: more)) :: pieces)).head? ≠ some entry := by
  obtain ⟨c, rest, rfl, hc, -⟩ := h.exists_cons
  have hcomma : isBlank ',' = false := by decide
  have hsplit : trim (c :: rest ++ ',' :: more) = c :: rest ++ ',' :: dropEndWhile isBlank more := by
    rw [trim, trimStart, trimEnd, List.cons_append, List.dropWhile_cons_of_neg (by simp [hc]), ← List.cons_append,
      dropEndWhile_append_cons hcomma]
  rw [List.cons_append] at hsplit ⊢
  rw [Text.entriesOf_cons hc hblanks, hsplit]
  simp

/-- A piece that ends at a comma of the entry is not read as it. -/
theorem IsEntry.head_ne_of_cut (h : IsEntry entry) (hcut : entry = front ++ ',' :: back) (hblanks : ∀ d ∈ piece, isBlank d = true)
    (start : Nat) (pieces : List (Nat × List Char)) : (entriesOf ((start, piece ++ front) :: pieces)).head? ≠ some entry := by
  obtain ⟨c, rest, hcons, hc, hne⟩ := h.exists_cons
  obtain ⟨front, rfl⟩ : ∃ rest, front = c :: rest := by
    cases front with
    | nil => exact absurd (List.cons.inj (hcons.symm.trans hcut)).1 hne
    | cons d front => exact ⟨front, by rw [(List.cons.inj (hcons.symm.trans hcut)).1]⟩
  have hfront : isAllBlank (c :: front) = false := by simp [isAllBlank, hc]
  obtain ⟨-, -, after, -, -, hsplit⟩ := exists_trim hfront
  rw [Text.entriesOf_cons hc hblanks, List.head?_cons]
  intro heq
  have hlength := congrArg List.length hsplit
  rw [Option.some.inj heq, hcut] at hlength
  simp only [List.length_append, List.length_cons] at hlength
  omega

/-- An entry that is cut is not the first one read. -/
theorem IsEntry.head_ne_of_not_isUncut (h : IsEntry entry) (hcut : ¬ IsUncut ',' 0 ' ' entry) (hblanks : ∀ d ∈ piece, isBlank d = true)
    (start here : Nat) (rest : List Char) :
    (entriesOf (piecesFrom ',' 0 ' ' start piece here (entry ++ rest))).head? ≠ some entry := by
  obtain ⟨front, back, hsplit, hfront, hdepth⟩ := exists_cut hcut
  have hwhole : entry ++ rest = front ++ ',' :: (back ++ rest) := by rw [hsplit]; simp
  rw [hwhole, piecesFrom_piece hfront (by rw [← hdepth, Int.zero_add])]
  exact h.head_ne_of_cut hsplit (fun d hd => hblanks d (List.mem_reverse.mp hd)) start _

/-- An entry that changes the depth is not the first one read when another one stands behind it. -/
theorem IsEntry.head_ne_of_depthBehind_ne (h : IsEntry entry) (hcut : IsUncut ',' 0 ' ' entry) (hdepth : depthBehind ' ' entry ≠ 0)
    (hblanks : ∀ d ∈ piece, isBlank d = true) (start here : Nat) (rest : List Char) :
    (entriesOf (piecesFrom ',' 0 ' ' start piece here (entry ++ ',' :: rest))).head? ≠ some entry := by
  obtain ⟨more, pieces, hpieces⟩ := exists_overrun hcut hdepth start piece here rest
  rw [hpieces]
  exact h.head_ne_of_overrun (fun d hd => hblanks d (List.mem_reverse.mp hd)) start more pieces

/-- Behind a comma the blank is read as the beginning of the next piece. -/
theorem piecesFrom_blank (start here : Nat) (rest : List Char) :
    piecesFrom ',' 0 ',' start [] here (' ' :: rest) = piecesFrom ',' 0 ' ' start [' '] (here + 1) rest := rfl

theorem intercalate_cons_cons (entry next : List Char) (entries : List (List Char)) : ", ".toList.intercalate (entry :: next :: entries) =
    entry ++ ',' :: ' ' :: ", ".toList.intercalate (next :: entries) := by
  rw [List.intercalate_cons_cons]
  simp

/-- The entries of a list are told apart by its commas just when none is cut, and each leaves the depth to the next one as it was. -/
theorem entriesOf_piecesFrom_iff (hentry : IsEntry entry) (hentries : ∀ text ∈ entries, IsEntry text)
    (hblanks : ∀ d ∈ piece, isBlank d = true) (start here : Nat) :
    entriesOf (piecesFrom ',' 0 ' ' start piece here (", ".toList.intercalate (entry :: entries))) = entry :: entries ↔
      (∀ text ∈ entry :: entries, IsUncut ',' 0 ' ' text) ∧ ∀ text ∈ (entry :: entries).dropLast, depthBehind ' ' text = 0 := by
  have hreverse : ∀ d ∈ piece.reverse, isBlank d = true := fun d hd => hblanks d (List.mem_reverse.mp hd)
  induction entries generalizing entry piece start here with
  | nil =>
      rw [List.intercalate_singleton]
      by_cases huncut : IsUncut ',' 0 ' ' entry
      · rw [piecesFrom_last huncut, hentry.entriesOf_cons hreverse]
        simp [huncut, entriesOf]
      · have hne := hentry.head_ne_of_not_isUncut huncut hblanks start here []
        rw [List.append_nil] at hne
        exact iff_of_false (fun h => hne (congrArg List.head? h)) fun h => huncut (h.1 entry List.mem_cons_self)
  | cons next entries ih =>
      rw [intercalate_cons_cons, List.dropLast_cons_cons, @List.forall_mem_cons _ _ entry, @List.forall_mem_cons _ _ entry]
      by_cases huncut : IsUncut ',' 0 ' ' entry
      · by_cases hdepth : depthBehind ' ' entry = 0
        · obtain ⟨hnext, hrest⟩ := List.forall_mem_cons.mp hentries
          have hentries := @ih [' '] next hnext hrest (by decide) (here + byteLength entry + ','.utf8Size)
            (here + byteLength entry + ','.utf8Size + 1) (by decide)
          rw [piecesFrom_piece huncut hdepth, hentry.entriesOf_cons hreverse, piecesFrom_blank, List.cons_inj_right]
          refine hentries.trans ?_
          simp [huncut, hdepth]
        · have hne := hentry.head_ne_of_depthBehind_ne huncut hdepth hblanks start here
          exact iff_of_false (fun h => hne _ (congrArg List.head? h)) fun h => hdepth h.2.1
      · have hne := hentry.head_ne_of_not_isUncut huncut hblanks start here
        exact iff_of_false (fun h => hne _ (congrArg List.head? h)) fun h => huncut h.1.1

/-- What is read of a list in its order. -/
theorem map_trim_splitTopLevel_iff (hentries : ∀ text ∈ entries, IsEntry text) :
    (splitTopLevel (", ".toList.intercalate entries)).map (trim ·.2) = entries ↔
      (∀ text ∈ entries, IsUncut ',' 0 ' ' text) ∧ ∀ text ∈ entries.dropLast, depthBehind ' ' text = 0 := by
  cases entries with
  | nil => exact iff_of_true rfl (by simp)
  | cons entry entries =>
      obtain ⟨hentry, hentries⟩ := List.forall_mem_cons.mp hentries
      exact entriesOf_piecesFrom_iff hentry hentries (by simp) 0 0

/-! ### Their number -/

theorem count_intercalate (hcommas : ∀ text ∈ entry :: entries, ',' ∉ text) :
    (", ".toList.intercalate (entry :: entries)).count ',' = entries.length := by
  induction entries generalizing entry with
  | nil =>
      rw [List.intercalate_singleton]
      exact List.count_eq_zero_of_not_mem (hcommas entry List.mem_cons_self)
  | cons next entries ih =>
      obtain ⟨hentry, hentries⟩ := List.forall_mem_cons.mp hcommas
      rw [intercalate_cons_cons, List.count_append, List.count_eq_zero_of_not_mem hentry, List.count_cons_self, List.count_cons_of_ne (by decide),
        ih hentries, Nat.zero_add, List.length_cons]

theorem isUncut_of_notMem (h : separator ∉ text) : IsUncut separator depth previous text :=
  fun _ _ hsplit => absurd (hsplit ▸ List.mem_append_right _ List.mem_cons_self) h

/-- Of entries without commas as many pieces as entries are only made when each leaves the depth to the next one as it was. -/
theorem depthBehind_eq_of_length_piecesFrom (hcommas : ∀ text ∈ entry :: entries, ',' ∉ text) (start here : Nat)
    (h : entries.length < (piecesFrom ',' 0 ' ' start piece here (", ".toList.intercalate (entry :: entries))).length) :
    ∀ text ∈ (entry :: entries).dropLast, depthBehind ' ' text = 0 := by
  induction entries generalizing entry piece start here with
  | nil => simp
  | cons next entries ih =>
      obtain ⟨hentry, hentries⟩ := List.forall_mem_cons.mp hcommas
      have huncut : IsUncut ',' 0 ' ' entry := isUncut_of_notMem hentry
      rw [intercalate_cons_cons] at h
      rw [List.dropLast_cons_cons, List.forall_mem_cons]
      by_cases hdepth : depthBehind ' ' entry = 0
      · rw [piecesFrom_piece huncut hdepth, piecesFrom_blank] at h
        exact ⟨hdepth, ih hentries _ _ (Nat.succ_lt_succ_iff.mp h)⟩
      · have hcut : ¬ (',' = ',' ∧ 0 + depthBehind ' ' entry = 0) := fun hcut => hdepth (by rw [← hcut.2, Int.zero_add])
        rw [piecesFrom_append huncut, piecesFrom, if_neg hcut] at h
        refine absurd (Nat.lt_of_lt_of_le h (length_piecesFrom_le _ _ _ _ _ _ _)) ?_
        rw [List.count_cons_of_ne (by decide), count_intercalate hentries, List.length_cons]
        exact Nat.lt_irrefl _

end

end ApiImpact.Text

import ApiImpact.Change.Parameter
import ApiImpact.Proofs.Text.Blank

/-!
# Reading a type for its bars

The members of a type are the pieces between the bars that are read outside all brackets. They are read by brackets
alone, also inside of literals; a reading that is aware of literals passes over what they hold. What either of them
finds is the same when the blanks are resized.
-/

namespace ApiImpact.TypeText

open Text

/-- The sign around a literal. -/
inductive Quote where
  | single
  | double
  deriving DecidableEq

namespace Quote

def char : Quote → Char
  | single => '\''
  | double => '"'

/-- The quote that `c` is. -/
def ofChar? (c : Char) : Option Quote :=
  if c = '\'' then some single else if c = '"' then some double else none

end Quote

/-- What is known of a type that has been read up to some place. -/
structure Scan where
  /-- The quote that closes the literal around the place. -/
  literal : Option Quote := none
  /-- The number of brackets that are open. -/
  depth : Int := 0
  behindEquals : Bool := false
  /-- There was a bar outside all brackets. -/
  bar : Bool := false
  /-- There was an arrow outside all brackets, and no such bar before it. -/
  arrow : Bool := false
  deriving DecidableEq

namespace Scan

variable {aware bar arrow : Bool} {depth : Int} {s : Scan} {c : Char} {front text rest piece : List Char}

/-- Reads one character. A reading that is aware of literals passes over their inside. -/
def step (aware : Bool) (s : Scan) (c : Char) : Scan :=
  match s.literal with
  | some quote => { s with literal := if c = quote.char then none else some quote, behindEquals := false }
  | none =>
    { literal := if aware then Quote.ofChar? c else none
      depth := s.depth + depthStep (if s.behindEquals then '=' else ' ') c
      behindEquals := c == '='
      bar := s.bar || (c == '|' && s.depth == 0)
      arrow := s.arrow || (c == '>' && s.behindEquals && s.depth == 0 && !s.bar) }

def run (aware : Bool) (s : Scan) (text : List Char) : Scan :=
  text.foldl (step aware) s

@[simp] theorem run_nil : run aware s [] = s := rfl

@[simp] theorem run_cons : run aware s (c :: text) = run aware (s.step aware c) text := rfl

@[simp] theorem run_append : run aware s (front ++ rest) = run aware (run aware s front) rest :=
  List.foldl_append

/-! ## Characters that change nothing -/

/-- The characters that count for a reading. -/
def signs : List Char :=
  ['(', '\x7b', '[', '<', ')', '\x7d', ']', '>', '=', '|', '\'', '"']

/-- The place is not right behind an equals sign. -/
def calm (s : Scan) : Scan := { s with behindEquals := false }

@[simp] theorem calm_calm (s : Scan) : s.calm.calm = s.calm := rfl

theorem step_of_notMem (h : c ∉ signs) : s.step aware c = s.calm := by
  obtain ⟨literal, depth, behindEquals, bar, arrow⟩ := s
  simp only [signs, List.mem_cons, List.not_mem_nil, or_false, not_or] at h
  cases literal with
  | some quote => cases quote <;> simp [step, calm, Quote.char, h]
  | none => simp [step, calm, Quote.ofChar?, depthStep, h]

theorem run_of_notMem (h : ∀ c ∈ text, c ∉ signs) : run aware s.calm text = s.calm := by
  induction text with
  | nil => rfl
  | cons c text ih =>
      rw [run_cons, step_of_notMem (h c List.mem_cons_self), calm_calm]
      exact ih fun d hd => h d (List.mem_cons_of_mem _ hd)

theorem calm_run_of_notMem (h : ∀ c ∈ text, c ∉ signs) : (run aware s text).calm = s.calm := by
  cases text with
  | nil => rfl
  | cons c text =>
      rw [run_cons, step_of_notMem (h c List.mem_cons_self), run_of_notMem fun d hd => h d (List.mem_cons_of_mem _ hd),
        calm_calm]

theorem notMem_signs_of_isBlank (h : isBlank c = true) : c ∉ signs := by
  have hsigns : ∀ d ∈ signs, isBlank d = false := by decide
  intro hm
  exact absurd h (by simp [hsigns c hm])

/-! ## Brackets, bars and arrows -/

/-- The reading stands at some depth, and not in a literal. -/
def level (depth : Int) (bar arrow : Bool) : Scan := ⟨none, depth, false, bar, arrow⟩

@[simp] theorem run_level_of_notMem (h : ∀ c ∈ text, c ∉ signs) :
    run aware (level depth bar arrow) text = level depth bar arrow :=
  run_of_notMem (s := level depth bar arrow) h

theorem step_level_opener (h : c ∈ ['(', '\x7b', '[', '<']) :
    (level depth bar arrow).step aware c = level (depth + 1) bar arrow := by
  simp only [List.mem_cons, List.not_mem_nil, or_false] at h
  rcases h with rfl | rfl | rfl | rfl <;> simp [step, level, Quote.ofChar?, depthStep]

theorem step_level_closer (h : c ∈ [')', '\x7d', ']', '>']) :
    (level depth bar arrow).step aware c = level (depth - 1) bar arrow := by
  simp only [List.mem_cons, List.not_mem_nil, or_false] at h
  rcases h with rfl | rfl | rfl | rfl <;> simp [step, level, Quote.ofChar?, depthStep, Int.sub_eq_add_neg]

theorem run_level_brackets {opener closer : Char} (hopener : opener ∈ ['(', '\x7b', '[', '<'])
    (hcloser : closer ∈ [')', '\x7d', ']', '>'])
    (h : run aware (level (depth + 1) bar arrow) text = level (depth + 1) bar arrow) :
    run aware (level depth bar arrow) (opener :: (text ++ [closer])) = level depth bar arrow := by
  rw [run_cons, step_level_opener hopener, run_append, h, run_cons, step_level_closer hcloser, Int.add_sub_cancel,
    run_nil]

theorem step_level_bar : (level depth bar arrow).step aware '|' = level depth (bar || depth == 0) arrow := by
  simp [step, level, Quote.ofChar?, depthStep]

theorem run_level_arrow : run aware (level depth bar arrow) "=>".toList = level depth bar (arrow || (depth == 0 && !bar)) := by
  simp [step, level, Quote.ofChar?, depthStep]

/-- A reading that is aware of the literal passes over it. -/
theorem run_level_literal {quote : Quote} (h : ∀ c ∈ text, c ≠ quote.char) :
    run true (level depth bar arrow) (quote.char :: (text ++ [quote.char])) = level depth bar arrow := by
  have hopen : (level depth bar arrow).step true quote.char = { level depth bar arrow with literal := some quote } := by
    cases quote <;> simp [step, level, Quote.ofChar?, Quote.char, depthStep]
  have hinside : run true { level depth bar arrow with literal := some quote } text =
      { level depth bar arrow with literal := some quote } := by
    induction text with
    | nil => rfl
    | cons c text ih =>
        rw [run_cons, step]
        dsimp only
        rw [if_neg (h c List.mem_cons_self)]
        exact ih fun d hd => h d (List.mem_cons_of_mem _ hd)
  rw [run_cons, hopen, run_append, hinside]
  simp [step, level]

/-- The characters for which it matters whether they stand in a literal. -/
def dividers : List Char :=
  ['(', '\x7b', '[', '<', ')', '\x7d', ']', '>', '|']

/-- A reading that is not aware of the literal gets over it when there are no brackets and bars in it. -/
theorem run_level_literal_of_notMem {quote : Quote} (h : ∀ c ∈ text, c ∉ dividers) :
    run false (level depth bar arrow) (quote.char :: (text ++ [quote.char])) = level depth bar arrow := by
  have hquote {behind : Bool} :
      step false { level depth bar arrow with behindEquals := behind } quote.char = level depth bar arrow := by
    cases quote <;> simp [step, level, Quote.char, depthStep]
  have hinside {behind : Bool} : ∃ behind' : Bool, run false { level depth bar arrow with behindEquals := behind } text =
      { level depth bar arrow with behindEquals := behind' } := by
    induction text generalizing behind with
    | nil => exact ⟨behind, rfl⟩
    | cons c text ih =>
        have hc := h c List.mem_cons_self
        simp only [dividers, List.mem_cons, List.not_mem_nil, or_false, not_or] at hc
        have hstep : step false { level depth bar arrow with behindEquals := behind } c =
            { level depth bar arrow with behindEquals := c == '=' } := by
          simp [step, level, depthStep, hc]
        rw [run_cons, hstep]
        exact ih fun d hd => h d (List.mem_cons_of_mem _ hd)
  obtain ⟨behind, hinside⟩ := @hinside false
  have hstart : (level depth bar arrow).step false quote.char = { level depth bar arrow with behindEquals := false } :=
    hquote
  rw [run_cons, hstart, run_append, hinside, run_cons, run_nil, hquote]

/-! ## Joined words -/

theorem calm_run_collapse_of (h : (run aware s.calm (collapseBehind text)).calm = (run aware s.calm text).calm) :
    (run aware s.calm (collapse text)).calm = (run aware s.calm text).calm := by
  rw [collapseBehind] at h
  split_ifs at h
  · rwa [run_cons, step_of_notMem (by decide), calm_calm] at h
  · exact h

theorem calm_run_collapseBehind (s : Scan) (text : List Char) :
    (run aware s (collapseBehind text)).calm = (run aware s text).calm := by
  induction text generalizing s with
  | nil => rfl
  | cons c text ih =>
      cases hc : isBlank c with
      | false =>
          rw [collapseBehind_of_head (by simpa using hc), collapse_cons hc, run_cons, run_cons]
          exact ih _
      | true =>
          have hrest := calm_run_collapse_of (ih s.calm)
          rw [run_cons, step_of_notMem (notMem_signs_of_isBlank hc), ← hrest, collapseBehind, collapse_cons_blank hc]
          cases hcollapse : collapse text with
          | nil => simp
          | cons d more =>
              have hspace : s.step aware ' ' = s.calm := step_of_notMem (by decide)
              simp [hc, hspace]

theorem calm_run_dropEndWhile (s : Scan) (text : List Char) :
    (run aware s (dropEndWhile (· == ';') text)).calm = (run aware s text).calm := by
  induction text generalizing s with
  | nil => rfl
  | cons c text ih =>
      have hrest := ih (s.step aware c)
      rw [dropEndWhile] at hrest
      rw [dropEndWhile, List.foldr_cons, run_cons]
      split_ifs with hdrop
      · obtain ⟨hempty, hc⟩ := Bool.and_eq_true_iff.mp hdrop
        rw [List.isEmpty_iff.mp hempty, step_of_notMem (by simp [signs, beq_iff_eq.mp hc])] at hrest
        rw [step_of_notMem (by simp [signs, beq_iff_eq.mp hc]), ← hrest]
        rfl
      · rw [run_cons, hrest]

/-- The spacing of a type makes no difference for what is read in it. -/
theorem calm_run_normalize (text : List Char) : (run aware {} (normalize text)).calm = (run aware {} text).calm := by
  rw [normalize, calm_run_dropEndWhile]
  exact calm_run_collapse_of (s := {}) (calm_run_collapseBehind {} text)

/-! ## Bars and arrows stay found -/

theorem bar_step_of_bar (h : s.bar = true) : (s.step aware c).bar = true := by
  cases hl : s.literal <;> simp [step, hl, h]

theorem bar_run_of_bar (h : s.bar = true) : (run aware s text).bar = true := by
  induction text generalizing s with
  | nil => exact h
  | cons c text ih => exact ih (bar_step_of_bar h)

theorem bar_of_bar_run (h : (run aware s text).bar = false) : s.bar = false := by
  rw [Bool.eq_false_iff]
  intro hbar
  exact absurd h (by simp [bar_run_of_bar hbar])

theorem arrow_run_of_arrow (h : s.arrow = true) : (run aware s text).arrow = true := by
  induction text generalizing s with
  | nil => exact h
  | cons c text ih =>
      apply ih
      cases hl : s.literal <;> simp [step, hl, h]

theorem arrow_run_of_bar (hbar : s.bar = true) (harrow : s.arrow = false) : (run aware s text).arrow = false := by
  induction text generalizing s with
  | nil => exact harrow
  | cons c text ih =>
      apply ih (bar_step_of_bar hbar)
      cases hl : s.literal <;> simp [step, hl, hbar, harrow]

/-! ## Where the splitter cuts -/

/-- The pieces of a text that is cut at the bars that are found in it. -/
def pieces (s : Scan) : List Char → List (List Char)
  | [] => [[]]
  | c :: rest =>
    if (s.step false c).bar then [] :: pieces {} rest else consToHead c (pieces (s.step false c) rest)

/-- Reading blindly the scan is never in a literal. -/
theorem literal_step (hs : s.literal = none) : (s.step false c).literal = none := by
  simp [step, hs]

theorem exists_map_snd_piecesFrom_bar {previous : Char} (hs : s.literal = none) (hbar : s.bar = false)
    (hprevious : s.behindEquals = (previous == '=')) (start here : Nat) (piece : List Char) :
    ∃ head tail, pieces s text = head :: tail ∧
      (piecesFrom '|' s.depth previous start piece here text).map Prod.snd = (piece.reverse ++ head) :: tail := by
  induction text generalizing s previous start here piece with
  | nil => exact ⟨[], [], rfl, by simp [piecesFrom]⟩
  | cons c text ih =>
      have hfound : (s.step false c).bar = true ↔ c = '|' ∧ s.depth = 0 := by simp [step, hs, hbar]
      rw [pieces, piecesFrom]
      by_cases hcut : c = '|' ∧ s.depth = 0
      · obtain ⟨head, tail, hpieces, hmap⟩ :=
          @ih {} c rfl rfl (by rw [hcut.1]; rfl) (here + c.utf8Size) (here + c.utf8Size) []
        refine ⟨[], head :: tail, by rw [if_pos (hfound.mpr hcut), hpieces], ?_⟩
        rw [if_pos hcut]
        dsimp only
        rw [List.map_cons, hcut.2]
        simpa using hmap
      · have hkept : (s.step false c).bar = false := Bool.eq_false_iff.mpr (mt hfound.mp hcut)
        have hbehind : (s.step false c).behindEquals = (c == '=') := by simp [step, hs]
        have hdepth : (s.step false c).depth = s.depth + depthStep previous c := by
          cases heq : previous == '=' with
          | true => simp [step, hs, hprevious, beq_iff_eq.mp heq]
          | false =>
              have hne : previous ≠ '=' := by simpa using heq
              simp [step, hs, hprevious, depthStep, hne]
        obtain ⟨head, tail, hpieces, hmap⟩ :=
          ih (literal_step hs) hkept hbehind start (here + c.utf8Size) (c :: piece)
        rw [hdepth] at hmap
        refine ⟨c :: head, tail, by rw [if_neg (by simp [hkept]), hpieces]; rfl, ?_⟩
        rw [if_neg hcut, hmap]
        simp

theorem map_snd_piecesOf_bar (text : List Char) : (piecesOf '|' text).map Prod.snd = pieces {} text := by
  obtain ⟨head, tail, hpieces, hmap⟩ := @exists_map_snd_piecesFrom_bar {} text ' ' rfl rfl rfl 0 0 []
  rw [piecesOf, hpieces]
  exact hmap

/-- A text without a bar outside all brackets only adds itself to the piece that is read. -/
theorem pieces_append (h : (run false s front).bar = false) :
    pieces s (front ++ rest) = front.foldr consToHead (pieces (run false s front) rest) := by
  induction front generalizing s with
  | nil => rfl
  | cons c front ih =>
      have hstep : (s.step false c).bar = false := bar_of_bar_run h
      rw [List.cons_append, pieces, if_neg (by simp [hstep]), ih h]
      rfl

theorem foldr_consToHead (text piece : List Char) (more : List (List Char)) :
    text.foldr consToHead (piece :: more) = (text ++ piece) :: more := by
  induction text with
  | nil => rfl
  | cons c text ih => rw [List.foldr_cons, ih]; rfl

theorem pieces_of_bar (h : (run false s text).bar = false) : pieces s text = [text] := by
  have hpieces := @pieces_append s text [] h
  rwa [List.append_nil, pieces, foldr_consToHead, List.append_nil] at hpieces

theorem exists_pieces_of_bar (hbar : s.bar = false) : ∃ head tail, pieces s text = head :: tail ∧
    (run false s head).bar = false ∧ ∀ piece ∈ tail, (run false {} piece).bar = false := by
  induction text generalizing s with
  | nil => exact ⟨[], [], rfl, hbar, by simp⟩
  | cons c text ih =>
      rw [pieces]
      split_ifs with hcut
      · obtain ⟨head, tail, hpieces, hhead, htail⟩ := @ih {} rfl
        refine ⟨[], head :: tail, by rw [hpieces], hbar, ?_⟩
        simpa using ⟨hhead, htail⟩
      · obtain ⟨head, tail, hpieces, hhead, htail⟩ := ih (Bool.eq_false_iff.mpr hcut)
        exact ⟨c :: head, tail, by rw [hpieces]; rfl, hhead, htail⟩

/-- No piece has a bar of its own. -/
theorem bar_of_mem_pieces (h : piece ∈ pieces {} text) : (run false {} piece).bar = false := by
  obtain ⟨head, tail, hpieces, hhead, htail⟩ := @exists_pieces_of_bar {} text rfl
  rw [hpieces, List.mem_cons] at h
  rcases h with rfl | h
  · exact hhead
  · exact htail piece h

theorem literal_run (hs : s.literal = none) : (run false s text).literal = none := by
  induction text generalizing s with
  | nil => exact hs
  | cons c text ih => exact ih (literal_step hs)

/-- The splitter cuts at a bar behind a text that closes its brackets. -/
theorem pieces_cut (hbar : (run false {} front).bar = false) (hdepth : (run false {} front).depth = 0) :
    pieces {} (front ++ '|' :: rest) = front :: pieces {} rest := by
  have hcut : ((run false {} front).step false '|').bar = true := by
    have hliteral : (run false {} front).literal = none := literal_run rfl
    simp [step, hliteral, hdepth]
  rw [pieces_append hbar, pieces, if_pos hcut, foldr_consToHead, List.append_nil]

/-- The splitter goes on behind a bar when a bracket is open. -/
theorem exists_pieces_of_open (hbar : (run false {} front).bar = false) (hdepth : (run false {} front).depth ≠ 0) :
    ∃ tail more, pieces {} (front ++ '|' :: rest) = (front ++ '|' :: tail) :: more := by
  have hopen : (run false {} (front ++ ['|'])).bar = false := by
    have hliteral : (run false {} front).literal = none := literal_run rfl
    simp [step, hliteral, hbar, hdepth]
  obtain ⟨tail, more, hpieces, -, -⟩ := @exists_pieces_of_bar (run false {} (front ++ ['|'])) rest hopen
  refine ⟨tail, more, ?_⟩
  have hfront := @pieces_append {} (front ++ ['|']) rest hopen
  rw [hpieces, foldr_consToHead] at hfront
  simpa using hfront

end Scan

variable {text front back piece rest : List Char}

theorem mem_members_iff : piece ∈ members (.ofList text) ↔ piece ≠ [] ∧ piece ∈ (Scan.pieces {} text).map normalize := by
  have hmembers : members (.ofList text) = ((Scan.pieces {} text).map normalize).filter (!·.isEmpty) := by
    rw [← Scan.map_snd_piecesOf_bar, List.map_map, members, String.toList_ofList]
    rfl
  simp [hmembers, and_comm]

/-- A member has no bar outside all brackets. -/
theorem bar_of_mem_members (h : piece ∈ members (.ofList text)) : (Scan.run false {} piece).bar = false := by
  obtain ⟨p, hp, rfl⟩ := List.mem_map.mp (mem_members_iff.mp h).2
  exact (congrArg Scan.bar (Scan.calm_run_normalize p)).trans (Scan.bar_of_mem_pieces hp)

theorem normalize_blanks_append (h : ∀ c ∈ front, isBlank c = true) : normalize (front ++ text) = normalize text := by
  rw [normalize, collapse_blanks_append h, normalize]

theorem normalize_append_blanks (h : ∀ c ∈ back, isBlank c = true) : normalize (text ++ back) = normalize text := by
  rw [normalize, collapse_append_blanks h, normalize]

theorem map_normalize_pieces_blanks (h : ∀ c ∈ front, isBlank c = true) :
    (Scan.pieces {} (front ++ rest)).map normalize = (Scan.pieces {} rest).map normalize := by
  have hrun : Scan.run false {} front = {} :=
    Scan.run_of_notMem (s := {}) fun c hc => Scan.notMem_signs_of_isBlank (h c hc)
  obtain ⟨head, tail, hpieces, -, -⟩ := @Scan.exists_pieces_of_bar {} rest rfl
  rw [Scan.pieces_append (by rw [hrun]), hrun, hpieces, Scan.foldr_consToHead, List.map_cons, List.map_cons,
    normalize_blanks_append h]

end ApiImpact.TypeText

import Mathlib.Tactic.SplitIfs
import ApiImpact.Proofs.Text.Offset
import ApiImpact.Proofs.Text.Shade

/-!
# Literals told by their marks

Behind a word of code and blanks, a quotation mark opens a literal. If the mark stands in the same line again,
the literal is what stands between.
-/

namespace ApiImpact.Text

variable {zone : Zone} {trail : Trail} {script front contents after : List Char} {c mark : Char}
  {shaded back : List (Char × Shade)}

/-! ## From a mask to shades -/

/-- Blanks for a character end before another sign does. -/
theorem exists_of_blankOut_append {rest : List Char} {d : Char} (hmem : c ∉ blankOut d)
    (h : blankOut d ++ rest = front ++ c :: after) :
    ∃ front', front = blankOut d ++ front' ∧ rest = front' ++ c :: after := by
  rcases List.append_eq_append_iff.mp h with ⟨more, rfl, rfl⟩ | ⟨more, hblanks, hmore⟩
  · exact ⟨more, rfl, rfl⟩
  · cases more with
    | nil => exact ⟨[], by simpa using hblanks.symm, hmore.symm⟩
    | cons e more =>
        obtain ⟨rfl, -⟩ := List.cons.inj hmore
        exact absurd (by simp [hblanks]) hmem

/-- A sign of a mask is a character of the script; a hidden one is a line break. -/
theorem exists_of_hide {hidden : Shade → Bool} (hspace : c ≠ ' ') (h : hide hidden shaded = front ++ c :: after) :
    ∃ shadedFront shade shadedAfter, shaded = shadedFront ++ (c, shade) :: shadedAfter ∧
      hide hidden shadedFront = front ∧ hide hidden shadedAfter = after ∧ (hidden shade = true → c = '\n') := by
  induction shaded generalizing front with
  | nil => simp at h
  | cons entry shaded ih =>
      obtain ⟨d, shade⟩ := entry
      have hlater {front' : List Char} (hfront : front = (if hidden shade then blankOut d else [d]) ++ front')
          (h : hide hidden shaded = front' ++ c :: after) : ∃ shadedFront shade' shadedAfter,
            (d, shade) :: shaded = shadedFront ++ (c, shade') :: shadedAfter ∧ hide hidden shadedFront = front ∧
              hide hidden shadedAfter = after ∧ (hidden shade' = true → c = '\n') := by
        obtain ⟨shadedFront, shade', shadedAfter, rfl, rfl, rfl, hhidden⟩ := ih h
        exact ⟨(d, shade) :: shadedFront, shade', shadedAfter, rfl, by rw [hide_cons, hfront], rfl, hhidden⟩
      rw [hide_cons] at h
      by_cases hkept : (if hidden shade then blankOut d else [d]) = [d] ∧ (hidden shade = true → d = '\n')
      · rw [hkept.1] at h
        cases front with
        | nil =>
            obtain ⟨rfl, rfl⟩ := List.cons.inj h
            exact ⟨[], shade, shaded, rfl, rfl, rfl, hkept.2⟩
        | cons e front =>
            obtain ⟨rfl, hrest⟩ := List.cons.inj h
            exact hlater (by rw [hkept.1]; rfl) hrest
      · have hshade : hidden shade = true := by
          by_contra hshade
          exact hkept ⟨if_neg hshade, fun hhidden => absurd hhidden hshade⟩
        have hmem : c ∉ blankOut d := by
          intro hc
          rcases mem_blankOut hc with rfl | rfl
          · have hd : d = '\n' := by
              by_contra hd
              rw [blankOut, if_neg hd] at hc
              exact absurd (List.eq_of_mem_replicate hc) (by decide)
            subst hd
            exact hkept ⟨by rw [if_pos hshade]; rfl, fun _ => rfl⟩
          · exact hspace rfl
        rw [if_pos hshade] at h
        obtain ⟨front', hfront, h⟩ := exists_of_blankOut_append hmem h
        exact hlater (by rw [if_pos hshade, hfront]) h

/-- A sign of the code is a character of the script that is code. -/
theorem exists_of_hide_code (hspace : c ≠ ' ') (hbreak : c ≠ '\n')
    (h : hide (· != .code) shaded = front ++ c :: after) : ∃ shadedFront shadedAfter,
      shaded = shadedFront ++ (c, .code) :: shadedAfter ∧ hide (· != .code) shadedFront = front ∧
        hide (· != .code) shadedAfter = after := by
  obtain ⟨shadedFront, shade, shadedAfter, rfl, hfront, hafter, hhidden⟩ := exists_of_hide hspace h
  obtain rfl : shade = .code := by
    by_contra hne
    exact hbreak (hhidden (by simpa using hne))
  exact ⟨shadedFront, shadedAfter, rfl, hfront, hafter⟩

/-- Where a sign stands in the code, both it and the end of it cut the text. -/
theorem exists_text_of_codeOnly (hspace : c ≠ ' ') (h : codeOnly script = front ++ c :: after) :
    ∃ front' after', withoutComments script = front' ++ c :: after' ∧ byteLength front' = byteLength front := by
  obtain ⟨shadedFront, shade, shadedAfter, hshades, rfl, rfl, hhidden⟩ := exists_of_hide hspace h
  have hkept : (if shade == .comment then blankOut c else [c]) = [c] := by
    split_ifs with hshade
    · obtain rfl := hhidden (by simp [beq_iff_eq.mp hshade])
      rfl
    · rfl
  refine ⟨hide (· == .comment) shadedFront, hide (· == .comment) shadedAfter, ?_, ?_⟩
  · rw [withoutComments, hshades, hide_append, hide_cons, hkept, List.singleton_append]
  · rw [byteLength_hide, byteLength_hide]

/-! ## Walking along the shades -/

/-- Literals in quotes are closed by a quotation mark. -/
def Zone.IsProper : Zone → Prop
  | quoted quote => quote = '\'' ∨ quote = '"'
  | _ => True

/-- The scan stands outside all literals. -/
def Zone.IsOpen (zone : Zone) : Prop :=
  zone.outside = code

/-- What is left of a scan behind its first entry: the rest of the scan, perhaps behind one entry more which
is no code. -/
def Continues (P : Zone → Prop) (tail : List (Char × Shade)) : Prop :=
  ∃ zone trail script, P zone ∧ (tail = shadesFrom zone trail script ∨
    ∃ entry : Char × Shade, entry.2 ≠ .code ∧ tail = entry :: shadesFrom zone trail script)

theorem Continues.here {P : Zone → Prop} (h : P zone) : Continues P (shadesFrom zone trail script) :=
  ⟨zone, trail, script, h, .inl rfl⟩

theorem Continues.further {P : Zone → Prop} {entry : Char × Shade} (h : P zone) (hentry : entry.2 ≠ .code) :
    Continues P (entry :: shadesFrom zone trail script) :=
  ⟨zone, trail, script, h, .inr ⟨entry, hentry, rfl⟩⟩

/-- What one step of a scan does to its zone: quotes stay proper, and nothing but a sign of code leads into a
literal. -/
def Zone.Steps (zone : Zone) (entry : Char × Shade) (zone' : Zone) : Prop :=
  (zone.IsProper → zone'.IsProper) ∧
    (zone.IsOpen → (entry.2 = .code → isBlank entry.1 = true) → zone'.IsOpen)

theorem continues_of_shadesFrom (zone : Zone) (trail : Trail) (script : List Char) :
    ∀ entry tail, shadesFrom zone trail script = entry :: tail → Continues (zone.Steps entry) tail := by
  fun_induction shadesFrom zone trail script
  case case1 => rintro _ _ ⟨⟩
  -- A comment opens.
  case case2 | case3 =>
    rintro _ _ ⟨⟩
    exact .further ⟨fun _ => trivial, fun _ _ => rfl⟩ (by decide)
  -- A literal opens.
  case case4 =>
    rintro _ _ ⟨⟩
    exact .here ⟨fun _ => trivial, fun _ hblank => absurd (hblank rfl) (by decide)⟩
  case case6 trail c rest _ hquote _ =>
    rintro _ _ ⟨⟩
    refine .here ⟨fun _ => hquote, fun _ hblank => ?_⟩
    rcases hquote with rfl | rfl <;> exact absurd (hblank rfl) (by decide)
  case case7 =>
    rintro _ _ ⟨⟩
    exact .here ⟨fun _ => trivial, fun _ hblank => absurd (hblank rfl) (by decide)⟩
  -- Code and comments go on.
  case case5 | case8 | case11 | case12 =>
    rintro _ _ ⟨⟩
    exact .here ⟨fun _ => trivial, fun _ _ => rfl⟩
  case case9 =>
    rintro _ _ ⟨⟩
    split_ifs <;> exact .here ⟨fun _ => trivial, fun _ _ => rfl⟩
  case case10 =>
    rintro _ _ ⟨⟩
    exact .further ⟨fun _ => trivial, fun _ _ => rfl⟩ (by decide)
  -- Inside literals.
  case case13 | case18 | case22 =>
    rintro _ _ ⟨⟩
    exact ⟨.code, {}, [], ⟨fun _ => trivial, fun h => (Zone.noConfusion h)⟩, .inl rfl⟩
  case case14 | case19 | case23 =>
    rintro _ _ ⟨⟩
    exact .further ⟨fun h => h, fun h => Zone.noConfusion h⟩ fun h => Shade.noConfusion h
  case case17 | case21 | case25 | case26 | case28 =>
    rintro _ _ ⟨⟩
    exact .here ⟨fun h => h, fun h => Zone.noConfusion h⟩
  -- Literals end.
  case case15 | case16 | case20 | case24 | case27 =>
    rintro _ _ ⟨⟩
    exact .here ⟨fun _ => trivial, fun h => (Zone.noConfusion h)⟩

/-- A walk over `front` to a character of code, by steps that keep a property of the zone. -/
theorem exists_zone {P : Zone → Prop} {front : List (Char × Shade)}
    (hstep : ∀ zone zone' entry, entry ∈ front → P zone → zone.Steps entry zone' → P zone') (hzone : P zone)
    (h : shadesFrom zone trail script = front ++ (c, .code) :: back) :
    ∃ zone' trail' rest, P zone' ∧ shadesFrom zone' trail' (c :: rest) = (c, .code) :: back := by
  induction hn : front.length using Nat.strongRecOn generalizing zone trail script front with
  | _ n ih =>
      cases front with
      | nil =>
          cases script with
          | nil =>
              rw [shadesFrom] at h
              cases h
          | cons d rest =>
              have hfirst := congrArg (List.map Prod.fst) h
              rw [map_fst_shadesFrom] at hfirst
              obtain rfl : d = c := (List.cons.inj hfirst).1
              exact ⟨zone, trail, rest, hzone, h⟩
      | cons entry front =>
          obtain ⟨zone', trail', rest, hsteps, htail | ⟨more, hmore, htail⟩⟩ :=
            continues_of_shadesFrom zone trail script entry _ h
          · have hzone' := hstep zone zone' entry List.mem_cons_self hzone hsteps
            exact ih front.length (by simp [← hn]) (fun z z' e he => hstep z z' e (List.mem_cons_of_mem _ he)) hzone'
              htail.symm rfl
          · have hzone' := hstep zone zone' entry List.mem_cons_self hzone hsteps
            cases front with
            | nil =>
                obtain ⟨rfl, -⟩ := List.cons.inj htail
                exact absurd rfl hmore
            | cons entry' front =>
                obtain ⟨rfl, hrest⟩ := List.cons.inj htail
                refine ih front.length ?_ (fun z z' e he => hstep z z' e ?_) hzone' hrest.symm rfl
                · rw [← hn, List.length_cons, List.length_cons]
                  omega
                · exact List.mem_cons_of_mem _ (List.mem_cons_of_mem _ he)

/-! ## A word and a mark -/

/-- A sign that opens no literal and closes none, neither alone nor with the next, and is not blank. -/
def isInert (c : Char) : Bool :=
  !List.contains [' ', '/', '\\', '\n', '\'', '"', '\x60'] c

/-- Inside a comment nothing is code. -/
theorem isComment_eq_false : (shadesFrom zone trail script).head? = some (c, .code) → zone.isComment = false := by
  fun_cases shadesFrom zone trail script <;> simp [Zone.isComment]

/-- Where an inert character is code, the scan stands in code. -/
theorem zone_eq_code_of_isInert {rest : List Char} (hc : isInert c = true) (hzone : zone.IsProper)
    (h : shadesFrom zone trail (c :: rest) = (c, .code) :: back) :
    zone = .code ∧ back = shadesFrom .code (trail.push c) rest := by
  have hsigns : c ≠ ' ' ∧ c ≠ '/' ∧ c ≠ '\\' ∧ c ≠ '\n' ∧ c ≠ '\'' ∧ c ≠ '"' ∧ c ≠ '\x60' := by
    simpa [isInert] using hc
  obtain ⟨-, hslash, hescape, hbreak, hsingle, hdouble, htick⟩ := hsigns
  cases zone with
  | code =>
      rw [shadesFrom_code hslash, if_neg (by simp [hsingle, hdouble]), if_neg htick] at h
      exact ⟨rfl, (List.cons.inj h).2.symm⟩
  | lineComment | blockComment => exact absurd (isComment_eq_false (congrArg List.head? h)) nofun
  | quoted quote =>
      have hquote : c ≠ quote := by
        rcases hzone with rfl | rfl
        · exact hsingle
        · exact hdouble
      rw [shadesFrom_quoted hescape, if_neg hquote, if_neg hbreak] at h
      cases h
  | template =>
      rw [shadesFrom_template hescape, if_neg htick] at h
      cases h
  | regex inClass =>
      rw [shadesFrom_regex hescape, if_neg hbreak, if_neg (c := c = '/' ∧ _) (by simp [hslash])] at h
      split_ifs at h <;> cases h

/-- Where a mark is code outside all literals, it opens one. -/
theorem eq_quoted_of_isOpen {rest : List Char} (hmark : mark = '\'' ∨ mark = '"') (hzone : zone.IsOpen)
    (h : shadesFrom zone trail (mark :: rest) = (mark, .code) :: back) :
    back = shadesFrom (.quoted mark) trail.leave rest := by
  cases zone with
  | code =>
      have hslash : mark ≠ '/' := by rcases hmark with rfl | rfl <;> decide
      rw [shadesFrom_code hslash, if_pos hmark] at h
      exact (List.cons.inj h).2.symm
  | lineComment | blockComment => exact absurd (isComment_eq_false (congrArg List.head? h)) nofun
  | quoted | template | regex => cases hzone

/-- What is hidden stands before a mark. -/
theorem exists_of_hide_literal (hmark : mark = '\'' ∨ mark = '"')
    (h : hide (· != .code) ((c, .literal) :: shaded) = contents ++ mark :: after) (hclosed : mark ∉ contents)
    (hline : '\n' ∉ contents) : ∃ contents', hide (· != .code) shaded = contents' ++ mark :: after ∧
      mark ∉ contents' ∧ '\n' ∉ contents' ∧ byteLength contents = c.utf8Size + byteLength contents' := by
  have hne : mark ≠ ' ' ∧ mark ≠ '\n' := by rcases hmark with rfl | rfl <;> decide
  have hmem : mark ∉ blankOut c := fun hm => (mem_blankOut hm).elim hne.2 hne.1
  obtain ⟨contents', rfl, hrest⟩ := exists_of_blankOut_append hmem h
  refine ⟨contents', hrest, fun hc => hclosed (List.mem_append_right _ hc),
    fun hc => hline (List.mem_append_right _ hc), ?_⟩
  rw [byteLength_append, byteLength_blankOut]

/-- Behind the mark that opens a literal, the next one ends it if it stands in the same line. -/
theorem exists_literal (hmark : mark = '\'' ∨ mark = '"') (trail : Trail) : ∀ script contents : List Char,
    hide (· != .code) (shadesFrom (.quoted mark) trail script) = contents ++ mark :: after →
      mark ∉ contents → '\n' ∉ contents → ∃ literal back,
        shadesFrom (.quoted mark) trail script = literal.map (·, .literal) ++ (mark, .code) :: back ∧
          byteLength literal = byteLength contents := by
  intro script
  -- An escape takes two characters at once.
  induction hn : script.length using Nat.strongRecOn generalizing script with
  | _ n ih =>
      intro contents h hclosed hline
      cases script with
      | nil => simp [shadesFrom] at h
      | cons c script =>
          by_cases hc : c = '\\'
          · subst hc
            cases script with
            | nil =>
                obtain ⟨contents', h, -⟩ := exists_of_hide_literal hmark h hclosed hline
                simp at h
            | cons escaped script =>
                obtain ⟨contents', h, hclosed, hline, hlength⟩ := exists_of_hide_literal hmark h hclosed hline
                obtain ⟨contents'', h, hclosed, hline, hlength'⟩ := exists_of_hide_literal hmark h hclosed hline
                have hshorter : script.length < n := by
                  rw [← hn, List.length_cons, List.length_cons]
                  omega
                obtain ⟨literal, back, hshades, hbytes⟩ := ih script.length hshorter script rfl _ h hclosed hline
                refine ⟨'\\' :: escaped :: literal, back, ?_, ?_⟩
                · rw [shadesFrom, if_pos rfl, hshades]
                  rfl
                · simp only [byteLength_cons, hlength, hlength', hbytes]
          · rw [shadesFrom_quoted hc] at h ⊢
            split_ifs at h ⊢ with hend hbreak
            · subst hend
              cases contents with
              | nil => exact ⟨[], _, rfl, rfl⟩
              | cons d contents =>
                  obtain rfl : c = d := (List.cons.inj h).1
                  exact absurd List.mem_cons_self hclosed
            · subst hbreak
              cases contents with
              | nil => exact absurd (List.cons.inj h).1 hend
              | cons d contents =>
                  obtain rfl : '\n' = d := (List.cons.inj h).1
                  exact absurd List.mem_cons_self hline
            · obtain ⟨contents', h, hclosed, hline, hlength⟩ := exists_of_hide_literal hmark h hclosed hline
              obtain ⟨literal, back, hshades, hbytes⟩ := ih script.length (by simp [← hn]) script rfl _ h hclosed hline
              refine ⟨c :: literal, back, ?_, ?_⟩
              · rw [hshades]
                rfl
              · rw [byteLength_cons, hlength, hbytes]

/-- Behind an inert sign and blanks of the code, two marks in one line enclose a literal. -/
theorem exists_literal_of_codeOnly {lead : List Char} (hc : isInert c = true) (hlead : ∀ d ∈ lead, isBlank d = true)
    (hmark : mark = '\'' ∨ mark = '"') (hclosed : mark ∉ contents) (hline : '\n' ∉ contents)
    (h : codeOnly script = front ++ c :: (lead ++ mark :: (contents ++ mark :: after))) :
    ∃ shadedFront literal back,
      shades script = shadedFront ++ (mark, .code) :: (literal.map (·, .literal) ++ (mark, .code) :: back) ∧
        hide (· != .code) shadedFront = front ++ c :: lead ∧ byteLength literal = byteLength contents := by
  have hspace : c ≠ ' ' ∧ c ≠ '\n' := by
    constructor <;> (rintro rfl; revert hc; decide)
  have hmarkSpace : mark ≠ ' ' ∧ mark ≠ '\n' := by rcases hmark with rfl | rfl <;> decide
  obtain ⟨shadedFront, shadedLead, hshades, rfl, hbehind⟩ := exists_of_hide_code hspace.1 hspace.2 h
  obtain ⟨blanks, shadedAfter, rfl, rfl, hafter⟩ := exists_of_hide_code hmarkSpace.1 hmarkSpace.2 hbehind
  obtain ⟨zone, trail, rest, hzone, hscan⟩ :=
    exists_zone (P := Zone.IsProper) (fun _ _ _ _ h hsteps => hsteps.1 h) (show Zone.code.IsProper from trivial)
      hshades
  obtain ⟨rfl, hbehindScan⟩ := zone_eq_code_of_isInert hc hzone hscan
  obtain ⟨zone', trail', rest', hopen, hmarkScan⟩ := exists_zone (P := Zone.IsOpen)
    (fun zone zone' entry hentry h hsteps => hsteps.2 h fun hcode => hlead _ (mem_hide_of_code hentry hcode))
      (show Zone.code.IsOpen from rfl) hbehindScan.symm
  obtain rfl := eq_quoted_of_isOpen hmark hopen hmarkScan
  obtain ⟨literal, back, hliteral, hlength⟩ := exists_literal hmark _ rest' contents hafter hclosed hline
  refine ⟨shadedFront ++ (c, .code) :: blanks, literal, back, ?_, ?_, hlength⟩
  · rw [hshades, hliteral, List.append_assoc, List.cons_append]
  · rw [hide_append]
    rfl

/-- A literal is read off the script without comments at its place in the code. -/
theorem slice?_literal {literal : List Char}
    (h : shades script = shaded ++ (mark, .code) :: (literal.map (·, .literal) ++ (mark, .code) :: back))
    (hcode : hide (· != .code) shaded = front) (hlength : byteLength literal = byteLength contents) :
    slice? (withoutComments script) (byteLength (front ++ [mark])) (byteLength (front ++ [mark] ++ contents)) =
      some literal := by
  have htext : withoutComments script =
      (hide (· == .comment) shaded ++ [mark]) ++ (literal ++ hide (· == .comment) ((mark, .code) :: back)) := by
    rw [withoutComments, h, hide_append, hide_cons, hide_append, hide_map (by rfl)]
    exact (List.append_assoc _ [mark] _).symm
  have hfront : byteLength (front ++ [mark]) = byteLength (hide (· == .comment) shaded ++ [mark]) := by
    rw [byteLength_append, byteLength_append, ← hcode, byteLength_hide, byteLength_hide]
  rw [htext, byteLength_append _ contents, hfront, ← hlength, ← byteLength_append, slice?_append]

end ApiImpact.Text

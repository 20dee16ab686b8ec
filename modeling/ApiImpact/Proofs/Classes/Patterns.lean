import ApiImpact.Proofs.Script.Declaration
import ApiImpact.Proofs.Text.Offset

/-!
# Members as a class is searched for them

Both patterns for the members of a class take the beginning of a line: blanks, the words in front of a name, the name and a sign
behind it. What is found counts as a member if no brace is open in front of the line and the name is not private.
-/

namespace ApiImpact.Script

open Text Text.Pattern

variable {pattern : Pattern} {groups groups' : Groups} {before piece after text rest body : List Char} {c : Char} {m : Match}

/-! ## The beginning of a line -/

/-- Words and signs in front of a name, with blanks behind the words. -/
structure IsLead (text : List Char) : Prop where
  mem : ∀ c ∈ text, isNameChar c = true ∨ isGap c = true ∨ c = '*'
  last : ∀ c ∈ text.getLast?, isGap c = true ∨ c = '*'

/-- A name as the patterns for members have it. -/
def IsMemberName (text : List Char) : Prop :=
  ∃ c rest, text = c :: rest ∧ (isAsciiIdentifierStart c = true ∨ c = '#') ∧ ∀ d ∈ rest, isNameChar d = true

/-- The beginning of a line up to the blanks behind the first name that is not taken for a word in front of it. -/
structure MemberHead where
  indent : List Char
  lead : List Char
  name : List Char
  gap : List Char
  indent_gap : ∀ c ∈ indent, isGap c = true
  isLead : IsLead lead
  isName : IsMemberName name
  gap_gap : ∀ c ∈ gap, isGap c = true

namespace MemberHead

variable (d : MemberHead)

def chars : List Char := d.indent ++ (d.lead ++ (d.name ++ d.gap))

/-- What is recorded of the name in a line behind `before`. -/
def marks (before : List Char) : Groups :=
  [(1, ⟨byteLength (before ++ d.indent ++ d.lead), byteLength (before ++ d.indent ++ d.lead ++ d.name)⟩)]

end MemberHead

/-- A sign that is none of those in front of a member. -/
theorem ne_of_isNameChar_or {sign : Char} (h : isNameChar c = true ∨ isGap c = true ∨ c ∈ ['*', '#'])
    (hsign : isNameChar sign = false ∧ isGap sign = false ∧ sign ∉ ['*', '#']) : c ≠ sign := by
  rintro rfl
  obtain ⟨hname, hgap, hnone⟩ := hsign
  rcases h with h | h | h
  · exact absurd h (by simp [hname])
  · exact absurd h (by simp [hgap])
  · exact hnone h

theorem isLead_nil : IsLead [] := ⟨nofun, nofun⟩

theorem IsLead.append (h : IsLead text) (hrest : IsLead rest) : IsLead (text ++ rest) where
  mem := List.forall_mem_append.mpr ⟨h.mem, hrest.mem⟩
  last := forall_getLast?_append h.last hrest.last

theorem isLead_of_gap {gap : List Char} (hmem : ∀ c ∈ text, isNameChar c = true ∨ c = '*') (hne : gap ≠ [])
    (hgap : ∀ c ∈ gap, isGap c = true) : IsLead (text ++ gap) where
  mem := List.forall_mem_append.mpr ⟨fun c hc => (hmem c hc).imp_right .inr, fun c hc => .inr (.inl (hgap c hc))⟩
  last := by
    rw [List.getLast?_append_of_ne_nil _ hne]
    exact fun c hc => .inl (hgap c (List.mem_of_mem_getLast? hc))

/-! ## What fits the patterns -/

theorem isLead_of_fits_modifier {word : Pattern} (hword : ∀ groups before piece after groups',
      word.Fits groups before piece after groups' → groups' = groups ∧ ∀ c ∈ piece, isNameChar c = true)
    (h : (modifier word).Fits groups before piece after groups') : groups' = groups ∧ IsLead piece := by
  rcases h with ⟨x, y, between, rfl, hx, hy⟩ | ⟨rfl, rfl⟩
  · obtain ⟨rfl, hmem⟩ := hword _ _ _ _ _ hx
    obtain ⟨rfl, hne, hgap⟩ := fits_most1.mp hy
    exact ⟨rfl, isLead_of_gap (fun c hc => .inl (hmem c hc)) hne hgap⟩
  · exact ⟨rfl, isLead_nil⟩

theorem isNameChar_of_fits_literal {word : String} (hword : ∀ c ∈ word.toList, isNameChar c = true)
    (groups : Groups) (before piece after : List Char) (groups' : Groups) (h : (literal word).Fits groups before piece after groups') :
    groups' = groups ∧ ∀ c ∈ piece, isNameChar c = true := by
  obtain ⟨rfl, rfl⟩ := fits_literal.mp h
  exact ⟨rfl, hword⟩

theorem isLead_of_fits_star (h : (optional (char '*' ++ most isGap)).Fits groups before piece after groups') :
    groups' = groups ∧ IsLead piece := by
  rcases h with h | ⟨rfl, rfl⟩
  · obtain ⟨gap, rfl, rfl, hgap⟩ := fits_char_append.mp h
    refine ⟨rfl, List.forall_mem_cons.mpr ⟨.inr (.inr rfl), fun c hc => .inr (.inl (hgap c hc))⟩, fun c hc => ?_⟩
    rcases List.mem_cons.mp (List.mem_of_mem_getLast? hc) with rfl | hc
    · exact .inr rfl
    · exact .inl (hgap c hc)
  · exact ⟨rfl, isLead_nil⟩

theorem isMemberName_of_fits (h : memberName.Fits groups before piece after groups') : groups' = groups ∧ IsMemberName piece := by
  obtain ⟨c, rest, rfl, hc, rfl, hrest⟩ := fits_one_append.mp h
  rw [Bool.or_eq_true, beq_iff_eq] at hc
  exact ⟨rfl, c, rest, rfl, hc, hrest⟩

/-- A method begins a line and has a parenthesis behind its name. -/
theorem exists_of_fits_method (h : methodPattern.Fits [] before piece after groups) :
    (∀ c ∈ before.getLast?, c = '\n') ∧ ∃ d : MemberHead, piece = d.chars ++ ['('] ∧ groups = d.marks before := by
  have haccess (groups : Groups) (before piece after : List Char) (groups' : Groups)
      (h : (firstOf [literal "get", literal "set"]).Fits groups before piece after groups') :
      groups' = groups ∧ ∀ c ∈ piece, isNameChar c = true := by
    obtain ⟨pattern, hpattern, hfits⟩ := fits_firstOf.mp h
    simp only [List.mem_cons, List.not_mem_nil, or_false] at hpattern
    rcases hpattern with rfl | rfl <;> exact isNameChar_of_fits_literal (by decide) _ _ _ _ _ hfits
  rw [methodPattern] at h
  obtain ⟨_, _, _, rfl, ⟨_, gap, _, rfl, ⟨_, name, _, rfl, ⟨_, access, _, rfl, ⟨_, star, _, rfl, ⟨_, async, _, rfl,
    ⟨_, static, _, rfl, ⟨_, indent, _, rfl, ⟨rfl, rfl, hbefore⟩, rfl, hindent⟩, hstatic⟩, hasync⟩, hstar⟩, haccessed⟩,
    _, hname, rfl⟩, rfl, hgap⟩, hsign⟩ := h
  obtain ⟨rfl, hleads⟩ := isLead_of_fits_modifier (isNameChar_of_fits_literal (by decide)) hstatic
  obtain ⟨rfl, hleads'⟩ := isLead_of_fits_modifier (isNameChar_of_fits_literal (by decide)) hasync
  obtain ⟨rfl, hleadsStar⟩ := isLead_of_fits_star hstar
  obtain ⟨rfl, hleadsAccess⟩ := isLead_of_fits_modifier haccess haccessed
  obtain ⟨rfl, hisName⟩ := isMemberName_of_fits hname
  obtain ⟨rfl, rfl⟩ := fits_char.mp hsign
  refine ⟨hbefore, ⟨indent, static ++ (async ++ (star ++ access)), name, gap, hindent,
    hleads.append (hleads'.append (hleadsStar.append hleadsAccess)), hisName, hgap⟩, ?_, ?_⟩
  · simp only [MemberHead.chars, List.append_assoc, List.nil_append]
  · simp only [MemberHead.marks, List.append_assoc, List.nil_append]

/-- A field begins a line and has a sign behind its name, or nothing. -/
theorem exists_of_fits_field (h : fieldPattern.Fits [] before piece after groups) :
    (∀ c ∈ before.getLast?, c = '\n') ∧ ∃ (d : MemberHead) (sign : List Char), piece = d.chars ++ sign ∧ groups = d.marks before ∧
      ((∃ c, sign = ['=', c]) ∨ sign = [';'] ∨ sign = [] ∧ ∀ c ∈ after.head?, c = '\n') := by
  rw [fieldPattern] at h
  obtain ⟨_, sign, _, rfl, ⟨_, gap, _, rfl, ⟨_, name, _, rfl, ⟨_, static, _, rfl, ⟨_, indent, _, rfl, ⟨rfl, rfl, hbefore⟩,
    rfl, hindent⟩, hstatic⟩, _, hname, rfl⟩, rfl, hgap⟩, hsign⟩ := h
  obtain ⟨rfl, hleads⟩ := isLead_of_fits_modifier (isNameChar_of_fits_literal (by decide)) hstatic
  obtain ⟨rfl, hisName⟩ := isMemberName_of_fits hname
  have hends : groups = [(1, ⟨byteLength (before ++ ([] ++ indent ++ static)), byteLength (before ++ ([] ++ indent ++ static) ++ name)⟩)] ∧
      ((∃ c, sign = ['=', c]) ∨ sign = [';'] ∨ sign = [] ∧ ∀ c ∈ after.head?, c = '\n') := by
    obtain ⟨pattern, hpattern, hfits⟩ := fits_firstOf.mp hsign
    simp only [List.mem_cons, List.not_mem_nil, or_false] at hpattern
    rcases hpattern with rfl | rfl | rfl
    · obtain ⟨_, rfl, rfl, c, rfl, -⟩ := fits_char_append.mp hfits
      exact ⟨rfl, .inl ⟨c, rfl⟩⟩
    · obtain ⟨rfl, rfl⟩ := fits_char.mp hfits
      exact ⟨rfl, .inr (.inl rfl)⟩
    · obtain ⟨rfl, rfl, hafter⟩ := hfits
      exact ⟨rfl, .inr (.inr ⟨rfl, hafter⟩)⟩
  obtain ⟨rfl, hends⟩ := hends
  refine ⟨hbefore, ⟨indent, static, name, gap, hindent, hleads, hisName, hgap⟩, sign, ?_, ?_, hends⟩
  · simp only [MemberHead.chars, List.append_assoc, List.nil_append]
  · simp only [MemberHead.marks, List.append_assoc, List.nil_append]

/-! ## Either pattern -/

/-- The patterns for the members of a class. -/
def memberPatterns : List Pattern := [methodPattern, fieldPattern]

namespace MemberHead

variable (d : MemberHead)

theorem mem_lead (h : c ∈ d.indent ++ d.lead) : isNameChar c = true ∨ isGap c = true ∨ c = '*' :=
  (List.mem_append.mp h).elim (fun h => .inr (.inl (d.indent_gap c h))) (d.isLead.mem c)

theorem last_lead : ∀ c ∈ (d.indent ++ d.lead).getLast?, isGap c = true ∨ c = '*' :=
  forall_getLast?_append (fun c hc => .inl (d.indent_gap c (List.mem_of_mem_getLast? hc))) d.isLead.last

theorem mem_name (h : c ∈ d.name) : isNameChar c = true ∨ c = '#' := by
  obtain ⟨first, rest, hname, hfirst, hrest⟩ := d.isName
  rw [hname] at h
  rcases List.mem_cons.mp h with rfl | h
  · exact hfirst.imp_left isNameChar_of_isAsciiIdentifierStart
  · exact .inl (hrest c h)

theorem mem_chars (h : c ∈ d.chars) : isNameChar c = true ∨ isGap c = true ∨ c ∈ ['*', '#'] := by
  rw [chars, ← List.append_assoc] at h
  rcases List.mem_append.mp h with h | h
  · exact (d.mem_lead h).imp_right (Or.imp_right fun hstar => by simp [hstar])
  · rcases List.mem_append.mp h with h | h
    · exact (d.mem_name h).imp_right fun hhash => .inr (by simp [hhash])
    · exact .inr (.inl (d.gap_gap c h))

theorem ne_of_mem {sign : Char} (h : c ∈ d.chars) (hsign : isNameChar sign = false ∧ isGap sign = false ∧ sign ∉ ['*', '#']) :
    c ≠ sign := ne_of_isNameChar_or (d.mem_chars h) hsign

theorem name_ne_nil : d.name ≠ [] := by
  obtain ⟨first, rest, hname, -⟩ := d.isName
  simp [hname]

/-- The name is not blank. -/
theorem exists_not_blank : ∃ c ∈ d.name, isBlank c = false := by
  obtain ⟨first, rest, hname, hfirst, -⟩ := d.isName
  refine ⟨first, by simp [hname], ?_⟩
  rcases hfirst with hfirst | rfl
  · refine Bool.eq_false_iff.mpr fun hblank => ?_
    exact absurd (isNameChar_of_isAsciiIdentifierStart hfirst) (by simp [isNameChar_of_isBlank hblank])
  · decide

end MemberHead

/-- What is found begins a line, and has no brace in it but the last of its characters. -/
theorem exists_of_fits_member (hpattern : pattern ∈ memberPatterns) (h : pattern.Fits [] before piece after groups) :
    (∀ c ∈ before.getLast?, c = '\n') ∧ (∀ c ∈ piece.dropLast, c ≠ '\x7b' ∧ c ≠ '\x7d') ∧
      ∃ (d : MemberHead) (sign : List Char), piece = d.chars ++ sign ∧ groups = d.marks before := by
  have hbraces (d : MemberHead) {sign : List Char} (hsign : ∀ c ∈ sign.dropLast, c = '=') :
      ∀ c ∈ (d.chars ++ sign).dropLast, c ≠ '\x7b' ∧ c ≠ '\x7d' := by
    have hchars : ∀ c ∈ d.chars, c ≠ '\x7b' ∧ c ≠ '\x7d' := fun c hc => ⟨d.ne_of_mem hc (by decide), d.ne_of_mem hc (by decide)⟩
    rw [List.dropLast_append]
    split
    · exact fun c hc => hchars c (List.dropLast_subset _ hc)
    · refine List.forall_mem_append.mpr ⟨hchars, fun c hc => ?_⟩
      rw [hsign c hc]
      decide
  simp only [memberPatterns, List.mem_cons, List.not_mem_nil, or_false] at hpattern
  rcases hpattern with rfl | rfl
  · obtain ⟨hbefore, d, rfl, hgroups⟩ := exists_of_fits_method h
    exact ⟨hbefore, hbraces d (by simp), d, ['('], rfl, hgroups⟩
  · obtain ⟨hbefore, d, sign, rfl, hgroups, hsign⟩ := exists_of_fits_field h
    refine ⟨hbefore, hbraces d ?_, d, sign, rfl, hgroups⟩
    rcases hsign with ⟨c, rfl⟩ | rfl | ⟨rfl, -⟩ <;> simp

theorem leastLength_memberPatterns : ∀ pattern ∈ memberPatterns, 0 < pattern.leastLength := by decide

/-- In blanks no member is found. -/
theorem matchAt?_member_blanks (hpattern : pattern ∈ memberPatterns) (h : ∀ c ∈ text, isBlank c = true) (before : List Char) :
    pattern.matchAt? (.between before text) = none := by
  refine matchAt?_eq_none_iff.mpr fun piece after groups' hsplit hfits => ?_
  obtain ⟨-, -, d, sign, rfl, -⟩ := exists_of_fits_member hpattern hfits
  obtain ⟨c, hc, hblank⟩ := d.exists_not_blank
  rw [h c (by simp [hsplit, MemberHead.chars, hc])] at hblank
  cases hblank

/-! ## What counts as a member -/

/-- The member that is found at a match in the body of a class. -/
def memberAt? (body : List Char) (m : Match) : Option (String × Nat) := do
  let span ← m.group? 1
  let name ← slice? body span.start span.stop
  if (depthAt? 0 body span.start).getD 1 ≠ 0 ∨ name.head? = some '#' then none
  else some (.ofList name, span.stop)

theorem publicMembers_eq (pattern : Pattern) (body : List Char) :
    publicMembers pattern body = (pattern.findAll body).filterMap (memberAt? body) := rfl

/-- The braces in front of the line and the first character of the name decide. -/
theorem memberAt?_of_marks {d : MemberHead} (hgroups : m.groups = d.marks before) (hbody : body = before ++ (d.chars ++ rest)) :
    memberAt? body m = if braceDepth before = 0 ∧ d.name.head? ≠ some '#' then
      some (.ofList d.name, byteLength (before ++ d.indent ++ d.lead ++ d.name)) else none := by
  have hsplit : body = (before ++ d.indent ++ d.lead) ++ (d.name ++ (d.gap ++ rest)) := by
    rw [hbody, MemberHead.chars]
    simp only [List.append_assoc]
  have hslice : slice? body (byteLength (before ++ d.indent ++ d.lead)) (byteLength (before ++ d.indent ++ d.lead ++ d.name)) =
      some d.name := hsplit ▸ slice?_append _ _ _
  have hdepth : depthAt? 0 body (byteLength (before ++ d.indent ++ d.lead)) = some (braceDepth before) := by
    have hlead : braceDepth (d.indent ++ d.lead) = 0 := braceDepth_eq_zero fun c hc => by
      have hmem : c ∈ d.chars := by
        rw [MemberHead.chars, ← List.append_assoc]
        exact List.mem_append_left _ hc
      exact ⟨d.ne_of_mem hmem (by decide), d.ne_of_mem hmem (by decide)⟩
    obtain ⟨first, more, hname, -⟩ := d.isName
    rw [hsplit, hname, List.cons_append, depthAt?_byteLength, List.append_assoc, braceDepth_append, hlead]
    simp
  have hspan : m.group? 1 = some ⟨byteLength (before ++ d.indent ++ d.lead), byteLength (before ++ d.indent ++ d.lead ++ d.name)⟩ := by
    rw [Match.group?, hgroups]
    rfl
  rw [memberAt?, hspan]
  simp only [Option.bind_eq_bind, Option.bind_some, hslice, hdepth, Option.getD_some]
  by_cases hzero : braceDepth before = 0 <;> by_cases hhash : d.name.head? = some '#' <;> simp [hzero, hhash]

end ApiImpact.Script

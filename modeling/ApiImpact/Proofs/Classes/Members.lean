import ApiImpact.Proofs.Classes.Written
import ApiImpact.Proofs.Text.Pieces

/-!
# Which members of a class are seen

The search for members goes through the body of a class member by member. The beginning of a member is found if nothing but blanks
stands in front of it on its line, and whatever is found between its parentheses and braces does not count.
-/

namespace ApiImpact.Classes

open Text Text.Pattern Lexical Script Assigned

variable {pattern : Pattern} {member : Member} {groups : Groups} {before piece after rest body blanks : List Char} {c : Char}

/-! ## The code of a member -/

theorem Spaces.code_item (spaces : Spaces) : code [spaces.item] = spaces.chars := List.append_nil _

theorem isGap_spaces (space : Option Spaces) : ∀ c ∈ code (space.toList.map Spaces.item), isGap c = true := by
  cases space with
  | none => exact nofun
  | some spaces =>
      rw [Option.toList_some, List.map_singleton, spaces.code_item]
      exact spaces.isGap

theorem isLead_spacedItems {word : Item} (hword : ∀ c ∈ word.masked, isNameChar c = true) (space : Option Spaces) :
    IsLead (code (spacedItems word space)) := by
  cases space with
  | none => exact isLead_nil
  | some spaces =>
      rw [spacedItems, code_cons, spaces.code_item]
      exact isLead_of_gap (fun c hc => .inl (hword c hc)) spaces.ne_nil spaces.isGap

namespace Member

variable (member : Member)

/-- The words in front of the name. -/
def lead : List Char := code (spacedItems staticItem member.static) ++ code (spacedItems asyncName.item member.async)

/-- The name with its hash sign. -/
def word : List Char := (if member.isPrivate then ['#'] else []) ++ member.name.chars

/-- The blanks behind the name. -/
def behind : List Char := code (member.space.toList.map Spaces.item)

/-- What stands before the parameters. -/
def front : List Char := member.lead ++ (member.word ++ member.behind)

def head : List Char := member.front ++ ['(']

def tail : List Char := code member.list ++ ')' :: (code member.gap.items ++ '\x7b' :: (code member.body ++ ['\x7d']))

theorem code_items : code member.items = member.head ++ member.tail := by
  have hhead : code member.headItems = member.head := by
    rw [headItems, head, front, lead, word, behind, code_append, code_append, code_append, code_cons, code_append]
    cases member.isPrivate <;> simp [Item.masked, Assigned.Name.item]
  have htail : code member.tailItems = member.tail := by
    rw [tailItems, tail]
    simp [Item.masked]
  rw [items, code_append, hhead, htail]

theorem isLead : IsLead member.lead :=
  (isLead_spacedItems (by decide) _).append (isLead_spacedItems (by decide) _)

theorem isGap_behind : ∀ c ∈ member.behind, isGap c = true := isGap_spaces member.space

theorem mem_word (h : c ∈ member.word) : isNameChar c = true ∨ c = '#' := by
  rw [word] at h
  rcases List.mem_append.mp h with h | h
  · split_ifs at h
    · exact .inr (List.mem_singleton.mp h)
    · cases h
  · exact .inl (member.name.isNameChar c h)

theorem word_ne_nil : member.word ≠ [] := List.append_ne_nil_of_right_ne_nil _ member.name.ne_nil

theorem mem_front (h : c ∈ member.front) : isNameChar c = true ∨ isGap c = true ∨ c ∈ ['*', '#'] := by
  rw [front] at h
  rcases List.mem_append.mp h with h | h
  · exact (member.isLead.mem c h).imp_right (Or.imp_right fun hstar => by simp [hstar])
  rcases List.mem_append.mp h with h | h
  · exact (member.mem_word h).imp_right fun hhash => .inr (by simp [hhash])
  · exact .inr (.inl (member.isGap_behind c h))

theorem ne_of_mem_front {sign : Char} (h : c ∈ member.front)
    (hsign : isNameChar sign = false ∧ isGap sign = false ∧ sign ∉ ['*', '#']) : c ≠ sign :=
  ne_of_isNameChar_or (member.mem_front h) hsign

theorem ne_of_mem_head {sign : Char} (h : c ∈ member.head)
    (hsign : isNameChar sign = false ∧ isGap sign = false ∧ sign ∉ ['*', '#', '(']) : c ≠ sign := by
  rcases List.mem_append.mp h with h | h
  · exact member.ne_of_mem_front h ⟨hsign.1, hsign.2.1, fun hmem => hsign.2.2 (by simp at hmem ⊢; tauto)⟩
  · rintro rfl
    exact hsign.2.2 (by simp [List.mem_singleton.mp h])

theorem closes_items : Closes '\x7b' '\x7d' (code member.items) := by
  have hhead : Closes '\x7b' '\x7d' member.head :=
    closes_of_forall fun _ hc => ⟨member.ne_of_mem_head hc (by decide), member.ne_of_mem_head hc (by decide)⟩
  have hlist : Closes '\x7b' '\x7d' (code member.list ++ [')']) := (member.list_balanced _ _ rfl).append (by decide)
  have hgap : Closes '\x7b' '\x7d' (code member.gap.items) := member.gap.isPart.balanced _ _ rfl
  have hbody : Closes '\x7b' '\x7d' ('\x7b' :: (code member.body ++ ['\x7d'])) := member.body_closes.nested rfl rfl
  have htail := hlist.append (hgap.append hbody)
  rw [List.append_assoc] at htail
  rw [code_items]
  exact hhead.append htail

end Member

/-! ## The beginning of a member -/

/-- The head of a member behind blanks, as the pattern for methods takes it. -/
structure IsHeadOf (d : MemberHead) (blanks : List Char) (member : Member) : Prop where
  lead : d.indent ++ d.lead = blanks ++ member.lead
  name : d.name = member.word
  gap : d.gap = member.behind

theorem IsHeadOf.chars {d : MemberHead} (h : IsHeadOf d blanks member) : d.chars ++ ['('] = blanks ++ member.head := by
  rw [MemberHead.chars, ← List.append_assoc, h.lead, h.name, h.gap, Member.head, Member.front]
  simp only [List.append_assoc]

/-- A character of a name, hash sign included. -/
def isMemberChar (c : Char) : Bool := isNameChar c || c == '#'

theorem isMemberChar_of_isBlank (h : isBlank c = true) : isMemberChar c = false := by
  rw [isMemberChar, isNameChar_of_isBlank h, Bool.false_or, beq_eq_false_iff_ne]
  rintro rfl
  exact absurd h (by decide)

theorem isMemberChar_of_isGap_or (h : isGap c = true ∨ c = '*') : isMemberChar c = false := by
  rcases h with h | rfl
  · exact isMemberChar_of_isBlank (isBlank_of_isGap h)
  · decide

theorem isGap_of_isMemberChar (h : isMemberChar c = true) : isGap c = false :=
  Bool.eq_false_iff.mpr fun hgap => by simp [isMemberChar_of_isGap_or (.inl hgap)] at h

/-- A line is taken apart in one way only at a name. -/
theorem append_inj_of_isMemberChar {lead lead' name name' gap gap' : List Char} (he : lead ++ (name ++ gap) = lead' ++ (name' ++ gap'))
    (hlead : ∀ c ∈ lead.getLast?, isMemberChar c = false) (hlead' : ∀ c ∈ lead'.getLast?, isMemberChar c = false)
    (hne : name ≠ []) (hname : ∀ c ∈ name, isMemberChar c = true) (hne' : name' ≠ []) (hname' : ∀ c ∈ name', isMemberChar c = true)
    (hgap : ∀ c ∈ gap, isGap c = true) (hgap' : ∀ c ∈ gap', isGap c = true) : lead = lead' ∧ name = name' ∧ gap = gap' := by
  have hstop {lead name : List Char} (hne : name ≠ []) (hname : ∀ c ∈ name, isMemberChar c = true) :
      ∀ c ∈ (lead ++ name).getLast?, isGap c = false := by
    rw [List.getLast?_append_of_ne_nil _ hne]
    exact fun c hc => isGap_of_isMemberChar (hname c (List.mem_of_mem_getLast? hc))
  rw [← List.append_assoc, ← List.append_assoc] at he
  obtain ⟨he, rfl⟩ := append_inj_of_stop_right hgap (hstop hne hname) hgap' (hstop hne' hname') he
  obtain ⟨rfl, rfl⟩ := append_inj_of_stop_right hname hlead hname' hlead' (List.append_cancel_right he)
  exact ⟨rfl, rfl, rfl⟩

theorem isMemberChar_of_mem_name {d : MemberHead} (h : c ∈ d.name) : isMemberChar c = true := by
  simpa [isMemberChar] using d.mem_name h

theorem Member.isMemberChar (member : Member) (h : c ∈ member.word) : isMemberChar c = true := by
  simpa [Classes.isMemberChar] using member.mem_word h

/-- What is found where only blanks stand before a member is its head. -/
theorem exists_of_fits_method_head (h : methodPattern.Fits [] before piece after groups)
    (hsplit : piece ++ after = blanks ++ (member.head ++ rest)) (hblanks : ∀ c ∈ blanks, isBlank c = true) :
    (∀ c ∈ before.getLast?, c = '\n') ∧ (∀ c ∈ blanks, isGap c = true) ∧ IsMemberName member.word ∧ after = rest ∧
      ∃ d, IsHeadOf d blanks member ∧ piece = d.chars ++ ['('] ∧ groups = d.marks before := by
  obtain ⟨hbefore, d, rfl, hgroups⟩ := exists_of_fits_method h
  have hopening : d.chars ++ '(' :: after = (blanks ++ member.front) ++ '(' :: rest := by
    simpa [Member.head] using hsplit
  have hopen : ∀ c ∈ blanks ++ member.front, (c != '(') = true := by
    refine List.forall_mem_append.mpr ⟨fun c hc => bne_iff_ne.mpr ?_, fun c hc => bne_iff_ne.mpr (member.ne_of_mem_front hc (by decide))⟩
    rintro rfl
    exact absurd (hblanks _ hc) (by decide)
  obtain ⟨hchars, hrest⟩ := append_inj_of_stop (p := (· != '(')) (fun c hc => bne_iff_ne.mpr (d.ne_of_mem hc (by decide)))
    (by simp) hopen (by simp) hopening
  have hsides : (d.indent ++ d.lead) ++ (d.name ++ d.gap) = (blanks ++ member.lead) ++ (member.word ++ member.behind) := by
    rw [List.append_assoc, List.append_assoc]
    exact hchars
  obtain ⟨hlead, hname, hgap⟩ := append_inj_of_isMemberChar hsides (fun c hc => isMemberChar_of_isGap_or (d.last_lead c hc))
    (forall_getLast?_append (fun c hc => isMemberChar_of_isBlank (hblanks c (List.mem_of_mem_getLast? hc)))
      fun c hc => isMemberChar_of_isGap_or (member.isLead.last c hc))
    d.name_ne_nil (fun c => isMemberChar_of_mem_name) member.word_ne_nil (fun c => member.isMemberChar) d.gap_gap member.isGap_behind
  refine ⟨hbefore, fun c hc => ?_, hname ▸ d.isName, (List.cons.inj hrest).2, d, ⟨hlead, hname, hgap⟩, rfl, hgroups⟩
  rcases d.mem_lead (hlead ▸ List.mem_append_left _ hc) with h | h | rfl
  · rw [isNameChar_of_isBlank (hblanks c hc)] at h
    cases h
  · exact h
  · exact absurd (hblanks _ hc) (by decide)

/-- At a member no field is found. -/
theorem not_fits_field_head (h : fieldPattern.Fits [] before piece after groups)
    (hsplit : piece ++ after = blanks ++ (member.head ++ rest)) (hblanks : ∀ c ∈ blanks, isBlank c = true) : False := by
  obtain ⟨-, d, sign, rfl, -, hsign⟩ := exists_of_fits_field h
  have hends : ∀ c ∈ (sign ++ after).head?, c ∈ ['=', ';', '\n'] := by
    rcases hsign with ⟨c, rfl⟩ | rfl | ⟨rfl, hafter⟩
    · simp
    · simp
    · exact fun c hc => by simp [hafter c hc]
  have hopening : d.chars ++ (sign ++ after) = (blanks ++ member.front) ++ '(' :: rest := by
    simpa [Member.head] using hsplit
  rcases List.append_eq_append_iff.mp hopening with ⟨more, hchars, hmore⟩ | ⟨more, hchars, hmore⟩
  · cases more with
    | nil => exact absurd (hends '(' (by rw [hmore]; rfl)) (by decide)
    | cons x more =>
        have hx := hends x (by rw [hmore]; rfl)
        -- the sign behind the name would be a line break between the blanks, and the name one of them
        rcases List.append_eq_append_iff.mp hchars with ⟨inner, -, hfront⟩ | ⟨inner, hname, -⟩
        · have hsigns : ∀ x ∈ ['=', ';', '\n'], isNameChar x = false ∧ isGap x = false ∧ x ∉ ['*', '#'] := by decide
          exact member.ne_of_mem_front (by simp [hfront]) (hsigns x hx) rfl
        · obtain ⟨c, hc, hblank⟩ := d.exists_not_blank
          rw [hblanks c (by simp [hname, MemberHead.chars, hc])] at hblank
          cases hblank
  · cases more with
    | nil => exact absurd (hends '(' (by rw [← List.nil_append (sign ++ after), ← hmore]; rfl)) (by decide)
    | cons x more =>
        obtain rfl : '(' = x := (List.cons.inj hmore).1
        have hmem : '(' ∈ d.chars := by simp [hchars]
        exact d.ne_of_mem hmem (by decide) rfl

theorem fits_modifier_spacedItems {word : String} {item : Item} (h : item.masked = word.toList) (space : Option Spaces) :
    (modifier (literal word)).Fits groups before (code (spacedItems item space)) after groups := by
  cases space with
  | none => exact .inr ⟨rfl, rfl⟩
  | some spaces =>
      rw [spacedItems, code_cons, spaces.code_item, h]
      exact .inl ⟨word.toList, spaces.chars, groups, rfl, fits_literal.mpr ⟨rfl, rfl⟩,
        fits_most1.mpr ⟨rfl, spaces.ne_nil, spaces.isGap⟩⟩

/-- Where a line begins with a member, its head fits the pattern for methods. -/
theorem exists_fits_method_head (hbefore : ∀ c ∈ before.getLast?, c = '\n') (hblanks : ∀ c ∈ blanks, isGap c = true)
    (hname : IsMemberName member.word) : ∃ groups, methodPattern.Fits [] before (blanks ++ member.head) after groups := by
  have hfits (before after : List Char) : memberName.Fits [] before member.word after [] := by
    obtain ⟨first, letters, hword, hfirst, hletters⟩ := hname
    rw [hword]
    exact fits_one_append.mpr ⟨first, letters, rfl, by simpa using hfirst, rfl, hletters⟩
  have hstatic (before after : List Char) := @fits_modifier_spacedItems [] before after "static" staticItem rfl member.static
  have hasync (before after : List Char) := @fits_modifier_spacedItems [] before after "async" asyncName.item rfl member.async
  have hsplit : blanks ++ member.head = blanks ++ (code (spacedItems staticItem member.static) ++
      (code (spacedItems asyncName.item member.async) ++ ([] ++ ([] ++ (member.word ++ (member.behind ++ ['('])))))) := by
    simp only [Member.head, Member.front, Member.lead, List.append_assoc, List.nil_append]
  rw [hsplit, methodPattern]
  simp only [fits_append_assoc]
  exact ⟨_, [], _, [], rfl, ⟨rfl, rfl, hbefore⟩, blanks, _, [], rfl, ⟨rfl, hblanks⟩, _, _, [], rfl, hstatic _ _, _, _, [], rfl, hasync _ _,
    [], _, [], rfl, .inr ⟨rfl, rfl⟩, [], _, [], rfl, .inr ⟨rfl, rfl⟩, member.word, _, _, rfl, ⟨[], hfits _ _, rfl⟩, member.behind, _, _, rfl,
    ⟨rfl, member.isGap_behind⟩, fits_char.mpr ⟨rfl, rfl⟩⟩

theorem beginsLine_iff {text : List Char} : beginsLine text = true ↔ ∃ lines indent, text = lines ++ indent ∧
    (∀ c ∈ lines.getLast?, c = '\n') ∧ ∀ c ∈ indent, isGap c = true := by
  rw [beginsLine, List.all_eq_true]
  constructor
  · intro h
    refine ⟨(text.reverse.dropWhile (· != '\n')).reverse, (text.reverse.takeWhile (· != '\n')).reverse, ?_, fun c hc => ?_, fun c hc => ?_⟩
    · rw [← List.reverse_append, List.takeWhile_append_dropWhile, List.reverse_reverse]
    · rw [List.getLast?_reverse] at hc
      have hstop := List.head?_dropWhile_not (· != '\n') text.reverse
      rw [hc] at hstop
      simpa using hstop
    · exact h c (List.mem_reverse.mp hc)
  · rintro ⟨lines, indent, rfl, hlines, hindent⟩
    have hline : ∀ c ∈ indent.reverse, (c != '\n') = true := fun c hc => bne_iff_ne.mpr (by
      rintro rfl
      exact absurd (hindent _ (List.mem_reverse.mp hc)) (by decide))
    rw [List.reverse_append, takeWhile_append hline]
    · exact fun c hc => hindent c (List.mem_reverse.mp hc)
    · rw [List.head?_reverse]
      exact fun c hc => by simp [hlines c hc]

/-! ## The search at a member -/

/-- Where no match begins between the blanks before a member, none begins in its head. -/
theorem findAllFrom_skip_head (hpattern : pattern ∈ memberPatterns) (hnone : ∀ front back, blanks = front ++ back →
      pattern.matchAt? (.between (before ++ front) (back ++ (member.head ++ rest))) = none) :
    pattern.findAllFrom (.between before (blanks ++ (member.head ++ rest))) =
      pattern.findAllFrom (.between (before ++ (blanks ++ member.head)) rest) := by
  rw [← List.append_assoc]
  refine findAllFrom_skip fun front back hsplit hne => ?_
  rcases List.append_eq_append_iff.mp hsplit with ⟨inner, rfl, hhead⟩ | ⟨inner, hblanks, rfl⟩
  · cases inner with
    | nil =>
        rw [List.nil_append] at hhead
        rw [List.append_nil, ← hhead]
        simpa using hnone blanks [] (List.append_nil _).symm
    | cons c inner =>
        refine matchAt?_eq_none_iff.mpr fun piece after groups' _ hfits => ?_
        obtain ⟨hbegins, -⟩ := exists_of_fits_member hpattern hfits
        obtain ⟨last, hlast⟩ := Option.ne_none_iff_exists'.mp (mt List.getLast?_eq_none_iff.mp (List.cons_ne_nil c inner))
        have hmem : last ∈ member.head := by
          rw [hhead]
          exact List.mem_append_left _ (List.mem_of_mem_getLast? hlast)
        refine member.ne_of_mem_head hmem (by decide) (hbegins last ?_)
        rw [← List.append_assoc, List.getLast?_append_of_ne_nil _ (List.cons_ne_nil c inner)]
        exact hlast
  · rw [List.append_assoc]
    exact hnone front inner hblanks

/-! ### The head -/

theorem Member.head?_word : member.word.head? = some '#' ↔ member.isPrivate = true := by
  rw [Member.word]
  cases member.isPrivate with
  | true => simp
  | false =>
      have hname : ∀ c ∈ member.name.chars.head?, c ≠ '#' := by
        rintro _ hc rfl
        exact absurd (member.name.isNameChar _ (List.mem_of_mem_head? hc)) (by decide)
      simpa using fun h => hname '#' h rfl

theorem isMemberName_word (h : member.isPrivate = false) :
    IsMemberName member.word ↔ member.name.chars.head?.any isAsciiIdentifierStart = true := by
  obtain ⟨first, letters, hname⟩ := List.exists_cons_of_ne_nil member.name.ne_nil
  have hword : member.word = first :: letters := by rw [Member.word, h, hname]; rfl
  have hchars := member.name.isNameChar
  rw [hname] at hchars
  obtain ⟨hfirst, hletters⟩ := List.forall_mem_cons.mp hchars
  rw [hword, hname, List.head?_cons, Option.any_some]
  constructor
  · rintro ⟨c, rest, hcons, hc | rfl, -⟩
    · rwa [(List.cons.inj hcons).1]
    · rw [(List.cons.inj hcons).1] at hfirst
      exact absurd hfirst (by decide)
  · exact fun hstart => ⟨first, letters, rfl, .inl hstart, hletters⟩

theorem Site.isSeen_iff {site : Site} : site.isSeen = true ↔
    site.member.isPrivate = false ∧ beginsLine site.before = true ∧ IsMemberName site.member.word := by
  simp only [isSeen, Bool.and_eq_true, Bool.not_eq_true', and_assoc]
  exact and_congr_right fun h => and_congr_right fun _ => (isMemberName_word h).symm

/-- What counts of the member that stands there: its name and where that ends. -/
def Site.taken? (site : Site) : Option (String × Nat) :=
  if site.isSeen then some (site.member.text, byteLength (site.before ++ site.member.lead ++ site.member.word)) else none

/-- The name of a member counts that begins a line. -/
theorem memberAt?_head {m : Match} {d : MemberHead} {lines indent : List Char} (hhead : IsHeadOf d indent member)
    (hgroups : m.groups = d.marks lines) (hlevel : braceDepth lines = 0) (hlines : ∀ c ∈ lines.getLast?, c = '\n')
    (hindent : ∀ c ∈ indent, isGap c = true) (rest : List Char) :
    memberAt? (lines ++ (indent ++ (member.head ++ rest))) m = Site.taken? ⟨lines ++ indent, member⟩ := by
  have hname : IsMemberName member.word := hhead.name ▸ d.isName
  have hbody : lines ++ (indent ++ (member.head ++ rest)) = lines ++ (d.chars ++ '(' :: rest) := by
    rw [← List.append_assoc indent, ← hhead.chars]
    simp
  have hoffset : lines ++ d.indent ++ d.lead ++ d.name = lines ++ indent ++ member.lead ++ member.word := by
    rw [List.append_assoc lines, hhead.lead, hhead.name, ← List.append_assoc]
  rw [memberAt?_of_marks hgroups hbody, hoffset, hhead.name, Site.taken?]
  cases hprivate : member.isPrivate with
  | true => rw [if_neg fun h => h.2 (Member.head?_word.mpr hprivate), if_neg fun h => by simp [Site.isSeen, hprivate] at h]
  | false =>
      have hbegins : beginsLine (lines ++ indent) = true := beginsLine_iff.mpr ⟨lines, indent, rfl, hlines, hindent⟩
      have hpublic : member.word.head? ≠ some '#' := fun h => by simp [Member.head?_word.mp h] at hprivate
      have hword : member.word = member.name.chars := by rw [Member.word, hprivate]; rfl
      rw [if_pos ⟨hlevel, hpublic⟩, if_pos (Site.isSeen_iff.mpr ⟨hprivate, hbegins, hname⟩), hword]
      rfl

/-- The pattern takes `takes` of each member, if it stands behind another one or before all of them. -/
def Takes (pattern : Pattern) (takes : Site → Option (String × Nat)) : Prop :=
  ∀ before blanks member rest, (∀ c ∈ before.getLast?, c = '\x7d') → braceDepth before = 0 → (∀ c ∈ blanks, isBlank c = true) →
    ∃ found, pattern.findAllFrom (.between before (blanks ++ (member.head ++ rest))) =
        found ++ pattern.findAllFrom (.between (before ++ (blanks ++ member.head)) rest) ∧
      found.filterMap (memberAt? (before ++ (blanks ++ (member.head ++ rest)))) = (takes ⟨before ++ blanks, member⟩).toList

theorem takes_field : Takes fieldPattern fun _ => none := by
  intro before blanks member rest _ _ hblanks
  refine ⟨[], ?_, rfl⟩
  rw [findAllFrom_skip_head (by simp [memberPatterns]) fun front back hsplit => ?_, List.nil_append]
  refine matchAt?_eq_none_iff.mpr fun piece after groups' he hfits => not_fits_field_head hfits he.symm fun c hc => ?_
  exact hblanks c (hsplit ▸ List.mem_append_right _ hc)

/-- The blanks on the last line stand behind the member before it. -/
theorem exists_indent {before : List Char} (hends : ∀ c ∈ before.getLast?, c = '\x7d') (h : beginsLine (before ++ blanks) = true) :
    ∃ front indent, blanks = front ++ indent ∧ (∀ c ∈ (before ++ front).getLast?, c = '\n') ∧ ∀ c ∈ indent, isGap c = true := by
  obtain ⟨lines, indent, hsplit, hlines, hindent⟩ := beginsLine_iff.mp h
  rcases List.append_eq_append_iff.mp hsplit with ⟨front, rfl, rfl⟩ | ⟨more, rfl, rfl⟩
  · exact ⟨front, indent, rfl, hlines, hindent⟩
  · cases hmore : more.getLast? with
    | none =>
        obtain rfl := List.getLast?_eq_none_iff.mp hmore
        exact ⟨[], blanks, rfl, by simpa using hlines, hindent⟩
    | some c =>
        obtain rfl : c = '\x7d' := getLast?_of_append hends c hmore
        exact absurd (hindent _ (List.mem_append_left _ (List.mem_of_mem_getLast? hmore))) (by decide)

theorem takes_method : Takes methodPattern Site.taken? := by
  intro before blanks member rest hends hlevel hblanks
  by_cases hfound : beginsLine (before ++ blanks) = true ∧ IsMemberName member.word
  · obtain ⟨hbegins, hname⟩ := hfound
    obtain ⟨front, indent, rfl, hlines, hindent⟩ := exists_indent hends hbegins
    have hfront : ∀ c ∈ front, isBlank c = true := fun c hc => hblanks c (List.mem_append_left _ hc)
    -- no line before the last one holds anything else than blanks
    have hskip : methodPattern.findAllFrom (.between before (front ++ (indent ++ (member.head ++ rest)))) =
        methodPattern.findAllFrom (.between (before ++ front) (indent ++ (member.head ++ rest))) := by
      refine findAllFrom_skip fun first second hsplit hne => matchAt?_eq_none_iff.mpr fun piece after groups' he hfits => ?_
      have hsecond : ∀ c ∈ second ++ indent, isBlank c = true := List.forall_mem_append.mpr
        ⟨fun c hc => hfront c (hsplit ▸ List.mem_append_right _ hc), fun c hc => isBlank_of_isGap (hindent c hc)⟩
      obtain ⟨-, hgap, -⟩ := exists_of_fits_method_head hfits (by rw [← he, List.append_assoc]) hsecond
      obtain ⟨last, hlast⟩ := Option.ne_none_iff_exists'.mp (mt List.getLast?_eq_none_iff.mp hne)
      rw [hsplit, ← List.append_assoc, List.getLast?_append_of_ne_nil _ hne] at hlines
      obtain rfl := hlines last hlast
      exact absurd (hgap _ (List.mem_append_left _ (List.mem_of_mem_getLast? hlast))) (by decide)
    obtain ⟨groups, hfits⟩ : ∃ groups, methodPattern.Fits [] (before ++ front) (indent ++ member.head) rest groups :=
      exists_fits_method_head hlines hindent hname
    obtain ⟨⟨m, place⟩, hmatch⟩ := Option.ne_none_iff_exists'.mp
      fun hnone => matchAt?_eq_none_iff.mp hnone (indent ++ member.head) rest groups (List.append_assoc _ _ _).symm hfits
    obtain ⟨piece, after, he, hfits, -, rfl⟩ := exists_fits_of_matchAt? hmatch
    obtain ⟨-, -, -, rfl, d, hhead, rfl, hmarks⟩ := exists_of_fits_method_head hfits he.symm fun c hc => isBlank_of_isGap (hindent c hc)
    have hlevel' : braceDepth (before ++ front) = 0 := by
      have hblank : braceDepth front = 0 := braceDepth_eq_zero fun c hc =>
        ⟨ne_of_isBlank (hfront c hc) (by decide), ne_of_isBlank (hfront c hc) (by decide)⟩
      rw [braceDepth_append, hlevel, hblank]
      rfl
    have hmember := memberAt?_head hhead hmarks hlevel' hlines hindent after
    have hne : indent ++ member.head ≠ [] := by simp [Member.head]
    rw [hhead.chars, ← List.append_assoc] at hmatch
    refine ⟨[m], ?_, ?_⟩
    · rw [List.append_assoc, hskip, ← List.append_assoc indent, findAllFrom_of_some hne hmatch]
      simp only [List.append_assoc, List.singleton_append]
    · rw [List.append_assoc, ← List.append_assoc before, ← List.append_assoc before, List.filterMap_cons, hmember]
      cases Site.taken? ⟨before ++ front ++ indent, member⟩ <;> rfl
  · refine ⟨[], ?_, ?_⟩
    · rw [findAllFrom_skip_head (by simp [memberPatterns]) fun front back hsplit => ?_, List.nil_append]
      refine matchAt?_eq_none_iff.mpr fun piece after groups' he hfits => hfound ?_
      have hback : ∀ c ∈ back, isBlank c = true := fun c hc => hblanks c (hsplit ▸ List.mem_append_right _ hc)
      obtain ⟨hlines, hgap, hname, -⟩ := exists_of_fits_method_head hfits he.symm hback
      exact ⟨beginsLine_iff.mpr ⟨before ++ front, back, by rw [hsplit, List.append_assoc], hlines, hgap⟩, hname⟩
    · rw [Site.taken?, if_neg fun h => hfound (Site.isSeen_iff.mp h).2]
      rfl

/-! ### The parameters and the body -/

theorem Member.braceDepth_head (member : Member) : braceDepth member.head = 0 :=
  braceDepth_eq_zero fun _ hc => ⟨member.ne_of_mem_head hc (by decide), member.ne_of_mem_head hc (by decide)⟩

theorem Member.braceDepth_items (member : Member) : braceDepth (code member.items) = 0 := by
  rw [braceDepth_eq_excess, member.closes_items.total]

theorem Member.exists_tail (member : Member) : ∃ inner, member.tail = inner ++ ['\x7d'] :=
  ⟨code member.list ++ ')' :: (code member.gap.items ++ '\x7b' :: code member.body), by simp [Member.tail]⟩

/-- What is found outside the braces of a member begins a line of it. -/
theorem braceDepth_ne_zero (hpattern : pattern ∈ memberPatterns) (hquiet : member.IsQuiet) {base front back rest : List Char}
    (htail : member.tail = front ++ (piece ++ back)) (hfits : pattern.Fits [] (base ++ member.head ++ front) piece (back ++ rest) groups) :
    braceDepth front ≠ 0 := by
  intro hzero
  obtain ⟨hbegins, hbraces, -⟩ := exists_of_fits_member hpattern hfits
  rcases List.eq_nil_or_concat front with rfl | ⟨front, c, rfl⟩
  · rw [List.append_nil, Member.head, ← List.append_assoc, List.getLast?_concat] at hbegins
    exact absurd (hbegins '(' rfl) (by decide)
  rw [List.concat_eq_append] at hfits hbegins hzero htail
  obtain rfl : c = '\n' := hbegins c (by rw [← List.append_assoc, List.getLast?_concat]; rfl)
  have hlevel : braceDepth (member.head ++ front) = 0 := by
    rw [braceDepth_append, member.braceDepth_head, Int.zero_add, ← hzero, braceDepth_append]
    exact (Int.add_zero _).symm
  have hsplit : code member.items = (member.head ++ front) ++ '\n' :: (piece ++ back) := by
    rw [member.code_items, htail]
    simp
  cases back with
  | nil =>
      -- the brace that ends the member would be the only one in what is found
      obtain ⟨inner, hinner⟩ := member.exists_tail
      have hne : piece ≠ [] := by
        rintro rfl
        exact not_fits_nil (leastLength_memberPatterns pattern hpattern) _ _ _ hfits
      have hlast : piece.getLast hne = '\x7d' := by
        have heq := congrArg List.getLast? (htail.symm.trans hinner)
        rw [List.append_nil, List.getLast?_append_of_ne_nil _ hne, List.getLast?_concat, List.getLast?_eq_some_getLast hne] at heq
        exact Option.some.inj heq
      have hpiece : braceDepth piece = -1 := by
        rw [← List.dropLast_append_getLast hne, hlast, braceDepth_append, braceDepth_eq_zero hbraces]
        rfl
      have htotal := member.braceDepth_items
      rw [hsplit, List.append_nil, braceDepth_append, braceDepth_cons, hlevel, hpiece] at htotal
      exact absurd htotal (by decide)
  | cons d back =>
      obtain ⟨recorded, hquieted⟩ : ∃ recorded, pattern.Fits [] (member.head ++ front ++ ['\n']) piece (d :: back) recorded :=
        hfits.exists_of_neighbours (by simp) rfl
      exact matchAt?_eq_none_iff.mp (hquiet _ _ hsplit hlevel pattern hpattern) piece (d :: back) recorded rfl hquieted

/-- Between the parentheses and the braces of a member nothing counts. -/
theorem exists_findAllFrom_tail (hpattern : pattern ∈ memberPatterns) (hquiet : member.IsQuiet) {base : List Char}
    (hlevel : braceDepth base = 0) (rest : List Char) : ∃ found,
      pattern.findAllFrom (.between (base ++ member.head) (member.tail ++ rest)) =
        found ++ pattern.findAllFrom (.between (base ++ code member.items) rest) ∧
      found.filterMap (memberAt? (base ++ (code member.items ++ rest))) = [] := by
  obtain ⟨inner, hinner⟩ := member.exists_tail
  obtain ⟨found, hfound, hall⟩ := @exists_findAllFrom_append_of_dropLast pattern '\x7d' member.tail rest
    (not_fits_nil (leastLength_memberPatterns pattern hpattern))
    (fun _ _ _ _ h hmem => ((exists_of_fits_member hpattern h).2.1 _ hmem).2 rfl) (by simp [hinner]) (base ++ member.head)
  refine ⟨found, by rw [hfound, member.code_items, List.append_assoc], List.filterMap_eq_nil_iff.mpr fun m hm => ?_⟩
  obtain ⟨front, piece, back, htail, hfits, -⟩ := hall m hm
  have hdepth := braceDepth_ne_zero hpattern hquiet htail hfits
  obtain ⟨-, -, d, sign, rfl, hmarks⟩ := exists_of_fits_member hpattern hfits
  have hbody : base ++ (code member.items ++ rest) = (base ++ member.head ++ front) ++ (d.chars ++ (sign ++ (back ++ rest))) := by
    rw [member.code_items, htail]
    simp only [List.append_assoc]
  rw [memberAt?_of_marks hmarks hbody, if_neg]
  rintro ⟨hzero, -⟩
  rw [braceDepth_append, braceDepth_append, hlevel, member.braceDepth_head] at hzero
  exact hdepth (by simpa using hzero)

/-! ## All members -/

theorem Entry.code_items (entry : Entry) : code entry.items = code entry.before.items ++ code entry.member.items := code_append

theorem braceDepth_gap (gap : Gap) : braceDepth (code gap.items) = 0 :=
  braceDepth_eq_zero fun c hc => ⟨ne_of_isBlank (gap.isBlank c hc) (by decide), ne_of_isBlank (gap.isBlank c hc) (by decide)⟩

/-- The search takes what the pattern takes of each member, and nothing else. -/
theorem filterMap_findAllFrom (hpattern : pattern ∈ memberPatterns) {takes : Site → Option (String × Nat)} (htakes : Takes pattern takes)
    {entries : List Entry} (hquiet : ∀ entry ∈ entries, entry.member.IsQuiet) {before : List Char} (hends : ∀ c ∈ before.getLast?, c = '\x7d')
    (hlevel : braceDepth before = 0) (ending : Gap) :
    (pattern.findAllFrom (.between before (code (entries.flatMap Entry.items ++ ending.items)))).filterMap
        (memberAt? (before ++ code (entries.flatMap Entry.items ++ ending.items))) = (sites before entries).filterMap takes := by
  induction entries generalizing before with
  | nil =>
      have hnone : pattern.findAllFrom (.between before (code ending.items ++ [])) =
          pattern.findAllFrom (.between (before ++ code ending.items) []) := findAllFrom_skip fun front rest hsplit _ => by
        rw [List.append_nil]
        exact matchAt?_member_blanks hpattern (fun c hc => ending.isBlank c (hsplit ▸ List.mem_append_right _ hc)) _
      rw [List.append_nil, findAllFrom_of_none_nil (matchAt?_member_blanks hpattern (List.forall_mem_nil _) _)] at hnone
      rw [List.flatMap_nil, List.nil_append, hnone]
      rfl
  | cons entry entries ih =>
      obtain ⟨hquiet, hlater⟩ := List.forall_mem_cons.mp hquiet
      have hbase : braceDepth (before ++ code entry.before.items) = 0 := by
        rw [braceDepth_append, hlevel, braceDepth_gap]
        rfl
      have hsplit : code ((entry :: entries).flatMap Entry.items ++ ending.items) =
          code entry.before.items ++ (code entry.member.items ++ code (entries.flatMap Entry.items ++ ending.items)) := by
        rw [List.flatMap_cons, List.append_assoc, code_append, entry.code_items, List.append_assoc]
      have hnext : before ++ code entry.items = (before ++ code entry.before.items) ++ code entry.member.items := by
        rw [entry.code_items, List.append_assoc]
      have hlast : ∀ c ∈ (before ++ code entry.items).getLast?, c = '\x7d' := by
        obtain ⟨inner, hinner⟩ := entry.member.exists_tail
        rw [hnext, entry.member.code_items, hinner, ← List.append_assoc, ← List.append_assoc, List.getLast?_concat]
        simp
      have hdepth : braceDepth (before ++ code entry.items) = 0 := by
        rw [hnext, braceDepth_append, hbase, entry.member.braceDepth_items]
        rfl
      obtain ⟨found, hfound, hcounted⟩ := htakes before _ entry.member (entry.member.tail ++ code (entries.flatMap Entry.items ++ ending.items))
        hends hlevel entry.before.isBlank
      obtain ⟨inside, hinside, hnone⟩ := exists_findAllFrom_tail hpattern hquiet hbase (code (entries.flatMap Entry.items ++ ending.items))
      have hrest := ih hlater hlast hdepth
      have hmember : code entry.member.items ++ code (entries.flatMap Entry.items ++ ending.items) =
          entry.member.head ++ (entry.member.tail ++ code (entries.flatMap Entry.items ++ ending.items)) := by
        rw [entry.member.code_items, List.append_assoc]
      rw [← hmember] at hfound hcounted
      rw [hnext, List.append_assoc (before ++ code entry.before.items), List.append_assoc before] at hrest
      rw [List.append_assoc] at hinside hnone
      rw [hsplit, hfound, hinside, List.filterMap_append, List.filterMap_append, hcounted, hnone, List.nil_append, hrest, sites,
        List.filterMap_cons, hnext]
      cases takes ⟨before ++ code entry.before.items, entry.member⟩ <;> rfl

end ApiImpact.Classes

import Mathlib.Data.List.Find
import ApiImpact.Proofs.Classes.Members
import ApiImpact.Proofs.Script.Shown

/-!
# Classes and the lines on which their members stand

A class shows with the members that are seen, each of which begins a line. So two layouts of one list of members give the same class
if every public member begins a line in both, and a class whose members share a line loses all but the first of them.
-/

namespace ApiImpact.Classes

open Text Text.Pattern Lexical Script Script.Source Assigned
open Program (headWords chars_headWords functionAt?_eq declarationAt?_class)

variable {s : Source} {cls : Class} {front after : List Char} {start : Nat}

/-! ## The members of a class -/

theorem map_member_sites (entries : List Entry) (before : List Char) : (sites before entries).map Site.member = entries.map Entry.member := by
  induction entries generalizing before with
  | nil => rfl
  | cons entry entries ih => rw [sites, List.map_cons, List.map_cons, ih]

theorem Class.members_eq (cls : Class) : cls.members = (sites [] cls.entries).map Site.member := (map_member_sites cls.entries []).symm

/-- A member stands in the body behind what is in front of it. -/
theorem exists_of_mem_sites {entries : List Entry} {before : List Char} {site : Site} (h : site ∈ sites before entries) :
    ∃ rest, before ++ code (entries.flatMap Entry.items) = site.before ++ (code site.member.items ++ rest) := by
  induction entries generalizing before with
  | nil => cases h
  | cons entry entries ih =>
      rw [List.flatMap_cons, code_append]
      rcases List.mem_cons.mp h with rfl | h
      · refine ⟨code (entries.flatMap Entry.items), ?_⟩
        rw [entry.code_items]
        simp only [List.append_assoc]
      · obtain ⟨rest, hrest⟩ := ih h
        exact ⟨rest, by rw [← List.append_assoc, hrest]⟩

/-- The members for which the search goes through the body of the class. -/
theorem publicMembers_body (hquiet : ∀ member ∈ cls.members, member.IsQuiet) :
    publicMembers methodPattern (code cls.bodyItems) = (sites [] cls.entries).filterMap Site.taken? ∧
      publicMembers fieldPattern (code cls.bodyItems) = [] := by
  have hentries : ∀ entry ∈ cls.entries, entry.member.IsQuiet := fun entry hentry => hquiet _ (List.mem_map_of_mem hentry)
  have hends : ∀ c ∈ ([] : List Char).getLast?, c = '\x7d' := nofun
  have hfields := filterMap_findAllFrom (by simp [memberPatterns]) takes_field hentries hends rfl cls.ending
  rw [publicMembers_eq, publicMembers_eq]
  refine ⟨filterMap_findAllFrom (by simp [memberPatterns]) takes_method hentries hends rfl cls.ending, ?_⟩
  rw [List.filterMap_none] at hfields
  exact hfields

theorem map_taken? (sites : List Site) : (sites.filterMap Site.taken?).map Prod.fst = ((sites.filter Site.isSeen).map Site.member).map Member.text := by
  induction sites with
  | nil => rfl
  | cons site sites ih =>
      rw [List.filterMap_cons, Site.taken?]
      by_cases h : site.isSeen = true
      · rw [if_pos h, List.filter_cons_of_pos h, List.map_cons, List.map_cons, List.map_cons, ih]
      · rw [if_neg h, List.filter_cons_of_neg h, ih]

theorem foldl_distinct {names seen : List String} (h : (seen ++ names).Nodup) :
    names.foldl (fun seen name => if seen.contains name then seen else seen ++ [name]) seen = seen ++ names := by
  induction names generalizing seen with
  | nil => simp
  | cons name names ih =>
      have hnew : name ∉ seen := fun hmem => (List.nodup_append.mp h).2.2 name hmem name List.mem_cons_self rfl
      rw [List.foldl_cons, if_neg (by simpa using hnew), ih (by simpa using h)]
      simp

theorem distinct_of_nodup {names : List String} (h : names.Nodup) : distinct names = names := by
  have hfold := @foldl_distinct names [] (by simpa using h)
  simpa [distinct] using hfold

/-- The names of the members that are seen are those of some public members, in their order. -/
theorem Class.sublist_seen (cls : Class) : (cls.seen.map Member.text).Sublist ((cls.members.filter (!·.isPrivate)).map Member.text) := by
  have hseen : ∀ site : Site, site.isSeen = true → ((!·.isPrivate) ∘ Site.member) site = true := fun site h => by
    simp [(Site.isSeen_iff.mp h).1]
  rw [seen, cls.members_eq, List.filter_map]
  exact ((List.monotone_filter_right _ hseen).map _).map _

/-! ## The shape of a class -/

/-- The constructor that is found up to a member. -/
def readConstructor (s : Source) (opening : Nat) (found : Option (List Parameter)) (member : String × Nat) :
    Except InsideCharacter (Option (List Parameter)) := do
  if found.isNone ∧ member.1 = "constructor" then
    return (← s.functionAt? (opening + 1 + member.2)).map (·.1.params)
  else return found

theorem classShape_eq (s : Source) (opening closing : Nat) : s.classShape opening closing = (do
    let body ← s.codeBetween (opening + 1) closing
    let constructor ← (publicMembers methodPattern body).foldlM (readConstructor s opening) none
    return {
      methods := distinct (((publicMembers methodPattern body).map Prod.fst).filter (!notMethods.contains ·))
      constructor
      properties := distinct (((publicMembers fieldPattern body).map Prod.fst).filter (!notFields.contains ·)) }) := rfl

/-- The parameters of the first member that is seen and has the name of the constructor. -/
theorem foldlM_readConstructor {opening : Nat} {list : List Site} (hread : ∀ site ∈ list, site.isSeen = true → ∃ shape stop,
      s.functionAt? (opening + 1 + byteLength (site.before ++ site.member.lead ++ site.member.word)) = .ok (some (shape, stop)) ∧
        shape.params = site.member.params) (found : Option (List Parameter)) :
    (list.filterMap Site.taken?).foldlM (readConstructor s opening) found = .ok (found.or
      ((((list.filter Site.isSeen).map Site.member).find? (·.text == "constructor")).map Member.params)) := by
  induction list generalizing found with
  | nil => simp [Pure.pure, Except.pure]
  | cons site list ih =>
      obtain ⟨hsite, hlater⟩ := List.forall_mem_cons.mp hread
      rw [List.filterMap_cons, Site.taken?]
      by_cases hseen : site.isSeen = true
      · obtain ⟨shape, stop, hfunction, hparams⟩ := hsite hseen
        have hstep : readConstructor s opening found
              (site.member.text, byteLength (site.before ++ site.member.lead ++ site.member.word)) =
            .ok (if found.isNone ∧ site.member.text = "constructor" then some (site.member.params) else found) := by
          rw [readConstructor]
          dsimp only
          split_ifs
          · rw [bind_eq_of_ok hfunction, ← hparams]
            rfl
          · rfl
        rw [if_pos hseen, List.filter_cons_of_pos hseen, List.map_cons, List.foldlM_cons, bind_eq_of_ok hstep, ih hlater, List.find?_cons]
        cases found with
        | some params => simp
        | none =>
            by_cases hname : site.member.text = "constructor"
            · rw [if_pos ⟨rfl, hname⟩, beq_iff_eq.mpr hname]
              rfl
            · rw [if_neg fun h => hname h.2, beq_eq_false_iff_ne.mpr hname]
      · rw [if_neg hseen, List.filter_cons_of_neg hseen]
        exact ih hlater found

/-- Behind the name of a member its parameters are read. -/
theorem exists_functionAt?_site (h : s.code = front ++ '\x7b' :: (code cls.bodyItems ++ '\x7d' :: after)) {site : Site}
    (hsite : site ∈ sites [] cls.entries) : ∃ shape stop,
      s.functionAt? (byteLength front + 1 + byteLength (site.before ++ site.member.lead ++ site.member.word)) = .ok (some (shape, stop)) ∧
        shape.params = site.member.params := by
  obtain ⟨rest, hrest⟩ := exists_of_mem_sites hsite
  have hcode : s.code = (front ++ '\x7b' :: (site.before ++ site.member.lead ++ site.member.word)) ++ (site.member.behind ++
      '(' :: (code site.member.list ++ ')' :: (code site.member.gap.items ++ '\x7b' :: (code site.member.body ++ '\x7d' :: (rest ++
        (code cls.ending.items ++ '\x7d' :: after)))))) := by
    rw [List.nil_append] at hrest
    rw [h, Class.bodyItems, code_append, hrest, site.member.code_items, Member.head, Member.front, Member.tail]
    simp
  have hhead : ∀ c ∈ site.member.behind, c ≠ '(' ∧ isFunctionHead c = true := fun c hc => by
    have hblank := isBlank_of_isGap (site.member.isGap_behind c hc)
    exact ⟨ne_of_isBlank hblank (by decide), by simp [isFunctionHead, hblank]⟩
  have hoffset : byteLength front + 1 + byteLength (site.before ++ site.member.lead ++ site.member.word) =
      byteLength (front ++ '\x7b' :: (site.before ++ site.member.lead ++ site.member.word)) := by
    rw [byteLength_append front, byteLength_cons, ← Nat.add_assoc]
    rfl
  rw [hoffset]
  exact ⟨_, _, functionAt?_eq hhead hcode fun start => closeFrom_of_closes (by decide) (site.member.list_balanced _ _ rfl) start _, rfl⟩

/-- What is taken for the shape of a class. -/
theorem classShape_body (hquiet : ∀ member ∈ cls.members, member.IsQuiet)
    (h : s.code = front ++ '\x7b' :: (code cls.bodyItems ++ '\x7d' :: after)) :
    s.classShape (byteLength front) (byteLength (front ++ '\x7b' :: code cls.bodyItems)) = .ok cls.seenShape := by
  obtain ⟨hmethods, hfields⟩ := publicMembers_body hquiet
  have hdistinct : ((cls.seen.map Member.text).filter (!notMethods.contains ·)).Nodup :=
    (cls.distinct.sublist cls.sublist_seen).filter _
  have hconstructor := foldlM_readConstructor (fun site hsite _ => exists_functionAt?_site h hsite) none
  rw [classShape_eq, bind_eq_of_ok (codeBetween_bracket h rfl), hmethods, hfields, bind_eq_of_ok hconstructor, map_taken?]
  have hseen : ((sites [] cls.entries).filter Site.isSeen).map Site.member = cls.seen := rfl
  rw [hseen, distinct_of_nodup hdistinct]
  rfl

theorem closes_body (cls : Class) : Closes '\x7b' '\x7d' (code cls.bodyItems) := by
  have hentries (entries : List Entry) : Closes '\x7b' '\x7d' (code (entries.flatMap Entry.items)) := by
    induction entries with
    | nil => exact closes_of_forall nofun
    | cons entry entries ih =>
        rw [List.flatMap_cons, code_append, entry.code_items]
        exact ((entry.before.isPart.balanced _ _ rfl).append entry.member.closes_items).append ih
  rw [Class.bodyItems, code_append]
  exact (hentries cls.entries).append (cls.ending.isPart.balanced _ _ rfl)

/-- A class is read from behind its name. -/
theorem classAt_eq (hquiet : ∀ member ∈ cls.members, member.IsQuiet)
    (h : s.code = front ++ (code cls.gap.items ++ '\x7b' :: (code cls.bodyItems ++ '\x7d' :: after))) (start : Nat) (name : String) :
    ∃ signature, s.classAt start name (byteLength front) =
      .ok ⟨s.symbolAt name .classType start signature (.classType cls.seenShape), .classType⟩ := by
  have hsplit : s.code = (front ++ code cls.gap.items) ++ '\x7b' :: (code cls.bodyItems ++ '\x7d' :: after) := by rw [h, List.append_assoc]
  have hgap : ∀ c ∈ code cls.gap.items, (c == '\x7b') = false := fun c hc =>
    beq_eq_false_iff_ne.mpr (ne_of_isBlank (cls.gap.isBlank c hc) (by decide))
  have hwidth : findOffset? (· == '\x7b') (code cls.gap.items ++ '\x7b' :: (code cls.bodyItems ++ '\x7d' :: after)) =
      some (byteLength (code cls.gap.items)) := findOffset?_append hgap (by simp)
  have hclose := matchingClose?_of_closeFrom rfl (closeFrom_of_closes (by decide) (closes_body cls)
    (byteLength (front ++ code cls.gap.items ++ ['\x7b'])) after)
  unfold classAt
  rw [bind_eq_of_ok (codeFrom_byteLength h)]
  dsimp only
  rw [hwidth, Option.bind_some, ← byteLength_append, hsplit, hclose]
  dsimp only [Option.map_some]
  rw [bind_eq_of_ok (classShape_body hquiet hsplit)]
  exact ⟨_, rfl⟩

/-! ## Which layouts show all members -/

namespace Class

variable (cls : Class)

/-- A public member goes by its name alone. -/
theorem eq_of_text {site site' : Site} (h : site ∈ sites [] cls.entries) (h' : site' ∈ sites [] cls.entries)
    (hpublic : site.member.isPrivate = false) (hpublic' : site'.member.isPrivate = false) (htext : site.member.text = site'.member.text) :
    site = site' := by
  have hdistinct := cls.distinct
  have hmembers : cls.entries.map Entry.member = (sites [] cls.entries).map Site.member := cls.members_eq
  rw [hmembers, List.filter_map, List.map_map] at hdistinct
  exact List.inj_on_of_nodup_map hdistinct (List.mem_filter.mpr ⟨h, by simp [hpublic]⟩) (List.mem_filter.mpr ⟨h', by simp [hpublic']⟩) htext

theorem isSeen_of_mem_seen {member : Member} {site : Site} (hsite : site ∈ sites [] cls.entries) (hpublic : site.member.isPrivate = false)
    (h : member ∈ cls.seen) (htext : member.text = site.member.text) : site.isSeen = true := by
  obtain ⟨site', hsite', rfl⟩ := List.mem_map.mp h
  obtain ⟨hmem, hseen⟩ := List.mem_filter.mp hsite'
  rwa [cls.eq_of_text hsite hmem hpublic (Site.isSeen_iff.mp hseen).1 htext.symm]

end Class

theorem Member.text_of_isConstructor {member : Member} (h : member.isConstructor = true) :
    member.text = "constructor" ∧ member.isPrivate = false := by
  simp only [isConstructor, Bool.and_eq_true, beq_iff_eq, Bool.not_eq_true'] at h
  exact h.1

/-- A class is taken for what it is just if every public member is seen and no method has a name that is kept for something else. -/
theorem seenShape_eq_iff (cls : Class) : cls.seenShape = shapeOf cls.members ↔ cls.IsOpen := by
  have hkept : "constructor" ∈ notMethods := by decide
  constructor
  · intro heq site hsite hpublic
    have hmem : site.member ∈ cls.members := cls.members_eq ▸ List.mem_map_of_mem hsite
    by_cases hconstructor : site.member.isConstructor = true
    · have hsome : (cls.members.find? Member.isConstructor).isSome = true := List.find?_isSome.mpr ⟨_, hmem, hconstructor⟩
      have hfound := congrArg (Option.isSome ∘ ClassShape.constructor) heq
      simp only [Function.comp, Class.seenShape, shapeOf, Option.isSome_map, hsome] at hfound
      obtain ⟨member, hmember, htext⟩ := List.find?_isSome.mp hfound
      exact ⟨cls.isSeen_of_mem_seen hsite hpublic hmember ((beq_iff_eq.mp htext).trans (Member.text_of_isConstructor hconstructor).1.symm),
        fun _ => hconstructor⟩
    · have hmethod : site.member.text ∈ (shapeOf cls.members).methods :=
        List.mem_map_of_mem (List.mem_filter.mpr ⟨hmem, by simp [hpublic, hconstructor]⟩)
      rw [← heq, Class.seenShape] at hmethod
      obtain ⟨hseen, hname⟩ := List.mem_filter.mp hmethod
      obtain ⟨member, hmember, htext⟩ := List.mem_map.mp hseen
      exact ⟨cls.isSeen_of_mem_seen hsite hpublic hmember htext, fun hmem => absurd hmem (by simpa using hname)⟩
  · intro hopen
    have hseen : cls.seen = cls.members.filter (!·.isPrivate) := by
      rw [cls.members_eq, List.filter_map, Class.seen]
      refine congrArg (List.map Site.member) (List.filter_congr fun site hsite => Bool.eq_iff_iff.mpr ⟨fun h => ?_, fun h => ?_⟩)
      · simp [(Site.isSeen_iff.mp h).1]
      · exact (hopen site hsite (by simpa using h)).1
    have hconstructor : ∀ member ∈ cls.members, member.isPrivate = false →
        (member.text ∈ notMethods ↔ member.isConstructor = true) := by
      intro member hmember hpublic
      obtain ⟨site, hsite, rfl⟩ := List.mem_map.mp (cls.members_eq ▸ hmember)
      exact ⟨(hopen site hsite hpublic).2, fun h => (Member.text_of_isConstructor h).1 ▸ hkept⟩
    have hmethods : cls.seenShape.methods = (shapeOf cls.members).methods := by
      rw [Class.seenShape, shapeOf, hseen, List.filter_map, List.filter_filter]
      refine congrArg (List.map Member.text) (List.filter_congr fun member hmember => ?_)
      cases hpublic : member.isPrivate with
      | true => simp
      | false =>
          have hiff := hconstructor member hmember hpublic
          cases hmember : member.isConstructor <;> simp_all
    have hparams : cls.seenShape.constructor = (shapeOf cls.members).constructor := by
      rw [Class.seenShape, shapeOf, hseen, List.find?_filter]
      refine congrArg (Option.map Member.params) (List.find?_congr fun member hmember => Bool.eq_iff_iff.mpr ⟨fun h => ?_, fun h => ?_⟩)
      · simp only [Bool.not_eq_true', beq_iff_eq, decide_eq_true_eq] at h
        exact (hconstructor member hmember h.1).mp (h.2 ▸ hkept)
      · simp [Member.text_of_isConstructor h]
    rw [Class.seenShape, shapeOf, ClassShape.mk.injEq]
    exact ⟨hmethods, hparams, rfl⟩

theorem prefix_of_mem_sites {entries : List Entry} {before : List Char} {site : Site} (h : site ∈ sites before entries) :
    before <+: site.before := by
  induction entries generalizing before with
  | nil => cases h
  | cons entry entries ih =>
      rcases List.mem_cons.mp h with rfl | h
      · exact List.prefix_append _ _
      · exact (List.prefix_append _ _).trans (ih h)

/-- On a line with something else in front a member is not seen. -/
theorem beginsLine_eq_false {text : List Char} {c : Char} (hmem : c ∈ text) (hc : isGap c = false) (hline : '\n' ∉ text) :
    beginsLine text = false := by
  refine Bool.eq_false_iff.mpr fun h => ?_
  obtain ⟨lines, indent, rfl, hlines, hindent⟩ := beginsLine_iff.mp h
  have hnil : lines = [] := List.getLast?_eq_none_iff.mp (Option.eq_none_iff_forall_not_mem.mpr fun d hd =>
    hline (List.mem_append_left _ (hlines d hd ▸ List.mem_of_mem_getLast? hd)))
  rw [hnil, List.nil_append] at hmem
  rw [hindent c hmem] at hc
  cases hc

/-- Of members on one line the first one is seen at most. -/
theorem length_seen_le_one (cls : Class) (hline : '\n' ∉ code cls.bodyItems) : cls.seen.length ≤ 1 := by
  rw [Class.bodyItems, code_append] at hline
  rw [Class.seen, List.length_map]
  cases hentries : cls.entries with
  | nil => exact Nat.zero_le 1
  | cons entry entries =>
      have hlater : (sites ([] ++ code entry.items) entries).filter Site.isSeen = [] := by
        refine List.filter_eq_nil_iff.mpr fun site hsite hseen => ?_
        obtain ⟨rest, hrest⟩ := exists_of_mem_sites hsite
        have hbrace : '\x7d' ∈ site.before := by
          obtain ⟨inner, hinner⟩ := entry.member.exists_tail
          refine (prefix_of_mem_sites hsite).subset ?_
          simp [entry.code_items, entry.member.code_items, hinner]
        have hbegins := beginsLine_eq_false hbrace (by decide) fun hmem => hline (List.mem_append_left _ ?_)
        · rw [(Site.isSeen_iff.mp hseen).2.1] at hbegins
          cases hbegins
        · rw [hentries, List.flatMap_cons, code_append, ← List.nil_append (code entry.items), hrest]
          exact List.mem_append_left _ hmem
      rw [sites, List.filter_cons, hlater]
      split_ifs
      · exact Nat.le_refl 1
      · exact Nat.zero_le 1

/-! ## The class in a script -/

namespace Class

theorem mem_class : "class" ∈ "function" :: plainKeywords := by decide

variable (cls : Class)

/-- The words up to the name. -/
def words : DeclarationWords := headWords false false mem_class cls.written

/-- What stands behind the name. -/
def tail : List Char := code cls.gap.items ++ '\x7b' :: (code cls.bodyItems ++ ['\x7d'])

theorem code_items : code cls.items = cls.words.chars ++ cls.tail := by
  have hopening : code cls.opening = "export ".toList ++ ("class".toList ++ ' ' :: cls.name.chars) ++ (code cls.gap.items ++ ['\x7b']) := by
    simp only [opening, Assigned.Name.item, exportItem, spaceItem, bodyStart, code_cons, code_append, code_nil, Item.masked,
      List.append_nil, List.append_assoc]
    rfl
  have hwords : cls.words.chars = "export ".toList ++ ("class".toList ++ ' ' :: cls.name.chars) := chars_headWords
  rw [items, code_append, hopening, hwords, tail]
  simp [Item.masked]

theorem exports (script : Framed cls.items) : script.source.Exports (code script.before) cls.words (cls.tail ++ code script.after) := by
  refine script.exports cls.code_items fun c hc => ?_
  rw [tail, List.append_assoc] at hc
  cases hgap : code cls.gap.items with
  | nil =>
      rw [hgap] at hc
      obtain rfl := Option.some.inj hc
      decide
  | cons d more =>
      rw [hgap] at hc
      obtain rfl := Option.some.inj hc
      exact isNameChar_of_isBlank (cls.gap.isBlank d (hgap ▸ List.mem_cons_self))

/-- What is declared has the shape of what is seen. -/
theorem exists_declarationAt? (hquiet : ∀ member ∈ cls.members, member.IsQuiet) (script : Framed cls.items) : ∃ declared,
    script.source.declarationAt? (cls.words.head (code script.before)) = .ok (some declared) ∧
      declared.symbol.shape = .classType cls.seenShape ∧ declared.symbol.kind = .classType ∧ declared.symbol.qualifiedName = cls.text ∧
      declared.symbol.line = script.line ∧ declared.exportKind = .classType := by
  have hcode : script.source.code = (code script.before ++ cls.words.chars) ++ (code cls.gap.items ++
      '\x7b' :: (code cls.bodyItems ++ '\x7d' :: code script.after)) := by
    rw [script.code_source, cls.code_items, tail]
    simp
  have hstart : (cls.words.head (code script.before)).start = byteLength (code script.before) :=
    congrArg byteLength (List.append_nil (code script.before))
  have hline : script.source.lineOf (cls.words.head (code script.before)).start = script.line := by
    rw [hstart, (cls.exports script).line]
    rfl
  obtain ⟨signature, hclass⟩ := classAt_eq hquiet hcode (cls.words.head (code script.before)).start cls.text
  exact ⟨_, declarationAt?_class rfl hclass, rfl, rfl, rfl, hline, rfl⟩

end Class

/-- A class shows with the members that are seen. It shows as what it is just if every public member begins a line with a name that
begins with a letter of ASCII or one of its signs and no method has a name that is kept for something else, so that two layouts of the
same members can differ. -/
theorem members_shown_iff (cls : Class) (hquiet : ∀ member ∈ cls.members, member.IsQuiet) (script : Framed cls.items)
    (h : script.source.Admits script.start cls.text) (filePath : String) (language : Language) : ∃ found symbol,
      extract filePath language script.text = .ok found ∧
      found.Presents symbol (.named cls.text script.line .classType .declarative) ∧
      symbol.qualifiedName = cls.text ∧ symbol.kind = .classType ∧ symbol.line = script.line ∧ symbol.shape = .classType cls.seenShape ∧
      (script.source.IsSingle → found.symbols = [symbol] ∧ found.exports = [.named cls.text script.line .classType .declarative]) ∧
      (symbol.shape = .classType (shapeOf cls.members) ↔ cls.IsOpen) := by
  obtain ⟨declared, hdeclared, hshape, hkind, hname, hline, hexport⟩ := cls.exists_declarationAt? hquiet script
  have hne : String.ofList cls.name.chars ≠ "extends" := fun heq => cls.ne_extends (String.ofList_injective heq)
  obtain ⟨found, hfound, hpresents, hsingle⟩ := (cls.exports script).exists_extract h hne hdeclared filePath language
  rw [hexport] at hpresents hsingle
  refine ⟨found, _, hfound, hpresents, hname, hkind, hline, hshape, hsingle, ?_⟩
  rw [hshape, Shape.classType.injEq]
  exact seenShape_eq_iff cls

/-- A member on one line is quiet. -/
theorem isQuiet_of_notMem {member : Member} (h : '\n' ∉ code member.items) : member.IsQuiet :=
  fun front rest hsplit => absurd (by simp [hsplit]) h

/-- The member `text(list) {}`, if that is a name. -/
def memberOf (text : String) (list : List Item) (h : (text.toList ≠ [] ∧ (∀ c ∈ text.toList, isIdentifierChar c = true) ∧
    ∀ c ∈ text.toList.head?, c.isDigit = false) ∧ (∀ c ∈ text.toList, isNameChar c = true) ∧ IsBalanced (code list)) : Member where
  static := none
  async := none
  isPrivate := false
  name := ⟨⟨text.toList, h.1.1, h.1.2.1, h.1.2.2⟩, h.2.1⟩
  space := none
  list := list
  gap := ⟨[spaceItem], by decide⟩
  body := []
  list_balanced := h.2.2
  body_closes := by decide

/-- On a line of their own the members of a class are all seen, on one line the first of them alone. -/
theorem members_shown_iff_of_one_line : ∃ line lines : Class, ∃ (script : Framed line.items) (other : Framed lines.items),
    script.text = "export class A \x7b a() \x7b\x7d constructor(x) \x7b\x7d b() \x7b\x7d \x7d\n" ∧
    other.text = "export class A \x7b\n  a() \x7b\x7d\n  constructor(x) \x7b\x7d\n  b() \x7b\x7d\n\x7d\n" ∧
    line.members = lines.members ∧
    (∃ found symbol, extract "m.js" .javaScript script.text = .ok found ∧ found.symbols = [symbol] ∧
      symbol.shape = .classType { methods := ["a"] }) ∧
    ∃ found symbol, extract "m.js" .javaScript other.text = .ok found ∧ found.symbols = [symbol] ∧
      symbol.shape = .classType { methods := ["a", "b"], constructor := some [{ name := "x" }] } := by
  let members : List Member := [memberOf "a" [] (by decide), memberOf "constructor" [.word ['x'] (by decide) (by decide)] (by decide),
    memberOf "b" [] (by decide)]
  let blank : Gap := ⟨[spaceItem], by decide⟩
  let indent : Gap := ⟨[.blanks "\n  ".toList (by decide) (by decide)], by decide⟩
  let newline : Gap := ⟨[.blanks ['\n'] (by decide) (by decide)], by decide⟩
  let name : Assigned.Name := ⟨['A'], by decide, by decide, by decide⟩
  let line : Class := ⟨name, blank, members.map (Entry.mk blank), blank, by decide, by decide, by decide⟩
  let lines : Class := ⟨name, blank, members.map (Entry.mk indent), newline, by decide, by decide, by decide⟩
  let script : Framed line.items := ⟨[], newline.items, by decide +kernel, nofun, by decide⟩
  let other : Framed lines.items := ⟨[], newline.items, by decide +kernel, nofun, by decide⟩
  have hquiet : ∀ member ∈ members, member.IsQuiet := by
    have honeLine : ∀ member ∈ members, '\n' ∉ code member.items := by decide +kernel
    exact fun member hmember => isQuiet_of_notMem (honeLine member hmember)
  have hadmits : script.source.Admits script.start line.text := by
    refine ⟨fun head _ hlt => ?_, fun head _ => not_breaksOff (by decide +kernel) head⟩
    exact absurd hlt (Nat.not_lt_zero head.start)
  have hadmits' : other.source.Admits other.start lines.text := by
    refine ⟨fun head _ hlt => ?_, fun head _ => not_breaksOff (by decide +kernel) head⟩
    exact absurd hlt (Nat.not_lt_zero head.start)
  obtain ⟨found, symbol, hfound, -, -, -, -, hshape, hsingle, -⟩ := members_shown_iff line hquiet script hadmits "m.js" .javaScript
  obtain ⟨found', symbol', hfound', -, -, -, -, hshape', hsingle', -⟩ := members_shown_iff lines hquiet other hadmits' "m.js" .javaScript
  refine ⟨line, lines, script, other, by decide +kernel, by decide +kernel, rfl, ⟨found, symbol, hfound, ?_, ?_⟩,
    found', symbol', hfound', ?_, ?_⟩
  · exact (hsingle ⟨by decide +kernel, by decide +kernel⟩).1
  · exact hshape.trans (by decide +kernel)
  · exact (hsingle' ⟨by decide +kernel, by decide +kernel⟩).1
  · exact hshape'.trans (by decide +kernel)

end ApiImpact.Classes

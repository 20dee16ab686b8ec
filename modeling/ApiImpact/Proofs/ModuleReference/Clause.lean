import ApiImpact.Proofs.ModuleReference.Statement
import ApiImpact.Proofs.Text.Blank

/-!
# Clauses read back

Every clause and every binding, as it is written in a statement, is read as the names that it binds.
-/

namespace ApiImpact.ModuleReference

open Text

variable {c d : Char} {text rest : List Char}

/-! ## Characters -/

theorem toNat_lt_of_isPlainChar (h : isPlainChar c = true) : 0x30 ≤ c.toNat ∧ c.toNat < 0x80 := by
  unfold isPlainChar Char.isAlphanum Char.isAlpha Char.isUpper Char.isLower Char.isDigit at h
  simp only [Bool.or_eq_true, Bool.and_eq_true, decide_eq_true_eq, beq_iff_eq, UInt32.le_iff_toNat_le, ge_iff_le] at h
  rcases h with h | rfl
  · have : c.toNat = c.val.toNat := rfl
    have : 'A'.val.toNat = 0x41 := rfl
    have : 'Z'.val.toNat = 0x5a := rfl
    have : 'a'.val.toNat = 0x61 := rfl
    have : 'z'.val.toNat = 0x7a := rfl
    have : '0'.val.toNat = 0x30 := rfl
    have : '9'.val.toNat = 0x39 := rfl
    omega
  · decide

theorem isBlank_of_isPlainChar (h : isPlainChar c = true) : isBlank c = false := by
  obtain ⟨hlow, hhigh⟩ := toNat_lt_of_isPlainChar h
  simp only [isBlank, Bool.or_eq_false_iff, Bool.and_eq_false_iff, decide_eq_false_iff_not,
    beq_eq_false_iff_ne]
  omega

theorem isWordChar_of_isPlainChar (h : isPlainChar c = true) : isWordChar c = true := by
  rw [isWordChar, if_pos (toNat_lt_of_isPlainChar h).2]
  exact h

theorem ne_of_isPlainChar (h : isPlainChar c = true) (hd : isPlainChar d = false) : c ≠ d := by
  rintro rfl
  simp [h] at hd

theorem isBlank_of_mem_plainBlanks (h : c ∈ plainBlanks) : isBlank c = true := by
  revert c
  decide

theorem isPlainChar_of_mem_plainBlanks (h : c ∈ plainBlanks) : isPlainChar c = false := by
  revert c
  decide

theorem Spacing.isBlank (space : Spacing) (h : c ∈ space.chars) : isBlank c = true :=
  isBlank_of_mem_plainBlanks (space.blank c h)

theorem Spacing.isPlainChar_eq_false (space : Spacing) (h : c ∈ space.chars) : isPlainChar c = false :=
  isPlainChar_of_mem_plainBlanks (space.blank c h)

theorem Gap.exists_cons (gap : Gap) : ∃ c rest, gap.chars = c :: rest ∧ Text.isBlank c = true ∧
    ∀ d ∈ rest, Text.isBlank d = true := by
  obtain ⟨c, rest, hgap⟩ := List.exists_cons_of_ne_nil gap.ne_nil
  refine ⟨c, rest, hgap, gap.isBlank (by simp [hgap]), fun d hd => gap.isBlank (by simp [hgap, hd])⟩

theorem Gap.mem_head (gap : Gap) (h : c ∈ (gap.chars ++ rest).head?) : c ∈ plainBlanks := by
  rw [List.head?_append_of_ne_nil _ gap.ne_nil] at h
  exact gap.blank c (List.mem_of_mem_head? h)

theorem Spacing.mem_head (space : Spacing) (h : c ∈ (space.chars ++ rest).head?) :
    c ∈ plainBlanks ∨ c ∈ rest.head? := by
  by_cases hne : space.chars = []
  · rw [hne] at h
    exact .inr h
  · exact .inl (Gap.mem_head ⟨space, hne⟩ h)

namespace Name

variable (name : Name)

theorem exists_cons : ∃ c rest, name.chars = c :: rest ∧ (c.isAlpha || c == '_') = true ∧
    rest.all isPlainChar = true := by
  obtain ⟨chars, plain, -⟩ := name
  cases chars with
  | nil => cases plain
  | cons c rest =>
      rw [isPlainName, Bool.and_eq_true] at plain
      exact ⟨c, rest, rfl, plain⟩

theorem ne_nil : name.chars ≠ [] := by
  obtain ⟨c, rest, hname, -⟩ := name.exists_cons
  simp [hname]

theorem isPlainChar (h : c ∈ name.chars) : isPlainChar c = true := by
  obtain ⟨first, rest, hname, hfirst, hrest⟩ := name.exists_cons
  rw [hname, List.mem_cons] at h
  rcases h with rfl | h
  · rw [ModuleReference.isPlainChar, Char.isAlphanum, Bool.or_right_comm, hfirst, Bool.true_or]
  · exact List.all_eq_true.mp hrest c h

theorem isBlank (h : c ∈ name.chars) : isBlank c = false :=
  isBlank_of_isPlainChar (name.isPlainChar h)

theorem ne (h : c ∈ name.chars) (hd : ModuleReference.isPlainChar d = false) : c ≠ d :=
  ne_of_isPlainChar (name.isPlainChar h) hd

theorem trimmed : Trimmed name.chars := trimmed_of_forall fun _ h => name.isBlank h

theorem isIdentifier : isIdentifier name.chars = true := by
  obtain ⟨c, rest, hname, hc, hrest⟩ := name.exists_cons
  have hplain : ModuleReference.isPlainChar c = true := name.isPlainChar (by simp [hname])
  have hlow (d : Char) (hd : ModuleReference.isPlainChar d = true) : d.toNat < 128 :=
    (toNat_lt_of_isPlainChar hd).2
  rw [hname, ModuleReference.isIdentifier, isAlphabetic, if_pos (hlow c hplain), hc, Bool.true_or,
    Bool.true_and, List.all_eq_true]
  intro d hd
  have hd := List.all_eq_true.mp hrest d hd
  rw [isIdentifierChar, isAlphanumeric, if_pos (hlow d hd)]
  exact Bool.or_eq_true_iff.mpr (.inl hd)

/-- A word is taken from a text that begins with a name only when it is that name. -/
theorem eq_of_append_eq {word tail : List Char} (hword : word.all ModuleReference.isPlainChar = true)
    (hd : ModuleReference.isPlainChar d = false)
    (htail : ∀ c ∈ tail.head?, ModuleReference.isPlainChar c = false)
    (h : name.chars ++ tail = word ++ d :: rest) : name.chars = word :=
  (append_inj_of_stop (fun _ => name.isPlainChar) htail (List.all_eq_true.mp hword)
    (by simpa using hd) h).1

end Name

/-! ## Lists -/

/-- Parts without commas are trimmed, and dropped when nothing is left of them. -/
theorem commaParts_intercalate {parts : List (List Char)} (h : ∀ part ∈ parts, ',' ∉ part) :
    commaParts ([','].intercalate parts) = (parts.map trim).filter (!·.isEmpty) := by
  cases parts with
  | nil => rfl
  | cons part parts =>
      rw [commaParts, splitAtChars_intercalate (List.cons_ne_nil _ _) (by simp)]
      intro part hp d hd
      have hcomma := h part hp
      simp only [beq_eq_false_iff_ne]
      rintro rfl
      exact hcomma hd

theorem commaParts_of_not_mem (h : ',' ∉ text) :
    commaParts text = [trim text].filter (!·.isEmpty) := by
  have hparts : commaParts ([','].intercalate [text]) = ([text].map trim).filter (!·.isEmpty) :=
    commaParts_intercalate (by simpa using h)
  rwa [List.intercalate_singleton] at hparts

namespace Listing

variable {α : Type} {write core : α → List Char} {list : Listing α}

theorem mem_inner (h : c ∈ list.inner write) :
    c = ',' ∨ (∃ entry, c ∈ write entry) ∨ c ∈ plainBlanks := by
  rcases mem_intercalate h with hcomma | ⟨part, hp, hc⟩
  · exact .inl hcomma
  · rw [List.mem_append, List.mem_map, List.mem_map] at hp
    rcases hp with ⟨entry, -, rfl⟩ | ⟨space, -, rfl⟩
    · exact .inr (.inl ⟨entry, hc⟩)
    · exact .inr (.inr (space.blank c hc))

theorem commaParts_inner (hcomma : ∀ entry, ',' ∉ write entry) (htrim : ∀ entry, trim (write entry) = core entry)
    (hne : ∀ entry, core entry ≠ []) : commaParts (list.inner write) = list.entries.map core := by
  have hblank : ∀ space : Spacing, trim space.chars = [] := fun space => trim_blanks fun _ => space.isBlank
  rw [inner, commaParts_intercalate, List.map_append, List.map_map, List.map_map, List.filter_append]
  · have hentries : (list.entries.map (trim ∘ write)).filter (!·.isEmpty) = list.entries.map core := by
      rw [List.filter_eq_self.mpr]
      · exact List.map_congr_left fun entry _ => htrim entry
      · intro part hp
        obtain ⟨entry, -, rfl⟩ := List.mem_map.mp hp
        simp [htrim, hne]
    rw [hentries, List.filter_eq_nil_iff.mpr, List.append_nil]
    intro part hp
    obtain ⟨space, -, rfl⟩ := List.mem_map.mp hp
    simp [hblank]
  · intro part hp hc
    rw [List.mem_append, List.mem_map, List.mem_map] at hp
    rcases hp with ⟨entry, -, rfl⟩ | ⟨space, -, rfl⟩
    · exact hcomma entry hc
    · exact absurd (space.blank _ hc) (by decide)

end Listing

/-! ## Entries -/

/-- `c` may stand in a text that is made of names, blanks and `signs`. -/
def isOf (signs : List Char) (c : Char) : Bool :=
  isPlainChar c || plainBlanks.contains c || signs.contains c

section Signs

variable {signs signs' : List Char}

theorem isOf_iff : isOf signs c = true ↔ isPlainChar c = true ∨ c ∈ plainBlanks ∨ c ∈ signs := by
  rw [isOf, Bool.or_eq_true, Bool.or_eq_true, List.contains_iff_mem, List.contains_iff_mem, or_assoc]

theorem isOf_of_isPlainChar (h : isPlainChar c = true) : isOf signs c = true :=
  isOf_iff.mpr (.inl h)

theorem isOf_of_mem_plainBlanks (h : c ∈ plainBlanks) : isOf signs c = true :=
  isOf_iff.mpr (.inr (.inl h))

theorem isOf_of_mem (h : c ∈ signs) : isOf signs c = true :=
  isOf_iff.mpr (.inr (.inr h))

theorem all_isOf_of_plain (h : text.all isPlainChar = true) : text.all (isOf signs) = true :=
  List.all_eq_true.mpr fun c hc => isOf_of_isPlainChar (List.all_eq_true.mp h c hc)

theorem all_isOf_mono (hsub : signs ⊆ signs') (h : text.all (isOf signs) = true) :
    text.all (isOf signs') = true := by
  refine List.all_eq_true.mpr fun c hc => ?_
  rcases isOf_iff.mp (List.all_eq_true.mp h c hc) with hplain | hblank | hsign
  · exact isOf_of_isPlainChar hplain
  · exact isOf_of_mem_plainBlanks hblank
  · exact isOf_of_mem (hsub hsign)

/-- A character that is none of a name, a blank or one of `signs` is not in the text. -/
theorem not_mem_of_all_isOf (h : text.all (isOf signs) = true) (hc : isOf signs c = false) : c ∉ text := by
  intro hm
  rw [List.all_eq_true.mp h c hm] at hc
  cases hc

@[simp]
theorem Name.all_isOf (name : Name) : name.chars.all (isOf signs) = true :=
  List.all_eq_true.mpr fun _ hc => isOf_of_isPlainChar (name.isPlainChar hc)

@[simp]
theorem Spacing.all_isOf (space : Spacing) : space.chars.all (isOf signs) = true :=
  List.all_eq_true.mpr fun c hc => isOf_of_mem_plainBlanks (space.blank c hc)

end Signs

namespace NameEntry

variable (entry : NameEntry)

theorem all_isOf : entry.chars.all (isOf []) = true := by
  obtain ⟨before, typeOnly, name, renamed, after⟩ := entry
  cases typeOnly <;> cases renamed <;>
    simp (disch := decide) [chars, core, named, isOf_of_isPlainChar, isOf_of_mem_plainBlanks]

theorem trimmed_named : Trimmed entry.named := by
  obtain ⟨before, typeOnly, name, renamed, after⟩ := entry
  cases renamed with
  | none => simpa [named] using name.trimmed
  | some renamed =>
      obtain ⟨beforeAs, afterAs, localName⟩ := renamed
      have hboth : Trimmed (name.chars ++
          ((beforeAs.chars ++ ("as".toList ++ afterAs.chars)) ++ localName.chars)) :=
        name.trimmed.append localName.trimmed name.ne_nil localName.ne_nil
      simpa [named] using hboth

theorem named_ne_nil : entry.named ≠ [] := by
  simp [named, entry.name.ne_nil]

theorem core_ne_nil : entry.core ≠ [] := by
  simp [core, entry.named_ne_nil]

theorem trim_chars : trim entry.chars = entry.core := by
  have htrimmed : Trimmed entry.core := by
    rw [core]
    split_ifs
    · have hword : Trimmed "type".toList := ⟨by decide, by decide⟩
      have hboth : Trimmed ("type".toList ++ ([' '] ++ entry.named)) :=
        hword.append entry.trimmed_named (by decide) entry.named_ne_nil
      exact hboth
    · exact entry.trimmed_named
  exact htrimmed.trim_append (fun _ => entry.before.isBlank) fun _ => entry.after.isBlank

/-- The word behind the first name is `as` or missing. -/
theorem words_named : words entry.named = entry.name.chars ::
    entry.renamed.elim [] fun (_, _, localName) => [['a', 's'], localName.chars] := by
  obtain ⟨before, typeOnly, name, renamed, after⟩ := entry
  cases renamed with
  | none => simpa [named] using words_of_forall name.ne_nil fun _ => name.isBlank
  | some renamed =>
      obtain ⟨beforeAs, afterAs, localName⟩ := renamed
      obtain ⟨b, blanks, hbefore, hb, hblanks⟩ := beforeAs.exists_cons
      obtain ⟨b', blanks', hafter, hb', hblanks'⟩ := afterAs.exists_cons
      have hlocal : words localName.chars = [localName.chars] :=
        words_of_forall localName.ne_nil fun _ => localName.isBlank
      have has : words ("as".toList ++ b' :: (blanks' ++ localName.chars)) =
          "as".toList :: words (blanks' ++ localName.chars) :=
        words_word_append (by decide) (by decide) hb'
      rw [words_blanks_append hblanks', hlocal] at has
      simp only [named, Option.elim, hbefore, hafter, List.cons_append]
      rw [words_word_append name.ne_nil (fun _ => name.isBlank) hb, words_blanks_append hblanks, has]
      rfl

theorem exists_tail : ∃ tail, entry.named = entry.name.chars ++ tail ∧
    ∀ c ∈ tail.head?, isPlainChar c = false := by
  obtain ⟨before, typeOnly, name, renamed, after⟩ := entry
  cases renamed with
  | none => exact ⟨[], rfl, by simp⟩
  | some renamed => exact ⟨_, rfl, fun _ hc => isPlainChar_of_mem_plainBlanks (renamed.1.mem_head hc)⟩

/-- A name other than `type` is not taken for a modifier. -/
theorem dropPrefix?_named : dropPrefix? "type ".toList entry.named = none := by
  refine if_neg fun hprefix => ?_
  obtain ⟨rest, hrest⟩ := List.isPrefixOf_iff_prefix.mp hprefix
  obtain ⟨tail, htail, hstop⟩ := entry.exists_tail
  have hsplit : entry.name.chars ++ tail = "type".toList ++ ' ' :: rest := by rw [← htail, ← hrest]; rfl
  have htype := entry.name.eq_of_append_eq (by decide) (by decide) hstop hsplit
  exact entry.name.free (by simp [htype])

theorem listEntry_core : listEntry? entry.core = some entry.bound := by
  unfold listEntry?
  rw [core, bound, localName]
  cases entry.typeOnly with
  | false =>
      simp only [Bool.false_eq_true, if_false, List.nil_append, dropPrefix?_named, words_named]
      cases entry.renamed <;> rfl
  | true =>
      simp only [if_true, dropPrefix?_append, entry.trimmed_named.trim_eq, words_named]
      cases entry.renamed <;> rfl

end NameEntry

/-- The entries of an import or re-export are read one by one. -/
theorem listEntries_inner (list : Listing NameEntry) :
    listEntries (list.inner NameEntry.chars) = list.entries.map NameEntry.bound := by
  rw [listEntries, Listing.commaParts_inner (fun entry => not_mem_of_all_isOf entry.all_isOf (by decide))
    NameEntry.trim_chars NameEntry.core_ne_nil, List.filterMap_map]
  exact List.filterMap_eq_map_iff_forall_eq_some.mpr fun entry _ => entry.listEntry_core

namespace Property

variable (property : Property)

theorem all_isOf : property.chars.all (isOf [':']) = true := by
  obtain ⟨before, name, renamed, after⟩ := property
  cases renamed <;> simp (disch := decide) [chars, core, isOf_of_mem]

theorem trimmed_core : Trimmed property.core := by
  obtain ⟨before, name, renamed, after⟩ := property
  cases renamed with
  | none => simpa [core] using name.trimmed
  | some renamed =>
      obtain ⟨beforeColon, afterColon, localName⟩ := renamed
      have hboth : Trimmed (name.chars ++
          ((beforeColon.chars ++ ':' :: afterColon.chars) ++ localName.chars)) :=
        name.trimmed.append localName.trimmed name.ne_nil localName.ne_nil
      simpa [core] using hboth

theorem core_ne_nil : property.core ≠ [] := by
  simp [core, property.name.ne_nil]

theorem trim_chars : trim property.chars = property.core :=
  property.trimmed_core.trim_append (fun _ => property.before.isBlank) fun _ => property.after.isBlank

theorem beforeDefault_append (space : Spacing) (name : Name) :
    beforeDefault (space.chars ++ name.chars) = name.chars := by
  have hall : (space.chars ++ name.chars).all (isOf []) = true := by simp
  have hsign : ∀ c ∈ space.chars ++ name.chars, (c != '=') = true := fun c hc =>
    bne_iff_ne.mpr (ne_of_mem_of_not_mem hc (not_mem_of_all_isOf hall (by decide)))
  have htrim : trim (space.chars ++ (name.chars ++ [])) = name.chars :=
    name.trimmed.trim_append (fun _ => space.isBlank) (by simp)
  rw [List.append_nil] at htrim
  rw [beforeDefault, List.takeWhile_eq_self_iff.mpr hsign, htrim]

theorem destructured_core : destructured property.core = property.bound := by
  obtain ⟨before, name, renamed, after⟩ := property
  have hname : ∀ c ∈ name.chars, (c != ':') = true := fun c hc => bne_iff_ne.mpr (name.ne hc (by decide))
  cases renamed with
  | none =>
      have htake : name.chars.takeWhile (· != ':') = name.chars := List.takeWhile_eq_self_iff.mpr hname
      have hlocal : beforeDefault name.chars = name.chars := beforeDefault_append ⟨[], by simp⟩ name
      simp [destructured, core, bound, localName, htake, hlocal]
  | some renamed =>
      obtain ⟨beforeColon, afterColon, localName⟩ := renamed
      have hcolon : ∀ c ∈ name.chars ++ beforeColon.chars, (c != ':') = true := by
        refine List.forall_mem_append.mpr ⟨hname, fun c hc => bne_iff_ne.mpr ?_⟩
        exact ne_of_mem_of_not_mem (beforeColon.blank c hc) (by decide)
      have htake : ((name.chars ++ beforeColon.chars) ++ ':' :: (afterColon.chars ++ localName.chars)).takeWhile
          (· != ':') = name.chars ++ beforeColon.chars := takeWhile_append hcolon (by simp)
      have hdrop : ((name.chars ++ beforeColon.chars) ++ ':' :: (afterColon.chars ++ localName.chars)).drop
          ((name.chars ++ beforeColon.chars).length + 1) = afterColon.chars ++ localName.chars :=
        List.drop_length_add_append 1
      have htrim : trim ([] ++ (name.chars ++ beforeColon.chars)) = name.chars :=
        name.trimmed.trim_append (by simp) fun _ => beforeColon.isBlank
      rw [List.nil_append] at htrim
      have hcore : core ⟨before, name, some (beforeColon, afterColon, localName), after⟩ =
          (name.chars ++ beforeColon.chars) ++ ':' :: (afterColon.chars ++ localName.chars) := by simp [core]
      rw [destructured, hcore]
      simp only [htake, hdrop, htrim, beforeDefault_append]
      rw [if_pos (by simp)]
      rfl

end Property

/-! ## Clauses -/

theorem cutBraces_of_not_mem (h : '\x7b' ∉ text) : cutBraces text = (text, none) := by
  have htake : text.takeWhile (· != '\x7b') = text :=
    List.takeWhile_eq_self_iff.mpr fun c hc => bne_iff_ne.mpr (ne_of_mem_of_not_mem hc h)
  rw [cutBraces]
  simp only [htake]
  rw [if_neg (by omega)]

theorem cutBraces_append (h : '\x7b' ∉ text) (inside : List Char) :
    cutBraces (text ++ '\x7b' :: (inside ++ ['\x7d'])) = (text ++ [' '], some inside) := by
  have htake : (text ++ '\x7b' :: (inside ++ ['\x7d'])).takeWhile (· != '\x7b') = text :=
    takeWhile_append (fun c hc => bne_iff_ne.mpr (ne_of_mem_of_not_mem hc h)) (by simp)
  have hreverse : (text ++ '\x7b' :: (inside ++ ['\x7d'])).reverse.takeWhile (· != '\x7d') = [] := by simp
  have hdrop : (text ++ '\x7b' :: (inside ++ ['\x7d'])).drop (text.length + 1) = inside ++ ['\x7d'] :=
    List.drop_length_add_append 1
  have hlength : (text ++ '\x7b' :: (inside ++ ['\x7d'])).length = text.length + inside.length + 2 := by
    rw [List.length_append, List.length_cons, List.length_append, List.length_singleton]
    omega
  rw [cutBraces]
  simp only [htake, hreverse, hdrop, hlength]
  have hinside : text.length + inside.length + 2 - text.length - ([] : List Char).length - 2 =
      inside.length := by
    rw [List.length_nil]
    omega
  rw [if_pos (by simp), hinside, List.take_left]
  rfl

theorem outsidePart?_name (name : Name) :
    outsidePart? name.chars = some (bound "default".toList name.chars) := by
  rw [outsidePart?.eq_2, if_pos name.isIdentifier]
  rintro rest hstar
  exact name.ne (by simp [hstar] : '*' ∈ name.chars) (by decide) rfl

theorem namespaceName_as (beforeAs afterAs : Gap) (name : Name) :
    namespaceName (beforeAs.chars ++ ("as".toList ++ (afterAs.chars ++ name.chars))) = name.chars := by
  have has : Trimmed ("as".toList ++ (afterAs.chars ++ name.chars)) := by
    have hword : Trimmed "as".toList := ⟨by decide, by decide⟩
    exact hword.append name.trimmed (by decide) name.ne_nil
  have htrim : trim (beforeAs.chars ++ (("as".toList ++ (afterAs.chars ++ name.chars)) ++ [])) = _ :=
    has.trim_append (fun _ => beforeAs.isBlank) (by simp)
  have hname : trim (afterAs.chars ++ (name.chars ++ [])) = name.chars :=
    name.trimmed.trim_append (fun _ => afterAs.isBlank) (by simp)
  have hone : "as".toList.isPrefixOf (afterAs.chars ++ name.chars) = false := by
    obtain ⟨b, blanks, hafter, hb, -⟩ := afterAs.exists_cons
    have hne : 'a' ≠ b := by
      rintro rfl
      cases hb
    simp [hafter, List.isPrefixOf, hne]
  rw [List.append_nil] at htrim hname
  rw [namespaceName, htrim, dropLeadingCopies_append (by decide) hone, hname]

section Lists

variable {α : Type} {write : α → List Char} {list : Listing α} {signs : List Char}

theorem Listing.all_inner (hsign : ',' ∈ signs) (h : ∀ entry, (write entry).all (isOf signs) = true) :
    (list.inner write).all (isOf signs) = true := by
  refine List.all_eq_true.mpr fun c hc => ?_
  rcases Listing.mem_inner hc with rfl | ⟨entry, hc⟩ | hc
  · exact isOf_of_mem hsign
  · exact List.all_eq_true.mp (h entry) c hc
  · exact isOf_of_mem_plainBlanks hc

theorem Listing.all_chars (hsigns : ['\x7b', '\x7d'] ⊆ signs) (h : (list.inner write).all (isOf signs) = true) :
    (list.chars write).all (isOf signs) = true := by
  have hopen : isOf signs '\x7b' = true := isOf_of_mem (hsigns (by simp))
  have hclose : isOf signs '\x7d' = true := isOf_of_mem (hsigns (by simp))
  simp [chars, h, hopen, hclose]

/-- No brace stands between the braces of a list. -/
theorem Listing.not_mem_inner (list : Listing α) (h : ∀ entry, (write entry).all (isOf [':']) = true) :
    '\x7b' ∉ list.inner write ∧ '\x7d' ∉ list.inner write := by
  have hall : (list.inner write).all (isOf [',', ':']) = true :=
    all_inner (by simp) fun entry => all_isOf_mono (by simp) (h entry)
  exact ⟨not_mem_of_all_isOf hall (by decide), not_mem_of_all_isOf hall (by decide)⟩

theorem Listing.trimmed (write : α → List Char) (list : Listing α) : Trimmed (list.chars write) := by
  have hopen : Trimmed ['\x7b'] := ⟨by decide, by decide⟩
  have hclose : Trimmed ['\x7d'] := ⟨by decide, by decide⟩
  exact hopen.append hclose (by simp) (by simp)

end Lists

namespace Bindings

theorem trimmed_core (bindings : Bindings) : Trimmed bindings.core := by
  cases bindings with
  | whole beforeAs afterAs name after =>
      have hstar : Trimmed ['*'] := ⟨by decide, by decide⟩
      have hboth : Trimmed (['*'] ++ ((beforeAs.chars ++ ("as".toList ++ afterAs.chars)) ++ name.chars)) :=
        hstar.append name.trimmed (by simp) name.ne_nil
      simpa [core] using hboth
  | names list after => exact list.trimmed _

theorem core_ne_nil (bindings : Bindings) : bindings.core ≠ [] := by
  cases bindings <;> simp [core, Listing.chars]

theorem all_isOf_whole (beforeAs afterAs : Gap) (name : Name) (after : Gap) :
    (core (whole beforeAs afterAs name after)).all (isOf ['*']) = true := by
  simp (disch := decide) [core, isOf_of_mem, isOf_of_isPlainChar]

end Bindings

theorem filterMap_outsidePart?_of_not_mem (h : ',' ∉ text) :
    (commaParts text).filterMap outsidePart? = [trim text].filterMap outsidePart? := by
  rw [commaParts_of_not_mem h]
  cases trim text <;> rfl

/-- What stands before the bindings of an import, outside braces, is read before them. -/
theorem importClause_append {bindings : Bindings} {outside : List Char} {before : List ImportedName}
    (hbrace : '\x7b' ∉ outside) (htrim : trim (outside ++ bindings.core) = outside ++ bindings.core)
    (hparts : ∀ part, ',' ∉ part → (commaParts (outside ++ part)).filterMap outsidePart? =
      before ++ [trim part].filterMap outsidePart?) :
    importClause (outside ++ bindings.core) = before ++ bindings.bound := by
  rw [importClause, htrim]
  cases bindings with
  | whole beforeAs afterAs name after =>
      have hall := Bindings.all_isOf_whole beforeAs afterAs name after
      have hcut : '\x7b' ∉ outside ++ (Bindings.whole beforeAs afterAs name after).core :=
        List.not_mem_append hbrace (not_mem_of_all_isOf hall (by decide))
      have hpart : outsidePart? (Bindings.whole beforeAs afterAs name after).core =
          some (bound ['*'] name.chars) := by
        rw [Bindings.core, outsidePart?, namespaceName_as, if_neg (by simpa using name.ne_nil)]
      simp only [cutBraces_of_not_mem hcut, hparts _ (not_mem_of_all_isOf hall (by decide)),
        (Bindings.trimmed_core _).trim_eq]
      simp [hpart, Bindings.bound]
  | names list after =>
      have hblank : [trim [' ']].filterMap outsidePart? = [] := rfl
      simp only [Bindings.core, Listing.chars, cutBraces_append hbrace, hparts [' '] (by decide), hblank,
        List.append_nil]
      rw [Option.elim_some, listEntries_inner]
      rfl

theorem filterMap_outsidePart?_default (name : Name) (beforeComma afterComma : Spacing) (h : ',' ∉ text) :
    (commaParts (name.chars ++ (beforeComma.chars ++ ',' :: afterComma.chars) ++ text)).filterMap outsidePart? =
      [bound "default".toList name.chars] ++ [trim text].filterMap outsidePart? := by
  have hname : trim ([] ++ (name.chars ++ beforeComma.chars)) = name.chars :=
    name.trimmed.trim_append (by simp) fun _ => beforeComma.isBlank
  have hfirst : (name.chars ++ beforeComma.chars).all (isOf []) = true := by simp
  have hsecond : ',' ∉ afterComma.chars ++ text :=
    List.not_mem_append (fun hc => absurd (afterComma.blank _ hc) (by decide)) h
  have hsplit : name.chars ++ (beforeComma.chars ++ ',' :: afterComma.chars) ++ text =
      [','].intercalate [name.chars ++ beforeComma.chars, afterComma.chars ++ text] := by
    simp [List.intercalate_cons_cons]
  rw [List.nil_append] at hname
  rw [hsplit, commaParts_intercalate]
  · simp only [List.map_cons, List.map_nil, hname, trim_blanks_append fun _ => afterComma.isBlank]
    rw [List.filter_cons_of_pos (by simpa using name.ne_nil), List.filterMap_cons_some (outsidePart?_name name)]
    cases trim text <;> rfl
  · rintro part hp
    rcases List.mem_pair.mp hp with rfl | rfl
    · exact not_mem_of_all_isOf hfirst (by decide)
    · exact hsecond

/-- Every import clause is read as the names that it binds. -/
theorem importClause_core (clause : ImportClause) : importClause clause.core = clause.bound := by
  cases clause with
  | default name after =>
      have hall : name.chars.all (isOf []) = true := name.all_isOf
      rw [ImportClause.core, importClause, name.trimmed.trim_eq,
        cutBraces_of_not_mem (not_mem_of_all_isOf hall (by decide))]
      simp only [filterMap_outsidePart?_of_not_mem (not_mem_of_all_isOf hall (by decide)), name.trimmed.trim_eq]
      simp [outsidePart?_name, ImportClause.bound]
  | bindings inner =>
      have hinner : importClause ([] ++ inner.core) = [] ++ inner.bound :=
        importClause_append (by simp) inner.trimmed_core.trim_eq
          fun _ hpart => filterMap_outsidePart?_of_not_mem hpart
      exact hinner
  | both name beforeComma afterComma inner =>
      have hall : (name.chars ++ (beforeComma.chars ++ ',' :: afterComma.chars)).all (isOf [',']) = true := by
        simp (disch := decide) [isOf_of_mem]
      have hinner : importClause ((name.chars ++ (beforeComma.chars ++ ',' :: afterComma.chars)) ++ inner.core) =
          [bound "default".toList name.chars] ++ inner.bound := by
        refine importClause_append (not_mem_of_all_isOf hall (by decide)) ?_
          fun _ hpart => filterMap_outsidePart?_default name beforeComma afterComma hpart
        rw [List.append_assoc]
        exact (name.trimmed.append inner.trimmed_core name.ne_nil inner.core_ne_nil).trim_eq
      simpa [ImportClause.core, ImportClause.bound] using hinner

/-- Closing braces are taken off a list that has none inside. -/
theorem dropEndWhile_close (h : '\x7d' ∉ text) :
    dropEndWhile (· == '\x7d') (text ++ ['\x7d']) = text := by
  rw [dropEndWhile_append (by simp), dropEndWhile_eq_self]
  intro c hc
  exact beq_eq_false_iff_ne.mpr (ne_of_mem_of_not_mem (List.mem_of_mem_getLast? hc) h)

theorem dropWhile_open (h : '\x7b' ∉ text) :
    ('\x7b' :: (text ++ ['\x7d'])).dropWhile (· == '\x7b') = text ++ ['\x7d'] := by
  have hstop : (['\x7b'] ++ (text ++ ['\x7d'])).dropWhile (· == '\x7b') = text ++ ['\x7d'] := by
    refine dropWhile_append (by simp) fun c hc => ?_
    have hm : c ∈ text ++ ['\x7d'] := List.mem_of_mem_head? hc
    exact beq_eq_false_iff_ne.mpr (ne_of_mem_of_not_mem hm (List.not_mem_append h (by decide)))
  exact hstop

theorem reexportClause_star (h : trim text = '*' :: rest) :
    reexportClause text =
      [bound ['*'] (if (namespaceName rest).isEmpty then ['*'] else namespaceName rest)] := by
  rw [reexportClause, h]
  rfl

theorem reexportClause_braces (h : trim text = '\x7b' :: rest) : reexportClause text =
    listEntries (dropEndWhile (· == '\x7d') (('\x7b' :: rest).dropWhile (· == '\x7b'))) := by
  rw [reexportClause, h]
  rfl

/-- Every re-export clause is read as the names that it passes on. -/
theorem reexportClause_core (clause : ExportClause) : reexportClause clause.core = clause.bound := by
  cases clause with
  | star after =>
      have hstar : trim ['*'] = ['*'] := rfl
      have hnone : namespaceName [] = [] := by
        rw [namespaceName, dropLeadingCopies]
        rfl
      rw [ExportClause.core, reexportClause_star hstar, hnone]
      rfl
  | bindings inner =>
      have htrim := inner.trimmed_core.trim_eq
      rw [ExportClause.core, ExportClause.bound]
      cases inner with
      | whole beforeAs afterAs name after =>
          rw [Bindings.core] at htrim ⊢
          rw [reexportClause_star htrim, namespaceName_as, if_neg (by simpa using name.ne_nil), Bindings.bound]
      | names list after =>
          have hbraces := list.not_mem_inner fun entry => all_isOf_mono (by simp) entry.all_isOf
          rw [Bindings.core, Listing.chars] at htrim ⊢
          rw [reexportClause_braces htrim, dropWhile_open hbraces.1, dropEndWhile_close hbraces.2,
            listEntries_inner, Bindings.bound]

theorem requireBinding_braces (h : trim text = '\x7b' :: rest) : requireBinding text =
    ((commaParts (dropEndWhile (· == '\x7d') rest)).filter
      fun part => !"...".toList.isPrefixOf part).map destructured := by
  rw [requireBinding, h]
  rfl

/-- Every binding of a required module is read as the names that it binds. -/
theorem requireBinding_chars (target : Target) : requireBinding target.chars = target.bound := by
  cases target with
  | whole name =>
      have hbrace : ∀ inner, name.chars ≠ '\x7b' :: inner := by
        rintro inner hname
        exact name.ne (by simp [hname] : '\x7b' ∈ name.chars) (by decide) rfl
      rw [Target.chars, requireBinding, name.trimmed.trim_eq]
      split
      · exact absurd ‹_› (hbrace _)
      · rfl
  | properties list =>
      have hbraces := list.not_mem_inner Property.all_isOf
      have hparts : commaParts (list.inner Property.chars) = list.entries.map Property.core :=
        Listing.commaParts_inner (fun property => not_mem_of_all_isOf property.all_isOf (by decide))
          Property.trim_chars Property.core_ne_nil
      have hdots : ∀ part ∈ list.entries.map Property.core, (!"...".toList.isPrefixOf part) = true := by
        intro part hp
        obtain ⟨property, -, rfl⟩ := List.mem_map.mp hp
        obtain ⟨c, rest, hname, -⟩ := property.name.exists_cons
        have hc : '.' ≠ c := (property.name.ne (by simp [hname]) (by decide)).symm
        simp [Property.core, hname, List.isPrefixOf, hc]
      rw [Target.chars, requireBinding_braces (list.trimmed _).trim_eq, dropEndWhile_close hbraces.2, hparts,
        List.filter_eq_self.mpr hdots, List.map_map, Target.bound]
      exact List.map_congr_left fun property _ => property.destructured_core

end ApiImpact.ModuleReference

import ApiImpact.Proofs.ModuleReference.Clause

/-!
# Lists of names and what they are renamed to

Every name may be imported under every other one, also when one of them is a word with a meaning of its own in a list. Such a list
is read back, but for one form: `type`, when it is renamed, is taken for the modifier of a name that is called `as`.
-/

namespace ApiImpact.ModuleReference

open Text

/-! ## Lists as they are written -/

/-- A name of letters, digits and `_`. No word is reserved. -/
structure Word where
  chars : List Char
  plain : isPlainName chars = true
  deriving DecidableEq

/-- An imported name and the local one. -/
structure NamePair where
  imported : Word
  localName : Word

/-- A pair with the blanks around it. -/
structure PlacedPair extends NamePair where
  before : List Char
  after : List Char
  isBlank_before : ∀ c ∈ before, isBlank c = true
  isBlank_after : ∀ c ∈ after, isBlank c = true

/-- Pairs between commas. There may be a comma behind the last one, with blanks behind it. -/
structure PairList where
  entries : List PlacedPair
  trailing : Option (List Char)
  isBlank_trailing : ∀ blanks ∈ trailing, ∀ c ∈ blanks, isBlank c = true

namespace NamePair

variable (pair : NamePair)

/-- A name that stays what it is is written once. -/
def chars : List Char :=
  if pair.imported = pair.localName then pair.imported.chars
  else pair.imported.chars ++ (" as ".toList ++ pair.localName.chars)

/-- What the pair stands for. -/
def bound : ImportedName := ModuleReference.bound pair.imported.chars pair.localName.chars

/-- The name `type` under another name. -/
def IsMistaken : Prop :=
  pair.imported.chars = "type".toList ∧ pair.localName.chars ≠ "type".toList

instance : Decidable pair.IsMistaken := inferInstanceAs (Decidable (_ ∧ _))

/-- What the pair is read as. -/
def read : ImportedName :=
  if pair.IsMistaken then ModuleReference.bound "as".toList "as".toList else pair.bound

end NamePair

/-- The pair with its blanks. -/
def PlacedPair.chars (entry : PlacedPair) : List Char :=
  entry.before ++ (entry.toNamePair.chars ++ entry.after)

/-- The list between its braces. -/
def PairList.chars (list : PairList) : List Char :=
  [','].intercalate (list.entries.map PlacedPair.chars ++ list.trailing.toList)

/-! ## Words -/

namespace Word

variable {c d : Char} (word : Word)

theorem isPlainChar (h : c ∈ word.chars) : isPlainChar c = true := by
  obtain ⟨chars, plain⟩ := word
  cases chars with
  | nil => cases plain
  | cons first rest =>
      obtain ⟨hfirst, hrest⟩ := Bool.and_eq_true_iff.mp plain
      rcases List.mem_cons.mp h with rfl | h
      · rw [ModuleReference.isPlainChar, Char.isAlphanum, Bool.or_right_comm, hfirst, Bool.true_or]
      · exact List.all_eq_true.mp hrest c h

theorem ne_nil : word.chars ≠ [] := by
  intro h
  have hplain := word.plain
  rw [h] at hplain
  cases hplain

theorem isBlank (h : c ∈ word.chars) : Text.isBlank c = false :=
  isBlank_of_isPlainChar (word.isPlainChar h)

theorem notMem (hd : ModuleReference.isPlainChar d = false) : d ∉ word.chars :=
  fun h => ne_of_isPlainChar (word.isPlainChar h) hd rfl

theorem trimmed : Trimmed word.chars := trimmed_of_forall fun _ h => word.isBlank h

theorem chars_inj {other : Word} : word.chars = other.chars ↔ word = other := by
  obtain ⟨chars, plain⟩ := word
  obtain ⟨chars', plain'⟩ := other
  simp

/-- What begins with a word and a blank begins with no other word and blank. -/
theorem dropPrefix?_append (rest : List Char) : dropPrefix? "type ".toList (word.chars ++ ' ' :: rest) =
    if word.chars = "type".toList then some rest else none := by
  split_ifs with h
  · rw [h]
    exact Text.dropPrefix?_append "type ".toList rest
  · refine if_neg fun hprefix => h ?_
    obtain ⟨more, hmore⟩ := List.isPrefixOf_iff_prefix.mp hprefix
    have hblank : ModuleReference.isPlainChar ' ' = false := by decide
    have hsplit : word.chars ++ ' ' :: rest = "type".toList ++ ' ' :: more := hmore.symm
    exact (append_inj_of_stop (fun _ => word.isPlainChar) (by simp [hblank]) (by decide) (by simp [hblank]) hsplit).1

theorem dropPrefix?_chars : dropPrefix? "type ".toList word.chars = none := by
  refine if_neg fun hprefix => word.notMem (d := ' ') (by decide) ?_
  exact (List.isPrefixOf_iff_prefix.mp hprefix).subset (by decide)

theorem words_chars : words word.chars = [word.chars] := words_of_forall word.ne_nil fun _ => word.isBlank

end Word

/-! ## Entries -/

namespace NamePair

variable (pair : NamePair)

theorem chars_ne_nil : pair.chars ≠ [] := by
  rw [chars]
  split_ifs
  · exact pair.imported.ne_nil
  · exact List.append_ne_nil_of_left_ne_nil pair.imported.ne_nil _

theorem trimmed : Trimmed pair.chars := by
  rw [chars]
  split_ifs
  · exact pair.imported.trimmed
  · exact pair.imported.trimmed.append pair.localName.trimmed pair.imported.ne_nil pair.localName.ne_nil

theorem comma_notMem : ',' ∉ pair.chars := by
  rw [chars]
  split_ifs
  · exact pair.imported.notMem (by decide)
  · simp only [List.mem_append, not_or]
    exact ⟨pair.imported.notMem (by decide), by decide, pair.localName.notMem (by decide)⟩

/-- What stands behind the imported name are the words `as` and the local name. -/
theorem words_as (word : Word) : words ("as ".toList ++ word.chars) = ["as".toList, word.chars] := by
  have hwords : words ("as".toList ++ ' ' :: word.chars) = "as".toList :: words word.chars :=
    words_word_append (by decide) (by decide) (by decide)
  rwa [word.words_chars] at hwords

theorem listEntry?_chars : listEntry? pair.chars = some pair.read := by
  unfold listEntry?
  rw [chars, read, bound]
  by_cases hsame : pair.imported = pair.localName
  · have hright : ¬ pair.IsMistaken := fun h => h.2 (hsame ▸ h.1)
    rw [if_pos hsame, if_neg hright, Word.dropPrefix?_chars]
    simp only [Word.words_chars, hsame]
  · have hsplit : " as ".toList ++ pair.localName.chars = ' ' :: ("as ".toList ++ pair.localName.chars) := rfl
    rw [if_neg hsame, hsplit, Word.dropPrefix?_append]
    by_cases htype : pair.imported.chars = "type".toList
    · have hother : pair.localName.chars ≠ "type".toList := fun h => hsame ((Word.chars_inj _).mp (htype.trans h.symm))
      have htrim : trim ("as ".toList ++ pair.localName.chars) = "as ".toList ++ pair.localName.chars := by
        have htrimmed : Trimmed "as".toList := ⟨by decide, by decide⟩
        have happend : Trimmed ("as".toList ++ ([' '] ++ pair.localName.chars)) :=
          htrimmed.append pair.localName.trimmed (by decide) pair.localName.ne_nil
        exact happend.trim_eq
      simp only [htype, if_true, htrim, words_as]
      rw [if_pos ⟨htype, hother⟩]
      split <;> simp_all
    · have hright : ¬ pair.IsMistaken := fun h => htype h.1
      rw [if_neg htype, if_neg hright]
      simp only [words_word_append pair.imported.ne_nil (fun _ => pair.imported.isBlank) (by decide : Text.isBlank ' ' = true), words_as]
      rfl

theorem read_eq_bound_iff : pair.read = pair.bound ↔ ¬ pair.IsMistaken := by
  rw [read]
  split_ifs with h
  · simp [bound, h.1, ModuleReference.bound, h]
  · simp [h]

end NamePair

/-! ## Lists -/

theorem PlacedPair.trim_chars (entry : PlacedPair) : trim entry.chars = entry.toNamePair.chars :=
  entry.trimmed.trim_append entry.isBlank_before entry.isBlank_after

theorem PlacedPair.comma_notMem (entry : PlacedPair) : ',' ∉ entry.chars := by
  have hblank : isBlank ',' = false := by decide
  simp only [chars, List.mem_append, not_or]
  refine ⟨fun h => ?_, entry.toNamePair.comma_notMem, fun h => ?_⟩
  · simp [entry.isBlank_before _ h] at hblank
  · simp [entry.isBlank_after _ h] at hblank

theorem PairList.commaParts_chars (list : PairList) : commaParts list.chars = list.entries.map fun entry => entry.toNamePair.chars := by
  have hblank : isBlank ',' = false := by decide
  have hparts : ∀ part ∈ list.entries.map PlacedPair.chars ++ list.trailing.toList, ',' ∉ part := by
    intro part hpart
    rcases List.mem_append.mp hpart with hentry | htrailing
    · obtain ⟨entry, -, rfl⟩ := List.mem_map.mp hentry
      exact entry.comma_notMem
    · intro hcomma
      simp [list.isBlank_trailing part (Option.mem_toList.mp htrailing) _ hcomma] at hblank
  have hentries : (list.entries.map (trim ∘ PlacedPair.chars)).filter (!·.isEmpty) = list.entries.map fun entry => entry.toNamePair.chars := by
    have htrim : trim ∘ PlacedPair.chars = fun entry : PlacedPair => entry.toNamePair.chars := funext PlacedPair.trim_chars
    rw [htrim, List.filter_eq_self]
    intro part hpart
    obtain ⟨entry, -, rfl⟩ := List.mem_map.mp hpart
    simp [entry.toNamePair.chars_ne_nil]
  have htrailing : (list.trailing.toList.map trim).filter (!·.isEmpty) = [] := by
    rw [List.filter_eq_nil_iff]
    intro part hpart
    obtain ⟨blanks, hblanks, rfl⟩ := List.mem_map.mp hpart
    simp [trim_blanks (list.isBlank_trailing blanks (Option.mem_toList.mp hblanks))]
  rw [chars, commaParts_intercalate hparts, List.map_append, List.filter_append, List.map_map, hentries, htrailing, List.append_nil]

/-- A list is read pair by pair, and it is read as what it stands for just when `type` is not renamed in it. -/
theorem listEntries_chars (list : PairList) :
    listEntries list.chars = list.entries.map (·.read) ∧
      (listEntries list.chars = list.entries.map (·.bound) ↔ ∀ entry ∈ list.entries, ¬ entry.IsMistaken) := by
  have hread : listEntries list.chars = list.entries.map (·.read) := by
    rw [listEntries, list.commaParts_chars, List.filterMap_map]
    exact List.filterMap_eq_map_iff_forall_eq_some.mpr fun entry _ => entry.toNamePair.listEntry?_chars
  refine ⟨hread, ?_⟩
  rw [hread, List.map_inj_left]
  exact forall₂_congr fun entry _ => entry.toNamePair.read_eq_bound_iff

/-- The name `type` is read as `as`, and the local name gets lost. -/
example : listEntries "type as kind, as as type".toList = [⟨"as", "as"⟩, ⟨"as", "type"⟩] := by decide

end ApiImpact.ModuleReference

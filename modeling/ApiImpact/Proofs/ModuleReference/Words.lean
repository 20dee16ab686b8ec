import ApiImpact.Proofs.ModuleReference.Taken

/-!
# Where the words of a statement begin

The words `import` and `export` are found at the beginning of a statement only. Names that contain them are
longer, and the contents of literals are blanked out.
-/

namespace ApiImpact.ModuleReference

open Text

variable {word text front back rest after before : List Char} {c : Char}

/-! ## Words of a text -/

/-- `word` is not one of the words of `text`. -/
def Avoids (word text : List Char) : Prop :=
  word ∉ splitAtChars (fun c => !isPlainChar c) text

instance (word text : List Char) : Decidable (Avoids word text) :=
  inferInstanceAs (Decidable (word ∉ splitAtChars (fun c => !isPlainChar c) text))

theorem avoids_of_all (h : text.all isPlainChar = true) (hne : word ≠ text) : Avoids word text := by
  rw [Avoids, splitAtChars_of_forall fun c hc => by simp [List.all_eq_true.mp h c hc]]
  simpa using hne

theorem avoids_append_cons (hc : isPlainChar c = false) :
    Avoids word (front ++ c :: back) ↔ Avoids word front ∧ Avoids word back := by
  rw [Avoids, splitAtChars_append (by simp [hc]), List.mem_append, not_or]
  rfl

theorem avoids_cons (hne : word ≠ []) (hc : isPlainChar c = false) :
    Avoids word (c :: back) ↔ Avoids word back := by
  have hnil : Avoids word [] := avoids_of_all rfl hne
  rw [← List.nil_append (c :: back), avoids_append_cons hc, and_iff_right hnil]

/-- What is no part of a word has no words. -/
theorem avoids_of_forall_not (hne : word ≠ []) (h : ∀ d ∈ text, isPlainChar d = false) : Avoids word text := by
  induction text with
  | nil => exact avoids_of_all rfl hne
  | cons d text ih =>
      rw [avoids_cons hne (h d List.mem_cons_self)]
      exact ih fun e he => h e (List.mem_cons_of_mem _ he)

theorem avoids_append_of_forall_not (hne : word ≠ []) (h : ∀ d ∈ back, isPlainChar d = false) :
    Avoids word (front ++ back) ↔ Avoids word front := by
  cases back with
  | nil => rw [List.append_nil]
  | cons d back =>
      rw [avoids_append_cons (h d List.mem_cons_self),
        and_iff_left (avoids_of_forall_not hne fun e he => h e (List.mem_cons_of_mem _ he))]

/-- A word that begins in a text whose end is no part of a word ends there too. -/
theorem exists_of_append_eq (hword : word.all isPlainChar = true)
    (hlast : ∀ d ∈ back.getLast?, isPlainChar d = false) (hne : back ≠ [])
    (he : back ++ after = word ++ c :: rest) : ∃ tail, back = word ++ c :: tail := by
  have hout : back.getLast hne ∉ word := by
    intro hm
    have hplain := List.all_eq_true.mp hword _ hm
    rw [hlast _ (List.getLast?_eq_some_getLast hne)] at hplain
    cases hplain
  rcases List.append_eq_append_iff.mp he with ⟨more, rfl, -⟩ | ⟨more, hback, hmore⟩
  · exact absurd (List.mem_append_left more (List.getLast_mem hne)) hout
  · cases more with
    | nil =>
        rw [List.append_nil] at hback
        exact absurd (hback ▸ List.getLast_mem hne) hout
    | cons d more =>
        obtain ⟨rfl, -⟩ := List.cons.inj hmore
        exact ⟨more, hback⟩

/-- A word that is not one of the words of a text does not stand anywhere in it. -/
theorem Avoids.append_ne (h : Avoids word (front ++ back)) (hword : word.all isPlainChar = true)
    (hfront : ∀ d ∈ front.getLast?, isPlainChar d = false)
    (hlast : ∀ d ∈ back.getLast?, isPlainChar d = false) (hne : back ≠ []) (hc : isPlainChar c = false) :
    back ++ after ≠ word ++ c :: rest := by
  intro he
  obtain ⟨tail, rfl⟩ := exists_of_append_eq hword hlast hne he
  have hhere : word ∈ splitAtChars (fun c => !isPlainChar c) (word ++ c :: tail) := by
    rw [splitAtChars_append_cons (fun d hd => by simp [List.all_eq_true.mp hword d hd]) (by simp [hc])]
    exact List.mem_cons_self
  rcases List.eq_nil_or_concat front with rfl | ⟨before, d, rfl⟩
  · exact h hhere
  · rw [List.concat_eq_append] at h hfront
    rw [List.append_assoc, List.singleton_append, avoids_append_cons (hfront d (by simp))] at h
    exact h.2 hhere

/-! ## Words of a statement -/

/-- The words that begin imports and re-exports. -/
def keywords : List (List Char) := ["import".toList, "export".toList]

section Parts

variable (hword : word ∈ keywords)

include hword

theorem ne_nil_of_mem_keywords : word ≠ [] := by
  rintro rfl
  revert hword
  decide

theorem avoids_word (h : text.all isPlainChar = true) (hne : text ∉ keywords) : Avoids word text := by
  refine avoids_of_all h ?_
  rintro rfl
  exact hne hword

theorem Name.avoids (name : Name) : Avoids word name.chars := by
  refine avoids_word hword (List.all_eq_true.mpr fun _ => name.isPlainChar) fun hname => name.free ?_
  exact (by decide : keywords ⊆ ["import".toList, "export".toList, "type".toList]) hname

theorem avoids_cons_iff (hc : isPlainChar c = false) : Avoids word (c :: back) ↔ Avoids word back :=
  avoids_cons (ne_nil_of_mem_keywords hword) hc

/-- What is no part of a word may be left out. -/
theorem avoids_append_left (h : ∀ d ∈ front, isPlainChar d = false) :
    Avoids word (front ++ back) ↔ Avoids word back := by
  induction front with
  | nil => rfl
  | cons d front ih =>
      rw [List.cons_append, avoids_cons_iff hword (h d List.mem_cons_self),
        ih fun e he => h e (List.mem_cons_of_mem _ he)]

theorem avoids_of_forall (h : ∀ d ∈ text, isPlainChar d = false) : Avoids word text :=
  avoids_of_forall_not (ne_nil_of_mem_keywords hword) h

theorem avoids_append_right (h : ∀ d ∈ back, isPlainChar d = false) :
    Avoids word (front ++ back) ↔ Avoids word front :=
  avoids_append_of_forall_not (ne_nil_of_mem_keywords hword) h

theorem avoids_append_gap_append (gap : Gap) :
    Avoids word (front ++ (gap.chars ++ back)) ↔ Avoids word front ∧ Avoids word back := by
  obtain ⟨b, blanks, hgap, -⟩ := gap.exists_cons
  have hplain : ∀ d ∈ b :: blanks, isPlainChar d = false := fun d hd => gap.isPlainChar_eq_false (by rwa [hgap])
  rw [hgap, List.cons_append, avoids_append_cons (hplain b (by simp)),
    avoids_append_left hword fun d hd => hplain d (by simp [hd])]

theorem NameEntry.avoids (entry : NameEntry) : Avoids word entry.chars := by
  have hnamed : Avoids word entry.named := by
    obtain ⟨before, typeOnly, name, renamed, after⟩ := entry
    cases renamed with
    | none => simpa [named] using name.avoids hword
    | some renamed =>
        obtain ⟨beforeAs, afterAs, localName⟩ := renamed
        have has : Avoids word "as".toList := avoids_word hword (by decide) (by decide)
        exact (avoids_append_gap_append hword beforeAs).mpr ⟨name.avoids hword,
          (avoids_append_gap_append hword afterAs).mpr ⟨has, localName.avoids hword⟩⟩
  have htype : Avoids word "type".toList := avoids_word hword (by decide) (by decide)
  have hcore : Avoids word entry.core := by
    rw [core]
    split_ifs
    · exact (avoids_append_cons (by decide)).mpr ⟨htype, hnamed⟩
    · exact hnamed
  rw [chars, avoids_append_left hword fun _ => entry.before.isPlainChar_eq_false,
    avoids_append_right hword fun _ => entry.after.isPlainChar_eq_false]
  exact hcore

theorem Property.avoids (property : Property) : Avoids word property.chars := by
  have hcore : Avoids word property.core := by
    obtain ⟨before, name, renamed, after⟩ := property
    cases renamed with
    | none => simpa [core] using name.avoids hword
    | some renamed =>
        obtain ⟨beforeColon, afterColon, localName⟩ := renamed
        rw [core, Option.elim_some, ← List.append_assoc, avoids_append_cons (by decide),
          avoids_append_right hword fun _ => beforeColon.isPlainChar_eq_false,
          avoids_append_left hword fun _ => afterColon.isPlainChar_eq_false]
        exact ⟨name.avoids hword, localName.avoids hword⟩
  rw [chars, avoids_append_left hword fun _ => property.before.isPlainChar_eq_false,
    avoids_append_right hword fun _ => property.after.isPlainChar_eq_false]
  exact hcore

theorem avoids_intercalate {parts : List (List Char)} (h : ∀ part ∈ parts, Avoids word part) :
    Avoids word ([','].intercalate parts) := by
  induction parts with
  | nil => exact avoids_of_forall hword (by simp)
  | cons part parts ih =>
      have hpart := h part List.mem_cons_self
      cases parts with
      | nil => simpa using hpart
      | cons next parts =>
          rw [List.intercalate_cons_cons, List.append_assoc, List.singleton_append,
            avoids_append_cons (by decide)]
          exact ⟨hpart, ih fun part hp => h part (List.mem_cons_of_mem _ hp)⟩

/-- A list in braces and what follows. -/
theorem Listing.avoids_append {α : Type} {write : α → List Char} (list : Listing α)
    (hentries : ∀ entry, Avoids word (write entry)) (hback : Avoids word back) :
    Avoids word (list.chars write ++ back) := by
  have hinner : Avoids word (list.inner write) := by
    refine avoids_intercalate hword fun part hp => ?_
    rw [List.mem_append, List.mem_map, List.mem_map] at hp
    rcases hp with ⟨entry, -, rfl⟩ | ⟨space, -, rfl⟩
    · exact hentries entry
    · exact avoids_of_forall hword fun _ => space.isPlainChar_eq_false
  rw [chars, List.cons_append, List.append_assoc, avoids_cons_iff hword (by decide)]
  exact (avoids_append_cons (by decide)).mpr ⟨hinner, hback⟩

theorem Bindings.avoids_append (bindings : Bindings) (hback : Avoids word back) :
    Avoids word (bindings.core ++ (bindings.after.chars ++ back)) := by
  cases bindings with
  | whole beforeAs afterAs name after =>
      have has : Avoids word "as".toList := avoids_word hword (by decide) (by decide)
      have hsplit : core (whole beforeAs afterAs name after) ++ (after.chars ++ back) =
          ['*'] ++ (beforeAs.chars ++ ("as".toList ++ (afterAs.chars ++ (name.chars ++ (after.chars ++ back))))) := by
        simp [core]
      rw [Bindings.after, hsplit]
      simp only [avoids_append_gap_append hword]
      exact ⟨avoids_of_forall hword (by decide), has, name.avoids hword, hback⟩
  | names list after =>
      refine list.avoids_append hword (fun entry => entry.avoids hword) ?_
      exact (avoids_append_left hword fun _ => after.isPlainChar_eq_false).mpr hback

theorem ImportClause.avoids_append (clause : ImportClause) (hback : Avoids word back) :
    Avoids word (clause.core ++ (clause.after.chars ++ back)) := by
  cases clause with
  | default name after => exact (avoids_append_gap_append hword after).mpr ⟨name.avoids hword, hback⟩
  | bindings inner => exact inner.avoids_append hword hback
  | both name beforeComma afterComma inner =>
      have hsplit : core (both name beforeComma afterComma inner) ++ (inner.after.chars ++ back) =
          (name.chars ++ beforeComma.chars) ++ ',' :: (afterComma.chars ++ (inner.core ++ (inner.after.chars ++ back))) := by
        simp [core]
      rw [after, hsplit, avoids_append_cons (by decide),
        avoids_append_right hword fun _ => beforeComma.isPlainChar_eq_false,
        avoids_append_left hword fun _ => afterComma.isPlainChar_eq_false]
      exact ⟨name.avoids hword, inner.avoids_append hword hback⟩

theorem ExportClause.avoids_append (clause : ExportClause) (hback : Avoids word back) :
    Avoids word (clause.core ++ (clause.after.chars ++ back)) := by
  cases clause with
  | star after =>
      refine (avoids_cons_iff hword (by decide)).mpr ?_
      exact (avoids_append_left hword fun _ => after.isPlainChar_eq_false).mpr hback
  | bindings inner => exact inner.avoids_append hword hback

theorem avoids_modifier_append (modifier : Option Gap) (hback : Avoids word back) :
    Avoids word (modifierChars modifier ++ back) := by
  cases modifier with
  | none => exact hback
  | some gap =>
      have htype : Avoids word "type".toList := avoids_word hword (by decide) (by decide)
      rw [modifierChars, Option.elim_some, List.append_assoc]
      exact (avoids_append_gap_append hword gap).mpr ⟨htype, hback⟩

theorem Target.avoids_append (target : Target) (space : Spacing) (hc : isPlainChar c = false)
    (hback : Avoids word back) : Avoids word (target.chars ++ (space.chars ++ c :: back)) := by
  cases target with
  | whole name =>
      rw [← List.append_assoc, avoids_append_cons hc,
        avoids_append_right hword fun _ => space.isPlainChar_eq_false]
      exact ⟨name.avoids hword, hback⟩
  | properties list =>
      refine list.avoids_append hword (fun property => property.avoids hword) ?_
      rw [avoids_append_left hword fun _ => space.isPlainChar_eq_false, avoids_cons_iff hword hc]
      exact hback

end Parts

/-! ## Words of a statement -/

namespace Form

/-- The word with which a form begins. -/
def keyword : Form → List Char
  | importFrom .. | bareImport _ | dynamicImport .. => "import".toList
  | exportFrom .. => "export".toList
  | requireCall declaration .. => declaration.elim "require".toList fun _ => "const".toList

/-- What follows the first word. -/
def afterKeyword : Form → List Char
  | importFrom gap modifier clause space => gap.chars ++ (modifierChars modifier ++ (clause.core ++
      (clause.after.chars ++ ("from".toList ++ space.chars))))
  | bareImport space => space.chars
  | exportFrom gap modifier clause space => gap.chars ++ (modifierChars modifier ++ (clause.core ++
      (clause.after.chars ++ ("from".toList ++ space.chars))))
  | dynamicImport outer inner => outer.chars ++ '(' :: inner.chars
  | requireCall none outer inner => outer.chars ++ '(' :: inner.chars
  | requireCall (some declaration) outer inner => declaration.gap.chars ++ (declaration.target.chars ++
      (declaration.beforeSign.chars ++ '=' :: (declaration.afterSign.chars ++
        ("require".toList ++ (outer.chars ++ '(' :: inner.chars)))))

section Equations

variable (gap : Gap) (modifier : Option Gap) (space outer inner : Spacing)

theorem afterKeyword_importFrom (clause : ImportClause) : (importFrom gap modifier clause space).afterKeyword =
    gap.chars ++ (modifierChars modifier ++ (clause.core ++ (clause.after.chars ++
      ("from".toList ++ space.chars)))) := rfl

theorem afterKeyword_exportFrom (clause : ExportClause) : (exportFrom gap modifier clause space).afterKeyword =
    gap.chars ++ (modifierChars modifier ++ (clause.core ++ (clause.after.chars ++
      ("from".toList ++ space.chars)))) := rfl

theorem afterKeyword_dynamicImport :
    (dynamicImport outer inner).afterKeyword = outer.chars ++ '(' :: inner.chars := rfl

theorem afterKeyword_call : (requireCall none outer inner).afterKeyword = outer.chars ++ '(' :: inner.chars := rfl

theorem afterKeyword_declaration (declaration : Declaration) :
    (requireCall (some declaration) outer inner).afterKeyword = declaration.gap.chars ++
      (declaration.target.chars ++ (declaration.beforeSign.chars ++ '=' :: (declaration.afterSign.chars ++
        ("require".toList ++ (outer.chars ++ '(' :: inner.chars))))) := rfl

end Equations

variable (form : Form)

theorem chars_eq : form.chars = form.keyword ++ form.afterKeyword := by
  cases form with
  | requireCall declaration outer inner =>
      cases declaration with
      | none => rfl
      | some declaration =>
          simp only [chars_requireCall, Option.elim_some, Declaration.chars_eq, afterKeyword_declaration,
            List.append_assoc, List.cons_append]
          rfl
  | _ => rfl

theorem head_afterKeyword (hc : isPlainChar c = false) :
    ∀ d ∈ (form.afterKeyword ++ c :: back).head?, isPlainChar d = false := by
  have hspace (space : Spacing) {d : Char} (hd : isPlainChar d = false) (more : List Char) :
      ∀ e ∈ ((space.chars ++ d :: more)).head?, isPlainChar e = false := by
    intro e he
    rcases space.mem_head he with hblank | hsign
    · exact isPlainChar_of_mem_plainBlanks hblank
    · obtain rfl := Option.some.inj hsign
      exact hd
  have hgap (gap : Gap) (more : List Char) : ∀ e ∈ (gap.chars ++ more).head?, isPlainChar e = false :=
    fun e he => isPlainChar_of_mem_plainBlanks (gap.mem_head he)
  cases form with
  | importFrom gap modifier clause space => rw [afterKeyword_importFrom, List.append_assoc]; exact hgap gap _
  | bareImport space => exact hspace space hc _
  | exportFrom gap modifier clause space => rw [afterKeyword_exportFrom, List.append_assoc]; exact hgap gap _
  | dynamicImport outer inner => rw [afterKeyword_dynamicImport, List.append_assoc]; exact hspace outer (by decide) _
  | requireCall declaration outer inner =>
      cases declaration with
      | none => rw [afterKeyword_call, List.append_assoc]; exact hspace outer (by decide) _
      | some declaration => rw [afterKeyword_declaration, List.append_assoc]; exact hgap declaration.gap _

/-- Behind its first word a form has none of the words that begin imports and re-exports. -/
theorem avoids_afterKeyword (hword : word ∈ keywords) (hc : isPlainChar c = false) (hback : Avoids word back) :
    Avoids word (form.afterKeyword ++ c :: back) := by
  have hspace (space : Spacing) {more : List Char} (hmore : Avoids word more) : Avoids word (space.chars ++ more) :=
    (avoids_append_left hword fun _ => space.isPlainChar_eq_false).mpr hmore
  have hend : Avoids word (c :: back) := (avoids_cons_iff hword hc).mpr hback
  have hcall (outer inner : Spacing) : Avoids word (outer.chars ++ '(' :: (inner.chars ++ c :: back)) :=
    hspace outer ((avoids_cons_iff hword (by decide)).mpr (hspace inner hend))
  have hblanks {text : List Char} (htext : text.all isPlainChar = true) (hne : text ∉ keywords) (space : Spacing) :
      Avoids word (text ++ space.chars) :=
    (avoids_append_right hword fun _ => space.isPlainChar_eq_false).mpr (avoids_word hword htext hne)
  have hfrom (space : Spacing) : Avoids word ("from".toList ++ (space.chars ++ c :: back)) := by
    rw [← List.append_assoc, avoids_append_cons hc]
    exact ⟨hblanks (by decide) (by decide) space, hback⟩
  have hrequire (outer inner : Spacing) :
      Avoids word ("require".toList ++ (outer.chars ++ '(' :: (inner.chars ++ c :: back))) := by
    rw [← List.append_assoc, avoids_append_cons (by decide)]
    exact ⟨hblanks (by decide) (by decide) outer, hspace inner hend⟩
  cases form with
  | importFrom gap modifier clause space =>
      simp only [afterKeyword_importFrom, List.append_assoc]
      exact hspace gap.toSpacing (avoids_modifier_append hword modifier (clause.avoids_append hword (hfrom space)))
  | bareImport space => exact hspace space hend
  | exportFrom gap modifier clause space =>
      simp only [afterKeyword_exportFrom, List.append_assoc]
      exact hspace gap.toSpacing (avoids_modifier_append hword modifier (clause.avoids_append hword (hfrom space)))
  | dynamicImport outer inner =>
      simp only [afterKeyword_dynamicImport, List.append_assoc, List.cons_append]
      exact hcall outer inner
  | requireCall declaration outer inner =>
      cases declaration with
      | none =>
          simp only [afterKeyword_call, List.append_assoc, List.cons_append]
          exact hcall outer inner
      | some declaration =>
          simp only [afterKeyword_declaration, List.append_assoc, List.cons_append]
          exact hspace declaration.gap.toSpacing (declaration.target.avoids_append hword declaration.beforeSign
            (by decide) (hspace declaration.afterSign (hrequire outer inner)))

end Form

namespace Statement

variable (s : Statement)

theorem isPlainChar_mark : isPlainChar s.mark.char = false := by
  cases s.mark <;> decide

/-- The rest of a statement holds no words. -/
theorem isPlainChar_remainder : ∀ c ∈ s.remainder, isPlainChar c = false := by
  have hblanked : ∀ c ∈ s.blanked, isPlainChar c = false := by
    intro c hc
    obtain ⟨d, -, hd⟩ := List.mem_flatMap.mp hc
    rcases mem_blankOut hd with rfl | rfl <;> decide
  have hending : ∀ c ∈ s.ending, isPlainChar c = false := by
    intro c hc
    rw [ending, List.mem_append, List.mem_append] at hc
    rcases hc with hc | hc | hc
    · exact s.beforeEnd.isPlainChar_eq_false hc
    · split_ifs at hc
      · exact (by decide : ∀ c ∈ [')'], isPlainChar c = false) c hc
      · cases hc
    · exact (by decide : ∀ c ∈ [';', '\n'], isPlainChar c = false) c hc
  rw [remainder]
  simpa [s.isPlainChar_mark, or_imp, forall_and] using ⟨hblanked, hending⟩

end Statement

theorem Form.keyword_mem (form : Form) :
    form.keyword ∈ ["import".toList, "export".toList, "require".toList, "const".toList] := by
  cases form with
  | exportFrom gap modifier clause space => exact .tail _ (.head _)
  | requireCall declaration outer inner =>
      cases declaration with
      | none => exact .tail _ (.tail _ (.head _))
      | some declaration => exact .tail _ (.tail _ (.tail _ (.head _)))
  | _ => exact .head _

theorem Form.keyword_ne_nil (form : Form) : form.keyword ≠ [] :=
  (by decide : ∀ word ∈ ["import".toList, "export".toList, "require".toList, "const".toList], word ≠ []) _
    form.keyword_mem

theorem Form.isPlainChar_keyword (form : Form) : form.keyword.all isPlainChar = true :=
  (by decide : ∀ word ∈ ["import".toList, "export".toList, "require".toList, "const".toList],
    word.all isPlainChar = true) _ form.keyword_mem

theorem Statement.exists_body (s : Statement) : ∃ body, s.masked = body ++ [';', '\n'] :=
  ⟨s.form.chars ++ s.mark.char :: (s.blanked ++ s.mark.char ::
    (s.beforeEnd.chars ++ if s.form.isCall then [')'] else [])), by simp [masked, ending]⟩

/-- The words that begin imports and re-exports stand at the beginning of a statement only. -/
theorem Statement.eq_keyword {s : Statement} (hword : word ∈ keywords) (hsplit : s.masked = front ++ back)
    (hne : back ≠ []) (hfront : ∀ d ∈ (before ++ front).getLast?, isPlainChar d = false)
    (hc : isPlainChar c = false) (he : back ++ after = word ++ c :: rest) : front = [] ∧ word = s.form.keyword := by
  have hplain : word.all isPlainChar = true := (by decide : ∀ w ∈ keywords, w.all isPlainChar = true) word hword
  have htail : Avoids word (s.form.afterKeyword ++ s.mark.char :: s.remainder) :=
    s.form.avoids_afterKeyword hword s.isPlainChar_mark (avoids_of_forall hword s.isPlainChar_remainder)
  have hlast : ∀ d ∈ back.getLast?, isPlainChar d = false := by
    obtain ⟨body, hbody⟩ := s.exists_body
    have hend : back.getLast? = some '\n' := by
      rw [← List.getLast?_append_of_ne_nil front hne, ← hsplit, hbody, List.getLast?_append_of_ne_nil _ (by simp)]
      rfl
    rw [hend]
    exact fun d hd => Option.some.inj hd ▸ (by decide : isPlainChar '\n' = false)
  -- A piece of the first word ends with a letter, and so does not end where a word begins.
  have hinside {part : List Char} (hpart : part ⊆ s.form.keyword)
      (hlast : ∀ d ∈ (before ++ part).getLast?, isPlainChar d = false) : part = [] := by
    by_contra hne
    have hletter := List.all_eq_true.mp s.form.isPlainChar_keyword _ (hpart (List.getLast_mem hne))
    rw [hlast _ (by rw [List.getLast?_append_of_ne_nil _ hne, List.getLast?_eq_some_getLast hne]; rfl)] at hletter
    cases hletter
  have hmasked : s.masked = s.form.keyword ++ (s.form.afterKeyword ++ s.mark.char :: s.remainder) := by
    simp [masked_eq, opening, s.form.chars_eq]
  rw [hmasked] at hsplit
  rcases List.append_eq_append_iff.mp hsplit with ⟨more, rfl, hmore⟩ | ⟨more, hkeyword, rfl⟩
  · have hne' : more ≠ [] := by
      rintro rfl
      rw [List.append_nil] at hfront
      exact s.form.keyword_ne_nil (hinside (List.Subset.refl _) hfront)
    rw [← List.append_assoc, List.getLast?_append_of_ne_nil _ hne'] at hfront
    rw [hmore] at htail
    exact absurd he (htail.append_ne hplain hfront hlast hne hc)
  · obtain rfl := hinside (hkeyword ▸ List.subset_append_left _ _) hfront
    obtain rfl : s.form.keyword = more := hkeyword
    refine ⟨rfl, ?_⟩
    rw [List.append_assoc] at he
    have hhead : ∀ d ∈ (s.form.afterKeyword ++ s.mark.char :: s.remainder ++ after).head?,
        isPlainChar d = false := by
      rw [List.head?_append_of_ne_nil _ (by simp)]
      exact s.form.head_afterKeyword s.isPlainChar_mark
    exact (append_inj_of_stop (List.all_eq_true.mp s.form.isPlainChar_keyword) hhead
      (List.all_eq_true.mp hplain) (by simpa using hc) he).1.symm

end ApiImpact.ModuleReference

import ApiImpact.Proofs.Report.Loss

/-!
# Which findings carry the disclaimer

A finding from patterns ends with the disclaimer, unless its message holds a word of doubt. The words that the report
itself puts into a message never do, so that it is up to the names and types which the message quotes. A finding about
`unlikely` goes without the disclaimer that the same finding about `f` carries.
-/

namespace ApiImpact

/-! ## Parts of a text -/

namespace Text

variable {part front rest text : List Char}

theorem holds_iff_infix : holds part text = true ↔ part <:+: text := by
  induction text with
  | nil => rw [holds, List.isEmpty_iff, List.infix_nil]
  | cons c text ih => rw [holds, Bool.or_eq_true, ih, List.isPrefixOf_iff_prefix, List.infix_cons_iff]

/-- A part reaches from one text into the next one only if it holds a character on each side of the border. -/
theorem infix_append_iff_or (h : (∀ c ∈ front.getLast?, c ∉ part) ∨ ∀ c ∈ rest.head?, c ∉ part) :
    part <:+: front ++ rest ↔ part <:+: front ∨ part <:+: rest := by
  rw [List.infix_append_iff, ← or_assoc, or_iff_left_iff_imp]
  rintro ⟨upper, lower, rfl, hupper, hlower⟩
  rcases List.eq_nil_or_concat upper with rfl | ⟨init, c, rfl⟩
  · exact .inr hlower.isInfix
  · cases lower with
    | nil =>
        rw [List.append_nil]
        exact .inl hupper.isInfix
    | cons d lower =>
        obtain ⟨before, rfl⟩ := hupper
        obtain ⟨after, rfl⟩ := hlower
        rcases h with hlast | hhead
        · exact absurd (by simp) (hlast c (by simp))
        · exact absurd (by simp) (hhead d rfl)

end Text

/-! ## What a message quotes -/

/-- The texts of the module in the name that an export is filed under. -/
def Export.subjectTexts (e : Export) : List String :=
  if e.kind = .star ∧ e.name = "*" then e.sourceModule.toList else [e.displayName]

/-- The texts of the module in the statement of an export that stands for everything of a module. -/
def Export.statementTexts (e : Export) : List String :=
  match e.exportType with
  | .default => [e.displayName]
  | .named => e.name :: e.sourceModule.toList

/-- The texts that are quoted in the message about a changed parameter list of `owner`. -/
def ParameterChange.texts (owner : String) : ParameterChange → List String
  | countDecreased _ _ | restRemoved => [owner]
  | requiredAdded name => [owner, name]
  | becameRequired name => [name, owner]
  | typeChanged name before after _ => [name, owner, before, after]

/-- The texts that are quoted in the message about a change inside `owner`. -/
def DeclarationChange.texts (owner : String) : DeclarationChange → List String
  | parameters change | constructor change => change.texts owner
  | returnTypeChanged before after _ | definitionChanged before after => [owner, before, after]
  | asyncChanged _ | constructorRemoved => [owner]
  | methodRemoved name | propertyRemoved name | propertyBecameRequired name | enumMemberRemoved name => [name, owner]
  | propertyAddedRequired name => [owner, name]
  | propertyTypeChanged name before after => [name, owner, before, after]

/-- The texts that are quoted in the message about an export that is gone. -/
def RemovedExport.texts (removed : RemovedExport) : List String :=
  let e := removed.was
  match removed.rule with
  | .exportStarRemoved => e.statementTexts
  | .aliasedExportRemoved => e.subjectTexts ++ [e.sourceName.getD e.name]
  | .reexportRemoved => e.subjectTexts ++ e.sourceModule.toList
  | _ => e.subjectTexts

namespace Finding

variable {change : SurfaceChange} {f : Finding} {texts more : List String} {front between rest text message : String}
  {c : Char}

/-- A finding of the change that the disclaimer is meant for, with the texts that its message quotes. -/
inductive Quotes (change : SurfaceChange) : Finding → List String → Prop where
  | removedSymbol {s : Symbol} : s ∈ change.symbols.removed → Quotes change (ofRemovedSymbol s) [s.name]
  | declaration {m : ModifiedSymbol} {c : DeclarationChange} : m ∈ change.symbols.modified → c ∈ m.changes →
      Quotes change (ofDeclarationChange change.typed m c) (c.texts m.after.name)
  | removedExport {r : RemovedExport} : r ∈ change.exports.removed → Quotes change (ofRemovedExport r) r.texts
  | modifiedExport {m : ModifiedExport} : m ∈ change.exports.modified →
      Quotes change (ofModifiedExport m) m.before.subjectTexts
  | moduleSystem {c : ModuleSystemChange} : c ∈ change.moduleSystem → Quotes change (ofModuleSystemChange c) []

theorem exists_quotes (hf : f ∈ all change) (hrule : f.rule.skipsDisclaimer = false) :
    ∃ texts, Quotes change f texts := by
  rcases mem_all_iff.mp hf with ⟨s, hs, rfl⟩ | ⟨s, -, rfl⟩ | ⟨m, hm, c, hc, rfl⟩ | ⟨r, hr, rfl⟩ | ⟨m, hm, rfl⟩ |
    ⟨e, -, rfl⟩ | ⟨c, -, rfl⟩ | ⟨c, hc, rfl⟩
  · exact ⟨_, .removedSymbol hs⟩
  · cases hrule
  · exact ⟨_, .declaration hm hc⟩
  · exact ⟨_, .removedExport hr⟩
  · exact ⟨_, .modifiedExport hm⟩
  · cases hrule
  · cases c <;> cases hrule
  · exact ⟨_, .moduleSystem hc⟩

/-! ## Words of doubt -/

/-- The character stands in no word of doubt. -/
def isSeparator (c : Char) : Bool :=
  hedges.all fun hedge => !hedge.toList.contains (smallLetter c)

theorem notMem_of_isSeparator {hedge : String} (hhedge : hedge ∈ hedges) (h : isSeparator c = true) :
    smallLetter c ∉ hedge.toList := by
  simpa using List.all_eq_true.mp h hedge hhedge

/-- A text is doubtful that holds a word of doubt in letters of any size. -/
theorem isHedged_iff : isHedged message = true ↔
    ∃ hedge ∈ hedges, hedge.toList <:+: message.toList.map smallLetter := by
  simp only [isHedged, List.any_eq_true, Text.holds_iff_infix]

/-- No word of doubt reaches over a separator. -/
theorem isHedged_append
    (h : front.toList.getLast?.all isSeparator = true ∨ rest.toList.head?.all isSeparator = true) :
    isHedged (front ++ rest) = (isHedged front || isHedged rest) := by
  rw [Bool.eq_iff_iff, Bool.or_eq_true, isHedged_iff, isHedged_iff, isHedged_iff, ← exists_or]
  refine exists_congr fun hedge => ?_
  rw [← and_or_left, String.toList_append, List.map_append]
  refine and_congr_right fun hhedge => Text.infix_append_iff_or (h.imp (fun hlast => ?_) fun hhead => ?_)
  · rw [List.getLast?_map]
    intro c hc
    obtain ⟨d, hd, rfl⟩ := Option.mem_map.mp hc
    exact notMem_of_isSeparator hhedge ((Option.all_eq_true _ _).mp hlast d hd)
  · rw [List.head?_map]
    intro c hc
    obtain ⟨d, hd, rfl⟩ := Option.mem_map.mp hc
    exact notMem_of_isSeparator hhedge ((Option.all_eq_true _ _).mp hhead d hd)

/-- Words that hold no word of doubt, and that none reaches over from either side. -/
def IsPlain (words : String) : Prop :=
  isHedged words = false ∧ words.toList ≠ [] ∧ words.toList.head?.all isSeparator = true ∧
    words.toList.getLast?.all isSeparator = true

instance (words : String) : Decidable (IsPlain words) :=
  inferInstanceAs (Decidable (_ ∧ _))

theorem IsPlain.isHedged_append (h : IsPlain between) (front rest : String) :
    isHedged (front ++ (between ++ rest)) = (isHedged front || isHedged rest) := by
  obtain ⟨hwords, hne, hhead, hlast⟩ := h
  have hborder : (between ++ rest).toList.head?.all isSeparator = true := by
    rwa [String.toList_append, List.head?_append_of_ne_nil _ hne]
  rw [Finding.isHedged_append (.inr hborder), Finding.isHedged_append (.inl hlast), hwords, Bool.false_or]

theorem isPlain_of_separators (hne : text.toList ≠ []) (h : ∀ c ∈ text.toList, isSeparator c = true) :
    IsPlain text := by
  refine ⟨?_, hne, ?_, ?_⟩
  · rw [Bool.eq_false_iff, Ne, isHedged_iff]
    rintro ⟨hedge, hhedge, hpart⟩
    have hnonempty : ∀ hedge ∈ hedges, hedge.toList ≠ [] := by decide
    obtain ⟨c, hc⟩ := List.exists_mem_of_ne_nil _ (hnonempty hedge hhedge)
    obtain ⟨d, hd, rfl⟩ := List.mem_map.mp (hpart.subset hc)
    exact notMem_of_isSeparator hhedge (h d hd) hc
  · exact (Option.all_eq_true _ _).mpr fun c hc => h c (List.mem_of_mem_head? hc)
  · exact (Option.all_eq_true _ _).mpr fun c hc => h c (List.mem_of_mem_getLast? hc)

theorem isSeparator_of_isDigit (h : c.isDigit = true) : isSeparator c = true := by
  have hdigits : ∀ n ≤ 57, 48 ≤ n → isSeparator (Char.ofNat n) = true := by decide
  have hrange : 48 ≤ c.toNat ∧ c.toNat ≤ 57 := by
    simpa [Char.isDigit, UInt32.le_iff_toNat_le] using h
  have hc := hdigits c.toNat hrange.2 hrange.1
  rwa [Char.ofNat_toNat] at hc

theorem isDigit_of_mem_repr {n : Nat} (h : c ∈ n.repr.toList) : c.isDigit = true := by
  rw [Nat.toList_repr] at h
  exact Nat.isDigit_of_mem_toDigits (by decide) (by decide) h

theorem isPlain_repr (n : Nat) : IsPlain n.repr := by
  refine isPlain_of_separators ?_ fun c hc => isSeparator_of_isDigit (isDigit_of_mem_repr hc)
  rw [Nat.toList_repr]
  exact List.ne_nil_of_length_pos Nat.length_toDigits_pos

/-! ## The texts of an export -/

theorem isHedged_findingSymbol (e : Export) : isHedged e.findingSymbol = e.subjectTexts.any isHedged := by
  unfold Export.findingSymbol Export.subjectTexts
  split_ifs
  · have hstar (module : String) : isHedged ("* from " ++ module) = isHedged module :=
      isHedged_append (.inl (by decide))
    cases e.sourceModule with
    | none => decide
    | some module => simpa [toString] using hstar module
  · simp

theorem isHedged_append_fromText (e : Export) (front : String) :
    isHedged (front ++ e.fromText) = (isHedged front || e.sourceModule.toList.any isHedged) := by
  have hfrom : IsPlain " from '" := by decide
  have hmark : isHedged "'" = false ∧ "'".toList.head?.all isSeparator = true := by decide
  unfold Export.fromText
  cases e.sourceModule with
  | none => simp
  | some module =>
      simp only [toString, Option.elim_some, Option.toList_some, String.append_assoc]
      rw [hfrom.isHedged_append, isHedged_append (.inr hmark.2), hmark.1, Bool.or_false, List.any_cons, List.any_nil,
        Bool.or_false]

theorem isHedged_statement {e : Export} (h : e.kind = .star) :
    isHedged e.statement = e.statementTexts.any isHedged := by
  unfold Export.statement Export.statementTexts
  rw [h]
  cases e.exportType with
  | default =>
      have hwords : isHedged ("export default " ++ e.displayName) = isHedged e.displayName :=
        isHedged_append (.inl (by decide))
      simpa [toString] using hwords
  | named =>
      simp only [toString, List.any_cons]
      split_ifs with hname
      · have hstar : isHedged "export *" = false ∧ isHedged "*" = false := by decide
        rw [isHedged_append_fromText, hstar.1, hname, hstar.2]
      · have hwords : isHedged ("export * as " ++ e.name) = isHedged e.name :=
          isHedged_append (.inl (by decide))
        rw [isHedged_append_fromText, hwords]

/-! ## The messages -/

/-- The message holds a word of doubt just when one of `texts` does, and has no bracket at its end. -/
structure Worded (texts : List String) (message : String) : Prop where
  hedged : isHedged message = texts.any isHedged
  last : message.toList.getLast? ≠ some ')'

/-- The message does not end with the disclaimer unless it is put there. -/
theorem Worded.not_suffix (h : Worded texts message) : ¬ disclaimer.toList <:+ message.toList := by
  rintro ⟨front, he⟩
  refine h.last ?_
  rw [← he, List.getLast?_append]
  rfl

theorem Worded.words (h : isHedged message = false) (hlast : message.toList.getLast? ≠ some ')') :
    Worded [] message :=
  ⟨h, hlast⟩

/-- Words and a text in quotation marks stand before the rest of the message. -/
theorem Worded.quote (hfront : isHedged front = false) (htext : isHedged text = texts.any isHedged)
    (hrest : Worded more rest) : Worded (texts ++ more) (front ++ (quoted text ++ rest)) := by
  have hmark : IsPlain "\x60" := by decide
  constructor
  · rw [quoted, String.append_assoc, String.append_assoc, hmark.isHedged_append, hmark.isHedged_append, hfront, htext,
      hrest.hedged, List.any_append, Bool.false_or]
  · have hlast : (front ++ (quoted text ++ rest)).toList.getLast? = some (rest.toList.getLast?.getD '\x60') := by
      simp [quoted, List.getLast?_append, List.getLast?_cons]
    rw [hlast]
    cases hend : rest.toList.getLast? with
    | none => decide
    | some c => exact fun he => hrest.last (hend.trans he)

theorem Worded.quote_final (hfront : isHedged front = false) (htext : isHedged text = texts.any isHedged) :
    Worded texts (front ++ quoted text) := by
  have hrest : Worded [] "" := .words (by decide) (by decide)
  simpa using Worded.quote hfront htext hrest

theorem Worded.quote_first (htext : isHedged text = texts.any isHedged) (hrest : Worded more rest) :
    Worded (texts ++ more) (quoted text ++ rest) := by
  have hfront : isHedged "" = false := by decide
  simpa using Worded.quote hfront htext hrest

theorem isHedged_eq_any (text : String) : isHedged text = [text].any isHedged := by
  simp

theorem Worded.name (hfront : isHedged front = false) (hrest : Worded more rest) :
    Worded (text :: more) (front ++ (quoted text ++ rest)) :=
  .quote hfront (isHedged_eq_any text) hrest

theorem Worded.first (hrest : Worded more rest) : Worded (text :: more) (quoted text ++ rest) :=
  .quote_first (isHedged_eq_any text) hrest

theorem Worded.final (hfront : isHedged front = false) : Worded [text] (front ++ quoted text) :=
  .quote_final hfront (isHedged_eq_any text)

/-- A text that the report puts into a message of its own. -/
def IsLabel (text : String) : Prop :=
  isHedged text = false ∧ text.toList.getLast?.any (· != ')') = true

instance (text : String) : Decidable (IsLabel text) :=
  inferInstanceAs (Decidable (_ ∧ _))

theorem isLabel_repr (n : Nat) : IsLabel n.repr := by
  obtain ⟨hquiet, hne, -⟩ := isPlain_repr n
  refine ⟨hquiet, ?_⟩
  rw [List.getLast?_eq_some_getLast hne, Option.any_some, bne_iff_ne]
  intro hbracket
  have hdigit := isDigit_of_mem_repr (List.getLast_mem hne)
  rw [hbracket] at hdigit
  exact absurd hdigit (by decide)

theorem isLabel_description (kind : ExportKind) : IsLabel kind.description := by
  cases kind <;> decide

theorem isLabel_label (system : ModuleSystem) : IsLabel system.label := by
  cases system <;> decide

/-- Two labels stand behind words. -/
theorem Worded.labels (hfront : isHedged front = false) (hborder : front.toList.getLast?.all isSeparator = true)
    (hbetween : IsPlain between) {label label' : String} (h : IsLabel label) (h' : IsLabel label') :
    Worded [] (front ++ (label ++ (between ++ label'))) := by
  constructor
  · rw [isHedged_append (.inl hborder), hbetween.isHedged_append, hfront, h.1, h'.1]
    rfl
  · obtain ⟨c, hc, hbracket⟩ := (Option.any_eq_true _ _).mp h'.2
    have hlast : (front ++ (label ++ (between ++ label'))).toList.getLast? = some c := by
      simp only [String.toList_append, List.getLast?_append, hc, Option.some_or]
    rw [hlast]
    simpa using hbracket

theorem worded_judgeParameters (typed : Bool) (callable : Callable) (owner : String) (c : ParameterChange) :
    Worded (c.texts owner) (judgeParameters typed callable owner c).message := by
  cases c with
  | countDecreased before after =>
      simp only [judgeParameters, toString, String.append_assoc]
      rw [← @String.append_assoc callable.words]
      refine .first (.labels ?_ ?_ (by decide) (isLabel_repr after) (isLabel_repr before)) <;> cases callable <;> decide
  | restRemoved =>
      simp only [judgeParameters, toString, String.append_assoc]
      refine .first (.words ?_ ?_) <;> cases callable <;> decide
  | requiredAdded name =>
      simp only [judgeParameters, toString, String.append_assoc]
      rw [← @String.append_assoc callable.words]
      refine .first (.final ?_)
      cases callable <;> decide
  | becameRequired name =>
      simp only [judgeParameters, toString, String.append_assoc]
      refine .name (by decide) (.name (by decide) (.words ?_ ?_)) <;> cases callable <;> decide
  | typeChanged name before after widening =>
      simp only [judgeParameters, toString, String.append_assoc]
      rw [← @String.append_assoc callable.words]
      refine .name (by decide) (.name (by decide) (.name ?_ (.final (by decide))))
      cases callable <;> decide

theorem worded_judge (typed : Bool) (owner : String) (c : DeclarationChange) :
    Worded (c.texts owner) (judge typed owner c).message := by
  cases c with
  | parameters c => exact worded_judgeParameters typed .function owner c
  | constructor c => exact worded_judgeParameters typed .constructor owner c
  | returnTypeChanged before after | definitionChanged before after =>
      simp only [judge, toString, String.append_assoc]
      exact .name (by decide) (.name (by decide) (.final (by decide)))
  | asyncChanged nowAsync => cases nowAsync <;> exact .first (.words (by decide) (by decide))
  | methodRemoved name | enumMemberRemoved name | propertyRemoved name | propertyAddedRequired name =>
      simp only [judge, toString, String.append_assoc]
      exact .name (by decide) (.final (by decide))
  | constructorRemoved =>
      simp only [judge, toString, String.append_assoc]
      exact .name (by decide) (.words (by decide) (by decide))
  | propertyBecameRequired name =>
      simp only [judge, toString, String.append_assoc]
      exact .name (by decide) (.name (by decide) (.words (by decide) (by decide)))
  | propertyTypeChanged name before after =>
      simp only [judge, toString, String.append_assoc]
      exact .name (by decide) (.name (by decide) (.name (by decide) (.final (by decide))))

theorem worded_was_removed : Worded [] " was removed" :=
  .words (by decide) (by decide)

theorem worded_removedSymbol (s : Symbol) : Worded [s.name] (ofRemovedSymbol s).message := by
  simp only [ofRemovedSymbol, toString, String.append_assoc]
  rw [← @String.append_assoc s.kind.label]
  refine .name ?_ worded_was_removed
  cases s.kind <;> decide

theorem worded_transition (m : ModifiedExport) : Worded m.before.subjectTexts (transitionMessage m) := by
  have hname := isHedged_findingSymbol m.before
  rw [← List.append_nil m.before.subjectTexts]
  unfold transitionMessage
  cases m.transition with
  | kindChanged =>
      simp only [String.append_assoc]
      exact .quote (by decide) hname
        (.labels (by decide) (by decide) (by decide) (isLabel_description _) (isLabel_description _))
  | namedToDefault => exact .quote_first hname (.words (by decide) (by decide))
  | defaultToNamed => exact .quote_first hname (.words (by decide) (by decide))

theorem worded_moduleSystem (c : ModuleSystemChange) : Worded [] (ofModuleSystemChange c).message := by
  simp only [ofModuleSystemChange, toString, String.append_assoc]
  exact .labels (by decide) (by decide) (by decide) (isLabel_label _) (isLabel_label _)

theorem kind_of_rule {r : RemovedExport} (h : r.rule = .exportStarRemoved) : r.was.kind = .star := by
  by_contra hkind
  simp only [RemovedExport.rule, hkind, if_false] at h
  split_ifs at h

theorem worded_removal (r : RemovedExport) : Worded r.texts (removalMessage r.rule r.was) := by
  have hname := isHedged_findingSymbol r.was
  have hmodule : isHedged (r.was.sourceModule.getD "") = r.was.sourceModule.toList.any isHedged := by
    cases r.was.sourceModule with
    | none => decide
    | some module => simp
  unfold RemovedExport.texts removalMessage
  cases hrule : r.rule with
  | exportStarRemoved =>
      have h := Worded.quote_first (isHedged_statement (kind_of_rule hrule)) worded_was_removed
      simpa [toString] using h
  | aliasedExportRemoved =>
      simp only [toString, String.append_assoc]
      exact .quote (by decide) hname (.name (by decide) (.words (by decide) (by decide)))
  | reexportRemoved =>
      simp only [toString, String.append_assoc]
      rw [← List.append_nil r.was.sourceModule.toList]
      exact .quote (by decide) hname (.quote (by decide) hmodule worded_was_removed)
  | _ =>
      simp only [toString, String.append_assoc]
      rw [← List.append_nil r.was.subjectTexts]
      exact .quote (by decide) hname worded_was_removed

theorem Quotes.worded (h : Quotes change f texts) : Worded texts f.message := by
  cases h with
  | removedSymbol hs => exact worded_removedSymbol _
  | declaration hm hc => exact worded_judge _ _ _
  | removedExport hr => exact worded_removal _
  | modifiedExport hm => exact worded_transition _
  | moduleSystem hc => exact worded_moduleSystem _

/-! ## The disclaimer -/

/-- The message ends with the disclaimer. -/
def IsDisclaimed (f : Finding) : Prop :=
  disclaimer.toList <:+ f.message.toList

instance (f : Finding) : Decidable f.IsDisclaimed :=
  inferInstanceAs (Decidable (_ <:+ _))

theorem isDisclaimed_disclaim_iff (typed : Bool) (hlast : ¬ f.IsDisclaimed) :
    (f.disclaim typed).IsDisclaimed ↔ f.needsDisclaimer typed = true := by
  unfold disclaim
  split_ifs with hneeds
  · refine iff_of_true ?_ hneeds
    rw [IsDisclaimed, String.toList_append]
    exact List.suffix_append _ _
  · exact iff_of_false hlast hneeds

/-- A finding that the disclaimer is meant for carries it just when none of the texts that it quotes holds a word
of doubt. -/
theorem Quotes.isDisclaimed_iff (h : Quotes change f texts) (hrule : f.rule.skipsDisclaimer = false) (typed : Bool) :
    (f.disclaim typed).IsDisclaimed ↔
      (typed = false ∨ f.rule.isHeuristic = true) ∧ ∀ text ∈ texts, isHedged text = false := by
  rw [isDisclaimed_disclaim_iff typed h.worded.not_suffix, needsDisclaimer, hrule, h.worded.hedged]
  simp [or_comm]

end Finding

namespace ImpactReport

/-- Every reported finding that the disclaimer is meant for comes from a finding of the change. It carries the disclaimer
just when the change comes from patterns, by its files or by its rule, and no name, type or module that its message
quotes holds a word of doubt. -/
theorem disclaimed_iff_quotes_no_hedge (sourceFile : String) (change : SurfaceChange) (root : Path)
    (dependents : List Dependent) (tests : List AffectedTest) :
    ∀ f ∈ (ImpactReport.of sourceFile change root dependents tests).findings, f.rule.skipsDisclaimer = false →
      ∃ kept texts, Finding.Quotes change kept texts ∧ f = kept.disclaim change.typed ∧
        (f.IsDisclaimed ↔
          (change.typed = false ∨ f.rule.isHeuristic = true) ∧ ∀ text ∈ texts, Finding.isHedged text = false) := by
  intro f hf hrule
  rw [findings_of] at hf
  obtain ⟨kept, hkept, rfl, -⟩ := Finding.exists_of_mem_reported hf
  rw [Finding.rule_disclaim] at hrule ⊢
  obtain ⟨texts, hquotes⟩ := Finding.exists_quotes hkept hrule
  exact ⟨kept, texts, hquotes, rfl, hquotes.isDisclaimed_iff hrule change.typed⟩

/-- A function loses a parameter. By the name `f` the finding carries the disclaimer, by the name `unlikely` it does
not. -/
theorem disclaimed_iff_quotes_no_hedge_of_names :
    let function (name : String) (params : List Parameter) : Symbol :=
      { name, qualifiedName := name, kind := .function, line := 1, column := 0, signature := "export function " ++ name
        shape := .function { params } }
    let empty : Snapshot := { filePath := "m.js", language := .javaScript, status := .parsed }
    let change (name : String) : SurfaceChange := .between 2
      ({ empty with fingerprint := 1 }.addSymbol (function name [{ name := "a" }, { name := "b" }]))
      ({ empty with fingerprint := 2 }.addSymbol (function name [{ name := "a" }]))
    let report (name : String) : ImpactReport := ImpactReport.of "m.js" (change name) (.ofString "/p") [] []
    (∃ f ∈ (report "f").findings, f.rule.skipsDisclaimer = false ∧ f.IsDisclaimed) ∧
      ∃ f ∈ (report "unlikely").findings, f.rule.skipsDisclaimer = false ∧ ¬ f.IsDisclaimed ∧
        ∃ kept texts, Finding.Quotes (change "unlikely") kept texts ∧ f = kept.disclaim false ∧
          ∃ text ∈ texts, Finding.isHedged text = true := by
  intro function empty change report
  have hplain : ∃ f ∈ (report "f").findings, f.rule.skipsDisclaimer = false ∧ f.IsDisclaimed := by decide +kernel
  have hhedged : ∃ f ∈ (report "unlikely").findings, f.rule.skipsDisclaimer = false ∧ ¬ f.IsDisclaimed := by
    decide +kernel
  have htyped : (change "unlikely").typed = false := by decide
  obtain ⟨f, hf, hrule, hnone⟩ := hhedged
  obtain ⟨kept, texts, hquotes, hkept, hiff⟩ :=
    disclaimed_iff_quotes_no_hedge "m.js" (change "unlikely") (.ofString "/p") [] [] f hf hrule
  rw [htyped] at hkept hiff
  refine ⟨hplain, f, hf, hrule, hnone, kept, texts, hquotes, hkept, ?_⟩
  by_contra hquiet
  refine hnone (hiff.mpr ⟨.inl rfl, fun text htext => ?_⟩)
  exact Bool.eq_false_iff.mpr fun hdoubt => hquiet ⟨text, htext, hdoubt⟩

end ImpactReport

end ApiImpact

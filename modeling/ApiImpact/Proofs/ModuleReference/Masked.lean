import ApiImpact.Proofs.ModuleReference.Clause
import ApiImpact.Proofs.Text.Shade

/-!
# Statements in the masks

A statement holds no comments, and its one literal is its specifier. So the text without comments is the
text itself, and in the code alone the specifier of each statement is blanked out.
-/

namespace ApiImpact.ModuleReference

open Text

variable {trail : Trail} {c : Char} {text rest : List Char} {signs : List Char}

/-! ## Forms -/

theorem Property.all_isOf_inner (list : Listing Property) :
    (list.inner Property.chars).all (isOf [',', ':']) = true :=
  Listing.all_inner (by simp) fun property => all_isOf_mono (by simp) property.all_isOf

/-- The signs of the code before a specifier. -/
def formSigns : List Char := ['*', '\x7b', '\x7d', ',', ':', '=', '(']

/-- The signs of a clause. -/
def clauseSigns : List Char := ['*', '\x7b', '\x7d', ',']

theorem Bindings.all_isOf (bindings : Bindings) : bindings.core.all (isOf clauseSigns) = true := by
  cases bindings with
  | whole beforeAs afterAs name after => exact all_isOf_mono (by decide) (all_isOf_whole beforeAs afterAs name after)
  | names list after =>
      have hinner : (list.inner NameEntry.chars).all (isOf clauseSigns) = true :=
        Listing.all_inner (by decide) fun entry => all_isOf_mono (by decide) entry.all_isOf
      exact Listing.all_chars (by decide) hinner

theorem ImportClause.all_isOf (clause : ImportClause) : clause.core.all (isOf clauseSigns) = true := by
  cases clause with
  | default name after => exact name.all_isOf
  | bindings inner => exact inner.all_isOf
  | both name beforeComma afterComma inner =>
      have hcomma : isOf clauseSigns ',' = true := isOf_of_mem (by decide)
      simp only [core, List.all_append, List.all_cons, Name.all_isOf, Spacing.all_isOf, hcomma, inner.all_isOf,
        Bool.and_self]

theorem ExportClause.all_isOf (clause : ExportClause) : clause.core.all (isOf clauseSigns) = true := by
  cases clause with
  | star after => rfl
  | bindings inner => exact inner.all_isOf

theorem Target.all_isOf (target : Target) : target.chars.all (isOf formSigns) = true := by
  cases target with
  | whole name => exact name.all_isOf
  | properties list =>
      exact Listing.all_chars (by decide) (all_isOf_mono (by decide) (Property.all_isOf_inner list))

theorem all_isOf_modifier (modifier : Option Gap) : (modifierChars modifier).all (isOf signs) = true := by
  cases modifier with
  | none => rfl
  | some gap =>
      have htype : "type".toList.all (isOf signs) = true := all_isOf_of_plain (by decide)
      simp only [modifierChars, Option.elim, List.all_append, htype, Spacing.all_isOf, Bool.and_self]

theorem Declaration.all_isOf (declaration : Declaration) : declaration.chars.all (isOf formSigns) = true := by
  have hconst : "const".toList.all (isOf formSigns) = true := all_isOf_of_plain (by decide)
  have hsign : isOf formSigns '=' = true := isOf_of_mem (by decide)
  simp only [chars_eq, List.all_append, List.all_cons, hconst, hsign, Spacing.all_isOf, declaration.target.all_isOf,
    Bool.and_self]

theorem Form.all_isOf (form : Form) : form.chars.all (isOf formSigns) = true := by
  have himport : "import".toList.all (isOf formSigns) = true := all_isOf_of_plain (by decide)
  have hexport : "export".toList.all (isOf formSigns) = true := all_isOf_of_plain (by decide)
  have hrequire : "require".toList.all (isOf formSigns) = true := all_isOf_of_plain (by decide)
  have hfrom : "from".toList.all (isOf formSigns) = true := all_isOf_of_plain (by decide)
  have hsign : isOf formSigns '(' = true := isOf_of_mem (by decide)
  have hsub : clauseSigns ⊆ formSigns := by decide
  cases form with
  | importFrom gap modifier clause space =>
      simp only [chars_importFrom, List.all_append, himport, hfrom, Spacing.all_isOf, all_isOf_modifier,
        all_isOf_mono hsub clause.all_isOf, Bool.and_self]
  | bareImport space => simp only [chars_bareImport, List.all_append, himport, Spacing.all_isOf, Bool.and_self]
  | exportFrom gap modifier clause space =>
      simp only [chars_exportFrom, List.all_append, hexport, hfrom, Spacing.all_isOf, all_isOf_modifier,
        all_isOf_mono hsub clause.all_isOf, Bool.and_self]
  | dynamicImport outer inner =>
      simp only [chars_dynamicImport, List.all_append, List.all_cons, himport, hsign, Spacing.all_isOf, Bool.and_self]
  | requireCall declaration outer inner =>
      have hdeclaration : (declaration.elim [] Declaration.chars).all (isOf formSigns) = true := by
        cases declaration with
        | none => rfl
        | some declaration => exact declaration.all_isOf
      simp only [chars_requireCall, List.all_append, List.all_cons, hdeclaration, hrequire, hsign, Spacing.all_isOf,
        Bool.and_self]

/-! ## Shades -/

/-- Code without literals and slashes is shaded as code. -/
theorem shadesFrom_append (h : text.all (isOf signs) = true)
    (hsigns : ∀ c ∈ ['/', '\'', '"', '\x60'], c ∉ signs) :
    shadesFrom .code trail (text ++ rest) =
      text.map (·, .code) ++ shadesFrom .code (text.foldl Trail.push trail) rest := by
  have hcode : ∀ d ∈ ['/', '\'', '"', '\x60'], isPlainChar d = false ∧ d ∉ plainBlanks := by decide
  refine shadesFrom_signless (fun c hc => ?_) trail rest
  have hne : ∀ d ∈ ['/', '\'', '"', '\x60'], c ≠ d := by
    rintro d hd rfl
    rcases isOf_iff.mp (List.all_eq_true.mp h c hc) with hplain | hblank | hsign
    · exact absurd hplain (Bool.eq_false_iff.mp (hcode c hd).1)
    · exact absurd hblank (hcode c hd).2
    · exact hsigns c hd hsign
  exact ⟨hne _ (by simp), hne _ (by simp), hne _ (by simp), hne _ (by simp)⟩

theorem shadesFrom_quoted_append {quote : Char} (hquote : quote ≠ '\\')
    (h : ∀ c ∈ text, c ≠ '\\' ∧ c ≠ '\n' ∧ c ≠ quote) :
    shadesFrom (.quoted quote) trail (text ++ quote :: rest) =
      text.map (·, .literal) ++ (quote, .code) :: shadesFrom .code (.close quote) rest := by
  induction text with
  | nil =>
      rw [List.nil_append, shadesFrom_quoted hquote, if_pos rfl]
      rfl
  | cons c text ih =>
      obtain ⟨hslash, hbreak, hne⟩ := h c List.mem_cons_self
      rw [List.cons_append, shadesFrom_quoted hslash, if_neg hne, if_neg hbreak,
        ih fun d hd => h d (List.mem_cons_of_mem _ hd)]
      rfl

theorem shadesFrom_template_append (h : ∀ c ∈ text, c ≠ '\\' ∧ c ≠ '\x60') :
    shadesFrom .template trail (text ++ '\x60' :: rest) =
      text.map (·, .literal) ++ ('\x60', .code) :: shadesFrom .code (.close '\x60') rest := by
  induction text with
  | nil =>
      rw [List.nil_append, shadesFrom_template (by decide), if_pos rfl]
      rfl
  | cons c text ih =>
      obtain ⟨hslash, hne⟩ := h c List.mem_cons_self
      rw [List.cons_append, shadesFrom_template hslash, if_neg hne,
        ih fun d hd => h d (List.mem_cons_of_mem _ hd)]
      rfl

/-- A literal from its opening mark to its closing one. -/
theorem shadesFrom_mark (mark : Mark) (specifier : Specifier) : shadesFrom .code trail
    (mark.char :: (specifier.chars ++ mark.char :: rest)) = (mark.char, .code) ::
      (specifier.chars.map (·, .literal) ++
        (mark.char, .code) :: shadesFrom .code (.close mark.char) rest) := by
  have hplain : ∀ c ∈ specifier.chars, c ≠ '\'' ∧ c ≠ '"' ∧ c ≠ '\x60' ∧ c ≠ '\\' ∧ c ≠ '\n' := by
    intro c hc
    simpa using specifier.plain c hc
  cases mark with
  | apostrophe =>
      rw [Mark.char, shadesFrom_code (by decide), if_pos (by decide), shadesFrom_quoted_append (by decide)]
      exact fun c hc => ⟨(hplain c hc).2.2.2.1, (hplain c hc).2.2.2.2, (hplain c hc).1⟩
  | quotation =>
      rw [Mark.char, shadesFrom_code (by decide), if_pos (by decide), shadesFrom_quoted_append (by decide)]
      exact fun c hc => ⟨(hplain c hc).2.2.2.1, (hplain c hc).2.2.2.2, (hplain c hc).2.1⟩
  | backtick =>
      rw [Mark.char, shadesFrom_code (by decide), if_neg (by decide), if_pos rfl, shadesFrom_template_append]
      exact fun c hc => ⟨(hplain c hc).2.2.2.1, (hplain c hc).2.2.1⟩

namespace Statement

variable (s : Statement)

/-- The statement with its shades. -/
def shaded : List (Char × Shade) :=
  s.form.chars.map (·, .code) ++ (s.mark.char, .code) ::
    (s.specifier.chars.map (·, .literal) ++ (s.mark.char, .code) :: s.ending.map (·, .code))

/-- The specifier blanked out. -/
def blanked : List Char := s.specifier.chars.flatMap blankOut

/-- The statement in the code alone. -/
def masked : List Char :=
  s.form.chars ++ s.mark.char :: (s.blanked ++ s.mark.char :: s.ending)

theorem all_isOf_ending : s.ending.all (isOf [')', ';']) = true := by
  have hend : [')', ';', '\n'].all (isOf [')', ';']) = true := by decide
  have hend' : [';', '\n'].all (isOf [')', ';']) = true := by decide
  rw [ending]
  cases s.form.isCall
  · exact List.all_append.trans (by rw [s.beforeEnd.all_isOf]; exact hend')
  · exact List.all_append.trans (by rw [s.beforeEnd.all_isOf]; exact hend)

/-- The statement is scanned from code to code. -/
theorem exists_shadesFrom (trail : Trail) (rest : List Char) : ∃ trail',
    shadesFrom .code trail (s.chars ++ rest) = s.shaded ++ shadesFrom .code trail' rest := by
  have hchars : s.chars ++ rest = s.form.chars ++
      (s.mark.char :: (s.specifier.chars ++ s.mark.char :: (s.ending ++ rest))) := by simp [chars]
  refine ⟨s.ending.foldl Trail.push (.close s.mark.char), ?_⟩
  rw [hchars, shadesFrom_append s.form.all_isOf (by decide), shadesFrom_mark,
    shadesFrom_append s.all_isOf_ending (by decide)]
  simp [shaded]

theorem hide_comment_shaded : hide (· == .comment) s.shaded = s.chars := by
  simp [shaded, chars, hide_append, hide_map]

theorem hide_code_shaded : hide (· != .code) s.shaded = s.masked := by
  have hliteral : hide (· != .code) (s.specifier.chars.map (·, .literal)) = s.blanked :=
    List.flatMap_map _ _ _
  simp [shaded, masked, hide_append, hide_map, hliteral]

theorem byteLength_blanked : byteLength s.blanked = byteLength s.specifier.chars := by
  rw [blanked]
  generalize s.specifier.chars = text
  induction text with
  | nil => rfl
  | cons c text ih => rw [List.flatMap_cons, byteLength_append, byteLength_blankOut, ih, byteLength_cons]

theorem byteLength_masked : byteLength s.masked = byteLength s.chars := by
  simp [masked, chars, byteLength_blanked]

end Statement

variable (statements : List Statement)

theorem shadesFrom_statements (trail : Trail) :
    shadesFrom .code trail (statements.flatMap Statement.chars) = statements.flatMap Statement.shaded := by
  induction statements generalizing trail with
  | nil => rfl
  | cons s statements ih =>
      obtain ⟨trail', hshades⟩ := s.exists_shadesFrom trail (statements.flatMap Statement.chars)
      rw [List.flatMap_cons, hshades, ih, List.flatMap_cons]

/-- Statements hold no comments. -/
theorem withoutComments_statements :
    withoutComments (statements.flatMap Statement.chars) = statements.flatMap Statement.chars := by
  rw [withoutComments, shades, shadesFrom_statements, hide_flatMap]
  exact congrArg (statements.flatMap ·) (funext Statement.hide_comment_shaded)

/-- The specifiers are blanked out where the code stands alone. -/
theorem codeOnly_statements :
    codeOnly (statements.flatMap Statement.chars) = statements.flatMap Statement.masked := by
  rw [codeOnly, shades, shadesFrom_statements, hide_flatMap]
  exact congrArg (statements.flatMap ·) (funext Statement.hide_code_shaded)

end ApiImpact.ModuleReference

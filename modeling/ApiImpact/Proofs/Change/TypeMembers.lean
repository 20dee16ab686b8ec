import ApiImpact.Proofs.Change.Spacing
import ApiImpact.Proofs.Change.TypeScan
import ApiImpact.Report.Finding

/-!
# The members of a type by its grammar

A type is a name, a literal, a name with arguments, an array, a type in parentheses, an object, a function or a union.
The result of a function reaches as far as it can, so that `() => A | B` is a function and no union. The splitter takes
the members of a type for what they are just when no bar of a member is outside all brackets for it, and it finds all
brackets closed before the bars between members.
-/

namespace ApiImpact.TypeText

open Text

/-! ## The grammar -/

structure TypeName where
  chars : List Char
  ne_nil : chars ≠ []
  isPart : ∀ c ∈ chars, isIdentifierChar c = true

/-- A literal in one line, without escapes. -/
structure Literal where
  quote : Quote
  inside : List Char
  plain : ∀ c ∈ inside, c ≠ quote.char ∧ c ∉ ['\\', '\n', '\r']

mutual

/-- A type that can be a member of a union. -/
inductive Operand where
  | name (name : TypeName)
  | literal (literal : Literal)
  | applied (name : TypeName) (gap : Gap) (arguments : Arguments)
  | array (element : Operand) (before inside : Gap)
  | grouped (inner : Padded)
  | object (members : Fields)

/-- A type. -/
inductive TypeExpr where
  | operand (operand : Operand)
  | function (params : Fields) (before after : Gap) (result : TypeExpr)
  | union (first : Operand) (before after : Gap) (rest : TypeExpr)

/-- A type with the blanks around it. -/
inductive Padded where
  | mk (front : Gap) (type : TypeExpr) (back : Gap)

/-- Types between commas. -/
inductive Arguments where
  | last (type : Padded)
  | cons (type : Padded) (more : Arguments)

/-- Names with their types, members of an object or parameters. There may be a separator behind the last one. -/
inductive Fields where
  | nil (gap : Gap)
  | last (front : Gap) (name : TypeName) (before : Gap) (type : Padded)
  | cons (front : Gap) (name : TypeName) (before : Gap) (type : Padded) (more : Fields)

end

/-! ## Types as they are written -/

def Literal.chars (literal : Literal) : List Char :=
  literal.quote.char :: (literal.inside ++ [literal.quote.char])

mutual

def Operand.chars : Operand → List Char
  | .name name => name.chars
  | .literal literal => literal.chars
  | .applied name gap arguments => name.chars ++ (gap.chars ++ '<' :: (arguments.chars ++ ['>']))
  | .array element before inside => element.chars ++ (before.chars ++ '[' :: (inside.chars ++ [']']))
  | .grouped inner => '(' :: (inner.chars ++ [')'])
  | .object members => '\x7b' :: (members.chars ';' ++ ['\x7d'])

def TypeExpr.chars : TypeExpr → List Char
  | .operand operand => operand.chars
  | .function params before after result =>
    ('(' :: (params.chars ',' ++ [')'])) ++ (before.chars ++ ("=>".toList ++ (after.chars ++ result.chars)))
  | .union first before after rest => (first.chars ++ before.chars) ++ '|' :: (after.chars ++ rest.chars)

def Padded.chars : Padded → List Char
  | .mk front type back => front.chars ++ (type.chars ++ back.chars)

def Arguments.chars : Arguments → List Char
  | .last type => type.chars
  | .cons type more => type.chars ++ ',' :: more.chars

def Fields.chars (separator : Char) : Fields → List Char
  | .nil gap => gap.chars
  | .last front name before type => front.chars ++ (name.chars ++ (before.chars ++ ':' :: type.chars))
  | .cons front name before type more =>
    front.chars ++ (name.chars ++ (before.chars ++ ':' :: (type.chars ++ separator :: more.chars separator)))

end

namespace TypeExpr

def text (type : TypeExpr) : String :=
  .ofList type.chars

/-- The members of a union; a type that is none is its only member. -/
def members : TypeExpr → List TypeExpr
  | operand o => [operand o]
  | function params before after result => [function params before after result]
  | union first _ _ rest => operand first :: rest.members

/-- The type as it is compared. -/
def normal (type : TypeExpr) : List Char :=
  normalize type.chars

end TypeExpr

/-! ## Literals without brackets and bars -/

def Literal.isPlain (literal : Literal) : Bool :=
  literal.inside.all fun c => !Scan.dividers.contains c

mutual

/-- All literals in the type are without brackets and bars. -/
def Operand.isPlain : Operand → Bool
  | .name _ => true
  | .literal literal => literal.isPlain
  | .applied _ _ arguments => arguments.isPlain
  | .array element _ _ => element.isPlain
  | .grouped inner => inner.isPlain
  | .object members => members.isPlain

def TypeExpr.isPlain : TypeExpr → Bool
  | .operand operand => operand.isPlain
  | .function params _ _ result => params.isPlain && result.isPlain
  | .union first _ _ rest => first.isPlain && rest.isPlain

def Padded.isPlain : Padded → Bool
  | .mk _ type _ => type.isPlain

def Arguments.isPlain : Arguments → Bool
  | .last type => type.isPlain
  | .cons type more => type.isPlain && more.isPlain

def Fields.isPlain : Fields → Bool
  | .nil _ => true
  | .last _ _ _ type => type.isPlain
  | .cons _ _ _ type more => type.isPlain && more.isPlain

end

/-! ## Reading the parts of a type -/

section Reading

variable {aware bar arrow : Bool} {depth : Int}

open Scan

theorem notMem_signs_of_isIdentifierChar {c : Char} (h : isIdentifierChar c = true) : c ∉ signs := by
  have hsigns : ∀ d ∈ signs, isIdentifierChar d = false := by decide
  intro hm
  exact absurd h (by simp [hsigns c hm])

@[simp] theorem run_level_name (name : TypeName) : run aware (level depth bar arrow) name.chars = level depth bar arrow :=
  run_level_of_notMem fun c hc => notMem_signs_of_isIdentifierChar (name.isPart c hc)

@[simp] theorem run_level_gap (gap : Gap) : run aware (level depth bar arrow) gap.chars = level depth bar arrow :=
  run_level_of_notMem fun c hc => notMem_signs_of_isBlank (gap.isBlank c hc)

theorem Literal.run_chars (literal : Literal) (h : aware = true ∨ literal.isPlain = true) :
    run aware (level depth bar arrow) literal.chars = level depth bar arrow := by
  cases aware with
  | true => exact run_level_literal fun c hc => (literal.plain c hc).1
  | false =>
      have hplain : literal.isPlain = true := h.resolve_left Bool.false_ne_true
      have hinside : ∀ c ∈ literal.inside, c ∉ dividers := by simpa [Literal.isPlain] using hplain
      exact run_level_literal_of_notMem hinside

theorem step_level_separator {separator : Char} (h : separator ∉ signs) :
    (level depth bar arrow).step aware separator = level depth bar arrow :=
  step_of_notMem h

theorem aware_or_and {a b : Bool} (h : aware = true ∨ (a && b) = true) :
    (aware = true ∨ a = true) ∧ (aware = true ∨ b = true) := by
  rwa [Bool.and_eq_true, or_and_left] at h

mutual

/-- Reading an operand leads back to where it began. -/
theorem Operand.run_chars {depth : Int} (o : Operand) (h : aware = true ∨ o.isPlain = true) (hdepth : 0 ≤ depth) :
    run aware (level depth bar arrow) o.chars = level depth bar arrow := by
  have hinner : 0 < depth + 1 := by omega
  match o, h with
  | .name name, _ => exact run_level_name name
  | .literal literal, h => exact literal.run_chars h
  | .applied name gap arguments, h =>
      rw [Operand.chars, run_append, run_level_name, run_append, run_level_gap]
      exact run_level_brackets (by decide) (by decide) (Arguments.run_chars arguments h hinner)
  | .array element before inside, h =>
      rw [Operand.chars, run_append, Operand.run_chars element h hdepth, run_append, run_level_gap]
      exact run_level_brackets (by decide) (by decide) (run_level_gap inside)
  | .grouped inner, h => exact run_level_brackets (by decide) (by decide) (Padded.run_chars inner h hinner)
  | .object members, h =>
      exact run_level_brackets (by decide) (by decide) (Fields.run_chars (by decide) members h hinner)

/-- Reading a type inside brackets does, too. -/
theorem TypeExpr.run_chars {depth : Int} (t : TypeExpr) (h : aware = true ∨ t.isPlain = true) (hdepth : 0 < depth) :
    run aware (level depth bar arrow) t.chars = level depth bar arrow := by
  have hinner : 0 < depth + 1 := by omega
  have hinside : (depth == 0) = false := by simp; omega
  match t, h with
  | .operand operand, h => exact Operand.run_chars operand h (Int.le_of_lt hdepth)
  | .function params before after result, h =>
      obtain ⟨hparams, hresult⟩ := aware_or_and h
      have hlist : run aware (level depth bar arrow) ('(' :: (params.chars ',' ++ [')'])) = level depth bar arrow :=
        run_level_brackets (by decide) (by decide) (Fields.run_chars (by decide) params hparams hinner)
      rw [TypeExpr.chars, run_append, hlist, run_append, run_level_gap, run_append, run_level_arrow, hinside,
        Bool.false_and, Bool.or_false, run_append, run_level_gap, TypeExpr.run_chars result hresult hdepth]
  | .union first before after rest, h =>
      obtain ⟨hfirst, hrest⟩ := aware_or_and h
      rw [TypeExpr.chars, run_append, run_append, Operand.run_chars first hfirst (Int.le_of_lt hdepth), run_level_gap,
        run_cons, step_level_bar, hinside, Bool.or_false, run_append, run_level_gap, TypeExpr.run_chars rest hrest hdepth]

theorem Padded.run_chars {depth : Int} (type : Padded) (h : aware = true ∨ type.isPlain = true) (hdepth : 0 < depth) :
    run aware (level depth bar arrow) type.chars = level depth bar arrow := by
  match type, h with
  | .mk front type back, h =>
      rw [Padded.chars, run_append, run_level_gap, run_append, TypeExpr.run_chars type h hdepth, run_level_gap]

theorem Arguments.run_chars {depth : Int} (arguments : Arguments) (h : aware = true ∨ arguments.isPlain = true)
    (hdepth : 0 < depth) : run aware (level depth bar arrow) arguments.chars = level depth bar arrow := by
  match arguments, h with
  | .last type, h => exact Padded.run_chars type h hdepth
  | .cons type more, h =>
      obtain ⟨htype, hmore⟩ := aware_or_and h
      rw [Arguments.chars, run_append, Padded.run_chars type htype hdepth, run_cons, step_level_separator (by decide),
        Arguments.run_chars more hmore hdepth]

theorem Fields.run_chars {depth : Int} {separator : Char} (hseparator : separator ∉ signs) (fields : Fields)
    (h : aware = true ∨ fields.isPlain = true) (hdepth : 0 < depth) :
    run aware (level depth bar arrow) (fields.chars separator) = level depth bar arrow := by
  match fields, h with
  | .nil gap, _ => exact run_level_gap gap
  | .last front name before type, h =>
      rw [Fields.chars, run_append, run_level_gap, run_append, run_level_name, run_append, run_level_gap, run_cons,
        step_level_separator (by decide), Padded.run_chars type h hdepth]
  | .cons front name before type more, h =>
      obtain ⟨htype, hmore⟩ := aware_or_and h
      rw [Fields.chars, run_append, run_level_gap, run_append, run_level_name, run_append, run_level_gap, run_cons,
        step_level_separator (by decide), run_append, Padded.run_chars type htype hdepth, run_cons,
        step_level_separator hseparator, Fields.run_chars hseparator more hmore hdepth]

end

/-- A type begins with a letter or a sign, and not with a semicolon. -/
theorem Operand.exists_cons (o : Operand) : ∃ c rest, o.chars = c :: rest ∧ isBlank c = false ∧ (c == ';') = false := by
  have hname (name : TypeName) : ∃ c rest, name.chars = c :: rest ∧ isBlank c = false ∧ (c == ';') = false := by
    obtain ⟨c, rest, hchars⟩ := List.exists_cons_of_ne_nil name.ne_nil
    have hc : isIdentifierChar c = true := name.isPart c (by simp [hchars])
    refine ⟨c, rest, hchars, Bool.eq_false_iff.mpr fun hblank => ?_, beq_eq_false_iff_ne.mpr ?_⟩
    · exact absurd hc (by simp [isIdentifierChar_of_isBlank hblank])
    · rintro rfl
      exact absurd hc (by decide)
  match o with
  | .name word => exact hname word
  | .literal text =>
      refine ⟨text.quote.char, _, rfl, ?_⟩
      cases text.quote <;> decide
  | .applied word gap arguments =>
      obtain ⟨c, rest, hchars, hc⟩ := hname word
      exact ⟨c, _, by rw [Operand.chars, hchars]; rfl, hc⟩
  | .array element before inside =>
      obtain ⟨c, rest, hchars, hc⟩ := Operand.exists_cons element
      exact ⟨c, _, by rw [Operand.chars, hchars]; rfl, hc⟩
  | .grouped inner => exact ⟨'(', _, rfl, by decide⟩
  | .object members => exact ⟨'\x7b', _, rfl, by decide⟩

theorem TypeExpr.exists_cons (t : TypeExpr) : ∃ c rest, t.chars = c :: rest ∧ isBlank c = false ∧ (c == ';') = false := by
  cases t with
  | operand operand => exact operand.exists_cons
  | function params before after result => exact ⟨'(', _, rfl, by decide⟩
  | union first before after rest =>
      obtain ⟨c, _, hchars, hc⟩ := first.exists_cons
      exact ⟨c, _, by rw [TypeExpr.chars, hchars]; rfl, hc⟩

theorem TypeExpr.normal_ne_nil (t : TypeExpr) : t.normal ≠ [] := by
  obtain ⟨c, rest, hchars, hc, hsemicolon⟩ := t.exists_cons
  rw [TypeExpr.normal, normalize, hchars, collapse_cons hc, @dropEndWhile_cons_of_neg (· == ';') _ c hsemicolon]
  exact List.cons_ne_nil _ _

theorem Operand.run_start (o : Operand) (h : aware = true ∨ o.isPlain = true) : run aware {} o.chars = {} :=
  o.run_chars h (Int.le_refl 0)

/-- The result of a function is read behind an arrow outside all brackets. -/
theorem TypeExpr.run_function {params : Fields} (h : aware = true ∨ params.isPlain = true) (before after : Gap)
    (result : TypeExpr) :
    run aware (level 0 false arrow) (function params before after result).chars =
      run aware (level 0 false true) result.chars := by
  have hlist : run aware (level 0 false arrow) ('(' :: (params.chars ',' ++ [')'])) = level 0 false arrow :=
    run_level_brackets (by decide) (by decide) (Fields.run_chars (by decide) params h (by decide))
  rw [TypeExpr.chars, run_append, hlist, run_append, run_level_gap, run_append, run_level_arrow, run_append]
  simp

/-- With regard to its literals a member is read without a bar outside brackets, or with an arrow before it. -/
theorem TypeExpr.bar_or_arrow_of_mem {m : TypeExpr} (t : TypeExpr) (h : m ∈ t.members) :
    (run true {} m.chars).bar = false ∨ (run true {} m.chars).arrow = true := by
  match t, h with
  | .operand o, h =>
      obtain rfl := List.mem_singleton.mp h
      exact .inl (congrArg Scan.bar (o.run_start (.inl rfl)))
  | .function params before after result, h =>
      obtain rfl := List.mem_singleton.mp h
      have hrun : run true (level 0 false false) (function params before after result).chars =
          run true (level 0 false true) result.chars := TypeExpr.run_function (.inl rfl) before after result
      exact .inr ((congrArg Scan.arrow hrun).trans (arrow_run_of_arrow rfl))
  | .union first before after rest, h =>
      rcases List.mem_cons.mp h with rfl | h
      · exact .inl (congrArg Scan.bar (first.run_start (.inl rfl)))
      · exact TypeExpr.bar_or_arrow_of_mem rest h

end Reading

/-! ## What the splitter takes for members -/

namespace TypeExpr

open Scan

/-- The splitter takes the members of the type for its members. -/
def IsSplit (t : TypeExpr) : Prop :=
  ∀ text, text ∈ TypeText.members t.text ↔ ∃ m ∈ t.members, m.normal = text

/-- Read by brackets alone, no member has a bar outside all brackets, and those in front of a bar close their
brackets. -/
structure Fits (t : TypeExpr) : Prop where
  bar : ∀ m ∈ t.members, (run false {} m.chars).bar = false
  depth : ∀ m ∈ t.members.dropLast, (run false {} m.chars).depth = 0

variable {t u : TypeExpr} {first : Operand} {before after : Gap} {rest : TypeExpr}

theorem members_ne_nil (t : TypeExpr) : t.members ≠ [] := by
  cases t <;> exact List.cons_ne_nil _ _

theorem fits_iff_of_members (hm : t.members = [t]) : t.Fits ↔ (run false {} t.chars).bar = false := by
  constructor
  · intro h
    exact h.bar t (by simp [hm])
  · intro hbar
    exact ⟨by simpa [hm] using hbar, by simp [hm]⟩

theorem fits_union_iff : (union first before after rest).Fits ↔
    (run false {} first.chars).bar = false ∧ (run false {} first.chars).depth = 0 ∧ rest.Fits := by
  have hdrop : (union first before after rest).members.dropLast = operand first :: rest.members.dropLast :=
    List.dropLast_cons_of_ne_nil rest.members_ne_nil
  constructor
  · intro h
    have hbar := List.forall_mem_cons.mp h.bar
    have hdepth := List.forall_mem_cons.mp (hdrop ▸ h.depth)
    exact ⟨hbar.1, hdepth.1, hbar.2, hdepth.2⟩
  · rintro ⟨hbar, hdepth, hrest⟩
    refine ⟨List.forall_mem_cons.mpr ⟨hbar, hrest.bar⟩, ?_⟩
    rw [hdrop]
    exact List.forall_mem_cons.mpr ⟨hdepth, hrest.depth⟩

theorem calm_run_append_gap (text : List Char) (gap : Gap) :
    (run false {} (text ++ gap.chars)).calm = (run false {} text).calm := by
  rw [run_append, calm_run_of_notMem fun c hc => notMem_signs_of_isBlank (gap.isBlank c hc)]

/-- Between members that fit the splitter cuts. -/
theorem map_normalize_pieces_union (hbar : (run false {} first.chars).bar = false)
    (hdepth : (run false {} first.chars).depth = 0) :
    (pieces {} (union first before after rest).chars).map normalize =
      (operand first).normal :: (pieces {} rest.chars).map normalize := by
  have hgap := calm_run_append_gap first.chars before
  have hbar' := (congrArg Scan.bar hgap).trans hbar
  have hdepth' := (congrArg Scan.depth hgap).trans hdepth
  rw [TypeExpr.chars, pieces_cut hbar' hdepth', List.map_cons, normalize_append_blanks before.isBlank,
    map_normalize_pieces_blanks after.isBlank]
  rfl

theorem Fits.map_normalize_pieces (t : TypeExpr) (h : t.Fits) :
    (pieces {} t.chars).map normalize = t.members.map normal := by
  match t, h with
  | .operand o, h => rw [pieces_of_bar ((fits_iff_of_members rfl).mp h)]; rfl
  | .function params before after result, h => rw [pieces_of_bar ((fits_iff_of_members rfl).mp h)]; rfl
  | .union first before after rest, h =>
      obtain ⟨hbar, hdepth, hrest⟩ := fits_union_iff.mp h
      rw [map_normalize_pieces_union hbar hdepth, Fits.map_normalize_pieces rest hrest]
      rfl

/-- Behind a member with an open bracket the splitter goes on. What it takes for a member shows the bar to a reading
that is aware of literals. -/
theorem exists_piece_of_open (hbar : (run false {} first.chars).bar = false)
    (hdepth : (run false {} first.chars).depth ≠ 0) :
    ∃ text ∈ (pieces {} (union first before after rest).chars).map normalize,
      (run true {} text).bar = true ∧ (run true {} text).arrow = false := by
  have hgap := calm_run_append_gap first.chars before
  have hbar' := (congrArg Scan.bar hgap).trans hbar
  have hdepth' : (run false {} (first.chars ++ before.chars)).depth ≠ 0 := fun hzero =>
    hdepth ((congrArg Scan.depth hgap).symm.trans hzero)
  obtain ⟨tail, more, hpieces⟩ := @exists_pieces_of_open _ (after.chars ++ rest.chars) hbar' hdepth'
  have hrun : run true {} (first.chars ++ before.chars ++ '|' :: tail) = run true (level 0 true false) tail := by
    have hbefore : run true {} before.chars = {} := run_level_gap before
    rw [run_append, run_append, first.run_start (.inl rfl), hbefore, run_cons]
    rfl
  have hcalm := @calm_run_normalize true (first.chars ++ before.chars ++ '|' :: tail)
  rw [hrun] at hcalm
  refine ⟨normalize (first.chars ++ before.chars ++ '|' :: tail), ?_, ?_, ?_⟩
  · rw [TypeExpr.chars, hpieces]
    exact List.mem_cons_self
  · exact (congrArg Scan.bar hcalm).trans (bar_run_of_bar rfl)
  · exact (congrArg Scan.arrow hcalm).trans (arrow_run_of_bar rfl rfl)

/-- Where a type does not fit, the splitter cuts a member or takes one together with the bar behind it. -/
theorem exists_of_not_fits (t : TypeExpr) (h : ¬ t.Fits) :
    (∃ m ∈ t.members, (run false {} m.chars).bar = true) ∨
      ∃ text ∈ (pieces {} t.chars).map normalize, (run true {} text).bar = true ∧ (run true {} text).arrow = false := by
  have halone {m : TypeExpr} (hm : m.members = [m]) (h : ¬ m.Fits) : ∃ m' ∈ m.members, (run false {} m'.chars).bar = true :=
    ⟨m, by simp [hm], by simpa [fits_iff_of_members hm] using h⟩
  match t, h with
  | .operand o, h => exact .inl (halone rfl h)
  | .function params before after result, h => exact .inl (halone rfl h)
  | .union first before after rest, h =>
      rw [fits_union_iff] at h
      cases hbar : (run false {} first.chars).bar with
      | true => exact .inl ⟨operand first, List.mem_cons_self, hbar⟩
      | false =>
          by_cases hdepth : (run false {} first.chars).depth = 0
          · rcases exists_of_not_fits rest fun hrest => h ⟨hbar, hdepth, hrest⟩ with ⟨m, hm, hcut⟩ | ⟨text, htext, hread⟩
            · exact .inl ⟨m, List.mem_cons_of_mem _ hm, hcut⟩
            · refine .inr ⟨text, ?_, hread⟩
              rw [map_normalize_pieces_union hbar hdepth]
              exact List.mem_cons_of_mem _ htext
          · exact .inr (exists_piece_of_open hbar hdepth)

theorem isSplit_iff_fits (t : TypeExpr) : t.IsSplit ↔ t.Fits := by
  constructor
  · intro h
    by_contra hfits
    rcases exists_of_not_fits t hfits with ⟨m, hm, hbar⟩ | ⟨text, htext, hbar, harrow⟩
    · have hwhole := bar_of_mem_members ((h m.normal).mpr ⟨m, hm, rfl⟩)
      have hcalm := congrArg Scan.bar (@calm_run_normalize false m.chars)
      exact absurd (hcalm.symm.trans hwhole) (by simp [calm, hbar])
    · have hne : text ≠ [] := by
        rintro rfl
        cases hbar
      obtain ⟨m, hm, rfl⟩ := (h text).mp (mem_members_iff.mpr ⟨hne, htext⟩)
      have hcalm := @calm_run_normalize true m.chars
      rcases bar_or_arrow_of_mem t hm with hmember | hmember
      · exact absurd (hbar.symm.trans ((congrArg Scan.bar hcalm).trans hmember)) (by decide)
      · exact absurd (harrow.symm.trans ((congrArg Scan.arrow hcalm).trans hmember)) (by decide)
  · intro h text
    rw [TypeExpr.text, mem_members_iff, h.map_normalize_pieces, List.mem_map]
    constructor
    · rintro ⟨-, m, hm, rfl⟩
      exact ⟨m, hm, rfl⟩
    · rintro ⟨m, hm, rfl⟩
      exact ⟨m.normal_ne_nil, m, hm, rfl⟩

/-! ## Types with plain literals -/

/-- A bar of the type stands outside all brackets. -/
def showsBar : TypeExpr → Bool
  | operand _ => false
  | function _ _ _ result => result.showsBar
  | union _ _ _ _ => true

/-- A member of the type is a function with a union for its result. -/
def hasUnionResult : TypeExpr → Bool
  | operand _ => false
  | function _ _ _ result => result.showsBar
  | union _ _ _ rest => rest.hasUnionResult

theorem bar_run_of_isPlain {arrow : Bool} (t : TypeExpr) (h : t.isPlain = true) :
    (run false (level 0 false arrow) t.chars).bar = t.showsBar := by
  match t, h with
  | .operand o, h => exact congrArg Scan.bar (o.run_chars (.inr h) (Int.le_refl 0))
  | .function params before after result, h =>
      obtain ⟨hparams, hresult⟩ := Bool.and_eq_true_iff.mp h
      rw [run_function (.inr hparams)]
      exact bar_run_of_isPlain result hresult
  | .union first before after rest, h =>
      rw [TypeExpr.chars, run_append, run_append, first.run_chars (.inr (Bool.and_eq_true_iff.mp h).1) (Int.le_refl 0),
        run_level_gap, run_cons, step_level_bar]
      exact bar_run_of_bar rfl

/-- With plain literals a type fits unless the result of a function is a union. -/
theorem fits_iff_of_isPlain (t : TypeExpr) (h : t.isPlain = true) : t.Fits ↔ t.hasUnionResult = false := by
  match t, h with
  | .operand o, h =>
      rw [fits_iff_of_members rfl]
      exact iff_of_true (congrArg Scan.bar (o.run_start (.inr h))) rfl
  | .function params before after result, h =>
      have hbar := @bar_run_of_isPlain false (function params before after result) h
      rw [fits_iff_of_members rfl]
      exact iff_of_eq (congrArg (· = false) hbar)
  | .union first before after rest, h =>
      obtain ⟨hfirst, hrest⟩ := Bool.and_eq_true_iff.mp h
      have hstart : run false {} first.chars = {} := first.run_start (.inr hfirst)
      rw [fits_union_iff, hstart, fits_iff_of_isPlain rest hrest]
      simp [hasUnionResult]

/-! ## How a change of a type is rated -/

/-- Each member of the type is one of `other`, or `other` takes every value. -/
def IsIncludedIn (t other : TypeExpr) : Prop :=
  (∃ m ∈ other.members, m.normal = "any".toList ∨ m.normal = "unknown".toList) ∨
    ∀ m ∈ t.members, ∃ m' ∈ other.members, m'.normal = m.normal

theorem isIncluded_iff (ht : t.IsSplit) (hu : u.IsSplit) : isIncluded t.text u.text = true ↔ t.IsIncludedIn u := by
  have hany : isAny u.text = true ↔ ∃ m ∈ u.members, m.normal = "any".toList ∨ m.normal = "unknown".toList := by
    rw [isAny, Bool.or_eq_true, List.contains_iff_mem, List.contains_iff_mem, hu, hu, ← exists_or]
    simp only [and_or_left]
  have hall : (TypeText.members t.text).all (TypeText.members u.text).contains = true ↔
      ∀ m ∈ t.members, ∃ m' ∈ u.members, m'.normal = m.normal := by
    rw [List.all_eq_true]
    constructor
    · intro h m hm
      exact (hu _).mp (List.contains_iff_mem.mp (h m.normal ((ht _).mpr ⟨m, hm, rfl⟩)))
    · rintro h text htext
      obtain ⟨m, hm, rfl⟩ := (ht text).mp htext
      exact List.contains_iff_mem.mpr ((hu _).mpr (h m hm))
  rw [isIncluded, Bool.or_eq_true, hany, hall, IsIncludedIn]

/-- The splitter takes the members of a type for what they are just when the type fits, and if literals are without
brackets and bars that is when no function among the members has a union for its result. Where two types fit, a change
from one to the other is rated as harmless just when the members of the one are among those of the other. -/
theorem members_split_iff (t : TypeExpr) :
    (t.IsSplit ↔ t.Fits) ∧ (t.isPlain = true → (t.Fits ↔ t.hasUnionResult = false)) ∧
      ∀ u : TypeExpr, t.Fits → u.Fits →
        (∀ name callable owner, ∀ change ∈ ParameterChange.ofTypes name (some t.text) (some u.text),
          (Finding.judgeParameters true callable owner change).severity = .info ↔ t.IsIncludedIn u) ∧
        ∀ owner, ∀ change ∈ DeclarationChange.ofReturnTypes (some t.text) (some u.text),
          (Finding.judge true owner change).severity = .info ↔ u.IsIncludedIn t := by
  refine ⟨isSplit_iff_fits t, fits_iff_of_isPlain t, fun u ht hu => ⟨?_, ?_⟩⟩
  · intro name callable owner change hm
    rw [ParameterChange.ofTypes] at hm
    split_ifs at hm
    · obtain rfl := List.mem_singleton.mp hm
      rw [← isIncluded_iff ((isSplit_iff_fits t).mpr ht) ((isSplit_iff_fits u).mpr hu)]
      simp [Finding.judgeParameters]
    · cases hm
  · intro owner change hm
    rw [DeclarationChange.ofReturnTypes] at hm
    split_ifs at hm
    · obtain rfl := List.mem_singleton.mp hm
      rw [← isIncluded_iff ((isSplit_iff_fits u).mpr hu) ((isSplit_iff_fits t).mpr ht)]
      simp [Finding.judge]
    · cases hm

/-- The result of a function becomes a union, and a name becomes a literal with bars in it. -/
theorem members_not_split :
    let nothing : Gap := ⟨[], by simp⟩
    let space : Gap := ⟨[' '], by decide⟩
    let a : Operand := .name ⟨"A".toList, by decide, by decide⟩
    let b : Operand := .name ⟨"B".toList, by decide, by decide⟩
    let t : TypeExpr := .function (.nil nothing) space space (.operand a)
    let u : TypeExpr := .function (.nil nothing) space space (.union a space space (.operand b))
    let v : TypeExpr := .operand (.literal ⟨.double, "A|B".toList, by decide⟩)
    (t.text = "() => A" ∧ t.IsSplit) ∧ (u.text = "() => A | B" ∧ ¬ u.IsSplit) ∧ (v.text = "\"A|B\"" ∧ ¬ v.IsSplit) ∧
      isIncluded t.text u.text = true ∧ ¬ t.IsIncludedIn u := by
  intro nothing space a b t u v
  have ht : t.IsSplit := (members_split_iff t).1.mpr (((members_split_iff t).2.1 rfl).mpr rfl)
  have hu : ¬ u.IsSplit := fun h =>
    absurd (((members_split_iff u).2.1 rfl).mp ((members_split_iff u).1.mp h)) (by decide)
  have hv : ¬ v.IsSplit := fun h => absurd (((members_split_iff v).1.mp h).bar v List.mem_cons_self) (by decide)
  refine ⟨⟨by decide, ht⟩, ⟨by decide, hu⟩, ⟨by decide, hv⟩, by decide, ?_⟩
  rintro (⟨m, hm, hall⟩ | h)
  · obtain rfl : m = u := List.mem_singleton.mp hm
    exact absurd hall (by decide)
  · obtain ⟨m, hm, hnormal⟩ := h t List.mem_cons_self
    obtain rfl : m = u := List.mem_singleton.mp hm
    exact absurd hnormal (by decide)

end TypeExpr

end ApiImpact.TypeText

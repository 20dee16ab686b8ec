import ApiImpact.Proofs.Functions.Declared
import ApiImpact.Proofs.Text.Pieces

/-!
# Lists of parameters without types

A parameter is a name or a pattern, perhaps with a value by default, and any expression may be the value. The list is told apart
by counting brackets, and the sign of a comparison or a shift counts as one. So a list is read as it is written when each parameter
closes as many angle brackets as it opens, and no sign brings a comma of a pattern or a value outside all brackets.
-/

namespace ApiImpact.Parameters

open Text Script

/-! ## Lists as they are written -/

/-- The signs by which a list is read. -/
def listSigns : List Char := "()\x7b\x7d[]<>=,.".toList

/-- A word without any of the signs. -/
structure Name where
  chars : List Char
  ne_nil : chars ≠ []
  plain : ∀ c ∈ chars, isBlank c = false ∧ c ∉ listSigns

/-- What an argument is bound to. -/
inductive Target where
  | name (name : Name)
  | object (inside : List Char) (balanced : IsBalanced inside)
  | array (inside : List Char) (balanced : IsBalanced inside)

/-- An expression that closes its round, curly and square brackets. -/
structure Value where
  chars : List Char
  ne_nil : chars ≠ []
  trimmed : Trimmed chars
  balanced : IsBalanced chars

/-- A parameter, with the value that it has by default. -/
structure Param where
  target : Target
  value : Option Value

/-- Parameters, and perhaps a last one for the rest of the arguments. -/
structure ParameterList where
  params : List Param
  rest : Option Target

namespace Target

def chars : Target → List Char
  | name word => word.chars
  | object inside _ => '\x7b' :: (inside ++ ['\x7d'])
  | array inside _ => '[' :: (inside ++ [']'])

/-- The name, or the text of the pattern in one line. -/
def label : Target → String
  | name word => .ofList word.chars
  | target => .ofList (collapse target.chars)

/-- What stands for the rest of the arguments. -/
def restChars (target : Target) : List Char := "...".toList ++ target.chars

end Target

def Param.chars (param : Param) : List Char :=
  param.target.chars ++ param.value.elim [] fun value => " = ".toList ++ value.chars

/-- What the parameter tells. -/
def Param.told (param : Param) : Parameter :=
  { name := param.target.label, hasDefault := param.value.isSome }

namespace ParameterList

variable (list : ParameterList)

/-- The parameters as they are written. -/
def entries : List (List Char) := list.params.map Param.chars ++ list.rest.toList.map Target.restChars

def chars : List Char := ", ".toList.intercalate list.entries

/-- What the parameters tell. -/
def told : List Parameter :=
  list.params.map Param.told ++ list.rest.toList.map fun target => { name := target.label, rest := true }

/-- No comma inside a parameter stands outside all brackets, and each parameter in front of another one closes the angle brackets
that it opens. -/
structure IsClear : Prop where
  uncut : ∀ entry ∈ list.entries, IsUncut ',' 0 ' ' entry
  closed : ∀ entry ∈ list.entries.dropLast, angleDepth ' ' entry = 0

end ParameterList

/-! ## What brackets there are -/

variable {c : Char} {front rest text : List Char} {depth : Int}

theorem bracketDepth_cons : bracketDepth (c :: text) = bracketStep c + bracketDepth text := by
  have hstep : bracketStep c = bracketDepth [c] := by
    by_cases hbracket : c ∈ ['(', ')', '\x7b', '\x7d', '[', ']']
    · simp only [List.mem_cons, List.not_mem_nil, or_false] at hbracket
      rcases hbracket with rfl | rfl | rfl | rfl | rfl | rfl <;> rfl
    · simp only [List.mem_cons, List.not_mem_nil, or_false, not_or] at hbracket
      simp [bracketStep, bracketDepth, excess, hbracket]
  rw [hstep]
  exact @bracketDepth_append [c] text

/-- Where no `=` stands outside brackets, none is taken for an assignment. -/
theorem beforeAssignment?_nested (h : ∀ before after, front = before ++ '=' :: after → depth + bracketDepth before ≠ 0)
    (previous : Option Char) (rest : List Char) : beforeAssignment? depth previous (front ++ rest) =
      (beforeAssignment? (depth + bracketDepth front) (front.getLast?.or previous) rest).map (front ++ ·) := by
  induction front generalizing depth previous with
  | nil => simp
  | cons c front ih =>
      have hc : ¬ (c = '=' ∧ depth = 0 ∧ isAssignment previous (front ++ rest)) := fun hsign =>
        h [] front (by rw [hsign.1]; rfl) (by rw [hsign.2.1]; rfl)
      have hfront : ∀ before after, front = before ++ '=' :: after → depth + bracketStep c + bracketDepth before ≠ 0 := by
        intro before after hsplit
        rw [Int.add_assoc, ← bracketDepth_cons]
        exact h (c :: before) after (by rw [hsplit]; rfl)
      have hlast : front.getLast?.or (some c) = (c :: front).getLast?.or previous := by
        rw [List.getLast?_cons]
        cases front.getLast? <;> rfl
      rw [List.cons_append, beforeAssignment?, if_neg hc, ih hfront, bracketDepth_cons, Int.add_assoc, hlast, Option.map_map]
      rfl

/-! ## Names and patterns -/

theorem Name.ne_of_mem {sign : Char} (word : Name) (hsign : sign ∈ listSigns) (h : c ∈ word.chars) : c ≠ sign := by
  rintro rfl
  exact (word.plain c h).2 hsign

theorem Name.bracketDepth_eq (word : Name) : bracketDepth word.chars = 0 := by
  have hsigns : brackets ⊆ listSigns := by decide
  exact bracketDepth_eq_zero fun c hc hmem => (word.plain c hc).2 (hsigns hmem)

namespace Target

variable (target : Target)

theorem exists_cons : ∃ c rest, target.chars = c :: rest ∧ isBlank c = false ∧ c ∉ [',', '.'] := by
  cases target with
  | name word =>
      obtain ⟨c, rest, hcons⟩ := List.exists_cons_of_ne_nil word.ne_nil
      have hc : c ∈ word.chars := hcons ▸ List.mem_cons_self
      have hsigns : [',', '.'] ⊆ listSigns := by decide
      exact ⟨c, rest, hcons, (word.plain c hc).1, fun hmem => (word.plain c hc).2 (hsigns hmem)⟩
  | object inside => exact ⟨_, _, rfl, by decide, by decide⟩
  | array inside => exact ⟨_, _, rfl, by decide, by decide⟩

theorem ne_nil : target.chars ≠ [] := by
  obtain ⟨c, rest, hcons, -⟩ := target.exists_cons
  simp [hcons]

theorem trimmed : Trimmed target.chars := by
  have hsigns : ∀ sign ∈ ['{', '}', '[', ']'], Trimmed [sign] := by
    simp only [List.forall_mem_cons]
    exact ⟨⟨by decide, by decide⟩, ⟨by decide, by decide⟩, ⟨by decide, by decide⟩, ⟨by decide, by decide⟩, by simp⟩
  cases target with
  | name word => exact trimmed_of_forall fun c hc => (word.plain c hc).1
  | object inside => exact (hsigns '{' (by decide)).append (hsigns '}' (by decide)) (by simp) (by simp)
  | array inside => exact (hsigns '[' (by decide)).append (hsigns ']' (by decide)) (by simp) (by simp)

theorem bracketDepth_chars : bracketDepth target.chars = 0 := by
  cases target with
  | name word => exact word.bracketDepth_eq
  | object inside balanced => exact (balanced.nested rfl).bracketDepth_eq
  | array inside balanced => exact (balanced.nested rfl).bracketDepth_eq

/-- What a pattern sets as values by default, it sets inside its brackets. -/
theorem bracketDepth_ne {before after : List Char} (h : target.chars = before ++ '=' :: after) : 0 + bracketDepth before ≠ 0 := by
  rw [Int.zero_add]
  cases target with
  | name word => exact absurd rfl (word.ne_of_mem (by decide) (h ▸ List.mem_append_right before List.mem_cons_self))
  | object inside balanced => exact balanced.bracketDepth_ne rfl (by decide) h
  | array inside balanced => exact balanced.bracketDepth_ne rfl (by decide) h

theorem beforeAssignment?_chars (rest : List Char) : beforeAssignment? 0 none (target.chars ++ rest) =
    (beforeAssignment? 0 target.chars.getLast? rest).map (target.chars ++ ·) := by
  rw [beforeAssignment?_nested (fun before after h => target.bracketDepth_ne h), target.bracketDepth_chars, Option.or_none]
  rfl

theorem collapse_chars : String.ofList (collapse target.chars) = target.label := by
  cases target with
  | name word =>
      have hword : collapse word.chars = word.chars := by
        rw [collapse, words_of_forall word.ne_nil fun c hc => (word.plain c hc).1, List.intercalate_singleton]
      exact congrArg String.ofList hword
  | object inside => rfl
  | array inside => rfl

/-- No dots stand before a name or a pattern. -/
theorem not_dots (rest : List Char) : "...".toList.isPrefixOf (target.chars ++ rest) = false := by
  obtain ⟨c, more, hcons, -, hdot⟩ := target.exists_cons
  refine Bool.eq_false_iff.mpr fun h => hdot ?_
  rw [hcons, List.cons_append] at h
  have hc : c = '.' := (List.cons_prefix_cons.mp (List.isPrefixOf_iff_prefix.mp h)).1.symm
  rw [hc]
  decide

end Target

/-! ## Parameters -/

theorem Target.isEntry_restChars (target : Target) : IsEntry target.restChars where
  ne_nil := List.append_ne_nil_of_right_ne_nil _ target.ne_nil
  trimmed := by
    have hdots : Trimmed "...".toList := trimmed_of_forall (by decide)
    exact @Trimmed.append _ _ [] hdots target.trimmed (by decide) target.ne_nil
  not_comma := by
    rw [restChars, List.head?_append_of_ne_nil _ (by decide)]
    decide

theorem Target.bracketDepth_restChars (target : Target) : bracketDepth target.restChars = 0 := by
  rw [restChars, bracketDepth_append, target.bracketDepth_chars]
  rfl

/-- The last parameter is read as what it tells. -/
theorem Target.parameterOf_restChars (target : Target) : parameterOf target.restChars = { name := target.label, rest := true } := by
  have hdots := target.not_dots []
  rw [List.append_nil] at hdots
  have hrest : "...".toList.isPrefixOf target.restChars = true := List.isPrefixOf_iff_prefix.mpr (List.prefix_append _ _)
  have hnone : beforeAssignment? 0 none target.chars = none := by
    have happend := target.beforeAssignment?_chars []
    rwa [List.append_nil] at happend
  have hdrop : dropLeadingCopies "...".toList target.restChars = target.chars :=
    dropLeadingCopies_append (by decide) hdots
  rw [parameterOf, target.isEntry_restChars.trimmed.trim_eq]
  simp only [hrest, hdrop, hnone, Option.getD_none, Option.isSome_none, target.trimmed.trim_eq, target.collapse_chars]

namespace Param

variable (param : Param)

theorem trimmed : Trimmed param.chars := by
  obtain ⟨target, _ | value⟩ := param
  · simpa [chars] using target.trimmed
  · exact target.trimmed.append value.trimmed target.ne_nil value.ne_nil

theorem isEntry : IsEntry param.chars where
  ne_nil := List.append_ne_nil_of_left_ne_nil param.target.ne_nil _
  trimmed := param.trimmed
  not_comma := by
    obtain ⟨c, rest, hcons, -, hcomma⟩ := param.target.exists_cons
    rw [chars, hcons, List.cons_append, List.head?_cons]
    simpa using fun hc => hcomma (by simp [hc])

theorem bracketDepth_chars : bracketDepth param.chars = 0 := by
  obtain ⟨target, _ | value⟩ := param
  · simpa [chars] using target.bracketDepth_chars
  · have hsign : bracketDepth " = ".toList = 0 := by decide
    rw [chars, Option.elim_some, bracketDepth_append, bracketDepth_append, target.bracketDepth_chars, value.balanced.bracketDepth_eq, hsign]
    rfl

/-- A parameter is read as what it tells. -/
theorem parameterOf_chars : parameterOf param.chars = param.told := by
  have hdots := param.target.not_dots (param.value.elim [] fun value => " = ".toList ++ value.chars)
  rw [parameterOf, param.trimmed.trim_eq]
  obtain ⟨target, _ | value⟩ := param
  · have hnone : beforeAssignment? 0 none (target.chars ++ []) = none := target.beforeAssignment?_chars []
    simp only [chars, Option.elim_none, List.append_nil] at hdots hnone ⊢
    simp only [hdots, Exported.dropLeadingCopies_eq_self hdots, hnone, Option.getD_none, Option.isSome_none,
      target.trimmed.trim_eq, target.collapse_chars]
    rfl
  · have hsome : beforeAssignment? 0 none (target.chars ++ (" = ".toList ++ value.chars)) = some (target.chars ++ [' ']) := by
      rw [target.beforeAssignment?_chars]
      rfl
    have htrim : trim (target.chars ++ [' ']) = target.chars := by
      have htrim := @Trimmed.trim_append [] [' '] _ target.trimmed (by simp) (by decide)
      simpa using htrim
    simp only [chars, Option.elim_some] at hdots ⊢
    simp only [hdots, Exported.dropLeadingCopies_eq_self hdots, hsome, Option.getD_some, Option.isSome_some, htrim, target.collapse_chars]
    rfl

end Param

/-! ## Lists -/

theorem parameterOf_trim {piece : List Char} (h : Trimmed (trim piece)) : parameterOf (trim piece) = parameterOf piece := by
  unfold parameterOf
  rw [h.trim_eq]

namespace ParameterList

variable (list : ParameterList)

theorem forall_entries {p : List Char → Prop} (hparam : ∀ param : Param, p param.chars) (hrest : ∀ target : Target, p target.restChars) :
    ∀ entry ∈ list.entries, p entry := by
  intro entry hentry
  rcases List.mem_append.mp hentry with h | h
  · obtain ⟨param, -, rfl⟩ := List.mem_map.mp h
    exact hparam param
  · obtain ⟨target, -, rfl⟩ := List.mem_map.mp h
    exact hrest target

theorem isEntry : ∀ entry ∈ list.entries, IsEntry entry := list.forall_entries Param.isEntry Target.isEntry_restChars

/-- Only angle brackets may be left open. -/
theorem depthBehind_eq : ∀ entry ∈ list.entries, depthBehind ' ' entry = angleDepth ' ' entry := by
  refine list.forall_entries (fun param => ?_) fun target => ?_
  · rw [depthBehind, param.bracketDepth_chars, Int.zero_add]
  · rw [depthBehind, target.bracketDepth_restChars, Int.zero_add]

theorem isClear_iff : list.IsClear ↔
    (∀ entry ∈ list.entries, IsUncut ',' 0 ' ' entry) ∧ ∀ entry ∈ list.entries.dropLast, depthBehind ' ' entry = 0 := by
  have hclosed (entry : List Char) (h : entry ∈ list.entries.dropLast) : depthBehind ' ' entry = angleDepth ' ' entry :=
    list.depthBehind_eq entry (List.mem_of_mem_dropLast h)
  refine ⟨fun h => ⟨h.uncut, fun entry hentry => ?_⟩, fun h => ⟨h.1, fun entry hentry => ?_⟩⟩
  · rw [hclosed entry hentry]
    exact h.closed entry hentry
  · rw [← hclosed entry hentry]
    exact h.2 entry hentry

theorem map_trim_splitTopLevel_iff : (splitTopLevel list.chars).map (trim ·.2) = list.entries ↔ list.IsClear := by
  rw [isClear_iff]
  exact Text.map_trim_splitTopLevel_iff list.isEntry

theorem parametersOf_of_isClear (h : list.IsClear) : parametersOf list.chars = list.told := by
  have hsplit := list.map_trim_splitTopLevel_iff.mpr h
  have hpieces : parametersOf list.chars = list.entries.map parameterOf := by
    rw [← hsplit, parametersOf, List.map_map]
    refine List.map_congr_left fun piece hpiece => (parameterOf_trim ?_).symm
    exact (list.isEntry _ (hsplit ▸ List.mem_map_of_mem hpiece)).trimmed
  rw [hpieces, entries, told, List.map_append, List.map_map, List.map_map]
  exact congrArg₂ _ (List.map_congr_left fun param _ => param.parameterOf_chars)
    (List.map_congr_left fun target _ => target.parameterOf_restChars)

/-- Without commas inside the parameters as many as there are only come out when each closes the angle brackets that it opens. -/
theorem isClear_of_length (hcommas : ∀ entry ∈ list.entries, ',' ∉ entry)
    (h : (parametersOf list.chars).length = list.entries.length) : list.IsClear := by
  rw [isClear_iff]
  refine ⟨fun entry hentry => isUncut_of_notMem (hcommas entry hentry), ?_⟩
  rw [parametersOf, List.length_map, chars] at h
  cases hentries : list.entries with
  | nil => simp
  | cons entry entries =>
      rw [hentries] at h hcommas
      have hpieces : (entry :: entries).length ≤ (piecesOf ',' (", ".toList.intercalate (entry :: entries))).length := by
        rw [← h]
        exact List.length_filter_le _ _
      exact depthBehind_eq_of_length_piecesFrom hcommas 0 0 hpieces

/-- A list is told apart into the parameters that it writes just when it is clear, and then it is read as it is written. Where there
are no commas inside the parameters, not even their number comes out unless it is clear. -/
theorem parametersOf_chars :
    ((splitTopLevel list.chars).map (trim ·.2) = list.entries ↔ list.IsClear) ∧
      (list.IsClear → parametersOf list.chars = list.told) ∧
      ((∀ entry ∈ list.entries, ',' ∉ entry) →
        ((parametersOf list.chars).length = list.told.length ↔ list.IsClear)) := by
  have hlength : list.told.length = list.entries.length := by simp [told, entries]
  refine ⟨list.map_trim_splitTopLevel_iff, list.parametersOf_of_isClear, fun hcommas => ⟨fun h => ?_, fun h => ?_⟩⟩
  · exact list.isClear_of_length hcommas (h.trans hlength)
  · rw [list.parametersOf_of_isClear h]

/-- The sign of a comparison hides the parameter behind it. The sign of an arrow and commas inside brackets are told apart. -/
theorem parametersOf_chars_comparison :
    (parametersOf "a = 1 < 2, b".toList).length ≠ 2 ∧
      parametersOf "a = x => x, \x7b b, c \x7d = \x7b\x7d, ...rest".toList =
        [{ name := "a", hasDefault := true }, { name := "\x7b b, c \x7d", hasDefault := true }, { name := "rest", rest := true }] := by
  let a : Target := .name ⟨['a'], by decide, by decide⟩
  let b : Target := .name ⟨['b'], by decide, by decide⟩
  let rest : Target := .name ⟨"rest".toList, by decide, by decide⟩
  let comparison : Value := ⟨"1 < 2".toList, by decide, ⟨by decide, by decide⟩, by decide⟩
  let arrow : Value := ⟨"x => x".toList, by decide, ⟨by decide, by decide⟩, by decide⟩
  let empty : Value := ⟨"\x7b\x7d".toList, by decide, ⟨by decide, by decide⟩, by decide⟩
  let hidden : ParameterList := ⟨[⟨a, some comparison⟩, ⟨b, none⟩], none⟩
  let told : ParameterList := ⟨[⟨a, some arrow⟩, ⟨.object " b, c ".toList (by decide), some empty⟩], some rest⟩
  have hclear : told.IsClear := ⟨by decide, by decide⟩
  refine ⟨fun hlength => ?_, (parametersOf_chars told).2.1 hclear⟩
  have hopen : ¬ hidden.IsClear := fun h => absurd (h.closed "a = 1 < 2".toList (by decide)) (by decide)
  exact hopen (((parametersOf_chars hidden).2.2 (by decide)).mp hlength)

end ParameterList

end ApiImpact.Parameters

import ApiImpact.Proofs.Assigned.Extracted

/-!
# Keys that are exported

Every name is taken in once, and no property gives more than one. So an object exports all of its keys just when each property
gives its own key.
-/

namespace ApiImpact.Assigned

open Text Lexical Script

variable {names : List String} {properties : List Property}

/-! ## Names that are taken in -/

theorem length_foldl_addName_le (names seen : List String) : (names.foldl addName seen).length ≤ seen.length + names.length := by
  induction names generalizing seen with
  | nil => exact Nat.le_refl _
  | cons name names ih =>
      have hstep : (addName seen name).length ≤ seen.length + 1 := by
        rw [addName]
        split_ifs
        · exact Nat.le_succ _
        · rw [List.length_append, List.length_singleton]
      rw [List.foldl_cons, List.length_cons]
      have hrest := ih (addName seen name)
      omega

/-- Names of which none is left out are taken in as they are. -/
theorem foldl_addName_eq {seen : List String} (h : seen.length + names.length ≤ (names.foldl addName seen).length) :
    names.foldl addName seen = seen ++ names := by
  induction names generalizing seen with
  | nil => exact (List.append_nil seen).symm
  | cons name names ih =>
      rw [List.foldl_cons, List.length_cons, addName] at h
      rw [List.foldl_cons, addName]
      split_ifs at h ⊢
      · have hle := length_foldl_addName_le names seen
        omega
      · rw [ih (by simpa [Nat.add_assoc, Nat.add_comm 1] using h), List.append_assoc, List.singleton_append]

/-! ## Keys that are taken for another -/

theorem some_eq_ofList_iff {name : String} {chars : List Char} : some name = some (String.ofList chars) ↔ chars = name.toList := by
  rw [Option.some_inj, eq_comm]
  exact ⟨fun h => by rw [← h, String.toList_ofList], fun h => by rw [h, String.ofList_toList]⟩

namespace Property

theorem taken?_eq_key?_iff (property : Property) : property.taken? = property.key? ↔ ¬ property.IsMistaken := by
  cases property with
  | method modifier key params gap body =>
      cases modifier with
      | none => simp [taken?, IsMistaken]
      | generator => simp [taken?, key?, IsMistaken]
      | async => exact some_eq_ofList_iff.trans not_not.symm
      | getter => exact some_eq_ofList_iff.trans not_not.symm
  | shorthand | pair | spread => simp [taken?, IsMistaken]

theorem isSome_key? {property : Property} {name : String} (h : property.taken? = some name) : property.key?.isSome = true := by
  cases property with
  | spread => cases h
  | shorthand | pair | method => rfl

end Property

/-- No more names are taken in than there are keys. -/
theorem length_filterMap_taken?_le (properties : List Property) :
    (properties.filterMap Property.taken?).length ≤ (properties.filterMap Property.key?).length := by
  induction properties with
  | nil => exact Nat.le_refl 0
  | cons property properties ih =>
      rw [List.filterMap_cons, List.filterMap_cons]
      cases htaken : property.taken? with
      | none =>
        cases property.key? with
        | none => exact ih
        | some key => exact Nat.le_succ_of_le ih
      | some name =>
          obtain ⟨key, hkey⟩ := Option.isSome_iff_exists.mp (Property.isSome_key? htaken)
          rw [hkey]
          exact Nat.succ_le_succ ih

/-- As many names as keys, and these, are only taken in if each property gives its own. -/
theorem taken?_eq_of_filterMap_eq (h : properties.filterMap Property.taken? = properties.filterMap Property.key?) :
    ∀ property ∈ properties, property.taken? = property.key? := by
  induction properties with
  | nil => simp
  | cons property properties ih =>
      rw [List.filterMap_cons, List.filterMap_cons] at h
      rw [List.forall_mem_cons]
      cases htaken : property.taken? with
      | none =>
          cases hkey : property.key? with
          | none =>
              rw [htaken, hkey] at h
              exact ⟨rfl, ih h⟩
          | some key =>
              rw [htaken, hkey] at h
              have hlength : (properties.filterMap Property.taken?).length = (properties.filterMap Property.key?).length + 1 := congrArg List.length h
              have hle := length_filterMap_taken?_le properties
              omega
      | some name =>
          obtain ⟨key, hkey⟩ := Option.isSome_iff_exists.mp (Property.isSome_key? htaken)
          rw [htaken, hkey] at h
          obtain ⟨rfl, hrest⟩ := List.cons.inj h
          exact ⟨hkey.symm, ih hrest⟩

theorem distinct_taken? (h : ∀ property ∈ properties, ¬ property.IsMistaken) :
    distinct (properties.filterMap Property.taken?) = distinct (properties.filterMap Property.key?) :=
  congrArg distinct (List.filterMap_congr fun property hproperty => property.taken?_eq_key?_iff.mpr (h property hproperty))

/-- All keys are only taken in if each property gives its own. -/
theorem not_isMistaken_of_distinct (h : distinct (properties.filterMap Property.taken?) = properties.filterMap Property.key?) :
    ∀ property ∈ properties, ¬ property.IsMistaken := by
  have hle := length_filterMap_taken?_le properties
  have hall : distinct (properties.filterMap Property.taken?) = properties.filterMap Property.taken? :=
    foldl_addName_eq (by rw [← distinct_eq_foldl, h, List.length_nil, Nat.zero_add]; exact hle)
  exact fun property hproperty => property.taken?_eq_key?_iff.mp (taken?_eq_of_filterMap_eq (hall.symm.trans h) property hproperty)

/-! ## All exports -/

/-- A script that assigns an object exports, one after the other, what is taken for the keys of its properties. These are the keys
if none is mistaken, and otherwise not all keys are exported. -/
theorem keys_exported {assignment : Assignment} (h : assignment.IsAlone) (filePath : String) (language : Language) : ∃ found,
    extract filePath language assignment.text = .ok found ∧ (∀ e ∈ found.exports, e.exportType = .named ∧ e.style = .assignment) ∧
      found.exports.map (·.name) = distinct (assignment.properties.filterMap Property.taken?) ∧
      ((∀ property ∈ assignment.properties, ¬ property.IsMistaken) →
        found.exports.map (·.name) = distinct (assignment.properties.filterMap Property.key?)) ∧
      (found.exports.map (·.name) = assignment.properties.filterMap Property.key? →
        ∀ property ∈ assignment.properties, ¬ property.IsMistaken) := by
  obtain ⟨found, hfound, hassigned, hnames⟩ := h.extract_text filePath language
  exact ⟨found, hfound, hassigned, hnames, fun hkeys => hnames.trans (distinct_taken? hkeys), fun hkeys =>
    not_isMistaken_of_distinct (hnames.symm.trans hkeys)⟩

/-! ### An object with properties of all forms -/

/-- The name `text`, if it is one. -/
def nameOf (text : String) (h : text.toList ≠ [] ∧ (∀ c ∈ text.toList, isIdentifierChar c = true) ∧
    ∀ c ∈ text.toList.head?, c.isDigit = false) : Name :=
  ⟨text.toList, h.1, h.2.1, h.2.2⟩

/-- The items, if they are a block. -/
def blockOf (items : List Item) (h : IsBalanced (code items) ∧ ∀ c ∈ code items, c ≠ '<' ∧ c ≠ '>') : Block :=
  ⟨items, h.1, h.2⟩

/-- The items, if they are a value. -/
def valueOf (items : List Item) (h : IsBalanced (code items) ∧ ∀ c ∈ code items, c ≠ '<' ∧ c ≠ '>')
    (hwhole : IsUncut ',' 0 ' ' (code items)) (hlast : ∀ c ∈ (code items).getLast?, isBlank c = false) : Value where
  toBlock := blockOf items h
  whole := fun front back hsplit hzero => hwhole front back hsplit (by
    rw [depthBehind, hzero, angleDepth_eq_zero fun c hc => h.2 c (hsplit ▸ List.mem_append_left _ hc)]
    rfl)
  last := hlast

/-- Of an object with properties of all forms the keys `load`, `ids` and `size` are not exported. -/
theorem keys_exported_of_modifiers : ∃ assignment : Assignment, assignment.IsAlone ∧
    assignment.text = "module.exports = \x7b a, b: f(1,2), \"c d\":/*,*/x, run(x) \x7b\x7d, ...m, async load() \x7b\x7d, " ++
      "*ids() \x7b\x7d, get size() \x7b\x7d\x7d;\n" ∧
    assignment.properties.filterMap Property.key? = ["a", "b", "c d", "run", "load", "ids", "size"] ∧
    ∃ found, extract "m.js" .javaScript assignment.text = .ok found ∧
      found.exports.map (·.name) = ["a", "b", "c d", "run", "async", "get"] := by
  let blank : Gap := ⟨[.blanks [' '] (by decide) (by decide)], by decide⟩
  let nothing : Block := blockOf [] (by decide)
  let call : Value := valueOf [.blanks [' '] (by decide) (by decide), .word ['f'] (by decide) (by decide), .sign '(' (by decide),
    .word ['1'] (by decide) (by decide), .sign ',' (by decide), .word ['2'] (by decide) (by decide), .sign ')' (by decide)]
    (by decide) (by decide) (by decide)
  let commented : Value := valueOf [.blockComment [','] (by decide), .word ['x'] (by decide) (by decide)]
    (by decide) (by decide) (by decide)
  let properties : List Property := [
    .shorthand (nameOf "a" (by decide)),
    .pair (.name (nameOf "b" (by decide))) call,
    .pair (.quoted ⟨'"', .inr rfl, "c d".toList, by decide⟩) commented,
    .method .none (nameOf "run" (by decide)) (blockOf [.word ['x'] (by decide) (by decide)] (by decide)) blank nothing,
    .spread (valueOf [.word ['m'] (by decide) (by decide)] (by decide) (by decide) (by decide)),
    .method .async (nameOf "load" (by decide)) nothing blank nothing,
    .method .generator (nameOf "ids" (by decide)) nothing blank nothing,
    .method .getter (nameOf "size" (by decide)) nothing blank nothing]
  let assignment : Assignment := {
    entries := properties.map (⟨blank, ·, ⟨[], List.forall_mem_nil _⟩⟩)
    ending := ⟨[.blanks ['\n'] (by decide) (by decide)], by decide⟩
    lexical := by decide +kernel }
  have halone : assignment.IsAlone := Assignment.isAlone_of_no_export (by decide +kernel)
  obtain ⟨found, hfound, -, hnames, -⟩ := keys_exported halone "m.js" .javaScript
  exact ⟨assignment, halone, by decide +kernel, by decide +kernel, found, hfound, hnames.trans (by decide +kernel)⟩

end ApiImpact.Assigned

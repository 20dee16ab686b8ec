import Mathlib.Data.List.Forall2
import Mathlib.Data.Option.Basic
import ApiImpact.Proofs.Change.Unchanged
import ApiImpact.Proofs.Text.Blank

/-!
# Types with other blanks

The types of two declarations are written with the same tokens, and with other blanks between them. No change is
found where blanks stand between the same tokens in both, however many. A change is found where blanks stand between
two tokens in one type only, also when a sign keeps the two apart.
-/

namespace ApiImpact

open Text

namespace TypeText

/-! ## Tokens and the blanks between them -/

/-- The text begins and ends with a letter or a sign. -/
def isToken (text : List Char) : Bool :=
  text.head?.any (!isBlank ·) && text.getLast?.any (!isBlank ·)

/-- A piece of a type that is not broken: a name, a sign, a literal with the blanks in it. -/
structure Token where
  chars : List Char
  isToken : isToken chars = true

/-- Blanks between two tokens, or nothing. -/
structure Gap where
  chars : List Char
  isBlank : ∀ c ∈ chars, isBlank c = true

/-- There are blanks. -/
def Gap.isOpen (gap : Gap) : Bool := !gap.chars.isEmpty

/-- A type as it is written, token by token. -/
structure Layout where
  first : Token
  more : List (Gap × Token)

namespace Layout

def chars (layout : Layout) : List Char :=
  layout.first.chars ++ layout.more.flatMap fun (gap, token) => gap.chars ++ token.chars

def tokens (layout : Layout) : List Token :=
  layout.first :: layout.more.map (·.2)

/-- Between which tokens there are blanks. -/
def breaks (layout : Layout) : List Bool :=
  layout.more.map (·.1.isOpen)

end Layout

/-- The types have the same tokens. -/
def Respaced (before after : String) : Prop :=
  ∃ old new : Layout, before.toList = old.chars ∧ after.toList = new.chars ∧ old.tokens = new.tokens

/-- The types have the same tokens, and blanks in the same places. -/
def Resized (before after : String) : Prop :=
  ∃ old new : Layout, before.toList = old.chars ∧ after.toList = new.chars ∧ old.tokens = new.tokens ∧
    old.breaks = new.breaks

/-! ## What is left of the blanks -/

theorem Token.exists_cons (token : Token) : ∃ c rest, token.chars = c :: rest ∧ isBlank c = false := by
  have h := token.isToken
  cases hchars : token.chars with
  | nil => simp [TypeText.isToken, hchars] at h
  | cons c rest =>
      refine ⟨c, rest, rfl, ?_⟩
      simp [TypeText.isToken, hchars] at h
      exact h.1

theorem Token.ne_nil (token : Token) : token.chars ≠ [] := by
  obtain ⟨c, rest, hchars, -⟩ := token.exists_cons
  simp [hchars]

theorem Token.last (token : Token) : ∀ c ∈ token.chars.getLast?, isBlank c = false := by
  intro c hc
  have h := token.isToken
  rw [TypeText.isToken, hc] at h
  simpa using (Bool.and_eq_true_iff.mp h).2

/-- What the gaps and tokens behind the first token become. -/
def collapsed (more : List (Gap × Token)) : List Char :=
  more.flatMap fun (gap, token) => (if gap.isOpen then [' '] else []) ++ collapse token.chars

theorem collapseBehind_more (more : List (Gap × Token)) :
    collapseBehind (more.flatMap fun (gap, token) => gap.chars ++ token.chars) = collapsed more := by
  induction more with
  | nil => rfl
  | cons entry more ih =>
      obtain ⟨gap, token⟩ := entry
      obtain ⟨c, rest, hchars, hc⟩ := token.exists_cons
      have hrest (tail : List Char) : collapse (token.chars ++ tail) = collapse token.chars ++ collapseBehind tail :=
        collapse_append token.last token.ne_nil
      rw [collapsed, List.flatMap_cons, List.flatMap_cons, ← collapsed, ← ih, List.append_assoc, List.append_assoc,
        ← hrest, collapseBehind, collapse_blanks_append gap.isBlank]
      cases hgap : gap.chars with
      | nil => simp [Gap.isOpen, hgap, hchars, hc]
      | cons d blanks =>
          have hd : isBlank d = true := gap.isBlank d (by simp [hgap])
          simp [Gap.isOpen, hgap, hd, hchars, collapse_cons hc]

theorem collapse_chars (layout : Layout) :
    collapse layout.chars = collapse layout.first.chars ++ collapsed layout.more := by
  rw [Layout.chars, collapse_append layout.first.last layout.first.ne_nil, collapseBehind_more]

theorem collapsed_congr {more more' : List (Gap × Token)} (htokens : more.map (·.2) = more'.map (·.2))
    (hbreaks : more.map (·.1.isOpen) = more'.map (·.1.isOpen)) : collapsed more = collapsed more' := by
  induction more generalizing more' with
  | nil =>
      cases more' with
      | nil => rfl
      | cons entry more' => simp at htokens
  | cons entry more ih =>
      cases more' with
      | nil => simp at htokens
      | cons entry' more' =>
          rw [List.map_cons, List.map_cons, List.cons.injEq] at htokens hbreaks
          have hmore := ih htokens.2 hbreaks.2
          rw [collapsed, collapsed] at hmore
          simp [collapsed, hmore, htokens.1, hbreaks.1]

/-- One space more or less is still there when the semicolons at the end are gone. -/
theorem breaks_eq {more more' : List (Gap × Token)} (htokens : more.map (·.2) = more'.map (·.2)) (front : List Char)
    (h : dropEndWhile (· == ';') (front ++ collapsed more) = dropEndWhile (· == ';') (front ++ collapsed more')) :
    more.map (·.1.isOpen) = more'.map (·.1.isOpen) := by
  induction more generalizing more' front with
  | nil =>
      cases more' with
      | nil => rfl
      | cons entry more' => simp at htokens
  | cons entry more ih =>
      cases more' with
      | nil => simp at htokens
      | cons entry' more' =>
          rw [List.map_cons, List.map_cons, List.cons.injEq] at htokens
          obtain ⟨htoken, htokens⟩ := htokens
          obtain ⟨gap, token⟩ := entry
          obtain ⟨gap', token'⟩ := entry'
          obtain rfl : token = token' := htoken
          obtain ⟨c, rest, hchars, hc⟩ := token.exists_cons
          have hspace : ' ' ≠ c := by
            rintro rfl
            exact absurd hc (by decide)
          rw [collapsed, collapsed, List.flatMap_cons, List.flatMap_cons, ← collapsed, ← collapsed] at h
          cases hgap : gap.isOpen <;> cases hgap' : gap'.isOpen
          · have hmore := ih htokens (front ++ collapse token.chars) (by simpa [hgap, hgap'] using h)
            simp [hgap, hgap', hmore]
          · refine absurd h.symm ?_
            simpa [hgap, hgap', hchars, collapse_cons hc] using dropEndWhile_ne (by decide) hspace front _ _
          · refine absurd h ?_
            simpa [hgap, hgap', hchars, collapse_cons hc] using dropEndWhile_ne (by decide) hspace front _ _
          · have hmore := ih htokens (front ++ ' ' :: collapse token.chars) (by simpa [hgap, hgap'] using h)
            simp [hgap, hgap', hmore]

theorem differ_eq_false_iff {before after : String} (h : Respaced before after) :
    differ before after = false ↔ Resized before after := by
  rw [differ, bne_eq_false_iff_eq, normalize, normalize]
  constructor
  · intro heq
    obtain ⟨old, new, hold, hnew, htokens⟩ := h
    have hsplit := List.cons.inj htokens
    rw [hold, hnew, collapse_chars, collapse_chars, hsplit.1] at heq
    exact ⟨old, new, hold, hnew, htokens, breaks_eq hsplit.2 _ heq⟩
  · rintro ⟨old, new, hold, hnew, htokens, hbreaks⟩
    have hsplit := List.cons.inj htokens
    rw [hold, hnew, collapse_chars, collapse_chars, hsplit.1, collapsed_congr hsplit.2 hbreaks]

end TypeText

open TypeText

/-! ## Declarations with other types -/

/-- The parameters differ in their declared types at most, which are in the relation `R`. -/
structure Parameter.Retyped (R : String → String → Prop) (old new : Parameter) : Prop where
  name : old.name = new.name
  optional : old.optional = new.optional
  hasDefault : old.hasDefault = new.hasDefault
  rest : old.rest = new.rest
  declaredType : Option.Rel R old.declaredType new.declaredType

/-- The members differ in their declared types at most. -/
structure Property.Retyped (R : String → String → Prop) (old new : Property) : Prop where
  name : old.name = new.name
  optional : old.optional = new.optional
  declaredType : Option.Rel R old.declaredType new.declaredType

/-- The declarations differ in types at most: those of parameters, results and members are in the relation `R`, and
the definitions of aliases in the relation `D`. Of several members with one name the last counts. -/
inductive Shape.Retyped (R D : String → String → Prop) : Shape → Shape → Prop where
  | function {old new : FunctionShape} : List.Forall₂ (Parameter.Retyped R) old.params new.params →
      Option.Rel R old.returnType new.returnType → old.isAsync = new.isAsync →
      Retyped R D (.function old) (.function new)
  | classType {old new : ClassShape} : old.methods = new.methods →
      Option.Rel (List.Forall₂ (Parameter.Retyped R)) old.constructor new.constructor →
      old.properties = new.properties → Retyped R D (.classType old) (.classType new)
  | interface {old new : List Property} :
      (∀ name : String, Option.Rel (Property.Retyped R) (DeclarationChange.byName old)[name]?
        (DeclarationChange.byName new)[name]?) → Retyped R D (.interface old) (.interface new)
  | typeAlias {old new : String} : D old new → Retyped R D (.typeAlias old) (.typeAlias new)
  | enumeration {members : List String} : Retyped R D (.enumeration members) (.enumeration members)
  | binding {declaredType : Option String} : Retyped R D (.binding declaredType) (.binding declaredType)

theorem rel_resized_iff {old new : Option String} (h : Option.Rel Respaced old new) :
    Option.Rel Resized old new ↔ ∀ before ∈ old, ∀ after ∈ new, differ before after = false := by
  cases h with
  | none => simp
  | some h => simp [differ_eq_false_iff h]

namespace ParameterChange

variable {old new : List Parameter}

theorem ofTypes_eq_nil_iff {name : String} {old new : Option String} :
    ofTypes name old new = [] ↔ ∀ before ∈ old, ∀ after ∈ new, differ before after = false := by
  cases old <;> cases new <;> simp [ofTypes]

theorem ofPair_eq_nil_iff {p q : Parameter} (h : p.Retyped Respaced q) :
    ofPair true p q = [] ↔ p.Retyped Resized q := by
  have hrequired : p.isRequired = q.isRequired := by
    rw [Parameter.isRequired, Parameter.isRequired, h.optional, h.hasDefault, h.rest]
  have htypes : ofPair true p q = ofTypes q.name p.declaredType q.declaredType := by simp [ofPair, hrequired]
  rw [htypes, ofTypes_eq_nil_iff, ← rel_resized_iff h.declaredType]
  exact ⟨fun hr => { h with declaredType := hr }, fun hr => hr.declaredType⟩

theorem ofLists_eq_nil_iff (h : List.Forall₂ (Parameter.Retyped Respaced) old new) :
    ofLists true old new = [] ↔ List.Forall₂ (Parameter.Retyped Resized) old new := by
  have hlength := h.length_eq
  have hrest : old.any (·.rest) = new.any (·.rest) := by
    clear hlength
    induction h with
    | nil => rfl
    | cons hpair _ ih => rw [List.any_cons, List.any_cons, ih, hpair.rest]
  have hadded : ofAdded old new = [] := by simp [ofAdded, hlength]
  have hpairs : ofLists true old new = (old.zip new).flatMap fun pair => ofPair true pair.1 pair.2 := by
    simp [ofLists, hlength, hrest, hadded]
  have hzip {p q : Parameter} (hm : (p, q) ∈ old.zip new) := ofPair_eq_nil_iff ((List.forall₂_iff_zip.mp h).2 hm)
  rw [hpairs, List.flatMap_eq_nil_iff, List.forall₂_iff_zip]
  constructor
  · intro hnil
    exact ⟨hlength, fun hm => (hzip hm).mp (hnil _ hm)⟩
  · rintro ⟨-, hall⟩ ⟨p, q⟩ hm
    exact (hzip hm).mpr (hall hm)

end ParameterChange

namespace DeclarationChange

theorem ofReturnTypes_eq_nil_iff {old new : Option String} (h : Option.Rel Respaced old new) :
    ofReturnTypes old new = [] ↔ Option.Rel Resized old new := by
  rw [rel_resized_iff h]
  cases old <;> cases new <;> simp [ofReturnTypes]

theorem ofConstructors_eq_nil_iff {old new : Option (List Parameter)}
    (h : Option.Rel (List.Forall₂ (Parameter.Retyped Respaced)) old new) :
    ofConstructors true old new = [] ↔ Option.Rel (List.Forall₂ (Parameter.Retyped Resized)) old new := by
  cases h with
  | none => simp [ofConstructors]
  | some h => simp [ofConstructors, ParameterChange.ofLists_eq_nil_iff h]

theorem ofProperty_eq_nil_iff {name : String} {p q : Property} (h : p.Retyped Respaced q) :
    ofProperty name p q = [] ↔ p.Retyped Resized q := by
  have htypes : ofProperty name p q = [] ↔ Option.Rel Resized p.declaredType q.declaredType := by
    rw [rel_resized_iff h.declaredType]
    cases hp : p.declaredType <;> cases hq : q.declaredType <;> simp [ofProperty, h.optional, hp, hq]
  rw [htypes]
  exact ⟨fun hr => { h with declaredType := hr }, fun hr => hr.declaredType⟩

/-- Members that are written in one order with one name after the other have the same names to the last. -/
theorem rel_byName {R : String → String → Prop} {old new : List Property} (h : List.Forall₂ (Property.Retyped R) old new)
    (name : String) : Option.Rel (Property.Retyped R) (byName old)[name]? (byName new)[name]? := by
  have hinsert {m m' : Std.ExtTreeMap String Property}
      (hmaps : ∀ name : String, Option.Rel (Property.Retyped R) m[name]? m'[name]?) :
      ∀ name : String, Option.Rel (Property.Retyped R) (m.insertMany (old.map fun p => (p.name, p)))[name]?
        (m'.insertMany (new.map fun p => (p.name, p)))[name]? := by
    induction h generalizing m m' with
    | nil => simpa using hmaps
    | cons hpair _ ih =>
        simp only [List.map_cons, Std.ExtTreeMap.insertMany_cons]
        refine ih fun name => ?_
        rw [Std.ExtTreeMap.getElem?_insert, Std.ExtTreeMap.getElem?_insert, hpair.name]
        split_ifs
        · exact .some hpair
        · exact hmaps name
  rw [byName, byName, Std.ExtTreeMap.ofList_eq_insertMany_empty, Std.ExtTreeMap.ofList_eq_insertMany_empty]
  exact hinsert (by simp) name

theorem rel_resized_member_iff {name : String} {old new : Option Property}
    (h : Option.Rel (Property.Retyped Respaced) old new) : Option.Rel (Property.Retyped Resized) old new ↔
      ∀ p ∈ old, (match new with
        | none => [propertyRemoved name]
        | some q => ofProperty name p q) = [] := by
  cases h with
  | none => simp
  | some h => simp [ofProperty_eq_nil_iff h]

theorem ofProperties_eq_nil_iff {old new : List Property}
    (h : ∀ name : String, Option.Rel (Property.Retyped Respaced) (byName old)[name]? (byName new)[name]?) :
    ofProperties old new = [] ↔
      ∀ name : String, Option.Rel (Property.Retyped Resized) (byName old)[name]? (byName new)[name]? := by
  have hkept {name : String} {q : Property} (hm : (name, q) ∈ (byName new).toList) : (byName old).contains name = true := by
    have hname := h name
    rw [getElem?_of_mem_toList hm] at hname
    cases hold : (byName old)[name]? with
    | none => rw [hold] at hname; cases hname
    | some p => simp [Std.ExtTreeMap.contains_eq_isSome_getElem?, hold]
  rw [ofProperties, List.append_eq_nil_iff, List.flatMap_eq_nil_iff, List.map_eq_nil_iff, List.filter_eq_nil_iff]
  constructor
  · rintro ⟨hchanged, -⟩ name
    rw [rel_resized_member_iff (h name)]
    intro p hp
    exact hchanged (name, p) (Std.ExtTreeMap.mem_toList_iff_getElem?_eq_some.mpr hp)
  · intro hall
    refine ⟨?_, ?_⟩
    · rintro ⟨name, p⟩ hm
      exact (rel_resized_member_iff (h name)).mp (hall name) p (getElem?_of_mem_toList hm)
    · rintro ⟨name, q⟩ hm
      simp [hkept hm]

/-- No change is found between declarations that differ in blanks between the tokens of their types just when the blanks
are in the same places, and the definitions of aliases are written alike. -/
theorem unchanged_iff_resized {before after : Shape} (h : before.Retyped Respaced Respaced after) :
    ofShapes true before after = [] ↔ before.Retyped Resized (· = ·) after := by
  cases h with
  | function hparams hreturn hasync =>
      rw [ofShapes, ofFunctions, if_pos rfl, List.append_eq_nil_iff, List.map_eq_nil_iff,
        ParameterChange.ofLists_eq_nil_iff hparams, ofReturnTypes_eq_nil_iff hreturn]
      constructor
      · rintro ⟨hp, hr⟩
        exact .function hp hr hasync
      · intro hnew
        cases hnew with
        | function hp hr _ => exact ⟨hp, hr⟩
  | classType hmethods hconstructor hproperties =>
      rw [ofShapes, ofClasses, hmethods, missing_eq_nil (List.Subset.refl _), List.map_nil, List.nil_append,
        ofConstructors_eq_nil_iff hconstructor]
      constructor
      · intro hc
        exact .classType hmethods hc hproperties
      · intro hnew
        cases hnew with
        | classType _ hc _ => exact hc
  | interface hmembers =>
      rw [ofShapes, ofProperties_eq_nil_iff hmembers]
      constructor
      · exact .interface
      · intro hnew
        cases hnew with
        | interface hm => exact hm
  | @typeAlias old new _ =>
      rw [ofShapes, ite_eq_left_iff]
      constructor
      · intro heq
        exact .typeAlias (by simpa using heq)
      · intro hnew
        cases hnew with
        | typeAlias heq => simp [heq]
  | enumeration => exact ⟨fun _ => .enumeration, fun _ => ofShapes_self true _⟩
  | binding => exact ⟨fun _ => .binding, fun _ => ofShapes_self true _⟩

/-- A space behind the comma of a type, of a parameter and of a member. -/
theorem changed_of_comma :
    let function (type : String) : Shape := .function { params := [{ name := "a", declaredType := some type }] }
    let interface (type : String) : Shape := .interface [{ name := "a", optional := false, declaredType := some type }]
    let old := "Map<string,number>"
    let new := "Map<string, number>"
    ((function old).Retyped Respaced Respaced (function new) ∧ ofShapes true (function old) (function new) ≠ [] ∧
      ¬ (function old).Retyped Resized (· = ·) (function new)) ∧
    (interface old).Retyped Respaced Respaced (interface new) ∧ ofShapes true (interface old) (interface new) ≠ [] ∧
      ¬ (interface old).Retyped Resized (· = ·) (interface new) := by
  intro function interface old new
  let token (text : String) (h : isToken text.toList = true) : Token := ⟨text.toList, h⟩
  let nothing : Gap := ⟨[], by simp⟩
  let space : Gap := ⟨[' '], by decide⟩
  let layout (gap : Gap) : Layout := ⟨token "Map" (by decide),
    [(nothing, token "<" (by decide)), (nothing, token "string" (by decide)), (nothing, token "," (by decide)),
      (gap, token "number" (by decide)), (nothing, token ">" (by decide))]⟩
  have htypes : Respaced old new := ⟨layout nothing, layout space, by decide, by decide, rfl⟩
  have hfunction : (function old).Retyped Respaced Respaced (function new) :=
    .function (.cons ⟨rfl, rfl, rfl, rfl, .some htypes⟩ .nil) .none rfl
  have hinterface : (interface old).Retyped Respaced Respaced (interface new) :=
    .interface (rel_byName (.cons ⟨rfl, rfl, .some htypes⟩ .nil))
  have hchanged : ofShapes true (function old) (function new) ≠ [] := by decide
  have hchanged' : ofShapes true (interface old) (interface new) ≠ [] := by decide +kernel
  refine ⟨⟨hfunction, hchanged, fun h => ?_⟩, hinterface, hchanged', fun h => ?_⟩
  · exact hchanged ((unchanged_iff_resized hfunction).mpr h)
  · exact hchanged' ((unchanged_iff_resized hinterface).mpr h)

end DeclarationChange

end ApiImpact

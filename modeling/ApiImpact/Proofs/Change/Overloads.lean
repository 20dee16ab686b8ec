import ApiImpact.Change.Declaration
import ApiImpact.Proofs.Change.Index

/-!
# Members of one name

An interface may have several members of one name: the overloads of a method, its call signatures and its
construct signatures. Of these the last one alone is compared, so that an overload is dropped without a change
being found just when a later one of its name hides it.
-/

namespace ApiImpact

namespace Property

/-- The declared type, as far as spacing does not count. -/
def normalType (p : Property) : Option (List Char) :=
  p.declaredType.map fun type => TypeText.normalize type.toList

/-- One of `members` has the name and the type of the member. -/
def KeptIn (p : Property) (members : List Property) : Prop :=
  ∃ q ∈ members, q.name = p.name ∧ q.normalType = p.normalType

/-- The last member of its name among `members`. -/
def IsLastIn (p : Property) (members : List Property) : Prop :=
  ∃ front rest, members = front ++ p :: rest ∧ ∀ q ∈ rest, q.name ≠ p.name

variable {p : Property} {members : List Property}

instance (p : Property) (members : List Property) : Decidable (p.KeptIn members) :=
  inferInstanceAs (Decidable (∃ q ∈ members, _ ∧ _))

theorem IsLastIn.mem (h : p.IsLastIn members) : p ∈ members := by
  obtain ⟨front, rest, rfl, -⟩ := h
  simp

/-- A member that is not the last of its name has another one behind it. -/
theorem exists_later_of_not_isLastIn (hp : p ∈ members) (h : ¬ p.IsLastIn members) :
    ∃ front rest, members = front ++ p :: rest ∧ ∃ q ∈ rest, q.name = p.name := by
  obtain ⟨front, rest, rfl⟩ := List.append_of_mem hp
  refine ⟨front, rest, rfl, ?_⟩
  by_contra hnone
  exact h ⟨front, rest, rfl, fun q hq he => hnone ⟨q, hq, he⟩⟩

end Property

namespace DeclarationChange

variable {before after : List Property} {p q : Property} {name : String}

/-- The last members of one name agree: each of `before` is there in `after` with its type and not required newly, and
what is new in `after` may be left out. -/
structure LastsAgree (before after : List Property) : Prop where
  kept : ∀ p : Property, p.IsLastIn before → ∃ q : Property, q.IsLastIn after ∧ q.name = p.name ∧
    q.normalType = p.normalType ∧ (p.optional = true → q.optional = true)
  added : ∀ q : Property, q.IsLastIn after → (∀ p ∈ before, p.name ≠ q.name) → q.optional = true

theorem getElem?_byName_eq_some_iff : (byName before)[name]? = some p ↔ p.IsLastIn before ∧ p.name = name := by
  rw [byName, ← indexBy, getElem?_indexBy_eq_some_iff, and_comm]
  constructor
  · rintro ⟨hlast, rfl⟩
    exact ⟨hlast, rfl⟩
  · rintro ⟨hlast, rfl⟩
    exact ⟨hlast, rfl⟩

theorem ofProperty_eq_nil_iff_normalType (hp : p.declaredType.isSome = true) (hq : q.declaredType.isSome = true) :
    ofProperty name p q = [] ↔ q.normalType = p.normalType ∧ (p.optional = true → q.optional = true) := by
  obtain ⟨old, hold⟩ := Option.isSome_iff_exists.mp hp
  obtain ⟨new, hnew⟩ := Option.isSome_iff_exists.mp hq
  have htypes : q.normalType = p.normalType ↔ TypeText.differ old new = false := by
    rw [Property.normalType, Property.normalType, hold, hnew, Option.map_some, Option.map_some, Option.some.injEq,
      TypeText.differ, bne_eq_false_iff_eq]
    exact eq_comm
  rw [htypes]
  cases hdiffer : TypeText.differ old new <;> simp [ofProperty, hold, hnew, hdiffer]

/-- No change is found between members with declared types just when the last ones of each name agree. -/
theorem ofProperties_eq_nil_iff_lastsAgree (hb : ∀ p ∈ before, p.declaredType.isSome = true)
    (ha : ∀ q ∈ after, q.declaredType.isSome = true) : ofProperties before after = [] ↔ LastsAgree before after := by
  rw [ofProperties, List.append_eq_nil_iff, List.flatMap_eq_nil_iff, List.map_eq_nil_iff, List.filter_eq_nil_iff]
  constructor
  · rintro ⟨hkept, hadded⟩
    refine ⟨fun p hp => ?_, fun q hq hnew => ?_⟩
    · have hold : (byName before)[p.name]? = some p := getElem?_byName_eq_some_iff.mpr ⟨hp, rfl⟩
      have hnil := hkept (p.name, p) (Std.ExtTreeMap.mem_toList_iff_getElem?_eq_some.mpr hold)
      cases hget : (byName after)[p.name]? with
      | none => simp [hget] at hnil
      | some q =>
          obtain ⟨hq, hname⟩ := getElem?_byName_eq_some_iff.mp hget
          simp only [hget] at hnil
          obtain ⟨htype, hoptional⟩ :=
            (ofProperty_eq_nil_iff_normalType (hb p hp.mem) (ha q hq.mem)).mp hnil
          exact ⟨q, hq, hname, htype, hoptional⟩
    · have hget : (byName after)[q.name]? = some q := getElem?_byName_eq_some_iff.mpr ⟨hq, rfl⟩
      have hnone : (byName before).contains q.name = false := by
        rw [Bool.eq_false_iff, Ne, byName, ← indexBy, contains_indexBy]
        rintro ⟨p, hp, hname⟩
        exact hnew p hp hname
      simpa [hnone] using hadded (q.name, q) (Std.ExtTreeMap.mem_toList_iff_getElem?_eq_some.mpr hget)
  · rintro ⟨hkept, hadded⟩
    refine ⟨?_, ?_⟩
    · rintro ⟨name, p⟩ hm
      obtain ⟨hp, rfl⟩ := getElem?_byName_eq_some_iff.mp (getElem?_of_mem_toList hm)
      obtain ⟨q, hq, hname, htype, hoptional⟩ := hkept p hp
      have hget : (byName after)[p.name]? = some q := getElem?_byName_eq_some_iff.mpr ⟨hq, hname⟩
      simp only [hget]
      exact (ofProperty_eq_nil_iff_normalType (hb p hp.mem) (ha q hq.mem)).mpr ⟨htype, hoptional⟩
    · rintro ⟨name, q⟩ hm
      obtain ⟨hq, rfl⟩ := getElem?_byName_eq_some_iff.mp (getElem?_of_mem_toList hm)
      intro hrequired
      obtain ⟨hnone, hrequired⟩ : (byName before).contains q.name = false ∧ q.optional = false := by
        simpa using hrequired
      rw [Bool.eq_false_iff, Ne, byName, ← indexBy, contains_indexBy] at hnone
      have hoptional := hadded q hq fun p hp hname => hnone ⟨p, hp, hname⟩
      rw [hrequired] at hoptional
      cases hoptional

/-- Between interfaces whose members have declared types, one is dropped without any change being found just when the
last members of each name agree and the dropped one is followed by another one of its name. -/
theorem dropped_silently_iff (hb : ∀ p ∈ before, p.declaredType.isSome = true)
    (ha : ∀ q ∈ after, q.declaredType.isSome = true) :
    (∃ p ∈ before, ¬ p.KeptIn after) ∧ ofProperties before after = [] ↔
      LastsAgree before after ∧
        ∃ front p rest, before = front ++ p :: rest ∧ ¬ p.KeptIn after ∧ ∃ q ∈ rest, q.name = p.name := by
  rw [ofProperties_eq_nil_iff_lastsAgree hb ha]
  constructor
  · rintro ⟨⟨p, hp, hdropped⟩, hagree⟩
    have hhidden : ¬ p.IsLastIn before := by
      intro hlast
      obtain ⟨q, hq, hname, htype, -⟩ := hagree.kept p hlast
      exact hdropped ⟨q, hq.mem, hname, htype⟩
    obtain ⟨front, rest, he, hlater⟩ := Property.exists_later_of_not_isLastIn hp hhidden
    exact ⟨hagree, front, p, rest, he, hdropped, hlater⟩
  · rintro ⟨hagree, front, p, rest, rfl, hdropped, -⟩
    exact ⟨⟨p, by simp, hdropped⟩, hagree⟩

/-- The first of two overloads is dropped, the second one stays. -/
theorem dropped_silently_of_overload :
    let text : Property := { name := "m", optional := false, declaredType := some "(a: string): void" }
    let number : Property := { name := "m", optional := false, declaredType := some "(a: number): void" }
    (∀ p ∈ [text, number], p.declaredType.isSome = true) ∧ (∀ q ∈ [number], q.declaredType.isSome = true) ∧
      LastsAgree [text, number] [number] ∧ ¬ text.KeptIn [number] ∧ ofProperties [text, number] [number] = [] := by
  intro text number
  have hb : ∀ p ∈ [text, number], p.declaredType.isSome = true := by decide
  have ha : ∀ q ∈ [number], q.declaredType.isSome = true := by decide
  have hdropped : ¬ text.KeptIn [number] := by decide
  have hsilent : ofProperties [text, number] [number] = [] := by decide +kernel
  obtain ⟨hagree, -⟩ := (dropped_silently_iff hb ha).mp ⟨⟨text, by simp, hdropped⟩, hsilent⟩
  exact ⟨hb, ha, hagree, hdropped, hsilent⟩

end DeclarationChange

end ApiImpact

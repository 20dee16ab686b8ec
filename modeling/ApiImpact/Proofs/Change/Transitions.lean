import ApiImpact.Proofs.Change.Exports

/-!
# What a transition says

An entry that moved an export between a name and the default pairs exports of two types, as long as a pair
needs some score. Where none is needed, two exports of one type can pass for such a move.
-/

namespace ApiImpact

/-- The transition says what became of the export. -/
def ModifiedExport.IsFaithful (m : ModifiedExport) : Prop :=
  match m.transition with
  | .kindChanged => m.before.key = m.after.key ∧ m.before.kind ≠ m.after.kind
  | .namedToDefault => m.before.exportType = .named ∧ m.after.exportType = .default
  | .defaultToNamed => m.before.exportType = .default ∧ m.after.exportType = .named

namespace ExportChanges

variable {threshold : UInt8} {before after : Snapshot} {removed added : List Export} {r a : Export}
  {m : ModifiedExport}

theorem isFaithful_ofPair_iff : (ofPair r a).IsFaithful ↔ r.exportType ≠ a.exportType := by
  cases hr : r.exportType <;> cases ha : a.exportType <;>
    simp [ofPair, ModifiedExport.IsFaithful, hr, ha]

theorem isFaithful_of_mem_kindChanges (h : m ∈ kindChanges before after) : m.IsFaithful := by
  obtain ⟨⟨key, e⟩, hentry, hm⟩ := List.mem_filterMap.mp h
  obtain ⟨rfl, hget, htransition, hkinds, -⟩ := kindChange?_eq_some_iff.mp hm
  have hbefore : m.before.key = key := (mem_of_getElem?_indexBy (getElem?_of_mem_toList hentry)).2
  have hafter : m.after.key = key := (mem_of_getElem?_indexBy hget).2
  rw [ModifiedExport.IsFaithful, htransition]
  exact ⟨hbefore.trans hafter.symm, hkinds⟩

/-! ## Pairs -/

theorem pairingScore_eq_zero (h : r.exportType = a.exportType) : pairingScore r a = 0 :=
  if_pos h

/-- Only exports of two types score, so a pair that needs some score has two types. -/
theorem exportType_ne_of_qualifies (hpos : 0 < threshold) (h : Qualifies threshold r a) :
    r.exportType ≠ a.exportType := by
  intro htypes
  have hscore := h.2.2
  rw [pairingScore_eq_zero htypes, UInt8.le_zero_iff] at hscore
  exact UInt8.pos_iff_ne_zero.mp hpos hscore

theorem qualifies_of_mem_pairs (h : (r, a) ∈ pairs threshold removed added) : Qualifies threshold r a := by
  obtain ⟨-, hpartner⟩ := mem_pairs_iff_partner?.mp h
  obtain ⟨hadded, -⟩ := partner?_eq_some_iff_filter.mp hpartner
  have ha : a ∈ added.filter (qualifies threshold r) := by rw [hadded, List.mem_singleton]
  exact qualifies_iff.mp (List.mem_filter.mp ha).2

theorem qualifies_zero : qualifies 0 r a = (isPairable r && isPairable a) := by
  simp [qualifies]

theorem filter_qualifies_zero_left (h : isPairable r = true) :
    added.filter (qualifies 0 r) = added.filter isPairable :=
  List.filter_congr fun new _ => by rw [qualifies_zero, h, Bool.true_and]

theorem filter_qualifies_zero_right (h : isPairable a = true) :
    removed.filter (qualifies 0 · a) = removed.filter isPairable :=
  List.filter_congr fun old _ => by rw [qualifies_zero, h, Bool.and_true]

/-- Without a score to reach, two exports are a pair when no others can be paired at all. -/
theorem mem_pairs_zero : (r, a) ∈ pairs 0 removed added ↔
    removed.filter isPairable = [r] ∧ added.filter isPairable = [a] := by
  constructor
  · intro hp
    have hq := qualifies_iff.mpr (qualifies_of_mem_pairs hp)
    rw [qualifies_zero, Bool.and_eq_true] at hq
    obtain ⟨hr, hpartner⟩ := mem_pairs_iff_partner?.mp hp
    rw [partner?_eq_some_iff_filter, filter_qualifies_zero_left hq.1, filter_qualifies_zero_right hq.2,
      List.length_eq_one_iff] at hpartner
    obtain ⟨hadded, old, hold⟩ := hpartner
    have hr : r ∈ removed.filter isPairable := List.mem_filter.mpr ⟨hr, hq.1⟩
    rw [hold, List.mem_singleton] at hr
    exact ⟨by rw [hold, hr], hadded⟩
  · rintro ⟨hremoved, hadded⟩
    have hr : r ∈ removed.filter isPairable := by rw [hremoved, List.mem_singleton]
    have ha : a ∈ added.filter isPairable := by rw [hadded, List.mem_singleton]
    obtain ⟨hr, hpr⟩ := List.mem_filter.mp hr
    obtain ⟨-, hpa⟩ := List.mem_filter.mp ha
    rw [mem_pairs_iff_partner?, partner?_eq_some_iff_filter, filter_qualifies_zero_left hpr,
      filter_qualifies_zero_right hpa, hremoved]
    exact ⟨hr, hadded, rfl⟩

/-! ## Modifications -/

/-- The exports of `here` that `there` lacks and that can be paired. -/
def candidates (here there : Snapshot) : List Export :=
  (onlyIn here there).filter isPairable

theorem forall_isFaithful_iff : (∀ m ∈ (between threshold before after).modified, m.IsFaithful) ↔
    ∀ r a, (r, a) ∈ transitions threshold before after → r.exportType ≠ a.exportType := by
  rw [modified_eq]
  constructor
  · intro h r a hp
    exact isFaithful_ofPair_iff.mp (h _ (List.mem_append_right _ (List.mem_map_of_mem hp)))
  · intro h m hm
    rcases List.mem_append.mp hm with hm | hm
    · exact isFaithful_of_mem_kindChanges hm
    · obtain ⟨⟨r, a⟩, hp, rfl⟩ := List.mem_map.mp hm
      exact isFaithful_ofPair_iff.mpr (h r a hp)

/-- Every modification is what it is said to be, unless no score is asked for and one export that can be
paired is gone and one of the same type is new. -/
theorem modified_faithful_iff (threshold : UInt8) (before after : Snapshot) :
    (∀ m ∈ (between threshold before after).modified, m.IsFaithful) ↔
      ¬(threshold = 0 ∧ ∃ r a, candidates before after = [r] ∧ candidates after before = [a] ∧
        r.exportType = a.exportType) := by
  rw [forall_isFaithful_iff]
  by_cases hzero : threshold = 0
  · subst hzero
    simp only [transitions, mem_pairs_zero, true_and, not_exists, not_and, candidates, Ne, and_imp]
  · have hpos : 0 < threshold := UInt8.pos_iff_ne_zero.mpr hzero
    refine iff_of_true (fun r a hp => ?_) fun h => hzero h.1
    exact exportType_ne_of_qualifies hpos (qualifies_of_mem_pairs hp)

/-- A named export that is gone and another one that is new, with a score to reach and without. -/
theorem modified_faithful_iff_of_named :
    let before : Snapshot :=
      { filePath := "m.js", language := .javaScript, status := .parsed
        exports := [.named "a" 1 .binding .declarative] }
    let after : Snapshot :=
      { filePath := "m.js", language := .javaScript, status := .parsed
        exports := [.named "b" 1 .binding .declarative] }
    (¬∀ m ∈ (between 0 before after).modified, m.IsFaithful) ∧
      ∀ m ∈ (between 1 before after).modified, m.IsFaithful := by
  intro before after
  have hremoved : candidates before after = before.exports := by decide +kernel
  have hadded : candidates after before = after.exports := by decide +kernel
  constructor
  · rw [modified_faithful_iff, not_not]
    exact ⟨rfl, _, _, hremoved, hadded, rfl⟩
  · rw [modified_faithful_iff]
    exact fun h => absurd h.1 (by decide)

end ExportChanges

end ApiImpact

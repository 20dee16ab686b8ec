import Mathlib.Data.List.Perm.Basic
import ApiImpact.Change.ExportSurface
import ApiImpact.Proofs.Change.Index

/-!
# Which exports count as removed, added and modified

Every export that is on one side only is accounted for once: on its own, or as one half of a pair. Pairs
are made of exports that have no other candidate, so no export is in two of them.
-/

namespace ApiImpact

/-- The export is in `here`, and `there` has none of its identity. -/
def Export.OnlyIn (e : Export) (here there : Snapshot) : Prop :=
  e ∈ here.exports ∧ ∀ other ∈ there.exports, other.key ≠ e.key

namespace ExportChanges

variable {threshold : UInt8} {before after : Snapshot} {removed added : List Export} {r a e : Export}
  {m : ModifiedExport}

/-! ## Pairs -/

/-- Both exports are the module's own, and together they score enough. -/
def Qualifies (threshold : UInt8) (r a : Export) : Prop :=
  (r.sourceModule = none ∧ r.kind ≠ .star) ∧ (a.sourceModule = none ∧ a.kind ≠ .star) ∧
    threshold ≤ pairingScore r a

theorem qualifies_iff : qualifies threshold r a = true ↔ Qualifies threshold r a := by
  simp [qualifies, isPairable, Qualifies, and_assoc]

theorem filter_eq_singleton_iff {p : Export → Bool} {exports : List Export} (h : exports.Nodup) :
    exports.filter p = [e] ↔ e ∈ exports ∧ p e = true ∧ ∀ other ∈ exports, p other = true → other = e := by
  constructor
  · intro heq
    have hm (other : Export) : other ∈ exports ∧ p other = true ↔ other = e := by
      rw [← List.mem_filter, heq, List.mem_singleton]
    obtain ⟨he, hp⟩ := (hm e).mpr rfl
    exact ⟨he, hp, fun other ho hpo => (hm other).mp ⟨ho, hpo⟩⟩
  · rintro ⟨he, hp, honly⟩
    refine List.perm_singleton.mp ((List.perm_ext_iff_of_nodup (h.filter p) (List.nodup_singleton e)).mpr ?_)
    intro other
    rw [List.mem_filter, List.mem_singleton]
    constructor
    · rintro ⟨ho, hpo⟩
      exact honly other ho hpo
    · rintro rfl
      exact ⟨he, hp⟩

/-- The exports are candidates for each other, and neither has another one. -/
@[mk_iff]
structure Mutual (threshold : UInt8) (removed added : List Export) (r a : Export) : Prop where
  qualifies : Qualifies threshold r a
  only_added : ∀ new ∈ added, Qualifies threshold r new → new = a
  only_removed : ∀ old ∈ removed, Qualifies threshold old a → old = r

theorem partner?_eq_some_iff_filter :
    partner? threshold removed added r = some a ↔
      added.filter (qualifies threshold r) = [a] ∧
        (removed.filter (qualifies threshold · a)).length = 1 := by
  unfold partner?
  split
  · next new heq =>
      rw [heq, Option.ite_none_right_eq_some]
      constructor
      · rintro ⟨hlen, hnew⟩
        cases hnew
        exact ⟨rfl, hlen⟩
      · rintro ⟨hnew, hlen⟩
        cases hnew
        exact ⟨hlen, rfl⟩
  · next hne =>
      simp only [reduceCtorEq, false_iff, not_and]
      exact fun heq => absurd heq (hne a)

theorem partner?_eq_some_iff (hr : removed.Nodup) (ha : added.Nodup) (hm : r ∈ removed) :
    partner? threshold removed added r = some a ↔ a ∈ added ∧ Mutual threshold removed added r a := by
  rw [partner?_eq_some_iff_filter, filter_eq_singleton_iff ha, List.length_eq_one_iff]
  simp only [filter_eq_singleton_iff hr, qualifies_iff]
  constructor
  · rintro ⟨⟨hadded, hq, honly⟩, old, -, -, hold⟩
    refine ⟨hadded, hq, honly, fun other ho hother => ?_⟩
    rw [hold other ho hother, hold r hm hq]
  · rintro ⟨hadded, hq, honly, hold⟩
    exact ⟨⟨hadded, hq, honly⟩, r, hm, hq, hold⟩

theorem mem_pairs_iff_partner? : (r, a) ∈ pairs threshold removed added ↔
    r ∈ removed ∧ partner? threshold removed added r = some a := by
  simp only [pairs, List.mem_filterMap, Option.map_eq_some_iff, Prod.mk.injEq]
  constructor
  · rintro ⟨old, hold, new, hpartner, rfl, rfl⟩
    exact ⟨hold, hpartner⟩
  · rintro ⟨hold, hpartner⟩
    exact ⟨r, hold, a, hpartner, rfl, rfl⟩

theorem mem_pairs (hr : removed.Nodup) (ha : added.Nodup) :
    (r, a) ∈ pairs threshold removed added ↔
      r ∈ removed ∧ a ∈ added ∧ Mutual threshold removed added r a := by
  rw [mem_pairs_iff_partner?]
  exact and_congr_right fun hm => partner?_eq_some_iff hr ha hm

theorem nodup_pairs (hr : removed.Nodup) : (pairs threshold removed added).Nodup := by
  refine hr.filterMap ?_
  rintro old old' pair hp hp'
  obtain ⟨new, -, rfl⟩ := Option.map_eq_some_iff.mp hp
  obtain ⟨new', -, he⟩ := Option.map_eq_some_iff.mp hp'
  exact (congrArg Prod.fst he).symm

theorem nodup_map_fst_pairs (hr : removed.Nodup) (ha : added.Nodup) :
    ((pairs threshold removed added).map (·.1)).Nodup := by
  refine (nodup_pairs hr).map_on ?_
  rintro ⟨r, a⟩ hp ⟨_, a'⟩ hp' rfl
  obtain ⟨-, hnew, hmutual⟩ := (mem_pairs hr ha).mp hp
  obtain ⟨-, -, hmutual'⟩ := (mem_pairs hr ha).mp hp'
  rw [hmutual'.only_added a hnew hmutual.qualifies]

/-- The exports that are in no pair, with those that are in one. -/
theorem perm_unpaired_append {exports paired : List Export} (h : (exports.map Export.key).Nodup)
    (hp : paired.Nodup) (hsub : paired ⊆ exports) :
    ((exports.filter fun e => !paired.any (·.key == e.key)) ++ paired).Perm exports := by
  have hany (e : Export) (he : e ∈ exports) : paired.any (·.key == e.key) = true ↔ e ∈ paired := by
    simp only [List.any_eq_true, beq_iff_eq]
    constructor
    · rintro ⟨other, ho, hkey⟩
      rwa [← List.inj_on_of_nodup_map h (hsub ho) he hkey]
    · exact fun hm => ⟨e, hm, rfl⟩
  have hdisjoint : List.Disjoint (exports.filter fun e => !paired.any (·.key == e.key)) paired := by
    intro e hm hpaired
    obtain ⟨he, hnone⟩ := List.mem_filter.mp hm
    simp [(hany e he).mpr hpaired] at hnone
  refine (List.perm_ext_iff_of_nodup ((h.of_map.filter _).append hp hdisjoint) h.of_map).mpr fun e => ?_
  rw [List.mem_append, List.mem_filter, Bool.not_eq_true', Bool.eq_false_iff, Ne]
  constructor
  · rintro (⟨he, -⟩ | hpaired)
    · exact he
    · exact hsub hpaired
  · intro he
    by_cases hpaired : e ∈ paired
    · exact .inr hpaired
    · exact .inl ⟨he, fun hm => hpaired ((hany e he).mp hm)⟩

/-- An export is accounted for once if it stands alone or in a pair, and did not only change its kind. -/
theorem count_accounted {exports alone paired changed : List Export} (hperm : (alone ++ paired).Perm exports)
    (h : exports.Nodup) (he : e ∈ exports) (hc : e ∉ changed) :
    (alone ++ (changed ++ paired)).count e = 1 := by
  calc
    _ = (alone ++ paired).count e := by simp [List.count_append, List.count_eq_zero.mpr hc]
    _ = exports.count e := hperm.count_eq e
    _ = 1 := List.count_eq_one_of_mem h he

/-! ## Kind changes -/

theorem kindChange?_eq_some_iff {others : Std.ExtTreeMap ExportKey Export} {key : ExportKey} :
    kindChange? others key e = some m ↔ m.before = e ∧ others[key]? = some m.after ∧
      m.transition = .kindChanged ∧ e.kind ≠ m.after.kind ∧ e.kind.isDefinite ∧ m.after.kind.isDefinite := by
  obtain ⟨old, new, transition⟩ := m
  simp only [kindChange?, Option.bind_eq_bind, Option.bind_eq_some_iff, Option.ite_none_right_eq_some,
    Option.some.injEq, ModifiedExport.mk.injEq]
  constructor
  · rintro ⟨after, hget, hkinds, rfl, rfl, rfl⟩
    exact ⟨rfl, hget, rfl, hkinds⟩
  · rintro ⟨rfl, hget, rfl, hkinds⟩
    exact ⟨new, hget, hkinds, rfl, rfl, rfl⟩

section

variable (threshold : UInt8) (before after : Snapshot)

/-- The exports of `here` whose identities `there` lacks, by identity. -/
def onlyIn (here there : Snapshot) : List Export :=
  unmatched Export.key here.exports there.exports

/-- The pairs of exports that are on one side only. -/
def transitions : List (Export × Export) :=
  pairs threshold (onlyIn before after) (onlyIn after before)

/-- The exports that kept their identity and refer to something of another kind. -/
def kindChanges : List ModifiedExport :=
  (indexBy Export.key before.exports).toList.filterMap fun (key, e) =>
    kindChange? (indexBy Export.key after.exports) key e

theorem modified_eq : (between threshold before after).modified =
    kindChanges before after ++ (transitions threshold before after).map fun (r, a) => ofPair r a := rfl

theorem map_was_removed : (between threshold before after).removed.map (·.was) =
    (onlyIn before after).filter
      fun e => !((transitions threshold before after).map (·.1)).any (·.key == e.key) := by
  simp [between, transitions, onlyIn, unmatched, indexBy, missing, byKey, Function.comp_def]

theorem added_eq : (between threshold before after).added =
    (onlyIn after before).filter
      fun e => !((transitions threshold before after).map (·.2)).any (·.key == e.key) := by
  simp [between, transitions, onlyIn, unmatched, indexBy, missing, byKey, Function.comp_def]

end

section

variable (hb : (before.exports.map Export.key).Nodup) (ha : (after.exports.map Export.key).Nodup)

include hb

theorem mem_onlyIn : e ∈ onlyIn before after ↔ e.OnlyIn before after := mem_unmatched hb

theorem nodup_map_onlyIn : ((onlyIn before after).map Export.key).Nodup := nodup_map_unmatched hb

include ha

theorem mem_transitions : (r, a) ∈ transitions threshold before after ↔
    r.OnlyIn before after ∧ a.OnlyIn after before ∧
      Mutual threshold (onlyIn before after) (onlyIn after before) r a := by
  rw [transitions, mem_pairs (nodup_map_onlyIn hb).of_map (nodup_map_onlyIn ha).of_map, mem_onlyIn hb,
    mem_onlyIn ha]

theorem mem_kindChanges : m ∈ kindChanges before after ↔
    m.before ∈ before.exports ∧ m.after ∈ after.exports ∧ m.after.key = m.before.key ∧
      m.transition = .kindChanged ∧ m.before.kind ≠ m.after.kind ∧ m.before.kind.isDefinite ∧
        m.after.kind.isDefinite := by
  simp only [kindChanges, List.mem_filterMap, Prod.exists, mem_toList_indexBy hb, kindChange?_eq_some_iff,
    getElem?_indexBy ha]
  constructor
  · rintro ⟨_, _, ⟨hm, rfl⟩, rfl, ⟨hm', hkey⟩, hrest⟩
    exact ⟨hm, hm', hkey, hrest⟩
  · rintro ⟨hm, hm', hkey, hrest⟩
    exact ⟨_, _, ⟨hm, rfl⟩, rfl, ⟨hm', hkey⟩, hrest⟩

/-- The removed exports and those that became another one. -/
theorem perm_removed : ((between threshold before after).removed.map (·.was) ++
    (transitions threshold before after).map (·.1)).Perm (onlyIn before after) := by
  rw [map_was_removed]
  refine perm_unpaired_append (nodup_map_onlyIn hb)
    (nodup_map_fst_pairs (nodup_map_onlyIn hb).of_map (nodup_map_onlyIn ha).of_map) ?_
  intro e hm
  obtain ⟨⟨r, a⟩, hp, rfl⟩ := List.mem_map.mp hm
  exact (mem_onlyIn hb).mpr ((mem_transitions hb ha).mp hp).1

theorem before_ne_of_kindChanges (h : r.OnlyIn before after) (hm : m ∈ kindChanges before after) :
    m.before ≠ r := by
  rintro rfl
  obtain ⟨-, hafter, hkey, -⟩ := (mem_kindChanges hb ha).mp hm
  exact h.2 _ hafter hkey

theorem count_removed (h : r.OnlyIn before after) :
    ((between threshold before after).removed.map (·.was) ++
      (between threshold before after).modified.map (·.before)).count r = 1 := by
  rw [modified_eq, List.map_append, List.map_map]
  refine count_accounted (perm_removed hb ha) (nodup_map_onlyIn hb).of_map ((mem_onlyIn hb).mpr h) ?_
  intro hm
  obtain ⟨m, hm, he⟩ := List.mem_map.mp hm
  exact before_ne_of_kindChanges hb ha h hm he

theorem removed_or_modified (h : e.OnlyIn before after) :
    (∃ r ∈ (between threshold before after).removed, r.was = e) ∨
      ∃ m ∈ (between threshold before after).modified, m.before = e := by
  have hm : e ∈ (between threshold before after).removed.map (·.was) ++
      (between threshold before after).modified.map (·.before) :=
    List.count_pos_iff.mp (by rw [count_removed hb ha h]; exact Nat.one_pos)
  rwa [List.mem_append, List.mem_map, List.mem_map] at hm

end

end ExportChanges

end ApiImpact

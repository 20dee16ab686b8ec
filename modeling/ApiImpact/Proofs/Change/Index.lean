import Mathlib.Data.List.Induction
import Mathlib.Data.List.Nodup
import Std.Data.ExtTreeMap

/-!
# Entries by key

Two lists are compared by putting the entries of each into a map. When no two entries of a list have one
key, the map holds just the entries of the list.
-/

namespace ApiImpact

section

variable {α κ : Type} [Ord κ] [Std.TransOrd κ] [Std.LawfulEqOrd κ] {key : α → κ} {xs ys : List α} {x : α}

/-- The entries of a list by key; of several with one key the last counts. -/
def indexBy (key : α → κ) (xs : List α) : Std.ExtTreeMap κ α :=
  .ofList (xs.map fun x => (key x, x))

/-- The entries of `xs` without an entry of that key among `ys`, by key. -/
def unmatched (key : α → κ) (xs ys : List α) : List α :=
  ((indexBy key xs).toList.filter fun (k, _) => !(indexBy key ys).contains k).map (·.2)

theorem contains_indexBy {k : κ} : (indexBy key xs).contains k = true ↔ ∃ x ∈ xs, key x = k := by
  classical
  simp [indexBy, Std.ExtTreeMap.contains_ofList]

theorem getElem?_indexBy_eq_none {k : κ} : (indexBy key xs)[k]? = none ↔ ∀ x ∈ xs, key x ≠ k := by
  rw [← Option.not_isSome_iff_eq_none, ← Std.ExtTreeMap.contains_eq_isSome_getElem?, contains_indexBy]
  exact ⟨fun h x hx he => h ⟨x, hx, he⟩, fun h ⟨x, hx, he⟩ => h x hx he⟩

theorem exists_mem_toList_indexBy {k : κ} (hx : x ∈ xs) (hk : key x = k) :
    ∃ y, (k, y) ∈ (indexBy key xs).toList := by
  cases hg : (indexBy key xs)[k]? with
  | none => exact absurd hk (getElem?_indexBy_eq_none.mp hg x hx)
  | some y => exact ⟨y, Std.ExtTreeMap.mem_toList_iff_getElem?_eq_some.mpr hg⟩

omit [Std.LawfulEqOrd κ] in
theorem indexBy_concat (xs : List α) (x : α) :
    indexBy key (xs ++ [x]) = (indexBy key xs).insert (key x) x := by
  simp [indexBy, Std.ExtTreeMap.ofList_eq_insertMany_empty, Std.ExtTreeMap.insertMany_append]

theorem mem_of_getElem?_indexBy {k : κ} (h : (indexBy key xs)[k]? = some x) : x ∈ xs ∧ key x = k := by
  induction xs using List.reverseRecOn with
  | nil => simp [indexBy] at h
  | append_singleton xs y ih =>
      rw [indexBy_concat, Std.ExtTreeMap.getElem?_insert] at h
      split_ifs at h with hk
      · cases h
        exact ⟨by simp, Std.LawfulEqOrd.eq_of_compare hk⟩
      · obtain ⟨hx, hkey⟩ := ih h
        exact ⟨List.mem_append_left _ hx, hkey⟩

/-- The last entry of a key counts. -/
theorem getElem?_indexBy_eq_some_iff {k : κ} : (indexBy key xs)[k]? = some x ↔
    key x = k ∧ ∃ front rest, xs = front ++ x :: rest ∧ ∀ y ∈ rest, key y ≠ k := by
  induction xs using List.reverseRecOn with
  | nil => simp [indexBy]
  | append_singleton xs last ih =>
      rw [indexBy_concat, Std.ExtTreeMap.getElem?_insert]
      split_ifs with hk
      · obtain rfl : key last = k := Std.LawfulEqOrd.eq_of_compare hk
        constructor
        · rintro ⟨⟩
          exact ⟨rfl, xs, [], rfl, by simp⟩
        · rintro ⟨-, front, rest, he, hrest⟩
          rcases List.eq_nil_or_concat rest with rfl | ⟨rest, y, rfl⟩
          · exact congrArg some (List.singleton_inj.mp (List.append_inj' he rfl).2)
          · rw [List.concat_eq_append, ← List.cons_append, ← List.append_assoc] at he
            obtain rfl : last = y := List.singleton_inj.mp (List.append_inj' he rfl).2
            exact absurd rfl (hrest last (by simp))
      · have hne : key last ≠ k := fun he => hk (he ▸ Std.ReflOrd.compare_self)
        rw [ih]
        refine and_congr_right fun hx => ?_
        constructor
        · rintro ⟨front, rest, rfl, hrest⟩
          refine ⟨front, rest ++ [last], by simp, ?_⟩
          simpa [or_imp, forall_and] using ⟨hrest, hne⟩
        · rintro ⟨front, rest, he, hrest⟩
          rcases List.eq_nil_or_concat rest with rfl | ⟨rest, y, rfl⟩
          · obtain rfl : last = x := List.singleton_inj.mp (List.append_inj' he rfl).2
            exact absurd hx hne
          · rw [List.concat_eq_append, ← List.cons_append, ← List.append_assoc] at he
            obtain ⟨rfl, -⟩ := List.append_inj' he rfl
            exact ⟨front, rest, rfl, fun z hz => hrest z (by simp [hz])⟩

theorem getElem?_indexBy {k : κ} (h : (xs.map key).Nodup) :
    (indexBy key xs)[k]? = some x ↔ x ∈ xs ∧ key x = k := by
  constructor
  · exact mem_of_getElem?_indexBy
  · rintro ⟨hx, rfl⟩
    -- With distinct keys no entry takes the place of an earlier one.
    refine Std.ExtTreeMap.getElem?_ofList_of_mem Std.ReflOrd.compare_self ?_ (List.mem_map_of_mem hx)
    rw [List.pairwise_map]
    exact (List.pairwise_map.mp h).imp fun hne he => hne (Std.LawfulEqOrd.eq_of_compare he)

theorem mem_toList_indexBy {k : κ} (h : (xs.map key).Nodup) :
    (k, x) ∈ (indexBy key xs).toList ↔ x ∈ xs ∧ key x = k := by
  rw [Std.ExtTreeMap.mem_toList_iff_getElem?_eq_some, getElem?_indexBy h]

theorem mem_unmatched (h : (xs.map key).Nodup) :
    x ∈ unmatched key xs ys ↔ x ∈ xs ∧ ∀ y ∈ ys, key y ≠ key x := by
  simp only [unmatched, List.mem_map, List.mem_filter, Prod.exists, Bool.not_eq_true',
    Bool.eq_false_iff, Ne, contains_indexBy]
  constructor
  · rintro ⟨k, x, ⟨hm, hnone⟩, rfl⟩
    obtain ⟨hx, rfl⟩ := (mem_toList_indexBy h).mp hm
    exact ⟨hx, fun y hy he => hnone ⟨y, hy, he⟩⟩
  · rintro ⟨hx, hnone⟩
    exact ⟨key x, x, ⟨(mem_toList_indexBy h).mpr ⟨hx, rfl⟩, fun ⟨y, hy, he⟩ => hnone y hy he⟩, rfl⟩

theorem nodup_map_unmatched (h : (xs.map key).Nodup) : ((unmatched key xs ys).map key).Nodup := by
  have hkeys : (unmatched key xs ys).map key =
      ((indexBy key xs).toList.filter fun (k, _) => !(indexBy key ys).contains k).map (·.1) := by
    rw [unmatched, List.map_map]
    refine List.map_congr_left fun entry hm => ?_
    exact ((mem_toList_indexBy h).mp (List.mem_filter.mp hm).1).2
  rw [hkeys]
  refine (List.filter_sublist.map _).nodup ?_
  rw [Std.ExtTreeMap.map_fst_toList_eq_keys]
  exact Std.ExtTreeMap.nodup_keys

theorem getElem?_of_mem_toList {map : Std.ExtTreeMap κ α} {k : κ} (h : (k, x) ∈ map.toList) :
    map[k]? = some x :=
  Std.ExtTreeMap.mem_toList_iff_getElem?_eq_some.mp h

theorem contains_of_mem_toList {map : Std.ExtTreeMap κ α} {k : κ} (h : (k, x) ∈ map.toList) :
    map.contains k = true := by
  rw [Std.ExtTreeMap.contains_eq_isSome_getElem?, getElem?_of_mem_toList h, Option.isSome_some]

/-- With distinct keys the order of the entries does not count. -/
theorem indexBy_perm (h : (xs.map key).Nodup) (hperm : ys.Perm xs) : indexBy key ys = indexBy key xs := by
  have hys : (ys.map key).Nodup := (hperm.map key).nodup_iff.mpr h
  refine Std.ExtTreeMap.ext_getElem? fun k => Option.ext fun x => ?_
  rw [getElem?_indexBy hys, getElem?_indexBy h, hperm.mem_iff]

/-! ## Lists that look alike -/

variable {β : Type} {view : α → β}

/-- Every entry of one list has an entry of its key in the other list, and entries of one key look alike, as
far as `view` shows them. -/
structure Correspond (key : α → κ) (view : α → β) (xs ys : List α) : Prop where
  right : ∀ x ∈ xs, ∃ y ∈ ys, key y = key x
  left : ∀ y ∈ ys, ∃ x ∈ xs, key x = key y
  alike : ∀ x ∈ xs, ∀ y ∈ ys, key x = key y → view x = view y

/-- The entries that count for a key look alike, for every key that one of the lists has. -/
def LookAlike (key : α → κ) (view : α → β) (xs ys : List α) : Prop :=
  ∀ k : κ, ((indexBy key xs)[k]?).map view = ((indexBy key ys)[k]?).map view

omit [Std.LawfulEqOrd κ] in
theorem lookAlike_self (key : α → κ) (view : α → β) (xs : List α) : LookAlike key view xs xs :=
  fun _ => rfl

omit [Std.LawfulEqOrd κ] in
theorem LookAlike.symm (h : LookAlike key view xs ys) : LookAlike key view ys xs :=
  fun k => (h k).symm

theorem Correspond.lookAlike (h : Correspond key view xs ys) : LookAlike key view xs ys := by
  intro k
  cases hx : (indexBy key xs)[k]? with
  | none =>
      have hy : (indexBy key ys)[k]? = none := by
        refine getElem?_indexBy_eq_none.mpr fun y hy hk => ?_
        obtain ⟨x, hmem, hkey⟩ := h.left y hy
        exact getElem?_indexBy_eq_none.mp hx x hmem (hkey.trans hk)
      rw [hy]
  | some x =>
      obtain ⟨hmem, rfl⟩ := mem_of_getElem?_indexBy hx
      obtain ⟨y, hy, hkey⟩ := h.right x hmem
      cases hg : (indexBy key ys)[key x]? with
      | none => exact absurd hkey (getElem?_indexBy_eq_none.mp hg y hy)
      | some counted =>
          obtain ⟨hcounted, hk⟩ := mem_of_getElem?_indexBy hg
          exact congrArg some (h.alike x hmem counted hcounted hk.symm)

theorem LookAlike.exists_getElem? (h : LookAlike key view xs ys) {k : κ} (hm : (k, x) ∈ (indexBy key xs).toList) :
    ∃ y, (indexBy key ys)[k]? = some y ∧ view y = view x := by
  have hk := h k
  rw [getElem?_of_mem_toList hm, Option.map_some] at hk
  exact Option.map_eq_some_iff.mp hk.symm

theorem LookAlike.unmatched_eq_nil (h : LookAlike key view xs ys) : unmatched key xs ys = [] := by
  rw [unmatched, List.map_eq_nil_iff, List.filter_eq_nil_iff]
  rintro ⟨k, x⟩ hm
  obtain ⟨y, hy, -⟩ := h.exists_getElem? hm
  simp [Std.ExtTreeMap.contains_eq_isSome_getElem?, hy]

end

end ApiImpact

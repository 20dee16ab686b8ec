import Mathlib.Data.List.Basic
import Mathlib.Tactic.SplitIfs
import ApiImpact.Change.Parameter

/-!
# Calls that go on being accepted

A typed parameter list accepts the calls that reach its last required parameter and do not go beyond its last one,
unless that takes the rest. Where no change of a list is found its calls go on being accepted, with one exception:
behind a parameter that takes the rest no required parameter is looked for.
-/

namespace ApiImpact

namespace Parameter

variable {params : List Parameter} {count : Nat}

/-- The position of the last parameter that callers have to supply, counted from one; zero if there is none. -/
def leastCount : List Parameter → Nat
  | [] => 0
  | p :: params => if leastCount params = 0 ∧ p.isRequired = false then 0 else leastCount params + 1

/-- A call with `count` arguments reaches all parameters that it has to, and finds a place for every argument. -/
def Accept (params : List Parameter) (count : Nat) : Prop :=
  leastCount params ≤ count ∧ (count ≤ params.length ∨ params.any (·.rest) = true)

instance (params : List Parameter) (count : Nat) : Decidable (Accept params count) :=
  inferInstanceAs (Decidable (_ ∧ _))

theorem leastCount_le_iff : leastCount params ≤ count ↔ ∀ p ∈ params.drop count, p.isRequired = false := by
  induction params generalizing count with
  | nil => simp [leastCount]
  | cons p params ih =>
      have hrest : leastCount params = 0 ↔ ∀ q ∈ params, q.isRequired = false := by
        rw [← Nat.le_zero, ih, List.drop_zero]
      rw [leastCount]
      cases count with
      | zero =>
          rw [List.drop_zero, List.forall_mem_cons, ← hrest]
          split_ifs with h
          · simp [h]
          · simpa [and_comm] using h
      | succ count =>
          rw [List.drop_succ_cons, ← ih]
          split_ifs with h
          · simp [h.1]
          · exact Nat.add_le_add_iff_right

theorem leastCount_le_length (params : List Parameter) : leastCount params ≤ params.length :=
  leastCount_le_iff.mpr (by simp)

end Parameter

namespace ParameterChange

variable {before after : List Parameter}

/-- What two lists have in common between which no change is found. -/
structure Silent (before after : List Parameter) : Prop where
  length_le : before.length ≤ after.length
  rest : before.any (·.rest) = true → after.any (·.rest) = true
  pairs : ∀ pair ∈ before.zip after, pair.1.isRequired = false → pair.2.isRequired = false
  added : before.getLast?.any (·.rest) = false → ∀ p ∈ after.drop before.length, p.isRequired = false

theorem silent_of_ofLists (h : ofLists true before after = []) : Silent before after := by
  simp only [ofLists, if_true, List.append_eq_nil_iff, List.flatMap_eq_nil_iff, ite_eq_right_iff,
    List.cons_ne_nil, imp_false] at h
  obtain ⟨⟨⟨hlength, hrest⟩, hpairs⟩, hadded⟩ := h
  refine ⟨Nat.not_lt.mp hlength, fun hb => ?_, fun pair hm hold => ?_, fun hlast p hp => ?_⟩
  · simpa [hb] using hrest
  · have hpair := (List.append_eq_nil_iff.mp (hpairs pair hm)).1
    simpa [hold] using hpair
  · rw [ofAdded, hlast, if_neg Bool.false_ne_true, List.map_eq_nil_iff, List.filter_eq_nil_iff] at hadded
    simpa using hadded p hp

theorem Silent.leastCount_le (h : Silent before after)
    (hadded : ∀ p ∈ after.drop before.length, p.isRequired = false) :
    Parameter.leastCount after ≤ Parameter.leastCount before := by
  rw [Parameter.leastCount_le_iff]
  intro p hp
  obtain ⟨i, hi, rfl⟩ := List.mem_drop_iff_getElem.mp hp
  by_cases hshared : Parameter.leastCount before + i < before.length
  · have hold : before[Parameter.leastCount before + i].isRequired = false :=
      Parameter.leastCount_le_iff.mp (Nat.le_refl _) _ (List.mem_drop_iff_getElem.mpr ⟨i, by omega, rfl⟩)
    refine h.pairs (_, _) ?_ hold
    exact List.mem_iff_getElem.mpr ⟨_, by rw [List.length_zip]; omega, List.getElem_zip⟩
  · refine hadded _ (List.mem_drop_iff_getElem.mpr ⟨Parameter.leastCount before + i - before.length, ?_, ?_⟩)
    · omega
    · congr 1
      omega

theorem Silent.accept (h : Silent before after) (hadded : ∀ p ∈ after.drop before.length, p.isRequired = false)
    {count : Nat} (haccept : Parameter.Accept before count) : Parameter.Accept after count := by
  refine ⟨Nat.le_trans (h.leastCount_le hadded) haccept.1, ?_⟩
  rcases haccept.2 with hcount | hrest
  · exact .inl (Nat.le_trans hcount h.length_le)
  · exact .inr (h.rest hrest)

theorem accept_length (params : List Parameter) : Parameter.Accept params params.length :=
  ⟨Parameter.leastCount_le_length params, .inl (Nat.le_refl _)⟩

/-- Where no change is found between two typed lists, the second accepts all calls that the first one accepts, unless
the first one ends with a parameter that takes the rest and the second one has a required parameter behind that
place. -/
theorem calls_accepted_iff (h : ofLists true before after = []) :
    (∀ count, Parameter.Accept before count → Parameter.Accept after count) ↔
      (before.getLast?.any (·.rest) = true → ∀ p ∈ after.drop before.length, p.isRequired = false) := by
  have hsilent := silent_of_ofLists h
  constructor
  · intro hall _
    -- A call that gives every old parameter one argument has to do without the ones behind them.
    exact Parameter.leastCount_le_iff.mp (hall before.length (accept_length before)).1
  · intro hrest count haccept
    refine hsilent.accept ?_ haccept
    cases hlast : before.getLast?.any (·.rest) with
    | true => exact hrest hlast
    | false => exact hsilent.added hlast

/-- A parameter with a default takes the place of the rest, and a required one comes before the rest. -/
theorem calls_not_accepted :
    let before : List Parameter :=
      [{ name := "a", declaredType := some "string" }, { name := "rest", declaredType := some "number[]", rest := true }]
    let after : List Parameter :=
      [{ name := "a", declaredType := some "string" }, { name := "b", hasDefault := true },
        { name := "c", declaredType := some "number" }, { name := "rest", declaredType := some "number[]", rest := true }]
    ofLists true before after = [] ∧ ¬ ∀ count, Parameter.Accept before count → Parameter.Accept after count := by
  intro before after
  have hnone : ofLists true before after = [] := by decide
  refine ⟨hnone, fun hall => ?_⟩
  exact absurd ((calls_accepted_iff hnone).mp hall (by decide)) (by decide)

end ParameterChange

end ApiImpact

/-!
# Results that may be errors
-/

namespace ApiImpact

variable {ε α β : Type} {x : Except ε α} {f : α → Except ε β} {b : β}

/-- A computation of two steps succeeds when both of them do. -/
theorem bind_eq_ok_iff : x >>= f = .ok b ↔ ∃ a, x = .ok a ∧ f a = .ok b := by
  cases x with
  | error cause => exact iff_of_false nofun nofun
  | ok a =>
      constructor
      · exact fun h => ⟨a, rfl, h⟩
      · rintro ⟨_, ⟨⟩, h⟩
        exact h

theorem isOk_iff : x.isOk = true ↔ ∃ a, x = .ok a := by
  cases x with
  | error cause => exact iff_of_false nofun nofun
  | ok a => exact iff_of_true rfl ⟨a, rfl⟩

/-! ## What a computation gives if it succeeds -/

/-- Every result of `x` has the property `P`. -/
def Gives (P : α → Prop) (x : Except ε α) : Prop :=
  ∀ a, x = .ok a → P a

section Gives

variable {P Q : α → Prop} {R : β → Prop} {a : α} {σ : Type} {step : α → σ → Except ε α} {entries : List σ}

theorem gives_pure (h : P a) : Gives P (pure a : Except ε α) := by
  rintro _ ⟨⟩
  exact h

theorem gives_bind (h : ∀ a, x = .ok a → Gives R (f a)) : Gives R (x >>= f) := by
  intro b hb
  obtain ⟨a, ha, hb⟩ := bind_eq_ok_iff.mp hb
  exact h a ha b hb

theorem Gives.bind (h : Gives P x) (hf : ∀ a, P a → Gives R (f a)) : Gives R (x >>= f) :=
  gives_bind fun a ha => hf a (h a ha)

/-- What every step keeps, the whole run keeps. -/
theorem gives_foldlM (hstep : ∀ entry ∈ entries, ∀ a, P a → Gives P (step a entry)) (h : P a) :
    Gives P (entries.foldlM step a) := by
  induction entries generalizing a with
  | nil => exact gives_pure h
  | cons entry entries ih =>
      rw [List.foldlM_cons]
      exact Gives.bind (hstep entry List.mem_cons_self a h) fun a' h' =>
        ih (fun entry' he => hstep entry' (List.mem_cons_of_mem _ he)) h'

end Gives

/-! ## What a computation is sure to give -/

/-- `x` succeeds, and its result has the property `P`. -/
def Succeeds (P : α → Prop) (x : Except ε α) : Prop :=
  ∃ a, x = .ok a ∧ P a

section Succeeds

variable {P Q : α → Prop} {R : β → Prop} {a : α} {σ : Type} {step : α → σ → Except ε α} {entries : List σ}

theorem succeeds_pure (h : P a) : Succeeds P (pure a : Except ε α) := ⟨a, rfl, h⟩

theorem Succeeds.bind (h : Succeeds P x) (hf : ∀ a, P a → Succeeds R (f a)) : Succeeds R (x >>= f) := by
  obtain ⟨a, ha, hP⟩ := h
  obtain ⟨b, hb, hR⟩ := hf a hP
  exact ⟨b, bind_eq_ok_iff.mpr ⟨a, ha, hb⟩, hR⟩

theorem succeeds_of_eq (h : x = .ok a) : Succeeds (· = a) x := ⟨a, h, rfl⟩

theorem Succeeds.mono (h : Succeeds P x) (hPQ : ∀ a, P a → Q a) : Succeeds Q x := by
  obtain ⟨a, ha, hP⟩ := h
  exact ⟨a, ha, hPQ a hP⟩

/-- A run succeeds if every step does, with what each of them keeps. -/
theorem succeeds_foldlM (hstep : ∀ entry ∈ entries, ∀ a, P a → Succeeds P (step a entry)) (h : P a) :
    Succeeds P (entries.foldlM step a) := by
  induction entries generalizing a with
  | nil => exact succeeds_pure h
  | cons entry entries ih =>
      rw [List.foldlM_cons]
      exact Succeeds.bind (hstep entry List.mem_cons_self a h) fun a' h' =>
        ih (fun entry' he => hstep entry' (List.mem_cons_of_mem _ he)) h'

end Succeeds

/-! ## What stops a computation -/

theorem bind_eq_error {cause : ε} (h : x = .error cause) : x >>= f = .error cause := by
  rw [h]
  rfl

theorem bind_eq_of_ok {a : α} (h : x = .ok a) : x >>= f = f a := by
  rw [h]
  rfl

/-- One step that fails from every state makes a run fail. -/
theorem exists_foldlM_eq_error {σ : Type} {step : α → σ → Except ε α} {entries : List σ} {entry : σ} (hmem : entry ∈ entries)
    (h : ∀ a, ∃ cause, step a entry = .error cause) (a : α) : ∃ cause, entries.foldlM step a = .error cause := by
  induction entries generalizing a with
  | nil => cases hmem
  | cons first entries ih =>
      rw [List.foldlM_cons]
      cases hfirst : step a first with
      | error cause => exact ⟨cause, rfl⟩
      | ok a' =>
          rcases List.mem_cons.mp hmem with rfl | hmem
          · obtain ⟨cause, hcause⟩ := h a
            rw [hcause] at hfirst
            cases hfirst
          · exact ih hmem a'

end ApiImpact

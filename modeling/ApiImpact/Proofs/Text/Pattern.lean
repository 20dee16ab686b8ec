import Mathlib.Data.List.Basic
import ApiImpact.Text.Pattern

/-!
# What patterns match

A piece of a text fits a pattern or not, by the form of the pattern alone. The search for a match succeeds
at a place just when a piece that begins there fits; which piece it takes is told for runs that stop where
their class ends.
-/

namespace ApiImpact.Text

/-- The place between `before` and `ahead`. -/
def Place.between (before ahead : List Char) : Place where
  behind := before.getLast?
  offset := byteLength before
  ahead := ahead

@[simp]
theorem Place.between_ahead (before ahead : List Char) : (between before ahead).ahead = ahead := rfl

@[simp]
theorem Place.between_offset (before ahead : List Char) :
    (between before ahead).offset = byteLength before := rfl

theorem Place.step_between (before : List Char) (c : Char) (rest : List Char) :
    (between before (c :: rest)).step c rest = between (before ++ [c]) rest := by
  simp [between, Place.step]

namespace Pattern

/-- `piece` fits the pattern where it stands between `before` and `after`; the groups grow from `groups` to
`groups'`. -/
def Fits : Pattern → Groups → (before piece after : List Char) → Groups → Prop
  | one p, groups, _, piece, _, groups' => groups' = groups ∧ ∃ c, piece = [c] ∧ p c = true
  | most p, groups, _, piece, _, groups' => groups' = groups ∧ ∀ c ∈ piece, p c = true
  | fewest p, groups, _, piece, _, groups' => groups' = groups ∧ ∀ c ∈ piece, p c = true
  | andThen first second, groups, before, piece, after, groups' => ∃ x y between, piece = x ++ y ∧
      Fits first groups before x (y ++ after) between ∧ Fits second between (before ++ x) y after groups'
  | orElse first second, groups, before, piece, after, groups' =>
      Fits first groups before piece after groups' ∨ Fits second groups before piece after groups'
  | optional inner, groups, before, piece, after, groups' =>
      Fits inner groups before piece after groups' ∨ groups' = groups ∧ piece = []
  | group index inner, groups, before, piece, after, groups' => ∃ recorded,
      Fits inner groups before piece after recorded ∧
        groups' = (index, ⟨byteLength before, byteLength (before ++ piece)⟩) :: recorded
  | empty, groups, _, piece, _, groups' => groups' = groups ∧ piece = []
  | wordEdge, groups, before, piece, after, groups' =>
      groups' = groups ∧ piece = [] ∧ atWordEdge (.between before after) = true
  | textStart, groups, before, piece, _, groups' => groups' = groups ∧ piece = [] ∧ before = []
  | textEnd, groups, _, piece, after, groups' => groups' = groups ∧ piece = [] ∧ after = []
  | lineStart, groups, before, piece, _, groups' =>
      groups' = groups ∧ piece = [] ∧ ∀ c ∈ before.getLast?, c = '\n'
  | lineEnd, groups, _, piece, after, groups' =>
      groups' = groups ∧ piece = [] ∧ ∀ c ∈ after.head?, c = '\n'

variable {α : Type} {p : Char → Bool} {groups groups' : Groups} {before piece after ahead run : List Char}
  {r : α}

/-- Whether a piece fits is told by the piece and the characters next to it. -/
theorem Fits.exists_of_neighbours {pattern : Pattern} {before' after' : List Char} {recorded : Groups}
    (h : pattern.Fits groups before piece after groups') (hbefore : before.getLast? = before'.getLast?)
    (hafter : after.head? = after'.head?) : ∃ recorded', pattern.Fits recorded before' piece after' recorded' := by
  induction pattern generalizing groups before piece after groups' before' after' recorded with
  | one p => exact ⟨recorded, rfl, h.2⟩
  | most p => exact ⟨recorded, rfl, h.2⟩
  | fewest p => exact ⟨recorded, rfl, h.2⟩
  | andThen first second ihFirst ihSecond =>
      obtain ⟨x, y, between, rfl, hx, hy⟩ := h
      obtain ⟨recordedFirst, hfirst⟩ := @ihFirst _ _ _ _ _ before' (y ++ after') recorded hx hbefore (by simp [hafter])
      obtain ⟨recordedSecond, hsecond⟩ := @ihSecond _ _ _ _ _ (before' ++ x) after' recordedFirst hy (by simp [hbefore]) hafter
      exact ⟨recordedSecond, x, y, recordedFirst, rfl, hfirst, hsecond⟩
  | orElse first second ihFirst ihSecond =>
      rcases h with h | h
      · exact (ihFirst h hbefore hafter).imp fun _ => .inl
      · exact (ihSecond h hbefore hafter).imp fun _ => .inr
  | optional inner ih =>
      rcases h with h | ⟨-, rfl⟩
      · exact (ih h hbefore hafter).imp fun _ => .inl
      · exact ⟨recorded, .inr ⟨rfl, rfl⟩⟩
  | group index inner ih =>
      obtain ⟨_, h, -⟩ := h
      obtain ⟨recordedInner, hinner⟩ := ih h hbefore hafter
      exact ⟨_, recordedInner, hinner, rfl⟩
  | empty => exact ⟨recorded, rfl, h.2⟩
  | wordEdge =>
      obtain ⟨-, hpiece, hedge⟩ := h
      refine ⟨recorded, rfl, hpiece, ?_⟩
      simpa only [atWordEdge, Place.between, hbefore, hafter] using hedge
  | textStart =>
      obtain ⟨-, hpiece, rfl⟩ := h
      exact ⟨recorded, rfl, hpiece, List.getLast?_eq_none_iff.mp hbefore.symm⟩
  | textEnd =>
      obtain ⟨-, hpiece, rfl⟩ := h
      exact ⟨recorded, rfl, hpiece, List.head?_eq_none_iff.mp hafter.symm⟩
  | lineStart => exact ⟨recorded, rfl, h.2.1, hbefore ▸ h.2.2⟩
  | lineEnd => exact ⟨recorded, rfl, h.2.1, hafter ▸ h.2.2⟩

/-! ## Whether a search succeeds -/

section Runs

variable {visit : Place → Option α}

theorem tryMost_eq_none_iff : tryMost p visit (.between before ahead) ahead = none ↔
    ∀ run after, ahead = run ++ after → (∀ c ∈ run, p c = true) →
      visit (.between (before ++ run) after) = none := by
  induction ahead generalizing before with
  | nil => simp [tryMost]
  | cons c rest ih =>
      rw [tryMost, Place.step_between]
      split_ifs with hc
      · rw [Option.or_eq_none_iff, ih]
        constructor
        · rintro ⟨hrest, hnow⟩ run after he hrun
          cases run with
          | nil =>
              rw [List.nil_append] at he
              rwa [List.append_nil, ← he]
          | cons d run =>
              obtain ⟨rfl, rfl⟩ := List.cons.inj he
              simpa using hrest run after rfl fun d hd => hrun d (by simp [hd])
        · refine fun h => ⟨fun run after he hrun => ?_, by simpa using h [] (c :: rest) rfl (by simp)⟩
          simpa using h (c :: run) after (by simp [he]) (by simpa [hc] using hrun)
      · constructor
        · rintro hnow run after he hrun
          cases run with
          | nil =>
              rw [List.nil_append] at he
              rwa [List.append_nil, ← he]
          | cons d run =>
              obtain ⟨rfl, rfl⟩ := List.cons.inj he
              exact absurd (hrun c (by simp)) hc
        · exact fun h => by simpa using h [] (c :: rest) rfl (by simp)

theorem exists_of_tryMost (h : tryMost p visit (.between before ahead) ahead = some r) :
    ∃ run after, ahead = run ++ after ∧ (∀ c ∈ run, p c = true) ∧
      visit (.between (before ++ run) after) = some r := by
  induction ahead generalizing before with
  | nil => exact ⟨[], [], rfl, by simp, by simpa [tryMost] using h⟩
  | cons c rest ih =>
      rw [tryMost, Place.step_between] at h
      split_ifs at h with hc
      · rcases Option.or_eq_some_iff.mp h with hrest | ⟨-, hnow⟩
        · obtain ⟨run, after, rfl, hrun, hvisit⟩ := ih hrest
          exact ⟨c :: run, after, rfl, by simpa [hc] using hrun, by simpa using hvisit⟩
        · exact ⟨[], c :: rest, rfl, by simp, by simpa using hnow⟩
      · exact ⟨[], c :: rest, rfl, by simp, by simpa using h⟩

/-- Lazy and greedy runs differ in preference alone. -/
theorem tryFewest_eq_none_iff : tryFewest p visit (.between before ahead) ahead = none ↔
    tryMost p visit (.between before ahead) ahead = none := by
  induction ahead generalizing before with
  | nil => simp [tryMost, tryFewest]
  | cons c rest ih =>
      rw [tryMost, tryFewest, Place.step_between]
      split_ifs with hc
      · rw [Option.or_eq_none_iff, Option.or_eq_none_iff, ih, and_comm]
      · rw [Option.or_none]

theorem exists_of_tryFewest (h : tryFewest p visit (.between before ahead) ahead = some r) :
    ∃ run after, ahead = run ++ after ∧ (∀ c ∈ run, p c = true) ∧
      visit (.between (before ++ run) after) = some r := by
  induction ahead generalizing before with
  | nil => exact ⟨[], [], rfl, by simp, by simpa [tryFewest] using h⟩
  | cons c rest ih =>
      rw [tryFewest, Place.step_between] at h
      rcases Option.or_eq_some_iff.mp h with hnow | ⟨-, hrest⟩
      · exact ⟨[], c :: rest, rfl, by simp, by simpa using hnow⟩
      · split_ifs at hrest with hc
        obtain ⟨run, after, rfl, hrun, hvisit⟩ := ih hrest
        exact ⟨c :: run, after, rfl, by simpa [hc] using hrun, by simpa using hvisit⟩

end Runs

section Search

variable {pattern : Pattern} {visit : Groups → Place → Option α} {condition : Prop}
  [Decidable condition] {q : List Char → Prop}

/-- A test of the place fits nothing, and only where it holds. -/
theorem ite_visit_eq_none_iff (hcondition : condition ↔ q ahead) :
    (if condition then visit groups (.between before ahead) else none) = none ↔
      ∀ piece after groups', ahead = piece ++ after → (groups' = groups ∧ piece = [] ∧ q after) →
        visit groups' (.between (before ++ piece) after) = none := by
  constructor
  · rintro h piece after groups' he ⟨rfl, rfl, hholds⟩
    obtain rfl : ahead = after := he
    rw [if_pos (hcondition.mpr hholds)] at h
    simpa using h
  · intro h
    split_ifs with hc
    · simpa using h [] ahead groups rfl ⟨rfl, rfl, hcondition.mp hc⟩
    · rfl

theorem exists_of_ite_visit (hcondition : condition ↔ q ahead)
    (h : (if condition then visit groups (.between before ahead) else none) = some r) :
    ∃ piece after groups', ahead = piece ++ after ∧ (groups' = groups ∧ piece = [] ∧ q after) ∧
      visit groups' (.between (before ++ piece) after) = some r := by
  split_ifs at h with hc
  exact ⟨[], ahead, groups, rfl, ⟨rfl, rfl, hcondition.mp hc⟩, by simpa using h⟩

theorem behind_isNone_iff : (Place.between before ahead).behind.isNone = true ↔ before = [] := by
  simp [Place.between]

theorem behind_all_iff : (Place.between before ahead).behind.all (· == '\n') = true ↔
    ∀ c ∈ before.getLast?, c = '\n' := by
  rw [Place.between]
  cases before.getLast? <;> simp

theorem head?_all_iff : (Place.between before ahead).ahead.head?.all (· == '\n') = true ↔
    ∀ c ∈ ahead.head?, c = '\n' := by
  rw [Place.between_ahead]
  cases ahead.head? <;> simp

/-- A search fails if it fails behind every piece that fits. -/
theorem tryAt_eq_none_iff : pattern.tryAt groups visit (.between before ahead) = none ↔
    ∀ piece after groups', ahead = piece ++ after → pattern.Fits groups before piece after groups' →
      visit groups' (.between (before ++ piece) after) = none := by
  induction pattern generalizing groups before ahead visit with
  | one p =>
      rw [tryAt.eq_1, Place.between_ahead]
      cases ahead with
      | nil =>
          simp only [true_iff]
          rintro piece after groups' he ⟨rfl, c, rfl, -⟩
          simp at he
      | cons c rest =>
          simp only [Place.step_between]
          split_ifs with hc
          · constructor
            · rintro h piece after groups' he ⟨rfl, d, rfl, -⟩
              obtain ⟨rfl, rfl⟩ := List.cons.inj he
              exact h
            · exact fun h => h [c] rest groups rfl ⟨rfl, c, rfl, hc⟩
          · simp only [true_iff]
            rintro piece after groups' he ⟨rfl, d, rfl, hd⟩
            obtain ⟨rfl, rfl⟩ := List.cons.inj he
            exact absurd hd hc
  | most p =>
      rw [tryAt, Place.between_ahead, tryMost_eq_none_iff]
      constructor
      · rintro h piece after groups' he ⟨rfl, hrun⟩
        exact h piece after he hrun
      · exact fun h run after he hrun => h run after groups he ⟨rfl, hrun⟩
  | fewest p =>
      rw [tryAt, Place.between_ahead, tryFewest_eq_none_iff, tryMost_eq_none_iff]
      constructor
      · rintro h piece after groups' he ⟨rfl, hrun⟩
        exact h piece after he hrun
      · exact fun h run after he hrun => h run after groups he ⟨rfl, hrun⟩
  | andThen first second ihFirst ihSecond =>
      rw [tryAt, ihFirst]
      constructor
      · rintro h piece after groups' rfl ⟨x, y, recorded, rfl, hx, hy⟩
        have hsecond := h x (y ++ after) recorded (by simp) hx
        simpa using ihSecond.mp hsecond y after groups' rfl hy
      · intro h x rest recorded he hx
        rw [ihSecond]
        rintro y after groups' rfl hy
        simpa using h (x ++ y) after groups' (by simp [he]) ⟨x, y, recorded, rfl, hx, hy⟩
  | orElse first second ihFirst ihSecond =>
      rw [tryAt, Option.or_eq_none_iff, ihFirst, ihSecond]
      constructor
      · rintro ⟨hfirst, hsecond⟩ piece after groups' he (hx | hy)
        · exact hfirst piece after groups' he hx
        · exact hsecond piece after groups' he hy
      · exact fun h => ⟨fun piece after groups' he hx => h piece after groups' he (.inl hx),
          fun piece after groups' he hy => h piece after groups' he (.inr hy)⟩
  | optional inner ih =>
      rw [tryAt, Option.or_eq_none_iff, ih]
      constructor
      · rintro ⟨hinner, hnow⟩ piece after groups' he (hx | ⟨rfl, rfl⟩)
        · exact hinner piece after groups' he hx
        · obtain rfl : ahead = after := he
          simpa using hnow
      · refine fun h => ⟨fun piece after groups' he hx => h piece after groups' he (.inl hx), ?_⟩
        simpa using h [] ahead groups rfl (.inr ⟨rfl, rfl⟩)
  | group index inner ih =>
      rw [tryAt, ih]
      constructor
      · rintro h piece after groups' he ⟨recorded, hx, rfl⟩
        exact h piece after recorded he hx
      · exact fun h piece after recorded he hx => h piece after _ he ⟨recorded, hx, rfl⟩
  | empty =>
      rw [tryAt]
      constructor
      · rintro h piece after groups' he ⟨rfl, rfl⟩
        obtain rfl : ahead = after := he
        simpa using h
      · exact fun h => by simpa using h [] ahead groups rfl ⟨rfl, rfl⟩
  | wordEdge => exact ite_visit_eq_none_iff (q := fun after => atWordEdge (.between before after)) .rfl
  | textStart => exact ite_visit_eq_none_iff (q := fun _ => before = []) behind_isNone_iff
  | textEnd => exact ite_visit_eq_none_iff (q := (· = [])) List.isEmpty_iff
  | lineStart =>
      exact ite_visit_eq_none_iff (q := fun _ => ∀ c ∈ before.getLast?, c = '\n') behind_all_iff
  | lineEnd =>
      exact ite_visit_eq_none_iff (q := fun after => ∀ c ∈ after.head?, c = '\n') head?_all_iff

/-- What a search finds it finds behind a piece that fits. -/
theorem exists_fits_of_tryAt (h : pattern.tryAt groups visit (.between before ahead) = some r) :
    ∃ piece after groups', ahead = piece ++ after ∧ pattern.Fits groups before piece after groups' ∧
      visit groups' (.between (before ++ piece) after) = some r := by
  induction pattern generalizing groups before ahead visit with
  | one p =>
      cases ahead with
      | nil => simp [tryAt] at h
      | cons c rest =>
          simp only [tryAt, Place.between_ahead, Place.step_between] at h
          split_ifs at h with hc
          exact ⟨[c], rest, groups, rfl, ⟨rfl, c, rfl, hc⟩, h⟩
  | most p =>
      obtain ⟨run, after, he, hrun, hvisit⟩ := exists_of_tryMost h
      exact ⟨run, after, groups, he, ⟨rfl, hrun⟩, hvisit⟩
  | fewest p =>
      obtain ⟨run, after, he, hrun, hvisit⟩ := exists_of_tryFewest h
      exact ⟨run, after, groups, he, ⟨rfl, hrun⟩, hvisit⟩
  | andThen first second ihFirst ihSecond =>
      obtain ⟨x, rest, recorded, rfl, hx, hrest⟩ := ihFirst h
      obtain ⟨y, after, groups', rfl, hy, hvisit⟩ := ihSecond hrest
      exact ⟨x ++ y, after, groups', by simp, ⟨x, y, recorded, rfl, hx, hy⟩, by simpa using hvisit⟩
  | orElse first second ihFirst ihSecond =>
      rcases Option.or_eq_some_iff.mp h with hfirst | ⟨-, hsecond⟩
      · obtain ⟨piece, after, groups', he, hx, hvisit⟩ := ihFirst hfirst
        exact ⟨piece, after, groups', he, .inl hx, hvisit⟩
      · obtain ⟨piece, after, groups', he, hy, hvisit⟩ := ihSecond hsecond
        exact ⟨piece, after, groups', he, .inr hy, hvisit⟩
  | optional inner ih =>
      rcases Option.or_eq_some_iff.mp h with hinner | ⟨-, hnow⟩
      · obtain ⟨piece, after, groups', he, hx, hvisit⟩ := ih hinner
        exact ⟨piece, after, groups', he, .inl hx, hvisit⟩
      · exact ⟨[], ahead, groups, rfl, .inr ⟨rfl, rfl⟩, by simpa using hnow⟩
  | group index inner ih =>
      obtain ⟨piece, after, recorded, he, hx, hvisit⟩ := ih h
      exact ⟨piece, after, _, he, ⟨recorded, hx, rfl⟩, hvisit⟩
  | empty =>
      rw [tryAt] at h
      exact ⟨[], ahead, groups, rfl, ⟨rfl, rfl⟩, by simpa using h⟩
  | wordEdge => exact exists_of_ite_visit (q := fun after => atWordEdge (.between before after)) .rfl h
  | textStart => exact exists_of_ite_visit (q := fun _ => before = []) behind_isNone_iff h
  | textEnd => exact exists_of_ite_visit (q := (· = [])) List.isEmpty_iff h
  | lineStart =>
      exact exists_of_ite_visit (q := fun _ => ∀ c ∈ before.getLast?, c = '\n') behind_all_iff h
  | lineEnd =>
      exact exists_of_ite_visit (q := fun after => ∀ c ∈ after.head?, c = '\n') head?_all_iff h

theorem matchAt?_eq_none_iff : pattern.matchAt? (.between before ahead) = none ↔
    ∀ piece after groups', ahead = piece ++ after → ¬ pattern.Fits [] before piece after groups' := by
  rw [matchAt?, tryAt_eq_none_iff]
  exact forall₄_congr fun piece after groups' he => by simp

theorem exists_fits_of_matchAt? {m : Match} {place : Place}
    (h : pattern.matchAt? (.between before ahead) = some (m, place)) :
    ∃ piece after, ahead = piece ++ after ∧ pattern.Fits [] before piece after m.groups ∧
      m.span = ⟨byteLength before, byteLength (before ++ piece)⟩ ∧
      place = .between (before ++ piece) after := by
  obtain ⟨piece, after, groups', he, hfits, hvisit⟩ := exists_fits_of_tryAt h
  cases hvisit
  exact ⟨piece, after, he, hfits, rfl, rfl⟩

end Search

/-! ## Where a search finds matches -/

section FindAll

variable {pattern : Pattern} {m : Match} {text front : List Char}

theorem findAllFrom_of_none_nil (h : pattern.matchAt? (.between before []) = none) :
    pattern.findAllFrom (.between before []) = [] := by
  rw [findAllFrom, h]
  rfl

theorem findAllFrom_of_none {c : Char} {rest : List Char}
    (h : pattern.matchAt? (.between before (c :: rest)) = none) :
    pattern.findAllFrom (.between before (c :: rest)) =
      pattern.findAllFrom (.between (before ++ [c]) rest) := by
  rw [findAllFrom, h]
  exact congrArg _ (Place.step_between before c rest)

/-- A search goes over a piece in which no match begins. -/
theorem findAllFrom_skip (h : ∀ front rest, piece = front ++ rest → rest ≠ [] →
      pattern.matchAt? (.between (before ++ front) (rest ++ after)) = none) :
    pattern.findAllFrom (.between before (piece ++ after)) =
      pattern.findAllFrom (.between (before ++ piece) after) := by
  induction piece generalizing before with
  | nil => simp
  | cons c rest ih =>
      have hnone := h [] (c :: rest) rfl (by simp)
      rw [List.append_nil, List.cons_append] at hnone
      rw [List.cons_append, findAllFrom_of_none hnone, ih]
      · rw [List.append_assoc, List.singleton_append]
      · rintro front rest' rfl hne
        simpa using h (c :: front) rest' rfl hne

theorem findAllFrom_of_some (hne : piece ≠ [])
    (h : pattern.matchAt? (.between before (piece ++ after)) =
      some (m, .between (before ++ piece) after)) :
    pattern.findAllFrom (.between before (piece ++ after)) =
      m :: pattern.findAllFrom (.between (before ++ piece) after) := by
  have hlength := List.length_pos_iff.mpr hne
  rw [findAllFrom, h]
  simp only [Place.between_ahead, List.length_append]
  rw [if_pos (by omega)]

/-- Induction along a search for a pattern that no empty piece fits. -/
theorem findAllFrom_induct {motive : List Char → List Char → List Match → Prop}
    (hempty : ∀ before after groups', ¬ pattern.Fits [] before [] after groups')
    (nil : ∀ before, motive before [] [])
    (skip : ∀ before c rest ms, pattern.matchAt? (.between before (c :: rest)) = none →
      motive (before ++ [c]) rest ms → motive before (c :: rest) ms)
    (take : ∀ before piece after m ms, pattern.Fits [] before piece after m.groups →
      m.span = ⟨byteLength before, byteLength (before ++ piece)⟩ →
      motive (before ++ piece) after ms → motive before (piece ++ after) (m :: ms))
    (before ahead : List Char) : motive before ahead (pattern.findAllFrom (.between before ahead)) := by
  induction hn : ahead.length using Nat.strongRecOn generalizing before ahead with
  | _ n ih =>
      cases hmatch : pattern.matchAt? (.between before ahead) with
      | none =>
          cases ahead with
          | nil =>
              rw [findAllFrom_of_none_nil hmatch]
              exact nil before
          | cons c rest =>
              rw [findAllFrom_of_none hmatch]
              exact skip before c rest _ hmatch (ih rest.length (by simp [← hn]) _ _ rfl)
      | some found =>
          obtain ⟨m, place⟩ := found
          obtain ⟨piece, after, rfl, hfits, hspan, rfl⟩ := exists_fits_of_matchAt? hmatch
          have hne : piece ≠ [] := by
            rintro rfl
            exact hempty _ _ _ hfits
          have hlength := List.length_pos_iff.mpr hne
          rw [findAllFrom_of_some hne hmatch]
          exact take before piece after m _ hfits hspan
            (ih after.length (by rw [← hn, List.length_append]; omega) _ _ rfl)

theorem getLast?_of_append {q : Char → Prop} {back : List Char} (h : ∀ c ∈ (front ++ back).getLast?, q c) :
    ∀ c ∈ back.getLast?, q c := by
  cases back with
  | nil => simp
  | cons d back => rwa [List.getLast?_append_of_ne_nil _ (List.cons_ne_nil d back)] at h

theorem forall_getLast?_append {q : Char → Prop} {back : List Char} (hfront : ∀ c ∈ front.getLast?, q c)
    (hback : ∀ c ∈ back.getLast?, q c) : ∀ c ∈ (front ++ back).getLast?, q c := by
  cases back with
  | nil => rwa [List.append_nil]
  | cons d back => rwa [List.getLast?_append_of_ne_nil _ (List.cons_ne_nil d back)]

/-- What has a sign at its end only does not go on behind code that ends with the sign. -/
theorem exists_append_of_dropLast {sign : Char} {code rest piece after : List Char} (hne : code ≠ [])
    (hcode : ∀ c ∈ code.getLast?, c = sign) (hsign : sign ∉ piece.dropLast) (he : code ++ rest = piece ++ after) :
    ∃ more, code = piece ++ more ∧ after = more ++ rest := by
  rcases List.append_eq_append_iff.mp he with ⟨more, rfl, hrest⟩ | hsplit
  · cases more with
    | nil => exact ⟨[], by simp, hrest.symm⟩
    | cons d more =>
        have hmem : sign ∈ code := by
          rw [← hcode _ (List.getLast?_eq_some_getLast hne)]
          exact List.getLast_mem hne
        rw [List.dropLast_append_of_ne_nil (List.cons_ne_nil d more)] at hsign
        exact absurd (List.mem_append_left _ hmem) hsign
  · exact hsplit

/-- Where the text goes on behind a sign at which every match that has it ends, the search begins anew. -/
theorem exists_findAllFrom_append_of_dropLast {sign : Char} {code rest : List Char}
    (hempty : ∀ before after groups', ¬ pattern.Fits [] before [] after groups')
    (hsign : ∀ before piece after groups', pattern.Fits [] before piece after groups' → sign ∉ piece.dropLast)
    (hcode : ∀ c ∈ code.getLast?, c = sign) (before : List Char) : ∃ found,
      pattern.findAllFrom (.between before (code ++ rest)) = found ++ pattern.findAllFrom (.between (before ++ code) rest) ∧
        ∀ m ∈ found, ∃ front piece back, code = front ++ (piece ++ back) ∧
          pattern.Fits [] (before ++ front) piece (back ++ rest) m.groups ∧
          m.span = ⟨byteLength (before ++ front), byteLength (before ++ front ++ piece)⟩ := by
  induction hn : code.length using Nat.strongRecOn generalizing before code with
  | _ n ih =>
      cases code with
      | nil => exact ⟨[], by simp, by simp⟩
      | cons c code =>
          rw [List.cons_append]
          cases hmatch : pattern.matchAt? (.between before (c :: (code ++ rest))) with
          | none =>
              have hlater : ∀ d ∈ code.getLast?, d = sign := @getLast?_of_append [c] _ code hcode
              obtain ⟨found, hfound, hall⟩ := ih code.length (by simp [← hn]) hlater (before ++ [c]) rfl
              refine ⟨found, ?_, fun m hm => ?_⟩
              · rw [findAllFrom_of_none hmatch, hfound]
                simp
              · obtain ⟨front, piece, back, rfl, hfits, hspan⟩ := hall m hm
                exact ⟨c :: front, piece, back, rfl, by simpa using hfits, by simpa using hspan⟩
          | some entry =>
              obtain ⟨m, place⟩ := entry
              obtain ⟨piece, after, he, hfits, hspan, rfl⟩ := exists_fits_of_matchAt? hmatch
              have hne : piece ≠ [] := by
                rintro rfl
                exact hempty _ _ _ hfits
              obtain ⟨more, hmore, rfl⟩ := exists_append_of_dropLast (List.cons_ne_nil c code) hcode
                (hsign _ _ _ _ hfits) he
              have hlength := List.length_pos_iff.mpr hne
              rw [hmore] at hcode
              obtain ⟨found, hfound, hall⟩ := ih more.length (by rw [← hn, hmore, List.length_append]; omega)
                (getLast?_of_append hcode) (before ++ piece) rfl
              refine ⟨m :: found, ?_, fun m' hm' => ?_⟩
              · rw [he] at hmatch ⊢
                rw [findAllFrom_of_some hne hmatch, hfound, hmore]
                simp
              · rcases List.mem_cons.mp hm' with rfl | hm'
                · exact ⟨[], piece, more, hmore, by simpa using hfits, by simpa using hspan⟩
                · obtain ⟨front, piece', back, rfl, hfits', hspan'⟩ := hall m' hm'
                  exact ⟨piece ++ front, piece', back, by simp [hmore], by simpa using hfits', by simpa using hspan'⟩

/-- Where the text goes on behind a sign that stands in no match, the search begins anew. -/
theorem exists_findAllFrom_append {sign : Char} {code rest : List Char}
    (hempty : ∀ before after groups', ¬ pattern.Fits [] before [] after groups')
    (hsign : ∀ before piece after groups', pattern.Fits [] before piece after groups' → sign ∉ piece)
    (hcode : ∀ c ∈ code.getLast?, c = sign) (before : List Char) : ∃ found,
      pattern.findAllFrom (.between before (code ++ rest)) = found ++ pattern.findAllFrom (.between (before ++ code) rest) ∧
        ∀ m ∈ found, ∃ front piece back, code = front ++ (piece ++ back) ∧
          pattern.Fits [] (before ++ front) piece (back ++ rest) m.groups ∧
          m.span = ⟨byteLength (before ++ front), byteLength (before ++ front ++ piece)⟩ :=
  exists_findAllFrom_append_of_dropLast hempty
    (fun before piece after groups' h hmem => hsign before piece after groups' h (List.dropLast_subset _ hmem)) hcode before

/-- Every match stands over a piece that fits. -/
theorem exists_fits_of_mem_findAll (hempty : ∀ before after groups', ¬ pattern.Fits [] before [] after groups')
    (h : m ∈ pattern.findAll text) : ∃ before piece after, text = before ++ (piece ++ after) ∧
      pattern.Fits [] before piece after m.groups ∧
      m.span = ⟨byteLength before, byteLength (before ++ piece)⟩ := by
  have hall := @findAllFrom_induct pattern (fun before ahead ms => ∀ m ∈ ms, ∃ front piece after,
    before ++ ahead = front ++ (piece ++ after) ∧ pattern.Fits [] front piece after m.groups ∧
      m.span = ⟨byteLength front, byteLength (front ++ piece)⟩) hempty ?_ ?_ ?_ [] text
  · exact hall m h
  · simp
  · intro before c rest ms _ ih m hm
    simpa using ih m hm
  · intro before piece after m' ms hfits hspan ih m hm
    rcases List.mem_cons.mp hm with rfl | hm
    · exact ⟨before, piece, after, rfl, hfits, hspan⟩
    · simpa using ih m hm

/-- Where a piece fits, a match begins, or one that began before goes on. -/
theorem exists_mem_findAll_of_fits (hempty : ∀ before after groups', ¬ pattern.Fits [] before [] after groups')
    (h : pattern.Fits [] before piece after groups') : ∃ m ∈ pattern.findAll (before ++ (piece ++ after)),
      ∃ front back rest after', before = front ++ back ∧ rest ≠ [] ∧ piece ++ after = rest ++ after' ∧
        pattern.Fits [] front (back ++ rest) after' m.groups ∧
        m.span = ⟨byteLength front, byteLength (front ++ (back ++ rest))⟩ := by
  have hall := @findAllFrom_induct pattern (fun earlier ahead ms => ∀ skipped piece after groups',
    ahead = skipped ++ (piece ++ after) → pattern.Fits [] (earlier ++ skipped) piece after groups' → ∃ m ∈ ms,
      ∃ front back rest after', earlier ++ skipped = front ++ back ∧ rest ≠ [] ∧ piece ++ after = rest ++ after' ∧
        pattern.Fits [] front (back ++ rest) after' m.groups ∧
        m.span = ⟨byteLength front, byteLength (front ++ (back ++ rest))⟩) hempty ?_ ?_ ?_ []
          (before ++ (piece ++ after))
  · exact hall before piece after groups' rfl h
  · intro earlier skipped piece after groups' he hfits
    obtain ⟨rfl, rfl, rfl⟩ : skipped = [] ∧ piece = [] ∧ after = [] := by simpa using he.symm
    exact absurd hfits (hempty _ _ _)
  · intro earlier c rest ms hnone ih skipped piece after groups' he hfits
    cases skipped with
    | nil =>
        rw [List.append_nil] at hfits
        exact absurd hfits (matchAt?_eq_none_iff.mp hnone piece after groups' he)
    | cons d skipped =>
        obtain ⟨rfl, rfl⟩ := List.cons.inj he
        simpa using ih skipped piece after groups' rfl (by simpa using hfits)
  · intro earlier taken ahead m ms hfits hspan ih skipped piece after groups' he hlater
    rcases List.append_eq_append_iff.mp he with ⟨more, rfl, rfl⟩ | ⟨more, rfl, hmore⟩
    · obtain ⟨m, hm, hcover⟩ := ih more piece after groups' rfl (by simpa using hlater)
      exact ⟨m, List.mem_cons_of_mem _ hm, by simpa using hcover⟩
    · cases more with
      | nil =>
          rw [List.append_nil] at hfits hspan ih
          obtain ⟨m, hm, hcover⟩ := ih [] piece after groups' hmore.symm (by simpa using hlater)
          exact ⟨m, List.mem_cons_of_mem _ hm, by simpa using hcover⟩
      | cons d more => exact ⟨m, by simp, earlier, skipped, d :: more, ahead, rfl, by simp, hmore, hfits, hspan⟩

end FindAll

/-! ## Lengths -/

/-- No piece that fits the pattern is shorter. -/
def leastLength : Pattern → Nat
  | one _ => 1
  | andThen first second => leastLength first + leastLength second
  | orElse first second => min (leastLength first) (leastLength second)
  | group _ inner => leastLength inner
  | _ => 0

theorem leastLength_le {pattern : Pattern} (h : pattern.Fits groups before piece after groups') :
    pattern.leastLength ≤ piece.length := by
  induction pattern generalizing groups before piece after groups' with
  | one p =>
      obtain ⟨-, c, rfl, -⟩ := h
      exact Nat.le_refl _
  | andThen first second ihfirst ihsecond =>
      obtain ⟨x, y, between, rfl, hx, hy⟩ := h
      rw [leastLength, List.length_append]
      exact Nat.add_le_add (ihfirst hx) (ihsecond hy)
  | orElse first second ihfirst ihsecond =>
      rcases h with h | h
      · exact Nat.le_trans (Nat.min_le_left _ _) (ihfirst h)
      · exact Nat.le_trans (Nat.min_le_right _ _) (ihsecond h)
  | group index inner ih =>
      obtain ⟨recorded, h, -⟩ := h
      exact ih h
  | _ => exact Nat.zero_le _

/-- A pattern of some length fits no empty piece. -/
theorem not_fits_nil {pattern : Pattern} (hlength : 0 < pattern.leastLength) (before after : List Char)
    (groups' : Groups) : ¬ pattern.Fits [] before [] after groups' :=
  fun h => Nat.not_lt_of_le (leastLength_le h) hlength

/-- The span is that of a piece of the text. -/
def IsPieceOf (text : List Char) (span : Span) : Prop :=
  ∃ front piece rest, text = front ++ (piece ++ rest) ∧ span = ⟨byteLength front, byteLength (front ++ piece)⟩

/-- The patterns whose pieces the group `index` records. -/
def recordedBy (index : Nat) : Pattern → List Pattern
  | andThen first second => recordedBy index first ++ recordedBy index second
  | orElse first second => recordedBy index first ++ recordedBy index second
  | optional inner => recordedBy index inner
  | group other inner => if other = index then inner :: recordedBy index inner else recordedBy index inner
  | _ => []

/-- The span is that of a piece of the text, and a group of the pattern has recorded it. -/
def IsRecordOf (pattern : Pattern) (text : List Char) (entry : Nat × Span) : Prop :=
  ∃ inner ∈ pattern.recordedBy entry.1, ∃ front piece rest groups groups', text = front ++ (piece ++ rest) ∧
    entry.2 = ⟨byteLength front, byteLength (front ++ piece)⟩ ∧ inner.Fits groups front piece rest groups'

theorem IsRecordOf.isPieceOf {pattern : Pattern} {text : List Char} {entry : Nat × Span} (h : pattern.IsRecordOf text entry) :
    IsPieceOf text entry.2 := by
  obtain ⟨-, -, front, piece, rest, -, -, htext, hspan, -⟩ := h
  exact ⟨front, piece, rest, htext, hspan⟩

theorem IsRecordOf.mono {pattern pattern' : Pattern} {text : List Char} {entry : Nat × Span} (h : pattern.IsRecordOf text entry)
    (hsub : pattern.recordedBy entry.1 ⊆ pattern'.recordedBy entry.1) : pattern'.IsRecordOf text entry := by
  obtain ⟨inner, hinner, hrecord⟩ := h
  exact ⟨inner, hsub hinner, hrecord⟩

/-- What a search records are pieces of the text, none before the place where it begins. -/
theorem isRecordOf_of_fits {pattern : Pattern} (h : pattern.Fits groups before piece after groups') : ∀ entry ∈ groups',
    entry ∈ groups ∨ byteLength before ≤ entry.2.start ∧ pattern.IsRecordOf (before ++ (piece ++ after)) entry := by
  induction pattern generalizing groups before piece after groups' with
  | andThen first second ihfirst ihsecond =>
      obtain ⟨x, y, recorded, rfl, hx, hy⟩ := h
      intro entry hentry
      rcases ihsecond hy entry hentry with hearlier | ⟨hle, hrecord⟩
      · rcases ihfirst hx entry hearlier with hearlier | ⟨hle, hrecord⟩
        · exact .inl hearlier
        · rw [List.append_assoc]
          exact .inr ⟨hle, hrecord.mono (List.subset_append_left _ _)⟩
      · rw [byteLength_append] at hle
        rw [List.append_assoc] at hrecord
        rw [List.append_assoc]
        exact .inr ⟨by omega, hrecord.mono (List.subset_append_right _ _)⟩
  | orElse first second ihfirst ihsecond =>
      intro entry hentry
      rcases h with h | h
      · exact (ihfirst h entry hentry).imp_right (And.imp_right fun hrecord => hrecord.mono (List.subset_append_left _ _))
      · exact (ihsecond h entry hentry).imp_right (And.imp_right fun hrecord => hrecord.mono (List.subset_append_right _ _))
  | optional inner ih =>
      rcases h with h | ⟨rfl, rfl⟩
      · exact ih h
      · exact fun entry hentry => .inl hentry
  | group index inner ih =>
      obtain ⟨recorded, h, rfl⟩ := h
      intro entry hentry
      rcases List.mem_cons.mp hentry with rfl | hentry
      · exact .inr ⟨Nat.le_refl _, inner, by simp [recordedBy], before, piece, after, _, _, rfl, rfl, h⟩
      · refine (ih h entry hentry).imp_right (And.imp_right fun hrecord => hrecord.mono ?_)
        rw [recordedBy]
        split_ifs
        · exact List.subset_cons_self _ _
        · exact List.Subset.refl _
  | _ =>
      obtain ⟨rfl, -⟩ := h
      exact fun entry hentry => .inl hentry

/-- Every group of a match has recorded a piece of the text. -/
theorem isRecordOf_of_mem_findAll {pattern : Pattern} {m : Match} {text : List Char} (hlength : 0 < pattern.leastLength)
    (h : m ∈ pattern.findAll text) : ∀ entry ∈ m.groups, m.span.start ≤ entry.2.start ∧ pattern.IsRecordOf text entry := by
  obtain ⟨before, piece, after, rfl, hfits, hspan⟩ := exists_fits_of_mem_findAll (not_fits_nil hlength) h
  rw [hspan]
  exact fun entry hentry => (isRecordOf_of_fits hfits entry hentry).resolve_left (by simp)

/-- A match and its groups span pieces of the text; the match is not empty, and no group begins before it. -/
theorem isPieceOf_of_mem_findAll {pattern : Pattern} {m : Match} {text : List Char} (hlength : 0 < pattern.leastLength)
    (h : m ∈ pattern.findAll text) : IsPieceOf text m.span ∧ m.span.start < m.span.stop ∧
      ∀ entry ∈ m.groups, m.span.start ≤ entry.2.start ∧ IsPieceOf text entry.2 := by
  have hgroups := isRecordOf_of_mem_findAll hlength h
  obtain ⟨before, piece, after, rfl, hfits, hspan⟩ := exists_fits_of_mem_findAll (not_fits_nil hlength) h
  refine ⟨⟨before, piece, after, rfl, hspan⟩, ?_, fun entry hentry => (hgroups entry hentry).imp_right IsRecordOf.isPieceOf⟩
  obtain ⟨c, piece, rfl⟩ : ∃ c rest, piece = c :: rest := by
    refine List.exists_cons_of_ne_nil ?_
    rintro rfl
    exact not_fits_nil hlength _ _ _ hfits
  have hc := c.utf8Size_pos
  rw [hspan]
  simp only [byteLength_append, byteLength_cons]
  omega

/-- A group that records one character of a class. -/
theorem exists_char_of_group? {pattern : Pattern} {m : Match} {text : List Char} {index : Nat} {span : Span}
    (hlength : 0 < pattern.leastLength) (hrecorded : pattern.recordedBy index = [one p]) (h : m ∈ pattern.findAll text)
    (hgroup : span ∈ m.group? index) : ∃ front c rest, text = front ++ c :: rest ∧
      span = ⟨byteLength front, byteLength (front ++ [c])⟩ ∧ p c = true := by
  obtain ⟨earlier, later, hgroups, -⟩ := List.lookup_eq_some_iff.mp hgroup
  obtain ⟨-, inner, hinner, front, piece, rest, _, _, rfl, hspan, hfits⟩ :=
    isRecordOf_of_mem_findAll hlength h (index, span) (by simp [hgroups])
  rw [hrecorded, List.mem_singleton] at hinner
  subst hinner
  obtain ⟨rfl, c, rfl, hc⟩ := hfits
  exact ⟨front, c, rest, rfl, hspan, hc⟩

/-! ## Whether a pattern occurs -/

theorem occursIn_iff {pattern : Pattern} {text : List Char} : pattern.occursIn text = true ↔
    ∃ before piece after groups', text = before ++ (piece ++ after) ∧ pattern.Fits [] before piece after groups' := by
  have hplace (before ahead : List Char) : (pattern.matchAt? (.between before ahead)).isSome = true ↔
      ∃ piece after groups', ahead = piece ++ after ∧ pattern.Fits [] before piece after groups' := by
    rw [← not_iff_not, Bool.not_eq_true, Option.isSome_eq_false_iff, Option.isNone_iff_eq_none, matchAt?_eq_none_iff]
    push Not
    rfl
  have hall (earlier ahead : List Char) : pattern.occursFrom (.between earlier ahead) ahead = true ↔
      ∃ skipped piece after groups', ahead = skipped ++ (piece ++ after) ∧
        pattern.Fits [] (earlier ++ skipped) piece after groups' := by
    induction ahead generalizing earlier with
    | nil =>
        rw [occursFrom, hplace]
        constructor
        · rintro ⟨piece, after, groups', he, hfits⟩
          exact ⟨[], piece, after, groups', he, by rwa [List.append_nil]⟩
        · rintro ⟨skipped, piece, after, groups', he, hfits⟩
          obtain ⟨rfl, hrest⟩ := List.append_eq_nil_iff.mp he.symm
          exact ⟨piece, after, groups', hrest.symm, by rwa [List.append_nil] at hfits⟩
    | cons c rest ih =>
        rw [occursFrom, Bool.or_eq_true, hplace, Place.step_between, ih]
        constructor
        · rintro (⟨piece, after, groups', he, hfits⟩ | ⟨skipped, piece, after, groups', rfl, hfits⟩)
          · exact ⟨[], piece, after, groups', he, by rwa [List.append_nil]⟩
          · exact ⟨c :: skipped, piece, after, groups', rfl, by simpa using hfits⟩
        · rintro ⟨skipped, piece, after, groups', he, hfits⟩
          cases skipped with
          | nil => exact .inl ⟨piece, after, groups', he, by rwa [List.append_nil] at hfits⟩
          | cons d skipped =>
              obtain ⟨rfl, rfl⟩ := List.cons.inj he
              exact .inr ⟨skipped, piece, after, groups', rfl, by simpa using hfits⟩
  change pattern.occursFrom (.between [] text) text = true ↔ _
  simpa using hall [] text

/-! ## Derived forms -/

section Forms

variable {pattern : Pattern} {c : Char} {word : String}

theorem fits_append {first second : Pattern} :
    (first ++ second).Fits groups before piece after groups' ↔ ∃ x y between, piece = x ++ y ∧
      first.Fits groups before x (y ++ after) between ∧
      second.Fits between (before ++ x) y after groups' := Iff.rfl

theorem fits_char : (char c).Fits groups before piece after groups' ↔
    groups' = groups ∧ piece = [c] := by
  simp [char, Fits]

theorem fits_literal : (literal word).Fits groups before piece after groups' ↔
    groups' = groups ∧ piece = word.toList := by
  rw [literal]
  generalize word.toList = cs
  induction cs generalizing groups before piece with
  | nil => simp [Fits]
  | cons c cs ih =>
      rw [List.foldr_cons, fits_append]
      constructor
      · rintro ⟨x, y, recorded, rfl, hx, hy⟩
        obtain ⟨rfl, rfl⟩ := fits_char.mp hx
        obtain ⟨rfl, rfl⟩ := ih.mp hy
        exact ⟨rfl, rfl⟩
      · rintro ⟨rfl, rfl⟩
        exact ⟨[c], cs, _, rfl, fits_char.mpr ⟨rfl, rfl⟩, ih.mpr ⟨rfl, rfl⟩⟩

theorem fits_most1 : (most1 p).Fits groups before piece after groups' ↔
    groups' = groups ∧ piece ≠ [] ∧ ∀ c ∈ piece, p c = true := by
  rw [most1, fits_append]
  constructor
  · rintro ⟨x, y, recorded, rfl, ⟨rfl, c, rfl, hc⟩, rfl, hy⟩
    exact ⟨rfl, by simp, by simpa [hc] using hy⟩
  · rintro ⟨rfl, hne, hall⟩
    obtain ⟨c, rest, rfl⟩ := List.exists_cons_of_ne_nil hne
    exact ⟨[c], rest, _, rfl, ⟨rfl, c, rfl, hall c (by simp)⟩, rfl, fun d hd => hall d (by simp [hd])⟩

theorem fits_fewest1 : (fewest1 p).Fits groups before piece after groups' ↔
    (most1 p).Fits groups before piece after groups' := Iff.rfl

theorem fits_firstOf {patterns : List Pattern} :
    (firstOf patterns).Fits groups before piece after groups' ↔
      ∃ pattern ∈ patterns, pattern.Fits groups before piece after groups' := by
  induction patterns with
  | nil => simp [firstOf, Fits]
  | cons first rest ih =>
      cases rest with
      | nil => simp [firstOf]
      | cons second rest =>
          rw [firstOf.eq_3 _ _ (List.cons_ne_nil _ _), Fits, ih]
          simp only [List.mem_cons, exists_eq_or_imp]

variable {first second third next : Pattern}

/-- How a sequence is bracketed makes no difference. -/
theorem fits_append_assoc : (first ++ second ++ third).Fits groups before piece after groups' ↔
    (first ++ (second ++ third)).Fits groups before piece after groups' := by
  constructor
  · rintro ⟨_, z, recorded', rfl, ⟨x, y, recorded, rfl, hx, hy⟩, hz⟩
    refine ⟨x, y ++ z, recorded, by simp, by simpa using hx, y, z, recorded', rfl, hy, by simpa using hz⟩
  · rintro ⟨x, _, recorded, rfl, hx, y, z, recorded', rfl, hy, hz⟩
    exact ⟨x ++ y, z, recorded', by simp, ⟨x, y, recorded, rfl, by simpa using hx, hy⟩, by simpa using hz⟩

theorem fits_wordEdge_append : (wordEdge ++ next).Fits groups before piece after groups' ↔
    atWordEdge (.between before (piece ++ after)) = true ∧ next.Fits groups before piece after groups' := by
  constructor
  · rintro ⟨_, y, _, rfl, ⟨rfl, rfl, hedge⟩, hy⟩
    exact ⟨hedge, by simpa using hy⟩
  · rintro ⟨hedge, hnext⟩
    exact ⟨[], piece, groups, rfl, ⟨rfl, rfl, hedge⟩, by simpa using hnext⟩

theorem fits_one_append : (one p ++ next).Fits groups before piece after groups' ↔
    ∃ c rest, piece = c :: rest ∧ p c = true ∧ next.Fits groups (before ++ [c]) rest after groups' := by
  constructor
  · rintro ⟨_, y, _, rfl, ⟨rfl, c, rfl, hc⟩, hy⟩
    exact ⟨c, y, rfl, hc, hy⟩
  · rintro ⟨c, rest, rfl, hc, hnext⟩
    exact ⟨[c], rest, groups, rfl, ⟨rfl, c, rfl, hc⟩, hnext⟩

theorem fits_char_append : (char c ++ next).Fits groups before piece after groups' ↔
    ∃ rest, piece = c :: rest ∧ next.Fits groups (before ++ [c]) rest after groups' := by
  simp [char, fits_one_append]

theorem fits_literal_append : (literal word ++ next).Fits groups before piece after groups' ↔
    ∃ rest, piece = word.toList ++ rest ∧ next.Fits groups (before ++ word.toList) rest after groups' := by
  simp [fits_append, fits_literal]

theorem fits_most_append : (most p ++ next).Fits groups before piece after groups' ↔
    ∃ run rest, piece = run ++ rest ∧ (∀ c ∈ run, p c = true) ∧
      next.Fits groups (before ++ run) rest after groups' := by
  constructor
  · rintro ⟨run, rest, _, rfl, ⟨rfl, hrun⟩, hnext⟩
    exact ⟨run, rest, rfl, hrun, hnext⟩
  · rintro ⟨run, rest, rfl, hrun, hnext⟩
    exact ⟨run, rest, groups, rfl, ⟨rfl, hrun⟩, hnext⟩

theorem fits_most1_append : (most1 p ++ next).Fits groups before piece after groups' ↔
    ∃ run rest, piece = run ++ rest ∧ run ≠ [] ∧ (∀ c ∈ run, p c = true) ∧
      next.Fits groups (before ++ run) rest after groups' := by
  constructor
  · rintro ⟨run, rest, _, rfl, hx, hnext⟩
    obtain ⟨rfl, hne, hrun⟩ := fits_most1.mp hx
    exact ⟨run, rest, rfl, hne, hrun, hnext⟩
  · rintro ⟨run, rest, rfl, hne, hrun, hnext⟩
    exact ⟨run, rest, groups, rfl, fits_most1.mpr ⟨rfl, hne, hrun⟩, hnext⟩

theorem fits_optional_append : (optional first ++ next).Fits groups before piece after groups' ↔
    (first ++ next).Fits groups before piece after groups' ∨ next.Fits groups before piece after groups' := by
  constructor
  · rintro ⟨x, y, recorded, rfl, hx | ⟨rfl, rfl⟩, hy⟩
    · exact .inl ⟨x, y, recorded, rfl, hx, hy⟩
    · exact .inr (by simpa using hy)
  · rintro (⟨x, y, recorded, rfl, hx, hy⟩ | hnext)
    · exact ⟨x, y, recorded, rfl, .inl hx, hy⟩
    · exact ⟨[], piece, groups, rfl, .inr ⟨rfl, rfl⟩, by simpa using hnext⟩

end Forms

/-- Before a word character, a word begins where no word character stands behind. -/
theorem atWordEdge_iff (h : ahead.head?.any isWordChar = true) :
    atWordEdge (.between before ahead) = true ↔ ∀ c ∈ before.getLast?, isWordChar c = false := by
  have hedge : atWordEdge (.between before ahead) = (before.getLast?.any isWordChar != true) := by rw [← h]; rfl
  rw [hedge]
  cases before.getLast? <;> simp

/-! ## What a search takes -/

section Taking

variable {pattern : Pattern} {visit : Groups → Place → Option α} {rest : List Char}

theorem tryAt_append {first second : Pattern}
    (h : first.tryAt groups (fun groups place => second.tryAt groups visit place)
      (.between before ahead) = some r) :
    (first ++ second).tryAt groups visit (.between before ahead) = some r := h

theorem tryAt_one {c : Char} (hc : p c = true)
    (h : visit groups (.between (before ++ [c]) rest) = some r) :
    (one p).tryAt groups visit (.between before (c :: rest)) = some r := by
  simpa only [tryAt, Place.between_ahead, Place.step_between, if_pos hc] using h

theorem tryAt_literal {word : String}
    (h : visit groups (.between (before ++ word.toList) rest) = some r) :
    (literal word).tryAt groups visit (.between before (word.toList ++ rest)) = some r := by
  rw [literal]
  generalize word.toList = cs at h
  induction cs generalizing before with
  | nil => simpa [tryAt] using h
  | cons c cs ih =>
      refine tryAt_append (tryAt_one (by simp) (ih ?_))
      simpa using h

theorem tryAt_wordEdge (hedge : atWordEdge (.between before ahead) = true)
    (h : visit groups (.between before ahead) = some r) :
    wordEdge.tryAt groups visit (.between before ahead) = some r := by
  rwa [tryAt, if_pos hedge]

theorem tryAt_lineStart (hbefore : ∀ c ∈ before.getLast?, c = '\n')
    (h : visit groups (.between before ahead) = some r) :
    lineStart.tryAt groups visit (.between before ahead) = some r := by
  rwa [tryAt, if_pos (behind_all_iff.mpr hbefore)]

theorem tryMost_append {visit : Place → Option α} (hrun : ∀ c ∈ run, p c = true)
    (hstop : ∀ c ∈ rest.head?, p c = false)
    (h : visit (.between (before ++ run) rest) = some r) :
    tryMost p visit (.between before (run ++ rest)) (run ++ rest) = some r := by
  induction run generalizing before with
  | nil =>
      rw [List.append_nil] at h
      cases rest with
      | nil => exact h
      | cons c rest =>
          have hc := hstop c rfl
          rw [List.nil_append, tryMost, if_neg (by simp [hc]), h]
  | cons c run ih =>
      rw [List.cons_append, tryMost, if_pos (hrun c (by simp)), Place.step_between,
        ih (fun d hd => hrun d (by simp [hd])) (by simpa using h), Option.some_or]

/-- A greedy run goes on to where its class ends. -/
theorem tryAt_most (hrun : ∀ c ∈ run, p c = true) (hstop : ∀ c ∈ rest.head?, p c = false)
    (h : visit groups (.between (before ++ run) rest) = some r) :
    (most p).tryAt groups visit (.between before (run ++ rest)) = some r :=
  tryMost_append hrun hstop h

/-- A run may be empty. -/
theorem tryAt_most_skip (hstop : ∀ c ∈ ahead.head?, p c = false)
    (h : visit groups (.between before ahead) = some r) :
    (most p).tryAt groups visit (.between before ahead) = some r := by
  rw [tryAt, Place.between_ahead]
  cases ahead with
  | nil => exact h
  | cons c rest => rwa [tryMost, if_neg (by simp [hstop c rfl])]

theorem tryAt_most1 (hne : run ≠ []) (hrun : ∀ c ∈ run, p c = true)
    (hstop : ∀ c ∈ rest.head?, p c = false)
    (h : visit groups (.between (before ++ run) rest) = some r) :
    (most1 p).tryAt groups visit (.between before (run ++ rest)) = some r := by
  obtain ⟨c, run, rfl⟩ := List.exists_cons_of_ne_nil hne
  refine tryAt_append (tryAt_one (hrun c (by simp)) ?_)
  exact tryAt_most (fun d hd => hrun d (by simp [hd])) hstop (by simpa using h)

/-- A lazy run stops at the first place behind which the search goes on. -/
theorem tryFewest_append {visit : Place → Option α} (hrun : ∀ c ∈ run, p c = true)
    (hearlier : ∀ front back, run = front ++ back → back ≠ [] →
      visit (.between (before ++ front) (back ++ rest)) = none)
    (h : visit (.between (before ++ run) rest) = some r) :
    tryFewest p visit (.between before (run ++ rest)) (run ++ rest) = some r := by
  induction run generalizing before with
  | nil =>
      rw [List.append_nil] at h
      cases rest with
      | nil => exact h
      | cons c rest => rw [List.nil_append, tryFewest, h, Option.some_or]
  | cons c run ih =>
      have hnow := hearlier [] (c :: run) rfl (by simp)
      rw [List.append_nil, List.cons_append] at hnow
      rw [List.cons_append, tryFewest, hnow, Option.none_or, if_pos (hrun c (by simp)),
        Place.step_between]
      refine ih (fun d hd => hrun d (by simp [hd])) (fun front back he hne => ?_) (by simpa using h)
      simpa using hearlier (c :: front) back (by simp [he]) hne

theorem tryAt_fewest1 (hne : run ≠ []) (hrun : ∀ c ∈ run, p c = true)
    (hearlier : ∀ front back, run = front ++ back → front ≠ [] → back ≠ [] →
      visit groups (.between (before ++ front) (back ++ rest)) = none)
    (h : visit groups (.between (before ++ run) rest) = some r) :
    (fewest1 p).tryAt groups visit (.between before (run ++ rest)) = some r := by
  obtain ⟨c, run, rfl⟩ := List.exists_cons_of_ne_nil hne
  refine tryAt_append (tryAt_one (hrun c (by simp)) ?_)
  refine tryFewest_append (fun d hd => hrun d (by simp [hd])) (fun front back he hne => ?_)
    (by simpa using h)
  simpa using hearlier (c :: front) back (by simp [he]) (by simp) hne

theorem tryAt_group {index : Nat}
    (h : pattern.tryAt groups (fun groups place =>
      visit ((index, ⟨byteLength before, place.offset⟩) :: groups) place) (.between before ahead) = some r) :
    (group index pattern).tryAt groups visit (.between before ahead) = some r := h

theorem tryAt_orElse_left {other : Pattern}
    (h : pattern.tryAt groups visit (.between before ahead) = some r) :
    (orElse pattern other).tryAt groups visit (.between before ahead) = some r := by
  rw [tryAt, h, Option.some_or]

theorem tryAt_orElse_right {other : Pattern}
    (hnone : other.tryAt groups visit (.between before ahead) = none)
    (h : pattern.tryAt groups visit (.between before ahead) = some r) :
    (orElse other pattern).tryAt groups visit (.between before ahead) = some r := by
  rw [tryAt, hnone, Option.none_or, h]

theorem tryAt_optional (h : pattern.tryAt groups visit (.between before ahead) = some r) :
    (optional pattern).tryAt groups visit (.between before ahead) = some r := by
  rw [tryAt, h, Option.some_or]

theorem tryAt_optional_skip (hnone : pattern.tryAt groups visit (.between before ahead) = none)
    (h : visit groups (.between before ahead) = some r) :
    (optional pattern).tryAt groups visit (.between before ahead) = some r := by
  rw [tryAt, hnone, Option.none_or, h]

end Taking

end Pattern

end ApiImpact.Text

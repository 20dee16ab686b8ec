import ApiImpact.TypeScript.Reading

/-!
# What readers read

A reader is judged by where it stands: at some places it reads a tree and stops at another place, at others it
gets stuck. How far other readers came before makes no difference.
-/

namespace ApiImpact.TypeScript

/-- A place in a text in which angle brackets open no elements. -/
structure Spot where
  ahead : List Char
  offset : Nat
  afterBreak : Bool := false

/-- The cursor of a reader that stands at `spot`. -/
def Spot.cursor (spot : Spot) (furthest : Nat) : Cursor where
  ahead := spot.ahead
  offset := spot.offset
  afterBreak := spot.afterBreak
  elements := false
  furthest := furthest

/-- From `spot` the reader reads `result` and stops at `after`. -/
def Reads {α : Type} (reader : Reading α) (spot : Spot) (result : α) (after : Spot) : Prop :=
  ∀ furthest, ∃ furthest', reader (spot.cursor furthest) = .ok result (after.cursor furthest')

/-- The reader gets stuck when it begins at `spot`. -/
def Stuck {α : Type} (reader : Reading α) (spot : Spot) : Prop :=
  ∀ furthest, ∃ stuck, reader (spot.cursor furthest) = .error () stuck

variable {α β : Type} {reader other : Reading α} {next : α → Reading β} {a : α} {b : β} {s s' s'' : Spot}

theorem reads_pure (a : α) (s : Spot) : Reads (pure a) s a s :=
  fun furthest => ⟨furthest, rfl⟩

theorem stuck_failure (s : Spot) : Stuck (failure : Reading α) s :=
  fun furthest => ⟨s.cursor furthest, rfl⟩

theorem run_bind (reader : Reading α) (next : α → Reading β) (cursor : Cursor) :
    (reader >>= next) cursor = match reader cursor with
      | .ok a after => next a after
      | .error e stuck => .error e stuck := by
  change EStateM.bind reader next cursor = _
  unfold EStateM.bind
  cases reader cursor <;> rfl

theorem Reads.bind (h : Reads reader s a s') (hnext : Reads (next a) s' b s'') : Reads (reader >>= next) s b s'' := by
  intro furthest
  obtain ⟨furthest', hreader⟩ := h furthest
  obtain ⟨furthest'', hrest⟩ := hnext furthest'
  exact ⟨furthest'', by rw [run_bind, hreader]; exact hrest⟩

theorem Reads.cast (h : Reads reader s a s') (hspot : s' = s'') : Reads reader s a s'' :=
  hspot ▸ h

theorem Reads.map (h : Reads reader s a s') (f : α → β) : Reads (f <$> reader) s (f a) s' := by
  have hbind : Reads (reader >>= fun a => pure (f a)) s (f a) s' := h.bind (reads_pure _ _)
  exact hbind

theorem Stuck.bind (h : Stuck reader s) : Stuck (reader >>= next) s := by
  intro furthest
  obtain ⟨stuck, hreader⟩ := h furthest
  exact ⟨stuck, by rw [run_bind, hreader]⟩

theorem Reads.bind_stuck (h : Reads reader s a s') (hnext : Stuck (next a) s') : Stuck (reader >>= next) s := by
  intro furthest
  obtain ⟨furthest', hreader⟩ := h furthest
  obtain ⟨stuck, hrest⟩ := hnext furthest'
  exact ⟨stuck, by rw [run_bind, hreader]; exact hrest⟩

/-! ## Alternatives -/

theorem run_orElse (reader other : Reading α) (cursor : Cursor) :
    (reader <|> other) cursor = match reader cursor with
      | .ok a after => .ok a after
      | .error _ stuck => other (stuck.backFrom cursor) := rfl

theorem Reads.orElse (h : Reads reader s a s') : Reads (reader <|> other) s a s' := by
  intro furthest
  obtain ⟨furthest', hreader⟩ := h furthest
  exact ⟨furthest', by rw [run_orElse, hreader]⟩

/-- What got stuck leaves nothing behind but how far it came. -/
theorem Stuck.exists_backFrom (h : Stuck reader s) (other : Reading α) (furthest : Nat) :
    ∃ furthest', (reader <|> other) (s.cursor furthest) = other (s.cursor furthest') := by
  obtain ⟨stuck, hreader⟩ := h furthest
  exact ⟨_, by rw [run_orElse, hreader]; rfl⟩

theorem Stuck.orElse (h : Stuck reader s) (hother : Reads other s a s') : Reads (reader <|> other) s a s' := by
  intro furthest
  obtain ⟨furthest', hrun⟩ := h.exists_backFrom other furthest
  obtain ⟨furthest'', hread⟩ := hother furthest'
  exact ⟨furthest'', hrun.trans hread⟩

theorem Stuck.orElse_stuck (h : Stuck reader s) (hother : Stuck other s) : Stuck (reader <|> other) s := by
  intro furthest
  obtain ⟨furthest', hrun⟩ := h.exists_backFrom other furthest
  obtain ⟨stuck, hread⟩ := hother furthest'
  exact ⟨stuck, hrun.trans hread⟩

namespace Reading

/-! ## What may be missing -/

theorem reads_check {condition : Bool} (h : condition = true) (s : Spot) : Reads (check condition) s () s := by
  rw [check, if_pos h]
  exact reads_pure () s

theorem stuck_check {condition : Bool} (h : condition = false) (s : Spot) : Stuck (check condition) s := by
  rw [check, if_neg (by simp [h])]
  exact stuck_failure s

theorem reads_attempt (h : Reads reader s a s') : Reads (attempt reader) s (some a) s' :=
  (h.map some).orElse

theorem stuck_attempt (h : Stuck reader s) : Reads (attempt reader) s none s := by
  have hsome : Stuck (reader >>= fun a => pure (some a)) s := h.bind
  exact Stuck.orElse hsome (reads_pure none s)

variable {trees : Reading (List Tree)} {tree : Tree} {ts : List Tree} {one : Reading Tree}

theorem stuck_optionally (h : Stuck one s) : Reads (optionally one) s [] s :=
  (stuck_attempt h).bind (reads_pure _ _)

theorem stuck_optionalList (h : Stuck trees s) : Reads (optionalList trees) s [] s :=
  (stuck_attempt h).bind (reads_pure _ _)

/-! ## Nodes -/

theorem reads_node (kind : Kind) (h : Reads trees s ts s') : Reads (node kind trees) s (.branch kind ts) s' :=
  h.bind (reads_pure _ _)

theorem stuck_node (kind : Kind) (h : Stuck trees s) : Stuck (node kind trees) s :=
  h.bind

theorem stuck_inRole (role : Role) (h : Stuck one s) : Stuck (inRole role one) s :=
  h.bind

/-! ## Repetition -/

theorem reads_ahead (s : Spot) : Reads ahead s s.ahead s :=
  fun furthest => ⟨furthest, rfl⟩

/-- `reader` runs as often as `runs` has entries, and reads each of them. -/
inductive Runs (reader : Reading (List Tree)) : Spot → List (List Tree) → Spot → Prop where
  | nil (s : Spot) : Runs reader s [] s
  | cons {s s' s'' : Spot} {ts : List Tree} {runs : List (List Tree)} : Reads reader s ts s' →
      Runs reader s' runs s'' → Runs reader s (ts :: runs) s''

variable {runs : List (List Tree)}

/-- Repetition ends where the reader gets stuck, or at its limit. -/
theorem Runs.reads_upTo {limit : Nat} (h : Runs trees s runs s') (hstuck : Stuck trees s')
    (hlimit : runs.length ≤ limit) : Reads (upTo limit trees) s runs.flatten s' := by
  induction h generalizing limit with
  | nil s =>
      cases limit with
      | zero => exact reads_pure _ _
      | succ limit => exact (stuck_attempt hstuck).bind (reads_pure _ _)
  | cons hread hruns ih =>
      cases limit with
      | zero => exact absurd hlimit (by simp)
      | succ limit =>
          refine (reads_attempt hread).bind ((ih hstuck (by simpa using hlimit)).bind ?_)
          exact reads_pure _ _

theorem Runs.reads_many (h : Runs trees s runs s') (hstuck : Stuck trees s')
    (hlimit : runs.length ≤ s.ahead.length + 1) : Reads (many trees) s runs.flatten s' :=
  (reads_ahead s).bind (h.reads_upTo hstuck hlimit)

theorem reads_many_nil (h : Stuck trees s) : Reads (many trees) s [] s :=
  (Runs.nil s).reads_many h (Nat.zero_le _)

end Reading

end ApiImpact.TypeScript

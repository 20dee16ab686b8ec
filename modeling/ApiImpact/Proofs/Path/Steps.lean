import Mathlib.Data.List.Induction
import ApiImpact.Path.Basic
import ApiImpact.Project.Graph
import ApiImpact.Proofs.Text.Blank

/-!
# Normal forms of paths

A path is its own normal form if its segments are names, except that the first may be `..`. Whatever is
done to the last segment of such a path by naming a file keeps it in normal form.
-/

namespace ApiImpact

/-- The segment is a name. -/
def Segment.isName : Segment → Bool
  | name _ => true
  | _ => false

namespace Path

/-- The segments of a normal form: names, the first of them perhaps `..` instead. -/
def Settled (segments : List Segment) : Prop :=
  segments.head? ≠ some .here ∧ ∀ segment ∈ segments.tail, segment.isName

/-- The path is its own normal form. -/
def IsNormal (path : Path) : Prop := path.normalize = path

instance (path : Path) : Decidable path.IsNormal := inferInstanceAs (Decidable (_ = _))

/-! ## Settled segments -/

theorem settled_nil : Settled [] := by simp [Settled]

theorem Settled.of_prefix {front segments : List Segment} (hp : front <+: segments)
    (h : Settled segments) : Settled front := by
  obtain ⟨back, rfl⟩ := hp
  cases front with
  | nil => exact settled_nil
  | cons first rest =>
      refine ⟨by simpa [Settled] using h.1, fun segment hs => h.2 segment ?_⟩
      simp only [List.tail_cons] at hs
      simp [hs]

theorem Settled.append_name {segments : List Segment} (h : Settled segments) (text : String) :
    Settled (segments ++ [.name text]) := by
  cases segments with
  | nil => simp [Settled]
  | cons first rest =>
      refine ⟨by simpa [Settled] using h.1, fun segment hs => ?_⟩
      simp only [List.cons_append, List.tail_cons, List.mem_append, List.mem_singleton] at hs
      rcases hs with hs | rfl
      · exact h.2 segment (by simpa using hs)
      · rfl

/-- One step of reading a path keeps the segments that are read so far settled. -/
theorem Settled.normalizeStep {stack : List Segment} (h : Settled stack.reverse) (segment : Segment) :
    Settled (Path.normalizeStep stack segment).reverse := by
  cases segment with
  | here => exact h
  | parent =>
      cases stack with
      | nil => simp [Path.normalizeStep, Settled]
      | cons top below =>
          simp only [List.reverse_cons] at h
          exact h.of_prefix (List.prefix_append _ _)
  | name text => simpa [Path.normalizeStep] using h.append_name text

theorem settled_foldl (segments : List Segment) {stack : List Segment} (h : Settled stack.reverse) :
    Settled (segments.foldl normalizeStep stack).reverse := by
  induction segments generalizing stack with
  | nil => exact h
  | cons segment rest ih => exact ih (h.normalizeStep segment)

/-- Settled segments are read as they stand. -/
theorem Settled.foldl_eq {segments : List Segment} (h : Settled segments) :
    segments.foldl Path.normalizeStep [] = segments.reverse := by
  induction segments using List.reverseRecOn with
  | nil => rfl
  | append_singleton front last ih =>
      have hfront := ih (h.of_prefix (List.prefix_append _ _))
      rw [List.foldl_append, hfront, List.reverse_append]
      cases last with
      | name text => rfl
      | here =>
          cases front with
          | nil => simp [Settled] at h
          | cons first rest => simpa [Segment.isName] using h.2 .here (by simp)
      | parent =>
          cases front with
          | nil => rfl
          | cons first rest => simpa [Segment.isName] using h.2 .parent (by simp)

/-! ## Normal forms -/

theorem isNormal_iff {path : Path} : path.IsNormal ↔ Settled path.segments := by
  constructor
  · intro h
    rw [← h]
    exact settled_foldl _ settled_nil
  · intro h
    simp [IsNormal, normalize, h.foldl_eq]

@[simp]
theorem isNormal_normalize (path : Path) : path.normalize.IsNormal :=
  isNormal_iff.mpr (settled_foldl _ settled_nil)

theorem IsNormal.eq {path : Path} (h : path.IsNormal) : path.normalize = path := h

theorem IsNormal.withFileName {path : Path} (h : path.IsNormal) (name : String) :
    (path.withFileName name).IsNormal := by
  rw [isNormal_iff] at h ⊢
  exact (h.of_prefix (List.dropLast_prefix _)).append_name name

theorem IsNormal.appendText {path : Path} (h : path.IsNormal) (suffix : String) :
    (path.appendText suffix).IsNormal := by
  unfold Path.appendText
  split
  · exact h.withFileName _
  · exact isNormal_iff.mpr (by simp [Settled])

theorem IsNormal.withExtension {path : Path} (h : path.IsNormal) (extension : String) :
    (path.withExtension extension).IsNormal := by
  unfold Path.withExtension
  split
  · exact h.withFileName _
  · exact h

theorem IsNormal.join_name {path : Path} (h : path.IsNormal) (name : String) :
    (path.join { segments := [.name name] }).IsNormal := by
  rw [isNormal_iff] at h ⊢
  unfold Path.join
  split
  · simp [Settled]
  · split
    · simp [Settled]
    · simpa using h.append_name name

end Path

end ApiImpact

/-!
# Paths as lists of steps

A path lies below another one if its steps begin with those of the other. The steps of paths that come
from text can be read back from their names.
-/

namespace ApiImpact

/-- No piece between separators holds a separator. -/
theorem Text.eq_false_of_mem_splitAtChars {p : Char → Bool} {text piece : List Char}
    (hp : piece ∈ splitAtChars p text) : ∀ c ∈ piece, p c = false := by
  induction text generalizing piece with
  | nil => simp_all [splitAtChars]
  | cons d rest ih =>
      rw [splitAtChars] at hp
      split at hp
      · rcases List.mem_cons.mp hp with rfl | hp
        · simp
        · exact ih hp
      · rename_i hd
        generalize he : splitAtChars p rest = pieces at hp ih
        cases pieces with
        | nil => simp_all [consToHead]
        | cons word words =>
            rcases List.mem_cons.mp hp with rfl | hp
            · intro c hc
              rcases List.mem_cons.mp hc with rfl | hc
              · simpa using hd
              · exact ih (by simp) c hc
            · exact ih (by simp [hp])

namespace Path

/-- The root of the file system is no step inside a path. -/
theorem map_some_ne (segments : List Segment) (front back : List (Option Segment)) :
    segments.map some ≠ front ++ none :: back := by
  intro he
  have : none ∈ segments.map some := by simp [he]
  simp at this

/-- Steps make a path if the root of the file system is at most the first of them. -/
theorem exists_steps_eq_iff {steps : List (Option Segment)} :
    (∃ path : Path, path.steps = steps) ↔ none ∉ steps.tail := by
  constructor
  · rintro ⟨⟨absolute, segments⟩, rfl⟩
    cases absolute
    · cases segments <;> simp [Path.steps]
    · simp [Path.steps]
  · intro h
    have hnames (steps : List (Option Segment)) (h : none ∉ steps) :
        (steps.filterMap id).map some = steps := by
      induction steps with
      | nil => rfl
      | cons step rest ih =>
          cases step with
          | none => simp at h
          | some segment => simpa using ih (by simpa using h)
    rcases steps with _ | ⟨_ | segment, rest⟩
    · exact ⟨{}, rfl⟩
    · exact ⟨⟨true, rest.filterMap id⟩, by simpa [Path.steps] using hnames rest h⟩
    · exact ⟨⟨false, segment :: rest.filterMap id⟩, by simpa [Path.steps] using hnames rest h⟩

theorem none_notMem_tail_steps (path : Path) : none ∉ path.steps.tail :=
  exists_steps_eq_iff.mp ⟨path, rfl⟩

/-- Whatever ends the steps of a path is a path. -/
theorem exists_steps_eq_of_append {path : Path} {front back : List (Option Segment)}
    (h : path.steps = front ++ back) : ∃ inner : Path, inner.steps = back := by
  refine exists_steps_eq_iff.mpr fun hn => path.none_notMem_tail_steps ?_
  cases front with
  | nil => simpa [h] using hn
  | cons first rest => simpa [h] using Or.inr (List.mem_of_mem_tail hn)

theorem filterMap_steps (path : Path) : path.steps.filterMap id = path.segments := by
  obtain ⟨absolute, segments⟩ := path
  cases absolute <;> simp [steps]

theorem IsNormal.of_prefix_steps {directory path : Path} (hp : directory.steps <+: path.steps)
    (h : path.IsNormal) : directory.IsNormal := by
  rw [isNormal_iff, ← filterMap_steps] at h ⊢
  exact h.of_prefix (hp.filterMap id)

/-! ## What lies below a path -/

theorem isPrefixOf_and_drop_eq_iff {base segments inner : List Segment} :
    base.isPrefixOf segments = true ∧ segments.drop base.length = inner ↔ segments = base ++ inner := by
  rw [List.isPrefixOf_iff_prefix]
  constructor
  · rintro ⟨hp, rfl⟩
    exact (List.prefix_iff_eq_append.mp hp).symm
  · rintro rfl
    simp

/-- What remains of a path below another one are its steps behind the steps of that one. -/
theorem relativeTo?_eq_some_iff {base path inner : Path} :
    relativeTo? base path = some inner ↔ path.steps = base.steps ++ inner.steps := by
  obtain ⟨ba, bs⟩ := base
  obtain ⟨pa, ps⟩ := path
  obtain ⟨ia, is⟩ := inner
  have hmap : ps.map some = bs.map some ++ is.map some ↔
      bs.isPrefixOf ps = true ∧ ps.drop bs.length = is := by
    rw [isPrefixOf_and_drop_eq_iff, ← List.map_append, List.map_inj_right (by simp)]
  have hinner (back) := map_some_ne ps (bs.map some) back
  have hfirst (segments : List Segment) (back) := map_some_ne segments [] back
  have hfirst' (segments : List Segment) (back) := (map_some_ne segments [] back).symm
  cases ba <;> cases pa <;> cases ia <;> cases bs <;> simp_all [relativeTo?, steps]

theorem isUnder_iff {base path : Path} : base.isUnder path ↔ base.steps <+: path.steps := by
  rw [isUnder, Option.isSome_iff_exists]
  constructor
  · rintro ⟨inner, h⟩
    exact ⟨inner.steps, (relativeTo?_eq_some_iff.mp h).symm⟩
  · rintro ⟨back, h⟩
    obtain ⟨inner, rfl⟩ := exists_steps_eq_of_append h.symm
    exact ⟨inner, relativeTo?_eq_some_iff.mpr h.symm⟩

/-! ## Segments from text -/

end Path

/-- The segment is one that text between slashes stands for. -/
def Segment.IsWritten : Segment → Prop
  | name text => text.toList ≠ [] ∧ text.toList ≠ ['.'] ∧ text.toList ≠ ['.', '.'] ∧ '/' ∉ text.toList
  | _ => True

theorem Segment.isWritten_ofPiece {piece : List Char} (hne : piece ≠ []) (hs : '/' ∉ piece) :
    (ofPiece piece).IsWritten := by
  unfold ofPiece
  split_ifs with hdot hdots
  · trivial
  · trivial
  · simp [IsWritten, hne, hs, hdot, hdots]

namespace Path

theorem isWritten_of_mem_ofString {text : String} {segment : Segment}
    (h : segment ∈ (ofString text).segments) : segment.IsWritten := by
  have hnamed (pieces : List (List Char)) (hp : ∀ piece ∈ pieces, '/' ∉ piece)
      (h : segment ∈ (pieces.filter fun piece => !piece.isEmpty && piece != ['.']).map Segment.ofPiece) :
      segment.IsWritten := by
    obtain ⟨piece, hm, rfl⟩ := List.mem_map.mp h
    rw [List.mem_filter] at hm
    have hne : piece ≠ [] := by rintro rfl; simp at hm
    exact Segment.isWritten_ofPiece hne (hp piece hm.1)
  have hpieces : ∀ piece ∈ Text.splitAtChars (· == '/') text.toList, '/' ∉ piece := by
    intro piece hp hs
    simpa using Text.eq_false_of_mem_splitAtChars hp '/' hs
  simp only [ofString] at h
  split at h
  · rename_i rest heq
    rcases List.mem_cons.mp h with rfl | h
    · trivial
    · exact hnamed rest (fun piece hp => hpieces piece (by simp [heq, hp])) h
  · rename_i rest heq
    exact hnamed rest (fun piece hp => hpieces piece (by simp [heq, hp])) h
  · exact hnamed _ hpieces h

/-- Normal forms have no segments of their own but `..`. -/
theorem mem_of_mem_normalize {path : Path} {segment : Segment} (h : segment ∈ path.normalize.segments) :
    segment ∈ path.segments ∨ segment = .parent := by
  have hfold (segments stack : List Segment) (h : segment ∈ segments.foldl normalizeStep stack) :
      segment ∈ segments ∨ segment ∈ stack ∨ segment = .parent := by
    induction segments generalizing stack with
    | nil => exact Or.inr (Or.inl h)
    | cons first rest ih =>
        rcases ih _ h with hr | hs | hp
        · exact Or.inl (by simp [hr])
        · cases first with
          | here => exact Or.inr (Or.inl hs)
          | parent => cases stack <;> simp_all [normalizeStep]
          | name text => simp_all [normalizeStep]; grind
        · exact Or.inr (Or.inr hp)
  simpa using hfold path.segments [] (by simpa [normalize] using h)

/-! ## Reading steps from their names -/

/-- The name under which a directory lists a step. -/
def stepName (step : Option Segment) : String := step.elim "/" Segment.text

theorem firstName?_eq (path : Path) : FileTree.firstName? path = path.steps.head?.map stepName := by
  obtain ⟨absolute, segments⟩ := path
  cases absolute <;> cases segments <;> rfl

theorem directoryNames_eq (path : Path) :
    ImportGraph.directoryNames path = path.steps.dropLast.map stepName := rfl

theorem ofString_text {segment : Segment} (hw : segment.IsWritten) (hne : segment ≠ .here) :
    ofString segment.text = { segments := [segment] } := by
  cases segment with
  | here => exact absurd rfl hne
  | parent => decide
  | name text =>
      obtain ⟨hnil, hdot, hdots, hs⟩ := hw
      have hpieces : Text.splitAtChars (· == '/') text.toList = [text.toList] :=
        Text.splitAtChars_of_forall fun c hc => by
          rw [beq_eq_false_iff_ne]
          rintro rfl
          exact hs hc
      simp only [ofString, Segment.text, hpieces]
      split
      · simp_all
      · simp_all
      · simp [Segment.ofPiece, hnil, hdot, hdots]

/-- A name that a directory lists leads one step further down. -/
theorem steps_join_ofString {directory : Path} {step : Option Segment}
    (hw : ∀ segment, step = some segment → segment.IsWritten ∧ segment ≠ .here)
    (hroot : step = none → directory.steps = []) :
    (directory.join (.ofString (stepName step))).steps = directory.steps ++ [step] := by
  cases step with
  | none =>
      have hslash : ofString (stepName none) = { absolute := true } := by decide
      rw [hslash, hroot rfl]
      rfl
  | some segment =>
      obtain ⟨hw, hne⟩ := hw segment rfl
      obtain ⟨absolute, segments⟩ := directory
      rw [stepName, Option.elim_some, ofString_text hw hne]
      cases absolute <;> cases segments <;> simp [join, steps, hne]

end Path

end ApiImpact

import Mathlib.Data.List.Basic
import ApiImpact.Path.Basic

/-!
# Where a path leads

A path is read from left to right: a name leads one level down, and `..` one level up again. Above the start of a relative path
the levels add up; at the root there is no level above. Normal forms keep the names that are reached, but of the levels above the
start only whether their number is odd: a second `..` takes off the first one as if it were a name.
-/

namespace ApiImpact.Path

/-! ## Reading a path -/

/-- Where the reading of a path stands: at the end of names that lead down, some levels above the start. -/
structure Location where
  above : Nat := 0
  names : List String := []
  deriving DecidableEq, Repr

namespace Location

/-- One step of the reading. At the root of an absolute path `..` leads nowhere else. -/
def step (absolute : Bool) (place : Location) : Segment → Location
  | .here => place
  | .parent =>
    if place.names ≠ [] then { place with names := place.names.dropLast }
    else if absolute then place
    else { place with above := place.above + 1 }
  | .name text => { place with names := place.names ++ [text] }

/-- The segments of the normal form of the paths that lead to a location. -/
def segments (place : Location) : List Segment :=
  (if place.above % 2 = 1 then [.parent] else []) ++ place.names.map .name

end Location

/-- The location to which the path leads. -/
def location (path : Path) : Location := path.segments.foldl (Location.step path.absolute) {}

/-- The steps of the path taken from a start that is no root. -/
def unrooted (path : Path) : Location := path.segments.foldl (Location.step false) {}

/-- How many `..` of the path find no name to take off. -/
def strays (path : Path) : Nat := path.unrooted.above

/-! ## Absolute and relative paths -/

namespace Location

variable {place other : Location} {stack : List Segment}

theorem step_root (place : Location) (segment : Segment) :
    step true { place with above := 0 } segment = { step false place segment with above := 0 } := by
  cases segment with
  | here => rfl
  | parent =>
      by_cases hnames : place.names = []
      · simp [step, hnames]
      · simp [step, hnames]
  | name text => rfl

/-- At the root the same names are reached, and nothing above. -/
theorem foldl_step_root (segments : List Segment) (place : Location) :
    segments.foldl (step true) { place with above := 0 } = { segments.foldl (step false) place with above := 0 } := by
  induction segments generalizing place with
  | nil => rfl
  | cons segment rest ih => rw [List.foldl_cons, step_root, ih, List.foldl_cons]

end Location

theorem location_eq (path : Path) : path.location = ⟨if path.absolute then 0 else path.strays, path.unrooted.names⟩ := by
  obtain ⟨absolute, segments⟩ := path
  cases absolute with
  | false => rfl
  | true => exact Location.foldl_step_root segments {}

theorem names_location (path : Path) : path.location.names = path.unrooted.names := by rw [location_eq]

/-! ## Normal forms by their locations -/

namespace Location

variable {place other : Location} {stack : List Segment}

/-- A step of the normal form follows the step of the reading. -/
theorem reverse_normalizeStep (h : stack.reverse = place.segments) (segment : Segment) :
    (normalizeStep stack segment).reverse = (place.step false segment).segments := by
  obtain ⟨above, names⟩ := place
  cases segment with
  | here => exact h
  | name text =>
      simp only [normalizeStep, List.reverse_cons, h, segments, step, List.map_append, List.map_cons, List.map_nil,
        List.append_assoc]
      rfl
  | parent =>
      -- the top of the stack is the last name, or the `..` that is kept, or there is none
      rcases List.eq_nil_or_concat names with rfl | ⟨front, last, rfl⟩
      · by_cases hodd : above % 2 = 1
        · obtain rfl : stack = [.parent] := by simpa [segments, hodd] using h
          have heven : (above + 1) % 2 = 0 := by omega
          simp [normalizeStep, step, segments, heven]
        · obtain rfl : stack = [] := by simpa [segments, hodd] using h
          have hodd' : (above + 1) % 2 = 1 := by omega
          simp [normalizeStep, step, segments, hodd']
      · have hstack : stack = .name last :: (segments ⟨above, front⟩).reverse := by
          rw [← List.reverse_inj, h]
          simp [segments]
        simp [hstack, normalizeStep, step]

theorem reverse_foldl_normalizeStep (path : List Segment) (h : stack.reverse = place.segments) :
    (path.foldl normalizeStep stack).reverse = (path.foldl (step false) place).segments := by
  induction path generalizing stack place with
  | nil => exact h
  | cons segment rest ih => exact ih (reverse_normalizeStep h segment)

theorem segments_inj : place.segments = other.segments ↔ place.names = other.names ∧ place.above % 2 = other.above % 2 := by
  have hmap : place.names.map Segment.name = other.names.map Segment.name ↔ place.names = other.names :=
    List.map_inj_right fun a b h => Segment.name.inj h
  have hne (names : List String) (more : List Segment) : names.map Segment.name ≠ .parent :: more := by
    cases names <;> simp
  have hne' (names : List String) (more : List Segment) : .parent :: more ≠ names.map Segment.name := (hne names more).symm
  by_cases hplace : place.above % 2 = 1 <;> by_cases hother : other.above % 2 = 1
  · simp [segments, hplace, hother, hmap]
  · simp [segments, hplace, hother, hne']
    omega
  · simp [segments, hplace, hother, hne]
  · simp only [segments, hplace, hother, if_false, List.nil_append, hmap, iff_self_and]
    omega

theorem foldl_step_names (absolute : Bool) (place : Location) (names : List String) :
    (names.map Segment.name).foldl (step absolute) place = { place with names := place.names ++ names } := by
  induction names generalizing place with
  | nil => simp
  | cons name names ih => simp [step, ih]

/-- Read again, the segments lead to the same names and at most one level above the start. -/
theorem foldl_step_segments (absolute : Bool) (place : Location) :
    place.segments.foldl (step absolute) {} = ⟨if absolute then 0 else place.above % 2, place.names⟩ := by
  rw [segments, List.foldl_append, foldl_step_names]
  have hparity : place.above % 2 = 0 ∨ place.above % 2 = 1 := by omega
  rcases hparity with hparity | hparity <;> cases absolute <;> simp [hparity, step]

end Location

theorem segments_normalize (path : Path) : path.normalize.segments = path.unrooted.segments :=
  Location.reverse_foldl_normalizeStep path.segments rfl

theorem location_normalize (path : Path) :
    path.normalize.location = ⟨if path.absolute then 0 else path.strays % 2, path.unrooted.names⟩ := by
  rw [location, segments_normalize]
  exact Location.foldl_step_segments path.absolute path.unrooted

theorem normalize_eq_iff {p q : Path} :
    p.normalize = q.normalize ↔ p.absolute = q.absolute ∧ p.unrooted.segments = q.unrooted.segments := by
  rw [← segments_normalize, ← segments_normalize]
  refine ⟨fun h => ?_, fun ⟨habsolute, hsegments⟩ => ?_⟩
  · have habsolute : p.normalize.absolute = q.normalize.absolute := congrArg Path.absolute h
    exact ⟨habsolute, congrArg Path.segments h⟩
  have hmk (path : Path) : path.normalize = ⟨path.absolute, path.normalize.segments⟩ := rfl
  rw [hmk p, hmk q, habsolute, hsegments]

/-- Two paths have the same normal form just when they are of one kind, reach the same names, and as many `..` of the one as of the
other find no name to take off, up to pairs. The normal form leads to where the path leads unless a relative path goes two levels or
more above its start. -/
theorem normalize_eq_iff_location (p q : Path) :
    (p.normalize = q.normalize ↔
      p.absolute = q.absolute ∧ p.location.names = q.location.names ∧ p.strays % 2 = q.strays % 2) ∧
    (p.normalize.location = p.location ↔ p.absolute = true ∨ p.strays ≤ 1) := by
  constructor
  · rw [normalize_eq_iff, Location.segments_inj, names_location, names_location, strays, strays]
  · rw [location_normalize, location_eq]
    cases p.absolute with
    | true => simp
    | false =>
        simp only [Bool.false_eq_true, if_false, false_or, Location.mk.injEq, and_true]
        omega

example : (ofString "../../a").normalize = ofString "a" := by decide +kernel

end ApiImpact.Path

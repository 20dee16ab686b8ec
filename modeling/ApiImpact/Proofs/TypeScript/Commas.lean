import ApiImpact.Proofs.Text.Offset
import ApiImpact.Proofs.TypeScript.Token
import ApiImpact.TypeScript.Surface

/-!
# Items between commas

A list of items with a comma and a blank between them is read one item after the other, if each item is read up to
the comma or the end behind it.
-/

/-!
## The text of a token

A place stands in a source when its text is what the source has there. The tree of a token that is read at such
a place has the token as its text.
-/

namespace ApiImpact.TypeScript

open Text

variable {source token front rest text : List Char} {offset offset' : Nat} {afterBreak afterBreak' : Bool}

/-- What is ahead of `s` is what `source` has at its offset. -/
def Spot.StandsIn (s : Spot) (source : List Char) : Prop :=
  ∃ before, source = before ++ s.ahead ∧ s.offset = byteLength before

theorem Spot.StandsIn.skip (h : (Spot.mk (front ++ rest) offset afterBreak).StandsIn source)
    (hoffset : offset' = offset + byteLength front) : (Spot.mk rest offset' afterBreak').StandsIn source := by
  obtain ⟨before, hsource, hbefore⟩ := h
  refine ⟨before ++ front, by simp [hsource], ?_⟩
  dsimp only at hbefore ⊢
  rw [hoffset, hbefore, byteLength_append]

theorem Spot.StandsIn.slice? (h : (Spot.mk (token ++ rest) offset afterBreak).StandsIn source) :
    slice? source offset (offset + byteLength token) = some token := by
  obtain ⟨before, rfl, hbefore⟩ := h
  have hslice := slice?_append before token rest
  rwa [byteLength_append, ← hbefore] at hslice

theorem Spot.StandsIn.textOf (h : (Spot.mk (token ++ rest) offset afterBreak).StandsIn source) (label : Label) :
    textOf source (.ofToken label offset token) = token := by
  rw [TypeScript.textOf, Tree.ofToken, Tree.start, Tree.stop, h.slice?]
  rfl

end ApiImpact.TypeScript

namespace ApiImpact.TypeScript

open Text Reading

variable {α : Type}

/-- Items behind the first one, each behind a comma. -/
def commaed (chars : α → List Char) (items : List α) : List Char :=
  items.flatMap fun item => ", ".toList ++ chars item

theorem commaed_cons (chars : α → List Char) (item : α) (items : List α) (tail : List Char) :
    commaed chars (item :: items) ++ tail = ',' :: ' ' :: (chars item ++ (commaed chars items ++ tail)) := by
  simp [commaed]

theorem byteLength_commaed_cons (chars : α → List Char) (item : α) (items : List α) :
    byteLength (commaed chars (item :: items)) = 2 + byteLength (chars item) + byteLength (commaed chars items) := by
  rw [commaed, List.flatMap_cons, byteLength_append, byteLength_append]
  rfl

theorem intercalate_map (chars : α → List Char) (item : α) (items : List α) :
    ", ".toList.intercalate ((item :: items).map chars) = chars item ++ commaed chars items := by
  induction items generalizing item with
  | nil => simp [List.intercalate, commaed]
  | cons next items ih =>
      have hstep : ", ".toList.intercalate ((item :: next :: items).map chars) =
          chars item ++ (", ".toList ++ ", ".toList.intercalate ((next :: items).map chars)) := by
        simp [List.intercalate]
      rw [hstep, ih, commaed, commaed, List.flatMap_cons, List.append_assoc]

/-- The reader reads an item as a tree of `kind`, if what stands behind it ends items. -/
structure ReadsItems (reader : Reading Tree) (chars : α → List Char) (ends : List Char → Prop) (items : List α)
    (kind : Kind) (source : List Char) (is : α → Tree → Prop) : Prop where
  read : ∀ item ∈ items, ∀ rest, ends rest → ∀ offset, ∃ tree,
    Reads reader ⟨chars item ++ rest, offset, false⟩ tree (.behind rest (offset + byteLength (chars item))) ∧
      ((Spot.mk (chars item ++ rest) offset false).StandsIn source → is item tree)
  starts : ∀ item ∈ items, ∀ rest, StartsToken (chars item ++ rest)
  comma : ∀ rest, ends (',' :: ' ' :: rest)
  kind : ∀ item tree, is item tree → tree.is kind = true

variable {reader : Reading Tree} {chars : α → List Char} {ends : List Char → Prop} {items : List α} {kind : Kind}
  {source tail : List Char} {is : α → Tree → Prop} {item : α}

theorem ReadsItems.of_cons (h : ReadsItems reader chars ends (item :: items) kind source is) :
    ReadsItems reader chars ends items kind source is where
  read := fun a ha => h.read a (List.mem_cons_of_mem _ ha)
  starts := fun a ha => h.starts a (List.mem_cons_of_mem _ ha)
  comma := h.comma
  kind := h.kind

theorem ReadsItems.ends_commaed (h : ReadsItems reader chars ends items kind source is) (htail : ends tail) :
    ends (commaed chars items ++ tail) := by
  cases items with
  | nil => exact htail
  | cons item items =>
      rw [commaed_cons]
      exact h.comma _

theorem ReadsItems.runs (h : ReadsItems reader chars ends items kind source is) (htail : ends tail) (offset : Nat) :
    ∃ runs, Runs (do return [← sign ",", ← reader]) (.behind (commaed chars items ++ tail) offset) runs
        (.behind tail (offset + byteLength (commaed chars items))) ∧ runs.length = items.length ∧
      ((Spot.mk (commaed chars items ++ tail) offset false).StandsIn source →
        List.Forall₂ is items (runs.flatten.filter (·.is kind))) := by
  induction items generalizing offset with
  | nil => exact ⟨[], .nil _, rfl, fun _ => .nil⟩
  | cons item items ih =>
      have hstart := h.starts item List.mem_cons_self (commaed chars items ++ tail)
      have hcomma : Reads (sign ",") ⟨',' :: ' ' :: (chars item ++ (commaed chars items ++ tail)), offset, false⟩
          (.ofToken (.token ",") offset [',']) ⟨chars item ++ (commaed chars items ++ tail), offset + 2, false⟩ :=
        (reads_sign rfl (signAt_of_mem_loneSigns (by decide))).cast (behind_blank hstart _)
      obtain ⟨tree, htree, his⟩ := h.read item List.mem_cons_self _ (h.of_cons.ends_commaed htail) (offset + 2)
      obtain ⟨runs, hruns, hlength, hall⟩ := ih h.of_cons (offset + 2 + byteLength (chars item))
      have hoffset : offset + 2 + byteLength (chars item) + byteLength (commaed chars items) =
          offset + byteLength (commaed chars (item :: items)) := by
        rw [byteLength_commaed_cons]
        omega
      rw [hoffset] at hruns
      rw [commaed_cons, behind_of_startsToken (startsToken_cons (by decide) (by decide) (by decide))]
      refine ⟨_, .cons (hcomma.bind (htree.bind (reads_pure _ _))) hruns, by simp [hlength], fun hsource => ?_⟩
      have hcommas : (Spot.mk ([',', ' '] ++ (chars item ++ (commaed chars items ++ tail))) offset false).StandsIn source :=
        hsource
      have hhere : (Spot.mk (chars item ++ (commaed chars items ++ tail)) (offset + 2) false).StandsIn source :=
        hcommas.skip rfl
      rw [List.flatten_cons, List.cons_append, List.filter_cons_of_neg (by rintro ⟨⟩), List.singleton_append,
        List.filter_cons, if_pos (h.kind _ _ (his hhere))]
      exact .cons (his hhere) (hall (hhere.skip rfl))

end ApiImpact.TypeScript

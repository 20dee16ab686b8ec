import ApiImpact.Capture
import ApiImpact.Proofs.Change.Unchanged
import ApiImpact.Proofs.Result
import ApiImpact.Proofs.Text.Mask
import ApiImpact.Proofs.Text.Shade

/-!
# Comments in scripts

A script is read through its masks and the lines of its offsets. These are the same when its comments are
blanked out, so comments show in nothing but the fingerprint of a snapshot.
-/

namespace ApiImpact

open Text

namespace Text

/-- `text` with its comments blanked out. -/
def uncommented (text : String) : String :=
  .ofList (withoutComments text.toList)

@[simp] theorem toList_uncommented (text : String) :
    (uncommented text).toList = withoutComments text.toList :=
  String.toList_ofList

theorem utf8ByteSize_ofList_eq_byteLength (text : List Char) :
    (String.ofList text).utf8ByteSize = byteLength text := by
  induction text with
  | nil => rfl
  | cons c text ih =>
      rw [String.ofList_cons, String.utf8ByteSize_append, String.utf8ByteSize_singleton, ih, byteLength_cons]

theorem utf8ByteSize_uncommented (text : String) :
    (uncommented text).utf8ByteSize = text.utf8ByteSize := by
  calc
    _ = byteLength (withoutComments text.toList) := utf8ByteSize_ofList_eq_byteLength _
    _ = byteLength text.toList := by rw [withoutComments, byteLength_hide, map_fst_shades]
    _ = text.utf8ByteSize := by rw [← utf8ByteSize_ofList_eq_byteLength, String.ofList_toList]

end Text

/-! ## What is read of a script -/

theorem Script.Source.of_withoutComments (script : List Char) :
    of (withoutComments script) = of script := by
  rw [of, of, positionOf_withoutComments, withoutComments_withoutComments, codeOnly_withoutComments]

theorem ModuleReference.Masks.of_withoutComments (source : List Char) :
    of (withoutComments source) = of source := by
  rw [of, of, positionOf_withoutComments, withoutComments_withoutComments, codeOnly_withoutComments]

theorem ModuleReference.extract_uncommented (text : String) :
    extract (uncommented text) = extract text := by
  rw [extract, extract, toList_uncommented, Masks.of_withoutComments]

theorem Script.extract_uncommented (filePath : String) (language : Language) (text : String) :
    extract filePath language (uncommented text) = extract filePath language text := by
  rw [extract, extract, toList_uncommented, Source.of_withoutComments, ModuleReference.extract_uncommented]

theorem Script.moduleSystem_uncommented (text : String) :
    moduleSystem (uncommented text) = moduleSystem text := by
  rw [moduleSystem, moduleSystem, toList_uncommented, codeOnly_withoutComments]

/-! ## Snapshots -/

variable {settings : Settings} {filePath text text' : String} {manifest : Option String}
  {language : Language}

/-- Files at this path are read as scripts without types. -/
def Path.IsUntyped (path : Path) : Prop :=
  ∀ language ∈ Language.ofPath? path, language.isTyped = false

instance (path : Path) : Decidable path.IsUntyped :=
  inferInstanceAs (Decidable (∀ language ∈ Language.ofPath? path, language.isTyped = false))

theorem Path.IsUntyped.isTyped_eq_false {path : Path} (h : path.IsUntyped) :
    ((Language.ofPath? path).getD .javaScript).isTyped = false := by
  cases ho : Language.ofPath? path with
  | none => rfl
  | some language => exact h language ho

namespace Snapshot

theorem surfaceOf_uncommented (h : language.isTyped = false) :
    surfaceOf settings filePath (uncommented text) language = surfaceOf settings filePath text language := by
  simp only [surfaceOf, utf8ByteSize_uncommented, h, Script.extract_uncommented, Bool.false_eq_true,
    if_false]

theorem capture_uncommented (h : (Path.ofString filePath).IsUntyped) (settings : Settings)
    (text : String) (manifest : Option String) :
    capture settings filePath (uncommented text) manifest =
      (capture settings filePath text manifest).map
        fun s => { s with fingerprint := Text.fingerprint (uncommented text) } := by
  simp only [capture, surfaceOf_uncommented h.isTyped_eq_false, Script.moduleSystem_uncommented]
  cases surfaceOf settings filePath text ((Language.ofPath? (.ofString filePath)).getD .javaScript) <;> rfl

theorem fingerprint_of_capture {s : Snapshot} (h : capture settings filePath text manifest = .ok s) :
    s.fingerprint = Text.fingerprint text := by
  obtain ⟨surface, -, h⟩ := bind_eq_ok_iff.mp h
  cases h
  rfl

/-- What a snapshot of a file without types lists is found in its script, unless the file is too large to be read. -/
theorem exists_extract_of_capture {s : Snapshot} (hpath : (Path.ofString filePath).IsUntyped)
    (h : capture settings filePath text manifest = .ok s) : ∃ surface, s.symbols = surface.symbols ∧ s.exports = surface.exports ∧
      (surface.symbols = [] ∧ surface.exports = [] ∨
        Script.extract filePath ((Language.ofPath? (.ofString filePath)).getD .javaScript) text = .ok surface) := by
  obtain ⟨surface, hsurface, h⟩ := bind_eq_ok_iff.mp h
  cases h
  refine ⟨surface, rfl, rfl, ?_⟩
  rw [surfaceOf, hpath.isTyped_eq_false, if_neg Bool.false_ne_true] at hsurface
  split_ifs at hsurface
  · cases hsurface
    exact .inl ⟨rfl, rfl⟩
  · exact .inr hsurface

theorem eq_of_withoutComments_eq {before after : Snapshot} (h : (Path.ofString filePath).IsUntyped)
    (htext : withoutComments text.toList = withoutComments text'.toList)
    (hbefore : capture settings filePath text manifest = .ok before)
    (hafter : capture settings filePath text' manifest = .ok after) :
    after = { before with fingerprint := after.fingerprint } := by
  have hsame : uncommented text = uncommented text' := congrArg String.ofList htext
  have hcapture := capture_uncommented h settings text manifest
  rw [hsame, capture_uncommented h, hbefore, hafter] at hcapture
  exact congrArg ({ · with fingerprint := after.fingerprint }) (Except.ok.inj hcapture)

/-- Comments have no part in what is read of a source without types, nor in the references of any source.
So nothing changed between texts that differ in their comments only. -/
theorem comments_ignored :
    (∀ text, ModuleReference.extract (uncommented text) = ModuleReference.extract text) ∧
    ∀ (settings : Settings) (filePath : String) (manifest : Option String),
      (Path.ofString filePath).IsUntyped →
        (∀ text, capture settings filePath (uncommented text) manifest =
          (capture settings filePath text manifest).map
            fun s => { s with fingerprint := Text.fingerprint (uncommented text) }) ∧
        ∀ (threshold : UInt8) (text text' : String) (before after : Snapshot),
          withoutComments text.toList = withoutComments text'.toList →
          capture settings filePath text manifest = .ok before →
          capture settings filePath text' manifest = .ok after →
            (SurfaceChange.between threshold before after).isEmpty = true := by
  refine ⟨ModuleReference.extract_uncommented, fun settings filePath manifest h => ⟨fun text => ?_, ?_⟩⟩
  · exact capture_uncommented h settings text manifest
  · intro threshold text text' before after htext hbefore hafter
    rw [eq_of_withoutComments_eq h htext hbefore hafter]
    exact SurfaceChange.isEmpty_between_fingerprint threshold before _

/-- Two texts with one comment each, and the second one without it. -/
theorem comments_ignored_of_export :
    let text := "/* one */ export const a = 1;\n"
    let text' := "/* two */ export const a = 1;\n"
    uncommented text' = "          export const a = 1;\n" ∧
    ∃ before after, capture {} "m.js" text none = .ok before ∧ capture {} "m.js" text' none = .ok after ∧
      capture {} "m.js" (uncommented text') none =
        .ok { after with fingerprint := Text.fingerprint (uncommented text') } ∧
      before.fingerprint ≠ after.fingerprint ∧ (SurfaceChange.between 2 before after).isEmpty = true := by
  intro text text'
  have h : (Path.ofString "m.js").IsUntyped := by decide +kernel
  obtain ⟨before, hbefore⟩ : ∃ s, capture {} "m.js" text none = .ok s :=
    isOk_iff.mp (by decide +kernel)
  obtain ⟨after, hafter⟩ : ∃ s, capture {} "m.js" text' none = .ok s :=
    isOk_iff.mp (by decide +kernel)
  obtain ⟨hcapture, hbetween⟩ := comments_ignored.2 {} "m.js" none h
  refine ⟨by decide +kernel, before, after, hbefore, hafter, ?_, ?_, ?_⟩
  · rw [hcapture, hafter]
    rfl
  · rw [fingerprint_of_capture hbefore, fingerprint_of_capture hafter]
    decide +kernel
  · exact hbetween 2 text text' before after (by decide +kernel) hbefore hafter

end Snapshot

end ApiImpact

import ApiImpact.Proofs.Surface.Entries
import ApiImpact.TypeScript.Surface
import ApiImpact.Capture
import ApiImpact.Proofs.Script.Growth

/-!
# Identities in a snapshot

Whatever is taken into an empty snapshot, each of its lists ends up with the first entry of every identity. Both
ways of reading a file only take entries in, so this holds of every snapshot of a file; and what they publish is
marked as exported and stands in the list of its kind.
-/

/-! ## How statements grow a typed surface

No statement takes an export or a declaration away, or changes one that is there.
-/

namespace ApiImpact.TypeScript

variable {source : List Char} {first found : Collection} {line : Nat} {module : Option String}

theorem grows_addDefaultValue (h : first.Grows found) (style : ExportStyle) (value : Tree) :
    first.Grows (addDefaultValue source found line style value) := by
  unfold addDefaultValue
  extract_lets entry name own
  split_ifs
  · exact (h.refer name).addExport _
  · exact (h.publish _).addExport _
  · exact (h.publish _).addExport _
  · exact (h.publish _).addExport _
  · exact h.addExport _
  · exact h.addExport _

theorem grows_addSpecifier (h : first.Grows found) (specifier : Tree) :
    first.Grows (addSpecifier source line module found specifier) := by
  unfold addSpecifier
  split
  · exact h
  · extract_lets localName publicName
    cases module with
    | none => exact (h.refer localName).addExport _
    | some module => exact h.addExport _

theorem grows_addExportedNames (h : first.Grows found) (part : Tree) :
    first.Grows (addExportedNames source line module found part) := by
  unfold addExportedNames
  split_ifs
  · exact List.foldlRecOn _ _ h fun found h specifier _ => grows_addSpecifier h specifier
  · split
    · exact h.addExport _
    · exact h
  · exact h

theorem grows_addReexport (h : first.Grows found) (statement : Tree) :
    first.Grows (addReexport source found line statement) := by
  unfold addReexport
  extract_lets module names
  have hnames : first.Grows names := List.foldlRecOn _ _ h fun found h part _ => grows_addExportedNames h part
  split_ifs
  · exact hnames.addExport _
  · exact hnames

theorem grows_addExportStatement (h : first.Grows found) (statement : Tree) :
    first.Grows (addExportStatement source found statement) := by
  unfold addExportStatement
  extract_lets line
  split
  · exact List.foldlRecOn _ _ h fun found h declared _ => (h.publish _).addExport _
  · exact grows_addDefaultValue h _ _
  · split_ifs
    · split
      · exact grows_addDefaultValue h _ _
      · exact h
    · exact grows_addReexport h statement

theorem grows_addStatement (h : first.Grows found) (statement : Tree) :
    first.Grows (addStatement source found statement) := by
  unfold addStatement
  split_ifs
  · exact grows_addExportStatement h statement
  · unfold addImportStatement
    dsimp only
    split
    · exact h
    · exact h.addImport _
  · exact h

/-- The surface of a typed source is collected from nothing. -/
theorem isCollected_surface (filePath : String) (language : Language) (text : String) :
    (surface filePath language text).IsCollected := by
  unfold surface
  extract_lets source parsed statements empty first
  have hall : first.Grows (statements.foldl (addStatement source) first) :=
    List.foldlRecOn _ _ .refl fun found h statement _ => grows_addStatement h statement
  exact ⟨first, _, hall, rfl, rfl, rfl, rfl⟩

end ApiImpact.TypeScript

namespace ApiImpact.Snapshot

variable {settings : Settings} {filePath text : String} {manifest : Option String} {s : Snapshot}

theorem isCollected_of_capture (h : capture settings filePath text manifest = .ok s) : s.IsCollected := by
  obtain ⟨surface, hsurface, h⟩ := bind_eq_ok_iff.mp h
  cases h
  have hcollected : surface.IsCollected := by
    unfold surfaceOf at hsurface
    split_ifs at hsurface
    · cases hsurface
      exact ⟨{ snapshot := { filePath, language := _, status := .failed } }, _, .refl, rfl, rfl, rfl, rfl⟩
    · cases hsurface
      exact TypeScript.isCollected_surface _ _ _
    · exact Script.isCollected_of_extract hsurface
  exact hcollected

/-- The symbol is marked as exported, and the list of its kind alone has it. -/
def Publishes (s : Snapshot) (symbol : Symbol) : Prop :=
  symbol.exported = true ∧ ∀ shelf, symbol ∈ s.shelf shelf ↔ shelf = symbol.kind.shelf

/-- A snapshot that entries were taken into holds the first entry of every identity, so its identities are unique
and no entry is lost when they are looked up. Every snapshot of a file is one of these, and all its symbols are
published. -/
theorem identities_unique :
    (∀ (s : Snapshot) (entries : List Entry), s.symbols = [] → s.exports = [] →
      (s.addAll entries).Records entries ∧ (s.addAll entries).IsIndexed) ∧
    ∀ (settings : Settings) (filePath text : String) (manifest : Option String) (s : Snapshot),
      capture settings filePath text manifest = .ok s →
      (∃ entries, Collection.AllPublished entries ∧ s.Records entries) ∧ s.IsIndexed ∧
        ∀ symbol ∈ s.symbols, s.Publishes symbol := by
  refine ⟨fun s entries hsymbols hexports => ?_, fun settings filePath text manifest s h => ?_⟩
  · have hrecords := records_addAll hsymbols hexports entries
    exact ⟨hrecords, hrecords.isIndexed⟩
  · obtain ⟨entries, hpublished, hrecords⟩ := (isCollected_of_capture h).exists_records
    refine ⟨⟨entries, hpublished, hrecords⟩, hrecords.isIndexed, fun symbol hm => ⟨?_, fun shelf => ?_⟩⟩
    · have hshelf : symbol ∈ s.shelf symbol.shelf := List.mem_filter.mpr ⟨hm, beq_self_eq_true symbol.shelf⟩
      exact hpublished symbol (hrecords.mem_of_mem_shelf hshelf)
    · rw [Snapshot.shelf, List.mem_filter, beq_iff_eq]
      exact ⟨fun hmem => hmem.2.symm, fun hshelf => ⟨hm, hshelf.symm⟩⟩

/-- A script that exports one function under two names and another one twice. -/
theorem identities_unique_of_repeated :
    let text := "export function f() \x7b\x7d\nfunction g() \x7b\x7d\nexport \x7b f as h, f, g \x7d;\nexport \x7b g \x7d;\n"
    ∃ s, capture {} "m.js" text none = .ok s ∧ s.symbols.map (·.name) = ["f", "g"] ∧
      s.exports.map (·.name) = ["f", "h", "g"] ∧ (∃ entries, Collection.AllPublished entries ∧ s.Records entries) ∧
      s.IsIndexed := by
  intro text
  have hshown : (capture {} "m.js" text none).toOption.map (fun s => (s.symbols.map (·.name), s.exports.map (·.name))) =
      some (["f", "g"], ["f", "h", "g"]) := by
    decide +kernel
  cases hcapture : capture {} "m.js" text none with
  | error cause => simp [hcapture, Except.toOption] at hshown
  | ok s =>
      have hshown : s.symbols.map (·.name) = ["f", "g"] ∧ s.exports.map (·.name) = ["f", "h", "g"] := by
        simpa [hcapture, Except.toOption] using hshown
      obtain ⟨hrecords, hindexed, -⟩ := identities_unique.2 {} "m.js" text none s hcapture
      exact ⟨s, rfl, hshown.1, hshown.2, hrecords, hindexed⟩

end ApiImpact.Snapshot

import ApiImpact.Proofs.Surface.Contents
import ApiImpact.Proofs.TypeScript.Yields
import ApiImpact.TypeScript.Surface

/-!
# What statements add to a typed surface

Declarations go by one name, and an export stands for everything of a module only where the statement names the
module.
-/

namespace ApiImpact.TypeScript

variable {source : List Char} {found : Collection} {line : Nat} {declared : Local} {tree statement part : Tree}
  {module : Option String}

/-! ## Declarations -/

theorem isRegular_of_variableLocal? {keyword : String} (h : variableLocal? source keyword tree = some declared) :
    declared.IsRegular := by
  rw [variableLocal?] at h
  obtain ⟨nameNode, -, h⟩ := Option.bind_eq_some_iff.mp h
  split_ifs at h
  dsimp only at h
  split at h
  · split_ifs at h <;> cases h <;> exact ⟨rfl, nofun⟩
  · cases h
    exact ⟨rfl, nofun⟩

theorem isRegular_of_mem_plainLocals (h : declared ∈ plainLocals source tree) : declared.IsRegular := by
  have hnamed {name : Option Tree} {make : Tree → Symbol} (hmake : ∀ t, (make t).qualifiedName = (make t).name)
      (h : declared ∈ name.toList.map fun t => (⟨make t, .ofSymbol (make t).kind⟩ : Local)) : declared.IsRegular := by
    obtain ⟨t, -, rfl⟩ := List.mem_map.mp h
    refine ⟨hmake t, ?_⟩
    cases (make t).kind <;> exact nofun
  have hvariables {keyword : String} {ts : List Tree}
      (h : declared ∈ ts.filterMap (variableLocal? source keyword)) : declared.IsRegular := by
    obtain ⟨t, -, ht⟩ := List.mem_filterMap.mp h
    exact isRegular_of_variableLocal? ht
  unfold plainLocals at h
  dsimp only at h
  split at h
  case h_8 =>
    split at h
    · exact hnamed (fun _ => rfl) h
    · cases h
  all_goals first | exact hnamed (fun _ => rfl) h | exact hvariables h | cases h

theorem isRegular_of_mem_localsOf (h : declared ∈ localsOf source tree) : declared.IsRegular := by
  unfold localsOf at h
  split_ifs at h
  · obtain ⟨t, -, ht⟩ := List.mem_flatMap.mp h
    exact isRegular_of_mem_plainLocals ht
  · exact isRegular_of_mem_plainLocals h

theorem isRegular_of_mem_localsOfStatement (h : declared ∈ localsOfStatement source statement) :
    declared.IsRegular := by
  unfold localsOfStatement at h
  split_ifs at h
  · cases hdeclaration : statement.child? .declaration with
    | none => simp [hdeclaration] at h
    | some declaration =>
        rw [hdeclaration] at h
        exact isRegular_of_mem_localsOf h
  · exact isRegular_of_mem_localsOf h

/-! ## Exports -/

theorem consists_addDefaultValue (h : found.Consists Export.HasSource) (style : ExportStyle) (value : Tree) :
    (addDefaultValue source found line style value).Consists Export.HasSource := by
  unfold addDefaultValue
  extract_lets entry name own
  have hentry {kind : ExportKind} (name : Option String) (hkind : kind ≠ .star) : (entry kind name).HasSource :=
    Export.hasSource_of_ne hkind
  split_ifs
  · obtain ⟨hrefer, hkind⟩ := h.refer name
    exact hrefer.addExport (hentry _ hkind)
  · exact (h.publish rfl).addExport (hentry _ nofun)
  · exact (h.publish rfl).addExport (hentry _ nofun)
  · exact (h.publish rfl).addExport (hentry _ nofun)
  · exact h.addExport (hentry _ nofun)
  · exact h.addExport (hentry _ nofun)

theorem consists_addExportedLocal (h : found.Consists Export.HasSource) (isDefault : Bool)
    (hdeclared : declared.IsRegular) : (addExportedLocal line isDefault found declared).Consists Export.HasSource := by
  unfold addExportedLocal
  refine (h.publish hdeclared.name_eq).addExport ?_
  split_ifs <;> exact Export.hasSource_of_ne hdeclared.single

theorem consists_addSpecifier (h : found.Consists Export.HasSource) (specifier : Tree) :
    (addSpecifier source line module found specifier).Consists Export.HasSource := by
  unfold addSpecifier
  split
  · exact h
  · extract_lets localName publicName
    cases module with
    | none =>
        obtain ⟨hrefer, hkind⟩ := h.refer localName
        refine hrefer.addExport (Export.hasSource_of_ne ?_)
        split_ifs <;> exact hkind
    | some module => exact h.addExport fun _ => rfl

theorem consists_addExportedNames (h : found.Consists Export.HasSource)
    (hmodule : part.label = .node .namespaceExport → module.isSome) :
    (addExportedNames source line module found part).Consists Export.HasSource := by
  unfold addExportedNames
  split_ifs with hclause hnamespace
  · exact List.foldlRecOn _ _ h fun found h specifier _ => consists_addSpecifier h specifier
  · split
    · exact h.addExport fun _ => hmodule (eq_of_beq hnamespace)
    · exact h
  · exact h

theorem child?_isSome {role : Role} {t : Tree} (hmem : t ∈ tree.children) (hrole : t.role = some role) :
    (tree.child? role).isSome :=
  List.find?_isSome.mpr ⟨t, hmem, by simp [hrole]⟩

/-- A star in an export statement without a declaration or value stands before the word `from`. -/
theorem source_isSome_of_star (hsourced : Grammar.IsSourcedExport statement)
    (hexport : statement.label = .node .exportStatement) (hdeclaration : statement.child? .declaration = none)
    (hvalue : statement.child? .value = none) (hequals : statement.hasToken "=" = false) {t : Tree}
    (hmem : t ∈ statement.children) (hstar : t.label = .token "*" ∨ t.label = .node .namespaceExport) :
    (statement.child? .source).isSome := by
  rcases hsourced hexport with ⟨t', ht', hrole⟩ | hplain
  · rcases hrole with hrole | hrole | hrole | hlabel
    · simpa [hdeclaration] using child?_isSome ht' hrole
    · simpa [hvalue] using child?_isSome ht' hrole
    · exact child?_isSome ht' hrole
    · have htoken : statement.hasToken "=" = true := List.any_eq_true.mpr ⟨t', ht', by simp [hlabel]⟩
      rw [hequals] at htoken
      cases htoken
  · exact absurd hstar (not_or.mpr (hplain t hmem))

theorem consists_addReexport (h : found.Consists Export.HasSource)
    (hsource : ∀ t ∈ statement.children, t.label = .token "*" ∨ t.label = .node .namespaceExport →
      (statement.child? .source).isSome) :
    (addReexport source found line statement).Consists Export.HasSource := by
  unfold addReexport
  extract_lets module names
  have hmodule {t : Tree} (hmem : t ∈ statement.children)
      (hstar : t.label = .token "*" ∨ t.label = .node .namespaceExport) : module.isSome := by
    rw [Option.isSome_map]
    exact hsource t hmem hstar
  have hnames : names.Consists Export.HasSource :=
    List.foldlRecOn _ _ h fun found h part hpart =>
      consists_addExportedNames h fun hlabel => hmodule (List.mem_filter.mp hpart).1 (.inr hlabel)
  split_ifs with hstar
  · obtain ⟨hstar, -⟩ := Bool.and_eq_true_iff.mp hstar
    obtain ⟨t, hmem, hlabel⟩ := List.any_eq_true.mp hstar
    exact hnames.addExport fun _ => hmodule hmem (.inl (eq_of_beq hlabel))
  · exact hnames

theorem consists_addStatement (h : found.Consists Export.HasSource) (hsourced : Grammar.IsSourcedExport statement) :
    (addStatement source found statement).Consists Export.HasSource := by
  unfold addStatement
  split_ifs with hexport
  · unfold addExportStatement
    extract_lets line
    split
    · exact List.foldlRecOn _ _ h fun found h declared hdeclared =>
        consists_addExportedLocal h _ (isRegular_of_mem_localsOf hdeclared)
    · exact consists_addDefaultValue h _ _
    · rename_i hdeclaration hvalue
      split_ifs with hequals
      · split
        · exact consists_addDefaultValue h _ _
        · exact h
      · exact consists_addReexport h fun t hmem hstar => source_isSome_of_star hsourced (eq_of_beq hexport)
          hdeclaration hvalue (Bool.eq_false_iff.mpr hequals) hmem hstar
  · unfold addImportStatement
    dsimp only
    split
    · exact h
    · exact h.addImport _
  · exact h

/-- In the surface of a typed source declarations go by one name, and what stands for everything of a module names
the module. -/
theorem consists_surface (filePath : String) (language : Language) (text : String) :
    (∀ e ∈ (surface filePath language text).exports, e.HasSource) ∧
      ∀ symbol ∈ (surface filePath language text).symbols, symbol.qualifiedName = symbol.name := by
  unfold surface
  extract_lets source parsed statements empty found
  have hempty : found.Consists Export.HasSource := by
    refine Collection.consists_empty (beq_eq_false_iff_ne.mpr ?_) rfl rfl fun declared hdeclared => ?_
    · dsimp only [empty]
      split_ifs <;> exact nofun
    obtain ⟨statement, -, hdeclared⟩ := List.mem_flatMap.mp hdeclared
    exact isRegular_of_mem_localsOfStatement hdeclared
  have hall : (statements.foldl (addStatement source) found).Consists Export.HasSource :=
    List.foldlRecOn _ _ hempty fun found h statement hmem =>
      consists_addStatement h (isSourcedExport_of_mem_parse hmem)
  exact ⟨hall.exports, hall.regular.published⟩

end ApiImpact.TypeScript

import ApiImpact.Proofs.Impact.Evidence
import ApiImpact.Proofs.Path.Steps

/-!
# Files that are named by an alias

A specifier that resolves to no file names one by its last segment. The segment is cut at its last dot as if it had an
extension. So a base name with a dot in it is not taken for its own file but for the one of the name before the dot, and one
that begins like an index leaves the naming to its directory.
-/

namespace ApiImpact

open Text

/-! ## Names without their endings -/

/-- `stem` is left of the name of a file without its ending. -/
inductive IsStem : List Char → List Char → Prop where
  | declaration {stem : List Char} {ending : String} : ending ∈ Path.declarationEndings → IsStem stem (stem ++ ending.toList)
  | extension {stem extension : List Char} : stem ≠ [] → '.' ∉ extension →
      (∀ ending ∈ Path.declarationEndings, ¬ ending.toList <:+ stem ++ '.' :: extension) → IsStem stem (stem ++ '.' :: extension)
  /-- A dot at the beginning of a name begins no ending. -/
  | whole {name : List Char} : '.' ∉ name.tail → IsStem name name

namespace Path

variable {path : Path} {name stem ending ending' : String} {front text extension : List Char}

/-- A name has the ending of at most one kind of declaration files. -/
theorem eq_of_suffix (hending : ending ∈ declarationEndings) (hending' : ending' ∈ declarationEndings)
    (h : ending.toList <:+ front) (h' : ending'.toList <:+ front) : ending = ending' := by
  have hapart : ∀ ending ∈ declarationEndings, ∀ ending' ∈ declarationEndings, ending.toList <:+ ending'.toList → ending = ending' := by
    decide
  rcases List.suffix_or_suffix_of_suffix h h' with hsuffix | hsuffix
  · exact hapart _ hending _ hending' hsuffix
  · exact (hapart _ hending' _ hending hsuffix).symm

/-- The ending of a declaration file begins with a dot and holds another one. -/
theorem mem_tail_of_suffix (hending : ending ∈ declarationEndings) (h : ending.toList <:+ front) : '.' ∈ front.tail := by
  have hdots : ∀ ending ∈ declarationEndings, '.' ∈ ending.toList.tail := by decide
  obtain ⟨before, rfl⟩ := h
  cases before with
  | nil => exact hdots ending hending
  | cons c before => exact List.mem_append_right _ (List.mem_of_mem_tail (hdots ending hending))

theorem splitExtension_append (hne : front ≠ []) (h : '.' ∉ extension) :
    (splitExtension (.ofList (front ++ '.' :: extension))).1 = .ofList front := by
  have hreverse : (front ++ '.' :: extension).reverse = extension.reverse ++ '.' :: front.reverse := by simp
  have htail : (extension.reverse ++ '.' :: front.reverse).takeWhile (· != '.') = extension.reverse :=
    takeWhile_append (fun c hc => by simpa using ne_of_mem_of_not_mem (List.mem_reverse.mp hc) h) (by simp)
  have hdrop : (extension.reverse ++ '.' :: front.reverse).drop (extension.reverse.length + 1) = front.reverse := by
    rw [List.drop_length_add_append, List.drop_one, List.tail_cons]
  simp only [splitExtension, String.toList_ofList, hreverse, htail, hdrop, List.reverse_reverse, List.isEmpty_iff, hne, if_false]

theorem splitExtension_of_notMem_tail (h : '.' ∉ name.toList.tail) : (splitExtension name).1 = name := by
  rw [splitExtension]
  cases hname : name.toList with
  | nil => simp
  | cons c rest =>
      rw [hname, List.tail_cons] at h
      have hrest : ∀ d ∈ rest.reverse, (d != '.') = true := fun d hd => by
        simpa using ne_of_mem_of_not_mem (List.mem_reverse.mp hd) h
      have hlength : rest.length ≤ ((rest.reverse ++ [c]).takeWhile (· != '.')).length := by
        rw [List.takeWhile_append_of_pos hrest]
        simp
      simp [hlength]

theorem exists_isStem (name : List Char) : ∃ stem, IsStem stem name := by
  by_cases hdeclared : ∃ ending ∈ declarationEndings, ending.toList <:+ name
  · obtain ⟨ending, hending, before, rfl⟩ := hdeclared
    exact ⟨before, .declaration hending⟩
  · by_cases hdot : '.' ∈ name.tail
    · obtain ⟨c, rest, rfl⟩ := List.exists_cons_of_ne_nil (List.ne_nil_of_mem (List.mem_of_mem_tail hdot))
      obtain ⟨back, front, hsplit, hback⟩ := List.eq_append_cons_of_mem (List.mem_reverse.mpr hdot)
      have hrest : c :: rest = (c :: front.reverse) ++ '.' :: back.reverse := by
        have hreverse := congrArg List.reverse hsplit
        rw [List.reverse_reverse, List.tail_cons] at hreverse
        simp [hreverse]
      rw [hrest] at hdeclared ⊢
      exact ⟨_, .extension (List.cons_ne_nil _ _) (by simpa using hback) fun ending hending hsuffix =>
        hdeclared ⟨ending, hending, hsuffix⟩⟩
    · exact ⟨name, .whole hdot⟩

theorem find?_declarationEndings_of_forall (h : ∀ ending ∈ declarationEndings, ¬ ending.toList <:+ front) :
    declarationEndings.find? (fun ending => ending.toList.isSuffixOf front) = none :=
  List.find?_eq_none.mpr fun ending hending hsuffix => h ending hending (List.isSuffixOf_iff_suffix.mp hsuffix)

theorem stem_eq_of_isStem (hname : path.fileName? = some (.ofList text)) (h : IsStem front text) : path.stem = .ofList front := by
  rw [Path.stem, hname, Option.getD_some, String.toList_ofList]
  cases h with
  | @declaration ending hending =>
      have hsuffix : ending.toList <:+ front ++ ending.toList := List.suffix_append _ _
      cases hfound : declarationEndings.find? fun ending' => ending'.toList.isSuffixOf (front ++ ending.toList) with
      | none => exact absurd (List.isSuffixOf_iff_suffix.mpr hsuffix) (List.find?_eq_none.mp hfound ending hending)
      | some ending' =>
          have hsuffix' : ending'.toList <:+ front ++ ending.toList := List.isSuffixOf_iff_suffix.mp (by simpa using List.find?_some hfound)
          obtain rfl := eq_of_suffix hending (List.mem_of_find?_eq_some hfound) hsuffix hsuffix'
          simp
  | extension hne hextension hnone =>
      rw [find?_declarationEndings_of_forall hnone]
      exact splitExtension_append hne hextension
  | whole htail =>
      rw [find?_declarationEndings_of_forall fun ending hending hsuffix => htail (mem_tail_of_suffix hending hsuffix)]
      exact splitExtension_of_notMem_tail (by rwa [String.toList_ofList])

/-- A path has the stem of its file name. -/
theorem stem_eq_iff (hname : path.fileName? = some name) : path.stem = stem ↔ IsStem stem.toList name.toList := by
  have hname' : path.fileName? = some (.ofList name.toList) := by rw [hname, String.ofList_toList]
  constructor
  · rintro rfl
    obtain ⟨front, hfront⟩ := exists_isStem name.toList
    rwa [stem_eq_of_isStem hname' hfront, String.toList_ofList]
  · intro h
    rw [stem_eq_of_isStem hname' h, String.ofList_toList]

end Path

instance {stem name : List Char} : Decidable (IsStem stem name) :=
  decidable_of_iff ((Path.mk false [.name (.ofList name)]).stem = .ofList stem) (by
    rw [Path.stem_eq_iff rfl, String.toList_ofList, String.toList_ofList])

/-! ## What a specifier names -/

/-- A name that a source file can have in front of its extension: it makes neither an index nor the declarations of another file. -/
structure IsBaseName (base : String) : Prop where
  written : (Segment.name base).IsWritten
  ne_index : base ≠ "index"
  undeclared : ¬ ".d".toList <:+ base.toList

/-- The source file of the name `base` in the directory of the name `directory` below `root`. -/
def sourceFile (root : Path) (directory base : String) : Path :=
  { root with segments := root.segments ++ [.name directory, .name (base ++ ".ts")] }

variable {root : Path} {scope directory base other : String}

theorem IsBaseName.notMem (h : IsBaseName base) : '/' ∉ base.toList := h.written.2.2.2

/-- The extension of a source file does not make it a declaration file. -/
theorem IsBaseName.isStem (h : IsBaseName base) : IsStem base.toList (base.toList ++ ".ts".toList) := by
  refine .extension h.written.1 (by decide) fun ending hending hsuffix => ?_
  have hts : ".ts".toList <:+ base.toList ++ ".ts".toList := List.suffix_append _ _
  have hendings : ∀ ending ∈ Path.declarationEndings, ¬ ending.toList <:+ ".ts".toList ∧ (".ts".toList <:+ ending.toList →
      ending.toList = ".d".toList ++ ".ts".toList) := by decide
  obtain ⟨hlonger, hdeclared⟩ := hendings ending hending
  rw [hdeclared ((List.suffix_or_suffix_of_suffix hts hsuffix).resolve_right hlonger)] at hsuffix
  obtain ⟨before, hbefore⟩ := hsuffix
  rw [← List.append_assoc] at hbefore
  exact h.undeclared ⟨before, List.append_cancel_right hbefore⟩

namespace Usage

theorem targetName_sourceFile (h : IsBaseName base) : targetName (sourceFile root directory base) = base := by
  have hname : (sourceFile root directory base).fileName? = some (.ofList (base.toList ++ ".ts".toList)) := by
    simp [sourceFile, Path.fileName?]
  have hstem := Path.stem_eq_of_isStem hname h.isStem
  rw [String.ofList_toList] at hstem
  rw [targetName, hstem, if_neg h.ne_index]

/-- The name by which a specifier that ends in `directory` and `base` names a file. -/
def namingName (directory base : String) : String :=
  if "index.".toList <+: base.toList then directory else base

theorem splitAtChars_scope (hscope : scope.toList.getLast? = some '/') (hdirectory : '/' ∉ directory.toList) (hbase : '/' ∉ base.toList) :
    ∃ pieces, splitAtChars (· == '/') (scope ++ directory ++ "/" ++ base).toList = pieces ++ [directory.toList, base.toList] := by
  obtain ⟨front, hfront⟩ := List.getLast?_eq_some_iff.mp hscope
  have hplain {name : String} (h : '/' ∉ name.toList) : splitAtChars (· == '/') name.toList = [name.toList] :=
    splitAtChars_of_forall fun c hc => by simpa using ne_of_mem_of_not_mem hc h
  have hsplit : (scope ++ directory ++ "/" ++ base).toList = front ++ '/' :: (directory.toList ++ '/' :: base.toList) := by
    simp [hfront]
  rw [hsplit, splitAtChars_append rfl, splitAtChars_append rfl, hplain hdirectory, hplain hbase]
  exact ⟨_, rfl⟩

theorem namingSegment_scope (hscope : scope.toList.getLast? = some '/') (hdirectory : (Segment.name directory).IsWritten)
    (hbase : IsBaseName base) : namingSegment (scope ++ directory ++ "/" ++ base) = (namingName directory base).toList := by
  obtain ⟨pieces, hpieces⟩ := splitAtChars_scope hscope hdirectory.2.2.2 hbase.notMem
  have hlast : ∀ c ∈ (scope ++ directory ++ "/" ++ base).toList.getLast?, (c == '/') = false := fun c hc => by
    rw [String.toList_append, List.getLast?_append_of_ne_nil _ hbase.written.1] at hc
    simpa using ne_of_mem_of_not_mem (List.mem_of_mem_getLast? hc) hbase.notMem
  have hindex : base.toList ≠ "index".toList := fun h => hbase.ne_index (String.toList_injective h)
  rw [namingSegment, dropEndWhile_eq_self hlast, hpieces, List.reverse_append, namingName]
  simp only [List.reverse_cons, List.reverse_nil, List.nil_append, List.cons_append, List.head?_cons, Option.getD_some, beq_iff_eq,
    Bool.or_eq_true, hindex, false_or, List.isPrefixOf_iff_prefix]
  split_ifs <;> rfl

/-- What stands behind the first slash does not make a specifier one of the platform. -/
theorem beginsWith_scope (hscope : scope.toList.getLast? = some '/') (rest : String) :
    beginsWith (scope ++ rest) "node:" = beginsWith scope "node:" := by
  rw [beginsWith, beginsWith, Bool.eq_iff_iff, List.isPrefixOf_iff_prefix, List.isPrefixOf_iff_prefix, String.toList_append]
  refine ⟨fun h => (List.prefix_or_prefix_of_prefix h (List.prefix_append _ _)).resolve_right fun hprefix => ?_,
    fun h => h.trans (List.prefix_append _ _)⟩
  have hslash : '/' ∈ "node:".toList := hprefix.subset (List.mem_of_getLast? hscope)
  exact absurd hslash (by decide)

/-- A specifier below an alias, without an extension, names the file of the base name `other` just when `other` is the stem of the
name that the specifier ends in. That is `base`, unless this begins like an index: then it is the name of the directory. -/
theorem namesTarget_scope_iff (hscope : scope.toList.getLast? = some '/') (hdirectory : (Segment.name directory).IsWritten)
    (hbase : IsBaseName base) (hother : IsBaseName other) :
    namesTarget (scope ++ directory ++ "/" ++ base) (targetName (sourceFile root directory other)) = true ↔
      beginsWith scope "node:" = false ∧ IsStem other.toList (namingName directory base).toList := by
  have hslash : '/' ∈ (scope ++ directory ++ "/" ++ base).toList := by simp
  have hnode : beginsWith (scope ++ directory ++ "/" ++ base) "node:" = beginsWith scope "node:" := by
    rw [String.append_assoc, String.append_assoc, beginsWith_scope hscope]
  have hwritten : (Segment.name (namingName directory base)).IsWritten := by
    rw [namingName]
    split_ifs
    · exact hdirectory
    · exact hbase.written
  have hname : (Path.ofString (namingName directory base)).fileName? = some (namingName directory base) := by
    have hpath := Path.ofString_text hwritten nofun
    rw [Segment.text] at hpath
    rw [hpath]
    rfl
  rw [ImportGraph.namesTarget_iff, hnode, namingSegment_scope hscope hdirectory hbase, String.ofList_toList,
    targetName_sourceFile hother, Path.stem_eq_iff hname]
  simp only [hslash, hwritten.1, ne_eq, not_false_eq_true, true_and]

/-- A base name with a dot in it does not name its own file but the one that is called by the name before the dot. -/
theorem namesTarget_scope_of_dot :
    let root := Path.ofString "/p/src"
    (sourceFile root "lib" "user.service").toString = "/p/src/lib/user.service.ts" ∧
      (sourceFile root "lib" "user").toString = "/p/src/lib/user.ts" ∧
      namesTarget "@app/lib/user.service" (targetName (sourceFile root "lib" "user.service")) = false ∧
      namesTarget "@app/lib/user.service" (targetName (sourceFile root "lib" "user")) = true := by
  intro root
  have hscope : "@app/".toList.getLast? = some '/' := by decide
  have hlib : (Segment.name "lib").IsWritten := ⟨by decide, by decide, by decide, by decide⟩
  have hservice : IsBaseName "user.service" := ⟨⟨by decide, by decide, by decide, by decide⟩, by decide, by decide⟩
  have huser : IsBaseName "user" := ⟨⟨by decide, by decide, by decide, by decide⟩, by decide, by decide⟩
  refine ⟨by decide +kernel, by decide +kernel, Bool.eq_false_iff.mpr fun h => ?_, ?_⟩
  · have hstem := ((namesTarget_scope_iff hscope hlib hservice hservice).mp h).2
    exact absurd hstem (by decide +kernel)
  · exact (namesTarget_scope_iff hscope hlib hservice huser).mpr ⟨by decide, by decide +kernel⟩

end Usage

end ApiImpact

import Mathlib.Data.List.MinMax
import Mathlib.Data.List.Perm.Basic
import Mathlib.Data.Prod.Lex
import Mathlib.Data.String.Basic
import ApiImpact.Report.Basic
import ApiImpact.Change.Surface

/-!
# Which findings are reported

Of the findings about one symbol the report keeps the first of those that rank highest. So it names every
symbol that some finding is about, and it is breaking just when some finding is.
-/

/-!
## Texts in order

Sorting gives the one list that holds the same texts in strictly increasing order.
-/

namespace ApiImpact.Text

variable {texts : List String} {text : String}

@[simp]
theorem mem_sortedDistinct : text ∈ sortedDistinct texts ↔ text ∈ texts := by
  simp [sortedDistinct, Std.ExtTreeSet.mem_toList, Std.ExtTreeSet.mem_ofList]

theorem pairwise_sortedDistinct (texts : List String) : (sortedDistinct texts).Pairwise (· < ·) :=
  Std.ExtTreeSet.ordered_toList.imp compare_lt_iff_lt.mp

theorem eq_of_pairwise_of_mem_iff {other : List String} (h : texts.Pairwise (· < ·))
    (h' : other.Pairwise (· < ·)) (hm : ∀ text, text ∈ texts ↔ text ∈ other) : texts = other := by
  have hperm : texts.Perm other :=
    (List.perm_ext_iff_of_nodup (h.imp ne_of_lt) (h'.imp ne_of_lt)).mpr hm
  exact hperm.eq_of_pairwise (fun _ _ _ _ hab hba => absurd hba (lt_asymm hab)) h h'

theorem sortedDistinct_eq_self (h : texts.Pairwise (· < ·)) : sortedDistinct texts = texts :=
  eq_of_pairwise_of_mem_iff (pairwise_sortedDistinct texts) h fun _ => mem_sortedDistinct

end ApiImpact.Text

namespace ApiImpact

namespace Finding

variable {typed : Bool} {findings : List Finding} {found : Std.ExtTreeMap String Finding}
  {f kept : Finding} {symbol : String}

/-- The rank of a finding: first its severity counts, then the priority of its rule. -/
def rank (f : Finding) : ℕ ×ₗ ℕ :=
  toLex (f.severity.weight, f.rule.priority)

theorem outranks_iff : f.outranks kept = true ↔ kept.rank < f.rank := by
  simp [outranks, rank, Prod.Lex.toLex_lt_toLex]

theorem weight_le_of_rank_le (h : f.rank ≤ kept.rank) : f.severity.weight ≤ kept.severity.weight :=
  Prod.Lex.monotone_fst _ _ h

theorem eq_breaking_of_rank_le (h : f.rank ≤ kept.rank) (hf : f.severity = .breaking) :
    kept.severity = .breaking := by
  have hw := weight_le_of_rank_le h
  rw [hf] at hw
  cases hk : kept.severity <;> simp [hk, Severity.weight] at hw ⊢

/-! ## The best finding about a symbol -/

theorem getElem?_keepBest_of_ne (h : f.symbol ≠ symbol) : (keepBest found f)[symbol]? = found[symbol]? := by
  unfold keepBest
  split
  · simp [Std.ExtTreeMap.getElem?_insert, h]
  · split_ifs
    · simp [Std.ExtTreeMap.getElem?_insert, h]
    · rfl

theorem getElem?_keepBest_self : (keepBest found f)[f.symbol]? =
    match found[f.symbol]? with
    | none => some f
    | some kept => if kept.rank < f.rank then some f else some kept := by
  cases hk : found[f.symbol]? with
  | none => simp [keepBest, hk]
  | some kept =>
      simp only [keepBest, hk, outranks_iff]
      split_ifs
      · simp
      · exact hk

/-- For every symbol the search ends with the first finding of the highest rank. -/
theorem getElem?_foldl_keepBest (findings : List Finding) (symbol : String) :
    (findings.foldl keepBest ∅)[symbol]? = (findings.filter (·.symbol == symbol)).argmax rank := by
  induction findings using List.reverseRecOn with
  | nil => simp
  | append_singleton findings f ih =>
      rw [List.foldl_append, List.foldl_cons, List.foldl_nil, List.filter_append]
      by_cases hs : f.symbol = symbol
      · subst hs
        have hlast : [f].filter (·.symbol == f.symbol) = [f] := by simp
        rw [getElem?_keepBest_self, ih, hlast, List.argmax_concat]
        cases (findings.filter (·.symbol == f.symbol)).argmax rank <;> rfl
      · have hlast : [f].filter (·.symbol == symbol) = [] := by simp [hs]
        rw [getElem?_keepBest_of_ne hs, ih, hlast, List.append_nil]

theorem mem_toList_foldl_keepBest : (symbol, f) ∈ (findings.foldl keepBest ∅).toList ↔
    f ∈ (findings.filter (·.symbol == symbol)).argmax rank := by
  rw [Std.ExtTreeMap.mem_toList_iff_getElem?_eq_some, getElem?_foldl_keepBest, Option.mem_def]

theorem symbol_of_mem_argmax (h : f ∈ (findings.filter (·.symbol == symbol)).argmax rank) :
    f ∈ findings ∧ f.symbol = symbol := by
  simpa using List.argmax_mem h

theorem mem_best_iff : f ∈ best findings ↔ f ∈ (findings.filter (·.symbol == f.symbol)).argmax rank := by
  simp only [best, List.mem_map, Prod.exists, mem_toList_foldl_keepBest]
  constructor
  · rintro ⟨symbol, f, hm, rfl⟩
    obtain ⟨-, rfl⟩ := symbol_of_mem_argmax hm
    exact hm
  · exact fun hm => ⟨f.symbol, f, hm, rfl⟩

/-- The best findings stand in the order of their symbols. -/
theorem map_symbol_best (findings : List Finding) :
    (best findings).map (·.symbol) = (findings.foldl keepBest ∅).keys := by
  rw [best, List.map_map, ← Std.ExtTreeMap.map_fst_toList_eq_keys]
  refine List.map_congr_left fun entry hm => ?_
  exact (symbol_of_mem_argmax (mem_toList_foldl_keepBest.mp hm)).2

theorem exists_best (h : f ∈ findings) : ∃ kept ∈ best findings,
    kept.symbol = f.symbol ∧ f.rank ≤ kept.rank := by
  have hf : f ∈ findings.filter (·.symbol == f.symbol) := List.mem_filter.mpr ⟨h, beq_self_eq_true _⟩
  cases hk : (findings.filter (·.symbol == f.symbol)).argmax rank with
  | none =>
      rw [List.argmax_eq_none] at hk
      simp [hk] at hf
  | some kept =>
      obtain ⟨-, hs⟩ := symbol_of_mem_argmax hk
      exact ⟨kept, mem_best_iff.mpr (by rwa [hs]), hs, List.le_of_mem_argmax hf hk⟩

/-! ## The reported findings -/

theorem disclaim_eq (typed : Bool) (f : Finding) :
    f.disclaim typed = f ∨ f.disclaim typed = { f with message := f.message ++ disclaimer } := by
  unfold disclaim
  split_ifs
  · exact .inr rfl
  · exact .inl rfl

@[simp]
theorem symbol_disclaim (typed : Bool) (f : Finding) : (f.disclaim typed).symbol = f.symbol := by
  rcases disclaim_eq typed f with h | h <;> rw [h]

@[simp]
theorem severity_disclaim (typed : Bool) (f : Finding) : (f.disclaim typed).severity = f.severity := by
  rcases disclaim_eq typed f with h | h <;> rw [h]

@[simp]
theorem rule_disclaim (typed : Bool) (f : Finding) : (f.disclaim typed).rule = f.rule := by
  rcases disclaim_eq typed f with h | h <;> rw [h]

theorem map_symbol_reported : (reported typed findings).map (·.symbol) =
    (best findings).map (·.symbol) := by
  simp [reported, Function.comp_def]

theorem exists_of_mem_reported (h : f ∈ reported typed findings) :
    ∃ kept ∈ findings, f = kept.disclaim typed ∧
      kept ∈ (findings.filter (·.symbol == f.symbol)).argmax rank := by
  obtain ⟨kept, hk, rfl⟩ := List.mem_map.mp h
  have hk := mem_best_iff.mp hk
  exact ⟨kept, (symbol_of_mem_argmax hk).1, rfl, by rwa [symbol_disclaim]⟩

/-- A finding is reported under its symbol with at least its severity. -/
theorem exists_mem_reported (typed : Bool) (h : f ∈ findings) : ∃ g ∈ reported typed findings,
    g.symbol = f.symbol ∧ (f.severity = .breaking → g.severity = .breaking) := by
  obtain ⟨kept, hk, hs, hrank⟩ := exists_best h
  exact ⟨kept.disclaim typed, List.mem_map_of_mem hk, by simpa using hs,
    fun hf => by simpa using eq_breaking_of_rank_le hrank hf⟩

theorem mem_map_symbol_reported :
    symbol ∈ (reported typed findings).map (·.symbol) ↔ symbol ∈ findings.map (·.symbol) := by
  constructor
  · intro hm
    obtain ⟨f, hf, rfl⟩ := List.mem_map.mp hm
    obtain ⟨kept, hk, rfl, -⟩ := exists_of_mem_reported hf
    exact List.mem_map.mpr ⟨kept, hk, by simp⟩
  · intro hm
    obtain ⟨f, hf, rfl⟩ := List.mem_map.mp hm
    obtain ⟨g, hg, hs, -⟩ := exists_mem_reported typed hf
    exact List.mem_map.mpr ⟨g, hg, hs⟩

theorem exists_breaking_reported_iff :
    (∃ f ∈ reported typed findings, f.severity = .breaking) ↔ ∃ f ∈ findings, f.severity = .breaking := by
  constructor
  · rintro ⟨f, hf, hs⟩
    obtain ⟨kept, hk, rfl, -⟩ := exists_of_mem_reported hf
    exact ⟨kept, hk, by simpa using hs⟩
  · rintro ⟨f, hf, hs⟩
    obtain ⟨g, hg, -, hbreaking⟩ := exists_mem_reported typed hf
    exact ⟨g, hg, hbreaking hs⟩

theorem all_eq_nil {change : SurfaceChange} (h : change.isEmpty = true) : all change = [] := by
  obtain ⟨⟨removed, added, modified⟩, ⟨removed', added', modified'⟩, package, moduleSystem, typed⟩ := change
  simp only [SurfaceChange.isEmpty, SymbolChanges.isEmpty, ExportChanges.isEmpty, Bool.and_eq_true,
    List.isEmpty_iff, Option.isNone_iff_eq_none] at h
  obtain ⟨⟨⟨⟨⟨rfl, rfl⟩, rfl⟩, ⟨rfl, rfl⟩, rfl⟩, rfl⟩, rfl⟩ := h
  rfl

end Finding

namespace ImpactReport

variable {sourceFile : String} {change : SurfaceChange} {root : Path} {dependents : List Dependent}
  {tests : List AffectedTest} {report : ImpactReport}

@[simp]
theorem findings_of : (ImpactReport.of sourceFile change root dependents tests).findings =
    Finding.reported change.typed (Finding.all change) := by
  by_cases h : change.isEmpty = true
  · rw [ImpactReport.of, if_pos h, Finding.all_eq_nil h]
    rfl
  · rw [ImpactReport.of, if_neg h]

theorem hasBreaking_iff : report.hasBreaking = true ↔ ∃ f ∈ report.findings, f.severity = .breaking := by
  simp [hasBreaking, count, List.countP_pos_iff]

theorem sum_count (report : ImpactReport) :
    report.count .breaking + report.count .warning + report.count .info = report.findings.length := by
  unfold count
  induction report.findings with
  | nil => rfl
  | cons f rest ih =>
      rw [List.length_cons, ← ih]
      cases hs : f.severity <;> simp [hs] <;> omega

/-- The report holds one finding for each symbol that a finding is about, by symbol: the first of those
of the highest rank, with at most the disclaimer put behind its message. -/
theorem findings_gravest_by_symbol (sourceFile : String) (change : SurfaceChange) (root : Path)
    (dependents : List Dependent) (tests : List AffectedTest) :
    let report := ImpactReport.of sourceFile change root dependents tests
    (report.findings.map (·.symbol)).Pairwise (· < ·) ∧
    (∀ symbol, symbol ∈ report.findings.map (·.symbol) ↔ symbol ∈ (Finding.all change).map (·.symbol)) ∧
    (∀ f ∈ report.findings,
      ∃ kept ∈ ((Finding.all change).filter (·.symbol == f.symbol)).argmax Finding.rank,
        f = kept ∨ f = { kept with message := kept.message ++ Finding.disclaimer }) ∧
    (report.hasBreaking = true ↔ ∃ f ∈ Finding.all change, f.severity = .breaking) ∧
    report.count .breaking + report.count .warning + report.count .info = report.findings.length ∧
    report.impactedSymbols = report.findings.map (·.symbol) := by
  intro report
  have hfindings : report.findings = Finding.reported change.typed (Finding.all change) := findings_of
  have hsorted : (report.findings.map (·.symbol)).Pairwise (· < ·) := by
    rw [hfindings, Finding.map_symbol_reported, Finding.map_symbol_best]
    exact Std.ExtTreeMap.ordered_keys.imp compare_lt_iff_lt.mp
  refine ⟨hsorted, fun symbol => ?_, fun f hf => ?_, ?_, sum_count report,
    Text.sortedDistinct_eq_self hsorted⟩
  · rw [hfindings, Finding.mem_map_symbol_reported]
  · rw [hfindings] at hf
    obtain ⟨kept, -, rfl, hk⟩ := Finding.exists_of_mem_reported hf
    exact ⟨kept, hk, Finding.disclaim_eq change.typed kept⟩
  · rw [hasBreaking_iff, hfindings, Finding.exists_breaking_reported_iff]

end ImpactReport

end ApiImpact

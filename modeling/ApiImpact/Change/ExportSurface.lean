import ApiImpact.Rule
import ApiImpact.Surface.Snapshot

/-!
Changes of the export surface. Exports are matched by identity. Of what is left, a removed and an added
export may be one binding that moved between a name and the default: they are paired when each is the
only candidate for the other.
-/

namespace ApiImpact

/-- An export that is gone. -/
structure RemovedExport where
  was : Export
  /-- It named a class that the module declared. -/
  refersToClass : Bool
  deriving DecidableEq, Repr

/-- The most specific rule about the removal. -/
def RemovedExport.rule (removed : RemovedExport) : Rule :=
  let e := removed.was
  if removed.refersToClass then .exportedClassRemoved
  else if e.kind = .star then .exportStarRemoved
  else if e.exportType = .default then .defaultExportRemoved
  else if e.style = .assignment then .assignedExportRemoved
  else if e.isAliased then .aliasedExportRemoved
  else if e.sourceModule.isSome then .reexportRemoved
  else .exportRemoved

/-- In what way an export changed. -/
inductive ExportTransition where
  /-- The export kept its identity but refers to something of another kind. -/
  | kindChanged
  | namedToDefault
  | defaultToNamed
  deriving DecidableEq, Repr

/-- An export that changed. -/
structure ModifiedExport where
  before : Export
  after : Export
  transition : ExportTransition
  deriving DecidableEq, Repr

/-- The rule about the change. -/
def ModifiedExport.rule (modified : ModifiedExport) : Rule :=
  match modified.transition with
  | .kindChanged => .exportKindChanged
  | .namedToDefault => .exportNamedToDefault
  | .defaultToNamed => .exportDefaultToNamed

/-- How the export surface of a module changed. -/
structure ExportChanges where
  added : List Export := []
  removed : List RemovedExport := []
  modified : List ModifiedExport := []
  deriving DecidableEq, Repr

/-- The kind says what the export refers to. -/
def ExportKind.isDefinite : ExportKind → Bool
  | unknown | star => false
  | _ => true

namespace ExportChanges

/-- Nothing changed. -/
def isEmpty (changes : ExportChanges) : Bool :=
  changes.added.isEmpty && changes.removed.isEmpty && changes.modified.isEmpty

/-- How much speaks for `removed` and `added` being one binding that moved between a name and the
default: one line counts 2, one kind 1, no module on either side 1. Exports of one type score 0. -/
def pairingScore (removed added : Export) : UInt8 :=
  if removed.exportType = added.exportType then 0
  else
    (if removed.line = added.line then 2 else 0)
      + (if removed.kind = added.kind then 1 else 0)
      + (if removed.sourceModule.isNone && added.sourceModule.isNone then 1 else 0)

/-- Only exports of the module's own bindings are paired. -/
def isPairable (e : Export) : Bool :=
  e.sourceModule.isNone && e.kind != .star

/-- `removed` and `added` are candidates for each other. -/
def qualifies (threshold : UInt8) (removed added : Export) : Bool :=
  isPairable removed && isPairable added && threshold ≤ pairingScore removed added

/-- The only added export that `old` can be paired with, if `old` is the only one for it too. -/
def partner? (threshold : UInt8) (removed added : List Export) (old : Export) : Option Export :=
  match added.filter (qualifies threshold old) with
  | [new] => if (removed.filter (qualifies threshold · new)).length = 1 then some new else none
  | _ => none

/-- The pairs of removed and added exports. -/
def pairs (threshold : UInt8) (removed added : List Export) : List (Export × Export) :=
  removed.filterMap fun old => (partner? threshold removed added old).map fun new => (old, new)

/-- The pair as a modification. -/
def ofPair (before after : Export) : ModifiedExport :=
  { before, after
    transition := if before.exportType = .named then .namedToDefault else .defaultToNamed }

/-- The export names a class that the module declares. -/
def refersToClass (s : Snapshot) (e : Export) : Bool :=
  e.kind == .classType
    || (e.sourceModule.isNone && s.classes.any (·.name == e.sourceName.getD e.name))

/-- Exports by identity. -/
def byKey (exports : List Export) : Std.ExtTreeMap ExportKey Export :=
  .ofList (exports.map fun e => (e.key, e))

/-- The exports of `exports` whose identities `others` lacks, by identity. -/
def missing (exports others : Std.ExtTreeMap ExportKey Export) : List Export :=
  (exports.toList.filter fun (key, _) => !others.contains key).map (·.2)

/-- The modification of an export whose identity `others` has, if both kinds are known and differ. -/
def kindChange? (others : Std.ExtTreeMap ExportKey Export) (key : ExportKey) (before : Export) :
    Option ModifiedExport := do
  let after ← others[key]?
  if before.kind ≠ after.kind ∧ before.kind.isDefinite ∧ after.kind.isDefinite then
    some ⟨before, after, .kindChanged⟩
  else none

/-- The changes between the exports of two snapshots. Pairs need at least the score `threshold`. -/
def between (threshold : UInt8) (before after : Snapshot) : ExportChanges :=
  let old := byKey before.exports
  let new := byKey after.exports
  let removed := missing old new
  let added := missing new old
  let paired := pairs threshold removed added
  { added := added.filter fun e => !paired.any fun (_, partner) => partner.key == e.key
    removed := (removed.filter fun e => !paired.any fun (partner, _) => partner.key == e.key).map
      fun e => ⟨e, refersToClass before e⟩
    modified := old.toList.filterMap (fun (key, e) => kindChange? new key e)
      ++ paired.map fun (before, after) => ofPair before after }

end ExportChanges

end ApiImpact

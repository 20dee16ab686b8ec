import ApiImpact.Proofs.Program.Parsed
import ApiImpact.Proofs.Result
import ApiImpact.Proofs.Program.Coded
import ApiImpact.Proofs.Text.Pattern

/-!
# Passes over a program

A pass adds keys and declarations to what a collection holds. One that does so at every statement, and finds
nothing between the statements, adds those of all statements.
-/

/-! ## What snapshots show of programs

A snapshot shows keys and declarations when its exports have these keys, and these declarations are what it publishes.
The snapshot of a typed source shows what the statements of the program export and declare.
-/

namespace ApiImpact

open TypeScript Program

variable {program : List Statement} {snapshot : Snapshot} {found : Collection} {keys : List ExportKey}
  {declared least most : List (SymbolKind × String)} {source : List Char} {trees : List Tree}

/-- The exports of the snapshot have the keys `keys`, and `declared` is what it publishes. -/
structure Snapshot.Shows (snapshot : Snapshot) (keys : List ExportKey) (declared : List (SymbolKind × String)) : Prop where
  exports : ∀ key, key ∈ snapshot.exports.map Export.key ↔ key ∈ keys
  publishes : ∀ entry, entry ∈ snapshot.symbols.map Symbol.declared ↔ entry ∈ declared

namespace Program

end Program

end ApiImpact

namespace ApiImpact.Program

open Text Text.Pattern Script

variable {run run' : Collection → Except InsideCharacter Collection} {P : List ExportKey → Prop} {keys keys' : List ExportKey}
  {declared declared' : List (SymbolKind × String)} {s : Source} {before rest : List Char} {statement : Statement}
  {program front back : List Statement}

/-! ## What a pass adds -/

/-- Where the known exports are as `P` tells, `run` succeeds, and adds the exports `keys` and the declarations
`declared`. -/
def Adds (run : Collection → Except InsideCharacter Collection) (P : List ExportKey → Prop) (keys : List ExportKey)
    (declared : List (SymbolKind × String)) : Prop :=
  ∀ ⦃found : Collection⦄ ⦃known : List ExportKey⦄ ⦃least most : List (SymbolKind × String)⦄, found.Holds known least most →
    P known → (∀ entry ∈ declared, entry ∈ most) →
      ∃ found', run found = .ok found' ∧ found'.Holds (known ++ keys) (least ++ declared) most

theorem Adds.bind (h : Adds run P keys declared) (h' : Adds run' P keys' declared')
    (hP : ∀ known, P known → P (known ++ keys)) :
    Adds (fun found => run found >>= run') P (keys ++ keys') (declared ++ declared') := by
  intro found known least most hfound hknown hmost
  obtain ⟨middle, hmiddle, hmid⟩ := h hfound hknown fun entry hentry => hmost entry (List.mem_append_left _ hentry)
  obtain ⟨found', hfound', hholds⟩ := h' hmid (hP known hknown) fun entry hentry =>
    hmost entry (List.mem_append_right _ hentry)
  refine ⟨found', bind_eq_ok_iff.mpr ⟨middle, hmiddle, hfound'⟩, ?_⟩
  simpa only [List.append_assoc] using hholds

/-! ## How statements begin -/

/-- The character behind the word `export`. -/
def Statement.sign : Statement → Char
  | function true .. | classType true .. | defaultName .. => 'd'
  | function false true .. => 'a'
  | function false false .. => 'f'
  | classType false .. | bindings .constWord .. => 'c'
  | bindings .letWord .. => 'l'
  | bindings .varWord .. => 'v'
  | names .. => '\x7b'
  | star .. => '*'

/-- The characters behind the word `export`. -/
def statementSigns : List Char := ['d', 'a', 'f', 'c', 'l', 'v', '\x7b', '*']

theorem Statement.exists_tail (statement : Statement) :
    ∃ tail, statement.code = "export ".toList ++ statement.sign :: tail := by
  cases statement with
  | function isDefault isAsync name params =>
      rw [code_function]
      cases isDefault <;> cases isAsync <;> exact ⟨_, rfl⟩
  | classType isDefault name members =>
      rw [code_classType]
      cases isDefault <;> exact ⟨_, rfl⟩
  | bindings keyword first more semicolon =>
      rw [code_bindings]
      cases keyword <;> exact ⟨_, rfl⟩
  | defaultName name semicolon =>
      rw [code_defaultName]
      exact ⟨_, rfl⟩
  | names entries module semicolon =>
      rw [code_names]
      exact ⟨_, rfl⟩
  | star renamed module semicolon =>
      rw [code_star]
      exact ⟨_, rfl⟩

/-- Code of statements, or none. -/
def IsCode (text : List Char) : Prop :=
  text = [] ∨ ∃ c rest, text = "export ".toList ++ c :: rest ∧ c ∈ statementSigns

/-- In the source `s` the statement stands between the code `before` and the code `rest`. -/
structure Stands (s : Source) (before : List Char) (statement : Statement) (rest : List Char) : Prop where
  code : s.code = before ++ (statement.code ++ rest)
  text : ∃ front back, s.text = front ++ (hide (· == .comment) statement.shaded ++ back) ∧ byteLength front = byteLength before
  line : ∀ offset, s.lineOf offset = (positionOf s.code offset).line
  begins : ∀ c ∈ before.getLast?, c = '\n'
  level : braceDepth before = 0
  code_behind : IsCode rest

theorem codeOnly_code (program : List Statement) : codeOnly (code program) = program.flatMap Statement.code := by
  rw [codeOnly, shades_code, hide_flatMap]
  rfl

theorem byteLength_flatMap_hide (hidden hidden' : Shade → Bool) (program : List Statement) :
    byteLength (program.flatMap fun statement => hide hidden statement.shaded) =
      byteLength (program.flatMap fun statement => hide hidden' statement.shaded) := by
  rw [← hide_flatMap, ← hide_flatMap, byteLength_hide, byteLength_hide]

/-- At the statement the pattern is found at `found`, and next behind the statement. -/
def FindsIn (pattern : Pattern) (before code rest : List Char) (found : List Match) : Prop :=
  pattern.findAllFrom (.between before (code ++ rest)) = found ++ pattern.findAllFrom (.between (before ++ code) rest)

end ApiImpact.Program

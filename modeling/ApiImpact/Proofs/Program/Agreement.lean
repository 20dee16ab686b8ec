import ApiImpact.Proofs.Program.Clauses
import ApiImpact.Proofs.Program.Scripted
import ApiImpact.Proofs.Program.Number
import ApiImpact.Proofs.Program.Signature
import ApiImpact.Proofs.Script.Comments

/-!
# A program as a script and as a typed source

A program has two snapshots, one for a path of a script and one for a path of a typed source. They agree on everything
but variables: the typed source takes all variables of a statement in, the script the first one, and by the look of its
value.
-/

/-! ## What a script shows of a program

The passes over a script add one after the other what the patterns find in the statements of a program: of several
variables the first one, by the look of its value.
-/

namespace ApiImpact.Program

open Text Text.Pattern Script TypeScript

variable {program : List Statement} {pattern : Pattern}

/-! ## Assignments -/

end ApiImpact.Program

namespace ApiImpact

namespace Program

variable {α : Type} {f g : Statement → List α} {declarators : Statement → List Declarator} {entry : Declarator → α} {a : α}
  {program : List Statement}

/-- The key of the export of a variable. -/
def Declarator.key (declarator : Declarator) : ExportKey := ⟨.named, declarator.name.name, none⟩

namespace Statement

/-- The first variable of the statement. -/
def leading : Statement → List Declarator
  | bindings _ first _ _ => [first]
  | function .. | classType .. | defaultName .. | names .. | star .. => []

/-- The variables behind the first one of the statement. -/
def later : Statement → List Declarator
  | bindings _ _ more _ => more
  | function .. | classType .. | defaultName .. | names .. | star .. => []

theorem leading_subset (statement : Statement) : ∀ declarator ∈ statement.leading,
    declarator.entry ∈ statement.declared ∧ declarator.seenEntry ∈ statement.seenDeclared := by
  cases statement with
  | bindings keyword first more semicolon =>
      intro declarator hmem
      obtain rfl := List.mem_singleton.mp hmem
      exact ⟨List.mem_cons_self, List.mem_cons_self⟩
  | _ => rintro declarator ⟨⟩

end Statement

/-- A script knows all variables of the program: each one behind another by a different statement, and each first one
under the kind it has and under the kind it seems to have. -/
structure KnowsVariables (program : List Statement) : Prop where
  later : ∀ declarator ∈ program.flatMap Statement.later,
    declarator.key ∈ program.flatMap Statement.seenKeys ∧ declarator.entry ∈ program.flatMap Statement.seenDeclared
  leading : ∀ declarator ∈ program.flatMap Statement.leading,
    declarator.entry ∈ program.flatMap Statement.seenDeclared ∧ declarator.seenEntry ∈ program.flatMap Statement.declared

/-- It knows them if each statement has one variable at most, whose value is of the kind that it seems to be. -/
theorem knowsVariables_of_single (hlater : ∀ statement ∈ program, statement.later = [])
    (hleading : ∀ statement ∈ program, ∀ declarator ∈ statement.leading, declarator.value.look = declarator.value.kind) :
    KnowsVariables program where
  later := by
    intro declarator hmem
    obtain ⟨statement, hstatement, hmem⟩ := List.mem_flatMap.mp hmem
    rw [hlater statement hstatement] at hmem
    cases hmem
  leading := by
    intro declarator hmem
    obtain ⟨statement, hstatement, hmem⟩ := List.mem_flatMap.mp hmem
    obtain ⟨hentry, hseen⟩ := statement.leading_subset declarator hmem
    have heq : declarator.seenEntry = declarator.entry := congrArg (·, declarator.name.name) (hleading statement hstatement declarator hmem)
    exact ⟨List.mem_flatMap.mpr ⟨statement, hstatement, heq ▸ hseen⟩, List.mem_flatMap.mpr ⟨statement, hstatement, heq ▸ hentry⟩⟩

end Program

open Program

namespace Snapshot

variable {settings : Settings} {scriptPath typedPath : String} {program : List Statement} {s s' : Snapshot}

/-- The name `text`, if it is one. -/
def nameOf (text : String) (h : isWritten text.toList = true ∧ text.toList ≠ "export".toList ∧ ¬ "$export".toList <:+ text.toList ∧
    String.ofList text.toList ∉ notNames) : Name :=
  ⟨⟨text.toList, h.1, h.2.1, h.2.2.1⟩, h.2.2.2⟩

end Snapshot

end ApiImpact

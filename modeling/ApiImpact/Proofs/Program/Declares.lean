import ApiImpact.Proofs.Program.Statement
import ApiImpact.Proofs.Surface.Contents

/-!
# What trees declare

A tree declares what its parts in the roles of names and values say.
-/

namespace ApiImpact.TypeScript.Tree

variable {tree : Tree} {kind : Kind} {role : Role} {front : List Tree}

@[simp] theorem kind?_as (tree : Tree) (role : Role) : (tree.as role).kind? = tree.kind? := by
  cases tree
  rfl

@[simp] theorem is_as (tree : Tree) (role : Role) (kind : Kind) : (tree.as role).is kind = tree.is kind := by
  cases tree
  rfl

@[simp] theorem child?_of_as (tree : Tree) (role role' : Role) : (tree.as role).child? role' = tree.child? role' := by
  cases tree
  rfl

@[simp] theorem role_as (tree : Tree) (role : Role) : (tree.as role).role = some role := by
  cases tree
  rfl

end ApiImpact.TypeScript.Tree

namespace ApiImpact.Program

open Text TypeScript

variable {source chars : List Char} {tree nameTree value : Tree}

/-- The tree declares `entries`, by kind and name. -/
structure Declares (source : List Char) (tree : Tree) (entries : List (SymbolKind × String)) : Prop where
  node : tree.kind?.isSome = true
  entries : (localsOf source tree).map (·.symbol.declared) = entries
  names : ∀ declared ∈ localsOf source tree, declared.symbol.qualifiedName = declared.symbol.name

theorem localsOf_as (source : List Char) (tree : Tree) (role : Role) : localsOf source (tree.as role) = localsOf source tree := by
  cases tree
  rfl

/-- The part that a tree plays makes no difference to what it declares. -/
theorem Declares.as {entries : List (SymbolKind × String)} (h : Declares source tree entries) (role : Role) :
    Declares source (tree.as role) entries where
  node := by rw [Tree.kind?_as, h.node]
  entries := by rw [localsOf_as, h.entries]
  names := by
    rw [localsOf_as]
    exact h.names

end ApiImpact.Program

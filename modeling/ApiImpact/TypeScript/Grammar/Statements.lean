import ApiImpact.TypeScript.Grammar.Expressions
import ApiImpact.TypeScript.Grammar.Modules

/-!
Statements.
-/

namespace ApiImpact.TypeScript.Grammar

open Reading

/-- A block of statements. -/
def block (parts : Parts) : Reading Tree :=
  node .block (between "\x7b" (many (return [← parts .statement])) "\x7d")

/-- A statement that is an expression. -/
def expressionStatement (parts : Parts) : Reading Tree :=
  node .expressionStatement do
    return (← parts (.expression true)) :: (← statementEnd)

/-- A choice between statements. -/
def ifStatement (parts : Parts) : Reading Tree :=
  node .ifStatement do
    let head ← word "if"
    let condition ← parenthesized parts
    let yes ← parts .statement
    let no ← optionally (node .elseClause (return [← word "else", ← parts .statement]))
    return [head, condition, yes] ++ no

/-- The head of a loop over what an object holds. -/
def eachHead (parts : Parts) : Reading (List Tree) := do
  let opening ← sign "("
  let left ← (do return [← wordOf ["let", "const", "var"], (← parts .pattern).as .left])
    <|> return [(assigned (← parts .access)).as .left]
  let relation ← wordOf ["of", "in"]
  let range ← parts (.expression true)
  return opening :: left ++ [relation, range.as .right, ← sign ")"]

/-- The head of a counting loop. -/
def countingHead (parts : Parts) : Reading (List Tree) := do
  let opening ← sign "("
  let start ← (do return [← variableList parts false]) <|> optionally (parts (.expression false))
  let first ← sign ";"
  let condition ← optionally (parts (.expression true))
  let second ← sign ";"
  let step ← optionally (parts (.expression true))
  return opening :: start ++ [first] ++ condition ++ [second] ++ step ++ [← sign ")"]

/-- A loop `for`. -/
def forStatement (parts : Parts) : Reading Tree := do
  let head ← word "for"
  let wait ← optionally (word "await")
  match ← attempt (eachHead parts) with
  | some each => return .branch .forInStatement (head :: wait ++ each ++ [← parts .statement])
  | none => return .branch .forStatement (head :: (← countingHead parts) ++ [← parts .statement])

/-- A loop that checks its condition first. -/
def whileStatement (parts : Parts) : Reading Tree :=
  node .whileStatement do
    return [← word "while", ← parenthesized parts, ← parts .statement]

/-- A loop that checks its condition last. Its semicolon may be left out anywhere. -/
def doStatement (parts : Parts) : Reading Tree :=
  node .doStatement do
    let head ← word "do"
    let body ← parts .statement
    return [head, body, ← word "while", ← parenthesized parts] ++ (← optionally (sign ";"))

/-- A block whose failure is handled. -/
def tryStatement (parts : Parts) : Reading Tree :=
  node .tryStatement do
    let head ← word "try"
    let body ← parts .block
    let handler ← optionally (node .catchClause do
      let head ← word "catch"
      let parameter ← optionalList (between "(" (do
        let pattern ← parts .pattern
        return pattern :: (← optionally (typeClause parts))) ")")
      return head :: parameter ++ [← parts .block])
    let finalizer ← optionally (node .finallyClause (return [← word "finally", ← parts .block]))
    return [head, body] ++ handler ++ finalizer

/-- One case of a choice by value. -/
def switchCase (parts : Parts) : Reading Tree :=
  node .switchCase do
    let head ← (do return [← word "case", ← parts (.expression true)]) <|> return [← word "default"]
    let colon ← sign ":"
    return head ++ [colon] ++ (← many (return [← parts .statement]))

/-- A choice by value. -/
def switchStatement (parts : Parts) : Reading Tree :=
  node .switchStatement do
    let head ← word "switch"
    let value ← parenthesized parts
    return [head, value,
      ← node .switchBody (between "\x7b" (many (return [← switchCase parts])) "\x7d")]

/-- A statement that leaves a function with a value, or with none. -/
def leaving (parts : Parts) (kind : Kind) (text : String) : Reading Tree :=
  node kind do
    let head ← word text
    if ← afterBreak then return [head]
    let value ← optionally (parts (.expression true))
    return head :: value ++ (← statementEnd)

/-- A statement that leaves a loop, which a label may name. -/
def jump (kind : Kind) (text : String) : Reading Tree :=
  node kind do
    let head ← word text
    if ← afterBreak then return [head]
    return head :: (← optionally (nameAs .statementIdentifier)) ++ (← statementEnd)

/-- A statement with a label. -/
def labeledStatement (parts : Parts) : Reading Tree :=
  node .labeledStatement do
    return [← nameAs .statementIdentifier, ← sign ":", ← parts .statement]

/-- A statement that only a word can begin: one of a declaration, a label or an expression. -/
def plainStatement (parts : Parts) : Reading Tree :=
  declaration parts <|> labeledStatement parts <|> expressionStatement parts

/-- A statement. -/
def statement (parts : Parts) : Reading Tree := do
  match ← peekWord with
  | "" =>
    match (← ahead).head? with
    | some ';' => node .emptyStatement (return [← sign ";"])
    | some '\x7b' => parts .block
    | some '@' => exportStatement parts <|> plainStatement parts
    | _ => expressionStatement parts
  | "import" => importStatement parts <|> plainStatement parts
  | "export" => exportStatement parts
  | "if" => ifStatement parts
  | "for" => forStatement parts
  | "while" => whileStatement parts
  | "do" => doStatement parts
  | "try" => tryStatement parts
  | "switch" => switchStatement parts
  | "return" => leaving parts .returnStatement "return"
  | "throw" => leaving parts .throwStatement "throw"
  | "break" => jump .breakStatement "break"
  | "continue" => jump .continueStatement "continue"
  | "debugger" => node .debuggerStatement do return (← word "debugger") :: (← statementEnd)
  | "with" => node .withStatement do
      return [← word "with", ← parenthesized parts, ← parts .statement]
  | _ => plainStatement parts

end ApiImpact.TypeScript.Grammar

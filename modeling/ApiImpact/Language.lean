import ApiImpact.Path.Basic

/-!
The languages of source files, told by extension.
-/

namespace ApiImpact

/-- The language of a source file. -/
inductive Language where
  | typeScript
  | tsx
  | javaScript
  | jsx
  deriving DecidableEq, Repr, Inhabited

namespace Language

/-- The language of files with this extension. -/
def ofExtension? : String → Option Language
  | "ts" | "mts" | "cts" => some typeScript
  | "tsx" => some tsx
  | "js" | "mjs" | "cjs" => some javaScript
  | "jsx" => some jsx
  | _ => none

/-- The language of the file at `path`; `none` when it is no source file. -/
def ofPath? (path : Path) : Option Language :=
  path.extension?.bind ofExtension?

/-- Sources of this language carry type annotations. -/
def isTyped : Language → Bool
  | typeScript | tsx => true
  | javaScript | jsx => false

/-- The name of the language in reports. -/
def label : Language → String
  | typeScript => "type-script"
  | tsx => "tsx"
  | javaScript => "java-script"
  | jsx => "jsx"

end Language

/-- The file at `path` is one that can be analyzed. -/
def Path.isSource (path : Path) : Bool :=
  (Language.ofPath? path).isSome

end ApiImpact

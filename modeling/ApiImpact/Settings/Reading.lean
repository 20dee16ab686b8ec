import ApiImpact.Settings
import ApiImpact.Yaml.Document
import ApiImpact.Yaml.Value

/-!
Settings as a YAML mapping. What is not written keeps its default; a name that is not known or written
twice, or a value of the wrong form, is an error.
-/

namespace ApiImpact

/-- What may be set. -/
inductive SettingName where
  | skippedDirs
  | testDirs
  | testMarkers
  | pairingThreshold
  | maxFileBytes
  | walkBudget
  deriving DecidableEq, Repr

/-- The name as it is written. -/
def SettingName.text : SettingName → String
  | skippedDirs => "skip_dirs"
  | testDirs => "test_dir_names"
  | testMarkers => "test_name_markers"
  | pairingThreshold => "pairing_threshold"
  | maxFileBytes => "max_file_bytes"
  | walkBudget => "walk_budget_ms"

/-- All names. -/
def SettingName.all : List SettingName :=
  [skippedDirs, testDirs, testMarkers, pairingThreshold, maxFileBytes, walkBudget]

/-- The name that `text` writes. -/
def SettingName.ofText? (text : String) : Option SettingName :=
  all.find? (·.text == text)

/-- Numbers are stored in words of this many bits. -/
def wordBits : Nat := 64

namespace Settings

/-- The texts of a sequence of scalars, whatever else these could mean. An empty node is an empty
sequence. -/
def texts? : Yaml.Node → Option (List String)
  | .sequence items => items.mapM Yaml.Node.text?
  | node => if node.isEmpty then some [] else none

/-- The natural number of at most `bits` bits that a node writes. -/
def number? (bits : Nat) : Yaml.Node → Option Nat
  | .scalar s => s.natural?.filter (· < Text.wordLimit bits)
  | _ => none

/-- The number that a node writes, or that there is none. The tag of null is for null only. -/
def budget? : Yaml.Node → Option (Option Nat)
  | .scalar s =>
    if s.isNull then some none
    else if s.style == .plain && s.tag == some Yaml.Scalar.nullTag then none
    else (number? wordBits (.scalar s)).map some
  | _ => none

/-- The settings with the value of one of them taken from a node. -/
def set? (settings : Settings) (name : SettingName) (node : Yaml.Node) : Option Settings :=
  match name with
  | .skippedDirs => (texts? node).map fun skippedDirs => { settings with skippedDirs }
  | .testDirs => (texts? node).map fun testDirs => { settings with testDirs }
  | .testMarkers => (texts? node).map fun testMarkers => { settings with testMarkers }
  | .pairingThreshold =>
    (number? 8 node).map fun n => { settings with pairingThreshold := n.toUInt8 }
  | .maxFileBytes => (number? wordBits node).map fun maxFileBytes => { settings with maxFileBytes }
  | .walkBudget => (budget? node).map fun walkBudget => { settings with walkBudget }

/-- The settings changed as `entries` say; the names in `known` have been set before. -/
def setAll? (settings : Settings) (known : List SettingName) :
    List (Yaml.Node × Yaml.Node) → Option Settings
  | [] => some settings
  | (key, value) :: entries => do
    let name ← key.text?.bind SettingName.ofText?
    if known.contains name then none
    else setAll? (← settings.set? name value) (name :: known) entries

/-- The settings that a node writes. -/
def ofNode? : Yaml.Node → Option Settings
  | .mapping entries => setAll? {} [] entries
  | node => if node.isEmpty then some {} else none

/-- The settings that a YAML text writes; blank text writes none. -/
def ofYaml? (text : String) : Option Settings :=
  if Text.isAllBlank text.toList then some {} else (Yaml.read? text).bind ofNode?

end Settings

end ApiImpact

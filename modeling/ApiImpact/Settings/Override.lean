import ApiImpact.Json.Printer
import ApiImpact.Settings.Reading
import ApiImpact.Text.Blank

/-!
Text in quotation marks, as messages show it: quotation marks, backslashes and characters that are not
seen on their own are escaped.
-/

namespace ApiImpact.Text

/-- `c` is seen on its own. -/
def isGraphic (c : Char) : Bool :=
  inRanges graphicRanges c

/-- The hexadecimal digits of `n`, without leading zeros. -/
def hexDigits (n : Nat) : List Char :=
  (Nat.toDigits 16 n)

/-- The form of `c` in quotation marks. -/
def shown (c : Char) : List Char :=
  match c with
  | '\x00' => ['\\', '0']
  | '\t' => ['\\', 't']
  | '\n' => ['\\', 'n']
  | '\r' => ['\\', 'r']
  | '"' => ['\\', '"']
  | '\\' => ['\\', '\\']
  | c => if isGraphic c then [c] else ['\\', 'u', '\x7b'] ++ hexDigits c.toNat ++ ['\x7d']

/-- `text` in quotation marks. -/
def quotation (text : String) : String :=
  .ofList ('"' :: text.toList.flatMap shown ++ ['"'])

end ApiImpact.Text

/-!
Settings that variables of the environment override. A variable holds a decimal number; blanks around it
and a plus in front of it do not matter.
-/

namespace ApiImpact

/-- The name of the variable that overrides a setting, if there is one. -/
def SettingName.variableName? : SettingName → Option String
  | .pairingThreshold => some "RIPPLE_PAIRING_THRESHOLD"
  | .walkBudget => some "RIPPLE_WALK_BUDGET_MS"
  | .maxFileBytes => some "RIPPLE_MAX_FILE_BYTES"
  | _ => none

/-- Why settings could not be taken over. -/
inductive SettingsError where
  /-- The text is not a document of settings. -/
  | document
  /-- The value of a variable is no number in the range of its setting. -/
  | override (name value : String)
  deriving DecidableEq, Repr

/-- The error as text; what is wrong with a document is not told. -/
def SettingsError.message? : SettingsError → Option String
  | document => none
  | override name value =>
    let shown := Text.quotation value
    some s!"invalid configuration: {name} must be a number, got {shown}"

namespace Settings

/-- The number below `2 ^ bits` that the value of a variable writes. -/
def overrideNumber? (bits : Nat) (value : String) : Option Nat :=
  let text := Text.trim value.toList
  let digits := (Text.dropPrefix? ['+'] text).getD text
  if digits.isEmpty || !digits.all Char.isDigit then none
  else some (Json.digitsValue digits) |>.filter (· < Text.wordLimit bits)

/-- The setting has the number `n`. -/
def setNumber (settings : Settings) (name : SettingName) (n : Nat) : Settings :=
  match name with
  | .pairingThreshold => { settings with pairingThreshold := n.toUInt8 }
  | .walkBudget => { settings with walkBudget := some n }
  | .maxFileBytes => { settings with maxFileBytes := n }
  | _ => settings

/-- The size of the number that a setting holds. -/
def bitsOf : SettingName → Nat
  | .pairingThreshold => 8
  | _ => wordBits

/-- The settings with the value of the variable that overrides one of them, if it is set. -/
def overrideOne (environment : String → Option String) (settings : Settings) (name : SettingName) :
    Except SettingsError Settings :=
  match name.variableName? with
  | none => .ok settings
  | some variableName =>
    match environment variableName with
    | none => .ok settings
    | some value =>
      match overrideNumber? (bitsOf name) value with
      | some n => .ok (settings.setNumber name n)
      | none => .error (.override variableName value)

/-- The settings as the environment overrides them; the first value that is no number is the error. -/
def override (environment : String → Option String) (settings : Settings) :
    Except SettingsError Settings :=
  [SettingName.pairingThreshold, .walkBudget, .maxFileBytes].foldlM (overrideOne environment) settings

/-- The settings that the text of a document writes, if there is one, as the environment overrides
them. -/
def load (document : Option String) (environment : String → Option String) :
    Except SettingsError Settings := do
  let settings ← match document with
    | none => .ok {}
    | some text => match ofYaml? text with
      | some settings => .ok settings
      | none => .error .document
  settings.override environment

end Settings

end ApiImpact

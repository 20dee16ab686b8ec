import ApiImpact.Script.Exports
import ApiImpact.Script.ModuleSystem
import ApiImpact.Settings
import ApiImpact.Text.Fingerprint
import ApiImpact.TypeScript.Surface

/-!
Taking the snapshot of a file from its text.
-/

namespace ApiImpact.Snapshot

/-- The surface of `text`, read as its language asks. Text larger than the limit is not analyzed. -/
def surfaceOf (settings : Settings) (filePath text : String) (language : Language) :
    Except Script.InsideCharacter Snapshot :=
  if text.utf8ByteSize > settings.maxFileBytes then .ok { filePath, language, status := .failed }
  else if language.isTyped then .ok (TypeScript.surface filePath language text)
  else Script.extract filePath language text

/-- The snapshot of the file at `filePath` with the contents `text`, and with the manifest of its
package if that can be read. Files of no known language are read as scripts. -/
def capture (settings : Settings) (filePath text : String) (manifest : Option String) :
    Except Script.InsideCharacter Snapshot := do
  let language := (Language.ofPath? (.ofString filePath)).getD .javaScript
  let surface ← surfaceOf settings filePath text language
  return { surface with
    moduleSystem := if surface.isFailed then .unknown else Script.moduleSystem text
    fingerprint := Text.fingerprint text
    manifest := manifest.bind Manifest.parse? }

end ApiImpact.Snapshot

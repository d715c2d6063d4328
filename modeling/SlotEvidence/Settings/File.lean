/-
Module: SlotEvidence.Settings.File
Purpose: Reading settings from the text of a file.
Specification: SPEC_FULL 4, `from_yaml`
Trusted boundary: the file is its text, or missing
Main exports: Settings.ofFile
-/
import SlotEvidence.Settings.Load
import SlotEvidence.Yaml

namespace SlotEvidence

namespace Settings

/-- The settings in the text of a file, if there is such a file, `from_yaml` [SPEC_FULL 4].  A file
without content holds the standard settings. -/
def ofFile : (text : Option String) → Except Fault Settings
  | none => .error .fileMissing
  | some text =>
      match Yaml.read text with
      | .error .unreadable => .error .unreadableFile
      | .error fault => .error (.unreadableNumber fault.message)
      | .ok .null => ofEntries []
      | .ok (.mapping entries) => ofEntries entries
      | .ok given => .error (.notAMapping given)

end Settings

end SlotEvidence

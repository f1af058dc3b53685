import Custody.Data.Binary
import Custody.Data.Document
import Custody.Settings.Options
import Custody.Text.Integer

/-!
# Settings of a host

A host program that runs the analysis as one of its linters hands over settings
as a document: nothing, or an object with the known keys.  A key that is not
known and a value of the wrong kind are refused.  The host looks after generated
files itself, so these are always analyzed.
-/

namespace Custody.Settings

/-- The settings that a host gives; what it leaves open keeps its default. -/
structure Plugin where
  effects : Option Level
  receiver : Option Bool
  unsupported : Option Bool
  parallel : Option Int
  deriving DecidableEq, Inhabited, Repr

namespace Plugin

/-- Why settings are refused.  The host puts it into its own words. -/
inductive Error where
  | notSettings
  | unknownKey (key : String)
  | wrongValue (key : String)
  deriving DecidableEq, Repr

/-- No setting is given. -/
def empty : Plugin := ⟨none, none, none, none⟩

/-- The letter that stands for all of its cases. -/
def foldLetter (letter : Char) : Char :=
  match letter.toNat with
  | 0x017f => 's'
  | 0x212a => 'k'
  | _ => letter.toLower

/-- A key without regard to letter case. -/
def foldKey (key : String) : String := key.map foldLetter

/-- The level that a value names. -/
def level? : Document → Option Level
  | .string text => Level.parse? text
  | _ => none

/-- The truth value that a value is. -/
def bool? : Document → Option Bool
  | .bool value => some value
  | _ => none

/-- The integer of sixty-four bits that a value is. -/
def int? : Document → Option Int
  | .number mantissa places =>
      (Binary.integer? mantissa places).filter fun value =>
        Text.Integer.least ≤ value && value ≤ Text.Integer.greatest
  | _ => none

/-- Set one key; a null value takes a setting back. -/
def set (plugin : Plugin) (key : String) (value : Document) : Except Error Plugin :=
  let setting {α : Type} (read? : Document → Option α) (update : Option α → Plugin) :
      Except Error Plugin :=
    if value.isNull then .ok (update none)
    else match read? value with
      | some setting => .ok (update (some setting))
      | none => .error (.wrongValue key)
  match foldKey key with
  | "effects" => setting level? fun effects => { plugin with effects }
  | "receiver" => setting bool? fun receiver => { plugin with receiver }
  | "unsupported" => setting bool? fun unsupported => { plugin with unsupported }
  | "parallel" => setting int? fun parallel => { plugin with parallel }
  | _ => .error (.unknownKey key)

/-- Read the settings in a document; of several keys that differ in letter case
only, the last counts. -/
def ofDocument : Document → Except Error Plugin
  | .null => .ok empty
  | .object entries => entries.foldlM (fun plugin (key, value) => plugin.set key value) empty
  | _ => .error .notSettings

/-- The settings of the analysis that a host asks for. -/
def settings (plugin : Plugin) : List Setting :=
  (plugin.effects.map Setting.effects).toList ++ (plugin.receiver.map Setting.receiver).toList ++
    (plugin.unsupported.map Setting.unsupported).toList ++
    (plugin.parallel.map Setting.parallel).toList ++ [.generated true]

/-- The options of the analysis that a host asks for. -/
def options (plugin : Plugin) : Options := .ofSettings plugin.settings

/-- The information that the host must load for the analysis. -/
def loadMode : String := "typesinfo"

end Plugin

end Custody.Settings

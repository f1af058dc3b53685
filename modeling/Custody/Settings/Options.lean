import Custody.Settings.BitMask
import Custody.Settings.Level

/-!
# Options

Options say what is reported and how the analysis runs.  They are made from a
list of settings, which may be nested and may have gaps; later settings win.
-/

namespace Custody.Settings

/-- The name of the analysis. -/
def analysisName : String := "argeffect"

/-- What the analysis is for, in a sentence. -/
def analysisDoc : String :=
  "argeffect reports function and method parameters whose referents are changed"

/-- Where the analysis is documented. -/
def analysisUrl : String := "https://pkg.go.dev/fillmore-labs.com/argeffect"

/-- What is reported and how the analysis runs. -/
structure Options where
  /-- The parameter effects to report. -/
  effects : Level
  /-- Report changed receivers. -/
  receiver : Bool
  /-- Report constructs the analysis passes over. -/
  unsupported : Bool
  /-- Report in generated files as well. -/
  generated : Bool
  /-- Log the steps of the analysis. -/
  debug : Bool
  /-- The number of components that are analyzed side by side. -/
  parallel : Int
  deriving DecidableEq, Inhabited, Repr

/-- The options without any setting. -/
def Options.default : Options where
  effects := .changes
  receiver := false
  unsupported := false
  generated := false
  debug := false
  parallel := 1

/-- One setting, or several. -/
inductive Setting where
  | absent
  | group (settings : List Setting)
  | effects (level : Level)
  | receiver (value : Bool)
  | unsupported (value : Bool)
  | generated (value : Bool)
  | debug (value : Bool)
  | parallel (value : Int)
  deriving Inhabited, Repr

namespace Setting

mutual

/-- Apply a setting to options. -/
def apply (options : Options) : Setting → Options
  | absent => options
  | group settings => applyAll options settings
  | effects level => { options with effects := level }
  | receiver value => { options with receiver := value }
  | unsupported value => { options with unsupported := value }
  | generated value => { options with generated := value }
  | debug value => { options with debug := value }
  | parallel value => { options with parallel := value }
  termination_by structural setting => setting

/-- Apply settings in order. -/
def applyAll (options : Options) : List Setting → Options
  | [] => options
  | setting :: rest => applyAll (apply options setting) rest
  termination_by structural settings => settings

end

end Setting

/-- The options that settings make. -/
def Options.ofSettings (settings : List Setting) : Options :=
  Setting.applyAll .default settings

/-- A setting as it is shown in a log: a key with a value, or with attributes. -/
inductive Attribute where
  | value (key kind text : String)
  | group (key : String) (attributes : List Attribute)
  deriving Inhabited, Repr

namespace Setting

mutual

/-- The attributes of a setting; the settings of a group stand on their own. -/
def attributes : Setting → List Attribute
  | absent => [.value "nil" "String" "<nil>"]
  | group settings => attributesAll settings
  | effects level => [.value "effects" "String" level.text]
  | receiver value => [.value "receiver" "Bool" (toString value)]
  | unsupported value => [.value "unsupported" "Bool" (toString value)]
  | generated value => [.value "generated" "Bool" (toString value)]
  | debug value => [.value "debug" "Bool" (toString value)]
  | parallel value => [.value "parallel" "Int64" (toString value)]
  termination_by structural setting => setting

/-- The attributes of settings in order. -/
def attributesAll : List Setting → List Attribute
  | [] => []
  | setting :: rest => attributes setting ++ attributesAll rest
  termination_by structural settings => settings

end

end Setting

/-- Settings as one attribute. -/
def Attribute.ofSettings (settings : List Setting) : Attribute :=
  .group "options" (Setting.attributesAll settings)

/-! The bits of a report mask. -/

namespace Report

/-- Changed parameters. -/
def changes : UInt8 := 1

/-- Parameters passed forward. -/
def forward : UInt8 := 2

/-- Parameters left unchanged. -/
def unchanged : UInt8 := 4

/-- Constructs that were passed over. -/
def unsupported : UInt8 := 8

/-- Changed receivers. -/
def receiver : UInt8 := 16

end Report

/-- The report mask of options: the level selects the parameter effects. -/
def Options.report (options : Options) : BitMask :=
  let extra := (BitMask.none.set Report.receiver options.receiver).set
    Report.unsupported options.unsupported
  if options.effects = .changes then extra.enable Report.changes
  else if options.effects = .escapes then extra.enable (Report.changes ||| Report.forward)
  else if options.effects = .all then
    extra.enable (Report.changes ||| Report.forward ||| Report.unchanged)
  else extra

end Custody.Settings

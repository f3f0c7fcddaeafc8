import FurthestMatch.Config

/-!
# Settings

A configuration is read from named settings. A setting that is missing keeps its default and an unknown one is
passed over, but no setting is given twice.
-/

namespace FurthestMatch

namespace Config

inductive Field where
  | indentUnit
  | highlightLabel
  | summaryWidth
  | excerptWidth
  | excerptLead
  | collapsePlaceholder
deriving DecidableEq, Repr

namespace Field

def all : List Field :=
  [.indentUnit, .highlightLabel, .summaryWidth, .excerptWidth, .excerptLead, .collapsePlaceholder]

def name : Field → String
  | .indentUnit => "indent_unit"
  | .highlightLabel => "highlight_label"
  | .summaryWidth => "summary_width"
  | .excerptWidth => "excerpt_width"
  | .excerptLead => "excerpt_lead"
  | .collapsePlaceholder => "collapse_placeholder"

def ofName? (name : Text) : Option Field :=
  all.find? (·.name.toList == name)

end Field

/-- What a document says for a setting: the text and the number that it can be read as. -/
structure Setting where
  text? : Option Text := none
  number? : Option Nat := none
deriving DecidableEq, Repr

def maxNumber : Nat :=
  Nat.pow 2 64 - 1

def set? (config : Config) (setting : Setting) : Field → Option Config
  | .indentUnit => setting.text?.map fun t => { config with indentUnit := t }
  | .highlightLabel => setting.text?.map fun t => { config with highlightLabel := t }
  | .summaryWidth => setting.number?.map fun n => { config with summaryWidth := n }
  | .excerptWidth => setting.number?.map fun n => { config with excerptWidth := n }
  | .excerptLead => setting.number?.map fun n => { config with excerptLead := n }
  | .collapsePlaceholder => setting.text?.map fun t => { config with collapsePlaceholder := t }

def ofFields? (settings : List (Field × Setting)) : Option Config :=
  settings.foldlM (fun config (field, setting) => config.set? setting field) {}

def ofNamed? (settings : List (Text × Setting)) : Option Config :=
  let known := settings.filterMap fun (name, setting) => (Field.ofName? name).map (·, setting)
  if (known.map Prod.fst).Nodup then ofFields? known else none

/-- The configuration of a row of settings, which may end early. -/
def ofRow? (settings : List Setting) : Option Config :=
  if settings.length ≤ Field.all.length then ofFields? (Field.all.zip settings) else none

end Config

end FurthestMatch

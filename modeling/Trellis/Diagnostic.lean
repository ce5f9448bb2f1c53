import Trellis.Mark

/-!
Problems of a specification that do not stop its compilation.
-/

namespace Trellis

/-- A problem that was met and worked around. -/
inductive Diagnostic where
  /-- A channel that its target, a mark or a facet, cannot show. -/
  | incompatibleChannel (channel : Channel) (target : String)
  /-- A field definition without a field. -/
  | emptyFieldDef (channel : Channel)
  /-- A selection over a channel that shows no field. -/
  | cannotProjectOnChannelWithoutField (channel : Channel)
  /-- A shared guide over independent scales. -/
  | independentScaleMeansIndependentGuide (channel : Channel)
deriving DecidableEq, Repr

namespace Diagnostic

/-- The kind of problem. -/
def kind : Diagnostic → String
  | incompatibleChannel .. => "incompatibleChannel"
  | emptyFieldDef _ => "emptyFieldDef"
  | cannotProjectOnChannelWithoutField _ => "cannotProjectOnChannelWithoutField"
  | independentScaleMeansIndependentGuide _ => "independentScaleMeansIndependentGuide"

def message : Diagnostic → String
  | incompatibleChannel c target =>
    c.name ++ " dropped as it is incompatible with \"" ++ target ++ "\"."
  | emptyFieldDef c =>
    "Dropping field definition for channel \"" ++ c.name ++ "\" since it has no field."
  | cannotProjectOnChannelWithoutField c =>
    "Cannot project a selection on encoding channel \"" ++ c.name ++ "\", which has no field."
  | independentScaleMeansIndependentGuide c =>
    "Setting the scale to be independent for \"" ++ c.name ++
      "\" means we also have to set the guide (axis or legend) to be independent."

def toJson (d : Diagnostic) : Json := .object [("kind", .str d.kind), ("message", .str d.message)]

end Diagnostic
end Trellis

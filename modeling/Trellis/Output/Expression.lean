import Trellis.Binary64.Shortest
import Trellis.Json.Printer
import Trellis.Selection

/-!
The expressions that signals are updated by. Each form keeps the names it refers to, so what an
expression reads can be told without taking its text apart.
-/

namespace Trellis

open Text

/-- A brushed extent: the channel, the field under it, and the signal that holds the field's part. -/
structure Interval where
  channel : Channel
  field : String
  extent : String
deriving DecidableEq, Repr, Inhabited

inductive Expression where
  /-- The extent of a discrete scale: a step for each value of its domain, and paddings. -/
  | bandspace (scale : String) (inner outer step : Binary64)
  | size (value : Binary64)
  /-- The largest of some signals. -/
  | largest (signals : List String)
  /-- The record under the pointer, as a tuple of a point selection. -/
  | pick (unit : String) (project : List Projected)
  | shiftPressed
  /-- Puts a tuple in place of what a store holds. -/
  | modify (store tuple : String)
  /-- Puts a tuple in place of what a store holds, or toggles it there. -/
  | modifyOrToggle (store toggle tuple : String)
  /-- The pointer position, as both ends of an extent. -/
  | press (channel : Channel)
  /-- The extent from its start to the pointer, kept within the view. -/
  | drag (pixels : String) (channel : Channel) (sizeSignal : String)
  /-- The part of a scale's domain that lies under an extent. -/
  | invert (scale pixels : String)
  /-- The extents of an interval selection as a tuple. -/
  | brush (unit : String) (intervals : List Interval)
  /-- The group under the pointer, if there is one. -/
  | pointedGroup
  /-- The records of a dataset. -/
  | data (name : String)
deriving Inhabited

namespace Expression

def commaSeparated (parts : List String) : String := String.intercalate ", " parts

/-- Parts between braces. -/
def braced (parts : List String) : String := "\x7b" ++ commaSeparated parts ++ "\x7d"

def bracketed (parts : List String) : String := "[" ++ commaSeparated parts ++ "]"

/-- The extent of as many band steps as `cardinality` says. -/
def bandspaceText (cardinality : String) (inner outer step : Binary64) : String :=
  "bandspace(" ++ commaSeparated [cardinality, inner.plainText, outer.plainText] ++ ") * " ++
    step.plainText

/-- The position of the pointer on a channel within the pointed group. -/
def pointer (c : Channel) : String := c.name ++ "(" ++ Naming.unitSignal ++ ")"

def Interval.text (i : Interval) : String :=
  braced ["encoding: " ++ quoted i.channel.name, "field: " ++ quoted i.field, "extent: " ++ i.extent]

def text : Expression → String
  | bandspace scale inner outer step =>
    bandspaceText ("domain('" ++ scale ++ "').length") inner outer step
  | size value => value.plainText
  | largest signals => "max(" ++ commaSeparated signals ++ ")"
  | pick unit project =>
    let channels := project.map (fun p => (p.channel.map Channel.name).getD "")
    let fields := project.map Projected.field
    "datum && item().mark.marktype !== 'group' ? " ++
      braced ["unit: " ++ quoted unit, "encodings: " ++ (Json.strings channels).compact,
        "fields: " ++ (Json.strings fields).compact,
        "values: " ++ bracketed (fields.map (accessor Scope.datum.name))] ++ " : null"
  | shiftPressed => "event.shiftKey"
  | modify store tuple => "modify(" ++ commaSeparated [quoted store, tuple, "true"] ++ ")"
  | modifyOrToggle store toggle tuple =>
    "modify(" ++ commaSeparated [quoted store, toggle ++ " ? null : " ++ tuple,
      toggle ++ " ? null : true", toggle ++ " ? " ++ tuple ++ " : null"] ++ ")"
  | press c => bracketed [pointer c, pointer c]
  | drag pixels c sizeSignal =>
    bracketed [pixels ++ "[0]", "clamp(" ++ commaSeparated [pointer c, "0", sizeSignal] ++ ")"]
  | invert scale pixels => "invert(" ++ commaSeparated [quoted scale, pixels] ++ ")"
  | brush unit intervals =>
    braced ["unit: " ++ quoted unit, "intervals: " ++ bracketed (intervals.map Interval.text)]
  | pointedGroup => "isTuple(group()) ? group() : " ++ Naming.unitSignal
  | data name => "data(" ++ quoted name ++ ")"

end Expression
end Trellis

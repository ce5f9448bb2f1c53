import Trellis.Dataset

/-!
Selections: what a unit's interactive selection records of the data.

A projection lists fields, each once within a definition; fields that come through a channel
remember the channel (`Projection.ofDef`).
-/

namespace Trellis

/-- A recorded field, with the channel it was reached through. -/
structure Projected where
  field : String
  channel : Option Channel
deriving DecidableEq, Repr, Inhabited

/-- Where a selection is declared: the index of the view and the name it has there. Nodes that share
a selection share its origin. -/
structure SelectionOrigin where
  view : Nat
  key : String
deriving DecidableEq, Repr, Inhabited

structure Selection where
  origin : SelectionOrigin
  /-- The declared name as an identifier. -/
  name : String
  type : SelectionType
  /-- The name of the declaring unit. -/
  unit : String
  events : String
  project : List Projected
  /-- The field each channel leads to. -/
  fields : Dict Channel String
deriving Inhabited

namespace SelectionDef

/-- Whether the definition says what it records. -/
def projects (d : SelectionDef) : Bool := d.fields.isSome || d.encodings.isSome

/-- A definition that records nothing of its own choice brushes x and y, or picks single records. -/
def withDefaults (d : SelectionDef) : SelectionDef :=
  if d.projects then d
  else match d.type with
    | .interval => { d with encodings := some [.x, .y] }
    | .single | .multi => { d with fields := some [Naming.identifier] }

/-- The events that trigger a selection. -/
def events (d : SelectionDef) : String :=
  d.on.getD (match d.type with
    | .interval => "[mousedown, window:mouseup] > window:mousemove!"
    | .single | .multi => "click")

end SelectionDef

namespace FieldDef

/-- The field a selection records: the raw one even under an aggregate, the derived one of a time
unit. -/
def projected (f : FieldDef) : String :=
  match f.timeUnit, f.field with
  | none, some field => field
  | _, _ => f.column

end FieldDef

namespace Projection

/-- Mentions a field: a new one goes to the end, one that is there takes over a given channel. -/
def mention (field : String) (channel : Option Channel) : List Projected → List Projected
  | [] => [⟨field, channel⟩]
  | p :: rest =>
    if p.field = field then { p with channel := channel <|> p.channel } :: rest
    else p :: mention field channel rest

/-- Mentions what channels lead to, and reports those that lead to no field. -/
def mentionChannels (fieldDef : Channel → Option FieldDef) :
    List Channel → List Projected → List Projected × List Diagnostic
  | [], ps => (ps, [])
  | c :: rest, ps =>
    match fieldDef c with
    | some f => mentionChannels fieldDef rest (mention f.projected (some c) ps)
    | none =>
      let (ps, ds) := mentionChannels fieldDef rest ps
      (ps, .cannotProjectOnChannelWithoutField c :: ds)

/-- The projection of a definition: its fields, then the fields of its channels. -/
def ofDef (fieldDef : Channel → Option FieldDef) (d : SelectionDef) :
    List Projected × List Diagnostic :=
  let named := (d.fields.getD []).foldl (fun ps field => mention field none ps) []
  mentionChannels fieldDef (d.encodings.getD []) named

/-- The field each channel leads to, the last of several. -/
def fields (ps : List Projected) : Dict Channel String :=
  .ofList (ps.filterMap (fun p => p.channel.map (fun c => (c, p.field))))

end Projection

namespace Selection

/-- Adds the projection of a definition. -/
def addProjection (fieldDef : Channel → Option FieldDef) (d : SelectionDef) (s : Selection) :
    Selection × List Diagnostic :=
  let (ps, ds) := Projection.ofDef fieldDef d
  let all := s.project ++ ps
  ({ s with project := all, fields := Projection.fields all }, ds)

/-- The selection a unit declares. -/
def ofDef (origin : SelectionOrigin) (unit : String) (fieldDef : Channel → Option FieldDef)
    (declared : SelectionDef) : Selection × List Diagnostic :=
  let d := declared.withDefaults
  addProjection fieldDef d
    ⟨origin, Naming.identifierText origin.key, d.type, unit, d.events, [], .empty⟩

end Selection
end Trellis

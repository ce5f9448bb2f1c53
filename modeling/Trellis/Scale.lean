import Trellis.Dataset
import Trellis.Guide
import Trellis.Mark

/-!
Scales: their type, where their domain comes from, what they map it to.

A data domain is a list of columns, each once; `union` appends the columns of another domain that
are not there yet.
-/

namespace Trellis

/-- A column of a dataset. -/
structure DataRef where
  data : String
  field : String
deriving DecidableEq, Repr, Inhabited

inductive ScaleDomain where
  | values (values : List Json)
  | data (refs : List DataRef)
deriving Inhabited

inductive ScaleRange where
  /-- A fixed step for each value of the domain, on which the size of the view depends. -/
  | step (step : Binary64)
  /-- The whole extent of the view. -/
  | size (dimension : Dimension)
  /-- A scheme known by name. -/
  | named (scheme : String)
  /-- A range given as it is. -/
  | values (range : Json)
deriving Inhabited

structure Scale where
  type : ScaleType
  domain : ScaleDomain
  range : ScaleRange
  padding : Option Binary64
  paddingInner : Option Binary64
  paddingOuter : Option Binary64
  zero : Option Bool
  nice : Option Bool
deriving Inhabited

namespace ScaleDomain

/-- Appends the columns that are new. -/
def appendNew (refs : List DataRef) : List DataRef → List DataRef
  | [] => refs
  | r :: rest => appendNew (if refs.contains r then refs else refs ++ [r]) rest

/-- The union of two data domains; a domain of values stays as it is. -/
def union : ScaleDomain → ScaleDomain → ScaleDomain
  | data refs, data others => data (appendNew refs others)
  | d, _ => d

/-- Reads another dataset in place of one. -/
def rename (source target : String) : ScaleDomain → ScaleDomain
  | data refs => data (refs.map (fun r => if r.data = source then { r with data := target } else r))
  | d => d

def refToMembers (r : DataRef) : List (String × Json) :=
  [("data", .str r.data), ("field", .str r.field)]

/-- One column, several columns of one dataset, or columns of several datasets. -/
def refsToMembers : List DataRef → List (String × Json)
  | [r] => refToMembers r
  | [] => [("fields", .arr [])]
  | r :: rest =>
    if rest.all (fun s => s.data = r.data) then
      [("data", .str r.data), ("fields", Json.strings ((r :: rest).map DataRef.field))]
    else [("fields", .arr ((r :: rest).map (fun s => .object (refToMembers s))))]

/-- The values, or the columns, which a discrete scale sorts. -/
def toJson (discrete : Bool) : ScaleDomain → Json
  | values vs => .arr vs
  | data refs => .object (refsToMembers refs ++ if discrete then [("sort", .bool true)] else [])

end ScaleDomain

namespace ScaleRange

/-- The range of a scale in a view whose sizes have these signals; heights grow upwards. -/
def toJson (sizeSignal : Dimension → String) : ScaleRange → Json
  | step s => .object [("step", .real s)]
  | size .width => .arr [.int 0, .object [("signal", .str (sizeSignal .width))]]
  | size .height => .arr [.object [("signal", .str (sizeSignal .height))], .int 0]
  | named scheme => .str scheme
  | values j => j

end ScaleRange

namespace Scale

/-- Takes the data of another scale into the domain. -/
def unionDomain (s other : Scale) : Scale := { s with domain := s.domain.union other.domain }

/-- Reads another dataset in place of one. -/
def renameData (s : Scale) (source target : String) : Scale :=
  { s with domain := s.domain.rename source target }

/-- The step of a discrete scale on which the size of its view depends. -/
def step? (s : Scale) : Option Binary64 :=
  match s.type.isDiscrete, s.range with
  | true, .step step => some step
  | _, _ => none

def isStepSized (s : Scale) : Bool := s.step?.isSome

def toJson (s : Scale) (name : String) (sizeSignal : Dimension → String) : Json :=
  .object ([
    ("name", .str name),
    ("type", .str s.type.name),
    ("domain", s.domain.toJson s.type.isDiscrete),
    ("range", s.range.toJson sizeSignal)] ++
    Json.optional "padding" .real s.padding ++
    Json.optional "paddingInner" .real s.paddingInner ++
    Json.optional "paddingOuter" .real s.paddingOuter ++
    Json.optional "zero" .bool s.zero ++ Json.optional "nice" .bool s.nice)

/-- The type of a scale that does not choose one. -/
def defaultType (c : Channel) (measure : FieldType) (mark : MarkType) : ScaleType :=
  match c.primary with
  | .x | .y =>
    match measure with
    | .nominal | .ordinal => if mark = .bar ∨ mark = .rect then .band else .point
    | .quantitative => .linear
    | .temporal => .time
  | .color => if measure.isDiscrete then .ordinal else .sequential
  | .size | .opacity => if measure.isDiscrete then .point else .linear
  | .shape => .ordinal
  | _ => .linear

/-- Sets the paddings of a position scale: bands have an inner and an outer one, points and
continuous scales one for both. -/
def withPadding (s : Scale) (asked : ScaleDef) (config : ScaleConfig) : Scale :=
  match s.type with
  | .band =>
    { s with
      paddingInner := asked.paddingInner <|> asked.padding <|> some config.bandPaddingInner
      paddingOuter := asked.paddingOuter <|> asked.padding <|> some config.bandPaddingOuter }
  | .point =>
    { s with
      padding := asked.padding <|> some config.pointPadding
      paddingOuter := asked.paddingOuter }
  | _ => { s with padding := asked.padding }

end Scale
end Trellis

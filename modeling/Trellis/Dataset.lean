import Trellis.Naming
import Trellis.Spec
import Trellis.TimeUnit

/-!
Datasets: where their records come from and the transforms that derive them.
-/

namespace Trellis

/-- A step that turns the records of a dataset into others. -/
inductive Transform where
  /-- Numbers the records in a column. -/
  | identify (column : String)
  /-- Computes a column by cutting the date in a field down to a time unit. -/
  | timeUnit (column unit field : String)
  /-- One record for each value of the group columns, with aggregated columns. A field is missing
  where records are counted. -/
  | aggregate (groupby : List String) (outputs : List (String × Option String × String))
  /-- One record for each value of a column. -/
  | group (column : String)
  /-- One record with the number of different values of a column. -/
  | distinct (column : String)
  /-- A transform this library does not know. -/
  | other (definition : Json)
deriving Inhabited

namespace Transform

def toJson : Transform → Json
  | identify column => .object [("type", .str "identifier"), ("as", .str column)]
  | timeUnit column unit field =>
    .object [("type", .str "formula"), ("as", .str column),
      ("expr", .str (timeUnitExpression unit field))]
  | aggregate groupby outputs =>
    .object [("type", .str "aggregate"), ("groupby", Json.strings groupby),
      ("ops", Json.strings (outputs.map (fun o => o.1))),
      ("fields", .arr (outputs.map (fun o => Json.ofOption .str o.2.1))),
      ("as", Json.strings (outputs.map (fun o => o.2.2)))]
  | group column => .object [("type", .str "aggregate"), ("groupby", Json.strings [column])]
  | distinct column =>
    .object [("type", .str "aggregate"), ("ops", Json.strings ["distinct"]),
      ("fields", Json.strings [column])]
  | other definition => definition

end Transform

structure Dataset where
  name : String
  source : Option String
  input : Option DataDef
  transform : List Transform
deriving Inhabited

namespace Dataset

/-- A dataset computed from another one. -/
def derived (name source : String) (transform : List Transform) : Dataset :=
  ⟨name, some source, none, transform⟩

/-- An empty dataset, to be filled by signals. -/
def bare (name : String) : Dataset := ⟨name, none, none, []⟩

def toJson (d : Dataset) : Json :=
  .object ([("name", .str d.name)] ++
    (match d.input with
      | some input => input.properties
      | none => []) ++
    Json.optional "source" .str d.source ++ Json.unlessEmpty "transform" Transform.toJson d.transform)

end Dataset

/-- The dataset a facet splits, and the name its parts go by within a cell. -/
structure FacetRoot where
  name : String
  data : String
deriving DecidableEq, Repr, Inhabited

/-- What a view reads and which datasets it brings along. -/
structure DataComponent where
  /-- The dataset the view's marks read. -/
  source : String
  /-- The dataset outside all facets that holds the view's records; scale domains read it. -/
  input : String
  /-- Datasets outside all facets, in the order they are emitted. -/
  sources : List Dataset
  /-- Datasets derived within the cell of the enclosing facet. -/
  cellSources : List Dataset
  /-- What a facet splits; none for any other view. -/
  facetRoot : Option FacetRoot
deriving Inhabited

/-- Nothing is read and nothing brought along. -/
def DataComponent.none : DataComponent := ⟨"", "", [], [], Option.none⟩

end Trellis

/-!
The identifiers of everything that is emitted. A node's name is the first part of the names of all
that it emits.
-/

namespace Trellis.Naming

/-- The raw input. -/
def source : String := "source_0"

/-- The derived data every view starts from. -/
def main : String := "main"

/-- The lead of a column that counts distinct values. -/
def distinct : String := "distinct"

/-- The column that identifies a record for point selections. -/
def identifier : String := "_vgsid_"

/-- The signal of the group under the pointer. -/
def unitSignal : String := "unit"

def schema : String := "https://vega.github.io/schema/vega/v3.0.json"

/-- The local name of a facet's child. -/
def facetChild : String := "child"

/-- A local name behind the name of its node; the root mostly has none. -/
def qualify (node text : String) : String := if node.isEmpty then text else node ++ "_" ++ text

/-- The local name of a layer's child. -/
def layerChild (index : Nat) : String := "layer_" ++ toString index

/-- The data that counts the columns of a grid, after its header data. -/
def layoutData (header : String) : String := header ++ "_layout"

/-- The aggregated records of a unit. -/
def aggregate (node : String) : String := qualify node "aggregate"

/-- The aggregated records of a unit within one facet cell. -/
def cellAggregate (node : String) : String := qualify node "cell_aggregate"

def store (selection : String) : String := selection ++ "_store"

def tuple (selection : String) : String := selection ++ "_tuple"

def modify (selection : String) : String := selection ++ "_modify"

def toggle (selection : String) : String := selection ++ "_toggle"

/-- ASCII letters and digits stay, every other character becomes an underscore. -/
def identifierText (s : String) : String :=
  String.ofList (s.toList.map (fun c => if c.isAlphanum then c else '_'))

end Trellis.Naming

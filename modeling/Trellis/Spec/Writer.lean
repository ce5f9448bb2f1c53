import Trellis.Spec

/-!
Writing a specification as JSON. Every member is written, null for what is not given.
-/

namespace Trellis.Spec

/-- What every view may say of itself. -/
def propsMembers (p : ViewProps) : List (String × Json) :=
  [("name", Json.ofOption .str p.name), ("title", Json.ofOption .str p.title),
    ("data", Json.ofOption DataDef.toJson p.data), ("config", Json.ofOption Config.toJson p.config)]

def sizeMembers (s : Size) : List (String × Json) :=
  [("width", Json.ofOption .real s.width), ("height", Json.ofOption .real s.height)]

def encodingToJson (e : Dict Channel ChannelDef) : Json :=
  .object (e.entries.map (fun (c, d) => (c.name, d.toJson)))

def facetToJson (f : Dict Channel FieldDef) : Json :=
  .object (f.entries.map (fun (c, d) => (c.name, d.toJson)))

def selectionToJson (s : Dict String SelectionDef) : Json :=
  .object (s.entries.map (fun (k, d) => (k, d.toJson)))

mutual

def toJson : Spec → Json
  | unit s =>
    .object (propsMembers s.props ++ sizeMembers s.size ++
      [("mark", s.mark.toJson), ("encoding", encodingToJson s.encoding),
        ("selection", selectionToJson s.selection)])
  | layer s children =>
    .object (propsMembers s.props ++ sizeMembers s.size ++
      [("layer", .arr (listToJson children)), ("resolve", s.resolve.toJson)])
  | facet s child =>
    .object (propsMembers s.props ++
      [("facet", facetToJson s.facet), ("spec", child.toJson), ("resolve", s.resolve.toJson)])

def listToJson : List Spec → List Json
  | [] => []
  | s :: rest => s.toJson :: listToJson rest

end

end Trellis.Spec

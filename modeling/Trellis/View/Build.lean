import Trellis.Error
import Trellis.View

/-!
Building the view tree of a specification: names, indices, normalized encodings and decisions on
sharing. A layer without views under it and a facet directly in a layer are refused.
-/

namespace Trellis

namespace UnitView

/-- What becomes of a channel of an encoding: it is dropped with a report, or kept with its field
definition normalized. -/
def accept (mark : MarkDef) (c : Channel) (d : ChannelDef) : Except Diagnostic ChannelDef :=
  if !mark.type.supports c then .error (.incompatibleChannel c mark.type.name)
  else match d with
    | .value j => .ok (.value j)
    | .field f => if f.hasField then .ok (.field f.normalize) else .error (.emptyFieldDef c)

/-- The channels of an encoding that a mark can show, and a report on each of the others. -/
def acceptAll (mark : MarkDef) (encoding : Encoding) : Encoding × List Diagnostic :=
  encoding.entries.foldl (fun (kept, ds) (c, d) =>
    match accept mark c d with
    | .ok d => (kept.insert c d, ds)
    | .error e => (kept, ds ++ [e])) (.empty, [])

/-- The unit of a specification; inside a facet the cell style of facets goes over its own. -/
def ofSpec (s : UnitSpec) (config : Config) (inFacet : Bool) : UnitView × List Diagnostic :=
  let (encoding, ds) := acceptAll s.mark s.encoding
  let cell := if inFacet then config.cell.style.extend config.facetCell else config.cell.style
  (⟨s.mark, encoding, s.selection, s.size, cell⟩, ds)

end UnitView

namespace FacetView

/-- What becomes of a facet binding. -/
def accept (c : Channel) (f : FieldDef) : Except Diagnostic FieldDef :=
  if !c.isFacet then .error (.incompatibleChannel c "facet")
  else if f.hasField then .ok f.normalize
  else .error (.emptyFieldDef c)

/-- The bindings that make a grid, and a report on each of the others. -/
def ofBindings (bindings : Dict Channel FieldDef) : FacetView × List Diagnostic :=
  let (kept, ds) := bindings.entries.foldl (fun (kept, ds) (c, f) =>
    match accept c f with
    | .ok f => (kept.insert c f, ds)
    | .error e => (kept, ds ++ [e])) (Dict.empty, [])
  (⟨kept⟩, ds)

end FacetView

namespace View

/-- Joins an index to a name until it is new. One round for each name taken is enough, as every round
makes the name longer. -/
def freshName (taken : List String) (index : Nat) : (rounds : Nat) → String → String
  | 0, name => name
  | rounds + 1, name =>
    if taken.contains name then
      freshName taken index rounds (Naming.qualify name (toString index))
    else name

/-- How far a tree is built: the names of its nodes, in order, and what was reported. -/
structure Progress where
  names : List String
  diagnostics : List Diagnostic

namespace Progress

def start : Progress := ⟨[], []⟩

/-- The index of the next node. -/
def index (p : Progress) : Nat := p.names.length

/-- The name of the next node, from the one wanted. -/
def freshName (p : Progress) (wanted : String) : String :=
  View.freshName p.names p.index p.index wanted

/-- Goes on to the next node. -/
def enter (p : Progress) (name : String) (ds : List Diagnostic) : Progress :=
  ⟨p.names ++ [name], p.diagnostics ++ ds⟩

end Progress

mutual

/-- The view of a specification below the given nodes. -/
def place (config : Config) (ancestors : List Node) (given : String) (p : Progress) :
    Spec → Except StructureError (View × Progress)
  | .unit s =>
    let name := p.freshName (s.props.name.getD given)
    let (unit, ds) := UnitView.ofSpec s config (ancestors.any Node.isFacet)
    let node := ⟨p.index, name, s.props.title, .unit unit, .empty, .empty⟩
    .ok (.mk node [], p.enter name ds)
  | .layer s children => do
    -- a fault is reported under the name the node would have had
    let name := p.freshName (s.props.name.getD given)
    if children.isEmpty then throw (.emptyLayer name)
    let (resolve, ds) := s.resolve.composite
    let node := ⟨p.index, name, s.props.title, .layer s.size, resolve, .empty⟩
    let (views, p) ← placeAll config (node :: ancestors) name 0 (p.enter name ds) children
    return (.mk node views, p)
  | .facet s child => do
    let name := p.freshName (s.props.name.getD given)
    if (ancestors.head?.any Node.isLayer) then throw (.facetInLayer name)
    let (facet, ds) := FacetView.ofBindings s.facet
    let (resolve, ds') := s.resolve.composite
    let node := ⟨p.index, name, s.props.title, .facet facet, resolve, .empty⟩
    let (view, p) ← place config (node :: ancestors) (Naming.qualify name Naming.facetChild)
      (p.enter name (ds ++ ds')) child
    return (.mk node [view], p)

/-- The views of a layer's specifications, from the i-th on. -/
def placeAll (config : Config) (ancestors : List Node) (layer : String) (i : Nat) (p : Progress) :
    List Spec → Except StructureError (List View × Progress)
  | [] => .ok ([], p)
  | s :: rest => do
    let (view, p) ← place config ancestors (Naming.qualify layer (Naming.layerChild i)) p s
    let (views, p) ← placeAll config ancestors layer (i + 1) p rest
    return (view :: views, p)

end

end View

/-- Views that were taken out from under a node. They belong to no traversal of the tree but still
look up to the nodes they were under. -/
structure Offcut where
  /-- The indices of those nodes, nearest first. -/
  lineage : List Nat
  views : List View
deriving Inhabited

/-- A view tree with what the root's specification says for all of it. -/
structure Tree where
  root : View
  config : Config
  data : Option DataDef
  /-- The last phase that has run over the whole tree. -/
  parsed : Option Phase
  offcuts : List Offcut
deriving Inhabited

namespace Tree

/-- The tree of a specification, and what was reported on the way. -/
def build (spec : Spec) (config : Config) : Except StructureError (Tree × List Diagnostic) := do
  let (root, p) ← View.place config [] "" .start spec
  return (⟨root, config, spec.data?, none, []⟩, p.diagnostics)

def rootSite (t : Tree) : Site := ⟨[], t.root⟩

end Tree
end Trellis

import Trellis.View.Assemble

/-!
Changes to single nodes of a tree, besides the phases. A node is known by its index, also after the
views around it were taken out of the tree.
-/

namespace Trellis

namespace View

mutual

/-- Changes the view at an index. -/
def changeAt (index : Nat) (f : View → View) : View → View
  | mk n cs => if n.index = index then f (mk n cs) else mk n (changeAtIn index f cs)

def changeAtIn (index : Nat) (f : View → View) : List View → List View
  | [] => []
  | v :: rest => changeAt index f v :: changeAtIn index f rest

end

end View

namespace Tree

/-- The nodes of the tree and those taken out of it. -/
def allNodes (t : Tree) : List Node :=
  t.root.nodes ++ t.offcuts.flatMap (fun o => View.nodesIn o.views)

def node? (t : Tree) (index : Nat) : Option Node := t.allNodes.find? (fun n => n.index = index)

/-- The sites of the tree and those of the views taken out of it. -/
def allSites (t : Tree) : List Site :=
  t.root.sites [] ++
    t.offcuts.flatMap (fun o => View.sitesIn (o.lineage.filterMap t.node?) o.views)

def site? (t : Tree) (index : Nat) : Option Site := t.allSites.find? (fun s => s.node.index = index)

/-- Changes the root and every view taken out. -/
def mapViews (f : View → View) (t : Tree) : Tree :=
  { t with root := f t.root, offcuts := t.offcuts.map (fun o => { o with views := o.views.map f }) }

/-- Changes the view at an index. -/
def changeAt (t : Tree) (index : Nat) (f : View → View) : Tree := t.mapViews (View.changeAt index f)

/-- Changes what has been worked out for a node. -/
def update (t : Tree) (index : Nat) (f : Components → Components) : Tree :=
  t.changeAt index (View.update f)

/-- Resolves the scales of the views under a node once more. -/
def mergeScales (t : Tree) (s : Site) : Tree × Option CompileError :=
  let o := s.view.mergeScales
  (t.changeAt s.node.index (fun _ => o.view), o.error)

/-- Resolves the legends of the views under a node once more. -/
def mergeLegends (t : Tree) (index : Nat) : Tree := t.changeAt index View.collectLegends

/-- Works out the sizes of a node once more. -/
def resize (t : Tree) (s : Site) : Tree :=
  t.update s.node.index (fun c => { c with layoutSize := View.sizes s t.config })

/-- Collects the selections of the views under a node once more. -/
def collectSelections (t : Tree) (index : Nat) : Tree :=
  t.changeAt index (fun v =>
    v.update (fun c => { c with selection := View.unionSelections v.children }))

/-- Decides anew what the views under a node share. -/
def setResolution (t : Tree) (index : Nat) (aspect : Aspect) (c : Channel) (r : Resolution) : Tree :=
  t.changeAt index (View.updateNode (fun n => { n with resolve := n.resolve.set aspect c r }))

/-- Changes the events of a selection, at every node that knows it. -/
def setEvents (t : Tree) (origin : SelectionOrigin) (events : String) : Tree :=
  t.mapViews (View.mapNodes (Node.update · (fun c =>
    { c with
      selection := c.selection.mapValues (fun s =>
        if s.origin = origin then { s with events } else s) })))

/-- Puts the first axis of a channel on a side. -/
def setOrient (t : Tree) (index : Nat) (c : Channel) (o : Orient) : Tree :=
  t.update index (fun k =>
    { k with
      axes := k.axes.modify c (fun axes =>
        match axes with
        | a :: rest => { a with orient := o } :: rest
        | [] => []) })

/-- Moves the legend of a channel from one node to another, which keeps what it has. A node that is
to pass a legend to itself gives it up. -/
def moveLegend (t : Tree) (child parent : Node) (c : Channel) : Tree :=
  let (legends, kept) := Legend.moveUp parent.components.legends child.components.legends c
  (t.update parent.index (fun k => { k with legends })).update child.index
    (fun k => { k with legends := kept })

/-- Joins a title with that of a node's header, which gives its own up. -/
def mergeTitle (t : Tree) (index : Nat) (h : HeaderChannel) (title : String)
    (header : LayoutHeader) : String × Tree :=
  let (merged, header) := LayoutHeader.mergeTitle title header
  (merged, t.update index (fun c => { c with headers := c.headers.insert h header }))

/-- Takes the data of a scale into that of a node. -/
def uniteScale (t : Tree) (index : Nat) (c : Channel) (other : Scale) : Tree :=
  t.update index (fun k => { k with scales := k.scales.modify c (·.unionDomain other) })

/-- Lets a scale of a node read another dataset in place of one. -/
def renameScaleData (t : Tree) (index : Nat) (c : Channel) (source target : String) : Tree :=
  t.update index (fun k => { k with scales := k.scales.modify c (·.renameData source target) })

/-- Sets what a node splits, if its data is described. -/
def setFacetRoot (t : Tree) (index : Nat) (root : Option FacetRoot) : Tree :=
  t.update index (fun c => { c with data := c.data.map (fun d => { d with facetRoot := root }) })

/-- Gives a node a name, whether or not another one has it. -/
def rename (t : Tree) (index : Nat) (name : String) : Tree :=
  t.changeAt index (View.updateNode (fun n => { n with name }))

/-- Takes the views under a site out of the tree. -/
def detach (t : Tree) (s : Site) : Tree :=
  if s.view.children.isEmpty then t
  else
    let cut := t.changeAt s.node.index (fun v => .mk v.node [])
    { cut with offcuts := cut.offcuts ++ [⟨s.lineage.map Node.index, s.view.children⟩] }

end Tree
end Trellis

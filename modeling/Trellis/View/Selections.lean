import Trellis.View.Outcome

/-!
Selections. A unit works out those it declares; every other node knows the selections of the views
under it, of several with one name the first. A selection that is known in several places keeps its
origin there, so all of them mean the same one.
-/

namespace Trellis

namespace View

/-- The selections a unit declares, and what was reported on them. -/
def ownSelections (n : Node) (u : UnitView) : Dict String Selection × List Diagnostic :=
  u.selection.entries.foldl (fun (done, ds) (key, d) =>
    let (selection, new) := Selection.ofDef ⟨n.index, key⟩ n.name u.fieldDef? d
    (done.insert key selection, ds ++ new)) (.empty, [])

/-- The selections of views side by side. -/
def unionSelections (views : List View) : Dict String Selection :=
  views.foldl (fun known v =>
    v.node.components.selection.entries.foldl (fun known (key, s) => known.insertIfNew key s) known)
    .empty

/-- The selection phase on one view. -/
def selectionStep : Step := fun _ v =>
  let (selection, ds) := match v.node.kind with
    | .unit u => ownSelections v.node u
    | _ => (unionSelections v.children, [])
  ⟨v.update (fun c => { c with selection }), ds, none⟩

end View

namespace Selection

/-- The signals of a selection of single records: its tuple, for several records whether to toggle,
and the change to its store. -/
def pointSignals (s : Selection) : List Signal :=
  let tuple := Naming.tuple s.name
  let store := Naming.store s.name
  let pick : Signal :=
    .reactive tuple (some (.obj [])) [⟨.events s.events, .pick s.unit s.project, true⟩]
  let apply (e : Expression) : Signal :=
    .reactive (Naming.modify s.name) none [⟨.signal tuple, e, false⟩]
  match s.type with
  | .multi =>
    let toggle := Naming.toggle s.name
    [pick, .reactive toggle (some (.bool false)) [⟨.events s.events, .shiftPressed, false⟩],
      apply (.modifyOrToggle store toggle tuple)]
  | _ => [pick, apply (.modify store tuple)]

/-- The fields reached through x or y, with their channel. -/
def brushed (s : Selection) : List (Channel × String) :=
  s.project.filterMap (fun p =>
    match p.channel with
    | some .x => some (.x, p.field)
    | some .y => some (.y, p.field)
    | _ => none)

/-- The signal of the pixels brushed on a channel. -/
def pixelSignal (s : Selection) (c : Channel) : String := s.name ++ "_" ++ c.name

/-- The signal of the part of a field that is brushed. -/
def fieldSignal (s : Selection) (field : String) : String :=
  s.name ++ "_" ++ Naming.identifierText field

/-- The signals of an interval selection: pixels and the part of the domain under them for each
brushed field, its tuple, and the change to its store. -/
def intervalSignals (s : Selection) (site : Site) : List Signal :=
  let tuple := Naming.tuple s.name
  let each := s.brushed.flatMap (fun (c, field) =>
    let pixels := s.pixelSignal c
    let size := site.sizeSignal (c.dimension?.getD .height)
    [ .reactive pixels (some (.arr []))
        [⟨.events "mousedown", .press c, false⟩, ⟨.events s.events, .drag pixels c size, false⟩],
      .reactive (s.fieldSignal field) none
        [⟨.signal pixels, .invert (site.scaleName c) pixels, false⟩]])
  let intervals := s.brushed.map (fun (c, field) => (⟨c, field, s.fieldSignal field⟩ : Interval))
  each ++ [
    .reactive tuple none
      [⟨.anyOf (s.brushed.map (fun (_, field) => s.fieldSignal field)),
        .brush s.unit intervals, false⟩],
    .reactive (Naming.modify s.name) none
      [⟨.signal tuple, .modify (Naming.store s.name) tuple, false⟩]]

def signals (s : Selection) (site : Site) : List Signal :=
  match s.type with
  | .interval => s.intervalSignals site
  | _ => s.pointSignals

end Selection

namespace Site

/-- The selections known at a site, by name. -/
def selections (s : Site) : List Selection := s.node.components.selection.values

/-- The signals of the selections that units in the site's group declare. -/
def unitSignals (s : Site) : List Signal :=
  (s.groupMembers.filter (fun m => m.node.isUnit)).flatMap (fun m =>
    -- only a unit that still has the name it declared the selection under
    (m.selections.filter (fun x => x.unit == m.node.name)).flatMap (fun x => x.signals m))

/-- The signals the root offers for every selection: its value, and the pointed group if extents are
brushed anywhere. -/
def topSignals (s : Site) : List Signal :=
  let pointed : Signal := .reactive Naming.unitSignal (some (.obj []))
    [⟨.events "mousemove", .pointedGroup, false⟩]
  (if s.selections.any (fun x => x.type = .interval) then [pointed] else []) ++
    s.selections.map (fun x => .computed x.name (.data (Naming.store x.name)))

/-- The stores of every selection. -/
def selectionStores (s : Site) : List Dataset :=
  s.selections.map (fun x => .bare (Naming.store x.name))

end Site
end Trellis

import Trellis.View.Build

/-!
Working through a tree in one phase. A step that fails leaves what was done before it, so its outcome
is a view and perhaps an error, not one or the other.
-/

namespace Trellis

namespace Components

/-- Fails unless a phase has run for the node. -/
def ensure (c : Components) (phase : Phase) : Except PhaseError Unit :=
  if Phase.covers c.completed phase then .ok () else .error (.notYet phase)

/-- The data of a node, once its phase has run. -/
def dataOrError (c : Components) : Except PhaseError DataComponent := do
  c.ensure .data
  match c.data with
  | some d => return d
  | none => throw .dataMissing

end Components

/-- What a phase leaves of a view, what it reports, and where it failed. -/
structure Outcome where
  view : View
  diagnostics : List Diagnostic
  error : Option CompileError

/-- The same for views side by side. -/
structure Outcomes where
  views : List View
  diagnostics : List Diagnostic
  error : Option CompileError

namespace Outcome

def ok (view : View) : Outcome := ⟨view, [], none⟩

def failed (view : View) (error : CompileError) : Outcome := ⟨view, [], some error⟩

/-- Changes the view with a result, or leaves it with an error. -/
def ofExcept {ε α : Type} (view : View) (cause : ε → CompileError) (result : Except ε α)
    (f : α → View) : Outcome :=
  match result with
  | .ok a => .ok (f a)
  | .error e => failed view (cause e)

/-- Marks the node as done unless something failed. -/
def complete (phase : Phase) (o : Outcome) : Outcome :=
  match o.error with
  | some _ => o
  | none => { o with view := o.view.update (fun c => { c with completed := some phase }) }

end Outcome

/-- A step of one phase on a view, given the nodes above it. -/
abbrev Step : Type := List Node → View → Outcome

namespace View

mutual

/-- Runs a step on every view, after the views under it. -/
def bottomUp (phase : Phase) (step : Step) (ancestors : List Node) : View → Outcome
  | mk n cs =>
    let below := bottomUpIn phase step (n :: ancestors) cs
    match below.error with
    | some e => ⟨mk n below.views, below.diagnostics, some e⟩
    | none =>
      let own := step ancestors (mk n below.views)
      ({ own with diagnostics := below.diagnostics ++ own.diagnostics } : Outcome).complete phase

def bottomUpIn (phase : Phase) (step : Step) (ancestors : List Node) : List View → Outcomes
  | [] => ⟨[], [], none⟩
  | v :: rest =>
    let first := bottomUp phase step ancestors v
    match first.error with
    | some e => ⟨first.view :: rest, first.diagnostics, some e⟩
    | none =>
      let others := bottomUpIn phase step ancestors rest
      ⟨first.view :: others.views, first.diagnostics ++ others.diagnostics, others.error⟩

end

mutual

/-- Describes the data of every view, before that of the views under it. -/
def describe (data : Site → DataComponent) (ancestors : List Node) : View → View
  | mk n cs =>
    let described := n.update (fun c => { c with data := some (data ⟨ancestors, mk n cs⟩) })
    let views := describeIn data (described :: ancestors) cs
    mk (described.update (fun c => { c with completed := some .data })) views

def describeIn (data : Site → DataComponent) (ancestors : List Node) : List View → List View
  | [] => []
  | v :: rest => describe data ancestors v :: describeIn data ancestors rest

end

end View
end Trellis

import Trellis.Spec.Reader
import Trellis.View.Assemble

/-!
Compiling a specification: building its tree, running the phases, assembling the visualization.
-/

namespace Trellis

/-- What a call leaves of a tree, what it reports, and the error it ends with, if any. -/
structure TreeOutcome where
  tree : Tree
  diagnostics : List Diagnostic
  error : Option CompileError

namespace View

/-- One phase over a view. -/
def runPhase (pipeline : Pipeline) (config : Config) (input : Option DataDef) (v : View) :
    Phase → Outcome
  | .data => .ok (v.describe (pipeline.parse input) [])
  | .scale => v.bottomUp .scale (scaleStep config) []
  | .layoutSize => v.bottomUp .layoutSize (sizeStep config) []
  | .selection => v.bottomUp .selection selectionStep []
  | .markGroup => v.bottomUp .markGroup (markStep config) []
  | .axisAndHeader => v.bottomUp .axisAndHeader (guideStep config) []
  | .legend => v.bottomUp .legend legendStep []

end View

namespace Tree

/-- Runs a phase over the whole tree, which has to be the one due. -/
def runPhase (t : Tree) (pipeline : Pipeline) (phase : Phase) : TreeOutcome :=
  if Phase.due? t.parsed ≠ some phase then
    ⟨t, [], some (.phase (.outOfOrder phase (Phase.due? t.parsed)))⟩
  else
    let o := t.root.runPhase pipeline t.config t.data phase
    let done := if o.error.isSome then t.parsed else some phase
    ⟨{ t with root := o.view, parsed := done }, o.diagnostics, o.error⟩

/-- Runs phases in turn until one fails. -/
def runPhases (t : Tree) (pipeline : Pipeline) : List Phase → TreeOutcome
  | [] => ⟨t, [], none⟩
  | phase :: rest =>
    let first := t.runPhase pipeline phase
    match first.error with
    | some _ => first
    | none =>
      let others := first.tree.runPhases pipeline rest
      { others with diagnostics := first.diagnostics ++ others.diagnostics }

/-- The phases that have not run yet. -/
def remaining (t : Tree) : List Phase := Phase.all.filter (fun p => !Phase.covers t.parsed p)

/-- Runs every phase that is left. -/
def parse (t : Tree) (pipeline : Pipeline) : TreeOutcome := t.runPhases pipeline t.remaining

end Tree

/-- A finished compilation: the visualization and what was reported, in the order it was met. -/
structure Compiled where
  visualization : Visualization
  diagnostics : List Diagnostic
deriving Inhabited

/-- How specifications are compiled: the data pipeline, and the configuration of those without one. -/
structure Compiler where
  pipeline : Pipeline
  config : Config

namespace Compiler

def standard : Compiler := ⟨.standard, .default⟩

/-- The tree of a specification, under its own configuration if it has one. -/
def build (c : Compiler) (spec : Spec) : Except StructureError (Tree × List Diagnostic) :=
  Tree.build spec (spec.config?.getD c.config)

def compile (c : Compiler) (spec : Spec) : Except CompileError Compiled := do
  let (tree, built) ← (c.build spec).mapError .malformed
  let o := tree.parse c.pipeline
  match o.error with
  | some e => throw e
  | none => return ⟨← o.tree.assemble c.pipeline, built ++ o.diagnostics⟩

/-- Compiles a specification given as a JSON value. -/
def compileJson (c : Compiler) (j : Json) : Except CompileError Compiled := do
  c.compile (← (Spec.decode j).mapError .invalidSpec)

end Compiler

/-- Reads a specification from text. A text that starts with a value which is no specification fails
for that, whatever follows the value. -/
def readSpec (text : String) : Except TextError Spec := do
  let (j, rest) ← (Json.readValue Json.depthLimit text).mapError .notJson
  let spec ← (Spec.decode j).mapError .notSpec
  (Json.finish rest).mapError .notJson
  return spec

/-- Compiles a specification given as text. -/
def compileText (text : String) : Except CompileError Compiled := do
  Compiler.standard.compile (← (readSpec text).mapError .text)

end Trellis

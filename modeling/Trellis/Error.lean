import Trellis.Json.Reader
import Trellis.Json.Decode
import Trellis.Phase

/-!
What can go wrong in a compilation: the input cannot be read, the tree is malformed, or a phase is
asked for out of order.
-/

namespace Trellis

/-- A malformed view tree. -/
inductive StructureError where
  | emptyLayer (name : String)
  | facetInLayer (name : String)
  | childlessFacet (index : Nat)
deriving DecidableEq, Repr

/-- A step that lacks what an earlier one should have left. -/
inductive PhaseError where
  | outOfOrder (phase : Phase) (due : Option Phase)
  | notYet (phase : Phase)
  | dataMissing
  | facetDataMissing
  | cellMissing
  | unfinished
deriving DecidableEq, Repr

/-- Why JSON text is not a specification. -/
inductive TextError where
  | notJson (cause : Json.SyntaxError)
  | notSpec (cause : ReadError)
deriving DecidableEq, Repr

inductive CompileError where
  | invalidSpec (cause : ReadError)
  | malformed (cause : StructureError)
  | phase (cause : PhaseError)
  | text (cause : TextError)
deriving DecidableEq, Repr

def StructureError.message : StructureError → String
  | emptyLayer name => "layer \"" ++ name ++ "\" has no children"
  | facetInLayer name => "facet \"" ++ name ++ "\" cannot be placed inside a layer"
  | childlessFacet index => "facet " ++ toString index ++ " has no child"

def PhaseError.message : PhaseError → String
  | outOfOrder phase due =>
    "cannot run the " ++ phase.name ++ " phase, expected " ++
      (match due with
        | some p => "Some(" ++ p.name ++ ")"
        | none => "None")
  | notYet phase => "component read before the " ++ phase.name ++ " phase completed"
  | dataMissing => "data component missing"
  | facetDataMissing => "facet data missing its faceted dataset"
  | cellMissing => "facet cell mark missing"
  | unfinished => "assemble requires every parse phase to complete first"

def TextError.message : TextError → String
  | notJson cause => cause.message
  | notSpec cause => cause.message

def CompileError.message : CompileError → String
  | invalidSpec cause => "Invalid specification: " ++ cause.message
  | malformed cause => "Malformed view tree: " ++ cause.message
  | phase cause => "Compile phase error: " ++ cause.message
  | text cause => "JSON error: " ++ cause.message

end Trellis

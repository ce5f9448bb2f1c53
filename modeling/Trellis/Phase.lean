/-!
The phases in which the views of a tree are worked out, one after the other over the whole tree.
-/

namespace Trellis

inductive Phase where
  | data
  | scale
  | layoutSize
  | selection
  | markGroup
  | axisAndHeader
  | legend
deriving DecidableEq, Repr, Inhabited

namespace Phase

/-- All phases in the order they run. -/
def all : List Phase := [.data, .scale, .layoutSize, .selection, .markGroup, .axisAndHeader, .legend]

def name : Phase → String
  | data => "Data"
  | scale => "Scale"
  | layoutSize => "LayoutSize"
  | selection => "Selection"
  | markGroup => "MarkGroup"
  | axisAndHeader => "AxisAndHeader"
  | legend => "Legend"

def rank : Phase → Nat
  | data => 0
  | scale => 1
  | layoutSize => 2
  | selection => 3
  | markGroup => 4
  | axisAndHeader => 5
  | legend => 6

def next? : Phase → Option Phase
  | data => some scale
  | scale => some layoutSize
  | layoutSize => some selection
  | selection => some markGroup
  | markGroup => some axisAndHeader
  | axisAndHeader => some legend
  | legend => none

def first : Phase := data

def last : Phase := legend

/-- The phase that is due after those done. -/
def due? : Option Phase → Option Phase
  | none => some first
  | some done => done.next?

/-- Whether `phase` has run once `done` is the last one that ran. -/
def covers (done : Option Phase) (phase : Phase) : Bool :=
  match done with
  | none => false
  | some d => phase.rank ≤ d.rank

end Phase
end Trellis

import Trellis.Json.Decode

/-!
Encoding channels: the visual properties a view binds data to.

x, y and their secondary variants are positional and shown by axes; color, size, shape and opacity
are shown by legends; row and column only occur on facets and are shown by headers; text, tooltip
and detail have no scale.
-/

namespace Trellis

inductive Channel where
  | x
  | y
  | x2
  | y2
  | row
  | column
  | color
  | size
  | shape
  | opacity
  | text
  | tooltip
  | detail
deriving DecidableEq, Repr, Inhabited

/-- A direction in which a view has a size. -/
inductive Dimension where
  | width
  | height
deriving DecidableEq, Repr, Inhabited

/-- A side of a facet grid that carries headers. -/
inductive HeaderChannel where
  | row
  | column
deriving DecidableEq, Repr, Inhabited

namespace Dimension

def all : List Dimension := [.width, .height]

def name : Dimension → String
  | width => "width"
  | height => "height"

def channel : Dimension → Channel
  | width => .x
  | height => .y

def rank : Dimension → Nat
  | width => 0
  | height => 1

instance : Ord Dimension := ⟨fun a b => compare a.rank b.rank⟩

end Dimension

namespace Channel

/-- All channels in their order. -/
def all : List Channel :=
  [.x, .y, .x2, .y2, .row, .column, .color, .size, .shape, .opacity, .text, .tooltip, .detail]

def name : Channel → String
  | x => "x"
  | y => "y"
  | x2 => "x2"
  | y2 => "y2"
  | row => "row"
  | column => "column"
  | color => "color"
  | size => "size"
  | shape => "shape"
  | opacity => "opacity"
  | text => "text"
  | tooltip => "tooltip"
  | detail => "detail"

def rank : Channel → Nat
  | x => 0
  | y => 1
  | x2 => 2
  | y2 => 3
  | row => 4
  | column => 5
  | color => 6
  | size => 7
  | shape => 8
  | opacity => 9
  | text => 10
  | tooltip => 11
  | detail => 12

instance : Ord Channel := ⟨fun a b => compare a.rank b.rank⟩

/-- The channels whose scale an axis shows. -/
def axisChannels : List Channel := [.x, .y]

/-- The channels whose scale a legend shows. -/
def legendChannels : List Channel := [.color, .size, .shape, .opacity]

/-- The channels that have a scale, in the order they are resolved. -/
def scaleChannels : List Channel := axisChannels ++ legendChannels

def hasScale (c : Channel) : Bool := scaleChannels.contains c

def isPositional : Channel → Bool
  | x | y | x2 | y2 => true
  | _ => false

def isFacet : Channel → Bool
  | row | column => true
  | _ => false

/-- The channel whose scale this one uses: x2 goes with x and y2 with y. -/
def primary : Channel → Channel
  | x2 => x
  | y2 => y
  | c => c

/-- The channel that gives the far end of a position. -/
def secondary? : Channel → Option Channel
  | x => some x2
  | y => some y2
  | _ => none

def dimension? (c : Channel) : Option Dimension :=
  match c.primary with
  | x => some .width
  | y => some .height
  | _ => none

def ofName (s : String) : Except ReadError Channel := Decode.named all name s

def decode : Decode Channel := Decode.choice all name

end Channel

namespace HeaderChannel

def name : HeaderChannel → String
  | row => "row"
  | column => "column"

def channel : HeaderChannel → Channel
  | row => .row
  | column => .column

/-- The size of a cell along the header. -/
def dimension : HeaderChannel → Dimension
  | row => .height
  | column => .width

/-- The header that collects the axes of a channel: those of x line up along columns. -/
def forAxis? (c : Channel) : Option HeaderChannel :=
  match c.primary with
  | .x => some column
  | .y => some row
  | _ => none

def rank : HeaderChannel → Nat
  | row => 0
  | column => 1

instance : Ord HeaderChannel := ⟨fun a b => compare a.rank b.rank⟩

end HeaderChannel

/-! ### The orders are lawful -/

section
variable {α : Type} (f : α → Nat)

theorem compareOn_trans [Ord α] (h : ∀ a b : α, compare a b = compare (f a) (f b)) :
    Std.TransOrd α where
  eq_swap {a b} := by rw [h, h]; exact Std.OrientedCmp.eq_swap
  isLE_trans {a b c} := by rw [h, h, h]; exact Std.TransCmp.isLE_trans

theorem compareOn_lawful [Ord α] (h : ∀ a b : α, compare a b = compare (f a) (f b))
    (inj : ∀ a b : α, f a = f b → a = b) : Std.LawfulEqOrd α where
  compare_self {a} := by rw [h]; exact Std.ReflCmp.compare_self
  eq_of_compare {a b} hab := inj a b (Std.LawfulEqOrd.eq_of_compare (h a b ▸ hab))

end

instance : Std.TransOrd Channel := compareOn_trans Channel.rank (fun _ _ => rfl)
instance : Std.LawfulEqOrd Channel :=
  compareOn_lawful Channel.rank (fun _ _ => rfl) (fun a b => by cases a <;> cases b <;> decide)
instance : Std.TransOrd Dimension := compareOn_trans Dimension.rank (fun _ _ => rfl)
instance : Std.LawfulEqOrd Dimension :=
  compareOn_lawful Dimension.rank (fun _ _ => rfl) (fun a b => by cases a <;> cases b <;> decide)
instance : Std.TransOrd HeaderChannel := compareOn_trans HeaderChannel.rank (fun _ _ => rfl)
instance : Std.LawfulEqOrd HeaderChannel :=
  compareOn_lawful HeaderChannel.rank (fun _ _ => rfl)
    (fun a b => by cases a <;> cases b <;> decide)

end Trellis

import Trellis.Diagnostic

/-!
Whether the views under a layer or facet share a scale, axis or legend, or keep their own.

A guide follows its scale: where scales are independent, so is the guide (`Resolve.composite`).
-/

namespace Trellis

inductive Resolution where
  | shared
  | independent
deriving DecidableEq, Repr, Inhabited

namespace Resolution

def all : List Resolution := [.shared, .independent]

def name : Resolution → String
  | shared => "shared"
  | independent => "independent"

def decode : Decode Resolution := Decode.choice all name

end Resolution

/-- What can be shared on a channel. -/
inductive Aspect where
  | scale
  | axis
  | legend
deriving DecidableEq, Repr, Inhabited

namespace Aspect

def all : List Aspect := [.scale, .axis, .legend]

def name : Aspect → String
  | scale => "scale"
  | axis => "axis"
  | legend => "legend"

/-- The decision where none was made. -/
def fallback : Aspect → Resolution
  | scale => .independent
  | axis | legend => .shared

end Aspect

/-- Decisions by aspect and channel. -/
structure Resolve where
  scale : Dict Channel Resolution
  axis : Dict Channel Resolution
  legend : Dict Channel Resolution
deriving Inhabited

namespace Resolve

/-- No decision at all. -/
def empty : Resolve := ⟨.empty, .empty, .empty⟩

def of (r : Resolve) : Aspect → Dict Channel Resolution
  | .scale => r.scale
  | .axis => r.axis
  | .legend => r.legend

/-- The decision for a channel, which a secondary channel takes from its primary one. -/
def get (r : Resolve) (aspect : Aspect) (c : Channel) : Resolution :=
  (r.of aspect).getD c.primary aspect.fallback

def set (r : Resolve) (aspect : Aspect) (c : Channel) (resolution : Resolution) : Resolve :=
  match aspect with
  | .scale => { r with scale := r.scale.insert c.primary resolution }
  | .axis => { r with axis := r.axis.insert c.primary resolution }
  | .legend => { r with legend := r.legend.insert c.primary resolution }

/-- Whether the views under a node have this aspect of a channel in common. -/
def shares (r : Resolve) (aspect : Aspect) (c : Channel) : Bool := r.get aspect c = .shared

/-- The aspect of the guide that shows the scale of a channel. -/
def guideAspect (c : Channel) : Aspect :=
  if Channel.axisChannels.contains c then .axis else .legend

/-- The decisions on one scale channel and its guide, scales being shared unless asked otherwise. A
guide that was asked to be shared over independent scales is reported. -/
def settle (asked : Resolve) (r : Resolve) (c : Channel) : Resolve × List Diagnostic :=
  let scale := asked.scale.getD c .shared
  let guide := (asked.of (guideAspect c)).get? c
  let r := r.set .scale c scale
  -- a guide never climbs above the scale it shows
  match scale, guide with
  | .independent, some .shared =>
    (r.set (guideAspect c) c .independent, [.independentScaleMeansIndependentGuide c])
  | .independent, _ => (r.set (guideAspect c) c .independent, [])
  | .shared, guide => (r.set (guideAspect c) c (guide.getD .shared), [])

/-- The decisions of a layer or facet, from those its specification asks for. -/
def composite (asked : Resolve) : Resolve × List Diagnostic :=
  Channel.scaleChannels.foldl
    (fun (r, ds) c => let (r, new) := settle asked r c; (r, ds ++ new)) (empty, [])

def decodeMap : Decode (Dict Channel Resolution) := Decode.dict Channel.ofName Resolution.decode

def decode : Decode Resolve := fun j => do
  let fields ← Fields.ofJson 3 j
  return {
    scale := ← fields.withDefault 0 "scale" .empty decodeMap
    axis := ← fields.withDefault 1 "axis" .empty decodeMap
    legend := ← fields.withDefault 2 "legend" .empty decodeMap }

def mapToJson (d : Dict Channel Resolution) : Json :=
  .object (d.entries.map (fun (c, r) => (c.name, .str r.name)))

def toJson (r : Resolve) : Json :=
  .object [
    ("scale", mapToJson r.scale), ("axis", mapToJson r.axis), ("legend", mapToJson r.legend)]

end Resolve
end Trellis

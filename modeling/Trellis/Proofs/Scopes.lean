import Trellis.Proofs.Cells
import Trellis.Proofs.Outcomes
import Trellis.Proofs.Written

/-! Scale references of a visualization are closed: every scale that a mark, an axis, a legend or a
brushed extent names is emitted by the group it stands in or by one around it. -/
namespace Trellis

/-! ### References in what is emitted -/

/-- What an emitted object holds under a key. -/
def Json.member? (key : String) : Json → Option Json
  | .obj members => Dict.lookup key members
  | _ => none

/-- An axis names a scale among some. -/
def Axis.ScaleIn (scope : List String) (a : Axis) : Prop :=
  ∃ name ∈ scope, a.toJson.member? "scale" = some (.str name)

/-- Whatever a legend names as the scale of a visual property is among some. -/
def Legend.ScalesIn (scope : List String) (l : Legend) : Prop :=
  ∀ key ∈ Legend.scaleKeys, ∀ j, l.toJson.member? key = some j → ∃ name ∈ scope, j = .str name

/-- The scales that the expressions of a signal invert are among some. -/
def Signal.InvertsIn (scope : List String) (s : Signal) : Prop :=
  ∀ scale pixels, .invert scale pixels ∈ s.expressions → scale ∈ scope

/-- The names of the scales that a group emits. -/
def Group.scaleNames (g : Group) : List String := g.scales.map NamedScale.name

mutual

/-- All scales that a mark and everything in it names are among some, or emitted within the mark
around the place where they are named. -/
inductive GroupMark.ScalesIn : List String → GroupMark → Prop where
  | unit {scope : List String} {m : UnitMark} :
      m.update.Refers (· ∈ scope) → GroupMark.ScalesIn scope (.unit m)
  | title {scope : List String} {m : TitleMark} : GroupMark.ScalesIn scope (.title m)
  | header {scope : List String} {m : HeaderMark} :
      (∀ a ∈ m.axes, a.ScaleIn scope) → GroupMark.ScalesIn scope (.header m)
  | cell {scope : List String} {m : CellMark} {data : List Dataset} {content : Group} :
      m.update.Refers (· ∈ scope) → Group.ScalesIn scope content →
      GroupMark.ScalesIn scope (.cell m data content)

/-- The same for a group, which adds its own scales to those around it. -/
inductive Group.ScalesIn : List String → Group → Prop where
  | intro {scope : List String} {g : Group} :
      (∀ m ∈ g.marks, GroupMark.ScalesIn (scope ++ g.scaleNames) m) →
      (∀ a ∈ g.axes, a.ScaleIn (scope ++ g.scaleNames)) →
      (∀ l ∈ g.legends, l.ScalesIn (scope ++ g.scaleNames)) →
      (∀ s ∈ g.signals, s.InvertsIn (scope ++ g.scaleNames)) → Group.ScalesIn scope g

end

theorem Json.member?_object (key : String) (members : List (String × Json)) :
    (Json.object members).member? key = (Dict.ofList members).get? key := rfl

/-- Members with different keys are found in the list of them. -/
theorem Json.member?_of_nodup {members : List (String × Json)}
    (hd : (members.map Prod.fst).Nodup) (key : String) :
    (Json.object members).member? key = Dict.lookup key members :=
  Dict.get?_ofList_of_nodup hd key

/-- The further properties of an axis come last, so where they have a member it counts. -/
theorem Axis.member?_toJson (a : Axis) (key : String) : a.toJson.member? key =
    (a.extra.get? key).or (Dict.lookup key
      ([("scale", .str a.scale), ("orient", .str a.orient.name), ("title", .str a.title)] ++
        Json.optional "format" .str a.format ++
        if a.grid then [("grid", .bool true)] else [])) := by
  have hgrid : ((if a.grid then [("grid", Json.bool true)] else []).map Prod.fst).Sublist
      ["grid"] := by
    split
    · exact List.Sublist.refl _
    · exact List.nil_sublist _
  have hdistinct : ["scale", "orient", "title", "format", "grid"].Nodup := by decide
  rw [toJson, Json.member?_object, Dict.get?_ofList_append, Dict.ofList_entries,
    Dict.get?_ofList_of_nodup]
  simp only [List.map_append]
  refine List.Nodup.sublist ?_ hdistinct
  exact ((List.Sublist.refl ["scale", "orient", "title"]).append
    (Dict.names_optional _ _ _)).append hgrid

/-- What a legend has besides the scale it shows and its further properties. -/
def Legend.caption (l : Legend) : List (String × Json) :=
  ("title", .str l.title) ::
    (Json.optional "format" .str l.format ++ Json.optional "type" .str l.type)

theorem Legend.names_caption (l : Legend) :
    (l.caption.map Prod.fst).Sublist ["title", "format", "type"] := by
  unfold caption
  rw [List.map_cons, List.map_append]
  exact ((Dict.names_optional _ _ _).append (Dict.names_optional _ _ _)).cons_cons "title"

theorem Legend.member?_toJson (l : Legend) (key : String) : l.toJson.member? key =
    (l.extra.get? key).or ((Dict.ofList ((l.property, .str l.scale) :: l.caption)).get? key) := by
  have hmembers : l.toJson =
      .object ((l.property, .str l.scale) :: l.caption ++ l.extra.entries) := by
    rw [toJson, caption, List.append_assoc [_, _]]
    rfl
  rw [hmembers, Json.member?_object, Dict.get?_ofList_append, Dict.ofList_entries]

/-- No visual property is called like a member of the caption. -/
theorem Legend.key_ne_of_mem_caption {l : Legend} {key : String} (hkey : key ∈ Legend.scaleKeys) :
    ∀ e ∈ l.caption, e.1 ≠ key := by
  have hother : ∀ key ∈ Legend.scaleKeys, key ∉ ["title", "format", "type"] := by decide
  intro e he hsame
  have hmem := l.names_caption.subset (List.mem_map_of_mem he)
  exact hother key hkey (hsame ▸ hmem)

/-- The names of the scales that a node holds. -/
def Node.heldScales (n : Node) : List String :=
  n.components.scales.keys.map (fun c => n.qualify c.name)

namespace View

variable {A : List Node} {v : View} {scope : List String}

/-- The scales that nodes hold are among some. -/
def HeldIn (scope : List String) (A : List Node) : Prop :=
  ∀ n ∈ A, ∀ name ∈ n.heldScales, name ∈ scope

theorem HeldIn.mono {wider : List String} (h : HeldIn scope A) (hsub : scope ⊆ wider) :
    HeldIn wider A := fun n hn name hname => hsub (h n hn name hname)

end View

/-! ### Groups -/

section
variable {whole : Spec} {input : Option DataDef} {bare : View} {A : List Node} {v : View}
  {scope : List String}

end

end Trellis

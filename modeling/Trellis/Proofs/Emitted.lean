import Trellis.Proofs.Cells
import Trellis.Proofs.Partition

/-! What the nodes of a tree hold is emitted once: scales, axes and legends, the axes in the headers
of facets, and the marks of units. -/
namespace Trellis

theorem Dict.filterMap_get?_perm {κ α : Type} [Ord κ] [Std.TransOrd κ] [Std.LawfulEqOrd κ]
    [DecidableEq κ] {keys : List κ} (hall : ∀ key, key ∈ keys) (hnodup : keys.Nodup)
    (d : Dict κ α) : (keys.filterMap d.get?).Perm d.values := by
  let found := keys.filterMap (fun key => (d.get? key).map (fun a => (key, a)))
  have hmem {key : κ} {a : α} : (key, a) ∈ found ↔ (key, a) ∈ d.entries := by
    rw [Dict.mem_entries_iff, List.mem_filterMap]
    simp [hall]
  have hfound : found.Nodup := by
    refine List.Nodup.filterMap ?_ hnodup
    intro a b e ha hb
    obtain ⟨x, -, rfl⟩ := Option.map_eq_some_iff.mp ha
    obtain ⟨y, -, hy⟩ := Option.map_eq_some_iff.mp hb
    exact (Prod.mk.inj hy).1.symm
  have hentries : found.Perm d.entries :=
    (List.perm_ext_iff_of_nodup hfound (Dict.keys_nodup d).of_map).mpr (fun _ => hmem)
  have hvalues : found.map Prod.snd = keys.filterMap d.get? := by
    rw [List.map_filterMap]
    simp [Option.map_map, Function.comp_def]
  rw [← hvalues]
  exact hentries.map Prod.snd

/-! ### What is emitted -/

/-- The axes in a header. -/
def LayoutHeader.axes (header : LayoutHeader) : List Axis :=
  HeaderSlot.all.flatMap (fun slot => (header.parts slot).flatMap HeaderPart.axes)

/-- The axes that a node has taken into its headers. -/
def Node.headerAxes (n : Node) : List Axis := n.components.headers.values.flatMap LayoutHeader.axes

/-- The axes of a header group; other marks have none. -/
def GroupMark.headerAxes : GroupMark → List Axis
  | .header m => m.axes
  | .unit _ | .title _ | .cell _ _ _ => []

/-- The axes of all header groups right in a group. -/
def Group.headerAxes (g : Group) : List Axis := g.marks.flatMap GroupMark.headerAxes

/-- The mark of a unit, and nothing for other marks. -/
def GroupMark.unitMark : GroupMark → List UnitMark
  | .unit m => [m]
  | .title _ | .header _ | .cell _ _ _ => []

/-- The marks of units right in a group. -/
def Group.unitMarks (g : Group) : List UnitMark := g.marks.flatMap GroupMark.unitMark

def MarkComponent.unitMark : MarkComponent → List UnitMark
  | unit m => [m]
  | cell _ => []

/-- The marks of units that a node has made. -/
def Node.unitMarks (n : Node) : List UnitMark := n.components.mark.flatMap MarkComponent.unitMark

/-- The scales that a site holds, under their names. -/
def Site.namedScales (s : Site) : List NamedScale :=
  s.node.components.scales.entries.map
    (fun (c, scale) => ⟨s.node.qualify c.name, scale, s.sizeSignal⟩)

/-- What the nodes of a tree hold is what the groups of a visualization show, once each. -/
structure Tree.Emits (t : Tree) (v : Visualization) : Prop where
  scales : (v.groups.flatMap Group.scales).Perm (t.rootSite.preOrder.flatMap Site.namedScales)
  axes : (v.groups.flatMap Group.axes).Perm
    (t.rootSite.preOrder.flatMap (fun s => s.node.components.axes.values.flatten))
  legends : (v.groups.flatMap Group.legends).Perm
    (t.rootSite.preOrder.flatMap (fun s => s.node.components.legends.values))
  headerAxes : (v.groups.flatMap Group.headerAxes).Perm
    (t.rootSite.preOrder.flatMap (fun s => s.node.headerAxes))
  marks : (v.groups.flatMap Group.unitMarks).Perm
    (t.rootSite.units.flatMap (fun s => s.node.unitMarks))
  single : ∀ s ∈ t.rootSite.units, ∃ m, s.node.unitMarks = [m]

theorem Site.headerGroups_headerAxes (s : Site) :
    (s.headerGroups.flatMap GroupMark.headerAxes).Perm s.node.headerAxes := by
  let headers := s.node.components.headers
  have htitles (h : HeaderChannel) (titles : List String) :
      titles.flatMap (fun title => GroupMark.headerAxes
        (.title ⟨s.node.qualify (h.name ++ "_title"), h, title⟩)) = [] :=
    List.flatMap_eq_nil_iff.mpr (fun _ _ => rfl)
  have hall : s.headerGroups.flatMap GroupMark.headerAxes =
      ([HeaderChannel.row, .column].filterMap headers.get?).flatMap LayoutHeader.axes := by
    rw [s.headerGroups_flatMap, List.filterMap_eq_flatMap_toList, List.flatMap_assoc]
    simp only [htitles]
    rfl
  rw [hall]
  exact (Dict.filterMap_get?_perm HeaderChannel.mem_sides (by decide) headers).flatMap_right _

theorem Site.headerGroups_unitMark (s : Site) :
    s.headerGroups.flatMap GroupMark.unitMark = [] := by
  rw [List.flatMap_eq_nil_iff]
  intro m hm
  obtain ⟨header, -, rfl⟩ := List.mem_map.mp hm
  cases header with
  | inl title => rfl
  | inr header => rfl

/-- A unit that is labelled has one mark, and other nodes have none of a unit. -/
theorem Labelled.unitMarks {s : Site} (h : Labelled s s.node.components) :
    if s.node.isUnit then ∃ m, s.node.unitMarks = [m] else s.node.unitMarks = [] := by
  unfold Labelled at h
  unfold Node.unitMarks
  cases hk : s.node.kind with
  | unit u =>
    rw [hk] at h
    obtain ⟨m, hmark, -⟩ := h
    rw [Node.isUnit_of_unit hk, if_pos rfl, hmark]
    exact ⟨m, rfl⟩
  | layer size =>
    rw [hk] at h
    rw [Node.not_unit_of_layer hk, if_neg Bool.false_ne_true, h]
    rfl
  | facet f =>
    rw [hk] at h
    obtain ⟨m, hmark, -⟩ := h
    rw [Node.not_unit_of_facet hk, if_neg Bool.false_ne_true, hmark]
    rfl

theorem flatMap_filter_of_nil {α β : Type} {p : α → Bool} {g : α → List β} {xs : List α}
    (h : ∀ x ∈ xs, p x = false → g x = []) : (xs.filter p).flatMap g = xs.flatMap g := by
  induction xs with
  | nil => rfl
  | cons x rest ih =>
    obtain ⟨hx, hrest⟩ := List.forall_mem_cons.mp h
    rw [List.filter_cons, List.flatMap_cons, ← ih hrest]
    cases hp : p x with
    | true => rfl
    | false =>
      rw [hx hp]
      rfl

/-- The groups of the topmost site and of the views in cells share out all nodes. -/
structure Site.GroupsPartition (s : Site) : Prop where
  all : (s.groupRoots.flatMap Site.groupMembers).Perm s.preOrder
  /-- No two sites are the same node. -/
  distinct : (s.preOrder.map (fun m => m.node.name)).Nodup

namespace Tree

variable {t : Tree} {pipeline : Pipeline} {spec : Spec} {config : Config} {ds : List Diagnostic}

/-- A tree that has come through all phases shows all that its nodes hold. -/
theorem emits_of_finished {v : Visualization} (h : t.assemble pipeline = .ok v)
    (hb : View.Fits (fun s _ => s.Built spec) [] t.root) (hf : View.Fits Finished [] t.root) :
    t.Emits v := by
  have hgroup {γ : Type} {collect : Group → List γ} {own : Site → List γ}
      (hcollect : ∀ s ms, collect (Site.groupOf s ms) = s.groupMembers.flatMap own) :
      (v.groups.flatMap collect).Perm (t.rootSite.preOrder.flatMap own) := by
    refine groups_flatMap_perm h hb ?_
    intro s _ g hg
    obtain ⟨ms, -, rfl⟩ := Site.group_eq_ok.mp hg
    rw [hcollect]
  have hheaders : (v.groups.flatMap Group.headerAxes).Perm
      (t.rootSite.preOrder.flatMap (fun s => s.node.headerAxes)) := by
    have hmarks := marks_flatMap_perm GroupMark.headerAxes (fun _ => []) (fun _ => rfl)
      (fun _ _ _ _ => rfl) h hb hf
    refine hmarks.trans (List.Perm.flatMap_left _ ?_)
    intro m _
    rw [List.flatMap_eq_nil_iff.mpr (fun _ _ => rfl), List.append_nil]
    exact m.headerGroups_headerAxes
  have hknown : ∀ s ∈ t.rootSite.preOrder,
      if s.node.isUnit then ∃ m, s.node.unitMarks = [m] else s.node.unitMarks = [] :=
    fun s hs => (hf s hs).labelled.unitMarks
  have hunits : (v.groups.flatMap Group.unitMarks).Perm
      (t.rootSite.units.flatMap (fun s => s.node.unitMarks)) := by
    have hmarks := marks_flatMap_perm GroupMark.unitMark MarkComponent.unitMark (fun _ => rfl)
      (fun _ _ _ _ => rfl) h hb hf
    simp only [Site.headerGroups_unitMark, List.nil_append] at hmarks
    rw [Site.units, flatMap_filter_of_nil]
    · exact hmarks
    · intro s hs hno
      have hnone := hknown s hs
      rw [hno, if_neg Bool.false_ne_true] at hnone
      exact hnone
  have hsingle : ∀ s ∈ t.rootSite.units, ∃ m, s.node.unitMarks = [m] := by
    intro s hs
    obtain ⟨hmem, hunit⟩ := List.mem_filter.mp hs
    have hone := hknown s hmem
    rw [hunit, if_pos rfl] at hone
    exact hone
  exact ⟨hgroup (fun _ _ => rfl), hgroup (fun _ _ => rfl), hgroup (fun _ _ => rfl), hheaders,
    hunits, hsingle⟩

end Tree
end Trellis

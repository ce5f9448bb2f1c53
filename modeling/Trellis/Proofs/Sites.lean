import Mathlib.Data.List.Basic
import Trellis.View

/-! Sites of a view tree: how they are found, and what happens to them when the components of all
nodes change while names, kinds and places stay. -/
namespace Trellis

/-! ### Kinds of nodes -/

namespace Node

variable {n : Node} {u : UnitView} {size : Size} {f : FacetView}

theorem isUnit_of_unit (h : n.kind = .unit u) : n.isUnit = true := by
  rw [isUnit, unit?, h]
  rfl

theorem not_unit_of_layer (h : n.kind = .layer size) : n.isUnit = false := by
  rw [isUnit, unit?, h]
  rfl

theorem not_unit_of_facet (h : n.kind = .facet f) : n.isUnit = false := by
  rw [isUnit, unit?, h]
  rfl

theorem isFacet_of_facet (h : n.kind = .facet f) : n.isFacet = true := by
  rw [isFacet, facet?, h]
  rfl

theorem not_facet_of_unit (h : n.kind = .unit u) : n.isFacet = false := by
  rw [isFacet, facet?, h]
  rfl

theorem not_facet_of_layer (h : n.kind = .layer size) : n.isFacet = false := by
  rw [isFacet, facet?, h]
  rfl

theorem isLayer_of_layer (h : n.kind = .layer size) : n.isLayer = true := by
  rw [isLayer, h]

theorem not_layer_of_unit (h : n.kind = .unit u) : n.isLayer = false := by
  rw [isLayer, h]

theorem not_layer_of_facet (h : n.kind = .facet f) : n.isLayer = false := by
  rw [isLayer, h]

theorem kind_of_isUnit (h : n.isUnit = true) : ∃ u, n.kind = .unit u := by
  unfold isUnit unit? at h
  split at h
  · rename_i u hu
    exact ⟨u, hu⟩
  · exact absurd h (by simp)

theorem kind_of_unit? (h : n.unit? = some u) : n.kind = .unit u := by
  unfold unit? at h
  split at h
  · rename_i w hw
    rw [hw, Option.some.inj h]
  · exact absurd h (by simp)

theorem kind_of_facet? (h : n.facet? = some f) : n.kind = .facet f := by
  unfold facet? at h
  split at h
  · rename_i g hg
    rw [hg, Option.some.inj h]
  · exact absurd h (by simp)

theorem kind_of_isFacet (h : n.isFacet = true) : ∃ f, n.kind = .facet f := by
  obtain ⟨f, hf⟩ := Option.isSome_iff_exists.mp h
  exact ⟨f, kind_of_facet? hf⟩

theorem not_unit_of_isFacet (h : n.isFacet = true) : n.isUnit = false := by
  obtain ⟨f, hf⟩ := kind_of_isFacet h
  exact not_unit_of_facet hf

theorem kind_of_isLayer (h : n.isLayer = true) : ∃ size, n.kind = .layer size := by
  unfold isLayer at h
  split at h
  · rename_i size hsize
    exact ⟨size, hsize⟩
  · exact absurd h Bool.false_ne_true

theorem not_facet_of_isLayer (h : n.isLayer = true) : n.isFacet = false := by
  obtain ⟨size, hsize⟩ := kind_of_isLayer h
  exact not_facet_of_layer hsize

theorem not_facet_of_isUnit (h : n.isUnit = true) : n.isFacet = false := by
  obtain ⟨u, hu⟩ := kind_of_isUnit h
  exact not_facet_of_unit hu

end Node

namespace View

mutual

@[elab_as_elim]
theorem induct {P : View → Prop} (h : ∀ n cs, (∀ c ∈ cs, P c) → P (mk n cs)) : ∀ v, P v
  | mk n cs => h n cs (inductIn h cs)

theorem inductIn {P : View → Prop} (h : ∀ n cs, (∀ c ∈ cs, P c) → P (mk n cs)) :
    ∀ vs : List View, ∀ c ∈ vs, P c
  | [], _, hc => absurd hc List.not_mem_nil
  | v :: rest, c, hc =>
    (List.mem_cons.mp hc).elim (fun he => he ▸ induct h v) (fun hr => inductIn h rest c hr)

end

/-! ### Walks over views side by side -/

theorem sitesIn_eq (A : List Node) (cs : List View) : sitesIn A cs = cs.flatMap (sites A) := by
  induction cs with
  | nil => rfl
  | cons v rest ih => rw [sitesIn, ih, List.flatMap_cons]

theorem groupSitesIn_eq (A : List Node) (cs : List View) :
    groupSitesIn A cs = cs.flatMap (groupSites A) := by
  induction cs with
  | nil => rfl
  | cons v rest ih => rw [groupSitesIn, ih, List.flatMap_cons]

theorem nodesIn_eq (cs : List View) : nodesIn cs = cs.flatMap nodes := by
  induction cs with
  | nil => rfl
  | cons v rest ih => rw [nodesIn, ih, List.flatMap_cons]

theorem openUnitsIn_eq (cs : List View) : openUnitsIn cs = cs.flatMap openUnits := by
  induction cs with
  | nil => rfl
  | cons v rest ih => rw [openUnitsIn, ih, List.flatMap_cons]

theorem mapNodesIn_eq (f : Node → Node) (cs : List View) :
    mapNodesIn f cs = cs.map (mapNodes f) := by
  induction cs with
  | nil => rfl
  | cons v rest ih => rw [mapNodesIn, ih, List.map_cons]

/-! ### Sites -/

theorem sites_mk (A : List Node) (n : Node) (cs : List View) :
    (mk n cs).sites A = ⟨A, mk n cs⟩ :: cs.flatMap (sites (n :: A)) := by
  rw [sites, sitesIn_eq]

theorem mem_sites_mk {A : List Node} {n : Node} {cs : List View} {s : Site} :
    s ∈ (mk n cs).sites A ↔ s = ⟨A, mk n cs⟩ ∨ ∃ c ∈ cs, s ∈ c.sites (n :: A) := by
  rw [sites_mk, List.mem_cons, List.mem_flatMap]

theorem self_mem_sites (A : List Node) (v : View) : ⟨A, v⟩ ∈ v.sites A := by
  cases v
  exact mem_sites_mk.mpr (.inl rfl)

theorem child_mem_sites {A : List Node} {v : View} {s : Site} (hs : s ∈ v.sites A) {c : View}
    (hc : c ∈ s.view.children) : ⟨s.lineage, c⟩ ∈ v.sites A := by
  induction v using induct generalizing A with
  | h n cs ih =>
    rcases mem_sites_mk.mp hs with rfl | ⟨w, hw, hs⟩
    · exact mem_sites_mk.mpr (.inr ⟨c, hc, self_mem_sites _ _⟩)
    · exact mem_sites_mk.mpr (.inr ⟨w, hw, ih w hw hs⟩)

/-- What holds of the topmost site and passes from each site to those right below it holds of
all. -/
theorem sites_induct {Q : Site → Prop} {A : List Node} {v : View} (htop : Q ⟨A, v⟩)
    (hstep : ∀ s ∈ v.sites A, Q s → ∀ c ∈ s.view.children, Q ⟨s.lineage, c⟩) :
    ∀ s ∈ v.sites A, Q s := by
  induction v using induct generalizing A with
  | h n cs ih =>
    intro s hs
    rcases mem_sites_mk.mp hs with rfl | ⟨c, hc, hs⟩
    · exact htop
    · refine ih c hc (hstep _ (self_mem_sites _ _) htop c hc) ?_ s hs
      intro t ht hQ d hd
      exact hstep t (mem_sites_mk.mpr (.inr ⟨c, hc, ht⟩)) hQ d hd

theorem mem_sites_trans {A : List Node} {v : View} {s t : Site} (hs : s ∈ v.sites A)
    (ht : t ∈ s.preOrder) : t ∈ v.sites A := by
  refine sites_induct (Q := fun t => t ∈ v.sites A) hs ?_ t ht
  intro t _ htv c hc
  exact child_mem_sites htv hc

/-- The sites at and under a site stand together in traversal order. -/
theorem preOrder_sublist {A : List Node} {v : View} {s : Site} (hs : s ∈ v.sites A) :
    s.preOrder.Sublist (v.sites A) := by
  induction v using induct generalizing A with
  | h n cs ih =>
    rcases mem_sites_mk.mp hs with rfl | ⟨c, hc, hsc⟩
    · exact List.Sublist.refl _
    · have hin : s.preOrder.Sublist (c.sites (n :: A)) := ih c hc hsc
      obtain ⟨before, after, rfl⟩ := List.append_of_mem hc
      rw [sites_mk, List.flatMap_append, List.flatMap_cons]
      exact ((hin.trans (List.sublist_append_left _ _)).trans
        (List.sublist_append_right _ _)).cons _

theorem ancestors_suffix {A : List Node} {v : View} {s : Site} (hs : s ∈ v.sites A) :
    A <:+ s.ancestors := by
  refine sites_induct (Q := fun s => A <:+ s.ancestors) (List.suffix_refl A) ?_ s hs
  intro s _ hA c _
  exact hA.trans (List.suffix_cons s.node s.ancestors)

/-- A site below the topmost view has a node above it. -/
theorem ancestors_ne_nil {A : List Node} {n : Node} {cs : List View} {s : Site}
    (hs : s ∈ cs.flatMap (sites (n :: A))) : s.ancestors ≠ [] := by
  obtain ⟨c, -, hs⟩ := List.mem_flatMap.mp hs
  intro hnil
  have hsuffix := ancestors_suffix hs
  rw [hnil, List.suffix_nil] at hsuffix
  exact List.cons_ne_nil n A hsuffix

/-- What sites have only at the top. -/
theorem flatMap_sites_top {α : Type} {f : Site → List α}
    (h : ∀ s ∈ v.sites [], s.ancestors ≠ [] → f s = []) : (v.sites []).flatMap f = f ⟨[], v⟩ := by
  cases v with
  | mk n cs =>
    have hnone : (cs.flatMap (sites [n])).flatMap f = [] := by
      rw [List.flatMap_eq_nil_iff]
      intro s hs
      refine h s ?_ (ancestors_ne_nil hs)
      rw [sites_mk]
      exact List.mem_cons_of_mem _ hs
    rw [sites_mk, List.flatMap_cons, hnone, List.append_nil]

/-- Each node above a site stands at a site of its own, with the rest of the ancestors above it. -/
theorem exists_site_of_ancestor {A : List Node} {v : View} {s : Site} (hs : s ∈ v.sites A)
    {inner outer : List Node} {a : Node} (ha : s.ancestors = inner ++ a :: outer)
    (hA : A.length ≤ outer.length) :
    ∃ t ∈ v.sites A, t.node = a ∧ t.ancestors = outer ∧ s ∈ t.preOrder := by
  induction v using induct generalizing A with
  | h n cs ih =>
    -- going down, the node is above the topmost view as long as there are enough nodes there
    rcases mem_sites_mk.mp hs with rfl | ⟨c, hc, hs⟩
    · have hl := congrArg List.length ha
      simp only [List.length_append, List.length_cons] at hl
      omega
    · by_cases hl : (n :: A).length ≤ outer.length
      · obtain ⟨t, ht, htn, hta, hst⟩ := ih c hc hs hl
        exact ⟨t, mem_sites_mk.mpr (.inr ⟨c, hc, ht⟩), htn, hta, hst⟩
      · -- the node is the topmost one itself: both lists of ancestors end in the same nodes
        obtain ⟨above, hab⟩ := ancestors_suffix hs
        have he : (a :: outer).length = (n :: A).length := by
          simp only [List.length_cons] at hl ⊢
          omega
        have hh := List.append_inj_right' (ha.symm.trans hab.symm) he
        obtain ⟨rfl, rfl⟩ := List.cons.inj hh
        exact ⟨_, self_mem_sites _ _, rfl, rfl, mem_sites_mk.mpr (.inr ⟨c, hc, hs⟩)⟩

theorem exists_site_of_lineage {v : View} {s : Site} (hs : s ∈ v.sites []) {n : Node}
    (hn : n ∈ s.lineage) : ∃ o ∈ v.sites [], o.node = n := by
  rcases List.mem_cons.mp hn with rfl | habove
  · exact ⟨s, hs, rfl⟩
  · obtain ⟨inner, outer, hsplit⟩ := List.append_of_mem habove
    obtain ⟨o, ho, hnode, -⟩ := exists_site_of_ancestor hs hsplit (Nat.zero_le _)
    exact ⟨o, ho, hnode⟩

/-- The views drawn in one group are layers and what is right under them. -/
theorem mem_groupSites_mk {A : List Node} {n : Node} {cs : List View} {s : Site} :
    s ∈ (mk n cs).groupSites A ↔
      s = ⟨A, mk n cs⟩ ∨ n.isLayer = true ∧ ∃ c ∈ cs, s ∈ c.groupSites (n :: A) := by
  rw [groupSites, List.mem_cons]
  by_cases hl : n.isLayer = true
  · rw [if_pos hl, groupSitesIn_eq, List.mem_flatMap]
    simp [hl]
  · rw [if_neg hl]
    simp [hl]

theorem self_mem_groupSites (A : List Node) (v : View) : ⟨A, v⟩ ∈ v.groupSites A := by
  cases v
  exact mem_groupSites_mk.mpr (.inl rfl)

theorem mem_sites_of_mem_groupSites {A : List Node} {v : View} {s : Site}
    (hs : s ∈ v.groupSites A) : s ∈ v.sites A := by
  induction v using induct generalizing A with
  | h n cs ih =>
    rcases mem_groupSites_mk.mp hs with rfl | ⟨-, c, hc, hs⟩
    · exact self_mem_sites _ _
    · exact mem_sites_mk.mpr (.inr ⟨c, hc, ih c hc hs⟩)

theorem mem_nodes_iff {A : List Node} {v : View} {n : Node} :
    n ∈ v.nodes ↔ ∃ s ∈ v.sites A, s.node = n := by
  induction v using induct generalizing A with
  | h m cs ih =>
    rw [nodes, nodesIn_eq, List.mem_cons, List.mem_flatMap]
    constructor
    · rintro (rfl | ⟨c, hc, hn⟩)
      · exact ⟨_, self_mem_sites A _, rfl⟩
      · obtain ⟨s, hs, hsn⟩ := (ih c hc (A := m :: A)).mp hn
        exact ⟨s, mem_sites_mk.mpr (.inr ⟨c, hc, hs⟩), hsn⟩
    · rintro ⟨s, hs, rfl⟩
      rcases mem_sites_mk.mp hs with rfl | ⟨c, hc, hs⟩
      · exact .inl rfl
      · exact .inr ⟨c, hc, (ih c hc).mpr ⟨s, hs, rfl⟩⟩

theorem mem_nodes_of_mem_facetAncestors {v : View} {s : Site} (hs : s ∈ v.sites []) {n : Node}
    (hn : n ∈ s.facetAncestors) : n ∈ v.nodes :=
  mem_nodes_iff.mpr
    (exists_site_of_lineage hs (List.mem_cons_of_mem _ (List.mem_filter.mp hn).1))

theorem mem_nodes_of_child {n m : Node} {cs : List View} {c : View} (hc : c ∈ cs)
    (hm : m ∈ c.nodes) : m ∈ (mk n cs).nodes := by
  rw [nodes, nodesIn_eq]
  exact List.mem_cons_of_mem _ (List.mem_flatMap.mpr ⟨c, hc, hm⟩)

/-! ### Changes throughout -/

theorem mapNodes_mk (f : Node → Node) (n : Node) (cs : List View) :
    (mk n cs).mapNodes f = mk (f n) (cs.map (mapNodes f)) := by
  rw [mapNodes, mapNodesIn_eq]

theorem mapNodes_mapNodes (f g : Node → Node) (v : View) :
    (v.mapNodes f).mapNodes g = v.mapNodes (g ∘ f) := by
  induction v using induct with
  | h n cs ih =>
    rw [mapNodes_mk, mapNodes_mk, mapNodes_mk, List.map_map]
    congr 1
    exact List.map_congr_left ih

theorem node_mapNodes (f : Node → Node) (v : View) : (v.mapNodes f).node = f v.node := by
  cases v
  rw [mapNodes_mk]
  rfl

theorem children_mapNodes (f : Node → Node) (v : View) :
    (v.mapNodes f).children = v.children.map (mapNodes f) := by
  cases v
  rw [mapNodes_mk]
  rfl

theorem nodes_mapNodes (f : Node → Node) (v : View) : (v.mapNodes f).nodes = v.nodes.map f := by
  induction v using induct with
  | h n cs ih =>
    rw [mapNodes_mk, nodes, nodes, nodesIn_eq, nodesIn_eq, List.map_cons, List.flatMap_map,
      List.map_flatMap]
    congr 1
    exact List.flatMap_congr ih

end View

/-- Changes the title of a node and what has been worked out for it. -/
def Node.amend (h : Option String → Option String) (g : Components → Components) (n : Node) :
    Node :=
  { n with title := h n.title, components := g n.components }

namespace View

theorem openUnits_amend (h : Option String → Option String) (g : Components → Components)
    (v : View) : (v.mapNodes (Node.amend h g)).openUnits = v.openUnits.map (Node.amend h g) := by
  induction v using induct with
  | h n cs ih =>
    have hin : openUnitsIn (cs.map (mapNodes (Node.amend h g))) =
        (openUnitsIn cs).map (Node.amend h g) := by
      rw [openUnitsIn_eq, openUnitsIn_eq, List.flatMap_map, List.map_flatMap]
      exact List.flatMap_congr ih
    rw [mapNodes_mk, openUnits, openUnits, hin]
    have hu : (n.amend h g).isUnit = n.isUnit := rfl
    have hf : (n.amend h g).isFacet = n.isFacet := rfl
    rw [hu, hf]
    split
    · rw [List.map_cons]
    · split
      · rfl
      · rfl

/-- Changes what has been worked out for every node. -/
def updateAll (g : Components → Components) (v : View) : View := v.mapNodes (Node.update · g)

theorem updateAll_mk (g : Components → Components) (n : Node) (cs : List View) :
    (mk n cs).updateAll g = mk (n.update g) (cs.map (updateAll g)) :=
  mapNodes_mk _ n cs

theorem updateAll_updateAll (g h : Components → Components) (v : View) :
    (v.updateAll g).updateAll h = v.updateAll (h ∘ g) :=
  mapNodes_mapNodes _ _ v

theorem update_updateAll (g h : Components → Components) (v : View) :
    (v.update h).updateAll g = mk ((v.node.update h).update g) (v.children.map (updateAll g)) := by
  cases v
  exact updateAll_mk g _ _

@[simp] theorem node_updateAll (g : Components → Components) (v : View) :
    (v.updateAll g).node = v.node.update g :=
  node_mapNodes _ v

@[simp] theorem children_updateAll (g : Components → Components) (v : View) :
    (v.updateAll g).children = v.children.map (updateAll g) :=
  children_mapNodes _ v

theorem openUnits_updateAll (g : Components → Components) (v : View) :
    (v.updateAll g).openUnits = v.openUnits.map (Node.update · g) :=
  openUnits_amend id g v

end View

namespace Site

/-- Changes every node at, above and below a site. -/
def mapNodes (f : Node → Node) (s : Site) : Site := ⟨s.ancestors.map f, s.view.mapNodes f⟩

theorem node_mapNodes (f : Node → Node) (s : Site) : (s.mapNodes f).node = f s.node :=
  View.node_mapNodes f s.view

theorem lineage_mapNodes (f : Node → Node) (s : Site) :
    (s.mapNodes f).lineage = s.lineage.map f := by
  rw [lineage, node_mapNodes]
  rfl

/-- Changes what has been worked out for every node at, above and below a site. -/
def updateAll (g : Components → Components) (s : Site) : Site :=
  ⟨s.ancestors.map (Node.update · g), s.view.updateAll g⟩

@[simp] theorem node_updateAll (g : Components → Components) (s : Site) :
    (s.updateAll g).node = s.node.update g := View.node_updateAll g s.view

theorem lineage_updateAll (g : Components → Components) (s : Site) :
    (s.updateAll g).lineage = s.lineage.map (Node.update · g) :=
  lineage_mapNodes _ s

end Site

theorem View.sites_mapNodes (f : Node → Node) (A : List Node) (v : View) :
    (v.mapNodes f).sites (A.map f) = (v.sites A).map (Site.mapNodes f) := by
  induction v using View.induct generalizing A with
  | h n cs ih =>
    rw [View.mapNodes_mk, View.sites_mk, View.sites_mk, List.map_cons, List.flatMap_map,
      List.map_flatMap]
    congr 1
    · rw [Site.mapNodes, View.mapNodes_mk]
    · exact List.flatMap_congr (fun c hc => ih c hc (n :: A))

theorem View.sites_updateAll (g : Components → Components) (A : List Node) (v : View) :
    (v.updateAll g).sites (A.map (Node.update · g)) = (v.sites A).map (Site.updateAll g) :=
  View.sites_mapNodes _ A v

end Trellis

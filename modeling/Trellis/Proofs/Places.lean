import Mathlib.Data.List.Nodup
import Mathlib.Data.List.Perm.Basic
import Trellis.Proofs.Built
import Trellis.Proofs.Described

/-! Where things stand in a built tree: names tell sites apart, facets come first on every way down,
and the units below them are all in the cells of the last one. -/
namespace Trellis

namespace View

variable {A : List Node} {v : View}

theorem sites_map_node (A : List Node) (v : View) : (v.sites A).map Site.node = v.nodes := by
  induction v using induct generalizing A with
  | h n cs ih =>
    rw [sites_mk, nodes, nodesIn_eq, List.map_cons, List.map_flatMap]
    congr 1
    exact List.flatMap_congr (fun c hc => ih c hc (n :: A))

/-- What differs from node to node tells sites apart. -/
theorem site_eq_of_key_eq {α : Type} {key : Node → α} (hn : (v.nodes.map key).Nodup) {s t : Site}
    (hs : s ∈ v.sites A) (ht : t ∈ v.sites A) (h : key s.node = key t.node) : s = t := by
  rw [← sites_map_node A, List.map_map] at hn
  exact List.inj_on_of_nodup_map hn hs ht h

/-- Sites of nodes with one name are one. -/
theorem site_eq_of_name_eq (hn : (v.nodes.map Node.name).Nodup) {s t : Site}
    (hs : s ∈ v.sites A) (ht : t ∈ v.sites A) (h : s.node.name = t.node.name) : s = t :=
  site_eq_of_key_eq hn hs ht h

/-- The names on the way from a site to the root differ. -/
theorem lineage_names_nodup (hn : (A.map Node.name ++ v.nodes.map Node.name).Nodup) {s : Site}
    (hs : s ∈ v.sites A) : (s.lineage.map Node.name).Nodup := by
  -- the names above and those below are kept in one list, from which a node moves up
  induction v using induct generalizing A with
  | h n cs ih =>
    rw [nodes, nodesIn_eq, List.map_cons] at hn
    rcases mem_sites_mk.mp hs with rfl | ⟨c, hc, hs⟩
    · have hp : (A.map Node.name ++ n.name :: (cs.flatMap nodes).map Node.name).Perm
          (n.name :: (A.map Node.name ++ (cs.flatMap nodes).map Node.name)) := List.perm_middle
      have hnd := hp.nodup_iff.mp hn
      exact hnd.sublist (List.Sublist.cons_cons _ (List.sublist_append_left _ _))
    · refine ih c hc ?_ hs
      have hp : (A.map Node.name ++ n.name :: (cs.flatMap nodes).map Node.name).Perm
          (n.name :: (A.map Node.name ++ (cs.flatMap nodes).map Node.name)) := List.perm_middle
      have hnd := hp.nodup_iff.mp hn
      have hsub : (c.nodes.map Node.name).Sublist ((cs.flatMap nodes).map Node.name) := by
        apply List.Sublist.map _
        obtain ⟨before, after, rfl⟩ := List.append_of_mem hc
        rw [List.flatMap_append, List.flatMap_cons]
        exact (List.sublist_append_left _ _).trans (List.sublist_append_right _ _)
      exact hnd.sublist (List.Sublist.cons_cons _ ((List.Sublist.refl _).append hsub))

theorem name_not_mem_ancestors (hn : (v.nodes.map Node.name).Nodup) {s : Site}
    (hs : s ∈ v.sites []) {a : Node} (ha : a ∈ s.ancestors) : s.node.name ≠ a.name := by
  have hl : (s.lineage.map Node.name).Nodup := lineage_names_nodup (A := []) hn hs
  rw [Site.lineage, List.map_cons, List.nodup_cons] at hl
  intro h
  exact hl.1 (h ▸ List.mem_map_of_mem ha)

/-! ### Units in cells -/

theorem openUnits_facet (h : v.node.isFacet = true) : v.openUnits = [] := by
  cases v with
  | mk n cs =>
    have hf : n.isFacet = true := h
    rw [openUnits, Node.not_unit_of_isFacet hf, if_neg Bool.false_ne_true, if_pos hf]

theorem mem_openUnits_of_child (h : v.node.isFacet = false) {c : View} (hc : c ∈ v.children)
    {u : Node} (hu : u ∈ c.openUnits) : u ∈ v.openUnits := by
  cases v with
  | mk n cs =>
    have hf : n.isFacet = false := h
    have hin : u ∈ openUnitsIn cs := by
      rw [openUnitsIn_eq]
      exact List.mem_flatMap.mpr ⟨c, hc, hu⟩
    rw [openUnits, hf, if_neg Bool.false_ne_true]
    split
    · exact List.mem_cons_of_mem _ hin
    · exact hin

/-- A unit in the cells of a view has its site there, below no facet of the view. -/
theorem exists_site_of_mem_openUnits {u : Node} (hu : u ∈ v.openUnits) :
    ∃ t ∈ v.sites A, t.node = u ∧ u.isUnit = true ∧ t.facetAncestor? = A.find? Node.isFacet := by
  induction v using induct generalizing A with
  | h n cs ih =>
    -- neither a unit nor a layer comes between the site and its nearest facet
    have hin (hf : n.isFacet = false) (hm : u ∈ openUnitsIn cs) : ∃ t ∈ (mk n cs).sites A,
        t.node = u ∧ u.isUnit = true ∧ t.facetAncestor? = A.find? Node.isFacet := by
      rw [openUnitsIn_eq] at hm
      obtain ⟨c, hc, hm⟩ := List.mem_flatMap.mp hm
      obtain ⟨t, ht, hn, hunit, hfac⟩ := ih c hc hm (A := n :: A)
      refine ⟨t, mem_sites_mk.mpr (.inr ⟨c, hc, ht⟩), hn, hunit, ?_⟩
      rw [hfac, List.find?_cons_of_neg]
      simp [hf]
    rw [openUnits] at hu
    split at hu
    · rename_i hunit
      rcases List.mem_cons.mp hu with rfl | hm
      · exact ⟨_, self_mem_sites A _, rfl, hunit, rfl⟩
      · exact hin (Node.not_facet_of_isUnit hunit) hm
    · split at hu
      · exact absurd hu List.not_mem_nil
      · rename_i hf
        exact hin (Bool.eq_false_iff.mpr hf) hu

/-- A unit in a facet's cells has that facet as the nearest one above it. -/
theorem exists_site_in_cells {s : Site} (hs : s ∈ v.sites A) (hf : s.node.isFacet = true) {u : Node}
    (hu : u ∈ openUnitsIn s.view.children) :
    ∃ t ∈ v.sites A, t.node = u ∧ u.isUnit = true ∧ t.facetAncestor? = some s.node := by
  rw [openUnitsIn_eq] at hu
  obtain ⟨c, hc, hu⟩ := List.mem_flatMap.mp hu
  obtain ⟨t, ht, hn, hunit, hfac⟩ := exists_site_of_mem_openUnits (A := s.lineage) hu
  rw [Site.lineage, List.find?_cons_of_pos hf] at hfac
  exact ⟨t, mem_sites_trans (child_mem_sites hs hc) ht, hn, hunit, hfac⟩

variable {whole : Spec}

/-- Nothing below a unit or layer is a facet. -/
theorem not_facet_of_child (hb : Fits (fun s _ => s.Built whole) A v) {s : Site}
    (hs : s ∈ v.sites A) (hf : s.node.isFacet = false) {c : View} (hc : c ∈ s.view.children) :
    c.node.isFacet = false := by
  rw [Bool.eq_false_iff]
  intro hcf
  have hall := (hb _ (child_mem_sites hs hc)).facet_above hcf
  have hn := hall s.node (by rw [Site.lineage]; exact List.mem_cons_self)
  rw [hf] at hn
  exact absurd hn (by simp)

/-- Below a unit or layer, all units are in the same cell. -/
theorem mem_openUnits_of_mem_nodes (hb : Fits (fun s _ => s.Built whole) A v)
    (hf : v.node.isFacet = false) {u : Node} (hu : u ∈ v.nodes) (hunit : u.isUnit = true) :
    u ∈ v.openUnits := by
  induction v using induct generalizing A with
  | h n cs ih =>
    have hnf : n.isFacet = false := hf
    -- there is no facet below that could close its cells
    have hin (hm : u ∈ nodesIn cs) : u ∈ openUnitsIn cs := by
      rw [nodesIn_eq] at hm
      obtain ⟨c, hc, hm⟩ := List.mem_flatMap.mp hm
      have hcf := not_facet_of_child hb (self_mem_sites A _) hf hc
      rw [openUnitsIn_eq]
      exact List.mem_flatMap.mpr ⟨c, hc, ih c hc ((fits_mk_iff.mp hb).2 c hc) hcf hm⟩
    rw [nodes] at hu
    rw [openUnits]
    rcases List.mem_cons.mp hu with rfl | hm
    · rw [if_pos hunit]
      exact List.mem_cons_self
    · split
      · exact List.mem_cons_of_mem _ (hin hm)
      · rw [if_neg (by simp [hnf])]
        exact hin hm

/-- Every site is at or above a facet's, or below it. -/
theorem above_or_below_facet (hb : Fits (fun s _ => s.Built whole) A v) {s t : Site}
    (hs : s ∈ v.sites A) (hf : s.node.isFacet = true) (ht : t ∈ v.sites A) :
    t.node ∈ s.lineage ∨ (t ∈ s.preOrder ∧ s.lineage <:+ t.ancestors) := by
  induction v using induct generalizing A with
  | h n cs ih =>
    rcases mem_sites_mk.mp hs with rfl | ⟨c, hc, hsc⟩
    · rcases mem_sites_mk.mp ht with rfl | ⟨d, hd, ht⟩
      · exact .inl List.mem_cons_self
      · refine .inr ⟨mem_sites_mk.mpr (.inr ⟨d, hd, ht⟩), ?_⟩
        exact ancestors_suffix ht
    · -- a facet above a facet has one view under it, so both sites are in that
      have hn : n ∈ s.ancestors := (ancestors_suffix hsc).subset List.mem_cons_self
      have hnf : n.isFacet = true :=
        (hb s hs).facet_above hf n hn
      obtain ⟨e, he⟩ := (hb _ (self_mem_sites A _)).facet_single hnf
      have hcs : cs = [e] := he
      subst hcs
      obtain rfl := List.mem_singleton.mp hc
      rcases mem_sites_mk.mp ht with rfl | ⟨d, hd, htd⟩
      · exact .inl (List.mem_cons_of_mem _ hn)
      · obtain rfl := List.mem_singleton.mp hd
        exact ih d List.mem_cons_self ((fits_mk_iff.mp hb).2 d List.mem_cons_self) hsc htd

end View

/-! ### Facets and their cells -/

namespace Site

/-- The facets at and under a site, in traversal order. -/
def facets (s : Site) : List Site := s.preOrder.filter (fun t => t.node.isFacet)

theorem facets_mk {A : List Node} {n : Node} {cs : List View} : facets ⟨A, .mk n cs⟩ =
    (if n.isFacet then [⟨A, .mk n cs⟩] else []) ++ cs.flatMap (fun c => facets ⟨n :: A, c⟩) := by
  unfold facets preOrder
  rw [View.sites_mk, List.filter_cons, List.filter_flatMap]
  have hnode : node ⟨A, .mk n cs⟩ = n := rfl
  rw [hnode]
  cases n.isFacet with
  | true => rfl
  | false => rfl

/-- The units in the cells of all facets at and under a site. -/
def cellUnits (s : Site) : List Node :=
  s.facets.flatMap (fun f => View.openUnitsIn f.view.children)

end Site

namespace View

variable {A : List Node} {v : View} {whole : Spec}

theorem facets_updateAll (g : Components → Components) (v : View) :
    Site.facets ⟨[], v.updateAll g⟩ = (Site.facets ⟨[], v⟩).map (Site.updateAll g) := by
  have hsites : (v.updateAll g).sites [] = (v.sites []).map (Site.updateAll g) :=
    sites_updateAll g [] v
  unfold Site.facets Site.preOrder
  rw [hsites, List.filter_map]
  congr 1
  apply List.filter_congr
  intro s _
  rw [Function.comp_apply, Site.node_updateAll]
  rfl

/-- Every unit is in the cells of one facet, or outside all cells. -/
theorem cellUnits_perm (hb : Fits (fun s _ => s.Built whole) A v) :
    (v.openUnits ++ Site.cellUnits ⟨A, v⟩).Perm (v.nodes.filter Node.isUnit) := by
  induction v using induct generalizing A with
  | h n cs ih =>
    obtain ⟨hself, hin⟩ := fits_mk_iff.mp hb
    have hunder : (openUnitsIn cs ++ cs.flatMap (fun c => Site.cellUnits ⟨n :: A, c⟩)).Perm
        ((nodesIn cs).filter Node.isUnit) := by
      rw [openUnitsIn_eq, nodesIn_eq, List.filter_flatMap]
      have hsplit := List.flatMap_append_perm cs openUnits (fun c => Site.cellUnits ⟨n :: A, c⟩)
      exact hsplit.trans (List.Perm.flatMap_left _ (fun c hc => ih c hc (hin c hc)))
    have hcells : Site.cellUnits ⟨A, mk n cs⟩ = (if n.isFacet then openUnitsIn cs else []) ++
        cs.flatMap (fun c => Site.cellUnits ⟨n :: A, c⟩) := by
      unfold Site.cellUnits
      rw [Site.facets_mk, List.flatMap_append, List.flatMap_assoc]
      cases n.isFacet with
      | true => rw [if_pos rfl, if_pos rfl, List.flatMap_singleton]; rfl
      | false => rfl
    rw [hcells, openUnits, nodes, List.filter_cons]
    cases hk : n.kind with
    | unit u =>
      obtain rfl : cs = [] := hself.unit_leaf (Node.isUnit_of_unit hk)
      rw [Node.isUnit_of_unit hk, Node.not_facet_of_unit hk]
      exact List.Perm.refl _
    | layer size =>
      rw [Node.not_unit_of_layer hk, Node.not_facet_of_layer hk]
      exact hunder
    | facet f =>
      rw [Node.not_unit_of_facet hk, Node.isFacet_of_facet hk]
      exact hunder

/-- The units in cells are those that have a facet above them. -/
theorem mem_cellUnits (hb : Fits (fun s _ => s.Built whole) [] v)
    (hnames : (v.nodes.map Node.name).Nodup) {s : Site} (hs : s ∈ v.sites []) :
    s.node ∈ Site.cellUnits ⟨[], v⟩ ↔ s.node.isUnit = true ∧ s.facetAncestor?.isSome = true := by
  constructor
  · intro hcell
    obtain ⟨f, hf, hopen⟩ := List.mem_flatMap.mp hcell
    obtain ⟨hfv, hfacet⟩ := List.mem_filter.mp hf
    obtain ⟨t, ht, htn, hunit, habove⟩ := exists_site_in_cells hfv hfacet hopen
    obtain rfl : t = s := site_eq_of_name_eq hnames ht hs (congrArg Node.name htn)
    rw [habove]
    exact ⟨hunit, rfl⟩
  · rintro ⟨hunit, habove⟩
    have hmem : s.node ∈ v.openUnits ++ Site.cellUnits ⟨[], v⟩ := by
      refine (cellUnits_perm hb).mem_iff.mpr (List.mem_filter.mpr ⟨?_, hunit⟩)
      exact mem_nodes_iff.mpr ⟨s, hs, rfl⟩
    rcases List.mem_append.mp hmem with hopen | hcell
    · -- a unit outside all cells has no facet above it
      obtain ⟨t, ht, htn, -, hnone⟩ := exists_site_of_mem_openUnits (A := []) hopen
      obtain rfl : t = s := site_eq_of_name_eq hnames ht hs (congrArg Node.name htn)
      rw [hnone] at habove
      exact absurd habove Bool.false_ne_true
    · exact hcell

/-- A unit with a facet above it is in the cells that the nearest one draws. -/
theorem exists_facet_around (hb : Fits (fun s _ => s.Built whole) [] v)
    (hnames : (v.nodes.map Node.name).Nodup) {s : Site} (hs : s ∈ v.sites [])
    (hu : s.node.isUnit = true) {f : Node} (hf : s.facetAncestor? = some f) :
    ∃ q ∈ Site.facets ⟨[], v⟩, q.node = f ∧ s.node ∈ openUnitsIn q.view.children := by
  have hcell : s.node ∈ Site.cellUnits ⟨[], v⟩ :=
    (mem_cellUnits hb hnames hs).mpr ⟨hu, by rw [hf]; rfl⟩
  obtain ⟨q, hq, hopen⟩ := List.mem_flatMap.mp hcell
  obtain ⟨hqv, hfacet⟩ := List.mem_filter.mp hq
  obtain ⟨r, hr, hrn, -, habove⟩ := exists_site_in_cells hqv hfacet hopen
  obtain rfl : r = s := site_eq_of_name_eq hnames hr hs (congrArg Node.name hrn)
  exact ⟨q, hq, Option.some.inj (habove.symm.trans hf), hopen⟩

end View
end Trellis

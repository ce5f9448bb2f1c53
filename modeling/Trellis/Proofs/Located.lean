import Trellis.Proofs.Holding
import Trellis.Proofs.Places
import Trellis.Proofs.Redirects

/-! Which datasets the scales of a tree read after the scale phase. Outside all facets they read the
records of their units. A scale of a unit or layer in a cell reads records of that cell. A scale
that a facet holds within another one reads what the outermost facet splits into cells, or
aggregates outside all cells. -/
namespace Trellis

namespace View

/-- The datasets in the cells of a facet with this name: what the facet splits off, and the
aggregates of the units in the cells. -/
def CellSet (root : View) (facet : String) (d : String) : Prop :=
  d = Naming.qualify facet "facet" ∨
    ∃ t ∈ root.sites [], t.node.isAggregated = true ∧
      t.facetAncestor?.map Node.name = some facet ∧ d = Naming.cellAggregate t.node.name

/-- The dataset that a facet's scale reads for a unit: from within another facet the raw records are
those of the outermost cell. -/
def outerData (A : List Node) (u : Node) : String :=
  if u.isAggregated then Naming.aggregate u.name
  else (A.getLast?.map Node.cellData).getD Naming.main

/-- The data that a scale at a site is made of. -/
def Located (root : View) : Fact := fun s k =>
  ∀ c scale, k.scales.get? c = some scale →
    ∃ us, s.view.feeders c = some us ∧
      if s.node.isFacet then scale.FedBy us (outerData s.ancestors)
      else match s.facetAncestor? with
        | none => scale.FedBy us Node.rawData
        | some f => ∀ refs, scale.domain = .data refs → ∀ r ∈ refs, CellSet root f.name r.data

@[simp] theorem cellSet_updateAll (g : Components → Components) (root : View) (facet d : String) :
    CellSet (root.updateAll g) facet d ↔ CellSet root facet d := by
  have hsites : (root.updateAll g).sites [] = (root.sites []).map (Site.updateAll g) :=
    sites_updateAll g [] root
  have hagg (t : Site) : (t.updateAll g).node.isAggregated = t.node.isAggregated := by
    rw [Site.node_updateAll]
    rfl
  have hname (t : Site) : (t.updateAll g).node.name = t.node.name := by
    rw [Site.node_updateAll]
    rfl
  have hfacet (t : Site) : (t.updateAll g).facetAncestor?.map Node.name =
      t.facetAncestor?.map Node.name := by
    rw [Site.facetAncestor?_updateAll, Option.map_map]
    rfl
  unfold CellSet
  rw [hsites]
  simp only [List.mem_map, exists_exists_and_eq_and, hagg, hname, hfacet]

@[simp] theorem outerData_update (g : Components → Components) (A : List Node) (u : Node) :
    outerData (A.map (Node.update · g)) (u.update g) = outerData A u := by
  unfold outerData
  rw [List.getLast?_map, Option.map_map]
  rfl

theorem located_updateAll (root : View) (g : Components → Components) (s : Site)
    (k : Components) : Located root (s.updateAll g) k ↔ Located root s k := by
  have hfeed (c : Channel) : (s.updateAll g).view.feeders c =
      (s.view.feeders c).map (List.map (Node.update · g)) := feeders_updateAll g c s.view
  have hfacet : (s.updateAll g).node.isFacet = s.node.isFacet := by
    rw [Site.node_updateAll]
    rfl
  -- what is read for a unit depends on names and kinds, which are the same
  have houter (us : List Node) (scale : Scale) :
      scale.FedBy (us.map (Node.update · g)) (outerData (s.updateAll g).ancestors) ↔
        scale.FedBy us (outerData s.ancestors) := by
    apply Scale.fedBy_congr
    rw [List.map_map]
    exact List.map_congr_left (fun u _ => outerData_update g s.ancestors u)
  have hraw (us : List Node) (scale : Scale) :
      scale.FedBy (us.map (Node.update · g)) Node.rawData ↔ scale.FedBy us Node.rawData := by
    apply Scale.fedBy_congr
    rw [List.map_map]
    rfl
  have hexists (c : Channel) (Q : List Node → Prop) :
      (∃ us, (s.updateAll g).view.feeders c = some us ∧ Q us) ↔
        ∃ us, s.view.feeders c = some us ∧ Q (us.map (Node.update · g)) := by
    rw [hfeed]
    cases s.view.feeders c <;> simp
  unfold Located
  rw [hfacet, Site.facetAncestor?_updateAll]
  simp only [hexists, houter]
  cases s.facetAncestor? with
  | none => simp only [Option.map_none, hraw]
  | some f => rfl

theorem located_siteBlind (root : View) (phase : Phase) : Fact.SiteBlind phase (Located root) :=
  fun s k => located_updateAll root _ s k

theorem located_ownBlind (root : View) {phase : Phase} (h : phase ≠ .scale) :
    Fact.OwnBlind phase (Located root) := by
  intro s k
  unfold Located
  rw [Components.without_scales h]

/-! ### The replacements that reach a site -/

/-- All replacements start from what facets among some nodes split. -/
def FromFacets (A : List Node) (pending : List DataRename) : Prop :=
  ∀ r ∈ pending, r.source = Naming.main ∨ ∃ a ∈ A, r.source = a.cellData

/-- What the replacements that reach a site do there. Those of facets alone start from what the
facets split; below the last facet they lead every unit to its cell. -/
def Reaches (root : View) (s : Site) (pending : List DataRename) : Prop :=
  if s.node.isFacet then
    FromFacets s.ancestors pending ∧
      follow pending Naming.main = (s.ancestors.getLast?.map Node.cellData).getD Naming.main
  else match s.facetAncestor? with
    | none => pending = []
    | some f => ∀ u ∈ s.view.openUnits, CellSet root f.name (follow pending u.rawData)

section
variable {whole : Spec} {input : Option DataDef} {root : View} {s : Site}
  {pending : List DataRename}

theorem find?_isFacet_of_forall {A : List Node} (h : ∀ a ∈ A, a.isFacet = true) :
    A.find? Node.isFacet = A.head? := by
  cases A with
  | nil => rfl
  | cons a rest => rw [List.find?_cons_of_pos (h a List.mem_cons_self), List.head?_cons]

/-- The replacements of a facet lead from what it splits, and from its units' records, into its
cells. -/
theorem renamesUnder_facet (h : Fits (ReadyForScales whole input) [] root) (hs : s ∈ root.sites [])
    (hf : s.node.isFacet = true) :
    renamesUnder s.node s.view.children =
      cellRenamesOf ⟨s.node.cellData, (s.ancestors.head?.map Node.cellData).getD Naming.main⟩
        ((openUnitsIn s.view.children).map Node.data) := by
  obtain ⟨hb, hd, -⟩ := h s hs
  have habove : s.facetAncestor? = s.ancestors.head? := find?_isFacet_of_forall (hb.facet_above hf)
  unfold renamesUnder
  rw [if_pos hf, hd.facetRoot_eq hf, habove]
  rfl

/-- Every unit in a facet's cells is led into the facet's cell set. -/
theorem renames_of_openUnit (h : Fits (ReadyForScales whole input) [] root)
    (hs : s ∈ root.sites []) (hf : s.node.isFacet = true) {u : Node}
    (hu : u ∈ openUnitsIn s.view.children) :
    u.data.input = u.rawData ∧ CellSet root s.node.name u.data.source := by
  obtain ⟨t, htr, rfl, hunit, hfac⟩ := exists_site_in_cells hs hf hu
  obtain ⟨-, hd, -⟩ := h t htr
  rw [hd.data_eq]
  refine ⟨parse_input_unit hunit, ?_⟩
  rw [parse_source_unit hunit hfac]
  by_cases ha : t.node.isAggregated = true
  · rw [if_pos ha]
    exact .inr ⟨t, htr, ha, by rw [hfac]; rfl, rfl⟩
  · rw [if_neg ha]
    exact .inl rfl

/-- What lies in a facet's cells is not replaced by the facets around it. -/
theorem follow_cellSet (hnames : (root.nodes.map Node.name).Nodup) (hs : s ∈ root.sites [])
    (hp : FromFacets s.ancestors pending)
    {d : String} (hd : CellSet root s.node.name d) : follow pending d = d := by
  apply follow_eq_self
  intro r hr he
  -- names of different purposes end differently, and cells of different facets have different nodes
  rcases hd with rfl | ⟨t, -, -, -, rfl⟩
  · rcases hp r hr with hm | ⟨a, ha, hm⟩
    · exact Naming.cell_ne_main _ (he.symm.trans hm)
    · have hcell : Naming.qualify s.node.name "facet" = Naming.qualify a.name "facet" :=
        calc Naming.qualify s.node.name "facet" = r.source := he.symm
          _ = Naming.qualify a.name "facet" := hm
      exact name_not_mem_ancestors hnames hs ha (Naming.qualify_injective hcell)
  · rcases hp r hr with hm | ⟨a, -, hm⟩
    · exact Naming.cellAggregate_ne_main _ (he.symm.trans hm)
    · exact Naming.cell_ne_cellAggregate _ _ (hm.symm.trans he)

/-- Aggregates outside all cells are not replaced by facets that have no units of their own. -/
theorem follow_aggregate {A : List Node} (hp : FromFacets A pending) (node : String) :
    follow pending (Naming.aggregate node) = Naming.aggregate node := by
  apply follow_eq_self
  intro r hr he
  rcases hp r hr with hm | ⟨a, -, hm⟩
  · exact Naming.aggregate_ne_main _ (he.symm.trans hm)
  · exact Naming.cell_ne_aggregate _ _ (hm.symm.trans he)

/-- The replacement of one more facet, before those of the facets around it. -/
theorem FromFacets.cons {A : List Node} (h : FromFacets A pending) (n : Node) :
    FromFacets (n :: A)
      (⟨(A.head?.map Node.cellData).getD Naming.main, n.cellData⟩ :: pending) := by
  intro r hr
  rcases List.mem_cons.mp hr with rfl | hr
  · cases A with
    | nil => exact .inl rfl
    | cons p rest =>
      have hp : p ∈ n :: p :: rest := List.mem_cons_of_mem _ List.mem_cons_self
      exact .inr ⟨p, hp, rfl⟩
  · rcases h r hr with hmain | ⟨a, ha, hcell⟩
    · exact .inl hmain
    · exact .inr ⟨a, List.mem_cons_of_mem _ ha, hcell⟩

/-- Facets over one another lead all records to the cells of the outermost one. -/
theorem follow_main_cons {A : List Node} (h : FromFacets A pending)
    (hmain : follow pending Naming.main = (A.getLast?.map Node.cellData).getD Naming.main)
    (n : Node) :
    follow (⟨(A.head?.map Node.cellData).getD Naming.main, n.cellData⟩ :: pending) Naming.main =
      ((n :: A).getLast?.map Node.cellData).getD Naming.main := by
  cases A with
  | nil =>
    -- the outermost facet splits all records, and nothing is replaced after it
    have hcell : follow pending n.cellData = n.cellData := by
      apply follow_eq_self
      intro r hr he
      rcases h r hr with hm | ⟨a, ha, -⟩
      · exact Naming.cell_ne_main _ (he.symm.trans hm)
      · exact absurd ha List.not_mem_nil
    exact hcell
  | cons p rest =>
    -- a facet below another one splits a cell, so it does not replace the dataset of all records
    have hne : Naming.main ≠ p.cellData := fun he => Naming.cell_ne_main _ he.symm
    calc follow (⟨p.cellData, n.cellData⟩ :: pending) Naming.main
        = follow pending Naming.main := congrArg (follow pending) (if_neg hne)
      _ = ((p :: rest).getLast?.map Node.cellData).getD Naming.main := hmain
      _ = ((n :: p :: rest).getLast?.map Node.cellData).getD Naming.main := by
        rw [List.getLast?_cons_cons]

theorem reaches_facet_child (h : Fits (ReadyForScales whole input) [] root)
    (hs : s ∈ root.sites []) (hf : s.node.isFacet = true)
    (hsource : FromFacets s.ancestors pending)
    (hmain : follow pending Naming.main =
      (s.ancestors.getLast?.map Node.cellData).getD Naming.main)
    {c : View} (hc : s.view.children = [c]) (hcf : c.node.isFacet = true) :
    Reaches root ⟨s.lineage, c⟩ (renamesUnder s.node s.view.children ++ pending) := by
  have hopen : openUnitsIn [c] = [] := by
    rw [openUnitsIn_eq, List.flatMap_singleton, openUnits_facet hcf]
  -- a facet over a facet has no units in its own cells, so it makes one replacement only
  have hrenames : renamesUnder s.node s.view.children =
      [⟨(s.ancestors.head?.map Node.cellData).getD Naming.main, s.node.cellData⟩] := by
    rw [renamesUnder_facet h hs hf, hc, hopen]
    rfl
  have hfacet : (Site.node ⟨s.lineage, c⟩).isFacet = true := hcf
  unfold Reaches
  rw [if_pos hfacet, hrenames]
  exact ⟨hsource.cons s.node, follow_main_cons hsource hmain s.node⟩

theorem reaches_cell_child (h : Fits (ReadyForScales whole input) [] root)
    (hnames : (root.nodes.map Node.name).Nodup) (hs : s ∈ root.sites [])
    (hf : s.node.isFacet = true)
    (hsource : FromFacets s.ancestors pending)
    {c : View} (hc : s.view.children = [c]) (hcf : c.node.isFacet = false) :
    Reaches root ⟨s.lineage, c⟩ (renamesUnder s.node s.view.children ++ pending) := by
  have hnearest : Site.facetAncestor? ⟨s.lineage, c⟩ = some s.node := by
    unfold Site.facetAncestor? Site.lineage
    exact List.find?_cons_of_pos hf
  have hfacet : ¬ (Site.node ⟨s.lineage, c⟩).isFacet = true := by
    have hn : (Site.node ⟨s.lineage, c⟩).isFacet = c.node.isFacet := rfl
    rw [hn, hcf]
    exact Bool.false_ne_true
  unfold Reaches
  rw [if_neg hfacet, hnearest]
  intro u hu
  have hin : u ∈ openUnitsIn s.view.children := by
    rw [hc, openUnitsIn_eq, List.flatMap_singleton]
    exact hu
  have hcell : CellSet root s.node.name
      (follow (renamesUnder s.node s.view.children) u.rawData) := by
    rw [renamesUnder_facet h hs hf]
    apply follow_mem
    · intro r hr
      rcases mem_cellRenamesOf.mp hr with rfl | ⟨d, hd, rfl⟩
      · exact .inl rfl
      · obtain ⟨w, hw, rfl⟩ := List.mem_map.mp hd
        exact (renames_of_openUnit h hs hf hw).2
    · refine .inr ⟨⟨u.data.input, u.data.source⟩, ?_, (renames_of_openUnit h hs hf hin).1⟩
      exact mem_cellRenamesOf.mpr (.inr ⟨u.data, List.mem_map_of_mem hin, rfl⟩)
  -- what the facet replaces comes first, and the facets around do not touch it any more
  rw [follow_append, follow_cellSet hnames hs hsource hcell]
  exact hcell

/-- What a node passes on to the views under it. -/
theorem reaches_child (h : Fits (ReadyForScales whole input) [] root)
    (hnames : (root.nodes.map Node.name).Nodup) (hs : s ∈ root.sites [])
    (hr : Reaches root s pending) {c : View} (hc : c ∈ s.view.children) :
    Reaches root ⟨s.lineage, c⟩ (renamesUnder s.node s.view.children ++ pending) := by
  have hbuilt : Fits (fun s _ => s.Built whole) [] root := h.mono (fun _ _ hk => hk.1)
  by_cases hf : s.node.isFacet = true
  · unfold Reaches at hr
    rw [if_pos hf] at hr
    obtain ⟨d, hd⟩ := (hbuilt s hs).facet_single hf
    obtain rfl : c = d := by
      rw [hd] at hc
      exact List.mem_singleton.mp hc
    cases hcf : c.node.isFacet with
    | true => exact reaches_facet_child h hs hf hr.1 hr.2 hd hcf
    | false => exact reaches_cell_child h hnames hs hf hr.1 hd hcf
  · have hnf : s.node.isFacet = false := Bool.eq_false_iff.mpr hf
    have hcf : c.node.isFacet = false := not_facet_of_child hbuilt hs hnf hc
    have hfacet : ¬ (Site.node ⟨s.lineage, c⟩).isFacet = true := by
      have hn : (Site.node ⟨s.lineage, c⟩).isFacet = c.node.isFacet := rfl
      rw [hn, hcf]
      exact Bool.false_ne_true
    have hnearest : Site.facetAncestor? ⟨s.lineage, c⟩ = s.facetAncestor? := by
      unfold Site.facetAncestor? Site.lineage
      exact List.find?_cons_of_neg hf
    have hnone : renamesUnder s.node s.view.children = [] := if_neg hf
    unfold Reaches at hr ⊢
    rw [if_neg hf] at hr
    rw [if_neg hfacet, hnearest, hnone, List.nil_append]
    cases hfac : s.facetAncestor? with
    | none =>
      rw [hfac] at hr
      exact hr
    | some f =>
      rw [hfac] at hr
      intro u hu
      exact hr u (mem_openUnits_of_child hnf hc hu)

/-- What a view keeps reads, for every unit behind it, what the replacements lead to. -/
theorem get?_keeps {config : Config} {A : List Node} {taken : Resolve} {v : View} {c : Channel}
    {scale : Scale} (hraw : ∀ n ∈ v.nodes, n.isUnit = true → n.data.input = n.rawData)
    (h : (v.keeps config A taken pending).get? c = some scale) :
    ∃ us, v.feeders c = some us ∧ scale.FedBy us (fun u => follow pending u.rawData) := by
  rw [keeps, Dict.get?_mapValues, Option.map_eq_some_iff] at h
  obtain ⟨own, hown, rfl⟩ := h
  rw [Dict.get?_filter, Option.filter_eq_some_iff] at hown
  -- there are scales for channels with a scale only
  have hc : c ∈ Channel.scaleChannels := by
    by_contra hno
    rw [offers_get?_none hno] at hown
    exact absurd hown.1 (by simp)
  have hoffered : Scale.OfferedBy ((v.offers config A).get? c) (v.feeders c) :=
    offers_offeredBy hc hraw
  rw [hown.1] at hoffered
  obtain ⟨us, hus, hfed⟩ := hoffered.exists_fedBy
  exact ⟨us, hus, hfed.redirect pending⟩

/-- The scales that a node keeps read what the replacements lead to. -/
theorem located_keeps (h : Fits (ReadyForScales whole input) [] root) (hs : s ∈ root.sites [])
    (hr : Reaches root s pending) {config : Config} {taken : Resolve} {k : Components}
    (hk : k.scales = s.view.keeps config s.ancestors taken pending) : Located root s k := by
  have hfit : Fits (ReadyForScales whole input) s.ancestors s.view :=
    fun t ht => h t (mem_sites_trans hs ht)
  have hraw := input_eq_rawData (hfit.mono (fun _ _ hk => hk.2.1))
  intro c scale hget
  rw [hk] at hget
  obtain ⟨us, hus, hfed⟩ := get?_keeps hraw hget
  refine ⟨us, hus, ?_⟩
  unfold Reaches at hr
  -- a facet holds what its cells share and reads for every unit what the facets above lead to;
  -- units and layers read for those under them only, which are in one cell
  by_cases hf : s.node.isFacet = true
  · rw [if_pos hf] at hr ⊢
    obtain ⟨hsource, hmain⟩ := hr
    have hread : us.map (fun u => follow pending u.rawData) = us.map (outerData s.ancestors) := by
      apply List.map_congr_left
      intro u _
      unfold Node.rawData outerData
      split
      · exact follow_aggregate hsource u.name
      · exact hmain
    exact (Scale.fedBy_congr hread).mp hfed
  · rw [if_neg hf] at hr ⊢
    cases hfac : s.facetAncestor? with
    | none =>
      rw [hfac] at hr
      have hnil : pending = [] := hr
      rw [hnil] at hfed
      exact hfed
    | some f =>
      rw [hfac] at hr
      have hbuilt : Fits (fun s _ => s.Built whole) s.ancestors s.view :=
        hfit.mono (fun _ _ hk => hk.1)
      intro refs hdom
      apply (hfed.forall_data_iff hdom (CellSet root f.name)).mpr
      intro u hu
      obtain ⟨hnode, hunit⟩ := mem_feeders hus u hu
      have hopen : u ∈ s.view.openUnits :=
        mem_openUnits_of_mem_nodes hbuilt (Bool.eq_false_iff.mpr hf) hnode hunit
      exact hr u hopen

/-- After the scale phase, every scale reads the data of its place. -/
theorem settle_located (h : Fits (ReadyForScales whole input) [] root)
    (hnames : (root.nodes.map Node.name).Nodup) {config : Config} {taken : Resolve} {v : View}
    {A B : List Node} (hs : ⟨A, v⟩ ∈ root.sites []) (hr : Reaches root ⟨A, v⟩ pending)
    (hB : B.map (Node.update · (Components.without .scale)) =
      A.map (Node.update · (Components.without .scale))) :
    Fits (Located root) B (v.settle config A taken pending) := by
  -- the site is that of the tree before the phase, as the replacements depend on its data
  induction v using induct generalizing A B taken pending with
  | h n cs ih =>
    have hframe : ((mk n cs).settle config A taken pending).updateAll (Components.without .scale) =
        (mk n cs).updateAll (Components.without .scale) := settle_frame (mk n cs)
    rw [settle_mk] at hframe ⊢
    refine fits_mk_iff.mpr ⟨?_, ?_⟩
    · refine ((located_siteBlind root .scale).congr ?_ _).mpr (located_keeps h hs hr rfl)
      rw [Site.updateAll, Site.updateAll, hB, hframe]
    · intro w hw
      obtain ⟨c, hc, rfl⟩ := List.mem_map.mp hw
      apply ih c hc (child_mem_sites hs hc) (reaches_child h hnames hs hr hc)
      show _ = (n :: A).map (Node.update · (Components.without .scale))
      rw [List.map_cons, List.map_cons, hB]
      rfl

/-- Nothing is replaced at the root. -/
theorem reaches_root (root : View) : Reaches root ⟨[], root⟩ [] := by
  unfold Reaches
  split
  · exact ⟨fun r hr => absurd hr List.not_mem_nil, rfl⟩
  · rfl

end

end View
end Trellis

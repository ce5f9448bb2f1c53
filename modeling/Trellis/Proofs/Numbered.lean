import Trellis.Proofs.Brushes
import Trellis.Proofs.FacetUses
import Trellis.Proofs.Sources

/-! The numbers of records. Where single records are picked, `main` numbers its records, and a pick
that says nothing else reads these numbers. Facets hand them on to their cells, but an aggregate has
no column of this name unless it is grouped by one or works one out. -/
namespace Trellis

/-! ### Columns on the way -/

namespace Transform

/-- Whether a transform numbers the records in a column. -/
def numbers (column : String) : Transform → Bool
  | identify own => own == column
  | _ => false

/-- Whether a transform keeps a column that is there. An aggregate has the columns that it is
grouped by, and those that it works out. Of a transform that is not known nothing can be told. -/
def keeps (column : String) : Transform → Bool
  | identify _ | timeUnit _ _ _ => true
  | aggregate groupby outputs => groupby.contains column || outputs.any (fun o => o.2.2 == column)
  | group own => own == column
  | distinct own => Naming.distinct ++ "_" ++ own == column
  | other _ => false

/-- The aggregate of a unit keeps a column that it is grouped by, or that it works out. -/
theorem ofUnit_keeps_iff {u : UnitView} {keys : List String} {column : String} :
    (ofUnit u keys).keeps column = true ↔
      (∃ f ∈ u.fieldDefs, f.column = column) ∨ column ∈ keys := by
  obtain ⟨groupby, entries, htransform, -, -, -, hgrouped, haggregated⟩ :=
    ofUnit_eq_aggregate u keys
  have houtput : entries.any (fun o => o.2.2 == column) = true ↔
      column ∈ entries.map (fun o => o.2.2) := by
    rw [List.any_eq_true, List.mem_map]
    simp only [beq_iff_eq]
  rw [htransform, keeps, Bool.or_eq_true, houtput, List.contains_iff_mem, hgrouped, haggregated]
  -- a definition is either grouped by or an output, so both together are all definitions
  constructor
  · rintro ((⟨f, hf, -, hcolumn⟩ | hkey) | ⟨f, hf, -, hcolumn⟩)
    · exact .inl ⟨f, hf, hcolumn⟩
    · exact .inr hkey
    · exact .inl ⟨f, hf, hcolumn⟩
  · rintro (⟨f, hf, hcolumn⟩ | hkey)
    · cases ha : f.aggregate with
      | none => exact .inl (.inl ⟨f, hf, ha, hcolumn⟩)
      | some op => exact .inr ⟨f, hf, by rw [ha]; rfl, hcolumn⟩
    · exact .inl (.inr hkey)

end Transform

namespace Dataset

/-- Whether a dataset has its records numbered in a column, given whether those that it starts from
are: the column is added by one of its transforms, or before, and no transform behind drops it. -/
def carries (column : String) (d : Dataset) (there : Bool) : Bool :=
  d.transform.foldl (fun there tr => tr.numbers column || there && tr.keeps column) there

/-- What is known of datasets by name, with one more: which of them have their records numbered. One
that is defined again hides the earlier one. -/
def enter (column : String) (known : String → Bool) (d : Dataset) : String → Bool :=
  Function.update known d.name (d.carries column (d.source.any known))

variable {column : String} {known : String → Bool} {ds : List Dataset}

theorem foldl_enter_of_not_mem {name : String} (h : name ∉ ds.map Dataset.name) :
    ds.foldl (enter column) known name = known name := by
  induction ds generalizing known with
  | nil => rfl
  | cons d rest ih =>
    rw [List.map_cons, List.mem_cons, not_or] at h
    obtain ⟨hne, hrest⟩ := h
    rw [List.foldl_cons, ih hrest, enter, Function.update_of_ne hne]

/-- Among datasets with different names, one that starts from a dataset defined before them all. -/
theorem foldl_enter_of_mem (hnames : (ds.map Dataset.name).Nodup) {d : Dataset} (hd : d ∈ ds)
    {source : String} (hsource : d.source = some source) (hbefore : source ∉ ds.map Dataset.name) :
    ds.foldl (enter column) known d.name = d.carries column (known source) := by
  -- nothing behind it hides it, and nothing before it hides what it starts from
  obtain ⟨before, after, rfl⟩ := List.append_of_mem hd
  rw [List.map_append, List.map_cons] at hnames hbefore
  obtain ⟨-, hafter, -⟩ := List.nodup_append'.mp hnames
  have hlast : d.name ∉ after.map Dataset.name := (List.nodup_cons.mp hafter).1
  have hfirst : source ∉ before.map Dataset.name := fun h => hbefore (List.mem_append_left _ h)
  rw [List.foldl_append, List.foldl_cons, foldl_enter_of_not_mem hlast, enter,
    Function.update_self, hsource, Option.any_some, foldl_enter_of_not_mem hfirst]

end Dataset

/-! ### What marks read -/

/-- What is known where the innermost mark of a unit stands: a path for each series reads a part of
what the unit reads. -/
def UnitMark.within (m : UnitMark) (known : String → Bool) : String → Bool :=
  match m.series with
  | none => known
  | some series => Function.update known series.data (known m.source)

theorem UnitMark.within_read (m : UnitMark) (known : String → Bool) :
    m.within known m.read = known m.source := by
  unfold within read
  cases m.series with
  | none => rfl
  | some series => exact Function.update_self ..

mutual

/-- The marks of units in what is drawn, each with whether the records that it reads are numbered in
a column. A cell has a part of what its facet splits, and its own datasets. -/
def GroupMark.reads (column : String) (known : String → Bool) : GroupMark → List (UnitMark × Bool)
  | .unit m => [(m, m.within known m.read)]
  | .title _ | .header _ => []
  | .cell m data content => Group.reads column (data.foldl (Dataset.enter column)
      (Function.update known m.root.name (known m.root.data))) content

def GroupMark.readsIn (column : String) (known : String → Bool) :
    List GroupMark → List (UnitMark × Bool)
  | [] => []
  | m :: rest => GroupMark.reads column known m ++ GroupMark.readsIn column known rest

def Group.reads (column : String) (known : String → Bool) : Group → List (UnitMark × Bool)
  | .mk _ _ marks _ _ _ => GroupMark.readsIn column known marks

end

/-- The marks of all units in a visualization, each with whether the records that it reads are
numbered in a column. -/
def Visualization.reads (column : String) (v : Visualization) : List (UnitMark × Bool) :=
  v.group.reads column (v.data.foldl (Dataset.enter column) (fun _ => false))

theorem GroupMark.readsIn_eq (column : String) (known : String → Bool) (ms : List GroupMark) :
    readsIn column known ms = ms.flatMap (reads column known) := by
  induction ms with
  | nil => rfl
  | cons m rest ih => rw [readsIn, ih, List.flatMap_cons]

/-- Titles and headers are no marks of units. -/
theorem Site.groupOf_reads (s : Site) (ms : List GroupMark) (column : String)
    (known : String → Bool) :
    (s.groupOf ms).reads column known = ms.flatMap (GroupMark.reads column known) := by
  have hheaders : (s.headerMarks.map (fun m => m.elim GroupMark.title GroupMark.header)).flatMap
      (GroupMark.reads column known) = [] := by
    rw [List.flatMap_eq_nil_iff]
    intro m hm
    obtain ⟨h, -, rfl⟩ := List.mem_map.mp hm
    cases h with
    | inl t => rfl
    | inr m => rfl
  rw [groupOf, Group.reads, GroupMark.readsIn_eq, List.flatMap_append, hheaders, List.nil_append]

/-! ### What aggregates keep -/

/-- Whether a unit keeps a column of the records that it starts from. One that aggregates only does
if it shows a column of this name, or if a facet around it splits by one. -/
def Site.KeepsColumn (s : Site) (column : String) : Prop :=
  s.node.isAggregated = true →
    ∃ f, (f ∈ s.node.fieldDefs ∨ ∃ n ∈ s.facetAncestors, f ∈ n.fieldDefs) ∧ f.column = column

namespace Dataset

/-- The aggregate of a unit has its records numbered if those that it is made of are, and the unit
keeps the numbers. -/
theorem carries_ofUnit {s : Site} {u : UnitView} (hk : s.node.kind = .unit u)
    (ha : s.node.isAggregated = true) (name source column : String) (there : Bool) :
    (derived name source [Transform.ofUnit u (s.facetAncestors.flatMap Node.facetColumns)]).carries
      column there = true ↔ there = true ∧ s.KeepsColumn column := by
  generalize hkeys : s.facetAncestors.flatMap Node.facetColumns = keys
  have hnumbers : (Transform.ofUnit u keys).numbers column = false := by
    obtain ⟨groupby, entries, htransform, -⟩ := Transform.ofUnit_eq_aggregate u keys
    rw [htransform]
    rfl
  have hkeeps : (Transform.ofUnit u keys).keeps column = true ↔ s.KeepsColumn column := by
    rw [Transform.ofUnit_keeps_iff, ← hkeys, mem_facetColumns, ← Node.fieldDefs_unit hk]
    constructor
    · rintro (⟨f, hf, hcolumn⟩ | ⟨f, hf, hcolumn⟩) -
      · exact ⟨f, .inl hf, hcolumn⟩
      · exact ⟨f, .inr hf, hcolumn⟩
    · intro h
      obtain ⟨f, hf | hf, hcolumn⟩ := h ha
      · exact .inl ⟨f, hf, hcolumn⟩
      · exact .inr ⟨f, hf, hcolumn⟩
  show ((Transform.ofUnit u keys).numbers column ||
    there && (Transform.ofUnit u keys).keeps column) = true ↔ _
  rw [hnumbers, Bool.false_or, Bool.and_eq_true, hkeeps]

end Dataset

/-- The records that all views start from are numbered just if single ones are picked anywhere. -/
theorem View.mainData_carries (v : View) :
    v.mainData.carries Naming.identifier false = v.nodes.any Node.needsIdentifier := by
  obtain ⟨columns, hformulas⟩ :=
    DataComponent.exists_formulasOf (v.nodes.flatMap Node.timeUnitFieldDefs)
  -- formulas for time units only add columns
  have hkept (there : Bool) : (DataComponent.timeUnitTransforms
      (v.nodes.flatMap Node.timeUnitFieldDefs)).foldl (fun there tr =>
        tr.numbers Naming.identifier || there && tr.keeps Naming.identifier) there = there := by
    apply List.foldlRecOn (motive := (· = there)) _ _ rfl
    intro now hnow tr htr
    obtain ⟨f, -, unit, field, -, -, rfl⟩ := hformulas.sound tr htr
    have hadds : (Transform.timeUnit f.column unit field).numbers Naming.identifier = false := rfl
    rw [hadds, Transform.keeps, Bool.false_or, Bool.and_true, hnow]
  unfold Dataset.carries mainData Dataset.derived
  dsimp only
  rw [List.foldl_append, hkept]
  cases v.nodes.any Node.needsIdentifier with
  | true => rfl
  | false => rfl

/-! ### What is known where views are drawn -/

namespace View

variable {whole : Spec} {input : Option DataDef} {v : View} {A : List Node} {known : String → Bool}

/-- The records that the views under some nodes start from: those of the cells around, or all. -/
def startData (A : List Node) : String :=
  ((A.find? Node.isFacet).map Node.cellData).getD Naming.main

/-- What is known where the views under some nodes are drawn, of the records that they start from
and of the aggregates of these: if single records are picked anywhere, the former are numbered, and
of the latter those that keep the numbers. -/
structure Knows (v : View) (input : Option DataDef) (A : List Node) (known : String → Bool) :
    Prop where
  start : known (startData A) = v.nodes.any Node.needsIdentifier
  aggregates : ∀ s ∈ v.sites [], s.node.isAggregated = true →
    s.facetAncestor? = A.find? Node.isFacet →
      (known (Pipeline.standard.parse input s).source = true ↔
        v.nodes.any Node.needsIdentifier = true ∧ s.KeepsColumn Naming.identifier)

/-- A unit reads the records that it starts from, or its aggregate of them. -/
theorem Knows.unit (h : v.Knows input A known) {s : Site} (hs : s ∈ v.sites [])
    (hu : s.node.isUnit = true) (hA : s.facetAncestor? = A.find? Node.isFacet) :
    known (Pipeline.standard.parse input s).source = true ↔
      v.nodes.any Node.needsIdentifier = true ∧ s.KeepsColumn Naming.identifier := by
  by_cases ha : s.node.isAggregated = true
  · exact h.aggregates s hs ha hA
  · have hsource : (Pipeline.standard.parse input s).source = startData A := by
      unfold startData
      rw [← hA]
      cases hf : s.facetAncestor? with
      | none =>
        rw [parse_source_outside hu hf, Node.rawData, if_neg ha]
        rfl
      | some f =>
        rw [parse_source_unit hu hf, if_neg ha]
        rfl
    rw [hsource, h.start]
    exact (and_iff_left (fun hagg => absurd hagg ha)).symm

theorem Knows.layer (h : v.Knows input A known) {n : Node} (hn : n.isFacet = false) :
    v.Knows input (n :: A) known := by
  have hfind : (n :: A).find? Node.isFacet = A.find? Node.isFacet :=
    List.find?_cons_of_neg (by rw [hn]; exact Bool.false_ne_true)
  refine ⟨?_, ?_⟩
  · rw [startData, hfind]
    exact h.start
  · rw [hfind]
    exact h.aggregates

/-- In the cells of a facet all names differ: that of the records of the cell, and those of the
aggregates of the units in it. -/
theorem cellNames_distinct (hb : Fits (fun s _ => s.Built whole) [] v)
    (hd : Fits (Described input) [] v) (hnames : (v.nodes.map Node.name).Nodup) {n : Node}
    {child : View} (hs : ⟨A, mk n [child]⟩ ∈ v.sites []) (hn : n.isFacet = true) :
    (n.cellData :: (cellDatasets child.openUnits).map Dataset.name).Nodup := by
  have hunits : openUnitsIn [child] = child.openUnits := by
    rw [openUnitsIn_eq, List.flatMap_singleton]
  have hdatasets : (cellDatasets child.openUnits).map Dataset.name =
      child.openUnits.flatMap (fun m => m.cellTexts.map m.qualify) := by
    rw [cellDatasets, List.map_flatMap]
    apply List.flatMap_congr
    intro m hm
    exact cellSources_names hd hs hn (hunits ▸ hm)
  have hcell : Naming.Behind ["facet"] [n.cellData] := by
    intro name hname
    exact ⟨n.name, "facet", List.mem_singleton_self _, List.mem_singleton.mp hname⟩
  have haggregates : Naming.Behind ["cell_aggregate"]
      (child.openUnits.flatMap (fun m => m.cellTexts.map m.qualify)) :=
    Node.qualified_behind (fun m => m.cellTexts_subset.1) child.openUnits
  rw [hdatasets, List.nodup_cons]
  refine ⟨hcell.disjoint haggregates (by decide) (List.mem_singleton_self _), ?_⟩
  -- what units bring along in all cells is distinct, so it is in those of one facet
  have hinner := innerNames_nodup hb hnames
  rw [innerNames, Site.cellUnits, List.flatMap_assoc, List.nodup_flatMap] at hinner
  have hown := hinner.1 ⟨A, mk n [child]⟩ (List.mem_filter.mpr ⟨hs, hn⟩)
  rwa [children, hunits] at hown

/-- Within the cells of a facet there is a part of what it splits, and there are the aggregates that
the units in the cells make of that. -/
theorem Knows.facet (hb : Fits (fun s _ => s.Built whole) [] v) (hd : Fits (Described input) [] v)
    (hnames : (v.nodes.map Node.name).Nodup) {n : Node} {child : View}
    (hs : ⟨A, View.mk n [child]⟩ ∈ v.sites []) (hn : n.isFacet = true) (h : v.Knows input A known) :
    v.Knows input (n :: A) ((cellDatasets child.openUnits).foldl (Dataset.enter Naming.identifier)
      (Function.update known n.cellData (known (startData A)))) := by
  have hfind : (n :: A).find? Node.isFacet = some n := List.find?_cons_of_pos hn
  obtain ⟨hcell, hdistinct⟩ := List.nodup_cons.mp (cellNames_distinct hb hd hnames hs hn)
  refine ⟨?_, ?_⟩
  · have hstart : startData (n :: A) = n.cellData := by
      rw [startData, hfind]
      rfl
    rw [hstart, Dataset.foldl_enter_of_not_mem hcell, Function.update_self]
    exact h.start
  · intro t ht ha hft
    have hf : t.facetAncestor? = some n := hft.trans hfind
    have hu : t.node.isUnit = true := Node.isUnit_of_isAggregated ha
    obtain ⟨u, hk⟩ := Node.kind_of_isUnit hu
    -- the unit is in these cells, and brings its aggregate along
    have hopen : t.node ∈ child.openUnits :=
      mem_openUnits_of_facetAncestor hb hnames hs ht hu (by rw [hf]; rfl)
    obtain ⟨-, hsources⟩ := parse_aggregated input hk ((Node.isAggregated_unit hk).symm.trans ha)
    rw [hf] at hsources
    have hin : Dataset.derived (Naming.cellAggregate t.node.name) n.cellData
        [Transform.ofUnit u (t.facetAncestors.flatMap Node.facetColumns)] ∈
          cellDatasets child.openUnits := by
      refine List.mem_flatMap.mpr ⟨t.node, hopen, ?_⟩
      rw [(hd t ht).data_eq, hsources]
      exact List.mem_singleton_self _
    have hentered : (cellDatasets child.openUnits).foldl (Dataset.enter Naming.identifier)
        (Function.update known n.cellData (known (startData A)))
        (Naming.cellAggregate t.node.name) = _ :=
      Dataset.foldl_enter_of_mem hdistinct hin rfl hcell
    rw [parse_source_unit hu hf, if_pos ha, hentered, Dataset.carries_ofUnit hk ha,
      Function.update_self, h.start]

/-- The input and the records that all views start from come first, then what nodes bring along. -/
theorem exists_sources_eq (h : Fits (Described input) [] v) : ∃ others,
    v.nodes.flatMap (fun n => n.data.sources) = DataComponent.rootSources input v ++ others ∧
      others.map Dataset.name = v.outerNames := by
  obtain ⟨others, hothers⟩ : ∃ others, v.nodes.flatMap (fun n => n.data.sources) =
      DataComponent.rootSources input v ++ others := by
    have hroot : (⟨[], v⟩ : Site).isRoot = true := rfl
    rw [sources_of_sites h]
    cases v with
    | mk n cs =>
      rw [sites_mk, List.flatMap_cons, parse_sources, hroot, if_pos rfl, List.append_assoc]
      exact ⟨_, rfl⟩
  have hall := sources_names h
  rw [hothers, List.map_append] at hall
  exact ⟨others, hothers, List.append_cancel_left hall⟩

/-- Whatever is known before, the input itself is not numbered. -/
theorem foldl_enter_rootSources (input : Option DataDef) (v : View) (known : String → Bool) :
    (DataComponent.rootSources input v).foldl (Dataset.enter Naming.identifier) known Naming.main =
      v.nodes.any Node.needsIdentifier := by
  let source : Dataset := ⟨Naming.source, none, input, []⟩
  calc (DataComponent.rootSources input v).foldl (Dataset.enter Naming.identifier) known Naming.main
      = v.mainData.enter Naming.identifier (source.enter Naming.identifier known) Naming.main := rfl
    _ = v.mainData.carries Naming.identifier
          (source.enter Naming.identifier known Naming.source) := Function.update_self ..
    _ = v.mainData.carries Naming.identifier false :=
      congrArg (v.mainData.carries Naming.identifier) (Function.update_self ..)
    _ = v.nodes.any Node.needsIdentifier := v.mainData_carries

theorem qualify_not_mem_stores {text : String} (h : ¬ "_store".toList <:+ text.toList)
    (h' : ¬ text.toList <:+ "_store".toList) (node : String) :
    Naming.qualify node text ∉ (Site.selectionStores ⟨[], v⟩).map Dataset.name := by
  intro hname
  obtain ⟨d, hstore, hname⟩ := List.mem_map.mp hname
  obtain ⟨x, -, rfl⟩ := List.mem_map.mp hstore
  exact Naming.store_ne_qualify h h' x.name node hname

/-- Outside all cells there are all records, and the aggregates of these. -/
theorem Knows.root (hd : Fits (Described input) [] v) (hnames : (v.nodes.map Node.name).Nodup) :
    v.Knows input [] (v.rootData.foldl (Dataset.enter Naming.identifier) (fun _ => false)) := by
  obtain ⟨others, hothers, hnamed⟩ := exists_sources_eq hd
  have hmain : Naming.main ∉ others.map Dataset.name := by
    rw [hnamed]
    exact Naming.fixed_behind.disjoint v.outerNames_behind (by decide)
      (List.mem_cons_of_mem _ (List.mem_singleton_self _))
  let first := (DataComponent.rootSources input v).foldl (Dataset.enter Naming.identifier)
    (fun _ => false)
  have hfirst : first Naming.main = v.nodes.any Node.needsIdentifier :=
    foldl_enter_rootSources input v _
  -- no store has the name of anything that is read, so all is known before there are stores
  have hknown (text : String) (h : ¬ "_store".toList <:+ text.toList)
      (h' : ¬ text.toList <:+ "_store".toList) (node : String) :
      v.rootData.foldl (Dataset.enter Naming.identifier) (fun _ => false)
        (Naming.qualify node text) =
        others.foldl (Dataset.enter Naming.identifier) first (Naming.qualify node text) := by
    rw [rootData, hothers, List.foldl_append, List.foldl_append,
      Dataset.foldl_enter_of_not_mem (qualify_not_mem_stores h h' node)]
  refine ⟨?_, ?_⟩
  · have hstart := hknown "main" (by decide) (by decide) ""
    exact hstart.trans ((Dataset.foldl_enter_of_not_mem hmain).trans hfirst)
  · intro s hs ha hA
    have hu : s.node.isUnit = true := Node.isUnit_of_isAggregated ha
    obtain ⟨u, hk⟩ := Node.kind_of_isUnit hu
    obtain ⟨hown, -⟩ := parse_aggregated input hk ((Node.isAggregated_unit hk).symm.trans ha)
    have hin : Dataset.derived (Naming.aggregate s.node.name) Naming.main
        [Transform.ofUnit u (s.facetAncestors.flatMap Node.facetColumns)] ∈ others := by
      have hall : Dataset.derived (Naming.aggregate s.node.name) Naming.main
          [Transform.ofUnit u (s.facetAncestors.flatMap Node.facetColumns)] ∈
            DataComponent.rootSources input v ++ others := by
        rw [← hothers, sources_of_sites hd]
        exact List.mem_flatMap.mpr ⟨s, hs, hown⟩
      -- it is neither the input nor `main`, by its name
      have haggregate : Naming.Behind ["aggregate"] [Naming.aggregate s.node.name] := by
        intro name hname
        exact ⟨s.node.name, "aggregate", List.mem_singleton_self _, List.mem_singleton.mp hname⟩
      refine (List.mem_append.mp hall).resolve_left (fun hroot => ?_)
      have hname : Naming.aggregate s.node.name ∈ [Naming.source, Naming.main] :=
        List.mem_map_of_mem (f := Dataset.name) hroot
      exact Naming.fixed_behind.disjoint haggregate (by decide) hname (List.mem_singleton_self _)
    have hentered : v.rootData.foldl (Dataset.enter Naming.identifier) (fun _ => false)
        (Naming.aggregate s.node.name) = _ :=
      (hknown "aggregate" (by decide) (by decide) s.node.name).trans
        (Dataset.foldl_enter_of_mem (hnamed ▸ outerNames_nodup hnames) hin rfl hmain)
    rw [parse_source_outside hu hA, Node.rawData, if_pos ha, hentered,
      Dataset.carries_ofUnit hk ha, hfirst]

/-! ### What the marks of a tree read -/

/-- Below a node that is no unit, the units are those of its children. -/
theorem units_mk {n : Node} {cs : List View} (hn : n.isUnit = false) :
    Site.units ⟨A, mk n cs⟩ = cs.flatMap (fun c => Site.units ⟨n :: A, c⟩) := by
  have hself : ¬ (Site.node ⟨A, mk n cs⟩).isUnit = true := by
    rw [show (Site.node ⟨A, mk n cs⟩).isUnit = false from hn]
    exact Bool.false_ne_true
  have hsites : Site.preOrder ⟨A, mk n cs⟩ = ⟨A, mk n cs⟩ :: cs.flatMap (sites (n :: A)) :=
    sites_mk A n cs
  calc Site.units ⟨A, mk n cs⟩
      = (cs.flatMap (sites (n :: A))).filter (fun t => t.node.isUnit) := by
        rw [Site.units, hsites]
        exact List.filter_cons_of_neg hself
    _ = cs.flatMap (fun c => Site.units ⟨n :: A, c⟩) := List.filter_flatMap ..

/-- The marks of a view are those of its units. What such a mark reads is numbered if single records
are picked anywhere, and the unit keeps the numbers. -/
theorem drawn_reads (h : Fits (ReadyToDraw whole input) [] v)
    (hnames : (v.nodes.map Node.name).Nodup) {w : View} (hs : ⟨A, w⟩ ∈ v.sites [])
    (hknown : v.Knows input A known) :
    List.Forall₂ (fun r s => s.node.components.mark = [.unit r.1] ∧
        (r.2 = true ↔
          v.nodes.any Node.needsIdentifier = true ∧ s.KeepsColumn Naming.identifier))
      ((w.drawn A).flatMap (GroupMark.reads Naming.identifier known)) (Site.units ⟨A, w⟩) := by
  have hb : Fits (fun s _ => s.Built whole) [] v := h.mono (fun _ _ hk => hk.1)
  have hd : Fits (Described input) [] v := h.mono (fun _ _ hk => hk.2.1)
  -- on the tree, with whatever is known where the view is drawn
  induction w using induct generalizing A known with
  | h n cs ih =>
    obtain ⟨hbuilt, hdescribed, hmarked, -⟩ := h _ hs
    unfold Marked at hmarked
    -- layers know no more than is known around them, and facets what is in their cells
    cases hk : n.kind with
    | unit u =>
      have hunit : n.isUnit = true := Node.isUnit_of_unit hk
      obtain rfl : cs = [] := hbuilt.unit_leaf hunit
      rw [show (Site.node ⟨A, mk n []⟩).kind = .unit u from hk] at hmarked
      obtain ⟨m, hown, hsource, -⟩ := hmarked
      have hself : Site.units ⟨A, mk n []⟩ = [⟨A, mk n []⟩] := List.filter_cons_of_pos hunit
      rw [drawn_unit hk, show n.components.mark = [.unit m] from hown, hself]
      refine .cons ⟨hown, ?_⟩ .nil
      rw [UnitMark.within_read, hsource]
      exact hknown.unit hs hunit rfl
    | layer size =>
      rw [units_mk (Node.not_unit_of_layer hk), drawn_layer hk, List.flatMap_assoc]
      have hbelow := hknown.layer (Node.not_facet_of_layer hk)
      refine List.rel_flatMap (R := fun c d => c = d ∧ c ∈ cs)
        (List.forall₂_same.mpr (fun c hc => ⟨rfl, hc⟩)) ?_
      rintro c _ ⟨rfl, hc⟩
      exact ih c hc (child_mem_sites hs hc) hbelow
    | facet f =>
      have hfacet : n.isFacet = true := Node.isFacet_of_facet hk
      obtain ⟨child, hchild⟩ := hbuilt.facet_single hfacet
      obtain rfl : cs = [child] := hchild
      rw [show (Site.node ⟨A, mk n [child]⟩).kind = .facet f from hk] at hmarked
      obtain ⟨m, hown, -⟩ := hmarked
      have hroot : n.data.facetRoot = some ⟨n.cellData, startData A⟩ :=
        hdescribed.facetRoot_eq hfacet
      have hbelow := hknown.facet hb hd hnames hs hfacet
      have hchildSite : (⟨n :: A, child⟩ : Site) ∈ v.sites [] :=
        child_mem_sites hs List.mem_cons_self
      rw [units_mk (Node.not_unit_of_facet hk), List.flatMap_singleton, drawn_facet hk, Node.cell?,
        show n.components.mark = [.cell m] from hown, hroot]
      show List.Forall₂ _ (GroupMark.reads _ _ _ ++ []) _
      rw [List.append_nil, GroupMark.reads, Site.groupOf_reads]
      exact ih child List.mem_cons_self hchildSite hbelow

end View

namespace Selection

variable {x : Selection} {d : SelectionDef}

/-- The signal of the record that is picked, with its values in the recorded fields. -/
def picked (x : Selection) : Signal :=
  .reactive (Naming.tuple x.name) (some (.obj []))
    [⟨.events x.events, .pick x.unit x.project, true⟩]

theorem picked_mem_signals (h : x.type ≠ .interval) (s : Site) : x.picked ∈ x.signals s := by
  unfold signals pointSignals
  cases hx : x.type with
  | interval => exact absurd hx h
  | single => exact List.mem_cons_self
  | multi => exact List.mem_cons_self

/-- A selection that picks records, and says nothing of what it records, records their numbers. -/
theorem ofDef_project (hd : d.type ≠ .interval) (hnone : d.projects = false)
    (origin : SelectionOrigin) (unit : String) (fieldDef : Channel → Option FieldDef) :
    (Selection.ofDef origin unit fieldDef d).1.project = [⟨Naming.identifier, none⟩] := by
  have hdefaults : d.withDefaults = { d with fields := some [Naming.identifier] } := by
    unfold SelectionDef.withDefaults
    rw [if_neg (by rw [hnone]; exact Bool.false_ne_true)]
    cases hx : d.type with
    | interval => exact absurd hx hd
    | single => rfl
    | multi => rfl
  have hencodings : d.encodings = none := by
    have hboth : d.fields.isSome = false ∧ d.encodings.isSome = false :=
      Bool.or_eq_false_iff.mp hnone
    exact Option.isNone_iff_eq_none.mp (Option.isSome_eq_false_iff.mp hboth.2)
  have hproject : (Selection.ofDef origin unit fieldDef d).1.project =
      (Projection.ofDef fieldDef d.withDefaults).1 := rfl
  rw [hproject, hdefaults, Projection.ofDef, hencodings]
  rfl

/-- In a visualization, a selection picks records by their numbers. -/
structure PicksNumbers (x : Selection) (v : Visualization) : Prop where
  project : x.project = [⟨Naming.identifier, none⟩]
  tuple : ∃ g ∈ v.groups, x.picked ∈ g.signals

end Selection

namespace Tree

variable {whole : Spec} {t : Tree} {v : Visualization}

theorem DrawnAs.reads (h : t.DrawnAs whole v) :
    List.Forall₂ (fun r s => s.node.components.mark = [.unit r.1] ∧
        (r.2 = true ↔
          t.root.nodes.any Node.needsIdentifier = true ∧ s.KeepsColumn Naming.identifier))
      (v.reads Naming.identifier) t.rootSite.units := by
  obtain ⟨-, ms, -, hms, -, -, hgroup⟩ := assemble_ok h.assembled
  obtain rfl : t.root.drawn [] = ms := Except.ok.inj ((View.marks_eq h.ready).symm.trans hms)
  rw [Visualization.reads, hgroup, Site.groupOf_reads, h.data_eq]
  exact View.drawn_reads h.ready h.names (View.self_mem_sites [] t.root)
    (View.Knows.root h.described h.names)

/-- A selection that picks records, and says nothing of what it records, picks them by number. -/
theorem DrawnAs.picksNumbers (h : t.DrawnAs whole v) (hg : View.Fits Gathered [] t.root) {s : Site}
    (hs : s ∈ t.root.sites []) {u : UnitView} (hu : s.node.kind = .unit u) {key : String}
    {d : SelectionDef} (hd : u.selection.get? key = some d) (htype : d.type ≠ .interval)
    (hnone : d.projects = false) :
    ∃ x, s.node.components.selection.get? key = some x ∧ x.PicksNumbers v := by
  obtain ⟨x, hx, hget, hvalue⟩ := (hg s hs).exists_own hu hd
  have hpicks : x.type ≠ .interval := by
    have hsame : x.type = d.type := hx ▸ SelectionDef.withDefaults_type d
    rwa [hsame]
  refine ⟨x, hget, hx ▸ Selection.ofDef_project htype hnone _ _ _, ?_⟩
  -- the tuple is among the signals of the group that the unit is drawn in
  obtain ⟨q, hroot, -, hsignals⟩ := View.signals_subset h.built hg hs (Node.isUnit_of_unit hu)
  obtain ⟨g, hmem, hdrawn⟩ := exists_of_forall₂ (groups_drawn h.assembled h.built) hroot
  obtain ⟨ms, -, rfl⟩ := Site.group_eq_ok.mp hdrawn
  exact ⟨_, hmem, hsignals x hvalue _ (Selection.picked_mem_signals hpicks s)⟩

end Tree

namespace Compiler

variable {config : Config} {spec : Spec} {compiled : Compiled}

/-- Of whatever compiles: where a unit has a selection that picks records by their numbers, its mark
reads records that are numbered just if the unit keeps the numbers. It does unless it aggregates, and
neither the unit nor a facet around it has a column of this name. -/
theorem numbered_iff (h : (⟨.standard, config⟩ : Compiler).compile spec = .ok compiled) :
    ∃ t ds, (⟨.standard, config⟩ : Compiler).build spec = .ok (t, ds) ∧
      List.Forall₂ (fun r s => s.node.components.mark = [.unit r.1] ∧
          ∀ u, s.node.kind = .unit u → ∀ key d, u.selection.get? key = some d →
            d.type ≠ .interval → d.projects = false →
              (∃ x, s.node.components.selection.get? key = some x ∧
                x.PicksNumbers compiled.visualization) ∧
              (r.2 = true ↔ s.KeepsColumn Naming.identifier))
        (compiled.visualization.reads Naming.identifier)
        (t.parse .standard).tree.rootSite.units := by
  obtain ⟨t, ds, hb, hdrawn⟩ := drawnAs_of_compile h
  refine ⟨t, ds, hb, (forall₂_mem hdrawn.reads).imp ?_⟩
  rintro r s ⟨-, hs, hmark, hread⟩
  refine ⟨hmark, ?_⟩
  intro u hu key d hd htype hnone
  have hmem : s ∈ (t.parse .standard).tree.root.sites [] := (List.mem_filter.mp hs).1
  have hgathered : View.Fits Gathered [] (t.parse .standard).tree.root := by
    rw [Tree.parse_of_build hb]
    exact Tree.gathered_of_build hb .standard
  -- the selection itself asks for the numbers
  have hneeds : (t.parse .standard).tree.root.nodes.any Node.needsIdentifier = true := by
    refine List.any_eq_true.mpr ⟨s.node, View.mem_nodes_iff.mpr ⟨s, hmem, rfl⟩, ?_⟩
    rw [Node.needsIdentifier, Node.unit?, hu]
    exact List.any_eq_true.mpr ⟨d, Dict.mem_values_iff.mpr ⟨key, hd⟩, decide_eq_true htype⟩
  exact ⟨hdrawn.picksNumbers hgathered hmem hu hd htype hnone,
    hread.trans (and_iff_right hneeds)⟩

end Compiler

/-! ### Bars -/

/-- Bars of different heights for each kind, of which one can be picked. -/
def Spec.pickedBars (height : FieldDef) : Spec :=
  .unit ⟨⟨none, none, none, none⟩, ⟨none, none⟩, ⟨.bar, none⟩,
    .ofList [(.x, .field (nominal "kind")), (.y, .field height)],
    .ofList [("pick", ⟨.single, none, none, none⟩)]⟩

namespace Compiler

/-- A bar for each record is picked by the number of the record. -/
theorem numbered_pickedBars : ∃ compiled, standard.compile (.pickedBars { FieldDef.unset with
      field := some "height", type := some .quantitative }) = .ok compiled ∧
    ∃ r ∈ compiled.visualization.reads Naming.identifier, r.2 = true := by
  have hcompiles : (standard.compile (.pickedBars { FieldDef.unset with
      field := some "height", type := some .quantitative })).toOption.isSome = true := by
    decide +kernel
  have hpicks : (standard.build (.pickedBars { FieldDef.unset with
      field := some "height", type := some .quantitative })).toOption.any (fun r =>
        (r.1.parse .standard).tree.rootSite.units.any (fun s => !s.node.isAggregated &&
          s.node.unit?.any (fun u => (u.selection.get? "pick").any (fun d =>
            decide (d.type ≠ .interval ∧ d.projects = false))))) = true := by
    decide +kernel
  obtain ⟨compiled, hc⟩ := exists_ok_of_isSome hcompiles
  obtain ⟨⟨t, ds⟩, hb, hpicks⟩ := exists_ok_of_any hpicks
  obtain ⟨t', ds', hb', hreads⟩ := numbered_iff hc
  obtain ⟨rfl, rfl⟩ := Prod.mk.inj (Except.ok.inj (hb.symm.trans hb'))
  obtain ⟨s, hs, hpicks⟩ := List.any_eq_true.mp hpicks
  obtain ⟨hraw, hpicks⟩ := (Bool.and_eq_true _ _).mp hpicks
  obtain ⟨u, hu, hpicks⟩ := (Option.any_eq_true _ _).mp hpicks
  obtain ⟨d, hd, hpicks⟩ := (Option.any_eq_true _ _).mp hpicks
  obtain ⟨htype, hnone⟩ := of_decide_eq_true hpicks
  obtain ⟨r, hr, -, hall⟩ := exists_of_forall₂ hreads hs
  obtain ⟨-, hread⟩ := hall u (Node.kind_of_unit? hu) "pick" d hd htype hnone
  refine ⟨compiled, hc, r, hr, hread.mpr (fun hagg => ?_)⟩
  rw [hagg] at hraw
  cases hraw

/-- Bars that count records are made of aggregates, which have no numbers to pick them by. -/
theorem numbered_lost : ¬ ∀ spec compiled t ds, standard.compile spec = .ok compiled →
    standard.build spec = .ok (t, ds) →
      List.Forall₂ (fun r s => ∀ u, s.node.kind = .unit u → ∀ key d,
          u.selection.get? key = some d → d.type ≠ .interval → d.projects = false → r.2 = true)
        (compiled.visualization.reads Naming.identifier)
        (t.parse .standard).tree.rootSite.units := by
  intro hall
  have hbare : (standard.compile (.pickedBars { FieldDef.unset with
      type := some .quantitative, aggregate := some "count" })).toOption.any (fun c =>
        (c.visualization.reads Naming.identifier).all (fun r => !r.2)) = true := by
    decide +kernel
  have hpicks : (standard.build (.pickedBars { FieldDef.unset with
      type := some .quantitative, aggregate := some "count" })).toOption.any (fun r =>
        (r.1.parse .standard).tree.rootSite.units.any (fun s => s.node.unit?.any (fun u =>
          (u.selection.get? "pick").any (fun d =>
            decide (d.type ≠ .interval ∧ d.projects = false))))) = true := by
    decide +kernel
  obtain ⟨compiled, hc, hbare⟩ := exists_ok_of_any hbare
  obtain ⟨⟨t, ds⟩, hb, hpicks⟩ := exists_ok_of_any hpicks
  obtain ⟨s, hs, hpicks⟩ := List.any_eq_true.mp hpicks
  obtain ⟨u, hu, hpicks⟩ := (Option.any_eq_true _ _).mp hpicks
  obtain ⟨d, hd, hpicks⟩ := (Option.any_eq_true _ _).mp hpicks
  obtain ⟨htype, hnone⟩ := of_decide_eq_true hpicks
  obtain ⟨r, hr, hread⟩ := exists_of_forall₂ (hall _ compiled t ds hc hb) hs
  have hno := List.all_eq_true.mp hbare r hr
  rw [hread u (Node.kind_of_unit? hu) "pick" d hd htype hnone] at hno
  cases hno

end Compiler

end Trellis

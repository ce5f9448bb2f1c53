import Trellis.Proofs.Columns
import Trellis.Proofs.DatasetNames

/-! Aggregates: every column that a unit with an aggregate uses is one that its records are grouped
by, or one that is aggregated. -/
namespace Trellis

/-! ### The first of each key -/

/-- A list holds an element for each key of another list, all from there, and no key twice. -/
structure Firsts {α β : Type} (key : α → β) (xs kept : List α) : Prop where
  nodup : (kept.map key).Nodup
  subset : kept ⊆ xs
  keys : ∀ x ∈ xs, key x ∈ kept.map key

/-- What is added where its key is new are the first elements of all keys. -/
theorem foldl_firsts {α β : Type} {key : α → β} {next : List α → α → List α}
    (hold : ∀ kept a, key a ∈ kept.map key → next kept a = kept)
    (hnew : ∀ kept a, key a ∉ kept.map key → next kept a = kept ++ [a]) (xs : List α) :
    Firsts key xs (xs.foldl next []) := by
  -- from the end, so that the last element meets what is kept of all before it
  induction xs using List.reverseRecOn with
  | nil => exact ⟨List.nodup_nil, List.Subset.refl _, List.forall_mem_nil _⟩
  | append_singleton before a ih =>
    rw [List.foldl_append, List.foldl_cons, List.foldl_nil]
    generalize before.foldl next [] = kept at ih
    by_cases ha : key a ∈ kept.map key
    · rw [hold kept a ha]
      refine ⟨ih.nodup, fun x hx => List.mem_append_left _ (ih.subset hx), ?_⟩
      intro x hx
      rcases List.mem_append.mp hx with hx | hx
      · exact ih.keys x hx
      · exact List.mem_singleton.mp hx ▸ ha
    · rw [hnew kept a ha]
      refine ⟨?_, ?_, ?_⟩
      · rw [List.map_append, List.map_singleton, List.nodup_append']
        exact ⟨ih.nodup, List.nodup_singleton _, List.disjoint_singleton.mpr ha⟩
      · exact List.append_subset.mpr
          ⟨fun x hx => List.mem_append_left _ (ih.subset hx), List.subset_append_right _ _⟩
      · intro x hx
        rw [List.map_append]
        rcases List.mem_append.mp hx with hx | hx
        · exact List.mem_append_left _ (ih.keys x hx)
        · exact List.mem_append_right _ (List.mem_map_of_mem hx)

namespace Transform

/-- An aggregate in columns: the operation, the field and the output of one entry stand at the same
place. An output is named after both, with a star for the field where records are counted. -/
structure Tabulates (tr : Transform) (groupby ops : List String) (fields : List (Option String))
    (outputs : List String) : Prop where
  json : tr.toJson = .object [("type", .str "aggregate"), ("groupby", Json.strings groupby),
    ("ops", Json.strings ops), ("fields", .arr (fields.map (Json.ofOption .str))),
    ("as", Json.strings outputs)]
  fields_length : fields.length = ops.length
  outputs_length : outputs.length = ops.length
  named : ∀ (i : Nat) op field output, ops[i]? = some op → fields[i]? = some field →
    outputs[i]? = some output → output = op ++ "_" ++ field.getD "*" ∧ (field = none ↔ op = "count")
  outputs_nodup : outputs.Nodup
  groupby_nodup : groupby.Nodup

/-- The entry of an aggregate for a definition that asks for one. -/
def outputOf (f : FieldDef) : Option (String × Option String × String) :=
  f.aggregate.map (fun op => (op, if f.isCount then none else f.field, f.column))

theorem outputOf_named {f : FieldDef} (h : f.hasField = true) {op output : String}
    {field : Option String} (ho : outputOf f = some (op, field, output)) :
    output = op ++ "_" ++ field.getD "*" ∧ (field = none ↔ op = "count") := by
  obtain ⟨op', ha, he⟩ := Option.map_eq_some_iff.mp ho
  obtain ⟨rfl, hfield, rfl⟩ : op' = op ∧ _ ∧ _ := by simpa only [Prod.mk.injEq] using he
  obtain ⟨d, hd⟩ := FieldDef.exists_derivation h
  rw [FieldDef.column_eq hd]
  cases d with
  | count =>
    have hcount := FieldDef.derivation?_eq_count_iff.mp hd
    obtain rfl : op' = "count" := Option.some.inj (ha.symm.trans hcount)
    rw [if_pos (FieldDef.isCount_iff.mpr hcount)] at hfield
    subst hfield
    exact ⟨rfl, iff_of_true rfl rfl⟩
  | aggregate op field' =>
    obtain ⟨hop, hne, hf⟩ := FieldDef.derivation?_eq_aggregate_iff.mp hd
    obtain rfl : op' = op := Option.some.inj (ha.symm.trans hop)
    have hcount : ¬ f.isCount = true := fun hc =>
      hne (Option.some.inj (ha.symm.trans (FieldDef.isCount_iff.mp hc)))
    rw [if_neg hcount, hf] at hfield
    subst hfield
    exact ⟨rfl, iff_of_false (by simp) hne⟩
  | timeUnit unit field' =>
    rw [(FieldDef.derivation?_eq_timeUnit_iff.mp hd).1] at ha
    cases ha
  | raw field' =>
    rw [(FieldDef.derivation?_eq_raw_iff.mp hd).1] at ha
    cases ha

/-- Names that are told apart by themselves. -/
theorem firsts_names (names : List String) : Firsts id names
    (names.foldl (fun kept g => if kept.contains g then kept else kept ++ [g]) []) := by
  refine foldl_firsts ?_ ?_ names
  · intro kept g hg
    rw [List.map_id] at hg
    exact if_pos (List.contains_iff_mem.mpr hg)
  · intro kept g hg
    rw [List.map_id] at hg
    exact if_neg (fun hc => hg (List.contains_iff_mem.mp hc))

/-- Entries that are told apart by their outputs. -/
theorem firsts_outputs (entries : List (String × Option String × String)) :
    Firsts (fun o => o.2.2) entries (entries.foldl (fun kept o =>
      if kept.any (fun k => k.2.2 == o.2.2) then kept else kept ++ [o]) []) := by
  have hany (kept : List (String × Option String × String)) (o : String × Option String × String) :
      kept.any (fun k => k.2.2 == o.2.2) = true ↔ o.2.2 ∈ kept.map (fun k => k.2.2) := by
    rw [List.any_eq_true, List.mem_map]
    simp only [beq_iff_eq]
  refine foldl_firsts ?_ ?_ entries
  · intro kept o ho
    exact if_pos ((hany kept o).mpr ho)
  · intro kept o ho
    exact if_neg (fun hc => ho ((hany kept o).mp hc))

/-- The aggregate of a unit has no column twice among those that it groups by, nor among its outputs.
The former are those that are not aggregated and the keys around it, the latter are all else. -/
theorem ofUnit_eq_aggregate (u : UnitView) (keys : List String) : ∃ groupby entries,
    ofUnit u keys = .aggregate groupby entries ∧ groupby.Nodup ∧
      (entries.map (fun o => o.2.2)).Nodup ∧
      (∀ o ∈ entries, ∃ f ∈ u.fieldDefs, outputOf f = some o) ∧
      (∀ column, column ∈ groupby ↔
        (∃ f ∈ u.fieldDefs, f.aggregate = none ∧ f.column = column) ∨ column ∈ keys) ∧
      ∀ column, column ∈ entries.map (fun o => o.2.2) ↔
        ∃ f ∈ u.fieldDefs, f.aggregate.isSome = true ∧ f.column = column := by
  let groups := (u.fieldDefs.filter (fun f => f.aggregate.isNone)).map FieldDef.column ++ keys
  let asked := u.fieldDefs.filterMap outputOf
  let groupby := groups.foldl (fun kept g => if kept.contains g then kept else kept ++ [g]) []
  let entries := asked.foldl (fun kept o =>
    if kept.any (fun k => k.2.2 == o.2.2) then kept else kept ++ [o]) []
  have hgroups : Firsts id groups groupby := firsts_names groups
  have honce : Firsts (fun o => o.2.2) asked entries := firsts_outputs asked
  have hentry : ∀ o ∈ entries, ∃ f ∈ u.fieldDefs, outputOf f = some o := fun o ho =>
    List.mem_filterMap.mp (honce.subset ho)
  refine ⟨groupby, entries, rfl, ?groups, honce.nodup, hentry, ?grouped, ?aggregated⟩
  case groups =>
    rw [← List.map_id groupby]
    exact hgroups.nodup
  case grouped =>
    intro column
    have hmem : column ∈ groupby ↔ column ∈ groups := by
      constructor
      · exact fun h => hgroups.subset h
      · intro h
        have hkey := hgroups.keys column h
        rwa [List.map_id] at hkey
    rw [hmem, List.mem_append, List.mem_map]
    simp only [List.mem_filter, Option.isNone_iff_eq_none, and_assoc]
  case aggregated =>
    intro column
    constructor
    · intro h
      obtain ⟨o, ho, rfl⟩ := List.mem_map.mp h
      obtain ⟨f, hf, hout⟩ := hentry o ho
      obtain ⟨op, ha, rfl⟩ := Option.map_eq_some_iff.mp hout
      exact ⟨f, hf, by rw [ha]; rfl, rfl⟩
    · rintro ⟨f, hf, ha, rfl⟩
      obtain ⟨op, ha⟩ := Option.isSome_iff_exists.mp ha
      have hout : outputOf f = some (op, if f.isCount then none else f.field, f.column) := by
        rw [outputOf, ha, Option.map_some]
      exact honce.keys _ (List.mem_filterMap.mpr ⟨f, hf, hout⟩)

/-- The aggregate of a unit groups by what is not aggregated and by the keys around it, and has an
output for all else. -/
theorem ofUnit_tabulates {u : UnitView} (hu : ∀ f ∈ u.fieldDefs, f.hasField = true)
    (keys : List String) : ∃ groupby ops fields outputs,
      (ofUnit u keys).Tabulates groupby ops fields outputs ∧
      (∀ column, column ∈ groupby ↔
        (∃ f ∈ u.fieldDefs, f.aggregate = none ∧ f.column = column) ∨ column ∈ keys) ∧
      ∀ column, column ∈ outputs ↔
        ∃ f ∈ u.fieldDefs, f.aggregate.isSome = true ∧ f.column = column := by
  obtain ⟨groupby, entries, htransform, hgroups, honce, hentry, hgrouped, haggregated⟩ :=
    ofUnit_eq_aggregate u keys
  refine ⟨groupby, entries.map Prod.fst, entries.map (fun o => o.2.1),
    entries.map (fun o => o.2.2), ⟨?json, ?fields, ?outputs, ?named, honce, hgroups⟩, hgrouped,
    haggregated⟩
  case json =>
    rw [htransform, List.map_map]
    rfl
  case fields => rw [List.length_map, List.length_map]
  case outputs => rw [List.length_map, List.length_map]
  case named =>
    -- an entry is read off the definition that it comes from
    intro i op field output hop hfield houtput
    rw [List.getElem?_map] at hop hfield houtput
    obtain ⟨o, ho, rfl⟩ := Option.map_eq_some_iff.mp hop
    rw [ho] at hfield houtput
    obtain rfl := Option.some.inj hfield
    obtain rfl := Option.some.inj houtput
    obtain ⟨f, hf, hout⟩ := hentry o (List.mem_of_getElem? ho)
    exact outputOf_named (hu f hf) hout

end Transform

/-! ### What a unit reads -/

/-- The expression whose value a label shows. -/
def Label.value : Label → String
  | number value _ | time value _ | plain value => value

theorem FieldDef.label_value (f : FieldDef) (format : Option String) (scope : Scope)
    (config : Config) : (f.label format scope config).value = accessor scope.name f.column := by
  unfold label
  cases f.measure <;> rfl

/-- A visual property reads no other columns than these, through a scale or in a label on the record
at hand. -/
def EncodeValue.ReadsIn (columns : List String) : EncodeValue → Prop
  | scaled _ column => column ∈ columns
  | signal expression => ∃ label : Label, expression = label.expression ∧
      ∃ column ∈ columns, label.value = accessor Scope.datum.name column
  | constant _ | band _ | baseline _ | groupSize _ | groupMiddle _ => True

/-- The mark of a unit reads no other columns than these, in its visual properties or to tell its
series apart. -/
structure UnitMark.ReadsIn (columns : List String) (m : UnitMark) : Prop where
  update : m.update.Every (EncodeValue.ReadsIn columns)
  series : ∀ series, m.series = some series → series.groupby ⊆ columns

theorem Encode.Shows.readsIn {s : Site} {config : Config} {u : UnitView} {value : EncodeValue}
    (h : Encode.Shows s config u value) {columns : List String}
    (hu : ∀ f ∈ u.fieldDefs, f.column ∈ columns) : value.ReadsIn columns := by
  cases h with
  | scaled hc hshown hf => exact hu _ (UnitView.mem_fieldDefs.mpr ⟨_, hf⟩)
  | label hf =>
    exact ⟨_, rfl, _, hu _ (UnitView.mem_fieldDefs.mpr ⟨_, hf⟩), FieldDef.label_value _ _ _ _⟩
  | _ => trivial

/-- Series are told apart by columns that the unit shows. -/
theorem UnitView.exists_of_mem_seriesColumns {u : UnitView} {column : String}
    (h : column ∈ u.seriesColumns) : ∃ f ∈ u.fieldDefs, f.column = column := by
  have hshown : ∀ f ∈ [Channel.color, .detail].filterMap u.fieldDef?, f ∈ u.fieldDefs := by
    intro f hf
    obtain ⟨c, -, hc⟩ := List.mem_filterMap.mp hf
    exact UnitView.mem_fieldDefs.mpr ⟨c, hc⟩
  let known (columns : List String) : Prop := ∀ column ∈ columns, ∃ f ∈ u.fieldDefs,
    f.column = column
  have hall : known u.seriesColumns := by
    apply List.foldlRecOn (motive := known) _ _ (List.forall_mem_nil _)
    intro kept hkept f hf
    split
    · exact hkept
    · intro column hcolumn
      rcases List.mem_append.mp hcolumn with hcolumn | hcolumn
      · exact hkept column hcolumn
      · exact ⟨f, hshown f hf, (List.mem_singleton.mp hcolumn).symm⟩
  exact hall column h

/-- The mark that is made of a unit reads the columns that the unit shows. -/
theorem Made.readsIn {s : Site} {u : UnitView} (h : Made s s.node.components)
    (hk : s.node.kind = .unit u) {columns : List String}
    (hu : ∀ f ∈ u.fieldDefs, f.column ∈ columns) :
    ∃ m, s.node.components.mark = [.unit m] ∧ m.ReadsIn columns := by
  unfold Made at h
  rw [hk] at h
  obtain ⟨origin, config, source, -, hmark⟩ := h
  refine ⟨_, hmark, ?_, ?_⟩
  · intro value hvalue
    exact (Encode.entry_shows origin config u value hvalue).readsIn hu
  · intro series hseries column hcolumn
    rw [(UnitMark.ofUnit_series hseries).2] at hcolumn
    obtain ⟨f, hf, rfl⟩ := UnitView.exists_of_mem_seriesColumns hcolumn
    exact hu f hf

/-- The scales that a unit asks for read the columns that it shows, in its own records. -/
theorem Site.ownScale_reads {s : Site} {config : Config} {c : Channel} {scale : Scale}
    (h : s.ownScale config c = some scale) {r : DataRef} (hr : r ∈ scale.domain.refs) :
    r.data = s.node.data.input ∧ ∃ f ∈ s.node.fieldDefs, f.column = r.field := by
  obtain ⟨u, hunit, h⟩ := Option.bind_eq_some_iff.mp h
  obtain ⟨f, hf, -⟩ := Option.map_eq_some_iff.mp h
  obtain ⟨own, hown, hdom⟩ : ∃ own, Scale.ofUnit? s config u s.node.data.input c = some own ∧ _ :=
    Scale.ofUnit?_domain hf
  obtain rfl : own = scale := Option.some.inj (hown.symm.trans h)
  rw [Node.fieldDefs_unit (Node.kind_of_unit? hunit)]
  rw [hdom] at hr
  split at hr
  · cases hr
  · rw [Scale.domainRefs_eq hf] at hr
    obtain ⟨g, hg, rfl⟩ := List.mem_map.mp (List.mem_eraseDups.mp hr)
    refine ⟨rfl, g, UnitView.mem_fieldDefs.mpr ?_, rfl⟩
    -- a column is shown on the channel itself or on the far end of it
    rcases List.mem_append.mp hg with hnear | hfar
    · exact ⟨c, Option.mem_toList.mp hnear⟩
    · obtain ⟨far, -, hfar⟩ := Option.bind_eq_some_iff.mp (Option.mem_toList.mp hfar)
      exact ⟨far, hfar⟩

/-! ### The aggregates of a tree -/

/-- The definitions that a unit's records are grouped by: those of its own that are not aggregated,
and the keys of all facets around it. -/
def Site.Groups (s : Site) (f : FieldDef) : Prop :=
  (f.aggregate = none ∧ f ∈ s.node.fieldDefs) ∨ ∃ n ∈ s.facetAncestors, f ∈ n.fieldDefs

/-- What a unit is grouped by stands in the unit or in a facet around it. -/
theorem Site.Groups.exists_node {v : View} {s : Site} {f : FieldDef} (h : s.Groups f)
    (hs : s ∈ v.sites []) : ∃ n ∈ v.nodes, f ∈ n.fieldDefs := by
  rcases h with ⟨-, hf⟩ | ⟨n, hn, hf⟩
  · exact ⟨s.node, View.mem_nodes_iff.mpr ⟨s, hs, rfl⟩, hf⟩
  · exact ⟨n, View.mem_nodes_of_mem_facetAncestors hs hn, hf⟩

/-- A unit in a visualization whose aggregate has the columns that it uses. -/
structure Site.AggregatedBy (s : Site) (v : Visualization) (config : Config) (main : Dataset)
    (tr : Transform) (groupby outputs : List String) : Prop where
  /-- The aggregate outside all cells. -/
  outside : .derived (Naming.aggregate s.node.name) Naming.main [tr] ∈ v.data
  /-- The same aggregate of the records of the nearest facet's cells, if there is a facet. -/
  inside : s.node.data.cellSources = s.facetAncestor?.toList.map (fun n =>
    .derived (Naming.cellAggregate s.node.name) n.cellData [tr])
  drawn : ∀ n, s.facetAncestor? = some n → ∃ cell ∈ v.group.cells,
    cell.mark.root.name = n.cellData ∧ s.node.data.cellSources ⊆ cell.data
  groups : ∀ column, column ∈ groupby ↔ ∃ f, s.Groups f ∧ f.column = column
  aggregated : ∀ column, column ∈ outputs ↔
    ∃ f ∈ s.node.fieldDefs, f.aggregate.isSome = true ∧ f.column = column
  keys : ∀ n ∈ s.facetAncestors, ∀ c f, n.fieldDef? c = some f → f.column ∈ groupby
  timeUnits : ∀ f, s.Groups f → ∀ unit field, f.derivation? = some (.timeUnit unit field) →
    main.Computes f.column
  mark : ∃ m, s.node.components.mark = [.unit m] ∧ m.ReadsIn (groupby ++ outputs)
  scales : ∀ c scale, s.ownScale config c = some scale → ∀ r ∈ scale.domain.refs,
    r.data = Naming.aggregate s.node.name ∧ r.field ∈ groupby ++ outputs

section

variable {s : Site} {u : UnitView}

/-- What a unit with an aggregate asks for: the aggregate outside all cells, and the same one within
the cells of the nearest facet. -/
theorem parse_aggregated (input : Option DataDef) (hk : s.node.kind = .unit u)
    (ha : u.isAggregate = true) :
    .derived (Naming.aggregate s.node.name) Naming.main
        [Transform.ofUnit u (s.facetAncestors.flatMap Node.facetColumns)] ∈
      (Pipeline.standard.parse input s).sources ∧
    (Pipeline.standard.parse input s).cellSources = s.facetAncestor?.toList.map (fun n =>
      .derived (Naming.cellAggregate s.node.name) n.cellData
        [Transform.ofUnit u (s.facetAncestors.flatMap Node.facetColumns)]) := by
  have hunit : DataComponent.ofKind s = DataComponent.ofUnit s u := by
    unfold DataComponent.ofKind
    rw [hk]
  rw [parse_eq, hunit]
  unfold DataComponent.ofUnit DataComponent.cell?
  rw [ha]
  cases s.facetAncestor? with
  | none => exact ⟨List.mem_append_right _ (List.mem_singleton_self _), rfl⟩
  | some n => exact ⟨List.mem_append_right _ (List.mem_singleton_self _), rfl⟩

/-- The keys that a unit is grouped by are those of the facets around it. -/
theorem mem_facetColumns {column : String} :
    column ∈ s.facetAncestors.flatMap Node.facetColumns ↔
      ∃ f, (∃ n ∈ s.facetAncestors, f ∈ n.fieldDefs) ∧ f.column = column := by
  have hown : ∀ n ∈ s.facetAncestors, n.facetColumns = n.fieldDefs.map FieldDef.column := by
    intro n hn
    obtain ⟨g, hg⟩ := Option.isSome_iff_exists.mp (List.mem_filter.mp hn).2
    rw [Node.facetColumns, hg, Node.fieldDefs_facet hg]
    rfl
  rw [List.mem_flatMap]
  constructor
  · rintro ⟨n, hn, hcolumn⟩
    rw [hown n hn] at hcolumn
    obtain ⟨f, hf, rfl⟩ := List.mem_map.mp hcolumn
    exact ⟨f, ⟨n, hn, hf⟩, rfl⟩
  · rintro ⟨f, ⟨n, hn, hf⟩, rfl⟩
    refine ⟨n, hn, ?_⟩
    rw [hown n hn]
    exact List.mem_map_of_mem hf

end

namespace Tree

variable {whole spec : Spec} {config : Config} {t : Tree} {ds : List Diagnostic} {v : Visualization}

/-- A unit with an aggregate, in a tree that is drawn. -/
theorem DrawnAs.aggregatedBy (h : t.DrawnAs whole v) (config : Config) {s : Site}
    (hs : s ∈ t.rootSite.units) (hagg : s.node.isAggregated = true) :
    ∃ tr groupby ops fields outputs, tr.Tabulates groupby ops fields outputs ∧
      s.AggregatedBy v config t.root.mainData tr groupby outputs := by
  obtain ⟨hs, hunit⟩ := List.mem_filter.mp hs
  obtain ⟨u, hk⟩ := Node.kind_of_isUnit hunit
  have hnode : s.node ∈ t.root.nodes := View.mem_nodes_iff.mpr ⟨s, hs, rfl⟩
  have hown : s.node.fieldDefs = u.fieldDefs := Node.fieldDefs_unit hk
  obtain ⟨groupby, ops, fields, outputs, htable, hgroups, houtputs⟩ :=
    Transform.ofUnit_tabulates (hown ▸ (h.bound s.node hnode).hasField)
      (s.facetAncestors.flatMap Node.facetColumns)
  obtain ⟨houter, hinner⟩ :=
    parse_aggregated t.data hk ((Node.isAggregated_unit hk).symm.trans hagg)
  have hd := h.described s hs
  rw [← hd.data_eq] at houter hinner
  have hcolumns : ∀ column, column ∈ groupby ↔ ∃ f, s.Groups f ∧ f.column = column := by
    intro column
    rw [hgroups, mem_facetColumns, ← hown]
    unfold Site.Groups
    constructor
    · rintro (⟨f, hf, hnone, rfl⟩ | ⟨f, hf, rfl⟩)
      · exact ⟨f, .inl ⟨hnone, hf⟩, rfl⟩
      · exact ⟨f, .inr hf, rfl⟩
    · rintro ⟨f, ⟨hnone, hf⟩ | hf, rfl⟩
      · exact .inl ⟨f, hf, hnone, rfl⟩
      · exact .inr ⟨f, hf, rfl⟩
  -- a definition of the unit is grouped by, or it is aggregated
  have hcovers : ∀ f ∈ u.fieldDefs, f.column ∈ groupby ++ outputs := by
    intro f hf
    cases hfa : f.aggregate with
    | none => exact List.mem_append_left _ ((hgroups _).mpr (.inl ⟨f, hf, hfa, rfl⟩))
    | some op =>
      exact List.mem_append_right _ ((houtputs _).mpr ⟨f, hf, by rw [hfa]; rfl, rfl⟩)
  refine ⟨_, groupby, ops, fields, outputs, htable, ?_⟩
  constructor
  case outside => exact h.mem_data hnode houter
  case inside => exact hinner
  case drawn =>
    intro n hn
    obtain ⟨q, hq, rfl, hopen⟩ := View.exists_facet_around h.built h.names hs hunit hn
    obtain ⟨cell, hcell, hdraws⟩ := exists_of_forall₂ h.cells hq
    refine ⟨cell, hcell, View.root_of_draws h.ready hq hdraws, ?_⟩
    rw [View.data_of_draws h.ready hq hdraws]
    exact fun d hd => List.mem_flatMap.mpr ⟨s.node, hopen, hd⟩
  case groups => exact hcolumns
  case aggregated => exact hown ▸ houtputs
  case keys =>
    intro n hn c f hf
    obtain ⟨g, hg⟩ := Option.isSome_iff_exists.mp (List.mem_filter.mp hn).2
    have hmem : f ∈ n.fieldDefs := by
      have hbound := h.bound n (View.mem_nodes_of_mem_facetAncestors hs hn)
      refine (hbound.mem_fieldDefs hg).mpr ⟨c, ?_⟩
      rwa [Node.fieldDef?, Node.kind_of_facet? hg] at hf
    exact (hcolumns _).mpr ⟨f, .inr ⟨n, hn, hmem⟩, rfl⟩
  case timeUnits =>
    intro f hf unit field hderived
    -- `main` computes the time units of all nodes, so those of the facets around as well
    obtain ⟨n, hn, hnf⟩ := hf.exists_node hs
    exact View.mainData_computes_iff.mpr ⟨n, hn, f, hnf, unit, field, hderived, rfl⟩
  case mark => exact (h.made s hs).readsIn hk hcovers
  case scales =>
    intro c scale hscale r hr
    obtain ⟨hread, f, hf, hfield⟩ := Site.ownScale_reads hscale hr
    have hraw : s.node.data.input = Naming.aggregate s.node.name := by
      rw [hd.data_eq, parse_input_unit hunit, Node.rawData, if_pos hagg]
    exact ⟨hread.trans hraw, hfield ▸ hcovers f (hown ▸ hf)⟩

/-- On every tree, a unit with an aggregate has that same aggregate outside all cells and in those of
the nearest facet. It has just the entries that the unit asks for, is grouped by the keys of all
facets around the unit, and has every column that the unit's mark and scales read. The time units
among these are computed in `main`. -/
theorem aggregates_of_build (h : Tree.build spec config = .ok (t, ds)) :
    ∃ v, (t.parse .standard).tree.assemble .standard = .ok v ∧
      ∃ main ∈ v.data, main.name = Naming.main ∧
        ∀ s ∈ (t.parse .standard).tree.rootSite.units, s.node.isAggregated = true →
          ∃ tr groupby ops fields outputs, tr.Tabulates groupby ops fields outputs ∧
            s.AggregatedBy v config main tr groupby outputs := by
  have hdrawn := drawnAs_of_build h
  exact ⟨_, hdrawn.assembled, _, hdrawn.mainData_mem, rfl,
    fun s hs hagg => hdrawn.aggregatedBy config hs hagg⟩

end Tree

/-! ### Counts of months -/

/-- In a row for each year, the number of records of each month and kind. -/
def Spec.countsByMonth : Spec :=
  let date (unit : String) : FieldDef :=
    { FieldDef.unset with field := some "date", type := some .temporal, timeUnit := some unit }
  let count : FieldDef :=
    { FieldDef.unset with type := some .quantitative, aggregate := some "count" }
  .facet ⟨⟨none, none, none, none⟩, .ofList [(.row, date "year")], .empty⟩
    (.unit ⟨⟨none, none, none, none⟩, ⟨none, none⟩, ⟨.bar, none⟩,
      .ofList [(.x, .field (date "month")), (.y, .field count), (.color, .field (nominal "kind"))],
      .empty⟩)

theorem Tree.aggregates_countsByMonth : ∃ t ds,
    Tree.build .countsByMonth .default = .ok (t, ds) ∧
      ∃ v, (t.parse .standard).tree.assemble .standard = .ok v ∧ ∃ main ∈ v.data,
        ∃ s ∈ (t.parse .standard).tree.rootSite.units, s.facetAncestors.length = 1 ∧
          ∃ tr groupby ops fields outputs, tr.Tabulates groupby ops fields outputs ∧
            s.AggregatedBy v .default main tr groupby outputs := by
  have hfound : (Tree.build .countsByMonth .default).toOption.any (fun r =>
      (r.1.parse .standard).tree.rootSite.units.any (fun s =>
        s.node.isAggregated && s.facetAncestors.length == 1)) = true := by
    decide +kernel
  obtain ⟨⟨t, ds⟩, hb, hfound⟩ := exists_ok_of_any hfound
  obtain ⟨s, hs, hfound⟩ := List.any_eq_true.mp hfound
  obtain ⟨hagg, hrow⟩ := (Bool.and_eq_true _ _).mp hfound
  obtain ⟨v, hv, main, hmain, -, hall⟩ := aggregates_of_build hb
  exact ⟨t, ds, hb, v, hv, main, hmain, s, hs, beq_iff_eq.mp hrow, hall s hs hagg⟩

end Trellis

import Mathlib.Data.List.Perm.Basic
import Trellis.Proofs.Declared
import Trellis.Proofs.Drawn

/-! The names of signals. Those of a selection are its name and a word behind it: a word for each
purpose, where no two agree, and the text of each brushed field, which may be any word. -/
namespace Trellis

theorem Channel.name_injective : Function.Injective Channel.name := by
  intro a b
  cases a <;> cases b <;> decide

theorem Channel.no_separator (c : Channel) : '_' ∉ c.name.toList := by
  cases c <;> decide

/-- What every selection of a type has a signal for. -/
def SelectionType.changes : SelectionType → List String
  | .multi => ["tuple", "toggle", "modify"]
  | .single | .interval => ["tuple", "modify"]

namespace Selection

/-- A signal of a selection: its name and a word behind it. -/
def signalName (x : Selection) (word : String) : String := x.name ++ "_" ++ word

/-- What a selection brushes, which only extents do. -/
def brushing (x : Selection) : List (Channel × String) :=
  match x.type with
  | .interval => x.brushed
  | .single | .multi => []

/-- What the signals of a selection are for, apart from the brushed fields: the pixels of each
brushed channel, the tuple, and the changes. -/
def purposes (x : Selection) : List String :=
  x.brushing.map (fun e => e.1.name) ++ x.type.changes

/-- The names of the signals that have a purpose. -/
def purposeSignals (x : Selection) : List String := x.purposes.map x.signalName

/-- The names of the signals of the brushed fields. -/
def fieldSignals (x : Selection) : List String := x.brushing.map (fun e => x.fieldSignal e.2)

theorem tuple_eq (x : Selection) : Naming.tuple x.name = x.signalName "tuple" := by
  rw [signalName, String.append_assoc]
  rfl

theorem toggle_eq (x : Selection) : Naming.toggle x.name = x.signalName "toggle" := by
  rw [signalName, String.append_assoc]
  rfl

theorem modify_eq (x : Selection) : Naming.modify x.name = x.signalName "modify" := by
  rw [signalName, String.append_assoc]
  rfl

theorem intervalSignals_names (x : Selection) (s : Site) :
    ((x.intervalSignals s).map Signal.name).Perm
      ((x.brushed.map (fun e => e.1.name) ++ ["tuple", "modify"]).map x.signalName ++
        x.brushed.map (fun e => x.fieldSignal e.2)) := by
  have heach : (x.intervalSignals s).map Signal.name =
      x.brushed.flatMap (fun e => [x.signalName e.1.name, x.fieldSignal e.2]) ++
        [x.signalName "tuple", x.signalName "modify"] := by
    unfold intervalSignals
    rw [List.map_append, List.map_flatMap, ← tuple_eq, ← modify_eq]
    rfl
  have hfields : x.brushed.map (fun e => x.fieldSignal e.2) =
      x.brushed.flatMap (fun e => [x.fieldSignal e.2]) := List.map_eq_flatMap
  -- the signals of a channel and of its field stand side by side
  have hsplit : (x.brushed.flatMap (fun e => [x.signalName e.1.name, x.fieldSignal e.2])).Perm
      (x.brushed.map (fun e => x.signalName e.1.name) ++
        x.brushed.map (fun e => x.fieldSignal e.2)) := by
    rw [hfields]
    exact (List.map_append_flatMap_perm _ _ _).symm
  rw [heach, List.map_append, List.map_map, List.append_assoc]
  refine (hsplit.append_right _).trans ?_
  rw [List.append_assoc]
  exact List.perm_append_comm.append_left _

theorem pointSignals_names {x : Selection} (h : x.type ≠ .interval) :
    x.pointSignals.map Signal.name = x.type.changes.map x.signalName := by
  unfold pointSignals
  cases hx : x.type with
  | interval => exact absurd hx h
  | multi =>
    have hnames : [Naming.tuple x.name, Naming.toggle x.name, Naming.modify x.name] =
        SelectionType.multi.changes.map x.signalName := by
      rw [tuple_eq, toggle_eq, modify_eq]
      rfl
    exact hnames
  | single =>
    have hnames : [Naming.tuple x.name, Naming.modify x.name] =
        SelectionType.single.changes.map x.signalName := by
      rw [tuple_eq, modify_eq]
      rfl
    exact hnames

/-- All signals of a selection, but for their order. -/
theorem signals_names (x : Selection) (s : Site) :
    ((x.signals s).map Signal.name).Perm (x.purposeSignals ++ x.fieldSignals) := by
  unfold signals purposeSignals purposes fieldSignals brushing
  cases hx : x.type with
  | interval => exact intervalSignals_names x s
  | multi =>
    have hpoint := pointSignals_names (x := x) (by rw [hx]; decide)
    rw [hx] at hpoint
    exact List.Perm.of_eq (hpoint.trans (List.append_nil _).symm)
  | single =>
    have hpoint := pointSignals_names (x := x) (by rw [hx]; decide)
    rw [hx] at hpoint
    exact List.Perm.of_eq (hpoint.trans (List.append_nil _).symm)

/-- No word for a purpose has a separator. -/
theorem no_separator_of_purpose {x : Selection} {word : String} (h : word ∈ x.purposes) :
    '_' ∉ word.toList := by
  have hchange (t : SelectionType) : ∀ w ∈ t.changes, '_' ∉ w.toList := by
    cases t <;> decide
  rcases List.mem_append.mp h with hpixels | hrest
  · obtain ⟨e, -, rfl⟩ := List.mem_map.mp hpixels
    exact e.1.no_separator
  · exact hchange x.type word hrest

/-- Signals with a purpose agree only for selections of one name, and then for one purpose. -/
theorem signalName_inj {x y : Selection} {word other : String} (hw : word ∈ x.purposes)
    (ho : other ∈ y.purposes) (h : x.signalName word = y.signalName other) :
    x.name = y.name ∧ word = other :=
  Naming.separated_inj (no_separator_of_purpose hw) (no_separator_of_purpose ho) h

section

variable {fieldDef : Channel → Option FieldDef} {x : Selection}

/-- No channel is brushed twice: each leads to one field, and no field is recorded twice. -/
theorem brushed_nodup (h : Projection.Faithful fieldDef x.project) :
    (x.brushed.map Prod.fst).Nodup := by
  have hfields : x.project.Pairwise (fun p q => p.field ≠ q.field) := List.pairwise_map.mp h.nodup
  have hchannels : x.project.Pairwise (fun p q => ∀ c, p.channel = some c → q.channel ≠ some c) := by
    refine hfields.imp_of_mem ?_
    intro p q hp hq hne c hpc hqc
    obtain ⟨f, hf, hpf⟩ := h.leads p hp c hpc
    obtain ⟨g, hg, hqg⟩ := h.leads q hq c hqc
    obtain rfl : f = g := Option.some.inj (hf.symm.trans hg)
    exact hne (hpf.trans hqg.symm)
  unfold brushed
  rw [List.Nodup, List.pairwise_map]
  refine List.Pairwise.filterMap _ ?_ hchannels
  intro p q hpq e he e' he' hsame
  -- a record is brushed along the channel that it would be brushed along if it were the only one
  have hchannel {r : Projected} {d : Channel × String}
      (hd : d ∈ brushed { x with project := [r] }) : r.channel = some d.1 := by
    obtain ⟨-, r', hr, hc, -⟩ := mem_brushed hd
    rw [← List.mem_singleton.mp hr]
    exact hc
  have hp : p.channel = some e.1 :=
    hchannel (List.mem_filterMap.mpr ⟨p, List.mem_singleton_self p, he⟩)
  have hq : q.channel = some e'.1 :=
    hchannel (List.mem_filterMap.mpr ⟨q, List.mem_singleton_self q, he'⟩)
  exact hpq e.1 hp (hsame ▸ hq)

/-- A selection has one signal for each purpose. -/
theorem purposes_nodup (h : Projection.Faithful fieldDef x.project) : x.purposes.Nodup := by
  have hpixels : (x.brushing.map (fun e => e.1.name)).Nodup := by
    unfold brushing
    cases x.type with
    | interval =>
      have hmap := List.Nodup.map Channel.name_injective (brushed_nodup h)
      rwa [List.map_map] at hmap
    | _ => exact List.nodup_nil
  have hchange (t : SelectionType) : t.changes.Nodup := by
    cases t <;> decide
  have hdisjoint (c : Channel) (t : SelectionType) : c.name ∉ t.changes := by
    cases t <;> cases c <;> decide
  refine List.nodup_append'.mpr ⟨hpixels, hchange x.type, ?_⟩
  intro word hword hrest
  obtain ⟨e, -, rfl⟩ := List.mem_map.mp hword
  exact hdisjoint e.1 x.type hrest

end

end Selection

namespace Node

/-- A declared selection has the name of its unit, and records a projection of what that shows. -/
theorem of_mem_declared {n : Node} {x : Selection} (h : x ∈ n.declared.values) :
    x.unit = n.name ∧ ∃ fieldDef, Projection.Faithful fieldDef x.project := by
  obtain ⟨key, hkey⟩ := Dict.mem_values_iff.mp h
  obtain ⟨u, d, -, -, rfl⟩ := of_get?_declared hkey
  exact ⟨rfl, u.fieldDef?, Selection.ofDef_faithful _ _ _ d⟩

end Node

namespace View

variable {whole : Spec} {A : List Node} {v : View}

/-! ### Selections of a group -/

/-- The selections that the units in a view's group declare. -/
def groupSelections (v : View) : List Selection :=
  v.openUnits.flatMap (fun n => n.declared.values)

/-- The signals with a purpose in a view's group. -/
def purposeSignals (v : View) : List String := v.groupSelections.flatMap Selection.purposeSignals

/-- The signals of brushed fields in a view's group. -/
def fieldSignals (v : View) : List String := v.groupSelections.flatMap Selection.fieldSignals

@[simp] theorem groupSelections_updateAll (g : Components → Components) (v : View) :
    (v.updateAll g).groupSelections = v.groupSelections := by
  unfold groupSelections
  rw [openUnits_updateAll, List.flatMap_map]
  rfl

@[simp] theorem purposeSignals_updateAll (g : Components → Components) (v : View) :
    (v.updateAll g).purposeSignals = v.purposeSignals := by
  rw [purposeSignals, groupSelections_updateAll, purposeSignals]

@[simp] theorem fieldSignals_updateAll (g : Components → Components) (v : View) :
    (v.updateAll g).fieldSignals = v.fieldSignals := by
  rw [fieldSignals, groupSelections_updateAll, fieldSignals]

/-- The units in a view's group are those that no facet in between encloses. -/
theorem groupSites_units (hb : Fits (fun s _ => s.Built whole) A v) :
    ((v.groupSites A).filter (fun m => m.node.isUnit)).map Site.node = v.openUnits := by
  induction v using induct generalizing A with
  | h n cs ih =>
    obtain ⟨hself, hin⟩ := fits_mk_iff.mp hb
    have hnode : Site.node ⟨A, mk n cs⟩ = n := rfl
    have hunder : ((groupSitesIn (n :: A) cs).filter (fun m => m.node.isUnit)).map Site.node =
        openUnitsIn cs := by
      rw [groupSitesIn_eq, openUnitsIn_eq, List.filter_flatMap, List.map_flatMap]
      exact List.flatMap_congr (fun c hc => ih c hc (hin c hc))
    rw [groupSites, openUnits, List.filter_cons, hnode]
    cases hk : n.kind with
    | unit u =>
      obtain rfl : cs = [] := hself.unit_leaf (Node.isUnit_of_unit hk)
      rw [Node.isUnit_of_unit hk, if_pos rfl, if_pos rfl, groupSitesIn, ite_self]
      rfl
    | layer size =>
      rw [Node.not_unit_of_layer hk, Node.not_facet_of_layer hk, Node.isLayer_of_layer hk]
      exact hunder
    | facet f =>
      rw [Node.not_unit_of_facet hk, Node.isFacet_of_facet hk, Node.not_layer_of_facet hk]
      rfl

/-- The signals of a group are those of the selections that its units declare. -/
theorem unitSignals_eq (hg : Fits Gathered A v) : Site.unitSignals ⟨A, v⟩ =
    ((v.groupSites A).filter (fun m => m.node.isUnit)).flatMap
      (fun m => m.node.declared.values.flatMap (fun x => x.signals m)) := by
  unfold Site.unitSignals Site.groupMembers
  apply List.flatMap_congr
  intro m hm
  obtain ⟨hmem, hunit⟩ := List.mem_filter.mp hm
  have hdeclared : m.selections = m.node.declared.values :=
    congrArg Dict.values ((hg m (mem_sites_of_mem_groupSites hmem)).own hunit)
  have hall : m.node.declared.values.filter (fun x => x.unit == m.node.name) =
      m.node.declared.values := by
    apply List.filter_eq_self.mpr
    intro x hx
    exact beq_iff_eq.mpr (Node.of_mem_declared hx).1
  rw [hdeclared, hall]

/-- The names of a group's signals, but for their order. -/
theorem unitSignals_names (hb : Fits (fun s _ => s.Built whole) A v) (hg : Fits Gathered A v) :
    ((Site.unitSignals ⟨A, v⟩).map Signal.name).Perm (v.purposeSignals ++ v.fieldSignals) := by
  let own (x : Selection) : List String := x.purposeSignals ++ x.fieldSignals
  let units := (v.groupSites A).filter (fun m => m.node.isUnit)
  have hunits : units.flatMap (fun m => m.node.declared.values.flatMap own) =
      v.groupSelections.flatMap own := by
    rw [groupSelections, ← groupSites_units hb, List.flatMap_map, List.flatMap_assoc]
  have hsignals : ((Site.unitSignals ⟨A, v⟩).map Signal.name).Perm
      (units.flatMap (fun m => m.node.declared.values.flatMap own)) := by
    rw [unitSignals_eq hg, List.map_flatMap]
    refine List.Perm.flatMap_left units ?_
    intro m _
    rw [List.map_flatMap]
    exact List.Perm.flatMap_left _ (fun x _ => x.signals_names m)
  rw [hunits] at hsignals
  exact hsignals.trans (List.flatMap_append_perm v.groupSelections Selection.purposeSignals
    Selection.fieldSignals).symm

/-- Where selections differ in name, their signals differ that have a purpose. -/
theorem purposeSignals_nodup (h : (v.groupSelections.map Selection.name).Nodup) :
    v.purposeSignals.Nodup := by
  apply List.pairwise_flatMap.mpr
  refine ⟨?_, ?_⟩
  · intro x hx
    obtain ⟨n, -, hx⟩ := List.mem_flatMap.mp hx
    obtain ⟨-, fieldDef, hfaithful⟩ := Node.of_mem_declared hx
    refine List.Nodup.map_on ?_ (Selection.purposes_nodup hfaithful)
    intro word hword other hother hsame
    exact (Selection.signalName_inj hword hother hsame).2
  · refine (List.pairwise_map.mp h).imp ?_
    intro x y hne first hfirst second hsecond hsame
    obtain ⟨word, hword, rfl⟩ := List.mem_map.mp hfirst
    obtain ⟨other, hother, rfl⟩ := List.mem_map.mp hsecond
    exact hne (Selection.signalName_inj hword hother hsame).1

/-- Every signal of a group has a separator in its name. -/
theorem separator_mem_signals {name : String} (h : name ∈ v.purposeSignals ++ v.fieldSignals) :
    '_' ∈ name.toList := by
  have hname (x : Selection) (word : String) : '_' ∈ (x.name ++ "_" ++ word).toList := by
    simp [String.toList_append]
  rcases List.mem_append.mp h with h | h
  · obtain ⟨x, -, h⟩ := List.mem_flatMap.mp h
    obtain ⟨word, -, rfl⟩ := List.mem_map.mp h
    exact hname x word
  · obtain ⟨x, -, h⟩ := List.mem_flatMap.mp h
    obtain ⟨e, -, rfl⟩ := List.mem_map.mp h
    exact hname x (Naming.identifierText e.2)

/-! ### Sizes -/

/-- The names of the size signals, which all views but facets have. -/
def sizeNames (v : View) : List String :=
  (v.nodes.filter (fun n => !n.isFacet)).flatMap
    (fun n => Dimension.all.map (fun d => n.qualify d.name))

@[simp] theorem sizeNames_updateAll (g : Components → Components) (v : View) :
    (v.updateAll g).sizeNames = v.sizeNames := by
  unfold sizeNames
  rw [nodes_updateAll, List.filter_map, List.flatMap_map]
  rfl

theorem sizeNames_mk (n : Node) (cs : List View) : (mk n cs).sizeNames =
    (if n.isFacet then [] else Dimension.all.map (fun d => n.qualify d.name)) ++
      cs.flatMap sizeNames := by
  unfold sizeNames
  rw [nodes, nodesIn_eq, List.filter_cons, List.filter_flatMap]
  cases n.isFacet with
  | true =>
    rw [Bool.not_true, if_neg Bool.false_ne_true, if_pos rfl, List.nil_append, List.flatMap_assoc]
  | false =>
    rw [Bool.not_false, if_pos rfl, if_neg Bool.false_ne_true, List.flatMap_cons,
      List.flatMap_assoc]

theorem sizeSignals_names (config : Config) (hb : Fits (fun s _ => s.Built whole) A v) :
    ((v.sizeSignals config A).map Signal.name).Perm v.sizeNames := by
  induction v using induct generalizing A with
  | h n cs ih =>
    obtain ⟨hself, hin⟩ := fits_mk_iff.mp hb
    have hunder : ((sizeSignalsIn config (n :: A) cs).map Signal.name).Perm
        (cs.flatMap sizeNames) := by
      rw [sizeSignalsIn_eq, List.map_flatMap]
      exact List.Perm.flatMap_left _ (fun c hc => ih c hc (hin c hc))
    rw [sizeNames_mk, sizeSignals]
    cases hk : n.kind with
    | unit u =>
      obtain rfl : cs = [] := hself.unit_leaf (Node.isUnit_of_unit hk)
      rw [Node.not_facet_of_unit hk]
      exact List.Perm.refl _
    | layer size =>
      rw [Node.not_facet_of_layer hk]
      dsimp only
      rw [List.map_append]
      exact (hunder.append_right _).trans List.perm_append_comm
    | facet f =>
      rw [Node.isFacet_of_facet hk]
      exact hunder

/-- Sizes of different views, or in different dimensions, have different names. -/
theorem sizeNames_nodup (h : (v.nodes.map Node.name).Nodup) : v.sizeNames.Nodup := by
  have hnames : ((v.nodes.filter (fun n => !n.isFacet)).map Node.name).Nodup :=
    h.sublist (List.filter_sublist.map _)
  have hfree : Naming.SuffixFree (Dimension.all.map Dimension.name) := by decide
  have hnodup := Node.qualified_nodup hfree.separable hnames
    (fun _ => Dimension.all.map Dimension.name) (fun _ _ => ⟨List.Subset.refl _, by decide⟩)
  unfold sizeNames
  simp only [List.map_map] at hnodup
  exact hnodup

/-- A size is named like nothing that ends in a word of another end. -/
theorem sizeName_ne {size name : String} (hsize : size ∈ v.sizeNames) (word : String)
    (hword : word.toList <:+ name.toList)
    (hends : ∀ d : Dimension, ¬ d.name.toList <:+ word.toList ∧ ¬ word.toList <:+ d.name.toList) :
    size ≠ name := by
  obtain ⟨n, -, hsize⟩ := List.mem_flatMap.mp hsize
  obtain ⟨d, -, rfl⟩ := List.mem_map.mp hsize
  intro hsame
  rw [← hsame] at hword
  rcases List.suffix_or_suffix_of_suffix (Naming.suffix_qualify n.name d.name) hword with hs | hs
  · exact (hends d).1 hs
  · exact (hends d).2 hs

theorem sizeNames_disjoint_purposes (v w : View) : v.sizeNames.Disjoint w.purposeSignals := by
  intro name hsize hname
  obtain ⟨x, -, hname⟩ := List.mem_flatMap.mp hname
  obtain ⟨word, hword, rfl⟩ := List.mem_map.mp hname
  refine sizeName_ne hsize word ?_ ?_ rfl
  · rw [Selection.signalName, String.toList_append]
    exact List.suffix_append _ _
  · have hchannel (c : Channel) (d : Dimension) :
        ¬ d.name.toList <:+ c.name.toList ∧ ¬ c.name.toList <:+ d.name.toList := by
      cases d <;> cases c <;> decide
    have hchange (t : SelectionType) (d : Dimension) : ∀ w ∈ t.changes,
        ¬ d.name.toList <:+ w.toList ∧ ¬ w.toList <:+ d.name.toList := by
      cases t <;> cases d <;> decide
    intro d
    rcases List.mem_append.mp hword with hpixels | hrest
    · obtain ⟨e, -, rfl⟩ := List.mem_map.mp hpixels
      exact hchannel e.1 d
    · exact hchange x.type d word hrest

theorem unitSignal_not_mem_sizeNames (v : View) : Naming.unitSignal ∉ v.sizeNames := by
  intro h
  refine sizeName_ne h Naming.unitSignal (List.suffix_refl _) ?_ rfl
  intro d
  cases d <;> decide

end View
end Trellis

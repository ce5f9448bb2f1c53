import Trellis.Proofs.Emitted
import Trellis.Proofs.SignalNames
import Trellis.Proofs.Unions

/-! Scales, size signals and marks each have names of their own, whatever names a specification
gives to its views: a name tells its node by what stands behind it. -/
namespace Trellis

/-! ### What is named -/

/-- The mark itself, and the group around its series. -/
def UnitMark.names (m : UnitMark) : List String := m.series.toList.map Series.group ++ [m.name]

/-- The names of a mark, without those in a cell. -/
def GroupMark.names : GroupMark → List String
  | .unit m => m.names
  | .title m => [m.name]
  | .header m => [m.name]
  | .cell m _ _ => [m.name]

/-- The names of the marks right in a group. -/
def Group.markNames (g : Group) : List String := g.marks.flatMap GroupMark.names

def MarkComponent.names : MarkComponent → List String
  | unit m => m.names
  | cell m => [m.name]

/-- Whether a signal is defined by a size. -/
def Signal.isSize (s : Signal) : Bool := s.update.any Expression.isSize

/-- The signals of a visualization at the top and in all cells. -/
def Visualization.allSignals (v : Visualization) : List Signal :=
  v.signals ++ v.groups.flatMap Group.signals

/-- No two scales share a name, no two size signals, and no two marks. -/
structure Visualization.NamesDistinct (v : Visualization) : Prop where
  scales : ((v.groups.flatMap Group.scales).map NamedScale.name).Nodup
  sizes : ((v.allSignals.filter Signal.isSize).map Signal.name).Nodup
  marks : (v.groups.flatMap Group.markNames).Nodup

/-! ### Scales -/

namespace Tree

variable {t : Tree} {pipeline : Pipeline} {spec : Spec} {v : Visualization}

/-- Scales of one node differ in channel, those of different nodes in what stands before it. -/
theorem scaleNames_nodup (he : t.Emits v) (hnames : (t.root.nodes.map Node.name).Nodup) :
    ((v.groups.flatMap Group.scales).map NamedScale.name).Nodup := by
  let channels (n : Node) : List String := n.components.scales.keys.map Channel.name
  have hsites : (t.rootSite.preOrder.flatMap Site.namedScales).map NamedScale.name =
      t.root.nodes.flatMap (fun n => (channels n).map n.qualify) := by
    rw [← View.sites_map_node [], List.flatMap_map, List.map_flatMap]
    apply List.flatMap_congr
    intro s _
    dsimp only [channels]
    unfold Site.namedScales Dict.keys
    rw [List.map_map, List.map_map, List.map_map]
    rfl
  have hwords : Naming.Separable (Channel.all.map Channel.name) := by
    apply Naming.separable_of_no_separator
    intro word hword
    obtain ⟨c, -, rfl⟩ := List.mem_map.mp hword
    exact c.no_separator
  have hall (c : Channel) : c ∈ Channel.all := by
    cases c <;> decide
  rw [(he.scales.map NamedScale.name).nodup_iff, hsites]
  refine Node.qualified_nodup hwords hnames channels ?_
  intro n _
  refine ⟨?_, (Dict.keys_nodup n.components.scales).map Channel.name_injective⟩
  intro word hword
  obtain ⟨c, -, rfl⟩ := List.mem_map.mp hword
  exact List.mem_map_of_mem (hall c)

end Tree

/-! ### Sizes -/

/-- The signals of a selection are not computed: events and other signals change them. -/
theorem Selection.signals_update {x : Selection} {s : Site} :
    ∀ signal ∈ x.signals s, signal.update = none := by
  intro signal hs
  unfold signals at hs
  split at hs
  · rcases List.mem_append.mp hs with hbrushed | hwhole
    · obtain ⟨e, -, hsignal⟩ := List.mem_flatMap.mp hbrushed
      simp only [List.mem_cons, List.not_mem_nil, or_false] at hsignal
      rcases hsignal with rfl | rfl
      · rfl
      · rfl
    · simp only [List.mem_cons, List.not_mem_nil, or_false] at hwhole
      rcases hwhole with rfl | rfl
      · rfl
      · rfl
  · unfold pointSignals at hs
    split at hs
    · simp only [List.mem_cons, List.not_mem_nil, or_false] at hs
      rcases hs with rfl | rfl | rfl
      · rfl
      · rfl
      · rfl
    · simp only [List.mem_cons, List.not_mem_nil, or_false] at hs
      rcases hs with rfl | rfl
      · rfl
      · rfl

theorem Site.unitSignals_update {s : Site} : ∀ signal ∈ s.unitSignals, signal.update = none := by
  intro signal hs
  obtain ⟨m, -, hs⟩ := List.mem_flatMap.mp hs
  obtain ⟨x, -, hs⟩ := List.mem_flatMap.mp hs
  exact Selection.signals_update signal hs

namespace Tree

variable {t : Tree} {pipeline : Pipeline} {spec : Spec} {v : Visualization}

/-- The signals that are defined by a size are those of the views. -/
theorem sizeSignals_filter (h : t.assemble pipeline = .ok v)
    (hb : View.Fits (fun s _ => s.Built spec) [] t.root) :
    v.allSignals.filter Signal.isSize = t.rootSite.sizeSignals t.config := by
  obtain ⟨data, ms, -, -, -, hsignals, -⟩ := assemble_ok h
  have hsizes : (t.rootSite.sizeSignals t.config).filter Signal.isSize =
      t.rootSite.sizeSignals t.config := by
    rw [List.filter_eq_self]
    intro s hs
    obtain ⟨name, size, rfl, hsize⟩ := View.sizeSignals_computed s hs
    exact hsize
  have htop : t.rootSite.topSignals.filter Signal.isSize = [] := by
    rw [List.filter_eq_nil_iff]
    intro s hs
    rcases List.mem_append.mp hs with hs | hs
    · split at hs
      · rw [List.mem_singleton.mp hs]
        exact Bool.false_ne_true
      · exact absurd hs List.not_mem_nil
    · obtain ⟨x, -, rfl⟩ := List.mem_map.mp hs
      exact Bool.false_ne_true
  have hgroups : (t.rootSite.groupRoots.flatMap Site.unitSignals).filter Signal.isSize = [] := by
    rw [List.filter_eq_nil_iff]
    intro s hs
    obtain ⟨root, -, hs⟩ := List.mem_flatMap.mp hs
    rw [Signal.isSize, Site.unitSignals_update s hs]
    exact Bool.false_ne_true
  rw [Visualization.allSignals, hsignals, groups_signals h hb, List.filter_append,
    List.filter_append, hsizes, htop, hgroups, List.append_nil, List.append_nil]

end Tree

/-! ### Marks -/

/-- What stands behind the name of a node in the names of its mark. -/
def MarkComponent.words : MarkComponent → List String
  | unit m => m.series.toList.map (fun _ => "pathgroup") ++ ["marks"]
  | cell _ => ["cell"]

namespace Node

/-- The words for the title, headers and footers along one channel of a facet. -/
def headerWords (n : Node) (h : HeaderChannel) : List String :=
  (n.components.headers.get? h).toList.flatMap (fun header =>
    header.title.toList.map (fun _ => h.name ++ "_title") ++ HeaderSlot.all.flatMap (fun slot =>
      (header.parts slot).map (fun _ => h.name ++ "_" ++ slot.name)))

/-- The words for the marks that a node makes. -/
def markWords (n : Node) : List String := n.components.mark.flatMap MarkComponent.words

/-- The words for all marks of a node. -/
def words (n : Node) : List String :=
  n.headerWords .row ++ n.headerWords .column ++ n.markWords

end Node

/-- All words for marks. -/
def Naming.markWords : List String :=
  ["row_title", "row_header", "row_footer"] ++ ["column_title", "column_header", "column_footer"] ++
    ["pathgroup", "marks", "cell"]

theorem map_const_sublist {α : Type} {xs : List α} (h : xs.length ≤ 1) (word : String) :
    (xs.map (fun _ => word)).Sublist [word] := by
  cases xs with
  | nil => exact List.nil_sublist _
  | cons x rest =>
    obtain rfl : rest = [] := by
      apply List.length_eq_zero_iff.mp
      rw [List.length_cons] at h
      omega
    exact List.Sublist.refl _

/-- Along each channel there is at most one title, one header and one footer. -/
theorem Node.headerWords_sublist {n : Node} (hs : SingleParts n.components.headers)
    (h : HeaderChannel) : (n.headerWords h).Sublist
      [h.name ++ "_title", h.name ++ "_header", h.name ++ "_footer"] := by
  unfold headerWords
  cases hget : n.components.headers.get? h with
  | none => exact List.nil_sublist _
  | some header =>
    have htitle := map_const_sublist (Option.length_toList_le (o := header.title))
      (h.name ++ "_title")
    have hpart (slot : HeaderSlot) :=
      map_const_sublist (hs h header hget slot) (h.name ++ "_" ++ slot.name)
    have hwords : [h.name ++ "_title", h.name ++ "_header", h.name ++ "_footer"] =
        [h.name ++ "_title"] ++
          HeaderSlot.all.flatMap (fun slot => [h.name ++ "_" ++ slot.name]) := by
      cases h <;> decide
    rw [Option.toList_some, List.flatMap_singleton, hwords]
    exact htitle.append ((hpart .header).append ((hpart .footer).append (List.Sublist.refl [])))

/-- No word stands for two marks of a node. -/
theorem Node.words_sublist {s : Site} (hl : Labelled s s.node.components)
    (hs : Slotted s s.node.components) : s.node.words.Sublist Naming.markWords := by
  have hmarks : s.node.markWords.Sublist ["pathgroup", "marks", "cell"] := by
    unfold Labelled at hl
    unfold markWords
    cases hk : s.node.kind with
    | unit u =>
      rw [hk] at hl
      obtain ⟨m, hmark, -⟩ := hl
      rw [hmark, List.flatMap_singleton, MarkComponent.words]
      have hseries := map_const_sublist (Option.length_toList_le (o := m.series)) "pathgroup"
      have hword : ["marks"].Sublist ["marks", "cell"] := by decide
      exact hseries.append hword
    | layer size =>
      rw [hk] at hl
      rw [hl]
      exact List.nil_sublist _
    | facet f =>
      rw [hk] at hl
      obtain ⟨m, hmark, -⟩ := hl
      have hword : ["cell"].Sublist ["pathgroup", "marks", "cell"] := by decide
      rw [hmark]
      exact hword
  exact ((headerWords_sublist hs.2 .row).append (headerWords_sublist hs.2 .column)).append hmarks

/-- The names of a site's marks stand behind the name of its node. -/
theorem Site.markNames_eq {s : Site} (hl : Labelled s s.node.components) :
    s.headerGroups.flatMap GroupMark.names ++ s.node.components.mark.flatMap MarkComponent.names =
      s.node.words.map s.node.qualify := by
  have hmarks : s.node.components.mark.flatMap MarkComponent.names =
      s.node.markWords.map s.node.qualify := by
    unfold Labelled at hl
    unfold Node.markWords
    cases hk : s.node.kind with
    | unit u =>
      rw [hk] at hl
      obtain ⟨m, hmark, hname, hseries⟩ := hl
      rw [hmark, List.flatMap_singleton, List.flatMap_singleton, MarkComponent.names,
        MarkComponent.words, UnitMark.names, hname]
      cases hm : m.series with
      | none => rfl
      | some series =>
        rw [Option.toList_some, List.map_singleton, hseries series hm]
        rfl
    | layer size =>
      rw [hk] at hl
      rw [hl]
      rfl
    | facet f =>
      rw [hk] at hl
      obtain ⟨m, hmark, hname⟩ := hl
      rw [hmark, List.flatMap_singleton, List.flatMap_singleton, MarkComponent.names, hname]
      rfl
  have hside (h : HeaderChannel) : (s.node.headerWords h).map s.node.qualify =
      (s.node.components.headers.get? h).toList.flatMap (fun header =>
        header.title.toList.flatMap (fun _ => [s.node.qualify (h.name ++ "_title")]) ++
          HeaderSlot.all.flatMap (fun slot => (header.parts slot).flatMap (fun _ =>
            [s.node.qualify (h.name ++ "_" ++ slot.name)]))) := by
    unfold Node.headerWords
    simp only [List.map_flatMap, List.map_append, List.map_map]
    simp only [List.map_eq_flatMap]
    rfl
  have hheaders : s.headerGroups.flatMap GroupMark.names =
      (s.node.headerWords .row ++ s.node.headerWords .column).map s.node.qualify := by
    rw [s.headerGroups_flatMap, List.map_append, hside, hside]
    simp only [List.flatMap_cons, List.flatMap_nil, List.append_nil]
    rfl
  rw [hheaders, hmarks, ← List.map_append]
  rfl

namespace Tree

variable {t : Tree} {pipeline : Pipeline} {spec : Spec} {v : Visualization}

/-- Marks of one node differ in the word behind its name, those of different nodes in the name. -/
theorem markNames_nodup (h : t.assemble pipeline = .ok v)
    (hb : View.Fits (fun s _ => s.Built spec) [] t.root) (hf : View.Fits Finished [] t.root)
    (hnames : (t.root.nodes.map Node.name).Nodup) : (v.groups.flatMap Group.markNames).Nodup := by
  have hmarks := marks_flatMap_perm GroupMark.names MarkComponent.names (fun _ => rfl)
    (fun _ _ _ _ => rfl) h hb hf
  have hsites : t.rootSite.preOrder.flatMap (fun m => m.headerGroups.flatMap GroupMark.names ++
      m.node.components.mark.flatMap MarkComponent.names) =
        t.root.nodes.flatMap (fun n => n.words.map n.qualify) := by
    rw [← View.sites_map_node [], List.flatMap_map]
    exact List.flatMap_congr (fun m hm => m.markNames_eq (hf m hm).labelled)
  have hfree : Naming.SuffixFree Naming.markWords := by decide
  have hwords : Naming.markWords.Nodup := by decide
  rw [hsites] at hmarks
  refine hmarks.nodup_iff.mpr (Node.qualified_nodup hfree.separable hnames Node.words ?_)
  intro n hn
  obtain ⟨m, hm, rfl⟩ := (View.mem_nodes_iff (A := [])).mp hn
  have hsub := Node.words_sublist (hf m hm).labelled (hf m hm).slotted
  exact ⟨hsub.subset, hwords.sublist hsub⟩

theorem namesDistinct_of_finished (h : t.assemble pipeline = .ok v)
    (hb : View.Fits (fun s _ => s.Built spec) [] t.root) (hf : View.Fits Finished [] t.root)
    (hnames : (t.root.nodes.map Node.name).Nodup) : v.NamesDistinct where
  scales := scaleNames_nodup (emits_of_finished h hb hf) hnames
  sizes := by
    rw [sizeSignals_filter h hb]
    exact (View.sizeSignals_names t.config hb).nodup_iff.mpr (View.sizeNames_nodup hnames)
  marks := markNames_nodup h hb hf hnames

end Tree

namespace Compiler

/-- Whatever compiles, with any names given to its views, has distinct names for all its scales, for
all its size signals and for all its marks. -/
theorem names_distinct {compiler : Compiler} {spec : Spec} {compiled : Compiled}
    (h : compiler.compile spec = .ok compiled) : compiled.visualization.NamesDistinct := by
  obtain ⟨t, ds, hb, herror, hassemble, -⟩ := compile_ok h
  exact Tree.namesDistinct_of_finished hassemble
    (Tree.built_of_build hb compiler.pipeline Phase.all) (Tree.finished_of_build hb herror)
    (Tree.runPhases_names hb compiler.pipeline Phase.all)

theorem names_distinct_rowsOfBars : ∃ compiled,
    standard.compile (.rowsOfBars "low" "high") = .ok compiled ∧
      compiled.visualization.NamesDistinct := by
  have hcompiles : (standard.compile (.rowsOfBars "low" "high")).toOption.any
      (fun _ => true) = true := by
    decide +kernel
  obtain ⟨compiled, hc, -⟩ := exists_ok_of_any hcompiles
  exact ⟨compiled, hc, names_distinct hc⟩

end Compiler
end Trellis

import Trellis.Proofs.Finished
import Trellis.Proofs.SignalNames
import Trellis.Proofs.Unions

/-! The signals with the sizes of views. Each unit and each layer has one for each dimension, under
its own name. Facets have none: the size of a facet is that of the view in its cells. -/
namespace Trellis

theorem Dimension.mem_all (d : Dimension) : d ∈ Dimension.all := by
  cases d <;> decide

theorem Dimension.name_injective : Function.Injective Dimension.name := by
  intro d e
  cases d <;> cases e <;> decide

/-- Where keys differ, each element is the only one with its key. -/
theorem filter_key_of_nodup {α : Type} {key : α → String} {xs : List α}
    (hkeys : (xs.map key).Nodup) {x : α} (hx : x ∈ xs) :
    xs.filter (fun y => key y == key x) = [x] := by
  obtain ⟨before, after, rfl⟩ := List.append_of_mem hx
  have hmiddle := hkeys
  rw [List.map_append, List.map_cons, List.nodup_middle, List.nodup_cons, ← List.map_append]
    at hmiddle
  have hother : ∀ y ∈ before ++ after, ¬ (key y == key x) = true := by
    intro y hy hsame
    exact hmiddle.1 (List.mem_map.mpr ⟨y, hy, beq_iff_eq.mp hsame⟩)
  have hbefore : before.filter (fun y => key y == key x) = [] :=
    List.filter_eq_nil_iff.mpr (fun y hy => hother y (List.mem_append_left _ hy))
  have hafter : after.filter (fun y => key y == key x) = [] :=
    List.filter_eq_nil_iff.mpr (fun y hy => hother y (List.mem_append_right _ hy))
  rw [List.filter_append, hbefore, List.nil_append,
    List.filter_cons_of_pos (p := fun y => key y == key x) (beq_self_eq_true (key x)), hafter]

namespace Signal

/-- Of these signals exactly one has the name, and this is how it is computed. -/
def Single (signals : List Signal) (name : String) (e : Expression) : Prop :=
  signals.filter (fun g => g.name == name) = [.computed name e]

/-- Where names differ, each signal is the only one of its name. -/
theorem single_of_mem {signals : List Signal} {name : String} {e : Expression}
    (hnames : (signals.map Signal.name).Nodup) (h : .computed name e ∈ signals) :
    Single signals name e :=
  filter_key_of_nodup hnames h

end Signal

namespace View

variable {whole : Spec} {config : Config} {A : List Node} {n : Node} {cs : List View} {v : View}

theorem sizeSignals_unit {u : UnitView} (h : n.kind = .unit u) :
    (mk n cs).sizeSignals config A = Dimension.all.map
      (fun d => .computed (n.qualify d.name) (Site.unitSize ⟨A, mk n cs⟩ config d)) := by
  rw [sizeSignals, h]

theorem sizeSignals_layer {size : Size} (h : n.kind = .layer size) :
    (mk n cs).sizeSignals config A = cs.flatMap (sizeSignals config (n :: A)) ++
      Dimension.all.map (fun d =>
        .computed (n.qualify d.name) (.largest (cs.map (sizeSignal d)))) := by
  rw [sizeSignals, h]
  dsimp only
  rw [sizeSignalsIn_eq]
  rfl

theorem sizeSignals_facet {f : FacetView} (h : n.kind = .facet f) :
    (mk n cs).sizeSignals config A = cs.flatMap (sizeSignals config (n :: A)) := by
  rw [sizeSignals, h]
  dsimp only
  rw [sizeSignalsIn_eq]

theorem sizeSignal_of_not_facet (h : n.isFacet = false) (cs : List View) (d : Dimension) :
    (mk n cs).sizeSignal d = n.qualify d.name := by
  cases cs with
  | nil => rw [sizeSignal]
  | cons c rest => rw [sizeSignal, h, if_neg Bool.false_ne_true]

theorem sizeSignal_facet (h : n.isFacet = true) (c : View) (d : Dimension) :
    (mk n [c]).sizeSignal d = c.sizeSignal d := by
  rw [sizeSignal, h, if_pos rfl]

/-- The signals of a view under a layer or facet stand together among those of the whole. -/
theorem sizeSignals_child (hn : n.isUnit = false) {c : View} (hc : c ∈ cs) :
    c.sizeSignals config (n :: A) <:+: (mk n cs).sizeSignals config A := by
  have hin : c.sizeSignals config (n :: A) <:+: cs.flatMap (sizeSignals config (n :: A)) := by
    obtain ⟨before, after, rfl⟩ := List.append_of_mem hc
    refine ⟨before.flatMap (sizeSignals config (n :: A)),
      after.flatMap (sizeSignals config (n :: A)), ?_⟩
    rw [List.flatMap_append, List.flatMap_cons, List.append_assoc]
  cases hk : n.kind with
  | unit u => exact absurd (hn.symm.trans (Node.isUnit_of_unit hk)) Bool.false_ne_true
  | layer size =>
    rw [sizeSignals_layer hk]
    exact hin.trans (List.prefix_append _ _).isInfix
  | facet f =>
    rw [sizeSignals_facet hk]
    exact hin

/-- So do the signals of any site. -/
theorem sizeSignals_infix (config : Config) (hb : Fits (fun s _ => s.Built whole) A v) {s : Site}
    (hs : s ∈ v.sites A) : s.sizeSignals config <:+: v.sizeSignals config A := by
  induction v using induct generalizing A with
  | h n cs ih =>
    obtain ⟨hself, hin⟩ := fits_mk_iff.mp hb
    rcases mem_sites_mk.mp hs with rfl | ⟨c, hc, hsc⟩
    · exact List.infix_refl _
    · have hn : n.isUnit = false := by
        rw [Bool.eq_false_iff]
        intro hunit
        obtain rfl : cs = [] := hself.unit_leaf hunit
        exact List.not_mem_nil hc
      exact (ih c hc (hin c hc) hsc).trans (sizeSignals_child hn hc)

/-- The signal that stands for the size of a view is there, for a facet below it. -/
theorem sizeSignal_mem (config : Config) (hb : Fits (fun s _ => s.Built whole) A v)
    (d : Dimension) : v.sizeSignal d ∈ (v.sizeSignals config A).map Signal.name := by
  induction v using induct generalizing A with
  | h n cs ih =>
    obtain ⟨hself, hin⟩ := fits_mk_iff.mp hb
    cases hk : n.kind with
    | unit u =>
      rw [sizeSignal_of_not_facet (Node.not_facet_of_unit hk), sizeSignals_unit hk, List.map_map]
      exact List.mem_map.mpr ⟨d, d.mem_all, rfl⟩
    | layer size =>
      rw [sizeSignal_of_not_facet (Node.not_facet_of_layer hk), sizeSignals_layer hk,
        List.map_append, List.map_map]
      exact List.mem_append_right _ (List.mem_map.mpr ⟨d, d.mem_all, rfl⟩)
    | facet f =>
      -- facets stand in one another, and the innermost holds a unit or a layer
      obtain ⟨c, hc⟩ := hself.facet_single (Node.isFacet_of_facet hk)
      obtain rfl : cs = [c] := hc
      rw [sizeSignal_facet (Node.isFacet_of_facet hk), sizeSignals_facet hk, List.flatMap_singleton]
      exact ih c List.mem_cons_self (hin c List.mem_cons_self)

/-- The size of a layer comes after all that it is the largest of. -/
theorem sizeSignals_layer_split (hb : Fits (fun s _ => s.Built whole) A (mk n cs)) {size : Size}
    (hk : n.kind = .layer size) (d : Dimension) :
    ∃ before after, (mk n cs).sizeSignals config A =
        before ++ .computed (n.qualify d.name) (.largest (cs.map (sizeSignal d))) :: after ∧
      ∀ c ∈ cs, c.sizeSignal d ∈ before.map Signal.name := by
  obtain ⟨-, hin⟩ := fits_mk_iff.mp hb
  obtain ⟨dims, rest, hsplit⟩ := List.append_of_mem d.mem_all
  let own (d : Dimension) : Signal :=
    .computed (n.qualify d.name) (.largest (cs.map (sizeSignal d)))
  refine ⟨cs.flatMap (sizeSignals config (n :: A)) ++ dims.map own, rest.map own, ?_, ?_⟩
  · rw [sizeSignals_layer hk, hsplit, List.map_append, List.map_cons, List.append_assoc]
  · intro c hc
    have hmem := sizeSignal_mem config (hin c hc) d
    obtain ⟨g, hg, hname⟩ := List.mem_map.mp hmem
    refine List.mem_map.mpr ⟨g, List.mem_append_left _ ?_, hname⟩
    exact List.mem_flatMap.mpr ⟨c, hc, hg⟩

end View

namespace Tree

/-- The signals with the sizes of all views. -/
def sizeSignals (t : Tree) : List Signal := t.rootSite.sizeSignals t.config

/-- Which size signals a tree has, and in what order. -/
structure SizesOrdered (t : Tree) : Prop where
  unit : ∀ s ∈ t.root.sites [], s.node.isUnit = true → ∀ d : Dimension,
    Signal.Single t.sizeSignals (s.node.qualify d.name) (s.unitSize t.config d)
  layer : ∀ s ∈ t.root.sites [], s.node.isLayer = true → ∀ d : Dimension,
    Signal.Single t.sizeSignals (s.node.qualify d.name)
      (.largest (s.view.children.map (View.sizeSignal d)))
  /-- How the size of a layer is emitted. -/
  text : ∀ s ∈ t.root.sites [], s.node.isLayer = true → ∀ d : Dimension,
    (t.sizeSignals.filter (fun g => g.name == s.node.qualify d.name)).map Signal.toJson =
      [.object [("name", .str (s.node.qualify d.name)), ("update", .str ("max(" ++
        String.intercalate ", " (s.view.children.map (View.sizeSignal d)) ++ ")"))]]
  /-- What a layer is the largest of is there before it. -/
  after : ∀ s ∈ t.root.sites [], s.node.isLayer = true → ∀ d : Dimension,
    ∃ before after, t.sizeSignals = before ++ .computed (s.node.qualify d.name)
        (.largest (s.view.children.map (View.sizeSignal d))) :: after ∧
      ∀ c ∈ s.view.children, c.sizeSignal d ∈ before.map Signal.name
  only : ∀ g ∈ t.sizeSignals, ∃ s ∈ t.root.sites [], s.node.isFacet = false ∧
    ∃ d : Dimension, g.name = s.node.qualify d.name
  facet : ∀ s ∈ t.root.sites [], s.node.isFacet = true → ∀ d : Dimension,
    s.node.qualify d.name ∉ t.sizeSignals.map Signal.name
  known : ∀ s ∈ t.root.sites [], ∀ d, s.sizeSignal d ∈ t.sizeSignals.map Signal.name

section

variable {whole : Spec} {t : Tree}

theorem sizeSignals_nodup (hb : View.Fits (fun s _ => s.Built whole) [] t.root)
    (hnames : (t.root.nodes.map Node.name).Nodup) : (t.sizeSignals.map Signal.name).Nodup :=
  (View.sizeSignals_names t.config hb).nodup_iff.mpr (View.sizeNames_nodup hnames)

/-- Size signals have the names of sizes of units and layers. -/
theorem exists_site_of_mem_sizeSignals (hb : View.Fits (fun s _ => s.Built whole) [] t.root)
    {name : String} (h : name ∈ t.sizeSignals.map Signal.name) :
    ∃ s ∈ t.root.sites [], s.node.isFacet = false ∧ ∃ d : Dimension, name = s.node.qualify d.name := by
  have hname : name ∈ t.root.sizeNames := (View.sizeSignals_names t.config hb).mem_iff.mp h
  obtain ⟨n, hn, hname⟩ := List.mem_flatMap.mp hname
  obtain ⟨d, -, rfl⟩ := List.mem_map.mp hname
  obtain ⟨hn, hfacet⟩ := List.mem_filter.mp hn
  obtain ⟨s, hs, rfl⟩ := (View.mem_nodes_iff (A := [])).mp hn
  exact ⟨s, hs, Bool.not_eq_true' _ |>.mp hfacet, d, rfl⟩

/-- What a layer is the largest of stands before it among all size signals. -/
theorem layerSize_split (hb : View.Fits (fun s _ => s.Built whole) [] t.root) {s : Site}
    (hs : s ∈ t.root.sites []) (hn : s.node.isLayer = true) (d : Dimension) :
    ∃ before after, t.sizeSignals = before ++ .computed (s.node.qualify d.name)
        (.largest (s.view.children.map (View.sizeSignal d))) :: after ∧
      ∀ c ∈ s.view.children, c.sizeSignal d ∈ before.map Signal.name := by
  obtain ⟨size, hk⟩ := Node.kind_of_isLayer hn
  have hin := hb.site hs
  -- the layer's own signals stand together, in the order they have there
  obtain ⟨left, right, hwhole⟩ := View.sizeSignals_infix t.config hb hs
  obtain ⟨A, v⟩ := s
  cases v with
  | mk n cs =>
    obtain ⟨before, after, hsplit, hbefore⟩ := View.sizeSignals_layer_split hin hk d
    have hown : Site.sizeSignals ⟨A, .mk n cs⟩ t.config = _ := hsplit
    refine ⟨left ++ before, after ++ right, ?_, ?_⟩
    · rw [hown, List.append_assoc, List.append_assoc, List.cons_append, ← List.append_assoc] at hwhole
      exact hwhole.symm
    · intro c hc
      rw [List.map_append]
      exact List.mem_append_right _ (hbefore c hc)

/-- The name of a size tells the node and the dimension. -/
theorem eq_of_sizeName (hnames : (t.root.nodes.map Node.name).Nodup) {s r : Site}
    (hs : s ∈ t.root.sites []) (hr : r ∈ t.root.sites []) {d e : Dimension}
    (h : s.node.qualify d.name = r.node.qualify e.name) : s = r ∧ d = e := by
  have hfree : Naming.SuffixFree (Dimension.all.map Dimension.name) := by decide
  obtain ⟨hnode, hdimension⟩ :=
    hfree.separable s.node.name r.node.name d.name (List.mem_map_of_mem d.mem_all) e.name
      (List.mem_map_of_mem e.mem_all) h
  exact ⟨View.site_eq_of_name_eq hnames hs hr hnode, Dimension.name_injective hdimension⟩

theorem sizesOrdered (hb : View.Fits (fun s _ => s.Built whole) [] t.root)
    (hnames : (t.root.nodes.map Node.name).Nodup) : t.SizesOrdered := by
  have hnodup := sizeSignals_nodup hb hnames
  have hpart {s : Site} (hs : s ∈ t.root.sites []) :
      s.sizeSignals t.config ⊆ t.sizeSignals := (View.sizeSignals_infix t.config hb hs).subset
  have hlayer : ∀ s ∈ t.root.sites [], s.node.isLayer = true → ∀ d : Dimension,
      Signal.Single t.sizeSignals (s.node.qualify d.name)
        (.largest (s.view.children.map (View.sizeSignal d))) := by
    intro s hs hn d
    obtain ⟨before, after, hsplit, -⟩ := layerSize_split hb hs hn d
    refine Signal.single_of_mem hnodup ?_
    rw [hsplit]
    exact List.mem_append_right _ List.mem_cons_self
  constructor
  case unit =>
    intro s hs hn d
    refine Signal.single_of_mem hnodup (hpart hs ?_)
    obtain ⟨u, hk⟩ := Node.kind_of_isUnit hn
    obtain ⟨A, v⟩ := s
    cases v with
    | mk n cs =>
      have hown : Site.sizeSignals ⟨A, .mk n cs⟩ t.config = _ := View.sizeSignals_unit hk
      rw [hown]
      exact List.mem_map.mpr ⟨d, d.mem_all, rfl⟩
  case layer => exact hlayer
  case text =>
    intro s hs hn d
    rw [hlayer s hs hn d]
    rfl
  case after => exact fun s hs hn d => layerSize_split hb hs hn d
  case only =>
    exact fun g hg => exists_site_of_mem_sizeSignals hb (List.mem_map_of_mem hg)
  case facet =>
    intro s hs hn d hmem
    obtain ⟨r, hr, hnone, e, hsame⟩ := exists_site_of_mem_sizeSignals hb hmem
    obtain ⟨rfl, -⟩ := eq_of_sizeName hnames hs hr hsame
    exact absurd (hn.symm.trans hnone) (by decide)
  case known =>
    intro s hs d
    have hown := View.sizeSignal_mem t.config (hb.site hs) d
    obtain ⟨g, hg, hname⟩ := List.mem_map.mp hown
    exact List.mem_map.mpr ⟨g, hpart hs hg, hname⟩

end

variable {spec : Spec} {config : Config} {t : Tree} {ds : List Diagnostic}

/-- On a tree that was built and parsed with any pipeline, each unit and each layer has exactly one
size signal for each dimension, facets have none, the size of a layer is the largest of those right
under it, which are all there before it, and what stands for the size of any view is there. -/
theorem sizesOrdered_of_build (h : Tree.build spec config = .ok (t, ds)) (pipeline : Pipeline) :
    (t.parse pipeline).tree.SizesOrdered := by
  rw [parse_of_build h]
  exact sizesOrdered (built_of_build h pipeline Phase.all) (runPhases_names h pipeline Phase.all)

theorem sizesOrdered_rowsOfBars : ∃ t ds,
    Tree.build (.rowsOfBars "low" "high") .default = .ok (t, ds) ∧
      (t.parse .standard).tree.SizesOrdered := by
  have hbuilds : (Tree.build (.rowsOfBars "low" "high") .default).toOption.isSome = true := by
    decide +kernel
  obtain ⟨⟨t, ds⟩, hb⟩ := exists_ok_of_isSome hbuilds
  exact ⟨t, ds, hb, sizesOrdered_of_build hb .standard⟩

end Tree
end Trellis

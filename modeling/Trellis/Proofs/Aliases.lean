import Trellis.Proofs.Finished
import Trellis.Proofs.SignalNames

/-! What the name of a selection means in a tree. Nodes above the units know the selections that are
declared under them; of several with one name they take the first, while each unit keeps its own. So
all nodes agree on the names just where no two units declare the same one. -/
namespace Trellis

namespace View

/-- Wherever the name of a selection is known, it means the same selection. -/
def SelectionsAgree (root : View) : Prop :=
  ∀ s ∈ root.sites [], ∀ other ∈ root.sites [], ∀ key x y,
    s.node.components.selection.get? key = some x →
      other.node.components.selection.get? key = some y → x = y

/-- What the sites of a tree know of its selections. -/
structure SelectionsKnown (root : View) : Prop where
  /-- A name means the selection that is declared first, from the top down, at or under the site. -/
  first : ∀ s ∈ root.sites [], ∀ key,
    s.node.components.selection.get? key = s.view.declared? key
  /-- The names that are known are those that units at or under the site declare. -/
  names : ∀ s ∈ root.sites [], ∀ key, key ∈ s.node.components.selection.keys ↔
    ∃ unit ∈ s.units, key ∈ unit.node.selectionKeys

end View

namespace Node

variable {n : Node} {key : String}

/-- Under each name that a unit gives it declares a selection, which bears the unit's name. -/
theorem exists_declared (h : key ∈ n.selectionKeys) :
    n.isUnit = true ∧ ∃ x, n.declared.get? key = some x ∧ x.unit = n.name := by
  have hkeys : key ∈ n.declared.keys := n.declared_keys.mem_iff.mpr h
  obtain ⟨x, hx⟩ := Dict.contains_iff.mp (Dict.mem_keys_iff.mp hkeys)
  obtain ⟨u, d, hk, -, hof⟩ := of_get?_declared hx
  refine ⟨isUnit_of_unit hk, x, hx, ?_⟩
  rw [hof]
  rfl

end Node

/-- A site knows just the names that are declared by units at or under it. -/
theorem Resolved.mem_keys_iff {s : Site} {k : Components} (h : Resolved s k) (key : String) :
    key ∈ k.selection.keys ↔ ∃ unit ∈ s.units, key ∈ unit.node.selectionKeys := by
  have hdeclared (n : Node) : (n.declared.get? key).isSome = true ↔ key ∈ n.selectionKeys := by
    rw [← n.declared_keys.mem_iff, Dict.mem_keys_iff, Dict.contains]
  rw [Dict.mem_keys_iff, Dict.contains, h key, View.declared?, List.findSome?_isSome_iff]
  simp only [hdeclared]
  constructor
  · rintro ⟨n, hn, hkey⟩
    obtain ⟨unit, hmem, rfl⟩ := (View.mem_nodes_iff (A := s.ancestors)).mp hn
    exact ⟨unit, List.mem_filter.mpr ⟨hmem, (Node.exists_declared hkey).1⟩, hkey⟩
  · rintro ⟨unit, hunit, hkey⟩
    have hmem : unit ∈ s.view.sites s.ancestors := (List.mem_filter.mp hunit).1
    exact ⟨unit.node, View.mem_nodes_iff.mpr ⟨unit, hmem, rfl⟩, hkey⟩

namespace View

variable {v : View}

/-- A selection that is known anywhere in a tree is declared in it. -/
theorem mem_declarations_of_known (hg : Fits Gathered [] v) {s : Site} (hs : s ∈ v.sites [])
    {key : String} {x : Selection} (h : s.node.components.selection.get? key = some x) :
    (key, x) ∈ v.declarations := by
  obtain ⟨n, hn, hget⟩ := (hg s hs).found key x h
  obtain ⟨t, ht, rfl⟩ := (mem_nodes_iff (A := s.ancestors)).mp hn
  exact mem_declarations.mpr ⟨t.node, mem_nodes_iff.mpr ⟨t, mem_sites_trans hs ht, rfl⟩, hget⟩

/-- A name that two nodes declare would mean a selection of either, and they differ in the unit. -/
theorem selectionsAgree_iff (hg : Fits Gathered [] v) (hnames : (v.nodes.map Node.name).Nodup) :
    v.SelectionsAgree ↔ v.selectionKeys.Nodup := by
  constructor
  · intro hagree
    have hown : ∀ n ∈ v.nodes, ∀ key ∈ n.selectionKeys, ∃ s ∈ v.sites [], ∃ x,
        s.node.components.selection.get? key = some x ∧ x.unit = n.name := by
      intro n hn key hkey
      obtain ⟨s, hs, rfl⟩ := (mem_nodes_iff (A := [])).mp hn
      obtain ⟨hunit, x, hx, hname⟩ := Node.exists_declared hkey
      refine ⟨s, hs, x, ?_, hname⟩
      rw [(hg s hs).own hunit]
      exact hx
    refine List.nodup_flatMap.mpr ⟨?_, ?_⟩
    · intro n _
      exact n.declared_keys.nodup_iff.mp (Dict.keys_nodup n.declared)
    · refine (List.pairwise_map.mp hnames).imp_of_mem ?_
      intro n m hn hm hne key hkey hother
      obtain ⟨s, hs, x, hx, hxn⟩ := hown n hn key hkey
      obtain ⟨t, ht, y, hy, hym⟩ := hown m hm key hother
      obtain rfl : x = y := hagree s hs t ht key x y hx hy
      exact hne (hxn.symm.trans hym)
  · intro hkeys s hs other hother key x y hx hy
    exact declarations_unique hkeys (mem_declarations_of_known hg hs hx)
      (mem_declarations_of_known hg hother hy)

end View

namespace Tree

variable {t : Tree} {spec : Spec} {config : Config} {ds : List Diagnostic}

/-- No phase changes the names that units give their selections. -/
theorem runPhases_selectionKeys (pipeline : Pipeline) (phases : List Phase) (t : Tree) :
    (t.runPhases pipeline phases).tree.root.selectionKeys = t.root.selectionKeys := by
  have hstrip := congrArg View.selectionKeys (runPhases_strip pipeline phases t)
  rwa [View.strip, View.strip, View.selectionKeys_updateAll, View.selectionKeys_updateAll] at hstrip

/-- Once a built tree has been worked out, with any pipeline, every node resolves a name to the
selection that is declared first at or under it, and knows no other names than are declared there.
All nodes resolve a name to the same selection just where no name is declared twice. -/
theorem selectionsKnown_and_agree_iff (h : Tree.build spec config = .ok (t, ds))
    (pipeline : Pipeline) :
    (t.parse pipeline).tree.root.SelectionsKnown ∧
      ((t.parse pipeline).tree.root.SelectionsAgree ↔ t.root.selectionKeys.Nodup) := by
  have hresolved := resolved_of_build h pipeline
  have hnames := runPhases_names h pipeline Phase.all
  rw [parse_of_build h]
  refine ⟨⟨hresolved, fun s hs => (hresolved s hs).mem_keys_iff⟩, ?_⟩
  rw [View.selectionsAgree_iff (gathered_of_build h pipeline) hnames, runPhases_selectionKeys]

end Tree

/-! ### Two picks -/

/-- Points laid over points, each with a selection of single records. -/
def Spec.layeredPicks (first second : String) : Spec :=
  let picked (name : String) : Spec :=
    .unit ⟨⟨none, none, none, none⟩, ⟨none, none⟩, ⟨.point, none⟩, .empty,
      .ofList [(name, ⟨.single, none, none, none⟩)]⟩
  .layer ⟨⟨none, none, none, none⟩, ⟨none, none⟩, .empty⟩ [picked first, picked second]

namespace Tree

/-- Two selections with different names mean the same everywhere. -/
theorem selectionsKnown_and_agree_layeredPicks :
    ∃ t ds, Tree.build (.layeredPicks "pick" "choice") .default = .ok (t, ds) ∧
      t.root.selectionKeys = ["pick", "choice"] ∧
        (t.parse .standard).tree.root.SelectionsKnown ∧
          (t.parse .standard).tree.root.SelectionsAgree := by
  have hbuilds : (Tree.build (.layeredPicks "pick" "choice") .default).toOption.any (fun r =>
      decide (r.1.root.selectionKeys = ["pick", "choice"])) = true := by
    decide +kernel
  obtain ⟨⟨t, ds⟩, hb, hkeys⟩ := exists_ok_of_any hbuilds
  have hkeys : t.root.selectionKeys = ["pick", "choice"] := of_decide_eq_true hkeys
  obtain ⟨hknown, hagree⟩ := selectionsKnown_and_agree_iff hb .standard
  refine ⟨t, ds, hb, hkeys, hknown, hagree.mpr ?_⟩
  rw [hkeys]
  decide

/-- Two units that each declare a selection under the same name go on to mean their own by it. -/
theorem selections_disagree : ¬ ∀ spec config pipeline t ds,
    Tree.build spec config = .ok (t, ds) → (t.parse pipeline).error = none →
      (t.parse pipeline).tree.root.SelectionsAgree := by
  intro hall
  let units (root : View) : List String := (root.sites []).filterMap
    (fun s => (s.node.components.selection.get? "pick").map Selection.unit)
  have hruns : (Tree.build (.layeredPicks "pick" "pick") .default).toOption.any (fun r =>
      (r.1.parse .standard).error.isNone &&
        decide (units (r.1.parse .standard).tree.root =
          ["layer_0", "layer_0", "layer_1"])) = true := by
    decide +kernel
  obtain ⟨⟨t, ds⟩, hb, hruns⟩ := exists_ok_of_any hruns
  obtain ⟨herror, hunits⟩ := (Bool.and_eq_true_iff).mp hruns
  have hagree := hall _ _ .standard t ds hb (Option.isNone_iff_eq_none.mp herror)
  have hunits : units (t.parse .standard).tree.root = ["layer_0", "layer_0", "layer_1"] :=
    of_decide_eq_true hunits
  have hknown (name : String) (hname : name ∈ ["layer_0", "layer_0", "layer_1"]) :
      ∃ s ∈ (t.parse .standard).tree.root.sites [], ∃ x,
        s.node.components.selection.get? "pick" = some x ∧ x.unit = name := by
    rw [← hunits] at hname
    obtain ⟨s, hs, hx⟩ := List.mem_filterMap.mp hname
    obtain ⟨x, hx, hunit⟩ := Option.map_eq_some_iff.mp hx
    exact ⟨s, hs, x, hx, hunit⟩
  obtain ⟨s, hs, x, hx, hfirst⟩ := hknown "layer_0" (by decide)
  obtain ⟨other, hother, y, hy, hsecond⟩ := hknown "layer_1" (by decide)
  obtain rfl : x = y := hagree s hs other hother "pick" x y hx hy
  exact absurd (hfirst.symm.trans hsecond) (by decide)

end Tree
end Trellis

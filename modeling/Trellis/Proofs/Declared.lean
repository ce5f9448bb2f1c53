import Mathlib.Data.List.Perm.Basic
import Trellis.Proofs.Groups

/-! The selections of a tree. Units declare them; after the selection phase every node knows those
that are declared at and under it, and a unit exactly its own, whatever pipeline is in use. -/
namespace Trellis

namespace Node

/-- The names that a unit gives its selections. -/
def selectionKeys (n : Node) : List String := n.unit?.elim [] (fun u => u.selection.keys)

/-- The selections that a unit declares, under the names it gives them; other nodes declare none. -/
def declared (n : Node) : Dict String Selection :=
  match n.kind with
  | .unit u => (View.ownSelections n u).1
  | _ => .empty

variable {n : Node}

theorem declared_unit {u : UnitView} (hk : n.kind = .unit u) :
    n.declared = (View.ownSelections n u).1 := by
  rw [declared, hk]

theorem declared_of_not_unit (h : n.isUnit = false) : n.declared = .empty := by
  rw [declared]
  cases hk : n.kind with
  | unit u => exact absurd (h.symm.trans (isUnit_of_unit hk)) Bool.false_ne_true
  | _ => rfl

/-- A declared selection is worked out from its definition. -/
theorem of_get?_declared {key : String} {x : Selection} (h : n.declared.get? key = some x) :
    ∃ u d, n.kind = .unit u ∧ u.selection.get? key = some d ∧
      x = (Selection.ofDef ⟨n.index, key⟩ n.name u.fieldDef? d).1 := by
  cases hn : n.isUnit with
  | false =>
    rw [declared_of_not_unit hn] at h
    exact absurd h (by simp)
  | true =>
    obtain ⟨u, hk⟩ := kind_of_isUnit hn
    rw [declared_unit hk, View.get?_ownSelections, Option.map_eq_some_iff] at h
    obtain ⟨d, hd, hx⟩ := h
    exact ⟨u, d, hk, hd, hx.symm⟩

theorem declared_name {key : String} {x : Selection} (h : n.declared.get? key = some x) :
    x.name = Naming.identifierText key := by
  obtain ⟨u, d, -, -, rfl⟩ := of_get?_declared h
  rfl

theorem declared_keys (n : Node) : n.declared.keys.Perm n.selectionKeys := by
  have hnodup (d : Dict String Selection) : d.keys.Nodup := Dict.keys_nodup d
  cases hn : n.isUnit with
  | false =>
    have hnone : n.unit? = none := by
      rw [isUnit, Option.isSome_eq_false_iff, Option.isNone_iff_eq_none] at hn
      exact hn
    rw [declared_of_not_unit hn, selectionKeys, hnone]
    exact List.Perm.refl []
  | true =>
    obtain ⟨u, hk⟩ := kind_of_isUnit hn
    have hunit : n.unit? = some u := by rw [unit?, hk]
    rw [selectionKeys, hunit]
    refine (List.perm_ext_iff_of_nodup (hnodup _) (Dict.keys_nodup u.selection)).mpr ?_
    intro key
    rw [Dict.mem_keys_iff, Dict.mem_keys_iff, Dict.contains, Dict.contains, declared_unit hk,
      View.get?_ownSelections, Option.isSome_map]

/-- The names of a unit's selections are the names it gives them, as identifiers. -/
theorem declared_values_name (n : Node) :
    n.declared.values.map Selection.name = n.declared.keys.map Naming.identifierText := by
  unfold Dict.values Dict.keys
  rw [List.map_map, List.map_map]
  apply List.map_congr_left
  rintro ⟨key, x⟩ he
  exact declared_name (Dict.mem_entries_iff.mp he)

theorem declared_names (n : Node) : (n.declared.values.map Selection.name).Perm
    (n.selectionKeys.map Naming.identifierText) := by
  rw [declared_values_name]
  exact (declared_keys n).map _

end Node

namespace View

/-- The names that the units of a view give their selections. -/
def selectionKeys (v : View) : List String := v.nodes.flatMap Node.selectionKeys

@[simp] theorem selectionKeys_updateAll (g : Components → Components) (v : View) :
    (v.updateAll g).selectionKeys = v.selectionKeys := by
  unfold selectionKeys
  rw [nodes_updateAll, List.flatMap_map]
  rfl

/-- All selections that are declared in a view. -/
def declared (v : View) : List Selection := v.nodes.flatMap (fun n => n.declared.values)

/-- The selections of a view under the names that its units give them. -/
def declarations (v : View) : List (String × Selection) :=
  v.nodes.flatMap (fun n => n.declared.entries)

/-- The selection that a name stands for in a view: the first, from the top down, that a unit
declares under it. -/
def declared? (v : View) (key : String) : Option Selection :=
  v.nodes.findSome? (fun n => n.declared.get? key)

theorem declared_eq (v : View) : v.declared = v.declarations.map Prod.snd := by
  rw [declared, declarations, List.map_flatMap]
  rfl

theorem declarations_keys (v : View) : (v.declarations.map Prod.fst).Perm v.selectionKeys := by
  rw [declarations, List.map_flatMap]
  exact List.Perm.flatMap_left _ (fun n _ => n.declared_keys)

theorem mem_declarations {v : View} {key : String} {x : Selection} :
    (key, x) ∈ v.declarations ↔ ∃ n ∈ v.nodes, n.declared.get? key = some x := by
  rw [declarations, List.mem_flatMap]
  simp only [Dict.mem_entries_iff]

/-- Where units give their selections different names, a name stands for one selection. -/
theorem declarations_unique {v : View} (h : v.selectionKeys.Nodup) {key : String} {x y : Selection}
    (hx : (key, x) ∈ v.declarations) (hy : (key, y) ∈ v.declarations) : x = y := by
  have hkeys : (v.declarations.map Prod.fst).Nodup := v.declarations_keys.nodup_iff.mpr h
  exact (Prod.mk.inj (List.inj_on_of_nodup_map hkeys hx hy rfl)).2

theorem findSome?_congr {α β : Type} {f g : α → Option β} {xs : List α}
    (h : ∀ x ∈ xs, f x = g x) : xs.findSome? f = xs.findSome? g := by
  have hmap := congrArg (List.findSome? id) (List.map_congr_left h)
  rwa [List.findSome?_map, List.findSome?_map] at hmap

theorem findSome?_flatMap {α β γ : Type} (f : α → List β) (g : β → Option γ) (xs : List α) :
    (xs.flatMap f).findSome? g = xs.findSome? (fun x => (f x).findSome? g) := by
  induction xs with
  | nil => rfl
  | cons x rest ih =>
    rw [List.flatMap_cons, List.findSome?_append, ih, List.findSome?_cons]
    cases (f x).findSome? g with
    | none => rfl
    | some y => rfl

theorem declared?_mk (n : Node) (cs : List View) (key : String) : (mk n cs).declared? key =
    (n.declared.get? key).or (cs.findSome? (fun c => c.declared? key)) := by
  unfold declared?
  rw [nodes, nodesIn_eq, List.findSome?_cons, findSome?_flatMap]
  cases n.declared.get? key with
  | none => rfl
  | some x => rfl

@[simp] theorem declared?_updateAll (g : Components → Components) (v : View) (key : String) :
    (v.updateAll g).declared? key = v.declared? key := by
  unfold declared?
  rw [nodes_updateAll, List.findSome?_map]
  rfl

/-- The names of all selections are the names that units give them, as identifiers. -/
theorem declared_names (v : View) : (v.declared.map Selection.name).Perm
    (v.selectionKeys.map Naming.identifierText) := by
  unfold declared selectionKeys
  rw [List.map_flatMap, List.map_flatMap]
  exact List.Perm.flatMap_left _ (fun n _ => n.declared_names)

@[simp] theorem declared_updateAll (g : Components → Components) (v : View) :
    (v.updateAll g).declared = v.declared := by
  unfold declared
  rw [nodes_updateAll, List.flatMap_map]
  rfl

end View

/-! ### The selection phase -/

/-- A site knows just the selections that are declared at and under it, and a unit exactly its
own. -/
structure Gathered (s : Site) (k : Components) : Prop where
  own : s.node.isUnit = true → k.selection = s.node.declared
  found : ∀ key x, k.selection.get? key = some x →
    ∃ n ∈ s.view.nodes, n.declared.get? key = some x
  all : ∀ n ∈ s.view.nodes, ∀ key, n.declared.contains key = true →
    k.selection.contains key = true

/-- Where units give their selections different names, a site knows each selection that is declared
at and under it, once. -/
theorem Gathered.selections_perm {s : Site} {k : Components} (h : Gathered s k)
    (hkeys : s.view.selectionKeys.Nodup) : k.selection.values.Perm s.view.declared := by
  have hall : (s.view.declarations.map Prod.fst).Nodup :=
    s.view.declarations_keys.nodup_iff.mpr hkeys
  have hknown : k.selection.entries.Perm s.view.declarations := by
    refine (List.perm_ext_iff_of_nodup (Dict.keys_nodup k.selection).of_map hall.of_map).mpr ?_
    rintro ⟨key, x⟩
    rw [Dict.mem_entries_iff]
    constructor
    · exact fun hx => View.mem_declarations.mpr (h.found key x hx)
    · intro hx
      obtain ⟨n, hn, hget⟩ := View.mem_declarations.mp hx
      obtain ⟨y, hy⟩ := Dict.contains_iff.mp (h.all n hn key (Dict.contains_iff.mpr ⟨x, hget⟩))
      -- what is known under the name is declared under it too, so it is the same selection
      rw [hy, View.declarations_unique hkeys hx (View.mem_declarations.mpr (h.found key y hy))]
  rw [s.view.declared_eq]
  exact hknown.map Prod.snd

/-- Under every name a site knows the selection that the name stands for in its view. -/
def Resolved : Fact := fun s k => ∀ key, k.selection.get? key = s.view.declared? key

theorem Resolved.gathered {whole : Spec} {s : Site} {k : Components} (h : Resolved s k)
    (hb : s.Built whole) : Gathered s k where
  own hunit := by
    have hleaf : s.view.children = [] := hb.unit_leaf hunit
    have hnodes : s.view.nodes = [s.node] := by
      obtain ⟨A, v⟩ := s
      cases v with
      | mk n cs =>
        obtain rfl : cs = [] := hleaf
        rfl
    apply Dict.ext_get?
    intro key
    rw [h key, View.declared?, hnodes, List.findSome?_cons]
    cases s.node.declared.get? key with
    | none => rfl
    | some x => rfl
  found key x hx := by
    rw [h key] at hx
    exact List.exists_of_findSome?_eq_some hx
  all n hn key hkey := by
    rw [Dict.contains, h key, View.declared?, List.findSome?_isSome_iff]
    exact ⟨n, hn, hkey⟩

theorem resolved_siteBlind (phase : Phase) : Fact.SiteBlind phase Resolved := by
  intro s k
  unfold Resolved Site.updateAll
  simp only [View.declared?_updateAll]

theorem resolved_ownBlind {phase : Phase} (h : phase ≠ .selection) :
    Fact.OwnBlind phase Resolved := by
  intro s k
  unfold Resolved
  rw [Components.without_selection h]

namespace View

theorem resolved_ownSelections {A : List Node} {n : Node} {u : UnitView} {k : Components}
    (hu : n.kind = .unit u) (hk : k.selection = (ownSelections n u).1) :
    Resolved ⟨A, mk n []⟩ k := by
  intro key
  rw [hk, ← Node.declared_unit hu]
  exact ((declared?_mk n [] key).trans (Option.or_none ..)).symm

theorem resolved_unionSelections {s : Site} {k : Components} (hn : s.node.isUnit = false)
    (hin : ∀ c ∈ s.view.children, Fits (Fact.both Resolved (.done .selection)) s.lineage c)
    (hk : k.selection = unionSelections s.view.children) : Resolved s k := by
  obtain ⟨A, v⟩ := s
  cases v with
  | mk n cs =>
    intro key
    have hnone : n.declared = .empty := Node.declared_of_not_unit hn
    rw [hk, get?_unionSelections_eq, declared?_mk, hnone, Dict.get?_empty, Option.none_or]
    exact findSome?_congr (fun c hc => (hin c hc).self.1 key)

end View

namespace Tree

variable {spec : Spec} {config : Config} {t : Tree} {ds : List Diagnostic}

/-- On a built tree the phases up to the selections succeed with any pipeline, and what names are
resolved to stays as it is. -/
theorem resolved_of_build (h : Tree.build spec config = .ok (t, ds)) (pipeline : Pipeline) :
    View.Fits Resolved [] (t.runPhases pipeline Phase.all).tree.root := by
  obtain ⟨hscale, v, -, hscaled⟩ := runPhases_scale h pipeline
  have hbuilt := built_of_build h pipeline [.data, .scale, .layoutSize]
  obtain ⟨hsizes, -⟩ := View.bottomUp_layoutSize t.config [] (v.settle config [] .empty [])
  obtain ⟨hlayout, hsized⟩ :=
    runPhases_next pipeline [.data, .scale] .layoutSize hscale hscaled rfl hsizes
  have hsame : [Phase.data, .scale] ++ [.layoutSize] = [.data, .scale, .layoutSize] := rfl
  rw [hsame] at hlayout hsized
  rw [hsized] at hbuilt
  obtain ⟨herror, hresolved⟩ := View.bottomUp_selection_fits (resolved_siteBlind .selection)
    (fun _ _ _ _ hu hk => View.resolved_ownSelections hu hk)
    (fun _ _ hn hin hk => View.resolved_unionSelections hn hin hk) hbuilt
  obtain ⟨hselection, htree⟩ :=
    runPhases_next pipeline [.data, .scale, .layoutSize] .selection hlayout hsized rfl herror
  have hrest := (runPhases_append pipeline [.markGroup, .axisAndHeader, .legend] hselection).2
  have hlist : [Phase.data, .scale, .layoutSize] ++ [.selection] ++
      [.markGroup, .axisAndHeader, .legend] = Phase.all := rfl
  rw [hlist] at hrest
  rw [hrest]
  refine runPhases_keep (fun phase _ => resolved_siteBlind phase)
    (fun _ hlater => resolved_ownBlind (Phase.ne_of_rank_lt hlater)) pipeline _ ?_ ?_
  · rw [htree]
    rfl
  · rw [htree]
    exact hresolved.mono (fun _ _ hk => hk.1)

theorem gathered_of_build (h : Tree.build spec config = .ok (t, ds)) (pipeline : Pipeline) :
    View.Fits Gathered [] (t.runPhases pipeline Phase.all).tree.root :=
  fun s hs => (resolved_of_build h pipeline s hs).gathered
    (built_of_build h pipeline Phase.all s hs)

end Tree
end Trellis

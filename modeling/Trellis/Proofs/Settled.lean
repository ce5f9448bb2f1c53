import Mathlib.Data.List.Flatten
import Trellis.Proofs.Built
import Trellis.Proofs.Described

/-! The scale phase seen from above. The phase runs from the leaves up: every node takes the shared
scales out of the views under it and redirects what a facet leaves there. The outcome is the same as
when each node is told what the node above takes and which datasets are read in place of others. -/
namespace Trellis

/-- A scale that reads some datasets in place of others, one replacement after the other. -/
def Scale.redirect (renames : List DataRename) (s : Scale) : Scale :=
  renames.foldl (fun s r => s.renameData r.source r.target) s

namespace View

/-- The replacements of a facet that splits a dataset over units with these data. -/
def cellRenamesOf (root : FacetRoot) (units : List DataComponent) : List DataRename :=
  units.foldl (fun renames d =>
    if renames.contains ⟨d.input, d.source⟩ then renames else renames ++ [⟨d.input, d.source⟩])
    [⟨root.data, root.name⟩]

/-- The replacements that a node makes in the views under it. -/
def renamesUnder (n : Node) (cs : List View) : List DataRename :=
  if n.isFacet then
    (n.data.facetRoot.map (fun root => cellRenamesOf root ((openUnitsIn cs).map Node.data))).getD []
  else []

mutual

/-- The scales that a view has before the node above takes any. -/
def offers (config : Config) (A : List Node) : View → Dict Channel Scale
  | mk n cs =>
    match n.kind with
    | .unit u => Scale.ofUnit ⟨A, mk n cs⟩ config u n.data.input
    | _ => offersIn config (n :: A) n.resolve .empty cs

/-- What the node above merges out of views side by side. -/
def offersIn (config : Config) (A : List Node) (r : Resolve) (merged : Dict Channel Scale) :
    List View → Dict Channel Scale
  | [] => merged
  | v :: rest =>
    offersIn config A r
      (Scale.mergeInto merged ((offers config A v).filter (fun c _ => r.shares .scale c))) rest

end

/-- The scales a view keeps under a node that takes the shared ones, reading other datasets. -/
def keeps (config : Config) (A : List Node) (taken : Resolve) (pending : List DataRename)
    (v : View) : Dict Channel Scale :=
  ((v.offers config A).filter (fun c _ => !taken.shares .scale c)).mapValues
    (Scale.redirect pending)

mutual

/-- A view with its scales as the scale phase leaves them: the node above has taken what it shares,
and some datasets are read in place of others. -/
def settle (config : Config) (A : List Node) (taken : Resolve) (pending : List DataRename) :
    View → View
  | mk n cs =>
    mk (n.update (fun k =>
        { k with scales := (mk n cs).keeps config A taken pending, completed := some .scale }))
      (settleIn config (n :: A) n.resolve (renamesUnder n cs ++ pending) cs)

def settleIn (config : Config) (A : List Node) (taken : Resolve) (pending : List DataRename) :
    List View → List View
  | [] => []
  | v :: rest => settle config A taken pending v :: settleIn config A taken pending rest

end

variable {config : Config} {A B : List Node} {taken : Resolve} {pending : List DataRename}

theorem settleIn_eq (cs : List View) :
    settleIn config A taken pending cs = cs.map (settle config A taken pending) := by
  induction cs with
  | nil => rfl
  | cons c rest ih => rw [settleIn, ih, List.map_cons]

theorem settle_mk (n : Node) (cs : List View) :
    (mk n cs).settle config A taken pending =
      mk (n.update (fun k =>
          { k with scales := (mk n cs).keeps config A taken pending, completed := some .scale }))
        (cs.map (settle config (n :: A) n.resolve (renamesUnder n cs ++ pending))) := by
  rw [settle, settleIn_eq]

theorem offersIn_eq (r : Resolve) (merged : Dict Channel Scale) (cs : List View) :
    offersIn config A r merged cs =
      cs.foldl (fun merged v =>
        Scale.mergeInto merged ((offers config A v).filter (fun c _ => r.shares .scale c)))
        merged := by
  induction cs generalizing merged with
  | nil => rfl
  | cons c rest ih => rw [offersIn, ih, List.foldl_cons]

theorem settle_frame (v : View) :
    (v.settle config A taken pending).updateAll (Components.without .scale) =
      v.updateAll (Components.without .scale) := by
  induction v using induct generalizing A taken pending with
  | h n cs ih =>
    rw [settle_mk]
    apply updateAll_congr_mk rfl
    rw [List.map_map]
    exact List.map_congr_left (fun c hc => ih c hc)

theorem settle_done (v : View) : Fits (.done .scale) A (v.settle config B taken pending) := by
  induction v using induct generalizing A B taken pending with
  | h n cs ih =>
    rw [settle_mk]
    refine fits_mk_iff.mpr ⟨rfl, ?_⟩
    intro w hw
    obtain ⟨c, hc, rfl⟩ := List.mem_map.mp hw
    exact ih c hc

/-! ### What the node above does -/

theorem not_shares_empty (c : Channel) : Resolve.empty.shares .scale c = false := rfl

/-- Before the node above takes anything, all that a view offers is there. -/
theorem keeps_empty (v : View) : v.keeps config A .empty [] = v.offers config A := by
  have hkeep : (fun (c : Channel) (_ : Scale) => !Resolve.empty.shares .scale c) =
      fun _ _ => true := by
    funext c _
    rw [not_shares_empty]
    rfl
  have hid : Scale.redirect [] = id := rfl
  rw [keeps, hkeep, Dict.filter_true, hid, Dict.mapValues_id]

theorem scales_settle (v : View) :
    (v.settle config A taken pending).node.components.scales =
      v.keeps config A taken pending := by
  cases v with
  | mk n cs =>
    rw [settle_mk]
    rfl

theorem dropSharedScales_settle (r : Resolve) (v : View) :
    (v.settle config A .empty pending).dropSharedScales r = v.settle config A r pending := by
  cases v with
  | mk n cs =>
    rw [settle_mk, settle_mk]
    have hk : ((mk n cs).keeps config A .empty pending).filter (fun c _ => !r.shares .scale c) =
        (mk n cs).keeps config A r pending := by
      unfold keeps
      rw [Dict.filter_mapValues, Dict.filter_filter]
      rfl
    rw [← hk]
    rfl

theorem redirect_redirect (xs ys : List DataRename) :
    Scale.redirect ys ∘ Scale.redirect xs = Scale.redirect (xs ++ ys) := by
  funext s
  simp [Scale.redirect, List.foldl_append]

/-- A facet's replacements come after those that were made below it. -/
theorem mapNodes_settle (renames : List DataRename) (v : View) :
    (v.settle config A taken pending).mapNodes (Node.update · (renameScales renames)) =
      v.settle config A taken (pending ++ renames) := by
  induction v using induct generalizing A taken pending with
  | h n cs ih =>
    have hk : ((mk n cs).keeps config A taken pending).mapValues (Scale.redirect renames) =
        (mk n cs).keeps config A taken (pending ++ renames) := by
      unfold keeps
      rw [Dict.mapValues_mapValues, redirect_redirect]
    -- further down, the replacements of the views on the way are made before these
    rw [settle_mk, settle_mk, mapNodes, mapNodesIn_eq, List.map_map, ← hk]
    congr 1
    apply List.map_congr_left
    intro c hc
    rw [Function.comp_apply, ih c hc, List.append_assoc]

/-! ### The phase -/

/-- The units that no facet encloses come in the order of all nodes. -/
theorem openUnits_sublist (v : View) : v.openUnits.Sublist v.nodes := by
  induction v using induct with
  | h n cs ih =>
    have hunder : (openUnitsIn cs).Sublist (nodesIn cs) := by
      rw [openUnitsIn_eq, nodesIn_eq]
      exact List.Sublist.flatMap_right cs ih
    -- a unit is there itself, a facet leaves no units of its cells open
    rw [openUnits, nodes]
    split
    · exact hunder.cons_cons n
    · split
      · exact List.nil_sublist _
      · exact hunder.cons n

theorem mem_nodes_of_mem_openUnits {v : View} {n : Node} (h : n ∈ v.openUnits) : n ∈ v.nodes :=
  (openUnits_sublist v).subset h

/-- Units that are described and done with some phase name their replacements. -/
theorem cellRenames_ok {root : FacetRoot} {units : List Node}
    (h : ∀ n ∈ units, n.components.data.isSome = true ∧
      ∃ phase, n.components.completed = some phase) :
    cellRenames root units = .ok (cellRenamesOf root (units.map Node.data)) := by
  unfold cellRenames cellRenamesOf
  rw [List.foldl_map]
  -- the induction is on the units, for whatever was collected before
  generalize [(⟨root.data, root.name⟩ : DataRename)] = start
  induction units generalizing start with
  | nil => rfl
  | cons n rest ih =>
    obtain ⟨hd, phase, hc⟩ := h n List.mem_cons_self
    obtain ⟨d, hd⟩ := Option.isSome_iff_exists.mp hd
    have hdata : n.data = d := by rw [Node.data, hd, Option.getD_some]
    rw [List.foldlM_cons, dataOrError_of_done hd hc, List.foldl_cons, hdata]
    exact ih (fun m hm => h m (List.mem_cons_of_mem _ hm)) _

theorem settle_completed {v : View} :
    ∀ n ∈ (v.settle config A taken pending).nodes, n.components.completed = some .scale := by
  induction v using induct generalizing A taken pending with
  | h m cs ih =>
    intro n hn
    rw [settle_mk, nodes, nodesIn_eq] at hn
    rcases List.mem_cons.mp hn with rfl | hn
    · rfl
    · obtain ⟨w, hw, hn⟩ := List.mem_flatMap.mp hn
      obtain ⟨c, hc, rfl⟩ := List.mem_map.mp hw
      exact ih c hc n hn

/-- The units in a facet's cells keep their data. -/
theorem openUnits_data {v w : View}
    (h : w.updateAll (Components.without .scale) = v.updateAll (Components.without .scale)) :
    w.openUnits.map Node.data = v.openUnits.map Node.data := by
  have hu := congrArg (fun x : View => x.openUnits.map Node.data) h
  rw [openUnits_updateAll, openUnits_updateAll, List.map_map, List.map_map] at hu
  exact hu

theorem openUnitsIn_data {cs ds : List View}
    (h : ds.map (updateAll (Components.without .scale)) =
      cs.map (updateAll (Components.without .scale))) :
    (openUnitsIn ds).map Node.data = (openUnitsIn cs).map Node.data := by
  induction cs generalizing ds with
  | nil => rw [List.map_eq_nil_iff.mp h]
  | cons c rest ih =>
    cases ds with
    | nil => simp at h
    | cons d more =>
      rw [List.map_cons, List.map_cons] at h
      obtain ⟨hd, hm⟩ := List.cons.inj h
      rw [openUnitsIn, openUnitsIn, List.map_append, List.map_append, openUnits_data hd, ih hm]

/-- Under a node whose views are described, all data stays known. -/
theorem openUnitsIn_known {cs ds : List View}
    (h : ds.map (updateAll (Components.without .scale)) =
      cs.map (updateAll (Components.without .scale)))
    (hcs : ∀ n ∈ nodesIn cs, n.components.data.isSome = true) :
    ∀ n ∈ openUnitsIn ds, n.components.data.isSome = true := by
  intro n hn
  rw [openUnitsIn_eq] at hn
  obtain ⟨d, hd, hn⟩ := List.mem_flatMap.mp hn
  -- both lists agree without their scales, so each unit has one with the same data
  have hmem : d.updateAll (Components.without .scale) ∈
      cs.map (updateAll (Components.without .scale)) := h ▸ List.mem_map_of_mem hd
  obtain ⟨c, hc, he⟩ := List.mem_map.mp hmem
  have hnodes := congrArg nodes he
  rw [nodes_updateAll, nodes_updateAll] at hnodes
  have hup : n.update (Components.without .scale) ∈
      c.nodes.map (Node.update · (Components.without .scale)) :=
    hnodes ▸ List.mem_map_of_mem (mem_nodes_of_mem_openUnits hn)
  obtain ⟨m, hm, hmn⟩ := List.mem_map.mp hup
  have hdata : m.components.data = n.components.data := by
    have hx := congrArg (fun x : Node => x.components.data) hmn
    exact hx
  rw [← hdata]
  apply hcs
  rw [nodesIn_eq]
  exact List.mem_flatMap.mpr ⟨c, hc, hm⟩

/-- What the scale phase needs of a site: it is as it was built and has some data. -/
def Prepared (whole : Spec) : Fact := fun s k =>
  s.Built whole ∧ k.data.isSome = true ∧ Fact.done .data s k

/-- A site with the data that it asks for, after the data phase. -/
def ReadyForScales (whole : Spec) (input : Option DataDef) : Fact := fun s k =>
  s.Built whole ∧ Described input s k ∧ Fact.done .data s k

theorem ReadyForScales.prepared {whole : Spec} {input : Option DataDef} {s : Site}
    {k : Components} (h : ReadyForScales whole input s k) : Prepared whole s k := by
  obtain ⟨hb, hd, hdone⟩ := h
  exact ⟨hb, Option.isSome_of_eq_some hd, hdone⟩

theorem localizeScales_settle {n : Node} {cs : List View} {d : DataComponent}
    (hd : n.components.data = some d) (hdone : n.components.completed = some .data)
    (hcs : ∀ m ∈ nodesIn cs, m.components.data.isSome = true) :
    localizeScales n (cs.map (settle config (n :: A) n.resolve [])) =
      .ok (cs.map (settle config (n :: A) n.resolve (renamesUnder n cs))) := by
  have hdata : n.data = d := by rw [Node.data, hd, Option.getD_some]
  unfold localizeScales renamesUnder
  by_cases hf : n.isFacet = true
  · rw [if_neg (by simp [hf]), if_pos hf, dataOrError_of_done hd hdone, hdata]
    dsimp only [bind, Except.bind]
    cases hr : d.facetRoot with
    | none => rfl
    | some root =>
      -- the units are looked up among the settled views, where they have the data they had before
      have hframe : (cs.map (settle config (n :: A) n.resolve [])).map
          (updateAll (Components.without .scale)) =
            cs.map (updateAll (Components.without .scale)) := by
        rw [List.map_map]
        exact List.map_congr_left (fun c _ => settle_frame c)
      have hunits : ∀ m ∈ openUnitsIn (cs.map (settle config (n :: A) n.resolve [])),
          m.components.data.isSome = true ∧ ∃ phase, m.components.completed = some phase := by
        intro m hm
        refine ⟨openUnitsIn_known hframe hcs m hm, .scale, ?_⟩
        rw [openUnitsIn_eq] at hm
        obtain ⟨w, hw, hm⟩ := List.mem_flatMap.mp hm
        obtain ⟨c, -, rfl⟩ := List.mem_map.mp hw
        exact settle_completed m (mem_nodes_of_mem_openUnits hm)
      dsimp only
      rw [cellRenames_ok hunits, openUnitsIn_data hframe]
      dsimp only [pure, Except.pure]
      rw [List.map_map]
      refine congrArg Except.ok (List.map_congr_left ?_)
      intro c _
      rw [Function.comp_apply, mapNodes_settle, List.nil_append]
      rfl
  · rw [if_pos (by simp [hf]), if_neg hf]

/-- The step of a layer or facet, once the views under it are done. -/
theorem mergeScales_settle {n : Node} {cs : List View}
    (hlocal : localizeScales n (cs.map (settle config (n :: A) n.resolve [])) =
      .ok (cs.map (settle config (n :: A) n.resolve (renamesUnder n cs))))
    (hn : n.isUnit = false) :
    ∃ w, (mk n (cs.map (settle config (n :: A) .empty []))).mergeScales = ⟨w, [], none⟩ ∧
      w.update (markDone .scale) = (mk n cs).settle config A .empty [] := by
  have hdrop : (cs.map (settle config (n :: A) .empty [])).map (dropSharedScales n.resolve) =
      cs.map (settle config (n :: A) n.resolve []) := by
    rw [List.map_map]
    exact List.map_congr_left (fun c _ => dropSharedScales_settle n.resolve c)
  have hmerged : mergedScales n.resolve (cs.map (settle config (n :: A) .empty [])) =
      (mk n cs).keeps config A .empty [] := by
    have hoffers : (mk n cs).offers config A = offersIn config (n :: A) n.resolve .empty cs := by
      rw [offers]
      split
      · rename_i u hu
        rw [Node.isUnit_of_unit hu] at hn
        exact absurd hn.symm Bool.false_ne_true
      · rfl
    rw [keeps_empty, hoffers, offersIn_eq, mergedScales, List.foldl_map]
    congr 1
    funext merged c
    rw [sharedScales, scales_settle, keeps_empty]
  rw [mergeScales, hdrop, hlocal, hmerged, settle_mk, List.append_nil]
  exact ⟨_, rfl, rfl⟩

/-- The step of any node, once the views under it are done. -/
theorem scaleStep_settle {whole : Spec} {n : Node} {cs : List View} {d : DataComponent}
    (hb : Site.Built whole ⟨A, mk n cs⟩) (hd : n.components.data = some d)
    (hdone : n.components.completed = some .data)
    (hlocal : localizeScales n (cs.map (settle config (n :: A) n.resolve [])) =
      .ok (cs.map (settle config (n :: A) n.resolve (renamesUnder n cs)))) :
    ∃ w, scaleStep config A (mk n (cs.map (settle config (n :: A) .empty []))) = ⟨w, [], none⟩ ∧
      w.update (markDone .scale) = (mk n cs).settle config A .empty [] := by
  -- only units make scales; layers and facets merge those of the views under them
  cases hk : n.kind with
  | unit u =>
    obtain rfl : cs = [] := hb.unit_leaf (Node.isUnit_of_unit hk)
    have hoffers : (mk n []).offers config A =
        Scale.ofUnit ⟨A, mk n []⟩ config u n.data.input := by
      rw [offers, hk]
    have hdata : n.components.dataOrError = .ok n.data := by
      rw [Node.data, hd]
      exact dataOrError_of_done hd hdone
    rw [settle_mk, keeps_empty, hoffers, scaleStep]
    dsimp only [node, List.map_nil]
    rw [hk]
    dsimp only
    rw [hdata]
    exact ⟨_, rfl, rfl⟩
  | layer size =>
    rw [scaleStep]
    dsimp only [node]
    rw [hk]
    exact mergeScales_settle hlocal (Node.not_unit_of_layer hk)
  | facet f =>
    rw [scaleStep]
    dsimp only [node]
    rw [hk]
    exact mergeScales_settle hlocal (Node.not_unit_of_facet hk)

/-- The scale phase never fails, and leaves the tree as seen from above. -/
theorem bottomUp_scale {whole : Spec} (config : Config) {v : View}
    (h : Fits (Prepared whole) A v) :
    (v.bottomUp .scale (scaleStep config) A).error = none ∧
      (v.bottomUp .scale (scaleStep config) A).view = v.settle config A .empty [] := by
  induction v using induct generalizing A with
  | h n cs ih =>
    obtain ⟨⟨hb, hdata, hdone⟩, hin⟩ := fits_mk_iff.mp h
    obtain ⟨d, hd⟩ := Option.isSome_iff_exists.mp hdata
    have hbelow : ∀ c ∈ cs, (c.bottomUp .scale (scaleStep config) (n :: A)).error = none ∧
        (c.bottomUp .scale (scaleStep config) (n :: A)).view = c.settle config (n :: A) .empty [] :=
      fun c hc => ih c hc (hin c hc)
    -- what a node finds under it is settled as if nothing was taken or replaced so far
    have hviews : cs.map (fun c => (c.bottomUp .scale (scaleStep config) (n :: A)).view) =
        cs.map (settle config (n :: A) .empty []) :=
      List.map_congr_left (fun c hc => (hbelow c hc).2)
    have hknown : ∀ m ∈ nodesIn cs, m.components.data.isSome = true := by
      intro m hm
      rw [nodesIn_eq] at hm
      obtain ⟨c, hc, hm⟩ := List.mem_flatMap.mp hm
      obtain ⟨s, hs, rfl⟩ := (mem_nodes_iff (A := n :: A)).mp hm
      exact (hin c hc s hs).2.1
    have hlocal : localizeScales n (cs.map (settle config (n :: A) n.resolve [])) =
        .ok (cs.map (settle config (n :: A) n.resolve (renamesUnder n cs))) :=
      localizeScales_settle hd hdone hknown
    obtain ⟨w, hw, hview⟩ := scaleStep_settle hb hd hdone hlocal
    rw [← hviews] at hw
    obtain ⟨he, hv⟩ := bottomUp_of_ok (fun c hc => (hbelow c hc).1) hw
    exact ⟨he, hv.trans hview⟩

end View
end Trellis

import Trellis.Proofs.Feeding

/-! Where scales are held after the scale phase: by every node that offers one, unless the node
above shares it. So the scale that a site uses for a channel exists, and is that of the node above
wherever that node shares scales. -/
namespace Trellis

namespace View

theorem merge_unite_map (f : Node → Node) (a b : Option (List Node)) :
    Option.merge unite (a.map (List.map f)) (b.map (List.map f)) =
      (Option.merge unite a b).map (List.map f) := by
  cases a with
  | none => simp
  | some us =>
    cases b with
    | none => simp
    | some vs => cases us <;> simp [unite]

theorem feeders_updateAll (g : Components → Components) (c : Channel) (v : View) :
    (v.updateAll g).feeders c = (v.feeders c).map (List.map (Node.update · g)) := by
  induction v using induct with
  | h n cs ih =>
    -- side by side, the units found so far are changed along with the views
    have hin (merged : Option (List Node)) :
        feedersIn c (merged.map (List.map (Node.update · g))) (cs.map (updateAll g)) =
          (feedersIn c merged cs).map (List.map (Node.update · g)) := by
      rw [feedersIn_eq, feedersIn_eq, List.foldl_map]
      induction cs generalizing merged with
      | nil => rfl
      | cons d rest ihr =>
        rw [List.foldl_cons, List.foldl_cons, ih d List.mem_cons_self, merge_unite_map]
        exact ihr (fun e he => ih e (List.mem_cons_of_mem _ he)) _
    have hnone := hin none
    rw [updateAll_mk, feeders, feeders]
    have hkind : (n.update g).kind = n.kind := rfl
    have hres : (n.update g).resolve = n.resolve := rfl
    rw [hkind, hres]
    cases n.kind with
    | unit u =>
      dsimp only
      cases u.positionFieldDef? c with
      | none => rfl
      | some f =>
        dsimp only [Option.map_some]
        split <;> rfl
    | _ =>
      dsimp only
      split
      · exact hnone
      · rfl

/-- Views that agree but for some components have the same units behind their scales. -/
theorem feeders_isSome_congr {g : Components → Components} {v w : View}
    (h : v.updateAll g = w.updateAll g) (c : Channel) :
    (v.feeders c).isSome = (w.feeders c).isSome := by
  have hf := congrArg (fun x : View => (x.feeders c).isSome) h
  simpa [feeders_updateAll] using hf

variable {config : Config} {A B : List Node} {taken : Resolve} {pending : List DataRename}

theorem offers_get?_none {c : Channel} (hc : c ∉ Channel.scaleChannels) (v : View) :
    (v.offers config A).get? c = none := by
  induction v using induct generalizing A with
  | h n cs ih =>
    have hin : ∀ merged : Dict Channel Scale, merged.get? c = none →
        (offersIn config (n :: A) n.resolve merged cs).get? c = none := by
      intro merged
      rw [offersIn_eq]
      induction cs generalizing merged with
      | nil => exact id
      | cons d rest ihr =>
        intro hm
        rw [List.foldl_cons]
        apply ihr (fun e he => ih e (List.mem_cons_of_mem _ he))
        rw [Scale.get?_mergeInto, hm, Dict.get?_filter, ih d List.mem_cons_self]
        rfl
    rw [offers]
    cases n.kind with
    | unit u =>
      unfold Scale.ofUnit
      rw [Dict.get?_ofList_filterMap, if_neg hc]
    | _ => exact hin .empty rfl

/-- The decision of the node above on the scales of a channel. -/
def takenAbove (A : List Node) (c : Channel) : Bool :=
  A.head?.any (fun p => p.resolve.shares .scale c)

/-- A node holds a scale for each channel for which it offers one, unless the node above has taken
it. -/
def Holds : Fact := fun s k => ∀ c, k.scales.contains c =
  (c.hasScale && (s.view.feeders c).isSome && !takenAbove s.ancestors c)

@[simp] theorem takenAbove_update (g : Components → Components) (A : List Node) (c : Channel) :
    takenAbove (A.map (Node.update · g)) c = takenAbove A c := by
  cases A <;> rfl

theorem holds_siteBlind (phase : Phase) : Fact.SiteBlind phase Holds := by
  intro s k
  have hfeed (c : Channel) : ((s.updateAll (Components.without phase)).view.feeders c).isSome =
      (s.view.feeders c).isSome := by
    unfold Site.updateAll
    rw [feeders_updateAll, Option.isSome_map]
  have htaken (c : Channel) : takenAbove (s.updateAll (Components.without phase)).ancestors c =
      takenAbove s.ancestors c := takenAbove_update _ _ c
  unfold Holds
  simp only [hfeed, htaken]

theorem holds_ownBlind {phase : Phase} (h : phase ≠ .scale) : Fact.OwnBlind phase Holds := by
  intro s k
  unfold Holds
  rw [Components.without_scales h]

theorem offers_isSome (v : View) (c : Channel) :
    ((v.offers config A).get? c).isSome = (c.hasScale && (v.feeders c).isSome) := by
  by_cases hc : c ∈ Channel.scaleChannels
  · have hscale : c.hasScale = true := List.contains_iff_mem.mpr hc
    rw [hscale, Bool.true_and]
    exact offers_isSome_feeders hc v
  · have hscale : c.hasScale = false := by
      rw [Channel.hasScale, Bool.eq_false_iff]
      exact fun h => hc (List.contains_iff_mem.mp h)
    rw [offers_get?_none hc, hscale]
    rfl

theorem keeps_contains (v : View) (c : Channel) :
    (v.keeps config A taken pending).contains c =
      (c.hasScale && (v.feeders c).isSome && !taken.shares .scale c) := by
  rw [← offers_isSome (A := A) v c]
  unfold keeps Dict.contains
  rw [Dict.get?_mapValues, Option.isSome_map, Dict.get?_filter]
  cases (v.offers config A).get? c with
  | none => rfl
  | some s => cases htaken : taken.shares .scale c <;> simp [Option.filter]

/-- In the tree that the scale phase leaves, scales are held as described. -/
theorem settle_holds {v : View} (hB : ∀ c, takenAbove B c = taken.shares .scale c) :
    Fits Holds B (v.settle config A taken pending) := by
  induction v using induct generalizing A B taken pending with
  | h n cs ih =>
    have hframe : ((mk n cs).settle config A taken pending).updateAll (Components.without .scale) =
        (mk n cs).updateAll (Components.without .scale) := settle_frame (mk n cs)
    rw [settle_mk] at hframe ⊢
    refine fits_mk_iff.mpr ⟨?_, ?_⟩
    · intro c
      rw [feeders_isSome_congr hframe, hB]
      exact keeps_contains (mk n cs) c
    · -- what a view under the node loses is what the node shares
      intro w hw
      obtain ⟨d, hd, rfl⟩ := List.mem_map.mp hw
      exact ih d hd (fun c => rfl)

end View

theorem View.feedersIn_isSome {c : Channel} {cs : List View} {merged : Option (List Node)}
    (h : merged.isSome = true ∨ ∃ d ∈ cs, (d.feeders c).isSome = true) :
    (View.feedersIn c merged cs).isSome = true := by
  induction cs generalizing merged with
  | nil => simpa [View.feedersIn] using h
  | cons d rest ih =>
    rw [View.feedersIn]
    apply ih
    rw [Option.isSome_merge, Bool.or_eq_true]
    rcases h with hm | ⟨e, he, hf⟩
    · exact .inl (.inl hm)
    · rcases List.mem_cons.mp he with rfl | he
      · exact .inl (.inr hf)
      · exact .inr ⟨e, he, hf⟩

/-- A layer or facet that shares the scales of a channel offers one if a view under it does. -/
theorem View.feeders_of_child {n : Node} {cs : List View} {d : View} {c : Channel}
    (hn : n.isUnit = false) (hd : d ∈ cs) (hshare : n.resolve.shares .scale c = true)
    (hf : (d.feeders c).isSome = true) : ((View.mk n cs).feeders c).isSome = true := by
  rw [View.feeders]
  cases hk : n.kind with
  | unit u => exact absurd (hn.symm.trans (Node.isUnit_of_unit hk)) Bool.false_ne_true
  | _ =>
    dsimp only
    rw [if_pos hshare]
    exact View.feedersIn_isSome (.inr ⟨d, hd, hf⟩)

@[simp] theorem primary_primary (c : Channel) : c.primary.primary = c.primary := by
  cases c <;> rfl

theorem primary_of_scaleChannel : ∀ c ∈ Channel.scaleChannels, c.primary = c := by decide

@[simp] theorem shares_primary (r : Resolve) (a : Aspect) (c : Channel) :
    r.shares a c.primary = r.shares a c := by
  unfold Resolve.shares Resolve.get
  rw [primary_primary]

/-! ### The scale in use -/

section
variable {whole : Spec} {v : View} {s : Site} {c : Channel}

/-- Where a node shares the scales of a channel, the views under it use the scale that it uses. -/
theorem scaleOwner?_child (h : View.Fits View.Holds [] v) (hs : s ∈ v.sites []) {w : View}
    (hw : w ∈ s.view.children) (hshare : s.node.resolve.shares .scale c = true) :
    Site.scaleOwner? ⟨s.lineage, w⟩ c = s.scaleOwner? c := by
  have hholds := h _ (View.child_mem_sites hs hw) c.primary
  -- the node has taken the scale, so a view under it does not hold it, and looks further up
  have htaken : View.takenAbove s.lineage c.primary = true := by
    unfold View.takenAbove Site.lineage
    rw [List.head?_cons, Option.any_some, shares_primary]
    exact hshare
  rw [htaken, Bool.not_true, Bool.and_false] at hholds
  unfold Site.scaleOwner?
  rw [Site.lineage, List.find?_cons_of_neg]
  simpa using hholds

/-- A site that offers a scale for a channel has one in use. -/
theorem scaleOwner?_isSome (h : View.Fits View.Holds [] v)
    (hb : View.Fits (fun s _ => s.Built whole) [] v) (hc : c.primary.hasScale = true)
    (hs : s ∈ v.sites []) (hf : (s.view.feeders c.primary).isSome = true) :
    (s.scaleOwner? c).isSome = true := by
  revert hf
  -- from the root down: either the site holds the scale, or the node above offers it as well
  refine View.sites_induct (Q := fun s => (s.view.feeders c.primary).isSome = true →
    (s.scaleOwner? c).isSome = true) ?_ ?_ s hs
  · intro hf
    have hholds := h _ (View.self_mem_sites [] v) c.primary
    rw [hc, hf] at hholds
    unfold Site.scaleOwner?
    rw [Site.lineage, List.find?_cons_of_pos]
    · rfl
    · exact hholds
  · intro t ht hup w hw hf
    by_cases hshare : t.node.resolve.shares .scale c = true
    · rw [scaleOwner?_child h ht hw hshare]
      apply hup
      obtain ⟨A, u⟩ := t
      cases u with
      | mk n cs =>
        have hunit : n.isUnit = false := by
          rw [Bool.eq_false_iff]
          intro hu
          have hnil : cs = [] := (hb _ ht).unit_leaf hu
          exact absurd (hnil ▸ hw) List.not_mem_nil
        exact View.feeders_of_child hunit hw ((shares_primary _ _ _).trans hshare) hf
    · have hholds := h _ (View.child_mem_sites ht hw) c.primary
      have htaken : View.takenAbove t.lineage c.primary = false := by
        unfold View.takenAbove Site.lineage
        rw [List.head?_cons, Option.any_some, shares_primary]
        exact Bool.eq_false_iff.mpr hshare
      rw [hc, hf, htaken] at hholds
      unfold Site.scaleOwner?
      rw [Site.lineage, List.find?_cons_of_pos]
      · rfl
      · exact hholds

end

namespace Site

/-- The name of the node whose scale a site uses for a channel. -/
def scaleHolder? (s : Site) (c : Channel) : Option String := (s.scaleOwner? c).map Node.name

theorem scaleHolder?_child {v : View} (h : View.Fits View.Holds [] v) {s : Site}
    (hs : s ∈ v.sites []) {w : View} (hw : w ∈ s.view.children) {c : Channel}
    (hshare : s.node.resolve.shares .scale c = true) :
    scaleHolder? ⟨s.lineage, w⟩ c = s.scaleHolder? c := by
  rw [scaleHolder?, scaleOwner?_child h hs hw hshare]
  rfl

theorem scaleOwner?_amend (h : Option String → Option String) {g : Components → Components}
    (hg : ∀ k, (g k).scales = k.scales) (s : Site) (c : Channel) :
    (s.mapNodes (Node.amend h g)).scaleOwner? c = (s.scaleOwner? c).map (Node.amend h g) := by
  have hsame : (fun n : Node => n.components.scales.contains c.primary) ∘ Node.amend h g =
      fun n => n.components.scales.contains c.primary := by
    funext n
    exact congrArg (fun d : Dict Channel Scale => d.contains c.primary) (hg n.components)
  unfold scaleOwner?
  rw [lineage_mapNodes, List.find?_map, hsame]

theorem scaleOwner?_updateAll {g : Components → Components} (hg : ∀ k, (g k).scales = k.scales)
    (s : Site) (c : Channel) :
    (s.updateAll g).scaleOwner? c = (s.scaleOwner? c).map (Node.update · g) :=
  scaleOwner?_amend id hg s c

theorem scaleHolder?_updateAll {g : Components → Components} (hg : ∀ k, (g k).scales = k.scales)
    (s : Site) (c : Channel) : (s.updateAll g).scaleHolder? c = s.scaleHolder? c := by
  unfold scaleHolder?
  rw [scaleOwner?_updateAll hg, Option.map_map]
  rfl

theorem scale?_amend (h : Option String → Option String) {g : Components → Components}
    (hg : ∀ k, (g k).scales = k.scales) (s : Site) (c : Channel) :
    (s.mapNodes (Node.amend h g)).scale? c = s.scale? c := by
  have hsame : (fun n : Node => n.components.scales.get? c.primary) ∘ Node.amend h g =
      fun n => n.components.scales.get? c.primary := by
    funext n
    exact congrArg (fun d : Dict Channel Scale => d.get? c.primary) (hg n.components)
  unfold scale?
  rw [scaleOwner?_amend h hg, Option.bind_map, hsame]

theorem scale?_updateAll {g : Components → Components} (hg : ∀ k, (g k).scales = k.scales)
    (s : Site) (c : Channel) : (s.updateAll g).scale? c = s.scale? c :=
  scale?_amend id hg s c

theorem scaleName_of_holder {s : Site} {c : Channel} {name : String}
    (h : s.scaleHolder? c = some name) :
    s.scaleName c = Naming.qualify name c.primary.name := by
  obtain ⟨n, hn, rfl⟩ := Option.map_eq_some_iff.mp h
  rw [scaleName, hn, Option.getD_some, Node.qualify]

end Site

/-- A site that offers a scale for a channel has one in use, which is also in use under it wherever
it shares scales. -/
def Uses : Fact := fun s _ =>
  (∀ c, c.primary.hasScale = true → (s.view.feeders c.primary).isSome = true →
      (s.scaleHolder? c).isSome = true) ∧
    ∀ w ∈ s.view.children, ∀ c, s.node.resolve.shares .scale c = true →
      Site.scaleHolder? ⟨s.lineage, w⟩ c = s.scaleHolder? c

theorem uses_siteBlind {phase : Phase} (h : phase ≠ .scale) : Fact.SiteBlind phase Uses := by
  intro s k
  have hholder (t : Site) (c : Channel) :
      (t.updateAll (Components.without phase)).scaleHolder? c = t.scaleHolder? c :=
    t.scaleHolder?_updateAll (Components.without_scales h) c
  have hfeed (c : Channel) : ((s.updateAll (Components.without phase)).view.feeders c).isSome =
      (s.view.feeders c).isSome := by
    show ((s.view.updateAll _).feeders c).isSome = _
    rw [View.feeders_updateAll, Option.isSome_map]
  have hres : (s.updateAll (Components.without phase)).node.resolve = s.node.resolve := by
    rw [Site.node_updateAll]
    rfl
  have hchild (w : View) (c : Channel) : Site.scaleHolder?
      ⟨(s.updateAll (Components.without phase)).lineage, w.updateAll (Components.without phase)⟩ c =
        Site.scaleHolder? ⟨s.lineage, w⟩ c := by
    rw [Site.lineage_updateAll]
    exact hholder ⟨s.lineage, w⟩ c
  have hchildren : (s.updateAll (Components.without phase)).view.children =
      s.view.children.map (View.updateAll (Components.without phase)) :=
    View.children_updateAll _ s.view
  unfold Uses
  rw [hchildren, List.forall_mem_map]
  simp only [hholder, hfeed, hres, hchild]

theorem uses_ownBlind (phase : Phase) : Fact.OwnBlind phase Uses := fun _ _ => Iff.rfl

theorem uses_of_holds {whole : Spec} {v : View} (h : View.Fits View.Holds [] v)
    (hb : View.Fits (fun s _ => s.Built whole) [] v) : View.Fits Uses [] v := by
  intro s hs
  constructor
  · intro c hc hf
    rw [Site.scaleHolder?, Option.isSome_map]
    exact scaleOwner?_isSome h hb hc hs hf
  · intro w hw c hshare
    rw [Site.scaleHolder?, Site.scaleHolder?, scaleOwner?_child h hs hw hshare]

/-- A name of a scale that a site uses for some channel. -/
def InUse (s : Site) (name : String) : Prop :=
  ∃ c holder, s.scaleHolder? c = some holder ∧ name = Naming.qualify holder c.primary.name

theorem inUse_updateAll {g : Components → Components} (hg : ∀ k, (g k).scales = k.scales)
    (s : Site) (name : String) : InUse (s.updateAll g) name ↔ InUse s name := by
  unfold InUse
  simp only [s.scaleHolder?_updateAll hg]

theorem inUse_scaleName {s : Site} {c : Channel} (h : (s.scaleHolder? c).isSome = true) :
    InUse s (s.scaleName c) := by
  obtain ⟨holder, hh⟩ := Option.isSome_iff_exists.mp h
  exact ⟨c, holder, hh, Site.scaleName_of_holder hh⟩

theorem feeders_unit {n : Node} {cs : List View} {u : UnitView} (hk : n.kind = .unit u)
    (c : Channel) : ((View.mk n cs).feeders c).isSome = (u.positionFieldDef? c).isSome := by
  rw [View.feeders_unit_eq hk, Option.isSome_map]

/-- A unit uses a scale for each channel with a scale on which it shows a field. -/
theorem scaleHolder?_unit {s : Site} {k : Components} (h : Uses s k) {u : UnitView}
    (hk : s.node.kind = .unit u) {c : Channel} (hc : c ∈ Channel.scaleChannels)
    (hf : (u.positionFieldDef? c).isSome = true) : (s.scaleHolder? c).isSome = true := by
  have hprimary := primary_of_scaleChannel c hc
  apply h.1
  · rw [hprimary]
    exact List.contains_iff_mem.mpr hc
  · rw [hprimary]
    obtain ⟨A, v⟩ := s
    cases v with
    | mk n cs => exact (feeders_unit hk c).trans hf

/-- Where a node shares the guide of a channel, the views under it use the scale that it uses. -/
theorem scaleHolder?_of_sharedGuide {whole : Spec} {s : Site} {k : Components}
    (hb : s.Built whole) (h : Uses s k) (hn : s.node.isUnit = false) {w : View}
    (hw : w ∈ s.view.children) {c : Channel} (hc : c ∈ Channel.scaleChannels)
    (hshare : s.node.resolve.shares (Resolve.guideAspect c) c = true) :
    Site.scaleHolder? ⟨s.lineage, w⟩ c = s.scaleHolder? c := by
  have hscale : s.node.resolve.shares .scale c = true := hb.guide_follows hn c hc hshare
  exact h.2 w hw c hscale

end Trellis

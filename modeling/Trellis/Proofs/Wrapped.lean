import Trellis.Proofs.Aliases
import Trellis.Proofs.Bands
import Trellis.Proofs.Columns
import Trellis.Proofs.Lifts
import Trellis.Proofs.Origins

/-! A unit within layers that hold nothing else, decide nothing and declare no size. What the unit
shows comes up through them, so the outermost layer ends up with what a unit alone has. -/
namespace Trellis

/-- A layer that decides nothing about what is under it. -/
structure Node.Plain (n : Node) : Prop where
  kind : n.kind = .layer ⟨none, none⟩
  resolve : n.resolve = Resolve.empty.composite.1

namespace Node.Plain

variable {n : Node}

/-- Where nothing is asked for, scales are shared on all channels that have one. -/
theorem shares_scale (h : n.Plain) {c : Channel} (hc : c ∈ Channel.scaleChannels) :
    n.resolve.shares .scale c = true := by
  rw [h.resolve]
  revert c
  decide

theorem shares_axis (h : n.Plain) (c : Channel) : n.resolve.shares .axis c = true := by
  rw [h.resolve]
  cases c <;> rfl

theorem shares_legend (h : n.Plain) (c : Channel) : n.resolve.shares .legend c = true := by
  rw [h.resolve]
  cases c <;> rfl

theorem not_unit (h : n.Plain) : n.isUnit = false := Node.not_unit_of_layer h.kind

end Node.Plain

/-- A unit with nothing but plain layers above it. -/
structure Site.Within (s : Site) (u : UnitView) : Prop where
  kind : s.node.kind = .unit u
  above : ∀ a ∈ s.ancestors, a.Plain

namespace View

/-- The view shows one unit, alone or within plain layers. -/
inductive Wraps (u : UnitView) : View → Prop
  | unit {n : Node} (hk : n.kind = .unit u) : Wraps u (mk n [])
  | layer {n : Node} {v : View} (hn : n.Plain) (hv : Wraps u v) : Wraps u (mk n [v])

/-- The site that is reached by going to the first view below as long as there is one. -/
def innermost (A : List Node) : View → Site
  | mk n [] => ⟨A, mk n []⟩
  | mk n (v :: _) => v.innermost (n :: A)

variable {u : UnitView} {v w : View} {A : List Node}

theorem wraps_updateAll (g : Components → Components) (v : View) :
    (v.updateAll g).Wraps u ↔ v.Wraps u := by
  constructor
  · induction v using View.induct with
    | h n cs ih =>
      rw [updateAll_mk]
      intro h
      cases cs with
      | nil =>
        cases h with
        | unit hk => exact .unit hk
      | cons w rest =>
        cases rest with
        | nil =>
          cases h with
          | layer hn hw =>
            -- a change of components touches neither the kind nor what is shared
            exact .layer ⟨hn.kind, hn.resolve⟩ (ih w List.mem_cons_self hw)
        | cons x more => cases h
  · intro h
    induction h with
    | unit hk =>
      rw [updateAll_mk]
      exact .unit hk
    | layer hn _ ih =>
      rw [updateAll_mk]
      exact .layer ⟨hn.kind, hn.resolve⟩ ih

/-- In traversal order the plain layers come first, then the unit. -/
theorem Wraps.sites_eq (h : v.Wraps u) (A : List Node) :
    ∃ above, v.sites A = above ++ [v.innermost A] ∧ ∀ s ∈ above, s.node.Plain := by
  induction h generalizing A with
  | unit hk => exact ⟨[], rfl, List.forall_mem_nil _⟩
  | @layer n v hn _ ih =>
    obtain ⟨above, hsites, habove⟩ := ih (n :: A)
    refine ⟨⟨A, mk n [v]⟩ :: above, ?_, List.forall_mem_cons.mpr ⟨hn, habove⟩⟩
    rw [sites_mk, List.flatMap_singleton, hsites]
    rfl

theorem Wraps.plain_above (h : v.Wraps u) (hA : ∀ a ∈ A, a.Plain) :
    ∀ s ∈ v.sites A, ∀ a ∈ s.ancestors, a.Plain := by
  induction h generalizing A with
  | @unit n hk =>
    intro s hs
    obtain rfl := List.mem_singleton.mp hs
    exact hA
  | @layer n v hn _ ih =>
    intro s hs
    rw [sites_mk, List.flatMap_singleton] at hs
    rcases List.mem_cons.mp hs with rfl | hs
    · exact hA
    · exact ih (List.forall_mem_cons.mpr ⟨hn, hA⟩) s hs

theorem Wraps.innermost_mem (h : v.Wraps u) (A : List Node) : v.innermost A ∈ v.sites A := by
  obtain ⟨above, hsites, -⟩ := h.sites_eq A
  rw [hsites]
  exact List.mem_append_right _ (List.mem_singleton_self _)

theorem Wraps.within (h : v.Wraps u) (hA : ∀ a ∈ A, a.Plain) : (v.innermost A).Within u := by
  refine ⟨?_, h.plain_above hA _ (h.innermost_mem A)⟩
  induction h generalizing A with
  | unit hk => exact hk
  | layer hn _ ih => exact ih (List.forall_mem_cons.mpr ⟨hn, hA⟩)

/-- What plain layers do not have is that of the unit. -/
theorem Wraps.flatMap_nodes {α : Type} {f : Node → List α} (h : v.Wraps u)
    (hf : ∀ n : Node, n.Plain → f n = []) : v.nodes.flatMap f = f (v.innermost []).node := by
  obtain ⟨above, hsites, habove⟩ := h.sites_eq []
  have hnone : above.flatMap (fun s => f s.node) = [] :=
    List.flatMap_eq_nil_iff.mpr (fun s hs => hf s.node (habove s hs))
  rw [← sites_map_node [], List.flatMap_map, hsites, List.flatMap_append, hnone, List.nil_append,
    List.flatMap_singleton]

theorem Wraps.any_nodes {p : Node → Bool} (h : v.Wraps u)
    (hp : ∀ n : Node, n.Plain → p n = false) : v.nodes.any p = p (v.innermost []).node := by
  obtain ⟨above, hsites, habove⟩ := h.sites_eq []
  have hnone : above.any (fun s => p s.node) = false := by
    rw [List.any_eq_false]
    exact fun s hs => Bool.not_eq_true _ ▸ hp s.node (habove s hs)
  rw [← sites_map_node [], List.any_map, hsites, List.any_append]
  change (above.any (fun s => p s.node) || _) = _
  rw [hnone, Bool.false_or, List.any_cons, List.any_nil, Bool.or_false]
  rfl

/-! ### What comes up -/

variable {config : Config} {c : Channel}

/-- A view offers the scales of its unit. -/
theorem Wraps.offers (h : v.Wraps u) (hc : c ∈ Channel.scaleChannels) :
    (v.offers config A).get? c =
      Scale.ofUnit? (v.innermost A) config u (v.innermost A).node.data.input c := by
  induction h generalizing A with
  | unit hk => rw [offers_unit hk, Scale.get?_ofUnit _ _ _ _ hc]; rfl
  | layer hn _ ih =>
    -- there is nothing to merge with what the only view below offers
    rw [get?_offers_composite hn.not_unit, hn.shares_scale hc, if_pos rfl, List.foldl_cons,
      List.foldl_nil, Option.merge_none_left, ih]
    rfl

/-- The axis of the unit comes up. -/
theorem Wraps.risingAxis? (h : v.Wraps u) :
    v.risingAxis? A c = Axis.ofUnit? (v.innermost A) u c := by
  induction h generalizing A with
  | unit hk => exact risingAxis?_unit hk c
  | layer hn _ ih =>
    rw [risingAxis?_layer hn.kind, hn.shares_axis c, if_pos rfl, List.findSome?_singleton, ih]
    rfl

/-- The legend of the unit comes up. -/
theorem Wraps.legend? (h : v.Wraps u) :
    Site.legend? ⟨A, v⟩ c = (Legend.ofUnit (v.innermost A) u).get? c := by
  induction h generalizing A with
  | unit hk => exact Site.legend?_unit hk
  | layer hn _ ih =>
    rw [Site.legend?_composite _ hn.not_unit, hn.shares_legend c, if_pos rfl,
      List.findSome?_singleton, ih]
    rfl

/-- The unit uses the scale that the view around it uses. -/
theorem Wraps.scaleOwner? {root : View} (h : v.Wraps u) (hholds : Fits Holds [] root)
    (hv : ⟨A, v⟩ ∈ root.sites []) (hc : c ∈ Channel.scaleChannels) :
    (v.innermost A).scaleOwner? c = Site.scaleOwner? ⟨A, v⟩ c := by
  induction h generalizing A with
  | unit hk => rfl
  | @layer n v hn _ ih =>
    -- the layer shares the scale, so the view below it looks for it further up
    have hbelow : v ∈ (Site.mk A (mk n [v])).view.children := List.mem_singleton_self v
    exact (ih (child_mem_sites hv hbelow)).trans
      (scaleOwner?_child hholds hv hbelow (hn.shares_scale hc))

end View

/-! ### What a unit shows in plain layers -/

namespace Site.Within

variable {s r : Site} {u : UnitView} {config : Config} {c : Channel}

/-- Plain layers have no size to hand down. -/
theorem declaredSize? (h : s.Within u) (d : Dimension) : s.declaredSize? d = u.size.get? d := by
  have hown : s.node.ownSize? d = u.size.get? d := by
    rw [Node.ownSize?, h.kind]
  have habove : (s.ancestors.takeWhile Node.isLayer).findSome? (fun n => n.ownSize? d) = none := by
    rw [List.findSome?_eq_none_iff]
    intro a ha
    rw [Node.ownSize?, (h.above a ((List.takeWhile_sublist _).mem ha)).kind]
    cases d <;> rfl
  rw [Site.declaredSize?, List.findSome?_cons, hown, habove]
  cases u.size.get? d <;> rfl

theorem scale_ofUnit? (hs : s.Within u) (hr : r.Within u) (input : String) :
    Scale.ofUnit? s config u input c = Scale.ofUnit? r config u input c := by
  have hrange (type : ScaleType) (f : FieldDef) (asked : ScaleDef) :
      Scale.defaultRange s config c type f asked = Scale.defaultRange r config c type f asked := by
    unfold Scale.defaultRange
    simp only [hs.declaredSize?, hr.declaredSize?]
  unfold Scale.ofUnit?
  simp only [hrange]

end Site.Within

/-! ### What the phases leave -/

namespace View

/-- Nothing is above the topmost view, so it keeps all scales that it offers. -/
theorem scales_eq_offers {config : Config} {v : View} (hholds : Fits Holds [] v)
    (hheld : Fits (Redirected config) [] v) :
    v.node.components.scales = v.offers config [] := by
  apply Dict.ext_get?
  intro c
  -- datasets are only renamed for facets above
  obtain ⟨renames, hnone, hget⟩ := hheld _ (self_mem_sites [] v)
  obtain rfl := hnone rfl
  cases hown : v.node.components.scales.get? c with
  | some scale =>
    obtain ⟨base, hbase, rfl⟩ := hget c scale hown
    exact hbase.symm
  | none =>
    have hcontains : v.node.components.scales.contains c = false := by
      rw [Dict.contains, hown]
      rfl
    have hoffered : ((v.offers config []).get? c).isSome = false := by
      rw [offers_isSome, ← hcontains]
      exact ((hholds.self c).trans (Bool.and_true _)).symm
    exact (Option.isNone_iff_eq_none.mp (Option.isSome_eq_false_iff.mp hoffered)).symm

/-- An axis that nothing is above is not turned. -/
def AxesTop : Fact := fun s k => s.ancestors = [] →
  ∀ c ∈ Channel.axisChannels, k.axes.getD c [] = (s.risingAxis? c).toList

theorem axesTop_siteBlind {phase : Phase} (h : phase ≠ .scale) :
    Fact.SiteBlind phase AxesTop := by
  intro s k
  unfold AxesTop
  simp only [s.risingAxis?_updateAll (Components.without_scales h)]
  exact imp_congr List.map_eq_nil_iff Iff.rfl

/-- The guide phase leaves the axes of the topmost view as they come up. -/
theorem bottomUp_axesTop {whole : Spec} (config : Config) {v : View}
    (hb : Fits (Blank whole) [] v) : Fits (AxesStay.both AxesTop) []
      (v.bottomUp .axisAndHeader (guideStep config) []).view := by
  have hrising := (bottomUp_rising config hb).2
  generalize (v.bottomUp .axisAndHeader (guideStep config) []).view = w at hrising
  intro s hs
  refine ⟨(rising_root hrising s hs).1, ?_⟩
  intro hnil c hc
  obtain ⟨A, x⟩ := s
  obtain rfl : A = [] := hnil
  cases w with
  | mk n cs =>
    -- all other views have a node above them
    rcases mem_sites_mk.mp hs with heq | ⟨d, hd, hs⟩
    · obtain rfl : x = mk n cs := congrArg Site.view heq
      exact hrising.heldAxes hc
    · exact absurd rfl (ancestors_ne_nil (List.mem_flatMap.mpr ⟨d, hd, hs⟩))

/-- The topmost view has all that comes up to it, and nothing is left below. -/
structure Risen (config : Config) (v : View) : Prop where
  holds : Fits Holds [] v
  scales : v.node.components.scales = v.offers config []
  axes : ∀ c, v.heldAxes c =
    if c ∈ Channel.axisChannels then (v.risingAxis? [] c).toList else []
  legends : ∀ c, v.node.components.legends.get? c = Site.legend? ⟨[], v⟩ c
  below : ∀ s ∈ v.sites [], s.ancestors ≠ [] → s.node.components.scales = .empty ∧
    (∀ c, s.view.heldAxes c = []) ∧ s.node.components.legends = .empty

section
variable {G : Dict String Json → Prop} {s : Site} {a : Node} {above : List Node}

/-- Only x and y have axes. -/
theorem heldAxes_of_not_axisChannel (h : Guided G s s.node.components) {c : Channel}
    (hc : c ∉ Channel.axisChannels) : s.view.heldAxes c = [] := by
  rw [heldAxes, Dict.getD]
  cases hget : s.view.node.components.axes.get? c with
  | none => rfl
  | some axes =>
    cases axes with
    | nil => rfl
    | cons a rest => exact absurd (h.1 c _ hget a List.mem_cons_self).positional hc

theorem scales_of_plain (h : Holds s s.node.components) (habove : s.ancestors = a :: above)
    (ha : a.Plain) : s.node.components.scales = .empty := by
  apply Dict.ext_get?
  intro c
  have hown := h c
  have hnone : s.node.components.scales.contains c = false := by
    rw [hown]
    cases hscale : c.hasScale with
    | false => rfl
    | true =>
      have htaken : takenAbove s.ancestors c = true := by
        rw [habove]
        exact ha.shares_scale (List.contains_iff_mem.mp hscale)
      rw [htaken, Bool.not_true, Bool.and_false]
  exact Option.isNone_iff_eq_none.mp (Option.isSome_eq_false_iff.mp hnone)

theorem axes_of_plain (h : AxesStay s s.node.components) (hg : Guided G s s.node.components)
    (habove : s.ancestors = a :: above) (ha : a.Plain) (c : Channel) :
    s.view.heldAxes c = [] := by
  by_cases hc : c ∈ Channel.axisChannels
  · have hhands : s.handsOn .axis c = true := by
      rw [Site.handsOn, habove]
      exact ha.shares_axis c
    have hstay := h c hc
    rw [Site.stayingAxis?, hhands] at hstay
    exact List.forall₂_nil_right_iff.mp hstay
  · exact heldAxes_of_not_axisChannel hg hc

theorem legends_of_plain (h : Promoted s s.node.components) (habove : s.ancestors = a :: above)
    (ha : a.Plain) : s.node.components.legends = .empty := by
  apply Dict.ext_get?
  intro c
  have hhands : s.handsOn .legend c = true := by
    rw [Site.handsOn, habove]
    exact ha.shares_legend c
  rw [h c, hhands]
  rfl

end

variable {config : Config} {v : View} {u : UnitView}

/-- Plain layers keep nothing. -/
theorem Wraps.risen {G : Dict String Json → Prop} (h : v.Wraps u) (hholds : Fits Holds [] v)
    (hheld : Fits (Redirected config) [] v) (haxes : Fits (AxesStay.both AxesTop) [] v)
    (hguided : Fits (Guided G) [] v) (hlegends : Fits Promoted [] v) : Risen config v := by
  have hself := self_mem_sites [] v
  refine ⟨hholds, scales_eq_offers hholds hheld, ?_, ?_, ?_⟩
  · intro c
    split
    · rename_i hc
      exact (haxes _ hself).2 rfl c hc
    · rename_i hc
      exact heldAxes_of_not_axisChannel (hguided _ hself) hc
  · exact fun c => hlegends _ hself c
  · intro s hs hne
    obtain ⟨a, above, habove⟩ := List.exists_cons_of_ne_nil hne
    have ha : a.Plain := by
      apply h.plain_above (List.forall_mem_nil _) s hs
      rw [habove]
      exact List.mem_cons_self
    exact ⟨scales_of_plain (hholds s hs) habove ha,
      axes_of_plain (haxes s hs).1 (hguided s hs) habove ha,
      legends_of_plain (hlegends s hs) habove ha⟩

end View

namespace Tree

variable {spec : Spec} {config : Config} {t : Tree} {ds : List Diagnostic} {u : UnitView}

/-- After all phases all that the unit shows is on the topmost view. -/
theorem risen_of_build (h : Tree.build spec config = .ok (t, ds)) (hwraps : t.root.Wraps u) :
    (t.parse .standard).tree.root.Wraps u ∧
      View.Risen config (t.parse .standard).tree.root := by
  obtain ⟨hbuilt, hbare, -⟩ := Tree.build_ok (G := fun _ => True) h
  obtain ⟨herror, hreached⟩ := hbuilt.parse trivial spec.guideExtras_true hbare
  rw [parse_of_build h] at herror hreached ⊢
  -- the phases work out components only
  have hfinal : (t.runPhases .standard Phase.all).tree.root.Wraps u :=
    (View.iff_of_strip_eq View.wraps_updateAll (runPhases_strip .standard Phase.all t)).mpr hwraps
  refine ⟨hfinal, hfinal.risen (G := fun _ => True) ?_ ?_ ?_ ?_ (promoted_of_build h herror)⟩
  · exact holds_of_build h .standard [.layoutSize, .selection, .markGroup, .axisAndHeader, .legend]
  · exact redirected_of_build h .standard
      [.layoutSize, .selection, .markGroup, .axisAndHeader, .legend]
  · refine guides_establish h [.legend] ?_ (fun config _ => View.bottomUp_axesTop config) herror
    rw [List.forall_mem_singleton]
    exact ⟨(View.axesStay_siteBlind (by decide)).both (View.axesTop_siteBlind (by decide)),
      fun _ _ => Iff.rfl⟩
  · exact (View.complete_of_known hreached.known).mono (fun _ _ hk => hk.guided)

end Tree

/-! ### One unit, shown twice -/

namespace View

/-- When all phases are over, the view shows the unit by itself: it has no name, reads the records
that all views start from, and has everything at the top. -/
structure Presents (config : Config) (u : UnitView) (v : View) : Prop where
  wraps : v.Wraps u
  risen : Risen config v
  unnamed : v.node.name = ""
  common : (v.innermost []).node.data.input = Naming.main

variable {config : Config} {u : UnitView} {v w : View} {c : Channel}

theorem Presents.within (h : v.Presents config u) : (v.innermost []).Within u :=
  h.wraps.within (List.forall_mem_nil _)

theorem Presents.get?_scales (h : v.Presents config u) {r : Site} (hr : r.Within u)
    (hc : c ∈ Channel.scaleChannels) :
    v.node.components.scales.get? c = Scale.ofUnit? r config u Naming.main c := by
  rw [h.risen.scales, h.wraps.offers hc, h.common]
  exact h.within.scale_ofUnit? hr Naming.main

theorem Presents.scales_eq (hv : v.Presents config u) (hw : w.Presents config u) :
    v.node.components.scales = w.node.components.scales := by
  apply Dict.ext_get?
  intro c
  by_cases hc : c ∈ Channel.scaleChannels
  · rw [hv.get?_scales hw.within hc, hw.get?_scales hw.within hc]
  · rw [hv.risen.scales, hw.risen.scales, offers_get?_none hc, offers_get?_none hc]

/-- The scales that the unit uses are at the top. -/
theorem Presents.scaleOwner? (h : v.Presents config u) (hc : c ∈ Channel.scaleChannels) :
    (v.innermost []).scaleOwner? c =
      if v.node.components.scales.contains c then some v.node else none := by
  rw [h.wraps.scaleOwner? h.risen.holds (self_mem_sites [] v) hc, Site.scaleOwner?,
    primary_of_scaleChannel c hc]
  exact List.find?_singleton

theorem Presents.scale?_eq (hv : v.Presents config u) (hw : w.Presents config u)
    (hc : c ∈ Channel.scaleChannels) :
    (v.innermost []).scale? c = (w.innermost []).scale? c := by
  have hown {x : View} (hx : x.Presents config u) :
      (x.innermost []).scale? c = x.node.components.scales.get? c := by
    rw [Site.scale?, hx.scaleOwner? hc, primary_of_scaleChannel c hc]
    cases hget : x.node.components.scales.get? c with
    | none => rw [Dict.contains, hget]; rfl
    | some scale => rw [Dict.contains, hget]; exact hget
  rw [hown hv, hown hw, hv.scales_eq hw]

/-- Where the unit shows a field, it uses a scale under the name of the channel. -/
theorem Presents.scaleName (h : v.Presents config u) (hc : c ∈ Channel.scaleChannels)
    (hf : (u.positionFieldDef? c).isSome = true) :
    (v.innermost []).scaleName c = Naming.qualify "" c.name := by
  have hcontains : v.node.components.scales.contains c = true := by
    rw [Dict.contains, h.get?_scales h.within hc, Scale.ofUnit?, Option.isSome_map]
    exact hf
  rw [Site.scaleName, h.scaleOwner? hc, if_pos hcontains, Option.getD_some, Node.qualify,
    h.unnamed, primary_of_scaleChannel c hc]

theorem Presents.axis_eq (hv : v.Presents config u) (hw : w.Presents config u)
    (hc : c ∈ Channel.axisChannels) :
    Axis.ofUnit? (v.innermost []) u c = Axis.ofUnit? (w.innermost []) u c := by
  have hscale : c ∈ Channel.scaleChannels := List.mem_append_left _ hc
  unfold Axis.ofUnit?
  cases hf : u.positionFieldDef? c with
  | none => rfl
  | some f =>
    have hsome : (u.positionFieldDef? c).isSome = true := by rw [hf]; rfl
    rw [hv.scale?_eq hw hscale, hv.scaleName hscale hsome, hw.scaleName hscale hsome]

theorem Presents.legend_eq (hv : v.Presents config u) (hw : w.Presents config u)
    (hc : c ∈ Channel.legendChannels) :
    Legend.ofUnit? (v.innermost []) u c = Legend.ofUnit? (w.innermost []) u c := by
  have hscale : c ∈ Channel.scaleChannels := List.mem_append_right _ hc
  unfold Legend.ofUnit?
  cases hf : u.fieldDef? c with
  | none => rfl
  | some f =>
    have hsome := Encode.positionFieldDef?_near hf
    rw [hv.scale?_eq hw hscale, hv.scaleName hscale hsome, hw.scaleName hscale hsome]

/-! ### What is drawn -/

theorem Wraps.groupSites_eq (h : v.Wraps u) (A : List Node) : v.groupSites A = v.sites A := by
  induction h generalizing A with
  | unit hk => rw [groupSites, Node.not_layer_of_unit hk, if_neg Bool.false_ne_true]; rfl
  | layer hn _ ih =>
    rw [groupSites, Node.isLayer_of_layer hn.kind, if_pos rfl, groupSitesIn_eq, sites_mk,
      List.flatMap_singleton, List.flatMap_singleton, ih]

/-- The group of the topmost view has what the topmost view has. -/
theorem Presents.groupMembers_flatMap {α : Type} {f : Site → List α} (h : v.Presents config u)
    (hf : ∀ s ∈ v.sites [], s.ancestors ≠ [] → f s = []) :
    (Site.groupMembers ⟨[], v⟩).flatMap f = f ⟨[], v⟩ := by
  rw [Site.groupMembers, h.wraps.groupSites_eq, flatMap_sites_top hf]

theorem Presents.groupScales (h : v.Presents config u) : Site.groupScales ⟨[], v⟩ =
    v.node.components.scales.entries.map (fun e =>
      ⟨Naming.qualify "" e.1.name, e.2, fun d => Naming.qualify "" d.name⟩) := by
  have hqualify (text : String) : v.node.qualify text = Naming.qualify "" text := by
    rw [Node.qualify, h.unnamed]
  have hsize : Site.sizeSignal ⟨[], v⟩ = fun d => Naming.qualify "" d.name := by
    funext d
    -- only a facet goes by the sizes of the view under it
    have hfacet : v.node.isFacet = false := by
      cases h.wraps with
      | unit hk => exact Node.not_facet_of_unit hk
      | layer hn _ => exact Node.not_facet_of_layer hn.kind
    rw [← hqualify]
    cases v with
    | mk n cs => exact sizeSignal_of_not_facet hfacet cs d
  rw [Site.groupScales, h.groupMembers_flatMap]
  · apply List.map_congr_left
    rintro ⟨c, scale⟩ _
    rw [hsize]
    exact congrArg (fun name => NamedScale.mk name scale _) (hqualify c.name)
  · intro s hs hne
    rw [(h.risen.below s hs hne).1]
    rfl

theorem Presents.groupAxes (h : v.Presents config u) : Site.groupAxes ⟨[], v⟩ =
    (Axis.ofUnit (v.innermost []) u).values.flatten := by
  rw [Site.groupAxes, h.groupMembers_flatMap]
  · apply Dict.flatten_values_congr
    intro c
    refine (h.risen.axes c).trans ?_
    rw [h.wraps.risingAxis?, Dict.getD, Axis.ofUnit_get?]
    split
    · cases Axis.ofUnit? (v.innermost []) u c <;> rfl
    · rfl
  · intro s hs hne
    exact Dict.flatten_values_congr (e := .empty) (h.risen.below s hs hne).2.1

theorem Presents.groupLegends (h : v.Presents config u) : Site.groupLegends ⟨[], v⟩ =
    (Legend.ofUnit (v.innermost []) u).values := by
  rw [Site.groupLegends, h.groupMembers_flatMap]
  · have hown : v.node.components.legends = Legend.ofUnit (v.innermost []) u :=
      Dict.ext_get? (fun c => (h.risen.legends c).trans h.wraps.legend?)
    exact congrArg Dict.values hown
  · intro s hs hne
    rw [(h.risen.below s hs hne).2.2]
    rfl

/-- The scales of the group are those that the unit offers, whatever is around it. -/
theorem Presents.groupScales_eq (hv : v.Presents config u) (hw : w.Presents config u) :
    Site.groupScales ⟨[], v⟩ = Site.groupScales ⟨[], w⟩ := by
  rw [hv.groupScales, hw.groupScales, hv.scales_eq hw]

theorem Presents.groupAxes_eq (hv : v.Presents config u) (hw : w.Presents config u) :
    Site.groupAxes ⟨[], v⟩ = Site.groupAxes ⟨[], w⟩ := by
  have haxes : Axis.ofUnit (v.innermost []) u = Axis.ofUnit (w.innermost []) u := by
    apply Dict.ext_get?
    intro c
    rw [Axis.ofUnit_get?, Axis.ofUnit_get?]
    by_cases hc : c ∈ Channel.axisChannels
    · rw [if_pos hc, if_pos hc, hv.axis_eq hw hc]
    · rw [if_neg hc, if_neg hc]
  rw [hv.groupAxes, hw.groupAxes, haxes]

theorem Presents.groupLegends_eq (hv : v.Presents config u) (hw : w.Presents config u) :
    Site.groupLegends ⟨[], v⟩ = Site.groupLegends ⟨[], w⟩ := by
  have hlegends : Legend.ofUnit (v.innermost []) u = Legend.ofUnit (w.innermost []) u := by
    apply Dict.ext_get?
    intro c
    rw [Legend.ofUnit, Legend.ofUnit, Dict.get?_ofList_filterMap, Dict.get?_ofList_filterMap]
    by_cases hc : c ∈ Channel.legendChannels
    · rw [if_pos hc, if_pos hc, hv.legend_eq hw hc]
    · rw [if_neg hc, if_neg hc]
  rw [hv.groupLegends, hw.groupLegends, hlegends]

/-! ### Data -/

section
variable {input : Option DataDef}

theorem Wraps.kinds (h : v.Wraps u) :
    ∀ s ∈ v.sites [], s.node.Plain ∨ s.node.kind = .unit u := by
  obtain ⟨above, hsites, habove⟩ := h.sites_eq []
  rw [hsites]
  intro s hs
  rcases List.mem_append.mp hs with hs | hs
  · exact .inl (habove s hs)
  · rw [List.mem_singleton.mp hs]
    exact .inr (h.within (List.forall_mem_nil _)).kind

/-- Neither plain layers nor units that aggregate nothing bring data along. -/
theorem Wraps.sources (h : v.Wraps u) (hd : Fits (Described input) [] v)
    (hu : u.isAggregate = false) :
    v.nodes.flatMap (fun n => n.data.sources) = DataComponent.rootSources input v := by
  have hown : ∀ s ∈ v.sites [], (DataComponent.ofKind s).sources = [] := by
    intro s hs
    unfold DataComponent.ofKind
    rcases h.kinds s hs with hplain | hk
    · rw [hplain.kind]
      rfl
    · rw [hk]
      dsimp only
      rw [DataComponent.ofUnit, hu]
      rfl
  -- what is left is the input, which the root brings along
  rw [sources_of_sites hd, flatMap_sites_top]
  · rw [parse_sources, hown _ (self_mem_sites [] v), List.append_nil]
    rfl
  · intro s hs hne
    have hroot : s.isRoot = false := by
      rw [Site.isRoot, List.isEmpty_eq_false_iff]
      exact hne
    rw [parse_sources, hown s hs, hroot]
    rfl

/-- What all views start from depends on the unit only. -/
theorem Wraps.rootSources_eq (hv : v.Wraps u) (hw : w.Wraps u) :
    DataComponent.rootSources input v = DataComponent.rootSources input w := by
  have hkind {x : View} (hx : x.Wraps u) : (x.innermost []).node.kind = .unit u :=
    (hx.within (List.forall_mem_nil _)).kind
  have hidentify {x : View} (hx : x.Wraps u) : x.nodes.any Node.needsIdentifier =
      u.selection.values.any (fun s => s.type ≠ .interval) := by
    rw [hx.any_nodes]
    · rw [Node.needsIdentifier, Node.unit?, hkind hx]
      rfl
    · intro n hn
      rw [Node.needsIdentifier, Node.unit?, hn.kind]
      rfl
  have hunits {x : View} (hx : x.Wraps u) : x.nodes.flatMap Node.timeUnitFieldDefs =
      u.fieldDefs.filter (fun f => f.timeUnit.isSome && f.aggregate.isNone) := by
    rw [hx.flatMap_nodes]
    · rw [Node.timeUnitFieldDefs, hkind hx]
    · intro n hn
      rw [Node.timeUnitFieldDefs, hn.kind]
      rfl
  rw [DataComponent.rootSources, DataComponent.rootSources, hidentify hv, hidentify hw, hunits hv,
    hunits hw]

/-- There is no other selection than those of the unit. -/
theorem Wraps.declared? (h : v.Wraps u) (key : String) :
    v.declared? key = (v.innermost []).node.declared.get? key := by
  obtain ⟨above, hsites, habove⟩ := h.sites_eq []
  have hnone : above.findSome? ((fun n => n.declared.get? key) ∘ Site.node) = none := by
    rw [List.findSome?_eq_none_iff]
    intro s hs
    rw [Function.comp_apply, Node.declared_of_not_unit (habove s hs).not_unit, Dict.get?_empty]
  rw [View.declared?, ← sites_map_node [], List.findSome?_map, hsites, List.findSome?_append,
    hnone, Option.none_or, List.findSome?_singleton, Function.comp_apply]

/-- Each selection of the unit has a store. -/
theorem Wraps.selectionStores (h : v.Wraps u) (hr : Resolved ⟨[], v⟩ v.node.components) :
    Site.selectionStores ⟨[], v⟩ =
      u.selection.keys.map (fun key => .bare (Naming.store (Naming.identifierText key))) := by
  have hkind := (h.within (List.forall_mem_nil _)).kind
  have hknown : v.node.components.selection = (v.innermost []).node.declared :=
    Dict.ext_get? (fun key => (hr key).trans (h.declared? key))
  have hkeys : v.node.components.selection.keys = u.selection.keys := by
    apply Dict.keys_ext
    intro key
    rw [hknown, (Node.declared_keys _).mem_iff, Node.selectionKeys, Node.unit?, hkind]
    rfl
  have hnames : v.node.components.selection.values.map Selection.name =
      u.selection.keys.map Naming.identifierText := by
    rw [← hkeys, hknown, Node.declared_values_name]
  calc Site.selectionStores ⟨[], v⟩
      = (v.node.components.selection.values.map Selection.name).map
          (fun name => .bare (Naming.store name)) := by rw [List.map_map]; rfl
    _ = _ := by rw [hnames, List.map_map]; rfl

end

end View

/-! ### Built trees -/

/-- A built tree that shows one unit, which has no name and aggregates nothing. -/
structure Tree.ShowsOnly (t : Tree) (spec : Spec) (config : Config) (u : UnitView) : Prop where
  built : ∃ ds, Tree.build spec config = .ok (t, ds)
  wraps : t.root.Wraps u
  unnamed : t.root.node.name = ""
  raw : u.isAggregate = false

namespace Tree.ShowsOnly

variable {spec other : Spec} {config : Config} {t r : Tree} {u : UnitView}

theorem presents (h : t.ShowsOnly spec config u) :
    View.Presents config u (t.parse .standard).tree.root := by
  obtain ⟨ds, hb⟩ := h.built
  obtain ⟨hwraps, hrisen⟩ := risen_of_build hb h.wraps
  refine ⟨hwraps, hrisen, ?_, ?_⟩
  · have hstrip := runPhases_strip .standard Phase.all t
    rw [parse_of_build hb]
    have hname := congrArg (fun v => v.node.name) hstrip
    rw [View.strip, View.strip, View.node_updateAll, View.node_updateAll] at hname
    exact hname.trans h.unnamed
  · have hkind := (hwraps.within (List.forall_mem_nil _)).kind
    have hmem := View.mem_nodes_iff.mpr ⟨_, hwraps.innermost_mem [], rfl⟩
    rw [input_eq_rawData (drawnAs_of_build hb).described _ hmem (Node.isUnit_of_unit hkind),
      Node.rawData, Node.isAggregated_unit hkind, h.raw]
    rfl

theorem data_eq (h : t.ShowsOnly spec config u) : (t.parse .standard).tree.drawn.data =
    DataComponent.rootSources spec.data? (t.parse .standard).tree.root ++
      u.selection.keys.map (fun key => .bare (Naming.store (Naming.identifierText key))) := by
  obtain ⟨ds, hb⟩ := h.built
  have hwraps := h.presents.wraps
  have hresolved := resolved_of_build hb .standard
  have hdata : (t.parse .standard).tree.data = spec.data? := by
    obtain ⟨-, -, -, hbuilt⟩ := Tree.build_ok (G := fun _ => True) hb
    exact (runPhases_data .standard _ t).trans hbuilt
  rw [← parse_of_build hb] at hresolved
  have hdescribed := (drawnAs_of_build hb).described
  rw [(drawnAs_of_build hb).data_eq, hwraps.sources hdescribed h.raw, hdata]
  exact congrArg _ (hwraps.selectionStores (hresolved.self))

/-- What is around the unit makes no difference to what is drawn for it, as far as data, scales and
guides go. -/
theorem drawn_eq (ht : t.ShowsOnly spec config u) (hr : r.ShowsOnly other config u)
    (hdata : spec.data? = other.data?) :
    (t.parse .standard).tree.drawn.data = (r.parse .standard).tree.drawn.data ∧
      (t.parse .standard).tree.drawn.group.scales = (r.parse .standard).tree.drawn.group.scales ∧
      (t.parse .standard).tree.drawn.group.axes = (r.parse .standard).tree.drawn.group.axes ∧
      (t.parse .standard).tree.drawn.group.legends =
        (r.parse .standard).tree.drawn.group.legends := by
  refine ⟨?_, ht.presents.groupScales_eq hr.presents, ht.presents.groupAxes_eq hr.presents,
    ht.presents.groupLegends_eq hr.presents⟩
  rw [ht.data_eq, hr.data_eq, hdata, ht.presents.wraps.rootSources_eq hr.presents.wraps]

end Tree.ShowsOnly

end Trellis

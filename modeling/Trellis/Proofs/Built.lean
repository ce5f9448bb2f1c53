import Mathlib.Tactic.MkIffOfInductiveProp
import Trellis.Proofs.Facts
import Trellis.Proofs.Faults
import Trellis.Proofs.Sharing

/-! The shape of a built tree: units are leaves, a facet has one view under it and only facets above
it, and all names differ. -/
namespace Trellis

/-! ### What is kept of what is asked for -/

/-- Of all entries those that are accepted are kept, and the others are reported. -/
theorem foldl_accept {α β : Type} (accept : Channel → α → Except Diagnostic β)
    {next : Dict Channel β × List Diagnostic → Channel × α → Dict Channel β × List Diagnostic}
    (hok : ∀ done e b, accept e.1 e.2 = .ok b → next done e = (done.1.insert e.1 b, done.2))
    (herror : ∀ done e x, accept e.1 e.2 = .error x → next done e = (done.1, done.2 ++ [x]))
    (es : List (Channel × α)) (done : Dict Channel β × List Diagnostic) :
    es.foldl next done =
      ((es.filterMap (fun e => (accept e.1 e.2).toOption.map (fun b => (e.1, b)))).foldl
          (fun d e => d.insert e.1 e.2) done.1,
        done.2 ++ es.filterMap (fun e => refusal? (accept e.1 e.2))) := by
  induction es generalizing done with
  | nil =>
    rw [List.filterMap_nil, List.filterMap_nil, List.append_nil]
    rfl
  | cons e rest ih =>
    rw [List.foldl_cons, ih, List.filterMap_cons, List.filterMap_cons]
    cases h : accept e.1 e.2 with
    | ok b =>
      rw [hok done e b h]
      rfl
    | error x =>
      rw [herror done e x h, List.append_assoc]
      rfl

namespace UnitView

theorem acceptAll_eq (mark : MarkDef) (encoding : Encoding) : acceptAll mark encoding =
    (.ofList (encoding.entries.filterMap (fun e =>
        (accept mark e.1 e.2).toOption.map (fun d => (e.1, d)))),
      encoding.entries.filterMap (fun e => refusal? (accept mark e.1 e.2))) := by
  refine foldl_accept (accept mark) ?_ ?_ encoding.entries (.empty, [])
  · intro done e d h
    simp only [h]
  · intro done e x h
    simp only [h]

/-- A unit shows the channels that are asked for and accepted. -/
theorem get?_acceptAll (mark : MarkDef) (encoding : Encoding) (c : Channel) :
    (acceptAll mark encoding).1.get? c =
      (encoding.get? c).bind (fun d => (accept mark c d).toOption) := by
  rw [acceptAll_eq]
  exact Dict.get?_ofList_filterMap_entries (fun c d => (accept mark c d).toOption) encoding c

end UnitView

namespace FacetView

theorem ofBindings_eq (bindings : Dict Channel FieldDef) : ofBindings bindings =
    (⟨.ofList (bindings.entries.filterMap (fun e =>
        (accept e.1 e.2).toOption.map (fun f => (e.1, f))))⟩,
      bindings.entries.filterMap (fun e => refusal? (accept e.1 e.2))) := by
  refine congrArg (fun r : Dict Channel FieldDef × List Diagnostic => (FacetView.mk r.1, r.2))
    (foldl_accept accept ?_ ?_ bindings.entries (.empty, []))
  · intro done e f h
    simp only [h]
  · intro done e x h
    simp only [h]

end FacetView

/-! ### Sites -/

/-- What building a specification makes of a site. -/
@[mk_iff]
structure Site.Built (whole : Spec) (s : Site) : Prop where
  unit_leaf : s.node.isUnit = true → s.view.children = []
  facet_single : s.node.isFacet = true → ∃ c, s.view.children = [c]
  facet_above : s.node.isFacet = true → ∀ a ∈ s.ancestors, a.isFacet = true
  /-- A layer or facet shares no guide over scales that it keeps apart. -/
  guide_follows : s.node.isUnit = false → ∀ c ∈ Channel.scaleChannels, s.node.resolve.GuideFollows c
  /-- A unit shows what its specification asks for and its mark can show. -/
  unit_shows : ∀ u, s.node.kind = .unit u → ∃ spec, .unit spec ∈ whole.parts ∧
    u.encoding = (UnitView.acceptAll spec.mark spec.encoding).1

@[simp] theorem Site.built_updateAll {whole : Spec} (g : Components → Components) (s : Site) :
    (s.updateAll g).Built whole ↔ s.Built whole := by
  have hnode : (s.updateAll g).node = s.node.update g := s.node_updateAll g
  have hview : (s.updateAll g).view.children = s.view.children.map (View.updateAll g) :=
    View.children_updateAll g s.view
  -- only the components change: neither how many views there are nor what kind they are
  have hsingle : (∃ c, (s.updateAll g).view.children = [c]) ↔ ∃ c, s.view.children = [c] := by
    rw [hview]
    constructor
    · rintro ⟨c, hc⟩
      obtain ⟨d, hd, -⟩ := List.map_eq_singleton_iff.mp hc
      exact ⟨d, hd⟩
    · rintro ⟨c, hc⟩
      exact ⟨c.updateAll g, by rw [hc, List.map_singleton]⟩
  have habove : (∀ a ∈ (s.updateAll g).ancestors, a.isFacet = true) ↔
      ∀ a ∈ s.ancestors, a.isFacet = true := by
    unfold Site.updateAll
    rw [List.forall_mem_map]
    rfl
  have hleaf : (s.updateAll g).view.children = [] ↔ s.view.children = [] := by
    rw [hview, List.map_eq_nil_iff]
  rw [Site.built_iff, Site.built_iff, hleaf, hsingle, habove, hnode]
  rfl

theorem built_siteBlind (whole : Spec) (phase : Phase) :
    Fact.SiteBlind phase (fun s _ => s.Built whole) :=
  fun s _ => s.built_updateAll _

theorem built_ownBlind (whole : Spec) (phase : Phase) :
    Fact.OwnBlind phase (fun s _ => s.Built whole) :=
  fun _ _ => Iff.rfl

/-- The site is built and nothing is worked out for it yet. -/
def BuiltBlank (whole : Spec) : Fact := fun s k => s.Built whole ∧ k = .empty

namespace View

variable {config : Config} {A : List Node} {given : String} {p q : Progress} {v : View}

theorem place_unit_ok {s : UnitSpec} (h : place config A given p (.unit s) = .ok (v, q)) :
    ∃ n : Node, v = mk n [] ∧
      n.kind = .unit (UnitView.ofSpec s config (A.any Node.isFacet)).1 ∧
      n.components = .empty ∧ n.index = p.index ∧
      n.name = p.freshName (s.props.name.getD given) ∧
      q = p.enter n.name (UnitView.acceptAll s.mark s.encoding).2 := by
  rw [place] at h
  obtain ⟨rfl, rfl⟩ := Prod.mk.inj (Except.ok.inj h)
  exact ⟨_, rfl, rfl, rfl, rfl, rfl, rfl⟩

theorem place_layer_ok {s : LayerSpec} {children : List Spec}
    (h : place config A given p (.layer s children) = .ok (v, q)) :
    ∃ n vs, v = mk n vs ∧ n.kind = .layer s.size ∧ n.resolve = s.resolve.composite.1 ∧
      n.components = .empty ∧ n.index = p.index ∧
      n.name = p.freshName (s.props.name.getD given) ∧ children ≠ [] ∧
      placeAll config (n :: A) n.name 0 (p.enter n.name s.resolve.composite.2) children =
        .ok (vs, q) := by
  rw [place] at h
  dsimp only at h
  split at h
  · cases h
  · rename_i hne
    dsimp only [bind, Except.bind] at h
    split at h
    · cases h
    · rename_i hall
      obtain ⟨rfl, rfl⟩ := Prod.mk.inj (Except.ok.inj h)
      exact ⟨_, _, rfl, rfl, rfl, rfl, rfl, rfl, by simpa using hne, hall⟩

theorem place_facet_ok {s : FacetSpec} {child : Spec}
    (h : place config A given p (.facet s child) = .ok (v, q)) :
    ∃ n w, v = mk n [w] ∧ n.kind = .facet (FacetView.ofBindings s.facet).1 ∧
      n.resolve = s.resolve.composite.1 ∧ n.components = .empty ∧ n.index = p.index ∧
      n.name = p.freshName (s.props.name.getD given) ∧ A.head?.any Node.isLayer = false ∧
      place config (n :: A) (n.qualify Naming.facetChild) (p.enter n.name
        ((FacetView.ofBindings s.facet).2 ++ s.resolve.composite.2)) child = .ok (w, q) := by
  rw [place] at h
  dsimp only at h
  split at h
  · cases h
  · rename_i hl
    dsimp only [bind, Except.bind] at h
    split at h
    · cases h
    · rename_i hchild
      obtain ⟨rfl, rfl⟩ := Prod.mk.inj (Except.ok.inj h)
      exact ⟨_, _, rfl, rfl, rfl, rfl, rfl, rfl, by simpa using hl, hchild⟩

theorem placeAll_cons_ok {layer : String} {i : Nat} {s : Spec} {rest : List Spec} {vs : List View}
    (h : placeAll config A layer i p (s :: rest) = .ok (vs, q)) :
    ∃ w ws r, vs = w :: ws ∧
      place config A (Naming.qualify layer (Naming.layerChild i)) p s = .ok (w, r) ∧
      placeAll config A layer (i + 1) r rest = .ok (ws, q) := by
  rw [placeAll] at h
  obtain ⟨⟨w, r⟩, hs, h⟩ := bind_eq_ok.mp h
  obtain ⟨⟨ws, last⟩, hr, h⟩ := bind_eq_ok.mp h
  obtain ⟨rfl, rfl⟩ := Prod.mk.inj (Except.ok.inj h)
  exact ⟨w, ws, r, rfl, hs, hr⟩

/-! ### Shape -/

/-- Below a layer nothing is said of the nodes above; elsewhere they are all facets. -/
def FacetsAbove (A : List Node) : Prop :=
  A.head?.any Node.isLayer = false → ∀ a ∈ A, a.isFacet = true

theorem built_unit {whole : Spec} {n : Node} {u : UnitView} (hk : n.kind = .unit u)
    (hu : ∃ spec, .unit spec ∈ whole.parts ∧
      u.encoding = (UnitView.acceptAll spec.mark spec.encoding).1) :
    Site.Built whole ⟨A, mk n []⟩ where
  unit_leaf _ := rfl
  facet_single h := absurd ((Node.not_facet_of_unit hk).symm.trans h) Bool.false_ne_true
  facet_above h := absurd ((Node.not_facet_of_unit hk).symm.trans h) Bool.false_ne_true
  guide_follows h := absurd (h.symm.trans (Node.isUnit_of_unit hk)) Bool.false_ne_true
  unit_shows u' hu' := by
    obtain rfl : u = u' := by simpa [Site.node, node, hk] using hu'
    exact hu

theorem built_layer {whole : Spec} {n : Node} {cs : List View} {size : Size} {asked : Resolve}
    (hk : n.kind = .layer size) (hr : n.resolve = asked.composite.1) :
    Site.Built whole ⟨A, mk n cs⟩ where
  unit_leaf h := absurd ((Node.not_unit_of_layer hk).symm.trans h) Bool.false_ne_true
  facet_single h := absurd ((Node.not_facet_of_layer hk).symm.trans h) Bool.false_ne_true
  facet_above h := absurd ((Node.not_facet_of_layer hk).symm.trans h) Bool.false_ne_true
  guide_follows _ c hc := by
    have hn : (Site.node ⟨A, mk n cs⟩).resolve = asked.composite.1 := hr
    rw [hn]
    exact Resolve.composite_follows asked hc
  unit_shows u hu := by simp [Site.node, node, hk] at hu

theorem built_facet {whole : Spec} {n : Node} {c : View} {f : FacetView} {asked : Resolve}
    (hk : n.kind = .facet f) (hr : n.resolve = asked.composite.1)
    (hA : ∀ a ∈ A, a.isFacet = true) : Site.Built whole ⟨A, mk n [c]⟩ where
  unit_leaf h := absurd ((Node.not_unit_of_facet hk).symm.trans h) Bool.false_ne_true
  facet_single _ := ⟨c, rfl⟩
  facet_above _ := hA
  guide_follows _ c' hc' := by
    have hn : (Site.node ⟨A, mk n [c]⟩).resolve = asked.composite.1 := hr
    rw [hn]
    exact Resolve.composite_follows asked hc'
  unit_shows u hu := by simp [Site.node, node, hk] at hu

theorem placeAll_fits {whole : Spec} {ss : List Spec}
    (h : ∀ s ∈ ss, ∀ local' p q v, place config A local' p s = .ok (v, q) →
      Fits (BuiltBlank whole) A v)
    {layer : String} {i : Nat} {vs : List View}
    (hp : placeAll config A layer i p ss = .ok (vs, q)) :
    ∀ w ∈ vs, Fits (BuiltBlank whole) A w := by
  induction ss generalizing i p vs with
  | nil =>
    rw [placeAll] at hp
    obtain ⟨rfl, rfl⟩ := Prod.mk.inj (Except.ok.inj hp)
    exact fun w hw => absurd hw List.not_mem_nil
  | cons s rest ih =>
    obtain ⟨v, ws, r, rfl, hs, hr⟩ := placeAll_cons_ok hp
    have hv := h s List.mem_cons_self _ p r v hs
    have hws := ih (fun t ht => h t (List.mem_cons_of_mem _ ht)) hr
    exact List.forall_mem_cons.mpr ⟨hv, hws⟩

theorem place_fits {whole : Spec} {s : Spec} (hs : ∀ t ∈ s.parts, t ∈ whole.parts)
    (hA : FacetsAbove A) (h : place config A given p s = .ok (v, q)) :
    Fits (BuiltBlank whole) A v := by
  induction s using Spec.induct generalizing A given p q v with
  | unit s =>
    obtain ⟨n, rfl, hk, hb, -, -, -⟩ := place_unit_ok h
    refine fits_mk_iff.mpr ⟨⟨built_unit hk ⟨s, ?_, rfl⟩, hb⟩, by simp⟩
    apply hs
    rw [Spec.parts]
    exact List.mem_singleton_self _
  | layer s children ih =>
    obtain ⟨n, vs, rfl, hk, hr, hb, -, -, -, hall⟩ := place_layer_ok h
    have hlayer : n.isLayer = true := Node.isLayer_of_layer hk
    refine fits_mk_iff.mpr ⟨⟨built_layer hk hr, hb⟩, placeAll_fits ?_ hall⟩
    intro c hc local' p' q' w hw
    -- under a layer nothing has to be known of the nodes above, as no facet is placed there
    refine ih c hc ?_ ?_ hw
    · intro t ht
      apply hs t
      rw [Spec.parts]
      exact List.mem_cons_of_mem _ (Spec.mem_partsIn.mpr ⟨c, hc, ht⟩)
    · intro hno
      rw [List.head?_cons, Option.any_some, hlayer] at hno
      exact absurd hno (by simp)
  | facet s child ih =>
    obtain ⟨n, w, rfl, hk, hr, hb, -, -, hl, hchild⟩ := place_facet_ok h
    have hfacet : n.isFacet = true := Node.isFacet_of_facet hk
    have hall : ∀ a ∈ n :: A, a.isFacet = true := List.forall_mem_cons.mpr ⟨hfacet, hA hl⟩
    refine fits_mk_iff.mpr ⟨⟨built_facet hk hr (hA hl), hb⟩, ?_⟩
    intro c hc
    rw [List.mem_singleton.mp hc]
    refine ih ?_ (fun _ => hall) hchild
    intro t ht
    apply hs t
    rw [Spec.parts]
    exact List.mem_cons_of_mem _ ht

/-! ### Names -/

theorem placeAll_names {ss : List Spec}
    (h : ∀ s ∈ ss, ∀ local' p q v, place config A local' p s = .ok (v, q) →
      q.names = p.names ++ v.nodes.map Node.name ∧ (p.names.Nodup → q.names.Nodup))
    {layer : String} {i : Nat} {vs : List View}
    (hp : placeAll config A layer i p ss = .ok (vs, q)) :
    q.names = p.names ++ (nodesIn vs).map Node.name ∧ (p.names.Nodup → q.names.Nodup) := by
  induction ss generalizing i p vs with
  | nil =>
    rw [placeAll] at hp
    obtain ⟨rfl, rfl⟩ := Prod.mk.inj (Except.ok.inj hp)
    exact ⟨by simp [nodesIn], id⟩
  | cons s rest ih =>
    obtain ⟨v, ws, r, rfl, hs, hr⟩ := placeAll_cons_ok hp
    obtain ⟨hn, hd⟩ := h s List.mem_cons_self _ p r v hs
    obtain ⟨hns, hds⟩ := ih (fun t ht => h t (List.mem_cons_of_mem _ ht)) hr
    -- the names go from each view to the next
    refine ⟨?_, fun hnd => hds (hd hnd)⟩
    rw [hns, hn, nodesIn, List.map_append, List.append_assoc]

/-- A fresh name after those taken keeps all names different. -/
theorem nodup_append_freshName (p : Progress) (wanted : String)
    (h : p.names.Nodup) : (p.names ++ [p.freshName wanted]).Nodup := by
  have hnew : p.freshName wanted ∉ p.names :=
    freshName_not_mem _ _ _ _ (List.length_filter_le _ _)
  rw [List.nodup_append]
  refine ⟨h, by simp, ?_⟩
  intro a ha b hb hab
  rw [List.mem_singleton] at hb
  exact hnew (hb ▸ hab ▸ ha)

/-- The names of the nodes are taken in order, and each is new. -/
theorem place_names {s : Spec} (h : place config A given p s = .ok (v, q)) :
    q.names = p.names ++ v.nodes.map Node.name ∧ (p.names.Nodup → q.names.Nodup) := by
  induction s using Spec.induct generalizing A given p q v with
  | unit s =>
    obtain ⟨n, rfl, -, -, -, hn, rfl⟩ := place_unit_ok h
    refine ⟨rfl, fun hnd => ?_⟩
    rw [hn]
    exact nodup_append_freshName p _ hnd
  | layer s children ih =>
    obtain ⟨n, vs, rfl, -, -, -, -, hn, -, hall⟩ := place_layer_ok h
    obtain ⟨hq, hd⟩ := placeAll_names (fun c hc local' p' q' w hw => ih c hc hw) hall
    refine ⟨?_, fun hnd => hd ?_⟩
    · rw [hq, Progress.enter, nodes, List.map_cons, List.append_assoc]
      rfl
    · rw [hn]
      exact nodup_append_freshName p _ hnd
  | facet s child ih =>
    obtain ⟨n, w, rfl, -, -, -, -, hn, -, hchild⟩ := place_facet_ok h
    obtain ⟨hq, hd⟩ := ih hchild
    refine ⟨?_, fun hnd => hd ?_⟩
    · rw [hq, Progress.enter, nodes, nodesIn, nodesIn, List.append_nil, List.map_cons,
        List.append_assoc]
      rfl
    · rw [hn]
      exact nodup_append_freshName p _ hnd

end View
end Trellis

import Trellis.Proofs.Axes

/-! Headers of facets: the axes that a facet takes over from its cells stand in the headers along
its sides, and show the scale that the facet itself uses. -/
namespace Trellis

variable {G : Dict String Json → Prop}

/-- Headers stand on two sides. -/
theorem HeaderChannel.mem_sides (h : HeaderChannel) : h ∈ [HeaderChannel.row, .column] := by
  cases h <;> decide

/-- The axes in a header show scales in use, and a header over data belongs to a field that a facet
binds. -/
def LayoutHeader.Shows (G : Dict String Json → Prop) (s : Site) (h : HeaderChannel)
    (header : LayoutHeader) : Prop :=
  (header.field.isSome = true →
      ∃ f, s.node.facet? = some f ∧ (f.fieldDef? h.channel).isSome = true) ∧
    ∀ slot, ∀ p ∈ header.parts slot, ∀ a ∈ p.axes, ∃ c, a.Shows G s c

/-- The axes and headers of a site. -/
def Guided (G : Dict String Json → Prop) : Fact := fun s k =>
  (∀ c axes, k.axes.get? c = some axes → ∀ a ∈ axes, a.Shows G s c) ∧
    ∀ h header, k.headers.get? h = some header → header.Shows G s h

theorem guided_siteBlind {phase : Phase} (h : phase ≠ .scale) :
    Fact.SiteBlind phase (Guided G) := by
  intro s k
  have haxis (c : Channel) (a : Axis) := Axis.shows_updateAll (G := G)
    (Components.without_scales h) s c a
  have hfacet : (s.updateAll (Components.without phase)).node.facet? = s.node.facet? := by
    rw [Site.node_updateAll]
    rfl
  unfold Guided LayoutHeader.Shows
  simp only [haxis, hfacet]

theorem guided_ownBlind {phase : Phase} (h : phase ≠ .axisAndHeader) :
    Fact.OwnBlind phase (Guided G) := by
  intro s k
  unfold Guided
  rw [Components.without_axes h, Components.without_headers h]

/-- Where no axes or headers are worked out, none shows a scale that is not in use. -/
theorem guided_empty {s : Site} {k : Components} (haxes : k.axes = .empty)
    (hheaders : k.headers = .empty) : Guided G s k := by
  constructor
  · intro c axes hget
    rw [haxes] at hget
    exact absurd hget (by simp)
  · intro h header hget
    rw [hheaders] at hget
    exact absurd hget (by simp)

/-! ### Axes that move into headers -/

namespace LayoutHeader

variable {s : Site} {h : HeaderChannel} {header : LayoutHeader}

theorem parts_withParts (header : LayoutHeader) (slot other : HeaderSlot) (ps : List HeaderPart) :
    (header.withParts slot ps).parts other = if other = slot then ps else header.parts other := by
  cases slot <;> cases other <;> rfl

@[simp] theorem field_withParts (header : LayoutHeader) (slot : HeaderSlot) (ps : List HeaderPart) :
    (header.withParts slot ps).field = header.field := by
  cases slot <;> rfl

theorem shows_empty : LayoutHeader.empty.Shows G s h := by
  constructor
  · intro hf
    exact absurd hf (by simp [LayoutHeader.empty])
  · intro slot p hp
    cases slot <;> exact absurd hp List.not_mem_nil

theorem Shows.withParts (hh : header.Shows G s h) {slot : HeaderSlot} {ps : List HeaderPart}
    (hps : ∀ p ∈ ps, ∀ a ∈ p.axes, ∃ c, a.Shows G s c) :
    (header.withParts slot ps).Shows G s h := by
  constructor
  · rw [field_withParts]
    exact hh.1
  · intro other p hp
    rw [parts_withParts] at hp
    split at hp
    · exact hps p hp
    · exact hh.2 other p hp

theorem Shows.addAxis (hh : header.Shows G s h) (slot : HeaderSlot) {fresh : HeaderPart}
    (hfresh : fresh.axes = []) {c : Channel} {a : Axis} (ha : a.Shows G s c) :
    (header.addAxis slot fresh a).Shows G s h := by
  have hlast {axes : List Axis} (haxes : ∀ b ∈ axes, ∃ c, b.Shows G s c) :
      ∀ b ∈ axes ++ [a], ∃ c, b.Shows G s c := by
    intro b hb
    rcases List.mem_append.mp hb with hb | hb
    · exact haxes b hb
    · rw [List.mem_singleton.mp hb]
      exact ⟨c, ha⟩
  -- the axis goes into the first part of its side, which is made for it if there is none
  unfold LayoutHeader.addAxis
  split
  · apply hh.withParts
    intro p hp
    rw [List.mem_singleton.mp hp, hfresh]
    exact hlast (fun b hb => absurd hb List.not_mem_nil)
  · rename_i first rest hparts
    have hold : ∀ p ∈ first :: rest, ∀ a ∈ p.axes, ∃ c, a.Shows G s c :=
      hparts ▸ hh.2 slot
    apply hh.withParts
    intro p hp
    rcases List.mem_cons.mp hp with rfl | hp
    · exact hlast (hold first List.mem_cons_self)
    · exact hold p (List.mem_cons_of_mem _ hp)

end LayoutHeader

theorem Guided.insert_header {s : Site} {k : Components} (hg : Guided G s k) {h : HeaderChannel}
    {header : LayoutHeader} (hh : header.Shows G s h) :
    Guided G s { k with headers := k.headers.insert h header } := by
  refine ⟨hg.1, ?_⟩
  intro other found hget
  rw [Dict.get?_insert] at hget
  split at hget
  · rename_i heq
    obtain rfl := Option.some.inj hget
    exact heq ▸ hh
  · exact hg.2 other found hget

/-- Axes move one by one into the header along their side. -/
theorem Guided.foldl_addAxis {s : Site} {k : Components} (hg : Guided G s k) {h : HeaderChannel}
    (fresh : HeaderPart) (hfresh : fresh.axes = []) {c : Channel} {axes : List Axis}
    (haxes : ∀ a ∈ axes, a.Shows G s c) :
    Guided G s { k with headers := axes.foldl (fun headers a => headers.insert h
      ((headers.getD h .empty).addAxis (.ofOrient a.orient) fresh a)) k.headers } := by
  -- every axis finds the header as those before it have left it
  induction axes generalizing k with
  | nil => exact hg
  | cons a rest ih =>
    have hold : (k.headers.getD h .empty).Shows G s h := by
      unfold Dict.getD
      cases hget : k.headers.get? h with
      | none => exact LayoutHeader.shows_empty
      | some header => exact hg.2 h header hget
    have hnew := hg.insert_header (hold.addAxis (.ofOrient a.orient) hfresh
      (haxes a List.mem_cons_self))
    exact ih hnew (fun b hb => haxes b (List.mem_cons_of_mem _ hb))

namespace View

/-- The guides of a facet's node and of everything in its cell, while the facet is worked out. -/
structure GuidedPair (G : Dict String Json → Prop) (A : List Node) (p : Node × View) : Prop where
  facet : Guided G ⟨A, mk p.1 [p.2]⟩ p.1.components
  cell : Fits ((Guided G).both (.done .axisAndHeader)) (p.1 :: A) p.2

variable {A : List Node} {n : Node} {child : View}

/-- A facet and its child may change their guides if they show scales in use afterwards. -/
theorem GuidedPair.update (hp : GuidedPair G A (n, child)) {f g : Components → Components}
    (hf : ∀ k, (f k).without .axisAndHeader = k.without .axisAndHeader)
    (hg : ∀ k, (g k).without .axisAndHeader = k.without .axisAndHeader)
    (hdone : ∀ k, (g k).completed = k.completed)
    (hfacet : Guided G ⟨A, View.mk n [child]⟩ (f n.components))
    (hcell : Guided G ⟨n :: A, child⟩ (g child.node.components)) :
    GuidedPair G A (n.update f, child.update g) := by
  have hblind : Fact.SiteBlind .axisAndHeader (Guided G) := guided_siteBlind (by decide)
  have hn : n.update (Components.without .axisAndHeader) =
      (n.update f).update (Components.without .axisAndHeader) :=
    congrArg (fun k : Components => ({ n with components := k } : Node)) (hf n.components).symm
  have hchild : child.updateAll (Components.without .axisAndHeader) =
      (child.update g).updateAll (Components.without .axisAndHeader) :=
    (update_updateAll_of_blind hg child).symm
  constructor
  · refine (hblind.congr ?_ _).mp hfacet
    rw [Site.updateAll, Site.updateAll]
    congr 1
    apply updateAll_congr_mk hn
    rw [List.map_singleton, List.map_singleton, hchild]
  · apply Fits.below (hblind.both (Fact.done_siteBlind _ _)) hn
    refine fits_update (hblind.both (Fact.done_siteBlind _ _)) hg hp.cell.children ⟨hcell, ?_⟩
    exact (hdone _).trans hp.cell.self.2

theorem update_id (v : View) : v.update id = v := by
  cases v
  rfl

/-- The facet's own header along a channel that it binds shows no axes yet. -/
theorem facetHeader_shows {s : Site} {config : Config} {f : FacetView} {h : HeaderChannel}
    {g : FieldDef} (hf : s.node.facet? = some f) (hg : f.fieldDef? h.channel = some g) :
    (facetHeader config child h g).1.Shows G s h := by
  constructor
  · intro _
    exact ⟨f, hf, by rw [hg]; rfl⟩
  · intro slot p hp
    cases slot with
    | header =>
      rw [List.mem_singleton.mp hp]
      exact fun a ha => absurd ha List.not_mem_nil
    | footer => exact absurd hp List.not_mem_nil

theorem addHeader_guided (config : Config) {f : FacetView} (hk : n.kind = .facet f)
    (h : HeaderChannel) (hp : GuidedPair G A (n, child)) :
    GuidedPair G A (addHeader config n f h child) := by
  unfold addHeader
  cases hf : f.fieldDef? h.channel with
  | none => exact hp
  | some g =>
    have hsite : (Site.node ⟨A, mk n [child]⟩).facet? = some f := by
      show n.facet? = some f
      rw [Node.facet?, hk]
    have hfacet : Guided G ⟨A, mk n [child]⟩ { n.components with
        headers := n.components.headers.insert h (facetHeader config child h g).1 } :=
      hp.facet.insert_header (facetHeader_shows hsite hf)
    have hcell : Guided G ⟨n :: A, child⟩ child.node.components := hp.cell.self.1
    dsimp only
    obtain hchild | ⟨inner, hinner, hchild⟩ := facetHeader_child config child h g
    · rw [hchild.trans (update_id child).symm]
      exact hp.update (fun _ => rfl) (fun _ => rfl) (fun _ => rfl) hfacet hcell
    · rw [hchild]
      -- a header without its title shows the same axes
      refine hp.update (fun _ => rfl) (fun _ => rfl) (fun _ => rfl) hfacet ?_
      exact hcell.insert_header (hcell.2 h inner hinner)

/-- The axes that a facet takes over show the scales that it uses itself. -/
theorem liftAxes_guided {whole : Spec} {k : Components} (hb : Site.Built whole ⟨A, mk n [child]⟩)
    (hs : Uses ⟨A, mk n [child]⟩ k) (hn : n.isUnit = false) (c : Channel)
    (hp : GuidedPair G A (n, child)) : GuidedPair G A (liftAxes c n child) := by
  have hcell : Guided G ⟨n :: A, child⟩ child.node.components := hp.cell.self.1
  unfold liftAxes
  split
  · exact hp
  · rename_i hshare
    have hshares : n.resolve.shares .axis c = true := by simpa using hshare
    split
    · rename_i h axes _ haxes
      have hup : ∀ a ∈ axes, a.Shows G ⟨A, mk n [child]⟩ c := fun a ha =>
        (hcell.1 c axes haxes a ha).up hb hs hn List.mem_cons_self hshares
      refine hp.update (fun _ => rfl) (fun _ => rfl) (fun _ => rfl) ?_ ⟨?_, hcell.2⟩
      · exact hp.facet.foldl_addAxis (child.headerPart h false) rfl hup
      · intro d own hget
        rw [Dict.get?_erase] at hget
        split at hget
        · exact absurd hget (by simp)
        · exact hcell.1 d own hget
    · exact hp

theorem KeepsGuideFrame.site {p q : Node × View} (h : KeepsGuideFrame p q) (A : List Node) :
    Site.updateAll (Components.without .axisAndHeader) ⟨A, mk p.1 [p.2]⟩ =
      Site.updateAll (Components.without .axisAndHeader) ⟨A, mk q.1 [q.2]⟩ := by
  rw [Site.updateAll, Site.updateAll]
  congr 1
  apply updateAll_congr_mk h.1
  rw [List.map_singleton, List.map_singleton, h.2]

theorem facetGuides_guided {whole : Spec} {k : Components} (config : Config) {f : FacetView}
    (hk : n.kind = .facet f) (hb : Site.Built whole ⟨A, mk n [child]⟩)
    (hs : Uses ⟨A, mk n [child]⟩ k) (hp : GuidedPair G A (n, child)) :
    GuidedPair G A (facetGuides config n f child) := by
  -- each step leaves the kind of the facet and the scales in use as they are
  have hkind {p q : Node × View} (h : KeepsGuideFrame p q) : p.1.kind = q.1.kind := by
    have hnode := congrArg Node.kind h.1
    exact hnode
  have hlift {p : Node × View} (h : KeepsGuideFrame p (n, child)) (c : Channel)
      (hp : GuidedPair G A p) : GuidedPair G A (liftAxes c p.1 p.2) := by
    have hbuilt : Site.Built whole ⟨A, mk p.1 [p.2]⟩ :=
      ((built_siteBlind whole .axisAndHeader).congr (h.site A) k).mpr hb
    have huses : Uses ⟨A, mk p.1 [p.2]⟩ k :=
      (Fact.SiteBlind.congr (uses_siteBlind (by decide)) (h.site A) k).mpr hs
    have hunit : p.1.isUnit = false := Node.not_unit_of_facet ((hkind h).trans hk)
    exact liftAxes_guided hbuilt huses hunit c hp
  -- headers first, column and row, then the axes for x and for y
  let p := addHeader config n f .column child
  let q := addHeader config p.1 f .row p.2
  let x := liftAxes .x q.1 q.2
  have hpf : KeepsGuideFrame p (n, child) := addHeader_frame config n f .column child
  have hqf : KeepsGuideFrame q (n, child) := (addHeader_frame config p.1 f .row p.2).trans hpf
  have hxf : KeepsGuideFrame x (n, child) := (liftAxes_frame .x q.1 q.2).trans hqf
  have hpg : GuidedPair G A p := addHeader_guided config hk .column hp
  have hqg : GuidedPair G A q := addHeader_guided config ((hkind hpf).trans hk) .row hpg
  have hxg : GuidedPair G A x := hlift hqf .x hqg
  exact hlift hxf .y hxg

end View
end Trellis

import Trellis.Proofs.Headers

/-! Axes and headers after their phase: every axis shows the scale that is in use where it is drawn,
also where it was taken over by a layer or moved into the header of a facet. -/
namespace Trellis

variable {G : Dict String Json → Prop}

namespace View

/-- What the guide phase needs of a site. -/
def ReadyForGuides (G : Dict String Json → Prop) (whole : Spec) : Fact := fun s k =>
  s.Built whole ∧ Uses s k ∧ (∀ u, s.node.kind = .unit u → u.GuideExtras G) ∧
    k.axes = .empty ∧ k.headers = .empty

variable {whole : Spec} {A : List Node} {n : Node} {cs : List View}

theorem guided_unit {s : Site} {k : Components} {u : UnitView} (hs : Uses s k)
    (hk : s.node.kind = .unit u) (hempty : G .empty) (hG : u.GuideExtras G)
    (haxes : k.axes = Axis.ofUnit s u) (hheaders : k.headers = .empty) : Guided G s k := by
  constructor
  · intro c axes hget a ha
    rw [haxes, Axis.ofUnit_get?] at hget
    split at hget
    · rename_i hc
      obtain ⟨own, hown, rfl⟩ := Option.map_eq_some_iff.mp hget
      rw [List.mem_singleton.mp ha]
      exact Axis.ofUnit?_shows hs hk hempty hG hc hown
    · exact absurd hget (by simp)
  · intro h header hget
    rw [hheaders] at hget
    exact absurd hget (by simp)

theorem mergeAxes_guided {k : Components} (hb : Site.Built whole ⟨A, mk n cs⟩)
    (hs : Uses ⟨A, mk n cs⟩ k) (hn : n.isUnit = false) (hheaders : n.components.headers = .empty)
    (hin : ∀ c ∈ cs, Fits ((Guided G).both (.done .axisAndHeader)) (n :: A) c) :
    Fits ((Guided G).both (.done .axisAndHeader)) A
      (mk (n.update (fun k => { k with
          axes := (mergeAxes n.resolve .zero .empty cs).1, completed := some .axisAndHeader }))
        (mergeAxes n.resolve .zero .empty cs).2) := by
  have hblind : Fact.SiteBlind .axisAndHeader ((Guided G).both (.done .axisAndHeader)) :=
    (guided_siteBlind (by decide)).both (Fact.done_siteBlind _ _)
  refine fits_mk_of_frame (n := n) hblind rfl (mergeAxes_frame _ _ _ _).symm ⟨⟨?_, ?_⟩, rfl⟩ ?_
  · -- the axes of the layer were those of a view under it and went one node up
    intro c axes hget a ha
    rcases mergeAxes_taken hget with hnone | ⟨hshare, v, hv, hown⟩
    · exact absurd hnone (by simp)
    · have hshows := (hin v hv).self.1.1 c axes hown a ha
      exact hshows.up hb hs hn hv hshare
  · intro h header hget
    have hempty : n.components.headers.get? h = some header := hget
    rw [hheaders] at hempty
    exact absurd hempty (by simp)
  · intro w hw
    obtain ⟨v, hv, kept, rfl, hkept⟩ := mergeAxes_views w hw
    obtain ⟨⟨haxes, hheads⟩, hdone⟩ := (hin v hv).self
    refine fits_update hblind ?_ (hin v hv).children ⟨⟨?_, hheads⟩, hdone⟩
    · intro _
      rfl
    -- what the view has left it had before, perhaps on the other side
    intro c axes hget
    have hleft := hkept c
    rw [Dict.getD, hget, Option.getD_some] at hleft
    refine (forall₂_forall_iff hleft (fun _ _ _ hab => hab.shows_iff)).mpr ?_
    split
    · exact List.forall_mem_nil _
    · unfold Dict.getD
      cases hown : v.node.components.axes.get? c with
      | none => exact List.forall_mem_nil _
      | some own => exact haxes c own hown

/-- The guide phase never fails, and leaves axes and headers as described. -/
theorem bottomUp_guides (config : Config) {v : View} (hempty : G .empty)
    (h : Fits (ReadyForGuides G whole) A v) :
    (v.bottomUp .axisAndHeader (guideStep config) A).error = none ∧
      Fits ((Guided G).both (.done .axisAndHeader)) A
        (v.bottomUp .axisAndHeader (guideStep config) A).view := by
  have hblind : Fact.SiteBlind .axisAndHeader (Guided G) := guided_siteBlind (by decide)
  have hready : Fact.SiteBlind .axisAndHeader (ReadyForGuides G whole) := by
    intro s k
    unfold ReadyForGuides
    rw [s.built_updateAll, uses_siteBlind (by decide), Site.node_updateAll]
    rfl
  refine bottomUp_fits (guideStep_frame config) hready ?_ h
  rintro ⟨A, v⟩ ⟨hb, hs, hG, haxes, hheaders⟩ hin
  cases v with
  | mk n cs =>
    have hself : Guided G ⟨A, mk n cs⟩ n.components := guided_empty haxes hheaders
    cases hk : n.kind with
    | unit u =>
      refine ⟨(mk n cs).update (fun c => { c with axes := Axis.ofUnit ⟨A, mk n cs⟩ u }), [], ?_, ?_⟩
      · show guideStep config A (mk n cs) = _
        unfold guideStep
        rw [show (mk n cs).node.kind = .unit u from hk]
        rfl
      · refine fits_own_step hblind ?_ hin ?_
        · intro _
          rfl
        · exact guided_unit hs hk hempty (hG u hk) rfl hheaders
    | layer size =>
      have hmerged := mergeAxes_guided hb hs (Node.not_unit_of_layer hk) hheaders hin
      refine ⟨mk (n.update (fun k => { k with axes := (mergeAxes n.resolve .zero .empty cs).1 }))
        (mergeAxes n.resolve .zero .empty cs).2, [], ?_, ?_⟩
      · show guideStep config A (mk n cs) = _
        unfold guideStep
        rw [show (mk n cs).node.kind = .layer size from hk]
        rfl
      · exact hmerged
    | facet f =>
      obtain ⟨child, hchild⟩ := hb.facet_single (Node.isFacet_of_facet hk)
      obtain rfl : cs = [child] := hchild
      have hp : GuidedPair G A (n, child) := ⟨hself, hin child List.mem_cons_self⟩
      have hguides := facetGuides_guided config hk hb hs hp
      refine ⟨mk (facetGuides config n f child).1 [(facetGuides config n f child).2], [], ?_, ?_⟩
      · show guideStep config A (mk n [child]) = _
        unfold guideStep
        rw [show (mk n [child]).node.kind = .facet f from hk]
        rfl
      · refine fits_update (hblind.both (Fact.done_siteBlind _ _))
          (Components.without_completed _ _) ?_ ⟨hguides.facet, rfl⟩
        intro c hc
        rw [List.mem_singleton.mp hc]
        exact hguides.cell

end View
end Trellis

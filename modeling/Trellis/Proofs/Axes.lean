import Mathlib.Data.List.Forall2
import Trellis.Proofs.Holding

/-! Axes show the scale that is in use where they are drawn. An axis moves up only where its scale
is shared, so the scale in use is the same on the way. -/
namespace Trellis

variable {G : Dict String Json → Prop}

/-- An axis shows the scale in use at a site for x or y, with further properties of some kind. -/
structure Axis.Shows (G : Dict String Json → Prop) (s : Site) (c : Channel) (a : Axis) : Prop where
  positional : c ∈ Channel.axisChannels
  inUse : ∃ holder, s.scaleHolder? c = some holder ∧ a.scale = Naming.qualify holder c.primary.name
  extra : G a.extra

theorem Axis.shows_updateAll {g : Components → Components} (hg : ∀ k, (g k).scales = k.scales)
    (s : Site) (c : Channel) (a : Axis) : a.Shows G (s.updateAll g) c ↔ a.Shows G s c := by
  have hholder := s.scaleHolder?_updateAll hg c
  constructor
  · rintro ⟨hp, hu, he⟩
    exact ⟨hp, hholder ▸ hu, he⟩
  · rintro ⟨hp, hu, he⟩
    exact ⟨hp, hholder.symm ▸ hu, he⟩

/-! ### Axes of units -/

/-- The further properties that a unit gives its guides are of some kind. -/
def UnitView.GuideExtras (G : Dict String Json → Prop) (u : UnitView) : Prop :=
  ∀ c f, u.fieldDef? c = some f →
    (∀ a, f.axisDef? = some a → G a.extra) ∧ ∀ l, f.legendDef? = some l → G l.extra

theorem Axis.ofUnit?_shows {s : Site} {k : Components} {u : UnitView} {c : Channel} {a : Axis}
    (hs : Uses s k) (hu : s.node.kind = .unit u) (hempty : G .empty) (hG : u.GuideExtras G)
    (hc : c ∈ Channel.axisChannels) (h : Axis.ofUnit? s u c = some a) : a.Shows G s c := by
  unfold Axis.ofUnit? at h
  cases hf : u.positionFieldDef? c with
  | none => rw [hf] at h; exact absurd h (by simp)
  | some f =>
    have hscale : c ∈ Channel.scaleChannels := List.mem_append_left _ hc
    have hholder := scaleHolder?_unit hs hu hscale (by rw [hf]; rfl)
    obtain ⟨holder, hholder⟩ := Option.isSome_iff_exists.mp hholder
    rw [hf] at h
    have hshows {asked : AxisDef} (he : G asked.extra) (hasked : some (
        { scale := s.scaleName c, orient := asked.orient.getD (.ofChannel c),
          title := asked.title.getD f.displayTitle, format := asked.format,
          grid := asked.grid.getD ((s.scale? c).any (fun scale => !scale.type.isDiscrete)),
          extra := asked.extra } : Axis) = some a) : a.Shows G s c := by
      obtain rfl := Option.some.inj hasked
      exact ⟨hc, ⟨holder, hholder, Site.scaleName_of_holder hholder⟩, he⟩
    -- a field on the secondary channel alone is shown too, with nothing asked for
    cases hnear : u.fieldDef? c with
    | none =>
      rw [hnear] at h
      exact hshows hempty h
    | some near =>
      rw [hnear] at h
      cases hasked : near.axisDef? with
      | none =>
        dsimp only [bind, Option.bind] at h
        rw [hasked] at h
        exact absurd h (by simp)
      | some asked =>
        dsimp only [bind, Option.bind] at h
        rw [hasked] at h
        exact hshows ((hG c near hnear).1 asked hasked) h

theorem Axis.ofUnit_get? (s : Site) (u : UnitView) (c : Channel) :
    (Axis.ofUnit s u).get? c =
      if c ∈ Channel.axisChannels then (Axis.ofUnit? s u c).map (fun a => [a]) else none := by
  have hmap : (fun c => (Axis.ofUnit? s u c).map (fun a => (c, [a]))) =
      fun c => ((Axis.ofUnit? s u c).map (fun a => [a])).map (fun axes => (c, axes)) := by
    funext c
    rw [Option.map_map]
    rfl
  unfold Axis.ofUnit
  rw [hmap]
  exact Dict.get?_ofList_filterMap _ _ _

/-! ### Axes that move -/

theorem forall₂_forall_iff {α β : Type} {R : α → β → Prop} {P : α → Prop} {Q : β → Prop}
    {xs : List α} {ys : List β} (h : List.Forall₂ R xs ys)
    (hpq : ∀ x, ∀ y ∈ ys, R x y → (P x ↔ Q y)) : (∀ x ∈ xs, P x) ↔ ∀ y ∈ ys, Q y := by
  induction h with
  | nil => simp
  | cons hr _ ih =>
    have hrest := ih (fun x y hy => hpq x y (List.mem_cons_of_mem _ hy))
    rw [List.forall_mem_cons, List.forall_mem_cons, hrest, hpq _ _ List.mem_cons_self hr]

theorem exists_of_forall₂ {α β : Type} {R : α → β → Prop} {xs : List α} {ys : List β}
    (h : List.Forall₂ R xs ys) {y : β} (hy : y ∈ ys) : ∃ x ∈ xs, R x y := by
  induction h with
  | nil => cases hy
  | cons hr _ ih =>
    rcases List.mem_cons.mp hy with rfl | hy
    · exact ⟨_, List.mem_cons_self, hr⟩
    · obtain ⟨x, hx, hxy⟩ := ih hy
      exact ⟨x, List.mem_cons_of_mem _ hx, hxy⟩

/-- The same axis, perhaps on the opposite side. -/
def Axis.Turned (a b : Axis) : Prop := a = b ∨ a = { b with orient := b.orient.opposite }

theorem Axis.Turned.shows_iff {s : Site} {c : Channel} {a b : Axis} (h : a.Turned b) :
    a.Shows G s c ↔ b.Shows G s c := by
  rcases h with rfl | rfl
  · exact Iff.rfl
  · exact ⟨fun h => ⟨h.positional, h.inUse, h.extra⟩, fun h => ⟨h.positional, h.inUse, h.extra⟩⟩

/-- From a node to the views under it and back, an axis shows the scale in use wherever axes are
shared. -/
theorem Axis.Shows.up {whole : Spec} {s : Site} {k : Components} {w : View} {c : Channel} {a : Axis}
    (hb : s.Built whole) (hs : Uses s k) (hn : s.node.isUnit = false) (hw : w ∈ s.view.children)
    (hshare : s.node.resolve.shares .axis c = true) (h : a.Shows G ⟨s.lineage, w⟩ c) :
    a.Shows G s c := by
  have hscale : c ∈ Channel.scaleChannels := List.mem_append_left _ h.positional
  have haspect : Resolve.guideAspect c = .axis :=
    if_pos (List.contains_iff_mem.mpr h.positional)
  have hholder := scaleHolder?_of_sharedGuide hb hs hn hw hscale (haspect ▸ hshare)
  refine ⟨h.positional, ?_, h.extra⟩
  rw [← hholder]
  exact h.inUse

namespace SideCount

theorem placeAll_turned (n : SideCount) (axes : List Axis) :
    List.Forall₂ Axis.Turned (n.placeAll axes).2 axes := by
  induction axes generalizing n with
  | nil => exact .nil
  | cons a rest ih =>
    refine .cons ?_ (ih (n.place a).1)
    split
    · exact .inl rfl
    · exact .inr rfl

theorem placePicked_turned (pick : Channel → Bool) (n : SideCount)
    (es : List (Channel × List Axis)) :
    List.Forall₂ (fun e d => e.1 = d.1 ∧ List.Forall₂ Axis.Turned e.2 d.2)
      (n.placePicked pick es).2 es := by
  induction es generalizing n with
  | nil => exact .nil
  | cons e rest ih =>
    obtain ⟨c, axes⟩ := e
    refine .cons ⟨rfl, ?_⟩ (ih _)
    change List.Forall₂ Axis.Turned (if pick c then n.placeAll axes else (n, axes)).2 axes
    split
    · exact placeAll_turned n axes
    · exact List.forall₂_same.mpr (fun a _ => .inl rfl)

end SideCount

namespace View

/-- Of each shared channel the first axes among the views are taken. -/
theorem mergeAxes_get? (r : Resolve) (n : SideCount) (taken : Dict Channel (List Axis))
    (vs : List View) (c : Channel) : (mergeAxes r n taken vs).1.get? c = (taken.get? c).or
      (if r.shares .axis c then vs.findSome? (fun v => v.node.components.axes.get? c)
        else none) := by
  induction vs generalizing n taken with
  | nil =>
    rw [mergeAxes, List.findSome?_nil, ite_self, Option.or_none]
  | cons v rest ih =>
    have hown : ((v.node.components.axes.filter (fun c _ => r.shares .axis c)).get? c) =
        if r.shares .axis c then v.node.components.axes.get? c else none := by
      rw [Dict.get?_filter]
      cases r.shares .axis c <;> cases v.node.components.axes.get? c <;> rfl
    have hcons : (v :: rest).findSome? (fun v => v.node.components.axes.get? c) =
        (v.node.components.axes.get? c).or
          (rest.findSome? (fun v => v.node.components.axes.get? c)) := by
      rw [List.findSome?_cons]
      cases v.node.components.axes.get? c <;> rfl
    rw [mergeAxes, hcons]
    dsimp only
    rw [ih, Dict.get?_foldl_insertIfNew_eq, ← Dict.get?, hown, Option.or_assoc]
    by_cases hr : r.shares .axis c = true
    · rw [if_pos hr, if_pos hr, if_pos hr]
    · rw [if_neg hr, if_neg hr, if_neg hr, Option.or_none]

/-- The axes that a layer takes over come from views under it that share them. -/
theorem mergeAxes_taken {r : Resolve} {n : SideCount} {taken : Dict Channel (List Axis)}
    {vs : List View} {c : Channel} {axes : List Axis}
    (h : (mergeAxes r n taken vs).1.get? c = some axes) :
    taken.get? c = some axes ∨
      (r.shares .axis c = true ∧ ∃ v ∈ vs, v.node.components.axes.get? c = some axes) := by
  rw [mergeAxes_get?, Option.or_eq_some_iff] at h
  rcases h with ht | ⟨-, h⟩
  · exact .inl ht
  · split at h
    · rename_i hr
      exact .inr ⟨hr, List.exists_of_findSome?_eq_some h⟩
    · exact absurd h (by simp)

/-- A view under a layer before and after the layer takes the axes that it shares: the view keeps the
others, perhaps on the other side. -/
def Parts (r : Resolve) (v w : View) : Prop := ∃ kept,
  w = v.update (fun k => { k with axes := kept }) ∧ ∀ c, List.Forall₂ Axis.Turned (kept.getD c [])
    (if r.shares .axis c then [] else v.node.components.axes.getD c [])

theorem mergeAxes_parts (r : Resolve) (n : SideCount) (taken : Dict Channel (List Axis))
    (vs : List View) : List.Forall₂ (Parts r) vs (mergeAxes r n taken vs).2 := by
  induction vs generalizing n taken with
  | nil => exact .nil
  | cons v rest ih =>
    rw [mergeAxes]
    refine .cons ⟨_, rfl, ?_⟩ (ih _ _)
    intro c
    let left := v.node.components.axes.filter (fun c _ => !r.shares .axis c)
    have hturned := n.placePicked_turned (fun _ => true) left.entries
    -- turning leaves the channels as they are, so what is found is what was there, turned
    have hkeys : (n.placePicked (fun _ => true) left.entries).2.map Prod.fst = left.keys :=
      List.forall₂_eq_eq_eq ▸ List.rel_map (fun _ _ h => h.1) hturned
    have hnodup : ((n.placePicked (fun _ => true) left.entries).2.map Prod.fst).Nodup :=
      hkeys ▸ left.keys_nodup
    have hleft : (if r.shares .axis c then [] else v.node.components.axes.getD c []) =
        (left.get? c).getD [] := by
      rw [Dict.get?_filter, Dict.getD]
      cases r.shares .axis c <;> cases v.node.components.axes.get? c <;> rfl
    rw [hleft, Dict.getD, Dict.get?_ofList_of_nodup hnodup]
    exact Dict.lookup_getD_rel hturned .nil c

/-- The views under a layer keep the axes that it does not share, perhaps on the other side. -/
theorem mergeAxes_views {r : Resolve} {n : SideCount} {taken : Dict Channel (List Axis)}
    {vs : List View} : ∀ w ∈ (mergeAxes r n taken vs).2, ∃ v ∈ vs, ∃ kept,
      w = v.update (fun k => { k with axes := kept }) ∧ ∀ c, List.Forall₂ Axis.Turned
        (kept.getD c []) (if r.shares .axis c then [] else v.node.components.axes.getD c []) :=
  fun _ hw => exists_of_forall₂ (mergeAxes_parts r n taken vs) hw

end View

end Trellis

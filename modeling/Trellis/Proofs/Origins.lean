import Trellis.Proofs.Unions

/-! Whose scale a site uses. Merging scales and redirecting what they read only touches their
domains, so any scale in use is, but for its domain, the scale that the first of the units using it
computes alone. -/
namespace Trellis

namespace Scale

/-- The scales agree in everything but their domains. -/
def Alike (s t : Scale) : Prop := { s with domain := t.domain } = t

theorem Alike.refl (s : Scale) : s.Alike s := rfl

theorem Alike.trans {s t r : Scale} (hst : s.Alike t) (htr : t.Alike r) : s.Alike r := by
  unfold Alike at hst htr ⊢
  rw [← htr, ← hst]

theorem Alike.type {s t : Scale} (h : s.Alike t) : s.type = t.type := by
  rw [← show { s with domain := t.domain } = t from h]

/-- Steps do not depend on domains. -/
theorem Alike.step? {s t : Scale} (h : s.Alike t) : s.step? = t.step? := by
  rw [← show { s with domain := t.domain } = t from h]
  rfl

theorem alike_unionDomain (s t : Scale) : s.Alike (s.unionDomain t) := rfl

theorem alike_redirect (renames : List DataRename) (s : Scale) : s.Alike (s.redirect renames) := by
  unfold redirect
  induction renames generalizing s with
  | nil => exact .refl s
  | cons r rest ih =>
    have hfirst : s.Alike (s.renameData r.source r.target) := rfl
    exact hfirst.trans (ih _)

/-- A merged scale has all but its domain from the first of those merged. -/
theorem exists_alike_of_merged {α : Type} {f : α → Option Scale} {xs : List α} {first : Option Scale}
    {s : Scale} (h : xs.foldl (fun s x => Option.merge unionDomain s (f x)) first = some s) :
    ∃ o, first.or (xs.findSome? f) = some o ∧ o.Alike s := by
  induction xs generalizing first with
  | nil => exact ⟨s, by rw [List.findSome?_nil, Option.or_none]; exact h, .refl s⟩
  | cons x rest ih =>
    rw [List.foldl_cons] at h
    obtain ⟨o, ho, hs⟩ := ih h
    rw [List.findSome?_cons]
    -- of two scales that are merged the one on the left counts, if it is there
    cases first with
    | none =>
      rw [Option.merge_none_left] at ho
      refine ⟨o, ?_, hs⟩
      rw [Option.none_or]
      cases hx : f x <;> simpa [hx] using ho
    | some held =>
      refine ⟨held, rfl, ?_⟩
      cases hx : f x with
      | none =>
        rw [hx, Option.merge_none_right, Option.some_or] at ho
        exact Option.some.inj ho ▸ hs
      | some other =>
        rw [hx] at ho
        obtain rfl : held.unionDomain other = o := Option.some.inj ho
        exact (alike_unionDomain held other).trans hs

end Scale

namespace View

variable {config : Config}

theorem redirected_siteBlind {phase : Phase} (h : phase ≠ .data) :
    Fact.SiteBlind phase (Redirected config) := by
  intro s k
  have hoffers := offers_updateAll config (Components.without_data h) s.ancestors s.view
  unfold Redirected
  rw [Site.facetAncestor?_eq_none_updateAll]
  unfold Site.updateAll
  rw [hoffers]

theorem redirected_ownBlind {phase : Phase} (h : phase ≠ .scale) :
    Fact.OwnBlind phase (Redirected config) := by
  intro s k
  unfold Redirected
  rw [Components.without_scales h]

end View

section

variable {config : Config} {whole : Spec} {v : View} {c : Channel} {holder : String}

/-- A unit that offers a scale shows the channel, and offers its own scale. -/
theorem ownScale_of_offers {A : List Node} {n : Node} {u : UnitView} (hk : n.kind = .unit u)
    (hc : c ∈ Channel.scaleChannels) {base : Scale}
    (h : ((View.mk n []).offers config A).get? c = some base) :
    Site.encodes ⟨A, .mk n []⟩ c = true ∧ Site.ownScale config c ⟨A, .mk n []⟩ = some base := by
  have hunit : n.unit? = some u := by rw [Node.unit?, hk]
  have hown : Scale.ofUnit? ⟨A, .mk n []⟩ config u n.data.input c = some base := by
    rw [← Scale.get?_ofUnit _ _ _ _ hc, ← View.offers_unit hk]
    exact h
  have hshown : (u.positionFieldDef? c).isSome = true := by
    have hsome := congrArg Option.isSome hown
    rw [Scale.ofUnit?, Option.isSome_map] at hsome
    exact hsome
  have hencodes : n.unit?.any (fun u => (u.positionFieldDef? c).isSome) = true := by
    rw [hunit, Option.any_some]
    exact hshown
  have hbase : n.unit?.bind (fun u => Scale.ofUnit? ⟨A, .mk n []⟩ config u n.data.input c) =
      some base := by
    rw [hunit]
    exact hown
  exact ⟨hencodes, hbase⟩

/-- Where a view offers no scale, no unit in it uses the scale that it uses. -/
theorem users_of_not_offered (h : View.Fits View.Holds [] v)
    (hb : View.Fits (fun s _ => s.Built whole) [] v) (hnames : (v.nodes.map Node.name).Nodup)
    (hc : c ∈ Channel.scaleChannels) {t : Site} (ht : t ∈ v.sites [])
    (hholder : t.scaleHolder? c = some holder) (hnone : (t.view.feeders c).isSome = false) :
    t.users c holder = [] := by
  obtain ⟨A, w⟩ := t
  induction w using View.induct generalizing A with
  | h n cs ih =>
    cases hn : n.isUnit with
    | true =>
      obtain rfl : cs = [] := (hb _ ht).unit_leaf hn
      have hencodes : Site.encodes ⟨A, .mk n []⟩ c = false := by
        rw [Bool.eq_false_iff]
        intro hshown
        exact Bool.false_ne_true (hnone.symm.trans (Site.feeders_of_encodes hshown))
      rw [Site.users_unit hholder, hencodes, if_neg Bool.false_ne_true]
    | false =>
      rw [Site.users_composite hn, List.flatMap_eq_nil_iff]
      intro d hd
      cases hshare : n.resolve.shares .scale c with
      | false => exact users_eq_nil h hb hnames hc ht hshare hholder hd
      | true =>
        refine ih d hd (n :: A) (View.child_mem_sites ht hd)
          ((Site.scaleHolder?_child h ht hd hshare).trans hholder) ?_
        rw [Bool.eq_false_iff]
        intro hfeeds
        exact Bool.false_ne_true (hnone.symm.trans (View.feeders_of_child hn hd hshare hfeeds))

/-- What a view offers for a channel is, but for its domain, the own scale of the first unit that
uses it. -/
theorem exists_first_of_offers (h : View.Fits View.Holds [] v)
    (hb : View.Fits (fun s _ => s.Built whole) [] v) (hnames : (v.nodes.map Node.name).Nodup)
    (hc : c ∈ Channel.scaleChannels) {t : Site}
    (ht : t ∈ v.sites []) (hholder : t.scaleHolder? c = some holder) {base : Scale}
    (hoffer : (t.view.offers config t.ancestors).get? c = some base) :
    ∃ w, (t.users c holder).head? = some w ∧
      ∃ own, w.ownScale config c = some own ∧ own.Alike base := by
  obtain ⟨A, w⟩ := t
  induction w using View.induct generalizing A base with
  | h n cs ih =>
    cases hn : n.isUnit with
    | true =>
      obtain ⟨u, hk⟩ := Node.kind_of_isUnit hn
      obtain rfl : cs = [] := (hb _ ht).unit_leaf hn
      obtain ⟨hencodes, hown⟩ := ownScale_of_offers hk hc hoffer
      refine ⟨⟨A, .mk n []⟩, ?_, base, hown, .refl base⟩
      rw [Site.users_unit hholder, hencodes, if_pos rfl]
      rfl
    | false =>
      have hget : ((View.mk n cs).offers config A).get? c = _ := View.get?_offers_composite hn cs c
      have hsome := hget.symm.trans hoffer
      cases hshare : n.resolve.shares .scale c with
      | false =>
        rw [hshare, if_neg Bool.false_ne_true] at hsome
        exact absurd hsome (by simp)
      | true =>
        rw [hshare, if_pos rfl] at hsome
        have hchild {d : View} (hd : d ∈ cs) : Site.scaleHolder? ⟨n :: A, d⟩ c = some holder :=
          (Site.scaleHolder?_child h ht hd hshare).trans hholder
        obtain ⟨o, ho, hlike⟩ := Scale.exists_alike_of_merged hsome
        rw [Option.none_or, List.findSome?_eq_some_iff] at ho
        obtain ⟨before, d, after, rfl, ho, hbefore⟩ := ho
        have hd : d ∈ before ++ d :: after := by simp
        obtain ⟨user, huser, own, hown, halike⟩ :=
          ih d hd (n :: A) (View.child_mem_sites ht hd) (hchild hd) ho
        -- the views before the first that offers a scale have no unit that uses it
        have hfree : before.flatMap (fun e => Site.users ⟨n :: A, e⟩ c holder) = [] := by
          rw [List.flatMap_eq_nil_iff]
          intro e he
          have hmem : e ∈ before ++ d :: after := List.mem_append_left _ he
          refine users_of_not_offered h hb hnames hc (View.child_mem_sites ht hmem) (hchild hmem) ?_
          have hoffered : ((e.offers config (n :: A)).get? c).isSome =
              (c.hasScale && (e.feeders c).isSome) := View.offers_isSome e c
          have hscale : c.hasScale = true := List.contains_iff_mem.mpr hc
          rw [hbefore e he, hscale, Bool.true_and] at hoffered
          exact hoffered.symm
        refine ⟨user, ?_, own, hown, halike.trans hlike⟩
        rw [Site.users_composite hn, List.flatMap_append, hfree, List.nil_append,
          List.flatMap_cons, List.head?_append, huser, Option.some_or]

/-- A scale in use is, but for its domain, the own scale of the first unit that uses it. -/
theorem exists_first_of_scale (h : View.Fits View.Holds [] v)
    (hb : View.Fits (fun s _ => s.Built whole) [] v) (hnames : (v.nodes.map Node.name).Nodup)
    (hheld : View.Fits (View.Redirected config) [] v) (hc : c ∈ Channel.scaleChannels) {s : Site}
    (hs : s ∈ v.sites []) {scale : Scale} (hscale : s.scale? c = some scale) :
    ∃ holder, s.scaleHolder? c = some holder ∧
      ∃ w, (v.users c holder).head? = some w ∧
        ∃ own, w.ownScale config c = some own ∧ own.Alike scale := by
  have hprimary := primary_of_scaleChannel c hc
  obtain ⟨n, howner, hget⟩ := Option.bind_eq_some_iff.mp hscale
  rw [hprimary] at hget
  obtain ⟨o, ho, rfl⟩ := View.exists_site_of_lineage hs (List.mem_of_find?_eq_some howner)
  have hcontains : o.node.components.scales.contains c = true := Dict.contains_iff.mpr ⟨scale, hget⟩
  have hholder : o.scaleHolder? c = some o.node.name := scaleHolder?_of_contains hprimary hcontains
  obtain ⟨renames, -, hoffered⟩ := hheld o ho
  obtain ⟨base, hbase, rfl⟩ := hoffered c scale hget
  obtain ⟨w, hw, own, hown, halike⟩ :=
    exists_first_of_offers h hb hnames hc ho hholder hbase
  refine ⟨o.node.name, ?_, w, ?_, own, hown, halike.trans (Scale.alike_redirect renames base)⟩
  · rw [Site.scaleHolder?, howner, Option.map_some]
  · rw [users_eq h hb hnames hc ho]
    exact hw

end

namespace Tree

variable {spec : Spec} {config : Config} {t : Tree} {ds : List Diagnostic}

/-- With any pipeline and after any phases that follow, what a node holds is what it offers, with
datasets redirected. -/
theorem redirected_of_build (h : Tree.build spec config = .ok (t, ds)) (pipeline : Pipeline)
    (later : List Phase) :
    View.Fits (View.Redirected config) [] (t.afterScales pipeline later) := by
  refine fits_of_build ?_ ?_ ?_ h pipeline later
  · exact fun _ hd _ => View.redirected_siteBlind hd
  · exact fun _ _ hs => View.redirected_ownBlind hs
  · exact fun v _ => View.settle_redirected rfl (fun _ => rfl)

/-- With any pipeline and after any phases that follow, each scale in use is, but for its domain, the
own scale of the first unit that uses it. -/
theorem scaleOrigin_of_build (h : Tree.build spec config = .ok (t, ds)) (pipeline : Pipeline)
    (later : List Phase) {s : Site} (hs : s ∈ (t.afterScales pipeline later).sites []) {c : Channel}
    (hc : c ∈ Channel.scaleChannels) {scale : Scale} (hscale : s.scale? c = some scale) :
    ∃ holder, s.scaleHolder? c = some holder ∧
      ∃ w, ((t.afterScales pipeline later).users c holder).head? = some w ∧ ∃ own,
        w.ownScale config c = some own ∧ own.Alike scale :=
  exists_first_of_scale (holds_of_build h pipeline later)
    (built_of_build h pipeline (.data :: .scale :: later)) (names_of_build h pipeline later)
    (redirected_of_build h pipeline later) hc hs hscale

end Tree
end Trellis

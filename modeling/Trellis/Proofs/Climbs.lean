import Trellis.Proofs.Declared
import Trellis.Proofs.Finished
import Trellis.Proofs.Outcomes
import Trellis.Proofs.Unions

/-! How far legends climb. A legend goes up as long as the node above shares it, and where several
meet the first one stays. -/
namespace Trellis

namespace Site

/-- The legend a site makes for a channel by itself; only units make any. -/
def ownLegend? (s : Site) (c : Channel) : Option Legend :=
  s.node.unit?.bind (fun u => (Legend.ofUnit s u).get? c)

/-- The node at which the legend of a site ends up. -/
def legendHome? (s : Site) (c : Channel) : Option Node := s.lineage[s.climb .legend c]?

/-- The sites at and under a site whose legend comes up to it, in traversal order. -/
def contenders (s : Site) (c : Channel) : List Site :=
  s.preOrder.filter (fun t => t.ancestors.length ≤ s.ancestors.length + t.climb .legend c)

/-- What a site has for the node above: the first legend that comes up to it. -/
def legend? (s : Site) (c : Channel) : Option Legend :=
  (s.contenders c).findSome? (fun t => t.ownLegend? c)

end Site

/-- The sites of a tree whose legend for a channel ends up at a node, in traversal order. -/
def View.claimants (root : View) (c : Channel) (home : String) : List Site :=
  (root.sites []).filter (fun s => (s.legendHome? c).map Node.name == some home)

/-! ### Only scales and decisions count -/

namespace Site

variable {g : Components → Components} {s : Site} {c : Channel}

theorem scaleName_amend (h : Option String → Option String) (hg : ∀ k, (g k).scales = k.scales)
    (s : Site) (c : Channel) : (s.mapNodes (Node.amend h g)).scaleName c = s.scaleName c := by
  unfold scaleName
  rw [scaleOwner?_amend h hg, node_mapNodes]
  cases s.scaleOwner? c <;> rfl

theorem scaleName_updateAll (hg : ∀ k, (g k).scales = k.scales) (s : Site) (c : Channel) :
    (s.updateAll g).scaleName c = s.scaleName c :=
  scaleName_amend id hg s c

theorem ownLegend?_updateAll (hg : ∀ k, (g k).scales = k.scales) (s : Site) (c : Channel) :
    (s.updateAll g).ownLegend? c = s.ownLegend? c := by
  have hunit (u : UnitView) : Legend.ofUnit (s.updateAll g) u = Legend.ofUnit s u := by
    unfold Legend.ofUnit Legend.ofUnit?
    simp only [scale?_updateAll hg, scaleName_updateAll hg]
  unfold ownLegend?
  rw [node_updateAll]
  exact congrArg (Option.bind s.node.unit?) (funext (fun u => by rw [hunit]))

theorem climb_updateAll (g : Components → Components) (aspect : Aspect) (s : Site) (c : Channel) :
    (s.updateAll g).climb aspect c = s.climb aspect c := by
  unfold climb updateAll
  rw [List.takeWhile_map, List.length_map]
  rfl

theorem handsOn_updateAll (g : Components → Components) (aspect : Aspect) (s : Site) (c : Channel) :
    (s.updateAll g).handsOn aspect c = s.handsOn aspect c := by
  unfold handsOn updateAll
  rw [List.head?_map, Option.any_map]
  rfl

theorem legend?_updateAll (hg : ∀ k, (g k).scales = k.scales) (s : Site) (c : Channel) :
    (s.updateAll g).legend? c = s.legend? c := by
  have hsites : (s.updateAll g).preOrder = s.preOrder.map (updateAll g) :=
    View.sites_updateAll g s.ancestors s.view
  have hlength (t : Site) : (t.updateAll g).ancestors.length = t.ancestors.length :=
    List.length_map _
  unfold legend? contenders
  rw [hsites, List.filter_map, List.findSome?_map]
  simp only [Function.comp_def, hlength, climb_updateAll, ownLegend?_updateAll hg]

end Site

/-! ### What comes up from below -/

namespace Site

variable {A : List Node} {n : Node} {c : Channel}

theorem legend?_unit {u : UnitView} (hk : n.kind = .unit u) :
    legend? ⟨A, .mk n []⟩ c = (Legend.ofUnit ⟨A, .mk n []⟩ u).get? c := by
  have hown : ownLegend? ⟨A, .mk n []⟩ c = (Legend.ofUnit ⟨A, .mk n []⟩ u).get? c := by
    have hunit : n.unit? = some u := by rw [Node.unit?, hk]
    change n.unit?.bind _ = _
    rw [hunit]
    rfl
  unfold legend? contenders preOrder
  rw [View.sites_mk, List.flatMap_nil, List.filter_cons_of_pos (by simp), List.filter_nil,
    List.findSome?_singleton, hown]

/-- Coming up one node further takes that this node shares the legend. -/
theorem length_le_climb_iff (inner outer : List Node) (n : Node) (v : View) (c : Channel) :
    inner.length + 1 ≤ climb .legend ⟨inner ++ n :: outer, v⟩ c ↔
      inner.length ≤ climb .legend ⟨inner ++ n :: outer, v⟩ c ∧
        n.resolve.shares .legend c = true := by
  unfold climb
  dsimp only
  induction inner with
  | nil =>
    rw [List.nil_append, List.takeWhile_cons]
    split <;> simp [*]
  | cons m rest ih =>
    rw [List.cons_append, List.takeWhile_cons]
    split
    · simp only [List.length_cons, Nat.add_le_add_iff_right]
      exact ih
    · simp

/-- Which sites under a view bring their legend up one node further. -/
theorem filter_contenders (d : View) :
    (d.sites (n :: A)).filter (fun t => t.ancestors.length ≤ A.length + t.climb .legend c) =
      if n.resolve.shares .legend c then contenders ⟨n :: A, d⟩ c else [] := by
  have hstep {t : Site} (ht : t ∈ d.sites (n :: A)) :
      (t.ancestors.length ≤ A.length + t.climb .legend c) ↔
        t.ancestors.length ≤ (n :: A).length + t.climb .legend c ∧
          n.resolve.shares .legend c = true := by
    obtain ⟨inner, hinner⟩ := View.ancestors_suffix ht
    obtain ⟨B, v⟩ := t
    obtain rfl : inner ++ n :: A = B := hinner
    have hclimb := length_le_climb_iff inner A n v c
    simp only [List.length_append, List.length_cons]
    constructor
    · intro hle
      obtain ⟨hbelow, hn⟩ := hclimb.mp (by omega)
      exact ⟨by omega, hn⟩
    · rintro ⟨hle, hn⟩
      have hup := hclimb.mpr ⟨by omega, hn⟩
      omega
  by_cases hn : n.resolve.shares .legend c = true
  · rw [if_pos hn, contenders]
    apply List.filter_congr
    intro t ht
    exact decide_eq_decide.mpr ((hstep ht).trans (and_iff_left hn))
  · rw [if_neg hn, List.filter_eq_nil_iff]
    intro t ht hle
    exact hn ((hstep ht).mp (of_decide_eq_true hle)).2

/-- A layer or facet makes no legend itself. If it shares them it has the first one of the views
under it, else none. -/
theorem legend?_composite (cs : List View) (hn : n.isUnit = false) :
    legend? ⟨A, .mk n cs⟩ c =
      if n.resolve.shares .legend c then cs.findSome? (fun d => legend? ⟨n :: A, d⟩ c)
      else none := by
  have hown : ownLegend? ⟨A, .mk n cs⟩ c = none := by
    have hunit : n.unit? = none := Option.not_isSome_iff_eq_none.mp (Bool.eq_false_iff.mp hn)
    change n.unit?.bind _ = none
    rw [hunit]
    rfl
  have hfilter (d : View) := filter_contenders (A := A) (n := n) (c := c) d
  rw [legend?, contenders, preOrder, View.sites_mk, List.filter_cons_of_pos (by simp),
    List.findSome?_cons, hown, List.filter_flatMap]
  simp only [hfilter]
  by_cases hr : n.resolve.shares .legend c = true
  · simp only [if_pos hr]
    exact View.findSome?_flatMap _ _ cs
  · have hnone : cs.flatMap (fun _ => ([] : List Site)) = [] :=
      List.flatMap_eq_nil_iff.mpr (fun _ _ => rfl)
    simp only [if_neg hr, hnone, List.findSome?_nil]

end Site

/-! ### The phase -/

namespace View

/-- A site has the legends that come up to it and that the node above leaves there. -/
def Promoted : Fact := fun s k => ∀ c,
  k.legends.get? c = if s.handsOn .legend c then none else s.legend? c

theorem promoted_siteBlind {phase : Phase} (h : phase ≠ .scale) :
    Fact.SiteBlind phase Promoted := by
  intro s k
  unfold Promoted
  simp only [s.handsOn_updateAll, s.legend?_updateAll (Components.without_scales h)]

variable {A : List Node} {whole : Spec} {v : View}

/-- The view has all legends that come up to it, and those under it have what they keep. -/
def Offering (A : List Node) (v : View) : Prop :=
  (∀ c, v.node.components.legends.get? c = Site.legend? ⟨A, v⟩ c) ∧
    ∀ d ∈ v.children, Fits Promoted (v.node :: A) d

theorem markDone_frame (phase : Phase) (v : View) :
    (v.update (markDone phase)).updateAll (Components.without phase) =
      v.updateAll (Components.without phase) :=
  update_updateAll_of_blind (Components.without_completed phase phase) v

theorem legend?_of_frame {v w : View}
    (h : w.updateAll (Components.without .legend) = v.updateAll (Components.without .legend))
    (c : Channel) : Site.legend? ⟨A, w⟩ c = Site.legend? ⟨A, v⟩ c := by
  have hscales (k : Components) : (k.without .legend).scales = k.scales := rfl
  rw [← Site.legend?_updateAll hscales, ← Site.legend?_updateAll hscales ⟨A, v⟩, Site.updateAll,
    Site.updateAll, h]

/-- Taking the shared legends, a node gets the first of each and leaves the others nowhere. -/
theorem collectLegends_offering {n : Node} {ws : List View} (hn : n.isUnit = false)
    (h : ∀ w ∈ ws, Offering (n :: A) w) :
    Offering A ((mk n ws).collectLegends.update (markDone .legend)) := by
  have hblind : Fact.SiteBlind .legend Promoted := promoted_siteBlind (by decide)
  have hframe : ((mk n ws).collectLegends.update (markDone .legend)).updateAll
      (Components.without .legend) = (mk n ws).updateAll (Components.without .legend) := by
    rw [markDone_frame]
    exact updateAll_congr_mk rfl (mergeLegends_frame _ _ _)
  constructor
  · intro c
    have hget : ((mk n ws).collectLegends.update (markDone .legend)).node.components.legends.get? c =
        (mergeLegends n.resolve .empty ws).1.get? c := rfl
    rw [legend?_of_frame hframe, Site.legend?_composite ws hn, hget, mergeLegends_get?,
      Dict.get?_empty, Option.none_or]
    have hfirst : ws.findSome? (fun w => w.node.components.legends.get? c) =
        ws.findSome? (fun w => Site.legend? ⟨n :: A, w⟩ c) :=
      findSome?_congr (fun w hw => (h w hw).1 c)
    rw [hfirst]
  · intro d hd
    have hchildren : ((mk n ws).collectLegends.update (markDone .legend)).children =
        (mergeLegends n.resolve .empty ws).2 := rfl
    rw [hchildren, mergeLegends_snd] at hd
    obtain ⟨w, hw, rfl⟩ := List.mem_map.mp hd
    obtain ⟨htop, hin⟩ := h w hw
    refine Fits.below (n := n) hblind rfl ?_
    refine fits_update hblind (f := fun k => { k with
      legends := k.legends.filter (fun c _ => !n.resolve.shares .legend c) }) (fun _ => rfl) hin ?_
    intro c
    rw [Dict.get?_filter, htop c]
    have hhands : Site.handsOn .legend ⟨n :: A, w⟩ c = n.resolve.shares .legend c := rfl
    rw [hhands]
    cases n.resolve.shares .legend c with
    | true => cases Site.legend? ⟨n :: A, w⟩ c <;> rfl
    | false => cases Site.legend? ⟨n :: A, w⟩ c <;> rfl

theorem legendStep_offering {n : Node} {ws : List View} (hb : Site.Built whole ⟨A, mk n ws⟩)
    (h : ∀ w ∈ ws, Offering (n :: A) w) :
    Offering A ((legendStep A (mk n ws)).view.update (markDone .legend)) := by
  have hkind : (mk n ws).node.kind = n.kind := rfl
  unfold legendStep
  rw [hkind]
  cases hk : n.kind with
  | unit u =>
    -- a unit has nothing under it, so all it has are its own legends
    obtain rfl : ws = [] := hb.unit_leaf (Node.isUnit_of_unit hk)
    refine ⟨?_, fun d hd => absurd hd List.not_mem_nil⟩
    intro c
    have hframe : (((mk n []).update (fun k => { k with
        legends := Legend.ofUnit ⟨A, mk n []⟩ u })).update (markDone .legend)).updateAll
          (Components.without .legend) = (mk n []).updateAll (Components.without .legend) := by
      rw [markDone_frame]
      exact update_updateAll_of_blind (by intro _; rfl) _
    refine Eq.trans ?_ (legend?_of_frame hframe c).symm
    rw [Site.legend?_unit hk]
    rfl
  | layer size => exact collectLegends_offering (Node.not_unit_of_layer hk) h
  | facet f => exact collectLegends_offering (Node.not_unit_of_facet hk) h

/-- After the phase every view has the legends that come up to it, until the node above takes
them. -/
theorem bottomUp_offering (hb : Fits (fun s _ => s.Built whole) A v)
    (h : (v.bottomUp .legend legendStep A).error = none) :
    Offering A (v.bottomUp .legend legendStep A).view :=
  bottomUp_makes_of_ok legendStep_frame (built_siteBlind whole .legend)
    (fun _ _ _ hbuilt hbelow _ => legendStep_offering hbuilt hbelow) hb h

theorem offering_root {v : View} (h : Offering [] v) : Fits Promoted [] v := by
  cases v with
  | mk n cs => exact fits_mk_iff.mpr h

end View

/-! ### Homes -/

namespace Site

variable {s o : Site} {c : Channel}

theorem legendHome?_of_drop (h : o.lineage = s.lineage.drop (s.climb .legend c)) :
    s.legendHome? c = some o.node := by
  have hdrop : (s.lineage.drop (s.climb .legend c))[0]? = s.lineage[s.climb .legend c]? := by
    rw [List.getElem?_drop, Nat.add_zero]
  rw [legendHome?, ← hdrop, ← h]
  rfl

theorem lineage_suffix (h : s ∈ o.preOrder) : o.lineage <:+ s.lineage := by
  refine View.sites_induct (Q := fun s => o.lineage <:+ s.lineage) (List.suffix_refl _) ?_ s h
  intro t _ ht w _
  exact ht.trans (List.suffix_cons w.node t.lineage)

/-- A legend that comes up to a site, and is left there, ends up there. -/
theorem drop_climb_of_contender (h : s ∈ o.preOrder) (hkept : o.handsOn .legend c = false)
    (hle : s.ancestors.length ≤ o.ancestors.length + s.climb .legend c) :
    o.lineage = s.lineage.drop (s.climb .legend c) := by
  obtain ⟨inner, hinner⟩ := View.ancestors_suffix h
  obtain ⟨below, hbelow⟩ := lineage_suffix h
  have hlengths := congrArg List.length hinner
  have hlength := congrArg List.length hbelow
  simp only [lineage, List.length_append, List.length_cons] at hlengths hlength
  -- it cannot come up further than the site
  have hstop : s.climb .legend c ≤ inner.length := by
    obtain ⟨B, v⟩ := s
    obtain rfl : inner ++ o.ancestors = B := hinner
    have hall : climb .legend ⟨inner ++ o.ancestors, v⟩ c ≤ (inner ++ o.ancestors).length :=
      (List.takeWhile_sublist _).length_le
    unfold handsOn at hkept
    generalize o.ancestors = above at hall hkept ⊢
    cases above with
    | nil => rwa [List.append_nil] at hall ⊢
    | cons n outer =>
      have hn : n.resolve.shares .legend c = false := hkept
      by_contra hmore
      have hup := (length_le_climb_iff inner outer n v c).mp (Nat.lt_of_not_le hmore)
      exact absurd (hn.symm.trans hup.2) Bool.false_ne_true
  have heq : below.length = s.climb .legend c := by omega
  rw [← hbelow, ← heq, List.drop_left]

end Site

namespace View

variable {v : View} {c : Channel}

/-- Where the legend of a site ends up: at a site above which legends are kept apart. -/
theorem exists_legendHome {s : Site} (hs : s ∈ v.sites []) (c : Channel) :
    ∃ o ∈ v.sites [], s ∈ o.preOrder ∧ o.lineage = s.lineage.drop (s.climb .legend c) ∧
      o.handsOn .legend c = false := by
  have hstays {t : Site} (ht : t ∈ v.sites []) (hkept : t.handsOn .legend c = false) :
      ∃ o ∈ v.sites [], t ∈ o.preOrder ∧ o.lineage = t.lineage.drop (t.climb .legend c) ∧
        o.handsOn .legend c = false := by
    refine ⟨t, ht, self_mem_sites _ _, ?_, hkept⟩
    rw [Site.climb_of_apart hkept, List.drop_zero]
  -- from the top down: a legend stays, or ends up where that of the node above does
  refine sites_induct (Q := fun s => ∃ o ∈ v.sites [], s ∈ o.preOrder ∧
    o.lineage = s.lineage.drop (s.climb .legend c) ∧ o.handsOn .legend c = false) ?_ ?_ s hs
  · exact hstays (self_mem_sites [] v) rfl
  · rintro t ht ⟨o, ho, hbelow, hlineage, hkept⟩ w hw
    cases hr : t.node.resolve.shares .legend c with
    | false => exact hstays (child_mem_sites ht hw) hr
    | true =>
      refine ⟨o, ho, child_mem_sites hbelow hw, ?_, hkept⟩
      rw [Site.climb_child hr]
      exact hlineage

/-- The nodes that a legend climbs past hold none. -/
theorem legend_free (h : Fits Promoted [] v) {s : Site} (hs : s ∈ v.sites []) (c : Channel) :
    ∀ n ∈ s.lineage.take (s.climb .legend c), n.components.legends.get? c = none := by
  have hstays {t : Site} (hkept : t.handsOn .legend c = false) :
      ∀ n ∈ t.lineage.take (t.climb .legend c), n.components.legends.get? c = none := by
    rw [Site.climb_of_apart hkept, List.take_zero]
    exact List.forall_mem_nil _
  refine sites_induct (Q := fun s => ∀ n ∈ s.lineage.take (s.climb .legend c),
    n.components.legends.get? c = none) ?_ ?_ s hs
  · exact hstays rfl
  · intro t ht hfree w hw
    cases hr : t.node.resolve.shares .legend c with
    | false => exact hstays hr
    | true =>
      rw [Site.climb_child hr]
      refine List.forall_mem_cons.mpr ⟨?_, hfree⟩
      have hheld := h _ (child_mem_sites ht hw) c
      have hhands : Site.handsOn .legend ⟨t.lineage, w⟩ c = true := hr
      rwa [hhands, if_pos rfl] at hheld

/-- Where legends are left, those that end up are those that come up. -/
theorem claimants_eq (hnames : (v.nodes.map Node.name).Nodup) {o : Site} (ho : o ∈ v.sites [])
    (hkept : o.handsOn .legend c = false) : v.claimants c o.node.name = o.contenders c := by
  have hhome {s : Site} (hs : s ∈ v.sites [])
      (h : ((s.legendHome? c).map Node.name == some o.node.name) = true) :
      s ∈ o.preOrder ∧ o.lineage = s.lineage.drop (s.climb .legend c) := by
    obtain ⟨p, hp, hbelow, hlineage, -⟩ := exists_legendHome hs c
    rw [Site.legendHome?_of_drop hlineage, beq_iff_eq, Option.map_some] at h
    obtain rfl := site_eq_of_name_eq hnames hp ho (Option.some.inj h)
    exact ⟨hbelow, hlineage⟩
  rw [claimants, filter_preOrder hnames ho (fun s hs h => (hhome hs h).1), Site.contenders]
  apply List.filter_congr
  intro s hs
  rw [Bool.eq_iff_iff, decide_eq_true_iff]
  constructor
  · intro h
    have hlength := congrArg List.length (hhome (mem_sites_trans ho hs) h).2
    simp only [Site.lineage, List.length_drop, List.length_cons] at hlength
    omega
  · intro hle
    rw [Site.legendHome?_of_drop (Site.drop_climb_of_contender hs hkept hle), Option.map_some]
    exact beq_self_eq_true _

/-- A node holds the first legend of those that end up at it, and no other. -/
theorem legends_eq (h : Fits Promoted [] v) (hnames : (v.nodes.map Node.name).Nodup) {o : Site}
    (ho : o ∈ v.sites []) (c : Channel) : o.node.components.legends.get? c =
      (v.claimants c o.node.name).findSome? (fun s => s.ownLegend? c) := by
  rw [h o ho c]
  cases hkept : o.handsOn .legend c with
  | false => rw [claimants_eq hnames ho hkept, if_neg Bool.false_ne_true, Site.legend?]
  | true =>
    -- a legend that ends up at the node would have to be left there
    have hnone : v.claimants c o.node.name = [] := by
      rw [claimants, List.filter_eq_nil_iff]
      intro s hs hhome
      obtain ⟨p, hp, -, hlineage, hleft⟩ := exists_legendHome hs c
      rw [Site.legendHome?_of_drop hlineage, beq_iff_eq, Option.map_some] at hhome
      obtain rfl := site_eq_of_name_eq hnames hp ho (Option.some.inj hhome)
      exact absurd (hleft.symm.trans hkept) Bool.false_ne_true
    rw [if_pos rfl, hnone, List.findSome?_nil]

end View

/-! ### Legends that move again -/

namespace Legend

variable {parent child : Dict Channel Legend} {c : Channel}

/-- A node that has a legend, or finds none to take, stays as it is. -/
theorem moveUp_fst_of_held (h : parent.contains c = true ∨ child.get? c = none) :
    (moveUp parent child c).1 = parent := by
  unfold moveUp
  cases hc : child.get? c with
  | none => rfl
  | some l =>
    rcases h with hp | hnone
    · exact if_pos hp
    · exact absurd (hc.symm.trans hnone) nofun

theorem moveUp_of_none (h : child.get? c = none) : moveUp parent child c = (parent, child) := by
  rw [moveUp, h]

end Legend

/-! ### Built trees -/

theorem Site.scale?_isSome {s : Site} {c : Channel} (h : (s.scaleHolder? c).isSome = true) :
    (s.scale? c).isSome = true := by
  obtain ⟨holder, hholder⟩ := Option.isSome_iff_exists.mp h
  obtain ⟨n, hn, -⟩ := Option.map_eq_some_iff.mp hholder
  have hcontains : n.components.scales.contains c.primary = true :=
    List.find?_some (p := fun n : Node => n.components.scales.contains c.primary) hn
  rw [Site.scale?, hn]
  exact hcontains

/-- A unit that encodes a channel with a legend that is not switched off. -/
def Site.asksLegend (s : Site) (c : Channel) : Bool :=
  Channel.legendChannels.contains c &&
    s.node.unit?.any (fun u => ((u.fieldDef? c).bind FieldDef.legendDef?).isSome)

theorem Site.ownLegend?_of_asks {s : Site} {k : Components} {c : Channel} (hs : Uses s k)
    (h : s.asksLegend c = true) : (s.ownLegend? c).isSome = true := by
  obtain ⟨hc, hasks⟩ := Bool.and_eq_true_iff.mp h
  obtain ⟨u, hu, hlegend⟩ := (Option.any_eq_true _ _).mp hasks
  have hmem : c ∈ Channel.legendChannels := List.contains_iff_mem.mp hc
  have hk : s.node.kind = .unit u := Node.kind_of_unit? hu
  obtain ⟨asked, hasked⟩ := Option.isSome_iff_exists.mp hlegend
  obtain ⟨f, hf, hdef⟩ := Option.bind_eq_some_iff.mp hasked
  have hholder := scaleHolder?_unit hs hk (List.mem_append_right _ hmem)
    (Encode.positionFieldDef?_near hf)
  obtain ⟨scale, hscale⟩ := Option.isSome_iff_exists.mp (Site.scale?_isSome hholder)
  have hown : s.ownLegend? c = Legend.ofUnit? s u c := by
    rw [ownLegend?, hu, Option.bind_some, Legend.ofUnit, Dict.get?_ofList_filterMap, if_pos hmem]
  rw [hown, Legend.ofUnit?, hf, Option.bind_eq_bind, Option.bind_some, hdef, hscale]
  rfl

/-- Where the legends of a tree are. -/
structure View.LegendsClimb (root : View) : Prop where
  /-- Every node holds the first legend of those that end up at it; there are no others. -/
  first : ∀ o ∈ root.sites [], ∀ c, o.node.components.legends.get? c =
    (root.claimants c o.node.name).findSome? (fun s => s.ownLegend? c)
  /-- The way up of a legend is free of legends, and at its end there is one. -/
  settled : ∀ s ∈ root.sites [], ∀ c, s.asksLegend c = true →
    (∀ n ∈ s.lineage.take (s.climb .legend c), n.components.legends.get? c = none) ∧
      ∃ home l, s.lineage[s.climb .legend c]? = some home ∧ s ∈ root.claimants c home.name ∧
        home.components.legends.get? c = some l ∧
        (root.claimants c home.name).findSome? (fun s => s.ownLegend? c) = some l
  /-- Moving a shared legend once more changes nothing, and if there is another one in the child it
  is lost. -/
  stable : ∀ p ∈ root.sites [], ∀ w ∈ p.view.children, ∀ c,
    p.node.resolve.shares .legend c = true →
      w.node.components.legends.get? c = none ∧
      Legend.moveUp p.node.components.legends w.node.components.legends c =
        (p.node.components.legends, w.node.components.legends) ∧
      (p.node.components.legends.contains c = true → ∀ other,
        (Legend.moveUp p.node.components.legends other c).1 = p.node.components.legends ∧
          (Legend.moveUp p.node.components.legends other c).2.get? c = none)

namespace Tree

variable {spec : Spec} {config : Config} {t : Tree} {ds : List Diagnostic}

/-- When all phases are over, a site has the legends that come up to it and stay there. -/
theorem promoted_of_build (h : Tree.build spec config = .ok (t, ds)) {pipeline : Pipeline}
    (herror : (t.runPhases pipeline Phase.all).error = none) :
    View.Fits View.Promoted [] (t.runPhases pipeline Phase.all).tree.root := by
  refine runPhases_establish (P := fun s _ => s.Built spec)
    [.data, .scale, .layoutSize, .selection, .markGroup, .axisAndHeader] .legend [] ?_
    (List.forall_mem_nil _) ?_ (built_of_build h pipeline []) herror
  · exact fun phase _ => ⟨built_siteBlind spec phase, built_ownBlind spec phase⟩
  · exact fun _ _ v hb hok => View.offering_root (View.bottomUp_offering hb hok)

/-- The legend phase is reached and leaves every legend where the sharing above it ends, the first
of those that meet there. With the standard data pipeline no phase fails; with any other one the same
holds if none does. -/
theorem legendsClimb_of_build (h : Tree.build spec config = .ok (t, ds)) :
    (t.parse .standard).error = none ∧ ∀ pipeline, (t.parse pipeline).error = none →
      (t.parse pipeline).tree.root.LegendsClimb := by
  obtain ⟨hreached, hdistinct, -⟩ := Tree.build_ok (G := fun _ => True) h
  refine ⟨(hreached.parse trivial spec.guideExtras_true hdistinct).1, ?_⟩
  intro pipeline herror
  rw [parse_of_build h] at herror ⊢
  have hbuilt := built_of_build h pipeline Phase.all
  have hnames := runPhases_names h pipeline Phase.all
  have hholds := holds_of_build h pipeline [.layoutSize, .selection, .markGroup, .axisAndHeader,
    .legend]
  have hpromoted := promoted_of_build h herror
  refine ⟨fun o ho c => View.legends_eq hpromoted hnames ho c, ?_, ?_⟩
  · intro s hs c hasks
    refine ⟨View.legend_free hpromoted hs c, ?_⟩
    obtain ⟨o, ho, -, hlineage, -⟩ := View.exists_legendHome hs c
    have hhome := Site.legendHome?_of_drop hlineage
    have hclaims : s ∈ (t.runPhases pipeline Phase.all).tree.root.claimants c o.node.name := by
      refine List.mem_filter.mpr ⟨hs, ?_⟩
      rw [hhome, Option.map_some]
      exact beq_self_eq_true _
    have hsome : (((t.runPhases pipeline Phase.all).tree.root.claimants c o.node.name).findSome?
        (fun s => s.ownLegend? c)).isSome = true := by
      rw [List.findSome?_isSome_iff]
      exact ⟨s, hclaims, Site.ownLegend?_of_asks (uses_of_holds hholds hbuilt s hs) hasks⟩
    obtain ⟨l, hl⟩ := Option.isSome_iff_exists.mp hsome
    exact ⟨o.node, l, hhome, hclaims, (View.legends_eq hpromoted hnames ho c).trans hl, hl⟩
  · intro p hp w hw c hshare
    have hnone : w.node.components.legends.get? c = none := by
      have hheld := hpromoted _ (View.child_mem_sites hp hw) c
      have hhands : Site.handsOn .legend ⟨p.lineage, w⟩ c = true := hshare
      rwa [hhands, if_pos rfl] at hheld
    refine ⟨hnone, Legend.moveUp_of_none hnone, ?_⟩
    intro hheld other
    refine ⟨Legend.moveUp_fst_of_held (.inl hheld), ?_⟩
    rw [View.moveUp_get?_snd, if_pos rfl]

end Tree

/-! ### Colored points in layers -/

namespace Spec

/-- Points colored by a field. -/
def coloredPoints (field : String) (legend : GuideChoice LegendDef) : Spec :=
  .unit ⟨⟨none, none, none, none⟩, ⟨none, none⟩, ⟨.point, none⟩,
    .ofList [(.color, .field { FieldDef.unset with field := some field, legend })], .empty⟩

/-- Points without a legend, two layers that keep their colors apart, and points with a legend. -/
def coloredLayers : Spec :=
  .layer ⟨⟨none, none, none, none⟩, ⟨none, none⟩, .empty⟩ [
    coloredPoints "a" .disabled,
    .layer ⟨⟨none, none, none, none⟩, ⟨none, none⟩, Resolve.empty.set .scale .color .independent⟩
      [coloredPoints "b" .automatic, coloredPoints "c" .automatic],
    coloredPoints "d" .automatic,
    coloredPoints "e" .automatic]

end Spec

namespace Tree

/-- Of the colors that layers share, the legend is that of the first points that have one; points
that keep their colors apart keep their legends. -/
theorem legendsClimb_coloredLayers :
    ∃ t ds, Tree.build .coloredLayers .default = .ok (t, ds) ∧
      (t.parse .standard).tree.root.LegendsClimb ∧
      ((t.parse .standard).tree.root.sites []).map (fun s =>
        (s.node.components.legends.get? .color).map Legend.title) =
          [some "d", none, none, some "b", some "c", none, none] := by
  have hlegends : (Tree.build .coloredLayers .default).toOption.any (fun r =>
      ((r.1.parse .standard).tree.root.sites []).map (fun s =>
        (s.node.components.legends.get? .color).map Legend.title) ==
          [some "d", none, none, some "b", some "c", none, none]) = true := by
    decide +kernel
  obtain ⟨⟨t, ds⟩, hb, hlegends⟩ := exists_ok_of_any hlegends
  obtain ⟨herror, hclimb⟩ := legendsClimb_of_build hb
  exact ⟨t, ds, hb, hclimb .standard herror, beq_iff_eq.mp hlegends⟩

end Tree
end Trellis

import Trellis.Proofs.Climbs

/-! How far axes climb. A layer that shares axes hands on the first one that comes up to it, and a
facet lifts what comes up to it into its headers. -/
namespace Trellis

namespace View

mutual

/-- The axis that a view has for the node above: that of a unit, and of a layer that shares axes the
first one among the views under it. Axes that come up to a facet end there. -/
def risingAxis? (ancestors : List Node) (c : Channel) : View → Option Axis
  | mk n cs =>
    match n.kind with
    | .unit u => Axis.ofUnit? ⟨ancestors, mk n cs⟩ u c
    | .layer _ => if n.resolve.shares .axis c then risingAxisIn? (n :: ancestors) c cs else none
    | .facet _ => none

def risingAxisIn? (ancestors : List Node) (c : Channel) : List View → Option Axis
  | [] => none
  | v :: rest => (risingAxis? ancestors c v).or (risingAxisIn? ancestors c rest)

end

theorem risingAxisIn?_eq (A : List Node) (c : Channel) (cs : List View) :
    risingAxisIn? A c cs = cs.findSome? (risingAxis? A c) := by
  induction cs with
  | nil => rfl
  | cons v rest ih =>
    rw [risingAxisIn?, ih, List.findSome?_cons]
    cases risingAxis? A c v <;> rfl

/-- The axes that a view holds for a channel. -/
def heldAxes (v : View) (c : Channel) : List Axis := v.node.components.axes.getD c []

end View

/-- The axes that go to a place along a facet channel: those at the top and on the left to the
header, those at the bottom and on the right to the footer. -/
def HeaderSlot.picks : HeaderSlot → List Axis → List Axis
  | header, axes => axes.filter (fun a => a.orient = .top ∨ a.orient = .left)
  | footer, axes => axes.filter (fun a => a.orient = .bottom ∨ a.orient = .right)

@[simp] theorem HeaderSlot.picks_nil (slot : HeaderSlot) : slot.picks [] = [] := by
  cases slot <;> rfl

/-- The headers that collect the axes of a channel: those of x stand along the columns, those of y
along the rows. -/
def HeaderChannel.Along (h : HeaderChannel) (c : Channel) : Prop :=
  c = .x ∧ h = .column ∨ c = .y ∧ h = .row

theorem HeaderChannel.Along.forAxis? {h : HeaderChannel} {c : Channel} (hc : h.Along c) :
    HeaderChannel.forAxis? c = some h := by
  rcases hc with ⟨rfl, rfl⟩ | ⟨rfl, rfl⟩ <;> rfl

/-- The axes at one place of a header. -/
def LayoutHeader.axesIn (header : LayoutHeader) (slot : HeaderSlot) : List Axis :=
  (header.parts slot).flatMap HeaderPart.axes

/-- A header has at most one part at each place, and in these the given axes by their sides, in
order. -/
def LayoutHeader.Carries (header : LayoutHeader) (axes : List Axis) : Prop :=
  ∀ slot, (header.parts slot).length ≤ 1 ∧ header.axesIn slot = slot.picks axes

namespace Site

def risingAxis? (s : Site) (c : Channel) : Option Axis := s.view.risingAxis? s.ancestors c

/-- The axis of a site that the node above leaves there. -/
def stayingAxis? (s : Site) (c : Channel) : Option Axis :=
  if s.handsOn .axis c then none else s.risingAxis? c

/-- The axes that a facet lifts into its headers. -/
def liftedAxes (s : Site) (c : Channel) : List Axis :=
  if s.node.isFacet && s.node.resolve.shares .axis c then
    s.children.flatMap (fun w => (w.risingAxis? c).toList)
  else []

end Site

/-! ### Only scales and decisions count -/

section
variable {g : Components → Components}

theorem View.risingAxis?_updateAll (hg : ∀ k, (g k).scales = k.scales) (A : List Node)
    (c : Channel) (v : View) :
    (v.updateAll g).risingAxis? (A.map (Node.update · g)) c = v.risingAxis? A c := by
  induction v using View.induct generalizing A with
  | h n cs ih =>
    have hunit (u : UnitView) : Axis.ofUnit? (Site.updateAll g ⟨A, .mk n cs⟩) u c =
        Axis.ofUnit? ⟨A, .mk n cs⟩ u c := by
      unfold Axis.ofUnit?
      rw [Site.scale?_updateAll hg, Site.scaleName_updateAll hg]
    have hin : (cs.map (updateAll g)).findSome?
        (risingAxis? ((n.update g) :: A.map (·.update g)) c) =
          cs.findSome? (risingAxis? (n :: A) c) := by
      rw [List.findSome?_map]
      exact findSome?_congr (fun w hw => ih w hw (n :: A))
    have hsite : Site.updateAll g ⟨A, .mk n cs⟩ =
        ⟨A.map (·.update g), .mk (n.update g) (cs.map (updateAll g))⟩ := by
      rw [Site.updateAll, updateAll_mk]
    rw [hsite] at hunit
    rw [updateAll_mk, risingAxis?, risingAxis?, risingAxisIn?_eq, risingAxisIn?_eq, hin]
    have hkind : (n.update g).kind = n.kind := rfl
    rw [hkind]
    cases n.kind with
    | unit u => exact hunit u
    | layer size => rfl
    | facet f => rfl

namespace Site

theorem risingAxis?_updateAll (hg : ∀ k, (g k).scales = k.scales) (s : Site) (c : Channel) :
    (s.updateAll g).risingAxis? c = s.risingAxis? c :=
  View.risingAxis?_updateAll hg s.ancestors c s.view

theorem children_updateAll (g : Components → Components) (s : Site) :
    (s.updateAll g).children = s.children.map (updateAll g) := by
  unfold children
  rw [lineage_updateAll, List.map_map]
  exact (congrArg _ (View.children_updateAll g s.view)).trans (by rw [List.map_map]; rfl)

theorem stayingAxis?_updateAll (hg : ∀ k, (g k).scales = k.scales) (s : Site) (c : Channel) :
    (s.updateAll g).stayingAxis? c = s.stayingAxis? c := by
  unfold stayingAxis?
  rw [handsOn_updateAll, risingAxis?_updateAll hg]

theorem liftedAxes_updateAll (hg : ∀ k, (g k).scales = k.scales) (s : Site) (c : Channel) :
    (s.updateAll g).liftedAxes c = s.liftedAxes c := by
  unfold liftedAxes
  rw [children_updateAll, List.flatMap_map, node_updateAll]
  simp only [risingAxis?_updateAll hg]
  rfl

end Site
end

/-! ### Headers that take axes up -/

theorem Dict.getD_insert {κ α : Type} [Ord κ] [Std.TransOrd κ] [Std.LawfulEqOrd κ] [DecidableEq κ]
    (d : Dict κ α) (key k : κ) (value fallback : α) :
    (d.insert key value).getD k fallback = if k = key then value else d.getD k fallback := by
  unfold Dict.getD
  rw [Dict.get?_insert]
  split <;> rfl

/-- The place of an axis is the one that picks it. -/
theorem HeaderSlot.picks_eq (slot : HeaderSlot) (axes : List Axis) :
    slot.picks axes = axes.filter (fun a => HeaderSlot.ofOrient a.orient = slot) := by
  have hside (o : Orient) :
      (o = .top ∨ o = .left ↔ HeaderSlot.ofOrient o = .header) ∧
        (o = .bottom ∨ o = .right ↔ HeaderSlot.ofOrient o = .footer) := by
    cases o <;> decide
  cases slot with
  | header => exact List.filter_congr (fun a _ => decide_eq_decide.mpr (hside a.orient).1)
  | footer => exact List.filter_congr (fun a _ => decide_eq_decide.mpr (hside a.orient).2)

theorem HeaderSlot.picks_append (slot : HeaderSlot) (axes more : List Axis) :
    slot.picks (axes ++ more) = slot.picks axes ++ slot.picks more := by
  rw [picks_eq, picks_eq, picks_eq, List.filter_append]

/-- Every axis goes to one of the two places. -/
theorem HeaderSlot.picks_perm (axes : List Axis) :
    (HeaderSlot.header.picks axes ++ HeaderSlot.footer.picks axes).Perm axes := by
  have hother (o : Orient) : decide (HeaderSlot.ofOrient o = .footer) =
      !decide (HeaderSlot.ofOrient o = .header) := by
    cases o <;> rfl
  rw [picks_eq, picks_eq]
  simp only [hother]
  exact List.filter_append_perm _ axes

namespace LayoutHeader

variable {header : LayoutHeader} {axes : List Axis}

theorem carries_empty : LayoutHeader.empty.Carries [] := by
  intro slot
  cases slot <;> exact ⟨Nat.zero_le 1, rfl⟩

/-- One more axis goes behind those that are there on its side. -/
theorem Carries.addAxis (h : header.Carries axes) {fresh : HeaderPart} (hfresh : fresh.axes = [])
    (a : Axis) : (header.addAxis (.ofOrient a.orient) fresh a).Carries (axes ++ [a]) := by
  intro slot
  refine ⟨addAxis_single (fun slot => (h slot).1) _ fresh a slot, ?_⟩
  obtain ⟨hlength, hown⟩ := h slot
  have hpick : slot.picks [a] = if slot = .ofOrient a.orient then [a] else [] := by
    by_cases hs : slot = .ofOrient a.orient
    · simp [HeaderSlot.picks_eq, hs]
    · simp [HeaderSlot.picks_eq, hs, Ne.symm hs]
  rw [HeaderSlot.picks_append, hpick, ← hown]
  unfold LayoutHeader.addAxis axesIn
  by_cases hs : slot = .ofOrient a.orient
  · subst hs
    rw [if_pos rfl]
    split
    · rename_i hnone
      rw [parts_withParts, if_pos rfl, hnone, List.flatMap_singleton, hfresh, List.flatMap_nil]
    · rename_i p rest hparts
      rw [hparts, List.length_cons] at hlength
      obtain rfl : rest = [] := List.eq_nil_of_length_eq_zero (by omega)
      rw [parts_withParts, if_pos rfl, hparts, List.flatMap_singleton, List.flatMap_singleton]
  · rw [if_neg hs, List.append_nil]
    split
    · rw [parts_withParts, if_neg hs]
    · rw [parts_withParts, if_neg hs]

/-- Axes that go into a header one by one stand there in their order. -/
theorem Carries.foldl_addAxis {headers : Dict HeaderChannel LayoutHeader} {h : HeaderChannel}
    (hh : (headers.getD h .empty).Carries axes) {fresh : HeaderPart} (hfresh : fresh.axes = [])
    (more : List Axis) : ((more.foldl (fun headers a => headers.insert h
      ((headers.getD h .empty).addAxis (.ofOrient a.orient) fresh a)) headers).getD h
        .empty).Carries (axes ++ more) := by
  induction more generalizing headers axes with
  | nil =>
    rw [List.append_nil]
    exact hh
  | cons a rest ih =>
    rw [List.foldl_cons, List.append_cons]
    apply ih
    rw [Dict.getD_insert, if_pos rfl]
    exact hh.addAxis hfresh a

theorem getD_foldl_addAxis {h other : HeaderChannel} (hne : other ≠ h) (fresh : HeaderPart)
    (more : List Axis) (headers : Dict HeaderChannel LayoutHeader) :
    (more.foldl (fun headers a => headers.insert h
      ((headers.getD h .empty).addAxis (.ofOrient a.orient) fresh a)) headers).getD other .empty =
        headers.getD other .empty := by
  induction more generalizing headers with
  | nil => rfl
  | cons a rest ih => rw [List.foldl_cons, ih, Dict.getD_insert, if_neg hne]

end LayoutHeader

/-! ### One facet -/

namespace View

/-- A facet's node and its child while the axes of some channels are lifted: those of the child go
into the headers, and all else that the child holds stays. -/
structure Lifting (n : Node) (child : View) (done : List Channel) (p : Node × View) : Prop where
  resolve : p.1.resolve = n.resolve
  axes : p.1.components.axes = n.components.axes
  children : p.2.children = child.children
  inner : ∀ h axes, (child.node.components.headers.getD h .empty).Carries axes →
    (p.2.node.components.headers.getD h .empty).Carries axes
  left : ∀ c, p.2.node.components.axes.get? c =
    if c ∈ done ∧ n.resolve.shares .axis c then none else child.node.components.axes.get? c
  lifted : ∀ c ∈ Channel.axisChannels, ∀ h, HeaderChannel.forAxis? c = some h →
    (p.1.components.headers.getD h .empty).Carries
      (if c ∈ done ∧ n.resolve.shares .axis c then child.heldAxes c else [])

variable {n : Node} {child : View} {done : List Channel} {p : Node × View}

theorem lifting_start (hheaders : n.components.headers = .empty) :
    Lifting n child [] (n, child) where
  resolve := rfl
  axes := rfl
  children := rfl
  inner _ _ h := h
  left c := by rw [if_neg (fun h => List.not_mem_nil h.1)]
  lifted c _ h _ := by
    rw [if_neg (fun h => List.not_mem_nil h.1), hheaders]
    exact LayoutHeader.carries_empty

/-- A facet's own header starts without axes, and takes from the child a title at most. -/
theorem Lifting.addHeader (hp : Lifting n child [] p) (config : Config) (f : FacetView)
    (h : HeaderChannel) : Lifting n child [] (addHeader config p.1 f h p.2) := by
  unfold View.addHeader
  cases hf : f.fieldDef? h.channel with
  | none => exact hp
  | some g =>
    have hbare : (facetHeader config p.2 h g).1.Carries [] := by
      intro slot
      cases slot with
      | header => exact ⟨Nat.le_refl 1, rfl⟩
      | footer => exact ⟨Nat.zero_le 1, rfl⟩
    have hnone (c : Channel) :
        ¬ (c ∈ ([] : List Channel) ∧ n.resolve.shares .axis c = true) :=
      fun h => List.not_mem_nil h.1
    have hlifted : ∀ c ∈ Channel.axisChannels, ∀ other, HeaderChannel.forAxis? c = some other →
        ((p.1.components.headers.insert h (facetHeader config p.2 h g).1).getD other .empty).Carries
          (if c ∈ [] ∧ n.resolve.shares .axis c then child.heldAxes c else []) := by
      intro c hc other hother
      have hold := hp.lifted c hc other hother
      rw [if_neg (hnone c)] at hold ⊢
      rw [Dict.getD_insert]
      split
      · exact hbare
      · exact hold
    dsimp only
    obtain hchild | ⟨inner, hinner, hchild⟩ := facetHeader_child config p.2 h g
    · rw [hchild]
      exact ⟨hp.resolve, hp.axes, hp.children, hp.inner, hp.left, hlifted⟩
    · rw [hchild]
      obtain ⟨m, w⟩ := p
      cases w with
      | mk k ws =>
        refine ⟨hp.resolve, hp.axes, hp.children, ?_, hp.left, hlifted⟩
        intro other axes hcarries
        have hold := hp.inner other axes hcarries
        change ((k.components.headers.insert h { inner with title := none }).getD other
          .empty).Carries axes
        rw [Dict.getD_insert]
        split
        · rename_i heq
          rw [heq, Dict.getD, hinner] at hold
          exact hold
        · exact hold

theorem lifting_other {c d : Channel} (hd : d ≠ c) :
    (d ∈ c :: done ∧ n.resolve.shares .axis d = true) ↔
      (d ∈ done ∧ n.resolve.shares .axis d = true) := by
  rw [List.mem_cons, or_iff_right hd]

/-- Nothing moves where axes are kept apart, or where there are none. -/
theorem Lifting.skip (hp : Lifting n child done p) {c : Channel}
    (hnone : n.resolve.shares .axis c = false ∨ child.node.components.axes.get? c = none) :
    Lifting n child (c :: done) p := by
  refine ⟨hp.resolve, hp.axes, hp.children, hp.inner, ?_, ?_⟩
  · intro d
    rw [hp.left d]
    by_cases hd : d = c
    · subst hd
      rcases hnone with hr | hn
      · rw [if_neg (fun h => Bool.false_ne_true (hr.symm.trans h.2)),
          if_neg (fun h => Bool.false_ne_true (hr.symm.trans h.2))]
      · rw [hn, ite_self, ite_self]
    · simp only [lifting_other hd]
  · intro d hd h hh
    have hcarried := hp.lifted d hd h hh
    by_cases hdc : d = c
    · subst hdc
      rcases hnone with hr | hn
      · rw [if_neg (fun h => Bool.false_ne_true (hr.symm.trans h.2))] at hcarried ⊢
        exact hcarried
      · have hheld : child.heldAxes d = [] := by rw [heldAxes, Dict.getD, hn, Option.getD_none]
        rw [hheld, ite_self] at hcarried ⊢
        exact hcarried
    · simp only [lifting_other hdc]
      exact hcarried

/-- The axes of one more channel go up. Those of x and of y go into different headers. -/
theorem Lifting.liftAxes (hp : Lifting n child done p) {c : Channel}
    (hc : c ∈ Channel.axisChannels) (hnew : c ∉ done) :
    Lifting n child (c :: done) (liftAxes c p.1 p.2) := by
  have hapart : ∀ c ∈ Channel.axisChannels, ∀ d ∈ Channel.axisChannels, d ≠ c →
      HeaderChannel.forAxis? d ≠ HeaderChannel.forAxis? c := by decide
  have hsome : ∀ c ∈ Channel.axisChannels, (HeaderChannel.forAxis? c).isSome = true := by decide
  obtain ⟨h, hh⟩ := Option.isSome_iff_exists.mp (hsome c hc)
  have hown := hp.left c
  rw [if_neg (fun h => hnew h.1)] at hown
  unfold View.liftAxes
  rw [hp.resolve]
  cases hr : n.resolve.shares .axis c with
  | false => exact hp.skip (.inl hr)
  | true =>
    rw [if_neg (by decide), hh, hown]
    cases haxes : child.node.components.axes.get? c with
    | none => exact hp.skip (.inr haxes)
    | some axes =>
      have hheld : child.heldAxes c = axes := by rw [heldAxes, Dict.getD, haxes, Option.getD_some]
      obtain ⟨m, w⟩ := p
      cases w with
      | mk k ws =>
        refine ⟨hp.resolve, hp.axes, hp.children, hp.inner, ?_, ?_⟩
        · intro d
          change (k.components.axes.erase c).get? d = _
          rw [Dict.get?_erase]
          by_cases hd : d = c
          · rw [if_pos hd, hd, if_pos ⟨List.mem_cons_self, hr⟩]
          · simp only [if_neg hd, lifting_other hd]
            exact hp.left d
        · intro d hd other hother
          have hcarried := hp.lifted d hd other hother
          by_cases hdc : d = c
          · subst hdc
            obtain rfl : h = other := Option.some.inj (hh.symm.trans hother)
            rw [if_neg (fun h => hnew h.1)] at hcarried
            rw [if_pos ⟨List.mem_cons_self, hr⟩, hheld, ← List.nil_append axes]
            exact hcarried.foldl_addAxis rfl axes
          · have hne : other ≠ h := by
              rintro rfl
              exact hapart c hc d hd hdc (hother.trans hh.symm)
            simp only [lifting_other hdc]
            rw [← LayoutHeader.getD_foldl_addAxis hne (headerPart (View.mk k ws) h false) axes]
              at hcarried
            exact hcarried

/-- A facet lifts the axes that it shares, x before y. -/
theorem facetGuides_lifting (config : Config) (f : FacetView)
    (hheaders : n.components.headers = .empty) :
    Lifting n child [.y, .x] (facetGuides config n f child) :=
  ((((lifting_start hheaders).addHeader config f .column).addHeader config f .row).liftAxes
    (c := .x) (by decide) (by decide)).liftAxes (c := .y) (by decide) (by decide)

/-! ### The phase -/

/-- A site has the axis that comes up to it and that the node above leaves there, perhaps turned to
the other side. -/
def AxesStay : Fact := fun s k => ∀ c ∈ Channel.axisChannels,
  List.Forall₂ Axis.Turned (k.axes.getD c []) (s.stayingAxis? c).toList

/-- The headers of a site carry the axes that it lifts. -/
def AxesLifted : Fact := fun s k => ∀ c ∈ Channel.axisChannels, ∀ h,
  HeaderChannel.forAxis? c = some h → (k.headers.getD h .empty).Carries (s.liftedAxes c)

theorem singleParts_of_lifted {s : Site} {k : Components} (h : AxesLifted s k) :
    SingleParts k.headers := by
  intro side header hget slot
  obtain ⟨c, hc, hside⟩ : ∃ c ∈ Channel.axisChannels, HeaderChannel.forAxis? c = some side := by
    cases side with
    | row => exact ⟨.y, by decide, rfl⟩
    | column => exact ⟨.x, by decide, rfl⟩
  have hone := (h c hc side hside slot).1
  rwa [Dict.getD, hget] at hone

theorem axesStay_siteBlind {phase : Phase} (h : phase ≠ .scale) :
    Fact.SiteBlind phase AxesStay := by
  intro s k
  unfold AxesStay
  simp only [s.stayingAxis?_updateAll (Components.without_scales h)]

theorem axesLifted_siteBlind {phase : Phase} (h : phase ≠ .scale) :
    Fact.SiteBlind phase AxesLifted := by
  intro s k
  unfold AxesLifted
  simp only [s.liftedAxes_updateAll (Components.without_scales h)]

/-- The view has the axis that comes up to it, and what is under it is as it stays. -/
structure Rising (A : List Node) (v : View) : Prop where
  axes : ∀ c ∈ Channel.axisChannels,
    v.node.components.axes.get? c = (v.risingAxis? A c).map (fun a => [a])
  headers : AxesLifted ⟨A, v⟩ v.node.components
  below : ∀ d ∈ v.children, Fits (AxesStay.both AxesLifted) (v.node :: A) d

variable {A : List Node} {whole : Spec} {v w : View}

theorem Rising.heldAxes (h : Rising A v) {c : Channel} (hc : c ∈ Channel.axisChannels) :
    v.heldAxes c = (v.risingAxis? A c).toList := by
  rw [View.heldAxes, Dict.getD, h.axes c hc]
  cases v.risingAxis? A c <;> rfl

theorem risingAxis?_of_frame
    (h : w.updateAll (Components.without .axisAndHeader) =
      v.updateAll (Components.without .axisAndHeader)) (c : Channel) :
    w.risingAxis? A c = v.risingAxis? A c := by
  have hscales (k : Components) : (k.without .axisAndHeader).scales = k.scales := rfl
  rw [← risingAxis?_updateAll hscales, h, risingAxis?_updateAll hscales]

/-- A view stays as the node above leaves it. -/
theorem Rising.fits (h : Rising A v) (hframe : w.updateAll (Components.without .axisAndHeader) =
      v.updateAll (Components.without .axisAndHeader)) (hchildren : w.children = v.children)
    (haxes : ∀ c ∈ Channel.axisChannels,
      List.Forall₂ Axis.Turned (w.heldAxes c) (Site.stayingAxis? ⟨A, v⟩ c).toList)
    (hheaders : ∀ h axes, (v.node.components.headers.getD h .empty).Carries axes →
      (w.node.components.headers.getD h .empty).Carries axes) :
    Fits (AxesStay.both AxesLifted) A w := by
  have hblind : Fact.SiteBlind .axisAndHeader (AxesStay.both AxesLifted) :=
    (axesStay_siteBlind (by decide)).both (axesLifted_siteBlind (by decide))
  have hnode : v.node.update (Components.without .axisAndHeader) =
      w.node.update (Components.without .axisAndHeader) := by
    rw [← node_updateAll, ← node_updateAll, hframe]
  obtain ⟨n, cs⟩ := v
  obtain ⟨m, ds⟩ := w
  obtain rfl : ds = cs := hchildren
  refine fits_mk_of_frame hblind hnode rfl ⟨haxes, ?_⟩ h.below
  exact fun c hc side hside => hheaders side _ (h.headers c hc side hside)

theorem axesLifted_of_not_facet {k : Components} (hn : v.node.isFacet = false)
    (hheaders : k.headers = .empty) : AxesLifted ⟨A, v⟩ k := by
  intro c _ h _
  have hnone : Site.liftedAxes ⟨A, v⟩ c = [] := by
    unfold Site.liftedAxes
    have hnode : (Site.node ⟨A, v⟩).isFacet = false := hn
    rw [hnode]
    rfl
  rw [hnone, hheaders]
  exact LayoutHeader.carries_empty

theorem risingAxis?_unit {n : Node} {cs : List View} {u : UnitView} (hk : n.kind = .unit u)
    (c : Channel) : (mk n cs).risingAxis? A c = Axis.ofUnit? ⟨A, mk n cs⟩ u c := by
  rw [risingAxis?, hk]

theorem risingAxis?_layer {n : Node} {cs : List View} {size : Size} (hk : n.kind = .layer size)
    (c : Channel) : (mk n cs).risingAxis? A c =
      if n.resolve.shares .axis c then cs.findSome? (risingAxis? (n :: A) c) else none := by
  rw [risingAxis?, hk]
  dsimp only
  rw [risingAxisIn?_eq]

theorem risingAxis?_facet {n : Node} {cs : List View} {f : FacetView} (hk : n.kind = .facet f)
    (c : Channel) : (mk n cs).risingAxis? A c = none := by
  rw [risingAxis?, hk]

/-- A unit has its own axes. -/
theorem unit_rising {n : Node} {u : UnitView} (hk : n.kind = .unit u)
    (hheaders : n.components.headers = .empty) :
    Rising A (((mk n []).update (fun k => { k with axes := Axis.ofUnit ⟨A, mk n []⟩ u })).update
      (markDone .axisAndHeader)) := by
  have hframe : (((mk n []).update (fun k => { k with axes := Axis.ofUnit ⟨A, mk n []⟩ u })).update
      (markDone .axisAndHeader)).updateAll (Components.without .axisAndHeader) =
        (mk n []).updateAll (Components.without .axisAndHeader) := by
    rw [markDone_frame]
    exact update_updateAll_of_blind (by intro _; rfl) _
  refine ⟨?_, axesLifted_of_not_facet (Node.not_facet_of_unit hk) hheaders,
    fun d hd => absurd hd List.not_mem_nil⟩
  intro c hc
  rw [risingAxis?_of_frame hframe, risingAxis?_unit hk]
  exact (Axis.ofUnit_get? _ u c).trans (if_pos hc)

/-- A layer takes the first of the axes it shares, and leaves the others where they are. -/
theorem layer_rising {n : Node} {ws : List View} {size : Size} (hk : n.kind = .layer size)
    (hheaders : n.components.headers = .empty) (h : ∀ w ∈ ws, Rising (n :: A) w) :
    Rising A ((mk (n.update (fun k => { k with
        axes := (mergeAxes n.resolve .zero .empty ws).1 }))
      (mergeAxes n.resolve .zero .empty ws).2).update (markDone .axisAndHeader)) := by
  have hblind : Fact.SiteBlind .axisAndHeader (AxesStay.both AxesLifted) :=
    (axesStay_siteBlind (by decide)).both (axesLifted_siteBlind (by decide))
  have hframe : ((mk (n.update (fun k => { k with
        axes := (mergeAxes n.resolve .zero .empty ws).1 }))
      (mergeAxes n.resolve .zero .empty ws).2).update (markDone .axisAndHeader)).updateAll
        (Components.without .axisAndHeader) =
      (mk n ws).updateAll (Components.without .axisAndHeader) := by
    rw [markDone_frame]
    exact updateAll_congr_mk rfl (mergeAxes_frame _ _ _ _)
  refine ⟨?_, axesLifted_of_not_facet (Node.not_facet_of_layer hk) hheaders, ?_⟩
  · intro c hc
    have hfirst : ws.findSome? (fun w => w.node.components.axes.get? c) =
        (ws.findSome? (risingAxis? (n :: A) c)).map (fun a => [a]) := by
      rw [List.map_findSome?]
      exact findSome?_congr (fun w hw => (h w hw).axes c hc)
    rw [risingAxis?_of_frame hframe, risingAxis?_layer hk]
    refine (mergeAxes_get? n.resolve .zero .empty ws c).trans ?_
    rw [Dict.get?_empty, Option.none_or, hfirst]
    split <;> rfl
  · intro d hd
    obtain ⟨w, hw, kept, rfl, hkept⟩ := mergeAxes_views d hd
    refine Fits.below (n := n) hblind rfl ?_
    obtain ⟨m, ds⟩ := w
    refine (h _ hw).fits (update_updateAll_of_blind (by intro _; rfl) _) rfl ?_ (fun _ _ h => h)
    intro c hc
    have hturned := hkept c
    have hheld : (mk m ds).node.components.axes.getD c [] =
        ((mk m ds).risingAxis? (n :: A) c).toList := (h _ hw).heldAxes hc
    have hhands : Site.handsOn .axis ⟨n :: A, mk m ds⟩ c = n.resolve.shares .axis c := rfl
    rw [hheld] at hturned
    rw [Site.stayingAxis?, hhands]
    cases hr : n.resolve.shares .axis c with
    | true =>
      rw [hr] at hturned
      exact hturned
    | false =>
      rw [hr] at hturned
      exact hturned

theorem mem_lifted_iff {c : Channel} (hc : c ∈ Channel.axisChannels) (b : Bool) :
    (c ∈ [Channel.y, .x] ∧ b = true) ↔ b = true := by
  have hmem : ∀ c ∈ Channel.axisChannels, c ∈ [Channel.y, .x] := by decide
  exact and_iff_right (hmem c hc)

theorem liftedAxes_facet {n : Node} {child : View} {f : FacetView} (hk : n.kind = .facet f)
    (h : Rising (n :: A) child) (hc : c ∈ Channel.axisChannels) :
    Site.liftedAxes ⟨A, mk n [child]⟩ c =
      if n.resolve.shares .axis c then child.heldAxes c else [] := by
  have hfacet : (Site.node ⟨A, mk n [child]⟩).isFacet = true := Node.isFacet_of_facet hk
  have hchildren : Site.children ⟨A, mk n [child]⟩ = [⟨n :: A, child⟩] := rfl
  rw [Site.liftedAxes, hfacet, Bool.true_and, hchildren, List.flatMap_singleton, h.heldAxes hc]
  rfl

/-- A facet lifts the axes it shares, and leaves the others to its child. -/
theorem facet_rising (config : Config) {n : Node} {child : View} {f : FacetView}
    (hk : n.kind = .facet f) (haxes : n.components.axes = .empty)
    (hheaders : n.components.headers = .empty) (h : Rising (n :: A) child) :
    Rising A ((mk (facetGuides config n f child).1 [(facetGuides config n f child).2]).update
      (markDone .axisAndHeader)) := by
  have hblind : Fact.SiteBlind .axisAndHeader (AxesStay.both AxesLifted) :=
    (axesStay_siteBlind (by decide)).both (axesLifted_siteBlind (by decide))
  have hp : Lifting n child [.y, .x] (facetGuides config n f child) :=
    facetGuides_lifting config f hheaders
  obtain ⟨hnode, hcell⟩ := facetGuides_frame config n f child
  generalize facetGuides config n f child = p at hp hnode hcell
  obtain ⟨m, w⟩ := p
  have hframe : ((mk m [w]).update (markDone .axisAndHeader)).updateAll
      (Components.without .axisAndHeader) =
        (mk n [child]).updateAll (Components.without .axisAndHeader) := by
    rw [markDone_frame]
    refine updateAll_congr_mk hnode ?_
    rw [List.map_singleton, List.map_singleton, hcell]
  refine ⟨?_, ?_, ?_⟩
  · intro c _
    rw [risingAxis?_of_frame hframe, risingAxis?_facet hk]
    change m.components.axes.get? c = none
    rw [hp.axes, haxes, Dict.get?_empty]
  · intro c hc side hside
    have hscales (k : Components) : (k.without .axisAndHeader).scales = k.scales := rfl
    have hsame : Site.liftedAxes ⟨A, (mk m [w]).update (markDone .axisAndHeader)⟩ c =
        Site.liftedAxes ⟨A, mk n [child]⟩ c := by
      rw [← Site.liftedAxes_updateAll hscales,
        ← Site.liftedAxes_updateAll hscales ⟨A, mk n [child]⟩, Site.updateAll, Site.updateAll,
        hframe]
    have hcarried := hp.lifted c hc side hside
    simp only [mem_lifted_iff hc] at hcarried
    rw [hsame, liftedAxes_facet hk h hc]
    exact hcarried
  · intro d hd
    obtain rfl : d = w := List.mem_singleton.mp hd
    refine Fits.below (n := n) (m := m.update (markDone .axisAndHeader)) hblind hnode.symm ?_
    refine h.fits hcell hp.children ?_ hp.inner
    intro c hc
    have hheld : d.heldAxes c = (Site.stayingAxis? ⟨n :: A, child⟩ c).toList := by
      have hhands : Site.handsOn .axis ⟨n :: A, child⟩ c = n.resolve.shares .axis c := rfl
      rw [heldAxes, Dict.getD, hp.left c, Site.stayingAxis?, hhands]
      simp only [mem_lifted_iff hc]
      split
      · rfl
      · exact h.heldAxes hc
    rw [hheld]
    exact List.forall₂_same.mpr (fun a _ => .inl rfl)

/-- What the guide phase needs to find at a site. -/
def Blank (whole : Spec) : Fact := fun s k => s.Built whole ∧ Unguided s k

theorem blank_siteBlind (whole : Spec) (phase : Phase) : (Blank whole).SiteBlind phase := by
  intro s k
  unfold Blank
  rw [s.built_updateAll]
  rfl

theorem guideStep_rising (config : Config) {n : Node} {ws : List View}
    (hb : Blank whole ⟨A, mk n ws⟩ n.components) (h : ∀ w ∈ ws, Rising (n :: A) w) :
    ∃ w ds, guideStep config A (mk n ws) = ⟨w, ds, none⟩ ∧
      Rising A (w.update (markDone .axisAndHeader)) := by
  obtain ⟨hbuilt, haxes, hheaders⟩ := hb
  unfold guideStep
  cases hk : n.kind with
  | unit u =>
    rw [show (mk n ws).node.kind = .unit u from hk]
    -- a unit has nothing under it, so all it has are its own axes
    obtain rfl : ws = [] := hbuilt.unit_leaf (Node.isUnit_of_unit hk)
    exact ⟨_, _, rfl, unit_rising hk hheaders⟩
  | layer size =>
    rw [show (mk n ws).node.kind = .layer size from hk]
    exact ⟨_, _, rfl, layer_rising hk hheaders h⟩
  | facet f =>
    rw [show (mk n ws).node.kind = .facet f from hk]
    obtain ⟨child, hchild⟩ := hbuilt.facet_single (Node.isFacet_of_facet hk)
    obtain rfl : ws = [child] := hchild
    exact ⟨_, _, rfl, facet_rising config hk haxes hheaders (h child List.mem_cons_self)⟩

/-- The guide phase never fails on a built tree, and after it every view has the axes that come up
to it, until the node above takes them. -/
theorem bottomUp_rising (config : Config) (hb : Fits (Blank whole) A v) :
    (v.bottomUp .axisAndHeader (guideStep config) A).error = none ∧
      Rising A (v.bottomUp .axisAndHeader (guideStep config) A).view :=
  bottomUp_makes (guideStep_frame config) (blank_siteBlind whole .axisAndHeader)
    (fun _ _ _ hblank hbelow => guideStep_rising config hblank hbelow) hb

/-- Nothing is above the topmost view, so its axis stays there. -/
theorem rising_root (h : Rising [] v) : Fits (AxesStay.both AxesLifted) [] v := by
  refine h.fits rfl rfl ?_ (fun _ _ h => h)
  intro c hc
  rw [h.heldAxes hc]
  exact List.forall₂_same.mpr (fun a _ => .inl rfl)

end View

/-! ### Sites before and after the phase -/

namespace Site

/-- The view of a site as the guide phase leaves it to the node above. -/
def guided (config : Config) (s : Site) : View :=
  (s.view.bottomUp .axisAndHeader (View.guideStep config) s.ancestors).view

/-- The first axis that the views under a layer hold when the layer is worked out, if it shares
them. -/
def firstAxis? (config : Config) (s : Site) (c : Channel) : Option Axis :=
  if s.node.resolve.shares .axis c then
    s.children.findSome? (fun w => ((w.guided config).heldAxes c).head?)
  else none

/-- The axes that the child of a facet holds when the facet is worked out. -/
def cellAxes (config : Config) (s : Site) (c : Channel) : List Axis :=
  s.children.flatMap (fun w => (w.guided config).heldAxes c)

/-- What the guide phase does with the axes for a channel at a site. -/
structure AxesMove (config : Config) (c : Channel) (before after : Site) : Prop where
  /-- It is the same site, but for axes and headers. -/
  same : after.updateAll (Components.without .axisAndHeader) =
    before.updateAll (Components.without .axisAndHeader)
  /-- The site keeps what it held when it was worked out, unless the node above takes it. -/
  held : List.Forall₂ Axis.Turned (after.view.heldAxes c)
    (if before.handsOn .axis c then [] else (before.guided config).heldAxes c)
  /-- Where axes are shared, the views below hold none. -/
  emptied : before.node.resolve.shares .axis c = true →
    ∀ w ∈ after.view.children, w.heldAxes c = []
  /-- A layer holds the first axis of those below, unless the node above takes it. -/
  layer : before.node.isLayer = true → (after.view.heldAxes c).length ≤ 1 ∧
    List.Forall₂ Axis.Turned (after.view.heldAxes c)
      (if before.handsOn .axis c then [] else (before.firstAxis? config c).toList)
  /-- A facet lifts all axes it shares into its headers, by their sides and in order. -/
  facet : before.node.isFacet = true → ∀ h : HeaderChannel, h.Along c → ∀ slot,
    (after.node.components.headers.getD h .empty).axesIn slot =
      if before.node.resolve.shares .axis c then slot.picks (before.cellAxes config c) else []
  /-- No axis is lost on the way, or lifted twice. -/
  complete : before.node.isFacet = true → before.node.resolve.shares .axis c = true →
    ∀ h : HeaderChannel, h.Along c →
      ((after.node.components.headers.getD h .empty).axesIn .header ++
        (after.node.components.headers.getD h .empty).axesIn .footer).Perm
          (before.cellAxes config c)
  /-- Along each facet channel there is at most one header and one footer. -/
  single : SingleParts after.node.components.headers

variable {config : Config} {whole : Spec} {c : Channel} {s t : Site}

theorem guided_heldAxes (hb : View.Fits (View.Blank whole) s.ancestors s.view)
    (hc : c ∈ Channel.axisChannels) :
    (s.guided config).heldAxes c = (s.risingAxis? c).toList := by
  rw [guided, (View.bottomUp_rising config hb).2.heldAxes hc,
    View.risingAxis?_of_frame (View.bottomUp_frame (View.guideStep_frame config) _ _)]
  rfl

theorem fits_children {R : Fact} (h : View.Fits R s.ancestors s.view) :
    ∀ w ∈ s.children, View.Fits R w.ancestors w.view := by
  intro w hw
  obtain ⟨d, hd, rfl⟩ := List.mem_map.mp hw
  exact h.children d hd

theorem firstAxis?_eq (hb : View.Fits (View.Blank whole) s.ancestors s.view)
    (hc : c ∈ Channel.axisChannels) (hn : s.node.isLayer = true) :
    s.firstAxis? config c = s.risingAxis? c := by
  have hin : s.children.findSome? (fun w => ((w.guided config).heldAxes c).head?) =
      s.children.findSome? (fun w => w.risingAxis? c) := by
    apply View.findSome?_congr
    intro w hw
    rw [guided_heldAxes (fits_children hb w hw) hc]
    cases w.risingAxis? c <;> rfl
  rw [firstAxis?, hin, children, List.findSome?_map]
  obtain ⟨size, hk⟩ := Node.kind_of_isLayer hn
  obtain ⟨A, v⟩ := s
  cases v with
  | mk n cs => exact (View.risingAxis?_layer hk c).symm

theorem cellAxes_eq (config : Config) (hb : View.Fits (View.Blank whole) s.ancestors s.view)
    (hc : c ∈ Channel.axisChannels) :
    s.cellAxes config c = s.children.flatMap (fun w => (w.risingAxis? c).toList) :=
  List.flatMap_congr (fun w hw => guided_heldAxes (fits_children hb w hw) hc)

/-- What is known of a site after the phase tells what the phase did with it. -/
theorem axesMove_of_fits (hb : View.Fits (View.Blank whole) s.ancestors s.view)
    (hsame : t.updateAll (Components.without .axisAndHeader) =
      s.updateAll (Components.without .axisAndHeader))
    (ht : View.Fits (View.AxesStay.both View.AxesLifted) t.ancestors t.view)
    (hc : c ∈ Channel.axisChannels) : AxesMove config c s t := by
  have hscales (k : Components) : (k.without .axisAndHeader).scales = k.scales := rfl
  have hrising : t.risingAxis? c = s.risingAxis? c := by
    rw [← risingAxis?_updateAll hscales, hsame, risingAxis?_updateAll hscales]
  have hhands : t.handsOn .axis c = s.handsOn .axis c := by
    rw [← handsOn_updateAll (Components.without .axisAndHeader), hsame, handsOn_updateAll]
  have hlifts : t.liftedAxes c = s.liftedAxes c := by
    rw [← liftedAxes_updateAll hscales, hsame, liftedAxes_updateAll hscales]
  have hresolve : t.node.resolve = s.node.resolve := by
    have hnode := congrArg (fun x : Site => x.node.resolve) hsame
    rwa [node_updateAll, node_updateAll] at hnode
  have hstay : View.AxesStay t t.node.components := ht.self.1
  have hlifted : View.AxesLifted t t.node.components := ht.self.2
  have hheld : List.Forall₂ Axis.Turned (t.view.heldAxes c)
      (if s.handsOn .axis c then [] else (s.risingAxis? c).toList) := by
    have hown := hstay c hc
    rw [stayingAxis?, hhands, hrising, apply_ite Option.toList] at hown
    exact hown
  have hslots (hn : s.node.isFacet = true) : ∀ h : HeaderChannel, h.Along c → ∀ slot,
      (t.node.components.headers.getD h .empty).axesIn slot =
        if s.node.resolve.shares .axis c then slot.picks (s.cellAxes config c) else [] := by
    intro h hh slot
    rw [(hlifted c hc h hh.forAxis? slot).2, hlifts, liftedAxes, hn, Bool.true_and,
      ← cellAxes_eq config hb hc, apply_ite slot.picks, HeaderSlot.picks_nil]
  refine ⟨hsame, ?_, ?_, ?_, hslots, ?_, ?_⟩
  · rw [guided_heldAxes hb hc]
    exact hheld
  · intro hshare w hw
    have hchild : View.AxesStay ⟨t.lineage, w⟩ w.node.components := (ht.children w hw).self.1
    have htaken : handsOn .axis ⟨t.lineage, w⟩ c = true := by
      rw [← hshare, ← hresolve]
      rfl
    have hnone := hchild c hc
    rw [stayingAxis?, htaken] at hnone
    exact List.forall₂_nil_right_iff.mp hnone
  · intro hn
    refine ⟨?_, ?_⟩
    · rw [hheld.length_eq]
      split
      · exact Nat.zero_le 1
      · cases s.risingAxis? c <;> simp
    · rw [firstAxis?_eq hb hc hn]
      exact hheld
  · intro hn hshare h hh
    rw [hslots hn h hh, hslots hn h hh, if_pos hshare, if_pos hshare]
    exact HeaderSlot.picks_perm _
  · exact View.singleParts_of_lifted hlifted

end Site

namespace View

variable {v w : View} {g : Components → Components}

/-- Sites that agree in what a change of the components keeps, one by one. -/
theorem forall₂_of_updateAll {ss ts : List Site}
    (h : ss.map (Site.updateAll g) = ts.map (Site.updateAll g)) :
    List.Forall₂ (fun s t => t.updateAll g = s.updateAll g) ss ts := by
  rw [← List.forall₂_eq_eq_eq, List.forall₂_map_left_iff, List.forall₂_map_right_iff] at h
  exact h.imp (fun _ _ h => h.symm)

/-- The sites of trees that agree but for one phase's part, one by one. -/
theorem forall₂_sites_of_frame (h : w.updateAll g = v.updateAll g) :
    List.Forall₂ (fun s t => t.updateAll g = s.updateAll g) (v.sites []) (w.sites []) := by
  apply forall₂_of_updateAll
  rw [← sites_updateAll, ← sites_updateAll, h]

/-- The guide phase moves the axes of every site of a built tree. -/
theorem bottomUp_axesMove (config : Config) {whole : Spec} (hb : Fits (Blank whole) [] v)
    {c : Channel} (hc : c ∈ Channel.axisChannels) :
    List.Forall₂ (Site.AxesMove config c) (v.sites [])
      ((v.bottomUp .axisAndHeader (guideStep config) []).view.sites []) := by
  have hfits := rising_root (bottomUp_rising config hb).2
  have hpairs := forall₂_sites_of_frame (bottomUp_frame (guideStep_frame config) [] v)
  refine (forall₂_mem hpairs).imp ?_
  rintro s t ⟨hs, ht, hsame⟩
  exact Site.axesMove_of_fits (hb.site hs) hsame (hfits.site ht) hc

end View

namespace Tree

variable {spec : Spec} {config : Config} {t : Tree} {ds : List Diagnostic}

/-- The phases before axes and headers are worked out. -/
def beforeGuides : List Phase := [.data, .scale, .layoutSize, .selection, .markGroup]

/-- With the standard data pipeline no phase before the guides fails. -/
theorem beforeGuides_ok (h : Tree.build spec config = .ok (t, ds)) :
    (t.runPhases .standard beforeGuides).error = none := by
  obtain ⟨hreached, hdistinct, -⟩ := Tree.build_ok (G := fun _ => True) h
  have hsuccessive : Phase.Successive none beforeGuides := ⟨rfl, rfl, rfl, rfl, rfl, trivial⟩
  exact (hreached.runPhases _ trivial spec.guideExtras_true hdistinct hsuccessive).1

/-- The guide phase starts without guides. -/
theorem blank_of_build (h : Tree.build spec config = .ok (t, ds)) (pipeline : Pipeline) :
    View.Fits (View.Blank spec) [] (t.runPhases pipeline beforeGuides).tree.root := by
  have hkept : View.Fits Unguided [] (t.runPhases pipeline beforeGuides).tree.root := by
    refine runPhases_carry (fun phase hphase => ⟨fun _ _ => Iff.rfl, unguided_ownBlind ?_⟩)
      (unguided_of_build h)
    exact ne_of_mem_of_not_mem hphase (by decide)
  exact fun s hs => ⟨built_of_build h pipeline beforeGuides s hs, hkept s hs⟩

/-- What the guide phase makes of a tree without guides is there after it, if later phases leave it
alone. -/
theorem guides_establish (h : Tree.build spec config = .ok (t, ds)) {pipeline : Pipeline}
    {R : Fact} (later : List Phase) (hR : ∀ phase ∈ later, R.SiteBlind phase ∧ R.OwnBlind phase)
    (hguides : ∀ config v, View.Fits (View.Blank spec) [] v →
      View.Fits R [] (v.bottomUp .axisAndHeader (View.guideStep config) []).view)
    (herror : (t.runPhases pipeline (beforeGuides ++ .axisAndHeader :: later)).error = none) :
    View.Fits R [] (t.runPhases pipeline (beforeGuides ++ .axisAndHeader :: later)).tree.root := by
  have hblank : View.Fits (View.Blank spec) [] t.root := by
    intro s hs
    exact ⟨built_of_build h pipeline [] s hs, unguided_of_build h s hs⟩
  refine runPhases_establish beforeGuides .axisAndHeader later ?_ hR ?_ hblank herror
  · intro earlier hearlier
    have hother : earlier ≠ .axisAndHeader := ne_of_mem_of_not_mem hearlier (by decide)
    exact ⟨View.blank_siteBlind spec earlier,
      (built_ownBlind spec earlier).both (unguided_ownBlind hother)⟩
  · exact fun config _ v hv _ => hguides config v hv

/-- Once the phases before it have run, the guide phase runs and does not fail. -/
theorem runPhases_guides (h : Tree.build spec config = .ok (t, ds)) {pipeline : Pipeline}
    (herror : (t.runPhases pipeline beforeGuides).error = none) :
    (t.runPhases pipeline (beforeGuides ++ [.axisAndHeader])).error = none ∧
      (t.runPhases pipeline (beforeGuides ++ [.axisAndHeader])).tree.root =
        ((t.runPhases pipeline beforeGuides).tree.root.bottomUp .axisAndHeader
          (View.guideStep config) []).view := by
  obtain ⟨-, -, hconfig, -⟩ := Tree.build_ok (G := fun _ => True) h
  let next := (t.runPhases pipeline beforeGuides).tree
  have hown : next.config = config := (runPhases_config pipeline beforeGuides t).trans hconfig
  have hparsed : next.parsed = some .markGroup :=
    parsed_of_ok [.data, .scale, .layoutSize, .selection] .markGroup herror
  have hdue : Phase.due? next.parsed = some .axisAndHeader := by
    rw [hparsed]
    rfl
  have hguides := View.bottomUp_rising next.config (blank_of_build h pipeline)
  obtain ⟨hlast, htree⟩ := runPhases_next pipeline beforeGuides .axisAndHeader herror rfl hdue
    hguides.1
  refine ⟨hlast, ?_⟩
  rw [htree, ← hown]
  rfl

/-- Once the phases before it have run, the guide phase does not fail, and of x and y every shared
axis moves to where the sharing above it ends: the first of each to a layer, all of them to the
headers of a facet. With the standard data pipeline the phases before it do not fail either. -/
theorem axesMove_of_build (h : Tree.build spec config = .ok (t, ds)) :
    (t.runPhases .standard beforeGuides).error = none ∧
      ∀ pipeline, (t.runPhases pipeline beforeGuides).error = none →
        (t.runPhases pipeline (beforeGuides ++ [.axisAndHeader])).error = none ∧
          ∀ c ∈ Channel.axisChannels, List.Forall₂ (Site.AxesMove config c)
            ((t.runPhases pipeline beforeGuides).tree.root.sites [])
            ((t.runPhases pipeline (beforeGuides ++ [.axisAndHeader])).tree.root.sites []) := by
  refine ⟨beforeGuides_ok h, ?_⟩
  intro pipeline herror
  obtain ⟨hlast, hroot⟩ := runPhases_guides h herror
  refine ⟨hlast, ?_⟩
  intro c hc
  rw [hroot]
  exact View.bottomUp_axesMove config (blank_of_build h pipeline) hc

end Tree

/-! ### Rows of points in layers -/

namespace Spec

/-- Points over a field on x and y, with the axes asked for. -/
def axisPoints (field : String) (x y : GuideChoice AxisDef) : Spec :=
  let shown (axis : GuideChoice AxisDef) : ChannelDef :=
    .field { FieldDef.unset with field := some field, axis }
  .unit ⟨⟨none, none, none, none⟩, ⟨none, none⟩, ⟨.point, none⟩,
    .ofList [(.x, shown x), (.y, shown y)], .empty⟩

/-- Rows of points without axes, two layers that keep their axes apart, and points with axes at the
top and on the right. -/
def rowsOfAxes : Spec :=
  let on (side : Orient) : GuideChoice AxisDef := .custom { AxisDef.unset with orient := some side }
  rows "r" .empty (.layer ⟨⟨none, none, none, none⟩, ⟨none, none⟩, .empty⟩ [
    axisPoints "a" .disabled .disabled,
    .layer ⟨⟨none, none, none, none⟩, ⟨none, none⟩, Resolve.empty.set .axis .x .independent⟩
      [axisPoints "b" .automatic .disabled, axisPoints "c" .automatic .disabled],
    axisPoints "d" (on .top) (on .right),
    axisPoints "e" .automatic .automatic])

end Spec

/-- What axes a site has above its columns and behind its rows, and which of x it holds itself. -/
def Site.axisPlaces (s : Site) : List (String × Orient) × List (String × Orient) ×
    List (String × Orient) :=
  let read (a : Axis) : String × Orient := (a.title, a.orient)
  let lifted (h : HeaderChannel) (slot : HeaderSlot) : List Axis :=
    (s.node.components.headers.getD h .empty).axesIn slot
  ((lifted .column .header).map read, (lifted .row .footer).map read, (s.view.heldAxes .x).map read)

namespace Tree

/-- The facet draws the axes that come up to it above and behind the cells. Points that keep their
axes apart keep them, the second one turned to the top. -/
theorem axesMove_rowsOfAxes :
    ∃ t ds, Tree.build .rowsOfAxes .default = .ok (t, ds) ∧
      (∀ c ∈ Channel.axisChannels, List.Forall₂ (Site.AxesMove .default c)
        ((t.runPhases .standard beforeGuides).tree.root.sites [])
        ((t.runPhases .standard (beforeGuides ++ [.axisAndHeader])).tree.root.sites [])) ∧
      ((t.runPhases .standard (beforeGuides ++ [.axisAndHeader])).tree.root.sites []).map
          Site.axisPlaces =
        [([("d", .top)], [("d", .right)], []), ([], [], []), ([], [], []), ([], [], []),
          ([], [], [("b", .bottom)]), ([], [], [("c", .top)]), ([], [], []), ([], [], [])] := by
  have haxes : (Tree.build .rowsOfAxes .default).toOption.any (fun r =>
      ((r.1.runPhases .standard (beforeGuides ++ [.axisAndHeader])).tree.root.sites []).map
          Site.axisPlaces ==
        [([("d", .top)], [("d", .right)], []), ([], [], []), ([], [], []), ([], [], []),
          ([], [], [("b", .bottom)]), ([], [], [("c", .top)]), ([], [], []), ([], [], [])]) =
            true := by
    decide +kernel
  obtain ⟨⟨t, ds⟩, hb, haxes⟩ := exists_ok_of_any haxes
  obtain ⟨hbefore, hmove⟩ := axesMove_of_build hb
  exact ⟨t, ds, hb, (hmove .standard hbefore).2, beq_iff_eq.mp haxes⟩

end Tree
end Trellis

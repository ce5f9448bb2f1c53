import Trellis.Proofs.Bands
import Trellis.Proofs.Climbs

/-! Bars that end at zero. Where a bar or a rectangle leaves the far end of a position open, it ends
at the zero of the scale in use, unless that one has bands. Which type the scale has is up to the
first unit that uses it, and some discrete types have neither bands nor a zero. -/
namespace Trellis

/-! ### Units -/

namespace Channel

variable {c far : Channel}

theorem secondary?_mem (h : c.secondary? = some far) :
    c ∈ [Channel.x, .y] ∧ c ∈ scaleChannels ∧ far ∈ [Channel.x2, .y2] := by
  cases c <;> cases h <;> decide

theorem exists_near (h : far ∈ [Channel.x2, .y2]) : ∃ c : Channel, c.secondary? = some far := by
  simp only [List.mem_cons, List.not_mem_nil, or_false] at h
  rcases h with rfl | rfl
  · exact ⟨.x, rfl⟩
  · exact ⟨.y, rfl⟩

end Channel

/-- Of the marks drawn as rectangles, all but ticks have two ends. -/
theorem MarkType.isRect_not_tick (m : MarkType) :
    m.isRect = true ∧ m ≠ .tick ↔ m = .bar ∨ m = .rect := by
  cases m <;> decide

/-- Apart from bands, what is discrete is points and what maps each value by itself. -/
theorem ScaleType.isDiscrete_eq_false_iff {type : ScaleType} (h : type ≠ .band) :
    type.isDiscrete = false ↔ type ≠ .point ∧ type ≠ .ordinal := by
  cases type with
  | band => exact absurd rfl h
  | _ => decide

namespace UnitView

variable {u : UnitView} {c : Channel}

/-- A bar or a rectangle shows a field along a channel and leaves the far end open. -/
def leavesOpen (u : UnitView) (c : Channel) : Bool :=
  (u.mark.type = .bar || u.mark.type = .rect) && (u.fieldDef? c).isSome &&
    c.secondary?.any (fun far => !u.encoding.contains far)

/-- The type of the scale that a unit computes alone for a channel. -/
def scaleType? (u : UnitView) (c : Channel) : Option ScaleType :=
  (u.positionFieldDef? c).map (fun f =>
    (f.scale.getD .unset).type.getD (Scale.defaultType c f.measure u.mark.type))

/-- Only positions have a far end. -/
theorem exists_far_of_leavesOpen (h : u.leavesOpen c = true) : ∃ far, c.secondary? = some far := by
  rw [leavesOpen, Bool.and_eq_true] at h
  obtain ⟨far, hfar, -⟩ := (Option.any_eq_true _ _).mp h.2
  exact ⟨far, hfar⟩

theorem leavesOpen_iff {far : Channel} (hfar : c.secondary? = some far) :
    u.leavesOpen c = true ↔ (u.mark.type = .bar ∨ u.mark.type = .rect) ∧
      (∃ f, u.encoding.get? c = some (.field f)) ∧ u.encoding.contains far = false := by
  have hshown : (u.fieldDef? c).isSome = true ↔ ∃ f, u.encoding.get? c = some (.field f) := by
    unfold fieldDef?
    cases u.encoding.get? c with
    | none => simp
    | some d => cases d <;> simp [ChannelDef.fieldDef?]
  rw [leavesOpen, hfar, Bool.and_eq_true, Bool.and_eq_true, Bool.or_eq_true, decide_eq_true_iff,
    decide_eq_true_iff, hshown, Option.any_some, Bool.not_eq_true', and_assoc]

end UnitView

/-! ### Visual properties -/

namespace Encode

variable {s : Site} {config : Config} {u : UnitView} {e : EncodeEntry} {c far : Channel}
  {d : Dimension} {key name : String}

theorem extent_get?_of_ne (hfar : key ≠ far.name) (hd : key ≠ d.name) :
    (extent s u c far d e).get? key = e.get? key := by
  unfold extent
  split
  · rw [Dict.get?_insert, if_neg hd]
  · split
    · rw [Dict.get?_insert, if_neg hd]
    · split
      · rfl
      · rw [Dict.get?_insert, if_neg hfar]

/-- A position concerns its two ends and its extent only. -/
theorem position_get?_of_ne (hc : key ≠ c.name) (hfar : key ≠ far.name) (hd : key ≠ d.name) :
    (position s u c far d e).get? key = e.get? key := by
  have hnear : (near s u c far d e).get? key = e.get? key := by
    unfold near
    cases u.encoding.get? c with
    | none =>
      dsimp only
      split
      · rw [Dict.get?_insert, if_neg hfar, Dict.get?_insert, if_neg hc]
      · split
        · rfl
        · rw [Dict.get?_insert, if_neg hc]
    | some shown =>
      cases shown with
      | value j => exact (Dict.get?_insert ..).trans (if_neg hc)
      | field f =>
        dsimp only
        split
        · rw [extent_get?_of_ne hfar hd, Dict.get?_insert, if_neg hc]
        · rw [Dict.get?_insert, if_neg hc]
  unfold position
  cases u.encoding.get? far with
  | none => exact hnear
  | some shown => exact ((Dict.get?_insert ..).trans (if_neg hfar)).trans hnear

/-- The far end of a position is the zero of a scale just where a bar or a rectangle leaves it open
and the scale in use has no bands. -/
theorem position_far_iff (hfar : c.secondary? = some far) (hc : far.name ≠ c.name)
    (hd : far.name ≠ d.name) (he : e.get? far.name = none) :
    (position s u c far d e).get? far.name = some (.baseline name) ↔
      u.leavesOpen c = true ∧ (s.scale? c).any (fun scale => scale.type = .band) = false ∧
        s.scaleName c = name := by
  rw [UnitView.leavesOpen_iff hfar, ← MarkType.isRect_not_tick]
  unfold position
  cases hshown : u.encoding.get? far with
  | some shown =>
    -- the far end is given, and what is given goes through the scale or is constant
    have hgiven : u.encoding.contains far = true := Dict.contains_iff.mpr ⟨shown, hshown⟩
    cases shown <;> simp [valueOf, hgiven]
  | none =>
    have hopen : u.encoding.contains far = false := by rw [Dict.contains, hshown, Option.isSome_none]
    unfold near
    cases hget : u.encoding.get? c with
    | none =>
      dsimp only
      split
      · simp
      · split <;> simp [he, hc]
    | some near =>
      cases near with
      | value j => simp [he, hc]
      | field f =>
        cases hrect : u.mark.type.isRect with
        | false => simp [he, hc]
        | true =>
          unfold extent
          cases hband : (s.scale? c).any (fun scale => scale.type = .band) with
          | true => simp [he, hc, hd]
          | false =>
            by_cases htick : u.mark.type = .tick
            · simp [he, hc, hd, htick]
            · simp [hopen, htick]

/-- The names of the properties that are no positions. -/
def appearanceKeys : List String :=
  ["fill", "stroke", "fontSize", "strokeWidth", "size", "shape", "opacity", "text", "tooltip"]

theorem far_ne : ∀ far ∈ [Channel.x2, .y2], ∀ key ∈ appearanceKeys, far.name ≠ key := by decide

theorem foldl_get?_eq {α : Type} {f : EncodeEntry → α → EncodeEntry} {xs : List α}
    (h : ∀ e, ∀ x ∈ xs, (f e x).get? key = e.get? key) : (xs.foldl f e).get? key = e.get? key := by
  induction xs generalizing e with
  | nil => rfl
  | cons x rest ih =>
    rw [List.foldl_cons, ih (fun e y hy => h e y (List.mem_cons_of_mem x hy))]
    exact h e x List.mem_cons_self

theorem color_far (hfar : far ∈ [Channel.x2, .y2]) :
    (color s config u e).get? far.name = e.get? far.name := by
  have hne := far_ne far hfar
  unfold color
  rw [Dict.get?_insert, if_neg]
  split
  · exact hne "fill" (by decide)
  · exact hne "stroke" (by decide)

theorem sizeProperty_mem (m : MarkType) : sizeProperty m ∈ appearanceKeys := by
  cases m <;> decide

theorem appearance_far (hfar : far ∈ [Channel.x2, .y2]) :
    (appearance s u e).get? far.name = e.get? far.name := by
  have hne := far_ne far hfar
  have hshape : far.name ≠ "shape" := hne "shape" (by decide)
  unfold appearance
  dsimp only
  generalize hfold : List.foldl _ e _ = shown
  have hshown : shown.get? far.name = e.get? far.name := by
    rw [← hfold]
    apply foldl_get?_eq
    rintro e ⟨c, property⟩ hmem
    have hproperty : property ∈ appearanceKeys := by
      simp only [List.mem_cons, Prod.mk.injEq, List.not_mem_nil, or_false] at hmem
      rcases hmem with ⟨-, rfl⟩ | ⟨-, rfl⟩ | ⟨-, rfl⟩
      · exact sizeProperty_mem u.mark.type
      · decide
      · decide
    dsimp only
    split
    · rw [Dict.get?_insert, if_neg (hne property hproperty)]
    · rfl
  split
  · exact hshown
  · split
    · rw [Dict.get?_insert, if_neg hshape, hshown]
    · rw [Dict.get?_insert, if_neg hshape, hshown]
    · exact hshown

theorem texts_far (hfar : far ∈ [Channel.x2, .y2]) :
    (texts config u e).get? far.name = e.get? far.name := by
  apply foldl_get?_eq
  intro e c hc
  have hkey : c.name ∈ appearanceKeys := by
    simp only [List.mem_cons, List.not_mem_nil, or_false] at hc
    rcases hc with rfl | rfl <;> decide
  have hname : far.name ≠ c.name := far_ne far hfar c.name hkey
  split
  · rw [Dict.get?_insert, if_neg hname]
  · rw [Dict.get?_insert, if_neg hname]
  · rfl

/-- A mark ends at the zero of a scale just where a bar or a rectangle leaves a far end open along a
scale without bands. -/
theorem entry_far_iff (hfar : c.secondary? = some far) :
    (entry s config u).get? far.name = some (.baseline name) ↔
      u.leavesOpen c = true ∧ (s.scale? c).any (fun scale => scale.type = .band) = false ∧
        s.scaleName c = name := by
  obtain ⟨-, -, hends⟩ := Channel.secondary?_mem hfar
  unfold entry
  rw [texts_far hends, appearance_far hends, color_far hends]
  cases c with
  | x =>
    obtain rfl : Channel.x2 = far := Option.some.inj hfar
    rw [position_get?_of_ne (by decide) (by decide) (by decide)]
    exact position_far_iff rfl (by decide) (by decide) rfl
  | y =>
    obtain rfl : Channel.y2 = far := Option.some.inj hfar
    refine position_far_iff rfl (by decide) (by decide) ?_
    rw [position_get?_of_ne (by decide) (by decide) (by decide)]
    rfl
  | _ => cases hfar

end Encode

/-! ### Marks of units -/

/-- The mark of a unit ends at the zero of the scale in use just where the unit leaves a far end open
and the scale has no bands. -/
def EndsAtZero : Fact := fun s k => ∀ u, s.node.kind = .unit u →
  ∃ m, k.mark = [.unit m] ∧ m.type = u.mark.type ∧
    ∀ c far, c.secondary? = some far → ∀ name,
      m.update.get? far.name = some (.baseline name) ↔ u.leavesOpen c = true ∧
        (s.scale? c).any (fun scale => scale.type = .band) = false ∧ s.scaleName c = name

theorem endsAtZero_siteBlind {phase : Phase} (h : phase ≠ .scale) :
    Fact.SiteBlind phase EndsAtZero := by
  intro s k
  unfold EndsAtZero
  simp only [Site.scale?_updateAll (Components.without_scales h),
    Site.scaleName_updateAll (Components.without_scales h), Site.node_updateAll]
  rfl

theorem endsAtZero_ownBlind {phase : Phase} (h : phase ≠ .markGroup) :
    Fact.OwnBlind phase EndsAtZero := by
  intro s k
  unfold EndsAtZero
  rw [Components.without_mark h]

/-- Where the mark phase does not fail, it makes such marks. -/
theorem View.bottomUp_endsAtZero (config : Config) {A : List Node} {v : View}
    (h : (v.bottomUp .markGroup (markStep config) A).error = none) :
    Fits EndsAtZero A (v.bottomUp .markGroup (markStep config) A).view := by
  refine bottomUp_marks (P := fun _ _ => True) config (fun _ _ => Iff.rfl)
    (endsAtZero_siteBlind (by decide)) ?_ (fun _ _ => trivial) h
  intro s marks _ hmarks u hu
  rw [hu] at hmarks
  obtain ⟨source, rfl⟩ := hmarks
  exact ⟨_, rfl, rfl, fun c far hfar name => Encode.entry_far_iff hfar⟩

theorem Tree.endsAtZero_of_ok {t : Tree} {pipeline : Pipeline}
    (h : (t.runPhases pipeline Phase.all).error = none) :
    View.Fits EndsAtZero [] (t.runPhases pipeline Phase.all).tree.root := by
  refine runPhases_establish (P := fun _ _ => True) [.data, .scale, .layoutSize, .selection]
    .markGroup [.axisAndHeader, .legend] (fun _ _ => ⟨fun _ _ => Iff.rfl, fun _ _ => Iff.rfl⟩) ?_
    (fun config _ _ _ => View.bottomUp_endsAtZero config) (fun _ _ => trivial) h
  intro later hlater
  exact ⟨endsAtZero_siteBlind (ne_of_mem_of_not_mem hlater (by decide)),
    endsAtZero_ownBlind (ne_of_mem_of_not_mem hlater (by decide))⟩

/-! ### Shared scales -/

namespace Site

/-- The site is a bar or a rectangle that leaves a far end open. -/
def leavesOpen (s : Site) (c : Channel) : Bool := s.node.unit?.any (fun u => u.leavesOpen c)

/-- The type of the scale that a unit computes alone for a channel. -/
def scaleType? (s : Site) (c : Channel) : Option ScaleType :=
  s.node.unit?.bind (fun u => u.scaleType? c)

theorem exists_unit_of_leavesOpen {s : Site} {c : Channel} (h : s.leavesOpen c = true) :
    ∃ u, s.node.kind = .unit u ∧ u.leavesOpen c = true := by
  obtain ⟨u, hu, hopen⟩ := (Option.any_eq_true _ _).mp h
  exact ⟨u, Node.kind_of_unit? hu, hopen⟩

theorem leavesOpen_unit {s : Site} {u : UnitView} (h : s.node.kind = .unit u) (c : Channel) :
    s.leavesOpen c = u.leavesOpen c := by
  rw [leavesOpen, Node.unit?, h, Option.any_some]

theorem encodes_of_leavesOpen {s : Site} {c : Channel} (h : s.leavesOpen c = true) :
    s.encodes c = true := by
  obtain ⟨u, hu, hopen⟩ := (Option.any_eq_true _ _).mp h
  rw [UnitView.leavesOpen, Bool.and_eq_true, Bool.and_eq_true] at hopen
  obtain ⟨f, hf⟩ := Option.isSome_iff_exists.mp hopen.1.2
  rw [encodes, hu, Option.any_some]
  exact Encode.positionFieldDef?_near hf

/-- The name of the node up to which the scale of a channel is shared from a site on. -/
def home? (s : Site) (c : Channel) : Option String := s.lineage[s.climb .scale c]?.map Node.name

theorem home?_updateAll (g : Components → Components) (s : Site) (c : Channel) :
    (s.updateAll g).home? c = s.home? c := by
  unfold home?
  rw [climb_updateAll, lineage_updateAll, List.getElem?_map, Option.map_map]
  rfl

end Site

namespace View

/-- Of the units that share a scale with a site, the first in traversal order decides its type. -/
def sharedType? (v : View) (s : Site) (c : Channel) : Option ScaleType :=
  ((v.sites []).find? (fun w => w.encodes c && w.home? c == s.home? c)).bind
    (fun w => w.scaleType? c)

/-- No bar or rectangle that leaves a far end open shares a scale for points, or one that maps each
value by itself. -/
def OpenEndsMeasured (v : View) : Prop :=
  ∀ s ∈ v.sites [], ∀ c ∈ [Channel.x, .y], s.leavesOpen c = true →
    v.sharedType? s c ≠ some .point ∧ v.sharedType? s c ≠ some .ordinal

instance (v : View) : Decidable v.OpenEndsMeasured :=
  inferInstanceAs (Decidable (∀ s ∈ v.sites [], ∀ c ∈ [Channel.x, .y], s.leavesOpen c = true →
    v.sharedType? s c ≠ some .point ∧ v.sharedType? s c ≠ some .ordinal))

theorem sharedType?_updateAll (g : Components → Components) (v : View) (s : Site) (c : Channel) :
    (v.updateAll g).sharedType? (s.updateAll g) c = v.sharedType? s c := by
  have hsame : (fun w : Site => w.encodes c && w.home? c == (s.updateAll g).home? c) ∘
      Site.updateAll g = fun w => w.encodes c && w.home? c == s.home? c := by
    funext w
    have hencodes : (w.updateAll g).encodes c = w.encodes c := by
      unfold Site.encodes
      rw [Site.node_updateAll]
      rfl
    rw [Function.comp_apply, hencodes, Site.home?_updateAll, Site.home?_updateAll]
  have hsites : (v.updateAll g).sites [] = (v.sites []).map (Site.updateAll g) :=
    sites_updateAll g [] v
  have htype : (fun w : Site => w.scaleType? c) ∘ Site.updateAll g = fun w => w.scaleType? c := by
    funext w
    rw [Function.comp_apply, Site.scaleType?, Site.node_updateAll]
    rfl
  unfold sharedType?
  rw [hsites, List.find?_map, hsame, Option.bind_map, htype]

theorem openEndsMeasured_updateAll (g : Components → Components) (v : View) :
    (v.updateAll g).OpenEndsMeasured ↔ v.OpenEndsMeasured := by
  have hsites : (v.updateAll g).sites [] = (v.sites []).map (Site.updateAll g) :=
    sites_updateAll g [] v
  have hopen (s : Site) (c : Channel) : (s.updateAll g).leavesOpen c = s.leavesOpen c := by
    unfold Site.leavesOpen
    rw [Site.node_updateAll]
    rfl
  unfold OpenEndsMeasured
  rw [hsites, List.forall_mem_map]
  simp only [hopen, sharedType?_updateAll]

end View

namespace Scale

theorem withPadding_type (s : Scale) (asked : ScaleDef) (config : ScaleConfig) :
    (s.withPadding asked config).type = s.type := by
  unfold withPadding
  split <;> rfl

theorem ofUnit?_type (s : Site) (config : Config) (u : UnitView) (input : String) (c : Channel) :
    (ofUnit? s config u input c).map Scale.type = u.scaleType? c := by
  unfold ofUnit? UnitView.scaleType?
  rw [Option.map_map]
  apply Option.map_congr
  intro f _
  dsimp only [Function.comp_apply]
  split
  · rw [withPadding_type]
  · rfl

end Scale

namespace Tree

variable {spec : Spec} {config : Config} {t : Tree} {ds : List Diagnostic}

/-- The type of a scale in use is that of the first unit that shares it. -/
theorem sharedType_of_build (h : Tree.build spec config = .ok (t, ds)) (pipeline : Pipeline)
    (later : List Phase) {s : Site} (hs : s ∈ (t.afterScales pipeline later).sites []) {c : Channel}
    (hc : c ∈ Channel.scaleChannels) (hencodes : s.encodes c = true) {scale : Scale}
    (hscale : s.scale? c = some scale) :
    (t.afterScales pipeline later).sharedType? s c = some scale.type := by
  let root := t.afterScales pipeline later
  obtain ⟨holder, hholder, w, hw, own, hown, halike⟩ :=
    scaleOrigin_of_build h pipeline later hs hc hscale
  have hhome {r : Site} (hr : r ∈ root.sites []) (hshown : r.encodes c = true) :
      r.home? c = r.scaleHolder? c := by
    obtain ⟨o, -, hat⟩ := exists_heldAt (holds_of_build h pipeline later)
      (built_of_build h pipeline (.data :: .scale :: later)) hc rfl hr
      (Site.feeders_of_encodes hshown)
    rw [Site.home?, hat.getElem?, Site.scaleHolder?, hat.scaleOwner? (primary_of_scaleChannel c hc)]
  have hfirst : (root.sites []).find? (fun r => r.encodes c && r.home? c == s.home? c) = some w := by
    rw [hhome hs hencodes, hholder, ← List.head?_filter, ← hw]
    congr 1
    apply List.filter_congr
    intro r hr
    cases hshown : r.encodes c with
    | false => rfl
    | true => rw [hhome hr hshown]
  obtain ⟨u, hunit, hscaled⟩ := Option.bind_eq_some_iff.mp hown
  have htype : w.scaleType? c = some scale.type := by
    rw [Site.scaleType?, hunit, Option.bind_some, ← Scale.ofUnit?_type w config u w.node.data.input,
      hscaled, Option.map_some, halike.type]
  rw [View.sharedType?, hfirst, Option.bind_some, htype]

/-- A scale in use is emitted once under its name. -/
theorem Emits.filter_scales {v : Visualization} (he : t.Emits v)
    (hnames : (t.root.nodes.map Node.name).Nodup) {s : Site} (hs : s ∈ t.root.sites [])
    {c : Channel} {scale : Scale} (hscale : s.scale? c = some scale) :
    ∃ held : NamedScale, held.scale = scale ∧
      (v.groups.flatMap Group.scales).filter (fun x => x.name == s.scaleName c) = [held] := by
  obtain ⟨o, ho, hnamed⟩ := View.exists_holder hs hscale
  have hmem : ⟨s.scaleName c, scale, o.sizeSignal⟩ ∈ v.groups.flatMap Group.scales :=
    he.scales.mem_iff.mpr (List.mem_flatMap.mpr ⟨o, ho, hnamed⟩)
  exact ⟨_, rfl, filter_key_of_nodup (scaleNames_nodup he hnames) hmem⟩

/-- A site that shows a channel has a scale in use, of the type shared there. -/
theorem exists_scale_of_build (h : Tree.build spec config = .ok (t, ds)) (pipeline : Pipeline)
    (later : List Phase) {s : Site} (hs : s ∈ (t.afterScales pipeline later).sites []) {c : Channel}
    (hc : c ∈ Channel.scaleChannels) (hencodes : s.encodes c = true) :
    ∃ scale, s.scale? c = some scale ∧
      (t.afterScales pipeline later).sharedType? s c = some scale.type := by
  obtain ⟨o, -, hat⟩ := exists_heldAt (holds_of_build h pipeline later)
    (built_of_build h pipeline (.data :: .scale :: later)) hc rfl hs
    (Site.feeders_of_encodes hencodes)
  have hholder : s.scaleHolder? c = some o.node.name := by
    rw [Site.scaleHolder?, hat.scaleOwner? (primary_of_scaleChannel c hc), Option.map_some]
  obtain ⟨scale, hscale⟩ := Option.isSome_iff_exists.mp
    (Site.scale?_isSome (Option.isSome_iff_exists.mpr ⟨_, hholder⟩))
  exact ⟨scale, hscale, sharedType_of_build h pipeline later hs hc hencodes hscale⟩

end Tree

/-! ### Visualizations -/

/-- Wherever a bar or a rectangle ends at the zero of a scale, that scale is emitted once, with a type
that is not discrete. -/
def Visualization.BaselinesContinuous (v : Visualization) : Prop :=
  ∀ m ∈ v.groups.flatMap Group.unitMarks, m.type = .bar ∨ m.type = .rect →
    ∀ far ∈ [Channel.x2, .y2], ∀ name, m.update.get? far.name = some (.baseline name) →
      ∃ held : NamedScale, held.scale.type.isDiscrete = false ∧
        (v.groups.flatMap Group.scales).filter (fun x => x.name == name) = [held]

namespace Tree

variable {t : Tree} {v : Visualization}

/-- What is emitted ends at the zero of a scale just where a unit leaves a far end open along that
scale, and the scale has no bands. -/
theorem Emits.endsAtZero_iff (he : t.Emits v) (hends : View.Fits EndsAtZero [] t.root)
    {name : String} :
    (∃ m ∈ v.groups.flatMap Group.unitMarks, (m.type = .bar ∨ m.type = .rect) ∧
      ∃ far ∈ [Channel.x2, .y2], m.update.get? far.name = some (.baseline name)) ↔
      ∃ s ∈ t.root.sites [], ∃ c ∈ [Channel.x, .y], s.leavesOpen c = true ∧
        (s.scale? c).any (fun scale => scale.type = .band) = false ∧ s.scaleName c = name := by
  constructor
  · rintro ⟨m, hm, -, far, hend, hzero⟩
    obtain ⟨s, hs, hmark⟩ := List.mem_flatMap.mp (he.marks.mem_iff.mp hm)
    obtain ⟨hsite, hunit⟩ := List.mem_filter.mp hs
    obtain ⟨u, hu⟩ := Node.kind_of_isUnit hunit
    obtain ⟨own, hown, -, hbase⟩ := hends s hsite u hu
    obtain rfl : m = own := by
      rw [Node.unitMarks, hown] at hmark
      exact List.mem_singleton.mp hmark
    obtain ⟨c, hfar⟩ := Channel.exists_near hend
    obtain ⟨hopen, hscale⟩ := (hbase c far hfar name).mp hzero
    exact ⟨s, hsite, c, (Channel.secondary?_mem hfar).1, (Site.leavesOpen_unit hu c).trans hopen,
      hscale⟩
  · rintro ⟨s, hs, c, -, hopen, hscale⟩
    obtain ⟨u, hu, huopen⟩ := Site.exists_unit_of_leavesOpen hopen
    obtain ⟨far, hfar⟩ := UnitView.exists_far_of_leavesOpen huopen
    obtain ⟨m, hmark, hmtype, hbase⟩ := hends s hs u hu
    refine ⟨m, ?_, ?_, far, (Channel.secondary?_mem hfar).2.2,
      (hbase c far hfar name).mpr ⟨huopen, hscale⟩⟩
    · refine he.marks.mem_iff.mpr (List.mem_flatMap.mpr ⟨s, ?_, ?_⟩)
      · exact List.mem_filter.mpr ⟨hs, Node.isUnit_of_unit hu⟩
      · rw [Node.unitMarks, hmark]
        exact List.mem_singleton_self m
    · rw [hmtype]
      exact ((UnitView.leavesOpen_iff hfar).mp huopen).1

/-- What a finished tree emits ends at zero on continuous scales only, just if those scales have no
other discrete type than bands. -/
theorem Emits.baselinesContinuous_iff (he : t.Emits v) (hends : View.Fits EndsAtZero [] t.root)
    (hnames : (t.root.nodes.map Node.name).Nodup)
    (hused : ∀ s ∈ t.root.sites [], ∀ c ∈ Channel.scaleChannels, s.encodes c = true →
      ∃ scale, s.scale? c = some scale ∧ t.root.sharedType? s c = some scale.type) :
    v.BaselinesContinuous ↔ t.root.OpenEndsMeasured := by
  have hopenScale {s : Site} (hs : s ∈ t.root.sites []) {c : Channel} (hc : c ∈ [Channel.x, .y])
      (hopen : s.leavesOpen c = true) :
      ∃ scale, s.scale? c = some scale ∧ t.root.sharedType? s c = some scale.type :=
    hused s hs c (List.mem_append_left _ hc) (Site.encodes_of_leavesOpen hopen)
  constructor
  · intro hv s hs c hc hopen
    obtain ⟨scale, hscale, hshared⟩ := hopenScale hs hc hopen
    rw [hshared]
    by_cases hband : scale.type = .band
    · rw [hband]
      decide
    · -- a mark ends at the zero of the scale, which is then emitted as continuous
      have hany : (s.scale? c).any (fun scale => scale.type = .band) = false := by
        rw [hscale, Option.any_some, decide_eq_false hband]
      obtain ⟨m, hm, hbar, far, hfar, hzero⟩ :=
        (he.endsAtZero_iff hends).mpr ⟨s, hs, c, hc, hopen, hany, rfl⟩
      obtain ⟨held, hcontinuous, hemitted⟩ := hv m hm hbar far hfar _ hzero
      obtain ⟨own, rfl, hown⟩ := he.filter_scales hnames hs hscale
      obtain rfl : held = own := List.singleton_inj.mp (hemitted.symm.trans hown)
      obtain ⟨hpoint, hordinal⟩ := (ScaleType.isDiscrete_eq_false_iff hband).mp hcontinuous
      exact ⟨fun h => hpoint (Option.some.inj h), fun h => hordinal (Option.some.inj h)⟩
  · intro hmeasured m hm hbar far hfar name hzero
    obtain ⟨s, hs, c, hc, hopen, hany, rfl⟩ :=
      (he.endsAtZero_iff hends).mp ⟨m, hm, hbar, far, hfar, hzero⟩
    obtain ⟨scale, hscale, hshared⟩ := hopenScale hs hc hopen
    obtain ⟨hpoint, hordinal⟩ := hmeasured s hs c hc hopen
    rw [hshared] at hpoint hordinal
    rw [hscale, Option.any_some, decide_eq_false_iff_not] at hany
    obtain ⟨held, rfl, hemitted⟩ := he.filter_scales hnames hs hscale
    have hcontinuous : held.scale.type.isDiscrete = false :=
      (ScaleType.isDiscrete_eq_false_iff hany).mpr
        ⟨fun h => hpoint (congrArg some h), fun h => hordinal (congrArg some h)⟩
    exact ⟨held, hcontinuous, hemitted⟩

end Tree

/-- Marks over a field along x, and bars over the same field on top. -/
def Spec.barsOver (first : MarkType) (measure : FieldType) : Spec :=
  let along (m : MarkType) : Spec := .unit ⟨⟨none, none, none, none⟩, ⟨none, none⟩, ⟨m, none⟩,
    .ofList [(.x, .field { FieldDef.unset with field := some "a", type := some measure })], .empty⟩
  .layer ⟨⟨none, none, none, none⟩, ⟨none, none⟩, .empty⟩ [along first, along .bar]

/-- The scale whose zero a visual property is, if it is one. -/
def EncodeValue.zeroOf? : EncodeValue → Option String
  | baseline scale => some scale
  | _ => none

theorem EncodeValue.zeroOf?_eq_some {value : EncodeValue} {name : String} :
    value.zeroOf? = some name ↔ value = .baseline name := by
  cases value <;> simp [zeroOf?]

namespace Compiler

variable {compiler : Compiler} {spec : Spec} {compiled : Compiled} {t : Tree} {ds : List Diagnostic}

/-- In whatever compiles, bars and rectangles end at the zero of continuous scales only, just if no
bar or rectangle that leaves a far end open shares a scale for points or an ordinal one. -/
theorem baselines_continuous_iff (h : compiler.compile spec = .ok compiled)
    (hb : compiler.build spec = .ok (t, ds)) :
    compiled.visualization.BaselinesContinuous ↔ t.root.OpenEndsMeasured := by
  obtain ⟨built, ds', hb', herror, hassemble, -⟩ := compile_ok h
  obtain ⟨rfl, rfl⟩ : t = built ∧ ds = ds' := Prod.mk.inj (Except.ok.inj (hb.symm.trans hb'))
  let final := (t.runPhases compiler.pipeline Phase.all).tree
  have hemits : final.Emits compiled.visualization :=
    Tree.emits_of_finished hassemble (Tree.built_of_build hb compiler.pipeline Phase.all)
      (Tree.finished_of_build hb herror)
  have hmeasured : final.root.OpenEndsMeasured ↔ t.root.OpenEndsMeasured :=
    View.iff_of_strip_eq View.openEndsMeasured_updateAll
      (Tree.runPhases_strip compiler.pipeline Phase.all t)
  refine (hemits.baselinesContinuous_iff (Tree.endsAtZero_of_ok herror)
    (Tree.runPhases_names hb compiler.pipeline Phase.all) ?_).trans hmeasured
  intro s hs c hc hencodes
  exact Tree.exists_scale_of_build hb compiler.pipeline
    [.layoutSize, .selection, .markGroup, .axisAndHeader, .legend] hs hc hencodes

/-- Bars over a quantity end at the zero of the scale that they share with points. -/
theorem baselines_continuous_barsOver : ∃ compiled t ds,
    standard.compile (.barsOver .point .quantitative) = .ok compiled ∧
      standard.build (.barsOver .point .quantitative) = .ok (t, ds) ∧
        (∃ m ∈ compiled.visualization.groups.flatMap Group.unitMarks,
          (m.update.get? "x2").bind EncodeValue.zeroOf? = some "x") ∧
          compiled.visualization.BaselinesContinuous := by
  have hbased : (standard.compile (.barsOver .point .quantitative)).toOption.any (fun compiled =>
      (compiled.visualization.groups.flatMap Group.unitMarks).any (fun m =>
        (m.update.get? "x2").bind EncodeValue.zeroOf? == some "x")) = true := by
    decide +kernel
  have hmeasured : (standard.build (.barsOver .point .quantitative)).toOption.any (fun r =>
      decide r.1.root.OpenEndsMeasured) = true := by
    decide +kernel
  obtain ⟨compiled, hc, hbased⟩ := exists_ok_of_any hbased
  obtain ⟨⟨t, ds⟩, hb, hmeasured⟩ := exists_ok_of_any hmeasured
  obtain ⟨m, hm, hzero⟩ := List.any_eq_true.mp hbased
  exact ⟨compiled, t, ds, hc, hb, ⟨m, hm, beq_iff_eq.mp hzero⟩,
    (baselines_continuous_iff hc hb).mpr (of_decide_eq_true hmeasured)⟩

/-- Bars over categories share the scale of the points under them, which has no zero. -/
theorem baselines_not_continuous : ¬ ∀ (compiler : Compiler) spec compiled,
    compiler.compile spec = .ok compiled → compiled.visualization.BaselinesContinuous := by
  intro hall
  have hbased : (standard.compile (.barsOver .point .nominal)).toOption.any (fun compiled =>
      (compiled.visualization.groups.flatMap Group.unitMarks).any (fun m =>
        decide (m.type = .bar) && (m.update.get? "x2").bind EncodeValue.zeroOf? == some "x") &&
      ((compiled.visualization.groups.flatMap Group.scales).filter (fun s => s.name == "x")).all
        (fun s => s.scale.type.isDiscrete)) = true := by
    decide +kernel
  obtain ⟨compiled, hc, hbased⟩ := exists_ok_of_any hbased
  obtain ⟨hmark, hdiscrete⟩ := Bool.and_eq_true_iff.mp hbased
  obtain ⟨m, hm, hmark⟩ := List.any_eq_true.mp hmark
  obtain ⟨hbar, hzero⟩ := Bool.and_eq_true_iff.mp hmark
  obtain ⟨value, hvalue, hzero⟩ := Option.bind_eq_some_iff.mp (beq_iff_eq.mp hzero)
  obtain rfl := EncodeValue.zeroOf?_eq_some.mp hzero
  obtain ⟨held, hcontinuous, hone⟩ :=
    hall standard _ compiled hc m hm (.inl (of_decide_eq_true hbar)) .x2 (by decide) "x" hvalue
  rw [hone, List.all_cons, hcontinuous] at hdiscrete
  exact absurd hdiscrete Bool.false_ne_true

end Compiler
end Trellis

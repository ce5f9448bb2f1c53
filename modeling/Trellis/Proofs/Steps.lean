import Trellis.Proofs.Origins
import Trellis.Proofs.Sizes

/-! How large units are. The size of a unit is decided once in the layout-size phase, where a declared
size comes first, and once more for its signal, where the step of the scale in use comes first. -/
namespace Trellis

namespace Scale

theorem withPadding_step? (s : Scale) (asked : ScaleDef) (config : ScaleConfig) :
    (s.withPadding asked config).step? = s.step? := by
  unfold withPadding
  split <;> rfl

theorem range_of_step {s : Scale} {step : Binary64} (h : s.step? = some step) :
    s.range = .step step := by
  unfold step? at h
  split at h
  · rename_i own hdiscrete hrange
    rw [hrange, Option.some.inj h]
  · exact absurd h (by simp)

/-- Where a size is declared, a scale spans it unless it asks for a range. -/
theorem defaultRange_of_declared {s : Site} {d : Dimension} {size : Binary64}
    (h : s.declaredSize? d = some size) (config : Config) (type : ScaleType) (f : FieldDef)
    (asked : ScaleDef) : defaultRange s config d.channel type f asked = .size d := by
  have hsized : ¬ (type.isDiscrete && (s.declaredSize? d).isNone) = true := by
    rw [h, Option.isNone_some, Bool.and_false]
    exact Bool.false_ne_true
  cases d with
  | width => exact if_neg hsized
  | height => exact if_neg hsized

/-- Only a unit without a declared size computes a scale with a step. -/
theorem declaredSize?_of_step {config : Config} {s : Site} {d : Dimension} {own : Scale}
    {step : Binary64} (hown : s.ownScale config d.channel = some own)
    (hstep : own.step? = some step) : s.declaredSize? d = none := by
  obtain ⟨u, -, hunit⟩ := Option.bind_eq_some_iff.mp hown
  obtain ⟨f, -, rfl⟩ := Option.map_eq_some_iff.mp hunit
  have hpositional : d.channel.isPositional = true := by cases d <;> rfl
  dsimp only at hstep
  rw [hpositional, if_pos rfl, withPadding_step?] at hstep
  by_contra hdeclared
  obtain ⟨size, hsize⟩ := Option.ne_none_iff_exists'.mp hdeclared
  rw [defaultRange_of_declared hsize] at hstep
  -- neither values that are asked for nor a declared size make a step
  have hrange := range_of_step hstep
  dsimp only at hrange
  cases hasked : (f.scale.getD .unset).range with
  | some values =>
    rw [hasked] at hrange
    exact absurd hrange (by simp)
  | none =>
    rw [hasked] at hrange
    exact absurd hrange (by simp)

end Scale

/-! ### The layout-size phase -/

namespace View

variable {config : Config} {A : List Node} {v : View}

/-- Sizes depend on the scales in use and on nothing else worked out so far. -/
theorem sizes_amend (h : Option String → Option String) {g : Components → Components}
    (hg : ∀ k, (g k).scales = k.scales) (s : Site) (config : Config) :
    sizes (s.mapNodes (Node.amend h g)) config = sizes s config := by
  have hunit (d : Dimension) :
      sizeOfUnit (s.mapNodes (Node.amend h g)) config d = sizeOfUnit s config d := by
    unfold sizeOfUnit
    rw [s.declaredSize?_amend, s.scale?_amend h hg]
  have hkind : (s.mapNodes (Node.amend h g)).node.kind = s.node.kind := by
    rw [s.node_mapNodes]
    rfl
  unfold sizes
  simp only [hkind, hunit]

theorem sizes_updateAll {g : Components → Components} (hg : ∀ k, (g k).scales = k.scales) (s : Site)
    (config : Config) : sizes (s.updateAll g) config = sizes s config :=
  sizes_amend id hg s config

/-- The sizes of a site are worked out. -/
def Sized (config : Config) : Fact := fun s k => k.layoutSize = sizes s config

theorem sized_siteBlind {phase : Phase} (h : phase ≠ .scale) :
    Fact.SiteBlind phase (Sized config) := by
  intro s k
  unfold Sized
  rw [sizes_updateAll (Components.without_scales h)]

theorem sized_ownBlind {phase : Phase} (h : phase ≠ .layoutSize) :
    Fact.OwnBlind phase (Sized config) := by
  intro s k
  unfold Sized
  rw [Components.without_layoutSize h]

theorem bottomUp_sized (config : Config) (A : List Node) (v : View) :
    Fits (Sized config) A (v.bottomUp .layoutSize (sizeStep config) A).view := by
  let anything : Fact := fun _ _ => True
  have hblind : Fact.SiteBlind .layoutSize (Sized config) := sized_siteBlind (by decide)
  have hrun : Fits ((Sized config).both (.done .layoutSize)) A
      (v.bottomUp .layoutSize (sizeStep config) A).view := by
    refine (bottomUp_fits (P := anything) (sizeStep_frame config) (fun _ _ => Iff.rfl) ?_
      (fun _ _ => trivial)).2
    intro s _ hin
    refine ⟨_, _, rfl, fits_own_step hblind ?_ hin rfl⟩
    intro _
    rfl
  exact hrun.mono (fun _ _ hk => hk.1)

theorem get?_sizes {s : Site} (h : s.node.isUnit = true) (config : Config) (d : Dimension) :
    (sizes s config).get? d = some (sizeOfUnit s config d) := by
  obtain ⟨u, hk⟩ := Node.kind_of_isUnit h
  unfold sizes
  rw [hk]
  cases d <;> rfl

end View

namespace Tree

variable {spec : Spec} {config : Config} {t : Tree} {ds : List Diagnostic}

/-- On a built tree the sizes are worked out with any pipeline, and stay as they are. -/
theorem sized_of_build (h : Tree.build spec config = .ok (t, ds)) (pipeline : Pipeline) :
    View.Fits (View.Sized t.config) [] (t.runPhases pipeline Phase.all).tree.root := by
  obtain ⟨hscale, v, -, hscaled⟩ := runPhases_scale h pipeline
  obtain ⟨hsizes, -⟩ := View.bottomUp_layoutSize t.config [] (v.settle config [] .empty [])
  obtain ⟨hlayout, htree⟩ :=
    runPhases_next pipeline [.data, .scale] .layoutSize hscale hscaled rfl hsizes
  have hrest := (runPhases_append pipeline [.selection, .markGroup, .axisAndHeader, .legend]
    hlayout).2
  have hlist : [Phase.data, .scale] ++ [.layoutSize] ++
      [.selection, .markGroup, .axisAndHeader, .legend] = Phase.all := rfl
  rw [hlist] at hrest
  rw [hrest]
  -- the scales that sizes depend on are settled, and no later phase works out sizes
  have hscales (phase : Phase) (hlater : Phase.layoutSize.rank < phase.rank) : phase ≠ .scale :=
    Phase.ne_of_rank_lt (Nat.lt_trans (by decide) hlater)
  refine runPhases_keep (fun phase hl => View.sized_siteBlind (hscales phase hl))
    (fun _ hl => View.sized_ownBlind (Phase.ne_of_rank_lt hl)) pipeline _ ?_ ?_
  · rw [htree]
    rfl
  · rw [htree]
    exact View.bottomUp_sized t.config [] _

end Tree

/-! ### Both decisions -/

/-- There is one definition under a name. -/
theorem Signal.Single.unique {signals : List Signal} {name : String} {e other : Expression}
    (he : Signal.Single signals name e) (ho : Signal.Single signals name other) : e = other := by
  have hsame : [Signal.computed name e] = [.computed name other] := he.symm.trans ho
  have hupdate := congrArg Signal.update (List.cons.inj hsame).1
  exact Option.some.inj hupdate

namespace Site

variable {s : Site} {config : Config} {d : Dimension} {signals : List Signal}

/-- The size over which a scale with this step extends, under the name that the site uses for it. -/
def extent (s : Site) (d : Dimension) (scale : Scale) (step : Binary64) : Expression :=
  .bandspace (s.scaleName d.channel) scale.extentPadding.1 scale.extentPadding.2 step

/-- The signal for the size of a unit says what the layout-size phase decided. -/
def SizeAgrees (s : Site) (signals : List Signal) (d : Dimension) : Prop :=
  match s.node.components.layoutSize.get? d with
  | some (.fixed size) => Signal.Single signals (s.node.qualify d.name) (.size size)
  | some .rangeStep => ∃ scale step, s.scale? d.channel = some scale ∧ scale.step? = some step ∧
      Signal.Single signals (s.node.qualify d.name) (s.extent d scale step)
  | _ => False

theorem unitSize_of_step {scale : Scale} {step : Binary64} (hscale : s.scale? d.channel = some scale)
    (hstep : scale.step? = some step) (config : Config) :
    s.unitSize config d = s.extent d scale step := by
  unfold unitSize
  rw [hscale]
  dsimp only
  rw [hstep]
  rfl

/-- Without a step the size is the fixed one. -/
theorem unitSize_of_fixed (hnone : ∀ scale, s.scale? d.channel = some scale → scale.step? = none)
    {size : Binary64} (hsize : s.node.components.layoutSize.get? d = some (.fixed size))
    (config : Config) : s.unitSize config d = .size size := by
  unfold unitSize
  rw [hsize]
  dsimp only
  cases hscale : s.scale? d.channel with
  | none => rfl
  | some scale =>
    dsimp only
    rw [hnone scale hscale]

/-- Where no size is declared, the phase looks at the scale just as the signal does. -/
theorem sizeAgrees_of_undeclared (hnone : s.declaredSize? d = none)
    (hsize : s.node.components.layoutSize.get? d = some (View.sizeOfUnit s config d))
    (hsignal : Signal.Single signals (s.node.qualify d.name) (s.unitSize config d)) :
    s.SizeAgrees signals d := by
  rw [View.sizeOfUnit, hnone] at hsize
  dsimp only at hsize
  unfold SizeAgrees
  cases hsized : (s.scale? d.channel).any Scale.isStepSized with
  | true =>
    obtain ⟨scale, hscale, hstepped⟩ := (Option.any_eq_true _ _).mp hsized
    obtain ⟨step, hstep⟩ := Option.isSome_iff_exists.mp hstepped
    rw [hsized, if_pos rfl] at hsize
    rw [unitSize_of_step hscale hstep] at hsignal
    rw [hsize]
    exact ⟨scale, step, hscale, hstep, hsignal⟩
  | false =>
    have hfixed : ∀ scale, s.scale? d.channel = some scale → scale.step? = none := by
      intro scale hscale
      rw [hscale, Option.any_some] at hsized
      exact Option.not_isSome_iff_eq_none.mp (Bool.eq_false_iff.mp hsized)
    rw [hsized, if_neg Bool.false_ne_true] at hsize
    rw [unitSize_of_fixed hfixed hsize] at hsignal
    rw [hsize]
    exact hsignal

/-- Where a size is declared, the phase decides on it, but the signal follows a step if there is
one. -/
theorem sizeAgrees_iff_of_declared {size : Binary64} (hdeclared : s.declaredSize? d = some size)
    (hsize : s.node.components.layoutSize.get? d = some (View.sizeOfUnit s config d))
    (hsignal : Signal.Single signals (s.node.qualify d.name) (s.unitSize config d)) :
    s.SizeAgrees signals d ↔
      ∀ scale, s.scale? d.channel = some scale → scale.step? = none := by
  rw [View.sizeOfUnit, hdeclared] at hsize
  unfold SizeAgrees
  rw [hsize]
  dsimp only
  constructor
  · intro hagrees scale hscale
    cases hstep : scale.step? with
    | none => rfl
    | some step =>
      -- the signal would have two definitions, of which one is no number
      rw [unitSize_of_step hscale hstep] at hsignal
      have hsame : s.extent d scale step = .size size := hsignal.unique hagrees
      exact absurd hsame (by simp [extent])
  · intro hfixed
    rw [unitSize_of_fixed hfixed hsize] at hsignal
    exact hsignal

/-- Both decisions on the size of a unit agree unless a size is declared for it and the scale it uses
has a step. -/
theorem sizeAgrees_iff
    (hsize : s.node.components.layoutSize.get? d = some (View.sizeOfUnit s config d))
    (hsignal : Signal.Single signals (s.node.qualify d.name) (s.unitSize config d)) :
    s.SizeAgrees signals d ↔ ((s.declaredSize? d).isSome = true →
      ∀ scale, s.scale? d.channel = some scale → scale.step? = none) := by
  cases hdeclared : s.declaredSize? d with
  | some size =>
    rw [sizeAgrees_iff_of_declared hdeclared hsize hsignal]
    exact ⟨fun hfixed _ => hfixed, fun hfixed => hfixed rfl⟩
  | none =>
    have hagrees := sizeAgrees_of_undeclared hdeclared hsize hsignal
    exact iff_of_true hagrees (fun hsome => absurd hsome Bool.false_ne_true)

end Site

namespace Tree

/-- What is decided about the sizes of units, and what their signals say. -/
structure SizesDecided (t : Tree) : Prop where
  /-- A declared size is what the layout-size phase decides on. -/
  declared : ∀ s ∈ t.root.sites [], s.node.isUnit = true → ∀ d size, s.declaredSize? d = some size →
    s.node.components.layoutSize.get? d = some (.fixed size)
  /-- Any other size comes from the step of the scale in use, or from the configuration. -/
  undeclared : ∀ s ∈ t.root.sites [], s.node.isUnit = true → ∀ d, s.declaredSize? d = none →
    s.node.components.layoutSize.get? d =
      some (if (s.scale? d.channel).any Scale.isStepSized then .rangeStep
        else .fixed (t.config.cellSize d))
  agree : ∀ s ∈ t.root.sites [], s.node.isUnit = true → ∀ d,
    s.SizeAgrees t.sizeSignals d ↔ ((s.declaredSize? d).isSome = true →
      ∀ scale, s.scale? d.channel = some scale → scale.step? = none)
  /-- Where a size is declared and the signal follows a step, that is the step of another unit: one
  without a declared size that uses the same scale. -/
  foreign : ∀ s ∈ t.root.sites [], s.node.isUnit = true → ∀ d, (s.declaredSize? d).isSome = true →
    ∀ scale step, s.scale? d.channel = some scale → scale.step? = some step →
      Signal.Single t.sizeSignals (s.node.qualify d.name) (s.extent d scale step) ∧
        ∃ holder, s.scaleHolder? d.channel = some holder ∧
          ∃ w ∈ t.root.users d.channel holder, w.declaredSize? d = none ∧
            ∃ own, w.ownScale t.config d.channel = some own ∧ own.step? = some step

section

variable {spec : Spec} {config : Config} {t : Tree} {ds : List Diagnostic}

/-- Each unit has a signal for its size, which follows the second decision. -/
theorem unitSize_of_build (h : Tree.build spec config = .ok (t, ds)) (pipeline : Pipeline) {s : Site}
    (hs : s ∈ (t.parse pipeline).tree.root.sites []) (hunit : s.node.isUnit = true) (d : Dimension) :
    Signal.Single (t.parse pipeline).tree.sizeSignals (s.node.qualify d.name)
      (s.unitSize (t.parse pipeline).tree.config d) := by
  rw [parse_of_build h] at hs ⊢
  exact (sizesOrdered (built_of_build h pipeline Phase.all)
    (runPhases_names h pipeline Phase.all)).unit s hs hunit d

/-- Each unit has its size worked out, by the first decision. -/
theorem layoutSize_of_build (h : Tree.build spec config = .ok (t, ds)) (pipeline : Pipeline)
    {s : Site} (hs : s ∈ (t.parse pipeline).tree.root.sites []) (hunit : s.node.isUnit = true)
    (d : Dimension) : s.node.components.layoutSize.get? d =
      some (View.sizeOfUnit s (t.parse pipeline).tree.config d) := by
  rw [parse_of_build h] at hs ⊢
  have hsized : s.node.components.layoutSize = View.sizes s t.config :=
    sized_of_build h pipeline s hs
  rw [hsized, runPhases_config]
  exact View.get?_sizes hunit t.config d

theorem sizeAgrees_of_build (h : Tree.build spec config = .ok (t, ds)) (pipeline : Pipeline)
    {s : Site} (hs : s ∈ (t.parse pipeline).tree.root.sites []) (hunit : s.node.isUnit = true)
    (d : Dimension) : s.SizeAgrees (t.parse pipeline).tree.sizeSignals d ↔
      ((s.declaredSize? d).isSome = true →
        ∀ scale, s.scale? d.channel = some scale → scale.step? = none) :=
  Site.sizeAgrees_iff (layoutSize_of_build h pipeline hs hunit d)
    (unitSize_of_build h pipeline hs hunit d)

/-- A step comes from a unit that uses the scale and has no declared size. -/
theorem stepOrigin_of_build (h : Tree.build spec config = .ok (t, ds)) (pipeline : Pipeline)
    {s : Site} (hs : s ∈ (t.parse pipeline).tree.root.sites []) {d : Dimension} {scale : Scale}
    (hscale : s.scale? d.channel = some scale) {step : Binary64} (hstep : scale.step? = some step) :
    ∃ holder, s.scaleHolder? d.channel = some holder ∧
      ∃ w ∈ (t.parse pipeline).tree.root.users d.channel holder, w.declaredSize? d = none ∧
        ∃ own, w.ownScale (t.parse pipeline).tree.config d.channel = some own ∧
          own.step? = some step := by
  obtain ⟨-, -, hconfig, -⟩ := Tree.build_ok (G := fun _ => True) h
  have hchannel : d.channel ∈ Channel.scaleChannels := by cases d <;> decide
  rw [parse_of_build h] at hs ⊢
  rw [runPhases_config, hconfig]
  obtain ⟨holder, hholder, w, hw, own, hown, halike⟩ := scaleOrigin_of_build h pipeline
    [.layoutSize, .selection, .markGroup, .axisAndHeader, .legend] hs hchannel hscale
  have hstepped : own.step? = some step := halike.step?.trans hstep
  exact ⟨holder, hholder, w, List.mem_of_head? hw, Scale.declaredSize?_of_step hown hstepped, own,
    hown, hstepped⟩

/-- On a tree that was built and parsed with any pipeline, the signal for the size of a unit says what
the layout-size phase decided, except where a size is declared for the unit and the scale it uses
has a step. The signal then follows that step, which is the one of another unit. -/
theorem sizesDecided_of_build (h : Tree.build spec config = .ok (t, ds)) (pipeline : Pipeline) :
    (t.parse pipeline).tree.SizesDecided := by
  constructor
  case declared =>
    intro s hs hunit d size hsize
    rw [layoutSize_of_build h pipeline hs hunit d, View.sizeOfUnit, hsize]
  case undeclared =>
    intro s hs hunit d hnone
    rw [layoutSize_of_build h pipeline hs hunit d, View.sizeOfUnit, hnone]
  case agree => exact fun s hs hunit d => sizeAgrees_of_build h pipeline hs hunit d
  case foreign =>
    intro s hs hunit d _ scale step hscale hstep
    have hsignal := unitSize_of_build h pipeline hs hunit d
    rw [Site.unitSize_of_step hscale hstep] at hsignal
    exact ⟨hsignal, stepOrigin_of_build h pipeline hs hscale hstep⟩

end

end Tree

namespace Spec

/-- Bars for each category, as wide as is asked for. -/
def categoryBars (width : Option Binary64) : Spec :=
  .unit ⟨⟨none, none, none, none⟩, ⟨width, none⟩, ⟨.bar, none⟩, .ofList [(.x, .field (nominal "c"))],
    .empty⟩

/-- Bars without a width of their own under bars of a fixed width. -/
def mixedBars : Spec :=
  .layer ⟨⟨none, none, none, none⟩, ⟨none, none⟩, .empty⟩
    [categoryBars none, categoryBars (some (.ofNat 50))]

end Spec

namespace Tree

theorem sizesDecided_mixedBars : ∃ t ds, Tree.build .mixedBars .default = .ok (t, ds) ∧
    (t.parse .standard).tree.SizesDecided := by
  have hbuilds : (Tree.build .mixedBars .default).toOption.isSome = true := by decide +kernel
  obtain ⟨⟨t, ds⟩, hb⟩ := exists_ok_of_isSome hbuilds
  exact ⟨t, ds, hb, sizesDecided_of_build hb .standard⟩

/-- The bars of a fixed width are drawn as wide as the categories of the other bars take. -/
theorem sizes_disagree : ¬ ∀ spec config pipeline t ds, Tree.build spec config = .ok (t, ds) →
    (t.parse pipeline).error = none → ∀ s ∈ (t.parse pipeline).tree.root.sites [],
      s.node.isUnit = true → ∀ d, s.SizeAgrees (t.parse pipeline).tree.sizeSignals d := by
  intro hall
  have hruns : (Tree.build .mixedBars .default).toOption.any (fun r =>
      (r.1.parse .standard).error.isNone &&
        ((r.1.parse .standard).tree.root.sites []).any (fun s => s.node.isUnit &&
          (s.declaredSize? .width).isSome && (s.scale? .x).any Scale.isStepSized)) = true := by
    decide +kernel
  obtain ⟨⟨t, ds⟩, hb, hruns⟩ := exists_ok_of_any hruns
  obtain ⟨herror, hsite⟩ := Bool.and_eq_true_iff.mp hruns
  obtain ⟨s, hs, hsite⟩ := List.any_eq_true.mp hsite
  obtain ⟨hsite, hsized⟩ := Bool.and_eq_true_iff.mp hsite
  obtain ⟨hunit, hdeclared⟩ := Bool.and_eq_true_iff.mp hsite
  obtain ⟨scale, hscale, hstepped⟩ := (Option.any_eq_true _ _).mp hsized
  have hagrees := hall _ _ .standard t ds hb (Option.isNone_iff_eq_none.mp herror) s hs hunit .width
  have hnone := (sizeAgrees_of_build hb .standard hs hunit .width).mp hagrees hdeclared scale hscale
  rw [Scale.isStepSized, hnone] at hstepped
  exact absurd hstepped Bool.false_ne_true

end Tree
end Trellis

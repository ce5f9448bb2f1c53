import Trellis.Proofs.Extras
import Trellis.Proofs.Legends
import Trellis.Proofs.Located
import Trellis.Proofs.Selected

/-! What is known of every site of a tree after each phase. No phase fails on a tree that was built
from a specification, and each keeps what the earlier ones left. -/
namespace Trellis

variable {G : Dict String Json → Prop} {whole : Spec} {input : Option DataDef} {bare : View}

/-! ### What each phase adds -/

/-- No axes or headers are worked out yet. -/
def Unguided : Fact := fun _ k => k.axes = .empty ∧ k.headers = .empty

theorem unguided_ownBlind {phase : Phase} (h : phase ≠ .axisAndHeader) :
    Fact.OwnBlind phase Unguided := by
  intro s k
  unfold Unguided
  rw [Components.without_axes h, Components.without_headers h]

/-- The site is as it was built, and has its data and its scales. -/
@[mk_iff]
structure Scaled (whole : Spec) (input : Option DataDef) (bare : View) (s : Site) (k : Components) :
    Prop where
  built : s.Built whole
  described : Described input s k
  holds : View.Holds s k
  uses : Uses s k
  located : View.Located bare s k

theorem scaled_siteBlind {phase : Phase} (h : phase ≠ .scale) :
    Fact.SiteBlind phase (Scaled whole input bare) := by
  intro s k
  rw [scaled_iff, scaled_iff, s.built_updateAll, described_siteBlind, View.holds_siteBlind,
    uses_siteBlind h, View.located_siteBlind]

theorem scaled_ownBlind {phase : Phase} (hd : phase ≠ .data) (hs : phase ≠ .scale) :
    Fact.OwnBlind phase (Scaled whole input bare) := by
  intro s k
  rw [scaled_iff, scaled_iff, described_ownBlind input hd, View.holds_ownBlind hs, uses_ownBlind,
    View.located_ownBlind bare hs]

/-- What is known of a site once a phase has run. -/
def Known (G : Dict String Json → Prop) (whole : Spec) (input : Option DataDef) (bare : View) :
    Phase → Fact
  | .data => (Fact.both (fun s _ => s.Built whole) (Described input)).both Unguided
  | .scale | .layoutSize => Fact.both (Scaled whole input bare) Unguided
  | .selection => (Fact.both (Scaled whole input bare) KnowsSelections).both Unguided
  | .markGroup =>
    ((Fact.both (Scaled whole input bare) KnowsSelections).both (Marked input)).both Unguided
  | .axisAndHeader =>
    ((Fact.both (Scaled whole input bare) KnowsSelections).both (Marked input)).both (Guided G)
  | .legend => (((Fact.both (Scaled whole input bare) KnowsSelections).both (Marked input)).both
      (Guided G)).both (Explained G)

namespace View

/-- The view without anything worked out. -/
def strip (v : View) : View := v.updateAll (fun _ => .empty)

theorem strip_of_frame {phase : Phase} {v w : View}
    (h : w.updateAll (Components.without phase) = v.updateAll (Components.without phase)) :
    w.strip = v.strip := by
  have hs (u : View) : u.strip = (u.updateAll (Components.without phase)).strip := by
    unfold strip
    rw [updateAll_updateAll]
    rfl
  rw [hs w, h, ← hs v]

/-- What does not depend on the components holds of trees that agree in all else. -/
theorem iff_of_strip_eq {P : View → Prop} (hP : ∀ g v, P (updateAll g v) ↔ P v) {v w : View}
    (h : v.strip = w.strip) : P v ↔ P w :=
  calc P v ↔ P v.strip := (hP _ v).symm
    _ ↔ P w.strip := by rw [h]
    _ ↔ P w := hP _ w

theorem strip_names (v : View) : v.strip.nodes.map Node.name = v.nodes.map Node.name := by
  unfold strip
  rw [nodes_updateAll, List.map_map]
  rfl

theorem located_strip (v : View) (s : Site) (k : Components) :
    Located v.strip s k ↔ Located v s k := by
  have hset (f d : String) : CellSet v.strip f d ↔ CellSet v f d := cellSet_updateAll _ v f d
  unfold Located
  simp only [hset]

variable {config : Config} {v : View}

/-- What a phase neither writes nor looks at is the same after it. -/
theorem runPhase_carry {R : Fact} {phase : Phase} (hs : R.SiteBlind phase) (ho : R.OwnBlind phase)
    (h : Fits R [] v) : Fits R [] (v.runPhase .standard config input phase).view :=
  h.carry hs ho (runPhase_frame .standard config input v phase)

/-- The data phase. -/
theorem known_data (h : Fits (BuiltBlank whole) [] v) :
    (v.runPhase .standard config input .data).error = none ∧
      Fits ((Known G whole input bare .data).both (.done .data)) []
        (v.runPhase .standard config input .data).view := by
  have hbuilt : Fits (Fact.both (fun s _ => s.Built whole) Unguided) [] v := by
    refine h.mono ?_
    rintro s k ⟨hb, rfl⟩
    exact ⟨hb, rfl, rfl⟩
  have hkept : Fits (Fact.both (fun s _ => s.Built whole) Unguided) []
      (v.runPhase .standard config input .data).view :=
    runPhase_carry ((built_siteBlind whole .data).both (fun _ _ => Iff.rfl))
      ((built_ownBlind whole .data).both (unguided_ownBlind (by decide))) hbuilt
  have hdata : Fits ((Described input).both (.done .data)) []
      (v.runPhase .standard config input .data).view := describe_fits input [] v
  refine ⟨rfl, ?_⟩
  intro s hs
  obtain ⟨hb, hu⟩ := hkept s hs
  obtain ⟨hd, hdone⟩ := hdata s hs
  exact ⟨⟨⟨hb, hd⟩, hu⟩, hdone⟩

/-- The scale phase. -/
theorem known_scale (hbare : v.strip = bare) (hnames : (bare.nodes.map Node.name).Nodup)
    (h : Fits ((Known G whole input bare .data).both (.done .data)) [] v) :
    (v.runPhase .standard config input .scale).error = none ∧
      Fits ((Known G whole input bare .scale).both (.done .scale)) []
        (v.runPhase .standard config input .scale).view := by
  have hready : Fits (ReadyForScales whole input) [] v :=
    h.mono (fun _ _ hk => ⟨hk.1.1.1, hk.1.1.2, hk.2⟩)
  have hdistinct : (v.nodes.map Node.name).Nodup := by
    rw [← strip_names, hbare]
    exact hnames
  obtain ⟨herror, hview⟩ := bottomUp_scale config (hready.mono (fun _ _ hk => hk.prepared))
  -- what was known stays, as neither names nor data are scales; all else is read off the settled
  -- tree
  have hsite : (Known G whole input bare .data).SiteBlind .scale :=
    ((built_siteBlind whole .scale).both (described_siteBlind input .scale)).both
      (fun _ _ => Iff.rfl)
  have hown : (Known G whole input bare .data).OwnBlind .scale :=
    ((built_ownBlind whole .scale).both (described_ownBlind input (by decide))).both
      (unguided_ownBlind (by decide))
  have hkept : Fits (Known G whole input bare .data) []
      (v.runPhase .standard config input .scale).view :=
    runPhase_carry hsite hown (h.mono (fun _ _ hk => hk.1))
  have hrun : (v.runPhase .standard config input .scale).view = v.settle config [] .empty [] :=
    hview
  have hholds : Fits Holds [] (v.runPhase .standard config input .scale).view := by
    rw [hrun]
    exact settle_holds (fun c => rfl)
  have huses := uses_of_holds hholds (hkept.mono (fun _ _ hk => hk.1.1))
  have hlocated : Fits (Located bare) [] (v.runPhase .standard config input .scale).view := by
    rw [hrun, ← hbare]
    have hsettled : Fits (Located v) [] (v.settle config [] .empty []) :=
      settle_located hready hdistinct (self_mem_sites [] v) (reaches_root v) rfl
    exact hsettled.mono (fun s k hk => (located_strip v s k).mpr hk)
  have hdone : Fits (Fact.done .scale) [] (v.runPhase .standard config input .scale).view := by
    rw [hrun]
    exact settle_done v
  refine ⟨herror, ?_⟩
  intro s hs
  obtain ⟨⟨hb, hd⟩, hu⟩ := hkept s hs
  exact ⟨⟨⟨hb, hd, hholds s hs, huses s hs, hlocated s hs⟩, hu⟩, hdone s hs⟩

/-- The layout-size phase never fails. -/
theorem bottomUp_layoutSize (config : Config) (A : List Node) (v : View) :
    (v.bottomUp .layoutSize (sizeStep config) A).error = none ∧
      Fits (.done .layoutSize) A (v.bottomUp .layoutSize (sizeStep config) A).view := by
  let anything : Fact := fun _ _ => True
  have hall : Fits anything A v := fun _ _ => trivial
  have hblind : anything.SiteBlind .layoutSize := fun _ _ => Iff.rfl
  have hrun : (v.bottomUp .layoutSize (sizeStep config) A).error = none ∧
      Fits (anything.both (.done .layoutSize)) A
        (v.bottomUp .layoutSize (sizeStep config) A).view := by
    refine bottomUp_fits (sizeStep_frame config) hblind ?_ hall
    intro s _ hin
    refine ⟨_, _, rfl, fits_own_step hblind ?_ hin trivial⟩
    intro _
    rfl
  exact ⟨hrun.1, hrun.2.mono (fun _ _ hk => hk.2)⟩

theorem unguided_carry {phase : Phase} (ha : phase ≠ .axisAndHeader) (hd : phase ≠ .data)
    (hs : phase ≠ .scale) (h : Fits (Fact.both (Scaled whole input bare) Unguided) [] v) :
    Fits (Fact.both (Scaled whole input bare) Unguided) []
      (v.runPhase .standard config input phase).view :=
  runPhase_carry ((scaled_siteBlind hs).both (fun _ _ => Iff.rfl))
    ((scaled_ownBlind hd hs).both (unguided_ownBlind ha)) h

theorem known_layoutSize (h : Fits ((Known G whole input bare .scale).both (.done .scale)) [] v) :
    (v.runPhase .standard config input .layoutSize).error = none ∧
      Fits ((Known G whole input bare .layoutSize).both (.done .layoutSize)) []
        (v.runPhase .standard config input .layoutSize).view := by
  have hkept : Fits (Fact.both (Scaled whole input bare) Unguided) []
      (v.runPhase .standard config input .layoutSize).view :=
    unguided_carry (by decide) (by decide) (by decide) (h.mono (fun _ _ hk => hk.1))
  obtain ⟨herror, hdone⟩ := bottomUp_layoutSize config [] v
  exact ⟨herror, fits_both_iff.mpr ⟨hkept, hdone⟩⟩

theorem known_selection
    (h : Fits ((Known G whole input bare .layoutSize).both (.done .layoutSize)) [] v) :
    (v.runPhase .standard config input .selection).error = none ∧
      Fits ((Known G whole input bare .selection).both (.done .selection)) []
        (v.runPhase .standard config input .selection).view := by
  have hkept : Fits (Fact.both (Scaled whole input bare) Unguided) []
      (v.runPhase .standard config input .selection).view :=
    unguided_carry (by decide) (by decide) (by decide) (h.mono (fun _ _ hk => hk.1))
  obtain ⟨herror, hknows⟩ := bottomUp_selection (h.mono (fun _ _ hk => hk.1.1.built))
  refine ⟨herror, ?_⟩
  intro s hs
  obtain ⟨hscaled, hunguided⟩ := hkept s hs
  obtain ⟨hselection, hdone⟩ := hknows s hs
  exact ⟨⟨⟨hscaled, hselection⟩, hunguided⟩, hdone⟩

theorem known_markGroup
    (h : Fits ((Known G whole input bare .selection).both (.done .selection)) [] v) :
    (v.runPhase .standard config input .markGroup).error = none ∧
      Fits ((Known G whole input bare .markGroup).both (.done .markGroup)) []
        (v.runPhase .standard config input .markGroup).view := by
  have hkept : Fits (Fact.both (Scaled whole input bare) Unguided) []
      (v.runPhase .standard config input .markGroup).view :=
    unguided_carry (by decide) (by decide) (by decide)
      (h.mono (fun _ _ hk => ⟨hk.1.1.1, hk.1.2⟩))
  have hknows : Fits KnowsSelections [] (v.runPhase .standard config input .markGroup).view :=
    runPhase_carry (knowsSelections_siteBlind _) (knowsSelections_ownBlind (by decide))
      (h.mono (fun _ _ hk => hk.1.1.2))
  -- marks are made from the data and the scales in use
  have hready : Fits (ReadyForMarks whole input .selection) [] v := by
    refine h.mono ?_
    rintro s k ⟨⟨⟨hscaled, -⟩, -⟩, hdone⟩
    exact ⟨hscaled.built, hscaled.described, hscaled.uses, hdone⟩
  obtain ⟨herror, hmarked⟩ := bottomUp_mark config hready
  refine ⟨herror, ?_⟩
  intro s hs
  obtain ⟨hscaled, hunguided⟩ := hkept s hs
  obtain ⟨hmark, hdone⟩ := hmarked s hs
  exact ⟨⟨⟨⟨hscaled, hknows s hs⟩, hmark⟩, hunguided⟩, hdone⟩

/-- Later phases keep what was known when the marks were made. -/
theorem marked_carry {phase : Phase} (hd : phase ≠ .data) (hs : phase ≠ .scale)
    (hx : phase ≠ .selection) (hm : phase ≠ .markGroup)
    (h : Fits ((Fact.both (Scaled whole input bare) KnowsSelections).both (Marked input)) [] v) :
    Fits ((Fact.both (Scaled whole input bare) KnowsSelections).both (Marked input)) []
      (v.runPhase .standard config input phase).view := by
  let marked := (Fact.both (Scaled whole input bare) KnowsSelections).both (Marked input)
  have hsite : marked.SiteBlind phase :=
    ((scaled_siteBlind hs).both (knowsSelections_siteBlind phase)).both (marked_siteBlind input hs)
  have hown : marked.OwnBlind phase :=
    ((scaled_ownBlind hd hs).both (knowsSelections_ownBlind hx)).both (marked_ownBlind input hm)
  exact runPhase_carry hsite hown h

theorem known_axisAndHeader (hempty : G .empty) (hG : whole.GuideExtras G)
    (h : Fits ((Known G whole input bare .markGroup).both (.done .markGroup)) [] v) :
    (v.runPhase .standard config input .axisAndHeader).error = none ∧
      Fits ((Known G whole input bare .axisAndHeader).both (.done .axisAndHeader)) []
        (v.runPhase .standard config input .axisAndHeader).view := by
  have hkept : Fits ((Fact.both (Scaled whole input bare) KnowsSelections).both (Marked input)) []
      (v.runPhase .standard config input .axisAndHeader).view :=
    marked_carry (by decide) (by decide) (by decide) (by decide) (h.mono (fun _ _ hk => hk.1.1))
  have hready : Fits (ReadyForGuides G whole) [] v := by
    refine h.mono ?_
    rintro s k ⟨⟨⟨⟨hscaled, -⟩, -⟩, haxes, hheaders⟩, -⟩
    exact ⟨hscaled.built, hscaled.uses, fun u hu => hscaled.built.guideExtras hu hempty hG,
      haxes, hheaders⟩
  obtain ⟨herror, hguided⟩ := bottomUp_guides config hempty hready
  refine ⟨herror, ?_⟩
  intro s hs
  obtain ⟨hguides, hdone⟩ := hguided s hs
  exact ⟨⟨hkept s hs, hguides⟩, hdone⟩

theorem known_legend (hempty : G .empty) (hG : whole.GuideExtras G)
    (h : Fits ((Known G whole input bare .axisAndHeader).both (.done .axisAndHeader)) [] v) :
    (v.runPhase .standard config input .legend).error = none ∧
      Fits ((Known G whole input bare .legend).both (.done .legend)) []
        (v.runPhase .standard config input .legend).view := by
  have hmarked : Fits ((Fact.both (Scaled whole input bare) KnowsSelections).both (Marked input)) []
      (v.runPhase .standard config input .legend).view :=
    marked_carry (by decide) (by decide) (by decide) (by decide) (h.mono (fun _ _ hk => hk.1.1))
  have hguided : Fits (Guided G) [] (v.runPhase .standard config input .legend).view :=
    runPhase_carry (guided_siteBlind (by decide)) (guided_ownBlind (by decide))
      (h.mono (fun _ _ hk => hk.1.2))
  have hready : Fits (ReadyForLegends G whole) [] v := by
    refine h.mono ?_
    rintro s k ⟨⟨⟨⟨hscaled, -⟩, -⟩, -⟩, -⟩
    exact ⟨hscaled.built, hscaled.uses, fun u hu => hscaled.built.guideExtras hu hempty hG⟩
  obtain ⟨herror, hexplained⟩ := bottomUp_legend hready
  refine ⟨herror, ?_⟩
  intro s hs
  obtain ⟨hlegends, hdone⟩ := hexplained s hs
  exact ⟨⟨⟨hmarked s hs, hguided s hs⟩, hlegends⟩, hdone⟩

/-- What is known of every site of a built tree once some phases have run. -/
def KnownAfter (G : Dict String Json → Prop) (whole : Spec) (input : Option DataDef) (bare : View) :
    Option Phase → Fact
  | none => BuiltBlank whole
  | some phase => (Known G whole input bare phase).both (.done phase)

/-- All that is known of a site in the end. -/
structure Complete (G : Dict String Json → Prop) (whole : Spec) (input : Option DataDef)
    (bare : View) (s : Site) (k : Components) : Prop where
  scaled : Scaled whole input bare s k
  selections : KnowsSelections s k
  marked : Marked input s k
  guided : Guided G s k
  explained : Explained G s k
  done : Fact.done .legend s k

theorem complete_of_known {A : List Node}
    (h : Fits (KnownAfter G whole input bare (some .legend)) A v) :
    Fits (Complete G whole input bare) A v := by
  intro s hs
  obtain ⟨⟨⟨⟨⟨hscaled, hselections⟩, hmarked⟩, hguided⟩, hexplained⟩, hdone⟩ := h s hs
  exact ⟨hscaled, hselections, hmarked, hguided, hexplained, hdone⟩

/-- The phase that is due never fails, and adds what it works out to what is known. -/
theorem runPhase_known (config : Config) (hempty : G .empty) (hG : whole.GuideExtras G)
    (hnames : (bare.nodes.map Node.name).Nodup) (hbare : v.strip = bare) {done : Option Phase}
    {phase : Phase} (hdue : Phase.due? done = some phase)
    (h : Fits (KnownAfter G whole input bare done) [] v) :
    (v.runPhase .standard config input phase).error = none ∧
      Fits (KnownAfter G whole input bare (some phase)) []
        (v.runPhase .standard config input phase).view := by
  -- the phase that is due is the one after the last, so there is one case for each
  cases done with
  | none =>
    obtain rfl := Option.some.inj hdue
    exact known_data h
  | some last =>
    cases last with
    | data =>
      obtain rfl := Option.some.inj hdue
      exact known_scale hbare hnames h
    | scale =>
      obtain rfl := Option.some.inj hdue
      exact known_layoutSize h
    | layoutSize =>
      obtain rfl := Option.some.inj hdue
      exact known_selection h
    | selection =>
      obtain rfl := Option.some.inj hdue
      exact known_markGroup h
    | markGroup =>
      obtain rfl := Option.some.inj hdue
      exact known_axisAndHeader hempty hG h
    | axisAndHeader =>
      obtain rfl := Option.some.inj hdue
      exact known_legend hempty hG h
    | legend => exact absurd hdue (by simp [Phase.due?, Phase.next?])

end View

/-! ### Whole trees -/

/-- Each phase is due when its turn comes. -/
def Phase.Successive : Option Phase → List Phase → Prop
  | _, [] => True
  | done, phase :: rest => Phase.due? done = some phase ∧ Phase.Successive (some phase) rest

/-- A tree that was built from a specification and has come through some phases. -/
structure Tree.Reached (G : Dict String Json → Prop) (whole : Spec) (bare : View) (t : Tree)
    (done : Option Phase) : Prop where
  parsed : t.parsed = done
  known : View.Fits (View.KnownAfter G whole t.data bare done) [] t.root
  strip : t.root.strip = bare

namespace Tree

/-- Each node is marked as the tree is. -/
theorem Reached.completed {t : Tree} {done : Option Phase} (h : t.Reached G whole bare done)
    {n : Node} (hn : n ∈ t.root.nodes) : n.components.completed = done := by
  obtain ⟨s, hs, rfl⟩ := (View.mem_nodes_iff (A := [])).mp hn
  have hknown := h.known s hs
  cases done with
  | none =>
    obtain ⟨-, hempty⟩ := hknown
    rw [hempty]
    rfl
  | some phase => exact hknown.2

/-- One phase more. -/
theorem Reached.runPhase {t : Tree} {done : Option Phase} {phase : Phase} (hempty : G .empty)
    (hG : whole.GuideExtras G) (hnames : (bare.nodes.map Node.name).Nodup)
    (h : t.Reached G whole bare done) (hdue : Phase.due? done = some phase) :
    (t.runPhase .standard phase).error = none ∧
      (t.runPhase .standard phase).tree.Reached G whole bare (some phase) ∧
      (t.runPhase .standard phase).tree.config = t.config ∧
      (t.runPhase .standard phase).tree.data = t.data := by
  have hturn : ¬ Phase.due? t.parsed ≠ some phase := by
    rw [h.parsed]
    exact not_not_intro hdue
  obtain ⟨herror, hknown⟩ :=
    View.runPhase_known t.config hempty hG hnames h.strip hdue h.known
  have hstrip := View.strip_of_frame
    (View.runPhase_frame .standard t.config t.data t.root phase)
  unfold Tree.runPhase
  rw [if_neg hturn]
  dsimp only
  refine ⟨herror, ⟨?_, hknown, hstrip.trans h.strip⟩, rfl, rfl⟩
  rw [herror]
  rfl

/-- Phases in turn. -/
theorem Reached.runPhases (phases : List Phase) {t : Tree} {done : Option Phase}
    (hempty : G .empty) (hG : whole.GuideExtras G) (hnames : (bare.nodes.map Node.name).Nodup)
    (h : t.Reached G whole bare done) (hphases : Phase.Successive done phases) :
    (t.runPhases .standard phases).error = none ∧
      (t.runPhases .standard phases).tree.Reached G whole bare
        (phases.foldl (fun _ phase => some phase) done) ∧
      (t.runPhases .standard phases).tree.config = t.config ∧
      (t.runPhases .standard phases).tree.data = t.data := by
  -- no phase fails, so the next one is due
  induction phases generalizing t done with
  | nil => exact ⟨rfl, h, rfl, rfl⟩
  | cons phase rest ih =>
    obtain ⟨hdue, hrest⟩ := hphases
    obtain ⟨herror, hreached, hconfig, hdata⟩ := h.runPhase hempty hG hnames hdue
    obtain ⟨herror', hreached', hconfig', hdata'⟩ := ih hreached hrest
    rw [Tree.runPhases]
    dsimp only
    rw [herror]
    exact ⟨herror', hreached', hconfig'.trans hconfig, hdata'.trans hdata⟩

end Tree

/-! ### Built trees -/

theorem Tree.build_ok {spec : Spec} {config : Config} {t : Tree} {ds : List Diagnostic}
    (h : Tree.build spec config = .ok (t, ds)) :
    t.Reached G spec t.root.strip none ∧ (t.root.strip.nodes.map Node.name).Nodup ∧
      t.config = config ∧ t.data = spec.data? := by
  unfold Tree.build at h
  cases hp : View.place config [] "" .start spec with
  | error e =>
    rw [hp] at h
    exact absurd h (by simp [bind, Except.bind])
  | ok r =>
    obtain ⟨root, p⟩ := r
    rw [hp] at h
    obtain ⟨rfl, -⟩ := Prod.mk.inj (Except.ok.inj h)
    have hfits := View.place_fits (fun t ht => ht) (fun _ => List.forall_mem_nil _) hp
    obtain ⟨hnames, hdistinct⟩ := View.place_names hp
    have hnodup := hdistinct List.nodup_nil
    rw [hnames] at hnodup
    refine ⟨⟨rfl, hfits, rfl⟩, ?_, rfl, rfl⟩
    rw [View.strip_names]
    exact hnodup

end Trellis

import Trellis.Proofs.Drawn
import Trellis.Proofs.Groups

/-! Trees that have come through all phases, with any pipeline. What a phase needs from before it,
and what it leaves, is kept by the phases around it, so each can be looked at alone; and what is
there in the end is enough to assemble. -/
namespace Trellis

namespace View

variable {R P : Fact} {A B : List Node} {n : Node} {cs : List View} {phase : Phase} {step : Step}

theorem bottomUpIn_error (h : (bottomUpIn phase step B cs).error = none) :
    ∀ c ∈ cs, (c.bottomUp phase step B).error = none := by
  induction cs with
  | nil => exact List.forall_mem_nil _
  | cons c rest ih =>
    rw [bottomUpIn] at h
    cases hc : (c.bottomUp phase step B).error with
    | some e =>
      rw [hc] at h
      exact absurd h (by simp)
    | none =>
      rw [hc] at h
      exact List.forall_mem_cons.mpr ⟨hc, ih h⟩

/-- A pass that does not fail at a view fails neither below it nor in its step. -/
theorem bottomUp_error (h : ((mk n cs).bottomUp phase step A).error = none) :
    (∀ c ∈ cs, (c.bottomUp phase step (n :: A)).error = none) ∧
      (step A (mk n (cs.map (fun c => (c.bottomUp phase step (n :: A)).view)))).error = none := by
  rw [bottomUp] at h
  cases hin : (bottomUpIn phase step (n :: A) cs).error with
  | some e =>
    rw [hin] at h
    exact absurd h (by simp)
  | none =>
    have hbelow := bottomUpIn_error hin
    rw [hin, (bottomUpIn_of_ok hbelow).2] at h
    refine ⟨hbelow, ?_⟩
    unfold Outcome.complete at h
    dsimp only at h
    split at h
    · rename_i e he
      exact absurd (he.symm.trans h) (by simp)
    · assumption

/-- What every step that succeeds makes of its view, given the same of the views under it, a phase
without an error makes of all views. -/
theorem bottomUp_makes_of_ok {Q : List Node → View → Prop}
    (hframe : ∀ A v, (step A v).view.updateAll (Components.without phase) =
      v.updateAll (Components.without phase))
    (hP : P.SiteBlind phase)
    (hstep : ∀ A n ws, P ⟨A, mk n ws⟩ n.components → (∀ w ∈ ws, Q (n :: A) w) →
      (step A (mk n ws)).error = none → Q A ((step A (mk n ws)).view.update (markDone phase)))
    {v : View} (hv : Fits P A v) (h : (v.bottomUp phase step A).error = none) :
    Q A (v.bottomUp phase step A).view := by
  induction v using induct generalizing A with
  | h n cs ih =>
    obtain ⟨hself, hin⟩ := fits_mk_iff.mp hv
    obtain ⟨hbelow, hown⟩ := bottomUp_error h
    let below := cs.map (fun c => (c.bottomUp phase step (n :: A)).view)
    have hmade : ∀ w ∈ below, Q (n :: A) w :=
      List.forall_mem_map.mpr (fun c hc => ih c hc (hin c hc) (hbelow c hc))
    have hresult : step A (mk n below) =
        ⟨(step A (mk n below)).view, (step A (mk n below)).diagnostics, none⟩ :=
      congrArg (Outcome.mk _ _) hown
    rw [(bottomUp_of_ok hbelow hresult).2]
    exact hstep A n below (site_of_bottomUp hframe hP hself) hmade hown

/-- A fact that every step establishes at its node where it succeeds, and keeps at those below,
holds at all sites after a phase without an error. -/
theorem bottomUp_fits_of_ok
    (hframe : ∀ A v, (step A v).view.updateAll (Components.without phase) =
      v.updateAll (Components.without phase))
    (hP : P.SiteBlind phase)
    (hstep : ∀ s : Site, P s s.node.components → (∀ c ∈ s.view.children, Fits R s.lineage c) →
      (step s.ancestors s.view).error = none →
        Fits R s.ancestors ((step s.ancestors s.view).view.update (markDone phase)))
    {v : View} (hv : Fits P A v) (h : (v.bottomUp phase step A).error = none) :
    Fits R A (v.bottomUp phase step A).view :=
  bottomUp_makes_of_ok hframe hP (fun A n ws => hstep ⟨A, mk n ws⟩) hv h

end View

namespace Tree

variable {pipeline : Pipeline} {t : Tree} {phase : Phase} {before after : List Phase}

/-- A phase that does not fail was due. -/
theorem runPhase_ok (h : (t.runPhase pipeline phase).error = none) :
    (t.root.runPhase pipeline t.config t.data phase).error = none ∧
      (t.runPhase pipeline phase).tree =
        { t with
          root := (t.root.runPhase pipeline t.config t.data phase).view
          parsed := some phase } := by
  unfold runPhase at h ⊢
  split at h
  · exact absurd h (by simp)
  · rename_i hdue
    rw [if_neg hdue]
    dsimp only at h ⊢
    rw [h]
    exact ⟨rfl, rfl⟩

/-- Phases in turn that do not fail: the first one, and the others behind it. -/
theorem runPhases_cons_ok (h : (t.runPhases pipeline (phase :: after)).error = none) :
    (t.runPhase pipeline phase).error = none ∧
      ((t.runPhase pipeline phase).tree.runPhases pipeline after).error = none ∧
      (t.runPhases pipeline (phase :: after)).tree =
        ((t.runPhase pipeline phase).tree.runPhases pipeline after).tree := by
  rw [runPhases] at h ⊢
  cases he : (t.runPhase pipeline phase).error with
  | some e =>
    rw [he] at h
    exact absurd (he.symm.trans h) (by simp)
  | none =>
    rw [he] at h
    exact ⟨rfl, h, rfl⟩

theorem runPhase_carry {R : Fact} (hsite : R.SiteBlind phase) (hown : R.OwnBlind phase)
    (h : View.Fits R [] t.root) : View.Fits R [] (t.runPhase pipeline phase).tree.root := by
  unfold runPhase
  split
  · exact h
  · exact h.carry hsite hown (View.runPhase_frame pipeline t.config t.data t.root phase)

/-- What no phase of a list writes or looks at is the same after them. -/
theorem runPhases_carry {R : Fact} (hR : ∀ phase ∈ after, R.SiteBlind phase ∧ R.OwnBlind phase)
    (h : View.Fits R [] t.root) : View.Fits R [] (t.runPhases pipeline after).tree.root := by
  induction after generalizing t with
  | nil => exact h
  | cons phase rest ih =>
    obtain ⟨⟨hsite, hown⟩, hrest⟩ := List.forall_mem_cons.mp hR
    have hfirst : View.Fits R [] (t.runPhase pipeline phase).tree.root :=
      runPhase_carry hsite hown h
    rw [runPhases]
    cases (t.runPhase pipeline phase).error with
    | some e => exact hfirst
    | none => exact ih hrest hfirst

/-- A fact that one phase makes of another one holds in the end, if the earlier phases keep what
that phase needs and the later ones what it leaves. -/
theorem runPhases_establish {P R : Fact} (before : List Phase) (phase : Phase) (after : List Phase)
    {t : Tree} (hP : ∀ earlier ∈ before, P.SiteBlind earlier ∧ P.OwnBlind earlier)
    (hR : ∀ later ∈ after, R.SiteBlind later ∧ R.OwnBlind later)
    (hphase : ∀ config input v, View.Fits P [] v →
      (View.runPhase pipeline config input v phase).error = none →
        View.Fits R [] (View.runPhase pipeline config input v phase).view)
    (h : View.Fits P [] t.root)
    (herror : (t.runPhases pipeline (before ++ phase :: after)).error = none) :
    View.Fits R [] (t.runPhases pipeline (before ++ phase :: after)).tree.root := by
  induction before generalizing t with
  | nil =>
    obtain ⟨hfirst, -, htree⟩ := runPhases_cons_ok herror
    obtain ⟨hown, hnext⟩ := runPhase_ok hfirst
    have hdone : View.Fits R [] (t.runPhase pipeline phase).tree.root := by
      rw [hnext]
      exact hphase t.config t.data t.root h hown
    rw [List.nil_append, htree]
    exact runPhases_carry hR hdone
  | cons earlier rest ih =>
    obtain ⟨⟨hsite, hown⟩, hrest⟩ := List.forall_mem_cons.mp hP
    rw [List.cons_append] at herror ⊢
    obtain ⟨-, hothers, htree⟩ := runPhases_cons_ok herror
    rw [htree]
    exact ih hrest (runPhase_carry hsite hown h) hothers

end Tree

/-! ### Marks -/

/-- No mark is made yet. -/
def Unmarked : Fact := fun _ k => k.mark = []

/-- A unit has one mark, a facet the cells that it repeats, each under the node's name. -/
def Labelled : Fact := fun s k =>
  match s.node.kind with
  | .unit _ => ∃ m, k.mark = [.unit m] ∧ m.name = s.node.qualify "marks" ∧
      ∀ series, m.series = some series → series.group = s.node.qualify "pathgroup"
  | .layer _ => k.mark = []
  | .facet _ => ∃ m, k.mark = [.cell m] ∧ m.name = s.node.qualify "cell"

/-- What the mark phase makes of a node of each kind. -/
def Made : Fact := fun s k =>
  match s.node.kind with
  | .unit u => ∃ (origin : Site) (config : Config) (source : String),
      origin.node.name = s.node.name ∧ k.mark = [.unit (.ofUnit origin config u source)]
  | .layer _ => k.mark = []
  | .facet f => ∃ config root child, k.mark = [.cell (.ofFacet s.node config f root child)]

theorem unmarked_ownBlind {phase : Phase} (h : phase ≠ .markGroup) :
    Fact.OwnBlind phase Unmarked := by
  intro s k
  unfold Unmarked
  rw [Components.without_mark h]

theorem made_siteBlind (phase : Phase) : Fact.SiteBlind phase Made := by
  intro s k
  unfold Made
  rw [Site.node_updateAll]
  rfl

theorem made_ownBlind {phase : Phase} (h : phase ≠ .markGroup) : Fact.OwnBlind phase Made := by
  intro s k
  unfold Made
  rw [Components.without_mark h]

theorem UnitMark.ofUnit_series {s : Site} {config : Config} {u : UnitView} {source : String}
    {series : Series} (h : (UnitMark.ofUnit s config u source).series = some series) :
    series.group = s.node.qualify "pathgroup" ∧ series.groupby = u.seriesColumns := by
  unfold UnitMark.ofUnit at h
  dsimp only at h
  split at h
  · obtain rfl := Option.some.inj h
    exact ⟨rfl, rfl⟩
  · exact absurd h (by simp)

theorem Made.labelled {s : Site} {k : Components} (h : Made s k) : Labelled s k := by
  unfold Made at h
  unfold Labelled
  cases hk : s.node.kind with
  | unit u =>
    rw [hk] at h
    obtain ⟨origin, config, source, hname, hmark⟩ := h
    have hqualify (text : String) : origin.node.qualify text = s.node.qualify text :=
      congrArg (fun name => Naming.qualify name text) hname
    refine ⟨_, hmark, hqualify "marks", ?_⟩
    intro series hseries
    exact (UnitMark.ofUnit_series hseries).1.trans (hqualify "pathgroup")
  | layer size =>
    rw [hk] at h
    exact h
  | facet f =>
    rw [hk] at h
    obtain ⟨config, root, child, hmark⟩ := h
    exact ⟨_, hmark, rfl⟩

namespace View

theorem cellMark_made {config : Config} {v : View} {f : FacetView} {m : CellMark}
    (h : cellMark config v f = .ok m) : ∃ root child, m = .ofFacet v.node config f root child := by
  unfold cellMark at h
  obtain ⟨child, -, h⟩ := bind_eq_ok.mp h
  obtain ⟨d, -, h⟩ := bind_eq_ok.mp h
  split at h
  · exact ⟨_, child, (Except.ok.inj h).symm⟩
  · exact absurd h (by simp [throw, throwThe, MonadExceptOf.throw])

/-- Where the mark phase does not fail at a view, it sets the marks that the view's kind calls for. -/
theorem markStep_ok {config : Config} {A : List Node} {v : View}
    (h : (markStep config A v).error = none) :
    ∃ marks, (markStep config A v).view = v.update (fun c => { c with mark := marks }) ∧
      match v.node.kind with
      | .unit u => ∃ source, marks = [.unit (.ofUnit ⟨A, v⟩ config u source)]
      | .layer _ => marks = v.node.components.mark
      | .facet f => ∃ root child, marks = [.cell (.ofFacet v.node config f root child)] := by
  unfold markStep at h ⊢
  cases hn : v.node.kind with
  | unit u =>
    rw [hn] at h
    dsimp only at h ⊢
    cases hd : v.node.components.dataOrError with
    | error e =>
      rw [hd] at h
      exact absurd h (by simp [Outcome.ofExcept, Outcome.failed])
    | ok d => exact ⟨_, rfl, d.source, rfl⟩
  | layer size =>
    refine ⟨v.node.components.mark, ?_, rfl⟩
    cases v
    rfl
  | facet f =>
    rw [hn] at h
    dsimp only at h ⊢
    cases hm : cellMark config v f with
    | error e =>
      rw [hm] at h
      exact absurd h (by simp [Outcome.ofExcept, Outcome.failed])
    | ok m =>
      obtain ⟨root, child, rfl⟩ := cellMark_made hm
      exact ⟨_, rfl, root, child, rfl⟩

/-- A fact that marks made at a site bring about holds after the mark phase, where it does not
fail. -/
theorem bottomUp_marks {P R : Fact} (config : Config) (hP : P.SiteBlind .markGroup)
    (hR : R.SiteBlind .markGroup) {A : List Node} {v : View}
    (hmade : ∀ (s : Site) marks, P s s.node.components →
      (match s.node.kind with
      | .unit u => ∃ source, marks = [.unit (.ofUnit s config u source)]
      | .layer _ => marks = s.node.components.mark
      | .facet f => ∃ root child, marks = [.cell (.ofFacet s.node config f root child)]) →
      R s { s.node.components with mark := marks, completed := some .markGroup })
    (hv : Fits P A v) (h : (v.bottomUp .markGroup (markStep config) A).error = none) :
    Fits R A (v.bottomUp .markGroup (markStep config) A).view := by
  have hfits : Fits (R.both (.done .markGroup)) A
      (v.bottomUp .markGroup (markStep config) A).view := by
    refine bottomUp_fits_of_ok (markStep_frame config) hP ?_ hv h
    intro s hs hin hok
    obtain ⟨marks, hview, hmarks⟩ := markStep_ok hok
    have hown (k : Components) : ({ k with mark := marks } : Components).without .markGroup =
        k.without .markGroup := rfl
    rw [hview]
    exact fits_own_step hR hown hin (hmade s marks hs hmarks)
  exact hfits.mono (fun _ _ hk => hk.1)

/-- Where the mark phase does not fail, every node has the marks that its kind calls for. -/
theorem bottomUp_made (config : Config) {A : List Node} {v : View} (hv : Fits Unmarked A v)
    (h : (v.bottomUp .markGroup (markStep config) A).error = none) :
    Fits Made A (v.bottomUp .markGroup (markStep config) A).view := by
  refine bottomUp_marks config (fun _ _ => Iff.rfl) (made_siteBlind .markGroup) ?_ hv h
  intro s marks hs hmarks
  unfold Made
  cases hn : s.node.kind with
  | unit u =>
    rw [hn] at hmarks
    obtain ⟨source, rfl⟩ := hmarks
    exact ⟨s, config, source, rfl, rfl⟩
  | layer size =>
    rw [hn] at hmarks
    exact hmarks.trans hs
  | facet f =>
    rw [hn] at hmarks
    obtain ⟨root, child, rfl⟩ := hmarks
    exact ⟨config, root, child, rfl⟩

end View

/-! ### Headers -/

/-- Along each side there is at most one header, and one footer. -/
def SingleParts (headers : Dict HeaderChannel LayoutHeader) : Prop :=
  ∀ h header, headers.get? h = some header → ∀ slot, (header.parts slot).length ≤ 1

/-- Only facets have headers, and in each place at most one. -/
def Slotted : Fact := fun s k =>
  (s.node.isFacet = false → k.headers = .empty) ∧ SingleParts k.headers

/-- A header of a facet is single. Along a channel that the facet binds it shows the values of the
binding and labels them; any other one is only there for axes. -/
structure FacetView.Heads (f : FacetView) (h : HeaderChannel) (header : LayoutHeader) : Prop where
  single : ∀ slot, (header.parts slot).length ≤ 1
  bound : ∀ g, f.fieldDef? h.channel = some g → header.field = some g.column ∧
    (∃ format config, header.label = some (g.label format .parent config)) ∧
    ∃ part ∈ header.parts .header, part.labels = true
  unbound : f.fieldDef? h.channel = none →
    header.title = none ∧ header.label = none ∧ header.field = none

/-- The headers of a facet, which are there for what it binds of these channels at least. -/
structure FacetView.LaidOut (f : FacetView) (laid : List HeaderChannel)
    (headers : Dict HeaderChannel LayoutHeader) : Prop where
  heads : ∀ h header, headers.get? h = some header → f.Heads h header
  present : ∀ h ∈ laid, (f.fieldDef? h.channel).isSome = true → (headers.get? h).isSome = true

/-- What the guide phase lays out along a node of each kind. -/
def Headed : Fact := fun s k =>
  match s.node.kind with
  | .facet f => f.LaidOut [.row, .column] k.headers
  | _ => k.headers = .empty

theorem headed_siteBlind (phase : Phase) : Fact.SiteBlind phase Headed := by
  intro s k
  unfold Headed
  rw [Site.node_updateAll]
  rfl

theorem headed_ownBlind {phase : Phase} (h : phase ≠ .axisAndHeader) :
    Fact.OwnBlind phase Headed := by
  intro s k
  unfold Headed
  rw [Components.without_headers h]

theorem headed_empty {s : Site} {k : Components} (hn : s.node.isFacet = false)
    (hk : k.headers = .empty) : Headed s k := by
  unfold Headed
  cases hkind : s.node.kind with
  | facet f => exact absurd ((Node.isFacet_of_facet hkind).symm.trans hn) (by decide)
  | unit | layer => exact hk

theorem Headed.slotted {s : Site} {k : Components} (h : Headed s k) : Slotted s k := by
  unfold Headed at h
  unfold Slotted
  cases hk : s.node.kind with
  | facet f =>
    rw [hk] at h
    exact ⟨fun hno => absurd (hno.symm.trans (Node.isFacet_of_facet hk)) (by decide),
      fun side header hget => (h.heads side header hget).single⟩
  | unit | layer =>
    rw [hk] at h
    dsimp only at h
    refine ⟨fun _ => h, ?_⟩
    rw [h]
    intro side header hget
    exact absurd hget (by simp)

/-- An axis goes into the part that is there, or into one that is made for it. -/
theorem LayoutHeader.addAxis_single {header : LayoutHeader}
    (hh : ∀ slot, (header.parts slot).length ≤ 1) (slot : HeaderSlot) (fresh : HeaderPart)
    (a : Axis) : ∀ other, ((header.addAxis slot fresh a).parts other).length ≤ 1 := by
  have hown := hh slot
  intro other
  unfold LayoutHeader.addAxis
  split
  · rw [LayoutHeader.parts_withParts]
    split
    · exact Nat.le_refl 1
    · exact hh other
  · rename_i p rest hparts
    rw [hparts, List.length_cons] at hown
    rw [LayoutHeader.parts_withParts]
    split
    · rw [List.length_cons]
      exact hown
    · exact hh other

/-- An axis leaves the title, the label and the field of a header as they are. -/
theorem LayoutHeader.addAxis_same (header : LayoutHeader) (slot : HeaderSlot) (fresh : HeaderPart)
    (a : Axis) : (header.addAxis slot fresh a).title = header.title ∧
      (header.addAxis slot fresh a).label = header.label ∧
      (header.addAxis slot fresh a).field = header.field := by
  unfold LayoutHeader.addAxis
  cases slot <;> split <;> exact ⟨rfl, rfl, rfl⟩

/-- A part that labels goes on labelling when it takes up an axis. -/
theorem LayoutHeader.addAxis_labels {header : LayoutHeader} {other : HeaderSlot}
    (hh : ∃ part ∈ header.parts other, part.labels = true) (slot : HeaderSlot) (fresh : HeaderPart)
    (a : Axis) : ∃ part ∈ (header.addAxis slot fresh a).parts other, part.labels = true := by
  obtain ⟨part, hpart, hlabels⟩ := hh
  unfold LayoutHeader.addAxis
  split
  · rename_i hnone
    rw [LayoutHeader.parts_withParts]
    split
    · rename_i hslot
      rw [hslot, hnone] at hpart
      cases hpart
    · exact ⟨part, hpart, hlabels⟩
  · rename_i first rest hparts
    rw [LayoutHeader.parts_withParts]
    split
    · rename_i hslot
      rw [hslot, hparts] at hpart
      rcases List.mem_cons.mp hpart with rfl | hin
      · exact ⟨_, List.mem_cons_self, hlabels⟩
      · exact ⟨part, List.mem_cons_of_mem _ hin, hlabels⟩
    · exact ⟨part, hpart, hlabels⟩

namespace FacetView

variable {f : FacetView} {h : HeaderChannel} {header : LayoutHeader} {laid : List HeaderChannel}
  {headers : Dict HeaderChannel LayoutHeader}

theorem Heads.addAxis (hh : f.Heads h header) (slot : HeaderSlot) (fresh : HeaderPart) (a : Axis) :
    f.Heads h (header.addAxis slot fresh a) := by
  obtain ⟨htitle, hlabel, hfield⟩ := header.addAxis_same slot fresh a
  refine ⟨LayoutHeader.addAxis_single hh.single slot fresh a, ?_, ?_⟩
  · intro g hg
    obtain ⟨hown, hshown, hlabels⟩ := hh.bound g hg
    rw [hfield, hlabel]
    exact ⟨hown, hshown, LayoutHeader.addAxis_labels hlabels slot fresh a⟩
  · intro hnone
    rw [htitle, hlabel, hfield]
    exact hh.unbound hnone

/-- A header may give up its title. -/
theorem Heads.untitled (hh : f.Heads h header) : f.Heads h { header with title := none } := by
  have hparts (slot : HeaderSlot) :
      ({ header with title := none } : LayoutHeader).parts slot = header.parts slot := by
    cases slot <;> rfl
  refine ⟨?_, ?_, ?_⟩
  · intro slot
    rw [hparts]
    exact hh.single slot
  · intro g hg
    rw [hparts]
    exact hh.bound g hg
  · intro hnone
    exact ⟨rfl, (hh.unbound hnone).2⟩

/-- Nothing is shown before anything is laid out. -/
theorem heads_empty (hnone : f.fieldDef? h.channel = none) : f.Heads h .empty where
  single slot := by cases slot <;> exact Nat.zero_le 1
  bound g hg := by
    rw [hnone] at hg
    cases hg
  unbound _ := ⟨rfl, rfl, rfl⟩

theorem heads_facetHeader (config : Config) (child : View) {g : FieldDef}
    (hg : f.fieldDef? h.channel = some g) : f.Heads h (View.facetHeader config child h g).1 where
  single slot := by
    cases slot with
    | header => exact Nat.le_refl 1
    | footer => exact Nat.zero_le 1
  bound own hown := by
    obtain rfl : g = own := Option.some.inj (hg.symm.trans hown)
    exact ⟨rfl, ⟨_, config, rfl⟩, _, List.mem_singleton_self _, rfl⟩
  unbound hnone := by
    rw [hg] at hnone
    cases hnone

theorem laidOut_empty : f.LaidOut [] .empty where
  heads _ _ hget := absurd hget (by simp)
  present _ hh := absurd hh List.not_mem_nil

theorem LaidOut.mono (hl : f.LaidOut laid headers) {fewer : List HeaderChannel}
    (hsub : fewer ⊆ laid) : f.LaidOut fewer headers :=
  ⟨hl.heads, fun h hh => hl.present h (hsub hh)⟩

theorem LaidOut.insert (hl : f.LaidOut laid headers) (hh : f.Heads h header) :
    f.LaidOut (h :: laid) (headers.insert h header) := by
  refine ⟨?_, ?_⟩
  · intro other found hget
    rw [Dict.get?_insert] at hget
    split at hget
    · rename_i hsame
      obtain rfl := Option.some.inj hget
      exact hsame ▸ hh
    · exact hl.heads other found hget
  · intro other hother hbound
    rw [Dict.get?_insert]
    split
    · rfl
    · rename_i hne
      exact hl.present other ((List.mem_cons.mp hother).resolve_left hne) hbound

/-- A channel without a binding needs no header. -/
theorem LaidOut.skip (hl : f.LaidOut laid headers) (hnone : f.fieldDef? h.channel = none) :
    f.LaidOut (h :: laid) headers := by
  refine ⟨hl.heads, ?_⟩
  intro other hother hbound
  rcases List.mem_cons.mp hother with rfl | hother
  · rw [hnone] at hbound
    cases hbound
  · exact hl.present other hother hbound

/-- Axes go into a header that is laid out, or into one of a channel without a binding. -/
theorem LaidOut.foldl_addAxis (hl : f.LaidOut laid headers) (hh : h ∈ laid) (fresh : HeaderPart)
    (axes : List Axis) : f.LaidOut laid (axes.foldl (fun headers a => headers.insert h
      ((headers.getD h .empty).addAxis (.ofOrient a.orient) fresh a)) headers) := by
  apply List.foldlRecOn (motive := f.LaidOut laid) _ _ hl
  intro headers hl a _
  have hold : f.Heads h (headers.getD h .empty) := by
    unfold Dict.getD
    cases hget : headers.get? h with
    | some header => exact hl.heads h header hget
    | none =>
      apply heads_empty
      by_contra hbound
      have hthere := hl.present h hh (Option.isSome_iff_ne_none.mpr hbound)
      rw [hget] at hthere
      cases hthere
  exact (hl.insert (hold.addAxis _ fresh a)).mono (List.subset_cons_self h laid)

end FacetView

namespace View

/-- The headers of a facet and of everything in its cell, while the facet is worked out. -/
structure HeadedPair (f : FacetView) (laid : List HeaderChannel) (A : List Node)
    (p : Node × View) : Prop where
  facet : f.LaidOut laid p.1.components.headers
  cell : Fits (Headed.both (.done .axisAndHeader)) A p.2

variable {f : FacetView} {laid : List HeaderChannel} {A : List Node} {n : Node} {child : View}

theorem HeadedPair.update {more : List HeaderChannel} {g k : Components → Components}
    (hp : HeadedPair f laid A (n, child))
    (hk : ∀ c, (k c).without .axisAndHeader = c.without .axisAndHeader)
    (hdone : ∀ c, (k c).completed = c.completed)
    (hfacet : f.LaidOut more (g n.components).headers)
    (hcell : Headed ⟨A, child⟩ (k child.node.components)) :
    HeadedPair f more A (n.update g, child.update k) := by
  refine ⟨hfacet, ?_⟩
  refine fits_update ((headed_siteBlind .axisAndHeader).both (Fact.done_siteBlind _ _)) hk
    hp.cell.children ⟨hcell, ?_⟩
  exact (hdone _).trans hp.cell.self.2

/-- A header along a channel may give up its title. -/
theorem headed_untitled {inner : LayoutHeader} {h : HeaderChannel}
    (hc : Headed ⟨A, child⟩ child.node.components)
    (hinner : child.node.components.headers.get? h = some inner) :
    Headed ⟨A, child⟩ { child.node.components with
      headers := child.node.components.headers.insert h { inner with title := none } } := by
  unfold Headed at hc ⊢
  cases hk : (⟨A, child⟩ : Site).node.kind with
  | facet g =>
    rw [hk] at hc
    exact (hc.insert (hc.heads h inner hinner).untitled).mono (List.subset_cons_self h _)
  | unit | layer =>
    -- a view that has a header is a facet
    rw [hk] at hc
    dsimp only at hc
    rw [hc] at hinner
    exact absurd hinner (by simp)

theorem addHeader_headed (config : Config) (h : HeaderChannel)
    (hp : HeadedPair f laid A (n, child)) :
    HeadedPair f (h :: laid) A (addHeader config n f h child) := by
  have hcell : Headed ⟨A, child⟩ child.node.components := hp.cell.self.1
  unfold addHeader
  cases hf : f.fieldDef? h.channel with
  | none => exact ⟨hp.facet.skip hf, hp.cell⟩
  | some g =>
    have hfacet := hp.facet.insert (FacetView.heads_facetHeader config child hf)
    dsimp only
    obtain hchild | ⟨inner, hinner, hchild⟩ := facetHeader_child config child h g
    · rw [hchild.trans (update_id child).symm]
      exact hp.update (fun _ => rfl) (fun _ => rfl) hfacet hcell
    · rw [hchild]
      exact hp.update (fun _ => rfl) (fun _ => rfl) hfacet (headed_untitled hcell hinner)

theorem liftAxes_headed (c : Channel) (hp : HeadedPair f [.row, .column] A (n, child)) :
    HeadedPair f [.row, .column] A (liftAxes c n child) := by
  have hcell : Headed ⟨A, child⟩ child.node.components := hp.cell.self.1
  unfold liftAxes
  split
  · exact hp
  · split
    · rename_i h axes _ _
      exact hp.update (fun _ => rfl) (fun _ => rfl)
        (hp.facet.foldl_addAxis h.mem_sides _ _) hcell
    · exact hp

theorem facetGuides_headed (config : Config) (hp : HeadedPair f [] A (n, child)) :
    HeadedPair f [.row, .column] A (facetGuides config n f child) :=
  liftAxes_headed .y (liftAxes_headed .x
    (addHeader_headed config .row (addHeader_headed config .column hp)))

theorem fits_headedPair {p : Node × View} {rest : List View} (hn : n.kind = .facet f)
    (hframe : KeepsGuideFrame p (n, child)) (hp : HeadedPair f [.row, .column] (n :: A) p)
    (hin : ∀ c ∈ rest, Fits (Headed.both (.done .axisAndHeader)) (n :: A) c) :
    Fits (Headed.both (.done .axisAndHeader)) A
      ((mk p.1 (p.2 :: rest)).update (markDone .axisAndHeader)) := by
  have hblind : Fact.SiteBlind .axisAndHeader (Headed.both (.done .axisAndHeader)) :=
    (headed_siteBlind .axisAndHeader).both (Fact.done_siteBlind _ _)
  have hnode : n.update (Components.without .axisAndHeader) =
      (p.1.update (markDone .axisAndHeader)).update (Components.without .axisAndHeader) := by
    rw [← hframe.1]
    rfl
  have hviews : (child :: rest).map (updateAll (Components.without .axisAndHeader)) =
      (p.2 :: rest).map (updateAll (Components.without .axisAndHeader)) := by
    rw [List.map_cons, List.map_cons, hframe.2]
  refine fits_mk_of_frame hblind hnode hviews ⟨?_, rfl⟩ ?_
  · unfold Headed
    rw [show (⟨A, mk n (child :: rest)⟩ : Site).node.kind = .facet f from hn]
    exact hp.facet
  · exact List.forall_mem_cons.mpr ⟨hp.cell, hin⟩

/-- Where the guide phase does not fail, facets have the headers that they call for. -/
theorem bottomUp_headed (config : Config) {v : View} (hv : Fits Unguided A v)
    (h : (v.bottomUp .axisAndHeader (guideStep config) A).error = none) :
    Fits Headed A (v.bottomUp .axisAndHeader (guideStep config) A).view := by
  have hblind : Fact.SiteBlind .axisAndHeader (Headed.both (.done .axisAndHeader)) :=
    (headed_siteBlind .axisAndHeader).both (Fact.done_siteBlind _ _)
  have hfits : Fits (Headed.both (.done .axisAndHeader)) A
      (v.bottomUp .axisAndHeader (guideStep config) A).view := by
    refine bottomUp_fits_of_ok (guideStep_frame config) (fun _ _ => Iff.rfl) ?_ hv h
    rintro ⟨A, v⟩ ⟨-, hheaders⟩ hin hok
    cases v with
    | mk n cs =>
      unfold guideStep at hok ⊢
      cases hk : n.kind with
      | unit u =>
        rw [show (mk n cs).node.kind = .unit u from hk]
        refine fits_own_step (headed_siteBlind .axisAndHeader) ?_ hin
          (headed_empty (Node.not_facet_of_unit hk) hheaders)
        intro _
        rfl
      | layer size =>
        rw [show (mk n cs).node.kind = .layer size from hk]
        refine fits_mk_of_frame (n := n) hblind rfl (mergeAxes_frame _ _ _ _).symm
          ⟨headed_empty (Node.not_facet_of_layer hk) hheaders, rfl⟩ ?_
        intro w hw
        obtain ⟨d, hd, kept, rfl, -⟩ := mergeAxes_views w hw
        refine fits_update hblind ?_ (hin d hd).children (hin d hd).self
        intro _
        rfl
      | facet f =>
        rw [show (mk n cs).node.kind = .facet f from hk] at hok ⊢
        cases cs with
        | nil => exact absurd hok (by simp [Outcome.failed])
        | cons child rest =>
          have hempty : f.LaidOut [] n.components.headers := by
            rw [show n.components.headers = .empty from hheaders]
            exact FacetView.laidOut_empty
          exact fits_headedPair hk (facetGuides_frame config n f child)
            (facetGuides_headed config ⟨hempty, hin child List.mem_cons_self⟩)
            (fun d hd => hin d (List.mem_cons_of_mem _ hd))
  exact hfits.mono (fun _ _ hk => hk.1)

/-- Where the legend phase does not fail, it has come to every node. -/
theorem bottomUp_legend_done {v : View}
    (h : (v.bottomUp .legend legendStep A).error = none) :
    Fits (.done .legend) A (v.bottomUp .legend legendStep A).view := by
  let anything : Fact := fun _ _ => True
  have hblind : anything.SiteBlind .legend := fun _ _ => Iff.rfl
  have hfits : Fits (anything.both (.done .legend)) A (v.bottomUp .legend legendStep A).view := by
    refine bottomUp_fits_of_ok (P := anything) legendStep_frame hblind ?_ (fun _ _ => trivial) h
    rintro ⟨A, v⟩ - hin -
    have hcollected :
        Fits (anything.both (.done .legend)) A (v.collectLegends.update (markDone .legend)) := by
      cases v with
      | mk n cs =>
        refine fits_mk_of_frame (n := n) (hblind.both (Fact.done_siteBlind _ _)) rfl
          (mergeLegends_frame _ _ _).symm ⟨trivial, rfl⟩ ?_
        intro w hw
        obtain ⟨d, hd, kept, rfl, -⟩ := mergeLegends_views w hw
        refine fits_update (hblind.both (Fact.done_siteBlind _ _)) ?_ (hin d hd).children
          (hin d hd).self
        intro _
        rfl
    unfold legendStep
    cases v.node.kind with
    | unit u =>
      refine fits_own_step hblind ?_ hin trivial
      intro _
      rfl
    | layer size => exact hcollected
    | facet f => exact hcollected
  exact hfits.mono (fun _ _ hk => hk.2)

end View

/-! ### All phases -/

/-- What is known of every site in the end, whatever pipeline found the data. -/
structure Finished (s : Site) (k : Components) : Prop where
  data : k.data.isSome = true
  labelled : Labelled s k
  headed : Headed s k
  done : Fact.done .legend s k

theorem Finished.slotted {s : Site} {k : Components} (h : Finished s k) : Slotted s k :=
  h.headed.slotted

namespace Tree

variable {pipeline : Pipeline} {t : Tree} {spec : Spec} {config : Config} {ds : List Diagnostic}

theorem parsed_of_ok (before : List Phase) (phase : Phase) {t : Tree}
    (h : (t.runPhases pipeline (before ++ [phase])).error = none) :
    (t.runPhases pipeline (before ++ [phase])).tree.parsed = some phase := by
  induction before generalizing t with
  | nil =>
    obtain ⟨hfirst, -, htree⟩ := runPhases_cons_ok h
    rw [List.nil_append, htree]
    exact congrArg Tree.parsed (runPhase_ok hfirst).2
  | cons earlier rest ih =>
    rw [List.cons_append] at h ⊢
    obtain ⟨-, hothers, htree⟩ := runPhases_cons_ok h
    rw [htree]
    exact ih hothers

theorem unguided_of_build (h : Tree.build spec config = .ok (t, ds)) :
    View.Fits Unguided [] t.root := by
  obtain ⟨⟨-, hblank, -⟩, -⟩ := Tree.build_ok (G := fun _ => True) h
  refine hblank.mono ?_
  rintro s k ⟨-, rfl⟩
  exact ⟨rfl, rfl⟩

theorem made_of_build (h : Tree.build spec config = .ok (t, ds))
    (herror : (t.runPhases pipeline Phase.all).error = none) :
    View.Fits Made [] (t.runPhases pipeline Phase.all).tree.root := by
  obtain ⟨⟨-, hblank, -⟩, -⟩ := Tree.build_ok (G := fun _ => True) h
  have hnone : View.Fits Unmarked [] t.root := by
    refine hblank.mono ?_
    rintro s k ⟨-, rfl⟩
    rfl
  refine runPhases_establish [.data, .scale, .layoutSize, .selection] .markGroup
    [.axisAndHeader, .legend] ?_ ?_ (fun config _ _ => View.bottomUp_made config) hnone herror
  · intro earlier hearlier
    exact ⟨fun _ _ => Iff.rfl, unmarked_ownBlind (ne_of_mem_of_not_mem hearlier (by decide))⟩
  · intro later hlater
    exact ⟨made_siteBlind later, made_ownBlind (ne_of_mem_of_not_mem hlater (by decide))⟩

theorem headed_of_build (h : Tree.build spec config = .ok (t, ds))
    (herror : (t.runPhases pipeline Phase.all).error = none) :
    View.Fits Headed [] (t.runPhases pipeline Phase.all).tree.root := by
  refine runPhases_establish [.data, .scale, .layoutSize, .selection, .markGroup] .axisAndHeader
    [.legend] ?_ ?_ (fun config _ _ => View.bottomUp_headed config) (unguided_of_build h) herror
  · intro earlier hearlier
    exact ⟨fun _ _ => Iff.rfl, unguided_ownBlind (ne_of_mem_of_not_mem hearlier (by decide))⟩
  · intro later hlater
    exact ⟨headed_siteBlind later, headed_ownBlind (ne_of_mem_of_not_mem hlater (by decide))⟩

/-- Each of the last phases finds what it needs, and what it leaves stays. -/
theorem finished_of_build (h : Tree.build spec config = .ok (t, ds))
    (herror : (t.runPhases pipeline Phase.all).error = none) :
    View.Fits Finished [] (t.runPhases pipeline Phase.all).tree.root := by
  let known : Fact := fun _ k => k.data.isSome = true
  have hknown {phase : Phase} (hne : phase ≠ .data) : known.OwnBlind phase := by
    intro s k
    dsimp only [known]
    rw [Components.without_data hne]
  have hdata : View.Fits known [] (t.runPhases pipeline Phase.all).tree.root := by
    refine runPhases_establish (P := fun _ _ => True) [] .data
      [.scale, .layoutSize, .selection, .markGroup, .axisAndHeader, .legend]
      (List.forall_mem_nil _) ?_ ?_ (fun _ _ => trivial) herror
    · intro later hlater
      exact ⟨fun _ _ => Iff.rfl, hknown (ne_of_mem_of_not_mem hlater (by decide))⟩
    · intro config input v _ _
      exact (View.describe_known _ [] v).mono (fun _ _ hk => hk.1)
  have hmarks : View.Fits Labelled [] (t.runPhases pipeline Phase.all).tree.root :=
    (made_of_build h herror).mono (fun _ _ hk => hk.labelled)
  have hheaders := headed_of_build h herror
  have hdone : View.Fits (.done .legend) [] (t.runPhases pipeline Phase.all).tree.root := by
    refine runPhases_establish (P := fun _ _ => True)
      [.data, .scale, .layoutSize, .selection, .markGroup, .axisAndHeader] .legend [] ?_
      (List.forall_mem_nil _) (fun _ _ _ _ => View.bottomUp_legend_done) (fun _ _ => trivial) herror
    exact fun _ _ => ⟨fun _ _ => Iff.rfl, fun _ _ => Iff.rfl⟩
  exact fun s hs => ⟨hdata s hs, hmarks s hs, hheaders s hs, hdone s hs⟩

end Tree

/-! ### Assembling -/

namespace View

variable {pipeline : Pipeline} {whole : Spec} {A : List Node} {v : View}

theorem dataOrError_of_finished (hf : Fits Finished A v) {n : Node} (hn : n ∈ v.nodes) :
    n.components.dataOrError = .ok n.data := by
  obtain ⟨s, hs, rfl⟩ := (mem_nodes_iff (A := A)).mp hn
  have hknown := hf s hs
  obtain ⟨d, hd⟩ := Option.isSome_iff_exists.mp hknown.data
  rw [Node.data, hd, Option.getD_some]
  exact dataOrError_of_done hd hknown.done

theorem exists_marksIn {cs : List View} (h : ∀ c ∈ cs, ∃ ms, c.marks pipeline A = .ok ms) :
    ∃ ms, marksIn pipeline A cs = .ok ms := by
  induction cs with
  | nil => exact ⟨[], rfl⟩
  | cons c rest ih =>
    obtain ⟨⟨first, hfirst⟩, hrest⟩ := List.forall_mem_cons.mp h
    obtain ⟨others, hothers⟩ := ih hrest
    refine ⟨first ++ others, ?_⟩
    rw [marksIn, hfirst, hothers]
    rfl

/-- The marks of a view that has come through all phases can be assembled. -/
theorem marks_of_finished (hb : Fits (fun s _ => s.Built whole) A v) (hf : Fits Finished A v) :
    ∃ ms, v.marks pipeline A = .ok ms := by
  induction v using induct generalizing A with
  | h n cs ih =>
    obtain ⟨hself, hin⟩ := fits_mk_iff.mp hb
    obtain ⟨hknown, hfin⟩ := fits_mk_iff.mp hf
    have hensure : n.components.ensure .markGroup = .ok () := by
      unfold Components.ensure
      rw [show n.components.completed = some .legend from hknown.done]
      rfl
    cases hk : n.kind with
    | unit u =>
      rw [marks.eq_1 _ A n cs u hk, hensure]
      exact ⟨_, rfl⟩
    | layer size =>
      obtain ⟨ms, hms⟩ := exists_marksIn (fun c hc => ih c hc (hin c hc) (hfin c hc))
      rw [marks.eq_2 _ A n cs size hk, hensure]
      exact ⟨ms, hms⟩
    | facet f =>
      obtain ⟨child, hchild⟩ := hself.facet_single (Node.isFacet_of_facet hk)
      obtain rfl : cs = [child] := hchild
      have hlabelled := hknown.labelled
      unfold Labelled at hlabelled
      rw [show (Site.node ⟨A, mk n [child]⟩).kind = .facet f from hk] at hlabelled
      obtain ⟨m, hmark, -⟩ := hlabelled
      have hcell : Site.cellMark n = .ok { m with root := n.data.facetRoot.getD m.root } := by
        unfold Site.cellMark
        rw [dataOrError_of_finished hf List.mem_cons_self]
        dsimp only [bind, Except.bind]
        rw [show n.components.mark = [.cell m] from hmark]
        rfl
      have hdata : Site.cellData pipeline (openUnitsIn [child]) =
          .ok ((openUnitsIn [child]).flatMap (fun u => pipeline.assembleCell u.data)) := by
        refine foldlM_append_of_ok (g := fun u : Node => pipeline.assembleCell u.data) ?_ []
        intro u hu done
        rw [openUnitsIn_eq, List.flatMap_singleton] at hu
        rw [dataOrError_of_finished (hfin child List.mem_cons_self) (mem_nodes_of_mem_openUnits hu)]
        rfl
      obtain ⟨inner, hinner⟩ := ih child List.mem_cons_self (hin child List.mem_cons_self)
        (hfin child List.mem_cons_self)
      rw [marks.eq_4 _ A n child [] f hk, hensure, hcell, hdata, hinner]
      exact ⟨_, rfl⟩

end View

/-- Whatever pipeline was in use, a tree that has come through all phases is assembled. -/
theorem Tree.exists_assembled {t : Tree} {pipeline : Pipeline} {whole : Spec}
    (hparsed : t.parsed = some .last) (hb : View.Fits (fun s _ => s.Built whole) [] t.root)
    (hf : View.Fits Finished [] t.root) : ∃ v, t.assemble pipeline = .ok v := by
  obtain ⟨ms, hmarks⟩ : ∃ ms, t.rootSite.marks pipeline = .ok ms :=
    View.marks_of_finished hb hf
  have hdata : t.rootSite.rootData pipeline =
      .ok (t.root.nodes.flatMap (fun n => pipeline.assemble n.data)) := by
    refine foldlM_append_of_ok (g := fun n : Node => pipeline.assemble n.data) ?_ []
    intro n hn done
    rw [View.dataOrError_of_finished hf hn]
    rfl
  unfold assemble Site.group
  rw [if_neg (not_not_intro hparsed)]
  dsimp only [pure_bind]
  rw [hdata, hmarks]
  exact ⟨_, rfl⟩

/-- With any pipeline, a built tree is assembled once all phases have run. -/
theorem Tree.assembled_of_build {t : Tree} {spec : Spec} {config : Config} {ds : List Diagnostic}
    (h : Tree.build spec config = .ok (t, ds)) {pipeline : Pipeline}
    (herror : (t.parse pipeline).error = none) :
    ∃ v, (t.parse pipeline).tree.assemble pipeline = .ok v := by
  rw [parse_of_build h] at herror ⊢
  have hparsed := parsed_of_ok [.data, .scale, .layoutSize, .selection, .markGroup,
    .axisAndHeader] .legend herror
  exact exists_assembled hparsed (built_of_build h pipeline Phase.all) (finished_of_build h herror)

end Trellis

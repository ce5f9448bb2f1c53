import Trellis.Proofs.Frames

/-! Facts on the components of every node of a tree: how a phase that runs from the leaves up
establishes them, and how the later phases keep them. -/
namespace Trellis

namespace Components

theorem without_data {phase : Phase} (h : phase ≠ .data) (k : Components) :
    (k.without phase).data = k.data := by
  cases phase with
  | data => exact absurd rfl h
  | _ => rfl

theorem without_scales {phase : Phase} (h : phase ≠ .scale) (k : Components) :
    (k.without phase).scales = k.scales := by
  cases phase with
  | scale => exact absurd rfl h
  | _ => rfl

theorem without_layoutSize {phase : Phase} (h : phase ≠ .layoutSize) (k : Components) :
    (k.without phase).layoutSize = k.layoutSize := by
  cases phase with
  | layoutSize => exact absurd rfl h
  | _ => rfl

theorem without_selection {phase : Phase} (h : phase ≠ .selection) (k : Components) :
    (k.without phase).selection = k.selection := by
  cases phase with
  | selection => exact absurd rfl h
  | _ => rfl

theorem without_mark {phase : Phase} (h : phase ≠ .markGroup) (k : Components) :
    (k.without phase).mark = k.mark := by
  cases phase with
  | markGroup => exact absurd rfl h
  | _ => rfl

theorem without_axes {phase : Phase} (h : phase ≠ .axisAndHeader) (k : Components) :
    (k.without phase).axes = k.axes := by
  cases phase with
  | axisAndHeader => exact absurd rfl h
  | _ => rfl

theorem without_headers {phase : Phase} (h : phase ≠ .axisAndHeader) (k : Components) :
    (k.without phase).headers = k.headers := by
  cases phase with
  | axisAndHeader => exact absurd rfl h
  | _ => rfl

end Components

/-- A fact on what has been worked out at a site. -/
abbrev Fact : Type := Site → Components → Prop

namespace Fact

/-- The fact does not look at what a phase writes at or around the site. -/
def SiteBlind (phase : Phase) (R : Fact) : Prop :=
  ∀ s k, R (s.updateAll (Components.without phase)) k ↔ R s k

/-- The fact is not about what a phase writes. -/
def OwnBlind (phase : Phase) (R : Fact) : Prop := ∀ s k, R s (k.without phase) ↔ R s k

/-- Both facts hold. -/
def both (R P : Fact) : Fact := fun s k => R s k ∧ P s k

/-- The node has come through a phase and no further. -/
def done (phase : Phase) : Fact := fun _ k => k.completed = some phase

theorem done_siteBlind (phase done : Phase) : (Fact.done done).SiteBlind phase :=
  fun _ _ => Iff.rfl

theorem SiteBlind.both {R P : Fact} {phase : Phase} (hR : R.SiteBlind phase)
    (hP : P.SiteBlind phase) : (R.both P).SiteBlind phase := by
  intro s k
  unfold Fact.both
  rw [hR, hP]

theorem OwnBlind.both {R P : Fact} {phase : Phase} (hR : R.OwnBlind phase)
    (hP : P.OwnBlind phase) : (R.both P).OwnBlind phase := by
  intro s k
  unfold Fact.both
  rw [hR, hP]

theorem SiteBlind.congr {R : Fact} {phase : Phase} (hR : R.SiteBlind phase) {s t : Site}
    (h : s.updateAll (Components.without phase) = t.updateAll (Components.without phase))
    (k : Components) : R s k ↔ R t k := by
  rw [← hR s, ← hR t, h]

end Fact

namespace View

/-- A fact holds at all sites of a view. -/
def Fits (R : Fact) (A : List Node) (v : View) : Prop := ∀ s ∈ v.sites A, R s s.node.components

variable {R P : Fact} {A B : List Node} {phase : Phase}

theorem fits_mk_iff {n : Node} {cs : List View} :
    Fits R A (mk n cs) ↔ R ⟨A, mk n cs⟩ n.components ∧ ∀ c ∈ cs, Fits R (n :: A) c := by
  unfold Fits
  constructor
  · intro h
    refine ⟨h _ (self_mem_sites A _), ?_⟩
    intro c hc s hs
    exact h s (mem_sites_mk.mpr (.inr ⟨c, hc, hs⟩))
  · rintro ⟨hself, hin⟩ s hs
    rcases mem_sites_mk.mp hs with rfl | ⟨c, hc, hs⟩
    · exact hself
    · exact hin c hc s hs

theorem Fits.self {v : View} (h : Fits R A v) : R ⟨A, v⟩ v.node.components :=
  h _ (self_mem_sites A v)

theorem fits_both_iff {v : View} : Fits (R.both P) A v ↔ Fits R A v ∧ Fits P A v :=
  ⟨fun h => ⟨fun s hs => (h s hs).1, fun s hs => (h s hs).2⟩, fun h s hs => ⟨h.1 s hs, h.2 s hs⟩⟩

theorem Fits.mono {v : View} (h : Fits R A v) (hi : ∀ s k, R s k → P s k) : Fits P A v :=
  fun s hs => hi s _ (h s hs)

/-- A fact holds at the sites under one where it holds at all. -/
theorem Fits.site {v : View} (h : Fits R A v) {s : Site} (hs : s ∈ v.sites A) :
    Fits R s.ancestors s.view :=
  fun t ht => h t (mem_sites_trans hs ht)

/-- Sites that agree but for one phase's part, in trees that do, come in pairs. -/
theorem exists_site_of_frame {g : Components → Components} {v w : View}
    (hA : A.map (Node.update · g) = B.map (Node.update · g)) (h : v.updateAll g = w.updateAll g)
    {s : Site} (hs : s ∈ v.sites A) : ∃ t ∈ w.sites B, t.updateAll g = s.updateAll g := by
  have hm : s.updateAll g ∈ (v.sites A).map (Site.updateAll g) := List.mem_map_of_mem hs
  rw [← sites_updateAll, h, hA, sites_updateAll] at hm
  exact List.mem_map.mp hm

/-- A fact that a phase neither writes nor looks at outlives it. -/
theorem Fits.carry (hs : R.SiteBlind phase) (ho : R.OwnBlind phase) {v w : View}
    (h : w.updateAll (Components.without phase) = v.updateAll (Components.without phase))
    (hv : Fits R A v) : Fits R A w := by
  intro s hsw
  obtain ⟨t, ht, he⟩ := exists_site_of_frame rfl h hsw
  have hn : t.node.components.without phase = s.node.components.without phase := by
    have hc := congrArg (fun x : Site => x.node.components) he
    simpa only [Site.node_updateAll, Node.update] using hc
  have hR := hv t ht
  -- the fact is led to the part that both sites share, and from there to the other site
  rw [← ho, ← hs, he, hn, hs, ho] at hR
  exact hR

theorem Fits.congr_ancestors (hR : R.SiteBlind phase)
    (hA : A.map (Node.update · (Components.without phase)) =
      B.map (Node.update · (Components.without phase))) {v : View} (h : Fits R A v) :
    Fits R B v := by
  induction v using induct generalizing A B with
  | h n cs ih =>
    obtain ⟨hself, hin⟩ := fits_mk_iff.mp h
    refine fits_mk_iff.mpr ⟨?_, ?_⟩
    · refine (hR.congr ?_ _).mp hself
      rw [Site.updateAll, Site.updateAll, hA]
    · intro c hc
      refine ih c hc ?_ (hin c hc)
      rw [List.map_cons, List.map_cons, hA]

/-- Below a node that changed only in what a phase writes, facts blind to that stay as they are. -/
theorem Fits.below (hR : R.SiteBlind phase) {n m : Node} {v : View}
    (hn : n.update (Components.without phase) = m.update (Components.without phase))
    (h : Fits R (n :: A) v) : Fits R (m :: A) v := by
  apply h.congr_ancestors hR
  rw [List.map_cons, List.map_cons, hn]

/-- A node and the views under it may change in what a phase writes, if the fact holds there
afterwards. -/
theorem fits_mk_of_frame (hR : R.SiteBlind phase) {n m : Node} {cs ds : List View}
    (hn : n.update (Components.without phase) = m.update (Components.without phase))
    (hcs : cs.map (updateAll (Components.without phase)) =
      ds.map (updateAll (Components.without phase)))
    (hself : R ⟨A, mk n cs⟩ m.components) (hin : ∀ d ∈ ds, Fits R (n :: A) d) :
    Fits R A (mk m ds) := by
  refine fits_mk_iff.mpr ⟨?_, ?_⟩
  · refine (hR.congr ?_ _).mp hself
    rw [Site.updateAll, Site.updateAll, updateAll_congr_mk hn hcs]
  · intro d hd
    exact (hin d hd).below hR hn

/-- A node may change in what a phase writes, if the fact holds there afterwards. -/
theorem fits_update (hR : R.SiteBlind phase) {f : Components → Components}
    (hf : ∀ k, (f k).without phase = k.without phase) {v : View}
    (hin : ∀ c ∈ v.children, Fits R (v.node :: A) c) (hv : R ⟨A, v⟩ (f v.node.components)) :
    Fits R A (v.update f) := by
  cases v with
  | mk n cs =>
    have hn : n.update (Components.without phase) =
        (n.update f).update (Components.without phase) :=
      congrArg (fun c : Components => ({ n with components := c } : Node)) (hf n.components).symm
    exact fits_mk_of_frame hR hn rfl hv hin

theorem Fits.children {v : View} (h : Fits R A v) : ∀ c ∈ v.children, Fits R (v.node :: A) c := by
  cases v with
  | mk n cs => exact (fits_mk_iff.mp h).2

/-! ### Runs -/

/-- Marks a phase as done. -/
def markDone (phase : Phase) (k : Components) : Components := { k with completed := some phase }

theorem update_update (f g : Components → Components) (v : View) :
    (v.update f).update g = v.update (g ∘ f) := by
  cases v
  rfl

/-- A step that only writes at its node establishes a fact there, and keeps it below. -/
theorem fits_own_step (hR : R.SiteBlind phase) {f : Components → Components}
    (hf : ∀ k, (f k).without phase = k.without phase) {s : Site}
    (hin : ∀ c ∈ s.view.children, Fits (R.both (.done phase)) s.lineage c)
    (hs : R s (markDone phase (f s.node.components))) :
    Fits (R.both (.done phase)) s.ancestors ((s.view.update f).update (markDone phase)) := by
  rw [update_update]
  refine fits_update (hR.both (Fact.done_siteBlind phase phase)) ?_ hin ⟨hs, rfl⟩
  intro k
  exact (Components.without_completed phase phase (f k)).trans (hf k)

theorem bottomUpIn_of_ok {step : Step} {cs : List View}
    (h : ∀ c ∈ cs, (c.bottomUp phase step B).error = none) :
    (bottomUpIn phase step B cs).error = none ∧
      (bottomUpIn phase step B cs).views = cs.map (fun c => (c.bottomUp phase step B).view) := by
  induction cs with
  | nil => exact ⟨rfl, rfl⟩
  | cons c rest ih =>
    obtain ⟨he, hv⟩ := ih (fun d hd => h d (List.mem_cons_of_mem _ hd))
    rw [bottomUpIn, h c List.mem_cons_self]
    refine ⟨he, ?_⟩
    rw [List.map_cons, ← hv]

/-- Where nothing fails below a node and its step succeeds, the step's view is marked as done. -/
theorem bottomUp_of_ok {step : Step} {n : Node} {cs : List View} {w : View} {ds : List Diagnostic}
    (h : ∀ c ∈ cs, (c.bottomUp phase step (n :: A)).error = none)
    (hstep : step A (mk n (cs.map (fun c => (c.bottomUp phase step (n :: A)).view))) =
      ⟨w, ds, none⟩) :
    ((mk n cs).bottomUp phase step A).error = none ∧
      ((mk n cs).bottomUp phase step A).view = w.update (markDone phase) := by
  obtain ⟨he, hv⟩ := bottomUpIn_of_ok h
  rw [bottomUp, he, hv]
  dsimp only
  rw [hstep]
  exact ⟨rfl, rfl⟩

/-- A step runs over the outcome below, which shows no other difference from the tree before than
the part of the phase. So what the step needs of its site still holds. -/
theorem site_of_bottomUp {step : Step}
    (hframe : ∀ A v, (step A v).view.updateAll (Components.without phase) =
      v.updateAll (Components.without phase))
    (hP : P.SiteBlind phase) {n : Node} {cs : List View} (h : P ⟨A, mk n cs⟩ n.components) :
    P ⟨A, mk n (cs.map (fun c => (c.bottomUp phase step (n :: A)).view))⟩ n.components := by
  have hsame : (mk n (cs.map (fun c => (c.bottomUp phase step (n :: A)).view))).updateAll
      (Components.without phase) = (mk n cs).updateAll (Components.without phase) := by
    apply updateAll_congr_mk rfl
    rw [List.map_map]
    exact List.map_congr_left (fun c _ => bottomUp_frame hframe (n :: A) c)
  refine (hP.congr ?_ n.components).mp h
  rw [Site.updateAll, Site.updateAll, hsame]

/-- What every step makes of its view, given the same of the views under it, a phase makes of all
views. What a step needs of its site it finds in the tree before the phase. -/
theorem bottomUp_makes {step : Step} {Q : List Node → View → Prop}
    (hframe : ∀ A v, (step A v).view.updateAll (Components.without phase) =
      v.updateAll (Components.without phase))
    (hP : P.SiteBlind phase)
    (hstep : ∀ A n ws, P ⟨A, mk n ws⟩ n.components → (∀ w ∈ ws, Q (n :: A) w) →
      ∃ w ds, step A (mk n ws) = ⟨w, ds, none⟩ ∧ Q A (w.update (markDone phase)))
    {v : View} (hv : Fits P A v) :
    (v.bottomUp phase step A).error = none ∧ Q A (v.bottomUp phase step A).view := by
  induction v using induct generalizing A with
  | h n cs ih =>
    obtain ⟨hself, hin⟩ := fits_mk_iff.mp hv
    let below := cs.map (fun c => (c.bottomUp phase step (n :: A)).view)
    have hbelow : ∀ w ∈ below, Q (n :: A) w :=
      List.forall_mem_map.mpr (fun c hc => (ih c hc (hin c hc)).2)
    obtain ⟨w, ds, hw, hmade⟩ := hstep A n below (site_of_bottomUp hframe hP hself) hbelow
    obtain ⟨herror, hview⟩ := bottomUp_of_ok (fun c hc => (ih c hc (hin c hc)).1) hw
    rw [hview]
    exact ⟨herror, hmade⟩

/-- A fact that every step establishes at its node, and keeps at those below, holds at all sites
after the phase. -/
theorem bottomUp_fits {step : Step}
    (hframe : ∀ A v, (step A v).view.updateAll (Components.without phase) =
      v.updateAll (Components.without phase))
    (hP : P.SiteBlind phase)
    (hstep : ∀ s : Site, P s s.node.components → (∀ c ∈ s.view.children, Fits R s.lineage c) →
      ∃ w ds, step s.ancestors s.view = ⟨w, ds, none⟩ ∧
        Fits R s.ancestors (w.update (markDone phase)))
    {v : View} (hv : Fits P A v) :
    (v.bottomUp phase step A).error = none ∧ Fits R A (v.bottomUp phase step A).view :=
  bottomUp_makes hframe hP (fun A n ws => hstep ⟨A, mk n ws⟩) hv

end View
end Trellis

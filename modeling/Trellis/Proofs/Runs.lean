import Trellis.Proofs.Known

/-! Runs with any data pipeline. Whatever it finds, the scales of a built tree get settled, and the
phases that may run afterwards leave them as they are. -/
namespace Trellis

namespace View

theorem describe_known (data : Site → DataComponent) (A : List Node) (v : View) :
    Fits (Fact.both (fun _ k => k.data.isSome = true) (.done .data)) A (v.describe data A) := by
  induction v using induct generalizing A with
  | h n cs ih =>
    rw [describe, describeIn_eq]
    let known : Fact := Fact.both (fun _ k => k.data.isSome = true) (.done .data)
    have hblind : known.SiteBlind .data := fun _ _ => Iff.rfl
    refine fits_mk_iff.mpr ⟨⟨rfl, rfl⟩, ?_⟩
    intro c hc
    obtain ⟨d, hd, rfl⟩ := List.mem_map.mp hc
    have hd' := ih d hd (n.update (fun k => { k with data := some (data ⟨A, mk n cs⟩) }) :: A)
    apply hd'.below hblind
    rfl

/-- Whatever data a pipeline finds, the sites are ready for their scales. -/
theorem describe_prepared {whole : Spec} {v : View} (h : Fits (BuiltBlank whole) [] v)
    (data : Site → DataComponent) : Fits (Prepared whole) [] (v.describe data []) := by
  have hbuilt : Fits (fun s _ => s.Built whole) [] (v.describe data []) :=
    (h.mono (fun _ _ hk => hk.1)).carry (built_siteBlind whole .data) (built_ownBlind whole .data)
      (describe_frame data [] v)
  have hdata := describe_known data [] v
  intro s hs
  obtain ⟨hsome, hdone⟩ := hdata s hs
  exact ⟨hbuilt s hs, hsome, hdone⟩

end View

theorem Phase.ne_of_rank_lt {earlier later : Phase} (h : earlier.rank < later.rank) :
    later ≠ earlier := by
  rintro rfl
  exact Nat.lt_irrefl _ h

/-- What is due has a higher rank than all that is done. -/
theorem Phase.rank_lt_of_due {done : Option Phase} {last phase : Phase}
    (hpast : Phase.covers done last = true) (hdue : Phase.due? done = some phase) :
    last.rank < phase.rank := by
  cases done with
  | none => exact absurd hpast Bool.false_ne_true
  | some d =>
    have hle : last.rank ≤ d.rank := of_decide_eq_true hpast
    have hnext : phase.rank = d.rank + 1 := by
      cases d with
      | legend => exact absurd hdue (by simp [due?, next?])
      | _ =>
        obtain rfl := Option.some.inj hdue
        rfl
    omega

namespace Tree

/-- The phases of a list run on after those of another one, if these succeed. -/
theorem runPhases_append (pipeline : Pipeline) {before : List Phase} (after : List Phase) {t : Tree}
    (h : (t.runPhases pipeline before).error = none) :
    (t.runPhases pipeline (before ++ after)).error =
        ((t.runPhases pipeline before).tree.runPhases pipeline after).error ∧
      (t.runPhases pipeline (before ++ after)).tree =
        ((t.runPhases pipeline before).tree.runPhases pipeline after).tree := by
  induction before generalizing t with
  | nil => exact ⟨rfl, rfl⟩
  | cons phase rest ih =>
    rw [List.cons_append, runPhases, runPhases]
    rw [runPhases] at h
    cases he : (t.runPhase pipeline phase).error with
    | some e =>
      rw [he] at h
      exact absurd (he.symm.trans h) (by simp)
    | none =>
      rw [he] at h
      exact ih h

theorem runPhases_singleton (pipeline : Pipeline) (phase : Phase) (t : Tree) :
    t.runPhases pipeline [phase] = t.runPhase pipeline phase := by
  rw [runPhases]
  cases he : (t.runPhase pipeline phase).error with
  | some e => rfl
  | none =>
    dsimp only [runPhases]
    rw [List.append_nil, ← he]

theorem runPhases_append_diagnostics (pipeline : Pipeline) {before : List Phase}
    (after : List Phase) {t : Tree} (h : (t.runPhases pipeline before).error = none) :
    (t.runPhases pipeline (before ++ after)).diagnostics =
      (t.runPhases pipeline before).diagnostics ++
        ((t.runPhases pipeline before).tree.runPhases pipeline after).diagnostics := by
  induction before generalizing t with
  | nil => rfl
  | cons phase rest ih =>
    rw [List.cons_append, runPhases, runPhases]
    rw [runPhases] at h
    cases he : (t.runPhase pipeline phase).error with
    | some e =>
      rw [he] at h
      exact absurd (he.symm.trans h) (by simp)
    | none =>
      rw [he] at h
      dsimp only at h ⊢
      rw [ih h, List.append_assoc]

/-- A phase that is due after those of a list, and does not fail, moves the tree on. -/
theorem runPhases_next (pipeline : Pipeline) (before : List Phase) (phase : Phase) {t next : Tree}
    (h : (t.runPhases pipeline before).error = none)
    (htree : (t.runPhases pipeline before).tree = next)
    (hdue : Phase.due? next.parsed = some phase)
    (hphase : (next.root.runPhase pipeline next.config next.data phase).error = none) :
    (t.runPhases pipeline (before ++ [phase])).error = none ∧
      (t.runPhases pipeline (before ++ [phase])).tree =
        { next with
          root := (next.root.runPhase pipeline next.config next.data phase).view
          parsed := some phase } := by
  have hrun : next.runPhase pipeline phase =
      ⟨{ next with
          root := (next.root.runPhase pipeline next.config next.data phase).view
          parsed := some phase },
        (next.root.runPhase pipeline next.config next.data phase).diagnostics, none⟩ := by
    rw [runPhase, if_neg (not_not_intro hdue)]
    dsimp only
    rw [hphase]
    rfl
  obtain ⟨herror, hlast⟩ := runPhases_append pipeline [phase] h
  rw [htree, runPhases, hrun] at herror hlast
  exact ⟨herror, hlast⟩

theorem runPhase_strip (pipeline : Pipeline) (phase : Phase) (t : Tree) :
    (t.runPhase pipeline phase).tree.root.strip = t.root.strip := by
  unfold runPhase
  split
  · rfl
  · exact View.strip_of_frame (View.runPhase_frame pipeline t.config t.data t.root phase)

/-- What one phase leaves as it is, a run leaves as it is. -/
theorem runPhases_same {α : Type} {pipeline : Pipeline} (f : Tree → α)
    (h : ∀ t phase, f (t.runPhase pipeline phase).tree = f t) (phases : List Phase) (t : Tree) :
    f (t.runPhases pipeline phases).tree = f t := by
  induction phases generalizing t with
  | nil => rfl
  | cons phase rest ih =>
    have hfirst := h t phase
    rw [runPhases]
    cases (t.runPhase pipeline phase).error with
    | some e => exact hfirst
    | none => exact (ih _).trans hfirst

theorem runPhases_strip (pipeline : Pipeline) (phases : List Phase) (t : Tree) :
    (t.runPhases pipeline phases).tree.root.strip = t.root.strip :=
  runPhases_same (fun t => t.root.strip) (fun t phase => runPhase_strip pipeline phase t) phases t

theorem runPhases_config (pipeline : Pipeline) (phases : List Phase) (t : Tree) :
    (t.runPhases pipeline phases).tree.config = t.config := by
  refine runPhases_same Tree.config ?_ phases t
  intro t phase
  unfold runPhase
  split <;> rfl

theorem runPhases_data (pipeline : Pipeline) (phases : List Phase) (t : Tree) :
    (t.runPhases pipeline phases).tree.data = t.data := by
  refine runPhases_same Tree.data ?_ phases t
  intro t phase
  unfold runPhase
  split <;> rfl

/-- What every phase after some phase keeps of a view, a run that is past that phase keeps. -/
theorem runPhases_past {Q : View → Prop} {last : Phase} {pipeline : Pipeline}
    (hQ : ∀ phase, last.rank < phase.rank → ∀ config input v, Q v →
      Q (v.runPhase pipeline config input phase).view)
    (phases : List Phase) {t : Tree} (hpast : Phase.covers t.parsed last = true) (h : Q t.root) :
    Q (t.runPhases pipeline phases).tree.root := by
  induction phases generalizing t with
  | nil => exact h
  | cons phase rest ih =>
    rw [runPhases]
    by_cases hdue : Phase.due? t.parsed = some phase
    · have hlater : last.rank < phase.rank := Phase.rank_lt_of_due hpast hdue
      have hkept : Q (t.runPhase pipeline phase).tree.root := by
        rw [runPhase, if_neg (not_not_intro hdue)]
        exact hQ phase hlater t.config t.data t.root h
      cases he : (t.runPhase pipeline phase).error with
      | some e => exact hkept
      | none =>
        refine ih ?_ hkept
        rw [runPhase, if_neg (not_not_intro hdue)] at he ⊢
        dsimp only at he ⊢
        rw [he]
        exact decide_eq_true (Nat.le_of_lt hlater)
    · have hrefused : t.runPhase pipeline phase =
          ⟨t, [], some (.phase (.outOfOrder phase (Phase.due? t.parsed)))⟩ := by
        rw [runPhase, if_pos hdue]
      rw [hrefused]
      exact h

/-- A fact that no phase after some phase touches is kept by all that may still run. -/
theorem runPhases_keep {R : Fact} {last : Phase}
    (hsite : ∀ phase, last.rank < phase.rank → R.SiteBlind phase)
    (hown : ∀ phase, last.rank < phase.rank → R.OwnBlind phase) (pipeline : Pipeline)
    (phases : List Phase) {t : Tree} (hpast : Phase.covers t.parsed last = true)
    (h : View.Fits R [] t.root) :
    View.Fits R [] (t.runPhases pipeline phases).tree.root := by
  refine runPhases_past (Q := View.Fits R []) ?_ phases hpast h
  intro phase hlater config input v hv
  exact hv.carry (hsite phase hlater) (hown phase hlater)
    (View.runPhase_frame pipeline config input v phase)

variable {spec : Spec} {config : Config} {t : Tree} {ds : List Diagnostic}

/-- On a built tree no phase has run yet. -/
theorem parse_of_build (h : Tree.build spec config = .ok (t, ds)) (pipeline : Pipeline) :
    t.parse pipeline = t.runPhases pipeline Phase.all := by
  obtain ⟨⟨hparsed, -, -⟩, -⟩ := Tree.build_ok (G := fun _ => True) h
  unfold parse remaining
  rw [hparsed]
  rfl

/-- On a built tree the first two phases succeed with any pipeline, and settle the scales. -/
theorem runPhases_scale (h : Tree.build spec config = .ok (t, ds)) (pipeline : Pipeline) :
    (t.runPhases pipeline [.data, .scale]).error = none ∧
      ∃ v, View.Fits (View.Prepared spec) [] v ∧
        (t.runPhases pipeline [.data, .scale]).tree =
          { t with root := v.settle config [] .empty [], parsed := some .scale } := by
  obtain ⟨⟨hparsed, hbuilt, -⟩, -, hconfig, -⟩ := Tree.build_ok (G := fun _ => True) h
  let v := t.root.describe (pipeline.parse t.data) []
  have hready : View.Fits (View.Prepared spec) [] v := View.describe_prepared hbuilt _
  have hdue : Phase.due? t.parsed = some .data := by
    rw [hparsed]
    rfl
  obtain ⟨hdata, htree⟩ := runPhases_next pipeline [] .data rfl rfl hdue rfl
  obtain ⟨hsettled, hview⟩ := View.bottomUp_scale t.config hready
  obtain ⟨hscale, hlast⟩ := runPhases_next pipeline [.data] .scale hdata htree rfl hsettled
  refine ⟨hscale, v, hready, ?_⟩
  rw [← hconfig, ← hview]
  exact hlast

/-- The views once the scales are there, with any pipeline and after any phases that follow. -/
def afterScales (t : Tree) (pipeline : Pipeline) (later : List Phase) : View :=
  (t.runPhases pipeline (.data :: .scale :: later)).tree.root

/-- A fact that settling the scales establishes holds with any pipeline, also after more phases. -/
theorem fits_of_build {R : Fact} (hsite : ∀ phase, phase ≠ .data → phase ≠ .scale →
      R.SiteBlind phase) (hown : ∀ phase, phase ≠ .data → phase ≠ .scale → R.OwnBlind phase)
    (hsettle : ∀ v, View.Fits (View.Prepared spec) [] v →
      View.Fits R [] (v.settle config [] .empty []))
    (h : Tree.build spec config = .ok (t, ds)) (pipeline : Pipeline) (later : List Phase) :
    View.Fits R [] (t.afterScales pipeline later) := by
  obtain ⟨herror, v, hready, hscaled⟩ := runPhases_scale h pipeline
  have htree : (t.runPhases pipeline (.data :: .scale :: later)).tree =
      ((t.runPhases pipeline [.data, .scale]).tree.runPhases pipeline later).tree :=
    (runPhases_append pipeline later herror).2
  have hdata (phase : Phase) (hlater : Phase.scale.rank < phase.rank) : phase ≠ .data :=
    Phase.ne_of_rank_lt (Nat.lt_trans (by decide) hlater)
  rw [afterScales, htree]
  refine runPhases_keep (fun phase hl => hsite phase (hdata phase hl) (Phase.ne_of_rank_lt hl))
    (fun phase hl => hown phase (hdata phase hl) (Phase.ne_of_rank_lt hl)) pipeline later ?_ ?_
  · rw [hscaled]
    rfl
  · rw [hscaled]
    exact hsettle v hready

/-- No phase touches what building made of the sites. -/
theorem built_of_build (h : Tree.build spec config = .ok (t, ds)) (pipeline : Pipeline)
    (phases : List Phase) :
    View.Fits (fun s _ => s.Built spec) [] (t.runPhases pipeline phases).tree.root := by
  obtain ⟨⟨-, hbuilt, -⟩, -⟩ := Tree.build_ok (G := fun _ => True) h
  have hstrip (v : View) : View.Fits (fun s _ => s.Built spec) [] v.strip ↔
      View.Fits (fun s _ => s.Built spec) [] v := by
    have hsites : v.strip.sites [] = (v.sites []).map (Site.updateAll (fun _ => .empty)) :=
      View.sites_updateAll _ [] v
    unfold View.Fits
    rw [hsites, List.forall_mem_map]
    simp only [Site.built_updateAll]
  rw [← hstrip, runPhases_strip, hstrip]
  exact hbuilt.mono (fun _ _ hk => hk.1)

theorem runPhases_names (h : Tree.build spec config = .ok (t, ds)) (pipeline : Pipeline)
    (phases : List Phase) :
    ((t.runPhases pipeline phases).tree.root.nodes.map Node.name).Nodup := by
  obtain ⟨-, hnames, -⟩ := Tree.build_ok (G := fun _ => True) h
  rw [← View.strip_names, runPhases_strip]
  exact hnames

theorem names_of_build (h : Tree.build spec config = .ok (t, ds)) (pipeline : Pipeline)
    (later : List Phase) : ((t.afterScales pipeline later).nodes.map Node.name).Nodup :=
  runPhases_names h pipeline _

end Tree

end Trellis

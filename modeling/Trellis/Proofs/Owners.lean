import Trellis.Proofs.Cells
import Trellis.Proofs.Runs

/-! Who holds the scale that a unit uses. Going up from the unit, the nodes that share the scales of
the channel hand its scale on, and the last of them holds it. -/
namespace Trellis

namespace Site

/-- How many of the nodes above a site share an aspect of a channel, from the nearest on and without
a gap. -/
def climb (aspect : Aspect) (s : Site) (c : Channel) : Nat :=
  (s.ancestors.takeWhile (fun n => n.resolve.shares aspect c)).length

/-- The node right above a site shares an aspect of a channel. -/
def handsOn (aspect : Aspect) (s : Site) (c : Channel) : Bool :=
  s.ancestors.head?.any (fun n => n.resolve.shares aspect c)

theorem climb_child {aspect : Aspect} {s : Site} {c : Channel}
    (h : s.node.resolve.shares aspect c = true) (w : View) :
    climb aspect ⟨s.lineage, w⟩ c = s.climb aspect c + 1 := by
  have hnext : s.lineage.takeWhile (fun n => n.resolve.shares aspect c) =
      s.node :: s.ancestors.takeWhile (fun n => n.resolve.shares aspect c) :=
    List.takeWhile_cons_of_pos h
  unfold climb
  rw [hnext, List.length_cons]

theorem climb_of_apart {aspect : Aspect} {s : Site} {c : Channel} (h : s.handsOn aspect c = false) :
    s.climb aspect c = 0 := by
  obtain ⟨B, w⟩ := s
  unfold climb
  cases B with
  | nil => rfl
  | cons n rest =>
    have hn : n.resolve.shares aspect c = false := h
    have hstop : (n :: rest).takeWhile (fun n => n.resolve.shares aspect c) = [] :=
      List.takeWhile_cons_of_neg (Bool.eq_false_iff.mp hn)
    dsimp only
    rw [hstop, List.length_nil]

/-- A scale for a channel is held at one place on the way up, and nowhere below that. -/
structure HeldAt (s : Site) (c : Channel) (o : Site) : Prop where
  lineage_eq : o.lineage = s.lineage.drop (s.climb .scale c)
  below : s ∈ o.preOrder
  held : o.node.components.scales.contains c = true
  free : ∀ n ∈ s.lineage.take (s.climb .scale c), n.components.scales.contains c = false

theorem HeldAt.getElem? {s o : Site} {c : Channel} (h : s.HeldAt c o) :
    s.lineage[s.climb .scale c]? = some o.node := by
  have hdrop : (s.lineage.drop (s.climb .scale c))[0]? = s.lineage[s.climb .scale c]? := by
    rw [List.getElem?_drop, Nat.add_zero]
  rw [← hdrop, ← h.lineage_eq]
  rfl

/-- The search for the scale in use stops at the first node that holds one. -/
theorem HeldAt.scaleOwner? {s o : Site} {c : Channel} (h : s.HeldAt c o) (hc : c.primary = c) :
    s.scaleOwner? c = some o.node := by
  have hsplit : s.lineage = s.lineage.take (s.climb .scale c) ++ o.node :: o.ancestors := by
    calc s.lineage = s.lineage.take (s.climb .scale c) ++ s.lineage.drop (s.climb .scale c) :=
          (List.take_append_drop _ _).symm
      _ = s.lineage.take (s.climb .scale c) ++ o.node :: o.ancestors := by rw [← h.lineage_eq]; rfl
  have hfree : (s.lineage.take (s.climb .scale c)).find?
      (fun n => n.components.scales.contains c) = none := by
    rw [List.find?_eq_none]
    intro n hn
    rw [h.free n hn]
    exact Bool.false_ne_true
  unfold Site.scaleOwner?
  rw [hc, hsplit, List.find?_append, hfree, Option.none_or]
  exact List.find?_cons_of_pos h.held

end Site

/-- Where a site offers a scale, that is held where the sharing above the site ends. Nothing above
the topmost view matters if the scale does not leave it. -/
theorem exists_heldAt {whole : Spec} {A : List Node} {v : View} (h : View.Fits View.Holds A v)
    (hb : View.Fits (fun s _ => s.Built whole) A v) {c : Channel}
    (hc : c ∈ Channel.scaleChannels) (hA : View.takenAbove A c = false) {s : Site}
    (hs : s ∈ v.sites A) (hf : (s.view.feeders c).isSome = true) :
    ∃ o ∈ v.sites A, s.HeldAt c o := by
  have hscale : c.hasScale = true := List.contains_iff_mem.mpr hc
  -- a view that offers a scale holds it, if the node above leaves it there
  have hkept {B : List Node} {w : View} (hw : ⟨B, w⟩ ∈ v.sites A)
      (hB : View.takenAbove B c = false) (hfw : (w.feeders c).isSome = true) :
      Site.HeldAt ⟨B, w⟩ c ⟨B, w⟩ := by
    have hholds : w.node.components.scales.contains c =
        (c.hasScale && (w.feeders c).isSome && !View.takenAbove B c) := h _ hw c
    rw [hscale, hfw, hB] at hholds
    have hclimb : Site.climb .scale ⟨B, w⟩ c = 0 := Site.climb_of_apart hB
    refine ⟨?_, View.self_mem_sites _ _, hholds, ?_⟩
    · rw [hclimb, List.drop_zero]
    · intro n hn
      rw [hclimb, List.take_zero] at hn
      exact absurd hn List.not_mem_nil
  revert hf
  -- from the top down: a site holds the scale itself, or its scale is that of the node above
  refine View.sites_induct (Q := fun s => (s.view.feeders c).isSome = true →
    ∃ o ∈ v.sites A, s.HeldAt c o) ?_ ?_ s hs
  · intro hf
    exact ⟨_, View.self_mem_sites A v, hkept (View.self_mem_sites A v) hA hf⟩
  · intro t ht hup w hw hf
    have hchild : ⟨t.lineage, w⟩ ∈ v.sites A := View.child_mem_sites ht hw
    have htaken : View.takenAbove t.lineage c = t.node.resolve.shares .scale c := rfl
    cases hshare : t.node.resolve.shares .scale c with
    | false => exact ⟨_, hchild, hkept hchild (htaken.trans hshare) hf⟩
    | true =>
      have hholds : w.node.components.scales.contains c =
          (c.hasScale && (w.feeders c).isSome && !View.takenAbove t.lineage c) := h _ hchild c
      rw [htaken, hshare, Bool.not_true, Bool.and_false] at hholds
      have hclimb := Site.climb_child hshare w
      have hunit : t.node.isUnit = false := by
        rw [Bool.eq_false_iff]
        intro hu
        exact absurd ((hb t ht).unit_leaf hu ▸ hw) List.not_mem_nil
      have hft : (t.view.feeders c).isSome = true := by
        obtain ⟨B, x⟩ := t
        cases x with
        | mk n cs => exact View.feeders_of_child hunit hw hshare hf
      obtain ⟨o, ho, hlineage, hbelow, hheld, hfree⟩ := hup hft
      refine ⟨o, ho, ?_, View.child_mem_sites hbelow hw, hheld, ?_⟩
      · rw [hclimb]
        exact hlineage
      · intro n hn
        rw [hclimb] at hn
        -- the site itself has handed its scale on, and so have those up to the holder
        rcases List.mem_cons.mp hn with rfl | hn
        · exact hholds
        · exact hfree n hn

namespace Site

/-- The site is a unit that shows a field on a channel, or on the far end of it. -/
def encodes (s : Site) (c : Channel) : Bool :=
  s.node.unit?.any (fun u => (u.positionFieldDef? c).isSome)

theorem exists_unit_of_encodes {s : Site} {c : Channel} (h : s.encodes c = true) :
    ∃ u, s.node.kind = .unit u ∧ (u.positionFieldDef? c).isSome = true := by
  obtain ⟨u, hu, hf⟩ := (Option.any_eq_true _ _).mp h
  exact ⟨u, Node.kind_of_unit? hu, hf⟩

theorem feeders_of_encodes {s : Site} {c : Channel} (h : s.encodes c = true) :
    (s.view.feeders c).isSome = true := by
  obtain ⟨u, hk, hf⟩ := exists_unit_of_encodes h
  obtain ⟨A, v⟩ := s
  cases v with
  | mk n cs => exact (feeders_unit hk c).trans hf

end Site

namespace Tree

variable {spec : Spec} {config : Config} {t : Tree} {ds : List Diagnostic}

theorem holds_of_build (h : Tree.build spec config = .ok (t, ds)) (pipeline : Pipeline)
    (later : List Phase) : View.Fits View.Holds [] (t.afterScales pipeline later) := by
  refine fits_of_build ?_ ?_ ?_ h pipeline later
  · exact fun phase _ _ => View.holds_siteBlind phase
  · exact fun _ _ hs => View.holds_ownBlind hs
  · exact fun v _ => View.settle_holds (fun _ => rfl)

/-- With any pipeline, and after any phases once the scales are there, the scale of a unit for a
channel is held by the last node up to which all share it, and by none before; so the units below
that node name it alike. -/
theorem scaleOwner_of_build (h : Tree.build spec config = .ok (t, ds)) (pipeline : Pipeline)
    (later : List Phase) :
    (t.runPhases pipeline [.data, .scale]).error = none ∧
      ∀ s ∈ (t.afterScales pipeline later).sites [], ∀ c ∈ Channel.scaleChannels,
        s.encodes c = true → ∃ o, s.lineage[s.climb .scale c]? = some o ∧
          o.components.scales.contains c = true ∧
          (∀ n ∈ s.lineage.take (s.climb .scale c), n.components.scales.contains c = false) ∧
          s.scaleOwner? c = some o ∧
          ∀ r ∈ (t.afterScales pipeline later).sites [], r.encodes c = true →
            r.lineage[r.climb .scale c]? = some o → r.scaleName c = o.qualify c.name := by
  have hbuilt := built_of_build h pipeline (.data :: .scale :: later)
  have hholds := holds_of_build h pipeline later
  refine ⟨(runPhases_scale h pipeline).1, ?_⟩
  intro s hs c hc hencodes
  have hprimary := primary_of_scaleChannel c hc
  obtain ⟨o, -, hat⟩ := exists_heldAt hholds hbuilt hc rfl hs (Site.feeders_of_encodes hencodes)
  refine ⟨o.node, hat.getElem?, hat.held, hat.free, hat.scaleOwner? hprimary, ?_⟩
  intro r hr hrencodes hro
  obtain ⟨p, -, hrat⟩ := exists_heldAt hholds hbuilt hc rfl hr (Site.feeders_of_encodes hrencodes)
  have hsame : p.node = o.node := Option.some.inj (hrat.getElem?.symm.trans hro)
  rw [Site.scaleName, hrat.scaleOwner? hprimary, hsame, hprimary]
  rfl

/-- In three nested facets of which the middle one keeps scales apart, the points use the scale of
the innermost one. -/
theorem scaleOwner_of_build_nestedRows : ∃ t ds, Tree.build .nestedRows .default = .ok (t, ds) ∧
    (t.runPhases .standard [.data, .scale]).error = none ∧
    ∃ s ∈ (t.afterScales .standard [.layoutSize]).sites [],
      s.encodes .x = true ∧ s.climb .scale .x = 1 ∧ ∃ o, s.lineage[1]? = some o ∧
        s.scaleOwner? .x = some o ∧ s.scaleName .x = o.qualify "x" := by
  have hunit : (Tree.build .nestedRows .default).toOption.any (fun r =>
      ((r.1.afterScales .standard [.layoutSize]).sites []).any (fun s =>
        s.encodes .x && s.climb .scale .x == 1)) = true := by
    decide +kernel
  obtain ⟨t, ds, hb⟩ := exists_build_nestedRows
  rw [hb] at hunit
  obtain ⟨s, hs, hunit⟩ := List.any_eq_true.mp hunit
  obtain ⟨hencodes, hclimb⟩ := Bool.and_eq_true_iff.mp hunit
  have hone : s.climb .scale .x = 1 := beq_iff_eq.mp hclimb
  obtain ⟨herror, howners⟩ := scaleOwner_of_build hb .standard [.layoutSize]
  obtain ⟨o, ho, -, -, howner, hnames⟩ := howners s hs .x (by decide) hencodes
  have hname : s.scaleName .x = o.qualify "x" := hnames s hs hencodes ho
  rw [hone] at ho
  exact ⟨t, ds, hb, herror, s, hs, hencodes, hone, o, ho, howner, hname⟩

end Tree
end Trellis

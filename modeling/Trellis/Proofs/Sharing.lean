import Trellis.Proofs.Entries
import Trellis.Resolve

/-! Decisions on sharing: on a layer or facet, a shared guide always shows a shared scale. -/
namespace Trellis.Resolve

/-- Where the guide of a channel is shared, so is the scale that it shows. -/
def GuideFollows (r : Resolve) (c : Channel) : Prop :=
  r.shares (guideAspect c) c = true → r.shares .scale c = true

theorem get_set (r : Resolve) (a b : Aspect) (c d : Channel) (x : Resolution) :
    (r.set a c x).get b d = if a = b ∧ d.primary = c.primary then x else r.get b d := by
  unfold get set of Dict.getD
  cases a <;> cases b <;> by_cases hd : d.primary = c.primary <;> simp [hd]

theorem guideAspect_ne_scale (c : Channel) : guideAspect c ≠ .scale := by
  unfold guideAspect
  split
  · simp
  · simp

/-- A scale is shared unless asked otherwise; its guide is kept apart with it, and shared unless
asked otherwise. -/
theorem settle_fst (asked r : Resolve) (c : Channel) :
    (settle asked r c).1 =
      (r.set .scale c (asked.scale.getD c .shared)).set (guideAspect c) c
        (if asked.scale.getD c .shared = .independent then .independent
          else ((asked.of (guideAspect c)).get? c).getD .shared) := by
  unfold settle
  cases asked.scale.getD c .shared with
  | shared => rfl
  | independent =>
    rcases (asked.of (guideAspect c)).get? c with _ | guide
    · rfl
    · cases guide <;> rfl

theorem settle_self (asked r : Resolve) (c : Channel) :
    (settle asked r c).1.GuideFollows c := by
  -- the guide is settled after the scale, and is a decision of its own, so it leaves the scale
  -- alone
  have hscale (guide : Resolution) :
      ((r.set .scale c (asked.scale.getD c .shared)).set (guideAspect c) c guide).get .scale c =
        asked.scale.getD c .shared := by
    rw [get_set, if_neg (fun h => guideAspect_ne_scale c h.1), get_set, if_pos ⟨rfl, rfl⟩]
  unfold GuideFollows shares
  rw [settle_fst, hscale, get_set, if_pos ⟨rfl, rfl⟩]
  cases asked.scale.getD c .shared with
  | shared => simp
  | independent => simp

/-- Settling one channel leaves the others as they are. -/
theorem settle_other (asked r : Resolve) {c d : Channel} (h : d.primary ≠ c.primary) (a : Aspect) :
    (settle asked r c).1.get a d = r.get a d := by
  rw [settle_fst, get_set, get_set, if_neg (fun hc => h hc.2), if_neg (fun hc => h hc.2)]

/-- One round of settling: the decisions so far and what was reported. -/
def settleNext (asked : Resolve) (done : Resolve × List Diagnostic) (c : Channel) :
    Resolve × List Diagnostic :=
  ((settle asked done.1 c).1, done.2 ++ (settle asked done.1 c).2)

theorem foldl_settle_follows (asked : Resolve) {cs : List Channel} (hcs : ∀ c ∈ cs, c.primary = c)
    (done : Resolve × List Diagnostic) {d : Channel} (hd : d.primary = d)
    (h : d ∈ cs ∨ done.1.GuideFollows d) :
    (cs.foldl (settleNext asked) done).1.GuideFollows d := by
  -- a channel is settled in its own round, and no later round touches it
  induction cs generalizing done with
  | nil => exact h.elim (fun hm => absurd hm List.not_mem_nil) id
  | cons c rest ih =>
    rw [List.foldl_cons]
    apply ih (fun e he => hcs e (List.mem_cons_of_mem _ he))
    by_cases he : d = c
    · subst he
      exact .inr (settle_self asked done.1 d)
    · rcases h with hm | hr
      · exact .inl ((List.mem_cons.mp hm).resolve_left he)
      · right
        have hp : d.primary ≠ c.primary := by
          rw [hd, hcs c List.mem_cons_self]
          exact he
        unfold GuideFollows shares settleNext at *
        rw [settle_other asked done.1 hp, settle_other asked done.1 hp]
        exact hr

/-- A layer or facet never shares a guide over scales that it keeps apart. -/
theorem composite_follows (asked : Resolve) {c : Channel} (h : c ∈ Channel.scaleChannels) :
    asked.composite.1.GuideFollows c := by
  have hprimary : ∀ d ∈ Channel.scaleChannels, d.primary = d := by decide
  exact foldl_settle_follows asked hprimary (empty, []) (hprimary c h) (.inl h)

end Trellis.Resolve

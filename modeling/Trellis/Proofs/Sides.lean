import Trellis.Proofs.Axes

/-! The sides of axes. Of the axes that a layer leaves on the views under it, the first on each side
stays there and the later ones go to the opposite side, so axes along two opposite sides never crowd
on one of them. -/
namespace Trellis

theorem Orient.opposite_opposite (o : Orient) : o.opposite.opposite = o := by
  cases o <;> rfl

theorem Orient.opposite_ne (o : Orient) : o.opposite ≠ o := by
  cases o <;> decide

namespace Axis

/-- The axis is on a side or on the one opposite to it. -/
def along (o : Orient) (a : Axis) : Bool := a.orient = o || a.orient = o.opposite

/-- The axis is on a side. -/
def on (o : Orient) (a : Axis) : Bool := a.orient = o

theorem along_iff {o : Orient} {a : Axis} :
    a.along o = true ↔ a.orient = o ∨ a.orient = o.opposite := by
  rw [along, Bool.or_eq_true, decide_eq_true_iff, decide_eq_true_iff]

theorem Turned.along_eq {a b : Axis} (h : a.Turned b) (o : Orient) : a.along o = b.along o := by
  rcases h with rfl | rfl
  · rfl
  · unfold along
    cases b.orient <;> cases o <;> rfl

theorem countP_along (o : Orient) (axes : List Axis) :
    axes.countP (along o) = axes.countP (on o) + axes.countP (on o.opposite) := by
  induction axes with
  | nil => rfl
  | cons a rest ih =>
    rw [List.countP_cons, List.countP_cons, List.countP_cons, ih]
    unfold along on
    have hne := o.opposite_ne
    by_cases h : a.orient = o
    · simp only [h, hne.symm, decide_true, decide_false, Bool.or_false, Bool.false_eq_true, if_true,
        if_false]
      omega
    · simp only [h, decide_false, Bool.false_or, decide_eq_true_eq, Bool.false_eq_true, if_false]
      omega

end Axis

/-- Axes before and after they are spread over the sides. Each keeps its place and all but its side,
and the first on a side stays there. Where there are two or more along opposite sides, both sides
have one; where there are just two, each side has just one. -/
structure Spread (before after : List Axis) : Prop where
  turned : List.Forall₂ Axis.Turned after before
  first : ∀ earlier a later, before = earlier ++ a :: later →
    (∀ b ∈ earlier, b.orient ≠ a.orient) → after[earlier.length]? = some a
  both : ∀ o, 2 ≤ before.countP (Axis.along o) →
    (∃ a ∈ after, a.orient = o) ∧ ∃ a ∈ after, a.orient = o.opposite
  one : ∀ o, before.countP (Axis.along o) = 2 → after.countP (Axis.on o) = 1

namespace SideCount

theorem get_zero (o : Orient) : zero.get o = 0 := by
  cases o <;> rfl

theorem get_add (n : SideCount) (o p : Orient) :
    (n.add p).get o = n.get o + if p = o then 1 else 0 := by
  cases o <;> cases p <;> rfl

theorem placeAll_cons (n : SideCount) (a : Axis) (rest : List Axis) : n.placeAll (a :: rest) =
    (((n.add a.orient).placeAll rest).1, (n.place a).2 :: ((n.add a.orient).placeAll rest).2) := rfl

/-- A list may be placed in parts, as the count goes on from one to the next. -/
theorem placeAll_append (n : SideCount) (axes more : List Axis) : n.placeAll (axes ++ more) =
    (((n.placeAll axes).1.placeAll more).1,
      (n.placeAll axes).2 ++ ((n.placeAll axes).1.placeAll more).2) := by
  induction axes generalizing n with
  | nil => rfl
  | cons a rest ih =>
    rw [List.cons_append, placeAll_cons, placeAll_cons, ih]
    rfl

/-- The count is by the sides on which axes are met, not by those on which they are put. -/
theorem get_placeAll (n : SideCount) (axes : List Axis) (o : Orient) :
    (n.placeAll axes).1.get o = n.get o + axes.countP (Axis.on o) := by
  induction axes generalizing n with
  | nil => rfl
  | cons a rest ih =>
    rw [placeAll_cons, ih, get_add, List.countP_cons, Axis.on]
    by_cases h : a.orient = o
    · simp only [h, if_true, decide_true]
      omega
    · simp only [h, if_false, decide_false, Bool.false_eq_true]
      omega

/-- What becomes of an axis is decided by those before it. -/
theorem placeAll_getElem? (n : SideCount) (earlier : List Axis) (a : Axis) (later : List Axis) :
    (n.placeAll (earlier ++ a :: later)).2[earlier.length]? =
      some ((n.placeAll earlier).1.place a).2 := by
  have hlength : (n.placeAll earlier).2.length = earlier.length :=
    (placeAll_turned n earlier).length_eq
  rw [placeAll_append, placeAll_cons, ← hlength, List.getElem?_append_right (Nat.le_refl _),
    Nat.sub_self]
  rfl

/-- The first axis on a side stays there. -/
theorem placeAll_first {earlier : List Axis} {a : Axis} (later : List Axis)
    (h : ∀ b ∈ earlier, b.orient ≠ a.orient) :
    (zero.placeAll (earlier ++ a :: later)).2[earlier.length]? = some a := by
  have hnone : earlier.countP (Axis.on a.orient) = 0 :=
    List.countP_eq_zero.mpr (fun b hb hon => h b hb (of_decide_eq_true hon))
  rw [placeAll_getElem?, place, get_placeAll, get_zero, hnone]
  rfl

/-- A later axis on a side goes to the opposite side. -/
theorem placeAll_later {earlier : List Axis} {a b : Axis} (later : List Axis) (hb : b ∈ earlier)
    (h : b.orient = a.orient) : (zero.placeAll (earlier ++ a :: later)).2[earlier.length]? =
      some { a with orient := a.orient.opposite } := by
  have hsome : 0 < earlier.countP (Axis.on a.orient) :=
    List.countP_pos_iff.mpr ⟨b, hb, decide_eq_true h⟩
  have hmet : ¬ (zero.placeAll earlier).1.get a.orient = 0 := by
    rw [get_placeAll]
    omega
  rw [placeAll_getElem?, place, if_neg hmet]

/-- A list with two members that pass a test, split at these. -/
theorem exists_split_of_two_le_countP {p : Axis → Bool} {axes : List Axis}
    (h : 2 ≤ axes.countP p) : ∃ start a middle b rest,
      axes = start ++ a :: (middle ++ b :: rest) ∧ p a = true ∧ p b = true := by
  rw [List.countP_eq_length_filter] at h
  cases hfirst : axes.filter p with
  | nil =>
    rw [hfirst] at h
    exact absurd h (by decide)
  | cons a others =>
    obtain ⟨start, tail, rfl, -, ha, hothers⟩ := List.filter_eq_cons_iff.mp hfirst
    cases others with
    | nil =>
      rw [hfirst] at h
      exact absurd h (by simp)
    | cons b more =>
      obtain ⟨middle, rest, rfl, -, hb, -⟩ := List.filter_eq_cons_iff.mp hothers
      exact ⟨start, a, middle, b, rest, rfl, ha, hb⟩

/-- Two axes along opposite sides are enough for each of the sides to have one. -/
theorem exists_mem_placeAll {axes : List Axis} {o : Orient} (h : 2 ≤ axes.countP (Axis.along o)) :
    ∃ a ∈ (zero.placeAll axes).2, a.orient = o := by
  cases hfind : axes.find? (Axis.on o) with
  | some a =>
    -- the first on the side itself stays there
    obtain ⟨hon, earlier, later, rfl, hearlier⟩ := List.find?_eq_some_iff_append.mp hfind
    have ho : a.orient = o := of_decide_eq_true hon
    have hnone : ∀ b ∈ earlier, b.orient ≠ a.orient := by
      intro b hb hsame
      have hnot := hearlier b hb
      rw [Axis.on, hsame, ho, decide_eq_true rfl] at hnot
      exact absurd hnot (by decide)
    have hstays := placeAll_first later hnone
    exact ⟨a, List.mem_of_getElem? hstays, ho⟩
  | none =>
    -- all are on the opposite side, where the second one does not stay
    have hopposite {b : Axis} (hb : b ∈ axes) (halong : b.along o = true) :
        b.orient = o.opposite := by
      have hnot := List.find?_eq_none.mp hfind b hb
      exact (Axis.along_iff.mp halong).resolve_left (fun ho => hnot (decide_eq_true ho))
    obtain ⟨start, a, middle, b, rest, rfl, ha, hb⟩ := exists_split_of_two_le_countP h
    have hao := hopposite (by simp) ha
    have hbo := hopposite (by simp) hb
    have hearlier : a ∈ start ++ a :: middle :=
      List.mem_append_right _ List.mem_cons_self
    have hturns := placeAll_later rest hearlier (hao.trans hbo.symm)
    rw [List.append_assoc] at hturns
    refine ⟨_, List.mem_of_getElem? hturns, ?_⟩
    show b.orient.opposite = o
    rw [hbo, Orient.opposite_opposite]

theorem placeAll_spread (axes : List Axis) : Spread axes (zero.placeAll axes).2 := by
  have hturned := placeAll_turned zero axes
  have hboth (o : Orient) (h : 2 ≤ axes.countP (Axis.along o)) :
      (∃ a ∈ (zero.placeAll axes).2, a.orient = o) ∧
        ∃ a ∈ (zero.placeAll axes).2, a.orient = o.opposite := by
    refine ⟨exists_mem_placeAll h, exists_mem_placeAll ?_⟩
    have hsame : axes.countP (Axis.along o.opposite) = axes.countP (Axis.along o) := by
      rw [Axis.countP_along, Axis.countP_along, Orient.opposite_opposite, Nat.add_comm]
    rw [hsame]
    exact h
  refine ⟨hturned, ?_, hboth, ?_⟩
  · rintro earlier a later rfl h
    exact placeAll_first later h
  · intro o h
    -- turning keeps an axis along its sides, so there still are two
    have hkept : (zero.placeAll axes).2.countP (Axis.along o) = 2 := by
      rw [← h]
      generalize (zero.placeAll axes).2 = after at hturned
      clear h hboth
      induction hturned with
      | nil => rfl
      | cons hab _ ih => rw [List.countP_cons, List.countP_cons, ih, hab.along_eq]
    obtain ⟨⟨a, ha, hao⟩, ⟨b, hb, hbo⟩⟩ := hboth o (Nat.le_of_eq h.symm)
    have hself : 0 < (zero.placeAll axes).2.countP (Axis.on o) :=
      List.countP_pos_iff.mpr ⟨a, ha, decide_eq_true hao⟩
    have hother : 0 < (zero.placeAll axes).2.countP (Axis.on o.opposite) :=
      List.countP_pos_iff.mpr ⟨b, hb, decide_eq_true hbo⟩
    rw [Axis.countP_along] at hkept
    omega

/-- Channels make no difference to where axes are put. -/
theorem placePicked_all (n : SideCount) (es : List (Channel × List Axis)) :
    (n.placePicked (fun _ => true) es).1 = (n.placeAll (es.flatMap Prod.snd)).1 ∧
      (n.placePicked (fun _ => true) es).2.flatMap Prod.snd =
        (n.placeAll (es.flatMap Prod.snd)).2 := by
  induction es generalizing n with
  | nil => exact ⟨rfl, rfl⟩
  | cons e rest ih =>
    obtain ⟨hcount, haxes⟩ := ih (n.placeAll e.2).1
    rw [List.flatMap_cons, placeAll_append]
    exact ⟨hcount, congrArg ((n.placeAll e.2).2 ++ ·) haxes⟩

end SideCount

namespace View

/-- The axes of a view on the channels that the layer above it leaves independent, channel by
channel. -/
def looseAxes (r : Resolve) (v : View) : List Axis :=
  (v.node.components.axes.filter (fun c _ => !r.shares .axis c)).entries.flatMap Prod.snd

theorem looseAxes_update {r : Resolve} {v : View} {kept : List (Channel × List Axis)}
    (h : kept.map Prod.fst =
      (v.node.components.axes.filter (fun c _ => !r.shares .axis c)).keys) :
    (v.update (fun k => { k with axes := .ofList kept })).looseAxes r =
      kept.flatMap Prod.snd := by
  have hnode : (v.update (fun k => { k with axes := .ofList kept })).node.components.axes =
      .ofList kept := by
    cases v
    rfl
  have hall : kept.filter (fun e => !r.shares .axis e.1) = kept := by
    apply List.filter_eq_self.mpr
    intro e he
    have hkey : e.1 ∈ (v.node.components.axes.filter (fun c _ => !r.shares .axis c)).keys :=
      h ▸ List.mem_map_of_mem he
    obtain ⟨own, hown, hsame⟩ := List.mem_map.mp hkey
    rw [← hsame]
    exact (List.mem_filter.mp hown).2
  rw [looseAxes, hnode]
  show ((Dict.ofList kept).entries.filter (fun e => !r.shares .axis e.1)).flatMap Prod.snd = _
  rw [Dict.entries_ofList h, hall]

/-- The axes that a layer leaves on the views under it are placed as one list. -/
theorem mergeAxes_looseAxes (r : Resolve) (n : SideCount) (taken : Dict Channel (List Axis))
    (vs : List View) : (mergeAxes r n taken vs).2.flatMap (looseAxes r) =
      (n.placeAll (vs.flatMap (looseAxes r))).2 := by
  induction vs generalizing n taken with
  | nil => rfl
  | cons v rest ih =>
    let left := (v.node.components.axes.filter (fun c _ => !r.shares .axis c)).entries
    obtain ⟨hcount, haxes⟩ := n.placePicked_all left
    have hkeys : (n.placePicked (fun _ => true) left).2.map Prod.fst = left.map Prod.fst :=
      List.forall₂_eq_eq_eq ▸ List.rel_map (fun _ _ h => h.1)
        (n.placePicked_turned (fun _ => true) left)
    have hown : left.flatMap Prod.snd = v.looseAxes r := rfl
    rw [mergeAxes, List.flatMap_cons, List.flatMap_cons, SideCount.placeAll_append]
    dsimp only
    rw [ih, looseAxes_update hkeys, hcount, haxes, hown]

variable {n : Node} {cs : List View}

/-- A layer with any views under it, whatever axes these hold: each view only gives up axes that are
shared, and the axes that the layer leaves on its views spread over both sides. -/
theorem guideStep_spreads (config : Config) (A : List Node) {size : Size}
    (hk : n.kind = .layer size) : ∃ axes ds,
      guideStep config A (mk n cs) = .ok (mk (n.update (fun k => { k with axes })) ds) ∧
        List.Forall₂ (Parts n.resolve) cs ds ∧
          Spread (cs.flatMap (looseAxes n.resolve)) (ds.flatMap (looseAxes n.resolve)) := by
  refine ⟨(mergeAxes n.resolve .zero .empty cs).1, (mergeAxes n.resolve .zero .empty cs).2, ?_,
    mergeAxes_parts n.resolve .zero .empty cs, ?_⟩
  · unfold guideStep
    rw [show (mk n cs).node.kind = .layer size from hk]
  · rw [mergeAxes_looseAxes]
    exact SideCount.placeAll_spread _

end View

/-! ### Lines -/

/-- Three lines that each have a scale of their own along y. -/
def Spec.threeLines : Spec :=
  let line (field : String) : Spec :=
    .unit ⟨⟨none, none, none, none⟩, ⟨none, none⟩, ⟨.line, none⟩,
      .ofList [(.y, .field { FieldDef.unset with
        field := some field, type := some .quantitative })], .empty⟩
  .layer ⟨⟨none, none, none, none⟩, ⟨none, none⟩, Resolve.empty.set .scale .y .independent⟩
    [line "a", line "b", line "c"]

/-- The axes of the lines all come in on the left. Of the three the first stays there. -/
theorem View.guideStep_threeLines : ∃ t ds, Tree.build .threeLines .default = .ok (t, ds) ∧
    ∃ n cs size, n.kind = .layer size ∧
      (cs.flatMap (looseAxes n.resolve)).map Axis.orient = [.left, .left, .left] ∧
        ∃ axes vs, guideStep t.config [] (mk n cs) =
            .ok (mk (n.update (fun k => { k with axes })) vs) ∧
          List.Forall₂ (Parts n.resolve) cs vs ∧
            Spread (cs.flatMap (looseAxes n.resolve)) (vs.flatMap (looseAxes n.resolve)) := by
  let before (t : Tree) : View := (t.runPhases .standard
    [.data, .scale, .layoutSize, .selection, .markGroup]).tree.root
  -- the views under the root as they come out of the phase themselves
  let lines (t : Tree) : List View := (bottomUpIn .axisAndHeader (guideStep t.config)
    [(before t).node] (before t).children).views
  have hleft : (Tree.build .threeLines .default).toOption.any (fun r =>
      (before r.1).node.isLayer && decide (((lines r.1).flatMap
        (looseAxes (before r.1).node.resolve)).map Axis.orient = [.left, .left, .left])) = true := by
    decide +kernel
  obtain ⟨⟨t, ds⟩, hb, hleft⟩ := exists_ok_of_any hleft
  obtain ⟨hlayer, hleft⟩ := (Bool.and_eq_true _ _).mp hleft
  obtain ⟨size, hk⟩ := Node.kind_of_isLayer hlayer
  exact ⟨t, ds, hb, (before t).node, lines t, size, hk, of_decide_eq_true hleft,
    guideStep_spreads t.config [] hk⟩

end Trellis

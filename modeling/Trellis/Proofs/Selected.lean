import Mathlib.Data.List.Nodup
import Trellis.Proofs.Built
import Trellis.Proofs.Described
import Trellis.Proofs.Entries

/-! Selections after their phase: every node knows those that units under it declare, under names
made from the declared ones, and a unit's own only brush channels that it shows. -/
namespace Trellis

namespace Projection

variable {fieldDef : Channel → Option FieldDef}

/-- A projection lists no field twice, and a field that comes through a channel is the one that the
channel leads to. -/
structure Faithful (fieldDef : Channel → Option FieldDef) (ps : List Projected) : Prop where
  nodup : (ps.map Projected.field).Nodup
  leads : ∀ p ∈ ps, ∀ c, p.channel = some c → ∃ f, fieldDef c = some f ∧ p.field = f.projected

theorem map_field_mention (field : String) (channel : Option Channel) (ps : List Projected) :
    (mention field channel ps).map Projected.field =
      if field ∈ ps.map Projected.field then ps.map Projected.field
      else ps.map Projected.field ++ [field] := by
  induction ps with
  | nil => rfl
  | cons q rest ih =>
    rw [mention]
    by_cases hq : q.field = field
    · rw [if_pos hq, List.map_cons, List.map_cons, ← hq, if_pos List.mem_cons_self]
    · have hmem : field ∈ (q :: rest).map Projected.field ↔ field ∈ rest.map Projected.field := by
        rw [List.map_cons, List.mem_cons, or_iff_right (Ne.symm hq)]
      rw [if_neg hq, List.map_cons, ih]
      simp only [hmem]
      split
      · rfl
      · rfl

theorem mem_mention {field : String} {channel : Option Channel} {ps : List Projected}
    {p : Projected} (h : p ∈ mention field channel ps) :
    p.field = field ∧ p.channel = channel ∨ ∃ q ∈ ps, p.field = q.field ∧ p.channel = q.channel := by
  -- the field is mentioned already, with a channel or without, or comes last
  induction ps with
  | nil =>
    rw [mention, List.mem_singleton] at h
    subst h
    exact .inl ⟨rfl, rfl⟩
  | cons q rest ih =>
    rw [mention] at h
    split at h
    · rename_i hq
      rcases List.mem_cons.mp h with rfl | hp
      · cases channel with
        | none => exact .inr ⟨q, List.mem_cons_self, rfl, rfl⟩
        | some c => exact .inl ⟨hq, rfl⟩
      · exact .inr ⟨p, List.mem_cons_of_mem _ hp, rfl, rfl⟩
    · rcases List.mem_cons.mp h with rfl | hp
      · exact .inr ⟨p, List.mem_cons_self, rfl, rfl⟩
      · rcases ih hp with hnew | ⟨r, hr, hsame⟩
        · exact .inl hnew
        · exact .inr ⟨r, List.mem_cons_of_mem _ hr, hsame⟩

theorem Faithful.mention {ps : List Projected} (h : Faithful fieldDef ps) (field : String)
    {channel : Option Channel}
    (hc : ∀ c, channel = some c → ∃ f, fieldDef c = some f ∧ field = f.projected) :
    Faithful fieldDef (mention field channel ps) := by
  refine ⟨?_, ?_⟩
  · rw [map_field_mention]
    split
    · exact h.nodup
    · rename_i hnew
      exact List.Nodup.append h.nodup (List.nodup_singleton field)
        (List.disjoint_singleton.mpr hnew)
  · intro p hp c hpc
    rcases mem_mention hp with ⟨hfield, hchannel⟩ | ⟨q, hq, hfield, hchannel⟩
    · rw [hfield]
      exact hc c (hchannel.symm.trans hpc)
    · rw [hfield]
      exact h.leads q hq c (hchannel.symm.trans hpc)

theorem Faithful.mentionChannels (cs : List Channel) {ps : List Projected}
    (h : Faithful fieldDef ps) : Faithful fieldDef (mentionChannels fieldDef cs ps).1 := by
  induction cs generalizing ps with
  | nil => exact h
  | cons c rest ih =>
    rw [Projection.mentionChannels]
    cases hf : fieldDef c with
    | none => exact ih h
    | some f =>
      refine ih (h.mention f.projected ?_)
      intro d hd
      exact ⟨f, Option.some.inj hd ▸ hf, rfl⟩

theorem faithful_ofDef (fieldDef : Channel → Option FieldDef) (d : SelectionDef) :
    Faithful fieldDef (ofDef fieldDef d).1 := by
  unfold ofDef
  apply Faithful.mentionChannels
  have hnil : Faithful fieldDef [] := ⟨List.nodup_nil, fun p hp => absurd hp List.not_mem_nil⟩
  generalize d.fields.getD [] = fields
  generalize ([] : List Projected) = ps at hnil ⊢
  induction fields generalizing ps with
  | nil => exact hnil
  | cons f rest ih => exact ih _ (hnil.mention f (by simp))

end Projection

/-- What a declared selection records is a projection of its definition. -/
theorem Selection.ofDef_faithful (origin : SelectionOrigin) (unit : String)
    (fieldDef : Channel → Option FieldDef) (d : SelectionDef) :
    Projection.Faithful fieldDef (Selection.ofDef origin unit fieldDef d).1.project :=
  Projection.faithful_ofDef fieldDef d.withDefaults

theorem Selection.mem_brushed {s : Selection} {c : Channel} {field : String}
    (h : (c, field) ∈ s.brushed) :
    (c = .x ∨ c = .y) ∧ ∃ p ∈ s.project, p.channel = some c ∧ p.field = field := by
  obtain ⟨p, hp, he⟩ := List.mem_filterMap.mp h
  split at he
  · rename_i hc
    obtain ⟨rfl, rfl⟩ := Prod.mk.inj (Option.some.inj he)
    exact ⟨.inl rfl, p, hp, hc, rfl⟩
  · rename_i hc
    obtain ⟨rfl, rfl⟩ := Prod.mk.inj (Option.some.inj he)
    exact ⟨.inr rfl, p, hp, hc, rfl⟩
  · exact absurd he (by simp)

/-- A unit that declares a selection under a name. -/
def Node.declares (n : Node) (key : String) : Bool :=
  n.unit?.any (fun u => u.selection.contains key)

/-- What is known of selections at a site. -/
@[mk_iff]
structure KnowsSelections (s : Site) (k : Components) : Prop where
  known_iff : ∀ key, k.selection.contains key = true ↔ ∃ n ∈ s.view.nodes, n.declares key = true
  name_eq : ∀ key x, k.selection.get? key = some x → x.name = Naming.identifierText key
  brushed_shown : ∀ u, s.node.kind = .unit u → ∀ x ∈ k.selection.values, ∀ c field,
    (c, field) ∈ x.brushed → (u.fieldDef? c).isSome = true

namespace View

/-- The selections that a unit works out, and the reports on all of them. -/
theorem ownSelections_eq (n : Node) (u : UnitView) : ownSelections n u =
    (.ofList (u.selection.entries.map (fun e =>
        (e.1, (Selection.ofDef ⟨n.index, e.1⟩ n.name u.fieldDef? e.2).1))),
      u.selection.entries.flatMap (fun e =>
        (Selection.ofDef ⟨n.index, e.1⟩ n.name u.fieldDef? e.2).2)) := by
  let own (e : String × SelectionDef) := Selection.ofDef ⟨n.index, e.1⟩ n.name u.fieldDef? e.2
  have hfold (es : List (String × SelectionDef)) (r : Dict String Selection × List Diagnostic) :
      es.foldl (fun r e => (r.1.insert e.1 (own e).1, r.2 ++ (own e).2)) r =
        ((es.map (fun e => (e.1, (own e).1))).foldl (fun d e => d.insert e.1 e.2) r.1,
          r.2 ++ es.flatMap (fun e => (own e).2)) := by
    induction es generalizing r with
    | nil =>
      rw [List.flatMap_nil, List.append_nil]
      rfl
    | cons e rest ih =>
      rw [List.foldl_cons, ih, List.flatMap_cons, List.append_assoc]
      rfl
  exact hfold u.selection.entries (.empty, [])

theorem get?_ownSelections (n : Node) (u : UnitView) (key : String) :
    (ownSelections n u).1.get? key = (u.selection.get? key).map
      (fun d => (Selection.ofDef ⟨n.index, key⟩ n.name u.fieldDef? d).1) := by
  rw [ownSelections_eq]
  exact Dict.get?_ofList_entries
    (fun key d => (Selection.ofDef ⟨n.index, key⟩ n.name u.fieldDef? d).1) u.selection key

/-- Of the selections that views side by side know under one name, the first is taken. -/
theorem get?_unionSelections_eq (vs : List View) (key : String) : (unionSelections vs).get? key =
    vs.findSome? (fun v => v.node.components.selection.get? key) := by
  have hfold (known : Dict String Selection) :
      (vs.foldl (fun known v => v.node.components.selection.entries.foldl
        (fun known e => known.insertIfNew e.1 e.2) known) known).get? key =
          (known.get? key).or (vs.findSome? (fun v => v.node.components.selection.get? key)) := by
    induction vs generalizing known with
    | nil => rw [List.foldl_nil, List.findSome?_nil, Option.or_none]
    | cons v rest ih =>
      rw [List.foldl_cons, ih, Dict.get?_foldl_insertIfNew_eq, Option.or_assoc, List.findSome?_cons]
      cases hv : v.node.components.selection.get? key with
      | none => rw [show Dict.lookup key v.node.components.selection.entries = none from hv,
          Option.none_or]
      | some x => rw [show Dict.lookup key v.node.components.selection.entries = some x from hv,
          Option.some_or]
  exact (hfold .empty).trans (Option.none_or ..)

theorem contains_unionSelections (vs : List View) (key : String) :
    (unionSelections vs).contains key = true ↔
      ∃ v ∈ vs, v.node.components.selection.contains key = true := by
  rw [Dict.contains, get?_unionSelections_eq, List.findSome?_isSome_iff]
  rfl

theorem get?_unionSelections {vs : List View} {key : String} {x : Selection}
    (h : (unionSelections vs).get? key = some x) :
    ∃ v ∈ vs, v.node.components.selection.get? key = some x := by
  rw [get?_unionSelections_eq] at h
  exact List.exists_of_findSome?_eq_some h

theorem knowsSelections_siteBlind (phase : Phase) : Fact.SiteBlind phase KnowsSelections := by
  intro s k
  have hnodes (key : String) :
      (∃ n ∈ (s.updateAll (Components.without phase)).view.nodes, n.declares key = true) ↔
        ∃ n ∈ s.view.nodes, n.declares key = true := by
    show (∃ n ∈ (s.view.updateAll _).nodes, n.declares key = true) ↔ _
    rw [nodes_updateAll]
    simp only [List.mem_map, exists_exists_and_eq_and]
    rfl
  rw [knowsSelections_iff, knowsSelections_iff, Site.node_updateAll]
  simp only [hnodes]
  rfl

theorem knowsSelections_ownBlind {phase : Phase} (h : phase ≠ .selection) :
    Fact.OwnBlind phase KnowsSelections := by
  intro s k
  rw [knowsSelections_iff, knowsSelections_iff, Components.without_selection h]

theorem knows_ownSelections {A : List Node} {n : Node} {u : UnitView} {k : Components}
    (hu : n.kind = .unit u) (hk : k.selection = (ownSelections n u).1) :
    KnowsSelections ⟨A, mk n []⟩ k := by
  have hname (key : String) (x : Selection) (hx : k.selection.get? key = some x) :
      ∃ d, x = (Selection.ofDef ⟨n.index, key⟩ n.name u.fieldDef? d).1 := by
    rw [hk, get?_ownSelections] at hx
    obtain ⟨d, -, rfl⟩ := Option.map_eq_some_iff.mp hx
    exact ⟨d, rfl⟩
  refine ⟨?_, ?_, ?_⟩
  · intro key
    have hdecl : n.declares key = u.selection.contains key := by
      rw [Node.declares, Node.unit?, hu]
      rfl
    have hnodes : (Site.view ⟨A, mk n []⟩).nodes = [n] := rfl
    rw [hk, Dict.contains, get?_ownSelections, Option.isSome_map, hnodes]
    simp [hdecl, Dict.contains]
  · intro key x hx
    obtain ⟨d, rfl⟩ := hname key x hx
    rfl
  · intro u' hu' x hx c field hc
    obtain rfl : u = u' := by simpa [Site.node, node, hu] using hu'
    obtain ⟨key, hget⟩ := Dict.mem_values_iff.mp hx
    obtain ⟨d, rfl⟩ := hname key x hget
    obtain ⟨-, p, hp, hpc, -⟩ := Selection.mem_brushed hc
    obtain ⟨f, hf, -⟩ := (Selection.ofDef_faithful _ _ _ d).leads p hp c hpc
    rw [hf]
    rfl

theorem knows_unionSelections {s : Site} {k : Components} (hn : s.node.isUnit = false)
    (hin : ∀ c ∈ s.view.children, Fits (Fact.both KnowsSelections (.done .selection)) s.lineage c)
    (hk : k.selection = unionSelections s.view.children) : KnowsSelections s k := by
  have hchild : ∀ c ∈ s.view.children, KnowsSelections ⟨s.lineage, c⟩ c.node.components :=
    fun c hc => (hin c hc).self.1
  refine ⟨?_, ?_, ?_⟩
  · intro key
    have hself : s.node.declares key = false := by
      unfold Node.declares
      unfold Node.isUnit at hn
      rw [Option.isSome_eq_false_iff, Option.isNone_iff_eq_none] at hn
      rw [hn]
      rfl
    -- a node that is no unit declares nothing itself
    obtain ⟨A, v⟩ := s
    cases v with
    | mk n cs =>
      show _ ↔ ∃ m ∈ (mk n cs).nodes, m.declares key = true
      rw [hk, contains_unionSelections, nodes, nodesIn_eq, List.exists_mem_cons_iff]
      constructor
      · rintro ⟨c, hc, hcon⟩
        obtain ⟨m, hm, hd⟩ := ((hchild c hc).known_iff key).mp hcon
        exact .inr ⟨m, List.mem_flatMap.mpr ⟨c, hc, hm⟩, hd⟩
      · rintro (hd | ⟨m, hm, hd⟩)
        · have hdn : n.declares key = false := hself
          rw [hdn] at hd
          exact absurd hd Bool.false_ne_true
        · obtain ⟨c, hc, hm⟩ := List.mem_flatMap.mp hm
          exact ⟨c, hc, ((hchild c hc).known_iff key).mpr ⟨m, hm, hd⟩⟩
  · intro key x hx
    rw [hk] at hx
    obtain ⟨c, hc, hx⟩ := get?_unionSelections hx
    exact (hchild c hc).name_eq key x hx
  · intro u hu
    exact absurd (hn.symm.trans (Node.isUnit_of_unit hu)) Bool.false_ne_true

/-- The selection phase never fails. It establishes what holds of a unit with the selections that it
declares, and of other nodes with the selections of the views under them. -/
theorem bottomUp_selection_fits {R : Fact} (hR : R.SiteBlind .selection)
    (hunit : ∀ A n u k, n.kind = .unit u → k.selection = (ownSelections n u).1 → R ⟨A, mk n []⟩ k)
    (hunion : ∀ s k, s.node.isUnit = false →
      (∀ c ∈ s.view.children, Fits (Fact.both R (.done .selection)) s.lineage c) →
      k.selection = unionSelections s.view.children → R s k)
    {whole : Spec} {A : List Node} {v : View} (h : Fits (fun s _ => s.Built whole) A v) :
    (v.bottomUp .selection selectionStep A).error = none ∧
      Fits (Fact.both R (.done .selection)) A (v.bottomUp .selection selectionStep A).view := by
  refine bottomUp_fits selectionStep_frame (built_siteBlind whole .selection) ?_ h
  intro s hb hin
  -- whatever the node is, the step only writes its selections
  have hrest {sel : Dict String Selection}
      (hk : R s { s.node.components with selection := sel, completed := some .selection }) :
      Fits (Fact.both R (.done .selection)) s.ancestors
        ((s.view.update (fun c => { c with selection := sel })).update (markDone .selection)) := by
    refine fits_own_step hR ?_ hin hk
    intro _
    rfl
  have hkind : s.view.node.kind = s.node.kind := rfl
  unfold selectionStep
  dsimp only
  rw [hkind]
  cases hk : s.node.kind with
  | unit u =>
    refine ⟨_, _, rfl, hrest ?_⟩
    have hnil : s.view.children = [] := hb.unit_leaf (Node.isUnit_of_unit hk)
    obtain ⟨A, v⟩ := s
    cases v with
    | mk n cs =>
      have hcs : cs = [] := hnil
      subst hcs
      exact hunit A n u _ hk rfl
  | layer size =>
    refine ⟨_, _, rfl, hrest ?_⟩
    exact hunion s _ (Node.not_unit_of_layer hk) hin rfl
  | facet f =>
    refine ⟨_, _, rfl, hrest ?_⟩
    exact hunion s _ (Node.not_unit_of_facet hk) hin rfl

/-- After the selection phase every node knows its selections. -/
theorem bottomUp_selection {whole : Spec} {A : List Node} {v : View}
    (h : Fits (fun s _ => s.Built whole) A v) :
    (v.bottomUp .selection selectionStep A).error = none ∧
      Fits (Fact.both KnowsSelections (.done .selection)) A
        (v.bottomUp .selection selectionStep A).view :=
  bottomUp_selection_fits (knowsSelections_siteBlind .selection)
    (fun _ _ _ _ hu hk => knows_ownSelections hu hk)
    (fun _ _ hn hin hk => knows_unionSelections hn hin hk) h

end View
end Trellis

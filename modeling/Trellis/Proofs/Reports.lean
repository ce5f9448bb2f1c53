import Trellis.Proofs.Finished

/-! What is reported of a specification: what its views drop and which guides they cannot share,
view by view, and then the channels without a field that its selections are over. -/
namespace Trellis

/-- The channel that a report is about. -/
def Diagnostic.channel : Diagnostic → Channel
  | .incompatibleChannel c _ => c
  | .emptyFieldDef c => c
  | .cannotProjectOnChannelWithoutField c => c
  | .independentScaleMeansIndependentGuide c => c

def ChannelDef.normalize : ChannelDef → ChannelDef
  | .field f => .field f.normalize
  | .value j => .value j

namespace UnitSpec

/-- Why a unit drops a channel, if it does: its mark cannot show it, or the field definition has no
field. -/
def refusal? (s : UnitSpec) (c : Channel) (d : ChannelDef) : Option Diagnostic :=
  if s.mark.type.supports c then
    if d.fieldDef?.any (fun f => !f.hasField) then some (.emptyFieldDef c) else none
  else some (.incompatibleChannel c s.mark.type.name)

/-- The channels that a unit keeps. -/
def kept (s : UnitSpec) : Encoding :=
  (s.encoding.filter (fun c d => (s.refusal? c d).isNone)).mapValues ChannelDef.normalize

/-- Reports on the channels that a unit drops, in channel order. -/
def encodingReports (s : UnitSpec) : List Diagnostic :=
  s.encoding.entries.filterMap (fun e => s.refusal? e.1 e.2)

/-- A channel that is kept with a field definition. -/
def showsField (s : UnitSpec) (c : Channel) : Bool :=
  (s.encoding.get? c).any (fun d => (s.refusal? c d).isNone && d.fieldDef?.isSome)

/-- Reports on the channels without a field definition that selections are over, in the order of the
selections' names and in each as they are listed. -/
def selectionReports (s : UnitSpec) : List Diagnostic :=
  s.selection.values.flatMap (fun d =>
    ((d.withDefaults.encodings.getD []).filter (fun c => !s.showsField c)).map
      .cannotProjectOnChannelWithoutField)

end UnitSpec

namespace FacetSpec

/-- Why a facet drops a binding, if it does. -/
def refusal? (c : Channel) (f : FieldDef) : Option Diagnostic :=
  if c.isFacet then if f.hasField then none else some (.emptyFieldDef c)
  else some (.incompatibleChannel c "facet")

/-- The bindings that a facet keeps. -/
def kept (s : FacetSpec) : Dict Channel FieldDef :=
  (s.facet.filter (fun c f => (refusal? c f).isNone)).mapValues FieldDef.normalize

/-- Reports on the bindings that a facet drops, in channel order. -/
def bindingReports (s : FacetSpec) : List Diagnostic :=
  s.facet.entries.filterMap (fun e => refusal? e.1 e.2)

end FacetSpec

/-- Reports on the guides that are asked to be shared over independent scales, in the order of the
scale channels. -/
def Resolve.guideReports (asked : Resolve) : List Diagnostic :=
  (Channel.scaleChannels.filter (fun c => asked.scale.get? c = some .independent &&
    (asked.of (guideAspect c)).get? c = some .shared)).map .independentScaleMeansIndependentGuide

namespace Spec

/-- What is reported on a view when it is built. -/
def ownReports : Spec → List Diagnostic
  | .unit s => s.encodingReports
  | .layer s _ => s.resolve.guideReports
  | .facet s _ => s.bindingReports ++ s.resolve.guideReports

/-- What is reported on the selections of a view. -/
def selectionReports : Spec → List Diagnostic
  | .unit s => s.selectionReports
  | _ => []

/-- All that is reported: on the views, parents before children, and then on the selections. -/
def reports (s : Spec) : List Diagnostic :=
  s.parts.flatMap ownReports ++ s.parts.flatMap selectionReports

/-- What becomes of a view: every channel or binding that is asked for is kept by the node, or
reported, but not both. -/
def Accounted : Spec → Node → Prop
  | .unit s, n => ∃ u, n.kind = .unit u ∧ u.encoding = s.kept ∧ u.selection = s.selection ∧
      (u.encoding.keys ++ s.encodingReports.map Diagnostic.channel).Perm s.encoding.keys
  | .layer s _, n => n.kind = .layer s.size
  | .facet s _, n => ∃ f, n.kind = .facet f ∧ f.facet = s.kept ∧
      (f.facet.keys ++ s.bindingReports.map Diagnostic.channel).Perm s.facet.keys

end Spec

/-! ### What is kept, and what is reported -/

/-- Where a step accepts all that is not refused, what is accepted and what is reported can be told
from the entries alone. -/
theorem accepted_eq {α β : Type} {accept : Channel → α → Except Diagnostic β}
    {refuse : Channel → α → Option Diagnostic} {f : α → β}
    (h : ∀ c a, accept c a = match refuse c a with
      | some e => .error e
      | none => .ok (f a)) (d : Dict Channel α) :
    Dict.ofList (d.entries.filterMap (fun e =>
        (accept e.1 e.2).toOption.map (fun b => (e.1, b)))) =
      (d.filter (fun c a => (refuse c a).isNone)).mapValues f ∧
    d.entries.filterMap (fun e => refusal? (accept e.1 e.2)) =
      d.entries.filterMap (fun e => refuse e.1 e.2) := by
  constructor
  · apply Dict.ext_get?
    intro c
    rw [Dict.get?_ofList_filterMap_entries (fun c a => (accept c a).toOption), Dict.get?_mapValues,
      Dict.get?_filter]
    cases d.get? c with
    | none => rfl
    | some a =>
      rw [Option.bind_some, Option.filter_some, h]
      cases refuse c a <;> rfl
  · apply List.filterMap_congr
    intro e _
    rw [h]
    cases refuse e.1 e.2 <;> rfl

/-- Entries are kept or reported, each once. -/
theorem kept_append_reported_perm {α : Type} {refuse : Channel → α → Option Diagnostic}
    (hrefuse : ∀ c a e, refuse c a = some e → e.channel = c) (d : Dict Channel α) :
    ((d.filter (fun c a => (refuse c a).isNone)).keys ++
      (d.entries.filterMap (fun e => refuse e.1 e.2)).map Diagnostic.channel).Perm d.keys := by
  have hreported (es : List (Channel × α)) :
      (es.filterMap (fun e => refuse e.1 e.2)).map Diagnostic.channel =
        (es.filter (fun e => !(refuse e.1 e.2).isNone)).map Prod.fst := by
    induction es with
    | nil => rfl
    | cons e rest ih =>
      rw [List.filterMap_cons, List.filter_cons]
      cases h : refuse e.1 e.2 with
      | none => exact ih
      | some x => exact congrArg₂ List.cons (hrefuse _ _ _ h) ih
  rw [hreported]
  unfold Dict.keys
  exact (List.map_append ▸ (List.filter_append_perm
    (fun e : Channel × α => (refuse e.1 e.2).isNone) d.entries).map Prod.fst)

namespace UnitSpec

theorem channel_of_refusal? {s : UnitSpec} {c : Channel} {d : ChannelDef} {e : Diagnostic}
    (h : s.refusal? c d = some e) : e.channel = c := by
  unfold refusal? at h
  split at h
  · split at h
    · rw [← Option.some.inj h]; rfl
    · exact absurd h nofun
  · rw [← Option.some.inj h]; rfl

theorem accept_eq (s : UnitSpec) (c : Channel) (d : ChannelDef) : UnitView.accept s.mark c d =
    match s.refusal? c d with
    | some e => .error e
    | none => .ok d.normalize := by
  unfold UnitView.accept refusal?
  cases s.mark.type.supports c with
  | false => rfl
  | true =>
    cases d with
    | value j => rfl
    | field f => cases hf : f.hasField <;> simp [ChannelDef.fieldDef?, ChannelDef.normalize, hf]

theorem acceptAll_eq (s : UnitSpec) :
    UnitView.acceptAll s.mark s.encoding = (s.kept, s.encodingReports) := by
  obtain ⟨hkept, hreports⟩ := accepted_eq s.accept_eq s.encoding
  rw [UnitView.acceptAll_eq, hkept, hreports]
  rfl

theorem kept_append_reports_perm (s : UnitSpec) :
    (s.kept.keys ++ s.encodingReports.map Diagnostic.channel).Perm s.encoding.keys := by
  unfold kept
  rw [Dict.keys_mapValues]
  exact kept_append_reported_perm (fun _ _ _ h => channel_of_refusal? h) s.encoding

end UnitSpec

namespace FacetSpec

theorem channel_of_refusal? {c : Channel} {f : FieldDef} {e : Diagnostic}
    (h : refusal? c f = some e) : e.channel = c := by
  unfold refusal? at h
  split at h
  · split at h
    · exact absurd h nofun
    · rw [← Option.some.inj h]; rfl
  · rw [← Option.some.inj h]; rfl

theorem accept_eq (c : Channel) (f : FieldDef) : FacetView.accept c f =
    match refusal? c f with
    | some e => .error e
    | none => .ok f.normalize := by
  unfold FacetView.accept refusal?
  cases c.isFacet <;> cases f.hasField <;> rfl

theorem ofBindings_eq (s : FacetSpec) :
    FacetView.ofBindings s.facet = (⟨s.kept⟩, s.bindingReports) := by
  obtain ⟨hkept, hreports⟩ := accepted_eq accept_eq s.facet
  rw [FacetView.ofBindings_eq, hkept, hreports]
  rfl

theorem kept_append_reports_perm (s : FacetSpec) :
    (s.kept.keys ++ s.bindingReports.map Diagnostic.channel).Perm s.facet.keys := by
  unfold kept
  rw [Dict.keys_mapValues]
  exact kept_append_reported_perm (fun _ _ _ h => channel_of_refusal? h) s.facet

end FacetSpec

/-! ### Building -/

theorem Resolve.settle_snd (asked r : Resolve) (c : Channel) : (settle asked r c).2 =
    if asked.scale.get? c = some .independent &&
      (asked.of (guideAspect c)).get? c = some .shared then
        [.independentScaleMeansIndependentGuide c] else [] := by
  unfold settle Dict.getD
  rcases asked.scale.get? c with _ | scale <;>
    rcases (asked.of (guideAspect c)).get? c with _ | guide
  · rfl
  · rfl
  · cases scale <;> rfl
  · cases scale <;> cases guide <;> rfl

/-- A layer or facet reports the guides that it is asked to share over independent scales. -/
theorem Resolve.composite_snd (asked : Resolve) : asked.composite.2 = asked.guideReports := by
  have hfold (cs : List Channel) (done : Resolve × List Diagnostic) :
      (cs.foldl (settleNext asked) done).2 = done.2 ++
        (cs.filter (fun c => asked.scale.get? c = some .independent &&
          (asked.of (guideAspect c)).get? c = some .shared)).map
            .independentScaleMeansIndependentGuide := by
    induction cs generalizing done with
    | nil => exact (List.append_nil _).symm
    | cons c rest ih =>
      rw [List.foldl_cons, ih, settleNext, settle_snd, List.filter_cons]
      split
      · rw [List.append_assoc]
        rfl
      · rw [List.append_nil]
  exact (hfold Channel.scaleChannels (empty, [])).trans (List.nil_append _)

namespace View

variable {config : Config} {A : List Node} {given : String} {p q : Progress} {v : View}

theorem placeAll_accounted {ss : List Spec}
    (h : ∀ s ∈ ss, ∀ local' p q v, place config A local' p s = .ok (v, q) →
      List.Forall₂ Spec.Accounted s.parts v.nodes ∧
        q.diagnostics = p.diagnostics ++ s.parts.flatMap Spec.ownReports)
    {layer : String} {i : Nat} {vs : List View}
    (hp : placeAll config A layer i p ss = .ok (vs, q)) :
    List.Forall₂ Spec.Accounted (Spec.partsIn ss) (nodesIn vs) ∧
      q.diagnostics = p.diagnostics ++ (Spec.partsIn ss).flatMap Spec.ownReports := by
  induction ss generalizing i p vs with
  | nil =>
    rw [placeAll] at hp
    obtain ⟨rfl, rfl⟩ := Prod.mk.inj (Except.ok.inj hp)
    exact ⟨.nil, (List.append_nil _).symm⟩
  | cons s rest ih =>
    obtain ⟨v, ws, r, rfl, hs, hr⟩ := placeAll_cons_ok hp
    obtain ⟨hparts, hreports⟩ := h s List.mem_cons_self _ p r v hs
    obtain ⟨hothers, hlast⟩ := ih (fun t ht => h t (List.mem_cons_of_mem _ ht)) hr
    rw [Spec.partsIn, nodesIn]
    refine ⟨List.rel_append hparts hothers, ?_⟩
    rw [hlast, hreports, List.flatMap_append, List.append_assoc]

/-- Building goes through the views of a specification in pre-order. It accounts for all that they
ask for, and reports nothing else. -/
theorem place_accounted {s : Spec} (h : place config A given p s = .ok (v, q)) :
    List.Forall₂ Spec.Accounted s.parts v.nodes ∧
      q.diagnostics = p.diagnostics ++ s.parts.flatMap Spec.ownReports := by
  induction s using Spec.induct generalizing A given p q v with
  | unit s =>
    obtain ⟨n, rfl, hk, -, -, -, rfl⟩ := place_unit_ok h
    have hkept : (UnitView.ofSpec s config (A.any Node.isFacet)).1.encoding = s.kept :=
      congrArg Prod.fst s.acceptAll_eq
    refine ⟨.cons ⟨_, hk, hkept, rfl, ?_⟩ .nil, ?_⟩
    · rw [hkept]
      exact s.kept_append_reports_perm
    · rw [UnitSpec.acceptAll_eq, Spec.parts, List.flatMap_singleton]
      rfl
  | layer s children ih =>
    obtain ⟨n, vs, rfl, hk, -, -, -, -, -, hall⟩ := place_layer_ok h
    obtain ⟨hparts, hreports⟩ := placeAll_accounted (fun c hc local' p' q' w hw => ih c hc hw) hall
    rw [Spec.parts, nodes]
    refine ⟨.cons hk hparts, ?_⟩
    rw [hreports, List.flatMap_cons, Resolve.composite_snd, ← List.append_assoc]
    rfl
  | facet s child ih =>
    obtain ⟨n, w, rfl, hk, -, -, -, -, -, hchild⟩ := place_facet_ok h
    obtain ⟨hparts, hreports⟩ := ih hchild
    rw [Spec.parts, nodes, nodesIn, nodesIn, List.append_nil]
    refine ⟨.cons ⟨_, hk, congrArg (fun r => r.1.facet) s.ofBindings_eq, ?_⟩ hparts, ?_⟩
    · rw [FacetSpec.ofBindings_eq]
      exact s.kept_append_reports_perm
    · rw [hreports, List.flatMap_cons, Resolve.composite_snd, FacetSpec.ofBindings_eq,
        ← List.append_assoc]
      rfl

end View

/-! ### Selections -/

/-- Channels are reported that lead to no field, as they are listed. -/
theorem Projection.mentionChannels_snd (fieldDef : Channel → Option FieldDef) (cs : List Channel)
    (ps : List Projected) : (mentionChannels fieldDef cs ps).2 =
      (cs.filter (fun c => !(fieldDef c).isSome)).map .cannotProjectOnChannelWithoutField := by
  induction cs generalizing ps with
  | nil => rfl
  | cons c rest ih =>
    rw [mentionChannels, List.filter_cons]
    cases fieldDef c with
    | some f => exact ih _
    | none => exact congrArg _ (ih ps)

/-- What is reported on the selections of a node. -/
def Node.selectionReports (n : Node) : List Diagnostic :=
  match n.kind with
  | .unit u => (View.ownSelections n u).2
  | _ => []

theorem View.ownSelections_snd (n : Node) (u : UnitView) : (ownSelections n u).2 =
    u.selection.values.flatMap (fun d =>
      ((d.withDefaults.encodings.getD []).filter (fun c => !(u.fieldDef? c).isSome)).map
        .cannotProjectOnChannelWithoutField) := by
  rw [ownSelections_eq, Dict.values, List.flatMap_map]
  exact List.flatMap_congr (fun e _ => Projection.mentionChannels_snd u.fieldDef? _ _)

/-- A channel leads to a field if it is kept and asks for one. -/
theorem UnitSpec.showsField_eq {s : UnitSpec} {u : UnitView} (h : u.encoding = s.kept)
    (c : Channel) : (u.fieldDef? c).isSome = s.showsField c := by
  unfold UnitView.fieldDef? showsField
  rw [h, kept, Dict.get?_mapValues, Dict.get?_filter]
  cases s.encoding.get? c with
  | none => rfl
  | some d =>
    rw [Option.filter_some, Option.any_some]
    cases s.refusal? c d with
    | some e => rfl
    | none => cases d <;> rfl

/-- An account of a view tells what is reported on its selections. -/
theorem Spec.Accounted.selectionReports {s : Spec} {n : Node} (h : s.Accounted n) :
    s.selectionReports = n.selectionReports := by
  unfold Node.selectionReports
  cases s with
  | unit s =>
    obtain ⟨u, hk, hkept, hselection, -⟩ := h
    rw [hk]
    dsimp only
    rw [View.ownSelections_snd, hselection]
    simp only [UnitSpec.showsField_eq hkept]
    rfl
  | layer s _ =>
    rw [show n.kind = .layer s.size from h]
    rfl
  | facet s _ =>
    obtain ⟨f, hk, -⟩ := h
    rw [hk]
    rfl

/-! ### The phases -/

/-- What a phase reports on a node: only the selections of units are reported on. -/
def Phase.reports (phase : Phase) (n : Node) : List Diagnostic :=
  if phase = .selection then n.selectionReports else []

theorem Phase.reports_of_not_unit (phase : Phase) {n : Node} (h : n.isUnit = false) :
    phase.reports n = [] := by
  unfold reports Node.selectionReports
  split
  · split
    · rename_i hk
      exact absurd ((Node.isUnit_of_unit hk).symm.trans h) (by simp)
    · rfl
  · rfl

namespace View

variable {A : List Node} {phase : Phase} {step : Step}

theorem complete_diagnostics (phase : Phase) (o : Outcome) :
    (o.complete phase).diagnostics = o.diagnostics := by
  unfold Outcome.complete
  split <;> rfl

theorem bottomUpIn_diagnostics {cs : List View}
    (h : ∀ c ∈ cs, (c.bottomUp phase step A).error = none) :
    (bottomUpIn phase step A cs).diagnostics =
      cs.flatMap (fun c => (c.bottomUp phase step A).diagnostics) := by
  induction cs with
  | nil => rfl
  | cons c rest ih =>
    have hrest := ih (fun d hd => h d (List.mem_cons_of_mem _ hd))
    rw [bottomUpIn, h c List.mem_cons_self, List.flatMap_cons, ← hrest]

/-- A pass that does not fail reports on the nodes in pre-order, if it reports on leaves only. -/
theorem bottomUp_diagnostics {f : Node → List Diagnostic}
    (hstep : ∀ A v, (step A v).diagnostics = f v.node) {v : View}
    (hleaf : Fits (fun s _ => f s.node = [] ∨ s.view.children = []) A v)
    (h : (v.bottomUp phase step A).error = none) :
    (v.bottomUp phase step A).diagnostics = v.nodes.flatMap f := by
  induction v using induct generalizing A with
  | h n cs ih =>
    obtain ⟨hself, hin⟩ := fits_mk_iff.mp hleaf
    obtain ⟨hbelow, -⟩ := bottomUp_error h
    obtain ⟨herror, -⟩ := bottomUpIn_of_ok hbelow
    have hviews : (bottomUpIn phase step (n :: A) cs).diagnostics = (nodesIn cs).flatMap f := by
      rw [bottomUpIn_diagnostics hbelow, nodesIn_eq, List.flatMap_assoc]
      exact List.flatMap_congr (fun c hc => ih c hc (hin c hc) (hbelow c hc))
    have hown : ((mk n cs).bottomUp phase step A).diagnostics =
        (nodesIn cs).flatMap f ++ f n := by
      rw [bottomUp, herror]
      dsimp only
      rw [complete_diagnostics, hstep, hviews]
      rfl
    rw [hown, nodes, List.flatMap_cons]
    -- a node without a report may have others before it, and one without views has none
    rcases hself with hnone | hleaf
    · rw [show f n = [] from hnone, List.append_nil, List.nil_append]
    · obtain rfl : cs = [] := hleaf
      rw [nodesIn, List.flatMap_nil, List.nil_append, List.append_nil]

/-- Reports do not depend on what is worked out. -/
theorem flatMap_reports_of_strip {v w : View} (h : w.strip = v.strip) (phase : Phase) :
    w.nodes.flatMap phase.reports = v.nodes.flatMap phase.reports := by
  have hstrip (u : View) : u.strip.nodes.flatMap phase.reports = u.nodes.flatMap phase.reports := by
    unfold strip
    rw [nodes_updateAll, List.flatMap_map]
    rfl
  rw [← hstrip w, h, hstrip v]

/-! ### The steps -/

theorem ofExcept_diagnostics {ε α : Type} (v : View) (cause : ε → CompileError)
    (result : Except ε α) (f : α → View) :
    (Outcome.ofExcept v cause result f).diagnostics = [] := by
  cases result <;> rfl

theorem scaleStep_diagnostics (config : Config) (A : List Node) (v : View) :
    (scaleStep config A v).diagnostics = [] := by
  unfold scaleStep
  split
  · exact ofExcept_diagnostics _ _ _ _
  · cases v with
    | mk n cs => exact ofExcept_diagnostics _ _ _ _

theorem markStep_diagnostics (config : Config) (A : List Node) (v : View) :
    (markStep config A v).diagnostics = [] := by
  unfold markStep
  split
  · exact ofExcept_diagnostics _ _ _ _
  · rfl
  · exact ofExcept_diagnostics _ _ _ _

theorem guideStep_diagnostics (config : Config) (A : List Node) (v : View) :
    (guideStep config A v).diagnostics = [] := by
  unfold guideStep
  split <;> rfl

theorem legendStep_diagnostics (A : List Node) (v : View) :
    (legendStep A v).diagnostics = [] := by
  unfold legendStep
  split <;> rfl

theorem selectionStep_diagnostics (A : List Node) (v : View) :
    (selectionStep A v).diagnostics = v.node.selectionReports := by
  unfold selectionStep Node.selectionReports
  cases v.node.kind <;> rfl

/-- In a built view only nodes with nothing under them are reported on. -/
theorem reports_at_leaves {whole : Spec} {v : View} (hb : Fits (fun s _ => s.Built whole) A v)
    (phase : Phase) : Fits (fun s _ => phase.reports s.node = [] ∨ s.view.children = []) A v := by
  refine hb.mono (fun s _ hs => ?_)
  cases hu : s.node.isUnit with
  | true => exact .inr (hs.unit_leaf hu)
  | false => exact .inl (phase.reports_of_not_unit hu)

/-- A phase that reports on leaves only reports on the nodes in pre-order. -/
theorem runPhase_diagnostics {pipeline : Pipeline} {config : Config} {input : Option DataDef}
    {v : View} (hleaf : Fits (fun s _ => phase.reports s.node = [] ∨ s.view.children = []) [] v)
    (h : (v.runPhase pipeline config input phase).error = none) :
    (v.runPhase pipeline config input phase).diagnostics = v.nodes.flatMap phase.reports := by
  cases phase with
  | data => exact (List.flatMap_eq_nil_iff.mpr (fun _ _ => rfl)).symm
  | scale => exact bottomUp_diagnostics (scaleStep_diagnostics config) hleaf h
  | layoutSize => exact bottomUp_diagnostics (fun _ _ => rfl) hleaf h
  | selection => exact bottomUp_diagnostics selectionStep_diagnostics hleaf h
  | markGroup => exact bottomUp_diagnostics (markStep_diagnostics config) hleaf h
  | axisAndHeader => exact bottomUp_diagnostics (guideStep_diagnostics config) hleaf h
  | legend => exact bottomUp_diagnostics legendStep_diagnostics hleaf h

end View

namespace Tree

variable {pipeline : Pipeline} {t : Tree}

/-- Phases in turn that do not fail report one after the other. -/
theorem runPhases_diagnostics {whole : Spec} {phases : List Phase}
    (hb : View.Fits (fun s _ => s.Built whole) [] t.root)
    (h : (t.runPhases pipeline phases).error = none) :
    (t.runPhases pipeline phases).diagnostics =
      phases.flatMap (fun phase => t.root.nodes.flatMap phase.reports) := by
  induction phases generalizing t with
  | nil => rfl
  | cons phase rest ih =>
    obtain ⟨hfirst, hothers, -⟩ := runPhases_cons_ok h
    obtain ⟨hroot, -⟩ := runPhase_ok hfirst
    have hnext : View.Fits (fun s _ => s.Built whole) [] (t.runPhase pipeline phase).tree.root :=
      runPhase_carry (built_siteBlind whole phase) (built_ownBlind whole phase) hb
    have hsame (later : Phase) :
        (t.runPhase pipeline phase).tree.root.nodes.flatMap later.reports =
          t.root.nodes.flatMap later.reports :=
      View.flatMap_reports_of_strip (runPhase_strip pipeline phase t) later
    have hown : (t.runPhase pipeline phase).diagnostics = t.root.nodes.flatMap phase.reports := by
      rw [← View.runPhase_diagnostics (View.reports_at_leaves hb phase) hroot]
      unfold runPhase at hfirst ⊢
      split
      · exact absurd hfirst (by simp [*])
      · rfl
    rw [runPhases, hfirst]
    dsimp only
    rw [hown, ih hnext hothers, List.flatMap_cons]
    simp only [hsame]

/-- Building accounts for all views, parents before children, and reports nothing else. -/
theorem build_accounted {spec : Spec} {config : Config} {ds : List Diagnostic}
    (h : Tree.build spec config = .ok (t, ds)) :
    List.Forall₂ Spec.Accounted spec.parts t.root.nodes ∧
      ds = spec.parts.flatMap Spec.ownReports := by
  unfold Tree.build at h
  obtain ⟨⟨root, p⟩, hplace, h⟩ := bind_eq_ok.mp h
  obtain ⟨rfl, rfl⟩ := Prod.mk.inj (Except.ok.inj h)
  obtain ⟨hparts, hreports⟩ := View.place_accounted hplace
  exact ⟨hparts, hreports.trans (List.nil_append _)⟩

/-- Nothing that is accounted for gets lost in the phases. -/
theorem runPhases_accounted {ss : List Spec} (phases : List Phase)
    (h : List.Forall₂ Spec.Accounted ss t.root.nodes) :
    List.Forall₂ Spec.Accounted ss (t.runPhases pipeline phases).tree.root.nodes := by
  have hstrip (v : View) : List.Forall₂ Spec.Accounted ss v.strip.nodes ↔
      List.Forall₂ Spec.Accounted ss v.nodes := by
    unfold View.strip
    rw [View.nodes_updateAll, List.forall₂_map_right_iff]
    -- an account looks at the kind of a node only
    have hsame (s : Spec) (n : Node) :
        s.Accounted (n.update (fun _ => .empty)) ↔ s.Accounted n := by
      cases s <;> exact Iff.rfl
    simp only [hsame]
  rw [← hstrip, runPhases_strip, hstrip]
  exact h

end Tree

namespace Compiler

/-- What is reported of a specification that compiles is exactly this: view by view, parents before
children, what a unit or facet drops and which guides a layer or facet cannot share, and after that
the channels without a field that selections are over. All that units and facets ask for is kept in
the tree that is drawn or reported, each once. -/
theorem compile_diagnostics {c : Compiler} {s : Spec} {compiled : Compiled}
    (h : c.compile s = .ok compiled) :
    compiled.diagnostics = s.reports ∧ ∃ t ds, c.build s = .ok (t, ds) ∧
      (t.parse c.pipeline).tree.assemble c.pipeline = .ok compiled.visualization ∧
      List.Forall₂ Spec.Accounted s.parts (t.parse c.pipeline).tree.root.nodes := by
  obtain ⟨t, ds, hbuild, herror, hdrawn, hall⟩ := compile_ok h
  obtain ⟨hparts, hown⟩ := Tree.build_accounted hbuild
  have hselections : s.parts.flatMap Spec.selectionReports =
      t.root.nodes.flatMap Node.selectionReports :=
    forall₂_flatMap_eq hparts (fun _ _ _ hs => hs.selectionReports)
  have hsilent (phase : Phase) (hp : phase ≠ .selection) :
      t.root.nodes.flatMap phase.reports = [] :=
    List.flatMap_eq_nil_iff.mpr (fun _ _ => if_neg hp)
  have hphases : (t.runPhases c.pipeline Phase.all).diagnostics =
      t.root.nodes.flatMap Node.selectionReports := by
    have hbuilt : View.Fits (fun v _ => v.Built s) [] t.root :=
      Tree.built_of_build hbuild c.pipeline []
    rw [Tree.runPhases_diagnostics hbuilt herror]
    simp (disch := decide) only [Phase.all, List.flatMap_cons, List.flatMap_nil, hsilent,
      List.nil_append, List.append_nil]
    rfl
  refine ⟨?_, t, ds, hbuild, ?_⟩
  · rw [hall, hown, hphases, ← hselections]
    rfl
  · rw [Tree.parse_of_build hbuild]
    exact ⟨hdrawn, Tree.runPhases_accounted _ hparts⟩

end Compiler

/-! ### Bars with a brush -/

namespace Spec

/-- Bars over a field, with a shape that bars have not, a height without a field, a brush, and a
choice over x and twice over y. -/
def brushedBars : Spec :=
  .unit ⟨⟨none, none, none, none⟩, ⟨none, none⟩, ⟨.bar, none⟩,
    .ofList [(.x, .field { FieldDef.unset with field := some "a" }), (.y, .field .unset),
      (.shape, .value (.str "square"))],
    .ofList [("brush", ⟨.interval, none, none, none⟩),
      ("choice", ⟨.multi, none, some [.y, .x, .y], none⟩)]⟩

/-- Rows of bars with an axis to share over scales that are kept apart, in columns without a field
and with a color that a facet has not. -/
def rowsOfBrushedBars : Spec :=
  .facet ⟨⟨none, none, none, none⟩,
      .ofList [(.row, { FieldDef.unset with field := some "r" }), (.column, .unset),
        (.color, { FieldDef.unset with field := some "b" })],
      (Resolve.empty.set .scale .x .independent).set .axis .x .shared⟩
    brushedBars

end Spec

namespace Compiler

/-- The rows are reported on before the bars, and the bars before their selections. -/
theorem compile_diagnostics_rowsOfBrushedBars :
    ∃ compiled, standard.compile .rowsOfBrushedBars = .ok compiled ∧
      compiled.diagnostics = Spec.rowsOfBrushedBars.reports ∧
      compiled.diagnostics = [
        .emptyFieldDef .column, .incompatibleChannel .color "facet",
        .independentScaleMeansIndependentGuide .x,
        .emptyFieldDef .y, .incompatibleChannel .shape "bar",
        .cannotProjectOnChannelWithoutField .y, .cannotProjectOnChannelWithoutField .y,
        .cannotProjectOnChannelWithoutField .y] := by
  have hreports : (standard.compile .rowsOfBrushedBars).toOption.any (fun compiled =>
      compiled.diagnostics == [
        .emptyFieldDef .column, .incompatibleChannel .color "facet",
        .independentScaleMeansIndependentGuide .x,
        .emptyFieldDef .y, .incompatibleChannel .shape "bar",
        .cannotProjectOnChannelWithoutField .y, .cannotProjectOnChannelWithoutField .y,
        .cannotProjectOnChannelWithoutField .y]) = true := by
    decide +kernel
  obtain ⟨compiled, hcompiled, hreports⟩ := exists_ok_of_any hreports
  exact ⟨compiled, hcompiled, (compile_diagnostics hcompiled).1, beq_iff_eq.mp hreports⟩

end Compiler

end Trellis

import Trellis.Proofs.Identifiers
import Trellis.Proofs.Scopes
import Trellis.Proofs.Seats
import Trellis.Proofs.Steps
import Trellis.Proofs.Written

/-! Sizes that follow a scale. Where no view is repeated in cells, the scale that such a size names is
emitted at the top, and the size counts the steps and paddings that are emitted with it. -/
namespace Trellis

/-! ### Emitted scales -/

/-- A scale is emitted with a type that takes separate values, with this step for each of them, and
with paddings that come to these: points have a whole step between them, and one padding stands for
the inner and the outer one where these are not given. -/
structure Json.SpacedBy (scale : Json) (inner outer step : Binary64) : Prop where
  discrete : ∃ type : ScaleType, type.isDiscrete = true ∧
    scale.member? "type" = some (.str type.name)
  range : scale.member? "range" = some (.object [("step", .real step)])
  outer : .real outer =
    ((scale.member? "paddingOuter").or (scale.member? "padding")).getD (.real .zero)
  points : scale.member? "type" = some (.str "point") → inner = .ofNat 1
  inner : scale.member? "type" ≠ some (.str "point") → .real inner =
    ((scale.member? "paddingInner").or (scale.member? "padding")).getD (.real .zero)

namespace Scale

variable {s : Scale} {name : String} {sizeSignal : Dimension → String}

/-- A scale is emitted with these members, each in one place. -/
theorem member?_toJson (s : Scale) (name : String) (sizeSignal : Dimension → String)
    (key : String) : (s.toJson name sizeSignal).member? key = Dict.lookup key ([
      ("name", .str name),
      ("type", .str s.type.name),
      ("domain", s.domain.toJson s.type.isDiscrete),
      ("range", s.range.toJson sizeSignal)] ++
      Json.optional "padding" .real s.padding ++
      Json.optional "paddingInner" .real s.paddingInner ++
      Json.optional "paddingOuter" .real s.paddingOuter ++
      Json.optional "zero" .bool s.zero ++ Json.optional "nice" .bool s.nice) := by
  rw [toJson]
  apply Json.member?_of_nodup
  simp only [List.map_append]
  have hdistinct : ["name", "type", "domain", "range", "padding", "paddingInner", "paddingOuter",
      "zero", "nice"].Nodup := by
    decide
  refine List.Nodup.sublist ?_ hdistinct
  exact (((((List.Sublist.refl _).append (Dict.names_optional _ _ _)).append
    (Dict.names_optional _ _ _)).append (Dict.names_optional _ _ _)).append
    (Dict.names_optional _ _ _)).append (Dict.names_optional _ _ _)

theorem member?_type : (s.toJson name sizeSignal).member? "type" = some (.str s.type.name) := by
  rw [member?_toJson]
  simp [Dict.lookup, Dict.compare_beq_eq]

theorem member?_range :
    (s.toJson name sizeSignal).member? "range" = some (s.range.toJson sizeSignal) := by
  rw [member?_toJson]
  simp [Dict.lookup, Dict.compare_beq_eq]

theorem member?_padding :
    (s.toJson name sizeSignal).member? "padding" = s.padding.map .real := by
  rw [member?_toJson]
  simp [Dict.lookup_append, Dict.lookup_optional, Dict.lookup, Dict.compare_beq_eq]

theorem member?_paddingInner :
    (s.toJson name sizeSignal).member? "paddingInner" = s.paddingInner.map .real := by
  rw [member?_toJson]
  simp [Dict.lookup_append, Dict.lookup_optional, Dict.lookup, Dict.compare_beq_eq]

theorem member?_paddingOuter :
    (s.toJson name sizeSignal).member? "paddingOuter" = s.paddingOuter.map .real := by
  rw [member?_toJson]
  simp [Dict.lookup_append, Dict.lookup_optional, Dict.lookup, Dict.compare_beq_eq]

/-- Of two paddings the first that is there, as it is emitted. -/
theorem real_padding (first second : Option Binary64) :
    Json.real ((first <|> second).getD .zero) =
      ((first.map .real).or (second.map .real)).getD (.real .zero) := by
  cases first <;> cases second <;> rfl

/-- A discrete scale with a step is emitted with the step and with the paddings that its extent
counts. -/
theorem spacedBy_extentPadding {step : Binary64} (h : s.step? = some step) (name : String)
    (sizeSignal : Dimension → String) :
    (s.toJson name sizeSignal).SpacedBy s.extentPadding.1 s.extentPadding.2 step := by
  have hdiscrete : s.type.isDiscrete = true := by
    unfold step? at h
    split at h
    · assumption
    · exact absurd h (by simp)
  have hpoint : ∀ type : ScaleType, type.name = "point" ↔ type = .point := by
    intro type
    cases type <;> decide
  refine ⟨⟨s.type, hdiscrete, member?_type⟩, ?_, ?_, ?_, ?_⟩
  · rw [member?_range, range_of_step h]
    rfl
  · rw [member?_paddingOuter, member?_padding]
    exact real_padding s.paddingOuter s.padding
  · intro htype
    rw [member?_type] at htype
    have hp : s.type = .point := (hpoint s.type).mp (Json.str.inj (Option.some.inj htype))
    rw [extentPadding, hp]
  · intro htype
    have hp : s.type ≠ .point := by
      intro hp
      rw [member?_type, hp] at htype
      exact htype rfl
    rw [member?_paddingInner, member?_padding, ← real_padding]
    unfold extentPadding
    cases ht : s.type with
    | point => exact absurd ht hp
    | _ => rfl

end Scale

/-! ### Sizes of units -/

namespace Site

variable {s : Site} {config : Config} {d : Dimension}

/-- A size in steps comes from the scale in use. -/
theorem exists_scale_of_bandspace {name : String} {inner outer step : Binary64}
    (h : s.unitSize config d = .bandspace name inner outer step) :
    ∃ scale, s.scale? d.channel = some scale ∧ scale.step? = some step ∧
      name = s.scaleName d.channel ∧ scale.extentPadding = (inner, outer) := by
  unfold unitSize at h
  cases hscale : s.scale? d.channel with
  | none =>
    rw [hscale] at h
    exact absurd h (by simp)
  | some scale =>
    rw [hscale] at h
    dsimp only at h
    cases hstep : scale.step? with
    | none =>
      rw [hstep] at h
      exact absurd h (by simp)
    | some own =>
      rw [hstep] at h
      obtain ⟨rfl, rfl, rfl, rfl⟩ := Expression.bandspace.inj h
      exact ⟨scale, rfl, hstep, rfl, rfl⟩

end Site

namespace View

variable {config : Config} {A : List Node} {v : View}

/-- A size signal is that of a unit, or the largest of others. -/
theorem mem_sizeSignals {g : Signal} (h : g ∈ v.sizeSignals config A) :
    (∃ s ∈ v.sites A, s.node.isUnit = true ∧
      ∃ d : Dimension, g = .computed (s.node.qualify d.name) (s.unitSize config d)) ∨
        ∃ names, g.update = some (.largest names) := by
  induction v using induct generalizing A with
  | h n cs ih =>
    have hin (hmem : g ∈ cs.flatMap (sizeSignals config (n :: A))) :
        (∃ s ∈ (mk n cs).sites A, s.node.isUnit = true ∧
          ∃ d : Dimension, g = .computed (s.node.qualify d.name) (s.unitSize config d)) ∨
            ∃ names, g.update = some (.largest names) := by
      obtain ⟨c, hc, hg⟩ := List.mem_flatMap.mp hmem
      rcases ih c hc hg with ⟨s, hs, hsize⟩ | hlargest
      · exact .inl ⟨s, mem_sites_mk.mpr (.inr ⟨c, hc, hs⟩), hsize⟩
      · exact .inr hlargest
    cases hk : n.kind with
    | unit u =>
      rw [sizeSignals_unit hk] at h
      obtain ⟨d, -, rfl⟩ := List.mem_map.mp h
      exact .inl ⟨_, self_mem_sites A _, Node.isUnit_of_unit hk, d, rfl⟩
    | layer size =>
      rw [sizeSignals_layer hk] at h
      rcases List.mem_append.mp h with hbelow | hown
      · exact hin hbelow
      · obtain ⟨d, -, rfl⟩ := List.mem_map.mp hown
        exact .inr ⟨_, rfl⟩
    | facet f =>
      rw [sizeSignals_facet hk] at h
      exact hin h

/-- The scale in use at a site is held by a node of the tree, under the name that the site uses. -/
theorem exists_holder {s : Site} (hs : s ∈ v.sites []) {c : Channel} {scale : Scale}
    (h : s.scale? c = some scale) :
    ∃ o ∈ v.sites [], ⟨s.scaleName c, scale, o.sizeSignal⟩ ∈ o.namedScales := by
  obtain ⟨n, hn, hget⟩ := Option.bind_eq_some_iff.mp h
  obtain ⟨o, ho, rfl⟩ := exists_site_of_lineage hs (List.mem_of_find?_eq_some hn)
  refine ⟨o, ho, List.mem_map.mpr ⟨(c.primary, scale), Dict.mem_entries_iff.mpr hget, ?_⟩⟩
  rw [Site.scaleName, hn]
  rfl

/-! ### Views without cells -/

/-- Without facets all views are drawn in one group. -/
theorem groupSites_of_flat {whole : Spec} (hb : Fits (fun s _ => s.Built whole) A v)
    (hflat : Fits (fun s _ => s.node.isFacet = false) A v) : v.groupSites A = v.sites A := by
  induction v using induct generalizing A with
  | h n cs ih =>
    obtain ⟨hself, hin⟩ := fits_mk_iff.mp hb
    obtain ⟨hown, hbelow⟩ := fits_mk_iff.mp hflat
    rw [groupSites, groupSitesIn_eq, sites_mk]
    cases hk : n.kind with
    | unit u =>
      obtain rfl : cs = [] := hself.unit_leaf (Node.isUnit_of_unit hk)
      rw [Node.not_layer_of_unit hk, if_neg Bool.false_ne_true]
      rfl
    | layer size =>
      rw [Node.isLayer_of_layer hk, if_pos rfl]
      congr 1
      exact List.flatMap_congr (fun c hc => ih c hc (hin c hc) (hbelow c hc))
    | facet f => exact absurd (hown.symm.trans (Node.isFacet_of_facet hk)) Bool.false_ne_true

end View

/-- No part of the specification is a facet. -/
def Spec.Flat (s : Spec) : Prop := ∀ part ∈ s.parts, part.kind ≠ "facet"

instance (s : Spec) : Decidable s.Flat :=
  inferInstanceAs (Decidable (∀ part ∈ s.parts, part.kind ≠ "facet"))

namespace Tree

variable {spec : Spec} {config : Config} {t : Tree} {ds : List Diagnostic} {pipeline : Pipeline}

/-- A specification without facets has a tree without facets. -/
theorem flat_of_build (h : Tree.build spec config = .ok (t, ds)) (hflat : spec.Flat)
    (phases : List Phase) : View.Fits (fun s _ => s.node.isFacet = false) []
      (t.runPhases pipeline phases).tree.root := by
  obtain ⟨-, -, -, hseated⟩ := seated_of_build h
  have hroot : View.Fits (fun s _ => s.node.isFacet = false) [] t.root := by
    intro s hs
    obtain ⟨part, hpart⟩ := hseated s hs
    have hkind := hpart.kind
    cases part with
    | unit u => exact Node.not_facet_of_isUnit hkind
    | layer l children => exact Node.not_facet_of_isLayer hkind
    | facet f child => exact absurd rfl (hflat _ (List.mem_of_getElem? hpart.place))
  refine runPhases_carry ?_ hroot
  intro phase _
  refine ⟨?_, fun _ _ => Iff.rfl⟩
  intro s k
  change (s.updateAll (Components.without phase)).node.isFacet = false ↔ s.node.isFacet = false
  rw [Site.node_updateAll]
  rfl

/-- All scales that the nodes hold are then emitted at the top. -/
theorem namedScales_of_flat {v : Visualization} (hv : t.assemble pipeline = .ok v)
    (hb : View.Fits (fun s _ => s.Built spec) [] t.root)
    (hflat : View.Fits (fun s _ => s.node.isFacet = false) [] t.root) :
    v.group.scales = (t.root.sites []).flatMap Site.namedScales := by
  obtain ⟨-, ms, -, -, -, -, hgroup⟩ := assemble_ok hv
  have hmembers : t.rootSite.groupMembers = t.root.sites [] := View.groupSites_of_flat hb hflat
  rw [hgroup, ← hmembers]
  rfl

end Tree

/-- A signal is emitted with the text of what it is updated by. -/
theorem Signal.member?_update (g : Signal) :
    g.toJson.member? "update" = g.update.map (fun e => .str e.text) := by
  have hnames : (([("name", Json.str g.name)] ++ Json.optional "value" id g.value ++
      Json.optional "update" (fun e => .str e.text) g.update ++
      Json.unlessEmpty "on" Handler.toJson g.handlers).map Prod.fst).Nodup := by
    simp only [List.map_append]
    have hdistinct : ["name", "value", "update", "on"].Nodup := by decide
    refine List.Nodup.sublist ?_ hdistinct
    exact (((List.Sublist.refl ["name"]).append (Dict.names_optional _ _ _)).append
      (Dict.names_optional _ _ _)).append (Dict.names_unlessEmpty _ _ _)
  rw [toJson, Json.member?_of_nodup hnames]
  simp [Dict.lookup_append, Dict.lookup_optional, Dict.lookup_unlessEmpty, Dict.lookup,
    Dict.compare_beq_eq]

/-- The expression counts the steps of a scale. -/
def Expression.inSteps : Expression → Bool
  | bandspace .. => true
  | _ => false

namespace Compiler

/-- Whatever compiles and has no facets emits at the top the one scale that each size in steps
names, and the size counts just the step and the paddings that are emitted with it. -/
theorem bandsEmitted {compiler : Compiler} {spec : Spec} {compiled : Compiled}
    (h : compiler.compile spec = .ok compiled) (hflat : spec.Flat) :
    ∀ g ∈ compiled.visualization.allSignals, ∀ name inner outer step,
      g.update = some (.bandspace name inner outer step) →
        g.toJson.member? "update" = some (.str ("bandspace(" ++ String.intercalate ", "
          ["domain('" ++ name ++ "').length", inner.plainText, outer.plainText] ++ ") * " ++
            step.plainText)) ∧
        ∃ scale, compiled.visualization.group.scales.filter (fun s => s.name == name) = [scale] ∧
          scale.toJson.SpacedBy inner outer step := by
  obtain ⟨t, ds, hbuild, herror, hv, -⟩ := compile_ok h
  let root := (t.runPhases compiler.pipeline Phase.all).tree.root
  have hb := Tree.built_of_build hbuild compiler.pipeline Phase.all
  have hscales : compiled.visualization.group.scales = (root.sites []).flatMap Site.namedScales :=
    Tree.namedScales_of_flat hv hb (Tree.flat_of_build hbuild hflat Phase.all)
  intro g hg name inner outer step hupdate
  refine ⟨by rw [g.member?_update, hupdate]; rfl, ?_⟩
  have hsize : g ∈ root.sizeSignals (t.runPhases compiler.pipeline Phase.all).tree.config [] := by
    have hmem : g ∈ compiled.visualization.allSignals.filter Signal.isSize := by
      refine List.mem_filter.mpr ⟨hg, ?_⟩
      rw [Signal.isSize, hupdate]
      rfl
    rwa [Tree.sizeSignals_filter hv hb] at hmem
  rcases View.mem_sizeSignals hsize with ⟨s, hs, -, d, rfl⟩ | ⟨names, hlargest⟩
  · obtain ⟨scale, hscale, hstep, rfl, hpadding⟩ :=
      Site.exists_scale_of_bandspace (Option.some.inj hupdate)
    obtain ⟨o, ho, hnamed⟩ := View.exists_holder hs hscale
    have hspaced := scale.spacedBy_extentPadding hstep (s.scaleName d.channel) o.sizeSignal
    rw [hpadding] at hspaced
    have hmem : ⟨s.scaleName d.channel, scale, o.sizeSignal⟩ ∈
        compiled.visualization.group.scales := by
      rw [hscales]
      exact List.mem_flatMap.mpr ⟨o, ho, hnamed⟩
    have hdistinct : (compiled.visualization.group.scales.map NamedScale.name).Nodup := by
      have hall := Tree.scaleNames_nodup
        (Tree.emits_of_finished hv hb (Tree.finished_of_build hbuild herror))
        (Tree.runPhases_names hbuild compiler.pipeline Phase.all)
      rw [Visualization.groups, List.flatMap_cons, List.map_append] at hall
      exact (List.nodup_append.mp hall).1
    exact ⟨_, filter_key_of_nodup hdistinct hmem, hspaced⟩
  · rw [hupdate] at hlargest
    exact absurd hlargest (by simp)

/-- Bars without a width of their own are as wide as the steps of the scale that is emitted. -/
theorem bandsEmitted_mixedBars : ∃ compiled g name inner outer step scale,
    standard.compile .mixedBars = .ok compiled ∧ Spec.mixedBars.Flat ∧
      g ∈ compiled.visualization.allSignals ∧
      g.update = some (.bandspace name inner outer step) ∧
      g.toJson.member? "update" = some (.str ("bandspace(" ++ String.intercalate ", "
        ["domain('" ++ name ++ "').length", inner.plainText, outer.plainText] ++ ") * " ++
          step.plainText)) ∧
      compiled.visualization.group.scales.filter (fun s => s.name == name) = [scale] ∧
      scale.toJson.SpacedBy inner outer step := by
  have hsized : (standard.compile .mixedBars).toOption.any (fun compiled =>
      compiled.visualization.allSignals.any (fun g =>
        g.update.any Expression.inSteps)) = true := by
    decide +kernel
  have hflat : Spec.mixedBars.Flat := by decide +kernel
  obtain ⟨compiled, hc, hsized⟩ := exists_ok_of_any hsized
  obtain ⟨g, hg, hsized⟩ := List.any_eq_true.mp hsized
  obtain ⟨e, hupdate, hsteps⟩ := (Option.any_eq_true _ _).mp hsized
  cases e with
  | bandspace name inner outer step =>
    obtain ⟨htext, scale, hscale, hspaced⟩ :=
      bandsEmitted hc hflat g hg name inner outer step hupdate
    exact ⟨compiled, g, name, inner, outer, step, scale, hc, hflat, hg, hupdate, htext, hscale,
      hspaced⟩
  | _ => exact absurd hsteps Bool.false_ne_true

end Compiler
end Trellis

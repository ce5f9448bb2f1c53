import Trellis.Proofs.Partition
import Trellis.Proofs.Projections
import Trellis.Proofs.SignalNames

/-! What interval selections brush. A field is recorded once, under the last of the channels that
lead to it, and only that channel is brushed. -/
namespace Trellis

namespace Projection

/-- The channels of a definition that lead to a field. -/
def leading (fieldDef : Channel → Option FieldDef) (d : SelectionDef) (field : String) :
    List Channel :=
  (d.encodings.getD []).filter (fun c => (fieldDef c).any (fun f => f.projected = field))

theorem lastChannel_mentions (fieldDef : Channel → Option FieldDef) (d : SelectionDef)
    (field : String) :
    lastChannel field (mentions fieldDef d) = (leading fieldDef d field).getLast? := by
  have hnamed : ((((d.fields.getD []).map (fun g => Projected.mk g none)).filter
      (fun m => m.field = field)).filterMap Projected.channel) = [] := by
    rw [List.filterMap_eq_nil_iff]
    intro m hm
    obtain ⟨g, -, rfl⟩ := List.mem_map.mp (List.mem_filter.mp hm).1
    rfl
  have hchannels (cs : List Channel) : ((cs.filterMap (fun c =>
      (fieldDef c).map (fun f => Projected.mk f.projected (some c)))).filter
        (fun m => m.field = field)).filterMap Projected.channel =
      cs.filter (fun c => (fieldDef c).any (fun f => f.projected = field)) := by
    induction cs with
    | nil => rfl
    | cons c rest ih =>
      rw [List.filterMap_cons, List.filter_cons]
      cases fieldDef c with
      | none => exact ih
      | some f =>
        dsimp only [Option.map_some, Option.any_some]
        rw [List.filter_cons]
        split
        · exact congrArg (c :: ·) ih
        · exact ih
  rw [lastChannel, mentions, List.filter_append, List.filterMap_append, hnamed, List.nil_append,
    hchannels]
  rfl

theorem mem_table {ms : List Projected} {field : String} {c : Channel} :
    ⟨field, some c⟩ ∈ table ms ↔ lastChannel field ms = some c := by
  rw [table, List.mem_map]
  constructor
  · rintro ⟨g, -, hg⟩
    obtain ⟨rfl, hlast⟩ := Projected.mk.inj hg
    exact hlast
  · intro hlast
    refine ⟨field, List.mem_eraseDups.mpr ?_, congrArg (Projected.mk field) hlast⟩
    by_contra hnew
    rw [lastChannel_eq_none hnew] at hlast
    exact absurd hlast nofun

/-- Within one definition a channel leads to what is recorded under it. -/
theorem get?_fields_eq_some_iff {fieldDef : Channel → Option FieldDef} {ps : List Projected}
    (h : Faithful fieldDef ps) {c : Channel} {field : String} :
    (fields ps).get? c = some field ↔ ⟨field, some c⟩ ∈ ps := by
  rw [get?_fields, Option.map_eq_some_iff]
  constructor
  · rintro ⟨p, hp, rfl⟩
    obtain ⟨hmem, hc⟩ := List.mem_filter.mp (List.mem_of_getLast? hp)
    rw [← of_decide_eq_true hc]
    exact hmem
  · intro hmem
    have hin : (⟨field, some c⟩ : Projected) ∈ ps.filter (fun p => p.channel = some c) :=
      List.mem_filter.mpr ⟨hmem, decide_eq_true rfl⟩
    obtain ⟨q, hq⟩ := Option.isSome_iff_exists.mp
      (List.getLast?_isSome.mpr (List.ne_nil_of_mem hin))
    obtain ⟨hmemq, hcq⟩ := List.mem_filter.mp (List.mem_of_getLast? hq)
    -- whatever is recorded under the channel is the field that it leads to
    obtain ⟨f, hf, hfield⟩ := h.leads _ hmem c rfl
    obtain ⟨g, hg, hqfield⟩ := h.leads q hmemq c (of_decide_eq_true hcq)
    obtain rfl : f = g := Option.some.inj (hf.symm.trans hg)
    exact ⟨q, hq, hqfield.trans hfield.symm⟩

end Projection

theorem SelectionDef.withDefaults_type (d : SelectionDef) : d.withDefaults.type = d.type := by
  unfold withDefaults
  cases d.projects with
  | true => rfl
  | false =>
    rw [if_neg Bool.false_ne_true]
    split <;> rfl

/-- The expression has to do with the pixels of a channel, or with the extent under them. -/
def Expression.Concerns (pixels : String) (c : Channel) : Expression → Prop
  | .press d => d = c
  | .drag p d _ => p = pixels ∨ d = c
  | .invert _ p => p = pixels
  | .brush _ intervals => ∃ i ∈ intervals, i.channel = c
  | _ => False

namespace Selection

/-- The signal of the pixels that are brushed on a channel. -/
def pixels (x : Selection) (s : Site) (c : Channel) : Signal :=
  .reactive (x.pixelSignal c) (some (.arr []))
    [⟨.events "mousedown", .press c, false⟩,
      ⟨.events x.events,
        .drag (x.pixelSignal c) c (s.sizeSignal (c.dimension?.getD .height)), false⟩]

/-- The signal of the part of a field that lies under the pixels of a channel. -/
def part (x : Selection) (s : Site) (c : Channel) (field : String) : Signal :=
  .reactive (x.fieldSignal field) none
    [⟨.signal (x.pixelSignal c), .invert (s.scaleName c) (x.pixelSignal c), false⟩]

/-- The tuple of the parts that are brushed. -/
def extents (x : Selection) (intervals : List Interval) : Signal :=
  .reactive (Naming.tuple x.name) none
    [⟨.anyOf (intervals.map Interval.extent), .brush x.unit intervals, false⟩]

/-- What an interval selection has for a channel that it brushes: the channel leads to the field,
and there are signals of the pixels and of the part under them, which the tuple has as an
interval. -/
structure Brushes (x : Selection) (s : Site) (c : Channel) (field : String) : Prop where
  index : x.fields.get? c = some field
  pixels : x.pixels s c ∈ x.signals s
  part : x.part s c field ∈ x.signals s
  interval : ∃ intervals, ⟨c, field, x.fieldSignal field⟩ ∈ intervals ∧
    x.extents intervals ∈ x.signals s

/-- A channel that an interval selection does not brush: it leads nowhere, and no signal has to do
with it. -/
structure Skips (x : Selection) (s : Site) (c : Channel) : Prop where
  index : x.fields.get? c = none
  signals : ∀ signal ∈ x.signals s, ∀ e ∈ signal.expressions, ¬ e.Concerns (x.pixelSignal c) c

variable {x : Selection} {s : Site} {c : Channel} {field : String}

/-- The intervals of the tuple, in the order of the recorded fields. -/
def intervals (x : Selection) : List Interval :=
  x.brushed.map (fun e => ⟨e.1, e.2, x.fieldSignal e.2⟩)

theorem intervalSignals_eq (x : Selection) (s : Site) : x.intervalSignals s =
    x.brushed.flatMap (fun e => [x.pixels s e.1, x.part s e.1 e.2]) ++
      [x.extents x.intervals, .reactive (Naming.modify x.name) none [⟨.signal (Naming.tuple x.name),
        .modify (Naming.store x.name) (Naming.tuple x.name), false⟩]] := by
  unfold intervalSignals extents intervals
  rw [List.map_map]
  rfl

theorem mem_brushed_iff : (c, field) ∈ x.brushed ↔
    (c = .x ∨ c = .y) ∧ ⟨field, some c⟩ ∈ x.project := by
  constructor
  · intro h
    obtain ⟨hc, p, hp, hpc, rfl⟩ := mem_brushed h
    exact ⟨hc, hpc ▸ hp⟩
  · rintro ⟨hc, hp⟩
    refine List.mem_filterMap.mpr ⟨_, hp, ?_⟩
    rcases hc with rfl | rfl <;> rfl

theorem pixelSignal_injective (x : Selection) : Function.Injective x.pixelSignal := by
  intro c d h
  exact Channel.name_injective (Naming.separated_inj c.no_separator d.no_separator h).2

theorem brushes_of_mem (hx : x.type = .interval) (hfields : x.fields = Projection.fields x.project)
    {fieldDef : Channel → Option FieldDef} (hfaithful : Projection.Faithful fieldDef x.project)
    (hc : c = .x ∨ c = .y) (hmem : ⟨field, some c⟩ ∈ x.project) : x.Brushes s c field := by
  have hsignals : x.signals s = x.intervalSignals s := by rw [signals, hx]
  have hbrushed : (c, field) ∈ x.brushed := mem_brushed_iff.mpr ⟨hc, hmem⟩
  have heach {signal : Signal} (h : signal ∈ [x.pixels s c, x.part s c field]) :
      signal ∈ x.signals s := by
    rw [hsignals, intervalSignals_eq]
    exact List.mem_append_left _ (List.mem_flatMap.mpr ⟨_, hbrushed, h⟩)
  refine ⟨?_, heach List.mem_cons_self, heach (List.mem_cons_of_mem _ List.mem_cons_self), ?_⟩
  · rw [hfields]
    exact (Projection.get?_fields_eq_some_iff hfaithful).mpr hmem
  · refine ⟨x.intervals, List.mem_map.mpr ⟨_, hbrushed, rfl⟩, ?_⟩
    rw [hsignals, intervalSignals_eq]
    exact List.mem_append_right _ List.mem_cons_self

theorem skips_of_forall_not_mem (hx : x.type = .interval)
    (hfields : x.fields = Projection.fields x.project)
    {fieldDef : Channel → Option FieldDef} (hfaithful : Projection.Faithful fieldDef x.project)
    (hc : ∀ field, ⟨field, some c⟩ ∉ x.project) : x.Skips s c := by
  have hother {e : Channel × String} (he : e ∈ x.brushed) : e.1 ≠ c := by
    rintro rfl
    exact hc e.2 (mem_brushed_iff.mp he).2
  have hpixels {e : Channel × String} (he : e ∈ x.brushed) : x.pixelSignal e.1 ≠ x.pixelSignal c :=
    fun h => hother he (x.pixelSignal_injective h)
  refine ⟨?_, ?_⟩
  · rw [hfields, Option.eq_none_iff_forall_ne_some]
    exact fun field h => hc field ((Projection.get?_fields_eq_some_iff hfaithful).mp h)
  · intro signal hsignal e he
    rw [signals, hx] at hsignal
    dsimp only at hsignal
    rw [intervalSignals_eq, List.mem_append, List.mem_flatMap] at hsignal
    -- the signals of the other brushed channels, the tuple, and the change to the store
    rcases hsignal with ⟨b, hb, hsignal⟩ | hsignal
    · rcases List.mem_pair.mp hsignal with rfl | rfl
      · rcases List.mem_pair.mp he with rfl | rfl
        · exact hother hb
        · exact fun h => h.elim (hpixels hb) (hother hb)
      · obtain rfl := List.mem_singleton.mp he
        exact hpixels hb
    · rcases List.mem_pair.mp hsignal with rfl | rfl
      · obtain rfl := List.mem_singleton.mp he
        rintro ⟨i, hi, rfl⟩
        obtain ⟨b, hb, rfl⟩ := List.mem_map.mp hi
        exact hother hb rfl
      · obtain rfl := List.mem_singleton.mp he
        exact id

/-- Of the listed channels that lead to a field the last one is recorded, and is the only one to be
brushed. -/
theorem ofDef_brushes {origin : SelectionOrigin} {unit : String}
    {fieldDef : Channel → Option FieldDef} {d : SelectionDef} (hd : d.type = .interval)
    (hx : x = (Selection.ofDef origin unit fieldDef d).1) (hc : c = .x ∨ c = .y)
    (hlisted : c ∈ d.withDefaults.encodings.getD []) {f : FieldDef} (hf : fieldDef c = some f) :
    ∃ e, (Projection.leading fieldDef d.withDefaults f.projected).getLast? = some e ∧
      x.fields.get? e = some f.projected ∧
        (e = c → x.Brushes s c f.projected) ∧ (e ≠ c → x.Skips s c) := by
  have htype : x.type = .interval := by
    rw [hx]
    exact (SelectionDef.withDefaults_type d).trans hd
  have hproject : x.project =
      Projection.table (Projection.mentions fieldDef d.withDefaults) := by
    rw [hx]
    exact congrArg Prod.fst (Projection.ofDef_eq fieldDef d.withDefaults)
  have hfields : x.fields = Projection.fields x.project := by
    rw [hx]
    rfl
  have hfaithful : Projection.Faithful fieldDef x.project :=
    hx ▸ ofDef_faithful origin unit fieldDef d
  have hmem (field : String) (e : Channel) : ⟨field, some e⟩ ∈ x.project ↔
      (Projection.leading fieldDef d.withDefaults field).getLast? = some e := by
    rw [hproject, Projection.mem_table, Projection.lastChannel_mentions]
  have hleads : c ∈ Projection.leading fieldDef d.withDefaults f.projected :=
    List.mem_filter.mpr ⟨hlisted, by rw [hf, Option.any_some, decide_eq_true rfl]⟩
  obtain ⟨e, he⟩ := Option.isSome_iff_exists.mp
    (List.getLast?_isSome.mpr (List.ne_nil_of_mem hleads))
  have hlast : ⟨f.projected, some e⟩ ∈ x.project := (hmem f.projected e).mpr he
  refine ⟨e, he, ?_, ?_, ?_⟩
  · rw [hfields]
    exact (Projection.get?_fields_eq_some_iff hfaithful).mpr hlast
  · rintro rfl
    exact brushes_of_mem htype hfields hfaithful hc hlast
  · intro hne
    refine skips_of_forall_not_mem htype hfields hfaithful ?_
    intro field hrecorded
    obtain ⟨g, hg, rfl⟩ := hfaithful.leads _ hrecorded c rfl
    obtain rfl : f = g := Option.some.inj (hf.symm.trans hg)
    exact hne (Option.some.inj (he.symm.trans ((hmem _ c).mp hrecorded)))

end Selection

/-- A unit has each selection that it declares, as the definition says. -/
theorem Gathered.exists_own {s : Site} (h : Gathered s s.node.components) {u : UnitView}
    (hu : s.node.kind = .unit u) {key : String} {d : SelectionDef}
    (hd : u.selection.get? key = some d) :
    ∃ x, x = (Selection.ofDef ⟨s.node.index, key⟩ s.node.name u.fieldDef? d).1 ∧
      s.node.components.selection.get? key = some x ∧ x ∈ s.node.declared.values := by
  have hdeclared : s.node.declared.get? key =
      some (Selection.ofDef ⟨s.node.index, key⟩ s.node.name u.fieldDef? d).1 := by
    rw [Node.declared_unit hu, View.get?_ownSelections, hd, Option.map_some]
  refine ⟨_, rfl, ?_, Dict.mem_values_iff.mpr ⟨key, hdeclared⟩⟩
  rw [h.own (Node.isUnit_of_unit hu)]
  exact hdeclared

namespace View

/-- The signals of what a unit declares are among those of its group. -/
theorem signals_subset {whole : Spec} {v : View} (hb : Fits (fun s _ => s.Built whole) [] v)
    (hg : Fits Gathered [] v) {s : Site} (hs : s ∈ v.sites []) (hunit : s.node.isUnit = true) :
    ∃ g ∈ Site.groupRoots ⟨[], v⟩, s ∈ g.groupMembers ∧
      ∀ x ∈ s.node.declared.values, ∀ signal ∈ x.signals s, signal ∈ g.unitSignals := by
  obtain ⟨g, hroot, hmem⟩ := List.mem_flatMap.mp ((groupMembers_perm hb).mem_iff.mpr hs)
  refine ⟨g, hroot, hmem, ?_⟩
  intro x hx signal hsignal
  have hsite : g ∈ v.sites [] := mem_sites_of_mem_groupRoots hb hroot
  rw [unitSignals_eq (fun m hm => hg m (mem_sites_trans hsite hm))]
  exact List.mem_flatMap.mpr ⟨s, List.mem_filter.mpr ⟨hmem, hunit⟩,
    List.mem_flatMap.mpr ⟨x, hx, hsignal⟩⟩

end View

namespace Tree

variable {spec : Spec} {config : Config} {t : Tree} {ds : List Diagnostic}

/-- Every interval selection of every unit, over channels that it lists or over x and y: where x or y
is listed and bound to a field, what is recorded of the field goes to the last listed channel that
leads there. If that is the channel itself it is brushed, and otherwise nothing is brushed on it. -/
theorem brushes_of_build (h : Tree.build spec config = .ok (t, ds)) (pipeline : Pipeline) :
    ∀ s ∈ (t.parse pipeline).tree.rootSite.units, ∀ u, s.node.kind = .unit u →
      ∀ key d, u.selection.get? key = some d → d.type = .interval →
        ∃ x, s.node.components.selection.get? key = some x ∧
          (∃ g ∈ (t.parse pipeline).tree.rootSite.groupRoots, s ∈ g.groupMembers ∧
            ∀ signal ∈ x.signals s, signal ∈ g.unitSignals) ∧
          ∀ c f, c = .x ∨ c = .y → c ∈ d.withDefaults.encodings.getD [] →
            u.fieldDef? c = some f →
              ∃ e, (Projection.leading u.fieldDef? d.withDefaults f.projected).getLast? = some e ∧
                x.fields.get? e = some f.projected ∧
                  (e = c → x.Brushes s c f.projected) ∧ (e ≠ c → x.Skips s c) := by
  rw [parse_of_build h]
  intro s hs u hu key d hd htype
  have hbuilt := built_of_build h pipeline Phase.all
  have hgathered := gathered_of_build h pipeline
  obtain ⟨hmem, hunit⟩ := List.mem_filter.mp hs
  obtain ⟨x, hx, hget, hvalue⟩ := (hgathered s hmem).exists_own hu hd
  obtain ⟨g, hroot, hmember, hsignals⟩ := View.signals_subset hbuilt hgathered hmem hunit
  refine ⟨x, hget, ⟨g, hroot, hmember, hsignals x hvalue⟩, ?_⟩
  intro c f hc hlisted hf
  exact Selection.ofDef_brushes htype hx hc hlisted hf

end Tree

/-! ### Means -/

/-- Points with a along x and the mean of a field along y, which a brush selects by. -/
def Spec.brushedMeans (field : String) : Spec :=
  .unit ⟨⟨none, none, none, none⟩, ⟨none, none⟩, ⟨.point, none⟩,
    .ofList [
      (.x, .field { FieldDef.unset with field := some "a", type := some .quantitative }),
      (.y, .field { FieldDef.unset with
        field := some field, type := some .quantitative, aggregate := some "mean" })],
    .ofList [("brush", ⟨.interval, none, none, none⟩)]⟩

namespace Tree

/-- The mean of a is recorded as a itself, so the brush on it takes the place of the one on a. -/
theorem brushes_brushedMeans : ∃ t ds, Tree.build (.brushedMeans "a") .default = .ok (t, ds) ∧
    ∃ s ∈ (t.parse .standard).tree.rootSite.units, ∃ u d,
      s.node.kind = .unit u ∧ u.selection.get? "brush" = some d ∧ d.type = .interval ∧
        d.withDefaults.encodings.getD [] = [.x, .y] ∧
          (u.fieldDef? .x).isSome = true ∧ (u.fieldDef? .y).isSome = true ∧
            ∃ x, s.node.components.selection.get? "brush" = some x ∧
              x.Brushes s .y "a" ∧ x.Skips s .x := by
  have hfound : (Tree.build (.brushedMeans "a") .default).toOption.any (fun r =>
      (r.1.parse .standard).tree.rootSite.units.any (fun s => s.node.unit?.any (fun u =>
        (u.selection.get? "brush").any (fun d =>
          decide (d.type = .interval ∧ d.withDefaults.encodings.getD [] = [.x, .y] ∧
            (u.fieldDef? .x).map FieldDef.projected = some "a" ∧
              (u.fieldDef? .y).map FieldDef.projected = some "a"))))) = true := by
    decide +kernel
  obtain ⟨⟨t, ds⟩, hb, hfound⟩ := exists_ok_of_any hfound
  obtain ⟨s, hs, hfound⟩ := List.any_eq_true.mp hfound
  obtain ⟨u, hu, hfound⟩ := (Option.any_eq_true _ _).mp hfound
  obtain ⟨d, hd, hfound⟩ := (Option.any_eq_true _ _).mp hfound
  obtain ⟨htype, hlisted, hx, hy⟩ := of_decide_eq_true hfound
  obtain ⟨f, hf, hfield⟩ := Option.map_eq_some_iff.mp hx
  obtain ⟨g, hg, hmean⟩ := Option.map_eq_some_iff.mp hy
  have hkind := Node.kind_of_unit? hu
  have hmem (c : Channel) (hc : c = .x ∨ c = .y) : c ∈ d.withDefaults.encodings.getD [] := by
    rw [hlisted]
    rcases hc with rfl | rfl <;> decide
  have hlast : (Projection.leading u.fieldDef? d.withDefaults "a").getLast? = some .y := by
    rw [Projection.leading, hlisted]
    simp [hf, hg, hfield, hmean]
  obtain ⟨x, hget, -, hall⟩ := brushes_of_build hb .standard s hs u hkind "brush" d hd htype
  refine ⟨t, ds, hb, s, hs, u, d, hkind, hd, htype, hlisted, ?_, ?_, x, hget, ?_, ?_⟩
  · rw [hf, Option.isSome_some]
  · rw [hg, Option.isSome_some]
  · obtain ⟨e, he, -, hbrushes, -⟩ := hall .y g (.inr rfl) (hmem .y (.inr rfl)) hg
    rw [hmean, hlast] at he
    rw [← hmean]
    exact hbrushes (Option.some.inj he).symm
  · obtain ⟨e, he, -, -, hskips⟩ := hall .x f (.inl rfl) (hmem .x (.inl rfl)) hf
    rw [hfield, hlast] at he
    obtain rfl := Option.some.inj he
    exact hskips (by decide)

/-- A channel that is listed and bound to a field may still lead nowhere. -/
theorem brushes_lost : ¬ ∀ spec config pipeline t ds, Tree.build spec config = .ok (t, ds) →
    ∀ s ∈ (t.parse pipeline).tree.rootSite.units, ∀ u, s.node.kind = .unit u →
      ∀ key d, u.selection.get? key = some d → d.type = .interval →
        ∀ c, c = .x ∨ c = .y → c ∈ d.withDefaults.encodings.getD [] →
          (u.fieldDef? c).isSome = true →
            ∃ x, s.node.components.selection.get? key = some x ∧ x.fields.contains c = true := by
  intro hall
  have hlost : (Tree.build (.brushedMeans "a") .default).toOption.any (fun r =>
      (r.1.parse .standard).tree.rootSite.units.any (fun s => s.node.unit?.any (fun u =>
        (u.selection.get? "brush").any (fun d =>
          decide (d.type = .interval ∧ .x ∈ d.withDefaults.encodings.getD [] ∧
            (u.fieldDef? .x).isSome = true ∧
              (s.node.components.selection.get? "brush").any
                (fun x => x.fields.contains .x) = false))))) = true := by
    decide +kernel
  obtain ⟨⟨t, ds⟩, hb, hlost⟩ := exists_ok_of_any hlost
  obtain ⟨s, hs, hlost⟩ := List.any_eq_true.mp hlost
  obtain ⟨u, hu, hlost⟩ := (Option.any_eq_true _ _).mp hlost
  obtain ⟨d, hd, hlost⟩ := (Option.any_eq_true _ _).mp hlost
  obtain ⟨htype, hlisted, hbound, hnone⟩ := of_decide_eq_true hlost
  obtain ⟨x, hx, hcontains⟩ := hall _ _ .standard t ds hb s hs u (Node.kind_of_unit? hu) "brush" d
    hd htype .x (.inl rfl) hlisted hbound
  rw [hx, Option.any_some] at hnone
  exact absurd (hcontains.symm.trans hnone) (by decide)

end Tree
end Trellis

import Trellis.Proofs.Holding

/-! Marks after their phase: a unit's mark reads the unit's data and refers to scales in use only,
and the cells of a facet refer to none. -/
namespace Trellis

/-- The scale that a visual property refers to. -/
def EncodeValue.scale? : EncodeValue → Option String
  | scaled scale _ => some scale
  | band scale => some scale
  | baseline scale => some scale
  | _ => none

/-- All visual properties satisfy a condition. -/
def EncodeEntry.Every (Q : EncodeValue → Prop) (e : EncodeEntry) : Prop := ∀ value ∈ e.values, Q value

/-- All scales that visual properties refer to satisfy a condition. -/
def EncodeEntry.Refers (P : String → Prop) (e : EncodeEntry) : Prop :=
  ∀ value ∈ e.values, ∀ name, value.scale? = some name → P name

namespace EncodeEntry

variable {Q : EncodeValue → Prop} {P : String → Prop} {e : EncodeEntry}

theorem every_empty : Every Q .empty := fun _ h => absurd h List.not_mem_nil

theorem Every.insert (h : e.Every Q) (key : String) {value : EncodeValue} (hv : Q value) :
    Every Q (e.insert key value) := by
  intro w hw
  obtain ⟨k, hk⟩ := Dict.mem_values_iff.mp hw
  rw [Dict.get?_insert] at hk
  split at hk
  · obtain rfl := Option.some.inj hk
    exact hv
  · exact h w (Dict.mem_values_iff.mpr ⟨k, hk⟩)

theorem every_ofStyle (hQ : ∀ j, Q (.constant j)) (s : CellStyle) : Every Q (ofStyle s) := by
  intro value hv
  obtain ⟨k, hk⟩ := Dict.mem_values_iff.mp hv
  obtain ⟨⟨l, j⟩, -, he⟩ := List.mem_map.mp (Dict.mem_of_get?_ofList hk)
  obtain ⟨rfl, rfl⟩ := Prod.mk.inj he
  exact hQ j

theorem Every.extend {cover : EncodeEntry} (h : e.Every Q) (hc : cover.Every Q) :
    Every Q (e.extend cover) := by
  intro value hv
  obtain ⟨k, hk⟩ := Dict.mem_values_iff.mp hv
  rcases Dict.get?_foldl_insert hk with hm | hd
  · exact hc value (Dict.mem_values_iff.mpr ⟨k, Dict.mem_entries_iff.mp hm⟩)
  · exact h value (Dict.mem_values_iff.mpr ⟨k, hd⟩)

theorem refers_iff :
    e.Refers P ↔ e.Every (fun value => ∀ name, value.scale? = some name → P name) := Iff.rfl

end EncodeEntry

namespace Encode

open EncodeEntry

/-- The scales of the channels on which a unit shows a field satisfy a condition. -/
def ShownScales (P : String → Prop) (s : Site) (u : UnitView) : Prop :=
  ∀ c ∈ Channel.scaleChannels, (u.positionFieldDef? c).isSome = true → P (s.scaleName c)

/-- What a visual property of a unit's mark can be: the far end of a position goes through the scale
of the near one, and a label reads the record itself. -/
inductive Shows (s : Site) (config : Config) (u : UnitView) : EncodeValue → Prop where
  | scaled {c shown : Channel} {f : FieldDef} (hc : c ∈ Channel.scaleChannels)
      (hshown : shown = c ∨ c.secondary? = some shown) (hf : u.fieldDef? shown = some f) :
      Shows s config u (.scaled (s.scaleName c) f.column)
  | band {c : Channel} {f : FieldDef} (hc : c ∈ Channel.scaleChannels)
      (hf : u.fieldDef? c = some f) : Shows s config u (.band (s.scaleName c))
  | baseline {c : Channel} {f : FieldDef} (hc : c ∈ Channel.scaleChannels)
      (hf : u.fieldDef? c = some f) : Shows s config u (.baseline (s.scaleName c))
  | label {c : Channel} {f : FieldDef} (hf : u.fieldDef? c = some f) :
      Shows s config u (.signal (f.label none .datum config).expression)
  | constant (j : Json) : Shows s config u (.constant j)
  | groupSize (d : Dimension) : Shows s config u (.groupSize d)
  | groupMiddle (d : Dimension) : Shows s config u (.groupMiddle d)

variable {s : Site} {config : Config} {u : UnitView} {e : EncodeEntry}

theorem fieldDef?_of_get? {c : Channel} {f : FieldDef} (h : u.encoding.get? c = some (.field f)) :
    u.fieldDef? c = some f := by
  rw [UnitView.fieldDef?, h]
  rfl

theorem positionFieldDef?_near {c : Channel} {f : FieldDef} (h : u.fieldDef? c = some f) :
    (u.positionFieldDef? c).isSome = true := by
  unfold UnitView.positionFieldDef?
  rw [h]
  rfl

theorem positionFieldDef?_far {c c2 : Channel} {f : FieldDef} (hc : c.secondary? = some c2)
    (h : u.fieldDef? c2 = some f) : (u.positionFieldDef? c).isSome = true := by
  unfold UnitView.positionFieldDef? UnitView.secondaryFieldDef?
  rw [hc, Option.bind_some, h]
  cases u.fieldDef? c <;> rfl

theorem valueOf_shows {c shown : Channel} (hc : c ∈ Channel.scaleChannels)
    (hshown : shown = c ∨ c.secondary? = some shown) {d : ChannelDef}
    (hd : u.encoding.get? shown = some d) : Shows s config u (valueOf s c d) := by
  cases d with
  | value j => exact .constant j
  | field f => exact .scaled hc hshown (fieldDef?_of_get? hd)

theorem extent_shows {c c2 : Channel} {d : Dimension} {f : FieldDef}
    (hc : c ∈ Channel.scaleChannels) (hf : u.fieldDef? c = some f)
    (h : e.Every (Shows s config u)) : (extent s u c c2 d e).Every (Shows s config u) := by
  -- a bar may start at a band, at a baseline or nowhere, all along the same scale
  unfold extent
  split
  · exact h.insert _ (.band hc hf)
  · split
    · exact h.insert _ (.constant _)
    · split
      · exact h
      · exact h.insert _ (.baseline hc hf)

theorem near_shows {c c2 : Channel} {d : Dimension} (hc : c ∈ Channel.scaleChannels)
    (h : e.Every (Shows s config u)) : (near s u c c2 d e).Every (Shows s config u) := by
  unfold near
  cases hget : u.encoding.get? c with
  | none =>
    dsimp only
    split
    · exact (h.insert _ (.constant _)).insert _ (.groupSize d)
    · split
      · exact h
      · exact h.insert _ (.groupMiddle d)
  | some shown =>
    cases shown with
    | value j => exact h.insert _ (.constant j)
    | field f =>
      have hf : u.fieldDef? c = some f := fieldDef?_of_get? hget
      have hfirst := h.insert c.name (.scaled hc (.inl rfl) hf)
      dsimp only
      split
      · exact extent_shows hc hf hfirst
      · exact hfirst

theorem position_shows {c c2 : Channel} {d : Dimension} (hc : c ∈ Channel.scaleChannels)
    (hc2 : c.secondary? = some c2) (h : e.Every (Shows s config u)) :
    (position s u c c2 d e).Every (Shows s config u) := by
  have hnear : (near s u c c2 d e).Every (Shows s config u) := near_shows hc h
  unfold position
  cases hfar : u.encoding.get? c2 with
  | none => exact hnear
  | some far => exact hnear.insert _ (valueOf_shows hc (.inr hc2) hfar)

theorem color_shows (h : e.Every (Shows s config u)) :
    (color s config u e).Every (Shows s config u) := by
  unfold color
  apply h.insert _
  cases hd : u.encoding.get? .color with
  | none => exact .constant _
  | some d => exact valueOf_shows (by decide) (.inl rfl) hd

theorem appearance_shows (h : e.Every (Shows s config u)) :
    (appearance s u e).Every (Shows s config u) := by
  have hchannels : ∀ c ∈ [Channel.size, .shape, .opacity], c ∈ Channel.scaleChannels := by decide
  unfold appearance
  dsimp only
  generalize hfold : List.foldl _ e _ = shown
  have hshown : shown.Every (Shows s config u) := by
    rw [← hfold]
    apply List.foldlRecOn (motive := Every (Shows s config u)) _ _ h
    rintro e he ⟨c, property⟩ hc
    have hmem : c ∈ [Channel.size, .shape, .opacity] := List.mem_map_of_mem (f := Prod.fst) hc
    dsimp only
    split
    · rename_i d hd
      exact he.insert _ (valueOf_shows (hchannels c hmem) (.inl rfl) hd)
    · exact he
  split
  · exact hshown
  · split
    · exact hshown.insert _ (.constant _)
    · exact hshown.insert _ (.constant _)
    · exact hshown

theorem texts_shows (h : e.Every (Shows s config u)) :
    (texts config u e).Every (Shows s config u) := by
  apply List.foldlRecOn (motive := Every (Shows s config u)) _ _ h
  intro e he c _
  split
  · rename_i f hf
    exact he.insert _ (.label (fieldDef?_of_get? hf))
  · exact he.insert _ (.constant _)
  · exact he

/-- The visual properties of a unit's mark show what its channels ask for. -/
theorem entry_shows (s : Site) (config : Config) (u : UnitView) :
    (entry s config u).Every (Shows s config u) := by
  unfold entry
  refine texts_shows (appearance_shows (color_shows ?_))
  apply position_shows (by decide) rfl
  exact position_shows (by decide) rfl every_empty

/-- A unit's mark refers to the scales of the channels that it shows. -/
theorem entry_refers {P : String → Prop} (config : Config) (hs : ShownScales P s u) :
    Refers P (entry s config u) := by
  intro value hvalue name hname
  cases entry_shows s config u value hvalue with
  | scaled hc hshown hf =>
    obtain rfl := Option.some.inj hname
    rcases hshown with rfl | hfar
    · exact hs _ hc (positionFieldDef?_near hf)
    · exact hs _ hc (positionFieldDef?_far hfar hf)
  | band hc hf =>
    obtain rfl := Option.some.inj hname
    exact hs _ hc (positionFieldDef?_near hf)
  | baseline hc hf =>
    obtain rfl := Option.some.inj hname
    exact hs _ hc (positionFieldDef?_near hf)
  | _ => cases hname

end Encode

/-- The marks of a site, with what they read. -/
def Marked (input : Option DataDef) : Fact := fun s k =>
  match s.node.kind with
  | .unit _ => ∃ m, k.mark = [.unit m] ∧ m.source = (Pipeline.standard.parse input s).source ∧
      m.update.Refers (InUse s)
  | .layer _ => True
  | .facet _ => ∃ m, k.mark = [.cell m] ∧ m.update.Refers (fun _ => False)

theorem marked_siteBlind (input : Option DataDef) {phase : Phase} (h : phase ≠ .scale) :
    Fact.SiteBlind phase (Marked input) := by
  intro s k
  have huse : InUse (s.updateAll (Components.without phase)) = InUse s :=
    funext (fun name => propext (inUse_updateAll (Components.without_scales h) s name))
  unfold Marked
  rw [parse_updateAll, huse, Site.node_updateAll]
  rfl

theorem marked_ownBlind (input : Option DataDef) {phase : Phase} (h : phase ≠ .markGroup) :
    Fact.OwnBlind phase (Marked input) := by
  intro s k
  unfold Marked
  rw [Components.without_mark h]

namespace View

/-- What the mark phase needs of a site. -/
def ReadyForMarks (whole : Spec) (input : Option DataDef) (phase : Phase) : Fact := fun s k =>
  s.Built whole ∧ Described input s k ∧ Uses s k ∧ Fact.done phase s k

theorem refers_ofFacet {P : String → Prop} (n : Node) (config : Config) (f : FacetView)
    (root : FacetRoot) (child : View) :
    (CellMark.ofFacet n config f root child).update.Refers P := by
  rw [EncodeEntry.refers_iff]
  have hstyle := EncodeEntry.every_ofStyle (Q := fun value => ∀ name, value.scale? = some name →
    P name) (by rintro j name ⟨⟩)
  have hgroup (v : View) (style : CellStyle) : (CellMark.groupEntry v style).Every
      (fun value => ∀ name, value.scale? = some name → P name) :=
    ((hstyle style).insert _ (by rintro name ⟨⟩)).insert _ (by rintro name ⟨⟩)
  refine EncodeEntry.Every.extend ?_ (hstyle config.facetCell)
  unfold CellMark.childEntry
  split
  · exact hgroup _ _
  · exact hgroup _ _
  · exact EncodeEntry.every_empty

/-- The cell of a facet that is built and described is worked out from the view under it. -/
theorem cellMark_ok {whole : Spec} {input : Option DataDef} {s : Site} (config : Config)
    {f : FacetView} (hk : s.node.kind = .facet f) (hb : s.Built whole)
    (hd : s.view.node.components.dataOrError = .ok (Pipeline.standard.parse input s)) :
    ∃ root child, cellMark config s.view f = .ok (.ofFacet s.node config f root child) := by
  have hf : s.node.isFacet = true := Node.isFacet_of_facet hk
  obtain ⟨child, hchild⟩ := hb.facet_single hf
  unfold cellMark facetChild
  rw [hchild, hd]
  dsimp only [Except.mapError, bind, Except.bind]
  rw [parse_facetRoot hf]
  exact ⟨_, child, rfl⟩

/-- The mark phase never fails, and leaves the marks described. -/
theorem bottomUp_mark {whole : Spec} {input : Option DataDef} (config : Config) {phase : Phase}
    {A : List Node} {v : View} (h : Fits (ReadyForMarks whole input phase) A v) :
    (v.bottomUp .markGroup (markStep config) A).error = none ∧
      Fits ((Marked input).both (.done .markGroup)) A
        (v.bottomUp .markGroup (markStep config) A).view := by
  have hP : Fact.SiteBlind .markGroup (ReadyForMarks whole input phase) := by
    intro s k
    unfold ReadyForMarks
    rw [s.built_updateAll, described_siteBlind, uses_siteBlind (by decide)]
    rfl
  refine bottomUp_fits (markStep_frame config) hP ?_ h
  rintro s ⟨hb, hd, hu, hdone⟩ hin
  have hblind : Fact.SiteBlind .markGroup (Marked input) := marked_siteBlind input (by decide)
  have hrest {marks : List MarkComponent}
      (hk : Marked input s { s.node.components with mark := marks, completed := some .markGroup }) :
      Fits ((Marked input).both (.done .markGroup)) s.ancestors
        ((s.view.update (fun c => { c with mark := marks })).update (markDone .markGroup)) := by
    refine fits_own_step hblind ?_ hin hk
    intro _
    rfl
  -- the data phase is done, so its component is there for every kind of node
  have hdata : s.node.components.dataOrError = .ok (Pipeline.standard.parse input s) :=
    dataOrError_of_done hd hdone
  have hkind : s.view.node.kind = s.node.kind := rfl
  have hcomp : s.view.node.components.dataOrError = .ok (Pipeline.standard.parse input s) := hdata
  unfold markStep
  rw [hkind, hcomp]
  cases hk : s.node.kind with
  | unit u =>
    refine ⟨_, _, rfl, hrest ?_⟩
    unfold Marked
    rw [hk]
    refine ⟨_, rfl, rfl, Encode.entry_refers config ?_⟩
    intro c hc hf
    exact inUse_scaleName (scaleHolder?_unit hu hk hc hf)
  | layer size =>
    refine ⟨_, _, rfl, ?_⟩
    refine fits_update (hblind.both (Fact.done_siteBlind _ _)) (Components.without_completed _ _)
      hin ⟨?_, rfl⟩
    unfold Marked
    rw [hk]
    trivial
  | facet f =>
    obtain ⟨root, child, hcell⟩ := cellMark_ok config hk hb hcomp
    dsimp only
    rw [hcell]
    refine ⟨_, _, rfl, hrest ?_⟩
    unfold Marked
    rw [hk]
    exact ⟨_, rfl, refers_ofFacet s.node config f root child⟩

end View
end Trellis

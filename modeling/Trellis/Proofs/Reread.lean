import Trellis.Proofs.Records

/-! What comes back when a specification is written and read again: the same specification, but that
every guide left to itself is switched off. -/
namespace Trellis

open Decode

/-! ### Guides -/

/-- The choice that comes back: a guide left to itself is written as null. -/
def GuideChoice.reread {α : Type} : GuideChoice α → GuideChoice α
  | automatic => disabled
  | disabled => disabled
  | custom a => custom a

theorem GuideChoice.reread_eq_iff {α : Type} (c : GuideChoice α) :
    c.reread = c ↔ c ≠ automatic := by
  cases c <;> simp [reread]

theorem GuideChoice.ofField_of_ne {α : Type} {fields : Fields} {index : Nat} {name : String}
    {j : Json} (hget : fields.get? index name = some j) (hj : j ≠ .null) (d : Decode α) :
    ofField fields index name d = custom <$> d j := by
  rw [ofField, hget]
  split
  · rename_i heq
    exact absurd heq nofun
  · rename_i heq
    exact absurd (Option.some.inj heq) hj
  · rename_i heq
    rw [Option.some.inj heq]

theorem GuideChoice.ofField_custom {α : Type} {fields : Fields} {index : Nat} {name : String}
    {d : Decode α} {a : α} (h : ofField fields index name d = .ok (custom a)) :
    ∃ j, j ≠ .null ∧ d j = .ok a := by
  cases hget : fields.get? index name with
  | none =>
    rw [ofField, hget] at h
    exact absurd (Except.ok.inj h) nofun
  | some j =>
    by_cases hj : j = .null
    · rw [ofField, hget, hj] at h
      exact absurd (Except.ok.inj h) nofun
    · rw [ofField_of_ne hget hj] at h
      cases ha : d j with
      | error e => exact absurd (ha ▸ h) nofun
      | ok b =>
        rw [ha] at h
        exact ⟨j, hj, by rw [ha, custom.inj (Except.ok.inj h)]⟩

theorem GuideChoice.ofField_written {α : Type} {members : List (String × Json)} {name : String}
    (hd : (members.map Prod.fst).Nodup) {d : Decode α} {f : α → Json} {c : GuideChoice α}
    (h : (name, c.toJson f) ∈ members) (hdf : d.RoundTrips f) {fields : Fields} {index : Nat}
    (hc : ofField fields index name d = .ok c) (k : Nat) :
    ofField (.written members) k name d = .ok c.reread := by
  have hget := Fields.get?_written_of_mem hd h k
  cases c with
  | automatic => rw [ofField, hget]; rfl
  | disabled => rw [ofField, hget]; rfl
  | custom a =>
    obtain ⟨j, hj, ha⟩ := ofField_custom hc
    have hne : f a ≠ .null := hdf.ne_null hj ha
    rw [ofField_of_ne hget hne, toJson, hdf.back ha]
    rfl

namespace FieldDef

/-- The definition that comes back. -/
def reread (f : FieldDef) : FieldDef := { f with axis := f.axis.reread, legend := f.legend.reread }

theorem reread_eq_iff (f : FieldDef) :
    f.reread = f ↔ f.axis ≠ .automatic ∧ f.legend ≠ .automatic := by
  rw [← GuideChoice.reread_eq_iff, ← GuideChoice.reread_eq_iff]
  constructor
  · intro h
    exact ⟨congrArg axis h, congrArg legend h⟩
  · rintro ⟨ha, hl⟩
    rw [reread, ha, hl]

theorem decode_toJson {j : Json} {f : FieldDef} (hf : decode j = .ok f) :
    decode f.toJson = .ok f.reread := by
  simp only [decode, bind_eq_ok] at hf
  obtain ⟨fields, -, field, hfield, type, htype, aggregate, haggregate, timeUnit, htimeUnit, title,
    htitle, scale, hscale, axis, haxis, legend, hlegend, header, hheader, hf⟩ := hf
  obtain rfl := Except.ok.inj hf
  simp only [decode, toJson, bind_eq_ok]
  exact ⟨.written _, rfl,
    field, Fields.optional_written (by simp) (by simp) string_roundTrips hfield _,
    type, Fields.optional_written (by simp) (by simp) FieldType.roundTrips htype _,
    aggregate, Fields.optional_written (by simp) (by simp) string_roundTrips haggregate _,
    timeUnit, Fields.optional_written (by simp) (by simp) string_roundTrips htimeUnit _,
    title, Fields.optional_written (by simp) (by simp) string_roundTrips htitle _,
    scale, Fields.optional_written (by simp) (by simp) ScaleDef.roundTrips hscale _,
    axis.reread, GuideChoice.ofField_written (by simp) (by simp) AxisDef.roundTrips haxis _,
    legend.reread, GuideChoice.ofField_written (by simp) (by simp) LegendDef.roundTrips hlegend _,
    header, Fields.optional_written (by simp) (by simp) HeaderDef.roundTrips hheader _, rfl⟩

end FieldDef

namespace ChannelDef

/-- The definition that comes back. -/
def reread : ChannelDef → ChannelDef
  | value j => value j
  | field f => field f.reread

theorem reread_eq_iff (d : ChannelDef) : d.reread = d ↔ ∀ f ∈ d.fieldDef?, f.reread = f := by
  cases d with
  | value j => simp [reread, fieldDef?]
  | field f => simp [reread, fieldDef?]

/-- A written field has no member `value`, so it is not taken for a constant. -/
theorem decode_toJson {j : Json} {d : ChannelDef} (hd : decode j = .ok d) :
    decode d.toJson = .ok d.reread := by
  cases d with
  | value c =>
    have hvalue : decodeValue (.object [("value", c)]) = .ok (.value c) := by
      simp only [decodeValue, bind_eq_ok]
      exact ⟨.written _, rfl, c, Fields.required_written (by simp) (by simp) _ _, rfl⟩
    rw [decode, orElse, toJson, hvalue]
    rfl
  | field f =>
    obtain ⟨k, hk⟩ : ∃ k, FieldDef.decode k = .ok f := by
      rcases orElse_eq_ok hd with hvalue | hfield
      · simp only [decodeValue, bind_eq_ok] at hvalue
        obtain ⟨fields, -, c, -, h⟩ := hvalue
        exact absurd (Except.ok.inj h) (by simp)
      · obtain ⟨g, hg, h⟩ := bind_eq_ok.mp hfield
        obtain rfl := ChannelDef.field.inj (Except.ok.inj h)
        exact ⟨j, hg⟩
    have hvalue : decodeValue f.toJson = fail "the field value" := by
      rw [decodeValue, FieldDef.toJson, Fields.ofJson_object]
      change ((Fields.written _).required 0 "value" any >>= _) = _
      rw [Fields.required_written_of_not_mem (by simp) (by simp)]
      rfl
    rw [decode, toJson, orElse_of_error hvalue, FieldDef.decode_toJson hk]
    rfl

end ChannelDef

namespace Spec

/-! ### The kinds of view, given how the views within are read -/

/-- A layer from its members. -/
def layerOf (view : Decode Spec) (fields : Fields) : Except ReadError Spec := do
  let config ← fields.optional 0 "config" Config.decode
  let data ← fields.optional 0 "data" DataDef.decode
  let height ← fields.optional 0 "height" Decode.number
  let children ← fields.required 0 "layer" (Decode.list view)
  let name ← fields.optional 0 "name" Decode.string
  let resolve ← resolveOf fields
  let title ← fields.optional 0 "title" Decode.string
  let width ← fields.optional 0 "width" Decode.number
  return .layer ⟨⟨name, title, data, config⟩, ⟨width, height⟩, resolve⟩ children

/-- A facet from its members. -/
def facetOf (view : Decode Spec) (fields : Fields) : Except ReadError Spec := do
  let config ← fields.optional 0 "config" Config.decode
  let data ← fields.optional 0 "data" DataDef.decode
  let facet ← fields.required 0 "facet" (Decode.dict Channel.ofName FieldDef.decode)
  let name ← fields.optional 0 "name" Decode.string
  let resolve ← resolveOf fields
  let child ← fields.required 0 "spec" view
  let title ← fields.optional 0 "title" Decode.string
  return .facet ⟨⟨name, title, data, config⟩, facet, resolve⟩ child

theorem mapM_attach (d : Decode Spec) (js : List Json) :
    js.attach.mapM (fun ⟨j, _⟩ => d j) = each d js := by
  have hmap (ks : List Json) : ks.mapM d = each d ks := by
    induction ks with
    | nil => rfl
    | cons k rest ih => rw [List.mapM_cons, ih, each]
  rw [← hmap, List.mapM_subtype (fun _ _ => rfl), List.unattach_attach]

variable {ms : List (String × Json)}

theorem decode_facet (h : (Dict.lookup "facet" ms).isSome) :
    decode (.obj ms) = facetOf decode (.named ms) := by
  obtain ⟨binding, hb⟩ := Option.isSome_iff_exists.mp h
  rw [decode, facetOf]
  simp only [Fields.required, Fields.get?, hb]
  congr
  funext config
  congr
  funext data
  congr
  funext facet
  congr
  funext name
  congr
  funext resolve
  split <;> simp [*]

theorem decode_layer (hf : Dict.lookup "facet" ms = none) (h : (Dict.lookup "layer" ms).isSome) :
    decode (.obj ms) = layerOf decode (.named ms) := by
  obtain ⟨views, hv⟩ := Option.isSome_iff_exists.mp h
  rw [decode, layerOf]
  simp only [Fields.required, Fields.get?, hf, hv]
  split
  · rename_i list hl
    obtain rfl := Option.some.inj (hl.symm.trans hv)
    cases list with
    | arr views => simp only [Decode.list, ← mapM_attach]
    | _ => rfl
  · rename_i hl
    exact absurd (hl.symm.trans hv) (by simp)

theorem decode_unit (hf : Dict.lookup "facet" ms = none) (hl : Dict.lookup "layer" ms = none)
    (h : (Dict.lookup "mark" ms).isSome) : decode (.obj ms) = .unit <$> unitOf (.named ms) := by
  rw [decode]
  simp only [hf, if_pos h]
  split
  · rename_i views hv
    exact absurd (hl.symm.trans hv) (by simp)
  · rfl

theorem layerOf_kind {view : Decode Spec} {fields : Fields} {s : Spec}
    (h : layerOf view fields = .ok s) : ∃ l children, s = .layer l children := by
  simp only [layerOf, bind_eq_ok] at h
  obtain ⟨_, -, _, -, _, -, children, -, _, -, _, -, _, -, _, -, h⟩ := h
  exact ⟨_, children, (Except.ok.inj h).symm⟩

theorem facetOf_kind {view : Decode Spec} {fields : Fields} {s : Spec}
    (h : facetOf view fields = .ok s) : ∃ f child, s = .facet f child := by
  simp only [facetOf, bind_eq_ok] at h
  obtain ⟨_, -, _, -, _, -, _, -, _, -, child, -, _, -, h⟩ := h
  exact ⟨_, child, (Except.ok.inj h).symm⟩

/-- Every specification was read as one of the three kinds. -/
theorem decode_cases {j : Json} {s : Spec} (h : decode j = .ok s) :
    ∃ fields, (∃ u, s = .unit u ∧ unitOf fields = .ok u) ∨
      (∃ l children, s = .layer l children ∧ layerOf decode fields = .ok s) ∨
      ∃ f child, s = .facet f child ∧ facetOf decode fields = .ok s := by
  cases j with
  | obj ms =>
    refine ⟨.named ms, ?_⟩
    by_cases hf : (Dict.lookup "facet" ms).isSome
    · rw [decode_facet hf] at h
      obtain ⟨f, child, hs⟩ := facetOf_kind h
      exact .inr (.inr ⟨f, child, hs, h⟩)
    · have hf := Option.not_isSome_iff_eq_none.mp hf
      by_cases hl : (Dict.lookup "layer" ms).isSome
      · rw [decode_layer hf hl] at h
        obtain ⟨l, children, hs⟩ := layerOf_kind h
        exact .inr (.inl ⟨l, children, hs, h⟩)
      · have hl := Option.not_isSome_iff_eq_none.mp hl
        by_cases hm : (Dict.lookup "mark" ms).isSome
        · rw [decode_unit hf hl hm] at h
          cases hu : unitOf (.named ms) with
          | error e => exact absurd (hu ▸ h) (by simp)
          | ok u =>
            rw [hu] at h
            exact .inl ⟨u, (Except.ok.inj h).symm, rfl⟩
        · rw [decode] at h
          simp only [hf, if_neg hm] at h
          split at h
          · rename_i views hv
            exact absurd (hl.symm.trans hv) (by simp)
          · exact absurd h (by simp)
  | _ =>
    rw [decode] at h
    · exact absurd h (by simp)
    · simp

/-! ### The specification that comes back -/

mutual

/-- The specification with all guides that are left to themselves switched off. -/
def reread : Spec → Spec
  | unit s => .unit { s with encoding := s.encoding.mapValues ChannelDef.reread }
  | layer s children => .layer s (rereadIn children)
  | facet s child => .facet { s with facet := s.facet.mapValues FieldDef.reread } child.reread

def rereadIn : List Spec → List Spec
  | [] => []
  | s :: rest => s.reread :: rereadIn rest

end

/-- The field definitions of a view itself. -/
def ownFieldDefs : Spec → List FieldDef
  | unit s => s.encoding.values.filterMap ChannelDef.fieldDef?
  | layer _ _ => []
  | facet s _ => s.facet.values

/-- The field definitions of all views within. -/
def fieldDefs (s : Spec) : List FieldDef := s.parts.flatMap ownFieldDefs

theorem rereadIn_eq_map (ss : List Spec) : rereadIn ss = ss.map reread := by
  induction ss with
  | nil => rfl
  | cons s rest ih => rw [rereadIn, ih, List.map_cons]

theorem listToJson_eq_map (ss : List Spec) : listToJson ss = ss.map toJson := by
  induction ss with
  | nil => rfl
  | cons s rest ih => rw [listToJson, ih, List.map_cons]

theorem resolveOf_written {fields : Fields} {r : Resolve} (h : resolveOf fields = .ok r)
    {members : List (String × Json)} (hd : (members.map Prod.fst).Nodup)
    (hm : ("resolve", r.toJson) ∈ members) : resolveOf (.written members) = .ok r :=
  Fields.default_written hd hm Resolve.roundTrips h (j := .obj []) rfl _

theorem selectionOf_written {fields : Fields} {d : Dict String SelectionDef}
    (h : selectionOf fields = .ok d) {members : List (String × Json)}
    (hd : (members.map Prod.fst).Nodup) (hm : ("selection", selectionToJson d) ∈ members) :
    selectionOf (.written members) = .ok d :=
  Fields.default_written hd hm (dict_roundTrips (fun _ => rfl) SelectionDef.roundTrips) h
    (j := .obj []) rfl _

theorem encodingOf_written {fields : Fields} {e : Dict Channel ChannelDef}
    (h : encodingOf fields = .ok e) {members : List (String × Json)}
    (hd : (members.map Prod.fst).Nodup) (hm : ("encoding", encodingToJson e) ∈ members) :
    encodingOf (.written members) = .ok (e.mapValues ChannelDef.reread) := by
  rw [encodingOf, Fields.withDefault_written hd hm]
  apply dict_object Channel.ofName_name
  intro c d hcd
  rcases Fields.withDefault_eq_ok h with rfl | ⟨j, hj⟩
  · exact absurd hcd nofun
  · obtain ⟨k, hk⟩ := dict_eq_ok hj c d hcd
    exact ChannelDef.decode_toJson hk

theorem bindings_written {j : Json} {d : Dict Channel FieldDef}
    (h : Decode.dict Channel.ofName FieldDef.decode j = .ok d) :
    Decode.dict Channel.ofName FieldDef.decode (facetToJson d) =
      .ok (d.mapValues FieldDef.reread) := by
  apply dict_object Channel.ofName_name
  intro c f hcf
  obtain ⟨k, hk⟩ := dict_eq_ok h c f hcf
  exact FieldDef.decode_toJson hk

theorem unitOf_written {fields : Fields} {u : UnitSpec} (hu : unitOf fields = .ok u) :
    decode (toJson (.unit u)) = .ok (reread (.unit u)) := by
  simp only [unitOf, bind_eq_ok] at hu
  obtain ⟨config, hconfig, data, hdata, encoding, hencoding, height, hheight, mark, hmark, name,
    hname, selection, hselection, title, htitle, width, hwidth, hu⟩ := hu
  obtain rfl := Except.ok.inj hu
  obtain ⟨k, hk⟩ := Fields.required_eq_ok hmark
  let members := propsMembers ⟨name, title, data, config⟩ ++ sizeMembers ⟨width, height⟩ ++
    [("mark", mark.toJson), ("encoding", encodingToJson encoding),
      ("selection", selectionToJson selection)]
  have hd : (members.map Prod.fst).Nodup := by simp [members, propsMembers, sizeMembers]
  have hget (n : String) : Dict.lookup n (Dict.ofList members).entries = Dict.lookup n members :=
    Dict.get?_ofList_of_nodup hd n
  have hread : unitOf (.written members) = .ok ⟨⟨name, title, data, config⟩, ⟨width, height⟩, mark,
      encoding.mapValues ChannelDef.reread, selection⟩ := by
    simp only [unitOf, bind_eq_ok]
    exact ⟨config, Fields.optional_written hd (by simp [members, propsMembers]) Config.roundTrips
        hconfig _,
      data, Fields.optional_written hd (by simp [members, propsMembers]) DataDef.roundTrips hdata _,
      _, encodingOf_written hencoding hd (by simp [members]),
      height, Fields.optional_written hd (by simp [members, sizeMembers]) number_roundTrips
        hheight _,
      mark, (Fields.required_written hd (by simp [members]) _ _).trans (MarkDef.roundTrips.back hk),
      name, Fields.optional_written hd (by simp [members, propsMembers]) string_roundTrips hname _,
      selection, selectionOf_written hselection hd (by simp [members]),
      title, Fields.optional_written hd (by simp [members, propsMembers]) string_roundTrips
        htitle _,
      width, Fields.optional_written hd (by simp [members, sizeMembers]) number_roundTrips hwidth _,
      rfl⟩
  change decode (.obj (Dict.ofList members).entries) = _
  rw [decode_unit]
  · change Spec.unit <$> unitOf (.written members) = _
    rw [hread]
    rfl
  · rw [hget, Dict.lookup_eq_none (by simp [members, propsMembers, sizeMembers])]
  · rw [hget, Dict.lookup_eq_none (by simp [members, propsMembers, sizeMembers])]
  · have hmark : ("mark", mark.toJson) ∈ members := by simp [members]
    rw [hget, Dict.lookup_of_mem_of_nodup hd hmark]
    rfl

theorem layerOf_written {fields : Fields} {l : LayerSpec} {children : List Spec}
    (h : layerOf decode fields = .ok (.layer l children))
    (hback : ∀ c ∈ children, ∀ j, decode j = .ok c → decode c.toJson = .ok c.reread) :
    decode (toJson (.layer l children)) = .ok (reread (.layer l children)) := by
  simp only [layerOf, bind_eq_ok] at h
  obtain ⟨config, hconfig, data, hdata, height, hheight, views, hviews, name, hname, resolve,
    hresolve, title, htitle, width, hwidth, h⟩ := h
  obtain ⟨rfl, rfl⟩ := Spec.layer.inj (Except.ok.inj h)
  let members := propsMembers ⟨name, title, data, config⟩ ++ sizeMembers ⟨width, height⟩ ++
    [("layer", .arr (listToJson views)), ("resolve", resolve.toJson)]
  have hd : (members.map Prod.fst).Nodup := by simp [members, propsMembers, sizeMembers]
  have hget (n : String) : Dict.lookup n (Dict.ofList members).entries = Dict.lookup n members :=
    Dict.get?_ofList_of_nodup hd n
  have hlist : Decode.list decode (.arr (listToJson views)) = .ok (rereadIn views) := by
    rw [listToJson_eq_map, rereadIn_eq_map]
    apply each_map
    intro c hc
    obtain ⟨j, hj⟩ := Fields.required_eq_ok hviews
    obtain ⟨k, hk⟩ := list_eq_ok hj c hc
    exact hback c hc k hk
  have hread : layerOf decode (.written members) =
      .ok (.layer ⟨⟨name, title, data, config⟩, ⟨width, height⟩, resolve⟩ (rereadIn views)) := by
    simp only [layerOf, bind_eq_ok]
    exact ⟨config, Fields.optional_written hd (by simp [members, propsMembers]) Config.roundTrips
        hconfig _,
      data, Fields.optional_written hd (by simp [members, propsMembers]) DataDef.roundTrips hdata _,
      height, Fields.optional_written hd (by simp [members, sizeMembers]) number_roundTrips
        hheight _,
      _, (Fields.required_written hd (by simp [members]) _ _).trans hlist,
      name, Fields.optional_written hd (by simp [members, propsMembers]) string_roundTrips hname _,
      resolve, resolveOf_written hresolve hd (by simp [members]),
      title, Fields.optional_written hd (by simp [members, propsMembers]) string_roundTrips
        htitle _,
      width, Fields.optional_written hd (by simp [members, sizeMembers]) number_roundTrips hwidth _,
      rfl⟩
  rw [toJson, reread]
  change decode (.obj (Dict.ofList members).entries) = _
  rw [decode_layer]
  · exact hread
  · rw [hget, Dict.lookup_eq_none (by simp [members, propsMembers, sizeMembers])]
  · have hviews : ("layer", .arr (listToJson views)) ∈ members := by simp [members]
    rw [hget, Dict.lookup_of_mem_of_nodup hd hviews]
    rfl

theorem facetOf_written {fields : Fields} {f : FacetSpec} {child : Spec}
    (h : facetOf decode fields = .ok (.facet f child))
    (hback : ∀ j, decode j = .ok child → decode child.toJson = .ok child.reread) :
    decode (toJson (.facet f child)) = .ok (reread (.facet f child)) := by
  simp only [facetOf, bind_eq_ok] at h
  obtain ⟨config, hconfig, data, hdata, facet, hfacet, name, hname, resolve, hresolve, view, hview,
    title, htitle, h⟩ := h
  obtain ⟨rfl, rfl⟩ := Spec.facet.inj (Except.ok.inj h)
  obtain ⟨j, hj⟩ := Fields.required_eq_ok hfacet
  obtain ⟨k, hk⟩ := Fields.required_eq_ok hview
  let members := propsMembers ⟨name, title, data, config⟩ ++
    [("facet", facetToJson facet), ("spec", view.toJson), ("resolve", resolve.toJson)]
  have hd : (members.map Prod.fst).Nodup := by simp [members, propsMembers]
  have hget (n : String) : Dict.lookup n (Dict.ofList members).entries = Dict.lookup n members :=
    Dict.get?_ofList_of_nodup hd n
  have hread : facetOf decode (.written members) = .ok (.facet
      ⟨⟨name, title, data, config⟩, facet.mapValues FieldDef.reread, resolve⟩ view.reread) := by
    simp only [facetOf, bind_eq_ok]
    exact ⟨config, Fields.optional_written hd (by simp [members, propsMembers]) Config.roundTrips
        hconfig _,
      data, Fields.optional_written hd (by simp [members, propsMembers]) DataDef.roundTrips hdata _,
      _, (Fields.required_written hd (by simp [members]) _ _).trans (bindings_written hj),
      name, Fields.optional_written hd (by simp [members, propsMembers]) string_roundTrips hname _,
      resolve, resolveOf_written hresolve hd (by simp [members]),
      _, (Fields.required_written hd (by simp [members]) _ _).trans (hback k hk),
      title, Fields.optional_written hd (by simp [members, propsMembers]) string_roundTrips
        htitle _, rfl⟩
  rw [toJson, reread]
  change decode (.obj (Dict.ofList members).entries) = _
  rw [decode_facet]
  · exact hread
  · have hfacet : ("facet", facetToJson facet) ∈ members := by simp [members]
    rw [hget, Dict.lookup_of_mem_of_nodup hd hfacet]
    rfl

/-- What is written of a specification that was read is read again, with guides that were left to
themselves switched off. -/
theorem decode_toJson {j : Json} {s : Spec} (h : decode j = .ok s) :
    decode s.toJson = .ok s.reread := by
  induction s using induct generalizing j with
  | unit u =>
    obtain ⟨fields, ⟨v, hv, hu⟩ | ⟨l, children, hs, -⟩ | ⟨f, child, hs, -⟩⟩ := decode_cases h
    · obtain rfl := Spec.unit.inj hv
      exact unitOf_written hu
    · exact absurd hs nofun
    · exact absurd hs nofun
  | layer l children ih =>
    obtain ⟨fields, ⟨u, hs, -⟩ | ⟨-, -, -, hl⟩ | ⟨f, child, hs, -⟩⟩ := decode_cases h
    · exact absurd hs nofun
    · exact layerOf_written hl (fun c hc k hk => ih c hc hk)
    · exact absurd hs nofun
  | facet f child ih =>
    obtain ⟨fields, ⟨u, hs, -⟩ | ⟨l, children, hs, -⟩ | ⟨-, -, -, hf⟩⟩ := decode_cases h
    · exact absurd hs nofun
    · exact absurd hs nofun
    · exact facetOf_written hf (fun k hk => ih hk)

/-! ### When nothing changes -/

theorem fieldDefs_unit (u : UnitSpec) :
    (Spec.unit u).fieldDefs = u.encoding.values.filterMap ChannelDef.fieldDef? :=
  List.append_nil _

theorem mem_fieldDefs_layer {l : LayerSpec} {children : List Spec} {f : FieldDef} :
    f ∈ (Spec.layer l children).fieldDefs ↔ ∃ c ∈ children, f ∈ c.fieldDefs := by
  simp only [fieldDefs, parts, List.flatMap_cons, ownFieldDefs, List.nil_append, List.mem_flatMap,
    mem_partsIn]
  constructor
  · rintro ⟨s, ⟨c, hc, hs⟩, hf⟩
    exact ⟨c, hc, s, hs, hf⟩
  · rintro ⟨c, hc, s, hs, hf⟩
    exact ⟨s, ⟨c, hc, hs⟩, hf⟩

theorem fieldDefs_facet (f : FacetSpec) (child : Spec) :
    (Spec.facet f child).fieldDefs = f.facet.values ++ child.fieldDefs := rfl

theorem reread_unit_eq_iff (u : UnitSpec) :
    reread (.unit u) = .unit u ↔ ∀ d ∈ u.encoding.values, d.reread = d := by
  rw [← Dict.mapValues_eq_iff, reread]
  constructor
  · intro h
    exact congrArg UnitSpec.encoding (Spec.unit.inj h)
  · intro h
    rw [h]

theorem reread_layer_eq_iff (l : LayerSpec) (children : List Spec) :
    reread (.layer l children) = .layer l children ↔ ∀ c ∈ children, c.reread = c := by
  have hmap : children.map reread = children ↔ ∀ c ∈ children, c.reread = c := by
    have h := List.map_inj_left (l := children) (f := reread) (g := id)
    rwa [List.map_id] at h
  rw [← hmap, reread, rereadIn_eq_map, Spec.layer.injEq, eq_self, true_and]

theorem reread_facet_eq_iff (f : FacetSpec) (child : Spec) :
    reread (.facet f child) = .facet f child ↔
      (∀ d ∈ f.facet.values, d.reread = d) ∧ child.reread = child := by
  rw [← Dict.mapValues_eq_iff, reread, Spec.facet.injEq]
  refine and_congr_left' ?_
  constructor
  · intro h
    exact congrArg FacetSpec.facet h
  · intro h
    rw [h]

/-- A specification comes back as it is exactly if every field definition in it says what becomes of
its axis and of its legend. -/
theorem reread_eq_iff (s : Spec) :
    s.reread = s ↔ ∀ f ∈ s.fieldDefs, f.axis ≠ .automatic ∧ f.legend ≠ .automatic := by
  have hdef (f : FieldDef) := f.reread_eq_iff
  induction s using induct with
  | unit u =>
    rw [reread_unit_eq_iff, fieldDefs_unit]
    simp only [ChannelDef.reread_eq_iff, hdef, List.mem_filterMap, Option.mem_def]
    constructor
    · rintro h f ⟨d, hd, hf⟩
      exact h d hd f hf
    · intro h d hd f hf
      exact h f ⟨d, hd, hf⟩
  | layer l children ih =>
    rw [reread_layer_eq_iff]
    simp only [mem_fieldDefs_layer]
    constructor
    · rintro h f ⟨c, hc, hf⟩
      exact (ih c hc).mp (h c hc) f hf
    · intro h c hc
      exact (ih c hc).mpr (fun f hf => h f ⟨c, hc, hf⟩)
  | facet f child ih =>
    rw [reread_facet_eq_iff, fieldDefs_facet, List.forall_mem_append]
    simp only [hdef]
    exact and_congr_right' ih

/-- Written and read again, a specification is read without a fault. It is the same one exactly if
every field definition in it says what becomes of its axis and of its legend, and else differs from
it in that the guides left to themselves are switched off. -/
theorem decode_toJson_eq_iff {j : Json} {s : Spec} (h : decode j = .ok s) :
    decode s.toJson = .ok s.reread ∧
      (decode s.toJson = .ok s ↔
        ∀ f ∈ s.fieldDefs, f.axis ≠ .automatic ∧ f.legend ≠ .automatic) := by
  have hback := decode_toJson h
  refine ⟨hback, ?_⟩
  rw [hback, Except.ok.injEq, reread_eq_iff]

/-- Points placed along x as a definition says. -/
def pointsOver (f : FieldDef) : UnitSpec :=
  ⟨⟨none, none, none, none⟩, ⟨none, none⟩, ⟨.point, none⟩, Dict.empty.insert .x (.field f), .empty⟩

/-- The JSON of points placed along x, given the members of the definition. -/
def pointsJson (members : List (String × Json)) : Json :=
  .obj [("encoding", .obj [("x", .obj members)]), ("mark", .str "point")]

theorem decode_pointsJson (members : List (String × Json)) {f : FieldDef}
    (h : ChannelDef.decode (.obj members) = .ok (.field f)) :
    decode (pointsJson members) = .ok (.unit (pointsOver f)) := by
  have hencoding : encodingOf (.named [("encoding", .obj [("x", .obj members)]),
      ("mark", .str "point")]) = .ok (Dict.empty.insert .x (.field f)) := by
    change (eachMember Channel.ofName ChannelDef.decode [("x", .obj members)] >>= _) = _
    rw [eachMember, h]
    rfl
  rw [pointsJson, decode_unit rfl rfl rfl, unitOf, hencoding]
  rfl

/-- With the axis switched off and a legend that has a title, nothing is left to itself. -/
theorem decode_toJson_eq_pointsJson :
    let f : FieldDef := { FieldDef.unset with
      field := some "a", axis := .disabled, legend := .custom ⟨some "A", none, none, .empty⟩ }
    let j := pointsJson
      [("axis", .null), ("field", .str "a"), ("legend", .obj [("title", .str "A")])]
    decode j = .ok (.unit (pointsOver f)) ∧
      decode (toJson (.unit (pointsOver f))) = .ok (.unit (pointsOver f)) := by
  have h := decode_pointsJson
    [("axis", .null), ("field", .str "a"), ("legend", .obj [("title", .str "A")])] rfl
  refine ⟨h, (decode_toJson_eq_iff h).2.mpr ?_⟩
  intro f hf
  obtain rfl := List.mem_singleton.mp hf
  exact ⟨nofun, nofun⟩

/-- A field definition that says nothing of its guides is another one after it was written. -/
theorem not_decode_toJson :
    ¬ ∀ (j : Json) (s : Spec), decode j = .ok s → decode s.toJson = .ok s := by
  intro hall
  have h := decode_pointsJson [("field", .str "a")] rfl
  have hsame := (decode_toJson h).symm.trans (hall _ _ h)
  have hguides := (reread_eq_iff _).mp (Except.ok.inj hsame)
  exact (hguides _ List.mem_cons_self).1 rfl

end Spec
end Trellis

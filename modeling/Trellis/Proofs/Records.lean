import Trellis.Proofs.Written

/-! Every record but a field definition is read back as it was written. -/
namespace Trellis

open Decode

/-! ### Choices -/

theorem FieldType.roundTrips : RoundTrips decode (fun t => .str t.name) :=
  choice_roundTrips (fun t => by cases t <;> rfl)

theorem ScaleType.roundTrips : RoundTrips decode (fun t => .str t.name) :=
  choice_roundTrips (fun t => by cases t <;> rfl)

theorem Orient.roundTrips : RoundTrips decode (fun o => .str o.name) :=
  choice_roundTrips (fun o => by cases o <;> rfl)

theorem MarkType.roundTrips : RoundTrips decode (fun m => .str m.name) :=
  choice_roundTrips (fun m => by cases m <;> rfl)

theorem SelectionType.roundTrips : RoundTrips decode (fun t => .str t.name) :=
  choice_roundTrips (fun t => by cases t <;> rfl)

theorem Resolution.roundTrips : RoundTrips decode (fun r => .str r.name) :=
  choice_roundTrips (fun r => by cases r <;> rfl)

theorem Channel.ofName_name (c : Channel) : ofName c.name = .ok c := by cases c <;> rfl

theorem Channel.roundTrips : RoundTrips decode (fun c => .str c.name) :=
  choice_roundTrips ofName_name

/-! ### Scales, guides and headers -/

theorem ScaleDef.roundTrips : RoundTrips decode toJson := by
  refine ⟨fun _ _ => nofun, ?_⟩
  intro j s hs
  simp only [decode, bind_eq_ok] at hs
  obtain ⟨fields, -, type, htype, domain, hdomain, range, hrange, rangeStep, hrangeStep, padding,
    hpadding, paddingInner, hpaddingInner, paddingOuter, hpaddingOuter, zero, hzero, nice, hnice,
    hs⟩ := hs
  obtain rfl := Except.ok.inj hs
  simp only [decode, toJson, bind_eq_ok]
  exact ⟨.written _, rfl,
    type, Fields.optional_written (by simp) (by simp) ScaleType.roundTrips htype _,
    domain, Fields.optional_written (by simp) (by simp) values_roundTrips hdomain _,
    range, Fields.optional_written (by simp) (by simp) any_roundTrips hrange _,
    rangeStep, Fields.optional_written (by simp) (by simp) number_roundTrips hrangeStep _,
    padding, Fields.optional_written (by simp) (by simp) number_roundTrips hpadding _,
    paddingInner, Fields.optional_written (by simp) (by simp) number_roundTrips hpaddingInner _,
    paddingOuter, Fields.optional_written (by simp) (by simp) number_roundTrips hpaddingOuter _,
    zero, Fields.optional_written (by simp) (by simp) bool_roundTrips hzero _,
    nice, Fields.optional_written (by simp) (by simp) bool_roundTrips hnice _, rfl⟩

theorem AxisDef.roundTrips : RoundTrips decode toJson := by
  refine ⟨fun _ _ => nofun, ?_⟩
  intro j a ha
  simp only [decode, bind_eq_ok] at ha
  obtain ⟨fields, -, orient, horient, title, htitle, format, hformat, grid, hgrid, ha⟩ := ha
  obtain rfl := Except.ok.inj ha
  -- no member that is not known has the name of one that is
  have hnew := fields.get?_others ["orient", "title", "format", "grid"]
  have hd := Fields.nodup_withOthers [
    ("orient", Json.ofOption (fun o => .str o.name) orient), ("title", Json.ofOption .str title),
    ("format", Json.ofOption .str format), ("grid", Json.ofOption .bool grid)] (by simp) hnew
  simp only [decode, toJson, bind_eq_ok]
  exact ⟨.written _, rfl,
    orient, Fields.optional_written hd (by simp) Orient.roundTrips horient _,
    title, Fields.optional_written hd (by simp) string_roundTrips htitle _,
    format, Fields.optional_written hd (by simp) string_roundTrips hformat _,
    grid, Fields.optional_written hd (by simp) bool_roundTrips hgrid _,
    congrArg (fun extra => Except.ok (AxisDef.mk orient title format grid extra))
      (Fields.ofList_others_written hd hnew)⟩

theorem LegendDef.roundTrips : RoundTrips decode toJson := by
  refine ⟨fun _ _ => nofun, ?_⟩
  intro j l hl
  simp only [decode, bind_eq_ok] at hl
  obtain ⟨fields, -, title, htitle, format, hformat, type, htype, hl⟩ := hl
  obtain rfl := Except.ok.inj hl
  have hnew := fields.get?_others ["title", "format", "type"]
  have hd := Fields.nodup_withOthers [("title", Json.ofOption .str title),
    ("format", Json.ofOption .str format), ("type", Json.ofOption .str type)] (by simp) hnew
  simp only [decode, toJson, bind_eq_ok]
  exact ⟨.written _, rfl,
    title, Fields.optional_written hd (by simp) string_roundTrips htitle _,
    format, Fields.optional_written hd (by simp) string_roundTrips hformat _,
    type, Fields.optional_written hd (by simp) string_roundTrips htype _,
    congrArg (fun extra => Except.ok (LegendDef.mk title format type extra))
      (Fields.ofList_others_written hd hnew)⟩

theorem HeaderDef.roundTrips : RoundTrips decode toJson := by
  refine ⟨fun _ _ => nofun, ?_⟩
  intro j h hh
  simp only [decode, bind_eq_ok] at hh
  obtain ⟨fields, -, title, htitle, format, hformat, hh⟩ := hh
  obtain rfl := Except.ok.inj hh
  simp only [decode, toJson, bind_eq_ok]
  exact ⟨.written _, rfl,
    title, Fields.optional_written (by simp) (by simp) string_roundTrips htitle _,
    format, Fields.optional_written (by simp) (by simp) string_roundTrips hformat _, rfl⟩

/-! ### Configurations -/

/-- Style properties come back from an object that has them beside other members. -/
theorem CellStyle.ofFields_written {fields : Fields} {s : CellStyle} (hs : ofFields fields = .ok s)
    {members : List (String × Json)} (hd : (members.map Prod.fst).Nodup)
    (hm : ∀ name ∈ ["fill", "stroke", "clip"],
      Dict.lookup name members = Dict.lookup name s.properties) :
    ofFields (.written members) = .ok s := by
  simp only [ofFields, bind_eq_ok] at hs
  obtain ⟨fill, hfill, stroke, hstroke, clip, hclip, hs⟩ := hs
  obtain rfl := Except.ok.inj hs
  simp only [List.forall_mem_cons, List.not_mem_nil, false_imp_iff, implies_true, and_true,
    properties, Dict.lookup_append, Dict.lookup_optional] at hm
  simp only [ofFields, bind_eq_ok]
  exact ⟨fill, Fields.given_written hd (by simp [hm]) string_roundTrips hfill _,
    stroke, Fields.given_written hd (by simp [hm]) string_roundTrips hstroke _,
    clip, Fields.given_written hd (by simp [hm]) bool_roundTrips hclip _, rfl⟩

theorem CellStyle.properties_nodup (s : CellStyle) : (s.properties.map Prod.fst).Nodup := by
  obtain ⟨fill, stroke, clip⟩ := s
  cases fill <;> cases stroke <;> cases clip <;> simp [properties, Json.optional]

theorem CellStyle.roundTrips : RoundTrips decode toJson := by
  refine ⟨fun _ _ => nofun, ?_⟩
  intro j s hs
  obtain ⟨fields, -, hs⟩ := bind_eq_ok.mp hs
  exact ofFields_written hs s.properties_nodup (fun _ _ => rfl)

theorem CellConfig.roundTrips : RoundTrips decode toJson := by
  refine ⟨fun _ _ => nofun, ?_⟩
  intro j c hc
  simp only [decode, bind_eq_ok] at hc
  obtain ⟨fields, -, width, hwidth, height, hheight, style, hstyle, hc⟩ := hc
  obtain rfl := Except.ok.inj hc
  have hd : (([("width", Json.real width), ("height", Json.real height)] ++
      style.properties).map Prod.fst).Nodup := by
    obtain ⟨fill, stroke, clip⟩ := style
    cases fill <;> cases stroke <;> cases clip <;> simp [CellStyle.properties, Json.optional]
  simp only [decode, toJson, bind_eq_ok]
  refine ⟨.written _, rfl,
    width, defaultNumber_written hd (by simp) hwidth _,
    height, defaultNumber_written hd (by simp) hheight _,
    style, ?_, rfl⟩
  apply CellStyle.ofFields_written hstyle hd
  intro name hname
  rw [Dict.lookup_append]
  simp only [List.mem_cons, List.not_mem_nil, or_false] at hname
  rcases hname with rfl | rfl | rfl <;> simp [Dict.lookup, Dict.compare_beq_eq]

theorem ScaleConfig.roundTrips : RoundTrips decode toJson := by
  refine ⟨fun _ _ => nofun, ?_⟩
  intro j s hs
  simp only [decode, bind_eq_ok] at hs
  obtain ⟨fields, -, rangeStep, hrangeStep, inner, hinner, outer, houter, padding,
    hpadding, hs⟩ := hs
  obtain rfl := Except.ok.inj hs
  simp only [decode, toJson, bind_eq_ok]
  exact ⟨.written _, rfl,
    rangeStep, defaultNumber_written (by simp) (by simp) hrangeStep _,
    inner, defaultNumber_written (by simp) (by simp) hinner _,
    outer, defaultNumber_written (by simp) (by simp) houter _,
    padding, defaultNumber_written (by simp) (by simp) hpadding _, rfl⟩

theorem Config.facet_roundTrips :
    RoundTrips decodeFacet (fun s => .object [("cell", s.toJson)]) := by
  refine ⟨fun _ _ => nofun, ?_⟩
  intro j s hs
  obtain ⟨fields, -, hs⟩ := bind_eq_ok.mp hs
  refine bind_eq_ok.mpr ⟨.written _, rfl, ?_⟩
  exact Fields.default_written (by simp) (by simp) CellStyle.roundTrips hs
    (j := .obj [("stroke", .str "#ccc")]) rfl _

theorem Config.roundTrips : RoundTrips decode toJson := by
  refine ⟨fun _ _ => nofun, ?_⟩
  intro j c hc
  simp only [decode, bind_eq_ok] at hc
  obtain ⟨fields, -, cell, hcell, facet, hfacet, scale, hscale, markColor, hmarkColor,
    numberFormat, hnumberFormat, timeFormat, htimeFormat, hc⟩ := hc
  obtain rfl := Except.ok.inj hc
  simp only [decode, toJson, bind_eq_ok]
  refine ⟨.written _, rfl, cell, ?_, facet, ?_, scale, ?_,
    markColor, defaultString_written (by simp) (by simp) hmarkColor _,
    numberFormat, defaultString_written (by simp) (by simp) hnumberFormat _,
    timeFormat, defaultString_written (by simp) (by simp) htimeFormat _, rfl⟩
  · exact Fields.default_written (by simp) (by simp) CellConfig.roundTrips hcell (j := .obj [])
      rfl _
  · exact Fields.default_written (by simp) (by simp) facet_roundTrips hfacet (j := .obj [])
      rfl _
  · exact Fields.default_written (by simp) (by simp) ScaleConfig.roundTrips hscale (j := .obj [])
      rfl _

/-! ### Data, selections, marks and decisions -/

theorem DataDef.roundTrips : RoundTrips decode toJson := by
  refine ⟨fun _ _ => nofun, ?_⟩
  intro j d hj
  simp only [decode, bind_eq_ok] at hj
  obtain ⟨fields, -, values, hvalues, url, hurl, format, hformat, hj⟩ := hj
  obtain rfl := Except.ok.inj hj
  have hd : ((properties ⟨values, url, format⟩).map Prod.fst).Nodup := by
    cases values <;> cases url <;> cases format <;> simp [properties, Json.optional]
  simp only [decode, toJson, bind_eq_ok]
  refine ⟨.written _, rfl, values, Fields.given_written hd ?_ values_roundTrips hvalues _,
    url, Fields.given_written hd ?_ string_roundTrips hurl _,
    format, Fields.given_written hd ?_ any_roundTrips hformat _, rfl⟩
  all_goals simp [properties, Dict.lookup_append, Dict.lookup_optional]

theorem SelectionDef.roundTrips : RoundTrips decode toJson := by
  refine ⟨fun _ _ => nofun, ?_⟩
  intro j s hs
  simp only [decode, bind_eq_ok] at hs
  obtain ⟨_, -, type, htype, fields, hfields, encodings, hencodings, on, hon, hs⟩ := hs
  obtain rfl := Except.ok.inj hs
  obtain ⟨k, hk⟩ := Fields.required_eq_ok htype
  have hencode : RoundTrips (Decode.list Channel.decode)
      (fun cs => Json.strings (cs.map Channel.name)) := by
    have := list_roundTrips Channel.roundTrips
    simpa only [Json.strings, List.map_map, Function.comp_def] using this
  simp only [decode, toJson, bind_eq_ok]
  exact ⟨.written _, rfl,
    type, (Fields.required_written (by simp) (by simp) _ _).trans
      (SelectionType.roundTrips.back hk),
    fields, Fields.optional_written (by simp) (by simp) strings_roundTrips hfields _,
    encodings, Fields.optional_written (by simp) (by simp) hencode hencodings _,
    on, Fields.optional_written (by simp) (by simp) string_roundTrips hon _, rfl⟩

/-- A mark is written in its long form, which is not the name of a mark. -/
theorem MarkDef.roundTrips : RoundTrips decode toJson := by
  refine ⟨fun _ _ => nofun, ?_⟩
  intro j m hm
  obtain ⟨fields, index, hfilled, k, htype⟩ : ∃ (fields : Fields) (index : Nat),
      fields.optional index "filled" Decode.bool = .ok m.filled ∧
        ∃ k, MarkType.decode k = .ok m.type := by
    rcases orElse_eq_ok hm with hshort | hlong
    · obtain ⟨type, htype, hm⟩ := bind_eq_ok.mp hshort
      obtain rfl := Except.ok.inj hm
      exact ⟨.named [], 0, rfl, j, htype⟩
    · simp only [decodeLong, bind_eq_ok] at hlong
      obtain ⟨fields, -, filled, hfilled, type, htype, hm⟩ := hlong
      obtain rfl := Except.ok.inj hm
      exact ⟨fields, 1, hfilled, Fields.required_eq_ok htype⟩
  have hd : (([("type", Json.str m.type.name)] ++ Json.optional "filled" .bool m.filled).map
      Prod.fst).Nodup := by
    cases m.filled <;> simp [Json.optional]
  have hshort : MarkType.decode m.toJson = fail "a name" :=
    choice_object hd (List.mem_append_left _ List.mem_cons_self) (by simp)
  rw [decode, orElse_of_error (by rw [hshort]; rfl)]
  simp only [decodeLong, toJson, bind_eq_ok]
  refine ⟨.written _, rfl, m.filled, Fields.given_written hd ?_ bool_roundTrips hfilled _,
    m.type, ?_, rfl⟩
  · simp [Dict.lookup_optional, Dict.lookup, Dict.compare_beq_eq]
  · rw [Fields.required_written hd (List.mem_append_left _ List.mem_cons_self)]
    exact MarkType.roundTrips.back htype

theorem Resolve.map_roundTrips : RoundTrips decodeMap mapToJson :=
  dict_roundTrips Channel.ofName_name Resolution.roundTrips

theorem Resolve.roundTrips : RoundTrips decode toJson := by
  refine ⟨fun _ _ => nofun, ?_⟩
  intro j r hr
  simp only [decode, bind_eq_ok] at hr
  obtain ⟨fields, -, scale, hscale, axis, haxis, legend, hlegend, hr⟩ := hr
  obtain rfl := Except.ok.inj hr
  simp only [decode, toJson, bind_eq_ok]
  refine ⟨.written _, rfl, scale, ?_, axis, ?_, legend, ?_, rfl⟩
  · exact Fields.default_written (by simp) (by simp) map_roundTrips hscale (j := .obj [])
      rfl _
  · exact Fields.default_written (by simp) (by simp) map_roundTrips haxis (j := .obj [])
      rfl _
  · exact Fields.default_written (by simp) (by simp) map_roundTrips hlegend (j := .obj [])
      rfl _

end Trellis

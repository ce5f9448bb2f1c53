import Mathlib.Data.List.Induction
import Trellis.Proofs.Reports

/-! What selections record. A definition lists each field that it mentions once, where it is first
mentioned and with the channel of its last mention through one; definitions that are added in turn
list their fields one after the other. -/
namespace Trellis

namespace Projection

/-- All that a definition mentions, in order: the fields that it names, then those that its channels
lead to. -/
def mentions (fieldDef : Channel → Option FieldDef) (d : SelectionDef) : List Projected :=
  (d.fields.getD []).map (fun field => ⟨field, none⟩) ++
    (d.encodings.getD []).filterMap (fun c => (fieldDef c).map (fun f => ⟨f.projected, some c⟩))

/-- The channel of the last mention of a field that comes through a channel. -/
def lastChannel (field : String) (ms : List Projected) : Option Channel :=
  ((ms.filter (fun m => m.field = field)).filterMap Projected.channel).getLast?

/-- The mentioned fields, each once and in the order of their first mentions, with their last
channels. -/
def table (ms : List Projected) : List Projected :=
  (ms.map Projected.field).eraseDups.map (fun field => ⟨field, lastChannel field ms⟩)

/-- The channels of a definition that lead to no field. -/
def unbound (fieldDef : Channel → Option FieldDef) (d : SelectionDef) : List Channel :=
  (d.encodings.getD []).filter (fun c => !(fieldDef c).isSome)

/-! ### One mention -/

theorem eraseDups_concat (fields : List String) (field : String) :
    (fields ++ [field]).eraseDups =
      if field ∈ fields then fields.eraseDups else fields.eraseDups ++ [field] := by
  rw [List.eraseDups_append]
  split
  · rename_i h
    simp [List.removeAll, h]
  · rename_i h
    simp [List.removeAll, h, List.eraseDups_cons]

theorem nodup_eraseDups (fields : List String) : fields.eraseDups.Nodup := by
  induction fields using List.reverseRecOn with
  | nil => exact List.nodup_nil
  | append_singleton fields field ih =>
    rw [eraseDups_concat]
    split
    · exact ih
    · rename_i h
      exact List.Nodup.append ih (List.nodup_singleton field)
        (List.disjoint_singleton.mpr (fun hm => h (List.mem_eraseDups.mp hm)))

theorem lastChannel_concat (field : String) (ms : List Projected) (m : Projected) :
    lastChannel field (ms ++ [m]) =
      if m.field = field then m.channel <|> lastChannel field ms else lastChannel field ms := by
  unfold lastChannel
  rw [List.filter_append, List.filterMap_append, List.getLast?_append, List.filter_singleton]
  by_cases h : m.field = field
  · rw [if_pos h, decide_eq_true h]
    cases hc : m.channel <;> simp [hc]
  · rw [if_neg h, decide_eq_false h]
    rfl

theorem lastChannel_eq_none {field : String} {ms : List Projected}
    (h : field ∉ ms.map Projected.field) : lastChannel field ms = none := by
  have hnone : ms.filter (fun m => m.field = field) = [] := by
    rw [List.filter_eq_nil_iff]
    intro m hm he
    exact h (of_decide_eq_true he ▸ List.mem_map_of_mem hm)
  rw [lastChannel, hnone]
  rfl

/-- Mentioning a field once more changes its channel only. A field that is new is put last. -/
theorem mention_map {fields : List String} (hd : fields.Nodup) {known : String → Option Channel}
    {field : String} (hnew : field ∉ fields → known field = none) (channel : Option Channel) :
    mention field channel (fields.map (fun g => ⟨g, known g⟩)) =
      (if field ∈ fields then fields else fields ++ [field]).map
        (fun g => ⟨g, if field = g then channel <|> known g else known g⟩) := by
  induction fields with
  | nil => simp [mention, hnew]
  | cons g rest ih =>
    obtain ⟨hg, hd⟩ := List.nodup_cons.mp hd
    rw [List.map_cons, mention]
    by_cases hfield : g = field
    · subst hfield
      rw [if_pos rfl, if_pos List.mem_cons_self, List.map_cons, if_pos rfl]
      -- the rest has other fields, which keep their channels
      refine congrArg (_ :: ·) (List.map_congr_left ?_)
      intro k hk
      have hne : g ≠ k := fun he => hg (he ▸ hk)
      rw [if_neg hne]
    · have hmem : field ∈ g :: rest ↔ field ∈ rest := by
        rw [List.mem_cons, or_iff_right (Ne.symm hfield)]
      rw [if_neg hfield, ih hd (fun h => hnew (mt hmem.mp h))]
      simp only [hmem]
      split
      · rw [List.map_cons, if_neg (Ne.symm hfield)]
      · rw [List.cons_append, List.map_cons, if_neg (Ne.symm hfield)]

/-- One mention takes the table of what was mentioned before to the table with it. -/
theorem mention_table (ms : List Projected) (m : Projected) :
    mention m.field m.channel (table ms) = table (ms ++ [m]) := by
  have hnew (h : m.field ∉ (ms.map Projected.field).eraseDups) : lastChannel m.field ms = none :=
    lastChannel_eq_none (fun hm => h (List.mem_eraseDups.mpr hm))
  have hlast : (fun g => Projected.mk g (lastChannel g (ms ++ [m]))) = fun g =>
      ⟨g, if m.field = g then m.channel <|> lastChannel g ms else lastChannel g ms⟩ :=
    funext (fun g => congrArg (Projected.mk g) (lastChannel_concat g ms m))
  unfold table
  rw [mention_map (nodup_eraseDups _) hnew, hlast, List.map_append, List.map_singleton,
    eraseDups_concat]
  simp only [List.mem_eraseDups]

/-- A field that is named and then reached through a channel keeps its place. -/
example : mention "a" (some .x) (table [⟨"a", none⟩, ⟨"b", none⟩]) =
    [⟨"a", some .x⟩, ⟨"b", none⟩] := by decide

/-! ### One definition -/

theorem mentionChannels_fst (fieldDef : Channel → Option FieldDef) (cs : List Channel)
    (ms : List Projected) : (mentionChannels fieldDef cs (table ms)).1 = table (ms ++
      cs.filterMap (fun c => (fieldDef c).map (fun f => ⟨f.projected, some c⟩))) := by
  induction cs generalizing ms with
  | nil => rw [List.filterMap_nil, List.append_nil, mentionChannels]
  | cons c rest ih =>
    rw [mentionChannels, List.filterMap_cons]
    cases fieldDef c with
    | none => exact ih ms
    | some f =>
      dsimp only [Option.map_some]
      rw [mention_table ms ⟨f.projected, some c⟩, ih, List.append_assoc]
      rfl

theorem foldl_mention (fields : List String) (ms : List Projected) :
    fields.foldl (fun ps field => mention field none ps) (table ms) =
      table (ms ++ fields.map (fun field => ⟨field, none⟩)) := by
  induction fields generalizing ms with
  | nil => rw [List.map_nil, List.append_nil, List.foldl_nil]
  | cons field rest ih =>
    rw [List.foldl_cons, mention_table ms ⟨field, none⟩, ih, List.append_assoc]
    rfl

/-- The projection of a definition is the table of its mentions. Reported are its channels that lead
to no field. -/
theorem ofDef_eq (fieldDef : Channel → Option FieldDef) (d : SelectionDef) :
    ofDef fieldDef d = (table (mentions fieldDef d),
      (unbound fieldDef d).map .cannotProjectOnChannelWithoutField) := by
  refine Prod.ext ?_ (mentionChannels_snd fieldDef _ _)
  have hnamed := foldl_mention (d.fields.getD []) []
  rw [List.nil_append] at hnamed
  calc (ofDef fieldDef d).1
      = (mentionChannels fieldDef (d.encodings.getD [])
          (table ((d.fields.getD []).map (fun field => ⟨field, none⟩)))).1 := by
        rw [← hnamed]
        rfl
    _ = table (mentions fieldDef d) := mentionChannels_fst fieldDef _ _

theorem get?_fields (ps : List Projected) (c : Channel) : (fields ps).get? c =
    ((ps.filter (fun p => p.channel = some c)).getLast?).map Projected.field := by
  induction ps using List.reverseRecOn with
  | nil => rfl
  | append_singleton ps p ih =>
    have hfields : fields (ps ++ [p]) = match p.channel with
        | none => fields ps
        | some d => (fields ps).insert d p.field := by
      unfold fields
      rw [List.filterMap_append, Dict.ofList, List.foldl_append]
      cases hp : p.channel <;> simp [hp, Dict.ofList]
    rw [hfields, List.filter_append, List.getLast?_append, List.filter_singleton]
    cases hp : p.channel with
    | none => simp [ih]
    | some d =>
      rw [Dict.get?_insert]
      by_cases hc : c = d
      · simp [hc]
      · simp [hc, Ne.symm hc, ih]

end Projection

namespace Selection

open Projection

/-- Adds the projections of definitions in turn. -/
def addProjections (fieldDef : Channel → Option FieldDef) :
    List SelectionDef → Selection → Selection × List Diagnostic
  | [], s => (s, [])
  | d :: rest, s =>
    let (s, ds) := addProjection fieldDef d s
    let (s, more) := addProjections fieldDef rest s
    (s, ds ++ more)

/-- The selection before anything is projected. -/
def unprojected (s : Selection) : Selection := { s with project := [], fields := .empty }

/-- Each definition adds its table at the end, and the fields of channels are read off all of
them. -/
theorem addProjections_eq (fieldDef : Channel → Option FieldDef) (defs : List SelectionDef)
    (s : Selection) (hs : s.fields = Projection.fields s.project) :
    addProjections fieldDef defs s =
      ({ s with
          project := s.project ++ defs.flatMap (fun d => table (mentions fieldDef d))
          fields := Projection.fields
            (s.project ++ defs.flatMap (fun d => table (mentions fieldDef d))) },
        defs.flatMap (fun d =>
          (unbound fieldDef d).map .cannotProjectOnChannelWithoutField)) := by
  induction defs generalizing s with
  | nil =>
    rw [addProjections, List.flatMap_nil, List.flatMap_nil, List.append_nil, ← hs]
  | cons d rest ih =>
    rw [addProjections, addProjection, ofDef_eq]
    dsimp only
    rw [ih _ rfl, List.flatMap_cons, List.flatMap_cons, List.append_assoc]

/-- Definitions that are added in turn to a selection that records nothing: it records the table of
each, one after the other, where what earlier ones recorded stays as it is. A channel leads to the
field of the last entry that came through it, and only such channels lead anywhere. Every channel
that is mentioned and leads to no field is reported, in order. -/
theorem addProjections_unprojected (fieldDef : Channel → Option FieldDef)
    (defs : List SelectionDef) (s : Selection) :
    let r := addProjections fieldDef defs s.unprojected
    r.1 = { s with
        project := defs.flatMap (fun d => table (mentions fieldDef d))
        fields := r.1.fields } ∧
      (∀ before after, defs = before ++ after →
        (addProjections fieldDef before s.unprojected).1.project <+: r.1.project) ∧
      (∀ c, r.1.fields.get? c =
        ((r.1.project.filter (fun p => p.channel = some c)).getLast?).map Projected.field) ∧
      r.2 = defs.flatMap (fun d =>
        (unbound fieldDef d).map .cannotProjectOnChannelWithoutField) := by
  have hempty : s.unprojected.fields = Projection.fields s.unprojected.project := rfl
  have hrun (defs : List SelectionDef) := addProjections_eq fieldDef defs s.unprojected hempty
  have hproject (defs : List SelectionDef) :
      (addProjections fieldDef defs s.unprojected).1.project =
        defs.flatMap (fun d => table (mentions fieldDef d)) := by
    rw [hrun]
    rfl
  refine ⟨?_, ?_, ?_, ?_⟩
  · rw [hrun]
    rfl
  · rintro before after rfl
    rw [hproject, hproject, List.flatMap_append]
    exact List.prefix_append _ _
  · intro c
    rw [hrun]
    exact get?_fields _ c
  · rw [hrun]

end Selection
end Trellis

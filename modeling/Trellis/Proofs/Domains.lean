import Mathlib.Data.List.Induction
import Trellis.Proofs.Bands

/-! Domains over the columns of data. What is emitted tells the columns and their order, in whichever
of its three forms, and unions keep each column at its first place. -/
namespace Trellis

namespace DataRef

/-- Reads a column with its dataset. -/
def ofFields (fields : Fields) : Except ReadError DataRef := do
  return ⟨← fields.required 0 "data" Decode.string, ← fields.required 1 "field" Decode.string⟩

def decode : Decode DataRef := fun j => do ofFields (← Fields.ofObject j)

end DataRef

namespace ScaleDomain

/-- Reads the columns of a domain: a dataset with a field, a dataset with a list of fields, or a list
of columns with a dataset each. -/
def ofFields (fields : Fields) : Except ReadError (List DataRef) :=
  match fields.get? 0 "data", fields.get? 1 "field" with
  | none, _ => fields.required 2 "fields" (Decode.list DataRef.decode)
  | some _, some _ => return [← DataRef.ofFields fields]
  | some source, none => do
    let name ← Decode.string source
    return (← fields.required 2 "fields" (Decode.list Decode.string)).map (⟨name, ·⟩)

def decode : Decode (List DataRef) := fun j => do ofFields (← Fields.ofObject j)

/-! ### The three forms -/

/-- One column is emitted with its dataset, columns of one dataset are listed beside it, and all others
are listed with their datasets. -/
inductive Form : List DataRef → List (String × Json) → Prop
  | one (r : DataRef) : Form [r] (refToMembers r)
  | same (source : String) (names : List String) : Form (names.map (⟨source, ·⟩))
      [("data", .str source), ("fields", Json.strings names)]
  | each (refs : List DataRef) :
      Form refs [("fields", .arr (refs.map (fun r => .object (refToMembers r))))]

theorem form_refsToMembers (refs : List DataRef) : Form refs (refsToMembers refs) := by
  unfold refsToMembers
  split
  · exact .one _
  · exact .each []
  · rename_i r rest _
    split
    · rename_i hsame
      have hnames : ((r :: rest).map DataRef.field).map (⟨r.data, ·⟩) = r :: rest := by
        rw [List.map_map]
        refine (List.map_congr_left ?_).trans (List.map_id _)
        intro s hs
        have hdata : s.data = r.data := by
          rcases List.mem_cons.mp hs with rfl | hs
          · rfl
          · exact of_decide_eq_true (List.all_eq_true.mp hsame s hs)
        rw [Function.comp_apply, ← hdata]
        rfl
      have hform := Form.same r.data ((r :: rest).map DataRef.field)
      rwa [hnames] at hform
    · exact .each _

/-- Whichever form the columns have, `sort` may stand beside it. -/
theorem Form.keys_nodup {refs : List DataRef} {members : List (String × Json)}
    (h : Form refs members) : (members.map Prod.fst ++ ["sort"]).Nodup := by
  cases h with
  | one r =>
    have hkeys : ["data", "field", "sort"].Nodup := by decide
    exact hkeys
  | same source names =>
    have hkeys : ["data", "fields", "sort"].Nodup := by decide
    exact hkeys
  | each =>
    have hkeys : ["fields", "sort"].Nodup := by decide
    exact hkeys

theorem decode_refToMembers (r : DataRef) :
    DataRef.decode (.object (refToMembers r)) = .ok r := by
  have hd : ((refToMembers r).map Prod.fst).Nodup := by
    have hkeys : ["data", "field"].Nodup := by decide
    exact hkeys
  show DataRef.ofFields (Fields.written (refToMembers r)) = .ok r
  rw [DataRef.ofFields, Fields.required_written hd List.mem_cons_self,
    Fields.required_written hd (List.mem_cons_of_mem _ List.mem_cons_self)]
  rfl

/-- From fields that are those of a form, its columns are read. -/
theorem Form.read {refs : List DataRef} {members : List (String × Json)} (h : Form refs members)
    {fields : Fields} (hfields : ∀ index, ∀ key ≠ "sort",
      fields.get? index key = Dict.lookup key members) : ofFields fields = .ok refs := by
  have hdata := hfields 0 "data" (by decide)
  have hfield := hfields 1 "field" (by decide)
  have hlist := hfields 2 "fields" (by decide)
  unfold ofFields DataRef.ofFields Fields.required
  rw [hdata, hfield, hlist]
  cases h with
  | one r => rfl
  | same source names =>
    have hnames : Decode.list Decode.string (Json.strings names) = .ok (names.map id) :=
      Decode.each_map (fun _ _ => rfl)
    rw [List.map_id] at hnames
    show (Decode.list Decode.string (Json.strings names) >>= fun names =>
      .ok (names.map (fun name => (⟨source, name⟩ : DataRef)))) = _
    rw [hnames]
    rfl
  | each =>
    have hcolumns : Decode.list DataRef.decode
        (.arr (refs.map (fun r => .object (refToMembers r)))) = .ok (refs.map id) :=
      Decode.each_map (fun r _ => decode_refToMembers r)
    rw [List.map_id] at hcolumns
    exact hcolumns

/-! ### What is emitted -/

/-- What is emitted beside the columns. -/
def sorting (discrete : Bool) : List (String × Json) :=
  if discrete then [("sort", .bool true)] else []

theorem toJson_data (refs : List DataRef) (discrete : Bool) :
    (data refs).toJson discrete = .object (refsToMembers refs ++ sorting discrete) := rfl

theorem lookup_sorting (key : String) (discrete : Bool) : Dict.lookup key (sorting discrete) =
    if key = "sort" ∧ discrete = true then some (.bool true) else none := by
  cases discrete with
  | true => simp [sorting, Dict.lookup, Dict.compare_beq_eq]
  | false => simp [sorting, Dict.lookup]

/-- All members have keys of their own, so each is found. -/
theorem get?_emitted (refs : List DataRef) (discrete : Bool) (key : String) :
    (Dict.ofList (refsToMembers refs ++ sorting discrete)).get? key =
      (Dict.lookup key (refsToMembers refs)).or (Dict.lookup key (sorting discrete)) := by
  have hsort : ((sorting discrete).map Prod.fst).Sublist ["sort"] := by
    cases discrete with
    | true => exact List.Sublist.refl _
    | false => exact List.nil_sublist _
  rw [← Dict.lookup_append]
  apply Dict.get?_ofList_of_nodup
  rw [List.map_append]
  exact (form_refsToMembers refs).keys_nodup.sublist ((List.Sublist.refl _).append hsort)

/-- The columns of a domain are read back from what is emitted. -/
theorem decode_toJson (refs : List DataRef) (discrete : Bool) :
    decode ((data refs).toJson discrete) = .ok refs := by
  rw [toJson_data]
  apply (form_refsToMembers refs).read
  intro _ key hkey
  refine (get?_emitted refs discrete key).trans ?_
  rw [lookup_sorting, if_neg (fun h => hkey h.1), Option.or_none]

/-- Whether it is sorted stands beside the columns. -/
theorem member?_sort (refs : List DataRef) (discrete : Bool) :
    ((data refs).toJson discrete).member? "sort" =
      if discrete then some (.bool true) else none := by
  have hnone : Dict.lookup "sort" (refsToMembers refs) = none := by
    apply Dict.lookup_eq_none
    intro hmem
    exact (List.nodup_append.mp (form_refsToMembers refs).keys_nodup).2.2 "sort" hmem "sort"
      (List.mem_singleton_self _) rfl
  rw [toJson_data, Json.member?_object, get?_emitted, hnone, Option.none_or, lookup_sorting]
  simp only [true_and]

end ScaleDomain

/-! ### Unions -/

namespace ScaleDomain

/-- Where no column stands twice, none is left out. -/
theorem eraseDups_of_nodup {refs : List DataRef} (h : refs.Nodup) : refs.eraseDups = refs := by
  induction refs with
  | nil => rfl
  | cons r rest ih =>
    obtain ⟨hr, hrest⟩ := List.nodup_cons.mp h
    have hkeep : rest.filter (fun q => !q == r) = rest := by
      rw [List.filter_eq_self]
      intro q hq
      rw [Bool.not_eq_true', beq_eq_false_iff_ne]
      rintro rfl
      exact hr hq
    rw [List.eraseDups_cons, hkeep, ih hrest]

theorem appendNew_self (refs : List DataRef) : appendNew refs refs = refs := by
  have hnone : refs.removeAll refs = [] := by simp [List.removeAll]
  rw [appendNew_eq, hnone]
  exact List.append_nil refs

end ScaleDomain

namespace Scale

/-- The domain is made of columns, each once. -/
def ReadsData (s : Scale) : Prop := ∃ refs, s.domain = .data refs ∧ refs.Nodup

/-- A scale over columns is the union of itself. -/
theorem ReadsData.unionAll_singleton {s : Scale} (h : s.ReadsData) : unionAll [s] = some s := by
  obtain ⟨refs, hdomain, hnodup⟩ := h
  have hrefs : [s].flatMap (fun t => t.domain.refs) = refs := by
    rw [List.flatMap_singleton, hdomain]
    rfl
  rw [unionAll, hrefs, ScaleDomain.eraseDups_of_nodup hnodup, ← hdomain]

/-- Taking scales into one after another makes the union of all. -/
theorem foldl_unionDomain {first : Scale} {rest : List Scale} (hfirst : first.ReadsData)
    (h : ∀ s ∈ rest, s.ReadsData) :
    some (rest.foldl unionDomain first) = unionAll (first :: rest) := by
  induction rest using List.reverseRecOn with
  | nil => exact hfirst.unionAll_singleton.symm
  | append_singleton rest s ih =>
    have hs : s.ReadsData := h s (List.mem_append_right _ (List.mem_singleton_self s))
    have hrest := ih (fun t ht => h t (List.mem_append_left _ ht))
    calc some ((rest ++ [s]).foldl unionDomain first)
        = Option.merge unionDomain (some (rest.foldl unionDomain first)) (some s) := by
          rw [List.foldl_append]
          rfl
      _ = Option.merge unionDomain (unionAll (first :: rest)) (unionAll [s]) := by
          rw [hrest, hs.unionAll_singleton]
      _ = unionAll (first :: (rest ++ [s])) := merge_unionAll (first :: rest) [s]

theorem unionDomain_assoc {a b c : Scale} (ha : a.ReadsData) (hb : b.ReadsData)
    (hc : c.ReadsData) : (a.unionDomain b).unionDomain c = a.unionDomain (b.unionDomain c) := by
  obtain ⟨refs, hrefs, -⟩ := ha
  obtain ⟨others, hothers, -⟩ := hb
  obtain ⟨more, hmore, -⟩ := hc
  unfold unionDomain
  rw [hrefs, hothers, hmore]
  unfold ScaleDomain.union
  dsimp only
  rw [ScaleDomain.appendNew_assoc]

theorem unionDomain_self {a : Scale} (ha : a.ReadsData) : a.unionDomain a = a := by
  obtain ⟨refs, hrefs, -⟩ := ha
  unfold unionDomain
  rw [hrefs]
  unfold ScaleDomain.union
  dsimp only
  rw [ScaleDomain.appendNew_self, ← hrefs]

/-- Nothing of a domain is lost. The columns of a scale and their order are read back from what is
emitted, which says that they are sorted just if the scale is discrete. Taking scales over columns
into one makes the first scale over the columns of all, each at its first place; so unions may be
grouped in any way, and a union with itself changes nothing. -/
theorem domain_lossless :
    (∀ (s : Scale) refs, s.domain = .data refs → ∀ name sizeSignal, ∃ domain,
      (s.toJson name sizeSignal).member? "domain" = some domain ∧
        ScaleDomain.decode domain = .ok refs ∧
          domain.member? "sort" = if s.type.isDiscrete then some (.bool true) else none) ∧
    (∀ (first : Scale) (rest : List Scale), first.ReadsData → (∀ s ∈ rest, s.ReadsData) →
      rest.foldl unionDomain first = { first with
        domain := .data ((first :: rest).flatMap (fun s => s.domain.refs)).eraseDups }) ∧
    (∀ a b c : Scale, a.ReadsData → b.ReadsData → c.ReadsData →
      (a.unionDomain b).unionDomain c = a.unionDomain (b.unionDomain c)) ∧
    ∀ a : Scale, a.ReadsData → a.unionDomain a = a := by
  refine ⟨?_, ?_, fun _ _ _ => unionDomain_assoc, fun _ => unionDomain_self⟩
  · intro s refs hrefs name sizeSignal
    refine ⟨s.domain.toJson s.type.isDiscrete, ?_, ?_, ?_⟩
    · rw [member?_toJson]
      simp [Dict.lookup, Dict.compare_beq_eq]
    · rw [hrefs]
      exact ScaleDomain.decode_toJson refs _
    · rw [hrefs]
      exact ScaleDomain.member?_sort refs _
  · intro first rest hfirst hrest
    exact Option.some.inj (foldl_unionDomain hfirst hrest)

/-- Three bands over columns of two datasets, one of which two of them share. -/
theorem domain_lossless_bands : ∃ first second third : Scale,
    (first.ReadsData ∧ second.ReadsData ∧ third.ReadsData) ∧
    [second, third].foldl unionDomain first = { first with
      domain := .data [⟨"main", "a"⟩, ⟨"main", "b"⟩, ⟨"layer_1_aggregate", "a"⟩] } ∧
    (∃ domain, (second.toJson "x" Dimension.name).member? "domain" = some domain ∧
      ScaleDomain.decode domain = .ok [⟨"main", "a"⟩, ⟨"main", "b"⟩] ∧
        domain.member? "sort" = some (.bool true)) ∧
    (first.unionDomain second).unionDomain third = first.unionDomain (second.unionDomain third) ∧
    second.unionDomain second = second := by
  let bandOver (refs : List DataRef) : Scale :=
    ⟨.band, .data refs, .step (.ofNat 21), none, none, none, none, none⟩
  have hreads (refs : List DataRef) (h : refs.Nodup) : (bandOver refs).ReadsData := ⟨refs, rfl, h⟩
  have hfirst := hreads [⟨"main", "a"⟩] (by decide)
  have hsecond := hreads [⟨"main", "a"⟩, ⟨"main", "b"⟩] (by decide)
  have hthird := hreads [⟨"layer_1_aggregate", "a"⟩] (by decide)
  have hrefs : ([⟨"main", "a"⟩, ⟨"main", "a"⟩, ⟨"main", "b"⟩, ⟨"layer_1_aggregate", "a"⟩] :
      List DataRef).eraseDups = [⟨"main", "a"⟩, ⟨"main", "b"⟩, ⟨"layer_1_aggregate", "a"⟩] := by
    decide
  obtain ⟨hemitted, hfold, hassoc, hself⟩ := domain_lossless
  refine ⟨_, _, _, ⟨hfirst, hsecond, hthird⟩, ?_, hemitted _ _ rfl "x" Dimension.name,
    hassoc _ _ _ hfirst hsecond hthird, hself _ hsecond⟩
  have hall : ∀ s ∈ [bandOver [⟨"main", "a"⟩, ⟨"main", "b"⟩],
      bandOver [⟨"layer_1_aggregate", "a"⟩]], s.ReadsData :=
    List.forall_mem_cons.mpr ⟨hsecond, List.forall_mem_singleton.mpr hthird⟩
  have hunion := hfold _ _ hfirst hall
  exact hunion.trans (congrArg (fun refs => { bandOver [] with domain := .data refs }) hrefs)

end Scale
end Trellis

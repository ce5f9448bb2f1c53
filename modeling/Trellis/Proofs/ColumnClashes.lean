import Trellis.Proofs.Aggregates

/-! Which columns have the same name. A name is joined from a word and a field with a separator that
may be part of either, so columns that come about differently can clash. -/
namespace Trellis

namespace Derivation

/-- The word and the field that a derived column is named after. -/
def parts? : Derivation → Option (String × String)
  | raw _ => none
  | timeUnit unit field => some (unit, field)
  | aggregate op field => some (op, field)
  | count => some ("count", "*")

/-- One column is named like another one that comes about differently. -/
inductive Mimics : Derivation → Derivation → Prop
  /-- A field of the data that is named like a derived column. -/
  | raw {d : Derivation} {word field : String} (hd : d.parts? = some (word, field)) :
    Mimics (.raw (word ++ "_" ++ field)) d
  /-- A time unit of the name of an aggregate. -/
  | kind {d e : Derivation} {word field : String} (hd : d.parts? = some (word, field))
    (he : e.parts? = some (word, field)) (hne : d ≠ e) : Mimics d e
  /-- A word that goes on with the start of the other column's field. -/
  | split {d e : Derivation} {word mid field : String} (hd : d.parts? = some (word ++ "_" ++ mid, field))
    (he : e.parts? = some (word, mid ++ "_" ++ field)) : Mimics d e

theorem column_of_parts {d : Derivation} {word field : String} (h : d.parts? = some (word, field)) :
    d.column = word ++ "_" ++ field := by
  cases d with
  | raw _ => cases h
  | timeUnit _ _ | aggregate _ _ | count =>
    obtain ⟨rfl, rfl⟩ := Prod.mk.inj (Option.some.inj h)
    rfl

theorem eq_raw_of_parts {d : Derivation} (h : d.parts? = none) : ∃ field, d = .raw field := by
  cases d with
  | raw field => exact ⟨field, rfl⟩
  | timeUnit _ _ | aggregate _ _ | count => cases h

theorem Mimics.column_eq {d e : Derivation} (h : d.Mimics e) : d.column = e.column := by
  cases h with
  | raw hd => exact (column_of_parts hd).symm
  | kind hd he _ => rw [column_of_parts hd, column_of_parts he]
  | split hd he =>
    rw [column_of_parts hd, column_of_parts he]
    simp only [String.append_assoc]

theorem column_eq_iff {d e : Derivation} :
    d.column = e.column ↔ d = e ∨ d.Mimics e ∨ e.Mimics d := by
  constructor
  · intro h
    cases hd : d.parts? with
    | none =>
      obtain ⟨field, rfl⟩ := eq_raw_of_parts hd
      cases he : e.parts? with
      | none =>
        obtain ⟨other, rfl⟩ := eq_raw_of_parts he
        exact .inl (congrArg raw h)
      | some parts =>
        obtain rfl : field = _ := h.trans (column_of_parts he)
        exact .inr (.inl (.raw he))
    | some parts =>
      obtain ⟨word, field⟩ := parts
      cases he : e.parts? with
      | none =>
        obtain ⟨own, rfl⟩ := eq_raw_of_parts he
        obtain rfl : own = _ := h.symm.trans (column_of_parts hd)
        exact .inr (.inr (.raw hd))
      | some others =>
        obtain ⟨other, rest⟩ := others
        rw [column_of_parts hd, column_of_parts he] at h
        -- both words go as far as the same separator, or one of them further than the other
        rcases Naming.joined_eq_iff.mp h with ⟨rfl, rfl⟩ | ⟨mid, rfl, rfl⟩ | ⟨mid, rfl, rfl⟩
        · by_cases hsame : d = e
          · exact .inl hsame
          · exact .inr (.inl (.kind hd he hsame))
        · exact .inr (.inr (.split he hd))
        · exact .inr (.inl (.split hd he))
  · rintro (rfl | h | h)
    · rfl
    · exact h.column_eq
    · exact h.column_eq.symm

end Derivation

/-- Definitions that ask for the same column aggregate alike. -/
theorem FieldDef.aggregate_eq_of_derivation {f g : FieldDef} (hf : f.hasField = true)
    (h : f.derivation? = g.derivation?) : f.aggregate = g.aggregate := by
  obtain ⟨d, hd⟩ := exists_derivation hf
  have hg : g.derivation? = some d := h.symm.trans hd
  cases d with
  | count => rw [derivation?_eq_count_iff.mp hd, derivation?_eq_count_iff.mp hg]
  | aggregate => rw [(derivation?_eq_aggregate_iff.mp hd).1, (derivation?_eq_aggregate_iff.mp hg).1]
  | timeUnit => rw [(derivation?_eq_timeUnit_iff.mp hd).1, (derivation?_eq_timeUnit_iff.mp hg).1]
  | raw => rw [(derivation?_eq_raw_iff.mp hd).1, (derivation?_eq_raw_iff.mp hg).1]

/-- Two definitions ask for columns of the same name that come about differently. -/
def FieldDef.Clashes (f g : FieldDef) : Prop :=
  ∃ d e, f.derivation? = some d ∧ g.derivation? = some e ∧ (d.Mimics e ∨ e.Mimics d)

/-- Definitions that lead to data read the same column if they ask for the same one, and else only
where what they ask for clashes. -/
theorem FieldDef.column_eq_iff {f g : FieldDef} (hf : f.hasField = true) (hg : g.hasField = true) :
    f.column = g.column ↔ f.derivation? = g.derivation? ∨ f.Clashes g := by
  obtain ⟨d, hd⟩ := exists_derivation hf
  obtain ⟨e, he⟩ := exists_derivation hg
  have hclash : f.Clashes g ↔ d.Mimics e ∨ e.Mimics d := by
    constructor
    · rintro ⟨d', e', hd', he', h⟩
      obtain rfl : d = d' := Option.some.inj (hd.symm.trans hd')
      obtain rfl : e = e' := Option.some.inj (he.symm.trans he')
      exact h
    · intro h
      exact ⟨d, e, hd, he, h⟩
  rw [hclash, column_eq hd, column_eq he, Derivation.column_eq_iff, hd, he, Option.some.injEq]

namespace Tree

variable {spec : Spec} {config : Config} {t : Tree} {ds : List Diagnostic}

/-- On every tree, two definitions of a unit read the same column just if they ask for the same one or
for columns that clash by their names. Where a unit aggregates, a column that its records are grouped
by has the name of an aggregated one just if it clashes with one. -/
theorem columns_of_build (h : Tree.build spec config = .ok (t, ds)) :
    ∃ v, (t.parse .standard).tree.assemble .standard = .ok v ∧
      ∀ s ∈ (t.parse .standard).tree.rootSite.units,
        (∀ f ∈ s.node.fieldDefs, ∀ g ∈ s.node.fieldDefs,
          f.column = g.column ↔ f.derivation? = g.derivation? ∨ f.Clashes g) ∧
        (s.node.isAggregated = true → ∃ tr groupby ops fields outputs,
          tr.Tabulates groupby ops fields outputs ∧
            .derived (Naming.aggregate s.node.name) Naming.main [tr] ∈ v.data ∧
            (∀ column, column ∈ groupby ↔ ∃ g, s.Groups g ∧ g.column = column) ∧
            ∀ g, s.Groups g → g.aggregate = none → (g.column ∈ outputs ↔
              ∃ f ∈ s.node.fieldDefs, f.aggregate.isSome = true ∧ f.Clashes g)) := by
  have hdrawn := drawnAs_of_build h
  refine ⟨_, hdrawn.assembled, ?_⟩
  intro s hs
  obtain ⟨hmem, -⟩ := List.mem_filter.mp hs
  have hfields : ∀ f ∈ s.node.fieldDefs, f.hasField = true :=
    (hdrawn.bound s.node (View.mem_nodes_iff.mpr ⟨s, hmem, rfl⟩)).hasField
  refine ⟨fun f hf g hg => FieldDef.column_eq_iff (hfields f hf) (hfields g hg), ?_⟩
  intro hagg
  obtain ⟨tr, groupby, ops, fields, outputs, htable, hby⟩ := hdrawn.aggregatedBy config hs hagg
  refine ⟨tr, groupby, ops, fields, outputs, htable, hby.outside, hby.groups, ?_⟩
  intro g hg hnone
  obtain ⟨n, hn, hng⟩ := hg.exists_node hmem
  have hgroup : g.hasField = true := (hdrawn.bound n hn).hasField g hng
  rw [hby.aggregated]
  constructor
  · rintro ⟨f, hf, ha, hsame⟩
    refine ⟨f, hf, ha, ?_⟩
    rcases (FieldDef.column_eq_iff (hfields f hf) hgroup).mp hsame with hd | hclash
    · -- the definition would aggregate as well
      rw [FieldDef.aggregate_eq_of_derivation (hfields f hf) hd, hnone] at ha
      cases ha
    · exact hclash
  · rintro ⟨f, hf, ha, hclash⟩
    exact ⟨f, hf, ha, (FieldDef.column_eq_iff (hfields f hf) hgroup).mpr (.inr hclash)⟩

end Tree

/-! ### A field named like a sum -/

/-- Sums of a field along another field, which is named like the sums. -/
def Spec.sumsOfSums : Spec :=
  .unit ⟨⟨none, none, none, none⟩, ⟨none, none⟩, ⟨.point, none⟩,
    .ofList [(.x, .field (nominal "sum_a")),
      (.y, .field { FieldDef.unset with
        field := some "a", type := some .quantitative, aggregate := some "sum" })],
    .empty⟩

namespace Tree

theorem columns_sumsOfSums : ∃ t ds v, Tree.build .sumsOfSums .default = .ok (t, ds) ∧
    (t.parse .standard).tree.assemble .standard = .ok v ∧
      ∃ s ∈ (t.parse .standard).tree.rootSite.units,
        (∀ f ∈ s.node.fieldDefs, ∀ g ∈ s.node.fieldDefs,
          f.column = g.column ↔ f.derivation? = g.derivation? ∨ f.Clashes g) ∧
        ∃ tr groupby ops fields outputs, tr.Tabulates groupby ops fields outputs ∧
          .derived (Naming.aggregate s.node.name) Naming.main [tr] ∈ v.data ∧
          (∀ column, column ∈ groupby ↔ ∃ g, s.Groups g ∧ g.column = column) ∧
          ∀ g, s.Groups g → g.aggregate = none → (g.column ∈ outputs ↔
            ∃ f ∈ s.node.fieldDefs, f.aggregate.isSome = true ∧ f.Clashes g) := by
  have hfound : (Tree.build .sumsOfSums .default).toOption.any (fun r =>
      (r.1.parse .standard).tree.rootSite.units.any (fun s => s.node.isAggregated)) = true := by
    decide +kernel
  obtain ⟨⟨t, ds⟩, hb, hfound⟩ := exists_ok_of_any hfound
  obtain ⟨s, hs, hagg⟩ := List.any_eq_true.mp hfound
  obtain ⟨v, hv, hall⟩ := columns_of_build hb
  obtain ⟨htold, haggregate⟩ := hall s hs
  exact ⟨t, ds, v, hb, hv, s, hs, htold, haggregate hagg⟩

/-- The sums are both grouped by and aggregated, and what shows the field and what shows the sums read
the same column. -/
theorem columns_clash : ∃ t ds v, Tree.build .sumsOfSums .default = .ok (t, ds) ∧
    (t.parse .standard).tree.assemble .standard = .ok v ∧
      ∃ s ∈ (t.parse .standard).tree.rootSite.units, s.node.isAggregated = true ∧
        (∃ tr groupby ops fields outputs, tr.Tabulates groupby ops fields outputs ∧
          .derived (Naming.aggregate s.node.name) Naming.main [tr] ∈ v.data ∧
          ¬ groupby.Disjoint outputs) ∧
        ¬ ∀ f ∈ s.node.fieldDefs, ∀ g ∈ s.node.fieldDefs, f.column = g.column →
          f.derivation? = g.derivation? := by
  have hfound : (Tree.build .sumsOfSums .default).toOption.any (fun r =>
      (r.1.parse .standard).tree.rootSite.units.any (fun s =>
        s.node.isAggregated && s.node.fieldDefs.any (fun f => f.aggregate.isNone &&
          s.node.fieldDefs.any (fun g => g.aggregate.isSome && g.column == f.column &&
            g.derivation? != f.derivation?)))) = true := by
    decide +kernel
  obtain ⟨⟨t, ds⟩, hb, hfound⟩ := exists_ok_of_any hfound
  obtain ⟨s, hs, hfound⟩ := List.any_eq_true.mp hfound
  obtain ⟨hagg, hfound⟩ := (Bool.and_eq_true _ _).mp hfound
  -- `f` is the plain field `sum_a`, and `g` the sum of `a`
  obtain ⟨f, hf, hfound⟩ := List.any_eq_true.mp hfound
  obtain ⟨hraw, hfound⟩ := (Bool.and_eq_true _ _).mp hfound
  obtain ⟨g, hg, hfound⟩ := List.any_eq_true.mp hfound
  simp only [Bool.and_eq_true, beq_iff_eq, bne_iff_ne] at hfound
  obtain ⟨⟨hop, hsame⟩, hother⟩ := hfound
  have hdrawn := drawnAs_of_build hb
  obtain ⟨tr, groupby, ops, fields, outputs, htable, hby⟩ :=
    hdrawn.aggregatedBy .default hs hagg
  refine ⟨t, ds, _, hb, hdrawn.assembled, s, hs, hagg, ?_, ?_⟩
  · refine ⟨tr, groupby, ops, fields, outputs, htable, hby.outside, ?_⟩
    intro hdisjoint
    have hgrouped : f.column ∈ groupby :=
      (hby.groups _).mpr ⟨f, .inl ⟨Option.isNone_iff_eq_none.mp hraw, hf⟩, rfl⟩
    exact hdisjoint hgrouped ((hby.aggregated _).mpr ⟨g, hg, hop, hsame⟩)
  · exact fun hall => hother (hall g hg f hf hsame)

end Tree

end Trellis

import Trellis.Proofs.Visible

/-! Dataset references of a visualization are closed: every dataset that is named is emitted outside
all cells, or by a cell around the place where it is named. -/
namespace Trellis

/-! ### References in what is emitted -/

/-- The datasets that the expressions of a signal name are among some. -/
def Signal.DataIn (scope : List String) (s : Signal) : Prop :=
  ∀ e ∈ s.expressions, ∀ name ∈ e.datasets, name ∈ scope

/-- The datasets that the group around the paths of a mark defines, if there is one. -/
def UnitMark.defined (m : UnitMark) : List String := (m.series.map Series.data).toList

/-- The dataset that the innermost mark reads. -/
def UnitMark.read (m : UnitMark) : String := (m.series.map Series.data).getD m.source

/-- The dataset that a unit's mark splits into series is among some, and what the mark within reads
is among them or is what is split off. -/
def UnitMark.DataIn (scope : List String) (m : UnitMark) : Prop :=
  m.source ∈ scope ∧ m.read ∈ scope ++ m.defined

mutual

/-- All datasets that a mark and everything in it names are among some, or defined within the mark
around the place where they are named. -/
inductive GroupMark.DataIn : List String → GroupMark → Prop where
  | unit {scope : List String} {m : UnitMark} : m.DataIn scope → GroupMark.DataIn scope (.unit m)
  | title {scope : List String} {m : TitleMark} : GroupMark.DataIn scope (.title m)
  | header {scope : List String} {m : HeaderMark} :
      (∀ data column, m.source = some (data, column) → data ∈ scope) →
      GroupMark.DataIn scope (.header m)
  | cell {scope : List String} {m : CellMark} {data : List Dataset} {content : Group} :
      m.root.data ∈ scope →
      (∀ d ∈ data, ∀ source, d.source = some source → source ∈ scope ++ [m.root.name]) →
      Group.DataIn (scope ++ m.root.name :: data.map Dataset.name) content →
      GroupMark.DataIn scope (.cell m data content)

/-- The same for a group. -/
inductive Group.DataIn : List String → Group → Prop where
  | intro {scope : List String} {g : Group} :
      (∀ m ∈ g.marks, GroupMark.DataIn scope m) →
      (∀ s ∈ g.scales, ∀ refs, s.scale.domain = .data refs → ∀ r ∈ refs, r.data ∈ scope) →
      (∀ layout, g.layout = some layout → ∀ count, layout.columns = some count →
        count.data ∈ scope) →
      (∀ s ∈ g.signals, s.DataIn scope) → Group.DataIn scope g

end

section
variable {whole : Spec} {input : Option DataDef} {v : View} {s : Site} {scope : List String}

end

end Trellis

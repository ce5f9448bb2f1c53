import Mathlib.Data.List.Forall2
import Trellis.Proofs.Runs

/-! The cells of an assembled visualization. With any pipeline, each facet of the tree draws one kind
of cells, in the order of the traversal, and what a cell draws is the group of the facet's child. -/
namespace Trellis

/-- Cells as a visualization draws them: what they split, and the datasets and the content of each. -/
structure Cell where
  mark : CellMark
  data : List Dataset
  content : Group

mutual

/-- The cells within a mark at any depth, outer ones before those inside them. -/
def GroupMark.cells : GroupMark → List Cell
  | .cell mark data content => ⟨mark, data, content⟩ :: Group.cells content
  | .unit _ | .title _ | .header _ => []

def GroupMark.cellsIn : List GroupMark → List Cell
  | [] => []
  | m :: rest => GroupMark.cells m ++ GroupMark.cellsIn rest

/-- The cells within a group at any depth. -/
def Group.cells : Group → List Cell
  | .mk _ _ marks _ _ _ => GroupMark.cellsIn marks

end

theorem GroupMark.cellsIn_eq (ms : List GroupMark) : cellsIn ms = ms.flatMap cells := by
  induction ms with
  | nil => rfl
  | cons m rest ih => rw [cellsIn, ih, List.flatMap_cons]

/-- Headers draw no cells, so those of a group are in its other marks. -/
theorem Site.groupOf_cells (s : Site) (ms : List GroupMark) :
    (s.groupOf ms).cells = ms.flatMap GroupMark.cells := by
  have hheaders : (s.headerMarks.map (fun m => m.elim GroupMark.title GroupMark.header)).flatMap
      GroupMark.cells = [] := by
    rw [List.flatMap_eq_nil_iff]
    intro m hm
    obtain ⟨h, -, rfl⟩ := List.mem_map.mp hm
    cases h with
    | inl t => rfl
    | inr m => rfl
  rw [groupOf, Group.cells, GroupMark.cellsIn_eq, List.flatMap_append, hheaders, List.nil_append]

/-! ### Lists that correspond -/

theorem forall₂_mem {α β : Type} {R : α → β → Prop} {xs : List α} {ys : List β}
    (h : List.Forall₂ R xs ys) : List.Forall₂ (fun x y => x ∈ xs ∧ y ∈ ys ∧ R x y) xs ys := by
  induction h with
  | nil => exact .nil
  | cons hr _ ih =>
    refine .cons ⟨List.mem_cons_self, List.mem_cons_self, hr⟩ (ih.imp ?_)
    rintro x y ⟨hx, hy, hxy⟩
    exact ⟨List.mem_cons_of_mem _ hx, List.mem_cons_of_mem _ hy, hxy⟩

theorem forall₂_flatMap_eq {α β γ : Type} {R : α → β → Prop} {f : α → List γ} {g : β → List γ}
    {xs : List α} {ys : List β} (h : List.Forall₂ R xs ys)
    (hfg : ∀ x, ∀ y ∈ ys, R x y → f x = g y) : xs.flatMap f = ys.flatMap g := by
  induction h with
  | nil => rfl
  | cons hr _ ih =>
    have hrest := ih (fun x y hy => hfg x y (List.mem_cons_of_mem _ hy))
    rw [List.flatMap_cons, List.flatMap_cons, hrest, hfg _ _ List.mem_cons_self hr]

namespace Site

theorem group_eq_ok {s : Site} {pipeline : Pipeline} {g : Group} :
    s.group pipeline = .ok g ↔ ∃ ms, s.marks pipeline = .ok ms ∧ g = s.groupOf ms := by
  unfold group
  rw [bind_eq_ok]
  constructor
  · rintro ⟨ms, hms, h⟩
    exact ⟨ms, hms, (Except.ok.inj h).symm⟩
  · rintro ⟨ms, hms, rfl⟩
    exact ⟨ms, hms, rfl⟩

/-- The cells that a facet draws with some pipeline. -/
structure Draws (pipeline : Pipeline) (cell : Cell) (s : Site) : Prop where
  mark : cellMark s.node = .ok cell.mark
  data : cellData pipeline (View.openUnitsIn s.view.children) = .ok cell.data
  content : ∃ child, s.view.children = [child] ∧
    group ⟨s.lineage, child⟩ pipeline = .ok cell.content

end Site

namespace View

variable {pipeline : Pipeline} {whole : Spec} {A : List Node}

theorem marksIn_cells {cs : List View}
    (h : ∀ c ∈ cs, ∀ ms, c.marks pipeline A = .ok ms →
      List.Forall₂ (Site.Draws pipeline) (ms.flatMap GroupMark.cells) (Site.facets ⟨A, c⟩))
    {ms : List GroupMark} (hms : marksIn pipeline A cs = .ok ms) :
    List.Forall₂ (Site.Draws pipeline) (ms.flatMap GroupMark.cells)
      (cs.flatMap (fun c => Site.facets ⟨A, c⟩)) := by
  induction cs generalizing ms with
  | nil =>
    obtain rfl : [] = ms := Except.ok.inj hms
    exact .nil
  | cons c rest ih =>
    rw [marksIn] at hms
    obtain ⟨first, hfirst, hms⟩ := bind_eq_ok.mp hms
    obtain ⟨others, hothers, hms⟩ := bind_eq_ok.mp hms
    obtain rfl : first ++ others = ms := Except.ok.inj hms
    rw [List.flatMap_append, List.flatMap_cons]
    exact List.rel_append (h c List.mem_cons_self first hfirst)
      (ih (fun d hd => h d (List.mem_cons_of_mem _ hd)) hothers)

/-- The cells of a view's marks are those of its facets. -/
theorem marks_cells {v : View} (hb : Fits (fun s _ => s.Built whole) A v) {ms : List GroupMark}
    (h : v.marks pipeline A = .ok ms) :
    List.Forall₂ (Site.Draws pipeline) (ms.flatMap GroupMark.cells) (Site.facets ⟨A, v⟩) := by
  induction v using induct generalizing A ms with
  | h n cs ih =>
    obtain ⟨hself, hin⟩ := fits_mk_iff.mp hb
    rw [Site.facets_mk]
    cases hk : n.kind with
    | unit u =>
      obtain rfl : cs = [] := hself.unit_leaf (Node.isUnit_of_unit hk)
      rw [marks.eq_1 _ A n [] u hk] at h
      obtain ⟨-, -, h⟩ := bind_eq_ok.mp h
      obtain rfl := Except.ok.inj h
      -- what a unit draws itself are no cells
      have hnone : (n.components.mark.filterMap MarkComponent.unit?).flatMap GroupMark.cells = [] := by
        rw [List.flatMap_eq_nil_iff]
        intro m hm
        obtain ⟨k, -, hkm⟩ := List.mem_filterMap.mp hm
        cases k with
        | unit mark =>
          obtain rfl := Option.some.inj hkm
          rfl
        | cell mark => exact absurd hkm (by simp [MarkComponent.unit?])
      rw [hnone, Node.not_facet_of_unit hk]
      exact .nil
    | layer size =>
      rw [marks.eq_2 _ A n cs size hk] at h
      obtain ⟨-, -, h⟩ := bind_eq_ok.mp h
      rw [Node.not_facet_of_layer hk]
      exact marksIn_cells (fun c hc _ hms => ih c hc (hin c hc) hms) h
    | facet f =>
      obtain ⟨child, hchild⟩ := hself.facet_single (Node.isFacet_of_facet hk)
      obtain rfl : cs = [child] := hchild
      rw [marks.eq_4 _ A n child [] f hk] at h
      obtain ⟨-, -, h⟩ := bind_eq_ok.mp h
      obtain ⟨mark, hmark, h⟩ := bind_eq_ok.mp h
      obtain ⟨data, hdata, h⟩ := bind_eq_ok.mp h
      obtain ⟨inner, hinner, h⟩ := bind_eq_ok.mp h
      obtain rfl := Except.ok.inj h
      have hdraws : Site.Draws pipeline ⟨mark, data, Site.groupOf ⟨n :: A, child⟩ inner⟩
          ⟨A, mk n [child]⟩ :=
        ⟨mapError_eq_ok.mp hmark, mapError_eq_ok.mp hdata, child, rfl,
          Site.group_eq_ok.mpr ⟨inner, hinner, rfl⟩⟩
      rw [Node.isFacet_of_facet hk, if_pos rfl, List.flatMap_singleton, List.flatMap_singleton,
        GroupMark.cells, Site.groupOf_cells]
      exact .cons hdraws (ih child List.mem_cons_self (hin child List.mem_cons_self) hinner)

end View

namespace Tree

/-- What a tree is assembled to. -/
theorem assemble_ok {t : Tree} {pipeline : Pipeline} {v : Visualization}
    (h : t.assemble pipeline = .ok v) : ∃ data ms, t.rootSite.rootData pipeline = .ok data ∧
      t.rootSite.marks pipeline = .ok ms ∧ v.data = data ++ t.rootSite.selectionStores ∧
      v.signals = t.rootSite.sizeSignals t.config ++ t.rootSite.topSignals ∧
      v.group = t.rootSite.groupOf ms := by
  unfold assemble at h
  split at h
  · cases h
  · obtain ⟨data, hdata, h⟩ := bind_eq_ok.mp h
    obtain ⟨group, hgroup, h⟩ := bind_eq_ok.mp h
    obtain ⟨ms, hms, hgroup⟩ := bind_eq_ok.mp hgroup
    obtain rfl := Except.ok.inj h
    exact ⟨data, ms, hdata, hms, rfl, rfl, (Except.ok.inj hgroup).symm⟩

end Tree

/-- Whatever compiles is built, comes through all phases, and is assembled. -/
theorem Compiler.compile_ok {c : Compiler} {s : Spec} {compiled : Compiled}
    (h : c.compile s = .ok compiled) : ∃ t ds, c.build s = .ok (t, ds) ∧
      (t.runPhases c.pipeline Phase.all).error = none ∧
      (t.runPhases c.pipeline Phase.all).tree.assemble c.pipeline = .ok compiled.visualization ∧
      compiled.diagnostics = ds ++ (t.runPhases c.pipeline Phase.all).diagnostics := by
  unfold compile at h
  obtain ⟨⟨t, ds⟩, hbuild, h⟩ := bind_eq_ok.mp h
  have hb : c.build s = .ok (t, ds) := mapError_eq_ok.mp hbuild
  dsimp only at h
  rw [Tree.parse_of_build hb] at h
  cases he : (t.runPhases c.pipeline Phase.all).error with
  | some e =>
    rw [he] at h
    cases h
  | none =>
    rw [he] at h
    obtain ⟨v, hv, h⟩ := bind_eq_ok.mp h
    obtain rfl := Except.ok.inj h
    exact ⟨t, ds, hb, he, hv, rfl⟩

end Trellis

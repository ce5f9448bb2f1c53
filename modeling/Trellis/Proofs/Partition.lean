import Trellis.Proofs.Finished

/-! Each node of a tree is drawn in just one group: that of the root or that of some facet's child.
So what the groups of a visualization gather from their nodes is gathered once from every node. -/
namespace Trellis

namespace Site

/-- The views in the cells of the facets at and under a site. -/
def cellRoots (s : Site) : List Site := s.facets.flatMap Site.children

/-- The sites that have a group of their own: the topmost one and the views in cells. -/
def groupRoots (s : Site) : List Site := s :: s.cellRoots

variable {A : List Node} {n : Node} {cs : List View}

theorem cellRoots_mk : cellRoots ⟨A, .mk n cs⟩ =
    (if n.isFacet then cs.map (fun c => ⟨n :: A, c⟩) else []) ++
      cs.flatMap (fun c => cellRoots ⟨n :: A, c⟩) := by
  unfold cellRoots
  rw [facets_mk, List.flatMap_append, List.flatMap_assoc]
  cases n.isFacet with
  | true => rw [if_pos rfl, if_pos rfl, List.flatMap_singleton]; rfl
  | false => rfl

end Site

namespace View

variable {A : List Node} {v : View} {whole : Spec}

/-- Every node is in the group of one root. -/
theorem groupMembers_perm (hb : Fits (fun s _ => s.Built whole) A v) :
    ((Site.groupRoots ⟨A, v⟩).flatMap Site.groupMembers).Perm (v.sites A) := by
  induction v using induct generalizing A with
  | h n cs ih =>
    obtain ⟨hself, hin⟩ := fits_mk_iff.mp hb
    let cells (c : View) : List Site := (Site.cellRoots ⟨n :: A, c⟩).flatMap Site.groupMembers
    have hunder : (cs.flatMap (groupSites (n :: A)) ++ cs.flatMap cells).Perm
        (cs.flatMap (sites (n :: A))) := by
      have hsplit := List.flatMap_append_perm cs (groupSites (n :: A)) cells
      refine hsplit.trans (List.Perm.flatMap_left _ ?_)
      intro c hc
      have hchild := ih c hc (hin c hc)
      rw [Site.groupRoots, List.flatMap_cons] at hchild
      exact hchild
    have hself' : Site.groupMembers ⟨A, mk n cs⟩ =
        ⟨A, mk n cs⟩ :: if n.isLayer then cs.flatMap (groupSites (n :: A)) else [] := by
      rw [Site.groupMembers, groupSites, groupSitesIn_eq]
    have hcells : (Site.cellRoots ⟨A, mk n cs⟩).flatMap Site.groupMembers =
        (if n.isFacet then cs.flatMap (groupSites (n :: A)) else []) ++ cs.flatMap cells := by
      rw [Site.cellRoots_mk, List.flatMap_append, List.flatMap_assoc]
      cases n.isFacet with
      | true => rw [if_pos rfl, if_pos rfl, List.flatMap_map]; rfl
      | false => rfl
    rw [Site.groupRoots, List.flatMap_cons, hself', hcells, sites_mk]
    cases hk : n.kind with
    | unit u =>
      obtain rfl : cs = [] := hself.unit_leaf (Node.isUnit_of_unit hk)
      rw [List.flatMap_nil, List.flatMap_nil, List.flatMap_nil, ite_self, ite_self]
      exact List.Perm.refl _
    | layer size =>
      rw [Node.not_facet_of_layer hk, Node.isLayer_of_layer hk]
      exact hunder.cons _
    | facet f =>
      rw [Node.isFacet_of_facet hk, Node.not_layer_of_facet hk]
      exact hunder.cons _

theorem mem_sites_of_mem_groupRoots (hb : Fits (fun s _ => s.Built whole) A v) {s : Site}
    (hs : s ∈ Site.groupRoots ⟨A, v⟩) : s ∈ v.sites A := by
  have hself : s ∈ s.groupMembers := self_mem_groupSites s.ancestors s.view
  exact (groupMembers_perm hb).mem_iff.mp (List.mem_flatMap.mpr ⟨s, hs, hself⟩)

/-- Only the topmost view of a group may be a facet. -/
theorem groupSites_cons (hb : Fits (fun s _ => s.Built whole) A v) :
    ∃ rest, v.groupSites A = ⟨A, v⟩ :: rest ∧ ∀ m ∈ rest, m.node.isFacet = false := by
  cases v with
  | mk n cs =>
    rw [groupSites, groupSitesIn_eq]
    refine ⟨_, rfl, ?_⟩
    intro m hm
    split at hm
    · rename_i hlayer
      obtain ⟨c, hc, hm⟩ := List.mem_flatMap.mp hm
      have hmem : m ∈ c.sites (n :: A) := mem_sites_of_mem_groupSites hm
      have habove : n ∈ m.ancestors := (ancestors_suffix hmem).mem List.mem_cons_self
      -- above a facet there are facets only, but here is a layer
      by_contra hno
      have hfacet : m.node.isFacet = true := by simpa using hno
      have hn := (hb m (mem_sites_mk.mpr (.inr ⟨c, hc, hmem⟩))).facet_above hfacet n habove
      rw [Node.not_facet_of_isLayer hlayer] at hn
      exact absurd hn Bool.false_ne_true
    · exact absurd hm List.not_mem_nil

end View

/-! ### Groups of a visualization -/

/-- All groups of a visualization: the one at the top and those in its cells. -/
def Visualization.groups (v : Visualization) : List Group :=
  v.group :: v.group.cells.map Cell.content

theorem forall₂_flatMap_perm {α β γ : Type} {R : α → β → Prop} {f : α → List γ} {g : β → List γ}
    {xs : List α} {ys : List β} (h : List.Forall₂ R xs ys)
    (hfg : ∀ x, ∀ y ∈ ys, R x y → (f x).Perm (g y)) : (xs.flatMap f).Perm (ys.flatMap g) := by
  induction h with
  | nil => exact List.Perm.refl []
  | cons hr _ ih =>
    have hrest := ih (fun x y hy => hfg x y (List.mem_cons_of_mem _ hy))
    rw [List.flatMap_cons, List.flatMap_cons]
    exact (hfg _ _ List.mem_cons_self hr).append hrest

namespace Tree

variable {t : Tree} {pipeline : Pipeline} {whole : Spec} {v : Visualization}

/-- The groups of a visualization are those of the root and of the views in cells. -/
theorem groups_drawn (h : t.assemble pipeline = .ok v)
    (hb : View.Fits (fun s _ => s.Built whole) [] t.root) :
    List.Forall₂ (fun g s => s.group pipeline = .ok g) v.groups t.rootSite.groupRoots := by
  obtain ⟨data, ms, -, hms, -, -, hgroup⟩ := assemble_ok h
  refine .cons (Site.group_eq_ok.mpr ⟨ms, hms, hgroup⟩) ?_
  have hcells : List.Forall₂ (Site.Draws pipeline) v.group.cells t.rootSite.facets := by
    rw [hgroup, Site.groupOf_cells]
    exact View.marks_cells hb hms
  rw [Site.cellRoots]
  -- every facet repeats one view, and draws the group of that view in its cells
  generalize v.group.cells = cells at hcells
  generalize t.rootSite.facets = facets at hcells
  induction hcells with
  | nil => exact .nil
  | cons hdraws _ ih =>
    obtain ⟨child, hchild, hcontent⟩ := hdraws.content
    rw [List.flatMap_cons, Site.children, hchild]
    exact .cons hcontent ih

theorem groups_signals (h : t.assemble pipeline = .ok v)
    (hb : View.Fits (fun s _ => s.Built whole) [] t.root) :
    v.groups.flatMap Group.signals = t.rootSite.groupRoots.flatMap Site.unitSignals := by
  refine forall₂_flatMap_eq (groups_drawn h hb) ?_
  intro g s _ hg
  obtain ⟨ms, -, rfl⟩ := Site.group_eq_ok.mp hg
  rfl

/-- What every group gathers from the nodes that it draws, all groups together gather once from all
nodes. -/
theorem groups_flatMap_perm {γ : Type} {collect : Group → List γ} {own : Site → List γ}
    (h : t.assemble pipeline = .ok v) (hb : View.Fits (fun s _ => s.Built whole) [] t.root)
    (hcollect : ∀ s ∈ t.rootSite.groupRoots, ∀ g, s.group pipeline = .ok g →
      (collect g).Perm (s.groupMembers.flatMap own)) :
    (v.groups.flatMap collect).Perm (t.rootSite.preOrder.flatMap own) := by
  have hgroups : (v.groups.flatMap collect).Perm
      (t.rootSite.groupRoots.flatMap (fun s => s.groupMembers.flatMap own)) :=
    forall₂_flatMap_perm (groups_drawn h hb) (fun g s hs hg => hcollect s hs g hg)
  rw [← List.flatMap_assoc] at hgroups
  exact hgroups.trans ((View.groupMembers_perm hb).flatMap_right own)

end Tree

/-! ### Marks of a group -/

theorem Site.cellMark_eq_ok {n : Node} {m : CellMark} (h : cellMark n = .ok m) :
    ∃ own root rest, n.components.mark = .cell own :: rest ∧ m = { own with root } := by
  unfold cellMark at h
  obtain ⟨d, -, h⟩ := bind_eq_ok.mp h
  cases hmark : n.components.mark with
  | nil =>
    rw [hmark] at h
    exact absurd h (by simp [throw, throwThe, MonadExceptOf.throw])
  | cons first rest =>
    rw [hmark] at h
    cases first with
    | unit own => exact absurd h (by simp [throw, throwThe, MonadExceptOf.throw])
    | cell own => exact ⟨own, _, rest, rfl, (Except.ok.inj h).symm⟩

section

variable {γ : Type} {f : GroupMark → List γ} {own : MarkComponent → List γ} {pipeline : Pipeline}
  {whole : Spec}

theorem View.marksIn_flatMap {A : List Node} {cs : List View} {drawn : View → List γ}
    (h : ∀ c ∈ cs, ∀ ms, c.marks pipeline A = .ok ms → ms.flatMap f = drawn c)
    {ms : List GroupMark} (hms : marksIn pipeline A cs = .ok ms) :
    ms.flatMap f = cs.flatMap drawn := by
  induction cs generalizing ms with
  | nil =>
    obtain rfl : [] = ms := Except.ok.inj hms
    rfl
  | cons c rest ih =>
    obtain ⟨hfirst, hrest⟩ := List.forall_mem_cons.mp h
    rw [marksIn] at hms
    obtain ⟨first, hc, hms⟩ := bind_eq_ok.mp hms
    obtain ⟨others, hothers, hms⟩ := bind_eq_ok.mp hms
    obtain rfl : first ++ others = ms := Except.ok.inj hms
    rw [List.flatMap_append, List.flatMap_cons, hfirst first hc, ih hrest hothers]

/-- What is read off the marks of a view is read off those that the nodes in its group have made, if
it does not depend on what lies in a cell. -/
theorem View.marks_flatMap (hunit : ∀ m, f (.unit m) = own (.unit m))
    (hcell : ∀ m root data content, f (.cell { m with root } data content) = own (.cell m))
    {A : List Node} {v : View} (hb : Fits (fun s _ => s.Built whole) A v) (hl : Fits Labelled A v)
    {ms : List GroupMark} (h : v.marks pipeline A = .ok ms) :
    ms.flatMap f = (v.groupSites A).flatMap (fun m => m.node.components.mark.flatMap own) := by
  induction v using induct generalizing A ms with
  | h n cs ih =>
    obtain ⟨hself, hin⟩ := fits_mk_iff.mp hb
    obtain ⟨hlabelled, hlin⟩ := fits_mk_iff.mp hl
    have hnode : Site.node ⟨A, mk n cs⟩ = n := rfl
    unfold Labelled at hlabelled
    rw [groupSites, groupSitesIn_eq, List.flatMap_cons, hnode]
    rw [hnode] at hlabelled
    cases hk : n.kind with
    | unit u =>
      rw [hk] at hlabelled
      obtain ⟨m, hmark, -⟩ := hlabelled
      obtain rfl : cs = [] := hself.unit_leaf (Node.isUnit_of_unit hk)
      rw [marks.eq_1 _ A n [] u hk] at h
      obtain ⟨-, -, h⟩ := bind_eq_ok.mp h
      obtain rfl := Except.ok.inj h
      have hone : [MarkComponent.unit m].filterMap MarkComponent.unit? = [.unit m] := rfl
      rw [hmark, hone, List.flatMap_singleton, List.flatMap_singleton, hunit, List.flatMap_nil,
        ite_self, List.flatMap_nil, List.append_nil]
    | layer size =>
      rw [hk] at hlabelled
      rw [marks.eq_2 _ A n cs size hk] at h
      obtain ⟨-, -, h⟩ := bind_eq_ok.mp h
      rw [hlabelled, Node.isLayer_of_layer hk, if_pos rfl, List.flatMap_nil, List.nil_append,
        List.flatMap_assoc]
      exact marksIn_flatMap (fun c hc _ hms => ih c hc (hin c hc) (hlin c hc) hms) h
    | facet g =>
      rw [hk] at hlabelled
      obtain ⟨made, hmark, -⟩ := hlabelled
      obtain ⟨child, hchild⟩ := hself.facet_single (Node.isFacet_of_facet hk)
      obtain rfl : cs = [child] := hchild
      rw [marks.eq_4 _ A n child [] g hk] at h
      obtain ⟨-, -, h⟩ := bind_eq_ok.mp h
      obtain ⟨m, hm, h⟩ := bind_eq_ok.mp h
      obtain ⟨data, -, h⟩ := bind_eq_ok.mp h
      obtain ⟨inner, -, h⟩ := bind_eq_ok.mp h
      obtain rfl := Except.ok.inj h
      -- the cells are those that the facet has made, reading what it splits now
      obtain ⟨first, root, rest, hfirst, rfl⟩ := Site.cellMark_eq_ok (mapError_eq_ok.mp hm)
      rw [hmark] at hfirst
      obtain ⟨hsame, -⟩ := List.cons.inj hfirst
      obtain rfl := MarkComponent.cell.inj hsame
      rw [hmark, Node.not_layer_of_facet hk, List.flatMap_singleton, List.flatMap_singleton, hcell]
      exact (List.append_nil _).symm

theorem Site.headerMarks_eq_nil {s : Site} (h : s.node.components.headers = .empty) :
    s.headerMarks = [] := by
  unfold headerMarks
  rw [h]
  rfl

/-- The headers of a site as marks. -/
def Site.headerGroups (s : Site) : List GroupMark :=
  s.headerMarks.map (fun m => m.elim .title .header)

/-- One header or footer of a facet as a mark. -/
def Site.headerMark (s : Site) (h : HeaderChannel) (header : LayoutHeader) (slot : HeaderSlot)
    (part : HeaderPart) : HeaderMark where
  name := s.node.qualify (h.name ++ "_" ++ slot.name)
  channel := h
  slot := slot
  source := header.field.map (fun column => (s.node.qualify h.name, column))
  label := if part.labels then header.label else none
  sizeSignal := part.sizeSignal
  axes := part.axes

/-- The headers of a site are, along each channel, a title and the parts in each place. -/
theorem Site.headerGroups_flatMap (s : Site) (f : GroupMark → List γ) :
    s.headerGroups.flatMap f = [HeaderChannel.row, .column].flatMap (fun h =>
      (s.node.components.headers.get? h).toList.flatMap (fun header =>
        header.title.toList.flatMap (fun title =>
          f (.title ⟨s.node.qualify (h.name ++ "_title"), h, title⟩)) ++
        HeaderSlot.all.flatMap (fun slot => (header.parts slot).flatMap (fun part =>
          f (.header (s.headerMark h header slot part)))))) := by
  unfold headerGroups headerMarks
  rw [List.map_flatMap, List.flatMap_assoc]
  apply List.flatMap_congr
  intro h _
  cases s.node.components.headers.get? h with
  | none => rfl
  | some header =>
    dsimp only
    rw [Option.toList_some, List.flatMap_singleton, List.map_append, List.flatMap_append,
      List.map_flatMap, List.flatMap_assoc]
    simp only [List.map_map, List.flatMap_map]
    rfl

/-- The marks of a group are the headers of its nodes and the marks that they have made. -/
theorem Site.group_marks_perm (hunit : ∀ m, f (.unit m) = own (.unit m))
    (hcell : ∀ m root data content, f (.cell { m with root } data content) = own (.cell m))
    {s : Site} (hb : View.Fits (fun s _ => s.Built whole) s.ancestors s.view)
    (hf : View.Fits Finished s.ancestors s.view) {g : Group} (h : s.group pipeline = .ok g) :
    (g.marks.flatMap f).Perm (s.groupMembers.flatMap
      (fun m => m.headerGroups.flatMap f ++ m.node.components.mark.flatMap own)) := by
  obtain ⟨ms, hms, rfl⟩ := group_eq_ok.mp h
  have hmade : ms.flatMap f = s.groupMembers.flatMap (fun m => m.node.components.mark.flatMap own) :=
    View.marks_flatMap hunit hcell hb (hf.mono (fun _ _ hk => hk.labelled)) hms
  have hheaders : s.headerGroups.flatMap f =
      s.groupMembers.flatMap (fun m => m.headerGroups.flatMap f) := by
    obtain ⟨rest, hrest, hno⟩ := View.groupSites_cons hb
    have hmembers : s.groupMembers = s :: rest := hrest
    have hnone : rest.flatMap (fun m => m.headerGroups.flatMap f) = [] := by
      rw [List.flatMap_eq_nil_iff]
      intro m hm
      have hmem : m ∈ s.view.groupSites s.ancestors := hrest ▸ List.mem_cons_of_mem _ hm
      have hempty := (hf m (View.mem_sites_of_mem_groupSites hmem)).slotted.1 (hno m hm)
      rw [headerGroups, headerMarks_eq_nil hempty, List.map_nil, List.flatMap_nil]
    rw [hmembers, List.flatMap_cons, hnone, List.append_nil]
  have hmarks : (s.groupOf ms).marks = s.headerGroups ++ ms := rfl
  rw [hmarks, List.flatMap_append, hheaders, hmade]
  exact List.flatMap_append_perm _ _ _

variable (f own)

/-- All marks of a visualization are the headers of the nodes and the marks that they have made. -/
theorem Tree.marks_flatMap_perm (hunit : ∀ m, f (.unit m) = own (.unit m))
    (hcell : ∀ m root data content, f (.cell { m with root } data content) = own (.cell m))
    {t : Tree} {v : Visualization} (h : t.assemble pipeline = .ok v)
    (hb : View.Fits (fun s _ => s.Built whole) [] t.root) (hf : View.Fits Finished [] t.root) :
    (v.groups.flatMap (fun g => g.marks.flatMap f)).Perm (t.rootSite.preOrder.flatMap
      (fun m => m.headerGroups.flatMap f ++ m.node.components.mark.flatMap own)) := by
  refine groups_flatMap_perm h hb ?_
  intro s hs g hg
  have hmem : s ∈ t.root.sites [] := View.mem_sites_of_mem_groupRoots hb hs
  exact Site.group_marks_perm hunit hcell (fun m hm => hb m (View.mem_sites_trans hmem hm))
    (fun m hm => hf m (View.mem_sites_trans hmem hm)) hg

end

end Trellis

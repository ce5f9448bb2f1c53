import Trellis.Proofs.Emitted
import Trellis.Proofs.Lifts

/-! Titles of facets nested in each other. A facet puts its own title in front of the one that its
child has along the same side, and the child gives that one up; so facets nested right in each other
show one title between them. -/
namespace Trellis

/-- The title of a binding: the one asked for, or that of the field. -/
def FieldDef.headerTitle (f : FieldDef) : String :=
  (f.header.getD .unset).title.getD f.displayTitle

namespace Node

/-- The title that a facet itself has along a side that it binds. -/
def ownTitle? (n : Node) (side : HeaderChannel) : Option String :=
  (n.facet?.bind (fun f => f.fieldDef? side.channel)).map FieldDef.headerTitle

/-- The title that a node has in its header along a side. -/
def headerTitle? (n : Node) (side : HeaderChannel) : Option String :=
  (n.components.headers.get? side).bind LayoutHeader.title

end Node

/-- A title in front of that of what is inside. -/
def joinTitle (own : String) : Option String → String
  | none => own
  | some inner => if inner.isEmpty then own else own ++ " / " ++ inner

/-- The title that a view has along a side for the node above: facets put their own in front. -/
def View.risingTitle? (side : HeaderChannel) : View → Option String
  | mk n [] => n.ownTitle? side
  | mk n (c :: _) => (n.ownTitle? side).map (fun own => joinTitle own (c.risingTitle? side))

namespace Site

/-- The node right above a site takes its title along a side. -/
def givesTitle (s : Site) (side : HeaderChannel) : Bool :=
  s.ancestors.head?.any (fun n => (n.ownTitle? side).isSome)

/-- The title of a site that the node above leaves there. -/
def stayingTitle? (s : Site) (side : HeaderChannel) : Option String :=
  if s.givesTitle side then none else s.view.risingTitle? side

end Site

/-! ### Only what is bound counts -/

theorem Node.ownTitle?_of_not_facet {n : Node} (h : n.isFacet = false) (side : HeaderChannel) :
    n.ownTitle? side = none := by
  have hnone : n.facet? = none := by simpa [isFacet] using h
  rw [ownTitle?, hnone]
  rfl

namespace View

/-- Without a title of its own a view has none for the node above. -/
theorem risingTitle?_of_unbound {v : View} {side : HeaderChannel}
    (h : v.node.ownTitle? side = none) : v.risingTitle? side = none := by
  obtain ⟨n, cs⟩ := v
  have hown : n.ownTitle? side = none := h
  cases cs with
  | nil => exact hown
  | cons c rest =>
    rw [risingTitle?, hown]
    rfl

theorem risingTitle?_updateAll (g : Components → Components) (side : HeaderChannel) (v : View) :
    (v.updateAll g).risingTitle? side = v.risingTitle? side := by
  induction v using induct with
  | h n cs ih =>
    rw [updateAll_mk]
    cases cs with
    | nil => rfl
    | cons c rest =>
      rw [List.map_cons, risingTitle?, risingTitle?, ih c List.mem_cons_self]
      rfl

end View

namespace Site

theorem givesTitle_updateAll (g : Components → Components) (s : Site) (side : HeaderChannel) :
    (s.updateAll g).givesTitle side = s.givesTitle side := by
  rw [givesTitle, updateAll, List.head?_map, Option.any_map]
  rfl

theorem stayingTitle?_updateAll (g : Components → Components) (s : Site) (side : HeaderChannel) :
    (s.updateAll g).stayingTitle? side = s.stayingTitle? side := by
  rw [stayingTitle?, stayingTitle?, givesTitle_updateAll]
  exact congrArg _ (View.risingTitle?_updateAll g side s.view)

end Site

/-! ### One facet -/

theorem LayoutHeader.title_foldl_addAxis (side other : HeaderChannel) (fresh : HeaderPart)
    (axes : List Axis) (headers : Dict HeaderChannel LayoutHeader) :
    ((axes.foldl (fun headers a => headers.insert side
      ((headers.getD side .empty).addAxis (.ofOrient a.orient) fresh a)) headers).get? other).bind
        LayoutHeader.title = (headers.get? other).bind LayoutHeader.title := by
  induction axes generalizing headers with
  | nil => rfl
  | cons a rest ih =>
    rw [List.foldl_cons, ih, Dict.get?_insert]
    split
    · rename_i hsame
      -- a header that is made for an axis has no title either
      rw [Option.bind_some, (LayoutHeader.addAxis_same _ _ _ _).1, hsame, Dict.getD]
      cases headers.get? side <;> rfl
    · rfl

namespace View

/-- A facet's node and its child while the headers of some sides are laid out: the facet has its own
title in front of that of the child, who has given it up. -/
structure Titling (f : FacetView) (child : View) (laid : List HeaderChannel) (p : Node × View) :
    Prop where
  facet : ∀ side, p.1.headerTitle? side = if side ∈ laid then
    (f.fieldDef? side.channel).map
      (fun g => joinTitle g.headerTitle (child.node.headerTitle? side)) else none
  cell : ∀ side, p.2.node.headerTitle? side =
    if side ∈ laid ∧ (f.fieldDef? side.channel).isSome then none else child.node.headerTitle? side
  children : p.2.children = child.children

variable {n : Node} {f : FacetView} {child : View} {laid : List HeaderChannel} {p : Node × View}
  {side : HeaderChannel}

theorem facetHeader_title (config : Config) (child : View) (side : HeaderChannel) (g : FieldDef) :
    (facetHeader config child side g).1.title =
      some (joinTitle g.headerTitle (child.node.headerTitle? side)) := by
  unfold facetHeader Node.headerTitle?
  cases hinner : child.node.components.headers.get? side with
  | none => rfl
  | some inner =>
    unfold LayoutHeader.mergeTitle
    dsimp only
    rw [Option.bind_some]
    cases inner.title <;> rfl

/-- The child gives up the title of one side, and keeps that of the other. -/
theorem facetHeader_left (config : Config) (child : View) (side other : HeaderChannel)
    (g : FieldDef) : (facetHeader config child side g).2.node.headerTitle? other =
      if other = side then none else child.node.headerTitle? other := by
  obtain ⟨k, ws⟩ := child
  unfold facetHeader
  cases hinner : (mk k ws).node.components.headers.get? side with
  | none =>
    dsimp only
    split
    · rename_i hsame
      rw [Node.headerTitle?, hsame, hinner]
      rfl
    · rfl
  | some inner =>
    change ((k.components.headers.insert side { inner with title := none }).get? other).bind _ = _
    rw [Dict.get?_insert]
    split
    · rfl
    · rfl

theorem facetHeader_children (config : Config) (child : View) (side : HeaderChannel)
    (g : FieldDef) : (facetHeader config child side g).2.children = child.children := by
  obtain hchild | ⟨inner, -, hchild⟩ := facetHeader_child config child side g
  · rw [hchild]
  · rw [hchild]
    cases child
    rfl

/-- Along a side that the facet does not bind, no title moves. -/
theorem Titling.skip (hp : Titling f child laid p) (hnone : f.fieldDef? side.channel = none) :
    Titling f child (side :: laid) p := by
  refine ⟨?_, ?_, hp.children⟩
  · intro other
    rw [hp.facet other]
    by_cases hsame : other = side
    · rw [hsame, hnone, Option.map_none, ite_self, ite_self]
    · simp only [List.mem_cons, hsame, false_or]
  · intro other
    rw [hp.cell other]
    by_cases hsame : other = side
    · rw [hsame, hnone, if_neg (fun h => absurd h.2 (by decide)),
        if_neg (fun h => absurd h.2 (by decide))]
    · simp only [List.mem_cons, hsame, false_or]

/-- The header of one more side is laid out. -/
theorem Titling.addHeader (hp : Titling f child laid p) (config : Config) (side : HeaderChannel)
    (hnew : side ∉ laid) :
    Titling f child (side :: laid) (addHeader config p.1 f side p.2) := by
  unfold View.addHeader
  cases hg : f.fieldDef? side.channel with
  | none => exact hp.skip hg
  | some g =>
    have hinner : p.2.node.headerTitle? side = child.node.headerTitle? side := by
      rw [hp.cell side, if_neg (fun h => hnew h.1)]
    refine ⟨?_, ?_, (facetHeader_children config p.2 side g).trans hp.children⟩
    · intro other
      let header := (facetHeader config p.2 side g).1
      change ((p.1.components.headers.insert side header).get? other).bind LayoutHeader.title = _
      rw [Dict.get?_insert]
      by_cases hsame : other = side
      · rw [if_pos hsame, Option.bind_some, facetHeader_title, hinner, hsame,
          if_pos List.mem_cons_self, hg]
        rfl
      · have hold := hp.facet other
        rw [Node.headerTitle?] at hold
        rw [if_neg hsame, hold]
        simp only [List.mem_cons, hsame, false_or]
    · intro other
      dsimp only
      rw [facetHeader_left, hp.cell other]
      by_cases hsame : other = side
      · rw [if_pos hsame, hsame, if_pos ⟨List.mem_cons_self, by rw [hg]; rfl⟩]
      · rw [if_neg hsame]
        simp only [List.mem_cons, hsame, false_or]

/-- Axes go into the headers beside the titles. -/
theorem Titling.liftAxes (hp : Titling f child laid p) (c : Channel) :
    Titling f child laid (liftAxes c p.1 p.2) := by
  unfold View.liftAxes
  split
  · exact hp
  · split
    · obtain ⟨m, ⟨k, ws⟩⟩ := p
      refine ⟨?_, hp.cell, hp.children⟩
      intro side
      rw [← hp.facet side]
      exact LayoutHeader.title_foldl_addAxis _ side _ _ _
    · exact hp

/-- A site has the title that the node above leaves there. -/
def TitlesStay : Fact := fun s k =>
  ∀ side, (k.headers.get? side).bind LayoutHeader.title = s.stayingTitle? side

theorem titlesStay_siteBlind (phase : Phase) : TitlesStay.SiteBlind phase := by
  intro s k
  unfold TitlesStay
  simp only [Site.stayingTitle?_updateAll]

/-- The view has the title for the node above, and what is under it is as it stays. -/
structure Titled (A : List Node) (v : View) : Prop where
  own : ∀ side, v.node.headerTitle? side = v.risingTitle? side
  below : ∀ d ∈ v.children, Fits TitlesStay (v.node :: A) d

variable {A : List Node} {v w : View} {whole : Spec}

/-- A view stays as the node above leaves it. -/
theorem Titled.fits (h : Titled A v) (hframe : w.updateAll (Components.without .axisAndHeader) =
      v.updateAll (Components.without .axisAndHeader)) (hchildren : w.children = v.children)
    (htitle : ∀ side, w.node.headerTitle? side = Site.stayingTitle? ⟨A, v⟩ side) :
    Fits TitlesStay A w := by
  have hnode : v.node.update (Components.without .axisAndHeader) =
      w.node.update (Components.without .axisAndHeader) := by
    rw [← node_updateAll, ← node_updateAll, hframe]
  obtain ⟨n, cs⟩ := v
  obtain ⟨m, ds⟩ := w
  obtain rfl : ds = cs := hchildren
  exact fits_mk_of_frame (titlesStay_siteBlind .axisAndHeader) hnode rfl htitle h.below

end View

/-! ### Facets nested right in each other -/

/-- Facets nested right in each other that all bind a side and have these titles there, none of them
empty. Neither what is right above the first nor what is right under the last binds the side. -/
structure View.TitleChain (root : View) (side : HeaderChannel) (outer : Site) (inner : List Site)
    (titles : List String) : Prop where
  sites : ∀ s ∈ outer :: inner, s ∈ root.sites []
  nested : (outer :: inner).IsChain (fun above below => below ∈ above.children)
  titled : (outer :: inner).map (fun s => s.node.ownTitle? side) = titles.map some
  shown : "" ∉ titles
  first : outer.givesTitle side = false
  last : ∀ s ∈ (outer :: inner).getLast?, ∀ c ∈ s.children, c.node.ownTitle? side = none

namespace Site

variable {whole : Spec} {side : HeaderChannel} {outer : Site} {inner : List Site}
  {titles : List String}

/-- A facet that binds a side has one view under it, with which it shares its title. -/
theorem risingTitle?_facet {s : Site} {own : String} (hb : s.Built whole)
    (h : s.node.ownTitle? side = some own) : ∃ c, s.children = [c] ∧
      s.view.risingTitle? side = some (joinTitle own (c.view.risingTitle? side)) := by
  have hfacet : s.node.isFacet = true := by
    by_contra hno
    rw [Node.ownTitle?_of_not_facet (Bool.not_eq_true _ ▸ hno)] at h
    exact absurd h (by simp)
  obtain ⟨child, hchild⟩ := hb.facet_single hfacet
  obtain ⟨A, n, cs⟩ := s
  obtain rfl : cs = [child] := hchild
  have hown : n.ownTitle? side = some own := h
  refine ⟨⟨n :: A, child⟩, rfl, ?_⟩
  rw [View.risingTitle?, hown]
  rfl

theorem intercalate_isEmpty {first : String} (h : first ≠ "") (rest : List String) :
    (" / ".intercalate (first :: rest)).isEmpty = false := by
  rw [← Bool.not_eq_true, String.isEmpty_iff]
  intro hempty
  cases rest with
  | nil => exact h (String.intercalate_singleton.symm.trans hempty)
  | cons second rest =>
    rw [String.intercalate_cons_cons, String.append_eq_empty_iff] at hempty
    exact h (String.append_eq_empty_iff.mp hempty.1).1

/-- The titles come up in order: by induction from the innermost facet outwards. -/
theorem risingTitle?_of_nested (hb : ∀ s ∈ outer :: inner, s.Built whole)
    (hnested : (outer :: inner).IsChain (fun above below => below ∈ above.children))
    (htitled : (outer :: inner).map (fun s => s.node.ownTitle? side) = titles.map some)
    (hshown : "" ∉ titles)
    (hlast : ∀ s ∈ (outer :: inner).getLast?, ∀ c ∈ s.children, c.node.ownTitle? side = none) :
    outer.view.risingTitle? side = some (" / ".intercalate titles) := by
  induction inner generalizing outer titles with
  | nil =>
    obtain ⟨own, rfl⟩ : ∃ own, titles = [own] := by
      have hlength := congrArg List.length htitled
      rw [List.length_map, List.length_map] at hlength
      exact List.length_eq_one_iff.mp hlength.symm
    have hown : outer.node.ownTitle? side = some own := List.head_eq_of_cons_eq htitled
    obtain ⟨c, hc, hrising⟩ := risingTitle?_facet (hb outer List.mem_cons_self) hown
    have hnone : c.view.risingTitle? side = none := by
      apply View.risingTitle?_of_unbound
      exact hlast outer rfl c (hc ▸ List.mem_singleton_self c)
    rw [hrising, hnone, String.intercalate_singleton]
    rfl
  | cons s rest ih =>
    obtain ⟨hchild, hrest⟩ := List.isChain_cons_cons.mp hnested
    cases titles with
    | nil => exact absurd htitled (by simp)
    | cons own more =>
      obtain ⟨hown, hmore⟩ := List.cons.inj htitled
      have hshown : "" ∉ more := fun h => hshown (List.mem_cons_of_mem _ h)
      have hinner : s.view.risingTitle? side = some (" / ".intercalate more) :=
        ih (fun t ht => hb t (List.mem_cons_of_mem _ ht)) hrest hmore hshown
          (fun t ht => hlast t (by rwa [List.getLast?_cons_cons]))
      obtain ⟨c, hc, hrising⟩ := risingTitle?_facet (hb outer List.mem_cons_self) hown
      obtain rfl : s = c := List.mem_singleton.mp (hc ▸ hchild)
      cases more with
      | nil => exact absurd hmore (by simp)
      | cons second last =>
        have hsecond : second ≠ "" := fun h => hshown (h ▸ List.mem_cons_self)
        rw [hrising, hinner, String.intercalate_cons_cons, joinTitle,
          intercalate_isEmpty hsecond, if_neg Bool.false_ne_true]

/-- Every facet in a chain but the first has its title taken by the one before. -/
theorem givesTitle_of_nested
    (hnested : (outer :: inner).IsChain (fun above below => below ∈ above.children))
    (htitled : (outer :: inner).map (fun s => s.node.ownTitle? side) = titles.map some) :
    ∀ s ∈ inner, s.givesTitle side = true := by
  induction inner generalizing outer titles with
  | nil => exact List.forall_mem_nil _
  | cons s rest ih =>
    obtain ⟨hchild, hrest⟩ := List.isChain_cons_cons.mp hnested
    cases titles with
    | nil => exact absurd htitled (by simp)
    | cons own more =>
      obtain ⟨hown, hmore⟩ := List.cons.inj htitled
      refine List.forall_mem_cons.mpr ⟨?_, ih hrest hmore⟩
      obtain ⟨d, -, rfl⟩ := List.mem_map.mp hchild
      exact Option.isSome_iff_exists.mpr ⟨own, hown⟩

end Site

/-! ### What is emitted -/

def GroupMark.titleMark : GroupMark → List TitleMark
  | .title m => [m]
  | .unit _ | .header _ | .cell _ _ _ => []

/-- The title groups of a visualization. -/
def Visualization.titleMarks (v : Visualization) : List TitleMark :=
  v.groups.flatMap (fun g => g.marks.flatMap GroupMark.titleMark)

/-- The name of a title group. -/
def Node.titleName (n : Node) (side : HeaderChannel) : String := n.qualify (side.name ++ "_title")

/-- The title groups of a site, one for each side with a title. -/
def Site.titleMarks (s : Site) : List TitleMark :=
  [HeaderChannel.row, .column].flatMap (fun side =>
    (s.node.headerTitle? side).toList.map (fun title => ⟨s.node.titleName side, side, title⟩))

namespace Site

end Site

/-- The name of a title group tells the node and the side. -/
theorem Node.titleName_inj {m n : Node} {side other : HeaderChannel}
    (h : m.titleName side = n.titleName other) : m.name = n.name ∧ side = other := by
  have hfree : Naming.SuffixFree ["row_title", "column_title"] := by decide
  have hword (side : HeaderChannel) : side.name ++ "_title" ∈ ["row_title", "column_title"] := by
    cases side <;> decide
  obtain ⟨hname, hsame⟩ := hfree.separable _ _ _ (hword side) _ (hword other) h
  refine ⟨hname, ?_⟩
  cases side <;> cases other
  case row.row | column.column => rfl
  all_goals exact absurd hsame (by decide)

/-- A title group is one of these facets along a side, by its name. -/
def TitleMark.isOf (m : TitleMark) (side : HeaderChannel) (facets : List Site) : Bool :=
  facets.any (fun s => m.name == s.node.titleName side)

namespace View

variable {root : View} {whole : Spec} {side : HeaderChannel} {outer : Site} {inner : List Site}
  {titles : List String}

theorem TitleChain.joined (h : root.TitleChain side outer inner titles)
    (hb : Fits (fun s _ => s.Built whole) [] root) (ht : Fits TitlesStay [] root) :
    outer.node.headerTitle? side = some (" / ".intercalate titles) := by
  have hstay := ht outer (h.sites outer List.mem_cons_self) side
  rw [Site.stayingTitle?, h.first, if_neg Bool.false_ne_true,
    Site.risingTitle?_of_nested (fun s hs => hb s (h.sites s hs)) h.nested h.titled h.shown
      h.last] at hstay
  exact hstay

theorem TitleChain.cleared (h : root.TitleChain side outer inner titles)
    (ht : Fits TitlesStay [] root) : ∀ s ∈ inner, s.node.headerTitle? side = none := by
  intro s hs
  have hstay := ht s (h.sites s (List.mem_cons_of_mem _ hs)) side
  rw [Site.stayingTitle?, Site.givesTitle_of_nested h.nested h.titled s hs, if_pos rfl] at hstay
  exact hstay

/-- Of the title groups of a site those of the chain: the one of the first facet. -/
theorem TitleChain.filter_titleMarks (h : root.TitleChain side outer inner titles)
    (hb : Fits (fun s _ => s.Built whole) [] root) (ht : Fits TitlesStay [] root)
    (hnames : (root.nodes.map Node.name).Nodup) {s : Site} (hs : s ∈ root.sites []) :
    (s.node.name = outer.node.name → s.titleMarks.filter (fun m => m.isOf side (outer :: inner)) =
      [⟨outer.node.titleName side, side, " / ".intercalate titles⟩]) ∧
    (s.node.name ≠ outer.node.name →
      s.titleMarks.filter (fun m => m.isOf side (outer :: inner)) = []) := by
  have hmem {m : TitleMark} {other : HeaderChannel} {title : String}
      (hm : m = ⟨s.node.titleName other, other, title⟩)
      (hof : m.isOf side (outer :: inner) = true) : s ∈ outer :: inner ∧ other = side := by
    obtain ⟨c, hc, hname⟩ := List.any_eq_true.mp hof
    rw [beq_iff_eq, hm] at hname
    obtain ⟨hsame, hside⟩ := Node.titleName_inj hname
    obtain rfl : s = c := site_eq_of_name_eq hnames hs (h.sites c hc) hsame
    exact ⟨hc, hside⟩
  refine ⟨?_, ?_⟩
  · intro hname
    obtain rfl : s = outer := site_eq_of_name_eq hnames hs (h.sites outer List.mem_cons_self) hname
    have hone (other : HeaderChannel) :
        ((s.node.headerTitle? other).toList.map (fun title =>
          TitleMark.mk (s.node.titleName other) other title)).filter
            (fun m => m.isOf side (s :: inner)) =
          if other = side then [⟨s.node.titleName side, side, " / ".intercalate titles⟩]
          else [] := by
      split
      · rename_i hside
        have hof (title : String) :
            (TitleMark.mk (s.node.titleName side) side title).isOf side (s :: inner) = true :=
          List.any_eq_true.mpr ⟨s, List.mem_cons_self, beq_self_eq_true _⟩
        rw [hside, h.joined hb ht, Option.toList_some, List.map_singleton]
        exact List.filter_eq_self.mpr (List.forall_mem_singleton.mpr (hof _))
      · rename_i hside
        rw [List.filter_eq_nil_iff]
        intro m hm hof
        obtain ⟨title, -, rfl⟩ := List.mem_map.mp hm
        exact hside (hmem rfl hof).2
    rw [Site.titleMarks, List.filter_flatMap]
    simp only [hone]
    cases side <;> rfl
  · intro hne
    rw [List.filter_eq_nil_iff]
    intro m hm hof
    obtain ⟨other, -, hm⟩ := List.mem_flatMap.mp hm
    obtain ⟨title, htitle, rfl⟩ := List.mem_map.mp hm
    obtain ⟨hin, rfl⟩ := hmem rfl hof
    -- the other facets of the chain have given up their titles
    have hinner : s ∈ inner := (List.mem_cons.mp hin).resolve_left (fun he => hne (he ▸ rfl))
    rw [h.cleared ht s hinner] at htitle
    exact absurd htitle List.not_mem_nil

theorem TitleChain.filter_preOrder (h : root.TitleChain side outer inner titles)
    (hb : Fits (fun s _ => s.Built whole) [] root) (ht : Fits TitlesStay [] root)
    (hnames : (root.nodes.map Node.name).Nodup) :
    ((root.sites []).flatMap Site.titleMarks).filter (fun m => m.isOf side (outer :: inner)) =
      [⟨outer.node.titleName side, side, " / ".intercalate titles⟩] := by
  have hown (s : Site) (hs : s ∈ root.sites []) := h.filter_titleMarks hb ht hnames hs
  have hnodup : ((root.sites []).map (fun s => s.node.name)).Nodup := by
    rw [← sites_map_node [], List.map_map] at hnames
    exact hnames
  -- the title is found at the first facet, and nothing before or behind it in traversal order
  obtain ⟨before, behind, hsplit⟩ := List.append_of_mem (h.sites outer List.mem_cons_self)
  rw [hsplit] at hown hnodup
  rw [List.map_append, List.map_cons, List.nodup_append] at hnodup
  obtain ⟨-, hrest, hapart⟩ := hnodup
  have hbefore : before.flatMap (fun s =>
      s.titleMarks.filter (fun m => m.isOf side (outer :: inner))) = [] := by
    refine List.flatMap_eq_nil_iff.mpr (fun s hs => (hown s (List.mem_append_left _ hs)).2 ?_)
    exact hapart _ (List.mem_map_of_mem hs) _ List.mem_cons_self
  have hbehind : behind.flatMap (fun s =>
      s.titleMarks.filter (fun m => m.isOf side (outer :: inner))) = [] := by
    refine List.flatMap_eq_nil_iff.mpr (fun s hs => (hown s ?_).2 ?_)
    · exact List.mem_append_right _ (List.mem_cons_of_mem _ hs)
    · intro hsame
      have hin : s.node.name ∈ behind.map (fun s => s.node.name) := List.mem_map_of_mem hs
      exact (List.nodup_cons.mp hrest).1 (hsame ▸ hin)
  have houter := (hown outer (List.mem_append_right _ List.mem_cons_self)).1 rfl
  rw [hsplit, List.filter_flatMap, List.flatMap_append, List.flatMap_cons, hbefore, hbehind, houter]
  rfl

end View

namespace Tree

variable {spec : Spec} {config : Config} {t : Tree} {ds : List Diagnostic}

end Tree
end Trellis

import Trellis.View.Edit
import Trellis.Proofs.Known

/-! Where the views of a specification come to stand in the tree, and what their nodes are called.
The nodes are the parts of the specification in pre-order, so a node's index tells its part; and
each is called what its part or its place asks for, with the index joined to it as often as is
needed to tell it from the nodes before it. -/
namespace Trellis

namespace Spec

/-- The specifications right under one, in order. -/
def children : Spec → List Spec
  | unit _ => []
  | layer _ cs => cs
  | facet _ c => [c]

/-- The first part is the specification itself. -/
theorem parts_eq (s : Spec) : s.parts = s :: partsIn s.children := by
  cases s with
  | unit s => rfl
  | layer s cs => rw [parts, children]
  | facet s c => rw [parts, children, partsIn, partsIn, List.append_nil]

/-- What is under a specification comes right behind it. -/
theorem below_of_prefix {s : Spec} {parts : List Spec} {i : Nat} (h : s.parts <+: parts.drop i) :
    partsIn s.children <+: parts.drop (i + 1) := by
  obtain ⟨rest, hrest⟩ := h
  rw [← List.drop_drop, ← hrest, s.parts_eq, List.cons_append, List.drop_one, List.tail_cons]
  exact List.prefix_append _ _

end Spec

namespace Node

/-- The node is of the kind that a specification asks for. -/
def IsOf (n : Node) : Spec → Prop
  | .unit _ => n.isUnit = true
  | .layer _ _ => n.isLayer = true
  | .facet _ _ => n.isFacet = true

/-- The local name of the i-th view under a layer or facet. -/
def childName (n : Node) (i : Nat) : String :=
  if n.isFacet then "child" else "layer_" ++ toString i

theorem childName_facet {n : Node} (h : n.isFacet = true) (i : Nat) :
    n.childName i = Naming.facetChild := if_pos h

theorem childName_layer {n : Node} (h : n.isFacet = false) (i : Nat) :
    n.childName i = Naming.layerChild i := if_neg (Bool.eq_false_iff.mp h)

end Node

/-- The index of the node right above a site. -/
def Site.parent? (s : Site) : Option Nat := s.ancestors.head?.map Node.index

/-- The indices of the nodes right under a site. -/
def Site.childIndices (s : Site) : List Nat := s.view.children.map (fun c => c.node.index)

/-- A view stands at the place of the part that it shows, under the first new name for that part. -/
structure View.Seated (parts : List Spec) (names : List String) (given : String) (part : Spec)
    (v : View) : Prop where
  place : parts[v.node.index]? = some part
  name : Naming.FirstNew (names.take v.node.index) v.node.index (part.name?.getD given) v.node.name

/-- A site shows a part of a specification, and the views under it what stands under that part. -/
structure Site.Seated (parts : List Spec) (names : List String) (s : Site) (part : Spec) :
    Prop where
  place : parts[s.node.index]? = some part
  kind : s.node.IsOf part
  filled : s.node.isLayer = true → s.view.children ≠ []
  count : s.view.children.length = part.children.length
  child : ∀ i (c : View), s.view.children[i]? = some c → ∃ sub, part.children[i]? = some sub ∧
    c.Seated parts names (s.node.qualify (s.node.childName i)) sub

/-- The parts of the views under a site are those right under its own part, in order. -/
theorem Site.Seated.childParts {parts : List Spec} {names : List String} {s : Site} {part : Spec}
    (h : s.Seated parts names part) :
    s.childIndices.map (fun i => parts[i]?) = part.children.map some := by
  apply List.ext_getElem?
  intro i
  rw [childIndices, List.map_map, List.getElem?_map, List.getElem?_map]
  cases hc : s.view.children[i]? with
  | some c =>
    obtain ⟨sub, hsub, hseated⟩ := h.child i c hc
    rw [hsub, Option.map_some, Option.map_some, Function.comp_apply, hseated.place]
  | none =>
    have hlen : part.children.length ≤ i := h.count ▸ List.getElem?_eq_none_iff.mp hc
    rw [List.getElem?_eq_none_iff.mpr hlen]
    rfl

namespace View

variable {config : Config} {A : List Node} {given : String} {p q : Progress} {v : View}
  {parts : List Spec} {names : List String}

@[simp] theorem Progress.index_enter (p : Progress) (name : String) (ds : List Diagnostic) :
    (p.enter name ds).index = p.index + 1 := by
  rw [Progress.index, Progress.enter, List.length_append]
  rfl

/-- Each part of the specification gets one node. -/
theorem place_index {s : Spec} (h : place config A given p s = .ok (v, q)) :
    q.index = p.index + s.parts.length := by
  have hfollows := place_follows config s A given p
  unfold Follows at hfollows
  split at hfollows
  · exact absurd (hfollows.symm.trans h) (by simp)
  · obtain ⟨a, r, hok, hnames⟩ := hfollows
    obtain ⟨-, rfl⟩ := Prod.mk.inj (Except.ok.inj (hok.symm.trans h))
    rw [Progress.index, hnames, List.length_append, List.length_map,
      ← Spec.occurrences_map_spec (A.head?.any Node.isLayer) p.names given s, List.length_map]
    rfl

theorem placeAll_indices {ss : List Spec}
    (h : ∀ s ∈ ss, ∀ given p q v, place config A given p s = .ok (v, q) →
      v.nodes.map Node.index = List.range' p.index s.parts.length)
    {layer : String} {i : Nat} {vs : List View}
    (hp : placeAll config A layer i p ss = .ok (vs, q)) :
    (nodesIn vs).map Node.index = List.range' p.index (Spec.partsIn ss).length := by
  induction ss generalizing i p vs with
  | nil =>
    rw [placeAll] at hp
    obtain ⟨rfl, rfl⟩ := Prod.mk.inj (Except.ok.inj hp)
    rfl
  | cons s rest ih =>
    obtain ⟨w, ws, r, rfl, hs, hr⟩ := placeAll_cons_ok hp
    have hw := h s List.mem_cons_self _ p r w hs
    have hws := ih (fun t ht => h t (List.mem_cons_of_mem _ ht)) hr
    rw [nodesIn, List.map_append, hw, hws, place_index hs, Spec.partsIn, List.length_append,
      List.range'_append_1]

/-- The nodes are numbered on, in pre-order. -/
theorem place_indices {s : Spec} (h : place config A given p s = .ok (v, q)) :
    v.nodes.map Node.index = List.range' p.index s.parts.length := by
  induction s using Spec.induct generalizing A given p q v with
  | unit s =>
    obtain ⟨n, rfl, -, -, hi, -, -⟩ := place_unit_ok h
    rw [nodes, nodesIn, List.map_singleton, hi]
    rfl
  | layer s children ih =>
    obtain ⟨n, vs, rfl, -, -, -, hi, -, -, hall⟩ := place_layer_ok h
    have hin := placeAll_indices (fun c hc given p q w hw => ih c hc hw) hall
    rw [nodes, List.map_cons, hin, hi, Progress.index_enter, Spec.parts, List.length_cons,
      List.range'_succ]
  | facet s child ih =>
    obtain ⟨n, w, rfl, -, -, -, hi, -, -, hchild⟩ := place_facet_ok h
    have hin := ih hchild
    rw [nodes, nodesIn, nodesIn, List.append_nil, List.map_cons, hin, hi, Progress.index_enter,
      Spec.parts, List.length_cons, List.range'_succ]

theorem names_prefix_of_place {s : Spec} (h : place config A given p s = .ok (v, q)) :
    p.names <+: q.names := by
  rw [(place_names h).1]
  exact List.prefix_append _ _

theorem names_prefix_of_placeAll {ss : List Spec} {layer : String} {i : Nat} {vs : List View}
    (h : placeAll config A layer i p ss = .ok (vs, q)) : p.names <+: q.names := by
  rw [(placeAll_names (fun _ _ _ _ _ _ hw => place_names hw) h).1]
  exact List.prefix_append _ _

/-- A node is seated if the names taken so far stand before its own among all names. -/
theorem seated_of_place {s : Spec} {n : Node} {cs : List View} (hi : n.index = p.index)
    (hn : n.name = p.freshName (s.name?.getD given)) (hparts : s.parts <+: parts.drop p.index)
    (hnames : p.names <+: names) : (mk n cs).Seated parts names given s where
  place := by
    obtain ⟨rest, hrest⟩ := hparts
    have hfirst : (parts.drop p.index)[0]? = some s := by
      rw [← hrest, s.parts_eq]
      rfl
    rw [List.getElem?_drop, Nat.add_zero] at hfirst
    rw [node, hi]
    exact hfirst
  name := by
    have htaken : names.take p.index = p.names := (List.prefix_iff_eq_take.mp hnames).symm
    rw [node, hi, htaken, hn]
    exact freshName_firstNew p.names p.index _

theorem placeAll_seated {ss : List Spec}
    (h : ∀ s ∈ ss, ∀ given p q v, place config A given p s = .ok (v, q) →
      s.parts <+: parts.drop p.index → q.names <+: names →
        v.Seated parts names given s ∧
          ∀ t ∈ v.sites A, ∃ part, t.Seated parts names part)
    {layer : String} {i : Nat} {vs : List View}
    (hp : placeAll config A layer i p ss = .ok (vs, q))
    (hparts : Spec.partsIn ss <+: parts.drop p.index) (hnames : q.names <+: names) :
    vs.length = ss.length ∧
      (∀ j (c : View), vs[j]? = some c → ∃ sub, ss[j]? = some sub ∧
        c.Seated parts names (Naming.qualify layer (Naming.layerChild (i + j))) sub) ∧
      ∀ c ∈ vs, ∀ t ∈ c.sites A, ∃ part, t.Seated parts names part := by
  induction ss generalizing i p vs with
  | nil =>
    rw [placeAll] at hp
    obtain ⟨rfl, rfl⟩ := Prod.mk.inj (Except.ok.inj hp)
    exact ⟨rfl, by simp, by simp⟩
  | cons s rest ih =>
    obtain ⟨w, ws, r, rfl, hs, hr⟩ := placeAll_cons_ok hp
    -- the first view takes its parts from the front, the others start behind them
    rw [Spec.partsIn] at hparts
    have hfirst : s.parts <+: parts.drop p.index := (List.prefix_append _ _).trans hparts
    have hrest : Spec.partsIn rest <+: parts.drop r.index := by
      obtain ⟨more, hmore⟩ := hparts
      rw [place_index hs, ← List.drop_drop, ← hmore, List.append_assoc, List.drop_left]
      exact List.prefix_append _ _
    obtain ⟨hw, hsites⟩ := h s List.mem_cons_self _ p r w hs hfirst
      ((names_prefix_of_placeAll hr).trans hnames)
    obtain ⟨hlen, hws, hothers⟩ := ih (fun t ht => h t (List.mem_cons_of_mem _ ht)) hr hrest
    refine ⟨congrArg Nat.succ hlen, ?_, List.forall_mem_cons.mpr ⟨hsites, hothers⟩⟩
    intro j c hc
    cases j with
    | zero =>
      obtain rfl : w = c := Option.some.inj hc
      exact ⟨s, rfl, hw⟩
    | succ j =>
      obtain ⟨sub, hsub, hseated⟩ := hws j c hc
      rw [Nat.succ_add_eq_add_succ] at hseated
      exact ⟨sub, hsub, hseated⟩

/-- Building seats every part of the specification: a node stands at the place of its part, under
the first new name, and the views under it show what stands under its part. -/
theorem place_seated {s : Spec} (h : place config A given p s = .ok (v, q))
    (hparts : s.parts <+: parts.drop p.index) (hnames : q.names <+: names) :
    v.Seated parts names given s ∧ ∀ t ∈ v.sites A, ∃ part, t.Seated parts names part := by
  have htaken : p.names <+: names := (names_prefix_of_place h).trans hnames
  induction s using Spec.induct generalizing A given p q v with
  | unit s =>
    obtain ⟨n, rfl, hk, -, hi, hn, -⟩ := place_unit_ok h
    have hself : (mk n []).Seated parts names given (.unit s) :=
      seated_of_place hi hn hparts htaken
    refine ⟨hself, ?_⟩
    intro t ht
    rw [sites_mk, List.flatMap_nil, List.mem_singleton] at ht
    subst ht
    refine ⟨.unit s, hself.place, Node.isUnit_of_unit hk, ?_, rfl, by simp [children]⟩
    intro hl
    exact absurd ((Node.not_layer_of_unit hk).symm.trans hl) Bool.false_ne_true
  | layer s subs ih =>
    obtain ⟨n, vs, rfl, hk, -, -, hi, hn, hne, hall⟩ := place_layer_ok h
    have hself : (mk n vs).Seated parts names given (.layer s subs) :=
      seated_of_place hi hn hparts htaken
    have hbelow := Spec.below_of_prefix hparts
    rw [← Progress.index_enter p n.name s.resolve.composite.2] at hbelow
    obtain ⟨hlen, hchild, hsites⟩ := placeAll_seated
      (fun c hc _ _ _ _ hw hparts' hnames' => ih c hc hw hparts' hnames'
        ((names_prefix_of_place hw).trans hnames')) hall hbelow hnames
    refine ⟨hself, ?_⟩
    intro t ht
    rcases mem_sites_mk.mp ht with rfl | ⟨c, hc, ht⟩
    · refine ⟨.layer s subs, hself.place, Node.isLayer_of_layer hk, ?_, hlen, ?_⟩
      · intro _ hnil
        obtain rfl : vs = [] := hnil
        exact hne (List.length_eq_zero_iff.mp hlen.symm)
      · intro i c hc
        obtain ⟨sub, hsub, hseated⟩ := hchild i c hc
        refine ⟨sub, hsub, ?_⟩
        rw [Nat.zero_add, ← Node.childName_layer (Node.not_facet_of_layer hk)] at hseated
        exact hseated
    · exact hsites c hc t ht
  | facet s sub ih =>
    obtain ⟨n, w, rfl, hk, -, -, hi, hn, -, hchild⟩ := place_facet_ok h
    have hself : (mk n [w]).Seated parts names given (.facet s sub) :=
      seated_of_place hi hn hparts htaken
    have hbelow := Spec.below_of_prefix hparts
    rw [← Progress.index_enter p n.name ((FacetView.ofBindings s.facet).2 ++ s.resolve.composite.2),
      Spec.children, Spec.partsIn, Spec.partsIn, List.append_nil] at hbelow
    obtain ⟨hseated, hsites⟩ :=
      ih hchild hbelow hnames ((names_prefix_of_place hchild).trans hnames)
    refine ⟨hself, ?_⟩
    intro t ht
    rcases mem_sites_mk.mp ht with rfl | ⟨c, hc, hin⟩
    · refine ⟨.facet s sub, hself.place, Node.isFacet_of_facet hk, ?_, rfl, ?_⟩
      · intro hl
        exact absurd ((Node.not_layer_of_facet hk).symm.trans hl) Bool.false_ne_true
      · intro i c hc
        obtain ⟨rfl, rfl⟩ : i = 0 ∧ w = c := by
          cases i with
          | zero => exact ⟨rfl, Option.some.inj hc⟩
          | succ i => exact absurd hc (by simp [children])
        rw [← Node.childName_facet (Node.isFacet_of_facet hk) 0] at hseated
        exact ⟨sub, rfl, hseated⟩
    · obtain rfl := List.mem_singleton.mp hc
      exact hsites t hin

/-! ### Indices in pre-order -/

/-- A site is the topmost one or stands right under another one. -/
theorem eq_or_child_of_mem_sites {s : Site} (hs : s ∈ v.sites A) :
    s = ⟨A, v⟩ ∨ ∃ r ∈ v.sites A, ∃ c ∈ r.view.children, s = ⟨r.lineage, c⟩ := by
  refine sites_induct (Q := fun s => s = ⟨A, v⟩ ∨
    ∃ r ∈ v.sites A, ∃ c ∈ r.view.children, s = ⟨r.lineage, c⟩) (.inl rfl) ?_ s hs
  intro r hr _ c hc
  exact .inr ⟨r, hr, c, hc, rfl⟩

theorem nodes_eq_cons (v : View) : v.nodes = v.node :: nodesIn v.children := by
  cases v
  rw [nodes, node, children]

theorem site_eq_of_index_eq (hi : (v.nodes.map Node.index).Pairwise (· < ·)) {s r : Site}
    (hs : s ∈ v.sites A) (hr : r ∈ v.sites A) (h : s.node.index = r.node.index) : s = r :=
  site_eq_of_key_eq (hi.imp Nat.ne_of_lt) hs hr h

/-- A site's index and those of the views under it, from the first one on, grow. -/
theorem indices_pairwise (hi : (v.nodes.map Node.index).Pairwise (· < ·)) {s : Site}
    (hs : s ∈ v.sites A) :
    (s.node.index :: s.view.children.map (fun c => c.node.index)).Pairwise (· < ·) := by
  have hroots (cs : List View) (B : List Node) :
      (cs.map (fun c => c.node.index)).Sublist ((cs.flatMap (sites B)).map (·.node.index)) := by
    induction cs with
    | nil => exact .slnil
    | cons c rest ih =>
      rw [List.map_cons, List.flatMap_cons, List.map_append]
      have hc : [c.node.index].Sublist ((c.sites B).map (·.node.index)) :=
        List.singleton_sublist.mpr (List.mem_map_of_mem (self_mem_sites B c))
      exact hc.append ih
  have hall : ((v.sites A).map (fun s => s.node.index)).Pairwise (· < ·) := by
    rw [← sites_map_node A, List.map_map] at hi
    exact hi
  refine (hall.sublist ((preOrder_sublist hs).map _)).sublist ?_
  obtain ⟨B, w⟩ := s
  cases w with
  | mk n cs =>
    rw [Site.preOrder, sites_mk, List.map_cons]
    exact (hroots cs (n :: B)).cons_cons _

end View

namespace View

variable {A : List Node} {v : View}

/-- A node is listed under another one exactly where that one is right above it. -/
theorem mem_childIndices_iff (hi : (v.nodes.map Node.index).Pairwise (· < ·)) {s r : Site}
    (hs : s ∈ v.sites []) (hr : r ∈ v.sites []) :
    r.node.index ∈ s.childIndices ↔ r.parent? = some s.node.index := by
  constructor
  · intro h
    obtain ⟨c, hc, hindex⟩ := List.mem_map.mp h
    obtain rfl := site_eq_of_index_eq hi (child_mem_sites hs hc) hr hindex
    rfl
  · intro h
    rcases eq_or_child_of_mem_sites hr with rfl | ⟨p, hp, c, hc, rfl⟩
    · exact absurd h (by simp [Site.parent?])
    · obtain rfl := site_eq_of_index_eq hi hp hs (Option.some.inj h)
      exact List.mem_map_of_mem hc

theorem parent_lt (hi : (v.nodes.map Node.index).Pairwise (· < ·)) {r : Site}
    (hr : r ∈ v.sites []) {i : Nat} (h : r.parent? = some i) : i < r.node.index := by
  rcases eq_or_child_of_mem_sites hr with rfl | ⟨p, hp, c, hc, rfl⟩
  · exact absurd h (by simp [Site.parent?])
  · obtain rfl : p.node.index = i := Option.some.inj h
    exact List.rel_of_pairwise_cons (indices_pairwise hi hp) (List.mem_map_of_mem hc)

end View

namespace Tree

variable {t : Tree}

/-- The index of the node right above the one at an index. -/
def parent? (t : Tree) (i : Nat) : Option Nat := (t.site? i).bind Site.parent?

/-- Where indices differ, a site is found by its own. -/
theorem site?_index (hi : (t.root.nodes.map Node.index).Pairwise (· < ·)) {s : Site}
    (hs : s ∈ t.root.sites []) : t.site? s.node.index = some s := by
  have hsome : ((t.root.sites []).find? (fun r => r.node.index = s.node.index)).isSome = true :=
    List.find?_isSome.mpr ⟨s, hs, decide_eq_true rfl⟩
  obtain ⟨r, hr⟩ := Option.isSome_iff_exists.mp hsome
  have hindex : r.node.index = s.node.index := by simpa using List.find?_some hr
  obtain rfl := View.site_eq_of_index_eq hi (List.mem_of_find?_eq_some hr) hs hindex
  rw [site?, allSites, List.find?_append, hr, Option.some_or]

/-- From parent to parent, the nodes above a site lead down to that with the least index. -/
theorem lineage_path (hi : (t.root.nodes.map Node.index).Pairwise (· < ·)) {s : Site}
    (hs : s ∈ t.root.sites []) :
    (s.lineage.map Node.index).IsChain (fun i above => t.parent? i = some above) ∧
      (s.lineage.map Node.index).Pairwise (· > ·) ∧
      (s.lineage.map Node.index).getLast? = some t.root.node.index := by
  refine View.sites_induct (Q := fun s =>
    (s.lineage.map Node.index).IsChain (fun i above => t.parent? i = some above) ∧
      (s.lineage.map Node.index).Pairwise (· > ·) ∧
      (s.lineage.map Node.index).getLast? = some t.root.node.index)
    ⟨.singleton _, List.pairwise_singleton _ _, rfl⟩ ?_ s hs
  rintro r hr ⟨hchain, hfalling, hlast⟩ c hc
  have hfound : t.parent? c.node.index = some r.node.index := by
    have hsite : t.site? c.node.index = some ⟨r.lineage, c⟩ :=
      site?_index hi (View.child_mem_sites hr hc)
    rw [parent?, hsite]
    rfl
  have hlt : r.node.index < c.node.index :=
    List.rel_of_pairwise_cons (View.indices_pairwise hi hr) (List.mem_map_of_mem hc)
  rw [Site.lineage, List.map_cons] at hchain hfalling hlast
  obtain ⟨habove, hrest⟩ := List.pairwise_cons.mp hfalling
  rw [Site.lineage, Site.lineage, List.map_cons, List.map_cons]
  refine ⟨.cons_cons hfound hchain, List.pairwise_cons.mpr ⟨?_, hfalling⟩, ?_⟩
  · intro i hi'
    rcases List.mem_cons.mp hi' with rfl | hi'
    · exact hlt
    · exact Nat.lt_trans (habove i hi') hlt
  · rw [List.getLast?_cons_cons]
    exact hlast

/-- The tree is a specification laid out in pre-order. -/
structure LaidOut (whole : Spec) (t : Tree) : Prop where
  /-- From the root on, the indices are those of the views of the specification. -/
  preOrder : t.rootSite.preOrder.map (fun s => s.node.index) = List.range whole.parts.length
  /-- There are no other nodes. -/
  arena : t.allNodes = t.rootSite.preOrder.map Site.node
  found : ∀ s ∈ t.rootSite.preOrder, t.site? s.node.index = some s
  /-- A node is of the kind of its part, and lists the nodes of what is right under that part, in
  order. -/
  shown : ∀ s ∈ t.rootSite.preOrder, ∃ part, whole.parts[s.node.index]? = some part ∧
    s.node.IsOf part ∧ s.childIndices.map (fun i => whole.parts[i]?) = part.children.map some
  leaf : ∀ s ∈ t.rootSite.preOrder, s.node.isUnit = true → s.childIndices = []
  single : ∀ s ∈ t.rootSite.preOrder, s.node.isFacet = true → ∃ i, s.childIndices = [i]
  filled : ∀ s ∈ t.rootSite.preOrder, s.node.isLayer = true → s.childIndices ≠ []
  linked : ∀ s ∈ t.rootSite.preOrder, ∀ r ∈ t.rootSite.preOrder,
    (r.node.index ∈ s.childIndices ↔ r.parent? = some s.node.index)
  rising : ∀ s ∈ t.rootSite.preOrder, s.childIndices.Pairwise (· < ·)
  parent_lt : ∀ s ∈ t.rootSite.preOrder, ∀ i, s.parent? = some i → i < s.node.index
  no_layer_above : ∀ s ∈ t.rootSite.preOrder, s.node.isFacet = true →
    ∀ a ∈ s.ancestors, a.isLayer = false
  /-- The nodes above a site are its parent, the parent of that, and so on to the root. -/
  path : ∀ s ∈ t.rootSite.preOrder,
    (s.lineage.map Node.index).IsChain (fun i above => t.parent? i = some above) ∧
      (s.lineage.map Node.index).Pairwise (· > ·) ∧
      (s.lineage.map Node.index).getLast? = some 0
  nearest : ∀ s ∈ t.rootSite.preOrder, ∀ f, s.facetAncestor? = some f ↔ f.isFacet = true ∧
    ∃ inner outer, s.ancestors = inner ++ f :: outer ∧ ∀ a ∈ inner, a.isFacet = false

/-- The nodes of the tree are called what their parts or places ask for. -/
structure NodesNamed (whole : Spec) (t : Tree) : Prop where
  distinct : (t.root.nodes.map Node.name).Nodup
  numbered : t.root.nodes.map Node.index = List.range t.root.nodes.length
  root : t.root.node.name = whole.name?.getD ""
  /-- Every other node stands under one. It is called what its part says or what its place is, or
  else the first new name from there, if one of the nodes before it has that name. -/
  child : ∀ s ∈ t.root.sites [], ∀ i (c : View), s.view.children[i]? = some c →
    ∃ part, whole.parts[c.node.index]? = some part ∧
      let place := s.node.childName i
      let wanted := part.name?.getD
        (if s.node.name = "" then place else s.node.name ++ "_" ++ place)
      let earlier := (t.root.nodes.take c.node.index).map Node.name
      (wanted ∉ earlier → c.node.name = wanted) ∧
        Naming.FirstNew earlier c.node.index wanted c.node.name

variable {spec : Spec} {config : Config} {ds : List Diagnostic}

theorem place_of_build (h : Tree.build spec config = .ok (t, ds)) :
    t.offcuts = [] ∧ ∃ q, View.place config [] "" .start spec = .ok (t.root, q) := by
  unfold Tree.build at h
  obtain ⟨⟨root, q⟩, hplace, h⟩ := bind_eq_ok.mp h
  obtain ⟨rfl, rfl⟩ := Prod.mk.inj (Except.ok.inj h)
  exact ⟨rfl, q, hplace⟩

/-- The nodes of a built tree are the parts of its specification, each at its place. -/
theorem seated_of_build (h : Tree.build spec config = .ok (t, ds)) :
    t.root.nodes.map Node.index = List.range spec.parts.length ∧
      (t.root.nodes.map Node.name).Nodup ∧
      t.root.Seated spec.parts (t.root.nodes.map Node.name) "" spec ∧
      ∀ s ∈ t.root.sites [],
        ∃ part, s.Seated spec.parts (t.root.nodes.map Node.name) part := by
  obtain ⟨-, q, hplace⟩ := place_of_build h
  obtain ⟨hnames, hnodup⟩ := View.place_names hplace
  have hall : q.names = t.root.nodes.map Node.name := hnames
  obtain ⟨hroot, hsites⟩ := View.place_seated hplace (List.prefix_refl spec.parts)
    (List.prefix_refl q.names)
  rw [hall] at hnodup hroot hsites
  refine ⟨?_, hnodup List.nodup_nil, hroot, hsites⟩
  rw [View.place_indices hplace, List.range_eq_range']
  rfl

theorem root_index (h : Tree.build spec config = .ok (t, ds)) : t.root.node.index = 0 := by
  have hfirst := congrArg List.head? (seated_of_build h).1
  rw [View.nodes_eq_cons, List.map_cons, spec.parts_eq, List.length_cons,
    List.range_succ_eq_map] at hfirst
  exact Option.some.inj hfirst

/-- A built tree is its specification laid out in pre-order: indices count the views as they are
met, every node lists exactly the nodes whose parent it is, units have nothing under them, facets
one view and layers those of their list, facets stand under facets only, and what is above a node is
the path to the root. -/
theorem laidOut_of_build (h : Tree.build spec config = .ok (t, ds)) : t.LaidOut spec := by
  obtain ⟨hindices, -, -, hseated⟩ := seated_of_build h
  obtain ⟨⟨-, hblank, -⟩, -⟩ := Tree.build_ok (G := fun _ => True) h
  have hbuilt : View.Fits (fun s _ => s.Built spec) [] t.root :=
    View.Fits.mono hblank (fun _ _ hs => hs.1)
  have hrising : (t.root.nodes.map Node.index).Pairwise (· < ·) := by
    rw [hindices]
    exact List.pairwise_lt_range
  constructor
  case preOrder =>
    rw [← hindices, ← View.sites_map_node [], List.map_map]
    rfl
  case arena =>
    obtain ⟨hnone, -⟩ := place_of_build h
    rw [allNodes, hnone, List.flatMap_nil, List.append_nil, ← View.sites_map_node []]
    rfl
  case found => exact fun s hs => site?_index hrising hs
  case shown =>
    intro s hs
    obtain ⟨part, hpart⟩ := hseated s hs
    exact ⟨part, hpart.place, hpart.kind, hpart.childParts⟩
  case leaf =>
    intro s hs hu
    rw [Site.childIndices, (hbuilt s hs).unit_leaf hu, List.map_nil]
  case single =>
    intro s hs hf
    obtain ⟨c, hc⟩ := (hbuilt s hs).facet_single hf
    exact ⟨c.node.index, by rw [Site.childIndices, hc, List.map_singleton]⟩
  case filled =>
    intro s hs hl
    obtain ⟨part, hpart⟩ := hseated s hs
    rw [Site.childIndices, ne_eq, List.map_eq_nil_iff]
    exact hpart.filled hl
  case linked => exact fun s hs r hr => View.mem_childIndices_iff hrising hs hr
  case rising => exact fun s hs => (View.indices_pairwise hrising hs).of_cons
  case parent_lt => exact fun s hs i => View.parent_lt hrising hs
  case no_layer_above =>
    intro s hs hf a ha
    have hfacet := (hbuilt s hs).facet_above hf a ha
    obtain ⟨f, hk⟩ := Node.kind_of_isFacet hfacet
    exact Node.not_layer_of_facet hk
  case path =>
    intro s hs
    rw [← root_index h]
    exact lineage_path hrising hs
  case nearest =>
    intro s _ f
    rw [Site.facetAncestor?, List.find?_eq_some_iff_append]
    simp

/-- In a built tree all names differ. A node is called what its part of the specification says, else
what its place under its parent is, or nothing at the root; where a node before it has that name,
its index is joined to the name as few times as make it new. That comes to an end, whatever names
are taken. -/
theorem nodesNamed_of_build (h : Tree.build spec config = .ok (t, ds)) :
    t.NodesNamed spec ∧ ∀ (taken : List String) index wanted,
      ∃ rounds ≤ taken.length, Naming.suffixed index rounds wanted ∉ taken := by
  obtain ⟨hindices, hdistinct, hroot, hseated⟩ := seated_of_build h
  have hlength : t.root.nodes.length = spec.parts.length := by
    rw [← List.length_map Node.index, hindices, List.length_range]
  refine ⟨⟨hdistinct, by rw [hindices, hlength], ?_, ?_⟩, View.exists_suffixed_not_mem⟩
  · -- no node comes before the root
    have hfirst := hroot.name
    rw [root_index h, List.take_zero] at hfirst
    exact hfirst.eq_wanted List.not_mem_nil
  · intro s hs i c hc
    obtain ⟨part, hpart⟩ := hseated s hs
    obtain ⟨sub, -, hchild⟩ := hpart.child i c hc
    refine ⟨sub, hchild.place, ?_⟩
    dsimp only
    rw [← Naming.qualify_eq, List.map_take]
    exact ⟨hchild.name.eq_wanted, hchild.name⟩

end Tree

/-! ### Names that are taken -/

namespace Spec

/-- A unit of points, which may have a name of its own. -/
def namedPoints (name : Option String) : Spec :=
  .unit ⟨⟨name, none, none, none⟩, ⟨none, none⟩, ⟨.point, none⟩, .empty, .empty⟩

/-- A facet of layered units. The second is called like the first, the third as the second has to be
renamed, and the fourth like the place of the last. The last two have no names of their own. -/
def takenNames : Spec :=
  .facet ⟨⟨none, none, none, none⟩, .empty, .empty⟩
    (.layer ⟨⟨none, none, none, none⟩, ⟨none, none⟩, .empty⟩
      ([some "v", some "v", some "v_3", some "child_layer_5", none, none].map namedPoints))

end Spec

namespace Tree

theorem nodesNamed_takenNames : ∃ t ds, Tree.build .takenNames .default = .ok (t, ds) ∧
    t.root.nodes.map Node.name =
      ["", "child", "v", "v_3", "v_3_4", "child_layer_5", "child_layer_4", "child_layer_5_7"] ∧
    t.NodesNamed .takenNames ∧ ∃ rounds ≤ 2, Naming.suffixed 3 rounds "v" ∉ ["v", "v_3"] := by
  have hnames : (Tree.build .takenNames .default).toOption.any (fun r =>
      r.1.root.nodes.map Node.name ==
        ["", "child", "v", "v_3", "v_3_4", "child_layer_5", "child_layer_4", "child_layer_5_7"]) =
          true := by
    decide +kernel
  obtain ⟨⟨t, ds⟩, hb, hnames⟩ := exists_ok_of_any hnames
  obtain ⟨hnamed, hends⟩ := nodesNamed_of_build hb
  exact ⟨t, ds, hb, beq_iff_eq.mp hnames, hnamed, hends ["v", "v_3"] 3 "v"⟩

theorem laidOut_takenNames : ∃ t ds, Tree.build .takenNames .default = .ok (t, ds) ∧
    t.rootSite.preOrder.map Site.childIndices =
      [[1], [2, 3, 4, 5, 6, 7], [], [], [], [], [], []] ∧ t.LaidOut .takenNames := by
  have hlinks : (Tree.build .takenNames .default).toOption.any (fun r =>
      r.1.rootSite.preOrder.map Site.childIndices ==
        [[1], [2, 3, 4, 5, 6, 7], [], [], [], [], [], []]) = true := by
    decide +kernel
  obtain ⟨⟨t, ds⟩, hb, hlinks⟩ := exists_ok_of_any hlinks
  exact ⟨t, ds, hb, beq_iff_eq.mp hlinks, laidOut_of_build hb⟩

end Tree
end Trellis

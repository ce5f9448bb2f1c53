import Trellis.Proofs.Lifts
import Trellis.Proofs.Origins
import Trellis.Proofs.Reports
import Trellis.Proofs.Seats

/-! A phase writes its own part of the components and nothing else, whatever tree it runs over. What
the last three phases read of names, of scales, sizes and data, has been written before them. So the
names they put into marks, axes and legends are those that the finished tree has. -/
namespace Trellis

/-- The phases that work out what is drawn. -/
def Phase.drawing : List Phase := [.markGroup, .axisAndHeader, .legend]

/-- What counts for the names of scales, sizes and datasets. -/
def Components.naming (k : Components) : Components :=
  { Components.empty with data := k.data, scales := k.scales }

namespace View

/-- What a phase does at one site. The data phase, which works from the root down, has no such
step. -/
def stepOf (config : Config) : Phase → Step
  | .data => fun _ v => .ok v
  | .scale => scaleStep config
  | .layoutSize => sizeStep config
  | .selection => selectionStep
  | .markGroup => markStep config
  | .axisAndHeader => guideStep config
  | .legend => legendStep

mutual

/-- The sites that a step is applied to, parents before children, each as it stands when its turn
comes: the views under it have been worked out. -/
def visited (phase : Phase) (step : Step) (ancestors : List Node) : View → List Site
  | mk n cs =>
    ⟨ancestors, mk n (bottomUpIn phase step (n :: ancestors) cs).views⟩ ::
      visitedIn phase step (n :: ancestors) cs

def visitedIn (phase : Phase) (step : Step) (ancestors : List Node) : List View → List Site
  | [] => []
  | v :: rest => visited phase step ancestors v ++ visitedIn phase step ancestors rest

end

end View

/-- The sites that one phase works on, each as it stands when its turn comes. -/
def Tree.visited (t : Tree) (phase : Phase) : List Site :=
  t.root.visited phase (View.stepOf t.config phase) []

namespace Site

/-- A site before and after a phase. -/
structure SameBut (phase : Phase) (s r : Site) : Prop where
  index : r.node.index = s.node.index
  name : r.node.name = s.node.name
  title : r.node.title = s.node.title
  kind : r.node.kind = s.node.kind
  resolve : r.node.resolve = s.node.resolve
  parent : r.parent? = s.parent?
  children : r.childIndices = s.childIndices
  components : r.node.components.without phase = s.node.components.without phase

/-- The names that a site means while a phase works on it are those it has in the end, in a tree
with the given root. -/
structure NamesAlike (root : View) (s r : Site) : Prop where
  node : r.node.name = s.node.name
  scale : ∀ c, r.scaleName c = s.scaleName c ∧ r.scale? c = s.scale? c
  /-- A scale in use is drawn under the name that was meant. -/
  drawn : ∀ c scale, s.scale? c = some scale → ∃ o ∈ root.sites [], o.node ∈ r.lineage ∧
    ⟨s.scaleName c, scale, o.sizeSignal⟩ ∈ o.groupScales
  size : ∀ d, r.sizeSignal d = s.sizeSignal d
  /-- The sizes of the views right under it. -/
  sizesBelow : ∀ d, r.view.children.map (View.sizeSignal d) =
    s.view.children.map (View.sizeSignal d)
  data : r.node.components.data = s.node.components.data
  cell : DataComponent.cell? r = DataComponent.cell? s

end Site

/-- What a phase leaves of a tree, and what becomes of the names that it means. -/
structure Tree.WritesOwn (t : Tree) (pipeline : Pipeline) (phase : Phase) : Prop where
  sites : List.Forall₂ (Site.SameBut phase) (t.root.sites [])
    ((t.runPhase pipeline phase).tree.root.sites [])
  rest : (t.runPhase pipeline phase).tree =
    { t with root := (t.runPhase pipeline phase).tree.root, parsed := some phase }
  silent : phase ≠ .selection → (t.runPhase pipeline phase).diagnostics = []
  /-- What is drawn depends on nothing but the sites visited. -/
  only : phase ∈ Phase.drawing → ∀ other : Step,
    (∀ s ∈ t.visited phase,
      other s.ancestors s.view = View.stepOf t.config phase s.ancestors s.view) →
      t.root.bottomUp phase other [] = t.root.runPhase pipeline t.config t.data phase
  names : phase ∈ Phase.drawing → ∀ later,
    List.Forall₂ (Site.NamesAlike (t.runPhases pipeline (phase :: later)).tree.root)
      (t.visited phase) ((t.runPhases pipeline (phase :: later)).tree.root.sites [])

/-! ### What a step is applied to -/

namespace View

variable {phase : Phase} {step other : Step} {A : List Node} {v : View}

theorem visitedIn_eq (phase : Phase) (step : Step) (A : List Node) (cs : List View) :
    visitedIn phase step A cs = cs.flatMap (visited phase step A) := by
  induction cs with
  | nil => rfl
  | cons c rest ih => rw [visitedIn, ih, List.flatMap_cons]

theorem visited_mk (phase : Phase) (step : Step) (A : List Node) (n : Node) (cs : List View) :
    (mk n cs).visited phase step A = ⟨A, mk n (bottomUpIn phase step (n :: A) cs).views⟩ ::
      cs.flatMap (visited phase step (n :: A)) := by
  rw [visited, visitedIn_eq]

theorem bottomUpIn_congr {cs : List View}
    (h : ∀ c ∈ cs, c.bottomUp phase step A = c.bottomUp phase other A) :
    bottomUpIn phase step A cs = bottomUpIn phase other A cs := by
  induction cs with
  | nil => rfl
  | cons c rest ih =>
    rw [bottomUpIn, bottomUpIn, h c List.mem_cons_self,
      ih (fun d hd => h d (List.mem_cons_of_mem _ hd))]

/-- Steps that agree on the sites visited lead to the same outcome. -/
theorem bottomUp_congr (h : ∀ s ∈ v.visited phase step A,
    other s.ancestors s.view = step s.ancestors s.view) :
    v.bottomUp phase other A = v.bottomUp phase step A := by
  induction v using induct generalizing A with
  | h n cs ih =>
    rw [visited_mk] at h
    obtain ⟨hself, hin⟩ := List.forall_mem_cons.mp h
    have hbelow : bottomUpIn phase other (n :: A) cs = bottomUpIn phase step (n :: A) cs :=
      bottomUpIn_congr (fun c hc =>
        ih c hc (fun s hs => hin s (List.mem_flatMap.mpr ⟨c, hc, hs⟩)))
    rw [bottomUp, bottomUp, hbelow]
    dsimp only at hself ⊢
    rw [hself]

/-- The sites visited are those of the tree, but for the part of the phase. -/
theorem visited_frame
    (hstep : ∀ A v, (step A v).view.updateAll (Components.without phase) =
      v.updateAll (Components.without phase)) (A : List Node) (v : View) :
    (v.visited phase step A).map (Site.updateAll (Components.without phase)) =
      (v.sites A).map (Site.updateAll (Components.without phase)) := by
  induction v using induct generalizing A with
  | h n cs ih =>
    have hbelow := updateAll_congr_mk (n := n) (m := n) rfl
      (bottomUpIn_frame (fun c (_ : c ∈ cs) => bottomUp_frame hstep (n :: A) c))
    rw [visited_mk, sites_mk, List.map_cons, List.map_cons, List.map_flatMap, List.map_flatMap,
      Site.updateAll, Site.updateAll, hbelow]
    congr 1
    exact List.flatMap_congr (fun c hc => ih c hc (n :: A))

theorem runPhase_eq_bottomUp (h : phase ≠ .data) (pipeline : Pipeline) (config : Config)
    (input : Option DataDef) (v : View) :
    v.runPhase pipeline config input phase = v.bottomUp phase (stepOf config phase) [] := by
  cases phase with
  | data => exact absurd rfl h
  | _ => rfl

theorem stepOf_frame (config : Config) (phase : Phase) (A : List Node) (v : View) :
    (stepOf config phase A v).view.updateAll (Components.without phase) =
      v.updateAll (Components.without phase) := by
  cases phase with
  | data => rfl
  | scale => exact scaleStep_frame config A v
  | layoutSize => exact sizeStep_frame config A v
  | selection => exact selectionStep_frame A v
  | markGroup => exact markStep_frame config A v
  | axisAndHeader => exact guideStep_frame config A v
  | legend => exact legendStep_frame A v

end View

/-! ### Sites before and after -/

theorem View.sizeSignal_amend (h : Option String → Option String) (g : Components → Components)
    (d : Dimension) (v : View) :
    (v.mapNodes (Node.amend h g)).sizeSignal d = v.sizeSignal d := by
  induction v using View.induct with
  | h n cs ih =>
    cases cs with
    | nil => rfl
    | cons c rest =>
      rw [View.mapNodes_mk, List.map_cons, View.sizeSignal, View.sizeSignal,
        ih c List.mem_cons_self]
      rfl

theorem View.sizeSignal_updateAll (g : Components → Components) (d : Dimension) (v : View) :
    (v.updateAll g).sizeSignal d = v.sizeSignal d :=
  View.sizeSignal_amend id g d v

namespace Site

variable {s r : Site} {phase : Phase} {root : View}

theorem childIndices_updateAll (g : Components → Components) (s : Site) :
    (s.updateAll g).childIndices = s.childIndices := by
  unfold childIndices updateAll
  rw [View.children_updateAll, List.map_map]
  refine List.map_congr_left (fun c _ => ?_)
  rw [Function.comp_apply, View.node_updateAll]
  rfl

theorem parent?_updateAll (g : Components → Components) (s : Site) :
    (s.updateAll g).parent? = s.parent? := by
  unfold parent? updateAll
  rw [List.head?_map, Option.map_map]
  rfl

theorem sizesBelow_updateAll (g : Components → Components) (s : Site) (d : Dimension) :
    (s.updateAll g).view.children.map (View.sizeSignal d) =
      s.view.children.map (View.sizeSignal d) := by
  unfold updateAll
  rw [View.children_updateAll, List.map_map]
  exact List.map_congr_left (fun c _ => View.sizeSignal_updateAll g d c)

theorem sameBut_of_frame (h : r.updateAll (Components.without phase) =
    s.updateAll (Components.without phase)) : SameBut phase s r := by
  have hnode : r.node.update (Components.without phase) =
      s.node.update (Components.without phase) := by
    rw [← node_updateAll, h, node_updateAll]
  constructor
  case index => exact (congrArg Node.index hnode :)
  case name => exact (congrArg Node.name hnode :)
  case title => exact (congrArg Node.title hnode :)
  case kind => exact (congrArg Node.kind hnode :)
  case resolve => exact (congrArg Node.resolve hnode :)
  case parent => rw [← parent?_updateAll, h, parent?_updateAll]
  case children => rw [← childIndices_updateAll, h, childIndices_updateAll]
  case components => exact (congrArg Node.components hnode :)

/-- The scale in use is drawn where it is held, under the name it is used by. -/
theorem exists_drawn (hr : r ∈ root.sites []) {c : Channel} {scale : Scale}
    (h : r.scale? c = some scale) : ∃ o ∈ root.sites [], o.node ∈ r.lineage ∧
      ⟨r.scaleName c, scale, o.sizeSignal⟩ ∈ o.groupScales := by
  obtain ⟨n, howner, hheld⟩ := Option.bind_eq_some_iff.mp h
  have hn : n ∈ r.lineage := List.mem_of_find?_eq_some howner
  obtain ⟨o, ho, rfl⟩ := View.exists_site_of_lineage hr hn
  refine ⟨o, ho, hn, ?_⟩
  have hself : o ∈ o.groupMembers := View.self_mem_groupSites o.ancestors o.view
  have hentry := Dict.mem_entries_iff.mpr hheld
  rw [scaleName, howner, Option.getD_some]
  exact List.mem_flatMap.mpr ⟨o, hself, List.mem_map.mpr ⟨_, hentry, rfl⟩⟩

theorem namesAlike_of_naming (h : r.updateAll Components.naming = s.updateAll Components.naming)
    (hr : r ∈ root.sites []) : NamesAlike root s r := by
  have hscales : ∀ k : Components, k.naming.scales = k.scales := fun _ => rfl
  have hnode : r.node.update Components.naming = s.node.update Components.naming := by
    rw [← node_updateAll, h, node_updateAll]
  have hname (c : Channel) : r.scaleName c = s.scaleName c := by
    rw [← scaleName_updateAll hscales, h, scaleName_updateAll hscales]
  have hscale (c : Channel) : r.scale? c = s.scale? c := by
    rw [← scale?_updateAll hscales, h, scale?_updateAll hscales]
  constructor
  case node => exact (congrArg Node.name hnode :)
  case scale => exact fun c => ⟨hname c, hscale c⟩
  case drawn =>
    intro c scale hs
    rw [← hname]
    exact exists_drawn hr ((hscale c).trans hs)
  case size =>
    intro d
    have hview : r.view.updateAll Components.naming = s.view.updateAll Components.naming :=
      congrArg Site.view h
    rw [sizeSignal, sizeSignal, ← View.sizeSignal_updateAll Components.naming, hview,
      View.sizeSignal_updateAll]
  case sizesBelow =>
    intro d
    rw [← sizesBelow_updateAll Components.naming, h, sizesBelow_updateAll]
  case data => exact (congrArg (fun n : Node => n.components.data) hnode :)
  case cell =>
    rw [← DataComponent.cell?_updateAll Components.naming, h, DataComponent.cell?_updateAll]

end Site

/-! ### Names in the end -/

/-- What counts for names is written before anything that is drawn. -/
theorem Components.naming_without {phase : Phase} (h : Phase.scale.rank < phase.rank)
    (k : Components) : (k.without phase).naming = k.naming := by
  unfold naming
  rw [without_data (Phase.ne_of_rank_lt (Nat.lt_trans (by decide) h)),
    without_scales (Phase.ne_of_rank_lt h)]

namespace Site

/-- Sites that differ in what a later phase writes have the same names. -/
theorem map_naming_of_frame {phase : Phase} (hlater : Phase.scale.rank < phase.rank)
    {ss rs : List Site} (h : ss.map (updateAll (Components.without phase)) =
      rs.map (updateAll (Components.without phase))) :
    ss.map (updateAll Components.naming) = rs.map (updateAll Components.naming) := by
  have hsame (s : Site) : (s.updateAll (Components.without phase)).updateAll Components.naming =
      s.updateAll Components.naming := by
    unfold updateAll
    rw [View.updateAll_updateAll_of_blind (Components.naming_without hlater), List.map_map]
    congr 1
    refine List.map_congr_left (fun n _ => ?_)
    exact congrArg (fun k : Components => ({ n with components := k } : Node))
      (Components.naming_without hlater n.components)
  have hmap := congrArg (List.map (updateAll Components.naming)) h
  rw [List.map_map, List.map_map] at hmap
  simpa only [Function.comp_def, hsame] using hmap

end Site

namespace Tree

variable {t : Tree} {pipeline : Pipeline} {phase : Phase}

/-- Once the scales are there, the rest of a run does not touch what counts for names. -/
theorem runPhases_naming (pipeline : Pipeline) (phases : List Phase)
    (hpast : Phase.covers t.parsed .scale = true) :
    (t.runPhases pipeline phases).tree.root.updateAll Components.naming =
      t.root.updateAll Components.naming := by
  refine runPhases_past
    (Q := fun v => v.updateAll Components.naming = t.root.updateAll Components.naming)
    ?_ phases hpast rfl
  intro phase hlater config input v hv
  rw [← hv, ← View.updateAll_updateAll_of_blind (Components.naming_without hlater) v,
    ← View.runPhase_frame pipeline config input v phase,
    View.updateAll_updateAll_of_blind (Components.naming_without hlater)]

/-- A phase that runs was due. -/
theorem due_of_ok (h : (t.runPhase pipeline phase).error = none) :
    Phase.due? t.parsed = some phase := by
  by_contra hnot
  rw [runPhase, if_pos hnot] at h
  exact absurd h (by simp)

/-- What is drawn is worked out after the scales. -/
theorem covers_scale_of_due {done : Option Phase} (hd : phase ∈ Phase.drawing)
    (h : Phase.due? done = some phase) : Phase.covers done .scale = true := by
  cases done with
  | none =>
    obtain rfl := Option.some.inj h
    exact absurd hd (by decide)
  | some d =>
    revert phase
    cases d <;> decide

/-- With any pipeline and over any tree, a phase that succeeds writes its own part of the components
and how far each node has come, and nothing else of any node; only the selection phase reports
anything. The phases that work out what is drawn depend on the sites they visit alone, and there
all names of scales, sizes and datasets are those of the finished tree. -/
theorem writesOwn_of_ok (h : (t.runPhase pipeline phase).error = none) :
    t.WritesOwn pipeline phase := by
  obtain ⟨hroot, htree⟩ := runPhase_ok h
  have hdue := due_of_ok h
  have hne (hd : phase ∈ Phase.drawing) : phase ≠ .data := by
    rintro rfl
    exact absurd hd (by decide)
  constructor
  case sites =>
    rw [htree]
    have hframe := View.runPhase_frame pipeline t.config t.data t.root phase
    exact (View.forall₂_sites_of_frame hframe).imp (fun _ _ hsame => Site.sameBut_of_frame hsame)
  case rest => rw [htree]
  case silent =>
    intro hne
    have hnone : phase.reports = fun _ => [] := funext (fun _ => if_neg hne)
    have hdiagnostics : (t.runPhase pipeline phase).diagnostics =
        (t.root.runPhase pipeline t.config t.data phase).diagnostics := by
      rw [runPhase, if_neg (not_not_intro hdue)]
    rw [hdiagnostics, View.runPhase_diagnostics (fun s _ => .inl (congrFun hnone s.node)) hroot,
      hnone]
    exact List.flatMap_eq_nil_iff.mpr (fun _ _ => rfl)
  case only =>
    intro hd other hsame
    rw [View.runPhase_eq_bottomUp (hne hd)]
    exact View.bottomUp_congr hsame
  case names =>
    intro hd later
    -- what was visited and what the run ends with agree in names with the tree the phase began with
    have hpast := covers_scale_of_due hd hdue
    have hlater : Phase.scale.rank < phase.rank := Phase.rank_lt_of_due hpast hdue
    have hvisited : (t.visited phase).map (Site.updateAll Components.naming) =
        (t.root.sites []).map (Site.updateAll Components.naming) :=
      Site.map_naming_of_frame hlater
        (View.visited_frame (View.stepOf_frame t.config phase) [] t.root)
    have hfinal : (t.root.sites []).map (Site.updateAll Components.naming) =
        ((t.runPhases pipeline (phase :: later)).tree.root.sites []).map
          (Site.updateAll Components.naming) := by
      rw [← View.sites_updateAll, ← View.sites_updateAll, runPhases_naming pipeline _ hpast]
    refine (forall₂_mem (View.forall₂_of_updateAll (hvisited.trans hfinal))).imp ?_
    rintro s r ⟨-, hr, hsame⟩
    exact Site.namesAlike_of_naming hsame hr

/-- Rows of points get their axes. All of them mean the scale that the facet holds. -/
theorem writesOwn_rowsOfAxes : ∃ t : Tree, (t.runPhase .standard .axisAndHeader).error = none ∧
    (t.visited .axisAndHeader).map (fun s => (s.scaleName .x, s.sizeSignal .width)) =
      [("x", "child_width"), ("x", "child_width"), ("x", "child_layer_0_width"),
        ("x", "child_layer_1_width"), ("x", "child_layer_1_layer_0_width"),
        ("x", "child_layer_1_layer_1_width"), ("x", "child_layer_2_width"),
        ("x", "child_layer_3_width")] ∧
      t.WritesOwn .standard .axisAndHeader := by
  have hruns : (Tree.build .rowsOfAxes .default).toOption.any (fun b =>
      let t := (b.1.runPhases .standard beforeGuides).tree
      (t.runPhase .standard .axisAndHeader).error.isNone &&
        (t.visited .axisAndHeader).map (fun s => (s.scaleName .x, s.sizeSignal .width)) ==
          [("x", "child_width"), ("x", "child_width"), ("x", "child_layer_0_width"),
            ("x", "child_layer_1_width"), ("x", "child_layer_1_layer_0_width"),
            ("x", "child_layer_1_layer_1_width"), ("x", "child_layer_2_width"),
            ("x", "child_layer_3_width")]) = true := by
    decide +kernel
  obtain ⟨⟨t, ds⟩, -, hruns⟩ := exists_ok_of_any hruns
  obtain ⟨hok, hnames⟩ := Bool.and_eq_true_iff.mp hruns
  have herror := Option.isNone_iff_eq_none.mp hok
  exact ⟨_, herror, beq_iff_eq.mp hnames, writesOwn_of_ok herror⟩

end Tree
end Trellis

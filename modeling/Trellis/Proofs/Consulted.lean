import Trellis.Proofs.Cells
import Trellis.Proofs.Runs

/-! What a pipeline gets to see. The data phase asks it for a description of each node in turn, from
the root down, and hands it the site as it stands at that moment. By then the nodes above have their
descriptions, but none of them is marked yet: a node is marked after everything under it. -/
namespace Trellis

/-- The node with this description. -/
def Node.describedAs (n : Node) (d : DataComponent) : Node :=
  n.update (fun c => { c with data := some d })

namespace View

mutual

/-- The sites that descriptions are asked for, in order, each as it stands when it is asked for. -/
def consulted (data : Site → DataComponent) (ancestors : List Node) : View → List Site
  | mk n cs =>
    let site : Site := ⟨ancestors, mk n cs⟩
    site :: consultedIn data (n.describedAs (data site) :: ancestors) cs

def consultedIn (data : Site → DataComponent) (ancestors : List Node) : List View → List Site
  | [] => []
  | v :: rest => consulted data ancestors v ++ consultedIn data ancestors rest

end

variable {data other : Site → DataComponent} {A : List Node} {v : View}

theorem consultedIn_eq (data : Site → DataComponent) (A : List Node) (cs : List View) :
    consultedIn data A cs = cs.flatMap (consulted data A) := by
  induction cs with
  | nil => rfl
  | cons v rest ih => rw [consultedIn, ih, List.flatMap_cons]

theorem consulted_mk (data : Site → DataComponent) (A : List Node) (n : Node) (cs : List View) :
    (mk n cs).consulted data A = ⟨A, mk n cs⟩ ::
      cs.flatMap (consulted data (n.describedAs (data ⟨A, mk n cs⟩) :: A)) := by
  rw [consulted, consultedIn_eq]

theorem describe_mk (data : Site → DataComponent) (A : List Node) (n : Node) (cs : List View) :
    (mk n cs).describe data A =
      mk ((n.describedAs (data ⟨A, mk n cs⟩)).update (fun c => { c with completed := some .data }))
        (cs.map (describe data (n.describedAs (data ⟨A, mk n cs⟩) :: A))) := by
  rw [describe, describeIn_eq]
  rfl

/-- Each node is asked about once, parents before children. -/
theorem consulted_nodes (data : Site → DataComponent) (A : List Node) (v : View) :
    (v.consulted data A).map Site.node = v.nodes := by
  induction v using induct generalizing A with
  | h n cs ih =>
    rw [consulted_mk, List.map_cons, List.map_flatMap, nodes, nodesIn_eq]
    congr 1
    exact List.flatMap_congr (fun c hc => ih c hc _)

/-- The answers end up at the nodes that were asked about. -/
theorem describe_data (data : Site → DataComponent) (A : List Node) (v : View) :
    (v.describe data A).nodes.map (fun n => n.components.data) =
      (v.consulted data A).map (fun s => some (data s)) := by
  induction v using induct generalizing A with
  | h n cs ih =>
    rw [describe_mk, nodes, nodesIn_eq, List.flatMap_map, List.map_cons, List.map_flatMap,
      consulted_mk, List.map_cons, List.map_flatMap]
    congr 1
    exact List.flatMap_congr (fun c hc => ih c hc _)

/-- Nothing else is asked for: descriptions that agree on these sites lead to the same views. -/
theorem describe_congr (h : ∀ s ∈ v.consulted data A, data s = other s) :
    v.describe data A = v.describe other A := by
  induction v using induct generalizing A with
  | h n cs ih =>
    rw [consulted_mk] at h
    obtain ⟨hself, hin⟩ := List.forall_mem_cons.mp h
    rw [describe_mk, describe_mk, ← hself]
    congr 1
    refine List.map_congr_left (fun c hc => ih c hc ?_)
    exact fun s hs => hin s (List.mem_flatMap.mpr ⟨c, hc, hs⟩)

/-- Above a site that is asked about stand nodes that were asked about before, each with the answer
and otherwise as it was. -/
theorem ancestor_of_consulted {s : Site} (hs : s ∈ v.consulted data A) {a : Node}
    (ha : a ∈ s.ancestors) :
    a ∈ A ∨ ∃ r ∈ v.consulted data A, a = r.node.describedAs (data r) := by
  induction v using induct generalizing A with
  | h n cs ih =>
    rw [consulted_mk] at hs ⊢
    rcases List.mem_cons.mp hs with rfl | hin
    · exact .inl ha
    · obtain ⟨c, hc, hsc⟩ := List.mem_flatMap.mp hin
      rcases ih c hc hsc with habove | ⟨r, hr, har⟩
      · -- above the views under the node stand what is above it and the node with its answer
        rcases List.mem_cons.mp habove with rfl | habove
        · exact .inr ⟨_, List.mem_cons_self, rfl⟩
        · exact .inl habove
      · exact .inr ⟨r, List.mem_cons_of_mem _ (List.mem_flatMap.mpr ⟨c, hc, hr⟩), har⟩

end View

/-- A node that no phase has marked keeps its data to itself. -/
theorem Node.dataOrError_of_unmarked {n : Node} (h : n.components.completed = none) :
    n.components.dataOrError = .error (.notYet .data) := by
  unfold Components.dataOrError Components.ensure
  rw [h]
  rfl

namespace Tree

/-- The sites that the data phase asks the pipeline about. -/
def consulted (t : Tree) (pipeline : Pipeline) : List Site :=
  t.root.consulted (pipeline.parse t.data) []

/-- Whenever the pipeline is asked about a site, it can read what it answered for the nodes above. -/
def Informed (t : Tree) (pipeline : Pipeline) : Prop :=
  ∀ s ∈ t.consulted pipeline, ∀ a ∈ s.ancestors, ∃ r ∈ t.consulted pipeline,
    r.node.index = a.index ∧ a.components.dataOrError = .ok (pipeline.parse t.data r)

/-- How the data phase goes about asking a pipeline. -/
structure Consults (t : Tree) (pipeline : Pipeline) : Prop where
  /-- Each node is asked about once, parents before children. -/
  once : (t.consulted pipeline).map Site.node = t.root.nodes
  stored : (t.runPhase pipeline .data).tree.root.nodes.map (fun n => n.components.data) =
    (t.consulted pipeline).map (fun s => some (pipeline.parse t.data s))
  /-- Nothing else is asked: the phase does the same with any pipeline that answers the same. -/
  only : ∀ other : Pipeline, (∀ s ∈ t.consulted pipeline,
    pipeline.parse t.data s = other.parse t.data s) →
      t.runPhase other .data = t.runPhase pipeline .data
  /-- The nodes above are there with their answers. -/
  answered : ∀ s ∈ t.consulted pipeline, ∀ a ∈ s.ancestors,
    ∃ r ∈ t.consulted pipeline, a = r.node.describedAs (pipeline.parse t.data r)
  /-- None of these answers can be read. -/
  unread : ∀ s ∈ t.consulted pipeline, ∀ a ∈ s.ancestors,
    a.components.dataOrError = .error (.notYet .data)
  informed : t.Informed pipeline ↔ t.root.children = []

variable {spec : Spec} {config : Config} {t : Tree} {ds : List Diagnostic}

/-- What stands above a site that is asked about has its description, out of reach. -/
theorem consulted_ancestor (h : Tree.build spec config = .ok (t, ds)) (pipeline : Pipeline)
    {s : Site} (hs : s ∈ t.consulted pipeline) {a : Node} (ha : a ∈ s.ancestors) :
    (∃ r ∈ t.consulted pipeline, a = r.node.describedAs (pipeline.parse t.data r)) ∧
      a.components.dataOrError = .error (.notYet .data) := by
  obtain ⟨hbuilt, -⟩ := Tree.build_ok (G := fun _ => True) h
  obtain ⟨r, hr, rfl⟩ := (View.ancestor_of_consulted hs ha).resolve_left List.not_mem_nil
  refine ⟨⟨r, hr, rfl⟩, Node.dataOrError_of_unmarked ?_⟩
  have hnode : r.node ∈ t.root.nodes := by
    rw [← View.consulted_nodes (pipeline.parse t.data) []]
    exact List.mem_map_of_mem hr
  have hmark : r.node.components.completed = none := hbuilt.completed hnode
  exact hmark

/-- A pipeline that is asked about a node below the root cannot read what is above. -/
theorem not_informed (h : Tree.build spec config = .ok (t, ds)) (pipeline : Pipeline)
    (hbelow : t.root.children ≠ []) : ¬ t.Informed pipeline := by
  intro hinformed
  obtain ⟨s, hs, a, ha⟩ : ∃ s ∈ t.consulted pipeline, ∃ a, a ∈ s.ancestors := by
    unfold consulted
    cases hroot : t.root with
    | mk n cs =>
      obtain ⟨c, hc⟩ := List.exists_mem_of_ne_nil cs (by rwa [hroot] at hbelow)
      let above := [n.describedAs (pipeline.parse t.data ⟨[], .mk n cs⟩)]
      have hfirst : ⟨above, c⟩ ∈ c.consulted (pipeline.parse t.data) above := by
        cases c
        rw [View.consulted_mk]
        exact List.mem_cons_self
      refine ⟨⟨above, c⟩, ?_, _, List.mem_cons_self⟩
      rw [View.consulted_mk]
      exact List.mem_cons_of_mem _ (List.mem_flatMap.mpr ⟨c, hc, hfirst⟩)
  obtain ⟨r, -, -, hread⟩ := hinformed s hs a ha
  rw [(consulted_ancestor h pipeline hs ha).2] at hread
  exact absurd hread (by simp)

/-- With any pipeline the data phase asks about each node of a built tree once, parents before
children, and stores the answers. When it asks about a node, the answers for all nodes above are
stored there, but reading them fails, as the phase has not come to an end for them. So a pipeline
can rely on what is above only in a tree that is a single node. -/
theorem consults_of_build (h : Tree.build spec config = .ok (t, ds)) (pipeline : Pipeline) :
    t.Consults pipeline := by
  obtain ⟨⟨hparsed, -, -⟩, -⟩ := Tree.build_ok (G := fun _ => True) h
  have hdue : Phase.due? t.parsed = some .data := by
    rw [hparsed]
    rfl
  constructor
  case once => exact View.consulted_nodes _ _ _
  case stored =>
    rw [runPhase, if_neg (not_not_intro hdue)]
    exact View.describe_data (pipeline.parse t.data) [] t.root
  case only =>
    intro other hsame
    have hview := View.describe_congr hsame
    rw [runPhase, runPhase, if_neg (not_not_intro hdue), if_neg (not_not_intro hdue), View.runPhase,
      View.runPhase, hview]
  case answered => exact fun s hs a ha => (consulted_ancestor h pipeline hs ha).1
  case unread => exact fun s hs a ha => (consulted_ancestor h pipeline hs ha).2
  case informed =>
    refine ⟨?_, ?_⟩
    · intro hinformed
      by_contra hbelow
      exact not_informed h pipeline hbelow hinformed
    · -- the only site is that of the root, with nothing above
      intro halone s hs a ha
      unfold consulted at hs
      cases hroot : t.root with
      | mk n cs =>
        obtain rfl : cs = [] := by rwa [hroot] at halone
        rw [hroot, View.consulted_mk] at hs
        obtain rfl := List.mem_singleton.mp hs
        exact absurd ha List.not_mem_nil

theorem consults_rowsOfPoints : ∃ t ds,
    Tree.build (.rows "a" .empty .points) .default = .ok (t, ds) ∧ t.Consults .standard := by
  have hbuilds : (Tree.build (.rows "a" .empty .points) .default).toOption.isSome = true := by
    decide +kernel
  obtain ⟨⟨t, ds⟩, hb⟩ := exists_ok_of_isSome hbuilds
  exact ⟨t, ds, hb, consults_of_build hb .standard⟩

/-- Asked about points in rows, a pipeline cannot read what it answered for the rows. -/
theorem uninformed : ¬ ∀ spec config t ds, Tree.build spec config = .ok (t, ds) →
    ∀ pipeline, t.Informed pipeline := by
  intro hall
  have hbuilds : (Tree.build (.rows "a" .empty .points) .default).toOption.any
      (fun r => !r.1.root.children.isEmpty) = true := by
    decide +kernel
  obtain ⟨⟨t, ds⟩, hb, hbelow⟩ := exists_ok_of_any hbuilds
  refine not_informed hb .standard ?_ (hall _ _ t ds hb .standard)
  rintro hnone
  rw [hnone] at hbelow
  exact absurd hbelow Bool.false_ne_true

end Tree
end Trellis

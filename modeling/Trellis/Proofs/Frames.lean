import Trellis.Compile
import Trellis.Proofs.Sites

/-! Each phase writes its own part of the components, besides the mark of how far a node has come:
when that part is left out, a tree is the same before and after the phase, also where the phase
fails. -/
namespace Trellis

namespace Components

/-- The components without the part of one phase and without the mark of how far the node has
come. -/
def without (phase : Phase) (c : Components) : Components :=
  match phase with
  | .data => { c with data := none, completed := none }
  | .scale => { c with scales := .empty, completed := none }
  | .layoutSize => { c with layoutSize := .empty, completed := none }
  | .selection => { c with selection := .empty, completed := none }
  | .markGroup => { c with mark := [], completed := none }
  | .axisAndHeader => { c with axes := .empty, headers := .empty, completed := none }
  | .legend => { c with legends := .empty, completed := none }

theorem without_completed (phase done : Phase) (c : Components) :
    ({ c with completed := some done } : Components).without phase = c.without phase := by
  cases phase <;> rfl

end Components

namespace View

/-- A change of what is left out anyway does not show. -/
theorem update_updateAll_of_blind {g h : Components → Components} (hb : ∀ c, g (h c) = g c)
    (v : View) : (v.update h).updateAll g = v.updateAll g := by
  cases v with
  | mk n cs =>
    rw [update_updateAll, updateAll_mk]
    congr 1
    exact congrArg (fun c : Components => ({ n with components := c } : Node)) (hb n.components)

theorem updateAll_updateAll_of_blind {g h : Components → Components} (hb : ∀ c, g (h c) = g c)
    (v : View) : (v.updateAll h).updateAll g = v.updateAll g := by
  rw [updateAll_updateAll]
  congr 1
  exact funext hb

theorem updateAll_congr_mk {g : Components → Components} {n m : Node} {cs ds : List View}
    (hn : n.update g = m.update g) (hc : cs.map (updateAll g) = ds.map (updateAll g)) :
    (mk n cs).updateAll g = (mk m ds).updateAll g := by
  rw [updateAll_mk, updateAll_mk, hn, hc]

/-! ### The steps -/

theorem localizeScales_frame {n : Node} {cells cells' : List View}
    (h : localizeScales n cells = .ok cells') :
    cells'.map (updateAll (Components.without .scale)) =
      cells.map (updateAll (Components.without .scale)) := by
  unfold localizeScales at h
  -- every way through that does not fail leaves the cells alone or changes nothing but their scales
  split at h
  · cases h
    rfl
  · cases hd : n.components.dataOrError with
    | error e => rw [hd] at h; cases h
    | ok d =>
      rw [hd] at h
      dsimp only [bind, Except.bind] at h
      cases hr : d.facetRoot with
      | none => rw [hr] at h; cases h; rfl
      | some root =>
        rw [hr] at h
        dsimp only at h
        cases hc : cellRenames root (openUnitsIn cells) with
        | error e => rw [hc] at h; cases h
        | ok renames =>
          rw [hc] at h
          cases h
          rw [List.map_map]
          apply List.map_congr_left
          intro v _
          exact updateAll_updateAll_of_blind (by intro _; rfl) v

theorem mergeScales_frame (v : View) :
    (v.mergeScales.view).updateAll (Components.without .scale) =
      v.updateAll (Components.without .scale) := by
  cases v with
  | mk n cs =>
    -- scales are taken out and redirected in the cells, also where the redirection then fails
    have hcells :
        (cs.map (dropSharedScales n.resolve)).map (updateAll (Components.without .scale)) =
          cs.map (updateAll (Components.without .scale)) := by
      rw [List.map_map]
      apply List.map_congr_left
      intro c _
      exact update_updateAll_of_blind (by intro _; rfl) c
    rw [mergeScales]
    cases hl : localizeScales n (cs.map (dropSharedScales n.resolve)) with
    | error e => exact updateAll_congr_mk rfl hcells
    | ok cells => exact updateAll_congr_mk rfl ((localizeScales_frame hl).trans hcells)

theorem scaleStep_frame (config : Config) (A : List Node) (v : View) :
    ((scaleStep config A v).view).updateAll (Components.without .scale) =
      v.updateAll (Components.without .scale) := by
  unfold scaleStep
  split
  · cases v.node.components.dataOrError with
    | error e => rfl
    | ok d => exact update_updateAll_of_blind (by intro _; rfl) v
  · exact mergeScales_frame v

theorem sizeStep_frame (config : Config) (A : List Node) (v : View) :
    ((sizeStep config A v).view).updateAll (Components.without .layoutSize) =
      v.updateAll (Components.without .layoutSize) :=
  update_updateAll_of_blind (by intro _; rfl) v

theorem selectionStep_frame (A : List Node) (v : View) :
    ((selectionStep A v).view).updateAll (Components.without .selection) =
      v.updateAll (Components.without .selection) :=
  update_updateAll_of_blind (by intro _; rfl) v

theorem markStep_frame (config : Config) (A : List Node) (v : View) :
    ((markStep config A v).view).updateAll (Components.without .markGroup) =
      v.updateAll (Components.without .markGroup) := by
  unfold markStep
  split
  · cases v.node.components.dataOrError with
    | error e => rfl
    | ok d => exact update_updateAll_of_blind (by intro _; rfl) v
  · rfl
  · rename_i f _
    cases cellMark config v f with
    | error e => rfl
    | ok m => exact update_updateAll_of_blind (by intro _; rfl) v

theorem mergeAxes_frame (r : Resolve) (count : SideCount) (taken : Dict Channel (List Axis))
    (vs : List View) :
    (mergeAxes r count taken vs).2.map (updateAll (Components.without .axisAndHeader)) =
      vs.map (updateAll (Components.without .axisAndHeader)) := by
  -- what is taken so far changes from view to view, but the views only lose axes
  induction vs generalizing count taken with
  | nil => rfl
  | cons v rest ih =>
    rw [mergeAxes, List.map_cons, List.map_cons, ih]
    congr 1
    exact update_updateAll_of_blind (by intro _; rfl) v

/-- A pair of a facet's node and its child that keeps everything but axes and headers. -/
def KeepsGuideFrame (p q : Node × View) : Prop :=
  p.1.update (Components.without .axisAndHeader) = q.1.update (Components.without .axisAndHeader) ∧
    p.2.updateAll (Components.without .axisAndHeader) =
      q.2.updateAll (Components.without .axisAndHeader)

theorem KeepsGuideFrame.trans {p q r : Node × View} (hp : KeepsGuideFrame p q)
    (hq : KeepsGuideFrame q r) : KeepsGuideFrame p r := by
  obtain ⟨hnode, hview⟩ := hp
  obtain ⟨hnode', hview'⟩ := hq
  exact ⟨hnode.trans hnode', hview.trans hview'⟩

/-- A header on a side asks of the child only that it give up the title of its own header there. -/
theorem facetHeader_child (config : Config) (child : View) (h : HeaderChannel) (f : FieldDef) :
    (facetHeader config child h f).2 = child ∨
      ∃ inner, child.node.components.headers.get? h = some inner ∧
        (facetHeader config child h f).2 = child.update (fun k =>
          { k with headers := k.headers.insert h { inner with title := none } }) := by
  rw [facetHeader]
  dsimp only
  cases hinner : child.node.components.headers.get? h with
  | none => exact .inl rfl
  | some inner => exact .inr ⟨inner, rfl, rfl⟩

theorem facetHeader_frame (config : Config) (child : View) (h : HeaderChannel) (f : FieldDef) :
    ((facetHeader config child h f).2).updateAll (Components.without .axisAndHeader) =
      child.updateAll (Components.without .axisAndHeader) := by
  obtain hchild | ⟨inner, -, hchild⟩ := facetHeader_child config child h f
  · rw [hchild]
  · rw [hchild]
    exact update_updateAll_of_blind (by intro _; rfl) child

theorem addHeader_frame (config : Config) (n : Node) (f : FacetView) (h : HeaderChannel)
    (child : View) : KeepsGuideFrame (addHeader config n f h child) (n, child) := by
  unfold addHeader
  split
  · exact ⟨rfl, rfl⟩
  · exact ⟨rfl, facetHeader_frame config child h _⟩

theorem liftAxes_frame (c : Channel) (n : Node) (child : View) :
    KeepsGuideFrame (liftAxes c n child) (n, child) := by
  unfold liftAxes
  split
  · exact ⟨rfl, rfl⟩
  · split
    · exact ⟨rfl, update_updateAll_of_blind (by intro _; rfl) child⟩
    · exact ⟨rfl, rfl⟩

theorem facetGuides_frame (config : Config) (n : Node) (f : FacetView) (child : View) :
    KeepsGuideFrame (facetGuides config n f child) (n, child) := by
  -- headers on both sides, then axes of both kinds, each from what the one before leaves
  let p := addHeader config n f .column child
  let q := addHeader config p.1 f .row p.2
  let x := liftAxes .x q.1 q.2
  have hp : KeepsGuideFrame p (n, child) := addHeader_frame config n f .column child
  have hq : KeepsGuideFrame q p := addHeader_frame config p.1 f .row p.2
  have hx : KeepsGuideFrame x q := liftAxes_frame .x q.1 q.2
  have hy : KeepsGuideFrame (liftAxes .y x.1 x.2) x := liftAxes_frame .y x.1 x.2
  exact hy.trans (hx.trans (hq.trans hp))

theorem guideStep_frame (config : Config) (A : List Node) (v : View) :
    ((guideStep config A v).view).updateAll (Components.without .axisAndHeader) =
      v.updateAll (Components.without .axisAndHeader) := by
  unfold guideStep
  split
  · exact update_updateAll_of_blind (by intro _; rfl) _
  · exact updateAll_congr_mk rfl (mergeAxes_frame _ _ _ _)
  · rfl
  · rename_i n child rest f _
    obtain ⟨hn, hc⟩ := facetGuides_frame config n f child
    have hcs : ((facetGuides config n f child).2 :: rest).map
        (updateAll (Components.without .axisAndHeader)) =
        (child :: rest).map (updateAll (Components.without .axisAndHeader)) := by
      rw [List.map_cons, List.map_cons, hc]
    exact updateAll_congr_mk hn hcs

theorem mergeLegends_frame (r : Resolve) (taken : Dict Channel Legend) (vs : List View) :
    (mergeLegends r taken vs).2.map (updateAll (Components.without .legend)) =
      vs.map (updateAll (Components.without .legend)) := by
  -- as with axes: the views only lose legends, whatever was taken before
  induction vs generalizing taken with
  | nil => rfl
  | cons v rest ih =>
    rw [mergeLegends, List.map_cons, List.map_cons, ih]
    congr 1
    exact update_updateAll_of_blind (by intro _; rfl) v

theorem legendStep_frame (A : List Node) (v : View) :
    ((legendStep A v).view).updateAll (Components.without .legend) =
      v.updateAll (Components.without .legend) := by
  unfold legendStep
  split
  · exact update_updateAll_of_blind (by intro _; rfl) v
  · cases v with
    | mk n cs => exact updateAll_congr_mk rfl (mergeLegends_frame _ _ _)

/-! ### The passes -/

theorem complete_frame (phase done : Phase) (o : Outcome) :
    (o.complete done).view.updateAll (Components.without phase) =
      o.view.updateAll (Components.without phase) := by
  unfold Outcome.complete
  split
  · rfl
  · exact update_updateAll_of_blind (Components.without_completed phase done) o.view

/-- Views side by side may be left undone from the first error on, which shows no change either. -/
theorem bottomUpIn_frame {phase : Phase} {step : Step} {A : List Node} {cs : List View}
    (h : ∀ c ∈ cs, (c.bottomUp phase step A).view.updateAll (Components.without phase) =
      c.updateAll (Components.without phase)) :
    (bottomUpIn phase step A cs).views.map (updateAll (Components.without phase)) =
      cs.map (updateAll (Components.without phase)) := by
  induction cs with
  | nil => rfl
  | cons c rest ih =>
    have hc := h c List.mem_cons_self
    have hrest := ih (fun d hd => h d (List.mem_cons_of_mem _ hd))
    rw [bottomUpIn]
    dsimp only
    split
    · rw [List.map_cons, List.map_cons, hc]
    · rw [List.map_cons, List.map_cons, hc, hrest]

/-- A phase that runs from the leaves up leaves what each of its steps leaves. -/
theorem bottomUp_frame {phase : Phase} {step : Step}
    (hstep : ∀ A v, (step A v).view.updateAll (Components.without phase) =
      v.updateAll (Components.without phase)) (A : List Node) (v : View) :
    (v.bottomUp phase step A).view.updateAll (Components.without phase) =
      v.updateAll (Components.without phase) := by
  induction v using induct generalizing A with
  | h n cs ih =>
    have hbelow := updateAll_congr_mk (n := n) (m := n) rfl
      (bottomUpIn_frame (fun c hc => ih c hc (n :: A)))
    rw [bottomUp]
    dsimp only
    split
    · exact hbelow
    · rw [complete_frame]
      calc (step A (mk n (bottomUpIn phase step (n :: A) cs).views)).view.updateAll
            (Components.without phase)
          = (mk n (bottomUpIn phase step (n :: A) cs).views).updateAll (Components.without phase) :=
            hstep A _
        _ = (mk n cs).updateAll (Components.without phase) := hbelow

theorem describeIn_eq (data : Site → DataComponent) (A : List Node) (cs : List View) :
    describeIn data A cs = cs.map (describe data A) := by
  induction cs with
  | nil => rfl
  | cons c rest ih => rw [describeIn, ih, List.map_cons]

theorem describe_frame (data : Site → DataComponent) (A : List Node) (v : View) :
    (v.describe data A).updateAll (Components.without .data) =
      v.updateAll (Components.without .data) := by
  induction v using induct generalizing A with
  | h n cs ih =>
    rw [describe, describeIn_eq]
    apply updateAll_congr_mk rfl
    rw [List.map_map]
    exact List.map_congr_left (fun c hc => ih c hc _)

/-- One phase over a view leaves everything but its own part. -/
theorem runPhase_frame (pipeline : Pipeline) (config : Config) (input : Option DataDef) (v : View)
    (phase : Phase) :
    (v.runPhase pipeline config input phase).view.updateAll (Components.without phase) =
      v.updateAll (Components.without phase) := by
  cases phase with
  | data => exact describe_frame _ _ v
  | scale => exact bottomUp_frame (scaleStep_frame config) [] v
  | layoutSize => exact bottomUp_frame (sizeStep_frame config) [] v
  | selection => exact bottomUp_frame selectionStep_frame [] v
  | markGroup => exact bottomUp_frame (markStep_frame config) [] v
  | axisAndHeader => exact bottomUp_frame (guideStep_frame config) [] v
  | legend => exact bottomUp_frame legendStep_frame [] v

end View
end Trellis

import Trellis.Proofs.Known

/-! Assembling a tree that has come through all phases never fails: the visualization as a function
of the tree. -/
namespace Trellis

/-! ### What is drawn -/

/-- The cells that a facet has worked out, reading what it splits. -/
def Node.cell? (n : Node) : Option CellMark :=
  match n.components.mark with
  | .cell m :: _ => some { m with root := n.data.facetRoot.getD m.root }
  | _ => none

namespace View

/-- The datasets in each cell of a facet with these units in its cells. -/
def cellDatasets (units : List Node) : List Dataset := units.flatMap (fun n => n.data.cellSources)

mutual

/-- The marks of a view. -/
def drawn (A : List Node) : View → List GroupMark
  | mk n cs =>
    match n.kind, cs with
    | .unit _, _ => n.components.mark.filterMap MarkComponent.unit?
    | .layer _, cs => drawnIn (n :: A) cs
    | .facet _, [] => []
    | .facet _, child :: rest => n.cell?.toList.map (fun m =>
        .cell m (cellDatasets (openUnitsIn (child :: rest)))
          (Site.groupOf ⟨n :: A, child⟩ (drawn (n :: A) child)))

def drawnIn (A : List Node) : List View → List GroupMark
  | [] => []
  | v :: rest => drawn A v ++ drawnIn A rest

end

theorem drawnIn_eq (A : List Node) (cs : List View) : drawnIn A cs = cs.flatMap (drawn A) := by
  induction cs with
  | nil => rfl
  | cons v rest ih => rw [drawnIn, ih, List.flatMap_cons]

variable {A : List Node} {n : Node} {cs : List View}

theorem drawn_unit {u : UnitView} (hk : n.kind = .unit u) :
    (mk n cs).drawn A = n.components.mark.filterMap MarkComponent.unit? := by
  rw [drawn.eq_1 A n cs u hk]

theorem drawn_layer {size : Size} (hk : n.kind = .layer size) :
    (mk n cs).drawn A = cs.flatMap (drawn (n :: A)) := by
  rw [drawn.eq_2 A n cs size hk, drawnIn_eq]

theorem drawn_facet {f : FacetView} {child : View} (hk : n.kind = .facet f) :
    (mk n [child]).drawn A = n.cell?.toList.map (fun m => .cell m (cellDatasets child.openUnits)
      (Site.groupOf ⟨n :: A, child⟩ (child.drawn (n :: A)))) := by
  rw [drawn.eq_4 A n child [] f hk, openUnitsIn_eq, List.flatMap_singleton]

end View

/-- The visualization of a tree. -/
def Tree.drawn (t : Tree) : Visualization where
  title := t.root.node.title
  data := t.root.nodes.flatMap (fun n => n.data.sources) ++ t.rootSite.selectionStores
  signals := t.rootSite.sizeSignals t.config ++ t.rootSite.topSignals
  group := t.rootSite.groupOf (t.root.drawn [])

/-! ### Assembling -/

/-- Where every element adds a list, the lists are put together. -/
theorem foldlM_append_of_ok {α β ε : Type} {f : List β → α → Except ε (List β)} {g : α → List β}
    {xs : List α} (h : ∀ x ∈ xs, ∀ done, f done x = .ok (done ++ g x)) (start : List β) :
    xs.foldlM f start = .ok (start ++ xs.flatMap g) := by
  induction xs generalizing start with
  | nil =>
    rw [List.flatMap_nil, List.append_nil]
    rfl
  | cons x rest ih =>
    have hrest := ih (fun y hy => h y (List.mem_cons_of_mem _ hy)) (start ++ g x)
    rw [List.foldlM_cons, h x List.mem_cons_self, List.flatMap_cons, ← List.append_assoc, ← hrest]
    rfl

variable {G : Dict String Json → Prop} {whole : Spec} {input : Option DataDef} {bare : View}

/-- What assembling needs of a site. -/
def ReadyToDraw (whole : Spec) (input : Option DataDef) : Fact := fun s k =>
  s.Built whole ∧ Described input s k ∧ Marked input s k ∧ Fact.done .legend s k

theorem readyToDraw_of_complete {A : List Node} {v : View}
    (h : View.Fits (View.Complete G whole input bare) A v) :
    View.Fits (ReadyToDraw whole input) A v := by
  intro s hs
  have hknown := h s hs
  exact ⟨hknown.scaled.built, hknown.scaled.described, hknown.marked, hknown.done⟩

namespace View

theorem dataOrError_eq {A : List Node} {v : View} (h : Fits (ReadyToDraw whole input) A v)
    {n : Node} (hn : n ∈ v.nodes) : n.components.dataOrError = .ok n.data := by
  obtain ⟨s, hs, rfl⟩ := (mem_nodes_iff (A := A)).mp hn
  obtain ⟨-, hd, -, hdone⟩ := h s hs
  rw [Node.data, hd, Option.getD_some]
  exact dataOrError_of_done hd hdone

theorem cellData_eq {A : List Node} {v : View} (h : Fits (ReadyToDraw whole input) A v) :
    Site.cellData .standard v.openUnits = .ok (cellDatasets v.openUnits) := by
  refine foldlM_append_of_ok (g := fun n : Node => n.data.cellSources) ?_ []
  intro n hn done
  rw [dataOrError_eq h (mem_nodes_of_mem_openUnits hn)]
  rfl

theorem marksIn_eq {A : List Node} {cs : List View}
    (h : ∀ c ∈ cs, c.marks .standard A = .ok (c.drawn A)) :
    marksIn .standard A cs = .ok (drawnIn A cs) := by
  induction cs with
  | nil => rfl
  | cons c rest ih =>
    rw [marksIn, drawnIn, h c List.mem_cons_self, ih (fun d hd => h d (List.mem_cons_of_mem _ hd))]
    rfl

/-- The marks of a view that has come through all phases. -/
theorem marks_eq {A : List Node} {v : View} (h : Fits (ReadyToDraw whole input) A v) :
    v.marks .standard A = .ok (v.drawn A) := by
  induction v using induct generalizing A with
  | h n cs ih =>
    obtain ⟨⟨hb, hd, hm, hdone⟩, hin⟩ := fits_mk_iff.mp h
    have hensure : n.components.ensure .markGroup = .ok () := by
      unfold Components.ensure
      rw [show n.components.completed = some .legend from hdone]
      rfl
    have hdata : n.components.dataOrError = .ok n.data := by
      apply dataOrError_eq h
      rw [nodes]
      exact List.mem_cons_self
    -- the phase of marks is done, and each kind finds the marks that it has to have
    cases hk : n.kind with
    | unit u =>
      rw [drawn_unit hk, marks.eq_1 _ A n cs u hk, hensure]
      rfl
    | layer size =>
      have hall := marksIn_eq (fun c hc => ih c hc (hin c hc))
      rw [drawn_layer hk, ← drawnIn_eq, marks.eq_2 _ A n cs size hk, hensure]
      exact hall
    | facet f =>
      obtain ⟨child, hchild⟩ := hb.facet_single (Node.isFacet_of_facet hk)
      obtain rfl : cs = [child] := hchild
      have hfits := hin child List.mem_cons_self
      unfold Marked at hm
      rw [show (Site.node ⟨A, mk n [child]⟩).kind = .facet f from hk] at hm
      obtain ⟨m, hmark, -⟩ := hm
      have hcell : Site.cellMark n = .ok { m with root := n.data.facetRoot.getD m.root } := by
        unfold Site.cellMark
        rw [hdata]
        dsimp only [bind, Except.bind]
        rw [show n.components.mark = [.cell m] from hmark]
        rfl
      have hcell? : n.cell? = some { m with root := n.data.facetRoot.getD m.root } := by
        unfold Node.cell?
        rw [show n.components.mark = [.cell m] from hmark]
      rw [drawn_facet hk, hcell?, marks.eq_4 _ A n child [] f hk, hensure, hcell, openUnitsIn_eq,
        List.flatMap_singleton, cellData_eq hfits, ih child List.mem_cons_self hfits]
      rfl

end View

/-- A tree that has come through all phases is assembled as drawn. -/
theorem Tree.assemble_eq {t : Tree} (h : t.Reached G whole bare (some .legend)) :
    t.assemble .standard = .ok t.drawn := by
  have hready := readyToDraw_of_complete (View.complete_of_known h.known)
  have hmarks : t.rootSite.marks .standard = .ok (t.root.drawn []) := View.marks_eq hready
  have hdata : t.rootSite.rootData .standard =
      .ok (t.root.nodes.flatMap (fun n => n.data.sources)) := by
    refine foldlM_append_of_ok (g := fun n : Node => n.data.sources) ?_ []
    intro n hn done
    rw [View.dataOrError_eq hready hn]
    rfl
  have hparsed : ¬ t.parsed ≠ some .last := not_not_intro h.parsed
  unfold Tree.assemble Site.group
  rw [if_neg hparsed]
  dsimp only [pure_bind]
  rw [hdata, hmarks]
  rfl

/-! ### Signals -/

/-- The expressions of a signal: the one that defines it and those of its handlers. -/
def Signal.expressions (s : Signal) : List Expression :=
  s.update.toList ++ s.handlers.map Handler.update

/-- The datasets that an expression reads or changes. -/
def Expression.datasets : Expression → List String
  | modify store _ => [store]
  | modifyOrToggle store _ _ => [store]
  | data name => [name]
  | _ => []

/-- The expression inverts no scale, and names no dataset but a store. -/
def Expression.Plain (store : String) (e : Expression) : Prop :=
  (∀ scale pixels, e ≠ .invert scale pixels) ∧ e.datasets ⊆ [store]

namespace Selection

variable {x : Selection} {t : Site} {signal : Signal} {e : Expression}

end Selection

/-- Whether an expression is one of those that give a size. -/
def Expression.isSize : Expression → Bool
  | bandspace .. | size _ | largest _ => true
  | _ => false

theorem Site.unitSize_isSize (s : Site) (config : Config) (d : Dimension) :
    (s.unitSize config d).isSize = true := by
  unfold Site.unitSize
  dsimp only
  cases s.scale? d.channel with
  | none => rfl
  | some scale =>
    dsimp only
    cases scale.step? with
    | none => rfl
    | some step => rfl

namespace View

theorem sizeSignalsIn_eq (config : Config) (A : List Node) (cs : List View) :
    sizeSignalsIn config A cs = cs.flatMap (sizeSignals config A) := by
  induction cs with
  | nil => rfl
  | cons c rest ih => rw [sizeSignalsIn, ih, List.flatMap_cons]

/-- Size signals are defined by a size. -/
theorem sizeSignals_computed {config : Config} {A : List Node} {v : View} :
    ∀ s ∈ v.sizeSignals config A, ∃ name e, s = .computed name e ∧ e.isSize = true := by
  induction v using induct generalizing A with
  | h n cs ih =>
    have hin : ∀ s ∈ sizeSignalsIn config (n :: A) cs,
        ∃ name e, s = .computed name e ∧ e.isSize = true := by
      intro s hs
      rw [sizeSignalsIn_eq] at hs
      obtain ⟨c, hc, hs⟩ := List.mem_flatMap.mp hs
      exact ih c hc s hs
    have hown {size : Dimension → Expression} (hsize : ∀ d, (size d).isSize = true) :
        ∀ s ∈ Dimension.all.map (fun d => Signal.computed (n.qualify d.name) (size d)),
          ∃ name e, s = .computed name e ∧ e.isSize = true := by
      intro s hs
      obtain ⟨d, -, rfl⟩ := List.mem_map.mp hs
      exact ⟨_, _, rfl, hsize d⟩
    rw [sizeSignals]
    cases n.kind with
    | unit u => exact hown (fun d => Site.unitSize_isSize _ _ d)
    | layer size =>
      intro s hs
      rcases List.mem_append.mp hs with hs | hs
      · exact hin s hs
      · exact hown (fun d => rfl) s hs
    | facet f => exact hin

end View

end Trellis

import Trellis.Proofs.Consulted
import Trellis.Proofs.OwnParts
import Trellis.Proofs.Steps

/-! Titles of nodes do not count. Every phase does the same over a tree without titles as over the
tree with them, and assembling reads one title only, that of the root. -/
namespace Trellis

/-- The node without its title. -/
def Node.untitle (n : Node) : Node := { n with title := none }

theorem Node.kind_untitle (n : Node) : n.untitle.kind = n.kind := rfl

theorem Node.resolve_untitle (n : Node) : n.untitle.resolve = n.resolve := rfl

theorem Node.components_untitle (n : Node) : n.untitle.components = n.components := rfl

theorem Node.update_untitle (n : Node) (f : Components → Components) :
    (n.update f).untitle = n.untitle.update f := rfl

/-- The view without titles. -/
def View.untitle (v : View) : View := v.mapNodes Node.untitle

/-- The site without titles, also of the nodes above it. -/
def Site.untitle (s : Site) : Site := ⟨s.ancestors.map Node.untitle, s.view.untitle⟩

/-- The same outcome without titles. -/
def Outcome.untitle (o : Outcome) : Outcome := { o with view := o.view.untitle }

/-- A pipeline that describes every site as it would without titles. -/
def Pipeline.Untitled (pipeline : Pipeline) : Prop :=
  ∀ input s, pipeline.parse input (Site.untitle s) = pipeline.parse input s

/-- A step that does the same without titles. -/
def View.Untitled (step : Step) : Prop :=
  ∀ A v, step (A.map Node.untitle) v.untitle = (step A v).untitle

namespace Outcome

theorem ofExcept_untitle {ε α : Type} (v : View) (cause : ε → CompileError) (result : Except ε α)
    (f : α → View) :
    ofExcept v.untitle cause result (fun a => (f a).untitle) =
      (ofExcept v cause result f).untitle := by
  cases result <;> rfl

end Outcome

namespace View

theorem untitle_mk (n : Node) (cs : List View) :
    (mk n cs).untitle = mk n.untitle (cs.map untitle) :=
  mapNodes_mk _ n cs

theorem node_untitle (v : View) : v.untitle.node = v.node.untitle := node_mapNodes _ v

theorem children_untitle (v : View) : v.untitle.children = v.children.map untitle :=
  children_mapNodes _ v

theorem sizeSignal_untitle (v : View) (d : Dimension) : v.untitle.sizeSignal d = v.sizeSignal d :=
  sizeSignal_amend (fun _ => none) id d v

theorem update_untitle (f : Components → Components) (v : View) :
    (v.update f).untitle = v.untitle.update f := by
  cases v with
  | mk n cs =>
    rw [untitle_mk]
    exact untitle_mk (n.update f) cs

theorem mapNodes_update_untitle (f : Components → Components) (v : View) :
    (v.mapNodes (Node.update · f)).untitle = v.untitle.mapNodes (Node.update · f) := by
  unfold untitle
  rw [mapNodes_mapNodes, mapNodes_mapNodes]
  rfl

end View

namespace Site

theorem mk_untitle (A : List Node) (v : View) :
    (⟨A.map Node.untitle, v.untitle⟩ : Site) = untitle ⟨A, v⟩ := rfl

theorem node_untitle (s : Site) : s.untitle.node = s.node.untitle := View.node_untitle s.view

theorem sizeSignal_untitle (s : Site) (d : Dimension) : s.untitle.sizeSignal d = s.sizeSignal d :=
  View.sizeSignal_untitle s.view d

theorem scale?_untitle (s : Site) (c : Channel) : s.untitle.scale? c = s.scale? c :=
  scale?_amend (fun _ => none) (fun _ => rfl) s c

theorem scaleName_untitle (s : Site) (c : Channel) : s.untitle.scaleName c = s.scaleName c :=
  scaleName_amend (fun _ => none) (fun _ => rfl) s c

end Site

/-- The standard pipeline does not look at titles. -/
theorem Pipeline.standard_untitled : Pipeline.standard.Untitled :=
  fun input s => parse_amend (fun _ => none) id input s

/-! ### Scales and sizes -/

theorem Scale.ofUnit_untitle (s : Site) (config : Config) (u : UnitView) (input : String) :
    ofUnit s.untitle config u input = ofUnit s config u input := by
  have hscale : ofUnit? s.untitle config u input = ofUnit? s config u input :=
    funext (ofUnit?_amend (fun _ => none) id s config u input)
  unfold ofUnit
  rw [hscale]

namespace View

theorem sizes_untitle (s : Site) (config : Config) : sizes s.untitle config = sizes s config :=
  sizes_amend (fun _ => none) (fun _ => rfl) s config

theorem mergedScales_untitle (r : Resolve) (cs : List View) :
    mergedScales r (cs.map untitle) = mergedScales r cs := by
  have hshared (v : View) : v.untitle.sharedScales r = v.sharedScales r := by
    unfold sharedScales
    rw [node_untitle]
    rfl
  unfold mergedScales
  rw [List.foldl_map]
  simp only [hshared]

theorem cellRenames_untitle (root : FacetRoot) (units : List Node) :
    cellRenames root (units.map Node.untitle) = cellRenames root units := by
  unfold cellRenames
  rw [List.foldlM_map]
  rfl

theorem openUnitsIn_untitle (cs : List View) :
    openUnitsIn (cs.map untitle) = (openUnitsIn cs).map Node.untitle := by
  rw [openUnitsIn_eq, openUnitsIn_eq, List.flatMap_map, List.map_flatMap]
  exact List.flatMap_congr (fun c _ => openUnits_amend (fun _ => none) id c)

theorem localizeScales_untitle (n : Node) (cells : List View) :
    localizeScales n.untitle (cells.map untitle) =
      (localizeScales n cells).map (List.map untitle) := by
  have hfacet : n.untitle.isFacet = n.isFacet := rfl
  unfold localizeScales
  rw [openUnitsIn_untitle, hfacet, Node.components_untitle]
  split
  · rfl
  · cases n.components.dataOrError with
    | error e => rfl
    | ok d =>
      dsimp only [bind, Except.bind]
      cases d.facetRoot with
      | none => rfl
      | some root =>
        dsimp only
        rw [cellRenames_untitle]
        cases cellRenames root (openUnitsIn cells) with
        | error e => rfl
        | ok renames =>
          refine congrArg Except.ok ?_
          rw [List.map_map, List.map_map]
          exact List.map_congr_left (fun v _ => (mapNodes_update_untitle _ v).symm)

theorem mergeScales_untitle (v : View) : v.untitle.mergeScales = v.mergeScales.untitle := by
  cases v with
  | mk n cs =>
    have hcells : (cs.map untitle).map (dropSharedScales n.resolve) =
        (cs.map (dropSharedScales n.resolve)).map untitle := by
      rw [List.map_map, List.map_map]
      exact List.map_congr_left (fun c _ => (update_untitle _ c).symm)
    rw [untitle_mk, mergeScales, mergeScales, Node.resolve_untitle, mergedScales_untitle, hcells,
      localizeScales_untitle]
    cases localizeScales n (cs.map (dropSharedScales n.resolve)) with
    | error e => exact congrArg (fun w => Outcome.failed w (.phase e)) (untitle_mk n _).symm
    | ok cells =>
      let merged := n.update (fun c => { c with scales := mergedScales n.resolve cs })
      exact congrArg Outcome.ok (untitle_mk merged cells).symm

theorem scaleStep_untitled (config : Config) : Untitled (scaleStep config) := by
  intro A v
  unfold scaleStep
  rw [node_untitle, Node.kind_untitle, Node.components_untitle, Site.mk_untitle]
  cases v.node.kind with
  | unit u =>
    dsimp only
    rw [← Outcome.ofExcept_untitle]
    simp only [Scale.ofUnit_untitle, update_untitle]
  | layer size => exact mergeScales_untitle v
  | facet f => exact mergeScales_untitle v

theorem sizeStep_untitled (config : Config) : Untitled (sizeStep config) := by
  intro A v
  unfold sizeStep
  rw [Site.mk_untitle, sizes_untitle]
  exact congrArg Outcome.ok (update_untitle _ v).symm

/-! ### Selections -/

theorem unionSelections_untitle (cs : List View) :
    unionSelections (cs.map untitle) = unionSelections cs := by
  unfold unionSelections
  rw [List.foldl_map]
  simp only [node_untitle]
  rfl

theorem selectionStep_untitled : Untitled selectionStep := by
  intro A v
  unfold selectionStep
  rw [node_untitle, children_untitle, unionSelections_untitle]
  dsimp only
  rw [← update_untitle]
  rfl

end View

/-! ### Marks -/

/-- A unit's mark looks at its surroundings for nothing but the scales in use. -/
theorem Encode.entry_congr {s r : Site} (hname : s.scaleName = r.scaleName)
    (hscale : s.scale? = r.scale?) (config : Config) (u : UnitView) :
    entry s config u = entry r config u := by
  have hvalue : valueOf s = valueOf r := by
    unfold valueOf
    rw [hname]
  have hnear : near s = near r := by
    unfold near extent
    rw [hname, hscale]
  have hposition : position s = position r := by
    unfold position
    rw [hnear, hvalue]
  unfold entry color appearance
  rw [hposition, hvalue]

theorem UnitMark.ofUnit_untitle (s : Site) (config : Config) (u : UnitView) (source : String) :
    ofUnit s.untitle config u source = ofUnit s config u source := by
  have hentry := Encode.entry_congr (funext s.scaleName_untitle) (funext s.scale?_untitle) config u
  unfold ofUnit
  rw [hentry, Site.node_untitle]
  rfl

theorem CellMark.ofFacet_untitle (n : Node) (config : Config) (f : FacetView) (root : FacetRoot)
    (child : View) :
    ofFacet n.untitle config f root child.untitle = ofFacet n config f root child := by
  have hgroup : groupEntry child.untitle = groupEntry child := by
    unfold groupEntry
    simp only [View.sizeSignal_untitle]
  have hchild : childEntry config child.untitle = childEntry config child := by
    unfold childEntry
    rw [View.node_untitle, hgroup]
    rfl
  unfold ofFacet
  rw [hchild]
  rfl

namespace View

theorem facetChild_untitle (v : View) : v.untitle.facetChild = v.facetChild.map untitle := by
  unfold facetChild
  rw [children_untitle, node_untitle]
  cases v.children <;> rfl

theorem cellMark_untitle (config : Config) (v : View) (f : FacetView) :
    cellMark config v.untitle f = cellMark config v f := by
  unfold cellMark
  rw [facetChild_untitle, node_untitle, Node.components_untitle]
  cases v.facetChild with
  | error e => rfl
  | ok child =>
    cases v.node.components.dataOrError with
    | error e => rfl
    | ok d =>
      dsimp only [bind, Except.bind, Except.map, Except.mapError]
      cases d.facetRoot with
      | none => rfl
      | some root => exact congrArg Except.ok (CellMark.ofFacet_untitle v.node config f root child)

theorem markStep_untitled (config : Config) : Untitled (markStep config) := by
  intro A v
  unfold markStep
  rw [node_untitle, Node.kind_untitle, Node.components_untitle, Site.mk_untitle]
  cases v.node.kind with
  | unit u =>
    dsimp only
    rw [← Outcome.ofExcept_untitle]
    simp only [UnitMark.ofUnit_untitle, update_untitle]
  | layer size => rfl
  | facet f =>
    dsimp only
    rw [cellMark_untitle, ← Outcome.ofExcept_untitle]
    simp only [update_untitle]

end View

/-! ### Axes, headers and legends -/

theorem Axis.ofUnit_untitle (s : Site) (u : UnitView) : ofUnit s.untitle u = ofUnit s u := by
  unfold ofUnit ofUnit?
  simp only [Site.scale?_untitle, Site.scaleName_untitle]

theorem Legend.ofUnit_untitle (s : Site) (u : UnitView) : ofUnit s.untitle u = ofUnit s u := by
  unfold ofUnit ofUnit?
  simp only [Site.scale?_untitle, Site.scaleName_untitle]

namespace View

theorem mergeAxes_untitle (r : Resolve) (count : SideCount) (taken : Dict Channel (List Axis))
    (vs : List View) : mergeAxes r count taken (vs.map untitle) =
      (mergeAxes r count taken vs).map id (List.map untitle) := by
  induction vs generalizing count taken with
  | nil => rfl
  | cons v rest ih =>
    rw [List.map_cons, mergeAxes, mergeAxes, node_untitle, Node.components_untitle]
    dsimp only
    obtain ⟨next, kept⟩ := SideCount.placePicked _ _ _
    dsimp only
    rw [ih]
    dsimp only [Prod.map, id]
    rw [List.map_cons, update_untitle]

theorem headerPart_untitle (child : View) (h : HeaderChannel) (labels : Bool) :
    child.untitle.headerPart h labels = child.headerPart h labels := by
  unfold headerPart
  rw [sizeSignal_untitle]

theorem facetHeader_untitle (config : Config) (child : View) (h : HeaderChannel) (f : FieldDef) :
    facetHeader config child.untitle h f = (facetHeader config child h f).map id untitle := by
  unfold facetHeader
  rw [node_untitle, Node.components_untitle]
  cases child.node.components.headers.get? h with
  | none => simp only [headerPart_untitle, Prod.map, id]
  | some inner => simp only [← update_untitle, headerPart_untitle, Prod.map, id]

theorem addHeader_untitle (config : Config) (n : Node) (f : FacetView) (h : HeaderChannel)
    (child : View) : addHeader config n.untitle f h child.untitle =
      (addHeader config n f h child).map Node.untitle untitle := by
  unfold addHeader
  cases f.fieldDef? h.channel with
  | none => rfl
  | some g =>
    dsimp only
    rw [facetHeader_untitle]
    rfl

theorem liftAxes_untitle (c : Channel) (n : Node) (child : View) :
    liftAxes c n.untitle child.untitle = (liftAxes c n child).map Node.untitle untitle := by
  unfold liftAxes
  rw [Node.resolve_untitle, node_untitle, Node.components_untitle]
  split
  · rfl
  · cases HeaderChannel.forAxis? c with
    | none => rfl
    | some h =>
      cases child.node.components.axes.get? c with
      | none => rfl
      | some axes =>
        dsimp only [Prod.map]
        rw [headerPart_untitle, update_untitle]
        rfl

theorem facetGuides_untitle (config : Config) (n : Node) (f : FacetView) (child : View) :
    facetGuides config n.untitle f child.untitle =
      (facetGuides config n f child).map Node.untitle untitle := by
  unfold facetGuides
  simp only [addHeader_untitle, liftAxes_untitle, Prod.map]

theorem guideStep_untitled (config : Config) : Untitled (guideStep config) := by
  intro A v
  cases v with
  | mk n cs =>
    rw [untitle_mk]
    unfold guideStep
    dsimp only [node]
    rw [Node.kind_untitle]
    cases n.kind with
    | unit u =>
      dsimp only
      rw [← untitle_mk, Site.mk_untitle, Axis.ofUnit_untitle, ← update_untitle]
      rfl
    | layer size =>
      dsimp only
      rw [Node.resolve_untitle, mergeAxes_untitle]
      dsimp only [Prod.map, id]
      rw [← Node.update_untitle, ← untitle_mk]
      rfl
    | facet f =>
      cases cs with
      | nil => exact congrArg (fun w => Outcome.failed w _) (untitle_mk n []).symm
      | cons child rest =>
        -- the step looks at the first view alone, and the others come along
        show Outcome.ok (mk (facetGuides config n.untitle f child.untitle).1
          ((facetGuides config n.untitle f child.untitle).2 :: rest.map untitle)) = _
        rw [facetGuides_untitle]
        dsimp only [Prod.map]
        rw [← List.map_cons, ← untitle_mk]
        rfl

theorem mergeLegends_untitle (r : Resolve) (taken : Dict Channel Legend) (vs : List View) :
    mergeLegends r taken (vs.map untitle) =
      (mergeLegends r taken vs).map id (List.map untitle) := by
  induction vs generalizing taken with
  | nil => rfl
  | cons v rest ih =>
    rw [List.map_cons, mergeLegends, mergeLegends, node_untitle, Node.components_untitle]
    dsimp only
    obtain ⟨parent, kept⟩ := v.node.components.legends.keys.foldl _ _
    dsimp only
    rw [ih]
    dsimp only [Prod.map, id]
    rw [List.map_cons, update_untitle]

theorem collectLegends_untitle (v : View) :
    v.untitle.collectLegends = v.collectLegends.untitle := by
  cases v with
  | mk n cs =>
    rw [untitle_mk, collectLegends, collectLegends, Node.resolve_untitle, mergeLegends_untitle]
    dsimp only [Prod.map, id]
    rw [← Node.update_untitle, ← untitle_mk]

theorem legendStep_untitled : Untitled legendStep := by
  intro A v
  unfold legendStep
  rw [node_untitle, Node.kind_untitle, Site.mk_untitle, collectLegends_untitle]
  cases v.node.kind with
  | unit u =>
    dsimp only
    rw [Legend.ofUnit_untitle, ← update_untitle]
    rfl
  | layer size => rfl
  | facet f => rfl

/-! ### The passes -/

theorem complete_untitle (phase : Phase) (o : Outcome) :
    o.untitle.complete phase = (o.complete phase).untitle := by
  obtain ⟨v, ds, e⟩ := o
  cases e with
  | some e => rfl
  | none => exact congrArg (fun w => (⟨w, ds, none⟩ : Outcome)) (update_untitle _ v).symm

theorem bottomUpIn_untitle {phase : Phase} {step : Step} {A : List Node} {cs : List View}
    (h : ∀ c ∈ cs, c.untitle.bottomUp phase step (A.map Node.untitle) =
      (c.bottomUp phase step A).untitle) :
    bottomUpIn phase step (A.map Node.untitle) (cs.map untitle) =
      { bottomUpIn phase step A cs with
        views := (bottomUpIn phase step A cs).views.map untitle } := by
  induction cs with
  | nil => rfl
  | cons c rest ih =>
    rw [List.map_cons, bottomUpIn, bottomUpIn, h c List.mem_cons_self,
      ih (fun d hd => h d (List.mem_cons_of_mem _ hd))]
    obtain ⟨v, ds, e⟩ := c.bottomUp phase step A
    cases e <;> rfl

/-- A pass does the same without titles, if its step does. -/
theorem bottomUp_untitle {phase : Phase} {step : Step} (h : Untitled step) (A : List Node)
    (v : View) :
    v.untitle.bottomUp phase step (A.map Node.untitle) = (v.bottomUp phase step A).untitle := by
  induction v using induct generalizing A with
  | h n cs ih =>
    have hbelow := bottomUpIn_untitle (fun c hc => ih c hc (n :: A))
    rw [List.map_cons] at hbelow
    rw [untitle_mk, bottomUp, bottomUp, hbelow]
    obtain ⟨vs, ds, e⟩ := bottomUpIn phase step (n :: A) cs
    cases e with
    | some e => exact congrArg (fun w => (⟨w, ds, some e⟩ : Outcome)) (untitle_mk n vs).symm
    | none =>
      dsimp only
      rw [← untitle_mk, h, ← complete_untitle]
      rfl

theorem describe_untitle {data : Site → DataComponent} (h : ∀ s, data s.untitle = data s)
    (A : List Node) (v : View) :
    v.untitle.describe data (A.map Node.untitle) = (v.describe data A).untitle := by
  induction v using induct generalizing A with
  | h n cs ih =>
    -- a node is described before the views under it, which see it described
    have hself : data ⟨A.map Node.untitle, mk n.untitle (cs.map untitle)⟩ = data ⟨A, mk n cs⟩ := by
      rw [← h ⟨A, mk n cs⟩, Site.untitle, untitle_mk]
    rw [untitle_mk, describe_mk, describe_mk, untitle_mk, hself]
    congr 1
    rw [List.map_map, List.map_map]
    exact List.map_congr_left (fun c hc => ih c hc (n.describedAs (data ⟨A, mk n cs⟩) :: A))

/-- Every phase does the same without titles, if the pipeline does. -/
theorem runPhase_untitle {pipeline : Pipeline} (h : pipeline.Untitled) (config : Config)
    (input : Option DataDef) (phase : Phase) (v : View) :
    v.untitle.runPhase pipeline config input phase =
      (v.runPhase pipeline config input phase).untitle := by
  cases phase with
  | data => exact congrArg Outcome.ok (describe_untitle (h input) [] v)
  | scale => exact bottomUp_untitle (scaleStep_untitled config) [] v
  | layoutSize => exact bottomUp_untitle (sizeStep_untitled config) [] v
  | selection => exact bottomUp_untitle selectionStep_untitled [] v
  | markGroup => exact bottomUp_untitle (markStep_untitled config) [] v
  | axisAndHeader => exact bottomUp_untitle (guideStep_untitled config) [] v
  | legend => exact bottomUp_untitle legendStep_untitled [] v

end View

/-! ### Assembling -/

namespace View

theorem groupSites_untitle (A : List Node) (v : View) :
    v.untitle.groupSites (A.map Node.untitle) = (v.groupSites A).map Site.untitle := by
  induction v using induct generalizing A with
  | h n cs ih =>
    have hlayer : n.untitle.isLayer = n.isLayer := rfl
    rw [untitle_mk, groupSites, groupSites, hlayer, groupSitesIn_eq, groupSitesIn_eq, List.map_cons,
      Site.untitle, untitle_mk]
    congr 1
    split
    · rw [List.flatMap_map, List.map_flatMap]
      exact List.flatMap_congr (fun c hc => ih c hc (n :: A))
    · rfl

end View

namespace Site

theorem groupMembers_untitle (s : Site) :
    s.untitle.groupMembers = s.groupMembers.map untitle :=
  View.groupSites_untitle s.ancestors s.view

theorem groupScales_untitle (s : Site) : s.untitle.groupScales = s.groupScales := by
  unfold groupScales
  rw [groupMembers_untitle, List.flatMap_map]
  refine List.flatMap_congr (fun m _ => ?_)
  rw [node_untitle, funext m.sizeSignal_untitle]
  rfl

theorem groupAxes_untitle (s : Site) : s.untitle.groupAxes = s.groupAxes := by
  unfold groupAxes
  rw [groupMembers_untitle, List.flatMap_map]
  simp only [node_untitle]
  rfl

theorem groupLegends_untitle (s : Site) : s.untitle.groupLegends = s.groupLegends := by
  unfold groupLegends
  rw [groupMembers_untitle, List.flatMap_map]
  simp only [node_untitle]
  rfl

theorem headerMarks_untitle (s : Site) : s.untitle.headerMarks = s.headerMarks := by
  unfold headerMarks
  rw [node_untitle]
  rfl

theorem gridLayout?_untitle (s : Site) : s.untitle.gridLayout? = s.gridLayout? := by
  unfold gridLayout?
  rw [node_untitle]
  rfl

theorem signals_untitle (x : Selection) (s : Site) : x.signals s.untitle = x.signals s := by
  unfold Selection.signals Selection.intervalSignals
  simp only [sizeSignal_untitle, scaleName_untitle]

theorem unitSignals_untitle (s : Site) : s.untitle.unitSignals = s.unitSignals := by
  have hunit : (fun m : Site => m.node.isUnit) ∘ untitle = fun m => m.node.isUnit := by
    funext m
    rw [Function.comp_apply, node_untitle]
    rfl
  unfold unitSignals selections
  rw [groupMembers_untitle, List.filter_map, List.flatMap_map, hunit]
  simp only [signals_untitle, node_untitle]
  rfl

theorem groupOf_untitle (s : Site) (marks : List GroupMark) :
    s.untitle.groupOf marks = s.groupOf marks := by
  unfold groupOf
  rw [unitSignals_untitle, gridLayout?_untitle, headerMarks_untitle, groupScales_untitle,
    groupAxes_untitle, groupLegends_untitle]

theorem cellData_untitle (pipeline : Pipeline) (units : List Node) :
    cellData pipeline (units.map Node.untitle) = cellData pipeline units := by
  unfold cellData
  rw [List.foldlM_map]
  rfl

theorem unitSize_untitle (s : Site) (config : Config) (d : Dimension) :
    s.untitle.unitSize config d = s.unitSize config d := by
  unfold unitSize
  rw [node_untitle, scale?_untitle, scaleName_untitle]
  rfl

end Site

namespace View

theorem marksIn_untitle {pipeline : Pipeline} {A : List Node} {cs : List View}
    (h : ∀ c ∈ cs, c.untitle.marks pipeline (A.map Node.untitle) = c.marks pipeline A) :
    marksIn pipeline (A.map Node.untitle) (cs.map untitle) = marksIn pipeline A cs := by
  induction cs with
  | nil => rfl
  | cons c rest ih =>
    rw [List.map_cons, marksIn, marksIn, h c List.mem_cons_self,
      ih (fun d hd => h d (List.mem_cons_of_mem _ hd))]

theorem marks_untitle (pipeline : Pipeline) (A : List Node) (v : View) :
    v.untitle.marks pipeline (A.map Node.untitle) = v.marks pipeline A := by
  induction v using induct generalizing A with
  | h n cs ih =>
    have hbelow := marksIn_untitle (fun c hc => ih c hc (n :: A))
    rw [untitle_mk]
    cases hk : n.kind with
    | unit u =>
      rw [marks.eq_1 _ _ n.untitle _ u hk, marks.eq_1 _ _ n _ u hk]
      rfl
    | layer size =>
      rw [marks.eq_2 _ _ n.untitle _ size hk, marks.eq_2 _ _ n _ size hk, ← hbelow]
      rfl
    | facet f =>
      cases cs with
      | nil =>
        rw [List.map_nil, marks.eq_3 _ _ n.untitle f hk, marks.eq_3 _ _ n f hk]
        rfl
      | cons child rest =>
        -- the child is drawn in a group of its own, under the facet without its title
        have habove : n.untitle :: A.map Node.untitle = (n :: A).map Node.untitle := rfl
        rw [List.map_cons, marks.eq_4 _ _ n.untitle _ _ f hk, marks.eq_4 _ _ n _ _ f hk,
          ← ih child List.mem_cons_self (n :: A), ← List.map_cons, openUnitsIn_untitle,
          Site.cellData_untitle, habove, Site.mk_untitle]
        simp only [Site.groupOf_untitle]
        rfl

theorem sizeSignals_untitle (config : Config) (A : List Node) (v : View) :
    v.untitle.sizeSignals config (A.map Node.untitle) = v.sizeSignals config A := by
  induction v using induct generalizing A with
  | h n cs ih =>
    have hbelow : (cs.map untitle).flatMap (sizeSignals config (n.untitle :: A.map Node.untitle)) =
        cs.flatMap (sizeSignals config (n :: A)) := by
      rw [List.flatMap_map]
      exact List.flatMap_congr (fun c hc => ih c hc (n :: A))
    rw [untitle_mk]
    cases hk : n.kind with
    | unit u =>
      rw [sizeSignals_unit (n := n.untitle) hk, sizeSignals_unit hk, ← untitle_mk, Site.mk_untitle]
      simp only [Site.unitSize_untitle]
      rfl
    | layer size =>
      have hsizes (d : Dimension) :
          (cs.map untitle).map (sizeSignal d) = cs.map (sizeSignal d) := by
        rw [List.map_map]
        exact List.map_congr_left (fun c _ => sizeSignal_untitle c d)
      rw [sizeSignals_layer (n := n.untitle) hk, sizeSignals_layer hk, hbelow]
      simp only [hsizes]
      rfl
    | facet f => rw [sizeSignals_facet (n := n.untitle) hk, sizeSignals_facet hk, hbelow]

end View

/-! ### Trees -/

/-- The tree without titles. -/
def Tree.untitle (t : Tree) : Tree := { t with root := t.root.untitle }

/-- The same outcome without titles. -/
def TreeOutcome.untitle (o : TreeOutcome) : TreeOutcome := { o with tree := o.tree.untitle }

namespace Tree

variable {pipeline : Pipeline}

theorem runPhase_untitle (h : pipeline.Untitled) (t : Tree) (phase : Phase) :
    t.untitle.runPhase pipeline phase = (t.runPhase pipeline phase).untitle := by
  have hroot := View.runPhase_untitle h t.config t.data phase t.root
  unfold runPhase
  split
  · rename_i hdue
    rw [if_pos (show Phase.due? t.parsed ≠ some phase from hdue)]
    rfl
  · rename_i hdue
    rw [if_neg (show ¬Phase.due? t.parsed ≠ some phase from hdue)]
    dsimp only [untitle]
    rw [hroot]
    rfl

/-- A run does the same without titles, if the pipeline does. -/
theorem runPhases_untitle (h : pipeline.Untitled) (phases : List Phase) (t : Tree) :
    t.untitle.runPhases pipeline phases = (t.runPhases pipeline phases).untitle := by
  induction phases generalizing t with
  | nil => rfl
  | cons phase rest ih =>
    rw [runPhases, runPhases, runPhase_untitle h]
    obtain ⟨next, ds, e⟩ := t.runPhase pipeline phase
    cases e with
    | some e => rfl
    | none =>
      dsimp only [TreeOutcome.untitle]
      rw [ih]
      rfl

theorem rootData_untitle (pipeline : Pipeline) (s : Site) :
    s.untitle.rootData pipeline = s.rootData pipeline := by
  unfold Site.rootData
  have hroot : s.untitle.isRoot = s.isRoot := Site.isRoot_mapNodes _ s
  have hnodes : s.untitle.view.nodes = s.view.nodes.map Node.untitle := View.nodes_mapNodes _ _
  rw [hroot, hnodes, List.foldlM_map]
  rfl

/-- Of all titles, assembling reads that of the root. -/
theorem assemble_untitle (pipeline : Pipeline) (t : Tree) :
    t.assemble pipeline = (t.untitle.assemble pipeline).map
      (fun v => { v with title := t.root.node.title }) := by
  have hsite : t.untitle.rootSite = t.rootSite.untitle := rfl
  have hmarks : t.rootSite.untitle.marks pipeline = t.rootSite.marks pipeline :=
    View.marks_untitle pipeline [] t.root
  have hgroup : t.rootSite.untitle.group pipeline = t.rootSite.group pipeline := by
    unfold Site.group
    rw [hmarks]
    simp only [Site.groupOf_untitle]
  have hsizes : t.rootSite.untitle.sizeSignals t.config = t.rootSite.sizeSignals t.config :=
    View.sizeSignals_untitle t.config [] t.root
  have hstores : t.rootSite.untitle.selectionStores = t.rootSite.selectionStores := by
    unfold Site.selectionStores Site.selections
    rw [Site.node_untitle]
    rfl
  have hsignals : t.rootSite.untitle.topSignals = t.rootSite.topSignals := by
    unfold Site.topSignals Site.selections
    rw [Site.node_untitle]
    rfl
  have hconfig : t.untitle.config = t.config := rfl
  have hparsed : t.untitle.parsed = t.parsed := rfl
  unfold assemble
  dsimp only
  rw [hsite, hconfig, hparsed, rootData_untitle, hgroup, hstores, hsizes, hsignals]
  split
  · rfl
  · cases t.rootSite.rootData pipeline with
    | error e => rfl
    | ok data =>
      cases t.rootSite.group pipeline with
      | error e => rfl
      | ok group => rfl

end Tree
end Trellis

import Trellis.Proofs.Arrays
import Trellis.Proofs.Extras
import Trellis.Proofs.Wrapped

/-! A unit within layers that add nothing compiles to the same data, scales, axes and legends as the
unit alone. -/
namespace Trellis

/-- A unit within a layer for each of these titles, from the outermost on. The layers have no name and
no size and decide nothing. What only counts on the root goes with the outermost layer. -/
def UnitSpec.inLayers (u : UnitSpec) : List (Option String) → Spec
  | [] => .unit u
  | title :: inner => .layer ⟨⟨none, title, u.props.data, u.props.config⟩, ⟨none, none⟩, .empty⟩
      [UnitSpec.inLayers { u with props := { u.props with data := none, config := none } } inner]

namespace UnitSpec

variable {u : UnitSpec}

theorem inLayers_data? (u : UnitSpec) (titles : List (Option String)) :
    (u.inLayers titles).data? = u.props.data := by
  cases titles <;> rfl

theorem inLayers_config? (u : UnitSpec) (titles : List (Option String)) :
    (u.inLayers titles).config? = u.props.config := by
  cases titles <;> rfl

/-- No channel of the unit asks for an aggregate. -/
def Raw (u : UnitSpec) : Prop := ∀ c f, u.encoding.get? c = some (.field f) → f.aggregate = none

theorem Raw.not_isAggregate (h : u.Raw) (config : Config) (inFacet : Bool) :
    (UnitView.ofSpec u config inFacet).1.isAggregate = false := by
  rw [UnitView.isAggregate, List.any_eq_false]
  intro f hf
  obtain ⟨c, hc⟩ := UnitView.mem_fieldDefs.mp hf
  obtain ⟨own, hown, rfl⟩ := UnitView.exists_asked rfl hc
  have hnone : own.normalize.aggregate = none := h c own hown
  rw [hnone]
  exact Bool.false_ne_true

end UnitSpec

namespace View

/-- Layers that add nothing are built around the view of the unit, and the outermost view has the
name that is given. -/
theorem place_inLayers (config : Config) (titles : List (Option String)) {u : UnitSpec}
    (hname : u.props.name = none) {A : List Node} (hA : A.any Node.isFacet = false)
    (given : String) (p : Progress) : ∃ v q,
    place config A given p (u.inLayers titles) = .ok (v, q) ∧
      v.Wraps (UnitView.ofSpec u config false).1 ∧ v.node.name = p.freshName given := by
  induction titles generalizing u A given p with
  | nil =>
    rw [UnitSpec.inLayers, place, hname, hA]
    exact ⟨_, _, rfl, .unit rfl, rfl⟩
  | cons title inner ih =>
    -- the names of the views below the outermost one may be any
    let node : Node := ⟨p.index, p.freshName given, title, .layer ⟨none, none⟩,
      Resolve.empty.composite.1, .empty⟩
    obtain ⟨v, q, hplace, hwraps, -⟩ := ih
      (u := { u with props := { u.props with data := none, config := none } }) (A := node :: A)
      hname hA (Naming.qualify node.name (Naming.layerChild 0))
      (p.enter node.name Resolve.empty.composite.2)
    refine ⟨mk node [v], q, ?_, .layer ⟨rfl, rfl⟩ hwraps, rfl⟩
    rw [UnitSpec.inLayers, place, List.isEmpty_cons]
    change (placeAll config (node :: A) node.name 0 (p.enter node.name Resolve.empty.composite.2)
      [_] >>= fun r => pure (mk node r.1, r.2)) = _
    rw [placeAll, hplace]
    rfl

end View

namespace Tree

variable {config : Config} {u : UnitSpec}

/-- What is built shows nothing but the unit. -/
theorem exists_build_inLayers (hname : u.props.name = none) (hraw : u.Raw)
    (titles : List (Option String)) : ∃ t ds,
      Tree.build (u.inLayers titles) config = .ok (t, ds) ∧
        t.ShowsOnly (u.inLayers titles) config (UnitView.ofSpec u config false).1 := by
  obtain ⟨v, q, hplace, hwraps, hroot⟩ :=
    View.place_inLayers config titles hname (A := []) rfl "" .start
  have hbuild : Tree.build (u.inLayers titles) config =
      .ok (⟨v, config, (u.inLayers titles).data?, none, []⟩, q.diagnostics) := by
    rw [Tree.build, hplace]
    rfl
  exact ⟨_, _, hbuild, ⟨_, hbuild⟩, hwraps, hroot, hraw.not_isAggregate config false⟩

end Tree

/-! ### What is emitted -/

namespace Visualization

/-- Visualizations with the same data, scales, axes and legends emit the same members for them. -/
theorem member?_congr {v w : Visualization} (hdata : v.data = w.data)
    (hscales : v.group.scales = w.group.scales) (haxes : v.group.axes = w.group.axes)
    (hlegends : v.group.legends = w.group.legends) {key : String}
    (hkey : key ∈ ["data", "scales", "axes", "legends"]) :
    v.toJson.member? key = w.toJson.member? key := by
  rw [toJson_eq, toJson_eq, Group.member?_object v.names_front (by decide),
    Group.member?_object w.names_front (by decide), Group.members_eq, Group.members_eq, front, front,
    hdata, hscales, haxes, hlegends]
  simp only [Dict.lookup_append, Dict.lookup_optional, Dict.lookup_unlessEmpty, Group.scales,
    Group.axes, Group.legends]
  simp only [List.mem_cons, List.not_mem_nil, or_false] at hkey
  rcases hkey with rfl | rfl | rfl | rfl <;> simp [Dict.lookup, Dict.compare_beq_eq]

end Visualization

namespace Compiler

/-- A unit without a name or an aggregate, and the same unit within layers that add nothing, both
compile, with the same data, scales, axes and legends. -/
theorem compile_inLayers (config : Config) (u : UnitSpec) (hname : u.props.name = none)
    (hraw : u.Raw) (titles : List (Option String)) : ∃ alone layered,
    (⟨.standard, config⟩ : Compiler).compile (.unit u) = .ok alone ∧
      (⟨.standard, config⟩ : Compiler).compile (u.inLayers titles) = .ok layered ∧
      ∀ key ∈ ["data", "scales", "axes", "legends"],
        alone.visualization.toJson.member? key = layered.visualization.toJson.member? key := by
  let own : Config := u.props.config.getD config
  have hbuild (titles : List (Option String)) : ∃ t ds,
      (⟨.standard, config⟩ : Compiler).build (u.inLayers titles) = .ok (t, ds) ∧
        t.ShowsOnly (u.inLayers titles) own (UnitView.ofSpec u own false).1 := by
    rw [Compiler.build, UnitSpec.inLayers_config?]
    exact Tree.exists_build_inLayers hname hraw titles
  -- the unit alone is the case without layers
  obtain ⟨t, _, hb, ht⟩ := hbuild []
  obtain ⟨r, _, hb', hr⟩ := hbuild titles
  obtain ⟨alone, halone, hview, -⟩ :=
    compile_of_build (G := fun _ => True) trivial (Spec.guideExtras_true _) hb
  obtain ⟨layered, hlayered, hview', -⟩ :=
    compile_of_build (G := fun _ => True) trivial (Spec.guideExtras_true _) hb'
  refine ⟨alone, layered, halone, hlayered, ?_⟩
  intro key hkey
  have hdata : (u.inLayers []).data? = (u.inLayers titles).data? := by
    rw [UnitSpec.inLayers_data?, UnitSpec.inLayers_data?]
  obtain ⟨hsame, hscales, haxes, hlegends⟩ := ht.drawn_eq hr hdata
  rw [hview, hview']
  exact Visualization.member?_congr hsame hscales haxes hlegends hkey

end Compiler

/-! ### Points for each year -/

/-- Points by price in a color for each year, with a selection of single records. -/
def UnitSpec.yearlyPoints : UnitSpec :=
  let price : FieldDef :=
    { FieldDef.unset with field := some "price", type := some .quantitative }
  let year : FieldDef := { FieldDef.unset with field := some "date", timeUnit := some "year" }
  ⟨⟨none, some "Prices", some ⟨none, some "prices.csv", none⟩, none⟩, ⟨none, none⟩, ⟨.point, none⟩,
    .ofList [(.x, .field price), (.color, .field year)],
    .ofList [("pick", ⟨.single, none, none, none⟩)]⟩

namespace Compiler

theorem compile_inLayers_yearlyPoints : UnitSpec.yearlyPoints.props.name = none ∧
    UnitSpec.yearlyPoints.Raw ∧ ∃ alone layered,
      standard.compile (.unit .yearlyPoints) = .ok alone ∧
        standard.compile (UnitSpec.yearlyPoints.inLayers [some "Sales", none]) = .ok layered ∧
        ∀ key ∈ ["data", "scales", "axes", "legends"],
          alone.visualization.toJson.member? key = layered.visualization.toJson.member? key := by
  have hraw : UnitSpec.yearlyPoints.Raw := by
    intro c f h
    have hasked := Dict.mem_of_get?_ofList h
    simp only [List.mem_cons, Prod.mk.injEq, ChannelDef.field.injEq, List.not_mem_nil,
      or_false] at hasked
    rcases hasked with ⟨-, rfl⟩ | ⟨-, rfl⟩ <;> rfl
  exact ⟨rfl, hraw, compile_inLayers .default .yearlyPoints rfl hraw [some "Sales", none]⟩

end Compiler
end Trellis

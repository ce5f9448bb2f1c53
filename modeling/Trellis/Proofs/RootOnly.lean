import Trellis.Proofs.Untitled

/-! What a view says of data, configuration and title counts at the root alone: specifications that
differ in nothing else compile alike, to the last error and report. -/
namespace Trellis

/-- What counts below the root. -/
def ViewProps.nameOnly (p : ViewProps) : ViewProps := ⟨p.name, none, none, none⟩

namespace Spec

/-- Changes what a specification says of its topmost view. -/
def mapProps (f : ViewProps → ViewProps) : Spec → Spec
  | unit s => unit { s with props := f s.props }
  | layer s cs => layer { s with props := f s.props } cs
  | facet s c => facet { s with props := f s.props } c

mutual

/-- The specification without data, configuration and titles. -/
def bare : Spec → Spec
  | unit s => unit { s with props := s.props.nameOnly }
  | layer s cs => layer { s with props := s.props.nameOnly } (bareIn cs)
  | facet s c => facet { s with props := s.props.nameOnly } c.bare

def bareIn : List Spec → List Spec
  | [] => []
  | s :: rest => s.bare :: bareIn rest

end

/-- The specification with data, configuration and title at its root alone. -/
def rootOnly : Spec → Spec
  | unit s => unit s
  | layer s cs => layer s (bareIn cs)
  | facet s c => facet s c.bare

theorem bare_eq (s : Spec) : s.bare = s.rootOnly.mapProps ViewProps.nameOnly := by
  cases s <;> rfl

theorem rootOnly_props (s : Spec) : s.rootOnly.props = s.props := by
  cases s <;> rfl

end Spec

namespace View

variable {config : Config}

theorem placeAll_bare {ss : List Spec}
    (h : ∀ s ∈ ss, ∀ A given p, place config (A.map Node.untitle) given p s.bare =
      (place config A given p s).map (Prod.map untitle id))
    (A : List Node) (layer : String) (i : Nat) (p : Progress) :
    placeAll config (A.map Node.untitle) layer i p (Spec.bareIn ss) =
      (placeAll config A layer i p ss).map (Prod.map (List.map untitle) id) := by
  induction ss generalizing i p with
  | nil => rfl
  | cons s rest ih =>
    rw [Spec.bareIn, placeAll, placeAll, h s List.mem_cons_self]
    cases place config A (Naming.qualify layer (Naming.layerChild i)) p s with
    | error e => rfl
    | ok r =>
      dsimp only [bind, Except.bind, Except.map, Prod.map, id]
      rw [ih (fun t ht => h t (List.mem_cons_of_mem _ ht))]
      cases placeAll config A layer (i + 1) r.2 rest <;> rfl

/-- Without titles a specification is built into the tree without titles, with the same reports or
the same fault. -/
theorem place_bare (s : Spec) (A : List Node) (given : String) (p : Progress) :
    place config (A.map Node.untitle) given p s.bare =
      (place config A given p s).map (Prod.map untitle id) := by
  induction s using Spec.induct generalizing A given p with
  | unit s =>
    have hfacet : (A.map Node.untitle).any Node.isFacet = A.any Node.isFacet := by
      rw [List.any_map]
      rfl
    rw [Spec.bare, place, place, hfacet]
    rfl
  | layer s children ih =>
    have hempty : (Spec.bareIn children).isEmpty = children.isEmpty := by
      cases children <;> rfl
    let name := p.freshName (s.props.name.getD given)
    -- names come from the progress, in which titles leave no trace: the nodes differ in nothing else
    let n : Node := ⟨p.index, name, s.props.title, .layer s.size, s.resolve.composite.1, .empty⟩
    let q := p.enter name s.resolve.composite.2
    have hbelow := placeAll_bare ih (n :: A) name 0 q
    rw [List.map_cons] at hbelow
    rw [Spec.bare, place, place, hempty]
    split
    · rfl
    · show (placeAll config (n.untitle :: A.map Node.untitle) name 0 q (Spec.bareIn children)).bind
          (fun r => .ok (mk n.untitle r.1, r.2)) =
        ((placeAll config (n :: A) name 0 q children).bind (fun r => .ok (mk n r.1, r.2))).map
          (Prod.map untitle id)
      rw [hbelow]
      cases placeAll config (n :: A) name 0 q children with
      | error e => rfl
      | ok r => exact congrArg (fun w => Except.ok (w, r.2)) (untitle_mk n r.1).symm
  | facet s child ih =>
    have hlayer : (A.map Node.untitle).head?.any Node.isLayer = A.head?.any Node.isLayer := by
      cases A <;> rfl
    let name := p.freshName (s.props.name.getD given)
    let n : Node := ⟨p.index, name, s.props.title, .facet (FacetView.ofBindings s.facet).1,
      s.resolve.composite.1, .empty⟩
    let q := p.enter name ((FacetView.ofBindings s.facet).2 ++ s.resolve.composite.2)
    let wanted := Naming.qualify name Naming.facetChild
    have hbelow := ih (n :: A) wanted q
    rw [List.map_cons] at hbelow
    rw [Spec.bare, place, place, hlayer]
    split
    · rfl
    · show (place config (n.untitle :: A.map Node.untitle) wanted q child.bare).bind
          (fun r => .ok (mk n.untitle [r.1], r.2)) =
        ((place config (n :: A) wanted q child).bind (fun r => .ok (mk n [r.1], r.2))).map
          (Prod.map untitle id)
      rw [hbelow]
      cases place config (n :: A) wanted q child with
      | error e => rfl
      | ok r => exact congrArg (fun w => Except.ok (w, r.2)) (untitle_mk n [r.1]).symm

/-- The root has the title of its specification. -/
theorem place_title {s : Spec} {A : List Node} {given : String} {p q : Progress} {v : View}
    (h : place config A given p s = .ok (v, q)) : v.node.title = s.title? := by
  cases s with
  | unit s =>
    rw [place] at h
    obtain ⟨rfl, -⟩ := Prod.mk.inj (Except.ok.inj h)
    rfl
  | layer s children =>
    rw [place] at h
    dsimp only at h
    split at h
    · cases h
    · obtain ⟨r, -, h⟩ := bind_eq_ok.mp h
      obtain ⟨rfl, -⟩ := Prod.mk.inj (Except.ok.inj h)
      rfl
  | facet s child =>
    rw [place] at h
    dsimp only at h
    split at h
    · cases h
    · obtain ⟨r, -, h⟩ := bind_eq_ok.mp h
      obtain ⟨rfl, -⟩ := Prod.mk.inj (Except.ok.inj h)
      rfl

end View

/-- The same compilation under another title. -/
def Compiled.retitle (title : Option String) (c : Compiled) : Compiled :=
  { c with visualization := { c.visualization with title } }

namespace Tree

variable {pipeline : Pipeline} {t : Tree}

/-- Without titles a specification is built into the tree without titles, but for the input. -/
theorem build_untitle (spec : Spec) (config : Config) :
    (Tree.build spec config).map (Prod.map untitle id) =
      (Tree.build spec.bare config).map (Prod.map (fun t => { t with data := spec.data? }) id) := by
  have hplace : View.place config [] "" .start spec.bare =
      (View.place config [] "" .start spec).map (Prod.map View.untitle id) :=
    View.place_bare spec [] "" .start
  unfold Tree.build
  rw [hplace]
  cases View.place config [] "" .start spec <;> rfl

theorem build_title {spec : Spec} {config : Config} {ds : List Diagnostic}
    (h : Tree.build spec config = .ok (t, ds)) : t.root.node.title = spec.title? := by
  unfold Tree.build at h
  obtain ⟨⟨root, p⟩, hplace, h⟩ := bind_eq_ok.mp h
  obtain ⟨rfl, -⟩ := Prod.mk.inj (Except.ok.inj h)
  exact View.place_title hplace

theorem runPhases_title (pipeline : Pipeline) (phases : List Phase) (t : Tree) :
    (t.runPhases pipeline phases).tree.root.node.title = t.root.node.title := by
  refine runPhases_same (fun t => t.root.node.title) (fun t phase => ?_) phases t
  have hstrip := congrArg (fun v : View => v.node.title) (runPhase_strip pipeline phase t)
  simpa only [View.strip, View.node_updateAll, Node.update] using hstrip

/-- What is left to do once a tree is built. -/
def finish (t : Tree) (pipeline : Pipeline) (built : List Diagnostic) :
    Except CompileError Compiled := do
  let o := t.parse pipeline
  match o.error with
  | some e => throw e
  | none => return ⟨← o.tree.assemble pipeline, built ++ o.diagnostics⟩

/-- Of all titles in a tree, its root's gets into the compilation. -/
theorem finish_untitle (h : pipeline.Untitled) (t : Tree) (built : List Diagnostic) :
    t.finish pipeline built =
      (t.untitle.finish pipeline built).map (Compiled.retitle t.root.node.title) := by
  have hparse : t.untitle.parse pipeline = (t.parse pipeline).untitle :=
    runPhases_untitle h t.remaining t
  have htitle : (t.parse pipeline).tree.root.node.title = t.root.node.title :=
    runPhases_title pipeline t.remaining t
  unfold finish
  rw [hparse, ← htitle]
  obtain ⟨done, ds, e⟩ := t.parse pipeline
  cases e with
  | some e => rfl
  | none =>
    dsimp only [TreeOutcome.untitle]
    rw [assemble_untitle pipeline done]
    cases done.untitle.assemble pipeline <;> rfl

end Tree

namespace Compiler

/-- A compilation depends on the specification without data, configuration and titles, and on what
its root says of them. -/
theorem compile_eq (config : Config) (spec : Spec) :
    (⟨.standard, config⟩ : Compiler).compile spec =
      ((Tree.build spec.bare (spec.config?.getD config)).mapError .malformed).bind (fun b =>
        (Tree.finish { b.1 with data := spec.data? } .standard b.2).map
          (Compiled.retitle spec.title?)) := by
  have hcompile : (⟨.standard, config⟩ : Compiler).compile spec =
      ((Tree.build spec (spec.config?.getD config)).mapError .malformed).bind
        (fun b => b.1.finish .standard b.2) := rfl
  have hbuild := Tree.build_untitle spec (spec.config?.getD config)
  rw [hcompile]
  -- the two specifications are built, or refused for the same fault, alike
  cases hbuilt : Tree.build spec (spec.config?.getD config) with
  | error e =>
    rw [hbuilt] at hbuild
    cases hbare : Tree.build spec.bare (spec.config?.getD config) with
    | ok c =>
      rw [hbare] at hbuild
      cases hbuild
    | error f =>
      rw [hbare] at hbuild
      obtain rfl := Except.error.inj hbuild
      rfl
  | ok b =>
    rw [hbuilt] at hbuild
    cases hbare : Tree.build spec.bare (spec.config?.getD config) with
    | error f =>
      rw [hbare] at hbuild
      cases hbuild
    | ok c =>
      rw [hbare] at hbuild
      obtain ⟨htree, hreports⟩ : b.1.untitle = { c.1 with data := spec.data? } ∧ b.2 = c.2 :=
        Prod.mk.inj (Except.ok.inj hbuild)
      show b.1.finish .standard b.2 = _
      rw [Tree.finish_untitle Pipeline.standard_untitled, Tree.build_title hbuilt, htree, hreports]
      rfl

/-- Whatever the fallback configuration, specifications that agree but for data, configuration and
titles below the root compile to the same visualization with the same reports, or fail alike. -/
theorem compile_rootOnly {s r : Spec} (h : s.rootOnly = r.rootOnly) (config : Config) :
    (⟨.standard, config⟩ : Compiler).compile s = (⟨.standard, config⟩ : Compiler).compile r := by
  have hbare : s.bare = r.bare := by rw [Spec.bare_eq, Spec.bare_eq, h]
  have hprops : s.props = r.props := by rw [← s.rootOnly_props, h, r.rootOnly_props]
  have hconfig : s.config? = r.config? := congrArg ViewProps.config hprops
  have hdata : s.data? = r.data? := congrArg ViewProps.data hprops
  have htitle : s.title? = r.title? := congrArg ViewProps.title hprops
  rw [compile_eq, compile_eq, hbare, hconfig, hdata, htitle]

end Compiler

/-! ### A layer with something to say -/

/-- A titled layer of points that say this of themselves. -/
def Spec.titledLayer (inner : ViewProps) : Spec :=
  .layer ⟨⟨none, some "outer", none, none⟩, ⟨none, none⟩, .empty⟩
    [.unit ⟨inner, ⟨none, none⟩, ⟨.point, none⟩, .empty, .empty⟩]

namespace Compiler

/-- Points in a layer ask for a title, other data and another color, without effect. -/
theorem compile_titledLayer : ∃ compiled : Compiled, compiled.visualization.title = some "outer" ∧
    standard.compile (.titledLayer ⟨some "v", none, none, none⟩) = .ok compiled ∧
    standard.compile (.titledLayer ⟨some "v", some "inner", some ⟨none, some "a.json", none⟩,
      some { Config.default with markColor := "red" }⟩) = .ok compiled := by
  have hcompiles : (standard.compile (.titledLayer ⟨some "v", none, none, none⟩)).toOption.any
      (fun c => c.visualization.title == some "outer") = true := by
    decide +kernel
  obtain ⟨compiled, hplain, htitle⟩ := exists_ok_of_any hcompiles
  have hsame : (Spec.titledLayer ⟨some "v", some "inner", some ⟨none, some "a.json", none⟩,
      some { Config.default with markColor := "red" }⟩).rootOnly =
    (Spec.titledLayer ⟨some "v", none, none, none⟩).rootOnly := rfl
  have hcompile := compile_rootOnly hsame Config.default
  exact ⟨compiled, beq_iff_eq.mp htitle, hplain, hcompile.trans hplain⟩

end Compiler
end Trellis

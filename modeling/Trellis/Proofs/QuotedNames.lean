import Trellis.Proofs.Bands
import Trellis.Proofs.FacetUses
import Trellis.Proofs.Literals

/-! The names of scales and of datasets in the expressions for sizes and grids. They are put between
quotes as they are, and each begins with the name of a node, which may be any text. So a string there
holds its name just if the characters of that node's name stand for themselves. -/
namespace Trellis

/-! ### Texts that need no escapes -/

namespace StringSyntax

variable {σ : StringSyntax}

variable (σ) in
/-- All characters of a text stand for themselves. -/
def AllBare (s : String) : Prop := ∀ c ∈ s.toList, σ.Bare c

instance (s : String) : Decidable (σ.AllBare s) := List.decidableBAll _ _

theorem allBare_append {s text : String} :
    σ.AllBare (s ++ text) ↔ σ.AllBare s ∧ σ.AllBare text := by
  unfold AllBare
  rw [String.toList_append]
  exact List.forall_mem_append

/-- Letters, digits and underscores mean nothing but themselves. -/
theorem bare_of_isWordChar {c : Char} (h : isWordChar c = true) : σ.Bare c := by
  refine ⟨?_, σ.plain_word c h⟩
  rw [isMarked, Bool.or_eq_false_iff, beq_eq_false_iff_ne, beq_eq_false_iff_ne]
  constructor
  · rintro rfl
    exact absurd h (by decide)
  · rintro rfl
    exact absurd h (by decide)

theorem allBare_word {word : String} (h : word.toList.all isWordChar = true) : σ.AllBare word :=
  fun c hc => bare_of_isWordChar (List.all_eq_true.mp h c hc)

theorem allBare_toString (n : Nat) : σ.AllBare (toString n) := by
  intro c hc
  have hdigits : c ∈ Nat.toDigits 10 n := Nat.toList_repr ▸ hc
  have hdigit : c.isDigit = true :=
    Nat.isDigit_of_mem_toDigits (by decide) (Nat.le_refl 10) hdigits
  apply bare_of_isWordChar
  rw [isWordChar, Char.isAlphanum, hdigit, Bool.or_true, Bool.true_or]

/-- Behind the name of a node such a text leaves all to the name. -/
theorem allBare_qualify_iff {node text : String} (h : σ.AllBare text) :
    σ.AllBare (Naming.qualify node text) ↔ σ.AllBare node := by
  have hseparator : σ.AllBare "_" := allBare_word (by decide)
  unfold Naming.qualify
  by_cases hnode : node.isEmpty = true
  · obtain rfl : node = "" := String.isEmpty_iff.mp hnode
    exact iff_of_true h (allBare_word (by decide))
  · rw [if_neg hnode, allBare_append, allBare_append]
    exact ⟨fun hall => hall.1.1, fun hbare => ⟨⟨hbare, hseparator⟩, h⟩⟩

theorem allBare_channel (c : Channel) : σ.AllBare c.name := by
  apply allBare_word
  cases c <;> decide

end StringSyntax

/-! ### Names of nodes -/

/-- All names that a specification gives to its views stand for themselves. -/
def Spec.NamesBare (σ : StringSyntax) (s : Spec) : Prop :=
  ∀ part ∈ s.parts, ∀ name ∈ part.name?, σ.AllBare name

instance (σ : StringSyntax) (s : Spec) : Decidable (s.NamesBare σ) :=
  inferInstanceAs (Decidable (∀ part ∈ s.parts, ∀ name ∈ part.name?, σ.AllBare name))

namespace Tree

variable {σ : StringSyntax} {spec : Spec} {config : Config} {t : Tree} {ds : List Diagnostic}

theorem allBare_suffixed (index rounds : Nat) {wanted : String} (h : σ.AllBare wanted) :
    σ.AllBare (Naming.suffixed index rounds wanted) := by
  unfold Naming.suffixed
  induction rounds with
  | zero => exact h
  | succ rounds ih =>
    rw [Function.iterate_succ_apply']
    exact (StringSyntax.allBare_qualify_iff (StringSyntax.allBare_toString index)).mpr ih

theorem allBare_childName (n : Node) (i : Nat) : σ.AllBare (n.childName i) := by
  unfold Node.childName
  split
  · exact StringSyntax.allBare_word (by decide)
  · exact StringSyntax.allBare_append.mpr
      ⟨StringSyntax.allBare_word (by decide), StringSyntax.allBare_toString i⟩

/-- The names of nodes are made of those that are given, and of letters, digits and underscores. -/
theorem allBare_name_of_build (h : Tree.build spec config = .ok (t, ds)) (hbare : spec.NamesBare σ)
    {n : Node} (hn : n ∈ t.root.nodes) : σ.AllBare n.name := by
  obtain ⟨hnamed, -⟩ := nodesNamed_of_build h
  have hsites : ∀ s ∈ t.root.sites [], σ.AllBare s.node.name := by
    apply View.sites_induct
    · show σ.AllBare t.root.node.name
      have hwhole : spec ∈ spec.parts := by
        rw [spec.parts_eq]
        exact List.mem_cons_self
      rw [hnamed.root]
      cases hname : spec.name? with
      | none => exact StringSyntax.allBare_word (by decide)
      | some name => exact hbare spec hwhole name hname
    · intro s hs hself c hc
      obtain ⟨i, hi⟩ := List.mem_iff_getElem?.mp hc
      obtain ⟨part, hpart, -, hname⟩ := hnamed.child s hs i c hi
      rw [← Naming.qualify_eq] at hname
      obtain ⟨rounds, hname, -⟩ := hname.least
      have hwanted : σ.AllBare (part.name?.getD (s.node.qualify (s.node.childName i))) := by
        cases hgiven : part.name? with
        | none => exact (StringSyntax.allBare_qualify_iff (allBare_childName _ _)).mpr hself
        | some name => exact hbare part (List.mem_of_getElem? hpart) name hgiven
      show σ.AllBare c.node.name
      rw [hname]
      exact allBare_suffixed c.node.index rounds hwanted
  obtain ⟨s, hs, rfl⟩ := (View.mem_nodes_iff (A := [])).mp hn
  exact hsites s hs

theorem runPhases_nodeNames (pipeline : Pipeline) (phases : List Phase) (t : Tree) :
    (t.runPhases pipeline phases).tree.root.nodes.map Node.name = t.root.nodes.map Node.name := by
  rw [← View.strip_names, runPhases_strip, View.strip_names]

end Tree

/-! ### Names in expressions -/

/-- A size in steps has the name of its scale between quotes. -/
theorem Expression.text_bandspace (name : String) (inner outer step : Binary64) :
    (Expression.bandspace name inner outer step).text = "bandspace(domain(" ++ ("'" ++ name ++ "'") ++
      (").length, " ++ inner.plainText ++ ", " ++ outer.plainText ++ ") * " ++ step.plainText) := by
  have hopen : "domain('" = "domain(" ++ "'" := rfl
  have hclose : "').length" = "'" ++ ").length" := rfl
  have hcall : "bandspace(domain(" = "bandspace(" ++ "domain(" := rfl
  have hfirst : ").length, " = ").length" ++ ", " := rfl
  unfold text
  dsimp only
  unfold bandspaceText commaSeparated
  generalize inner.plainText = i
  generalize outer.plainText = o
  generalize step.plainText = w
  rw [String.intercalate_cons_cons, String.intercalate_cons_cons, String.intercalate_singleton, hopen,
    hclose, hcall, hfirst]
  simp only [String.append_assoc]

theorem ColumnCount.expression_eq (count : ColumnCount) : count.expression =
    "data(" ++ ("'" ++ count.data ++ "'") ++ (")[0][" ++ Text.quoted count.column ++ "]") := by
  have hopen : "data('" = "data(" ++ "'" := by decide
  have hclose : "')[0][" = "'" ++ ")[0][" := by decide
  rw [expression, hopen, hclose]
  simp only [String.append_assoc]

/-- How the grid of a group finds the number of its columns. -/
def Group.columnCount? (g : Group) : Option ColumnCount := g.layout.bind GridLayout.columns

/-- The dataset that counts the columns of a facet, behind the one with the columns. -/
def Node.layoutData? (n : Node) : Option Dataset := (DataComponent.headerSources n .column)[1]?

/-- The names in the expressions for sizes and grids are strings that hold them: in a size in steps
that of the scale which its unit uses, in a grid that of the dataset which counts the columns of its
facet. -/
structure Visualization.NamesSpelled (σ : StringSyntax) (t : Tree) (v : Visualization) : Prop where
  sizes : ∀ g ∈ v.allSignals, ∀ name inner outer step,
    g.update = some (.bandspace name inner outer step) →
      ∃ s ∈ t.root.sites [], s.node.isUnit = true ∧ ∃ d : Dimension,
        g.name = s.node.qualify d.name ∧
        σ.HasString (Expression.bandspace name inner outer step).text
          "bandspace(domain(" (s.scaleName d.channel) (").length, " ++ inner.plainText ++ ", " ++
            outer.plainText ++ ") * " ++ step.plainText)
  grids : List.Forall₂ (fun group s => ∀ count, group.columnCount? = some count →
      ∃ layout, s.node.layoutData? = some layout ∧
        σ.HasString count.expression "data(" layout.name (")[0][" ++ Text.quoted count.column ++ "]"))
    v.groups t.rootSite.groupRoots

/-- The names that come to stand in these strings stand for themselves: those of nodes that hold a
scale with a step for a unit, and those of facets with columns. -/
structure Tree.NamesBare (σ : StringSyntax) (t : Tree) : Prop where
  holders : ∀ s ∈ t.root.sites [], s.node.isUnit = true → ∀ (d : Dimension) (n : Node),
    s.scaleOwner? d.channel = some n → ((s.scale? d.channel).bind Scale.step?).isSome = true →
      σ.AllBare n.name
  facets : ∀ s ∈ t.root.sites [], s.node.isFacet = true →
    (s.node.fieldDef? .column).isSome = true → σ.AllBare s.node.name

namespace Site

variable {σ : StringSyntax} {s : Site} {d : Dimension}

/-- The string in a size holds the name of the scale just if the name of the node that holds the
scale stands for itself. -/
theorem bandspace_spelled_iff {n : Node} (hn : s.scaleOwner? d.channel = some n)
    (inner outer step : Binary64) :
    σ.HasString (Expression.bandspace (s.scaleName d.channel) inner outer step).text
        "bandspace(domain(" (s.scaleName d.channel) (").length, " ++ inner.plainText ++ ", " ++
          outer.plainText ++ ") * " ++ step.plainText) ↔ σ.AllBare n.name := by
  rw [Expression.text_bandspace, StringSyntax.hasString_append_iff, StringSyntax.spells_bare_iff,
    scaleName, hn]
  exact StringSyntax.allBare_qualify_iff (StringSyntax.allBare_channel _)

/-- Only facets with columns count them. -/
theorem columnCount_eq_some {count : ColumnCount}
    (h : s.gridLayout?.bind GridLayout.columns = some count) : s.node.isFacet = true ∧
      (s.node.fieldDef? .column).isSome = true := by
  obtain ⟨grid, hgrid, hcount⟩ := Option.bind_eq_some_iff.mp h
  obtain ⟨f, hf, rfl⟩ := Option.map_eq_some_iff.mp hgrid
  obtain ⟨own, hown, -⟩ := Option.map_eq_some_iff.mp hcount
  have hfacet : s.node.isFacet = true := Option.isSome_iff_exists.mpr ⟨f, hf⟩
  rw [Node.fieldDef?_facet hf, hown]
  exact ⟨hfacet, rfl⟩

/-- The string in a grid holds the name of the dataset just if the name of the facet stands for
itself. -/
theorem grid_spelled_iff (hfacet : s.node.isFacet = true)
    (hbound : (s.node.fieldDef? .column).isSome = true) : ∃ count layout,
      s.gridLayout?.bind GridLayout.columns = some count ∧ s.node.layoutData? = some layout ∧
      (σ.HasString count.expression "data(" layout.name (")[0][" ++ Text.quoted count.column ++ "]") ↔
        σ.AllBare s.node.name) := by
  obtain ⟨f, hf⟩ := Option.isSome_iff_exists.mp hfacet
  obtain ⟨own, hown⟩ := Option.isSome_iff_exists.mp hbound
  let name := s.node.qualify Channel.column.name
  refine ⟨⟨Naming.layoutData name, own.columnWith (some Naming.distinct)⟩,
    .derived (Naming.layoutData name) name [.distinct own.column], ?_, ?_, ?_⟩
  · rw [Node.fieldDef?_facet hf] at hown
    rw [gridLayout?, hf, Option.map_some, hown]
    rfl
  · rw [Node.layoutData?, DataComponent.headerSources, hown]
    rfl
  · have hbehind : σ.AllBare "_layout" := StringSyntax.allBare_word (by decide)
    rw [ColumnCount.expression_eq, StringSyntax.hasString_append_iff]
    refine (StringSyntax.spells_bare_iff _).trans ?_
    show σ.AllBare (name ++ "_layout") ↔ σ.AllBare s.node.name
    rw [StringSyntax.allBare_append, and_iff_left hbehind]
    exact StringSyntax.allBare_qualify_iff (StringSyntax.allBare_channel _)

end Site

/-- Where related lists are related in another way just if a condition holds of the second one. -/
theorem forall₂_iff_forall_mem {α β : Type} {R S : α → β → Prop} {P : β → Prop} {xs : List α}
    {ys : List β} (h : List.Forall₂ R xs ys) (hiff : ∀ x y, R x y → (S x y ↔ P y)) :
    List.Forall₂ S xs ys ↔ ∀ y ∈ ys, P y := by
  induction h with
  | nil => simp
  | cons hr _ ih => rw [List.forall₂_cons, List.forall_mem_cons, hiff _ _ hr, ih]

namespace Tree

variable {σ : StringSyntax} {t : Tree} {pipeline : Pipeline} {whole : Spec} {v : Visualization}

/-- A unit with a step on its scale has a size in steps of the scale it uses. -/
theorem exists_bandspace_of_step (hv : t.assemble pipeline = .ok v)
    (hb : View.Fits (fun s _ => s.Built whole) [] t.root)
    (hnames : (t.root.nodes.map Node.name).Nodup) {s : Site} (hs : s ∈ t.root.sites [])
    (hunit : s.node.isUnit = true) {d : Dimension}
    (hstep : ((s.scale? d.channel).bind Scale.step?).isSome = true) : ∃ inner outer step,
      .computed (s.node.qualify d.name) (.bandspace (s.scaleName d.channel) inner outer step) ∈
        v.allSignals := by
  obtain ⟨step, hstep⟩ := Option.isSome_iff_exists.mp hstep
  obtain ⟨scale, hscale, hstep⟩ := Option.bind_eq_some_iff.mp hstep
  have hsize := Site.unitSize_of_step hscale hstep t.config
  have hsizes : v.allSignals.filter Signal.isSize = t.sizeSignals := sizeSignals_filter hv hb
  have hsingle := (sizesOrdered hb hnames).unit s hs hunit d
  have hmem : .computed (s.node.qualify d.name) (s.unitSize t.config d) ∈ t.sizeSignals := by
    apply List.mem_of_mem_filter
    rw [hsingle]
    exact List.mem_singleton_self _
  rw [hsize, ← hsizes] at hmem
  exact ⟨_, _, step, (List.mem_filter.mp hmem).1⟩

/-- A size in steps is that of a unit with a step on its scale, which some node holds. -/
theorem exists_unit_of_bandspace (hv : t.assemble pipeline = .ok v)
    (hb : View.Fits (fun s _ => s.Built whole) [] t.root) {g : Signal} (hg : g ∈ v.allSignals)
    {name : String} {inner outer step : Binary64}
    (hupdate : g.update = some (.bandspace name inner outer step)) :
    ∃ s ∈ t.root.sites [], s.node.isUnit = true ∧ ∃ (d : Dimension) (n : Node),
      g.name = s.node.qualify d.name ∧ name = s.scaleName d.channel ∧
        s.scaleOwner? d.channel = some n ∧
          ((s.scale? d.channel).bind Scale.step?).isSome = true := by
  have hsizes : v.allSignals.filter Signal.isSize = t.sizeSignals := sizeSignals_filter hv hb
  have hsize : g ∈ t.sizeSignals := by
    rw [← hsizes]
    refine List.mem_filter.mpr ⟨hg, ?_⟩
    rw [Signal.isSize, hupdate]
    rfl
  rcases View.mem_sizeSignals hsize with ⟨s, hs, hunit, d, rfl⟩ | ⟨names, hlargest⟩
  · obtain ⟨scale, hscale, hstep, rfl, -⟩ :=
      Site.exists_scale_of_bandspace (Option.some.inj hupdate)
    obtain ⟨n, hn, -⟩ := Option.bind_eq_some_iff.mp hscale
    have hhas : ((s.scale? d.channel).bind Scale.step?).isSome = true := by
      rw [hscale, Option.bind_some, hstep]
      rfl
    exact ⟨s, hs, hunit, d, n, rfl, rfl, hn, hhas⟩
  · rw [hupdate] at hlargest
    exact absurd hlargest (by simp)

/-- The grids that are drawn have the names of datasets in them just if the names of the facets with
columns stand for themselves. -/
theorem grids_spelled_iff (hv : t.assemble pipeline = .ok v)
    (hb : View.Fits (fun s _ => s.Built whole) [] t.root) :
    List.Forall₂ (fun group s => ∀ count, group.columnCount? = some count →
        ∃ layout, s.node.layoutData? = some layout ∧ σ.HasString count.expression "data("
          layout.name (")[0][" ++ Text.quoted count.column ++ "]")) v.groups t.rootSite.groupRoots ↔
      ∀ s ∈ t.rootSite.groupRoots, s.node.isFacet = true →
        (s.node.fieldDef? .column).isSome = true → σ.AllBare s.node.name := by
  refine forall₂_iff_forall_mem (groups_drawn hv hb) ?_
  intro group s hgroup
  obtain ⟨ms, -, rfl⟩ := Site.group_eq_ok.mp hgroup
  have hcount : (s.groupOf ms).columnCount? = s.gridLayout?.bind GridLayout.columns := rfl
  rw [hcount]
  constructor
  · intro h hfacet hbound
    obtain ⟨count, layout, hown, hlayout, hiff⟩ := Site.grid_spelled_iff hfacet hbound
    obtain ⟨data, hdata, hspelled⟩ := h count hown
    obtain rfl := Option.some.inj (hlayout.symm.trans hdata)
    exact hiff.mp hspelled
  · intro h count hown
    obtain ⟨hfacet, hbound⟩ := Site.columnCount_eq_some hown
    obtain ⟨same, layout, hsame, hlayout, hiff⟩ := Site.grid_spelled_iff hfacet hbound
    obtain rfl := Option.some.inj (hown.symm.trans hsame)
    exact ⟨layout, hlayout, hiff.mpr (h hfacet hbound)⟩

/-- In a tree that is drawn, the names are spelled just if those that come up stand for
themselves. -/
theorem namesSpelled_iff (hv : t.assemble pipeline = .ok v)
    (hb : View.Fits (fun s _ => s.Built whole) [] t.root)
    (hnames : (t.root.nodes.map Node.name).Nodup) : v.NamesSpelled σ t ↔ t.NamesBare σ := by
  constructor
  · rintro ⟨hsizes, hgrids⟩
    constructor
    case holders =>
      intro s hs hunit d n hn hstep
      obtain ⟨inner, outer, step, hg⟩ := exists_bandspace_of_step hv hb hnames hs hunit hstep
      obtain ⟨r, hr, -, e, hname, hstring⟩ := hsizes _ hg _ inner outer step rfl
      -- no other unit has a size of that name
      obtain ⟨rfl, rfl⟩ := eq_of_sizeName hnames hs hr hname
      exact (Site.bandspace_spelled_iff hn inner outer step).mp hstring
    case facets =>
      intro s hs hfacet
      exact (grids_spelled_iff hv hb).mp hgrids s
        (View.facets_subset_groupRoots hb (List.mem_filter.mpr ⟨hs, hfacet⟩)) hfacet
  · rintro ⟨hholders, hfacets⟩
    constructor
    case sizes =>
      intro g hg name inner outer step hupdate
      obtain ⟨s, hs, hunit, d, n, hname, rfl, hn, hstep⟩ :=
        exists_unit_of_bandspace hv hb hg hupdate
      exact ⟨s, hs, hunit, d, hname,
        (Site.bandspace_spelled_iff hn inner outer step).mpr (hholders s hs hunit d n hn hstep)⟩
    case grids =>
      exact (grids_spelled_iff hv hb).mpr
        (fun s hs => hfacets s (View.mem_sites_of_mem_groupRoots hb hs))

/-- Where all names that are given stand for themselves, so do those of all nodes at any time. -/
theorem namesBare_of_build {spec : Spec} {config : Config} {ds : List Diagnostic}
    (h : Tree.build spec config = .ok (t, ds)) (hbare : spec.NamesBare σ) (phases : List Phase) :
    (t.runPhases pipeline phases).tree.NamesBare σ := by
  have hnodes : ∀ n ∈ (t.runPhases pipeline phases).tree.root.nodes, σ.AllBare n.name := by
    intro n hn
    have hname := List.mem_map_of_mem (f := Node.name) hn
    rw [runPhases_nodeNames] at hname
    obtain ⟨m, hm, hsame⟩ := List.mem_map.mp hname
    rw [← hsame]
    exact allBare_name_of_build h hbare hm
  constructor
  case holders =>
    intro s hs _ d n hn _
    apply hnodes
    exact View.mem_nodes_iff.mpr
      (View.exists_site_of_lineage hs (List.mem_of_find?_eq_some hn))
  case facets => exact fun s hs _ _ => hnodes _ (View.mem_nodes_iff.mpr ⟨s, hs, rfl⟩)

end Tree

/-- Columns with a name of their own, around bars. -/
def Spec.columnsOfBars (name : String) : Spec :=
  .facet ⟨⟨some name, none, none, none⟩, .ofList [(.column, nominal "a")], .empty⟩
    (.unit ⟨⟨none, none, none, none⟩, ⟨none, none⟩, ⟨.bar, none⟩,
      .ofList [(.x, .field (nominal "b"))], .empty⟩)

namespace Compiler

variable {compiler : Compiler} {spec : Spec} {compiled : Compiled} {t : Tree} {ds : List Diagnostic}

/-- In whatever compiles, the names in sizes and grids are strings that hold the names of the scales
and datasets just if no node that holds a scale with a step for a unit, and no facet with columns, has
a name with a quote, a backslash or anything else that does not stand for itself. That is so if all
names in the specification stand for themselves. -/
theorem names_spelled_iff (σ : StringSyntax) (h : compiler.compile spec = .ok compiled)
    (hb : compiler.build spec = .ok (t, ds)) :
    (compiled.visualization.NamesSpelled σ (t.parse compiler.pipeline).tree ↔
      (t.parse compiler.pipeline).tree.NamesBare σ) ∧
    (spec.NamesBare σ →
      compiled.visualization.NamesSpelled σ (t.parse compiler.pipeline).tree) := by
  obtain ⟨built, ds', hb', -, hassemble, -⟩ := compile_ok h
  obtain ⟨rfl, rfl⟩ : t = built ∧ ds = ds' := Prod.mk.inj (Except.ok.inj (hb.symm.trans hb'))
  rw [Tree.parse_of_build hb]
  have hiff : compiled.visualization.NamesSpelled σ (t.runPhases compiler.pipeline Phase.all).tree ↔
      (t.runPhases compiler.pipeline Phase.all).tree.NamesBare σ :=
    Tree.namesSpelled_iff hassemble (Tree.built_of_build hb compiler.pipeline Phase.all)
      (Tree.runPhases_names hb compiler.pipeline Phase.all)
  exact ⟨hiff, fun hbare => hiff.mpr (Tree.namesBare_of_build hb hbare Phase.all)⟩

/-- With a plain name for the columns, the size of the bars and the grid are right. -/
theorem names_spelled_columnsOfBars : ∃ compiled t ds,
    standard.compile (.columnsOfBars "sales") = .ok compiled ∧
      standard.build (.columnsOfBars "sales") = .ok (t, ds) ∧
        (compiled.visualization.allSignals.any (fun g => g.update.any Expression.inSteps) &&
          compiled.visualization.groups.any (fun g => g.columnCount?.isSome)) = true ∧
        compiled.visualization.NamesSpelled .lettered (t.parse standard.pipeline).tree := by
  have hnamed : (standard.compile (.columnsOfBars "sales")).toOption.any (fun compiled =>
      compiled.visualization.allSignals.any (fun g => g.update.any Expression.inSteps) &&
        compiled.visualization.groups.any (fun g => g.columnCount?.isSome)) = true := by
    decide +kernel
  have hbuilds : (standard.build (.columnsOfBars "sales")).toOption.isSome = true := by
    decide +kernel
  have hbare : (Spec.columnsOfBars "sales").NamesBare .lettered := by decide +kernel
  obtain ⟨compiled, hc, hnamed⟩ := exists_ok_of_any hnamed
  obtain ⟨⟨t, ds⟩, hb⟩ := exists_ok_of_isSome hbuilds
  exact ⟨compiled, t, ds, hc, hb, hnamed, (names_spelled_iff .lettered hc hb).2 hbare⟩

/-- A quote in the name of the columns ends the strings, whatever the language. -/
theorem names_not_spelled : ¬ ∀ (σ : StringSyntax) (compiler : Compiler) spec compiled t ds,
    compiler.compile spec = .ok compiled → compiler.build spec = .ok (t, ds) →
      compiled.visualization.NamesSpelled σ (t.parse compiler.pipeline).tree := by
  intro hall
  have hcompiles : (standard.compile (.columnsOfBars "it's")).toOption.isSome = true := by
    decide +kernel
  have hquoted : (standard.build (.columnsOfBars "it's")).toOption.any (fun r =>
      ((r.1.runPhases .standard Phase.all).tree.root.sites []).any (fun s => s.node.isFacet &&
        (s.node.fieldDef? .column).isSome && decide ('\'' ∈ s.node.name.toList))) = true := by
    decide +kernel
  obtain ⟨compiled, hc⟩ := exists_ok_of_isSome hcompiles
  obtain ⟨⟨t, ds⟩, hb, hquoted⟩ := exists_ok_of_any hquoted
  obtain ⟨s, hs, hquoted⟩ := List.any_eq_true.mp hquoted
  obtain ⟨hfacet, hquote⟩ := Bool.and_eq_true_iff.mp hquoted
  obtain ⟨hfacet, hbound⟩ := Bool.and_eq_true_iff.mp hfacet
  obtain ⟨built, ds', hb', -, hassemble, -⟩ := compile_ok hc
  obtain ⟨rfl, rfl⟩ : t = built ∧ ds = ds' := Prod.mk.inj (Except.ok.inj (hb.symm.trans hb'))
  have hspelled := hall .lettered standard _ compiled t ds hc hb
  rw [Tree.parse_of_build hb, Tree.namesSpelled_iff hassemble
    (Tree.built_of_build hb .standard Phase.all) (Tree.runPhases_names hb .standard Phase.all)]
    at hspelled
  have hbare := hspelled.facets s hs hfacet hbound '\'' (of_decide_eq_true hquote)
  exact absurd hbare.1 (by decide)

end Compiler
end Trellis

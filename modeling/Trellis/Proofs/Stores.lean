import Trellis.Proofs.Aliases
import Trellis.Proofs.Identifiers

/-! The stores of selections. Each selection has one, which one of its signals changes and one
signal at the top reads. A store is named by its selection as an identifier, so two selections get
the same one just where their names are the same identifier. -/
namespace Trellis

/-- The stores that an expression changes. -/
def Expression.changes : Expression → List String
  | modify store _ => [store]
  | modifyOrToggle store _ _ => [store]
  | _ => []

/-- The datasets that an expression reads. -/
def Expression.reads : Expression → List String
  | data name => [name]
  | _ => []

def Signal.changes (s : Signal) : List String := s.expressions.flatMap Expression.changes

def Signal.reads (s : Signal) : List String := s.expressions.flatMap Expression.reads

/-- Each store has a name of its own, and there is one signal in all that changes it and one at the
top that reads it. -/
structure Visualization.StoresOwned (v : Visualization) (stores : List String) : Prop where
  distinct : stores.Nodup
  changed : ∀ store ∈ stores, v.allSignals.countP (fun s => store ∈ s.changes) = 1
  read : ∀ store ∈ stores, (v.signals ++ v.group.signals).countP (fun s => store ∈ s.reads) = 1

/-- Where nothing occurs twice in any of the lists, what occurs is in one of them. -/
theorem countP_mem_of_nodup_flatMap {α β : Type} [DecidableEq β] {f : α → List β} {xs : List α}
    (h : (xs.flatMap f).Nodup) {b : β} (hb : b ∈ xs.flatMap f) :
    xs.countP (fun x => b ∈ f x) = 1 := by
  induction xs with
  | nil => exact absurd hb List.not_mem_nil
  | cons x rest ih =>
    rw [List.flatMap_cons] at h hb
    obtain ⟨-, hrest, hdisjoint⟩ := List.nodup_append'.mp h
    by_cases hx : b ∈ f x
    · have hnone : rest.countP (fun x => b ∈ f x) = 0 := by
        rw [List.countP_eq_zero]
        intro y hy hby
        exact hdisjoint hx (List.mem_flatMap.mpr ⟨y, hy, of_decide_eq_true hby⟩)
      rw [List.countP_cons, hnone, if_pos (decide_eq_true hx)]
    · have hlater : b ∈ rest.flatMap f := (List.mem_append.mp hb).resolve_left hx
      rw [List.countP_cons, ih hrest hlater, if_neg (fun hbx => hx (of_decide_eq_true hbx))]

/-- If each store is changed and read just once, all that matters is that their names differ. -/
theorem Visualization.storesOwned_iff {v : Visualization} {stores : List String}
    (hchanges : (v.allSignals.flatMap Signal.changes).Perm stores)
    (hreads : ((v.signals ++ v.group.signals).flatMap Signal.reads).Perm stores) :
    v.StoresOwned stores ↔ stores.Nodup := by
  refine ⟨StoresOwned.distinct, ?_⟩
  intro h
  refine ⟨h, ?_, ?_⟩
  · intro store hstore
    exact countP_mem_of_nodup_flatMap (hchanges.nodup_iff.mpr h) (hchanges.mem_iff.mpr hstore)
  · intro store hstore
    exact countP_mem_of_nodup_flatMap (hreads.nodup_iff.mpr h) (hreads.mem_iff.mpr hstore)

namespace Selection

/-- The name of a selection's store. -/
def store (x : Selection) : String := Naming.store x.name

/-- Among its signals one changes the store of a selection, and none reads it. -/
theorem signals_stores (x : Selection) (s : Site) :
    (x.signals s).flatMap Signal.changes = [x.store] ∧
      (x.signals s).flatMap Signal.reads = [] := by
  cases hx : x.type with
  | interval =>
    unfold signals
    rw [hx]
    dsimp only
    unfold intervalSignals
    dsimp only
    rw [List.flatMap_append, List.flatMap_append, List.flatMap_assoc, List.flatMap_assoc]
    -- the signals of brushed fields neither change nor read a store
    constructor
    · exact congrArg₂ List.append (List.flatMap_eq_nil_iff.mpr (fun _ _ => rfl)) rfl
    · exact congrArg₂ List.append (List.flatMap_eq_nil_iff.mpr (fun _ _ => rfl)) rfl
  | multi =>
    unfold signals pointSignals
    rw [hx]
    exact ⟨rfl, rfl⟩
  | single =>
    unfold signals pointSignals
    rw [hx]
    exact ⟨rfl, rfl⟩

end Selection

theorem Naming.store_injective : Function.Injective Naming.store := by
  intro a b h
  have hchars : a.toList ++ "_store".toList = b.toList ++ "_store".toList := by
    rw [← String.toList_append, ← String.toList_append]
    exact congrArg String.toList h
  exact String.toList_inj.mp (List.append_cancel_right hchars)

/-! ### Signals of a tree -/

section

variable {γ : Type} {f : Signal → List γ} {own : Selection → List γ} {pipeline : Pipeline}
  {whole : Spec}

/-- What is read off the signals of a group is read off the selections that its nodes declare. -/
theorem Site.unitSignals_flatMap (hown : ∀ x s, (Selection.signals x s).flatMap f = own x)
    {s : Site} (hg : View.Fits Gathered s.ancestors s.view) : s.unitSignals.flatMap f =
      s.groupMembers.flatMap (fun m => m.node.declared.values.flatMap own) := by
  rw [View.unitSignals_eq hg, List.flatMap_assoc, flatMap_filter_of_nil]
  · unfold groupMembers
    simp only [List.flatMap_assoc, hown]
  · intro m _ hno
    rw [Node.declared_of_not_unit hno]
    rfl

/-- What is read off the signals of all groups is read off the declared selections, once each. -/
theorem Tree.groupSignals_flatMap_perm (hown : ∀ x s, (Selection.signals x s).flatMap f = own x)
    {t : Tree} {v : Visualization} (h : t.assemble pipeline = .ok v)
    (hb : View.Fits (fun s _ => s.Built whole) [] t.root) (hg : View.Fits Gathered [] t.root) :
    (v.groups.flatMap (fun g => g.signals.flatMap f)).Perm (t.root.declared.flatMap own) := by
  have hgroups : (v.groups.flatMap (fun g => g.signals.flatMap f)).Perm
      (t.rootSite.preOrder.flatMap (fun s => s.node.declared.values.flatMap own)) := by
    refine groups_flatMap_perm h hb ?_
    intro s hs g hdrawn
    obtain ⟨ms, -, rfl⟩ := Site.group_eq_ok.mp hdrawn
    have hmem : s ∈ t.root.sites [] := View.mem_sites_of_mem_groupRoots hb hs
    have hsite : View.Fits Gathered s.ancestors s.view :=
      fun m hm => hg m (View.mem_sites_trans hmem hm)
    exact List.Perm.of_eq (Site.unitSignals_flatMap hown hsite)
  have hnodes : t.root.declared.flatMap own =
      t.rootSite.preOrder.flatMap (fun s => s.node.declared.values.flatMap own) := by
    rw [View.declared, List.flatMap_assoc, ← View.sites_map_node [], List.flatMap_map]
    rfl
  rw [hnodes]
  exact hgroups

end

namespace Tree

variable {t : Tree} {pipeline : Pipeline} {whole : Spec} {v : Visualization}

/-- The names of the stores at the root. -/
def stores (t : Tree) : List String := t.rootSite.selectionStores.map Dataset.name

theorem stores_eq (t : Tree) : t.stores = t.rootSite.selections.map Selection.store := by
  unfold stores Site.selectionStores
  rw [List.map_map]
  rfl

/-- Of the signals before those of units none changes a store, and each store has its value read by
one. -/
theorem topSignals_stores (t : Tree) :
    (t.rootSite.sizeSignals t.config ++ t.rootSite.topSignals).flatMap Signal.changes = [] ∧
      (t.rootSite.sizeSignals t.config ++ t.rootSite.topSignals).flatMap Signal.reads =
        t.stores := by
  have hsize : ∀ s ∈ t.rootSite.sizeSignals t.config, s.changes = [] ∧ s.reads = [] := by
    intro s hs
    obtain ⟨name, size, rfl, hsize⟩ := View.sizeSignals_computed s hs
    cases size with
    | bandspace scale inner outer step => exact ⟨rfl, rfl⟩
    | size value => exact ⟨rfl, rfl⟩
    | largest signals => exact ⟨rfl, rfl⟩
    | _ => exact absurd hsize Bool.false_ne_true
  let pointed : Signal := .reactive Naming.unitSignal (some (.obj []))
    [⟨.events "mousemove", .pointedGroup, false⟩]
  have hvalues {f : Signal → List String} (hsizes : ∀ s ∈ t.rootSite.sizeSignals t.config, f s = [])
      (hpointed : f pointed = []) :
      (t.rootSite.sizeSignals t.config ++ t.rootSite.topSignals).flatMap f =
        t.rootSite.selections.flatMap (fun x => f (.computed x.name (.data x.store))) := by
    rw [List.flatMap_append, List.flatMap_eq_nil_iff.mpr hsizes, List.nil_append, Site.topSignals,
      List.flatMap_append, List.flatMap_map]
    cases t.rootSite.selections.any (fun x => x.type = .interval) with
    | true =>
      rw [if_pos rfl, List.flatMap_singleton, hpointed]
      rfl
    | false => rfl
  constructor
  · rw [hvalues (fun s hs => (hsize s hs).1) rfl]
    exact List.flatMap_eq_nil_iff.mpr (fun _ _ => rfl)
  · rw [hvalues (fun s hs => (hsize s hs).2) rfl, stores_eq, List.map_eq_flatMap]
    rfl

/-- Each declared selection has its store changed once, and the stores at the root are read once. -/
theorem storesOwned_iff (h : t.assemble pipeline = .ok v)
    (hb : View.Fits (fun s _ => s.Built whole) [] t.root) (hg : View.Fits Gathered [] t.root)
    (hkeys : t.root.selectionKeys.Nodup) : v.StoresOwned t.stores ↔ t.stores.Nodup := by
  obtain ⟨data, ms, -, -, -, hsignals, hgroup⟩ := assemble_ok h
  obtain ⟨htopChanges, htopReads⟩ := t.topSignals_stores
  apply Visualization.storesOwned_iff
  · have hgroups := groupSignals_flatMap_perm (fun x s => (x.signals_stores s).1) h hb hg
    have hdeclared : t.root.declared.flatMap (fun x => [x.store]) =
        t.root.declared.map Selection.store := List.map_eq_flatMap.symm
    have hknown : t.rootSite.selections.Perm t.root.declared := hg.self.selections_perm hkeys
    rw [Visualization.allSignals, List.flatMap_append, hsignals, htopChanges, List.nil_append,
      List.flatMap_assoc, stores_eq]
    exact hgroups.trans ((List.Perm.of_eq hdeclared).trans (hknown.map Selection.store).symm)
  · have hroot : v.group.signals.flatMap Signal.reads = [] := by
      have hunits := Site.unitSignals_flatMap (fun x s => (x.signals_stores s).2)
        (s := t.rootSite) hg
      rw [hgroup]
      refine hunits.trans (List.flatMap_eq_nil_iff.mpr ?_)
      exact fun m _ => List.flatMap_eq_nil_iff.mpr (fun _ _ => rfl)
    rw [List.flatMap_append, hsignals, htopReads, hroot, List.append_nil]

/-- Where no name is declared twice, there is one store for each declaration. -/
theorem stores_perm (hg : View.Fits Gathered [] t.root) (hkeys : t.root.selectionKeys.Nodup) :
    t.stores.Perm
      (t.root.selectionKeys.map (fun key => Naming.store (Naming.identifierText key))) := by
  have hknown : t.rootSite.selections.Perm t.root.declared := hg.self.selections_perm hkeys
  have hnames := (View.declared_names t.root).map Naming.store
  rw [List.map_map, List.map_map] at hnames
  rw [stores_eq]
  exact (hknown.map Selection.store).trans hnames

end Tree

namespace Compiler

variable {compiler : Compiler} {spec : Spec} {compiled : Compiled} {t : Tree} {ds : List Diagnostic}

/-- Where no two selections are declared under one name, the visualization has after the data of its
views one store for each. The stores have names of their own, and each is changed by one signal and
read by one at the top, just where the names differ as identifiers too. -/
theorem stores_owned_iff (h : compiler.compile spec = .ok compiled)
    (hb : compiler.build spec = .ok (t, ds)) (hkeys : t.root.selectionKeys.Nodup) :
    ∃ data, (t.parse compiler.pipeline).tree.rootSite.rootData compiler.pipeline = .ok data ∧
      compiled.visualization.data =
        data ++ (t.parse compiler.pipeline).tree.rootSite.selectionStores ∧
      (t.parse compiler.pipeline).tree.stores.Perm
        (t.root.selectionKeys.map (fun key => Naming.store (Naming.identifierText key))) ∧
      (compiled.visualization.StoresOwned (t.parse compiler.pipeline).tree.stores ↔
        (t.root.selectionKeys.map Naming.identifierText).Nodup) := by
  obtain ⟨built, ds', hb', -, hassemble, -⟩ := compile_ok h
  obtain ⟨rfl, rfl⟩ : t = built ∧ ds = ds' := Prod.mk.inj (Except.ok.inj (hb.symm.trans hb'))
  rw [Tree.parse_of_build hb]
  have hbuilt := Tree.built_of_build hb compiler.pipeline Phase.all
  have hgathered := Tree.gathered_of_build hb compiler.pipeline
  have hsame := Tree.runPhases_selectionKeys compiler.pipeline Phase.all t
  have hfinal := hsame.symm ▸ hkeys
  have hstores := Tree.stores_perm hgathered hfinal
  rw [hsame] at hstores
  obtain ⟨data, ms, hdata, -, hview, -, -⟩ := Tree.assemble_ok hassemble
  refine ⟨data, hdata, hview, hstores, ?_⟩
  rw [Tree.storesOwned_iff hassemble hbuilt hgathered hfinal, hstores.nodup_iff]
  have hmap : t.root.selectionKeys.map (fun key => Naming.store (Naming.identifierText key)) =
      (t.root.selectionKeys.map Naming.identifierText).map Naming.store := by
    rw [List.map_map]
    rfl
  rw [hmap, List.nodup_map_iff Naming.store_injective]

/-- Two selections with different names have a store each. -/
theorem stores_owned_layeredPicks : ∃ compiled t ds,
    standard.compile (.layeredPicks "pick" "choice") = .ok compiled ∧
      standard.build (.layeredPicks "pick" "choice") = .ok (t, ds) ∧
        t.root.selectionKeys.Nodup ∧
          (t.root.selectionKeys.map Naming.identifierText).Nodup ∧
            compiled.visualization.StoresOwned (t.parse standard.pipeline).tree.stores := by
  have hbuilds : (standard.build (.layeredPicks "pick" "choice")).toOption.any (fun r =>
      decide (r.1.root.selectionKeys.Nodup ∧
        (r.1.root.selectionKeys.map Naming.identifierText).Nodup)) = true := by
    decide +kernel
  have hcompiles : (standard.compile (.layeredPicks "pick" "choice")).toOption.any
      (fun _ => true) = true := by
    decide +kernel
  obtain ⟨⟨t, ds⟩, hb, happlies⟩ := exists_ok_of_any hbuilds
  obtain ⟨compiled, hc, -⟩ := exists_ok_of_any hcompiles
  obtain ⟨hkeys, hnames⟩ := of_decide_eq_true happlies
  obtain ⟨data, -, -, -, howned⟩ := stores_owned_iff hc hb hkeys
  exact ⟨compiled, t, ds, hc, hb, hkeys, hnames, howned.mpr hnames⟩

/-- Two selections whose names are the same identifier get the same store. -/
theorem stores_shared : ¬ ∀ (compiler : Compiler) spec compiled t ds,
    compiler.compile spec = .ok compiled → compiler.build spec = .ok (t, ds) →
      t.root.selectionKeys.Nodup →
        compiled.visualization.StoresOwned (t.parse compiler.pipeline).tree.stores := by
  intro hall
  have hbuilds : (standard.build (.layeredPicks "a b" "a_b")).toOption.any (fun r =>
      decide (r.1.root.selectionKeys.Nodup ∧
        (r.1.parse standard.pipeline).tree.stores = ["a_b_store", "a_b_store"])) = true := by
    decide +kernel
  have hcompiles : (standard.compile (.layeredPicks "a b" "a_b")).toOption.any
      (fun _ => true) = true := by
    decide +kernel
  obtain ⟨⟨t, ds⟩, hb, happlies⟩ := exists_ok_of_any hbuilds
  obtain ⟨compiled, hc, -⟩ := exists_ok_of_any hcompiles
  obtain ⟨hkeys, hstores⟩ := of_decide_eq_true happlies
  obtain ⟨hdistinct, -, -⟩ := hall standard _ compiled t ds hc hb hkeys
  rw [hstores] at hdistinct
  exact absurd hdistinct (by decide)

end Compiler
end Trellis

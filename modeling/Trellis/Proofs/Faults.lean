import Mathlib.Data.List.Basic
import Trellis.Proofs.Names
import Trellis.View.Build

/-! Which specifications have a view tree, and what the building of the others fails with. -/
namespace Trellis

/-! ### Results of fallible steps -/

theorem bind_eq_ok {ε α β : Type} {x : Except ε α} {f : α → Except ε β} {b : β} :
    (x >>= f) = .ok b ↔ ∃ a, x = .ok a ∧ f a = .ok b := by
  cases x with
  | error e => simp [bind, Except.bind]
  | ok a => simp [bind, Except.bind]

theorem mapError_eq_ok {ε δ α : Type} {f : ε → δ} {x : Except ε α} {a : α} :
    x.mapError f = .ok a ↔ x = .ok a := by
  cases x with
  | error e => simp [Except.mapError]
  | ok a => simp [Except.mapError]

theorem toOption_eq_some {ε α : Type} {x : Except ε α} {a : α} :
    x.toOption = some a ↔ x = .ok a := by
  cases x with
  | error e => simp [Except.toOption]
  | ok a => simp [Except.toOption]

/-- What a step was refused for, if it was. -/
def refusal? {ε α : Type} : Except ε α → Option ε
  | .ok _ => none
  | .error e => some e

/-- Of a result that passes a test there is one. -/
theorem exists_ok_of_any {ε α : Type} {x : Except ε α} {test : α → Bool}
    (h : x.toOption.any test = true) : ∃ a, x = .ok a ∧ test a = true := by
  cases x with
  | error e => exact absurd h Bool.false_ne_true
  | ok a => exact ⟨a, rfl, h⟩

theorem exists_ok_of_isSome {ε α : Type} {x : Except ε α} (h : x.toOption.isSome = true) :
    ∃ a, x = .ok a := by
  cases x with
  | error e => exact absurd h Bool.false_ne_true
  | ok a => exact ⟨a, rfl⟩

namespace Spec

mutual

@[elab_as_elim]
theorem induct {P : Spec → Prop} (unit : ∀ s, P (.unit s))
    (layer : ∀ s children, (∀ c ∈ children, P c) → P (.layer s children))
    (facet : ∀ s child, P child → P (.facet s child)) : ∀ s, P s
  | .unit s => unit s
  | .layer s children => layer s children (inductIn unit layer facet children)
  | .facet s child => facet s child (induct unit layer facet child)

theorem inductIn {P : Spec → Prop} (unit : ∀ s, P (.unit s))
    (layer : ∀ s children, (∀ c ∈ children, P c) → P (.layer s children))
    (facet : ∀ s child, P child → P (.facet s child)) : ∀ ss : List Spec, ∀ c ∈ ss, P c
  | [], _, hc => absurd hc List.not_mem_nil
  | s :: rest, c, hc =>
    (List.mem_cons.mp hc).elim (fun he => he ▸ induct unit layer facet s)
      (fun hr => inductIn unit layer facet rest c hr)

end

mutual

/-- The specification and all within it, parents before children. -/
def parts : Spec → List Spec
  | .unit s => [.unit s]
  | .layer s children => .layer s children :: partsIn children
  | .facet s child => .facet s child :: child.parts

def partsIn : List Spec → List Spec
  | [] => []
  | s :: rest => s.parts ++ partsIn rest

end

/-- No layer is without views under it, and no facet stands directly in a layer. -/
def WellFormed (s : Spec) : Prop :=
  ∀ l children, .layer l children ∈ s.parts →
    children ≠ [] ∧ ∀ f child, .facet f child ∉ children

end Spec

/-- A view of a specification as building meets it, under the name its node gets. -/
structure Occurrence where
  name : String
  /-- The view stands directly in a layer. -/
  inLayer : Bool
  spec : Spec

namespace Occurrence

/-- What is wrong with a view itself, whatever is under it. -/
def fault? (o : Occurrence) : Option StructureError :=
  match o.spec with
  | .unit _ => none
  | .layer _ children => if children.isEmpty then some (.emptyLayer o.name) else none
  | .facet _ _ => if o.inLayer then some (.facetInLayer o.name) else none

theorem fault?_layer (name : String) (inLayer : Bool) (l : LayerSpec) (children : List Spec) :
    fault? ⟨name, inLayer, .layer l children⟩ =
      if children.isEmpty then some (.emptyLayer name) else none := rfl

theorem fault?_facet (name : String) (inLayer : Bool) (f : FacetSpec) (child : Spec) :
    fault? ⟨name, inLayer, .facet f child⟩ =
      if inLayer then some (.facetInLayer name) else none := rfl

theorem fault?_eq_some {o : Occurrence} {e : StructureError} (h : o.fault? = some e) :
    e = .emptyLayer o.name ∨ e = .facetInLayer o.name := by
  unfold fault? at h
  split at h
  · exact absurd h (by simp)
  · split at h
    · exact .inl (Option.some.inj h).symm
    · exact absurd h (by simp)
  · split at h
    · exact .inr (Option.some.inj h).symm
    · exact absurd h (by simp)

end Occurrence

namespace Spec

/-- The name of a node that comes after those with the names taken. -/
def nodeName (taken : List String) (wanted : String) : String :=
  View.freshName taken taken.length taken.length wanted

mutual

/-- The views of a specification in the order they are met, parents before children, with their
names. -/
def occurrences (inLayer : Bool) (taken : List String) (given : String) : Spec → List Occurrence
  | .unit s => [⟨nodeName taken (s.props.name.getD given), inLayer, .unit s⟩]
  | .layer s children =>
    let name := nodeName taken (s.props.name.getD given)
    ⟨name, inLayer, .layer s children⟩ :: occurrencesIn (taken ++ [name]) name 0 children
  | .facet s child =>
    let name := nodeName taken (s.props.name.getD given)
    ⟨name, inLayer, .facet s child⟩ ::
      child.occurrences false (taken ++ [name]) (Naming.qualify name Naming.facetChild)

def occurrencesIn (taken : List String) (layer : String) (i : Nat) : List Spec → List Occurrence
  | [] => []
  | s :: rest =>
    let first := s.occurrences true taken (Naming.qualify layer (Naming.layerChild i))
    first ++ occurrencesIn (taken ++ first.map Occurrence.name) layer (i + 1) rest

end

/-- All views of a specification in the order they are met. -/
def views (s : Spec) : List Occurrence := s.occurrences false [] ""

/-- What the first view that is at fault is refused for. -/
def firstFault? (s : Spec) : Option StructureError := s.views.findSome? Occurrence.fault?

theorem mem_partsIn {ss : List Spec} {t : Spec} : t ∈ partsIn ss ↔ ∃ s ∈ ss, t ∈ s.parts := by
  induction ss with
  | nil => simp [partsIn]
  | cons s rest ih =>
    rw [partsIn, List.mem_append, ih, List.exists_mem_cons_iff]

/-- Views are met in the order of the parts of the specification. -/
theorem occurrences_map_spec (inLayer : Bool) (taken : List String) (given : String) (s : Spec) :
    (s.occurrences inLayer taken given).map Occurrence.spec = s.parts := by
  induction s using induct generalizing inLayer taken given with
  | unit s => rfl
  | layer s children ih =>
    -- names are different for views side by side, their specifications are not
    have hin (ss : List Spec) (h : ∀ c ∈ ss, c ∈ children) (taken : List String) (layer : String)
        (i : Nat) : (occurrencesIn taken layer i ss).map Occurrence.spec = partsIn ss := by
      induction ss generalizing taken i with
      | nil => rfl
      | cons c rest ihrest =>
        obtain ⟨hc, hrest⟩ := List.forall_mem_cons.mp h
        rw [occurrencesIn, List.map_append, ih c hc, ihrest hrest, partsIn]
    rw [occurrences, parts, List.map_cons, hin children (fun _ hc => hc)]
  | facet s child ih => rw [occurrences, parts, List.map_cons, ih]

theorem occurrencesIn_fault_free {P : Spec → Prop} {ss : List Spec}
    (h : ∀ s ∈ ss, ∀ taken given,
      (∀ o ∈ s.occurrences true taken given, o.fault? = none) ↔ P s)
    (taken : List String) (layer : String) (i : Nat) :
    (∀ o ∈ occurrencesIn taken layer i ss, o.fault? = none) ↔ ∀ s ∈ ss, P s := by
  induction ss generalizing taken i with
  | nil => simp [occurrencesIn]
  | cons s rest ih =>
    rw [occurrencesIn, List.forall_mem_append, List.forall_mem_cons, h s List.mem_cons_self,
      ih (fun t ht => h t (List.mem_cons_of_mem _ ht))]

/-- A part of a layer is the layer itself or a part of a view under it. -/
theorem wellFormed_layer_iff (l : LayerSpec) (children : List Spec) :
    (Spec.layer l children).WellFormed ↔
      (children ≠ [] ∧ ∀ f child, .facet f child ∉ children) ∧ ∀ c ∈ children, c.WellFormed := by
  unfold WellFormed
  rw [parts]
  constructor
  · intro h
    refine ⟨h l children List.mem_cons_self, ?_⟩
    intro c hc k ds hk
    exact h k ds (List.mem_cons_of_mem _ (mem_partsIn.mpr ⟨c, hc, hk⟩))
  · rintro ⟨hself, hin⟩ k ds hk
    rcases List.mem_cons.mp hk with he | hk
    · obtain ⟨rfl, rfl⟩ := Spec.layer.inj he
      exact hself
    · obtain ⟨c, hc, hk⟩ := mem_partsIn.mp hk
      exact hin c hc k ds hk

theorem wellFormed_facet_iff (f : FacetSpec) (child : Spec) :
    (Spec.facet f child).WellFormed ↔ child.WellFormed := by
  unfold WellFormed
  rw [parts]
  constructor
  · intro h k ds hk
    exact h k ds (List.mem_cons_of_mem _ hk)
  · intro h k ds hk
    rcases List.mem_cons.mp hk with he | hk
    · exact absurd he (by simp)
    · exact h k ds hk

theorem fault_free_iff (s : Spec) (inLayer : Bool) (taken : List String) (given : String) :
    (∀ o ∈ s.occurrences inLayer taken given, o.fault? = none) ↔
      s.WellFormed ∧ (inLayer = true → ∀ f child, s ≠ .facet f child) := by
  induction s using induct generalizing inLayer taken given with
  | unit s =>
    rw [occurrences, List.forall_mem_singleton]
    constructor
    · intro _
      refine ⟨?_, by simp⟩
      intro k ds hk
      rw [parts, List.mem_singleton] at hk
      exact absurd hk (by simp)
    · intro _
      rfl
  | layer s children ih =>
    -- whether a facet may stand here is what the layer around it decides, so the induction is for
    -- views in a layer and elsewhere
    have hcs : ∀ c ∈ children, ∀ taken given,
        (∀ o ∈ c.occurrences true taken given, o.fault? = none) ↔
          c.WellFormed ∧ ∀ f child, c ≠ .facet f child := by
      intro c hc taken given
      rw [ih c hc]
      simp
    have hin := occurrencesIn_fault_free hcs
    rw [occurrences, List.forall_mem_cons, hin, wellFormed_layer_iff]
    have hself (name : String) : Occurrence.fault? ⟨name, inLayer, .layer s children⟩ = none ↔
        children ≠ [] := by
      rw [Occurrence.fault?_layer]
      cases children <;> simp
    rw [hself]
    constructor
    · rintro ⟨hne, hcs⟩
      refine ⟨⟨⟨hne, ?_⟩, fun c hc => (hcs c hc).1⟩, by simp⟩
      intro f child hm
      exact (hcs _ hm).2 f child rfl
    · rintro ⟨⟨⟨hne, hno⟩, hcs⟩, -⟩
      refine ⟨hne, fun c hc => ⟨hcs c hc, ?_⟩⟩
      intro f child he
      exact hno f child (he ▸ hc)
  | facet s child ih =>
    rw [occurrences, List.forall_mem_cons, ih, wellFormed_facet_iff]
    have hself (name : String) : Occurrence.fault? ⟨name, inLayer, .facet s child⟩ = none ↔
        inLayer = false := by
      rw [Occurrence.fault?_facet]
      cases inLayer <;> simp
    rw [hself]
    cases inLayer <;> simp

theorem firstFault?_eq_none_iff (s : Spec) : s.firstFault? = none ↔ s.WellFormed := by
  rw [firstFault?, List.findSome?_eq_none_iff, views, fault_free_iff]
  simp

end Spec

namespace View

/-- A step of building ends as the views it meets ask for: it fails for the first fault, or takes
their names. -/
def Follows {α : Type} (taken : List String) (met : List Occurrence)
    (r : Except StructureError (α × Progress)) : Prop :=
  match met.findSome? Occurrence.fault? with
  | some e => r = .error e
  | none => ∃ a p, r = .ok (a, p) ∧ p.names = taken ++ met.map Occurrence.name

theorem Follows.bind {α β : Type} {taken : List String} {met more : List Occurrence}
    {r : Except StructureError (α × Progress)}
    {k : α × Progress → Except StructureError (β × Progress)} (h : Follows taken met r)
    (hk : ∀ a p, p.names = taken ++ met.map Occurrence.name → Follows p.names more (k (a, p))) :
    Follows taken (met ++ more) (r >>= k) := by
  unfold Follows at h ⊢
  rw [List.findSome?_append]
  -- the first fault is the first of the views met so far, or else of those met after them
  cases hf : met.findSome? Occurrence.fault? with
  | some e =>
    rw [hf] at h
    dsimp only at h
    rw [h]
    rfl
  | none =>
    rw [hf] at h
    obtain ⟨a, p, rfl, hp⟩ := h
    have hr := hk a p hp
    unfold Follows at hr
    rw [hp, List.append_assoc, ← List.map_append] at hr
    exact hr

theorem Follows.cons {α : Type} {taken : List String} {o : Occurrence} {more : List Occurrence}
    {r : Except StructureError (α × Progress)} (ho : o.fault? = none)
    (h : Follows (taken ++ [o.name]) more r) : Follows taken (o :: more) r := by
  unfold Follows at h ⊢
  rw [List.findSome?_cons, ho]
  rw [List.append_assoc] at h
  exact h

theorem Follows.refused {α : Type} {taken : List String} {o : Occurrence} {more : List Occurrence}
    {e : StructureError} (ho : o.fault? = some e) :
    Follows taken (o :: more) (.error e : Except StructureError (α × Progress)) := by
  unfold Follows
  rw [List.findSome?_cons, ho]

theorem placeAll_follows {config : Config} {A : List Node} {ss : List Spec}
    (h : ∀ s ∈ ss, ∀ given p,
      Follows p.names (s.occurrences true p.names given) (place config A given p s))
    (layer : String) (i : Nat) (p : Progress) :
    Follows p.names (Spec.occurrencesIn p.names layer i ss) (placeAll config A layer i p ss) := by
  induction ss generalizing i p with
  | nil => exact ⟨[], p, rfl, by simp [Spec.occurrencesIn]⟩
  | cons s rest ih =>
    rw [placeAll, Spec.occurrencesIn]
    apply (h s List.mem_cons_self _ p).bind
    intro v q hq
    rw [← hq]
    -- putting the view in front of the others meets no view
    rw [← List.append_nil (Spec.occurrencesIn q.names layer (i + 1) rest)]
    apply (ih (fun t ht => h t (List.mem_cons_of_mem _ ht)) (i + 1) q).bind
    intro vs z _
    exact ⟨v :: vs, z, rfl, by simp⟩

/-- Building fails for the first view that is at fault, or gives every view the name it is met
under. -/
theorem place_follows (config : Config) (s : Spec) (A : List Node) (given : String)
    (p : Progress) :
    Follows p.names (s.occurrences (A.head?.any Node.isLayer) p.names given)
      (place config A given p s) := by
  induction s using Spec.induct generalizing A given p with
  | unit s =>
    rw [place, Spec.occurrences]
    exact ⟨_, _, rfl, rfl⟩
  | layer s children ih =>
    rw [place, Spec.occurrences]
    -- a layer is refused before the views under it are looked at
    by_cases hc : children.isEmpty = true
    · dsimp only
      rw [if_pos hc]
      apply Follows.refused
      rw [Occurrence.fault?_layer, if_pos hc]
      rfl
    · refine Follows.cons ?_ ?_
      · rw [Occurrence.fault?_layer, if_neg hc]
      · dsimp only
        rw [if_neg hc]
        let name := Spec.nodeName p.names (s.props.name.getD given)
        let node : Node :=
          ⟨p.index, name, s.props.title, .layer s.size, s.resolve.composite.1, .empty⟩
        have hin : ∀ c ∈ children, ∀ given q, Follows q.names (c.occurrences true q.names given)
            (place config (node :: A) given q c) := fun c hc given q => ih c hc (node :: A) given q
        have hall := placeAll_follows hin name 0 (p.enter name s.resolve.composite.2)
        rw [← List.append_nil (Spec.occurrencesIn _ name 0 children)]
        apply hall.bind
        intro vs q _
        exact ⟨.mk node vs, q, rfl, by simp⟩
  | facet s child ih =>
    rw [place, Spec.occurrences]
    dsimp only
    -- as is a facet in a layer
    by_cases hl : A.head?.any Node.isLayer = true
    · rw [if_pos hl]
      apply Follows.refused
      rw [Occurrence.fault?_facet, if_pos hl]
      rfl
    · refine Follows.cons ?_ ?_
      · rw [Occurrence.fault?_facet, if_neg hl]
      · rw [if_neg hl]
        let name := Spec.nodeName p.names (s.props.name.getD given)
        let node : Node := ⟨p.index, name, s.props.title, .facet (FacetView.ofBindings s.facet).1,
          s.resolve.composite.1, .empty⟩
        have hchild := ih (node :: A) (Naming.qualify name Naming.facetChild)
          (p.enter name ((FacetView.ofBindings s.facet).2 ++ s.resolve.composite.2))
        rw [← List.append_nil (Spec.occurrences _ _ _ child)]
        apply hchild.bind
        intro v q _
        exact ⟨.mk node [v], q, rfl, by simp⟩

end View
end Trellis

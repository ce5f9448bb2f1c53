import Trellis.Proofs.Drawn

/-! Which specifications compile. Building refuses exactly those that are not well formed, for the
first view at fault; nothing that comes after building fails. -/
namespace Trellis

variable {G : Dict String Json → Prop} {bare : View}

/-- All phases run over a tree that was built. -/
theorem Tree.Reached.parse {whole : Spec} {t : Tree} (hempty : G .empty) (hG : whole.GuideExtras G)
    (hnames : (bare.nodes.map Node.name).Nodup) (h : t.Reached G whole bare none) :
    (t.parse .standard).error = none ∧
      (t.parse .standard).tree.Reached G whole bare (some .legend) := by
  have hremaining : t.remaining = Phase.all := by
    unfold Tree.remaining
    rw [h.parsed]
    rfl
  have hsuccessive : Phase.Successive none Phase.all := ⟨rfl, rfl, rfl, rfl, rfl, rfl, rfl, trivial⟩
  obtain ⟨herror, hreached, -⟩ := h.runPhases _ hempty hG hnames hsuccessive
  unfold Tree.parse
  rw [hremaining]
  exact ⟨herror, hreached⟩

namespace Compiler

variable {config : Config} {s : Spec}

/-- A specification that is built compiles to what its tree draws in the end. -/
theorem compile_of_build {t : Tree} {ds : List Diagnostic} (hempty : G .empty)
    (hG : s.GuideExtras G) (h : (⟨.standard, config⟩ : Compiler).build s = .ok (t, ds)) :
    ∃ c : Compiled, (⟨.standard, config⟩ : Compiler).compile s = .ok c ∧
      c.visualization = (t.parse .standard).tree.drawn ∧
      (t.parse .standard).tree.Reached G s t.root.strip (some .legend) ∧
      (t.root.strip.nodes.map Node.name).Nodup := by
  obtain ⟨hbuilt, hnames, -⟩ := Tree.build_ok (G := G) h
  obtain ⟨herror, hreached⟩ := hbuilt.parse hempty hG hnames
  have hassemble := Tree.assemble_eq hreached
  refine ⟨⟨(t.parse .standard).tree.drawn, ds ++ (t.parse .standard).diagnostics⟩, ?_, rfl,
    hreached, hnames⟩
  unfold compile
  rw [h]
  dsimp only [Except.mapError, bind, Except.bind]
  rw [herror]
  dsimp only
  rw [hassemble]
  rfl

/-- Building a specification fails for its first fault, and only for that. -/
theorem build_outcome (c : Compiler) (s : Spec) :
    match s.firstFault? with
    | some e => c.build s = .error e
    | none => ∃ t ds, c.build s = .ok (t, ds) := by
  have hplace := View.place_follows (s.config?.getD c.config) s [] "" .start
  unfold View.Follows at hplace
  unfold Spec.firstFault? Compiler.build Tree.build
  -- there is no layer above the topmost view
  change (match s.views.findSome? Occurrence.fault? with
    | some e => View.place (s.config?.getD c.config) [] "" .start s = .error e
    | none => _) at hplace
  cases hfault : s.views.findSome? Occurrence.fault? with
  | some e =>
    rw [hfault] at hplace
    dsimp only at hplace ⊢
    rw [hplace]
    rfl
  | none =>
    rw [hfault] at hplace
    obtain ⟨root, p, hok, -⟩ := hplace
    dsimp only
    rw [hok]
    exact ⟨_, _, rfl⟩

/-- Exactly the well-formed specifications compile, under any fallback configuration. Any other is
refused for the first view at fault, in pre-order: a layer without views under it, or a facet that
stands directly in a layer. There is no other error. -/
theorem compile_outcome (config : Config) (s : Spec) :
    ((∃ c, (⟨.standard, config⟩ : Compiler).compile s = .ok c) ↔ s.WellFormed) ∧
      (¬ s.WellFormed → ∃ before o after e, s.views = before ++ o :: after ∧
        (∀ b ∈ before, b.fault? = none) ∧ o.fault? = some e ∧
        (⟨.standard, config⟩ : Compiler).compile s = .error (.malformed e)) ∧
      ∀ e, (⟨.standard, config⟩ : Compiler).compile s = .error e → ∃ name,
        e = .malformed (.emptyLayer name) ∨ e = .malformed (.facetInLayer name) := by
  have hbuild := build_outcome ⟨.standard, config⟩ s
  have hfault := s.firstFault?_eq_none_iff
  -- either there is a first fault, or the specification is well formed
  cases hf : s.firstFault? with
  | none =>
    rw [hf] at hbuild
    obtain ⟨t, ds, hok⟩ := hbuild
    have hwell : s.WellFormed := hfault.mp hf
    obtain ⟨c, hc, -⟩ := compile_of_build trivial s.guideExtras_true hok
    refine ⟨⟨fun _ => hwell, fun _ => ⟨c, hc⟩⟩, fun hno => absurd hwell hno, ?_⟩
    intro e he
    rw [hc] at he
    exact absurd he (by simp)
  | some e =>
    rw [hf] at hbuild
    have hmal : ¬ s.WellFormed := fun hw => by
      rw [hfault.mpr hw] at hf
      exact absurd hf (by simp)
    have herror : (⟨.standard, config⟩ : Compiler).compile s = .error (.malformed e) := by
      unfold compile
      rw [show (⟨.standard, config⟩ : Compiler).build s = .error e from hbuild]
      rfl
    have hfirst := hf
    unfold Spec.firstFault? at hfirst
    obtain ⟨before, o, after, hviews, ho, hbefore⟩ := List.findSome?_eq_some_iff.mp hfirst
    refine ⟨⟨?_, fun hw => absurd hw hmal⟩, fun _ => ?_, ?_⟩
    · rintro ⟨c, hc⟩
      rw [herror] at hc
      exact absurd hc (by simp)
    · exact ⟨before, o, after, e, hviews, hbefore, ho, herror⟩
    · intro e' he'
      obtain rfl := Except.error.inj (herror.symm.trans he')
      refine ⟨o.name, ?_⟩
      rcases Occurrence.fault?_eq_some ho with rfl | rfl
      · exact .inl rfl
      · exact .inr rfl

end Compiler
end Trellis

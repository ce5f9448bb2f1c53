import Trellis.Proofs.Axes

/-! Further properties of guides: what a unit of a tree gives its axes and legends beyond those that
this library knows is what its specification gives them, or nothing. -/
namespace Trellis

variable {G : Dict String Json → Prop} {whole : Spec}

/-- The properties that the units of a specification give their axes and legends beyond those that
this library knows are of some kind. -/
def Spec.GuideExtras (G : Dict String Json → Prop) (s : Spec) : Prop :=
  ∀ u, .unit u ∈ s.parts → ∀ c f, u.encoding.get? c = some (.field f) →
    (∀ a, f.axis = .custom a → G a.extra) ∧ ∀ l, f.legend = .custom l → G l.extra

theorem Spec.guideExtras_true (s : Spec) : s.GuideExtras (fun _ => True) :=
  fun _ _ _ _ _ => ⟨fun _ _ => trivial, fun _ _ => trivial⟩

/-- A field definition that a unit shows is the normal form of one that is asked for. -/
theorem UnitView.exists_asked {u : UnitView} {mark : MarkDef} {encoding : Encoding} {c : Channel}
    {f : FieldDef} (henc : u.encoding = (acceptAll mark encoding).1) (h : u.fieldDef? c = some f) :
    ∃ own, encoding.get? c = some (.field own) ∧ f = own.normalize := by
  obtain ⟨shown, hshown, hfield⟩ : ∃ shown, u.encoding.get? c = some shown ∧
      shown.fieldDef? = some f := Option.bind_eq_some_iff.mp h
  rw [henc, get?_acceptAll] at hshown
  obtain ⟨asked, hasked, haccept⟩ := Option.bind_eq_some_iff.mp hshown
  have haccept := toOption_eq_some.mp haccept
  unfold accept at haccept
  split at haccept
  · cases haccept
  · cases asked with
    | value j =>
      obtain rfl := Except.ok.inj haccept
      cases hfield
    | field own =>
      dsimp only at haccept
      split at haccept
      · obtain rfl := Except.ok.inj haccept
        exact ⟨own, hasked, (Option.some.inj hfield).symm⟩
      · cases haccept

/-- What a guide is given is nothing of its own, or the properties that are asked for. -/
theorem GuideChoice.resolve_eq_some {α : Type} {unset a : α} {choice : GuideChoice α}
    (h : choice.resolve unset = some a) : a = unset ∨ choice = .custom a := by
  cases choice with
  | automatic => exact .inl (Option.some.inj h).symm
  | disabled => exact absurd h (by simp [GuideChoice.resolve])
  | custom properties => exact .inr (congrArg _ (Option.some.inj h))

theorem Site.Built.guideExtras {s : Site} {u : UnitView} (hb : s.Built whole)
    (hu : s.node.kind = .unit u) (hempty : G .empty) (hG : whole.GuideExtras G) :
    u.GuideExtras G := by
  intro c f hf
  obtain ⟨spec, hspec, henc⟩ := hb.unit_shows u hu
  obtain ⟨own, hasked, rfl⟩ := UnitView.exists_asked henc hf
  obtain ⟨haxes, hlegends⟩ := hG spec hspec c own hasked
  constructor
  · intro a ha
    rcases GuideChoice.resolve_eq_some ha with rfl | hcustom
    · exact hempty
    · exact haxes a hcustom
  · intro l hl
    rcases GuideChoice.resolve_eq_some hl with rfl | hcustom
    · exact hempty
    · exact hlegends l hcustom

end Trellis

import Trellis.Proofs.Feeding

/-! Datasets that are read in place of others, one replacement after the other, and what this makes
of the data behind a scale. -/
namespace Trellis

/-- The dataset that is read in the end in place of one. -/
def follow (renames : List DataRename) (d : String) : String :=
  renames.foldl (fun d r => if d = r.source then r.target else d) d

theorem follow_append (xs ys : List DataRename) (d : String) :
    follow (xs ++ ys) d = follow ys (follow xs d) := List.foldl_append

theorem follow_eq_self {renames : List DataRename} {d : String}
    (h : ∀ r ∈ renames, r.source ≠ d) : follow renames d = d := by
  induction renames with
  | nil => rfl
  | cons r rest ih =>
    have hr : d ≠ r.source := Ne.symm (h r List.mem_cons_self)
    rw [follow, List.foldl_cons, if_neg hr]
    exact ih (fun q hq => h q (List.mem_cons_of_mem _ hq))

/-- Once a dataset is replaced, it stays among the targets. -/
theorem follow_mem {T : String → Prop} {renames : List DataRename} {d : String}
    (ht : ∀ r ∈ renames, T r.target) (hd : T d ∨ ∃ r ∈ renames, r.source = d) :
    T (follow renames d) := by
  -- either the dataset is a target already, or a replacement for it is still to come
  induction renames generalizing d with
  | nil =>
    rcases hd with h | ⟨r, hr, -⟩
    · exact h
    · exact absurd hr List.not_mem_nil
  | cons r rest ih =>
    rw [follow, List.foldl_cons]
    apply ih (fun q hq => ht q (List.mem_cons_of_mem _ hq))
    by_cases he : d = r.source
    · rw [if_pos he]
      exact .inl (ht r List.mem_cons_self)
    · rw [if_neg he]
      rcases hd with h | ⟨q, hq, hqd⟩
      · exact .inl h
      · rcases List.mem_cons.mp hq with rfl | hq
        · exact absurd hqd.symm he
        · exact .inr ⟨q, hq, hqd⟩

namespace Scale

theorem FedBy.renameData {us : List Node} {read : Node → String} {s : Scale}
    (h : s.FedBy us read) (source target : String) :
    (s.renameData source target).FedBy us
      (fun u => if read u = source then target else read u) := by
  unfold FedBy at h ⊢
  unfold Scale.renameData ScaleDomain.rename
  dsimp only
  cases hd : s.domain with
  | values vs =>
    rw [hd] at h
    exact h
  | data refs =>
    rw [hd] at h
    obtain ⟨hne, hrefs⟩ := h
    refine ⟨hne, ?_⟩
    intro d
    have hname (r : DataRef) :
        (if r.data = source then ({ r with data := target } : DataRef) else r).data =
          if r.data = source then target else r.data := by
      split <;> rfl
    constructor
    · rintro ⟨q, hq, rfl⟩
      obtain ⟨r, hr, rfl⟩ := List.mem_map.mp hq
      obtain ⟨u, hu, hur⟩ := (hrefs r.data).mp ⟨r, hr, rfl⟩
      exact ⟨u, hu, by rw [hname, hur]⟩
    · rintro ⟨u, hu, rfl⟩
      obtain ⟨r, hr, hur⟩ := (hrefs (read u)).mpr ⟨u, hu, rfl⟩
      exact ⟨_, List.mem_map_of_mem hr, by rw [hname, hur]⟩

theorem FedBy.redirect {us : List Node} {read : Node → String} {s : Scale}
    (h : s.FedBy us read) (renames : List DataRename) :
    (s.redirect renames).FedBy us (fun u => follow renames (read u)) := by
  -- each replacement changes what is read for a unit
  induction renames generalizing s read with
  | nil => exact h
  | cons r rest ih => exact ih (h.renameData r.source r.target)

/-- Only the datasets that are read count. -/
theorem fedBy_congr {us vs : List Node} {read look : Node → String} {s : Scale}
    (h : us.map read = vs.map look) : s.FedBy us read ↔ s.FedBy vs look := by
  have hread (d : String) : (∃ u ∈ us, read u = d) ↔ ∃ u ∈ vs, look u = d := by
    rw [← List.mem_map, h, List.mem_map]
  have hnil : us = [] ↔ vs = [] := by
    rw [← List.map_eq_nil_iff (f := read), h, List.map_eq_nil_iff]
  unfold FedBy
  cases s.domain with
  | values xs => exact hnil
  | data refs =>
    dsimp only
    rw [ne_eq, hnil]
    simp only [hread]

end Scale

namespace View

theorem mem_cellRenamesOf {root : FacetRoot} {ds : List DataComponent} {r : DataRename} :
    r ∈ cellRenamesOf root ds ↔ r = ⟨root.data, root.name⟩ ∨ ∃ d ∈ ds, r = ⟨d.input, d.source⟩ := by
  unfold cellRenamesOf
  have hfold (start : List DataRename) :
      r ∈ ds.foldl (fun renames d => if renames.contains ⟨d.input, d.source⟩ then renames
        else renames ++ [⟨d.input, d.source⟩]) start ↔
        r ∈ start ∨ ∃ d ∈ ds, r = ⟨d.input, d.source⟩ := by
    induction ds generalizing start with
    | nil => simp
    | cons d rest ih =>
      rw [List.foldl_cons, ih, List.exists_mem_cons_iff]
      split
      · rename_i hc
        have hmem : (⟨d.input, d.source⟩ : DataRename) ∈ start := List.contains_iff_mem.mp hc
        constructor
        · rintro (h | h)
          · exact .inl h
          · exact .inr (.inr h)
        · rintro (h | rfl | h)
          · exact .inl h
          · exact .inl hmem
          · exact .inr h
      · rw [List.mem_append, List.mem_singleton, or_assoc]
  rw [hfold, List.mem_singleton]

end View
end Trellis

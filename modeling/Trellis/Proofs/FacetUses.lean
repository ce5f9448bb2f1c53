import Trellis.Proofs.Aggregates
import Trellis.Proofs.FacetKeys

/-! What a facet derives from its bindings: cells, the records behind headers, headers, and the grid.
All of them read the same column for the same binding, and there are none for a channel without. -/
namespace Trellis

/-! ### Cells -/

theorem Node.fieldDef?_facet {n : Node} {f : FacetView} (hf : n.facet? = some f) (c : Channel) :
    n.fieldDef? c = f.fieldDef? c := by
  rw [fieldDef?, kind_of_facet? hf]

/-- A store has the name of no dataset of a node. -/
theorem Naming.store_ne_qualify {text : String} (h : ¬ "_store".toList <:+ text.toList)
    (h' : ¬ text.toList <:+ "_store".toList) (selection node : String) :
    store selection ≠ qualify node text := by
  intro hsame
  have hstore : "_store".toList <:+ (store selection).toList := by
    rw [store, String.toList_append]
    exact List.suffix_append _ _
  rw [hsame] at hstore
  -- both would end the same text, so one of them would end the other
  rcases List.suffix_or_suffix_of_suffix hstore (suffix_qualify node text) with hs | hs
  · exact h hs
  · exact h' hs

section

variable {whole : Spec} {t : Tree} {v : Visualization} {q : Site} {f : FacetView}

end

/-! ### Headers and grids -/

/-- A header or footer along a channel of a facet. If the facet binds the channel, there is one for
each value of the column, in ascending order, and a label shows the value. Else it is one without
records, order or label. -/
structure HeaderMark.Shows (m : HeaderMark) (n : Node) : Prop where
  label : ∀ label, m.label = some label → ∃ g, n.fieldDef? m.channel.channel = some g ∧
    label.value = accessor Scope.parent.name g.column
  json : ∃ members, m.toJson = .object members ∧
    (∀ j, ("from", j) ∈ members ↔ ∃ g, n.fieldDef? m.channel.channel = some g ∧
      j = .object [("data", .str (n.qualify m.channel.name))]) ∧
    (∀ j, ("sort", j) ∈ members ↔ ∃ g, n.fieldDef? m.channel.channel = some g ∧
      j = .object [("field", .str (accessor Scope.datum.name g.column)),
        ("order", .str "ascending")]) ∧
    ∀ j, ("title", j) ∈ members ↔ ∃ label, m.label = some label ∧
      j = HeaderMark.titleToJson m.channel label

section

variable {s : Site} {f : FacetView} {pipeline : Pipeline}

end

/-! ### Whole visualizations -/

/-- Every facet has a group of its own. -/
theorem View.facets_subset_groupRoots {whole : Spec} {v : View}
    (hb : Fits (fun s _ => s.Built whole) [] v) : Site.facets ⟨[], v⟩ ⊆ Site.groupRoots ⟨[], v⟩ := by
  intro q hq
  obtain ⟨hmem, hfacet⟩ := List.mem_filter.mp hq
  obtain ⟨r, hr, hq⟩ := List.mem_flatMap.mp ((groupMembers_perm hb).mem_iff.mpr hmem)
  have hrv := mem_sites_of_mem_groupRoots hb hr
  obtain ⟨rest, hrest, hno⟩ := groupSites_cons (fun s hs => hb s (mem_sites_trans hrv hs))
  have hmembers : r.groupMembers = r :: rest := hrest
  rw [hmembers] at hq
  rcases List.mem_cons.mp hq with rfl | hq
  · exact hr
  · -- only the root of a group can be a facet
    exact absurd (hfacet.symm.trans (hno q hq)) (by decide)

namespace Compiler

variable {config : Config} {spec : Spec} {compiled : Compiled}

end Compiler

/-! ### A grid of points -/

end Trellis

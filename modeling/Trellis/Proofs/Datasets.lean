import Trellis.Proofs.Drawn

/-! The datasets that a tree emits outside all cells: each is derived from one before it, and there
is one for everything that is read outside all cells. -/
namespace Trellis

namespace Dataset

end Dataset

/-! ### What sites bring along -/

open Dataset

variable {input : Option DataDef} {s : Site}

theorem parse_sources (input : Option DataDef) (s : Site) :
    (Pipeline.standard.parse input s).sources =
      (if s.isRoot then DataComponent.rootSources input s.view else []) ++
        (DataComponent.ofKind s).sources := by
  rw [parse_eq]

/-- The datasets that a tree emits outside all cells, with those of its selections. -/
def View.rootData (v : View) : List Dataset :=
  v.nodes.flatMap (fun n => n.data.sources) ++ Site.selectionStores ⟨[], v⟩

/-- The datasets of a node are those that its site asks for. -/
theorem sources_of_sites {v : View} (h : View.Fits (Described input) [] v) :
    v.nodes.flatMap (fun n => n.data.sources) =
      (v.sites []).flatMap (fun s => (Pipeline.standard.parse input s).sources) := by
  rw [← View.sites_map_node [] v, List.flatMap_map]
  exact List.flatMap_congr (fun s hs => congrArg DataComponent.sources (h s hs).data_eq)

end Trellis

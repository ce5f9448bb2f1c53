import Mathlib.Data.List.Nodup
import Mathlib.Logic.Function.Iterate
import Trellis.View.Build

/-! Names: a node's name tells its own names from those of other nodes, names of different purposes
end differently, and a fresh name is new. -/
namespace Trellis

namespace Naming

theorem toList_qualify (node text : String) :
    (qualify node text).toList =
      if node.toList = [] then text.toList else node.toList ++ '_' :: text.toList := by
  unfold qualify
  by_cases hn : node = ""
  · subst hn
    rfl
  · have he : node.isEmpty = false := by simpa using hn
    have hl : node.toList ≠ [] := by simpa using hn
    rw [if_neg hl, he]
    simp [String.toList_append]

/-- A local name stands behind the name of its node, with an underscore in between, or alone. -/
theorem qualify_eq (node text : String) :
    qualify node text = if node = "" then text else node ++ "_" ++ text := by
  simp only [qualify, String.isEmpty_iff]

theorem qualify_injective {a b text : String} (h : qualify a text = qualify b text) : a = b := by
  have hl := congrArg String.toList h
  rw [toList_qualify, toList_qualify] at hl
  apply String.toList_inj.mp
  -- both ends are the same text; an unnamed node has no separator, so the lengths tell it apart
  have hlen := congrArg List.length hl
  by_cases ha : a.toList = []
  · by_cases hb : b.toList = []
    · rw [ha, hb]
    · rw [if_pos ha, if_neg hb, List.length_append, List.length_cons] at hlen
      omega
  · by_cases hb : b.toList = []
    · rw [if_neg ha, if_pos hb, List.length_append, List.length_cons] at hlen
      omega
    · rw [if_neg ha, if_neg hb] at hl
      exact List.append_cancel_right hl

/-- Behind whatever node, a local name stays the end of the whole. -/
theorem suffix_qualify (node text : String) : text.toList <:+ (qualify node text).toList := by
  rw [toList_qualify]
  split
  · exact List.suffix_refl _
  · exact (List.suffix_cons _ _).trans (List.suffix_append _ _)

theorem length_lt_qualify (node : String) {text : String} (h : text.toList ≠ []) :
    node.toList.length < (qualify node text).toList.length := by
  have ht := List.length_pos_iff.mpr h
  rw [toList_qualify]
  split
  · rename_i hn
    rw [hn, List.length_nil]
    exact ht
  · rw [List.length_append, List.length_cons]
    omega

/-- A name with an index joined to it a number of times. -/
def suffixed (index rounds : Nat) (name : String) : String :=
  (fun name => qualify name (toString index))^[rounds] name

/-- A name is the one wanted, with an index joined to it as few times as make it new. -/
structure FirstNew (taken : List String) (index : Nat) (wanted name : String) : Prop where
  new : name ∉ taken
  least : ∃ rounds, name = suffixed index rounds wanted ∧
    ∀ fewer < rounds, suffixed index fewer wanted ∈ taken

/-- A wanted name that is new is not changed. -/
theorem FirstNew.eq_wanted {taken : List String} {index : Nat} {wanted name : String}
    (h : FirstNew taken index wanted name) (hw : wanted ∉ taken) : name = wanted := by
  obtain ⟨rounds, rfl, hfewer⟩ := h.least
  cases rounds with
  | zero => rfl
  | succ rounds => exact absurd (hfewer 0 (Nat.succ_pos rounds)) hw

theorem toList_toString_ne_nil (n : Nat) : (toString n).toList ≠ [] := by
  intro h
  exact Nat.repr_ne_empty (n := n) (String.toList_inj.mp h)

/-- Where two names agree, one of the local names ends in the other: the nodes in front may be any
text. -/
theorem suffix_of_qualify_eq {a b text other : String} (h : qualify a text = qualify b other) :
    text.toList <:+ other.toList ∨ other.toList <:+ text.toList :=
  List.suffix_or_suffix_of_suffix (suffix_qualify a text) (h ▸ suffix_qualify b other)

/-- Local names of which neither ends in the other never make the same name. -/
theorem qualify_ne_qualify (a b : String) {text other : String}
    (h : ¬ text.toList <:+ other.toList) (h' : ¬ other.toList <:+ text.toList) :
    qualify a text ≠ qualify b other := by
  intro he
  rcases suffix_of_qualify_eq he with hs | hs
  · exact h hs
  · exact h' hs

theorem cell_ne_main (node : String) : qualify node "facet" ≠ main :=
  qualify_ne_qualify node "" (by decide) (by decide)

theorem aggregate_ne_main (node : String) : aggregate node ≠ main :=
  qualify_ne_qualify node "" (by decide) (by decide)

theorem cellAggregate_ne_main (node : String) : cellAggregate node ≠ main :=
  qualify_ne_qualify node "" (by decide) (by decide)

theorem cell_ne_aggregate (node other : String) : qualify node "facet" ≠ aggregate other :=
  qualify_ne_qualify node other (by decide) (by decide)

theorem cell_ne_cellAggregate (node other : String) :
    qualify node "facet" ≠ cellAggregate other :=
  qualify_ne_qualify node other (by decide) (by decide)

/-- No local name of these is the end of another one. -/
def SuffixFree (texts : List String) : Prop :=
  ∀ s ∈ texts, ∀ t ∈ texts, s.toList <:+ t.toList → s = t

instance (texts : List String) : Decidable (SuffixFree texts) :=
  inferInstanceAs (Decidable (∀ s ∈ texts, ∀ t ∈ texts, s.toList <:+ t.toList → s = t))

/-- Names from these local names tell both the node and the local name. -/
def Separable (texts : List String) : Prop :=
  ∀ a b, ∀ s ∈ texts, ∀ t ∈ texts, qualify a s = qualify b t → a = b ∧ s = t

theorem SuffixFree.separable {texts : List String} (h : SuffixFree texts) : Separable texts := by
  intro a b s hs t ht he
  have hsame : s = t := by
    rcases suffix_of_qualify_eq he with hst | hts
    · exact h s hs t ht hst
    · exact (h t ht s hs hts).symm
  rw [hsame] at he
  exact ⟨qualify_injective he, hsame⟩

theorem toList_joined (word field : String) :
    (word ++ "_" ++ field).toList = word.toList ++ '_' :: field.toList := by
  simp [String.toList_append]

/-- A name that reaches beyond the separator of another one, joined to the same text. -/
theorem exists_joined_of_append {a b word other : String} {rest : List Char}
    (hb : b.toList = a.toList ++ rest) (hw : '_' :: word.toList = rest ++ '_' :: other.toList) :
    (a = b ∧ word = other) ∨ ∃ mid, b = a ++ "_" ++ mid ∧ word = mid ++ "_" ++ other := by
  cases rest with
  | nil =>
    rw [List.append_nil] at hb
    exact .inl ⟨String.toList_inj.mp hb.symm, String.toList_inj.mp (List.cons.inj hw).2⟩
  | cons c rest =>
    obtain ⟨rfl, hword⟩ := List.cons.inj hw
    refine .inr ⟨String.ofList rest, String.toList_inj.mp ?_, String.toList_inj.mp ?_⟩
    · rw [toList_joined, String.toList_ofList]
      exact hb
    · rw [toList_joined, String.toList_ofList]
      exact hword

/-- Two texts are joined to the same name if they are the same, or one of those in front goes on with
a separator and the start of the text behind the other one. -/
theorem joined_eq_iff {a b word other : String} :
    a ++ "_" ++ word = b ++ "_" ++ other ↔ (a = b ∧ word = other) ∨
      (∃ mid, b = a ++ "_" ++ mid ∧ word = mid ++ "_" ++ other) ∨
      ∃ mid, a = b ++ "_" ++ mid ∧ other = mid ++ "_" ++ word := by
  constructor
  · intro h
    have hl := congrArg String.toList h
    rw [toList_joined, toList_joined] at hl
    rcases List.append_eq_append_iff.mp hl with ⟨rest, hb, hrest⟩ | ⟨rest, ha, hrest⟩
    · rcases exists_joined_of_append hb hrest with hsame | hmid
      · exact .inl hsame
      · exact .inr (.inl hmid)
    · rcases exists_joined_of_append ha hrest with ⟨ha, hother⟩ | hmid
      · exact .inl ⟨ha.symm, hother.symm⟩
      · exact .inr (.inr hmid)
  · rintro (⟨rfl, rfl⟩ | ⟨mid, rfl, rfl⟩ | ⟨mid, rfl, rfl⟩)
    · rfl
    · simp only [String.append_assoc]
    · simp only [String.append_assoc]

/-- Words without a separator tell what they stand behind. -/
theorem separated_inj {a b word other : String} (hw : '_' ∉ word.toList) (ho : '_' ∉ other.toList)
    (h : a ++ "_" ++ word = b ++ "_" ++ other) : a = b ∧ word = other := by
  have hjoined (mid text : String) : '_' ∈ (mid ++ "_" ++ text).toList := by
    rw [toList_joined]
    exact List.mem_append_right _ List.mem_cons_self
  rcases joined_eq_iff.mp h with hsame | ⟨mid, -, rfl⟩ | ⟨mid, -, rfl⟩
  · exact hsame
  · exact absurd (hjoined mid other) hw
  · exact absurd (hjoined mid word) ho

/-- Words without a separator keep apart, even where one is the end of another. -/
theorem separable_of_no_separator {words : List String} (h : ∀ word ∈ words, '_' ∉ word.toList) :
    Separable words := by
  intro a b s hs t ht he
  have hne {c : String} (hc : ¬ c.toList = []) (word : String) : qualify c word = c ++ "_" ++ word := by
    apply String.toList_inj.mp
    rw [toList_qualify, if_neg hc, toList_joined]
  have hmem {c : String} (hc : ¬ c.toList = []) (word : String) : '_' ∈ (qualify c word).toList := by
    rw [toList_qualify, if_neg hc]
    exact List.mem_append_right _ List.mem_cons_self
  have hplain {c : String} (hc : c.toList = []) (word : String) : qualify c word = word := by
    apply String.toList_inj.mp
    rw [toList_qualify, if_pos hc]
  by_cases ha : a.toList = []
  · by_cases hb : b.toList = []
    · rw [hplain ha, hplain hb] at he
      exact ⟨String.toList_inj.mp (ha.trans hb.symm), he⟩
    · -- what stands behind a named node has a separator in it
      rw [hplain ha] at he
      exact absurd (he ▸ hmem hb t) (h s hs)
  · by_cases hb : b.toList = []
    · rw [hplain hb] at he
      exact absurd (he ▸ hmem ha s) (h t ht)
    · rw [hne ha, hne hb] at he
      exact separated_inj (h s hs) (h t ht) he

end Naming

/-- Nodes of different names make different names from local ones that keep apart. -/
theorem Node.qualified_nodup {texts : List String} (h : Naming.Separable texts) {ns : List Node}
    (hnames : (ns.map Node.name).Nodup) (own : Node → List String)
    (hown : ∀ n ∈ ns, own n ⊆ texts ∧ (own n).Nodup) :
    (ns.flatMap (fun n => (own n).map n.qualify)).Nodup := by
  apply List.pairwise_flatMap.mpr
  refine ⟨?_, ?_⟩
  · intro n hn
    obtain ⟨hsub, hnodup⟩ := hown n hn
    refine List.Nodup.map_on ?_ hnodup
    intro s hs t ht hsame
    exact (h n.name n.name s (hsub hs) t (hsub ht) hsame).2
  · refine (List.pairwise_map.mp hnames).imp_of_mem ?_
    intro n m hn hm hne first hfirst second hsecond hsame
    obtain ⟨s, hs, rfl⟩ := List.mem_map.mp hfirst
    obtain ⟨t, ht, rfl⟩ := List.mem_map.mp hsecond
    exact hne (h n.name m.name s ((hown n hn).1 hs) t ((hown m hm).1 ht) hsame).1

namespace View

open Naming

/-- The taken names that are no shorter than one. -/
def rivals (taken : List String) (name : String) : List String :=
  taken.filter (fun t => name.toList.length ≤ t.toList.length)

theorem rivals_lt {taken : List String} {name longer : String} (h : name ∈ taken)
    (hl : name.toList.length < longer.toList.length) :
    (rivals taken longer).length < (rivals taken name).length := by
  have hsub : rivals taken longer = (rivals taken name).filter
      (fun t => longer.toList.length ≤ t.toList.length) := by
    rw [rivals, rivals, List.filter_filter]
    apply List.filter_congr
    intro t _
    by_cases ht : longer.toList.length ≤ t.toList.length
    · have hn : name.toList.length ≤ t.toList.length := by omega
      simp [ht, hn]
    · simp [ht]
  rw [hsub]
  apply List.length_filter_lt_length_iff_exists.mpr
  refine ⟨name, List.mem_filter.mpr ⟨h, by simp⟩, ?_⟩
  simpa using hl

/-- With a round for each taken name that is no shorter, the name found is new. Every round leaves
one of them behind. -/
theorem freshName_not_mem (taken : List String) (index rounds : Nat) (name : String)
    (h : (rivals taken name).length ≤ rounds) : freshName taken index rounds name ∉ taken := by
  induction rounds generalizing name with
  | zero =>
    intro hm
    have hr : rivals taken name = [] := List.length_eq_zero_iff.mp (Nat.le_zero.mp h)
    have hn : name ∈ rivals taken name := List.mem_filter.mpr ⟨hm, by simp⟩
    rw [hr] at hn
    exact absurd hn List.not_mem_nil
  | succ rounds ih =>
    rw [freshName]
    by_cases hm : taken.contains name = true
    · rw [if_pos hm]
      apply ih
      -- the next name is longer, so the one just tried is no rival of it any more
      have hl := length_lt_qualify name (toList_toString_ne_nil index)
      have hr := rivals_lt (List.contains_iff_mem.mp hm) hl
      omega
    · rw [if_neg hm]
      intro hn
      exact hm (List.contains_iff_mem.mpr hn)

/-- The search joins the index as long as the name is taken, and no longer. -/
theorem freshName_eq_suffixed (taken : List String) (index rounds : Nat) (name : String) :
    ∃ k ≤ rounds, freshName taken index rounds name = suffixed index k name ∧
      ∀ fewer < k, suffixed index fewer name ∈ taken := by
  induction rounds generalizing name with
  | zero => exact ⟨0, Nat.le_refl 0, rfl, fun _ h => absurd h (Nat.not_lt_zero _)⟩
  | succ rounds ih =>
    rw [freshName]
    by_cases hm : taken.contains name = true
    · rw [if_pos hm]
      obtain ⟨k, hk, hname, hfewer⟩ := ih (qualify name (toString index))
      refine ⟨k + 1, Nat.succ_le_succ hk, hname, ?_⟩
      intro fewer hlt
      cases fewer with
      | zero => exact List.contains_iff_mem.mp hm
      | succ fewer => exact hfewer fewer (Nat.lt_of_succ_lt_succ hlt)
    · rw [if_neg hm]
      exact ⟨0, Nat.zero_le _, rfl, fun _ h => absurd h (Nat.not_lt_zero _)⟩

/-- With a round for each taken name, the search finds the first new name. -/
theorem freshName_firstNew (taken : List String) (index : Nat) (wanted : String) :
    FirstNew taken index wanted (freshName taken index taken.length wanted) := by
  obtain ⟨k, -, hname, hfewer⟩ := freshName_eq_suffixed taken index taken.length wanted
  exact ⟨freshName_not_mem taken index _ wanted (List.length_filter_le _ _), k, hname, hfewer⟩

/-- Whatever names are taken, joining the index often enough makes any name new. -/
theorem exists_suffixed_not_mem (taken : List String) (index : Nat) (wanted : String) :
    ∃ rounds ≤ taken.length, suffixed index rounds wanted ∉ taken := by
  obtain ⟨k, hk, hname, -⟩ := freshName_eq_suffixed taken index taken.length wanted
  refine ⟨k, hk, ?_⟩
  rw [← hname]
  exact (freshName_firstNew taken index wanted).new

end View
end Trellis

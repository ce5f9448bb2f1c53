import Mathlib.Data.List.Sort
import Trellis.Dict

/-! What each writer of a finite map does to its look-ups, and how look-ups and entries belong
together. -/
namespace Trellis.Dict

variable {κ α β : Type} [Ord κ]

theorem contains_iff {d : Dict κ α} {key : κ} :
    d.contains key = true ↔ ∃ value, d.get? key = some value := by
  rw [contains, Option.isSome_iff_exists]

@[simp] theorem filter_true (d : Dict κ α) : d.filter (fun _ _ => true) = d := by
  cases d
  simp [filter]

theorem filter_filter (p q : κ → α → Bool) (d : Dict κ α) :
    (d.filter p).filter q = d.filter (fun k v => p k v && q k v) := by
  simp [filter, List.filter_filter, Bool.and_comm]

@[simp] theorem mapValues_id (d : Dict κ α) : d.mapValues id = d := by
  cases d
  simp [mapValues]

theorem keys_mapValues (f : α → β) (d : Dict κ α) : (d.mapValues f).keys = d.keys := by
  unfold keys mapValues
  rw [List.map_map]
  rfl

theorem mapValues_mapValues {γ : Type} (f : α → β) (g : β → γ) (d : Dict κ α) :
    (d.mapValues f).mapValues g = d.mapValues (g ∘ f) := by
  simp [mapValues]

/-- A test that looks at the key only may come before or after a change of the values. -/
theorem filter_mapValues (p : κ → Bool) (f : α → β) (d : Dict κ α) :
    (d.mapValues f).filter (fun k _ => p k) = (d.filter (fun k _ => p k)).mapValues f := by
  simp only [mapValues, filter, List.filter_map]
  rfl

/-- Entries with the same keys in the same order find values that belong together. -/
theorem lookup_getD_rel {R : α → β → Prop} {es : List (κ × α)} {fs : List (κ × β)}
    (h : List.Forall₂ (fun e f => e.1 = f.1 ∧ R e.2 f.2) es fs) {a : α} {b : β} (hab : R a b)
    (key : κ) : R ((lookup key es).getD a) ((lookup key fs).getD b) := by
  induction h with
  | nil => exact hab
  | cons hef _ ih =>
    obtain ⟨hkey, hvalue⟩ := hef
    rw [lookup, lookup, hkey]
    split
    · exact hvalue
    · exact ih

variable [Std.TransOrd κ] [Std.LawfulEqOrd κ] [DecidableEq κ]

theorem lookup_mem {key : κ} {value : α} {es : List (κ × α)} (h : lookup key es = some value) :
    (key, value) ∈ es := by
  induction es with
  | nil => simp [lookup] at h
  | cons hd tl ih =>
    obtain ⟨k, v⟩ := hd
    rw [lookup, compare_beq_eq] at h
    by_cases hk : key = k
    · subst hk
      have hv : v = value := by simpa using h
      exact hv ▸ List.mem_cons_self
    · exact List.mem_cons_of_mem _ (ih (by simpa [hk] using h))

theorem lookup_of_mem_of_nodup {key : κ} {value : α} {es : List (κ × α)}
    (hd : (es.map Prod.fst).Nodup) (h : (key, value) ∈ es) : lookup key es = some value := by
  induction es with
  | nil => exact absurd h List.not_mem_nil
  | cons e tl ih =>
    rw [List.map_cons, List.nodup_cons] at hd
    rw [lookup, compare_beq_eq]
    rcases List.mem_cons.mp h with rfl | ht
    · rw [decide_eq_true rfl, if_pos rfl]
    · have hne : key ≠ e.1 := fun he => hd.1 (he ▸ List.mem_map_of_mem ht)
      rw [decide_eq_false hne, if_neg Bool.false_ne_true]
      exact ih hd.2 ht

omit [Std.TransOrd κ] [DecidableEq κ] in
/-- No key occurs twice, as the keys increase. -/
theorem keys_nodup (d : Dict κ α) : d.keys.Nodup := by
  unfold keys
  rw [List.Nodup, List.pairwise_map]
  refine d.increasing.imp ?_
  intro a b hlt heq
  rw [heq] at hlt
  simp at hlt

theorem mem_entries_iff {d : Dict κ α} {key : κ} {value : α} :
    (key, value) ∈ d.entries ↔ d.get? key = some value :=
  ⟨lookup_of_mem_of_nodup d.keys_nodup, lookup_mem⟩

/-- Maps with the same look-ups are the same. -/
theorem ext_get? {d e : Dict κ α} (h : ∀ key, d.get? key = e.get? key) : d = e := by
  have hmem (p : κ × α) : p ∈ d.entries ↔ p ∈ e.entries := by
    obtain ⟨key, value⟩ := p
    rw [mem_entries_iff, mem_entries_iff, h]
  let before (a b : κ × α) : Prop := compare a.1 b.1 = .lt
  have hirrefl : Std.Irrefl before := ⟨fun a ha => by simp [before] at ha⟩
  have hanti : Std.Antisymm before := ⟨fun a b ha hb =>
    absurd (Std.TransCmp.lt_trans ha hb) (hirrefl.irrefl a)⟩
  have hentries : d.entries = e.entries :=
    List.Pairwise.eq_of_mem_iff d.increasing e.increasing hmem
  cases d
  cases e
  obtain rfl := hentries
  rfl

theorem mem_values_iff {d : Dict κ α} {value : α} :
    value ∈ d.values ↔ ∃ key, d.get? key = some value := by
  simp only [values, List.mem_map, Prod.exists, exists_eq_right, mem_entries_iff]

theorem mem_keys_iff {d : Dict κ α} {key : κ} : key ∈ d.keys ↔ d.contains key = true := by
  rw [contains_iff, keys, List.mem_map]
  constructor
  · rintro ⟨⟨k, v⟩, he, rfl⟩
    exact ⟨v, mem_entries_iff.mp he⟩
  · rintro ⟨v, hv⟩
    exact ⟨(key, v), mem_entries_iff.mpr hv, rfl⟩

theorem get?_filter (p : κ → α → Bool) (d : Dict κ α) (key : κ) :
    (d.filter p).get? key = (d.get? key).filter (p key) := by
  apply Option.ext
  intro value
  rw [← mem_entries_iff, Option.filter_eq_some_iff, ← mem_entries_iff]
  simp only [filter, List.mem_filter]

theorem get?_mapValues (f : α → β) (d : Dict κ α) (key : κ) :
    (d.mapValues f).get? key = (d.get? key).map f := by
  apply Option.ext
  intro value
  rw [← mem_entries_iff, Option.map_eq_some_iff]
  simp only [mapValues, List.mem_map, Prod.mk.injEq, Prod.exists, mem_entries_iff]
  constructor
  · rintro ⟨k, v, h, rfl, rfl⟩
    exact ⟨v, h, rfl⟩
  · rintro ⟨v, h, rfl⟩
    exact ⟨key, v, h, rfl, rfl⟩

/-- Keys are in order, so maps with the same keys list them alike. -/
theorem keys_ext {d : Dict κ α} {e : Dict κ β} (h : ∀ key, key ∈ d.keys ↔ key ∈ e.keys) :
    d.keys = e.keys := by
  have hsame : d.mapValues (fun _ => ()) = e.mapValues (fun _ => ()) := by
    apply ext_get?
    intro key
    have hkey : (d.get? key).isSome = (e.get? key).isSome := by
      rw [Bool.eq_iff_iff]
      exact mem_keys_iff.symm.trans ((h key).trans mem_keys_iff)
    rw [get?_mapValues, get?_mapValues]
    cases hd : d.get? key <;> cases he : e.get? key <;> rw [hd, he] at hkey <;>
      first | rfl | cases hkey
  rw [← keys_mapValues (fun _ => ()) d, hsame, keys_mapValues]

/-- Maps to lists that find the same, where a missing list counts as an empty one, have the same
lists in all. -/
theorem flatten_values_congr {d e : Dict κ (List α)}
    (h : ∀ key, d.getD key [] = e.getD key []) : d.values.flatten = e.values.flatten := by
  let shown (d : Dict κ (List α)) : Dict κ (List α) := d.filter (fun _ xs => !xs.isEmpty)
  have hshown (d : Dict κ (List α)) : (shown d).values.flatten = d.values.flatten := by
    rw [← List.flatten_filter_not_isEmpty (L := d.values)]
    unfold shown values filter
    rw [List.filter_map]
    rfl
  have hget (d : Dict κ (List α)) (key : κ) : (shown d).get? key =
      if (d.getD key []).isEmpty then none else some (d.getD key []) := by
    rw [get?_filter, getD]
    cases d.get? key with
    | none => rfl
    | some xs => cases xs <;> rfl
  have hsame : shown d = shown e := by
    apply ext_get?
    intro key
    rw [hget, hget, h key]
  rw [← hshown d, ← hshown e, hsame]

theorem get?_insertIfNew (d : Dict κ α) (key k : κ) (value : α) :
    (d.insertIfNew key value).get? k =
      if k = key then some ((d.get? key).getD value) else d.get? k := by
  unfold insertIfNew
  -- a key that is there already keeps its value, which is then what is found
  by_cases hc : d.contains key = true
  · rw [if_pos hc]
    obtain ⟨v, hv⟩ := contains_iff.mp hc
    by_cases hk : k = key
    · simp [hk, hv]
    · simp [hk]
  · have hn : d.get? key = none := by simpa [contains] using hc
    rw [if_neg hc, get?_insert, hn, Option.getD_none]

/-- Whatever a list of pairs is entered into, a look-up finds one of the pairs or what was there. -/
theorem get?_foldl_insert {es : List (κ × α)} {d : Dict κ α} {key : κ} {value : α}
    (h : (es.foldl (fun d e => d.insert e.1 e.2) d).get? key = some value) :
    (key, value) ∈ es ∨ d.get? key = some value := by
  induction es generalizing d with
  | nil => exact .inr h
  | cons e tl ih =>
    rcases ih h with ht | hd
    · exact .inl (List.mem_cons_of_mem _ ht)
    · rw [get?_insert] at hd
      split at hd
      · rename_i hk
        have hv : e.2 = value := by simpa using hd
        exact .inl (by rw [hk, ← hv]; exact List.mem_cons_self)
      · exact .inr hd

theorem mem_of_get?_ofList {es : List (κ × α)} {key : κ} {value : α}
    (h : (ofList es).get? key = some value) : (key, value) ∈ es := by
  rcases get?_foldl_insert h with hm | hn
  · exact hm
  · simp at hn

/-- Entering pairs keeps a value where no pair has its key. -/
theorem get?_foldl_insert_of_not_mem {es : List (κ × α)} {d : Dict κ α} {key : κ}
    (h : ∀ e ∈ es, e.1 ≠ key) :
    (es.foldl (fun d e => d.insert e.1 e.2) d).get? key = d.get? key := by
  induction es generalizing d with
  | nil => rfl
  | cons e tl ih =>
    rw [List.foldl_cons, ih (fun e' he => h e' (List.mem_cons_of_mem _ he)), get?_insert,
      if_neg (Ne.symm (h e List.mem_cons_self))]

/-- The last pair with a key is the one that is found. -/
theorem get?_ofList_append_cons (before : List (κ × α)) {after : List (κ × α)} {key : κ}
    {value : α} (h : ∀ e ∈ after, e.1 ≠ key) :
    (ofList (before ++ (key, value) :: after)).get? key = some value := by
  rw [ofList, List.foldl_append, List.foldl_cons, get?_foldl_insert_of_not_mem h, get?_insert,
    if_pos rfl]

/-- Pairs that are entered over a map count before what it holds. -/
theorem get?_foldl_insert_eq (es : List (κ × α)) (d : Dict κ α) (key : κ) :
    (es.foldl (fun d e => d.insert e.1 e.2) d).get? key =
      ((ofList es).get? key).or (d.get? key) := by
  induction es generalizing d with
  | nil => rfl
  | cons e tl ih =>
    rw [ofList, List.foldl_cons, List.foldl_cons, ih, ih, Option.or_assoc, get?_insert, get?_insert,
      get?_empty]
    split <;> rfl

theorem get?_ofList_append (es fs : List (κ × α)) (key : κ) :
    (ofList (es ++ fs)).get? key = ((ofList fs).get? key).or ((ofList es).get? key) := by
  rw [ofList, List.foldl_append, get?_foldl_insert_eq]
  rfl

theorem isSome_foldl_insert {es : List (κ × α)} {d : Dict κ α} {key : κ}
    (h : ∃ e ∈ es, e.1 = key) :
    ((es.foldl (fun d e => d.insert e.1 e.2) d).get? key).isSome := by
  induction es generalizing d with
  | nil => simp at h
  | cons e tl ih =>
    -- the last pair with the key is what counts, so the cases are whether the rest has one
    by_cases ht : ∃ e ∈ tl, e.1 = key
    · exact ih ht
    · have hne : ∀ e ∈ tl, e.1 ≠ key := fun e hm hk => ht ⟨e, hm, hk⟩
      obtain ⟨e', he', hk⟩ := h
      rcases List.mem_cons.mp he' with rfl | hm
      · rw [List.foldl_cons, get?_foldl_insert_of_not_mem hne, get?_insert, if_pos hk.symm]
        rfl
      · exact absurd hk (hne _ hm)

/-- A map entered from the pairs of a partial function. -/
theorem get?_ofList_eq {es : List (κ × α)} {f : κ → Option α}
    (h : ∀ k v, (k, v) ∈ es ↔ f k = some v) (key : κ) : (ofList es).get? key = f key := by
  apply Option.ext
  intro value
  constructor
  · intro hget
    exact (h key value).mp (mem_of_get?_ofList hget)
  · intro hf
    have hs : ((ofList es).get? key).isSome :=
      isSome_foldl_insert ⟨_, (h key value).mpr hf, rfl⟩
    obtain ⟨v, hv⟩ := Option.isSome_iff_exists.mp hs
    -- the function has one value at a key, so whichever pair came last is the one
    rw [hv, ← (h key v).mp (mem_of_get?_ofList hv), hf]

/-- A map entered from pairs with different keys finds what the list of them finds. -/
theorem get?_ofList_of_nodup {es : List (κ × α)} (hd : (es.map Prod.fst).Nodup) (key : κ) :
    (ofList es).get? key = lookup key es :=
  get?_ofList_eq (f := (lookup · es)) (fun _ _ => ⟨lookup_of_mem_of_nodup hd, lookup_mem⟩) key

theorem ofList_entries (d : Dict κ α) : ofList d.entries = d := by
  apply ext_get?
  intro key
  rw [get?_ofList_of_nodup d.keys_nodup]
  rfl

/-- Pairs with the keys of a map are the entries of the map that they are entered into. -/
theorem entries_ofList {es : List (κ × α)} {d : Dict κ β} (h : es.map Prod.fst = d.keys) :
    (ofList es).entries = es := by
  have hincreasing : (es.map Prod.fst).Pairwise (fun a b => compare a b = .lt) := by
    rw [h, keys, List.pairwise_map]
    exact d.increasing
  exact congrArg entries (ofList_entries ⟨es, List.pairwise_map.mp hincreasing⟩)

/-- A map entered from those entries of another one that a partial function is defined on. -/
theorem get?_ofList_filterMap_entries (f : κ → α → Option β) (d : Dict κ α) (key : κ) :
    (ofList (d.entries.filterMap (fun e => (f e.1 e.2).map (fun b => (e.1, b))))).get? key =
      (d.get? key).bind (f key) := by
  refine get?_ofList_eq (f := fun k => (d.get? k).bind (f k)) ?_ key
  intro k b
  rw [List.mem_filterMap, Option.bind_eq_some_iff]
  constructor
  · rintro ⟨⟨k', a⟩, he, hf⟩
    obtain ⟨b', hb, heq⟩ := Option.map_eq_some_iff.mp hf
    obtain ⟨rfl, rfl⟩ := Prod.mk.inj heq
    exact ⟨a, mem_entries_iff.mp he, hb⟩
  · rintro ⟨a, ha, hf⟩
    exact ⟨(k, a), mem_entries_iff.mpr ha, by rw [hf]; rfl⟩

/-- A map entered from the entries of another one. -/
theorem get?_ofList_entries (f : κ → α → β) (d : Dict κ α) (key : κ) :
    (ofList (d.entries.map (fun e => (e.1, f e.1 e.2)))).get? key = (d.get? key).map (f key) := by
  have hall : (d.get? key).map (f key) = (d.get? key).bind (fun a => some (f key a)) :=
    Option.map_eq_bind
  rw [hall, ← get?_ofList_filterMap_entries (fun k a => some (f k a)), ← List.filterMap_eq_map]
  rfl

/-- Of values entered where there is none yet, the first with a key is found, unless one was there
before. -/
theorem get?_foldl_insertIfNew_eq (es : List (κ × α)) (d : Dict κ α) (key : κ) :
    (es.foldl (fun d e => d.insertIfNew e.1 e.2) d).get? key =
      (d.get? key).or (lookup key es) := by
  induction es generalizing d with
  | nil => rw [List.foldl_nil, lookup, Option.or_none]
  | cons e tl ih =>
    rw [List.foldl_cons, ih, get?_insertIfNew, lookup, compare_beq_eq]
    by_cases hk : key = e.1
    · rw [if_pos hk, hk, decide_eq_true rfl, if_pos rfl]
      -- the pair counts only where there was no value for its key
      cases d.get? e.1 with
      | none => rfl
      | some v => rfl
    · rw [if_neg hk, decide_eq_false hk, if_neg Bool.false_ne_true]

/-- A map entered key by key from a partial function. -/
theorem get?_ofList_filterMap (f : κ → Option α) (keys : List κ) (key : κ) :
    (ofList (keys.filterMap (fun k => (f k).map (fun a => (k, a))))).get? key =
      if key ∈ keys then f key else none := by
  refine get?_ofList_eq (f := fun k => if k ∈ keys then f k else none) ?_ key
  intro k v
  rw [List.mem_filterMap, Option.ite_none_right_eq_some]
  constructor
  · rintro ⟨k', hk, hf⟩
    obtain ⟨a, ha, he⟩ := Option.map_eq_some_iff.mp hf
    obtain ⟨rfl, rfl⟩ := Prod.mk.inj he
    exact ⟨hk, ha⟩
  · rintro ⟨hk, hf⟩
    exact ⟨k, hk, by rw [hf]; rfl⟩

end Trellis.Dict

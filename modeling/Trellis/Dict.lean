/-!
Finite maps as entry lists in increasing key order.

The order is part of the type, so two maps with the same look-ups are the same list, and
walking a map always meets its keys in order. `get?_insert` and `get?_erase` say what the two
writers do to the view `get?`.
-/

namespace Trellis

/-- A finite map: its entries, each key once, in increasing order. -/
structure Dict (κ : Type) [Ord κ] (α : Type) where
  entries : List (κ × α)
  increasing : entries.Pairwise (fun a b => compare a.1 b.1 = .lt)

namespace Dict

variable {κ α β : Type} [Ord κ]

def empty : Dict κ α := ⟨[], .nil⟩

instance : Inhabited (Dict κ α) := ⟨empty⟩

def keys (d : Dict κ α) : List κ := d.entries.map Prod.fst

def values (d : Dict κ α) : List α := d.entries.map Prod.snd

def isEmpty (d : Dict κ α) : Bool := d.entries.isEmpty

/-- The value of the entry with this key. -/
def lookup (key : κ) : List (κ × α) → Option α
  | [] => none
  | (k, v) :: rest => if compare key k == .eq then some v else lookup key rest

def get? (d : Dict κ α) (key : κ) : Option α := lookup key d.entries

def contains (d : Dict κ α) (key : κ) : Bool := (d.get? key).isSome

def getD (d : Dict κ α) (key : κ) (fallback : α) : α := (d.get? key).getD fallback

/-- Puts an entry at its place in the order, in place of one with the same key. -/
def put (key : κ) (value : α) : List (κ × α) → List (κ × α)
  | [] => [(key, value)]
  | (k, v) :: rest =>
    match compare key k with
    | .lt => (key, value) :: (k, v) :: rest
    | .eq => (key, value) :: rest
    | .gt => (k, v) :: put key value rest

theorem mem_put {key : κ} {value : α} {e : κ × α} {es : List (κ × α)}
    (h : e ∈ put key value es) : e = (key, value) ∨ e ∈ es := by
  induction es with
  | nil => simpa [put] using h
  | cons hd tl ih =>
    simp only [put] at h
    split at h
    · simpa using h
    · rcases List.mem_cons.1 h with h | h
      · exact .inl h
      · exact .inr (List.mem_cons_of_mem _ h)
    · rcases List.mem_cons.1 h with h | h
      · exact .inr (h ▸ List.mem_cons_self)
      · exact (ih h).imp_right (List.mem_cons_of_mem _)

theorem put_increasing [Std.TransOrd κ] [Std.LawfulEqOrd κ] (key : κ) (value : α) :
    ∀ {es : List (κ × α)}, es.Pairwise (fun a b => compare a.1 b.1 = .lt) →
      (put key value es).Pairwise (fun a b => compare a.1 b.1 = .lt)
  | [], _ => by simp [put]
  | (k, v) :: rest, h => by
    have htl := h.tail
    have hhd : ∀ e ∈ rest, compare k e.1 = .lt := (List.pairwise_cons.1 h).1
    simp only [put]
    split
    · rename_i hlt
      refine List.pairwise_cons.2 ⟨fun e he => ?_, h⟩
      rcases List.mem_cons.1 he with rfl | he
      · exact hlt
      · exact Std.TransCmp.lt_trans hlt (hhd e he)
    · rename_i heq
      obtain rfl := Std.LawfulEqOrd.eq_of_compare heq
      exact List.pairwise_cons.2 ⟨hhd, htl⟩
    · rename_i hgt
      refine List.pairwise_cons.2 ⟨fun e he => ?_, put_increasing key value htl⟩
      rcases mem_put he with rfl | he
      · exact Std.OrientedCmp.lt_of_gt hgt
      · exact hhd e he

def insert [Std.TransOrd κ] [Std.LawfulEqOrd κ] (d : Dict κ α) (key : κ) (value : α) : Dict κ α :=
  ⟨put key value d.entries, put_increasing key value d.increasing⟩

/-- Keeps the entry that is there; otherwise adds this one. -/
def insertIfNew [Std.TransOrd κ] [Std.LawfulEqOrd κ] (d : Dict κ α) (key : κ) (value : α) :
    Dict κ α :=
  if d.contains key then d else d.insert key value

/-- The entries that satisfy a test. -/
def filter (p : κ → α → Bool) (d : Dict κ α) : Dict κ α :=
  ⟨d.entries.filter (fun e => p e.1 e.2), d.increasing.sublist List.filter_sublist⟩

def erase (d : Dict κ α) (key : κ) : Dict κ α := d.filter (fun k _ => compare key k != .eq)

def mapValues (f : α → β) (d : Dict κ α) : Dict κ β :=
  ⟨d.entries.map (fun e => (e.1, f e.2)), List.pairwise_map.2 d.increasing⟩

/-- Replaces the value at a key, if there is one. -/
def modify [DecidableEq κ] (d : Dict κ α) (key : κ) (f : α → α) : Dict κ α :=
  ⟨d.entries.map (fun e => if e.1 = key then (e.1, f e.2) else e), List.pairwise_map.2 <|
    d.increasing.imp (fun {a b} h => by
      show compare (if a.1 = key then (a.1, f a.2) else a).1
        (if b.1 = key then (b.1, f b.2) else b).1 = .lt
      split <;> split <;> exact h)⟩

/-- Enters the pairs in turn, so the last of several with one key wins. -/
def ofList [Std.TransOrd κ] [Std.LawfulEqOrd κ] (es : List (κ × α)) : Dict κ α :=
  es.foldl (fun d e => d.insert e.1 e.2) empty

/-- All entries of the second map over those of the first. -/
def extend [Std.TransOrd κ] [Std.LawfulEqOrd κ] (d cover : Dict κ α) : Dict κ α :=
  cover.entries.foldl (fun d e => d.insert e.1 e.2) d

@[simp] theorem get?_empty (key : κ) : (empty : Dict κ α).get? key = none := rfl

theorem compare_beq_eq [Std.TransOrd κ] [Std.LawfulEqOrd κ] [DecidableEq κ] (a b : κ) :
    (compare a b == .eq) = decide (a = b) := by
  by_cases h : a = b
  · simp [h]
  · simpa only [h, decide_false, beq_eq_false_iff_ne] using
      fun he => h (Std.LawfulEqOrd.eq_of_compare he)

theorem lookup_put [Std.TransOrd κ] [Std.LawfulEqOrd κ] [DecidableEq κ] (key k : κ) (value : α)
    (es : List (κ × α)) :
    lookup k (put key value es) = if k = key then some value else lookup k es := by
  induction es with
  | nil => simp [put, lookup, compare_beq_eq]
  | cons hd tl ih =>
    obtain ⟨k', v'⟩ := hd
    simp only [put]
    split
    · simp [lookup, compare_beq_eq]
    · rename_i heq
      obtain rfl := Std.LawfulEqOrd.eq_of_compare heq
      by_cases h : k = key <;> simp [lookup, compare_beq_eq, h]
    · rename_i hgt
      have hne : key ≠ k' := fun h => by simp [h] at hgt
      by_cases h : k = k'
      · subst h; simp [lookup, Ne.symm hne]
      · simp [lookup, compare_beq_eq, h, ih]

theorem lookup_filter_ne [Std.TransOrd κ] [Std.LawfulEqOrd κ] [DecidableEq κ] (key k : κ)
    (es : List (κ × α)) :
    lookup k (es.filter (fun e => compare key e.1 != .eq)) =
      if k = key then none else lookup k es := by
  induction es with
  | nil => simp [lookup]
  | cons hd tl ih =>
    obtain ⟨k', v'⟩ := hd
    by_cases h : key = k'
    · subst h
      rw [List.filter_cons_of_neg (by simp), ih]
      by_cases hk : k = key <;> simp [lookup, compare_beq_eq, hk]
    · have hc : compare key k' ≠ .eq := fun he => h (Std.LawfulEqOrd.eq_of_compare he)
      rw [List.filter_cons_of_pos (by simpa using hc)]
      by_cases hk : k = k'
      · subst hk; simp [lookup, Ne.symm h]
      · simp [lookup, compare_beq_eq, hk, ih]

@[simp] theorem get?_insert [Std.TransOrd κ] [Std.LawfulEqOrd κ] [DecidableEq κ] (d : Dict κ α)
    (key k : κ) (value : α) :
    (d.insert key value).get? k = if k = key then some value else d.get? k :=
  lookup_put key k value d.entries

@[simp] theorem get?_erase [Std.TransOrd κ] [Std.LawfulEqOrd κ] [DecidableEq κ] (d : Dict κ α)
    (key k : κ) : (d.erase key).get? k = if k = key then none else d.get? k :=
  lookup_filter_ne key k d.entries

end Dict
end Trellis

import Trellis.Proofs.Entries
import Trellis.Proofs.Faults
import Trellis.Spec.Reader
import Trellis.Spec.Writer

/-! What is read back from written records: each kind of member by itself, then the records. -/
namespace Trellis

namespace Dict

variable {κ α : Type} [Ord κ] [Std.TransOrd κ] [Std.LawfulEqOrd κ] [DecidableEq κ]

omit [Std.TransOrd κ] [Std.LawfulEqOrd κ] [DecidableEq κ] in
theorem lookup_append (key : κ) (es fs : List (κ × α)) :
    lookup key (es ++ fs) = (lookup key es).or (lookup key fs) := by
  induction es with
  | nil => rfl
  | cons e tl ih =>
    rw [List.cons_append, lookup, lookup, ih]
    split <;> rfl

theorem lookup_eq_none {key : κ} {es : List (κ × α)} (h : key ∉ es.map Prod.fst) :
    lookup key es = none := by
  rw [Option.eq_none_iff_forall_ne_some]
  intro value hv
  exact h (List.mem_map_of_mem (lookup_mem hv))

theorem lookup_optional (key name : String) {β : Type} (f : β → Json) (o : Option β) :
    lookup key (Json.optional name f o) = if key = name then o.map f else none := by
  cases o with
  | none => simp [Json.optional, lookup]
  | some b => simp [Json.optional, lookup, compare_beq_eq]

theorem lookup_unlessEmpty (key name : String) {β : Type} (f : β → Json) (xs : List β) :
    lookup key (Json.unlessEmpty name f xs) =
      if key = name ∧ xs ≠ [] then some (.arr (xs.map f)) else none := by
  cases xs with
  | nil => simp [Json.unlessEmpty, lookup]
  | cons x rest => simp [Json.unlessEmpty, lookup, compare_beq_eq]

theorem names_optional (name : String) {β : Type} (f : β → Json) (o : Option β) :
    ((Json.optional name f o).map Prod.fst).Sublist [name] := by
  cases o with
  | none => exact List.nil_sublist _
  | some b => exact List.Sublist.refl _

theorem names_unlessEmpty (name : String) {β : Type} (f : β → Json) (xs : List β) :
    ((Json.unlessEmpty name f xs).map Prod.fst).Sublist [name] := by
  cases xs with
  | nil => exact List.nil_sublist _
  | cons x rest => exact List.Sublist.refl _

theorem mapValues_eq_iff (f : α → α) (d : Dict κ α) :
    d.mapValues f = d ↔ ∀ a ∈ d.values, f a = a := by
  constructor
  · intro h a ha
    obtain ⟨key, hkey⟩ := mem_values_iff.mp ha
    have hmap := get?_mapValues f d key
    rw [h, hkey] at hmap
    exact (Option.some.inj hmap).symm
  · intro h
    apply ext_get?
    intro key
    rw [get?_mapValues]
    cases hkey : d.get? key with
    | none => rfl
    | some a => exact congrArg some (h a (mem_values_iff.mpr ⟨key, hkey⟩))

end Dict

/-- Whatever is read is written such that the same is read again, and is not written as null unless
it was read of null. -/
structure Decode.RoundTrips {α : Type} (d : Decode α) (f : α → Json) : Prop where
  ne_null : ∀ {j a}, j ≠ .null → d j = .ok a → f a ≠ .null
  back : ∀ {j a}, d j = .ok a → d (f a) = .ok a

theorem Decode.nullable_of_ne {α : Type} (d : Decode α) {j : Json} (h : j ≠ .null) :
    nullable d j = some <$> d j := by
  unfold nullable
  split
  · exact absurd rfl h
  · rfl

namespace Fields

variable {α : Type}

/-- The fields of a written object. -/
def written (members : List (String × Json)) : Fields := .named (Dict.ofList members).entries

theorem ofJson_object (count : Nat) (members : List (String × Json)) :
    ofJson count (.object members) = .ok (written members) := rfl

variable {members : List (String × Json)} {name : String} {j : Json}

theorem get?_written (hd : (members.map Prod.fst).Nodup) (index : Nat) (name : String) :
    (written members).get? index name = Dict.lookup name members :=
  Dict.get?_ofList_of_nodup hd name

theorem get?_written_of_mem (hd : (members.map Prod.fst).Nodup) (h : (name, j) ∈ members)
    (index : Nat) : (written members).get? index name = some j := by
  rw [get?_written hd, Dict.lookup_of_mem_of_nodup hd h]

theorem required_written (hd : (members.map Prod.fst).Nodup) (h : (name, j) ∈ members)
    (index : Nat) (d : Decode α) : (written members).required index name d = d j := by
  rw [required, get?_written_of_mem hd h]

theorem required_written_of_not_mem (hd : (members.map Prod.fst).Nodup)
    (h : name ∉ members.map Prod.fst) (index : Nat) (d : Decode α) :
    (written members).required index name d = Decode.fail ("the field " ++ name) := by
  rw [required, get?_written hd, Dict.lookup_eq_none h]

theorem withDefault_written (hd : (members.map Prod.fst).Nodup) (h : (name, j) ∈ members)
    (index : Nat) (default : α) (d : Decode α) :
    (written members).withDefault index name default d = d j := by
  rw [withDefault, get?_written_of_mem hd h]

theorem required_eq_ok {fields : Fields} {index : Nat} {d : Decode α} {a : α}
    (h : fields.required index name d = .ok a) : ∃ j, d j = .ok a := by
  unfold required at h
  split at h
  · exact ⟨_, h⟩
  · exact absurd h (by simp [Decode.fail])

theorem withDefault_eq_ok {fields : Fields} {index : Nat} {default : α} {d : Decode α} {a : α}
    (h : fields.withDefault index name default d = .ok a) : a = default ∨ ∃ j, d j = .ok a := by
  unfold withDefault at h
  split at h
  · exact .inr ⟨_, h⟩
  · exact .inl (Except.ok.inj h).symm

/-- What is read of an optional field was read of a value, and not of null. -/
theorem optional_eq_ok {fields : Fields} {index : Nat} {d : Decode α} {o : Option α}
    (h : fields.optional index name d = .ok o) :
    o = none ∨ ∃ j a, o = some a ∧ j ≠ .null ∧ d j = .ok a := by
  unfold optional at h
  cases hj : fields.get? index name with
  | none =>
    rw [hj] at h
    exact .inl (Except.ok.inj h).symm
  | some j =>
    rw [hj] at h
    dsimp only at h
    by_cases hnull : j = .null
    · subst hnull
      exact .inl (Except.ok.inj h).symm
    · rw [Decode.nullable_of_ne d hnull] at h
      cases ha : d j with
      | error e => exact absurd (ha ▸ h) nofun
      | ok a =>
        rw [ha] at h
        exact .inr ⟨j, a, (Except.ok.inj h).symm, hnull, ha⟩

theorem optional_back {d : Decode α} {f : α → Json} (hdf : d.RoundTrips f) {fields : Fields}
    {index : Nat} {o : Option α} (h : fields.optional index name d = .ok o) :
    Decode.nullable d (Json.ofOption f o) = .ok o := by
  rcases optional_eq_ok h with rfl | ⟨j, a, rfl, hj, ha⟩
  · rfl
  · dsimp only [Json.ofOption]
    rw [Decode.nullable_of_ne d (hdf.ne_null hj ha), hdf.back ha]
    rfl

theorem optional_written (hd : (members.map Prod.fst).Nodup) {d : Decode α} {f : α → Json}
    {o : Option α} (h : (name, Json.ofOption f o) ∈ members) (hdf : d.RoundTrips f)
    {fields : Fields} {index : Nat} (ho : fields.optional index name d = .ok o) (k : Nat) :
    (written members).optional k name d = .ok o := by
  rw [optional, get?_written_of_mem hd h]
  exact optional_back hdf ho

/-- Fields that are left out when there is nothing to write. -/
theorem given_written (hd : (members.map Prod.fst).Nodup) {d : Decode α} {f : α → Json}
    {o : Option α} (h : Dict.lookup name members = o.map f) (hdf : d.RoundTrips f)
    {fields : Fields} {index : Nat} (ho : fields.optional index name d = .ok o) (k : Nat) :
    (written members).optional k name d = .ok o := by
  rw [optional, get?_written hd, h]
  have hback := optional_back hdf ho
  cases o with
  | none => rfl
  | some a => exact hback

theorem default_written (hd : (members.map Prod.fst).Nodup) {d : Decode α} {f : α → Json}
    {default a : α} (h : (name, f a) ∈ members) (hdf : d.RoundTrips f) {fields : Fields}
    {index : Nat} (ha : fields.withDefault index name default d = .ok a) {j : Json}
    (hj : d j = .ok default) (k : Nat) :
    (written members).withDefault k name default d = .ok a := by
  rw [withDefault_written hd h]
  rcases withDefault_eq_ok ha with rfl | ⟨i, hi⟩
  · exact hdf.back hj
  · exact hdf.back hi

/-! Members under names that are not known -/

theorem get?_others (fields : Fields) (names : List String) :
    ∀ n ∈ names, (Dict.ofList (fields.others names)).get? n = none := by
  intro n hn
  rw [Option.eq_none_iff_forall_ne_some]
  intro j hj
  have hmem := Dict.mem_of_get?_ofList hj
  unfold others at hmem
  split at hmem
  · simp [hn] at hmem
  · exact absurd hmem List.not_mem_nil

variable {known : List (String × Json)} {extra : Dict String Json}

theorem nodup_withOthers (known : List (String × Json)) (hk : (known.map Prod.fst).Nodup)
    (he : ∀ n ∈ known.map Prod.fst, extra.get? n = none) :
    ((known ++ extra.entries).map Prod.fst).Nodup := by
  rw [List.map_append, List.nodup_append']
  refine ⟨hk, extra.keys_nodup, ?_⟩
  intro n hn hx
  have := Dict.mem_keys_iff.mp hx
  rw [Dict.contains, he n hn] at this
  exact absurd this Bool.false_ne_true

theorem ofList_others_written (hd : ((known ++ extra.entries).map Prod.fst).Nodup)
    (he : ∀ n ∈ known.map Prod.fst, extra.get? n = none) :
    Dict.ofList ((written (known ++ extra.entries)).others (known.map Prod.fst)) = extra := by
  have hfilter : (written (known ++ extra.entries)).others (known.map Prod.fst) =
      ((Dict.ofList (known ++ extra.entries)).filter
        (fun n _ => !(known.map Prod.fst).contains n)).entries := rfl
  rw [hfilter, Dict.ofList_entries]
  apply Dict.ext_get?
  intro n
  rw [Dict.get?_filter, Dict.get?_ofList_of_nodup hd, Dict.lookup_append]
  by_cases hn : n ∈ known.map Prod.fst
  · rw [he n hn, List.contains_iff_mem.mpr hn, Option.filter_eq_none_iff]
    exact fun _ _ => Bool.false_ne_true
  · have htest : (!(known.map Prod.fst).contains n) = true := by simpa using hn
    rw [Dict.lookup_eq_none hn, Option.none_or, htest]
    cases h : extra.get? n with
    | none => exact congrArg (Option.filter fun _ => true) h
    | some j => exact congrArg (Option.filter fun _ => true) h

end Fields

namespace Decode

variable {α β : Type}

theorem any_roundTrips : RoundTrips any id :=
  ⟨fun hj h => Except.ok.inj h ▸ hj, fun _ => rfl⟩

theorem string_roundTrips : RoundTrips string .str := ⟨fun _ _ => nofun, fun _ => rfl⟩

theorem bool_roundTrips : RoundTrips bool .bool := ⟨fun _ _ => nofun, fun _ => rfl⟩

theorem number_roundTrips : RoundTrips number .real := ⟨fun _ _ => nofun, fun _ => rfl⟩

theorem defaultNumber_written {members : List (String × Json)} {name : String}
    {default a : Binary64} (hd : (members.map Prod.fst).Nodup) (h : (name, .real a) ∈ members)
    {fields : Fields} {index : Nat}
    (ha : fields.withDefault index name default number = .ok a) (k : Nat) :
    (Fields.written members).withDefault k name default number = .ok a :=
  Fields.default_written hd h number_roundTrips ha (j := .real default) rfl k

theorem defaultString_written {members : List (String × Json)} {name : String} {default a : String}
    (hd : (members.map Prod.fst).Nodup) (h : (name, .str a) ∈ members) {fields : Fields}
    {index : Nat} (ha : fields.withDefault index name default string = .ok a) (k : Nat) :
    (Fields.written members).withDefault k name default string = .ok a :=
  Fields.default_written hd h string_roundTrips ha (j := .str default) rfl k

theorem choice_roundTrips {all : List α} {name : α → String}
    (h : ∀ a, named all name (name a) = .ok a) :
    RoundTrips (choice all name) (fun a => .str (name a)) :=
  ⟨fun _ _ => nofun, fun {_ a} _ => h a⟩

/-- An object is no name, unless its only member is null. -/
theorem choice_object {all : List α} {name : α → String} {members : List (String × Json)}
    {key : String} {j : Json} (hd : (members.map Prod.fst).Nodup) (h : (key, j) ∈ members)
    (hj : j ≠ .null) : choice all name (.object members) = fail "a name" := by
  have hget : (Dict.ofList members).get? key = some j := by
    rw [Dict.get?_ofList_of_nodup hd, Dict.lookup_of_mem_of_nodup hd h]
  unfold choice
  split
  · rename_i heq
    exact absurd heq (by simp [Json.object])
  · rename_i k heq
    rw [Dict.get?, Json.obj.inj heq, Dict.lookup] at hget
    split at hget
    · exact absurd (Option.some.inj hget).symm hj
    · exact absurd hget (by simp [Dict.lookup])
  · rfl

theorem orElse_eq_ok {first second : Decode α} {j : Json} {a : α}
    (h : orElse first second j = .ok a) : first j = .ok a ∨ second j = .ok a := by
  unfold orElse at h
  split at h
  · rename_i hfirst
    exact .inl (hfirst.trans h)
  · exact .inr h

theorem orElse_of_error {first : Decode α} {j : Json} {e : ReadError} (h : first j = .error e)
    (second : Decode α) : orElse first second j = second j := by
  rw [orElse, h]

theorem mem_each {d : Decode α} {js : List Json} {as : List α} (h : each d js = .ok as) {a : α}
    (ha : a ∈ as) : ∃ j ∈ js, d j = .ok a := by
  induction js generalizing as with
  | nil =>
    obtain rfl := Except.ok.inj h
    exact absurd ha List.not_mem_nil
  | cons j rest ih =>
    obtain ⟨b, hb, h⟩ := bind_eq_ok.mp h
    obtain ⟨bs, hbs, h⟩ := bind_eq_ok.mp h
    obtain rfl := Except.ok.inj h
    rcases List.mem_cons.mp ha with rfl | ha
    · exact ⟨j, List.mem_cons_self, hb⟩
    · obtain ⟨k, hk, hka⟩ := ih hbs ha
      exact ⟨k, List.mem_cons_of_mem _ hk, hka⟩

theorem each_map {d : Decode α} {f : β → Json} {g : β → α} {bs : List β}
    (h : ∀ b ∈ bs, d (f b) = .ok (g b)) : each d (bs.map f) = .ok (bs.map g) := by
  induction bs with
  | nil => rfl
  | cons b rest ih =>
    obtain ⟨hb, hrest⟩ := List.forall_mem_cons.mp h
    rw [List.map_cons, each, hb, ih hrest]
    rfl

theorem list_eq_ok {d : Decode α} {j : Json} {as : List α} (h : list d j = .ok as) :
    ∀ a ∈ as, ∃ k, d k = .ok a := by
  intro a ha
  unfold list at h
  split at h
  · obtain ⟨k, -, hk⟩ := mem_each h ha
    exact ⟨k, hk⟩
  · exact absurd h (by simp [fail])

theorem list_roundTrips {d : Decode α} {f : α → Json} (hdf : RoundTrips d f) :
    RoundTrips (list d) (fun as => .arr (as.map f)) := by
  refine ⟨fun _ _ => nofun, ?_⟩
  intro j as h
  have heach : each d (as.map f) = .ok (as.map id) := by
    apply each_map
    intro a ha
    obtain ⟨k, hk⟩ := list_eq_ok h a ha
    exact hdf.back hk
  rw [List.map_id] at heach
  exact heach

theorem strings_roundTrips : RoundTrips (list string) Json.strings :=
  list_roundTrips string_roundTrips

theorem values_roundTrips : RoundTrips (list any) .arr := by
  have h := list_roundTrips any_roundTrips
  simpa only [List.map_id] using h

theorem mem_eachMember_iff {key : String → Except ReadError α} {item : Decode β}
    {ms : List (String × Json)} {es : List (α × β)} (h : eachMember key item ms = .ok es)
    {e : α × β} : e ∈ es ↔ ∃ m ∈ ms, key m.1 = .ok e.1 ∧ item m.2 = .ok e.2 := by
  induction ms generalizing es with
  | nil =>
    obtain rfl := Except.ok.inj h
    simp
  | cons m rest ih =>
    obtain ⟨a, ha, h⟩ := bind_eq_ok.mp h
    obtain ⟨b, hb, h⟩ := bind_eq_ok.mp h
    obtain ⟨fs, hfs, h⟩ := bind_eq_ok.mp h
    obtain rfl := Except.ok.inj h
    rw [List.mem_cons, ih hfs, List.exists_mem_cons_iff, ha, hb]
    -- a member is read in one way only
    have he : e = (a, b) ↔ Except.ok (ε := ReadError) a = .ok e.1 ∧
        Except.ok (ε := ReadError) b = .ok e.2 := by
      rw [Except.ok.injEq, Except.ok.injEq, Prod.ext_iff, eq_comm, @eq_comm _ e.2]
    rw [he]

theorem exists_eachMember {key : String → Except ReadError α} {item : Decode β}
    {ms : List (String × Json)}
    (h : ∀ m ∈ ms, (∃ a, key m.1 = .ok a) ∧ ∃ b, item m.2 = .ok b) :
    ∃ es, eachMember key item ms = .ok es := by
  induction ms with
  | nil => exact ⟨[], rfl⟩
  | cons m rest ih =>
    obtain ⟨⟨⟨a, ha⟩, b, hb⟩, hrest⟩ := List.forall_mem_cons.mp h
    obtain ⟨es, hes⟩ := ih hrest
    exact ⟨(a, b) :: es, by rw [eachMember, ha, hb, hes]; rfl⟩

section
variable [Ord α] [Std.TransOrd α] [Std.LawfulEqOrd α] [DecidableEq α]

theorem dict_eq_ok {key : String → Except ReadError α} {item : Decode β} {j : Json}
    {e : Dict α β} (h : dict key item j = .ok e) :
    ∀ a b, e.get? a = some b → ∃ k, item k = .ok b := by
  intro a b hab
  unfold dict at h
  split at h
  · obtain ⟨es, hes, h⟩ := bind_eq_ok.mp h
    obtain rfl := Except.ok.inj h
    obtain ⟨m, -, -, hm⟩ := (mem_eachMember_iff hes).mp (Dict.mem_of_get?_ofList hab)
    exact ⟨m.2, hm⟩
  · exact absurd h (by simp [fail])

/-- The entries of a map that is written under names. The names stand in another order than the
keys. -/
theorem mem_named_iff {name : α → String} (hname : Function.Injective name) (f : β → Json)
    (d : Dict α β) {m : String × Json} :
    m ∈ (Dict.ofList (d.entries.map (fun e => (name e.1, f e.2)))).entries ↔
      ∃ a b, d.get? a = some b ∧ name a = m.1 ∧ f b = m.2 := by
  have hdistinct : ((d.entries.map (fun e => (name e.1, f e.2))).map Prod.fst).Nodup := by
    rw [List.map_map]
    have hnames : (d.keys.map name).Nodup := d.keys_nodup.map hname
    rw [Dict.keys, List.map_map] at hnames
    exact hnames
  obtain ⟨n, j⟩ := m
  rw [Dict.mem_entries_iff, Dict.get?_ofList_of_nodup hdistinct]
  constructor
  · intro h
    obtain ⟨⟨a, b⟩, he, heq⟩ := List.mem_map.mp (Dict.lookup_mem h)
    obtain ⟨rfl, rfl⟩ := Prod.mk.inj heq
    exact ⟨a, b, Dict.mem_entries_iff.mp he, rfl, rfl⟩
  · rintro ⟨a, b, hab, rfl, rfl⟩
    exact Dict.lookup_of_mem_of_nodup hdistinct
      (List.mem_map.mpr ⟨(a, b), Dict.mem_entries_iff.mpr hab, rfl⟩)

/-- A map whose names can be read comes back with its values as they come back. -/
theorem dict_object {key : String → Except ReadError α} {name : α → String}
    (hkey : ∀ a, key (name a) = .ok a) {item : Decode β} {f : β → Json} {g : β → β}
    {d : Dict α β}
    (hitem : ∀ a b, d.get? a = some b → item (f b) = .ok (g b)) :
    dict key item (.object (d.entries.map (fun e => (name e.1, f e.2)))) =
      .ok (d.mapValues g) := by
  have hname : Function.Injective name := by
    intro a b h
    have := hkey a
    rw [h, hkey b] at this
    exact (Except.ok.inj this).symm
  obtain ⟨es, hes⟩ : ∃ es, eachMember key item
      (Dict.ofList (d.entries.map (fun e => (name e.1, f e.2)))).entries = .ok es := by
    apply exists_eachMember
    intro m hm
    obtain ⟨a, b, hab, hn, hj⟩ := (mem_named_iff hname f d).mp hm
    exact ⟨⟨a, hn ▸ hkey a⟩, g b, hj ▸ hitem a b hab⟩
  -- each key is read from the one member that has its name
  have hpair (a : α) (c : β) : (a, c) ∈ es ↔ (d.mapValues g).get? a = some c := by
    rw [mem_eachMember_iff hes, Dict.get?_mapValues, Option.map_eq_some_iff]
    constructor
    · rintro ⟨m, hm, hka, hic⟩
      obtain ⟨a', b, hab, hn, hj⟩ := (mem_named_iff hname f d).mp hm
      rw [← hn, hkey] at hka
      rw [← hj, hitem a' b hab] at hic
      obtain rfl := Except.ok.inj hka
      exact ⟨b, hab, Except.ok.inj hic⟩
    · rintro ⟨b, hab, rfl⟩
      exact ⟨(name a, f b), (mem_named_iff hname f d).mpr ⟨a, b, hab, rfl, rfl⟩, hkey a,
        hitem a b hab⟩
  have hresult : Dict.ofList es = d.mapValues g := Dict.ext_get? (Dict.get?_ofList_eq hpair)
  unfold dict Json.object
  dsimp only
  rw [hes, ← hresult]
  rfl

theorem dict_roundTrips {key : String → Except ReadError α} {name : α → String}
    (hkey : ∀ a, key (name a) = .ok a) {item : Decode β} {f : β → Json}
    (hitem : RoundTrips item f) :
    RoundTrips (dict key item)
      (fun d => .object (d.entries.map (fun e => (name e.1, f e.2)))) := by
  refine ⟨fun _ _ => nofun, ?_⟩
  intro j d hd
  have h := dict_object hkey (g := id) (fun a b hab => by
    obtain ⟨k, hk⟩ := dict_eq_ok hd a b hab
    exact hitem.back hk)
  rwa [Dict.mapValues_id] at h

end

end Decode
end Trellis

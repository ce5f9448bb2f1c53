import Trellis.Proofs.Bands
import Trellis.Proofs.Emitted

/-! What the arrays of an emitted program hold. However deep groups are nested, their arrays of
scales, axes and legends together hold what the nodes hold, once each, and their arrays of marks hold
the marks of the units, beside cells, headers and titles. -/
namespace Trellis

/-! ### Reading a program -/

namespace Json

def elements : Json → List Json
  | arr items => items
  | _ => []

def string? : Json → Option String
  | str text => some text
  | _ => none

/-- What an object lists under a key. -/
def listed (key : String) (j : Json) : List Json := (j.member? key).elim [] elements

/-- The text that an object has under a key. -/
def text? (key : String) (j : Json) : Option String := (j.member? key).bind string?

theorem sizeOf_member?_lt {key : String} {j value : Json} (h : j.member? key = some value) :
    sizeOf value < sizeOf j := by
  cases j with
  | obj members =>
    have hvalue := Dict.sizeOf_lookup_lt h
    rw [obj.sizeOf_spec]
    omega
  | _ => cases h

theorem sizeOf_listed_lt {key : String} {j m : Json} (h : m ∈ j.listed key) :
    sizeOf m < sizeOf j := by
  unfold listed at h
  cases hget : j.member? key with
  | none =>
    rw [hget] at h
    exact absurd h List.not_mem_nil
  | some value =>
    rw [hget] at h
    have hvalue := sizeOf_member?_lt hget
    cases value with
    | arr items =>
      have hitem : sizeOf m < sizeOf items := List.sizeOf_lt_of_mem h
      rw [arr.sizeOf_spec] at hvalue
      omega
    | _ => exact absurd h List.not_mem_nil

/-- The marks in an object at any depth: those that it lists, each before those in it. -/
def marks (j : Json) : List Json :=
  (j.listed "marks").attach.flatMap (fun m => m.1 :: marks m.1)
termination_by sizeOf j
decreasing_by exact sizeOf_listed_lt m.2

/-- An object and the marks in it. -/
def withMarks (j : Json) : List Json := j :: j.marks

theorem marks_eq (j : Json) : j.marks = (j.listed "marks").flatMap withMarks := by
  rw [marks]
  conv_rhs => rw [← List.attach_map_subtype_val (j.listed "marks"), List.flatMap_map]
  rfl

/-- A header or footer of a facet. -/
def isHeader (j : Json) : Bool :=
  (j.text? "role").any
    (fun role => ["row-header", "row-footer", "column-header", "column-footer"].contains role)

/-- The axes that an object lists as a header or footer. -/
def headerAxes (j : Json) : List Json := if j.isHeader then j.listed "axes" else []

/-- The axes that an object lists otherwise. -/
def ownAxes (j : Json) : List Json := if j.isHeader then [] else j.listed "axes"

/-- A cell, or the mark of a unit or a part of it; headers and titles have a role. -/
def isContent (j : Json) : Bool := (j.text? "role").isNone

/-- Content that is no group. -/
def isPlain (j : Json) : Bool := j.isContent && (j.text? "type").any (fun type => type != "group")

end Json

/-- What is listed are some things, in any order and once each, written in some way. -/
def Json.Lists {α : Type} (written : α → Json → Prop) (xs : List α) (listed : List Json) : Prop :=
  ∃ js, List.Forall₂ written xs js ∧ listed.Perm js

/-! ### How things are written -/

/-- The JSON of a scale, under its name. -/
structure NamedScale.WrittenAs (s : NamedScale) (j : Json) : Prop where
  whole : j = s.toJson
  name : j.member? "name" = some (.str s.name)
  type : j.member? "type" = some (.str s.scale.type.name)

/-- The JSON of an axis. Where further properties are given, they count. -/
structure Axis.WrittenAs (a : Axis) (j : Json) : Prop where
  whole : j = a.toJson
  scale : j.member? "scale" = some ((a.extra.get? "scale").getD (.str a.scale))
  orient : j.member? "orient" = some ((a.extra.get? "orient").getD (.str a.orient.name))
  title : j.member? "title" = some ((a.extra.get? "title").getD (.str a.title))

/-- The JSON of a legend. Where further properties are given, they count. -/
structure Legend.WrittenAs (l : Legend) (j : Json) : Prop where
  whole : j = l.toJson
  scale : l.property ∈ Legend.scaleKeys →
    j.member? l.property = some ((l.extra.get? l.property).getD (.str l.scale))
  title : j.member? "title" = some ((l.extra.get? "title").getD (.str l.title))

/-- The JSON of a unit's mark by itself, without the group around the paths of a series. -/
structure UnitMark.WrittenAs (m : UnitMark) (j : Json) : Prop where
  whole : j = m.bodyToJson ((m.series.map Series.data).getD m.source)
  name : j.member? "name" = some (.str m.name)
  type : j.member? "type" = some (.str m.type.primitive)

theorem NamedScale.writtenAs (s : NamedScale) : s.WrittenAs s.toJson where
  whole := rfl
  name := by
    rw [toJson, Scale.member?_toJson]
    simp [Dict.lookup]
  type := Scale.member?_type

theorem Axis.writtenAs (a : Axis) : a.WrittenAs a.toJson := by
  refine ⟨rfl, ?_, ?_, ?_⟩
  all_goals
    rw [member?_toJson]
    simp [Dict.lookup, Dict.compare_beq_eq]

theorem Legend.writtenAs (l : Legend) : l.WrittenAs l.toJson where
  whole := rfl
  scale hkey := by
    rw [member?_toJson, ← List.nil_append (_ :: _),
      Dict.get?_ofList_append_cons _ (key_ne_of_mem_caption hkey), Option.or_some]
  title := by
    -- the last member with a key counts, so none behind the title may be called like it
    have hother : ∀ e ∈ Json.optional "format" Json.str l.format ++
        Json.optional "type" Json.str l.type, e.1 ≠ "title" := by
      have hnames : ((Json.optional "format" Json.str l.format ++
          Json.optional "type" Json.str l.type).map Prod.fst).Sublist ["format", "type"] := by
        rw [List.map_append]
        exact (Dict.names_optional _ _ _).append (Dict.names_optional _ _ _)
      intro e he hsame
      have hmem := hnames.subset (List.mem_map_of_mem he)
      rw [hsame] at hmem
      exact absurd hmem (by decide)
    rw [member?_toJson, caption, ← List.singleton_append, Dict.get?_ofList_append_cons _ hother,
      Option.or_some]

theorem UnitMark.member?_bodyToJson (m : UnitMark) (data key : String) :
    (m.bodyToJson data).member? key = Dict.lookup key [
      ("name", .str m.name), ("type", .str m.type.primitive),
      ("style", Json.strings [m.type.name]), ("from", .object [("data", .str data)]),
      ("encode", encodeUpdate m.update.toJson)] :=
  Json.member?_of_nodup (by simp) key

theorem UnitMark.writtenAs (m : UnitMark) :
    m.WrittenAs (m.bodyToJson ((m.series.map Series.data).getD m.source)) where
  whole := rfl
  name := by
    rw [member?_bodyToJson]
    simp [Dict.lookup]
  type := by
    rw [member?_bodyToJson]
    simp [Dict.lookup, Dict.compare_beq_eq]

/-! ### Groups as objects -/

/-- An object lists what a group shows, and is no part of a header or title. -/
structure Json.Shows (j : Json) (g : Group) : Prop where
  marks : j.listed "marks" = g.marks.map GroupMark.toJson
  scales : j.listed "scales" = g.scales.map NamedScale.toJson
  axes : j.listed "axes" = g.axes.map Axis.toJson
  legends : j.listed "legends" = g.legends.map Legend.toJson
  role : j.text? "role" = none

theorem Json.Shows.isHeader {j : Json} {g : Group} (h : j.Shows g) : j.isHeader = false := by
  rw [Json.isHeader, h.role]
  rfl

theorem Json.Shows.isContent {j : Json} {g : Group} (h : j.Shows g) : j.isContent = true := by
  rw [Json.isContent, h.role]
  rfl

theorem Json.Shows.headerAxes {j : Json} {g : Group} (h : j.Shows g) : j.headerAxes = [] := by
  rw [Json.headerAxes, h.isHeader, if_neg Bool.false_ne_true]

theorem Json.Shows.ownAxes {j : Json} {g : Group} (h : j.Shows g) :
    j.ownAxes = g.axes.map Axis.toJson := by
  rw [Json.ownAxes, h.isHeader, if_neg Bool.false_ne_true, h.axes]

namespace Group

/-- The members that a group may have. -/
def keys : List String := ["signals", "layout", "marks", "scales", "axes", "legends"]

theorem marksToJson_eq (ms : List GroupMark) : marksToJson ms = ms.map GroupMark.toJson := by
  induction ms with
  | nil => rfl
  | cons m rest ih => rw [marksToJson, ih, List.map_cons]

/-- A group has its members in this order, and empty lists are left out. -/
theorem members_eq (g : Group) : g.members =
    Json.unlessEmpty "signals" Signal.toJson g.signals ++
      Json.optional "layout" GridLayout.toJson g.layout ++
      Json.unlessEmpty "marks" GroupMark.toJson g.marks ++
      Json.unlessEmpty "scales" NamedScale.toJson g.scales ++
      Json.unlessEmpty "axes" Axis.toJson g.axes ++
      Json.unlessEmpty "legends" Legend.toJson g.legends := by
  cases g with
  | mk signals layout marks scales axes legends =>
    rw [members, marksToJson_eq]
    rfl

theorem names_members (g : Group) : (g.members.map Prod.fst).Sublist keys := by
  rw [members_eq]
  simp only [List.map_append]
  exact (((((Dict.names_unlessEmpty _ _ _).append (Dict.names_optional _ _ _)).append
    (Dict.names_unlessEmpty _ _ _)).append (Dict.names_unlessEmpty _ _ _)).append
    (Dict.names_unlessEmpty _ _ _)).append (Dict.names_unlessEmpty _ _ _)

variable {front : List (String × Json)} {names : List String}

theorem names_object (hfront : (front.map Prod.fst).Sublist names) (g : Group) :
    ((front ++ g.members).map Prod.fst).Sublist (names ++ keys) := by
  rw [List.map_append]
  exact hfront.append g.names_members

/-- A group with further members in front has each member in one place. -/
theorem member?_object (hfront : (front.map Prod.fst).Sublist names)
    (hdistinct : (names ++ keys).Nodup) (g : Group) (key : String) :
    (Json.object (front ++ g.members)).member? key =
      (Dict.lookup key front).or (Dict.lookup key g.members) := by
  rw [Json.member?_of_nodup ((names_object hfront g).nodup hdistinct), Dict.lookup_append]

/-- A group with further members in front is an object that shows the group. -/
theorem shows_object (hfront : (front.map Prod.fst).Sublist names)
    (hdistinct : (names ++ keys).Nodup) (hrole : "role" ∉ names ++ keys) (g : Group) :
    (Json.object (front ++ g.members)).Shows g := by
  have hnone {key : String} (hkey : key ∈ keys) : Dict.lookup key front = none := by
    refine Dict.lookup_eq_none (fun hmem => ?_)
    exact (List.nodup_append.mp hdistinct).2.2 key (hfront.subset hmem) key hkey rfl
  -- an empty list is left out, and read as a list with nothing in it
  have hlisted {α : Type} {key : String} (hkey : key ∈ keys) {f : α → Json} {xs : List α}
      (hget : Dict.lookup key g.members = if xs ≠ [] then some (.arr (xs.map f)) else none) :
      (Json.object (front ++ g.members)).listed key = xs.map f := by
    rw [Json.listed, member?_object hfront hdistinct, hnone hkey, Option.none_or, hget]
    cases xs with
    | nil => rfl
    | cons x rest => rfl
  constructor
  case role =>
    have hno : "role" ∉ (front ++ g.members).map Prod.fst :=
      fun hmem => hrole ((names_object hfront g).subset hmem)
    rw [Json.text?, Json.member?_of_nodup ((names_object hfront g).nodup hdistinct),
      Dict.lookup_eq_none hno]
    rfl
  all_goals
    refine hlisted (by decide) ?_
    rw [members_eq]
    simp [Dict.lookup_append, Dict.lookup_optional, Dict.lookup_unlessEmpty]

end Group

namespace Visualization

variable (v : Visualization)

/-- The members in front of those of the group at the top. -/
def front : List (String × Json) :=
  [("$schema", .str Naming.schema), ("autosize", .str "pad"), ("padding", .int 5)] ++
    Json.optional "title" .str v.title ++ Json.unlessEmpty "data" Dataset.toJson v.data

theorem names_front : (v.front.map Prod.fst).Sublist
    ["$schema", "autosize", "padding", "title", "data"] := by
  unfold front
  simp only [List.map_append]
  exact ((List.Sublist.refl ["$schema", "autosize", "padding"]).append
    (Dict.names_optional _ _ _)).append (Dict.names_unlessEmpty _ _ _)

/-- The signals of all views go in front of those of the group, and all else is the group's. -/
theorem toJson_eq : v.toJson = .object (v.front ++ (Group.mk (v.signals ++ v.group.signals)
    v.group.layout v.group.marks v.group.scales v.group.axes v.group.legends).members) := by
  obtain ⟨title, data, own, ⟨signals, layout, marks, scales, axes, legends⟩⟩ := v
  rfl

/-- A visualization is an object that shows the group at the top. -/
theorem shows : v.toJson.Shows v.group := by
  rw [toJson_eq]
  obtain ⟨hmarks, hscales, haxes, hlegends, hrole⟩ := Group.shows_object v.names_front (by decide)
    (by decide) (.mk (v.signals ++ v.group.signals) v.group.layout v.group.marks v.group.scales
      v.group.axes v.group.legends)
  exact ⟨hmarks, hscales, haxes, hlegends, hrole⟩

end Visualization

/-- The cells of a facet as they are emitted. -/
def Cell.toJson (c : Cell) : Json := (GroupMark.cell c.mark c.data c.content).toJson

namespace Cell

theorem names_front (c : Cell) : ((c.mark.members ++
    Json.unlessEmpty "data" Dataset.toJson c.data).map Prod.fst).Sublist
      ["name", "type", "from", "encode", "sort", "data"] := by
  have hsort (sort : Json) : ((if c.mark.crossed then [("sort", sort)] else []).map Prod.fst).Sublist
      ["sort"] := by
    split
    · exact List.Sublist.refl _
    · exact List.nil_sublist _
  unfold CellMark.members
  simp only [List.map_append]
  exact ((List.Sublist.refl ["name", "type", "from", "encode"]).append (hsort _)).append
    (Dict.names_unlessEmpty _ _ _)

theorem toJson_eq (c : Cell) : c.toJson = .object (c.mark.members ++
    Json.unlessEmpty "data" Dataset.toJson c.data ++ c.content.members) := by
  rw [toJson, GroupMark.toJson]

/-- A cell is an object that shows what is drawn in it. -/
theorem shows (c : Cell) : c.toJson.Shows c.content := by
  rw [toJson_eq]
  exact Group.shows_object c.names_front (by decide) (by decide) c.content

theorem text?_name (c : Cell) : c.toJson.text? "name" = some c.mark.name := by
  rw [toJson_eq, Json.text?, Group.member?_object c.names_front (by decide)]
  rfl

theorem isPlain_toJson (c : Cell) : c.toJson.isPlain = false := by
  have htype : c.toJson.text? "type" = some "group" := by
    rw [toJson_eq, Json.text?, Group.member?_object c.names_front (by decide)]
    rfl
  rw [Json.isPlain, htype]
  exact Bool.and_false _

end Cell

/-! ### Marks at any depth -/

/-- A mark as it is emitted, with the marks in it. Cells are left out. -/
def GroupMark.written : GroupMark → List Json
  | .cell _ _ _ => []
  | .unit m => m.toJson.withMarks
  | .title m => m.toJson.withMarks
  | .header m => m.toJson.withMarks

/-- The marks right in a group and what is within them, but for cells. -/
def Group.written (g : Group) : List Json := g.marks.flatMap GroupMark.written

mutual

theorem Group.induct {P : Group → Prop}
    (h : ∀ g, (∀ mark data content, .cell mark data content ∈ g.marks → P content) → P g) :
    ∀ g, P g
  | .mk signals layout marks scales axes legends =>
    h (.mk signals layout marks scales axes legends) (GroupMark.inductIn h marks)

theorem GroupMark.inductIn {P : Group → Prop}
    (h : ∀ g, (∀ mark data content, .cell mark data content ∈ g.marks → P content) → P g) :
    ∀ ms : List GroupMark, ∀ mark data content, .cell mark data content ∈ ms → P content
  | [], _, _, _, hm => absurd hm List.not_mem_nil
  | m :: rest, mark, data, content, hm => by
    rcases List.mem_cons.mp hm with rfl | hm
    · exact Group.induct h content
    · exact GroupMark.inductIn h rest mark data content hm

end

theorem flatMap_append_perm₃ {α β : Type} (xs : List α) (f g h : α → List β) :
    (xs.flatMap (fun x => f x ++ (g x ++ h x))).Perm
      (xs.flatMap f ++ (xs.flatMap g ++ xs.flatMap h)) :=
  (((List.flatMap_append_perm xs g h).append_left _).trans (List.flatMap_append_perm xs f _)).symm

/-- The marks in an object that shows a group are the cells at any depth, and beside them the other
marks of the group and of what is in the cells. -/
theorem Json.Shows.marks_perm {j : Json} {g : Group} (hj : j.Shows g) :
    j.marks.Perm (g.cells.map Cell.toJson ++
      (g :: g.cells.map Cell.content).flatMap Group.written) := by
  -- by induction on the cells, as what stands for one in the array shows a group again
  induction g using Group.induct generalizing j with
  | h g ih =>
    let inCells (m : GroupMark) : List Json :=
      (m.cells.map Cell.content).flatMap Group.written
    have hother {m : GroupMark} (hcells : m.cells = []) (hwritten : m.written = m.toJson.withMarks) :
        m.toJson.withMarks.Perm (m.cells.map Cell.toJson ++ (m.written ++ inCells m)) := by
      have hnone : inCells m = [] := by
        show (m.cells.map Cell.content).flatMap Group.written = []
        rw [hcells]
        rfl
      rw [hnone, hcells, hwritten, List.append_nil]
      exact .refl _
    have hmark : ∀ m ∈ g.marks, m.toJson.withMarks.Perm
        (m.cells.map Cell.toJson ++ (m.written ++ inCells m)) := by
      intro m hm
      cases m with
      | cell mark data content =>
        exact (ih mark data content hm (Cell.shows ⟨mark, data, content⟩)).cons _
      | unit m => exact hother rfl rfl
      | title m => exact hother rfl rfl
      | header m => exact hother rfl rfl
    have hcells : g.cells = g.marks.flatMap GroupMark.cells := by
      cases g with
      | mk signals layout marks scales axes legends => exact GroupMark.cellsIn_eq marks
    rw [Json.marks_eq, hj.marks, List.flatMap_map, hcells, List.map_flatMap, List.flatMap_cons,
      List.map_flatMap, List.flatMap_assoc]
    exact (List.Perm.flatMap_left _ hmark).trans (flatMap_append_perm₃ _ _ _ _)

/-! ### Marks by themselves -/

namespace Json

/-- An object has no member that it is not made of. -/
theorem member?_eq_none {members : List (String × Json)} {key : String}
    (h : key ∉ members.map Prod.fst) : (object members).member? key = none := by
  have hne : ∀ e ∈ members, e.1 ≠ key := fun e he hsame => h (hsame ▸ List.mem_map_of_mem he)
  rw [member?_object, Dict.ofList, Dict.get?_foldl_insert_of_not_mem hne]
  rfl

theorem listed_eq_nil {members : List (String × Json)} {key : String}
    (h : key ∉ members.map Prod.fst) : (object members).listed key = [] := by
  rw [listed, member?_eq_none h]
  rfl

/-- An object without marks stands alone. -/
theorem withMarks_of_nil {j : Json} (h : j.listed "marks" = []) : j.withMarks = [j] := by
  rw [withMarks, marks_eq, h, List.flatMap_nil]

theorem isHeader_of_role {j : Json} {role : String} (h : j.text? "role" = some role) :
    j.isHeader = ["row-header", "row-footer", "column-header", "column-footer"].contains role := by
  rw [isHeader, h, Option.any_some]

/-- An object that lists no scales, axes or legends. -/
def Mute (j : Json) : Prop := ∀ key ∈ ["scales", "axes", "legends"], j.listed key = []

theorem mute_object {members : List (String × Json)} {names : List String}
    (hnames : (members.map Prod.fst).Sublist names)
    (hapart : ∀ key ∈ ["scales", "axes", "legends"], key ∉ names) : (object members).Mute :=
  fun key hkey => listed_eq_nil (fun hmem => hapart key hkey (hnames.subset hmem))

theorem Mute.headerAxes {j : Json} (h : j.Mute) : j.headerAxes = [] := by
  rw [Json.headerAxes, h "axes" (by decide), ite_self]

theorem Mute.ownAxes {j : Json} (h : j.Mute) : j.ownAxes = [] := by
  rw [Json.ownAxes, h "axes" (by decide), ite_self]

end Json

namespace UnitMark

variable (m : UnitMark)

theorem withMarks_bodyToJson (data : String) :
    (m.bodyToJson data).withMarks = [m.bodyToJson data] :=
  Json.withMarks_of_nil (Json.listed_eq_nil (by simp))

theorem isPlain_bodyToJson (data : String) : (m.bodyToJson data).isPlain = true := by
  have hprimitive : m.type.primitive ≠ "group" := by
    cases m.type <;> decide
  rw [Json.isPlain, Json.isContent, Json.text?, Json.text?, member?_bodyToJson,
    member?_bodyToJson]
  simpa [Dict.lookup, Dict.compare_beq_eq, Json.string?] using hprimitive

theorem mute_bodyToJson (data : String) : (m.bodyToJson data).Mute := by
  have hapart : ∀ key ∈ ["scales", "axes", "legends"],
      key ∉ ["name", "type", "style", "from", "encode"] := by
    decide
  exact Json.mute_object (List.Sublist.refl _) hapart

/-- The paths of a series stand in a group of their own, which lists nothing else. -/
theorem toJson_series {s : Series} (h : m.series = some s) :
    m.toJson.withMarks = [m.toJson, m.bodyToJson s.data] ∧ m.toJson.isContent = true ∧
      m.toJson.isPlain = false ∧ m.toJson.Mute := by
  have hmember (key : String) : m.toJson.member? key = Dict.lookup key [
      ("name", .str s.group), ("type", .str "group"),
      ("from", .object [("facet", .object [
        ("name", .str s.data), ("data", .str m.source), ("groupby", Json.strings s.groupby)])]),
      ("encode", encodeUpdate (.object (Dimension.all.map (fun d =>
        (d.name, (EncodeValue.groupSize d).toJson))))),
      ("marks", .arr [m.bodyToJson s.data])] := by
    rw [toJson, h]
    exact Json.member?_of_nodup (by simp) key
  refine ⟨?_, ?_, ?_, ?_⟩
  · have hlisted : m.toJson.listed "marks" = [m.bodyToJson s.data] := by
      rw [Json.listed, hmember]
      rfl
    rw [Json.withMarks, Json.marks_eq, hlisted, List.flatMap_singleton, withMarks_bodyToJson]
  · rw [Json.isContent, Json.text?, hmember]
    rfl
  · rw [Json.isPlain, Json.text?, hmember]
    exact Bool.and_false _
  · have hapart : ∀ key ∈ ["scales", "axes", "legends"],
        key ∉ ["name", "type", "from", "encode", "marks"] := by
      decide
    rw [toJson, h]
    exact Json.mute_object (List.Sublist.refl _) hapart

/-- The mark of a unit and what is in it are content that lists no scales, axes or legends. -/
theorem content_toJson : ∀ j ∈ m.toJson.withMarks, j.isContent = true ∧ j.Mute := by
  have hbody (data : String) : (m.bodyToJson data).isContent = true ∧ (m.bodyToJson data).Mute :=
    ⟨(Bool.and_eq_true_iff.mp (m.isPlain_bodyToJson data)).1, m.mute_bodyToJson data⟩
  cases hs : m.series with
  | none =>
    rw [toJson, hs, withMarks_bodyToJson]
    exact List.forall_mem_singleton.mpr (hbody m.source)
  | some s =>
    obtain ⟨hmarks, hcontent, -, hmute⟩ := m.toJson_series hs
    rw [hmarks]
    exact List.forall_mem_cons.mpr
      ⟨⟨hcontent, hmute⟩, List.forall_mem_singleton.mpr (hbody s.data)⟩

/-- One of them is no group. -/
theorem plain_toJson : m.toJson.withMarks.filter Json.isPlain =
    [m.bodyToJson ((m.series.map Series.data).getD m.source)] := by
  cases hs : m.series with
  | none =>
    rw [toJson, hs, withMarks_bodyToJson]
    exact List.filter_cons_of_pos (m.isPlain_bodyToJson m.source)
  | some s =>
    obtain ⟨hmarks, -, hplain, -⟩ := m.toJson_series hs
    rw [hmarks, List.filter_cons_of_neg (Bool.eq_false_iff.mp hplain)]
    exact List.filter_cons_of_pos (m.isPlain_bodyToJson s.data)

end UnitMark

namespace TitleMark

variable (m : TitleMark)

/-- A title is a group of one text, which lists nothing. -/
theorem exists_text : ∃ text : Json, text.text? "role" = some (m.channel.name ++ "-title-text") ∧
    text.withMarks = [text] ∧ text.Mute ∧ ∀ key, m.toJson.member? key = Dict.lookup key [
      ("name", .str m.name), ("type", .str "group"),
      ("role", .str (m.channel.name ++ "-title")), ("marks", .arr [text])] := by
  have hapart : ∀ key ∈ ["scales", "axes", "legends"],
      key ∉ ["type", "role", "style", "encode"] := by
    decide
  refine ⟨_, ?_, ?_, ?_, Json.member?_of_nodup (by simp)⟩
  · rw [Json.text?, Json.member?_of_nodup (by simp)]
    simp [Dict.lookup, Dict.compare_beq_eq, Json.string?]
  · exact Json.withMarks_of_nil (Json.listed_eq_nil (by simp))
  · exact Json.mute_object (List.Sublist.refl _) hapart

/-- The title of a facet and its text are neither content nor headers, and list no scales, axes or
legends. -/
theorem titled_toJson : ∀ j ∈ m.toJson.withMarks,
    j.isContent = false ∧ j.isHeader = false ∧ j.Mute := by
  obtain ⟨text, hrole, halone, hmute, hmember⟩ := m.exists_text
  have hlisted : m.toJson.listed "marks" = [text] := by
    rw [Json.listed, hmember]
    rfl
  have hown : m.toJson.text? "role" = some (m.channel.name ++ "-title") := by
    rw [Json.text?, hmember]
    rfl
  have hmuteOwn : m.toJson.Mute := by
    intro key hkey
    rw [Json.listed, hmember]
    simp only [List.mem_cons, List.not_mem_nil, or_false] at hkey
    rcases hkey with rfl | rfl | rfl <;> rfl
  rw [Json.withMarks, Json.marks_eq, hlisted, List.flatMap_singleton, halone]
  refine List.forall_mem_cons.mpr ⟨⟨?_, ?_, hmuteOwn⟩,
    List.forall_mem_singleton.mpr ⟨?_, ?_, hmute⟩⟩
  · rw [Json.isContent, hown]
    rfl
  · rw [Json.isHeader_of_role hown]
    cases m.channel <;> rfl
  · rw [Json.isContent, hrole]
    rfl
  · rw [Json.isHeader_of_role hrole]
    cases m.channel <;> rfl

end TitleMark

namespace HeaderMark

variable (m : HeaderMark)

/-- A header has a role and may list axes, but no scales, legends or marks. -/
theorem exists_members : ∃ members, m.toJson = .object members ∧
    (members.map Prod.fst).Sublist
      ["name", "type", "role", "from", "sort", "title", "encode", "axes"] ∧
    Dict.lookup "role" members = some (.str (m.channel.name ++ "-" ++ m.slot.name)) ∧
    Dict.lookup "axes" members =
      if m.axes ≠ [] then some (.arr (m.axes.map Axis.toJson)) else none := by
  have hsize (update : Json) : ((if m.sizeSignal.isEmpty then []
      else [("encode", update)]).map Prod.fst).Sublist ["encode"] := by
    split
    · exact List.nil_sublist _
    · exact List.Sublist.refl _
  have hown := List.Sublist.refl ["name", "type", "role"]
  refine ⟨_, rfl, ?_, ?_, ?_⟩
  · simp only [List.map_append]
    cases m.source with
    | none =>
      exact (((hown.append (List.nil_sublist ["from", "sort"])).append
        (Dict.names_optional _ _ _)).append (hsize _)).append (Dict.names_unlessEmpty _ _ _)
    | some source =>
      exact (((hown.append (List.Sublist.refl ["from", "sort"])).append
        (Dict.names_optional _ _ _)).append (hsize _)).append (Dict.names_unlessEmpty _ _ _)
  · simp [Dict.lookup, Dict.compare_beq_eq]
  · have hnone (update : Json) : Dict.lookup "axes" (if m.sizeSignal.isEmpty then []
        else [("encode", update)]) = none :=
      Dict.lookup_eq_none (fun hmem => absurd ((hsize update).subset hmem) (by decide))
    simp only [Dict.lookup_append, Dict.lookup_optional, Dict.lookup_unlessEmpty, hnone]
    cases m.source <;> simp [Dict.lookup, Dict.compare_beq_eq]

/-- A header or footer lists its axes, and no scales, legends or marks. -/
theorem headed_toJson : m.toJson.withMarks = [m.toJson] ∧ m.toJson.isContent = false ∧
    m.toJson.headerAxes = m.axes.map Axis.toJson ∧ m.toJson.ownAxes = [] ∧
    ∀ key ∈ ["scales", "legends"], m.toJson.listed key = [] := by
  obtain ⟨members, hmembers, hnames, hrole, haxes⟩ := m.exists_members
  have hmember (key : String) : m.toJson.member? key = Dict.lookup key members := by
    rw [hmembers]
    exact Json.member?_of_nodup (hnames.nodup (by decide)) key
  have hnone : ∀ key ∈ ["marks", "scales", "legends"], m.toJson.listed key = [] := by
    have hapart : ∀ key ∈ ["marks", "scales", "legends"],
        key ∉ ["name", "type", "role", "from", "sort", "title", "encode", "axes"] := by
      decide
    intro key hkey
    rw [hmembers]
    exact Json.listed_eq_nil (fun hmem => hapart key hkey (hnames.subset hmem))
  have hrole : m.toJson.text? "role" = some (m.channel.name ++ "-" ++ m.slot.name) := by
    rw [Json.text?, hmember, hrole]
    rfl
  have hheader : m.toJson.isHeader = true := by
    rw [Json.isHeader_of_role hrole]
    cases m.channel <;> cases m.slot <;> rfl
  have haxes : m.toJson.listed "axes" = m.axes.map Axis.toJson := by
    rw [Json.listed, hmember, haxes]
    cases m.axes <;> rfl
  refine ⟨Json.withMarks_of_nil (hnone "marks" (by decide)), ?_, ?_, ?_, ?_⟩
  · rw [Json.isContent, hrole]
    rfl
  · rw [Json.headerAxes, hheader, if_pos rfl, haxes]
  · rw [Json.ownAxes, hheader, if_pos rfl]
  · exact fun key hkey => hnone key (List.mem_cons_of_mem _ hkey)

end HeaderMark

namespace GroupMark

variable (m : GroupMark)

/-- Outside of groups nothing lists scales, legends, or axes other than those of headers. -/
theorem written_listed :
    (∀ key ∈ ["scales", "legends"], m.written.flatMap (Json.listed key) = []) ∧
      m.written.flatMap Json.ownAxes = [] ∧
      m.written.flatMap Json.headerAxes = m.headerAxes.map Axis.toJson := by
  have hmute {js : List Json} (h : ∀ j ∈ js, j.Mute) :
      (∀ key ∈ ["scales", "legends"], js.flatMap (Json.listed key) = []) ∧
        js.flatMap Json.ownAxes = [] ∧ js.flatMap Json.headerAxes = [] := by
    have hsub : ∀ key ∈ ["scales", "legends"], key ∈ ["scales", "axes", "legends"] := by decide
    exact ⟨fun key hkey => List.flatMap_eq_nil_iff.mpr (fun j hj => h j hj key (hsub key hkey)),
      List.flatMap_eq_nil_iff.mpr (fun j hj => (h j hj).ownAxes),
      List.flatMap_eq_nil_iff.mpr (fun j hj => (h j hj).headerAxes)⟩
  cases m with
  | cell mark data content => exact hmute (fun j hj => absurd hj List.not_mem_nil)
  | unit m => exact hmute (fun j hj => (m.content_toJson j hj).2)
  | title m => exact hmute (fun j hj => (m.titled_toJson j hj).2.2)
  | header m =>
    obtain ⟨hmarks, -, hheader, hown, hnone⟩ := m.headed_toJson
    rw [written, hmarks]
    simp only [List.flatMap_singleton]
    exact ⟨hnone, hown, hheader⟩

/-- Outside of cells the content of a group is what the units draw. -/
theorem written_content :
    m.written.filter Json.isContent = m.unitMark.flatMap (fun u => u.toJson.withMarks) ∧
      m.written.filter Json.isPlain =
        m.unitMark.map (fun u => u.bodyToJson ((u.series.map Series.data).getD u.source)) := by
  have hnone {js : List Json} (h : ∀ j ∈ js, j.isContent = false) :
      js.filter Json.isContent = [] ∧ js.filter Json.isPlain = [] := by
    refine ⟨List.filter_eq_nil_iff.mpr (fun j hj => ?_),
      List.filter_eq_nil_iff.mpr (fun j hj => ?_)⟩
    · rw [h j hj]
      exact Bool.false_ne_true
    · rw [Json.isPlain, h j hj]
      exact Bool.false_ne_true
  cases m with
  | cell mark data content => exact ⟨rfl, rfl⟩
  | unit m =>
    refine ⟨?_, m.plain_toJson⟩
    rw [unitMark, List.flatMap_singleton]
    exact List.filter_eq_self.mpr (fun j hj => (m.content_toJson j hj).1)
  | title m => exact hnone (fun j hj => (m.titled_toJson j hj).1)
  | header m =>
    obtain ⟨hmarks, hcontent, -⟩ := m.headed_toJson
    rw [written, hmarks]
    exact hnone (List.forall_mem_singleton.mpr hcontent)

end GroupMark

/-! ### Whole programs -/

/-- What the nodes of a tree hold is what the arrays of a program list, once each and nothing else. -/
structure Tree.Writes (t : Tree) (program : Json) : Prop where
  scales : Json.Lists NamedScale.WrittenAs (t.rootSite.preOrder.flatMap Site.namedScales)
    (program.withMarks.flatMap (Json.listed "scales"))
  axes : Json.Lists Axis.WrittenAs
    (t.rootSite.preOrder.flatMap (fun s => s.node.components.axes.values.flatten))
    (program.withMarks.flatMap Json.ownAxes)
  legends : Json.Lists Legend.WrittenAs
    (t.rootSite.preOrder.flatMap (fun s => s.node.components.legends.values))
    (program.withMarks.flatMap (Json.listed "legends"))
  /-- The axes that facets took into their headers are those that headers and footers list. -/
  headerAxes : Json.Lists Axis.WrittenAs (t.rootSite.preOrder.flatMap (fun s => s.node.headerAxes))
    (program.withMarks.flatMap Json.headerAxes)
  /-- Besides headers and titles, what is listed as marks are the cells of each facet, and what each
  unit draws. -/
  marks : ∃ cells : List Json, cells.map (Json.text? "name") =
      t.rootSite.facets.map (fun s => some (s.node.qualify "cell")) ∧
    (program.marks.filter Json.isContent).Perm (cells ++
      (t.rootSite.units.flatMap (fun s => s.node.unitMarks)).flatMap (fun m => m.toJson.withMarks))
  /-- Of all marks those that are no groups are the marks of the units. -/
  plain : Json.Lists UnitMark.WrittenAs (t.rootSite.units.flatMap (fun s => s.node.unitMarks))
    (program.marks.filter Json.isPlain)
  single : ∀ s ∈ t.rootSite.units,
    ∃ m, s.node.unitMarks = [m] ∧ m.name = s.node.qualify "marks"

theorem Json.lists_of_perm {α : Type} {written : α → Json → Prop} {f : α → Json}
    (hf : ∀ x, written x (f x)) {xs : List α} {listed : List Json}
    (h : listed.Perm (xs.map f)) : Json.Lists written xs listed :=
  ⟨xs.map f, List.forall₂_map_right_iff.mpr (List.forall₂_same.mpr (fun x _ => hf x)), h⟩

namespace Visualization

variable (v : Visualization)

theorem marks_perm : v.toJson.marks.Perm
    (v.group.cells.map Cell.toJson ++ v.groups.flatMap Group.written) :=
  v.shows.marks_perm

/-- What is gathered from all objects of a program is what the groups show, and what is gathered from
the marks outside of cells. -/
theorem gathered_perm {β : Type} {gather : Json → List β} {own : Group → List β}
    {rest : GroupMark → List β} (hown : ∀ j g, Json.Shows j g → gather j = own g)
    (hrest : ∀ m : GroupMark, m.written.flatMap gather = rest m) :
    (v.toJson.withMarks.flatMap gather).Perm
      (v.groups.flatMap own ++ v.groups.flatMap (fun g => g.marks.flatMap rest)) := by
  have hgroups : (v.toJson :: v.group.cells.map Cell.toJson).flatMap gather =
      v.groups.flatMap own := by
    rw [groups, List.flatMap_cons, List.flatMap_cons, List.flatMap_map, List.flatMap_map,
      hown _ _ v.shows]
    exact congrArg _ (List.flatMap_congr (fun c _ => hown _ _ c.shows))
  have hmarks : (v.groups.flatMap Group.written).flatMap gather =
      v.groups.flatMap (fun g => g.marks.flatMap rest) := by
    simp only [Group.written, List.flatMap_assoc, hrest]
  rw [← hgroups, ← hmarks, ← List.flatMap_append]
  exact (v.marks_perm.cons v.toJson).flatMap_right gather

/-- The marks of a program that pass a test are cells, if these all pass or all fail it, and marks
outside of cells. -/
theorem filter_marks_perm {p : Json → Bool} {rest : GroupMark → List Json}
    (hrest : ∀ m : GroupMark, m.written.filter p = rest m) : (v.toJson.marks.filter p).Perm
      ((v.group.cells.map Cell.toJson).filter p ++
        v.groups.flatMap (fun g => g.marks.flatMap rest)) := by
  have hmarks : (v.groups.flatMap Group.written).filter p =
      v.groups.flatMap (fun g => g.marks.flatMap rest) := by
    simp only [Group.written, List.filter_flatMap, hrest]
  rw [← hmarks, ← List.filter_append]
  exact v.marks_perm.filter p

end Visualization

namespace Tree

variable {t : Tree} {pipeline : Pipeline} {spec : Spec} {config : Config} {ds : List Diagnostic}

/-- The cells of each facet have its name. -/
theorem cells_names {v : Visualization} (h : t.assemble pipeline = .ok v)
    (hb : View.Fits (fun s _ => s.Built spec) [] t.root) (hf : View.Fits Finished [] t.root) :
    v.group.cells.map (fun c => c.mark.name) =
      t.rootSite.facets.map (fun s => s.node.qualify "cell") := by
  obtain ⟨-, ms, -, hms, -, -, hgroup⟩ := assemble_ok h
  have hcells : List.Forall₂ (Site.Draws pipeline) v.group.cells t.rootSite.facets := by
    rw [hgroup, Site.groupOf_cells]
    exact View.marks_cells hb hms
  rw [← List.forall₂_eq_eq_eq, List.forall₂_map_left_iff, List.forall₂_map_right_iff]
  refine (forall₂_mem hcells).imp ?_
  rintro c s ⟨-, hs, hdraws⟩
  obtain ⟨hs, hfacet⟩ := List.mem_filter.mp hs
  obtain ⟨f, hk⟩ := Node.kind_of_isFacet hfacet
  have hlabelled : Labelled s s.node.components := (hf s hs).labelled
  unfold Labelled at hlabelled
  rw [hk] at hlabelled
  obtain ⟨m, hmark, hname⟩ := hlabelled
  obtain ⟨own, root, rest, hown, hc⟩ := Site.cellMark_eq_ok hdraws.mark
  rw [hmark] at hown
  obtain rfl := MarkComponent.cell.inj (List.cons.inj hown).1
  rw [hc]
  exact hname

/-- A tree that has come through all phases writes all that its nodes hold. -/
theorem writes_of_finished {v : Visualization} (h : t.assemble pipeline = .ok v)
    (hb : View.Fits (fun s _ => s.Built spec) [] t.root) (hf : View.Fits Finished [] t.root) :
    t.Writes v.toJson := by
  have hemits := emits_of_finished h hb hf
  -- marks outside of cells list none of these, so the groups account for all that is gathered
  have hshown {α : Type} {field : Group → List α} {write : α → Json} {gather : Json → List Json}
      (hgather : ∀ j g, Json.Shows j g → gather j = (field g).map write)
      (hrest : ∀ m : GroupMark, m.written.flatMap gather = []) {held : List α}
      (hheld : (v.groups.flatMap field).Perm held) :
      (v.toJson.withMarks.flatMap gather).Perm (held.map write) := by
    have hall := v.gathered_perm hgather hrest
    rw [List.flatMap_eq_nil_iff.mpr (fun g _ => List.flatMap_eq_nil_iff.mpr (fun _ _ => rfl)),
      List.append_nil, ← List.map_flatMap] at hall
    exact hall.trans (hheld.map write)
  constructor
  case scales =>
    exact Json.lists_of_perm NamedScale.writtenAs (hshown (fun _ _ hj => hj.scales)
      (fun m => m.written_listed.1 "scales" (by decide)) hemits.scales)
  case axes =>
    exact Json.lists_of_perm Axis.writtenAs (hshown (fun _ _ hj => hj.ownAxes)
      (fun m => m.written_listed.2.1) hemits.axes)
  case legends =>
    exact Json.lists_of_perm Legend.writtenAs (hshown (fun _ _ hj => hj.legends)
      (fun m => m.written_listed.1 "legends" (by decide)) hemits.legends)
  case headerAxes =>
    refine Json.lists_of_perm Axis.writtenAs ?_
    have hall := v.gathered_perm (fun _ _ hj => hj.headerAxes) (fun m => m.written_listed.2.2)
    rw [List.flatMap_eq_nil_iff.mpr (fun _ _ => rfl), List.nil_append] at hall
    refine hall.trans ?_
    have hheaders := hemits.headerAxes.map Axis.toJson
    rw [List.map_flatMap] at hheaders
    simpa only [Group.headerAxes, List.map_flatMap] using hheaders
  case marks =>
    refine ⟨v.group.cells.map Cell.toJson, ?_, ?_⟩
    · have hnames := congrArg (List.map some) (cells_names h hb hf)
      rw [List.map_map, List.map_map] at hnames
      rw [List.map_map]
      exact (List.map_congr_left (fun c _ => c.text?_name)).trans hnames
    · have hcells : (v.group.cells.map Cell.toJson).filter Json.isContent =
          v.group.cells.map Cell.toJson := by
        rw [List.filter_eq_self, List.forall_mem_map]
        exact fun c _ => c.shows.isContent
      have hall := v.filter_marks_perm (fun m => m.written_content.1)
      rw [hcells] at hall
      refine hall.trans (List.Perm.append_left _ ?_)
      have hunits := hemits.marks.flatMap_right (fun u => u.toJson.withMarks)
      simpa only [Group.unitMarks, List.flatMap_assoc] using hunits
  case plain =>
    refine Json.lists_of_perm UnitMark.writtenAs ?_
    have hcells : (v.group.cells.map Cell.toJson).filter Json.isPlain = [] := by
      rw [List.filter_eq_nil_iff, List.forall_mem_map]
      exact fun c _ => Bool.eq_false_iff.mp c.isPlain_toJson
    have hall := v.filter_marks_perm (fun m => m.written_content.2)
    rw [hcells, List.nil_append] at hall
    refine hall.trans ?_
    have hunits := hemits.marks.map
      (fun u => u.bodyToJson ((u.series.map Series.data).getD u.source))
    rw [List.map_flatMap] at hunits
    simpa only [Group.unitMarks, List.map_flatMap] using hunits
  case single =>
    intro s hs
    obtain ⟨hs, hunit⟩ := List.mem_filter.mp hs
    obtain ⟨u, hk⟩ := Node.kind_of_isUnit hunit
    have hlabelled : Labelled s s.node.components := (hf s hs).labelled
    unfold Labelled at hlabelled
    rw [hk] at hlabelled
    obtain ⟨m, hmark, hname, -⟩ := hlabelled
    refine ⟨m, ?_, hname⟩
    rw [Node.unitMarks, hmark]
    rfl

/-- On a built tree every node is in the group of the root or of one facet's child. So once all
phases have run, whatever the pipeline, each scale, axis and legend that a node holds is emitted
once, and so are the axes that facets took into their headers and the mark of each unit: the groups
show them, and the arrays of the program list them. -/
theorem emits_of_build (h : Tree.build spec config = .ok (t, ds)) (pipeline : Pipeline) :
    t.rootSite.GroupsPartition ∧ ((t.parse pipeline).error = none →
      ∃ v, (t.parse pipeline).tree.assemble pipeline = .ok v ∧
        (t.parse pipeline).tree.Emits v ∧ (t.parse pipeline).tree.Writes v.toJson) := by
  refine ⟨⟨View.groupMembers_perm (built_of_build h pipeline []), ?_⟩, ?_⟩
  · have hnames : (t.root.nodes.map Node.name).Nodup := runPhases_names h pipeline []
    rw [← View.sites_map_node [], List.map_map] at hnames
    exact hnames
  · intro herror
    obtain ⟨v, hv⟩ := assembled_of_build h herror
    refine ⟨v, hv, ?_⟩
    rw [parse_of_build h] at herror hv ⊢
    have hbuilt := built_of_build h pipeline Phase.all
    have hfinished := finished_of_build h herror
    exact ⟨emits_of_finished hv hbuilt hfinished, writes_of_finished hv hbuilt hfinished⟩

theorem emits_of_build_nestedRows : ∃ t ds v, Tree.build .nestedRows .default = .ok (t, ds) ∧
    t.rootSite.GroupsPartition ∧ (t.parse .standard).error = none ∧
      (t.parse .standard).tree.assemble .standard = .ok v ∧
      (t.parse .standard).tree.Emits v ∧ (t.parse .standard).tree.Writes v.toJson := by
  have hruns : (Tree.build .nestedRows .default).toOption.any (fun r =>
      (r.1.parse .standard).error.isNone) = true := by
    decide +kernel
  obtain ⟨⟨t, ds⟩, hb, hruns⟩ := exists_ok_of_any hruns
  have herror : (t.parse .standard).error = none := Option.isNone_iff_eq_none.mp hruns
  obtain ⟨hpartition, hemits⟩ := emits_of_build hb .standard
  obtain ⟨v, hv, hshown, hwritten⟩ := hemits herror
  exact ⟨t, ds, v, hb, hpartition, herror, hv, hshown, hwritten⟩

end Tree
end Trellis

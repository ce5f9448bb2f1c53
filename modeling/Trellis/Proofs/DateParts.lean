import Mathlib.Data.List.Infix
import Trellis.TimeUnit

/-! Units that are spelled as the names of some parts one behind the other, in any order and each
part once. The search for a part finds it there just if it is one of them, and at its own place: no
name stands within another one or across the end of one, except for that of the seconds, and when
these are searched for the milliseconds are gone. -/
namespace Trellis

/-- A part of a date that a unit may keep. -/
inductive DatePart where
  | milliseconds
  | seconds
  | minutes
  | hours
  | quarter
  | month
  | year
  | date
  | day
deriving DecidableEq

namespace DatePart

/-- All parts, in the order in which they are searched for. -/
def all : List DatePart :=
  [milliseconds, seconds, minutes, hours, quarter, month, year, date, day]

def name : DatePart → String
  | milliseconds => "milliseconds"
  | seconds => "seconds"
  | minutes => "minutes"
  | hours => "hours"
  | quarter => "quarter"
  | month => "month"
  | year => "year"
  | date => "date"
  | day => "day"

def word (p : DatePart) : List Char := p.name.toList

/-- The unit that names these parts. -/
def unit (ps : List DatePart) : String := String.join (ps.map name)

/-- The characters of a unit. -/
def spell (ps : List DatePart) : List Char := ps.flatMap word

theorem toList_unit (ps : List DatePart) : (unit ps).toList = spell ps := by
  rw [unit, String.toList_join, List.flatMap_map]
  rfl

theorem spell_cons (p : DatePart) (ps : List DatePart) : spell (p :: ps) = p.word ++ spell ps := rfl

theorem spell_append (ps qs : List DatePart) : spell (ps ++ qs) = spell ps ++ spell qs :=
  List.flatMap_append

theorem word_ne_nil (p : DatePart) : p.word ≠ [] := by
  cases p <;> decide

/-- The parts that are searched for before this one. -/
def earlier (p : DatePart) : List DatePart := all.takeWhile (· ≠ p)

/-- These parts, in their order, without those that are done. -/
def without (ps done : List DatePart) : List DatePart := ps.filter (· ∉ done)

variable {p q : DatePart} {ps done : List DatePart}

theorem mem_without : p ∈ without ps done ↔ p ∈ ps ∧ p ∉ done := by
  rw [without, List.mem_filter, decide_eq_true_eq]

theorem nodup_without (h : ps.Nodup) (done : List DatePart) : (without ps done).Nodup := h.filter _

theorem erase_without (h : ps.Nodup) (done : List DatePart) (p : DatePart) :
    (without ps done).erase p = without ps (done ++ [p]) := by
  rw [(nodup_without h done).erase_eq_filter p, without, without, List.filter_filter]
  apply List.filter_congr
  intro q _
  rw [Bool.eq_iff_iff]
  simp [and_comm]

theorem earlier_isPrefix (p : DatePart) : earlier p ++ [p] <+: all := by
  cases p <;> decide

theorem not_mem_earlier (p : DatePart) : p ∉ earlier p := by
  cases p <;> decide

/-- The milliseconds come first. -/
theorem milliseconds_mem_of_isPrefix (h : done ++ [seconds] <+: all) : milliseconds ∈ done := by
  cases done with
  | nil => exact absurd h (by decide)
  | cons first done =>
    obtain rfl := (List.cons_prefix_cons.mp h).1
    exact List.mem_cons_self

/-- When the seconds are searched for, the milliseconds are done. -/
theorem milliseconds_not_mem_without (ps : List DatePart) (h : done ++ [p] <+: all)
    (hp : p = seconds) : milliseconds ∉ without ps done := by
  rw [hp] at h
  exact fun hmem => (mem_without.mp hmem).2 (milliseconds_mem_of_isPrefix h)

/-! ### Names within a unit -/

theorem head?_word_ne (p : DatePart) : p.word.head? ≠ some 'e' ∧ p.word.head? ≠ some 'o' := by
  cases p <;> decide

/-- Where a name begins with the end of another one, what is missing of it begins with one of two
letters, as no name does. -/
theorem eq_of_overlap {t r : List Char} {c : Char} (hq : t <:+ q.word) (ht : t ≠ [])
    (hp : p.word = t ++ c :: r) : c = 'e' ∨ c = 'o' := by
  have hall : ∀ t ∈ q.word.tails, t ≠ [] → t <+: p.word →
      (p.word.drop t.length).head? ∈ [none, some 'e', some 'o'] := by
    cases p <;> cases q <;> decide
  have hmissing := hall t ((List.mem_tails _ _).mpr hq) ht ⟨_, hp.symm⟩
  rw [hp, List.drop_left, List.head?_cons] at hmissing
  simpa using hmissing

/-- No name stands across the end of a name and the names behind it. -/
theorem word_isPrefix_of_append_eq {t after : List Char} (hq : t <:+ q.word) (ht : t ≠ [])
    (h : p.word ++ after = t ++ spell ps) : p.word <+: t := by
  rcases List.append_eq_append_iff.mp h with ⟨more, hmore, -⟩ | ⟨r, hp, hrest⟩
  · exact ⟨more, hmore.symm⟩
  · cases r with
    | nil => rw [hp, List.append_nil]
    | cons c r =>
      exfalso
      have hhead : (spell ps).head? = some c := by
        rw [hrest]
        rfl
      rw [spell, List.head?_flatMap] at hhead
      obtain ⟨first, -, hfirst⟩ := List.exists_of_findSome?_eq_some hhead
      rcases eq_of_overlap hq ht hp with rfl | rfl
      · exact (head?_word_ne first).1 hfirst
      · exact (head?_word_ne first).2 hfirst

/-- The one name that has another one in it is that of the milliseconds. -/
theorem eq_of_word_isPrefix {t : List Char} (hq : t <:+ q.word) (hp : p.word <+: t) :
    (p = q ∧ t = q.word) ∨ (p = seconds ∧ q = milliseconds) := by
  have hall : ∀ t ∈ q.word.tails, p.word <+: t →
      (p = q ∧ t = q.word) ∨ (p = seconds ∧ q = milliseconds) := by
    cases p <;> cases q <;> decide
  exact hall t ((List.mem_tails _ _).mpr hq) hp

/-- A name that begins within another one is that one, except for the seconds in milliseconds. -/
theorem eq_of_append_eq {before t after : List Char} (hq : q.word = before ++ t) (ht : t ≠ [])
    (h : p.word ++ after = t ++ spell ps) :
    (p = q ∧ before = [] ∧ after = spell ps) ∨ (p = seconds ∧ q = milliseconds) := by
  have hsuffix : t <:+ q.word := ⟨before, hq.symm⟩
  rcases eq_of_word_isPrefix hsuffix (word_isPrefix_of_append_eq hsuffix ht h) with
    ⟨rfl, rfl⟩ | hexcept
  · exact .inl ⟨rfl, List.append_left_eq_self.mp hq.symm, List.append_cancel_left h⟩
  · exact .inr hexcept

/-- Without milliseconds, the name of a part occurs in a unit only where the unit has that part. -/
theorem exists_split_of_spell (hp : p = seconds → milliseconds ∉ ps) {before after : List Char}
    (h : spell ps = before ++ p.word ++ after) :
    ∃ l r, ps = l ++ p :: r ∧ before = spell l ∧ after = spell r := by
  induction ps generalizing before with
  | nil =>
    have hnone := (List.append_eq_nil_iff.mp (List.append_eq_nil_iff.mp h.symm).1).2
    exact absurd hnone (word_ne_nil p)
  | cons q ps ih =>
    have hps : p = seconds → milliseconds ∉ ps := fun hs hm => hp hs (List.mem_cons_of_mem _ hm)
    -- where the name begins behind that of `q`, also right behind it
    have behind {inner : List Char} (hbefore : before = q.word ++ inner)
        (hrest : spell ps = inner ++ p.word ++ after) :
        ∃ l r, q :: ps = l ++ p :: r ∧ before = spell l ∧ after = spell r := by
      obtain ⟨l, r, rfl, rfl, rfl⟩ := ih hps hrest
      exact ⟨q :: l, r, rfl, hbefore, rfl⟩
    rw [spell_cons, List.append_assoc] at h
    rcases List.append_eq_append_iff.mp h with ⟨inner, hbefore, hrest⟩ | ⟨t, hq, hrest⟩
    · exact behind hbefore (by rw [hrest, List.append_assoc])
    · by_cases ht : t = []
      · rw [ht, List.append_nil] at hq
        rw [ht, List.nil_append] at hrest
        exact behind (by rw [hq, List.append_nil]) hrest.symm
      · rcases eq_of_append_eq hq ht hrest with ⟨rfl, rfl, rfl⟩ | ⟨hs, rfl⟩
        · exact ⟨[], ps, rfl, rfl, rfl⟩
        · exact absurd List.mem_cons_self (hp hs)

end DatePart

namespace TimeUnit

open DatePart

variable {p : DatePart} {ps done : List DatePart}

/-! ### Searching for a part -/

/-- Removing a part leaves what stands around one of its occurrences. -/
theorem exists_of_remove?_eq_some {part text rest : List Char} (h : remove? part text = some rest) :
    ∃ before after, text = before ++ part ++ after ∧ rest = before ++ after := by
  induction text generalizing rest with
  | nil =>
    rw [remove?] at h
    by_cases hpart : part.isEmpty = true
    · rw [if_pos hpart] at h
      obtain rfl := Option.some.inj h
      rw [List.isEmpty_iff.mp hpart]
      exact ⟨[], [], rfl, rfl⟩
    · rw [if_neg hpart] at h
      cases h
  | cons c cs ih =>
    rw [remove?] at h
    by_cases hstart : part.isPrefixOf (c :: cs) = true
    · rw [if_pos hstart] at h
      obtain rfl := Option.some.inj h
      have hsplit := List.prefix_iff_eq_append.mp (List.isPrefixOf_iff_prefix.mp hstart)
      exact ⟨[], _, hsplit.symm, rfl⟩
    · rw [if_neg hstart] at h
      obtain ⟨left, hleft, rfl⟩ := Option.map_eq_some_iff.mp h
      obtain ⟨before, after, rfl, rfl⟩ := ih hleft
      exact ⟨c :: before, after, rfl, rfl⟩

/-- A part that occurs is found. -/
theorem remove?_ne_none {part before after : List Char} :
    remove? part (before ++ part ++ after) ≠ none := by
  induction before with
  | nil =>
    rw [List.nil_append]
    cases htext : part ++ after with
    | nil =>
      rw [(List.append_eq_nil_iff.mp htext).1]
      exact Option.some_ne_none _
    | cons c cs =>
      have hstart : part.isPrefixOf (c :: cs) = true :=
        List.isPrefixOf_iff_prefix.mpr ⟨after, htext⟩
      rw [remove?, if_pos hstart]
      exact Option.some_ne_none _
  | cons c before ih =>
    rw [List.cons_append, List.cons_append, remove?]
    by_cases hstart : part.isPrefixOf (c :: (before ++ part ++ after)) = true
    · rw [if_pos hstart]
      exact Option.some_ne_none _
    · rw [if_neg hstart]
      exact fun hnone => ih (Option.map_eq_none_iff.mp hnone)

theorem take_of_remove?_eq_none {part : String} {text : List Char}
    (h : remove? part.toList text = none) : take part text = (false, text) := by
  rw [take, h]

theorem take_of_remove?_eq_some {part : String} {text rest : List Char}
    (h : remove? part.toList text = some rest) : take part text = (true, rest) := by
  rw [take, h]

/-- A search in a unit finds the part just if it is there, and takes out that part. -/
theorem take_spell (h : ps.Nodup) (hp : p = .seconds → .milliseconds ∉ ps) :
    take p.name (spell ps) = (decide (p ∈ ps), spell (ps.erase p)) := by
  cases hremove : remove? p.word (spell ps) with
  | none =>
    have hmem : p ∉ ps := by
      intro hmem
      obtain ⟨l, r, rfl⟩ := List.append_of_mem hmem
      rw [spell_append, spell_cons, ← List.append_assoc] at hremove
      exact remove?_ne_none hremove
    rw [take_of_remove?_eq_none hremove, List.erase_of_not_mem hmem, decide_eq_false hmem]
  | some rest =>
    rw [take_of_remove?_eq_some hremove]
    obtain ⟨before, after, htext, rfl⟩ := exists_of_remove?_eq_some hremove
    obtain ⟨l, r, rfl, rfl, rfl⟩ := exists_split_of_spell hp htext
    have hl : p ∉ l := fun hmem => (List.nodup_append.mp h).2.2 p hmem p List.mem_cons_self rfl
    have hmem : p ∈ l ++ p :: r := List.mem_append_right _ List.mem_cons_self
    rw [List.erase_append_right _ hl, List.erase_cons_head, ← spell_append, decide_eq_true hmem]

/-- What is left of a text when some parts have been searched for. -/
def leftover (text : List Char) (done : List DatePart) : List Char :=
  done.foldl (fun text p => (take p.name text).2) text

/-- What a part is searched for in. -/
def searched (unit : String) (p : DatePart) : List Char := leftover unit.toList (earlier p)

/-- Whether the search for a part finds it. -/
def finds (unit : String) (p : DatePart) : Bool := (take p.name (searched unit p)).1

/-- What a unit keeps is what the searches find. -/
theorem ofName_eq (unit : String) : ofName unit =
    { year := finds unit .year
      quarter := finds unit .quarter
      month := finds unit .month
      date := finds unit .date
      day := finds unit .day && !(finds unit .year || finds unit .quarter || finds unit .month ||
        finds unit .date || finds unit .hours || finds unit .minutes || finds unit .seconds)
      hours := finds unit .hours
      minutes := finds unit .minutes
      seconds := finds unit .seconds
      milliseconds := finds unit .milliseconds } := by
  unfold ofName finds searched leftover
  -- the same searches one after the other, whatever a search does
  generalize take = search
  rfl

/-- The searches leave the parts that have not been searched for, in their order. -/
theorem leftover_spell (h : ps.Nodup) (hdone : done <+: DatePart.all) :
    leftover (spell ps) done = spell (without ps done) := by
  induction done using List.reverseRecOn with
  | nil => simp [leftover, without]
  | append_singleton done p ih =>
    have hstep : leftover (spell ps) (done ++ [p]) =
        (take p.name (leftover (spell ps) done)).2 := by
      rw [leftover, List.foldl_append]
      rfl
    rw [hstep, ih ((List.prefix_append _ _).trans hdone),
      take_spell (nodup_without h done) (milliseconds_not_mem_without ps hdone), erase_without h]

theorem searched_unit (h : ps.Nodup) (p : DatePart) :
    searched (DatePart.unit ps) p = spell (without ps (earlier p)) := by
  rw [searched, toList_unit, leftover_spell h ((List.prefix_append _ _).trans (earlier_isPrefix p))]

/-- A part is found in a unit just if the unit names it. -/
theorem finds_unit (h : ps.Nodup) (p : DatePart) :
    finds (DatePart.unit ps) p = decide (p ∈ ps) := by
  rw [finds, searched_unit h, take_spell (nodup_without h _)
    (milliseconds_not_mem_without ps (earlier_isPrefix p)), decide_eq_decide, mem_without]
  exact and_iff_left (not_mem_earlier p)

end TimeUnit

/-! ### Expressions -/

namespace DatePart

variable {ps : List DatePart}

/-- The day of the week counts in a unit without the other parts down to the seconds. -/
def CountsDays (ps : List DatePart) : Prop :=
  day ∈ ps ∧ ∀ p ∈ [year, quarter, month, date, hours, minutes, seconds], p ∉ ps

instance (ps : List DatePart) : Decidable (CountsDays ps) :=
  inferInstanceAs (Decidable (day ∈ ps ∧ ∀ p ∈ _, p ∉ ps))

/-- The expression that reads a part of a date. -/
def call (p : DatePart) (datum : String) : String := p.name ++ "(" ++ datum ++ ")"

/-- What a date that keeps these parts is made of: the part that is read, or the least value. The
day of the week makes a date in the first week of 2006, which begins with the year. -/
def components (ps : List DatePart) (datum : String) : List String :=
  [if year ∈ ps then year.call datum else if CountsDays ps then "2006" else "0",
    if month ∈ ps then month.call datum
      else if quarter ∈ ps then "(" ++ quarter.call datum ++ "-1)*3" else "0",
    if date ∈ ps then date.call datum
      else if CountsDays ps then day.call datum ++ "+1" else "1",
    if hours ∈ ps then hours.call datum else "0",
    if minutes ∈ ps then minutes.call datum else "0",
    if seconds ∈ ps then seconds.call datum else "0",
    if milliseconds ∈ ps then milliseconds.call datum else "0"]

/-- What a unit with these parts keeps. -/
def kept (ps : List DatePart) : TimeUnit where
  year := decide (year ∈ ps)
  quarter := decide (quarter ∈ ps)
  month := decide (month ∈ ps)
  date := decide (date ∈ ps)
  day := decide (CountsDays ps)
  hours := decide (hours ∈ ps)
  minutes := decide (minutes ∈ ps)
  seconds := decide (seconds ∈ ps)
  milliseconds := decide (milliseconds ∈ ps)

theorem ofName_unit (h : ps.Nodup) : TimeUnit.ofName (unit ps) = kept ps := by
  rw [TimeUnit.ofName_eq]
  simp only [TimeUnit.finds_unit h]
  unfold kept
  congr 1
  rw [Bool.eq_iff_iff]
  simp [CountsDays, and_assoc]

theorem expression_kept (ps : List DatePart) (datum : String) : (kept ps).expression datum =
    "datetime(" ++ String.intercalate ", " (components ps datum) ++ ")" := by
  unfold TimeUnit.expression components
  simp only [kept, decide_eq_true_eq]
  rfl

/-- A unit that names some parts, in any order and each of them once, cuts a date down to these:
each component reads its part if the unit has it. A part is found just if it is named, and wherever
its name stands in the text that is searched, it is that part. -/
theorem timeUnitExpression_unit (h : ps.Nodup) (field : String) :
    timeUnitExpression (unit ps) field = "datetime(" ++ String.intercalate ", "
        (components ps ("datum[" ++ Text.quoted field ++ "]")) ++ ")" ∧
      ∀ p, (TimeUnit.finds (unit ps) p = true ↔ p ∈ ps) ∧
        ∀ before after, TimeUnit.searched (unit ps) p = before ++ p.word ++ after →
          ∃ l r, without ps (earlier p) = l ++ p :: r ∧ before = spell l ∧ after = spell r := by
  refine ⟨?_, fun p => ⟨?_, ?_⟩⟩
  · rw [timeUnitExpression, ofName_unit h, expression_kept]
    rfl
  · rw [TimeUnit.finds_unit h, decide_eq_true_eq]
  · intro before after hplace
    rw [TimeUnit.searched_unit h] at hplace
    exact exists_split_of_spell (milliseconds_not_mem_without ps (earlier_isPrefix p)) hplace

/-- The name of the seconds stands in front of that of the milliseconds, and at its end as well. -/
theorem timeUnitExpression_secondsFirst : [seconds, milliseconds, day].Nodup ∧
    timeUnitExpression "secondsmillisecondsday" "t" =
      "datetime(0, 0, 1, 0, 0, seconds(datum[\"t\"]), milliseconds(datum[\"t\"]))" ∧
    TimeUnit.finds "secondsmillisecondsday" seconds = true ∧
    TimeUnit.searched "secondsmillisecondsday" seconds = [] ++ seconds.word ++ day.word ∧
    ∃ l r, [seconds, day] = l ++ seconds :: r ∧ [] = spell l ∧ day.word = spell r := by
  have hnodup : [seconds, milliseconds, day].Nodup := by decide
  have hunit : unit [seconds, milliseconds, day] = "secondsmillisecondsday" := by decide
  have hplace : TimeUnit.searched "secondsmillisecondsday" seconds =
      [] ++ seconds.word ++ day.word := by
    decide
  have h := timeUnitExpression_unit hnodup "t"
  rw [hunit] at h
  obtain ⟨hexpression, hparts⟩ := h
  obtain ⟨hfinds, hoccurs⟩ := hparts seconds
  exact ⟨hnodup, hexpression.trans (by decide), hfinds.mpr (by decide), hplace,
    hoccurs _ _ hplace⟩

/-- Of a part that is named twice only the first name is taken out, and others are found in what is
left. -/
example : (TimeUnit.ofName "millisecondsmilliseconds").seconds = true := by decide

end DatePart
end Trellis

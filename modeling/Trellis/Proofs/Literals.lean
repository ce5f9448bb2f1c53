import Mathlib.Data.List.Basic
import Trellis.Field

/-! Strings in single quotes, as expressions read them. A backslash takes what follows it for an
escape, so a quote closes the string only where no backslash stands in front of it. What is between
the quotes is what the string holds, character by character, except for the escapes. -/
namespace Trellis

/-- Letters and digits of ASCII, and the underscore. -/
def isWordChar (c : Char) : Bool := c.isAlphanum || c == '_'

/-- What a language of expressions says of the characters in its strings. -/
structure StringSyntax where
  /-- The characters that may stand for themselves, apart from the quote and the backslash. -/
  plain : Char → Bool
  plain_word : ∀ c : Char, isWordChar c = true → plain c = true
  /-- What the text behind a backslash begins with: the character that is meant, if any, and the
  text that is left. -/
  escape : List Char → Option (Option Char × List Char)
  /-- An escape is written with one character at least. -/
  escape_code : ∀ {text meant rest}, escape text = some (meant, rest) →
    ∃ code, code ≠ [] ∧ text = code ++ rest
  /-- A quote behind a backslash is a quote. -/
  escape_quote : ∀ rest, escape ('\'' :: rest) = some (some '\'', rest)

/-- The characters that are written differently or have a meaning of their own in a string. -/
def isMarked (c : Char) : Bool := c == '\'' || c == '\\'

namespace StringSyntax

variable (σ : StringSyntax)

/-- A character that stands for itself. -/
def Bare (c : Char) : Prop := isMarked c = false ∧ σ.plain c = true

instance (c : Char) : Decidable (σ.Bare c) :=
  inferInstanceAs (Decidable (isMarked c = false ∧ σ.plain c = true))

/-- A text behind an opening quote, up to the quote that closes the string, and what it holds. -/
inductive Reads : List Char → List Char → Prop
  | closed : Reads ['\''] []
  | bare {c : Char} {text held : List Char} :
    σ.Bare c → Reads text held → Reads (c :: text) (c :: held)
  | escaped {meant : Option Char} {text rest held : List Char} :
    σ.escape text = some (meant, rest) → Reads rest held →
      Reads ('\\' :: text) (meant.toList ++ held)

/-- A text that is a string from its first character to its last one, and holds `s`. -/
def Spells (literal s : String) : Prop :=
  ∃ text, literal.toList = '\'' :: text ∧ σ.Reads text s.toList

/-- Between what stands before and after it, a text has a string that holds `s`. -/
def HasString (text before s after : String) : Prop :=
  ∃ literal, text = before ++ literal ++ after ∧ σ.Spells literal s

variable {σ}

/-- A text holds one thing at most. -/
theorem Reads.unique {text held other : List Char} (h : σ.Reads text held)
    (ho : σ.Reads text other) : held = other := by
  induction h generalizing other with
  | closed =>
    cases ho with
    | closed => rfl
    | bare hc => exact absurd hc.1 (by decide)
  | bare hc _ ih =>
    cases ho with
    | closed => exact absurd hc.1 (by decide)
    | bare _ hrest => rw [ih hrest]
    | escaped => exact absurd hc.1 (by decide)
  | escaped he _ ih =>
    cases ho with
    | bare hc => exact absurd hc.1 (by decide)
    | escaped he' hrest =>
      obtain ⟨rfl, rfl⟩ := Prod.mk.inj (Option.some.inj (he.symm.trans he'))
      rw [ih hrest]

/-- A backslash opens an escape. -/
theorem Reads.of_backslash {text held : List Char} (h : σ.Reads ('\\' :: text) held) :
    ∃ meant rest more, σ.escape text = some (meant, rest) ∧ σ.Reads rest more ∧
      held = meant.toList ++ more := by
  cases h with
  | bare hslash => exact absurd hslash.1 (by decide)
  | escaped he hrest => exact ⟨_, _, _, he, hrest, rfl⟩

/-- All other characters but the quote stand for themselves. -/
theorem Reads.of_unmarked {c : Char} {text held : List Char} (hc : isMarked c = false)
    (h : σ.Reads (c :: text) held) : ∃ more, held = c :: more ∧ σ.Bare c ∧ σ.Reads text more := by
  cases h with
  | closed => exact absurd hc (by decide)
  | bare hbare hrest => exact ⟨_, rfl, hbare, hrest⟩
  | escaped => exact absurd hc (by decide)

/-- Each escape makes what is held shorter than the text by one character or more, and what else is
held has no quotes or backslashes in it. So the more of these there are, the less is held. -/
theorem Reads.length_add_countP_le {text held : List Char} (h : σ.Reads text held) :
    2 * held.length + text.countP isMarked + 1 ≤ 2 * text.length := by
  induction h with
  | closed => decide
  | bare hc _ ih =>
    have hnone : ¬ isMarked _ = true := Bool.eq_false_iff.mp hc.1
    rw [List.countP_cons_of_neg hnone, List.length_cons, List.length_cons]
    omega
  | @escaped meant text rest held he _ ih =>
    obtain ⟨code, hcode, rfl⟩ := σ.escape_code he
    have hlength := List.length_pos_iff.mpr hcode
    have hcount : code.countP isMarked ≤ code.length := List.countP_le_length
    have hmeant : meant.toList.length ≤ 1 := Option.length_toList_le
    have hslash : isMarked '\\' = true := by decide
    rw [List.countP_cons_of_pos hslash]
    simp only [List.length_append, List.length_cons, List.countP_append] at ih ⊢
    omega

end StringSyntax

/-! ### Writing strings -/

/-- A text with a backslash in front of some characters. -/
def backslashed (marks : Char → Bool) (s : List Char) : List Char :=
  s.flatMap (fun c => if marks c then ['\\', c] else [c])

section

variable {marks : Char → Bool}

theorem backslashed_cons (c : Char) (s : List Char) : backslashed marks (c :: s) =
    (if marks c then ['\\', c] else [c]) ++ backslashed marks s := rfl

theorem length_backslashed (s : List Char) :
    (backslashed marks s).length = s.length + s.countP marks := by
  induction s with
  | nil => rfl
  | cons c s ih =>
    rw [backslashed_cons, List.length_append, ih, List.length_cons]
    by_cases hc : marks c = true
    · rw [if_pos hc, List.countP_cons_of_pos hc, List.length_cons, List.length_singleton]
      omega
    · rw [if_neg hc, List.countP_cons_of_neg hc, List.length_singleton]
      omega

theorem countP_backslashed (s : List Char) :
    (backslashed marks s).countP isMarked = s.countP isMarked + s.countP marks := by
  induction s with
  | nil => rfl
  | cons c s ih =>
    have hslash : isMarked '\\' = true := by decide
    rw [backslashed_cons, List.countP_append, ih, List.countP_cons, List.countP_cons]
    by_cases hc : marks c = true
    · rw [if_pos hc, List.countP_cons_of_pos hslash, List.countP_singleton, if_pos hc]
      omega
    · rw [if_neg hc, List.countP_singleton, if_neg hc]
      omega

end

namespace StringSyntax

variable {σ : StringSyntax} {marks : Char → Bool}

/-- A string that holds the text it is written from has a backslash before all that need one: those
left without would have to come with more backslashes than there are. -/
theorem marks_of_reads (hmarks : ∀ c, marks c = true → isMarked c = true) {s : List Char}
    (h : σ.Reads (backslashed marks s ++ ['\'']) s) : ∀ c ∈ s, isMarked c = true → marks c = true := by
  have hle := h.length_add_countP_le
  have hquote : ['\''].countP isMarked = 1 := by decide
  rw [List.length_append, List.countP_append, length_backslashed, countP_backslashed, hquote,
    List.length_singleton] at hle
  have hsub : (s.filter marks).Sublist (s.filter isMarked) := List.monotone_filter_right s hmarks
  have hsame : s.filter marks = s.filter isMarked := by
    apply hsub.eq_of_length_le
    rw [← List.countP_eq_length_filter, ← List.countP_eq_length_filter]
    omega
  intro c hc hmarked
  have hmem : c ∈ s.filter marks := by
    rw [hsame]
    exact List.mem_filter.mpr ⟨hc, hmarked⟩
  exact (List.mem_filter.mp hmem).2

/-- Writing a backslash before some characters makes a string that holds the text just if all other
characters stand for themselves. -/
theorem reads_backslashed_iff (hmarks : ∀ c, marks c = true → isMarked c = true)
    (hescape : ∀ c, marks c = true → ∀ rest, σ.escape (c :: rest) = some (some c, rest))
    (s : List Char) :
    σ.Reads (backslashed marks s ++ ['\'']) s ↔ ∀ c ∈ s, marks c = true ∨ σ.Bare c := by
  constructor
  · intro h
    have hall := marks_of_reads hmarks h
    induction s with
    | nil => exact fun c hc => absurd hc List.not_mem_nil
    | cons c s ih =>
      rw [List.forall_mem_cons] at hall ⊢
      rw [backslashed_cons, List.append_assoc] at h
      by_cases hc : marks c = true
      · rw [if_pos hc] at h
        obtain ⟨meant, rest, more, he, hrest, hheld⟩ := h.of_backslash
        -- the escape is that of the character itself
        obtain ⟨rfl, rfl⟩ := Prod.mk.inj (Option.some.inj (he.symm.trans (hescape c hc _)))
        obtain rfl := (List.cons.inj hheld).2
        exact ⟨.inl hc, ih hrest hall.2⟩
      · rw [if_neg hc] at h
        have hunmarked : isMarked c = false := Bool.eq_false_iff.mpr (fun hm => hc (hall.1 hm))
        obtain ⟨more, hheld, hbare, hrest⟩ := h.of_unmarked hunmarked
        obtain rfl := (List.cons.inj hheld).2
        exact ⟨.inr hbare, ih hrest hall.2⟩
  · intro h
    induction s with
    | nil => exact .closed
    | cons c s ih =>
      obtain ⟨hc, hs⟩ := List.forall_mem_cons.mp h
      rw [backslashed_cons, List.append_assoc]
      by_cases hm : marks c = true
      · rw [if_pos hm]
        exact .escaped (hescape c hm _) (ih hs)
      · rw [if_neg hm]
        exact .bare (hc.resolve_left hm) (ih hs)

/-! ### Quoted texts -/

variable {literal before s after : String}

/-- Where it is known what stands around it, the string in a text is the one that is there. -/
theorem hasString_append_iff :
    σ.HasString (before ++ literal ++ after) before s after ↔ σ.Spells literal s := by
  constructor
  · rintro ⟨other, hsame, h⟩
    have hchars := congrArg String.toList hsame
    simp only [String.toList_append] at hchars
    obtain rfl : literal = other :=
      String.toList_inj.mp (List.append_cancel_left (List.append_cancel_right hchars))
    exact h
  · exact fun h => ⟨literal, rfl, h⟩

theorem spells_quotes_iff (text s : String) :
    σ.Spells ("'" ++ text ++ "'") s ↔ σ.Reads (text.toList ++ ['\'']) s.toList := by
  have hchars : ("'" ++ text ++ "'").toList = '\'' :: (text.toList ++ ['\'']) := by
    rw [String.toList_append, String.toList_append]
    rfl
  unfold Spells
  rw [hchars]
  constructor
  · rintro ⟨rest, hrest, h⟩
    obtain rfl := (List.cons.inj hrest).2
    exact h
  · exact fun h => ⟨_, rfl, h⟩

/-- A text that is put between quotes as it is makes a string that holds it just if it has neither
quotes nor backslashes, and its characters may stand for themselves. -/
theorem spells_bare_iff (s : String) :
    σ.Spells ("'" ++ s ++ "'") s ↔ ∀ c ∈ s.toList, σ.Bare c := by
  have hnone : backslashed (fun _ => false) s.toList = s.toList := List.flatMap_singleton' _
  have hreads := @reads_backslashed_iff σ (fun _ => false)
    (fun _ h => absurd h Bool.false_ne_true) (fun _ h => absurd h Bool.false_ne_true) s.toList
  rw [hnone] at hreads
  rw [spells_quotes_iff, hreads]
  simp only [Bool.false_eq_true, false_or]

/-- With a backslash before its quotes, it may have quotes as well. -/
theorem spells_singleQuoted_iff (s : String) :
    σ.Spells (Text.singleQuoted s) s ↔ ∀ c ∈ s.toList, c = '\'' ∨ σ.Bare c := by
  have hwritten : s.toList.flatMap (fun c => if c = '\'' then ['\\', '\''] else [c]) =
      backslashed (fun c => c == '\'') s.toList := by
    apply List.flatMap_congr
    intro c _
    by_cases hc : c = '\''
    · rw [if_pos hc, if_pos (beq_iff_eq.mpr hc), hc]
    · rw [if_neg hc, if_neg (fun h => hc (beq_iff_eq.mp h))]
  have hmarks : ∀ c : Char, (c == '\'') = true → isMarked c = true := by
    intro c hc
    rw [isMarked, hc, Bool.true_or]
  have hescape : ∀ c : Char, (c == '\'') = true →
      ∀ rest, σ.escape (c :: rest) = some (some c, rest) := by
    intro c hc rest
    rw [beq_iff_eq.mp hc]
    exact σ.escape_quote rest
  rw [Text.singleQuoted, spells_quotes_iff, String.toList_ofList, hwritten,
    reads_backslashed_iff hmarks hescape]
  simp only [beq_iff_eq]

/-- A backslash never stands for itself. -/
theorem not_bare_backslash : ¬ σ.Bare '\\' := fun h => absurd h.1 (by decide)

/-- Six letters mean control characters, any other character but a digit means itself. Escapes by a
code are left out, and a line break does not stand for itself. -/
def lettered : StringSyntax where
  plain c := !(['\n', '\r', '\u2028', '\u2029'].contains c)
  plain_word := by
    intro c hc
    rw [Bool.not_eq_true', List.contains_eq_mem, decide_eq_false_iff_not]
    intro hmem
    simp only [List.mem_cons, List.not_mem_nil, or_false] at hmem
    rcases hmem with rfl | rfl | rfl | rfl <;> exact absurd hc (by decide)
  escape
    | [] => none
    | c :: rest =>
      if c.isDigit || c == 'x' || c == 'u' then none
      else some (some (([('b', '\x08'), ('f', '\x0c'), ('n', '\n'), ('r', '\r'), ('t', '\t'),
        ('v', '\x0b')].lookup c).getD c), rest)
  escape_code := by
    intro text meant rest h
    cases text with
    | nil => cases h
    | cons c text =>
      dsimp only at h
      split at h
      · cases h
      · obtain ⟨-, rfl⟩ := Prod.mk.inj (Option.some.inj h)
        exact ⟨[c], List.cons_ne_nil _ _, rfl⟩
  escape_quote _ := rfl

end StringSyntax

/-! ### Labels -/

/-- The function that values of a kind are formatted by, and the format where none is given. -/
def FieldType.formatter? (config : Config) : FieldType → Option (String × String)
  | quantitative => some ("format", config.numberFormat)
  | temporal => some ("timeFormat", config.timeFormat)
  | nominal | ordinal => none

namespace FieldDef

/-- A formatted label calls the function on the value and a quoted text. -/
theorem label_expression {f : FieldDef} {config : Config} {function standard : String}
    (h : f.measure.formatter? config = some (function, standard)) (format : Option String)
    (scope : Scope) : (f.label format scope config).expression =
      (function ++ "(" ++ f.access none scope ++ ", ") ++ Text.singleQuoted (format.getD standard) ++
        ")" := by
  unfold label
  cases hm : f.measure with
  | quantitative =>
    rw [hm] at h
    obtain ⟨rfl, rfl⟩ := Prod.mk.inj (Option.some.inj h)
    rfl
  | temporal =>
    rw [hm] at h
    obtain ⟨rfl, rfl⟩ := Prod.mk.inj (Option.some.inj h)
    rfl
  | _ =>
    rw [hm] at h
    cases h

/-- The label of a number or a date calls the function for its kind on the value and on a string. The
string holds the format just if each character there is a quote or stands for itself, which a
backslash never does. -/
theorem format_spelled_iff (σ : StringSyntax) {f : FieldDef} {config : Config}
    {function standard : String} (h : f.measure.formatter? config = some (function, standard))
    (format : Option String) (scope : Scope) :
    σ.HasString (f.label format scope config).expression
        (function ++ "(" ++ f.access none scope ++ ", ") (format.getD standard) ")" ↔
      ∀ c ∈ (format.getD standard).toList, c = '\'' ∨ σ.Bare c := by
  rw [label_expression h, StringSyntax.hasString_append_iff, StringSyntax.spells_singleQuoted_iff]

/-- A date with quotes in its format. -/
theorem format_spelled_quotes : ∃ f : FieldDef,
    f.measure.formatter? .default = some ("timeFormat", "%b %d, %Y") ∧
      StringSyntax.lettered.HasString (f.label (some "'%y") .parent .default).expression
        "timeFormat(parent[\"date\"], " "'%y" ")" := by
  let f : FieldDef := { FieldDef.unset with field := some "date", type := some .temporal }
  have hm : f.measure.formatter? .default = some ("timeFormat", "%b %d, %Y") := rfl
  have hcall : "timeFormat" ++ "(" ++ f.access none .parent ++ ", " =
      "timeFormat(parent[\"date\"], " := by
    decide
  have hbare : "'%y".toList.all
      (fun c => decide (c = '\'' ∨ StringSyntax.lettered.Bare c)) = true := by
    decide
  refine ⟨f, hm, ?_⟩
  rw [← hcall]
  apply (format_spelled_iff .lettered hm (some "'%y") .parent).mpr
  exact fun c hc => of_decide_eq_true (List.all_eq_true.mp hbare c hc)

/-- A backslash as the format opens an escape in the string, whatever the language. -/
theorem format_not_spelled : ¬ ∀ (σ : StringSyntax) (f : FieldDef) config function standard,
    f.measure.formatter? config = some (function, standard) → ∀ format scope,
      σ.HasString (f.label format scope config).expression
        (function ++ "(" ++ f.access none scope ++ ", ") (format.getD standard) ")" := by
  intro hall
  let f : FieldDef := { FieldDef.unset with field := some "a", type := some .quantitative }
  have hm : f.measure.formatter? .default = some ("format", "s") := rfl
  have hcall := hall .lettered f .default "format" "s" hm (some "\\") .datum
  rw [label_expression hm, StringSyntax.hasString_append_iff,
    StringSyntax.spells_singleQuoted_iff] at hcall
  rcases hcall '\\' (List.mem_singleton_self _) with hquote | hbare
  · exact absurd hquote (by decide)
  · exact StringSyntax.not_bare_backslash hbare

end FieldDef
end Trellis

import Trellis.Proofs.Aliases
import Trellis.Proofs.Identifiers
import Trellis.Proofs.Literals

/-! Whether the names of signals are identifiers. Those of selections are made of letters, digits and
underscores only. They begin as the selection is declared to begin, so a digit stays in front, and the
value of a selection without a name has none either. -/
namespace Trellis

namespace Naming

/-- A letter or an underscore, and then letters, digits and underscores. -/
def IsIdentifier (s : String) : Prop :=
  ∃ c rest, s.toList = c :: rest ∧ (c.isAlpha = true ∨ c = '_') ∧ rest.all isWordChar = true

/-- There is a first character, and it is not a digit. -/
def Leads (s : String) : Prop := ∃ c ∈ s.toList.head?, c.isDigit = false

instance (s : String) : Decidable (Leads s) :=
  decidable_of_iff (s.toList.head?.any (fun c => !c.isDigit) = true)
    (by simp [Leads, Option.any_eq_true])

/-- All letters come behind the digits. -/
theorem not_digit_of_isAlpha {c : Char} (h : c.isAlpha = true) : c.isDigit = false := by
  have hbehind : 'A'.val ≤ c.val := by
    rcases (Bool.or_eq_true_iff.mp h : c.isUpper = true ∨ c.isLower = true) with hupper | hlower
    · exact (of_decide_eq_true hupper).1
    · have hfirst : 'A'.val ≤ 'a'.val := by decide
      exact UInt32.le_trans hfirst (of_decide_eq_true (Bool.and_eq_true_iff.mp hlower).1)
  apply Bool.eq_false_iff.mpr
  intro hdigit
  have hlast : c.val ≤ '9'.val := of_decide_eq_true (Bool.and_eq_true_iff.mp hdigit).2
  exact absurd (UInt32.le_trans hbehind hlast) (by decide)

/-- Letters and underscores are the characters of words that are no digits. -/
theorem isAlpha_or_underscore_iff (c : Char) :
    (c.isAlpha = true ∨ c = '_') ↔ isWordChar c = true ∧ c.isDigit = false := by
  constructor
  · rintro (halpha | rfl)
    · have hword : isWordChar c = true := by
        rw [isWordChar, Char.isAlphanum, halpha, Bool.true_or, Bool.true_or]
      exact ⟨hword, not_digit_of_isAlpha halpha⟩
    · decide
  · rintro ⟨hword, hdigit⟩
    rw [isWordChar, Char.isAlphanum, hdigit, Bool.or_false, Bool.or_eq_true, beq_iff_eq] at hword
    exact hword

/-- An identifier is a word that begins with no digit. -/
theorem isIdentifier_iff {s : String} :
    IsIdentifier s ↔ s.toList.all isWordChar = true ∧ Leads s := by
  unfold IsIdentifier Leads
  cases s.toList with
  | nil => simp
  | cons c rest =>
    rw [List.all_cons, Bool.and_eq_true, List.head?_cons]
    constructor
    · rintro ⟨first, others, hsame, hfirst, hrest⟩
      obtain ⟨rfl, rfl⟩ := List.cons.inj hsame
      obtain ⟨hword, hdigit⟩ := (isAlpha_or_underscore_iff c).mp hfirst
      exact ⟨⟨hword, hrest⟩, c, rfl, hdigit⟩
    · rintro ⟨⟨hword, hrest⟩, first, hfirst, hdigit⟩
      obtain rfl := Option.some.inj hfirst
      exact ⟨c, rest, rfl, (isAlpha_or_underscore_iff c).mpr ⟨hword, hdigit⟩, hrest⟩

/-- As an identifier any text is a word. -/
theorem all_identifierText (s : String) : (identifierText s).toList.all isWordChar = true := by
  rw [identifierText, String.toList_ofList, List.all_map, List.all_eq_true]
  intro c _
  show isWordChar (if c.isAlphanum then c else '_') = true
  by_cases hc : c.isAlphanum = true
  · rw [if_pos hc, isWordChar, hc, Bool.true_or]
  · rw [if_neg hc]
    decide

/-- Digits stay as they are, and no other character becomes one. -/
theorem leads_identifierText_iff (s : String) : Leads (identifierText s) ↔ Leads s := by
  have hdigit (c : Char) : (if c.isAlphanum then c else '_').isDigit = c.isDigit := by
    by_cases hc : c.isAlphanum = true
    · rw [if_pos hc]
    · have hnone : c.isDigit = false := by
        rw [Char.isAlphanum, Bool.or_eq_true, not_or] at hc
        exact Bool.eq_false_iff.mpr hc.2
      rw [if_neg hc, hnone]
      decide
  unfold Leads identifierText
  rw [String.toList_ofList, List.head?_map]
  cases s.toList.head? with
  | none => simp
  | some c => simp [hdigit]

/-- What stands behind a name leaves its beginning as it is. -/
theorem leads_append {s : String} (h : Leads s) (text : String) : Leads (s ++ text) := by
  obtain ⟨c, hc, hdigit⟩ := h
  refine ⟨c, ?_, hdigit⟩
  rw [String.toList_append, List.head?_append, hc]
  rfl

end Naming

namespace Selection

/-- The signals of a selection have its name and a word behind it. -/
theorem exists_word_of_mem_signals {x : Selection} {s : Site} {g : Signal} (h : g ∈ x.signals s) :
    ∃ word, word.toList.all isWordChar = true ∧ g.name = x.signalName word := by
  have hname : g.name ∈ x.purposeSignals ++ x.fieldSignals :=
    (x.signals_names s).mem_iff.mp (List.mem_map_of_mem h)
  rcases List.mem_append.mp hname with hpurpose | hfield
  · obtain ⟨word, hword, hname⟩ := List.mem_map.mp hpurpose
    refine ⟨word, ?_, hname.symm⟩
    rcases List.mem_append.mp hword with hpixels | hchange
    · obtain ⟨e, -, rfl⟩ := List.mem_map.mp hpixels
      cases e.1 <;> decide
    · have hall (t : SelectionType) : t.changes.all (fun w => w.toList.all isWordChar) = true := by
        cases t <;> decide
      exact List.all_eq_true.mp (hall x.type) word hchange
  · obtain ⟨e, -, hname⟩ := List.mem_map.mp hfield
    exact ⟨Naming.identifierText e.2, Naming.all_identifierText e.2, hname.symm⟩

end Selection

/-- The signals of selections: all but the sizes of views. -/
def Visualization.selectionSignals (v : Visualization) : List Signal :=
  v.allSignals.filter (fun g => !g.isSize)

namespace Tree

variable {t : Tree} {pipeline : Pipeline} {whole : Spec} {v : Visualization}

/-- What is known at a site has a name from those that are declared in the tree. -/
theorem exists_key_of_known (hg : View.Fits Gathered [] t.root) {s : Site}
    (hs : s ∈ t.root.sites []) {x : Selection} (hx : x ∈ s.selections) :
    ∃ key ∈ t.root.selectionKeys, x.name = Naming.identifierText key := by
  obtain ⟨key, hkey⟩ := Dict.mem_values_iff.mp hx
  have hdeclared := View.mem_declarations_of_known hg hs hkey
  obtain ⟨n, -, hget⟩ := View.mem_declarations.mp hdeclared
  exact ⟨key, t.root.declarations_keys.mem_iff.mp (List.mem_map_of_mem (f := Prod.fst) hdeclared),
    Node.declared_name hget⟩

/-- The root knows a selection for each declared name. -/
theorem exists_known_of_key (hg : View.Fits Gathered [] t.root) {key : String}
    (h : key ∈ t.root.selectionKeys) :
    ∃ x ∈ t.rootSite.selections, x.name = Naming.identifierText key := by
  obtain ⟨n, hn, hkey⟩ := List.mem_flatMap.mp h
  obtain ⟨-, x, hx, -⟩ := Node.exists_declared hkey
  have hroot := hg.self.all n hn key (Dict.contains_iff.mpr ⟨x, hx⟩)
  obtain ⟨y, hy⟩ := Dict.contains_iff.mp hroot
  obtain ⟨m, -, hget⟩ := hg.self.found key y hy
  exact ⟨y, Dict.mem_values_iff.mpr ⟨key, hy⟩, Node.declared_name hget⟩

/-- The signals of selections are the pointed group, for each declared name a value, and others that
have a word behind such a name. -/
theorem mem_selectionSignals (h : t.assemble pipeline = .ok v)
    (hb : View.Fits (fun s _ => s.Built whole) [] t.root) (hg : View.Fits Gathered [] t.root)
    {g : Signal} (hmem : g ∈ v.selectionSignals) : g.name = Naming.unitSignal ∨
      ∃ key ∈ t.root.selectionKeys, g.name = Naming.identifierText key ∨
        ∃ word, word.toList.all isWordChar = true ∧
          g.name = Naming.identifierText key ++ "_" ++ word := by
  obtain ⟨data, ms, -, -, -, hsignals, -⟩ := assemble_ok h
  obtain ⟨hmem, hsize⟩ := List.mem_filter.mp hmem
  rw [Visualization.allSignals, hsignals, groups_signals h hb, List.append_assoc] at hmem
  rcases List.mem_append.mp hmem with hsizes | hmem
  · obtain ⟨name, size, rfl, hown⟩ := View.sizeSignals_computed g hsizes
    have hyes : (Signal.computed name size).isSize = true := hown
    rw [hyes] at hsize
    exact absurd hsize Bool.false_ne_true
  rcases List.mem_append.mp hmem with htop | hunits
  · rcases List.mem_append.mp htop with hpointed | hvalues
    · split at hpointed
      · rw [List.mem_singleton.mp hpointed]
        exact .inl rfl
      · exact absurd hpointed List.not_mem_nil
    · obtain ⟨x, hx, rfl⟩ := List.mem_map.mp hvalues
      obtain ⟨key, hkey, hname⟩ := exists_key_of_known hg (View.self_mem_sites [] t.root) hx
      exact .inr ⟨key, hkey, .inl hname⟩
  · obtain ⟨root, hroot, hg'⟩ := List.mem_flatMap.mp hunits
    obtain ⟨m, hm, hg'⟩ := List.mem_flatMap.mp hg'
    obtain ⟨x, hx, hg'⟩ := List.mem_flatMap.mp hg'
    have hmember := View.mem_sites_of_mem_groupSites (List.mem_filter.mp hm).1
    have hsite := View.mem_sites_trans (View.mem_sites_of_mem_groupRoots hb hroot) hmember
    obtain ⟨key, hkey, hname⟩ := exists_key_of_known hg hsite (List.mem_filter.mp hx).1
    obtain ⟨word, hword, hsignal⟩ := Selection.exists_word_of_mem_signals hg'
    rw [Selection.signalName, hname] at hsignal
    exact .inr ⟨key, hkey, .inr ⟨word, hword, hsignal⟩⟩

/-- Each declared name has a signal with the value. -/
theorem exists_value_of_key (h : t.assemble pipeline = .ok v) (hg : View.Fits Gathered [] t.root)
    {key : String} (hkey : key ∈ t.root.selectionKeys) :
    ∃ g ∈ v.selectionSignals, g.name = Naming.identifierText key := by
  obtain ⟨data, ms, -, -, -, hsignals, -⟩ := assemble_ok h
  obtain ⟨x, hx, hname⟩ := exists_known_of_key hg hkey
  refine ⟨.computed x.name (.data (Naming.store x.name)), List.mem_filter.mpr ⟨?_, rfl⟩, hname⟩
  rw [Visualization.allSignals, hsignals]
  apply List.mem_append_left
  apply List.mem_append_right
  exact List.mem_append_right _ (List.mem_map_of_mem hx)

/-- The names of signals of selections are words. -/
theorem words_of_selectionSignals (h : t.assemble pipeline = .ok v)
    (hb : View.Fits (fun s _ => s.Built whole) [] t.root) (hg : View.Fits Gathered [] t.root) :
    ∀ g ∈ v.selectionSignals, g.name.toList.all isWordChar = true := by
  intro g hmem
  obtain hunit | ⟨key, -, hvalue | ⟨word, hword, hbehind⟩⟩ := mem_selectionSignals h hb hg hmem
  · rw [hunit]
    decide
  · rw [hvalue]
    exact Naming.all_identifierText key
  · have hseparator : "_".toList.all isWordChar = true := by decide
    rw [hbehind, String.toList_append, String.toList_append, List.all_append, List.all_append,
      Naming.all_identifierText, hseparator, hword]
    rfl

/-- They are identifiers just if no declared name begins with a digit, or not at all. -/
theorem identified_iff_leads (h : t.assemble pipeline = .ok v)
    (hb : View.Fits (fun s _ => s.Built whole) [] t.root) (hg : View.Fits Gathered [] t.root) :
    (∀ g ∈ v.selectionSignals, Naming.IsIdentifier g.name) ↔
      ∀ key ∈ t.root.selectionKeys, Naming.Leads key := by
  constructor
  · intro hall key hkey
    obtain ⟨g, hmem, hname⟩ := exists_value_of_key h hg hkey
    have hidentifier := hall g hmem
    rw [hname, Naming.isIdentifier_iff] at hidentifier
    exact (Naming.leads_identifierText_iff key).mp hidentifier.2
  · intro hleads g hmem
    refine Naming.isIdentifier_iff.mpr ⟨words_of_selectionSignals h hb hg g hmem, ?_⟩
    obtain hunit | ⟨key, hkey, hname⟩ := mem_selectionSignals h hb hg hmem
    · rw [hunit]
      decide
    · have hkey := (Naming.leads_identifierText_iff key).mpr (hleads key hkey)
      rcases hname with hvalue | ⟨word, -, hbehind⟩
      · rw [hvalue]
        exact hkey
      · rw [hbehind]
        exact Naming.leads_append (Naming.leads_append hkey "_") word

end Tree

namespace Compiler

variable {compiler : Compiler} {spec : Spec} {compiled : Compiled} {t : Tree} {ds : List Diagnostic}

/-- In whatever compiles, the names of the signals of selections are made of letters, digits and
underscores. They are identifiers just if each name that is declared for a selection begins with a
character, and not with a digit. -/
theorem signals_identified_iff (h : compiler.compile spec = .ok compiled)
    (hb : compiler.build spec = .ok (t, ds)) :
    (∀ g ∈ compiled.visualization.selectionSignals, g.name.toList.all isWordChar = true) ∧
      ((∀ g ∈ compiled.visualization.selectionSignals, Naming.IsIdentifier g.name) ↔
        ∀ key ∈ t.root.selectionKeys, Naming.Leads key) := by
  obtain ⟨built, ds', hb', -, hassemble, -⟩ := compile_ok h
  obtain ⟨rfl, rfl⟩ : t = built ∧ ds = ds' := Prod.mk.inj (Except.ok.inj (hb.symm.trans hb'))
  have hgathered := Tree.gathered_of_build hb compiler.pipeline
  have hbuilt := Tree.built_of_build hb compiler.pipeline Phase.all
  have hsame := Tree.runPhases_selectionKeys compiler.pipeline Phase.all t
  have hiff := Tree.identified_iff_leads hassemble hbuilt hgathered
  rw [hsame] at hiff
  exact ⟨Tree.words_of_selectionSignals hassemble hbuilt hgathered, hiff⟩

/-- Two selections whose names begin with letters have identifiers as signals, whatever follows. -/
theorem signals_identified_layeredPicks : ∃ compiled t ds,
    standard.compile (.layeredPicks "my pick" "choice-2") = .ok compiled ∧
      standard.build (.layeredPicks "my pick" "choice-2") = .ok (t, ds) ∧
        (∀ key ∈ t.root.selectionKeys, Naming.Leads key) ∧
          (∃ g ∈ compiled.visualization.selectionSignals, g.name = "my_pick") ∧
            ∀ g ∈ compiled.visualization.selectionSignals, Naming.IsIdentifier g.name := by
  have hbuilds : (standard.build (.layeredPicks "my pick" "choice-2")).toOption.any (fun r =>
      decide (∀ key ∈ r.1.root.selectionKeys, Naming.Leads key)) = true := by
    decide +kernel
  have hcompiles : (standard.compile (.layeredPicks "my pick" "choice-2")).toOption.any (fun c =>
      c.visualization.selectionSignals.any (fun g => g.name == "my_pick")) = true := by
    decide +kernel
  obtain ⟨⟨t, ds⟩, hb, hleads⟩ := exists_ok_of_any hbuilds
  obtain ⟨compiled, hc, hnamed⟩ := exists_ok_of_any hcompiles
  obtain ⟨g, hg, hname⟩ := List.any_eq_true.mp hnamed
  have hleads : ∀ key ∈ t.root.selectionKeys, Naming.Leads key := of_decide_eq_true hleads
  exact ⟨compiled, t, ds, hc, hb, hleads, ⟨g, hg, beq_iff_eq.mp hname⟩,
    (signals_identified_iff hc hb).2.mpr hleads⟩

/-- A selection that is declared with a digit in front keeps it in its signals. -/
theorem signals_not_identified : ¬ ∀ (compiler : Compiler) spec compiled,
    compiler.compile spec = .ok compiled →
      ∀ g ∈ compiled.visualization.selectionSignals, Naming.IsIdentifier g.name := by
  intro hall
  have hcompiles : (standard.compile (.layeredPicks "1st" "choice")).toOption.any (fun c =>
      c.visualization.selectionSignals.any (fun g => g.name == "1st")) = true := by
    decide +kernel
  obtain ⟨compiled, hc, hnamed⟩ := exists_ok_of_any hcompiles
  obtain ⟨g, hg, hname⟩ := List.any_eq_true.mp hnamed
  have hidentifier := hall standard _ compiled hc g hg
  rw [beq_iff_eq.mp hname, Naming.isIdentifier_iff] at hidentifier
  exact absurd hidentifier.2 (by decide)

end Compiler
end Trellis

import Trellis.Proofs.Cells
import Trellis.Proofs.Runs

/-! Calls on a built tree in any order: single phases, the whole parse, and assembling. However they
are mixed, a tree only ever comes through its phases one after the other. -/
namespace Trellis

/-- A call on a tree, under the standard pipeline. -/
inductive Call where
  | runPhase (phase : Phase)
  | parse
  | assemble

/-- A tree in use: what has been reported since it was built, and the phases that have run. -/
structure Session where
  tree : Tree
  diagnostics : List Diagnostic
  ran : List Phase

namespace Session

/-- The session of a tree that was just built. -/
def start (t : Tree) (built : List Diagnostic) : Session := ⟨t, built, []⟩

/-- Goes on with the outcome of some phases, which have run unless one of them failed. -/
def take (s : Session) (phases : List Phase) (o : TreeOutcome) : Session :=
  ⟨o.tree, s.diagnostics ++ o.diagnostics, if o.error.isNone then s.ran ++ phases else s.ran⟩

/-- What a call leaves. Assembling only reads the tree. -/
def call (s : Session) : Call → Session
  | .runPhase phase => s.take [phase] (s.tree.runPhase .standard phase)
  | .parse => s.take s.tree.remaining (s.tree.parse .standard)
  | .assemble => s

def calls (s : Session) (cs : List Call) : Session := cs.foldl call s

/-- The first phase that has not run yet. -/
def due? (s : Session) : Option Phase := Phase.all.find? (fun phase => phase ∉ s.ran)

/-- What every call meets and leaves at some point of a session that began with `first`. -/
structure Orderly (first s : Session) : Prop where
  order : s.ran <+: Phase.all
  /-- The tree and each of its nodes are marked with the last phase that ran. -/
  marked : s.tree.parsed = s.ran.getLast? ∧
    ∀ n ∈ s.tree.root.nodes, n.components.completed = s.ran.getLast?
  runs : ∀ phase, (s.tree.runPhase .standard phase).error = none ↔ s.due? = some phase
  refuses : ∀ phase e, (s.tree.runPhase .standard phase).error = some e →
    e = .phase (.outOfOrder phase s.due?) ∧ s.call (.runPhase phase) = s
  /-- Parsing succeeds, and leaves what parsing the fresh tree at once leaves. -/
  parses : (s.tree.parse .standard).error = none ∧ s.call .parse = first.call .parse
  draws : (∃ v, s.tree.assemble .standard = .ok v) ↔ ∀ phase, phase ∈ s.ran
  waits : (¬ ∀ phase, phase ∈ s.ran) → s.tree.assemble .standard = .error (.phase .unfinished)
  /-- What is drawn once is drawn from then on. -/
  keeps : ∀ v, s.tree.assemble .standard = .ok v →
    ∀ later : List Call, (s.calls later).tree.assemble .standard = .ok v

end Session

/-! ### The order of the phases -/

namespace Phase

theorem due_take : ∀ k ≤ all.length, due? (all.take k).getLast? = all[k]? := by decide

theorem find_take : ∀ k ≤ all.length, all.find? (fun phase => phase ∉ all.take k) = all[k]? := by
  decide

theorem remaining_take : ∀ k ≤ all.length,
    all.filter (fun phase => !covers (all.take k).getLast? phase) = all.drop k := by
  decide

theorem foldl_take : ∀ k ≤ all.length,
    (all.take k).foldl (fun _ phase => some phase) none = (all.take k).getLast? := by
  decide

theorem last_mem_take : ∀ k ≤ all.length, last ∈ all.take k → k = all.length := by decide

theorem mem_all (phase : Phase) : phase ∈ all := by
  cases phase <;> decide

theorem Successive.left {done : Option Phase} {before after : List Phase}
    (h : Successive done (before ++ after)) : Successive done before := by
  induction before generalizing done with
  | nil => trivial
  | cons phase rest ih => exact ⟨h.1, ih h.2⟩

theorem successive_take (k : Nat) : Successive none (all.take k) := by
  have hall : Successive none (all.take k ++ all.drop k) := by
    rw [List.take_append_drop]
    exact ⟨rfl, rfl, rfl, rfl, rfl, rfl, rfl, trivial⟩
  exact hall.left

end Phase

/-! ### Sessions -/

/-- A tree that lacks a phase is not assembled. -/
theorem Tree.assemble_of_unfinished {t : Tree} (pipeline : Pipeline) (h : t.parsed ≠ some .last) :
    t.assemble pipeline = .error (.phase .unfinished) := by
  unfold assemble
  rw [if_pos h]
  rfl

namespace Session

variable {spec : Spec} {config : Config} {t : Tree} {ds : List Diagnostic}

/-- The session of a built tree whose first phases have run. -/
def upTo (t : Tree) (built : List Diagnostic) (k : Nat) : Session :=
  (start t built).take (Phase.all.take k) (t.runPhases .standard (Phase.all.take k))

theorem upTo_zero (t : Tree) (built : List Diagnostic) : upTo t built 0 = start t built := by
  unfold upTo start take
  rw [List.take_zero, Tree.runPhases, List.append_nil]
  rfl

/-- The first phases succeed on a built tree. -/
theorem upTo_reached (h : Tree.build spec config = .ok (t, ds)) {k : Nat}
    (hk : k ≤ Phase.all.length) :
    (t.runPhases .standard (Phase.all.take k)).error = none ∧
      (upTo t ds k).tree.Reached (fun _ => True) spec t.root.strip (Phase.all.take k).getLast? := by
  obtain ⟨hbuilt, hnames, -⟩ := Tree.build_ok (G := fun _ => True) h
  obtain ⟨herror, hreached, -⟩ :=
    hbuilt.runPhases _ trivial spec.guideExtras_true hnames (Phase.successive_take k)
  rw [Phase.foldl_take k hk] at hreached
  exact ⟨herror, hreached⟩

theorem upTo_ran (h : Tree.build spec config = .ok (t, ds)) {k : Nat}
    (hk : k ≤ Phase.all.length) : (upTo t ds k).ran = Phase.all.take k := by
  unfold upTo take
  rw [(upTo_reached h hk).1]
  rfl

theorem upTo_parsed (h : Tree.build spec config = .ok (t, ds)) {k : Nat}
    (hk : k ≤ Phase.all.length) :
    (upTo t ds k).tree.parsed = (Phase.all.take k).getLast? := (upTo_reached h hk).2.parsed

theorem upTo_due (h : Tree.build spec config = .ok (t, ds)) {k : Nat}
    (hk : k ≤ Phase.all.length) :
    (upTo t ds k).due? = Phase.all[k]? ∧
      Phase.due? (upTo t ds k).tree.parsed = Phase.all[k]? := by
  refine ⟨?_, ?_⟩
  · unfold due?
    rw [upTo_ran h hk]
    exact Phase.find_take k hk
  · rw [upTo_parsed h hk]
    exact Phase.due_take k hk

/-- Running the phases that come next makes no difference to having run them at once. -/
theorem take_upTo (h : Tree.build spec config = .ok (t, ds)) {k m : Nat}
    (hk : k ≤ Phase.all.length) (hm : m ≤ Phase.all.length) {phases : List Phase}
    (hphases : Phase.all.take k ++ phases = Phase.all.take m) :
    (upTo t ds k).take phases ((upTo t ds k).tree.runPhases .standard phases) = upTo t ds m := by
  obtain ⟨herror, -⟩ := upTo_reached h hk
  obtain ⟨hwhole, -⟩ := upTo_reached h hm
  obtain ⟨hsame, htree⟩ := Tree.runPhases_append .standard phases herror
  have hreports := Tree.runPhases_append_diagnostics .standard phases herror
  rw [hphases] at hsame htree hreports
  -- neither run fails, so both record all their phases
  have hrest : ((upTo t ds k).tree.runPhases .standard phases).error = none := hsame.symm.trans hwhole
  rw [take, hrest, upTo_ran h hk]
  unfold upTo
  rw [take, take, hwhole, htree, hreports, ← hphases, List.append_assoc]
  rfl

/-- A phase that is not due leaves everything as it is. -/
theorem call_of_not_due {s : Session} {phase : Phase} (h : Phase.due? s.tree.parsed ≠ some phase) :
    (s.tree.runPhase .standard phase).error =
        some (.phase (.outOfOrder phase (Phase.due? s.tree.parsed))) ∧
      s.call (.runPhase phase) = s := by
  have hrefused : s.tree.runPhase .standard phase =
      ⟨s.tree, [], some (.phase (.outOfOrder phase (Phase.due? s.tree.parsed)))⟩ := by
    rw [Tree.runPhase, if_pos h]
  refine ⟨by rw [hrefused], ?_⟩
  rw [call, hrefused, take, List.append_nil]
  rfl

/-- The phase that is due runs. -/
theorem call_of_due (h : Tree.build spec config = .ok (t, ds)) {k : Nat}
    (hk : k ≤ Phase.all.length) {phase : Phase} (hdue : Phase.all[k]? = some phase) :
    ((upTo t ds k).tree.runPhase .standard phase).error = none ∧
      (upTo t ds k).call (.runPhase phase) = upTo t ds (k + 1) := by
  have hnext : Phase.all.take k ++ [phase] = Phase.all.take (k + 1) := by
    rw [List.take_add_one, hdue]
    rfl
  have hlength : k + 1 ≤ Phase.all.length := (List.getElem?_eq_some_iff.mp hdue).1
  refine ⟨?_, ?_⟩
  · have hturn := (upTo_due h hk).2.trans hdue
    rw [upTo_parsed h hk] at hturn
    obtain ⟨-, hnames, -⟩ := Tree.build_ok (G := fun _ => True) h
    exact ((upTo_reached h hk).2.runPhase trivial spec.guideExtras_true hnames hturn).1
  · rw [call, ← Tree.runPhases_singleton]
    exact take_upTo h hk hlength hnext

theorem upTo_remaining (h : Tree.build spec config = .ok (t, ds)) {k : Nat}
    (hk : k ≤ Phase.all.length) : (upTo t ds k).tree.remaining = Phase.all.drop k := by
  unfold Tree.remaining
  rw [upTo_parsed h hk]
  exact Phase.remaining_take k hk

/-- Parsing runs all the phases that are left. -/
theorem call_parse (h : Tree.build spec config = .ok (t, ds)) {k : Nat}
    (hk : k ≤ Phase.all.length) :
    ((upTo t ds k).tree.parse .standard).error = none ∧
      (upTo t ds k).call .parse = upTo t ds Phase.all.length := by
  have hall : Phase.all.take k ++ Phase.all.drop k = Phase.all.take Phase.all.length := by
    rw [List.take_append_drop, List.take_length]
  refine ⟨?_, ?_⟩
  · obtain ⟨hfirst, -⟩ := upTo_reached h hk
    obtain ⟨hwhole, -⟩ := upTo_reached h (Nat.le_refl Phase.all.length)
    rw [← hall, (Tree.runPhases_append .standard _ hfirst).1] at hwhole
    rw [Tree.parse, upTo_remaining h hk]
    exact hwhole
  · rw [call, Tree.parse, upTo_remaining h hk]
    exact take_upTo h hk (Nat.le_refl _) hall

/-- A call leaves a built tree with its first phases run, and none of them undone. -/
theorem call_upTo (h : Tree.build spec config = .ok (t, ds)) (c : Call) {k : Nat}
    (hk : k ≤ Phase.all.length) :
    ∃ m, k ≤ m ∧ m ≤ Phase.all.length ∧ (upTo t ds k).call c = upTo t ds m := by
  cases c with
  | runPhase phase =>
    -- the phase after the first k is the only one that does anything
    by_cases hdue : Phase.all[k]? = some phase
    · have hlength : k + 1 ≤ Phase.all.length := (List.getElem?_eq_some_iff.mp hdue).1
      exact ⟨k + 1, Nat.le_succ k, hlength, (call_of_due h hk hdue).2⟩
    · rw [← (upTo_due h hk).2] at hdue
      exact ⟨k, Nat.le_refl k, hk, (call_of_not_due hdue).2⟩
  | parse => exact ⟨Phase.all.length, hk, Nat.le_refl _, (call_parse h hk).2⟩
  | assemble => exact ⟨k, Nat.le_refl k, hk, rfl⟩

theorem calls_upTo (h : Tree.build spec config = .ok (t, ds)) (cs : List Call) {k : Nat}
    (hk : k ≤ Phase.all.length) :
    ∃ m, k ≤ m ∧ m ≤ Phase.all.length ∧ (upTo t ds k).calls cs = upTo t ds m := by
  -- each call starts where the one before it left off, again after the first phases
  induction cs generalizing k with
  | nil => exact ⟨k, Nat.le_refl k, hk, rfl⟩
  | cons c rest ih =>
    obtain ⟨m, hkm, hm, hcall⟩ := call_upTo h c hk
    obtain ⟨l, hml, hl, hcalls⟩ := ih hm
    refine ⟨l, Nat.le_trans hkm hml, hl, ?_⟩
    rw [calls, List.foldl_cons, hcall]
    exact hcalls

/-- All phases have run in the end, and not before. -/
theorem forall_mem_upTo (h : Tree.build spec config = .ok (t, ds)) {k : Nat}
    (hk : k ≤ Phase.all.length) :
    (∀ phase, phase ∈ (upTo t ds k).ran) ↔ k = Phase.all.length := by
  rw [upTo_ran h hk]
  refine ⟨fun hall => Phase.last_mem_take k hk (hall _), ?_⟩
  rintro rfl phase
  rw [List.take_length]
  exact phase.mem_all

theorem assemble_upTo (h : Tree.build spec config = .ok (t, ds)) :
    (upTo t ds Phase.all.length).tree.assemble .standard =
      .ok (upTo t ds Phase.all.length).tree.drawn :=
  Tree.assemble_eq (upTo_reached h (Nat.le_refl _)).2

theorem assemble_upTo_of_lt (h : Tree.build spec config = .ok (t, ds)) {k : Nat}
    (hk : k < Phase.all.length) :
    (upTo t ds k).tree.assemble .standard = .error (.phase .unfinished) := by
  refine Tree.assemble_of_unfinished .standard ?_
  rw [upTo_parsed h (Nat.le_of_lt hk)]
  intro hlast
  have hmem := List.mem_of_getLast? hlast
  exact Nat.ne_of_lt hk (Phase.last_mem_take k (Nat.le_of_lt hk) hmem)

theorem orderly_upTo (h : Tree.build spec config = .ok (t, ds)) {k : Nat}
    (hk : k ≤ Phase.all.length) : (start t ds).Orderly (upTo t ds k) := by
  obtain ⟨hdue, hturn⟩ := upTo_due h hk
  have hran := upTo_ran h hk
  constructor
  case order =>
    rw [hran]
    exact List.take_prefix k _
  case marked =>
    rw [hran]
    exact ⟨upTo_parsed h hk, fun n hn => (upTo_reached h hk).2.completed hn⟩
  case runs =>
    intro phase
    rw [hdue]
    refine ⟨fun hok => ?_, fun hnext => (call_of_due h hk hnext).1⟩
    by_contra hother
    rw [← hturn] at hother
    exact absurd ((call_of_not_due hother).1.symm.trans hok) (by simp)
  case refuses =>
    intro phase e he
    rw [hdue, ← hturn]
    have hother : Phase.due? (upTo t ds k).tree.parsed ≠ some phase := by
      intro hnext
      rw [(call_of_due h hk (hturn.symm.trans hnext)).1] at he
      exact absurd he (by simp)
    obtain ⟨herror, hcall⟩ := call_of_not_due hother
    exact ⟨Option.some.inj (he.symm.trans herror), hcall⟩
  case parses =>
    refine ⟨(call_parse h hk).1, ?_⟩
    rw [(call_parse h hk).2, ← upTo_zero, (call_parse h (Nat.zero_le _)).2]
  case draws =>
    rw [forall_mem_upTo h hk]
    refine ⟨?_, ?_⟩
    · rintro ⟨v, hv⟩
      by_contra hne
      rw [assemble_upTo_of_lt h (Nat.lt_of_le_of_ne hk hne)] at hv
      exact absurd hv (by simp)
    · rintro rfl
      exact ⟨_, assemble_upTo h⟩
  case waits =>
    rw [forall_mem_upTo h hk]
    exact fun hne => assemble_upTo_of_lt h (Nat.lt_of_le_of_ne hk hne)
  case keeps =>
    intro v hv later
    obtain rfl : k = Phase.all.length := by
      by_contra hne
      rw [assemble_upTo_of_lt h (Nat.lt_of_le_of_ne hk hne)] at hv
      exact absurd hv (by simp)
    -- no call goes back, so there is nothing else to come to
    obtain ⟨m, hkm, hm, hcalls⟩ := calls_upTo h later hk
    obtain rfl : m = Phase.all.length := Nat.le_antisymm hm hkm
    rw [hcalls]
    exact hv

/-- However phases, whole parses and assembling are mixed on a built tree, each phase runs exactly
when it is the first that has not run yet, any other is refused and changes nothing, parsing ends
where parsing the fresh tree at once ends, and the tree is drawn exactly once all phases have run,
from then on always the same. -/
theorem orderly_of_build (h : Tree.build spec config = .ok (t, ds)) (cs : List Call) :
    (start t ds).Orderly ((start t ds).calls cs) := by
  obtain ⟨m, -, hm, hcalls⟩ := calls_upTo h cs (Nat.zero_le _)
  rw [upTo_zero] at hcalls
  rw [hcalls]
  exact orderly_upTo h hm

/-- Too early, then too late: only the first phase and the parse do anything. -/
theorem orderly_nestedRows : ∃ t ds, Tree.build .nestedRows .default = .ok (t, ds) ∧
    (start t ds).Orderly ((start t ds).calls
      [.assemble, .runPhase .scale, .runPhase .data, .parse, .runPhase .scale, .assemble]) := by
  obtain ⟨t, ds, hb⟩ := Tree.exists_build_nestedRows
  exact ⟨t, ds, hb, orderly_of_build hb _⟩

end Session
end Trellis

/-
Trivia/Proofs/Rounds.lean

What runs depend on, whatever the rules are.

The first rule whose construct is not absent decides a round (`Decides`), so a round
fails with a diagnostic exactly where that rule finds its construct malformed
(`Round.value_eq_diagnosed_iff`).  Rules behind it have no say, and rules before them do
not get in their way (`Round.value_ofRules_append`).

A run is its rounds: where the rounds of two grammars come to the same, so do their runs
(`Grammar.value_run_congr`).  How many rounds are allowed does not matter, as long as they
are enough (`Grammar.value_run_of_rounds`).  So a run can be described by the places that
it comes to, without counting, and it fails with a diagnostic exactly where one of these
is decided by a malformed construct (`Grammar.Breaks`).
-/
import Trivia.Proofs.Circles

namespace Trivia

open Relation

variable {source : Bytes} {c d start : Position source} {dialect dialect' : Dialect}
variable {g g' : Grammar} {r : Rule} {rules more : List Rule}

/-! ### Who decides a round -/

/-- The rule finds its construct absent, wherever it leaves the scanner. -/
def Rule.AbsentAt (r : Rule) (dialect : Dialect) (c : Position source) : Prop :=
  ∃ log expected offset, ∃ d : Position source,
    r.attempt dialect c = .ok ⟨log, .absent expected offset⟩ d

/-- The first of the rules whose construct is not absent at `c` gives this answer, and
leaves the scanner at `d`. -/
inductive Decides (dialect : Dialect) (c : Position source) :
    List Rule → Attempt Node → Position source → Prop
  | here {r : Rule} {rules : List Rule} {log : List Event} {answer : Attempt Node}
      {d : Position source} :
      r.attempt dialect c = .ok ⟨log, answer⟩ d → answer.isAbsent = false →
      Decides dialect c (r :: rules) answer d
  | later {r : Rule} {rules : List Rule} {answer : Attempt Node} {d : Position source} :
      r.AbsentAt dialect c → Decides dialect c rules answer d →
      Decides dialect c (r :: rules) answer d

theorem Decides.append {answer : Attempt Node} (h : Decides dialect c rules answer d)
    (more : List Rule) : Decides dialect c (rules ++ more) answer d := by
  induction h with
  | here hattempt hanswer => exact .here hattempt hanswer
  | later habsent _ ih => exact .later habsent ih

namespace Round

theorem value_ofRules_of_absentAt (h : r.AbsentAt dialect c) :
    (ofRules dialect c (r :: rules)).value = (ofRules dialect c rules).value := by
  obtain ⟨log, expected, offset, d, hattempt⟩ := h
  rw [ofRules_absent hattempt]

/-- A rule that does not find its construct absent leaves nothing to the rules behind. -/
theorem value_ofRules_of_not_absentAt (h : ¬ r.AbsentAt dialect c) (rules rules' : List Rule) :
    (ofRules dialect c (r :: rules)).value = (ofRules dialect c (r :: rules')).value := by
  rw [value_ofRules_cons, value_ofRules_cons]
  rcases hattempt : r.attempt dialect c with
    ⟨⟨log, n | ⟨expected, offset⟩ | cause⟩, d⟩ | ⟨cause, d⟩
  · rfl
  · exact absurd ⟨log, expected, offset, d, hattempt⟩ h
  · rfl
  · rfl

/-- A round fails with a diagnostic where the rule that decides it has one. -/
theorem value_eq_diagnosed_iff {cause : Diagnostic} :
    (ofRules dialect c rules).value = .failed (.diagnosed cause) ↔
      ∃ d, Decides dialect c rules (.malformed cause) d := by
  constructor
  · intro h
    induction rules with
    | nil => cases h
    | cons r rules ih =>
      rcases hattempt : r.attempt dialect c with
        ⟨⟨log, n | ⟨expected, offset⟩ | cause'⟩, d⟩ | ⟨cause', d⟩
      · rw [value_ofRules_cons, hattempt] at h
        dsimp only at h
        split at h <;> cases h
      · have habsent : r.AbsentAt dialect c := ⟨_, _, _, _, hattempt⟩
        rw [value_ofRules_of_absentAt habsent] at h
        obtain ⟨e, he⟩ := ih h
        exact ⟨e, .later habsent he⟩
      · rw [value_ofRules_cons, hattempt] at h
        cases h
        exact ⟨d, .here hattempt rfl⟩
      · rw [value_ofRules_cons, hattempt] at h
        cases h
  · rintro ⟨d, h⟩
    generalize hanswer : Attempt.malformed cause = answer at h
    induction h with
    | here hattempt _ =>
      subst hanswer
      rw [ofRules_malformed hattempt]
    | later habsent _ ih =>
      rw [value_ofRules_of_absentAt habsent]
      exact ih hanswer

/-- Rules that are tried later count only where all rules before find nothing. -/
theorem value_ofRules_append (rules more : List Rule) (c : Position source) :
    ((∀ r ∈ rules, r.AbsentAt dialect c) ∧
      (ofRules dialect c (rules ++ more)).value = (ofRules dialect c more).value) ∨
    (ofRules dialect c (rules ++ more)).value = (ofRules dialect c rules).value := by
  induction rules with
  | nil => exact .inl ⟨List.forall_mem_nil _, rfl⟩
  | cons r rules ih =>
    by_cases habsent : r.AbsentAt dialect c
    · rw [List.cons_append, value_ofRules_of_absentAt habsent, value_ofRules_of_absentAt habsent,
        List.forall_mem_cons]
      exact ih.imp_left fun h => ⟨⟨habsent, h.1⟩, h.2⟩
    · exact .inr (value_ofRules_of_not_absentAt habsent (rules ++ more) rules)

end Round

/-! ### Runs are their rounds -/

/-- A run, with nodes that were found before it. -/
def Run.behind (nodes : List Node) (run : Run source) : Run source :=
  ⟨nodes ++ run.nodes, run.stop⟩

theorem Run.map_behind_nil (result : Except Failure (Run source)) :
    result.map (behind []) = result := by
  cases result with
  | error _ => rfl
  | ok _ => rfl

theorem Run.map_behind_behind (before nodes : List Node) (result : Except Failure (Run source)) :
    (result.map (behind nodes)).map (behind before) = result.map (behind (before ++ nodes)) := by
  cases result with
  | error _ => rfl
  | ok run => simp [Except.map, behind]

namespace Grammar

variable {limit limit' : Nat}

theorem value_rounds_of_node {n : Node}
    (h : (Round.ofRules dialect c g.rules).value = .node n d) (limit : Nat) :
    (g.rounds dialect (limit + 1) c).value
      = (g.rounds dialect limit d).value.map (Run.behind [n]) := by
  rw [value_rounds_succ, h]
  rfl

theorem value_rounds_of_stop (h : (Round.ofRules dialect c g.rules).value = .stop)
    (limit : Nat) : (g.rounds dialect (limit + 1) c).value = .ok ⟨[], c⟩ := by
  rw [value_rounds_succ, h]

theorem value_rounds_of_failed {cause : Failure}
    (h : (Round.ofRules dialect c g.rules).value = .failed cause) (limit : Nat) :
    (g.rounds dialect (limit + 1) c).value = .error cause := by
  rw [value_rounds_succ, h]

theorem value_rounds_congr
    (h : ∀ c : Position source, (Round.ofRules dialect c g.rules).value
      = (Round.ofRules dialect' c g'.rules).value) (limit : Nat) (c : Position source) :
    (g.rounds dialect limit c).value = (g'.rounds dialect' limit c).value := by
  induction limit generalizing c with
  | zero => rfl
  | succ limit ih => simp only [value_rounds_succ, h, ih]

theorem value_run_congr
    (h : ∀ c : Position source, (Round.ofRules dialect c g.rules).value
      = (Round.ofRules dialect' c g'.rules).value) (start : Position source) :
    (g.run dialect start).value = (g'.run dialect' start).value :=
  value_rounds_congr h _ start

theorem value_fileFrom_of_ok {run : Run source} (h : (g.run dialect start).value = .ok run)
    (name : String) :
    (g.fileFrom dialect name start).value = (finish dialect name run).value := by
  rw [value_fileFrom, h]
  rfl

theorem value_fileFrom_of_error {cause : Failure}
    (h : (g.run dialect start).value = .error cause) (name : String) :
    (g.fileFrom dialect name start).value = .error cause := by
  rw [value_fileFrom, h]
  rfl

/-- The nodes of a file are those of its run. -/
theorem exists_run_of_fileFrom {name : String} {file : File}
    (h : (g.fileFrom dialect name start).value = .ok file) :
    ∃ run, (g.run dialect start).value = .ok run ∧ file.nodes = run.nodes := by
  rcases hrun : (g.run dialect start).value with cause | run
  · rw [value_fileFrom_of_error hrun] at h
    cases h
  · rw [value_fileFrom_of_ok hrun, value_finish] at h
    split_ifs at h
    exact ⟨run, rfl, congrArg File.nodes (Except.ok.inj h).symm⟩

/-- Grammars whose rounds come to the same have the same files, and the same runs end. -/
theorem value_fileFrom_congr
    (h : ∀ c : Position source, (Round.ofRules dialect c g.rules).value
      = (Round.ofRules dialect c g'.rules).value) (name : String) (start : Position source) :
    (g.Ends dialect start ↔ g'.Ends dialect start) ∧
      (g.fileFrom dialect name start).value = (g'.fileFrom dialect name start).value := by
  constructor
  · have hrounds : ∀ limit, (g.rounds dialect limit start).value
        = (g'.rounds dialect limit start).value := fun limit => value_rounds_congr h limit start
    simp only [Ends, hrounds]
  · rw [value_fileFrom, value_fileFrom, value_run_congr h]

/-- With more rounds than are enough, a run does not change. -/
theorem rounds_mono (h : (g.rounds dialect limit c).value ≠ .error .endless)
    (hle : limit ≤ limit') :
    (g.rounds dialect limit' c).value = (g.rounds dialect limit c).value := by
  induction limit generalizing c limit' with
  | zero => exact absurd rfl h
  | succ limit ih =>
    obtain ⟨more, rfl⟩ := Nat.exists_eq_add_of_le' hle
    rcases hround : (Round.ofRules dialect c g.rules).value with ⟨n, next⟩ | - | cause
    · have hnext : (g.rounds dialect limit next).value ≠ .error .endless := by
        intro hnext
        rw [value_rounds_of_node hround, hnext] at h
        exact h rfl
      rw [← Nat.add_assoc, value_rounds_of_node hround, value_rounds_of_node hround,
        ih hnext (Nat.le_add_left limit more)]
    · rw [← Nat.add_assoc, value_rounds_of_stop hround, value_rounds_of_stop hround]
    · rw [← Nat.add_assoc, value_rounds_of_failed hround, value_rounds_of_failed hround]

/-- What any number of rounds comes to is what the run comes to. -/
theorem value_run_of_rounds {result : Except Failure (Run source)}
    (h : (g.rounds dialect limit start).value = result) (hresult : result ≠ .error .endless) :
    (g.run dialect start).value = result := by
  subst h
  rcases Nat.le_total limit (source.length + 1) with hle | hle
  · exact rounds_mono hresult hle
  · -- a run without an end would have outlasted this number of rounds
    have hends : (g.run dialect start).value ≠ .error .endless :=
      fun hendless => hresult ((circles_of_rounds hendless).rounds limit)
    exact (rounds_mono hends hle).symm

/-! ### Runs that fail -/

/-- The rounds lead to a place where the rule that decides finds its construct
malformed. -/
def Breaks (g : Grammar) (dialect : Dialect) (start : Position source)
    (cause : Diagnostic) : Prop :=
  ∃ c d, ReflTransGen (g.Steps dialect) start c ∧
    Decides dialect c g.rules (.malformed cause) d

theorem rounds_succ_eq_diagnosed_iff {cause : Diagnostic} :
    (g.rounds dialect (limit + 1) c).value = .error (.diagnosed cause) ↔
      (∃ d, Decides dialect c g.rules (.malformed cause) d) ∨
      ∃ d, g.Steps dialect c d ∧ (g.rounds dialect limit d).value = .error (.diagnosed cause) := by
  rw [← Round.value_eq_diagnosed_iff]
  rcases hround : (Round.ofRules dialect c g.rules).value with ⟨n, next⟩ | - | cause'
  · have hsteps : ∀ d, g.Steps dialect c d ↔ d = next := by
      intro d
      rw [Steps, hround]
      constructor
      · rintro ⟨m, hm⟩
        exact (Round.node.inj hm).2.symm
      · rintro rfl
        exact ⟨n, rfl⟩
    simp only [value_rounds_of_node hround, hsteps, exists_eq_left]
    rcases (g.rounds dialect limit next).value with cause' | run
    · simp [Except.map]
    · simp [Except.map]
  · simp [value_rounds_of_stop hround, Steps, hround]
  · simp [value_rounds_of_failed hround, Steps, hround]

theorem value_run_eq_diagnosed_iff {cause : Diagnostic} :
    (g.run dialect start).value = .error (.diagnosed cause) ↔ g.Breaks dialect start cause := by
  constructor
  · intro h
    have hrounds : ∃ limit, (g.rounds dialect limit start).value = .error (.diagnosed cause) :=
      ⟨_, h⟩
    clear h
    obtain ⟨limit, h⟩ := hrounds
    induction limit generalizing start with
    | zero => cases h
    | succ limit ih =>
      rcases rounds_succ_eq_diagnosed_iff.mp h with ⟨d, hd⟩ | ⟨d, hstep, hrest⟩
      · exact ⟨start, d, .refl, hd⟩
      · obtain ⟨c, e, hto, he⟩ := ih hrest
        exact ⟨c, e, .head hstep hto, he⟩
  · rintro ⟨c, d, hto, hd⟩
    have hrounds : ∃ limit, (g.rounds dialect limit start).value = .error (.diagnosed cause) := by
      induction hto using ReflTransGen.head_induction_on with
      | refl => exact ⟨1, rounds_succ_eq_diagnosed_iff.mpr (.inl ⟨d, hd⟩)⟩
      | head hstep _ ih =>
        obtain ⟨limit, hrest⟩ := ih
        exact ⟨limit + 1, rounds_succ_eq_diagnosed_iff.mpr (.inr ⟨_, hstep, hrest⟩)⟩
    obtain ⟨limit, h⟩ := hrounds
    exact value_run_of_rounds h (by simp)

/-- Where a run breaks off, there is no file. -/
theorem Breaks.value_fileFrom {cause : Diagnostic} (h : g.Breaks dialect start cause)
    (name : String) :
    (g.fileFrom dialect name start).value = .error (.diagnosed cause) :=
  value_fileFrom_of_error (value_run_eq_diagnosed_iff.mpr h) name

end Grammar

end Trivia

/-
Trivia/Proofs/Histories.lean

What a history leaves in a module.

Whether a request succeeds, and with which file, is a matter of the request alone: of the
name it gives, of its dialect and of its bytes (`Request.file?`).  The module is only
where the file goes (`Request.apply_cases`).  So a history adds the files of its requests
that succeed, one behind the other, and the requests that fail might as well not have been
made (`Request.applyAll_history`).
-/
import Trivia.Proofs.Contracts

namespace Trivia

variable {source : Bytes} {dialect : Dialect} {m : Module} {r : Request} {f : File}

/-! ### Lookups -/

namespace Module

theorem file?_eq_some_iff {name : String} :
    m.file? name = some f ↔ ∃ before after, m.files = before ++ f :: after ∧
      f.name = name ∧ ∀ g ∈ before, g.name ≠ name := by
  rw [file?, List.find?_eq_some_iff_append]
  constructor
  · rintro ⟨hf, before, after, hfiles, hbefore⟩
    exact ⟨before, after, hfiles, by simpa using hf, fun g hg => by simpa using hbefore g hg⟩
  · rintro ⟨before, after, hfiles, hf, hbefore⟩
    exact ⟨by simpa using hf, before, after, hfiles, fun g hg => by simpa using hbefore g hg⟩

theorem file?_eq_none_iff {name : String} :
    m.file? name = none ↔ ∀ f ∈ m.files, f.name ≠ name := by
  rw [file?, List.find?_eq_none]
  simp

end Module

/-! ### One request -/

/-- What is given as a file has the name that was asked for, and a comment. -/
theorem File.name_and_comment {name : String}
    (h : (File.ofSource dialect name source).value = .ok f) :
    f.name = name ∧ f.hasComment = true := by
  obtain ⟨hname, hcomment, -⟩ := Grammar.fileFrom_eq_ok_iff.mp h
  exact ⟨hname, hcomment⟩

namespace Request

/-- The name of the file that is asked for. -/
def name : Request → String
  | .source _ name _ => name
  | .reads name _ => name

/-- The dialect and the bytes of the file that is asked for, where they can be read. -/
def input : Request → Except ReadError (Dialect × Bytes)
  | .source dialect _ bytes => .ok (dialect, bytes)
  | .reads _ pieces => (Read.contents pieces).map (Dialect.base, ·)

/-- What a request comes to, in any module. -/
def outcome (r : Request) : Except Failure File :=
  match r.input with
  | .ok (dialect, bytes) => (File.ofSource dialect r.name bytes).value
  | .error cause => .error (.diagnosed (.ofRead cause))

/-- The file of a request that succeeds. -/
def file? (r : Request) : Option File := r.outcome.toOption

theorem apply_eq (m : Module) (r : Request) : r.apply m = m.addResult r.outcome := by
  cases r with
  | source dialect name bytes => rfl
  | reads name pieces =>
    simp only [apply, Module.addReads, outcome, input]
    rcases Read.contents pieces with cause | bytes
    · rfl
    · rfl

theorem outcome_eq_ok_iff :
    r.outcome = .ok f ↔ ∃ dialect bytes, r.input = .ok (dialect, bytes) ∧
      (File.ofSource dialect r.name bytes).value = .ok f := by
  rw [outcome]
  rcases r.input with cause | ⟨dialect, bytes⟩
  · simp
  · simp

theorem settled_outcome (r : Request) : Settled r.outcome := by
  rw [outcome]
  rcases r.input with cause | ⟨dialect, bytes⟩
  · exact settled_diagnosed _
  · exact Grammar.settled_fileFrom dialect r.name (Position.start bytes)

/-- A request succeeds in every module, and adds the same file to it, or it fails in every
module, with the same diagnostic, and changes nothing. -/
theorem apply_cases (r : Request) :
    (∃ f, r.file? = some f ∧ r.outcome = .ok f ∧ ∀ m, r.apply m = (.ok (), m.push f)) ∨
    (r.file? = none ∧ ∃ e, ∀ m, r.apply m = (.error (.diagnosed e), m)) := by
  have hsettled := r.settled_outcome
  rcases houtcome : r.outcome with failure | f
  · rw [houtcome] at hsettled
    obtain ⟨e, rfl⟩ := hsettled.exists_diagnosed
    exact .inr ⟨by rw [file?, houtcome]; rfl, e, fun m => by rw [apply_eq, houtcome]; rfl⟩
  · exact .inl ⟨f, by rw [file?, houtcome]; rfl, rfl, fun m => by rw [apply_eq, houtcome]; rfl⟩

/-! ### Histories -/

/-- The requests of a history that succeed where they are made. -/
def successes (m : Module) : List Request → List Request
  | [] => []
  | r :: history =>
    match r.apply m with
    | (.ok _, next) => r :: successes next history
    | (.error _, next) => successes next history

theorem applyAll_cons (m : Module) (r : Request) (history : List Request) :
    applyAll m (r :: history) = applyAll (r.apply m).2 history := rfl

theorem applyAll_eq (m : Module) (history : List Request) :
    applyAll m history = ⟨m.name, m.files ++ history.filterMap file?⟩ := by
  induction history generalizing m with
  | nil => rw [List.filterMap_nil, List.append_nil]; rfl
  | cons r history ih =>
    rw [applyAll_cons, ih]
    rcases r.apply_cases with ⟨f, hfile, -, happly⟩ | ⟨hfile, e, happly⟩
    · rw [happly, List.filterMap_cons_some hfile]
      simp [Module.push]
    · rw [happly, List.filterMap_cons_none hfile]

theorem applyAll_successes (m : Module) (history : List Request) :
    applyAll m (successes m history) = applyAll m history := by
  induction history generalizing m with
  | nil => rfl
  | cons r history ih =>
    rw [applyAll_cons, ← ih, successes]
    rcases r.apply_cases with ⟨f, -, -, happly⟩ | ⟨-, e, happly⟩
    · simp only [happly, applyAll_cons]
    · simp only [happly]

/-- **The history of a module** is that of its requests that succeed.  Each of them adds
one file behind those already there: the file of its own source, with its own name and
with a comment.  The others change nothing, so they can be left out.  A name stands for
the earliest file that has it. -/
theorem applyAll_history (m : Module) (history : List Request) :
    let final := applyAll m history
    final.name = m.name ∧
    final.files = m.files ++ history.filterMap file? ∧
    (∀ r ∈ history,
      (∃ f dialect bytes, r.file? = some f ∧ r.input = .ok (dialect, bytes) ∧
        (File.ofSource dialect r.name bytes).value = .ok f ∧
        f.name = r.name ∧ f.hasComment = true ∧ ∀ m', r.apply m' = (.ok (), m'.push f)) ∨
      (r.file? = none ∧ ∃ e, ∀ m', r.apply m' = (.error (.diagnosed e), m'))) ∧
    applyAll m (successes m history) = final ∧
    ∀ name,
      (∀ f, final.file? name = some f ↔ ∃ before after, final.files = before ++ f :: after ∧
        f.name = name ∧ ∀ g ∈ before, g.name ≠ name) ∧
      (final.file? name = none ↔ ∀ f ∈ final.files, f.name ≠ name) := by
  intro final
  have hfinal : final = ⟨m.name, m.files ++ history.filterMap file?⟩ := applyAll_eq m history
  refine ⟨by rw [hfinal], by rw [hfinal], fun r _ => ?_, applyAll_successes m history,
    fun name => ⟨fun _ => Module.file?_eq_some_iff, Module.file?_eq_none_iff⟩⟩
  rcases r.apply_cases with ⟨f, hfile, houtcome, happly⟩ | hfails
  · obtain ⟨dialect, bytes, hinput, hvalue⟩ := outcome_eq_ok_iff.mp houtcome
    obtain ⟨hname, hcomment⟩ := File.name_and_comment hvalue
    exact .inl ⟨f, dialect, bytes, hfile, hinput, hvalue, hname, hcomment, happly⟩
  · exact .inr hfails

end Request

end Trivia

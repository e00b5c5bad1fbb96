/-
Trivia/Proofs/Dialects.lean

What a dialect changes.

A dialect chooses the rules of its grammar, and what is asked of the nodes in the end.
It does not reach into a run: the rules of the comment grammar never look at it
(`Rule.IgnoresDialect`), so two dialects with the same rules have the same runs
(`Grammar.value_run_ofDialect`).

Whether a file has to reach to the end of its source is therefore a question about a file
that is already there.  Since the nodes give back the bytes up to the place where they end
(`Grammar.offset_of_run`), the answer can be read off the file: it stays as it is if its
source reaches to the end, and is given up otherwise, for what its source leaves over
(`fileFrom_wholeSource`).
-/
import Trivia.Proofs.Locations
import Trivia.Proofs.Rounds

namespace Trivia

variable {source : Bytes} {dialect dialect' : Dialect} {start c : Position source}

/-! ### Rules that are the same in all dialects -/

/-- The rule does the same in any two dialects. -/
def Rule.IgnoresDialect (r : Rule) : Prop :=
  ∀ (source : Bytes) (dialect dialect' : Dialect),
    (r.attempt dialect : Scanner source _) = r.attempt dialect'

theorem Rule.ignoresDialect_lineComment : lineComment.IgnoresDialect := fun _ _ _ => rfl

theorem Rule.ignoresDialect_blockComment : blockComment.IgnoresDialect := fun _ _ _ => rfl

theorem Rule.ignoresDialect_whitespace : whitespace.IgnoresDialect := fun _ _ _ => rfl

theorem Round.ofRules_of_ignoresDialect {rules : List Rule} (h : ∀ r ∈ rules, r.IgnoresDialect)
    (c : Position source) : ofRules dialect c rules = ofRules dialect' c rules := by
  induction rules with
  | nil => rfl
  | cons r rules ih =>
    rw [List.forall_mem_cons] at h
    rw [ofRules, ofRules, h.1 source dialect dialect', ih h.2]

namespace Grammar

/-- Nothing in the grammar looks at the dialect. -/
theorem ignoresDialect_ofDialect (dialect : Dialect) :
    ∀ r ∈ (ofDialect dialect).rules, r.IgnoresDialect := by
  rw [rules_ofDialect, List.forall_mem_cons, List.forall_mem_cons]
  refine ⟨Rule.ignoresDialect_lineComment, Rule.ignoresDialect_blockComment, ?_⟩
  split
  · exact List.forall_mem_singleton.mpr Rule.ignoresDialect_whitespace
  · exact List.forall_mem_nil _

/-- Dialects that have the same whitespace have the same runs. -/
theorem value_run_ofDialect (h : dialect.looseWhitespace = dialect'.looseWhitespace)
    (start : Position source) :
    ((ofDialect dialect).run dialect start).value
      = ((ofDialect dialect').run dialect' start).value := by
  have hgrammar : ofDialect dialect = ofDialect dialect' := by
    rw [ofDialect, ofDialect, h]
  rw [hgrammar]
  refine value_run_congr (fun c => ?_) start
  rw [Round.ofRules_of_ignoresDialect (ignoresDialect_ofDialect dialect')]

/-- A run ends as many bytes behind its start as its nodes have. -/
theorem offset_of_run {run : Run source}
    (h : ((ofDialect dialect).run dialect start).value = .ok run) :
    run.stop.offset = start.offset + (Node.sources run.nodes).length := by
  obtain ⟨nodes, e, hderives⟩ := exists_derives dialect start.rest
  obtain ⟨stop, hstop, hvalue⟩ := run_of_derives hderives
  have hrun : e.outcome nodes stop = .ok run := hvalue.symm.trans h
  cases e with
  | unclosed _ => cases hrun
  | stopped rest =>
    obtain rfl := Except.ok.inj hrun
    refine Position.offset_of_rest ?_
    rw [hstop]
    exact hderives.sources_append.symm

end Grammar

/-! ### Files that reach to the end -/

namespace Grammar

variable {loose : Bool} {name : String} {run : Run source}

theorem value_finish_of_error {cause : Failure}
    (h : (finish ⟨loose, false⟩ name run).value = .error cause) :
    (finish ⟨loose, true⟩ name run).value = .error cause := by
  rw [value_finish] at h ⊢
  by_cases hbody : (⟨name, run.nodes⟩ : File).hasComment = false
  · rw [if_pos hbody] at h ⊢
    exact h
  · rw [if_neg hbody, if_neg fun hleft => Bool.false_ne_true hleft.1] at h
    cases h

theorem value_finish_eq_ok_iff {file : File} :
    (finish ⟨loose, false⟩ name run).value = .ok file ↔
      file = ⟨name, run.nodes⟩ ∧ file.hasComment = true := by
  rw [value_finish]
  by_cases hbody : (⟨name, run.nodes⟩ : File).hasComment = false
  · rw [if_pos hbody]
    refine iff_of_false (by rintro ⟨⟩) ?_
    rintro ⟨rfl, hcomment⟩
    cases hbody.symm.trans hcomment
  · rw [if_neg hbody, if_neg fun hleft => Bool.false_ne_true hleft.1, Except.ok.injEq]
    constructor
    · rintro rfl
      exact ⟨rfl, Bool.not_eq_false _ ▸ hbody⟩
    · rintro ⟨rfl, -⟩
      rfl

/-- A file that need not reach to the end is a run with a comment among its nodes. -/
theorem value_fileFrom_eq_ok_iff {g : Grammar} {file : File} :
    (g.fileFrom ⟨loose, false⟩ name start).value = .ok file ↔
      file.name = name ∧ file.hasComment = true ∧
        ∃ stop, (g.run ⟨loose, false⟩ start).value = .ok ⟨file.nodes, stop⟩ := by
  constructor
  · intro h
    rcases hrun : (g.run ⟨loose, false⟩ start).value with cause | run
    · cases (value_fileFrom_of_error hrun name).symm.trans h
    · rw [value_fileFrom_of_ok hrun] at h
      obtain ⟨rfl, hbody⟩ := value_finish_eq_ok_iff.mp h
      exact ⟨rfl, hbody, run.stop, rfl⟩
  · rintro ⟨rfl, hbody, stop, hrun⟩
    rw [value_fileFrom_of_ok hrun]
    exact value_finish_eq_ok_iff.mpr ⟨rfl, hbody⟩

theorem value_finish_of_ok {file : File}
    (h : (finish ⟨loose, false⟩ name run).value = .ok file) :
    (finish ⟨loose, true⟩ name run).value =
      if run.stop.rest = [] then .ok file
      else .error (.diagnosed (.located .trailingInput run.stop.offset source.length)) := by
  obtain ⟨rfl, hbody⟩ := value_finish_eq_ok_iff.mp h
  rw [value_finish, if_neg (Bool.not_eq_false _ ▸ hbody)]
  by_cases hrest : run.stop.rest = []
  · rw [if_pos hrest, if_neg fun hleft => hleft.2 hrest]
  · rw [if_neg hrest, if_pos ⟨rfl, hrest⟩]

end Grammar

/-- **The end of the source is asked for last**: a dialect that wants the whole source
fails as the one that does not, and with the same diagnostic.  Where that one has a file,
it has the same file, if the source of the file reaches to the end, and otherwise nothing
but a diagnostic of what is left over. -/
theorem fileFrom_wholeSource (loose : Bool) (name : String) (start : Position source) :
    let part : Dialect := ⟨loose, false⟩
    let whole : Dialect := ⟨loose, true⟩
    (∀ cause,
      ((Grammar.ofDialect part).fileFrom part name start).value = .error cause →
      ((Grammar.ofDialect whole).fileFrom whole name start).value = .error cause) ∧
    ∀ file, ((Grammar.ofDialect part).fileFrom part name start).value = .ok file →
      (start.offset + file.source.length = source.length ∧
        ((Grammar.ofDialect whole).fileFrom whole name start).value = .ok file) ∨
      (start.offset + file.source.length < source.length ∧
        ∃ e, ((Grammar.ofDialect whole).fileFrom whole name start).value
            = .error (.diagnosed e) ∧
          e.code = .trailingInput ∧ e.cause? = none ∧
          e.Covers (start.offset + file.source.length) source.length) := by
  intro part whole
  have hloose : whole.looseWhitespace = part.looseWhitespace := rfl
  have hsame := Grammar.value_run_ofDialect hloose start
  rcases hrun : ((Grammar.ofDialect part).run part start).value with cause | run
  · rw [Grammar.value_fileFrom_of_error hrun, Grammar.value_fileFrom_of_error (hsame.trans hrun)]
    refine ⟨fun _ h => h, ?_⟩
    rintro file ⟨⟩
  · rw [Grammar.value_fileFrom_of_ok hrun, Grammar.value_fileFrom_of_ok (hsame.trans hrun)]
    refine ⟨fun _ h => Grammar.value_finish_of_error h, fun file h => ?_⟩
    have hwhole := Grammar.value_finish_of_ok h
    obtain ⟨rfl, -⟩ := Grammar.value_finish_eq_ok_iff.mp h
    have hoffset : start.offset + (⟨name, run.nodes⟩ : File).source.length = run.stop.offset :=
      (Grammar.offset_of_run hrun).symm
    have hle : run.stop.offset ≤ source.length := run.stop.offset_le
    rw [hoffset, hwhole]
    by_cases hrest : run.stop.rest = []
    · left
      rw [if_pos hrest]
      exact ⟨run.stop.atEnd_iff.mp (List.isEmpty_iff.mpr hrest), rfl⟩
    · right
      rw [if_neg hrest]
      have hne : run.stop.offset ≠ source.length := fun heq =>
        hrest (List.isEmpty_iff.mp (run.stop.atEnd_iff.mpr heq))
      exact ⟨Nat.lt_of_le_of_ne hle hne, _, rfl, rfl, rfl, Diagnostic.covers_located _ hle⟩

/-- A line comment with one byte behind it, the comment alone, and the byte alone. -/
theorem fileFrom_wholeSource_behind_line :
    let part : Dialect := ⟨false, false⟩
    let whole : Dialect := ⟨false, true⟩
    let line : Bytes := [0x2f, 0x2f, 0x0a]
    let file : File := ⟨"a", [.line ⟨none, none, [], some ⟨[0x0a]⟩⟩]⟩
    let result (dialect : Dialect) (source : Bytes) : Except Failure File :=
      ((Grammar.ofDialect dialect).fileFrom dialect "a" (Position.start source)).value
    (result part (line ++ [0x78]) = .ok file ∧
      ∃ e, result whole (line ++ [0x78]) = .error (.diagnosed e) ∧
        e.code = .trailingInput ∧ e.Covers 3 4) ∧
    (result part line = .ok file ∧ result whole line = .ok file) ∧
    ∃ cause, result part [0x78] = .error cause ∧ result whole [0x78] = .error cause := by
  intro part whole line file result
  have hlonger : result part (line ++ [0x78]) = .ok file := by decide +kernel
  have hline : result part line = .ok file := by decide +kernel
  have hbyte : result part [0x78] = .error (.diagnosed (.located .missingBody 0 0)) := by
    decide +kernel
  obtain ⟨herror, -⟩ := fileFrom_wholeSource false "a" (Position.start [0x78])
  obtain ⟨-, hleft⟩ := fileFrom_wholeSource false "a" (Position.start (line ++ [0x78]))
  obtain ⟨-, hnothing⟩ := fileFrom_wholeSource false "a" (Position.start line)
  refine ⟨⟨hlonger, ?_⟩, ⟨hline, ?_⟩, _, hbyte, herror _ hbyte⟩
  · rcases hleft file hlonger with ⟨hend, -⟩ | ⟨-, e, he, hcode, -, hcovers⟩
    · exact absurd hend (by decide)
    · exact ⟨e, he, hcode, hcovers⟩
  · rcases hnothing file hline with ⟨-, hfile⟩ | ⟨hleft, -⟩
    · exact hfile
    · exact absurd hleft (by decide)

end Trivia

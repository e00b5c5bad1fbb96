/-
Trivia/Proofs/Extension.lean

A grammar and one rule more.

A rule that is added behind all others is asked only where a run without it would have
ended.  So the longer grammar finds the same nodes first (`Grammar.rounds_push_of_ok`),
and may find more behind them; a run that breaks off breaks off as before, and a file can
only become longer, or be lost to a construct that is malformed and that the shorter
grammar has not come to (`fileFrom_push`).

Whitespace as a rule behind the comments is the case in use.  Where comments end, the
first node more has to be whitespace, since no comment is there
(`exists_nodes_behind_comments`).  So the comments alone have the nodes of the longer
grammar up to the first whitespace, and none at all where it begins with whitespace.
-/
import Trivia.Proofs.Contracts
import Trivia.Proofs.Dialects
import Trivia.Proofs.Recoding

namespace Trivia

open Relation

variable {source : Bytes} {c d start : Position source} {dialect : Dialect}
variable {g : Grammar} {r : Rule}

/-! ### Rounds -/

namespace Round

/-- A round that goes on, or fails, does so with one rule more. -/
theorem value_ofRules_push (h : (ofRules dialect c g.rules).value ≠ .stop) :
    (ofRules dialect c (g.push r).rules).value = (ofRules dialect c g.rules).value := by
  rcases value_ofRules_append g.rules [r] c with ⟨habsent, -⟩ | hsame
  · exact absurd (ofRules_of_absent habsent) h
  · exact hsame

/-- Where a round stops, it stops with one rule more, or is left to that rule. -/
theorem value_ofRules_push_of_stop (h : (ofRules dialect c g.rules).value = .stop) :
    (ofRules dialect c (g.push r).rules).value = .stop ∨
      (ofRules dialect c (g.push r).rules).value = (ofRules dialect c [r]).value := by
  rcases value_ofRules_append g.rules [r] c with ⟨-, hlast⟩ | hsame
  · exact .inr hlast
  · exact .inl (hsame.trans h)

end Round

namespace Grammar

theorem Steps.push (h : g.Steps dialect c d) : (g.push r).Steps dialect c d := by
  obtain ⟨n, hn⟩ := h
  refine ⟨n, ?_⟩
  rw [Round.value_ofRules_push (by rw [hn]; rintro ⟨⟩), hn]

/-- A run that breaks off does so with one rule more. -/
theorem Breaks.push {cause : Diagnostic} (h : g.Breaks dialect start cause) (r : Rule) :
    (g.push r).Breaks dialect start cause := by
  obtain ⟨c, d, hto, hd⟩ := h
  exact ⟨c, d, ReflTransGen.mono (fun _ _ => Steps.push) _ _ hto, hd.append [r]⟩

/-! ### Runs -/

/-- Where a run ends, the run with one rule more goes on. -/
theorem rounds_push_of_ok {limit : Nat} {run : Run source}
    (h : (g.rounds dialect limit c).value = .ok run) :
    (Round.ofRules dialect run.stop g.rules).value = .stop ∧
      ∃ left, ((g.push r).rounds dialect limit c).value
        = ((g.push r).rounds dialect (left + 1) run.stop).value.map (Run.behind run.nodes) := by
  induction limit generalizing c run with
  | zero => cases h
  | succ limit ih =>
    rcases hround : (Round.ofRules dialect c g.rules).value with ⟨n, next⟩ | - | cause
    · rw [value_rounds_of_node hround] at h
      rcases hnext : (g.rounds dialect limit next).value with cause | later
      · rw [hnext] at h
        cases h
      · rw [hnext] at h
        obtain rfl := Except.ok.inj h
        obtain ⟨hstop, left, hleft⟩ := ih hnext
        have hpush : (Round.ofRules dialect c (g.push r).rules).value = .node n next := by
          rw [Round.value_ofRules_push (by rw [hround]; rintro ⟨⟩), hround]
        refine ⟨hstop, left, ?_⟩
        rw [value_rounds_of_node hpush, hleft]
        exact Run.map_behind_behind [n] later.nodes _
    · rw [value_rounds_of_stop hround] at h
      obtain rfl := Except.ok.inj h
      exact ⟨hround, limit, (Run.map_behind_nil _).symm⟩
    · rw [value_rounds_of_failed hround] at h
      cases h

theorem run_push_of_ok {run : Run source} (h : (g.run dialect start).value = .ok run) :
    (∃ cause, ((g.push r).run dialect start).value = .error cause) ∨
    ∃ later left, ((g.push r).run dialect start).value = .ok (later.behind run.nodes) ∧
      ((g.push r).rounds dialect (left + 1) run.stop).value = .ok later := by
  obtain ⟨-, left, hleft⟩ := rounds_push_of_ok (r := r) h
  rcases hlater : ((g.push r).rounds dialect (left + 1) run.stop).value with cause | later
  · rw [hlater] at hleft
    exact .inl ⟨cause, hleft⟩
  · rw [hlater] at hleft
    exact .inr ⟨later, left, hleft, hlater⟩

/-- A file stays, with its nodes first, or is lost to a construct that is malformed. -/
theorem fileFrom_push_of_ok {loose : Bool} {name : String} {file : File}
    (h : (g.fileFrom ⟨loose, false⟩ name start).value = .ok file)
    (hsettled : Settled ((g.push r).fileFrom ⟨loose, false⟩ name start).value) :
    (∃ file', ((g.push r).fileFrom ⟨loose, false⟩ name start).value = .ok file' ∧
      file.nodes <+: file'.nodes) ∨
    ∃ cause, (g.push r).Breaks ⟨loose, false⟩ start cause ∧
      ((g.push r).fileFrom ⟨loose, false⟩ name start).value = .error (.diagnosed cause) := by
  obtain ⟨rfl, hbody, stop, hrun⟩ := value_fileFrom_eq_ok_iff.mp h
  rcases run_push_of_ok (r := r) hrun with ⟨cause, hpush⟩ | ⟨later, left, hpush, -⟩
  · right
    rw [value_fileFrom_of_error hpush] at hsettled
    obtain ⟨diagnosed, rfl⟩ := hsettled.exists_diagnosed
    have hbreaks := value_run_eq_diagnosed_iff.mp hpush
    exact ⟨diagnosed, hbreaks, hbreaks.value_fileFrom file.name⟩
  · left
    have hcomment := File.hasComment_append hbody file.name later.nodes
    exact ⟨⟨file.name, file.nodes ++ later.nodes⟩,
      value_fileFrom_eq_ok_iff.mpr ⟨rfl, hcomment, later.stop, hpush⟩, List.prefix_append _ _⟩

end Grammar

/-! ### Whitespace behind comments -/

/-- All that the rule for whitespace finds is whitespace. -/
theorem Round.isSpace_of_whitespace {n : Node}
    (h : (ofRules dialect c [.whitespace]).value = .node n d) : n.isSpace = true := by
  by_cases hstops : ByteSet.whitespace.Stops c.rest
  · rw [ofRules_absent (Rule.whitespace_of_stops hstops)] at h
    cases h
  · obtain ⟨run, rest, hc, hrun, hrest⟩ := ByteSet.exists_run ByteSet.whitespace c.rest
    obtain ⟨e, rfl⟩ := Position.exists_rest hc
    have hne : run ≠ [] := by
      rintro rfl
      exact hstops (hc ▸ hrest)
    have hattempt : Rule.whitespace.attempt dialect c = .ok ⟨[], .found (.space ⟨run⟩)⟩ e :=
      Scanner.bind_of_ok (Fragment.read_of_proper (w := ⟨run⟩) hc ⟨hne, hrun⟩ hrest)
    rw [value_ofRules_cons, hattempt] at h
    dsimp only at h
    split at h
    · cases h
    · cases h
      rfl

namespace Grammar

/-- Where comments end, what is found behind them begins with whitespace. -/
theorem isSpace_head_of_rounds {limit : Nat} {later : Run source}
    (hstop : (Round.ofRules dialect c comments.rules).value = .stop)
    (h : ((comments.push .whitespace).rounds dialect (limit + 1) c).value = .ok later) :
    ∀ n ∈ later.nodes.head?, n.isSpace = true := by
  rcases hround : (Round.ofRules dialect c (comments.push .whitespace).rules).value with
    ⟨n, next⟩ | - | cause
  · have hspace : n.isSpace = true := by
      rcases Round.value_ofRules_push_of_stop (r := .whitespace) hstop with hsame | hlast
      · cases hround.symm.trans hsame
      · exact Round.isSpace_of_whitespace (hlast.symm.trans hround)
    rw [value_rounds_of_node hround] at h
    rcases hrest : ((comments.push .whitespace).rounds dialect limit next).value with cause | more
    · rw [hrest] at h
      cases h
    · rw [hrest] at h
      obtain rfl := Except.ok.inj h
      rintro m ⟨⟩
      exact hspace
  · rw [value_rounds_of_stop hround] at h
    obtain rfl := Except.ok.inj h
    rintro n ⟨⟩
  · rw [value_rounds_of_failed hround] at h
    cases h

/-- The nodes of comments and whitespace are those of the comments alone, and then more,
which begin with whitespace. -/
theorem exists_nodes_behind_comments {name : String} {run : Run source} {file : File}
    (hrun : (comments.run .base start).value = .ok run)
    (hfile : ((comments.push .whitespace).fileFrom ⟨true, false⟩ name start).value = .ok file) :
    ∃ more, file.nodes = run.nodes ++ more ∧ (∀ n ∈ more.head?, n.isSpace = true) ∧
      file.hasComment = true := by
  have hignore : ∀ r ∈ comments.rules, r.IgnoresDialect := ignoresDialect_ofDialect .base
  have hsame : (comments.run ⟨true, false⟩ start).value = .ok run := by
    rw [← hrun]
    refine value_run_congr (fun c => ?_) start
    rw [Round.ofRules_of_ignoresDialect hignore]
  obtain ⟨hstop, -⟩ := rounds_push_of_ok (r := .whitespace) hsame
  obtain ⟨-, hbody, stop, hboth⟩ := value_fileFrom_eq_ok_iff.mp hfile
  rcases run_push_of_ok (r := .whitespace) hsame with ⟨cause, hpush⟩ | ⟨later, left, hpush, hlater⟩
  · cases hpush.symm.trans hboth
  · have hnodes : file.nodes = run.nodes ++ later.nodes :=
      congrArg Run.nodes (Except.ok.inj (hboth.symm.trans hpush))
    exact ⟨later.nodes, hnodes, isSpace_head_of_rounds hstop hlater, hbody⟩

/-- The file of the comments alone has the nodes of the longer grammar up to the first
whitespace. -/
theorem nodes_of_comments {name : String} {file file' : File}
    (h : (comments.fileFrom .base name start).value = .ok file)
    (h' : ((comments.push .whitespace).fileFrom ⟨true, false⟩ name start).value = .ok file') :
    file.nodes = file'.nodes.takeWhile (!·.isSpace) := by
  obtain ⟨-, -, rest, hderives, -⟩ := fileFrom_eq_ok_iff.mp h
  have hcomments : ∀ n ∈ file.nodes, (!n.isSpace) = true := fun n hn =>
    Bool.not_eq_true' _ ▸ Bool.eq_false_iff.mpr fun hspace =>
      Bool.false_ne_true (hderives.looseWhitespace n hn hspace)
  obtain ⟨-, -, stop, hrun⟩ := value_fileFrom_eq_ok_iff.mp h
  obtain ⟨more, hnodes, hmore, -⟩ := exists_nodes_behind_comments hrun h'
  rw [hnodes, List.takeWhile_append_of_pos hcomments]
  cases more with
  | nil => rw [List.takeWhile_nil, List.append_nil]
  | cons n more => rw [List.takeWhile_cons_of_neg (by simp [hmore n rfl]), List.append_nil]

/-- Comments alone that make no file for want of a comment are no nodes at all. -/
theorem run_of_missingBody {name : String}
    (h : FailsWith (comments.fileFrom .base name start).value .missingBody) :
    ∃ stop, (comments.run .base start).value = .ok ⟨[], stop⟩ := by
  obtain ⟨nodes, e, hderives⟩ := exists_derives .base start.rest
  obtain ⟨stop, -, hrun⟩ := run_of_derives hderives
  cases e with
  | unclosed rest =>
    have hvalue := value_fileFrom_of_error hrun name
    change (comments.fileFrom .base name start).value = _ at hvalue
    rw [hvalue] at h
    cases failsWith_located.mp h
  | stopped rest =>
    by_cases hbody : (⟨name, nodes⟩ : File).hasComment = true
    · have hfile : (comments.fileFrom .base name start).value = .ok ⟨name, nodes⟩ :=
        value_fileFrom_eq_ok_iff.mpr ⟨rfl, hbody, stop, hrun⟩
      rw [hfile] at h
      exact absurd h not_failsWith_ok
    · rw [Bool.not_eq_true] at hbody
      obtain rfl := eq_nil_of_no_comment hderives.looseWhitespace rfl hbody
      exact ⟨stop, hrun⟩

/-- Where the file of the comments alone is missing for want of a comment, the longer
grammar begins with whitespace. -/
theorem space_of_missingBody {name : String} {file' : File}
    (h : FailsWith (comments.fileFrom .base name start).value .missingBody)
    (h' : ((comments.push .whitespace).fileFrom ⟨true, false⟩ name start).value = .ok file') :
    ∃ w after, file'.nodes = .space w :: after := by
  obtain ⟨stop, hrun⟩ := run_of_missingBody h
  obtain ⟨more, hnodes, hmore, hbody⟩ := exists_nodes_behind_comments hrun h'
  rw [List.nil_append] at hnodes
  cases more with
  | nil =>
    rw [File.hasComment, hnodes] at hbody
    cases hbody
  | cons n more =>
    cases n with
    | space w => exact ⟨w, more, hnodes⟩
    | line _ => cases hmore _ rfl
    | block _ => cases hmore _ rfl

end Grammar

/-- **One rule more** keeps what there was, in a dialect that does not ask for the whole
source.  A run that breaks off, for a construct that is malformed, breaks off as before.
A file stays, with its nodes first, or is lost to a malformed construct; it is given that
the longer grammar breaks no contract and comes to an end.

Whitespace is such a rule behind comments.  The file of the comments alone has the nodes
up to the first whitespace; and where it is missing for want of a comment, although the
longer grammar has one, whitespace comes first. -/
theorem fileFrom_push (g : Grammar) (r : Rule) (loose : Bool) (name : String)
    (start : Position source) :
    let part : Dialect := ⟨loose, false⟩
    (∀ cause, g.Breaks part start cause → (g.push r).Breaks part start cause ∧
      (g.fileFrom part name start).value = .error (.diagnosed cause) ∧
      ((g.push r).fileFrom part name start).value = .error (.diagnosed cause)) ∧
    (∀ file, (g.fileFrom part name start).value = .ok file →
      Settled ((g.push r).fileFrom part name start).value →
      (∃ file', ((g.push r).fileFrom part name start).value = .ok file' ∧
        file.nodes <+: file'.nodes) ∨
      ∃ cause, (g.push r).Breaks part start cause ∧
        ((g.push r).fileFrom part name start).value = .error (.diagnosed cause)) ∧
    (∀ file file', (Grammar.comments.fileFrom .base name start).value = .ok file →
      ((Grammar.comments.push .whitespace).fileFrom ⟨true, false⟩ name start).value
        = .ok file' →
      file.nodes = file'.nodes.takeWhile (!·.isSpace)) ∧
    ∀ file', FailsWith (Grammar.comments.fileFrom .base name start).value .missingBody →
      ((Grammar.comments.push .whitespace).fileFrom ⟨true, false⟩ name start).value
        = .ok file' →
      ∃ w after, file'.nodes = .space w :: after := by
  intro part
  refine ⟨fun cause h => ?_, fun file => Grammar.fileFrom_push_of_ok,
    fun file file' => Grammar.nodes_of_comments, fun file' => Grammar.space_of_missingBody⟩
  exact ⟨h.push r, h.value_fileFrom name, (h.push r).value_fileFrom name⟩

/-- Comments and whitespace behind a block comment that is left open, between two line
comments, and before the first comment. -/
theorem fileFrom_push_whitespace :
    let comments := Grammar.comments
    let both := comments.push .whitespace
    let unclosed : Bytes := [0x20, 0x2f, 0x2a]
    let between : Bytes := [0x2f, 0x2f, 0x0a, 0x20, 0x0a, 0x2f, 0x2f]
    let before : Bytes := [0x20, 0x0a, 0x2f, 0x2f]
    let space : Node := .space ⟨[0x20, 0x0a]⟩
    let line : Node := .line ⟨none, none, [], some ⟨[0x0a]⟩⟩
    let nodes : List Node := [line, space, .line ⟨none, none, [], none⟩]
    (∃ e, (both.fileFrom .base "a" (Position.start unclosed)).value = .error (.diagnosed e) ∧
      e.extent? = some ⟨1, 3⟩) ∧
    (∃ file', (both.fileFrom .base "a" (Position.start between)).value = .ok file' ∧
      [line] <+: file'.nodes) ∧
    (both.fileFrom ⟨true, false⟩ "a" (Position.start between)).value = .ok ⟨"a", nodes⟩ ∧
    [line] = nodes.takeWhile (!·.isSpace) ∧
    ∃ file' w after,
      (both.fileFrom ⟨true, false⟩ "a" (Position.start before)).value = .ok file' ∧
      file'.nodes = .space w :: after := by
  intro comments both unclosed between before space line nodes
  have hrun : (comments.run .base (Position.start unclosed)).value
      = .error (.diagnosed (.located .unclosedBlock 1 3)) := by rfl
  have hbetween : (comments.fileFrom .base "a" (Position.start between)).value
      = .ok ⟨"a", [line]⟩ := by decide +kernel
  have hnodes : (both.fileFrom ⟨true, false⟩ "a" (Position.start between)).value
      = .ok ⟨"a", nodes⟩ := by decide +kernel
  have hbefore : (comments.fileFrom .base "a" (Position.start before)).value
      = .error (.diagnosed (.located .missingBody 0 0)) := by decide +kernel
  obtain ⟨file', hfile'⟩ : ∃ file',
      (both.fileFrom ⟨true, false⟩ "a" (Position.start before)).value = .ok file' :=
    ⟨⟨"a", [space, .line ⟨none, none, [], none⟩]⟩, by decide +kernel⟩
  obtain ⟨hbreaks, -⟩ :=
    fileFrom_push .comments .whitespace false "a" (Position.start unclosed)
  obtain ⟨-, -, herror⟩ := hbreaks _ (Grammar.value_run_eq_diagnosed_iff.mp hrun)
  obtain ⟨-, hlonger, htakeWhile, -⟩ :=
    fileFrom_push .comments .whitespace false "a" (Position.start between)
  obtain ⟨-, -, -, hfirst⟩ :=
    fileFrom_push .comments .whitespace false "a" (Position.start before)
  refine ⟨⟨_, herror, rfl⟩, ?_, hnodes, htakeWhile _ _ hbetween hnodes, ?_⟩
  · have hsame : (both.fileFrom .base "a" (Position.start between)).value
        = .ok ⟨"a", nodes⟩ := by decide +kernel
    rcases hlonger _ hbetween (hsame ▸ settled_ok _) with hfile | ⟨cause, -, hcause⟩
    · exact hfile
    · cases hsame.symm.trans hcause
  · rw [hbefore] at hfirst
    obtain ⟨w, after, hafter⟩ := hfirst file' (failsWith_located.mpr rfl) hfile'
    exact ⟨file', w, after, hfile', hafter⟩

end Trivia

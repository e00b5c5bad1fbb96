/-
Trivia/Proofs/Choice.lean

Grammars as ordered choices.

A run is one choice after another: at each place the first rule whose construct is not
absent there has the word.  `Grammar.Chooses` puts the choices that find nodes one behind
the other, and `Grammar.Concludes` says with which choice the nodes end; what a run comes
to is what such choices come to, and nothing else (`Grammar.value_run_iff`).

A rule that finds its construct absent is not heard.  What it says of the absence, and
where it has left the scanner, is lost to the rules behind it, to the rounds behind, and
to the place where the run ends, so grammars that differ in this alone have the same files
(`fileFrom_ordered_choice`).

Nor does it matter when such a rule is asked.  Of the two rules for comments one at least
finds its construct absent at every place, so the two may be asked in either order, with
any rules before them and behind them (`fileFrom_exchange`).
-/
import Trivia.Proofs.Rounds

namespace Trivia

variable {source : Bytes} {c d start stop : Position source} {dialect : Dialect}
variable {g g' : Grammar} {r r' : Rule} {rules rules' : List Rule}

/-! ### Choices -/

/-- The first of the rules whose construct is not absent at `c` breaks a contract there. -/
def FaultsAt (dialect : Dialect) (c : Position source) (rules : List Rule) (cause : Fault) : Prop :=
  ∃ tried r later d, rules = tried ++ r :: later ∧ (∀ r' ∈ tried, r'.AbsentAt dialect c) ∧
    r.attempt dialect c = .error cause d

namespace Round

/-- What a round comes to by the answer that decides it. -/
def ofAnswer (c d : Position source) : Attempt Node → Round source
  | .found n => if d.offset = c.offset then .stop else .node n d
  | .absent _ _ => .stop
  | .malformed cause => .failed (.diagnosed cause)

theorem value_of_decides {answer : Attempt Node} (h : Decides dialect c rules answer d) :
    (ofRules dialect c rules).value = ofAnswer c d answer := by
  induction h with
  | @here r rules log answer d hattempt hanswer =>
    rw [value_ofRules_cons, hattempt]
    cases answer with
    | found n => rfl
    | absent expected offset => cases hanswer
    | malformed cause => rfl
  | later habsent _ ih => rw [value_ofRules_of_absentAt habsent, ih]

theorem value_of_faultsAt {cause : Fault} (h : FaultsAt dialect c rules cause) :
    (ofRules dialect c rules).value = .failed (.fault cause) := by
  obtain ⟨tried, r, later, d, rfl, htried, hattempt⟩ := h
  induction tried with
  | nil => rw [List.nil_append, value_ofRules_cons, hattempt]
  | cons r' tried ih =>
    rw [List.forall_mem_cons] at htried
    rw [List.cons_append, value_ofRules_of_absentAt htried.1, ih htried.2]

/-- Either nothing is found, or one rule decides, by its answer or by a fault. -/
theorem decided (dialect : Dialect) (c : Position source) (rules : List Rule) :
    (∀ r ∈ rules, r.AbsentAt dialect c) ∨
    (∃ answer d, Decides dialect c rules answer d ∧ answer.isAbsent = false) ∨
    ∃ cause, FaultsAt dialect c rules cause := by
  induction rules with
  | nil => exact .inl (List.forall_mem_nil _)
  | cons r rules ih =>
    rcases hattempt : r.attempt dialect c with
      ⟨⟨log, n | ⟨expected, offset⟩ | cause⟩, d⟩ | ⟨cause, d⟩
    · exact .inr (.inl ⟨_, d, .here hattempt rfl, rfl⟩)
    · -- the rule leaves the round to the rules behind it
      have habsent : r.AbsentAt dialect c := ⟨_, _, _, _, hattempt⟩
      rcases ih with hall | ⟨answer, e, hdecides, hanswer⟩ | ⟨cause, tried, r', later, e, hrules,
        htried, hfault⟩
      · exact .inl (List.forall_mem_cons.mpr ⟨habsent, hall⟩)
      · exact .inr (.inl ⟨answer, e, .later habsent hdecides, hanswer⟩)
      · refine .inr (.inr ⟨cause, r :: tried, r', later, e, ?_, ?_, hfault⟩)
        · rw [hrules, List.cons_append]
        · exact List.forall_mem_cons.mpr ⟨habsent, htried⟩
    · exact .inr (.inl ⟨_, d, .here hattempt rfl, rfl⟩)
    · exact .inr (.inr ⟨cause, [], r, rules, d, rfl, List.forall_mem_nil _, hattempt⟩)

end Round

namespace Grammar

/-- From `c` the nodes are found one after another, up to `e`.  Each is what the first rule
finds whose construct is not absent at its place, and that rule has moved. -/
inductive Chooses (g : Grammar) (dialect : Dialect) :
    Position source → List Node → Position source → Prop
  | nil (c : Position source) : Chooses g dialect c [] c
  | cons {c d e : Position source} {n : Node} {nodes : List Node} :
      Decides dialect c g.rules (.found n) d → d.offset ≠ c.offset →
      Chooses g dialect d nodes e → Chooses g dialect c (n :: nodes) e

/-- Behind the nodes, at `stop`, the choice is one that ends the run, with this result. -/
inductive Concludes (g : Grammar) (dialect : Dialect) (nodes : List Node)
    (stop : Position source) : Except Failure (Run source) → Prop
  /-- No construct is there. -/
  | absent : (∀ r ∈ g.rules, r.AbsentAt dialect stop) →
      Concludes g dialect nodes stop (.ok ⟨nodes, stop⟩)
  /-- The rule that is chosen has not moved, and its node is dropped. -/
  | standstill {n : Node} {d : Position source} :
      Decides dialect stop g.rules (.found n) d → d.offset = stop.offset →
      Concludes g dialect nodes stop (.ok ⟨nodes, stop⟩)
  /-- The construct of the rule that is chosen is malformed. -/
  | malformed {cause : Diagnostic} {d : Position source} :
      Decides dialect stop g.rules (.malformed cause) d →
      Concludes g dialect nodes stop (.error (.diagnosed cause))
  /-- The rule that is chosen breaks a contract. -/
  | fault {cause : Fault} : FaultsAt dialect stop g.rules cause →
      Concludes g dialect nodes stop (.error (.fault cause))

variable {nodes : List Node} {result : Except Failure (Run source)}

/-! ### Runs are choices -/

theorem Concludes.ne_endless (h : g.Concludes dialect nodes stop result) :
    result ≠ .error .endless := by
  cases h <;> simp

theorem Concludes.eq_of_ok {run : Run source} (h : g.Concludes dialect nodes stop (.ok run)) :
    run = ⟨nodes, stop⟩ := by
  cases h with
  | absent _ => rfl
  | standstill _ _ => rfl

theorem Concludes.behind (h : g.Concludes dialect nodes stop result) (n : Node) :
    g.Concludes dialect (n :: nodes) stop (result.map (Run.behind [n])) := by
  cases h with
  | absent hall => exact .absent hall
  | standstill hdecides hoffset => exact .standstill hdecides hoffset
  | malformed hdecides => exact .malformed hdecides
  | fault hfaults => exact .fault hfaults

theorem Concludes.value_rounds (h : g.Concludes dialect nodes stop result) :
    (g.rounds dialect 1 stop).value.map (Run.behind nodes) = result := by
  -- the choice that ends the run takes one round, which finds no node
  have hround : ∀ {answer : Attempt Node} {d : Position source},
      Decides dialect stop g.rules answer d →
      (Round.ofRules dialect stop g.rules).value = Round.ofAnswer stop d answer :=
    Round.value_of_decides
  have hbehind : Run.behind nodes ⟨[], stop⟩ = ⟨nodes, stop⟩ := by
    rw [Run.behind, List.append_nil]
  cases h with
  | absent hall =>
    rw [value_rounds_of_stop (Round.ofRules_of_absent hall)]
    exact congrArg Except.ok hbehind
  | standstill hdecides hoffset =>
    rw [value_rounds_of_stop ((hround hdecides).trans (if_pos hoffset))]
    exact congrArg Except.ok hbehind
  | malformed hdecides =>
    rw [value_rounds_of_failed (hround hdecides)]
    rfl
  | fault hfaults =>
    rw [value_rounds_of_failed (Round.value_of_faultsAt hfaults)]
    rfl

theorem Chooses.value_rounds (h : g.Chooses dialect c nodes stop) (limit : Nat) :
    (g.rounds dialect (limit + nodes.length) c).value
      = (g.rounds dialect limit stop).value.map (Run.behind nodes) := by
  -- every choice takes one round of the limit
  induction h with
  | nil c => exact (Run.map_behind_nil _).symm
  | @cons c d e n nodes hdecides hoffset _ ih =>
    have hround : (Round.ofRules dialect c g.rules).value = .node n d :=
      (Round.value_of_decides hdecides).trans (if_neg hoffset)
    rw [List.length_cons, ← Nat.add_assoc, value_rounds_of_node hround, ih]
    exact Run.map_behind_behind [n] nodes _

/-- Rounds that are enough are choices, up to one that ends the run. -/
theorem exists_chooses {limit : Nat} (h : (g.rounds dialect limit c).value ≠ .error .endless) :
    ∃ nodes stop, g.Chooses dialect c nodes stop ∧
      g.Concludes dialect nodes stop (g.rounds dialect limit c).value := by
  -- by induction on the limit, since the rounds behind a node have one round less
  induction limit generalizing c with
  | zero => exact absurd rfl h
  | succ limit ih =>
    rcases Round.decided dialect c g.rules with hall | ⟨answer, d, hdecides, hanswer⟩ |
      ⟨cause, hfaults⟩
    · rw [value_rounds_of_stop (Round.ofRules_of_absent hall)]
      exact ⟨[], c, .nil c, .absent hall⟩
    · have hround := Round.value_of_decides hdecides
      cases answer with
      | absent expected offset => cases hanswer
      | malformed cause =>
        rw [value_rounds_of_failed hround]
        exact ⟨[], c, .nil c, .malformed hdecides⟩
      | found n =>
        by_cases hoffset : d.offset = c.offset
        · rw [value_rounds_of_stop (hround.trans (if_pos hoffset))]
          exact ⟨[], c, .nil c, .standstill hdecides hoffset⟩
        · have hnode := value_rounds_of_node (hround.trans (if_neg hoffset)) limit
          rw [hnode] at h ⊢
          have hrest : (g.rounds dialect limit d).value ≠ .error .endless := by
            intro hendless
            rw [hendless] at h
            exact h rfl
          obtain ⟨nodes, stop, hchooses, hconcludes⟩ := ih hrest
          exact ⟨n :: nodes, stop, .cons hdecides hoffset hchooses, hconcludes.behind n⟩
    · rw [value_rounds_of_failed (Round.value_of_faultsAt hfaults)]
      exact ⟨[], c, .nil c, .fault hfaults⟩

/-- A run that ends comes to what its choices come to. -/
theorem value_run_iff :
    (g.run dialect start).value = result ∧ result ≠ .error .endless ↔
      ∃ nodes stop, g.Chooses dialect start nodes stop ∧
        g.Concludes dialect nodes stop result := by
  constructor
  · rintro ⟨rfl, hends⟩
    exact exists_chooses hends
  · rintro ⟨nodes, stop, hchooses, hconcludes⟩
    have hrounds : (g.rounds dialect (1 + nodes.length) start).value = result := by
      rw [hchooses.value_rounds, hconcludes.value_rounds]
    exact ⟨value_run_of_rounds hrounds hconcludes.ne_endless, hconcludes.ne_endless⟩

/-- The nodes of a file are chosen. -/
theorem exists_chooses_of_fileFrom {name : String} {file : File}
    (h : (g.fileFrom dialect name start).value = .ok file) :
    ∃ stop, g.Chooses dialect start file.nodes stop := by
  obtain ⟨run, hrun, hnodes⟩ := exists_run_of_fileFrom h
  obtain ⟨nodes, stop, hchooses, hconcludes⟩ := value_run_iff.mp ⟨hrun, by rintro ⟨⟩⟩
  rw [hnodes, hconcludes.eq_of_ok]
  exact ⟨stop, hchooses⟩

end Grammar

/-! ### Rules that answer alike -/

/-- The two results are one answer.  An absence is an absence, whatever is said of it and
wherever the scanner is, and nobody asks where it is behind a failure. -/
inductive SameAnswer : EStateM.Result Fault (Position source) (Logged (Attempt Node)) →
    EStateM.Result Fault (Position source) (Logged (Attempt Node)) → Prop
  | found {log log' : List Event} {n : Node} {d : Position source} :
      SameAnswer (.ok ⟨log, .found n⟩ d) (.ok ⟨log', .found n⟩ d)
  | absent {log log' : List Event} {expected expected' : Code} {offset offset' : Nat}
      {d d' : Position source} :
      SameAnswer (.ok ⟨log, .absent expected offset⟩ d) (.ok ⟨log', .absent expected' offset'⟩ d')
  | malformed {log log' : List Event} {cause : Diagnostic} {d d' : Position source} :
      SameAnswer (.ok ⟨log, .malformed cause⟩ d) (.ok ⟨log', .malformed cause⟩ d')
  | fault {cause : Fault} {d d' : Position source} :
      SameAnswer (.error cause d) (.error cause d')

/-- The two rules give one answer at every place of the source. -/
def Rule.AnswersAs (source : Bytes) (dialect : Dialect) (r r' : Rule) : Prop :=
  ∀ c : Position source, SameAnswer (r.attempt dialect c) (r'.attempt dialect c)

/-- Rules that answer alike one by one decide every round alike. -/
theorem Round.value_of_answersAs (h : List.Forall₂ (Rule.AnswersAs source dialect) rules rules')
    (c : Position source) :
    (ofRules dialect c rules).value = (ofRules dialect c rules').value := by
  induction h with
  | nil => rfl
  | @cons r r' rules rules' hsame _ ih =>
    rw [value_ofRules_cons, value_ofRules_cons]
    have hanswer := hsame c
    -- the round sees of an answer what `SameAnswer` keeps, so any two that are alike will do
    generalize r.attempt dialect c = result at hanswer ⊢
    generalize r'.attempt dialect c = result' at hanswer ⊢
    cases hanswer with
    | found => rfl
    | absent => exact ih
    | malformed => rfl
    | fault => rfl

/-- **Ordered choice.**  Grammars whose rules answer alike one by one, but for what they do
where they find their constructs absent, have runs that end together, and the same file or
failure.  A run that ends comes to what its choices come to, each of them by the first rule
whose construct is not absent at its place, and so each node of a file is chosen. -/
theorem fileFrom_ordered_choice (g : Grammar) (dialect : Dialect) (name : String)
    (start : Position source) :
    (∀ g' : Grammar, List.Forall₂ (Rule.AnswersAs source dialect) g.rules g'.rules →
      (g.Ends dialect start ↔ g'.Ends dialect start) ∧
        (g.fileFrom dialect name start).value = (g'.fileFrom dialect name start).value) ∧
    (∀ result, (g.run dialect start).value = result ∧ result ≠ .error .endless ↔
      ∃ nodes stop, g.Chooses dialect start nodes stop ∧
        g.Concludes dialect nodes stop result) ∧
    ∀ file, (g.fileFrom dialect name start).value = .ok file →
      ∃ stop, g.Chooses dialect start file.nodes stop := by
  refine ⟨?_, ?_, ?_⟩
  · intro g' h
    exact Grammar.value_fileFrom_congr (Round.value_of_answersAs h) name start
  · intro result
    exact Grammar.value_run_iff
  · intro file
    exact Grammar.exists_chooses_of_fileFrom

/-- A rule that answers as `r` does, but where its construct is absent it does not go back:
it goes to the end of the source, and tells another code and offset. -/
def Rule.careless (r : Rule) : Rule where
  name := r.name
  attempt dialect c :=
    match r.attempt dialect c with
    | .ok ⟨log, .absent _ _⟩ _ =>
      .ok ⟨log, .absent .notWhitespace 0⟩ (Position.seek _ (Nat.le_refl _))
    | result => result

theorem Rule.answersAs_careless (r : Rule) : r.AnswersAs source dialect r.careless := by
  intro c
  simp only [careless]
  rcases r.attempt dialect c with ⟨⟨log, n | ⟨expected, offset⟩ | cause⟩, d⟩ | ⟨cause, d⟩
  · exact .found
  · exact .absent
  · exact .malformed
  · exact .fault

/-- A block comment is found although the rule before it has gone to the end of the
source. -/
theorem fileFrom_ordered_choice_careless :
    let careless : Grammar := ⟨Grammar.comments.rules.map Rule.careless⟩
    let source : Bytes := [0x2f, 0x2a, 0x2a, 0x2f, 0x0a, 0x78]
    let start : Position source := Position.start source
    let file : File := ⟨"a", [.block ⟨none, [], some ⟨[0x0a]⟩⟩]⟩
    List.Forall₂ (Rule.AnswersAs source .base) Grammar.comments.rules careless.rules ∧
    (Grammar.comments.fileFrom .base "a" start).value = .ok file ∧
    (careless.fileFrom .base "a" start).value = .ok file ∧
    ∃ stop, Grammar.comments.Chooses .base start file.nodes stop := by
  intro careless source start file
  have halike : List.Forall₂ (Rule.AnswersAs source .base) Grammar.comments.rules careless.rules :=
    .cons (Rule.answersAs_careless _) (.cons (Rule.answersAs_careless _) .nil)
  have hfile : (Grammar.comments.fileFrom .base "a" start).value = .ok file := by
    decide +kernel
  obtain ⟨hsame, -, hchosen⟩ := fileFrom_ordered_choice Grammar.comments .base "a" start
  exact ⟨halike, hfile, (hsame careless halike).2.symm.trans hfile, hchosen file hfile⟩

/-! ### Rules that may be exchanged -/

namespace Round

/-- A rule that finds its construct absent may be left out in second place as well. -/
theorem value_ofRules_of_absentAt_second (h : r'.AbsentAt dialect c) (rules : List Rule) :
    (ofRules dialect c (r :: r' :: rules)).value = (ofRules dialect c (r :: rules)).value := by
  by_cases habsent : r.AbsentAt dialect c
  · rw [value_ofRules_of_absentAt habsent, value_ofRules_of_absentAt h,
      value_ofRules_of_absentAt habsent]
  · exact value_ofRules_of_not_absentAt habsent _ _

/-- Two rules of which one finds its construct absent may be asked in either order. -/
theorem value_ofRules_exchange (h : r.AbsentAt dialect c ∨ r'.AbsentAt dialect c)
    (rules : List Rule) :
    (ofRules dialect c (r :: r' :: rules)).value
      = (ofRules dialect c (r' :: r :: rules)).value := by
  rcases h with habsent | habsent
  · rw [value_ofRules_of_absentAt habsent, value_ofRules_of_absentAt_second habsent]
  · rw [value_ofRules_of_absentAt_second habsent, value_ofRules_of_absentAt habsent]

/-- What comes to the same does so behind the same rules. -/
theorem value_ofRules_append_congr
    (h : (ofRules dialect c rules).value = (ofRules dialect c rules').value)
    (before : List Rule) :
    (ofRules dialect c (before ++ rules)).value = (ofRules dialect c (before ++ rules')).value := by
  induction before with
  | nil => exact h
  | cons r before ih =>
    rw [List.cons_append, List.cons_append, value_ofRules_cons, value_ofRules_cons, ih]

end Round

namespace Rule

/-- No place is the beginning of both a line comment and a block comment. -/
theorem lineComment_or_blockComment_absent (dialect : Dialect) (c : Position source) :
    lineComment.attempt dialect c = .ok ⟨[], .absent .notLineComment c.offset⟩ c ∨
      blockComment.attempt dialect c = .ok ⟨[], .absent .notBlockComment c.offset⟩ c := by
  by_cases hline : LineComment.opener <+: c.rest.dropWhile ByteSet.blanks.contains
  · right
    apply blockComment_of_not_opener
    rintro ⟨text, htext⟩
    rw [← htext] at hline
    exact BlockComment.not_opener_prefix text hline
  · left
    exact lineComment_of_not_opener hline

end Rule

/-- **The rules for comments may be exchanged**, whatever rules are asked before them and
behind them: the runs end together, with the same file or failure.  For at every place one
of the two finds its construct absent and stays there, also where the construct of the
other is malformed. -/
theorem fileFrom_exchange (before later : List Rule) (dialect : Dialect) (name : String)
    (start : Position source) :
    let lineFirst : Grammar := ⟨before ++ [.lineComment, .blockComment] ++ later⟩
    let blockFirst : Grammar := ⟨before ++ [.blockComment, .lineComment] ++ later⟩
    ((lineFirst.Ends dialect start ↔ blockFirst.Ends dialect start) ∧
      (lineFirst.fileFrom dialect name start).value
        = (blockFirst.fileFrom dialect name start).value) ∧
    ∀ c : Position source,
      Rule.lineComment.attempt dialect c = .ok ⟨[], .absent .notLineComment c.offset⟩ c ∨
        Rule.blockComment.attempt dialect c = .ok ⟨[], .absent .notBlockComment c.offset⟩ c := by
  intro lineFirst blockFirst
  refine ⟨?_, Rule.lineComment_or_blockComment_absent dialect⟩
  apply Grammar.value_fileFrom_congr
  intro c
  -- the rules before have the same say, and of the two rules one is not heard
  show (Round.ofRules dialect c (before ++ [.lineComment, .blockComment] ++ later)).value
    = (Round.ofRules dialect c (before ++ [.blockComment, .lineComment] ++ later)).value
  rw [List.append_assoc, List.append_assoc]
  apply Round.value_ofRules_append_congr
  apply Round.value_ofRules_exchange
  rcases Rule.lineComment_or_blockComment_absent dialect c with habsent | habsent
  · exact .inl ⟨_, _, _, _, habsent⟩
  · exact .inr ⟨_, _, _, _, habsent⟩

end Trivia

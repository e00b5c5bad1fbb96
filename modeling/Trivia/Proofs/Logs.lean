/-
Trivia/Proofs/Logs.lean

What the log of a file tells of its nodes.

A rule of the grammar has one of three answers at a place (`Rule.attempt_cases`): its
construct is absent there, of which it logs nothing itself; or it finds a node, and
reports it; or it finds a block comment that is left open.  So the log of a round is an
answer of each rule that is tried in vain, in the order of the rules, and then what the
rule that decides has to tell (`Round.ofRules_cases`).

A run that finds nodes is told by such rounds one behind the other (`Told`), and what
comes behind them tells how the run ended (`Grammar.rounds_cases`).  From the log alone
the nodes can be cut out of the source again: the finds in it tile the source up to where
the last node stops (`Told.tile`), and their bytes are those of the nodes (`Told.bytes`).
-/
import Trivia.Proofs.Locations

namespace Trivia

open ByteSet

variable {source : Bytes} {c d start : Position source} {dialect : Dialect}
variable {r : Rule} {n : Node} {nodes : List Node} {log : List Event}

/-! ### Finds -/

/-- A node as a log tells of it: the rule that found it, and the offsets where it starts
and stops. -/
structure Find where
  rule : String
  start : Nat
  stop : Nat
  deriving DecidableEq, Repr

namespace Find

/-- How a find is logged. -/
def event (f : Find) : Event := .found f.rule f.start f.stop

/-- The find that an event tells of, if it does. -/
def ofEvent? : Event → Option Find
  | .found rule start stop => some ⟨rule, start, stop⟩
  | _ => none

/-- The finds of a log, in their order. -/
def inLog (log : List Event) : List Find := log.filterMap ofEvent?

/-- The bytes that were found. -/
def bytes (source : Bytes) (f : Find) : Bytes := (source.take f.stop).drop f.start

/-- The finds stand one behind the other from the first offset up to the last, and none
of them is empty. -/
def Tile : Nat → List Find → Nat → Prop
  | start, [], stop => start = stop
  | start, f :: finds, stop => f.start = start ∧ f.start < f.stop ∧ Tile f.stop finds stop

@[simp] theorem inLog_append (log more : List Event) :
    inLog (log ++ more) = inLog log ++ inLog more := List.filterMap_append

@[simp] theorem inLog_event_cons (f : Find) : inLog (f.event :: log) = f :: inLog log := rfl

theorem event_injective {f g : Find} (h : f.event = g.event) : f = g := by
  have hsome : some f = some g := congrArg ofEvent? h
  exact Option.some.inj hsome

/-- Where a log begins without a find, its first find is the one behind. -/
theorem split_at {quiet before after : List Event} {f g : Find} (hquiet : inLog quiet = [])
    (h : quiet ++ g.event :: log = before ++ f.event :: after) :
    (before = quiet ∧ f = g) ∨
      ∃ more, before = quiet ++ g.event :: more ∧ log = more ++ f.event :: after := by
  induction quiet generalizing before with
  | nil =>
    rcases before with - | ⟨e, before⟩
    · exact .inl ⟨rfl, event_injective (List.cons_eq_cons.mp h).1.symm⟩
    · obtain ⟨rfl, hlog⟩ := List.cons_eq_cons.mp h
      exact .inr ⟨before, rfl, hlog⟩
  | cons e quiet ih =>
    rcases before with - | ⟨e', before⟩
    · -- the first event is no find
      obtain ⟨rfl, -⟩ := List.cons_eq_cons.mp h
      cases hquiet
    · obtain ⟨rfl, hlog⟩ := List.cons_eq_cons.mp h
      have hquiet' : inLog quiet = [] := by
        rw [← List.singleton_append, inLog_append] at hquiet
        exact (List.append_eq_nil_iff.mp hquiet).2
      rcases ih hquiet' hlog with ⟨rfl, rfl⟩ | ⟨more, rfl, hmore⟩
      · exact .inl ⟨rfl, rfl⟩
      · exact .inr ⟨more, rfl, hmore⟩

end Find

/-! ### One rule -/

/-- What the reader of a node logs of it. -/
def Node.report (n : Node) (start stop : Nat) : List Event :=
  match n with
  | line comment => [.lineComment start stop comment.body.length]
  | block comment => [.blockComment start stop comment.body.length]
  | space _ => []

/-- The event tells that the rule finds its construct absent at a place.  The rule stays
there and tells nothing else. -/
def Rule.Misses (dialect : Dialect) (c : Position source) (r : Rule) (event : Event) : Prop :=
  ∃ expected, r.attempt dialect c = .ok ⟨[], .absent expected c.offset⟩ c ∧
    event = .absent r.name expected c.offset

/-- The rule finds a node between two places and reports it. -/
structure Rule.Finds (dialect : Dialect) (c : Position source) (r : Rule) (n : Node)
    (d : Position source) : Prop where
  attempt : r.attempt dialect c = .ok ⟨n.report c.offset d.offset, .found n⟩ d
  name : r.name = n.kind
  rest : c.rest = n.source ++ d.rest
  wellFormed : n.WellFormed

/-- The rule finds a block comment that opens behind a place and is not closed. -/
structure Rule.LeavesOpen (dialect : Dialect) (c : Position source) (r : Rule)
    (opening : Nat) : Prop where
  attempt : ∃ d, r.attempt dialect c = .ok ⟨[.unclosedBlock opening source.length],
    .malformed (.located .unclosedBlock opening source.length)⟩ d
  name : r.name = Rule.blockComment.name
  offset_le : c.offset ≤ opening

theorem Rule.Finds.offset_lt (h : r.Finds dialect c n d) : c.offset < d.offset := by
  have hoff : d.offset = c.offset + n.source.length := Position.offset_of_rest h.rest
  have hpos : 0 < n.source.length := List.length_pos_iff.mpr h.wellFormed.source_ne_nil
  omega

namespace Rule

theorem lineComment_cases (dialect : Dialect) (c : Position source) :
    (∃ event, lineComment.Misses dialect c event) ∨
      ∃ n d, lineComment.Finds dialect c n d := by
  by_cases hopen : LineComment.opener <+: c.rest.dropWhile blanks.contains
  · obtain ⟨comment, rest, hc, hleads⟩ := LineComment.exists_leads hopen
    obtain ⟨d, rfl⟩ := Position.exists_rest hc
    have hread := LineComment.read_of_leads hc hleads
    exact .inr ⟨.line comment, d, ⟨Scanner.map_of_ok hread, rfl, hc, hleads.wellFormed⟩⟩
  · exact .inl ⟨_, _, lineComment_of_not_opener hopen, rfl⟩

theorem blockComment_cases (dialect : Dialect) (c : Position source) :
    (∃ event, blockComment.Misses dialect c event) ∨
      (∃ n d, blockComment.Finds dialect c n d) ∨
      ∃ opening, blockComment.LeavesOpen dialect c opening := by
  by_cases hopen : BlockComment.opener <+: c.rest.dropWhile blanks.contains
  · obtain ⟨text, htext⟩ := hopen
    by_cases hclosed : BlockComment.closer <:+: text
    · obtain ⟨comment, rest, hc, hleads⟩ := BlockComment.exists_leads htext.symm hclosed
      obtain ⟨d, rfl⟩ := Position.exists_rest hc
      have hread := BlockComment.read_of_leads hc hleads
      exact .inr (.inl ⟨.block comment, d,
        ⟨Scanner.map_of_ok hread, rfl, hc, hleads.wellFormed⟩⟩)
    · -- the opening marker stands behind the blanks that are passed over
      have hc : c.rest = c.rest.takeWhile blanks.contains ++ (BlockComment.opener ++ text) := by
        rw [htext, List.takeWhile_append_dropWhile]
      obtain ⟨opening, hopening⟩ := Position.exists_rest hc
      rw [← hopening] at hc
      obtain ⟨d, hread⟩ :=
        BlockComment.read_of_unclosed hc (spans_takeWhile c.rest) hopening hclosed
      exact .inr (.inr ⟨opening.offset,
        ⟨⟨d, Scanner.map_of_ok hread⟩, rfl, Position.offset_le_of_rest hc⟩⟩)
  · exact .inl ⟨_, _, blockComment_of_not_opener hopen, rfl⟩

theorem whitespace_cases (dialect : Dialect) (c : Position source) :
    (∃ event, whitespace.Misses dialect c event) ∨
      ∃ n d, whitespace.Finds dialect c n d := by
  by_cases hstops : ByteSet.whitespace.Stops c.rest
  · exact .inl ⟨_, _, whitespace_of_stops hstops, rfl⟩
  · obtain ⟨run, rest, hc, hrun, hrest⟩ := exists_run ByteSet.whitespace c.rest
    obtain ⟨d, rfl⟩ := Position.exists_rest hc
    have hne : run ≠ [] := by
      rintro rfl
      exact hstops (hc ▸ hrest)
    have hread := Fragment.read_of_proper (w := ⟨run⟩) hc ⟨hne, hrun⟩ hrest
    exact .inr ⟨.space ⟨run⟩, d, ⟨Scanner.bind_of_ok hread, rfl, hc, ⟨hne, hrun⟩⟩⟩

/-- All that a rule of the grammar can answer. -/
theorem attempt_cases (h : r ∈ (Grammar.ofDialect dialect).rules) (c : Position source) :
    (∃ event, r.Misses dialect c event) ∨ (∃ n d, r.Finds dialect c n d) ∨
      ∃ opening, r.LeavesOpen dialect c opening := by
  rw [Grammar.rules_ofDialect, List.mem_cons, List.mem_cons] at h
  rcases h with rfl | rfl | h
  · exact (lineComment_cases dialect c).imp_right .inl
  · exact blockComment_cases dialect c
  · split at h
    · obtain rfl := List.mem_singleton.mp h
      exact (whitespace_cases dialect c).imp_right .inl
    · cases h

end Rule

/-! ### One round -/

/-- All that a round can be, as it is logged: every rule answers in vain, or the first
rule that does not has found a node, or a comment that is left open. -/
theorem Round.ofRules_cases {rules : List Rule}
    (h : ∀ r ∈ rules, r ∈ (Grammar.ofDialect dialect).rules) (c : Position source) :
    ∃ missed,
      (List.Forall₂ (Rule.Misses dialect c) rules missed ∧
        ofRules dialect c rules = ⟨missed, .stop⟩) ∨
      ∃ tried r later, rules = tried ++ r :: later ∧
        List.Forall₂ (Rule.Misses dialect c) tried missed ∧
        ((∃ n d, r.Finds dialect c n d ∧ ofRules dialect c rules
            = ⟨missed ++ n.report c.offset d.offset ++ [.found r.name c.offset d.offset],
                .node n d⟩) ∨
          ∃ opening, r.LeavesOpen dialect c opening ∧ ofRules dialect c rules
            = ⟨missed ++ [.unclosedBlock opening source.length,
                  .malformed r.name .unclosedBlock],
                .failed (.diagnosed (.located .unclosedBlock opening source.length))⟩) := by
  induction rules with
  | nil => exact ⟨[], .inl ⟨.nil, rfl⟩⟩
  | cons r rules ih =>
    rw [List.forall_mem_cons] at h
    rcases Rule.attempt_cases h.1 c with ⟨event, hmiss⟩ | ⟨n, d, hfind⟩ | ⟨opening, hopen⟩
    · obtain ⟨expected, hattempt, rfl⟩ := hmiss
      have hmiss : r.Misses dialect c (.absent r.name expected c.offset) := ⟨_, hattempt, rfl⟩
      rw [ofRules_absent hattempt]
      obtain ⟨missed, ⟨hmissed, hround⟩ | ⟨tried, r', later, rfl, hmissed, hround⟩⟩ := ih h.2
      · exact ⟨_ :: missed, .inl ⟨.cons hmiss hmissed, by rw [hround]; rfl⟩⟩
      · refine ⟨_ :: missed, .inr ⟨r :: tried, r', later, rfl, .cons hmiss hmissed, ?_⟩⟩
        rcases hround with ⟨n, d, hfind, hround⟩ | ⟨opening, hopen, hround⟩
        · exact .inl ⟨n, d, hfind, by rw [hround]; rfl⟩
        · exact .inr ⟨opening, hopen, by rw [hround]; rfl⟩
    · refine ⟨[], .inr ⟨[], r, rules, rfl, .nil, .inl ⟨n, d, hfind, ?_⟩⟩⟩
      rw [ofRules_found hfind.attempt (Nat.ne_of_gt hfind.offset_lt), List.nil_append]
    · obtain ⟨d, hattempt⟩ := hopen.attempt
      refine ⟨[], .inr ⟨[], r, rules, rfl, .nil, .inr ⟨opening, hopen, ?_⟩⟩⟩
      rw [ofRules_malformed hattempt]
      rfl

/-! ### Rounds that find nodes -/

/-- The log tells how rounds lead from a place to another, one node a round. -/
inductive Told (dialect : Dialect) :
    Position source → List Node → Position source → List Event → Prop
  | nil {c : Position source} : Told dialect c [] c []
  | cons {c d e : Position source} {tried later : List Rule} {r : Rule} {missed : List Event}
      {n : Node} {nodes : List Node} {log : List Event} :
      (Grammar.ofDialect dialect).rules = tried ++ r :: later →
      List.Forall₂ (Rule.Misses dialect c) tried missed → r.Finds dialect c n d →
      Told dialect d nodes e log →
      Told dialect c (n :: nodes) e
        (missed ++ n.report c.offset d.offset
          ++ Find.event ⟨r.name, c.offset, d.offset⟩ :: log)

theorem inLog_missed {rules : List Rule} {missed : List Event}
    (h : List.Forall₂ (Rule.Misses dialect c) rules missed) : Find.inLog missed = [] := by
  induction h with
  | nil => rfl
  | cons hmiss _ ih =>
    obtain ⟨expected, -, rfl⟩ := hmiss
    exact ih

@[simp] theorem Node.inLog_report (n : Node) (start stop : Nat) :
    Find.inLog (n.report start stop) = [] := by
  cases n with
  | line _ => rfl
  | block _ => rfl
  | space _ => rfl

/-- The event stands at the end of a log only. -/
def Event.closes : Event → Bool
  | .unclosedBlock .. | .standstill .. | .malformed .. | .missingBody .. | .trailingInput ..
  | .completed .. => true
  | .started .. | .lineComment .. | .blockComment .. | .found .. | .absent .. => false

theorem closes_missed {rules : List Rule} {missed : List Event}
    (h : List.Forall₂ (Rule.Misses dialect c) rules missed) :
    ∀ e ∈ missed, e.closes = false := by
  induction h with
  | nil => exact List.forall_mem_nil _
  | cons hmiss _ ih =>
    obtain ⟨expected, -, rfl⟩ := hmiss
    exact List.forall_mem_cons.mpr ⟨rfl, ih⟩

theorem Node.closes_report (n : Node) (start stop : Nat) :
    ∀ e ∈ n.report start stop, e.closes = false := by
  cases n with
  | line _ => exact List.forall_mem_singleton.mpr rfl
  | block _ => exact List.forall_mem_singleton.mpr rfl
  | space _ => exact List.forall_mem_nil _

/-- What stands right before a find: an answer of each rule that was tried in vain at its
start, in the order of the rules, and the report of the node. -/
def Find.Announced (dialect : Dialect) (source : Bytes) (f : Find) (events : List Event) : Prop :=
  ∃ tried r later missed n, ∃ c d : Position source,
    (Grammar.ofDialect dialect).rules = tried ++ r :: later ∧
    List.Forall₂ (Rule.Misses dialect c) tried missed ∧ r.Finds dialect c n d ∧
    f = ⟨r.name, c.offset, d.offset⟩ ∧ events = missed ++ n.report c.offset d.offset

/-- What stands right before a find is none. -/
theorem Find.inLog_before {rules : List Rule} {missed : List Event} (start stop : Nat)
    (h : List.Forall₂ (Rule.Misses dialect c) rules missed) :
    inLog (missed ++ n.report start stop) = [] := by
  rw [inLog_append, inLog_missed h, Node.inLog_report, List.nil_append]

theorem Find.inLog_round {rules : List Rule} {missed : List Event} (f : Find) (start stop : Nat)
    (h : List.Forall₂ (Rule.Misses dialect c) rules missed) :
    inLog (missed ++ n.report start stop ++ f.event :: log) = f :: inLog log := by
  rw [inLog_append, inLog_before start stop h, inLog_event_cons, List.nil_append]

namespace Told

theorem tile (h : Told dialect c nodes d log) :
    Find.Tile c.offset (Find.inLog log) d.offset := by
  induction h with
  | nil => exact rfl
  | cons _ hmissed hfind _ ih =>
    rw [Find.inLog_round _ _ _ hmissed]
    exact ⟨rfl, hfind.offset_lt, ih⟩

theorem kinds (h : Told dialect c nodes d log) :
    (Find.inLog log).map Find.rule = nodes.map Node.kind := by
  induction h with
  | nil => rfl
  | cons _ hmissed hfind _ ih =>
    rw [Find.inLog_round _ _ _ hmissed, List.map_cons, List.map_cons, ih, hfind.name]

theorem bytes (h : Told dialect c nodes d log) :
    (Find.inLog log).map (Find.bytes source) = nodes.map Node.source := by
  induction h with
  | nil => rfl
  | cons _ hmissed hfind _ ih =>
    rw [Find.inLog_round _ _ _ hmissed, List.map_cons, List.map_cons, ih, Find.bytes,
      Position.passed_of_rest hfind.rest]

theorem not_closes (h : Told dialect c nodes d log) : ∀ e ∈ log, e.closes = false := by
  induction h with
  | nil => exact List.forall_mem_nil _
  | cons _ hmissed _ _ ih =>
    rw [List.forall_mem_append, List.forall_mem_append, List.forall_mem_cons]
    exact ⟨⟨closes_missed hmissed, Node.closes_report _ _ _⟩, rfl, ih⟩

/-- Every find is announced, right behind the find before it. -/
theorem announced (h : Told dialect c nodes d log) {quiet before after : List Event} {f : Find}
    (hquiet : Find.inLog quiet = []) (hlog : log ++ quiet = before ++ f.event :: after) :
    ∃ earlier events, before = earlier ++ events ∧
      (earlier = [] ∨ ∃ first, ∃ g : Find, earlier = first ++ [g.event]) ∧
      f.Announced dialect source events := by
  induction h generalizing before with
  | nil =>
    rw [← List.nil_append quiet, hlog, Find.inLog_append, Find.inLog_event_cons] at hquiet
    exact absurd (List.append_eq_nil_iff.mp hquiet).2 (List.cons_ne_nil f _)
  | @cons c d e tried later r missed n nodes log hrules hmissed hfind _ ih =>
    have hround : Find.inLog (missed ++ n.report c.offset d.offset) = [] :=
      Find.inLog_before _ _ hmissed
    generalize hevents : missed ++ n.report c.offset d.offset = round at hround hlog
    rw [List.append_assoc, List.cons_append] at hlog
    rcases Find.split_at hround hlog with ⟨rfl, rfl⟩ | ⟨more, rfl, hmore⟩
    · exact ⟨[], _, rfl, .inl rfl, tried, r, later, missed, n, c, d, hrules, hmissed, hfind, rfl,
        hevents.symm⟩
    · obtain ⟨earlier, events, rfl, hearlier, hf⟩ := ih hmore
      refine ⟨round ++ Find.event ⟨r.name, c.offset, d.offset⟩ :: earlier, events,
        by rw [List.append_assoc, List.cons_append], .inr ?_, hf⟩
      rcases hearlier with rfl | ⟨first, g, rfl⟩
      · exact ⟨round, _, rfl⟩
      · exact ⟨round ++ Find.event ⟨r.name, c.offset, d.offset⟩ :: first, g,
          by rw [List.append_assoc, List.cons_append]⟩

end Told

/-! ### Runs -/

namespace Grammar

theorem rounds_succ (g : Grammar) (limit : Nat) (c : Position source) :
    g.rounds dialect (limit + 1) c =
      match Round.ofRules dialect c g.rules with
      | ⟨log, .stop⟩ => ⟨log, .ok ⟨[], c⟩⟩
      | ⟨log, .failed cause⟩ => ⟨log, .error cause⟩
      | ⟨log, .node n next⟩ =>
        ⟨log ++ (g.rounds dialect limit next).log,
          (g.rounds dialect limit next).value.map fun run => ⟨n :: run.nodes, run.stop⟩⟩ := rfl

/-- All that a run of enough rounds can be, as it is logged: it finds nodes up to a place,
where every rule answers in vain, or the one that does not finds a comment left open. -/
theorem rounds_cases (dialect : Dialect) {limit : Nat} {c : Position source}
    (hlimit : c.rest.length < limit) :
    ∃ nodes d log missed, Told dialect c nodes d log ∧
      ((List.Forall₂ (Rule.Misses dialect d) (ofDialect dialect).rules missed ∧
          (ofDialect dialect).rounds dialect limit c = ⟨log ++ missed, .ok ⟨nodes, d⟩⟩) ∨
        ∃ tried r later opening, (ofDialect dialect).rules = tried ++ r :: later ∧
          List.Forall₂ (Rule.Misses dialect d) tried missed ∧ r.LeavesOpen dialect d opening ∧
          (ofDialect dialect).rounds dialect limit c
            = ⟨log ++ (missed ++ [.unclosedBlock opening source.length,
                  .malformed r.name .unclosedBlock]),
                .error (.diagnosed (.located .unclosedBlock opening source.length))⟩) := by
  induction limit generalizing c with
  | zero => exact absurd hlimit (Nat.not_lt_zero _)
  | succ limit ih =>
    obtain ⟨missed, ⟨hmissed, hround⟩ | ⟨tried, r, later, hrules, hmissed, hround⟩⟩ :=
      Round.ofRules_cases (fun r (hr : r ∈ (ofDialect dialect).rules) => hr) c
    · exact ⟨[], c, [], missed, .nil, .inl ⟨hmissed, by rw [rounds_succ, hround]; rfl⟩⟩
    rcases hround with ⟨n, next, hfind, hround⟩ | ⟨opening, hopen, hround⟩
    · -- a node is not empty, so one round less is enough behind it
      have hless : next.rest.length < limit := by
        have hlt := hfind.offset_lt
        have hle := next.offset_le
        rw [Position.length_rest] at hlimit ⊢
        omega
      obtain ⟨nodes, d, log, missed', htold, hend⟩ := ih hless
      refine ⟨n :: nodes, d, _, missed', .cons hrules hmissed hfind htold, ?_⟩
      rcases hend with ⟨hmissed', hrest⟩ | ⟨tried', r', later', opening, hrules', hmissed', hopen,
        hrest⟩
      · refine .inl ⟨hmissed', ?_⟩
        rw [rounds_succ, hround]
        simp only [hrest, Except.map, List.append_assoc, List.cons_append, List.nil_append,
          Find.event]
      · refine .inr ⟨tried', r', later', opening, hrules', hmissed', hopen, ?_⟩
        rw [rounds_succ, hround]
        simp only [hrest, Except.map, List.append_assoc, List.cons_append, List.nil_append,
          Find.event]
    · exact ⟨[], c, [], missed, .nil, .inr ⟨tried, r, later, opening, hrules, hmissed, hopen,
        by rw [rounds_succ, hround]; rfl⟩⟩

end Grammar

/-! ### Files -/

/-- How a log closes, and the result it is the log of.  The nodes of the file, if there is
one, stop at `last`. -/
inductive Closes (name : String) (length last : Nat) : Except Failure File → List Event → Prop
  | completed (nodes : List Node) :
      Closes name length last (.ok ⟨name, nodes⟩) [.completed name nodes.length last length]
  | missingBody :
      Closes name length last (.error (.diagnosed (.located .missingBody last last)))
        [.missingBody name last]
  | trailingInput :
      Closes name length last (.error (.diagnosed (.located .trailingInput last length)))
        [.trailingInput name last length]
  | unclosedBlock (opening : Nat) : last ≤ opening →
      Closes name length last (.error (.diagnosed (.located .unclosedBlock opening length)))
        [.unclosedBlock opening length, .malformed Rule.blockComment.name .unclosedBlock]

theorem closes_finish (dialect : Dialect) (name : String) (run : Run source) :
    Closes name source.length run.stop.offset (Grammar.finish dialect name run).value
      (Grammar.finish dialect name run).log := by
  rw [Grammar.finish]
  split
  · exact .missingBody
  · split
    · exact .trailingInput
    · exact .completed run.nodes

/-- The nodes of a file are those of the run. -/
theorem nodes_of_finish {run : Run source} {name : String} {file : File}
    (h : (Grammar.finish dialect name run).value = .ok file) : file.nodes = run.nodes := by
  rw [Grammar.finish] at h
  split at h
  · cases h
  · split at h
    · cases h
    · exact congrArg File.nodes (Except.ok.inj h).symm

theorem Closes.inLog {name : String} {length last : Nat} {result : Except Failure File}
    {closing : List Event} (h : Closes name length last result closing) :
    Find.inLog closing = [] := by
  cases h with
  | completed _ => rfl
  | missingBody => rfl
  | trailingInput => rfl
  | unclosedBlock _ _ => rfl

theorem Closes.not_standstill {name rule : String} {length last offset : Nat}
    {result : Except Failure File} {closing : List Event}
    (h : Closes name length last result closing) : .standstill rule offset ∉ closing := by
  cases h with
  | completed _ => simp
  | missingBody => simp
  | trailingInput => simp
  | unclosedBlock _ _ => simp

/-- A file as it is logged, from wherever it starts: rounds that find its nodes, rules that
are tried in vain behind the last of them, and what closes the log. -/
theorem Grammar.fileFrom_cases (dialect : Dialect) (name : String) (start : Position source) :
    ∃ nodes d log tried later missed closing result, Told dialect start nodes d log ∧
      (ofDialect dialect).rules = tried ++ later ∧
      List.Forall₂ (Rule.Misses dialect d) tried missed ∧
      Closes name source.length d.offset result closing ∧
      (∀ file, result = .ok file → file.nodes = nodes) ∧
      (ofDialect dialect).fileFrom dialect name start = ⟨log ++ (missed ++ closing), result⟩ := by
  have hlimit : start.rest.length < source.length + 1 := by
    rw [Position.length_rest]
    omega
  obtain ⟨nodes, d, log, missed, htold, ⟨hmissed, hrun⟩ | hopen⟩ := rounds_cases dialect hlimit
  · refine ⟨nodes, d, log, _, [], missed, _, _, htold, (List.append_nil _).symm, hmissed,
      closes_finish dialect name ⟨nodes, d⟩, fun file hfile => nodes_of_finish hfile, ?_⟩
    rw [fileFrom, run, hrun, ← List.append_assoc]
  · obtain ⟨tried, r, later, opening, hrules, hmissed, hopen, hrun⟩ := hopen
    refine ⟨nodes, d, log, tried, r :: later, missed, _, _, htold, hrules, hmissed,
      .unclosedBlock opening hopen.offset_le, ?_, ?_⟩
    · rintro file ⟨⟩
    · rw [fileFrom, run, hrun, hopen.name]

/-- **The log accounts for the file.**  Its finds tile the source from the start up to where
the last node stops, each of them right behind the answers of the rules that were tried in
vain at its start and the report of its node; no round stands still.  They are the nodes of
the file, by rule and by bytes.  And the log closes once, at its end, with what became of
the file, at the offset where the last node stops. -/
theorem ofSource_log (dialect : Dialect) (name : String) (source : Bytes) :
    let parsed := File.ofSource dialect name source
    let finds := Find.inLog parsed.log
    ∃ last, Find.Tile 0 finds last ∧
      (∀ before f after, parsed.log = before ++ Find.event f :: after →
        ∃ earlier events, before = .started name source.length :: (earlier ++ events) ∧
          (earlier = [] ∨ ∃ first, ∃ g : Find, earlier = first ++ [g.event]) ∧
          f.Announced dialect source events) ∧
      (∀ rule offset, .standstill rule offset ∉ parsed.log) ∧
      (∀ file, parsed.value = .ok file →
        finds.map Find.rule = file.nodes.map Node.kind ∧
        finds.map (Find.bytes source) = file.nodes.map Node.source) ∧
      ∃ body closing, parsed.log = body ++ closing ∧ (∀ e ∈ body, e.closes = false) ∧
        Closes name source.length last parsed.value closing := by
  intro parsed finds
  obtain ⟨nodes, d, log, tried, later, missed, closing, result, htold, hrules, hmissed, hcloses,
    hnodes, hfile⟩ := Grammar.fileFrom_cases dialect name (Position.start source)
  have hparsed : parsed = ⟨.started name source.length :: (log ++ (missed ++ closing)), result⟩ := by
    show File.ofSource dialect name source = _
    rw [File.ofSource, hfile]
  have hend : Find.inLog (missed ++ closing) = [] := by
    rw [Find.inLog_append, inLog_missed hmissed, hcloses.inLog, List.nil_append]
  have hfinds : finds = Find.inLog log := by
    show Find.inLog parsed.log = _
    rw [hparsed, ← List.singleton_append, Find.inLog_append, Find.inLog_append, hend,
      List.append_nil]
    rfl
  have hbody : ∀ e ∈ Event.started name source.length :: (log ++ missed), e.closes = false := by
    rw [List.forall_mem_cons, List.forall_mem_append]
    exact ⟨rfl, htold.not_closes, closes_missed hmissed⟩
  rw [hparsed, hfinds]
  have hsplit : Event.started name source.length :: (log ++ (missed ++ closing))
      = (Event.started name source.length :: (log ++ missed)) ++ closing := by
    rw [List.cons_append, List.append_assoc]
  refine ⟨d.offset, htold.tile, ?_, ?_, ?_, _, closing, hsplit, hbody, hcloses⟩
  · rintro (- | ⟨e, before⟩) f after hlog
    · cases hlog
    · obtain ⟨rfl, hmore⟩ := List.cons_eq_cons.mp hlog
      obtain ⟨earlier, events, rfl, hearlier, hf⟩ := htold.announced hend hmore
      exact ⟨earlier, events, rfl, hearlier, hf⟩
  · intro rule offset hmem
    rw [hsplit, List.mem_append] at hmem
    rcases hmem with hmem | hmem
    · cases hbody _ hmem
    · exact hcloses.not_standstill hmem
  · intro file hfile
    rw [hnodes file hfile]
    exact ⟨htold.kinds, htold.bytes⟩

end Trivia

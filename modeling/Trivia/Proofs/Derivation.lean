/-
Trivia/Proofs/Derivation.lean

Files of the grammar of a dialect, as derivations over bytes.

`Derives dialect bytes nodes e` says, without positions, rounds or limits, that
`bytes` are the nodes one after another, each leading what is behind it, and
that they end as `e` tells: before bytes at which nothing begins, or before a
block comment that is never closed.  Every list of bytes has a derivation
(`exists_derives`), and a derivation is what a run does (`rounds_of_derives`).
Since a run has one outcome, both together turn statements about files into
inductions over derivations (`fileFrom_of_derives`, `fileFrom_eq_ok_iff`).
-/
import Trivia.Run
import Trivia.Proofs.Leading

namespace Trivia

open ByteSet

variable {source : Bytes} {c d : Position source} {dialect : Dialect}

/-! ### One node -/

/-- A comment begins, whatever becomes of it. -/
def OpensComment (bytes : Bytes) : Prop :=
  LineComment.opener <+: bytes ∨ BlockComment.opener <+: bytes

theorem not_opensComment_iff {bytes : Bytes} :
    ¬ OpensComment bytes ↔ ¬ LineComment.opener <+: bytes ∧ ¬ BlockComment.opener <+: bytes :=
  not_or

theorem not_opensComment_nil : ¬ OpensComment [] := by
  rw [not_opensComment_iff]
  decide

/-- The node, written in front of `rest`, is the one that is read, and ends there.
Whitespace is read only where no comment takes its blanks for an indent. -/
inductive Node.Leads (dialect : Dialect) : Node → Bytes → Prop
  | line {comment : LineComment} {rest : Bytes} :
      comment.Leads rest → Leads dialect (.line comment) rest
  | block {comment : BlockComment} {rest : Bytes} :
      comment.Leads rest → Leads dialect (.block comment) rest
  | space {w : Fragment} {rest : Bytes} :
      dialect.looseWhitespace = true → w.Proper → whitespace.Stops rest →
      ¬ OpensComment ((w.bytes ++ rest).dropWhile blanks.contains) →
      Leads dialect (.space w) rest

/-- A node that is well formed by itself. -/
def Node.WellFormed : Node → Prop
  | line comment => comment.WellFormed
  | block comment => comment.WellFormed
  | space w => w.Proper

instance : DecidablePred Node.WellFormed
  | .line comment => inferInstanceAs (Decidable comment.WellFormed)
  | .block comment => inferInstanceAs (Decidable comment.WellFormed)
  | .space w => inferInstanceAs (Decidable w.Proper)

/-- No construct of the dialect begins with these bytes. -/
structure Stray (dialect : Dialect) (bytes : Bytes) : Prop where
  not_opens : ¬ OpensComment (bytes.dropWhile blanks.contains)
  stops : dialect.looseWhitespace = true → whitespace.Stops bytes

theorem Node.WellFormed.source_ne_nil {n : Node} (h : n.WellFormed) : n.source ≠ [] := by
  cases n with
  | line _ => simp [Node.source, LineComment.source, LineComment.opener]
  | block _ => simp [Node.source, BlockComment.source, BlockComment.opener]
  | space _ => exact h.1

theorem Node.Leads.wellFormed {n : Node} {rest : Bytes} (h : n.Leads dialect rest) :
    n.WellFormed := by
  cases h with
  | line h => exact h.wellFormed
  | block h => exact h.wellFormed
  | space _ hw _ _ => exact hw

theorem Node.Leads.length_pos {n : Node} {rest : Bytes} (h : n.Leads dialect rest) :
    0 < n.source.length := List.length_pos_iff.mpr h.wellFormed.source_ne_nil

theorem Node.Leads.looseWhitespace {n : Node} {rest : Bytes} (h : n.Leads dialect rest)
    (hn : n.isSpace = true) : dialect.looseWhitespace = true := by
  cases h with
  | line _ => cases hn
  | block _ => cases hn
  | space hd _ _ _ => exact hd

/-- The indent is dropped, and not the marker behind it. -/
theorem BlockComment.dropWhile_indent {indent text : Bytes} (hindent : blanks.Spans indent) :
    (indent ++ (opener ++ text)).dropWhile blanks.contains = opener ++ text :=
  dropWhile_of_spans hindent (stops_cons.mpr (by decide))

theorem BlockComment.not_opener_prefix (text : Bytes) :
    ¬ LineComment.opener <+: opener ++ text := by
  intro h
  have hbytes : [0x2f, 0x2f] <+: (0x2f : UInt8) :: 0x2a :: text := h
  simp at hbytes

/-- What begins with given bytes: a node, a comment without an end, or nothing. -/
theorem leads_or_unclosed_or_stray (dialect : Dialect) (bytes : Bytes) :
    (∃ n : Node, ∃ rest, bytes = n.source ++ rest ∧ n.Leads dialect rest) ∨
    (∃ indent text, bytes = indent ++ (BlockComment.opener ++ text) ∧ blanks.Spans indent ∧
      ¬ BlockComment.closer <:+: text) ∨
    Stray dialect bytes := by
  by_cases hline : LineComment.opener <+: bytes.dropWhile blanks.contains
  · obtain ⟨comment, rest, hbytes, hleads⟩ := LineComment.exists_leads hline
    exact .inl ⟨.line comment, rest, hbytes, .line hleads⟩
  by_cases hblock : BlockComment.opener <+: bytes.dropWhile blanks.contains
  · obtain ⟨text, htext⟩ := hblock
    by_cases hclosed : BlockComment.closer <:+: text
    · obtain ⟨comment, rest, hbytes, hleads⟩ := BlockComment.exists_leads htext.symm hclosed
      exact .inl ⟨.block comment, rest, hbytes, .block hleads⟩
    · refine .inr (.inl ⟨_, text, ?_, spans_takeWhile bytes, hclosed⟩)
      rw [htext, List.takeWhile_append_dropWhile]
  have hopens : ¬ OpensComment (bytes.dropWhile blanks.contains) :=
    not_opensComment_iff.mpr ⟨hline, hblock⟩
  by_cases hspace : dialect.looseWhitespace = true ∧ ¬ whitespace.Stops bytes
  · obtain ⟨run, rest, rfl, hrun, hrest⟩ := exists_run whitespace bytes
    have hne : run ≠ [] := by
      rintro rfl
      exact hspace.2 hrest
    exact .inl ⟨.space ⟨run⟩, rest, rfl, .space hspace.1 ⟨hne, hrun⟩ hrest hopens⟩
  · refine .inr (.inr ⟨hopens, fun hd => ?_⟩)
    by_contra hstops
    exact hspace ⟨hd, hstops⟩

/-! ### One round -/

namespace Round

variable {r : Rule} {rules : List Rule} {log : List Event}

theorem ofRules_found {n : Node} (h : r.attempt dialect c = .ok ⟨log, .found n⟩ d)
    (hne : d.offset ≠ c.offset) :
    ofRules dialect c (r :: rules)
      = ⟨log ++ [.found r.name c.offset d.offset], .node n d⟩ := by
  rw [ofRules, h]
  exact if_neg hne

theorem ofRules_absent {expected : Code} {offset : Nat}
    (h : r.attempt dialect c = .ok ⟨log, .absent expected offset⟩ d) :
    ofRules dialect c (r :: rules)
      = ⟨log ++ .absent r.name expected offset :: (ofRules dialect c rules).log,
        (ofRules dialect c rules).value⟩ := by
  rw [ofRules, h]

theorem ofRules_malformed {cause : Diagnostic}
    (h : r.attempt dialect c = .ok ⟨log, .malformed cause⟩ d) :
    ofRules dialect c (r :: rules)
      = ⟨log ++ [.malformed r.name cause.code], .failed (.diagnosed cause)⟩ := by
  rw [ofRules, h]

/-- A round in which every construct is absent ends the nodes. -/
theorem ofRules_of_absent
    (h : ∀ r ∈ rules, ∃ log expected offset, ∃ d : Position source,
      r.attempt dialect c = .ok ⟨log, .absent expected offset⟩ d) :
    (ofRules dialect c rules).value = .stop := by
  induction rules with
  | nil => rfl
  | cons r rules ih =>
    rw [List.forall_mem_cons] at h
    obtain ⟨⟨log, expected, offset, d, hr⟩, hrules⟩ := h
    rw [ofRules_absent hr]
    exact ih hrules

end Round

theorem Grammar.rules_ofDialect (dialect : Dialect) :
    (Grammar.ofDialect dialect).rules = .lineComment :: .blockComment ::
      if dialect.looseWhitespace then [.whitespace] else [] := by
  rw [Grammar.ofDialect]
  split
  · rfl
  · rfl

namespace Rule

theorem lineComment_of_not_opener
    (h : ¬ LineComment.opener <+: c.rest.dropWhile blanks.contains) :
    lineComment.attempt dialect c = .ok ⟨[], .absent .notLineComment c.offset⟩ c :=
  Scanner.map_of_ok (LineComment.read_of_not_opener h)

theorem blockComment_of_not_opener
    (h : ¬ BlockComment.opener <+: c.rest.dropWhile blanks.contains) :
    blockComment.attempt dialect c = .ok ⟨[], .absent .notBlockComment c.offset⟩ c :=
  Scanner.map_of_ok (BlockComment.read_of_not_opener h)

theorem whitespace_of_stops (h : ByteSet.whitespace.Stops c.rest) :
    whitespace.attempt dialect c = .ok ⟨[], .absent .notWhitespace c.offset⟩ c :=
  Scanner.bind_of_ok (Fragment.read_of_stops h)

end Rule

/-- Where nothing begins, every rule says so and stays where it is. -/
theorem Stray.absent (h : Stray dialect c.rest) :
    ∀ r ∈ (Grammar.ofDialect dialect).rules, ∃ expected,
      r.attempt dialect c = .ok ⟨[], .absent expected c.offset⟩ c := by
  obtain ⟨hline, hblock⟩ := not_opensComment_iff.mp h.not_opens
  rw [Grammar.rules_ofDialect, List.forall_mem_cons, List.forall_mem_cons]
  refine ⟨⟨_, Rule.lineComment_of_not_opener hline⟩,
    ⟨_, Rule.blockComment_of_not_opener hblock⟩, ?_⟩
  split
  · rename_i hloose
    rw [List.forall_mem_singleton]
    exact ⟨_, Rule.whitespace_of_stops (h.stops hloose)⟩
  · exact List.forall_mem_nil _

theorem Round.value_of_stray (h : Stray dialect c.rest) :
    (ofRules dialect c (Grammar.ofDialect dialect).rules).value = .stop := by
  refine ofRules_of_absent fun r hr => ?_
  obtain ⟨expected, hattempt⟩ := h.absent r hr
  exact ⟨_, _, _, _, hattempt⟩

/-- A node that leads is what the round finds. -/
theorem Round.value_of_leads {n : Node} (h : c.rest = n.source ++ d.rest)
    (hl : n.Leads dialect d.rest) :
    (ofRules dialect c (Grammar.ofDialect dialect).rules).value = .node n d := by
  have hoff : d.offset = c.offset + n.source.length := Position.offset_of_rest h
  have hpos : 0 < n.source.length := hl.length_pos
  have hne : d.offset ≠ c.offset := by omega
  rw [Grammar.rules_ofDialect]
  cases hl with
  | line hleads =>
    have hattempt := Scanner.map_of_ok (f := Logged.map (Attempt.map Node.line))
      (LineComment.read_of_leads h hleads)
    exact congrArg Logged.value (ofRules_found (r := .lineComment) hattempt hne)
  | @block comment _ hleads =>
    -- the rule for line comments is tried before
    have hopen : c.rest.dropWhile blanks.contains
        = BlockComment.opener ++ (comment.body ++ (BlockComment.closer
          ++ (Fragment.source? comment.trailing ++ d.rest))) := by
      rw [h]
      simp only [Node.source, BlockComment.source, List.append_assoc]
      exact BlockComment.dropWhile_indent hleads.wellFormed.indent.spans
    have hline : ¬ LineComment.opener <+: c.rest.dropWhile blanks.contains := by
      rw [hopen]
      exact BlockComment.not_opener_prefix _
    have hattempt := Scanner.map_of_ok (f := Logged.map (Attempt.map Node.block))
      (BlockComment.read_of_leads h hleads)
    rw [ofRules_absent (Rule.lineComment_of_not_opener hline)]
    exact congrArg Logged.value (ofRules_found (r := .blockComment) hattempt hne)
  | @space w _ hloose hw hrest hopens =>
    -- both rules for comments are tried before, and drop blanks to find a marker
    obtain ⟨hline, hblock⟩ := not_opensComment_iff.mp (h ▸ hopens)
    have hattempt : Rule.whitespace.attempt dialect c = .ok ⟨[], .found (.space w)⟩ d :=
      Scanner.bind_of_ok (Fragment.read_of_proper h hw hrest)
    rw [if_pos hloose, ofRules_absent (Rule.lineComment_of_not_opener hline),
      ofRules_absent (Rule.blockComment_of_not_opener hblock)]
    exact congrArg Logged.value (ofRules_found hattempt hne)

/-- A block comment that is never closed fails the round. -/
theorem Round.value_of_unclosed {opening : Position source} {indent text : Bytes}
    (h : c.rest = indent ++ opening.rest) (hindent : blanks.Spans indent)
    (hopening : opening.rest = BlockComment.opener ++ text)
    (htext : ¬ BlockComment.closer <:+: text) :
    (ofRules dialect c (Grammar.ofDialect dialect).rules).value
      = .failed (.diagnosed (.located .unclosedBlock opening.offset source.length)) := by
  have hline : ¬ LineComment.opener <+: c.rest.dropWhile blanks.contains := by
    rw [h, hopening, BlockComment.dropWhile_indent hindent]
    exact BlockComment.not_opener_prefix _
  obtain ⟨d, hread⟩ := BlockComment.read_of_unclosed h hindent hopening htext
  have hattempt := Scanner.map_of_ok (f := Logged.map (Attempt.map Node.block)) hread
  rw [Grammar.rules_ofDialect, ofRules_absent (Rule.lineComment_of_not_opener hline)]
  exact congrArg Logged.value (ofRules_malformed (r := .blockComment) hattempt)

/-! ### Derivations -/

/-- How the nodes of a file end. -/
inductive Ending
  /-- Before bytes at which nothing begins, or at the end of the source. -/
  | stopped (rest : Bytes)
  /-- Before a block comment that is never closed, its indent passed over. -/
  | unclosed (rest : Bytes)
  deriving DecidableEq, Repr

/-- What is left behind the nodes, from the opening marker on where one is left open. -/
def Ending.rest : Ending → Bytes
  | stopped rest | unclosed rest => rest

/-- What a run says of nodes that end so at `stop`. -/
def Ending.outcome (nodes : List Node) (stop : Position source) :
    Ending → Except Failure (Run source)
  | stopped _ => .ok ⟨nodes, stop⟩
  | unclosed _ => .error (.diagnosed (.located .unclosedBlock stop.offset source.length))

/-- The bytes are the nodes, one after another, and end so. -/
inductive Derives (dialect : Dialect) : Bytes → List Node → Ending → Prop
  | stop {rest : Bytes} : Stray dialect rest → Derives dialect rest [] (.stopped rest)
  | unclosed {indent text : Bytes} : blanks.Spans indent → ¬ BlockComment.closer <:+: text →
      Derives dialect (indent ++ (BlockComment.opener ++ text)) []
        (.unclosed (BlockComment.opener ++ text))
  | node {n : Node} {rest : Bytes} {nodes : List Node} {e : Ending} :
      n.Leads dialect rest → Derives dialect rest nodes e →
      Derives dialect (n.source ++ rest) (n :: nodes) e

theorem exists_derives (dialect : Dialect) (bytes : Bytes) :
    ∃ nodes e, Derives dialect bytes nodes e := by
  induction hlen : bytes.length using Nat.strong_induction_on generalizing bytes with
  | _ length ih =>
    rcases leads_or_unclosed_or_stray dialect bytes with
      ⟨n, rest, rfl, hn⟩ | ⟨indent, text, rfl, hindent, htext⟩ | hstray
    · have hpos : 0 < n.source.length := hn.length_pos
      have hlt : rest.length < length := by
        rw [← hlen, List.length_append]
        omega
      obtain ⟨nodes, e, hrest⟩ := ih rest.length hlt rest rfl
      exact ⟨n :: nodes, e, .node hn hrest⟩
    · exact ⟨[], _, .unclosed hindent htext⟩
    · exact ⟨[], _, .stop hstray⟩

/-- Nothing is derived from no bytes. -/
theorem Derives.of_nil {nodes : List Node} {e : Ending} (h : Derives dialect [] nodes e) :
    nodes = [] ∧ e = .stopped [] := by
  generalize hbytes : ([] : Bytes) = bytes at h
  cases h with
  | stop _ => exact ⟨rfl, hbytes ▸ rfl⟩
  | unclosed _ _ => simp [BlockComment.opener] at hbytes
  | node hn _ =>
    exact absurd (List.append_eq_nil_iff.mp hbytes.symm).1 hn.wellFormed.source_ne_nil

/-! ### Runs and files -/

namespace Grammar

/-- One more round, as far as its value goes. -/
theorem value_rounds_succ (g : Grammar) (limit : Nat) (c : Position source) :
    (g.rounds dialect (limit + 1) c).value =
      match (Round.ofRules dialect c g.rules).value with
      | .stop => .ok ⟨[], c⟩
      | .failed cause => .error cause
      | .node n next =>
        (g.rounds dialect limit next).value.map fun run => ⟨n :: run.nodes, run.stop⟩ := by
  rw [rounds]
  rcases Round.ofRules dialect c g.rules with ⟨log, n | - | cause⟩
  · rfl
  · rfl
  · rfl

/-- A run of enough rounds does what the derivation says. -/
theorem rounds_of_derives {bytes : Bytes} {nodes : List Node} {e : Ending}
    (h : Derives dialect bytes nodes e) :
    ∀ (c : Position source) (limit : Nat), c.rest = bytes → bytes.length < limit →
      ∃ stop : Position source, stop.rest = e.rest ∧
        ((ofDialect dialect).rounds dialect limit c).value = e.outcome nodes stop := by
  induction h with
  | stop hstray =>
    rintro c (- | limit) rfl hlimit
    · exact absurd hlimit (Nat.not_lt_zero _)
    · refine ⟨c, rfl, ?_⟩
      rw [value_rounds_succ, Round.value_of_stray hstray]
      rfl
  | unclosed hindent htext =>
    rintro c (- | limit) hc hlimit
    · exact absurd hlimit (Nat.not_lt_zero _)
    · obtain ⟨opening, hopening⟩ := Position.exists_rest hc
      refine ⟨opening, hopening, ?_⟩
      rw [value_rounds_succ,
        Round.value_of_unclosed (by rw [hc, hopening]) hindent hopening htext]
      rfl
  | @node n rest nodes e hn _ ih =>
    -- the node is not empty, so one round less is enough behind it
    rintro c (- | limit) hc hlimit
    · exact absurd hlimit (Nat.not_lt_zero _)
    · obtain ⟨next, hnext⟩ := Position.exists_rest hc
      have hpos : 0 < n.source.length := hn.length_pos
      rw [List.length_append] at hlimit
      obtain ⟨stop, hstop, hvalue⟩ := ih next limit hnext (by omega)
      refine ⟨stop, hstop, ?_⟩
      rw [value_rounds_succ, Round.value_of_leads (by rw [hc, hnext]) (hnext ▸ hn)]
      show (((ofDialect dialect).rounds dialect limit next).value.map _) = _
      rw [hvalue]
      cases e with
      | stopped _ => rfl
      | unclosed _ => rfl

theorem value_fileFrom (g : Grammar) (name : String) (start : Position source) :
    (g.fileFrom dialect name start).value =
      (g.run dialect start).value.bind fun run => (finish dialect name run).value := by
  rw [fileFrom]
  rcases g.run dialect start with ⟨log, cause | run⟩
  · rfl
  · rfl

/-- The run of a derivation.  No node is empty, so there are rounds enough. -/
theorem run_of_derives {start : Position source} {nodes : List Node} {e : Ending}
    (h : Derives dialect start.rest nodes e) :
    ∃ stop : Position source, stop.rest = e.rest ∧
      ((ofDialect dialect).run dialect start).value = e.outcome nodes stop := by
  have hlimit : start.rest.length < source.length + 1 := by
    rw [Position.length_rest]
    omega
  exact rounds_of_derives h start (source.length + 1) rfl hlimit

/-- The file of a derivation: its outcome, and what is asked of files in the end. -/
theorem fileFrom_of_derives {start : Position source} {nodes : List Node} {e : Ending}
    (h : Derives dialect start.rest nodes e) (name : String) :
    ∃ stop : Position source, stop.rest = e.rest ∧
      ((ofDialect dialect).fileFrom dialect name start).value =
        (e.outcome nodes stop).bind fun run => (finish dialect name run).value := by
  obtain ⟨stop, hstop, hvalue⟩ := run_of_derives h
  refine ⟨stop, hstop, ?_⟩
  rw [value_fileFrom, hvalue]

/-- What is asked of the nodes in the end: a comment, and nothing behind them where
the dialect wants the whole source. -/
theorem value_finish (name : String) (run : Run source) :
    (finish dialect name run).value =
      if (⟨name, run.nodes⟩ : File).hasComment = false then
        .error (.diagnosed (.located .missingBody run.stop.offset run.stop.offset))
      else if dialect.wholeSource = true ∧ run.stop.rest ≠ [] then
        .error (.diagnosed (.located .trailingInput run.stop.offset source.length))
      else .ok ⟨name, run.nodes⟩ := by
  by_cases hbody : (⟨name, run.nodes⟩ : File).hasComment = false
  · simp [finish, hbody]
  · by_cases hleft : dialect.wholeSource = true ∧ run.stop.rest ≠ []
    · simp [finish, hbody, Position.atEnd, hleft]
    · have hend : (dialect.wholeSource && !run.stop.atEnd) = false := by
        rw [Position.atEnd]
        simpa using hleft
      simp [finish, hbody, hend, hleft]

/-- There is a file exactly where there is a derivation of its nodes that stops,
with a comment among them, and with nothing left where the dialect asks for that. -/
theorem fileFrom_eq_ok_iff {start : Position source} {name : String} {file : File} :
    ((ofDialect dialect).fileFrom dialect name start).value = .ok file ↔
      file.name = name ∧ file.hasComment = true ∧
        ∃ rest, Derives dialect start.rest file.nodes (.stopped rest) ∧
          (dialect.wholeSource = true → rest = []) := by
  constructor
  · intro h
    obtain ⟨nodes, e, hderives⟩ := exists_derives dialect start.rest
    obtain ⟨stop, hstop, hvalue⟩ := fileFrom_of_derives hderives name
    rw [hvalue] at h
    cases e with
    | unclosed rest => cases h
    | stopped rest =>
      change (finish dialect name ⟨nodes, stop⟩).value = .ok file at h
      rw [value_finish] at h
      split_ifs at h with hbody hleft
      obtain rfl := Except.ok.inj h
      refine ⟨rfl, Bool.not_eq_false _ ▸ hbody, rest, hderives, fun hwhole => ?_⟩
      by_contra hne
      exact hleft ⟨hwhole, hstop ▸ hne⟩
  · rintro ⟨rfl, hbody, rest, hderives, hrest⟩
    obtain ⟨stop, hstop, hvalue⟩ := fileFrom_of_derives hderives file.name
    have hleft : ¬ (dialect.wholeSource = true ∧ stop.rest ≠ []) :=
      fun h => h.2 (hstop.trans (hrest h.1))
    rw [hvalue]
    show (finish dialect file.name ⟨file.nodes, stop⟩).value = .ok file
    rw [value_finish, if_neg (by simp [hbody]), if_neg hleft]

end Grammar

end Trivia

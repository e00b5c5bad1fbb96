/-
Trivia/Proofs/Concatenation.lean

Sources one behind the other.

A reader looks ahead of the node that it reads, so bytes behind a source may change how
its nodes are read, and the end of a source decides where nodes end.  Where the last node
is a comment that ends its line, and what comes next does not go on with line ends, no
node changes: a canonical list leads whatever its last node leads
(`Canonical.derives_append`).  From there on the second source is read as it is by
itself, since a derivation has no memory of what came before it.  So the nodes of the
two follow one another, and what ends the second source ends both, as many bytes later
as the first one has (`Ending.verdict_append`).
-/
import Trivia.Proofs.Canonical
import Trivia.Proofs.Recoding

namespace Trivia

open ByteSet

variable {a b rest : Bytes} {dialect : Dialect} {nodes nodes' : List Node} {e : Ending}

/-! ### Sources that end a line -/

/-- The whitespace that belongs to a comment and comes last in it. -/
def Node.trailing? : Node → Option Fragment
  | line comment => comment.trailing
  | block comment => comment.trailing
  | space _ => none

/-- The last node is a comment, and the whitespace behind it finishes with a line end. -/
def Node.LastEndsLine (nodes : List Node) : Prop :=
  ∃ n ∈ nodes.getLast?, ∃ w ∈ n.trailing?, endsWithLineEnd w.bytes = true

theorem Fragment.endsLine_of_mem {trailing : Option Fragment} {w : Fragment}
    (htail : ∀ f ∈ trailing, f.IsTail) (hw : w ∈ trailing)
    (hline : endsWithLineEnd w.bytes = true) : EndsLine trailing := by
  rw [Option.mem_def.mp hw]
  exact (htail w hw).endsWithLineEnd_iff.mp hline

/-- Where the line has ended, only more line ends would belong to it. -/
theorem Fragment.EndsLine.tailBefore {trailing : Option Fragment} (hends : EndsLine trailing)
    (htail : ∀ f ∈ trailing, f.IsTail) (hrest : lineEnds.Stops rest) :
    TailBefore trailing rest :=
  ⟨htail, fun _ => hrest, fun hnot => absurd hends hnot⟩

/-- A comment that ends its line leads all that does not go on with line ends. -/
theorem Node.WellFormed.leads_of_endsLine {n : Node} {w : Fragment} (hn : n.WellFormed)
    (hw : w ∈ n.trailing?) (hline : endsWithLineEnd w.bytes = true) (hrest : lineEnds.Stops rest) :
    n.Leads dialect rest := by
  cases n with
  | line comment =>
    have hends : Fragment.EndsLine comment.trailing :=
      Fragment.endsLine_of_mem hn.trailing hw hline
    exact .line ⟨hn, hends.tailBefore hn.trailing hrest, .inl hends⟩
  | block comment =>
    have hends : Fragment.EndsLine comment.trailing :=
      Fragment.endsLine_of_mem hn.trailing hw hline
    exact .block ⟨hn, hends.tailBefore hn.trailing hrest⟩
  | space _ => cases hw

/-! ### Derivations -/

/-- A canonical list stands in front of all that its last node leads. -/
theorem Canonical.derives_append (h : Canonical nodes)
    (hd : ∀ n ∈ nodes, n.isSpace = true → dialect.looseWhitespace = true)
    (hlast : ∀ n ∈ nodes.getLast?, n.Leads dialect rest) (hrest : Derives dialect rest nodes' e) :
    Derives dialect (Node.sources nodes ++ rest) (nodes ++ nodes') e := by
  induction nodes with
  | nil => exact hrest
  | cons n nodes ih =>
    obtain ⟨hwell, hchain⟩ := h
    rw [List.forall_mem_cons] at hwell hd
    rw [List.isChain_cons] at hchain
    rw [Node.sources_cons, List.append_assoc, List.cons_append]
    cases nodes with
    | nil => exact .node (hlast n rfl) hrest
    | cons m nodes =>
      -- between two nodes only what the next one begins with counts
      have hm : m.WellFormed := hwell.2 m List.mem_cons_self
      refine .node ?_ (ih ⟨hwell.2, hchain.2⟩ hd.2 hlast)
      rw [Node.sources_cons, List.append_assoc]
      exact (Node.leads_source_iff hm hd.1).mpr ⟨hwell.1, hchain.1 m rfl⟩

/-- Behind a source that ends a line, another one is read as it is by itself. -/
theorem Derives.append (ha : Derives dialect a nodes (.stopped []))
    (hline : Node.LastEndsLine nodes) (hstop : lineEnds.Stops b)
    (hb : Derives dialect b nodes' e) : Derives dialect (a ++ b) (nodes ++ nodes') e := by
  obtain ⟨n, hn, w, hw, hends⟩ := hline
  have hsource : Node.sources nodes = a := by
    rw [← ha.sources_append, List.append_nil]
  have hcanonical : Canonical nodes := ha.canonical
  rw [← hsource]
  refine hcanonical.derives_append ha.looseWhitespace (fun n' hn' => ?_) hb
  obtain rfl := Option.some.inj ((Option.mem_def.mp hn).symm.trans hn')
  exact (hcanonical.wellFormed n (List.mem_of_getLast? hn)).leads_of_endsLine hw hends hstop

theorem derives_of_ofSource {name : String} {file : File}
    (h : (File.ofSource .lossless name a).value = .ok file) :
    Derives .lossless a file.nodes (.stopped []) ∧ file.hasComment = true := by
  obtain ⟨-, hbody, rest, hderives, hwhole⟩ := Grammar.fileFrom_eq_ok_iff.mp h
  obtain rfl : rest = [] := hwhole rfl
  exact ⟨hderives, hbody⟩

/-- Whitespace by itself is one node. -/
theorem derives_whitespace (hne : b ≠ []) (hb : whitespace.Spans b) :
    Derives .lossless b [.space ⟨b⟩] (.stopped []) := by
  have hcanonical : Canonical [.space ⟨b⟩] :=
    ⟨List.forall_mem_singleton.mpr ⟨hne, hb⟩, .singleton _⟩
  have hderives : Derives .lossless (Node.sources [.space ⟨b⟩]) [.space ⟨b⟩] (.stopped []) :=
    hcanonical.derives fun _ _ _ => rfl
  rwa [Node.sources_cons, Node.sources_nil, List.append_nil] at hderives

/-! ### Outcomes -/

/-- What becomes of both sources, by what becomes of the second one.  There is a comment
in the first one, so it is no matter if there is none in the second. -/
theorem Ending.verdict_append {before : List Node} (hbefore : before.any (!·.isSpace) = true)
    (e : Ending) (nodes : List Node) (right name : String) (x l k : Nat) :
    (e.verdict .lossless right nodes x l = .ok ⟨right, nodes⟩ ∧
      e.verdict .lossless name (before ++ nodes) (k + x) (k + l) = .ok ⟨name, before ++ nodes⟩) ∨
    (∃ code, (code = .trailingInput ∨ code = .unclosedBlock) ∧
      e.verdict .lossless right nodes x l = .error (.diagnosed (.located code x l)) ∧
      e.verdict .lossless name (before ++ nodes) (k + x) (k + l)
        = .error (.diagnosed (.located code (k + x) (k + l)))) ∨
    e.verdict .lossless right nodes x l = .error (.diagnosed (.located .missingBody x x)) := by
  have hany : (before ++ nodes).any (!·.isSpace) = true := by
    rw [List.any_append, hbefore, Bool.true_or]
  cases e with
  | unclosed _ => exact .inr (.inl ⟨.unclosedBlock, .inr rfl, rfl, rfl⟩)
  | stopped rest =>
    by_cases hbody : nodes.any (!·.isSpace) = false
    · exact .inr (.inr (if_pos hbody))
    · simp only [verdict, if_neg hbody, hany, Bool.true_eq_false, if_false]
      by_cases hleft : Dialect.lossless.wholeSource = true ∧ rest ≠ []
      · rw [if_pos hleft, if_pos hleft]
        exact .inr (.inl ⟨.trailingInput, .inl rfl, rfl, rfl⟩)
      · rw [if_neg hleft, if_neg hleft]
        exact .inl ⟨rfl, rfl⟩

/-- The outcomes of the second source and of both, read off one derivation. -/
theorem ofSource_append_cases {left : String} {file : File}
    (ha : (File.ofSource .lossless left a).value = .ok file) (hline : Node.LastEndsLine file.nodes)
    (hstop : lineEnds.Stops b) (right name : String) :
    (∃ nodes, (File.ofSource .lossless right b).value = .ok ⟨right, nodes⟩ ∧
      (File.ofSource .lossless name (a ++ b)).value = .ok ⟨name, file.nodes ++ nodes⟩) ∨
    (∃ code x, (code = .trailingInput ∨ code = .unclosedBlock) ∧ x ≤ b.length ∧
      (File.ofSource .lossless right b).value
        = .error (.diagnosed (.located code x b.length)) ∧
      (File.ofSource .lossless name (a ++ b)).value
        = .error (.diagnosed (.located code (a.length + x) (a.length + b.length)))) ∨
    (∃ x, (File.ofSource .lossless right b).value
      = .error (.diagnosed (.located .missingBody x x))) := by
  obtain ⟨hderives, hbody⟩ := derives_of_ofSource ha
  obtain ⟨nodes, e, hb⟩ := exists_derives .lossless b
  obtain ⟨x, hx, hrest, hvalue⟩ := ofSource_of_derives hb right
  obtain ⟨y, hy, hrest', hvalue'⟩ := ofSource_of_derives (hderives.append hline hstop hb) name
  -- both end before the same bytes, so their offsets differ by the length of the first source
  have hoffset : y = a.length + x := by
    have hlength := congrArg List.length (hrest'.trans hrest.symm)
    rw [List.length_append] at hy
    rw [List.length_drop, List.length_drop, List.length_append] at hlength
    omega
  rw [hvalue, hvalue', hoffset, List.length_append]
  rcases Ending.verdict_append hbody e nodes right name x b.length a.length with
    ⟨hright, hboth⟩ | ⟨code, hcode, hright, hboth⟩ | hright
  · exact .inl ⟨nodes, hright, hboth⟩
  · exact .inr (.inl ⟨code, x, hcode, hx, hright, hboth⟩)
  · exact .inr (.inr ⟨x, hright⟩)

/-- **Concatenation**: let the first source be a file of the lossless dialect that ends a
line, and let the second one begin with no line end.  If the second is a file, the nodes
of both follow one another.  If it is whitespace, it is one more node.  If it fails behind
a comment or in a block comment that is left open, both fail so, and the range has moved
by the length of the first source. -/
theorem ofSource_append {left : String} {file : File}
    (ha : (File.ofSource .lossless left a).value = .ok file) (hline : Node.LastEndsLine file.nodes)
    (hne : b ≠ []) (hstop : lineEnds.Stops b) (right name : String) :
    (∀ file', (File.ofSource .lossless right b).value = .ok file' →
      (File.ofSource .lossless name (a ++ b)).value = .ok ⟨name, file.nodes ++ file'.nodes⟩) ∧
    (whitespace.Spans b →
      (File.ofSource .lossless name (a ++ b)).value
        = .ok ⟨name, file.nodes ++ [.space ⟨b⟩]⟩) ∧
    ∀ code, (code = .trailingInput ∨ code = .unclosedBlock) →
      (FailsWith (File.ofSource .lossless right b).value code →
        FailsWith (File.ofSource .lossless name (a ++ b)).value code) ∧
      (a.length + b.length < UInt32.size → ∀ s t,
        FailsAt (File.ofSource .lossless right b).value code s t →
        FailsAt (File.ofSource .lossless name (a ++ b)).value code (a.length + s)
          (a.length + t)) := by
  refine ⟨fun file' hb => ?_, fun hspace => ?_, fun code hcode => ?_⟩
  · rcases ofSource_append_cases ha hline hstop right name with
      ⟨nodes, hright, hboth⟩ | ⟨_, _, _, _, hright, _⟩ | ⟨_, hright⟩
    · obtain rfl := Except.ok.inj (hright.symm.trans hb)
      exact hboth
    · cases hright.symm.trans hb
    · cases hright.symm.trans hb
  · obtain ⟨hderives, hbody⟩ := derives_of_ofSource ha
    have hboth := hderives.append hline hstop (derives_whitespace hne hspace)
    exact Grammar.fileFrom_eq_ok_iff.mpr
      ⟨rfl, File.hasComment_append hbody name _, [], hboth, fun _ => rfl⟩
  · rcases ofSource_append_cases ha hline hstop right name with
      ⟨nodes, hright, -⟩ | ⟨code', x, -, hx, hright, hboth⟩ | ⟨x, hright⟩
    · rw [hright]
      exact ⟨fun h => absurd h not_failsWith_ok, fun _ s t h => absurd h not_failsAt_ok⟩
    · rw [hright, hboth]
      refine ⟨fun h => failsWith_located.mpr (failsWith_located.mp h), fun hsize s t h => ?_⟩
      rw [failsAt_located (by omega) (by omega)] at h
      obtain ⟨rfl, rfl, rfl⟩ := h
      exact (failsAt_located (by omega) hsize).mpr ⟨rfl, rfl, rfl⟩
    · rw [hright]
      -- a file without a comment is none of the two failures
      have hother : Code.missingBody ≠ code := by
        rcases hcode with rfl | rfl
        · decide
        · decide
      refine ⟨fun h => absurd (failsWith_located.mp h) hother, fun _ s t h => ?_⟩
      obtain ⟨d, -, hd, hcode', -⟩ := h
      exact absurd (failsWith_located.mp ⟨d, hd, hcode'⟩) hother

/-- Behind a line comment, a blank line with a block comment, and a block comment that is
left open. -/
theorem ofSource_append_to_line :
    let a : Bytes := [0x2f, 0x2f, 0x0d, 0x0a]
    let closed : Bytes := [0x20, 0x0a, 0x2f, 0x2a, 0x2a, 0x2f]
    let unclosed : Bytes := [0x20, 0x2f, 0x2a]
    let line : Node := .line ⟨none, none, [], some ⟨[0x0d, 0x0a]⟩⟩
    let nodes : List Node := [.space ⟨[0x20, 0x0a]⟩, .block ⟨none, [], none⟩]
    (File.ofSource .lossless "a" a).value = .ok ⟨"a", [line]⟩ ∧
      (File.ofSource .lossless "b" closed).value = .ok ⟨"b", nodes⟩ ∧
      (File.ofSource .lossless "c" (a ++ closed)).value = .ok ⟨"c", line :: nodes⟩ ∧
      FailsAt (File.ofSource .lossless "b" unclosed).value .unclosedBlock 1 3 ∧
      FailsAt (File.ofSource .lossless "c" (a ++ unclosed)).value .unclosedBlock 5 7 := by
  intro a closed unclosed line nodes
  have ha : (File.ofSource .lossless "a" a).value = .ok ⟨"a", [line]⟩ := by decide +kernel
  have hclosed : (File.ofSource .lossless "b" closed).value = .ok ⟨"b", nodes⟩ := by
    decide +kernel
  have hvalue : (File.ofSource .lossless "b" unclosed).value
      = .error (.diagnosed (.located .unclosedBlock 1 3)) := by decide +kernel
  have hfails : FailsAt (File.ofSource .lossless "b" unclosed).value .unclosedBlock 1 3 := by
    rw [hvalue]
    exact (failsAt_located (by decide) (by decide)).mpr ⟨rfl, rfl, rfl⟩
  have hline : Node.LastEndsLine [line] := ⟨line, rfl, _, rfl, by decide⟩
  obtain ⟨hfile, -, -⟩ := ofSource_append ha hline (List.cons_ne_nil _ _ : closed ≠ [])
    (stops_cons.mpr (by decide)) "b" "c"
  obtain ⟨-, -, hfail⟩ := ofSource_append ha hline (List.cons_ne_nil _ _ : unclosed ≠ [])
    (stops_cons.mpr (by decide)) "b" "c"
  have hrange := (hfail .unclosedBlock (.inr rfl)).2 (by decide) 1 3 hfails
  exact ⟨ha, hclosed, hfile _ hclosed, hfails, hrange⟩

end Trivia

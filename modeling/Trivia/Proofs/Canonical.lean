/-
Trivia/Proofs/Canonical.lean

The node lists that reading gives are the canonical ones.

A list of nodes is canonical if every node is well formed by itself and no node
would take bytes of the next one, or leave some to it.  The second part is a
relation of neighbours (`Node.Adjoins`), and it is exact: a node leads the
source of the next one if and only if the two adjoin (`leads_source_iff`).  So
both directions are inductions along the list: a derivation gives a canonical
list (`Derives.canonical`), and the source of a canonical list derives it
(`Canonical.derives`).
-/
import Trivia.Proofs.RoundTrip
import Mathlib.Data.List.Chain

namespace Trivia

open ByteSet

variable {source : Bytes} {dialect : Dialect} {rest : Bytes}

/-! ### Neighbours -/

namespace Node

/-- A comment with nothing before its marker. -/
def IsFlush : Node → Prop
  | line comment => comment.indent = none
  | block comment => comment.indent = none
  | space _ => False

/-- Behind a comment whitespace begins with a blank: a line end there would belong to
the comment. -/
def FollowsComment : Node → Prop
  | line _ | block _ => True
  | space w => ∀ b ∈ w.bytes.head?, blanks.contains b = true

instance : DecidablePred IsFlush
  | line comment => inferInstanceAs (Decidable (comment.indent = none))
  | block comment => inferInstanceAs (Decidable (comment.indent = none))
  | space _ => inferInstanceAs (Decidable False)

instance : DecidablePred FollowsComment
  | line _ | block _ => inferInstanceAs (Decidable True)
  | space w => Option.decidableForallMem w.bytes.head?

/-- The second node may stand right behind the first.  A line comment has to end its
line.  A block comment that does not, and whitespace, leave no blanks and no
whitespace to what comes next, and whitespace without a line end would be the indent
of a comment. -/
def Adjoins : Node → Node → Prop
  | line comment, next => Fragment.EndsLine comment.trailing ∧ next.FollowsComment
  | block comment, next =>
    (¬ Fragment.EndsLine comment.trailing → next.IsFlush) ∧ next.FollowsComment
  | space w, next => w.hasLineEnd = true ∧ next.IsFlush

instance : DecidableRel Adjoins
  | line comment, next =>
    inferInstanceAs (Decidable (Fragment.EndsLine comment.trailing ∧ next.FollowsComment))
  | block comment, next =>
    inferInstanceAs (Decidable
      ((¬ Fragment.EndsLine comment.trailing → next.IsFlush) ∧ next.FollowsComment))
  | space w, next => inferInstanceAs (Decidable (w.hasLineEnd = true ∧ next.IsFlush))

end Node

/-- Nodes that are well formed, each adjoining the next. -/
@[mk_iff]
structure Canonical (nodes : List Node) : Prop where
  wellFormed : ∀ n ∈ nodes, n.WellFormed
  adjoins : nodes.IsChain Node.Adjoins

instance (nodes : List Node) : Decidable (Canonical nodes) :=
  decidable_of_iff' _ (canonical_iff nodes)

-- A blank before a comment is its indent, and no node of its own.
example : ¬ Canonical [.space ⟨[0x20]⟩, .line ⟨none, none, [0x61], none⟩] := by decide

/-! ### How sources begin -/

namespace Fragment

variable {w : Option Fragment} {marker : Bytes}

theorem OfRun.stops_lineEnds (hw : OfRun blanks w) (hmarker : lineEnds.Stops marker) :
    lineEnds.Stops (source? w ++ marker) := by
  rcases w with - | f
  · exact hmarker
  · obtain ⟨hne, hspans⟩ := hw f rfl
    obtain ⟨b, bytes, hbytes⟩ := List.exists_cons_of_ne_nil hne
    rw [hbytes] at hspans
    rw [source?, hbytes]
    exact stops_cons.mpr (lineEnds_of_blanks (spans_cons.mp hspans).1)

theorem OfRun.stops_whitespace_iff (hw : OfRun blanks w) (hmarker : whitespace.Stops marker) :
    whitespace.Stops (source? w ++ marker) ↔ w = none := by
  rcases w with - | f
  · exact iff_of_true hmarker rfl
  · obtain ⟨hne, hspans⟩ := hw f rfl
    obtain ⟨b, bytes, hbytes⟩ := List.exists_cons_of_ne_nil hne
    rw [hbytes] at hspans
    rw [source?, hbytes, List.cons_append, stops_cons, contains_whitespace,
      (spans_cons.mp hspans).1]
    simp

/-- No comment opens with whitespace. -/
theorem not_opensComment_cons {b : UInt8} (hb : whitespace.contains b = true) (bytes : Bytes) :
    ¬ OpensComment (b :: bytes) := by
  rintro (h | h)
  · rw [(List.cons_prefix_cons.mp h).1.symm] at hb
    revert hb
    decide
  · rw [(List.cons_prefix_cons.mp h).1.symm] at hb
    revert hb
    decide

/-- Whitespace hides the comment behind it exactly where it holds a line end. -/
theorem opensComment_iff {f : Fragment} (hf : f.Proper) (hrest : whitespace.Stops rest) :
    OpensComment ((f.bytes ++ rest).dropWhile blanks.contains) ↔
      f.hasLineEnd = false ∧ OpensComment rest := by
  obtain ⟨pad, more, hbytes, hpad, hmore⟩ := exists_run blanks f.bytes
  rw [hasLineEnd, hbytes]
  cases more with
  | nil =>
    -- blanks only: they are all dropped, and `rest` is what is looked at
    have hany : (pad ++ []).any lineEnds.contains = false := by
      rw [List.append_nil, List.any_eq_false]
      intro b hb
      simp [lineEnds_of_blanks (hpad b hb)]
    rw [hany, List.append_nil, dropWhile_of_spans hpad (stops_whitespace.mp hrest).1]
    simp
  | cons b more =>
    -- the first byte that is no blank is a line end, which begins no comment
    have hspace : whitespace.contains b = true := hf.2 b (by simp [hbytes])
    have hline : lineEnds.contains b = true := by
      rwa [contains_whitespace, stops_cons.mp hmore, Bool.false_or] at hspace
    have hstop : blanks.Stops (b :: more ++ rest) := stops_cons.mpr (stops_cons.mp hmore)
    have hany : (pad ++ b :: more).any lineEnds.contains = true := by simp [hline]
    rw [hany, List.append_assoc, dropWhile_of_spans hpad hstop]
    exact iff_of_false (not_opensComment_cons hspace _) (fun h => Bool.noConfusion h.1)

end Fragment

namespace Node

variable {n m : Node}

theorem IsFlush.followsComment (h : m.IsFlush) : m.FollowsComment := by
  cases m with
  | line _ => trivial
  | block _ => trivial
  | space _ => exact h.elim

theorem stops_lineEnds_iff (hm : m.WellFormed) :
    lineEnds.Stops m.source ↔ m.FollowsComment := by
  cases m with
  | line comment =>
    refine iff_of_true ?_ trivial
    simp only [Node.source, LineComment.source, List.append_assoc]
    exact hm.indent.stops_lineEnds (stops_cons.mpr (by decide))
  | block comment =>
    refine iff_of_true ?_ trivial
    simp only [Node.source, BlockComment.source, List.append_assoc]
    exact hm.indent.stops_lineEnds (stops_cons.mpr (by decide))
  | space w =>
    obtain ⟨b, bytes, hbytes⟩ := List.exists_cons_of_ne_nil hm.1
    have hspace : whitespace.contains b = true := hm.2 b (by simp [hbytes])
    rw [contains_whitespace, Bool.or_eq_true] at hspace
    simp only [Node.source, FollowsComment, hbytes, stops_cons, List.head?_cons, Option.mem_def,
      Option.some.injEq, forall_eq']
    constructor
    · intro hline
      exact hspace.resolve_right (by simp [hline])
    · exact lineEnds_of_blanks

theorem stops_whitespace_iff (hm : m.WellFormed) : whitespace.Stops m.source ↔ m.IsFlush := by
  cases m with
  | line comment =>
    simp only [Node.source, LineComment.source, List.append_assoc]
    exact hm.indent.stops_whitespace_iff (stops_cons.mpr (by decide))
  | block comment =>
    simp only [Node.source, BlockComment.source, List.append_assoc]
    exact hm.indent.stops_whitespace_iff (stops_cons.mpr (by decide))
  | space w =>
    obtain ⟨b, bytes, hbytes⟩ := List.exists_cons_of_ne_nil hm.1
    refine iff_of_false ?_ id
    rw [Node.source, hbytes, stops_cons, hm.2 b (by simp [hbytes])]
    exact fun h => Bool.noConfusion h

theorem IsFlush.opensComment (h : m.IsFlush) (rest : Bytes) : OpensComment (m.source ++ rest) := by
  cases m with
  | line comment =>
    have hindent : comment.indent = none := h
    left
    simp only [Node.source, LineComment.source, hindent, Fragment.source?, List.nil_append,
      List.append_assoc]
    exact List.prefix_append _ _
  | block comment =>
    have hindent : comment.indent = none := h
    right
    simp only [Node.source, BlockComment.source, hindent, Fragment.source?, List.nil_append,
      List.append_assoc]
    exact List.prefix_append _ _
  | space _ => exact h.elim

/-! ### Leading the next node -/

theorem leads_nil_iff (hd : n.isSpace = true → dialect.looseWhitespace = true) :
    n.Leads dialect [] ↔ n.WellFormed := by
  refine ⟨Leads.wellFormed, fun h => ?_⟩
  cases n with
  | line comment =>
    exact .line ⟨h, ⟨h.trailing, fun _ => stops_nil, fun _ => stops_nil⟩, .inr rfl⟩
  | block comment => exact .block ⟨h, ⟨h.trailing, fun _ => stops_nil, fun _ => stops_nil⟩⟩
  | space w =>
    refine .space (hd rfl) h stops_nil ?_
    rw [Fragment.opensComment_iff h stops_nil]
    exact fun hopens => not_opensComment_nil hopens.2

/-- A node leads the source of the next one exactly where the two adjoin. -/
theorem leads_source_iff (hm : m.WellFormed)
    (hd : n.isSpace = true → dialect.looseWhitespace = true) :
    n.Leads dialect (m.source ++ rest) ↔ n.WellFormed ∧ n.Adjoins m := by
  have hne : m.source ≠ [] := hm.source_ne_nil
  have hends : lineEnds.Stops (m.source ++ rest) ↔ m.FollowsComment := by
    rw [ByteSet.stops_append hne, stops_lineEnds_iff hm]
  have hspace : whitespace.Stops (m.source ++ rest) ↔ m.IsFlush := by
    rw [ByteSet.stops_append hne, stops_whitespace_iff hm]
  have hnil : m.source ++ rest ≠ [] := by simp [hne]
  constructor
  · intro h
    refine ⟨h.wellFormed, ?_⟩
    cases h with
    | line h =>
      have hline := h.endsLine_or_nil.resolve_right hnil
      exact ⟨hline, hends.mp (h.tail.stops_of_endsLine hline)⟩
    | @block comment _ h =>
      refine ⟨fun hline => hspace.mp (h.tail.stops_of_not hline), ?_⟩
      by_cases hline : Fragment.EndsLine comment.trailing
      · exact hends.mp (h.tail.stops_of_endsLine hline)
      · exact (hspace.mp (h.tail.stops_of_not hline)).followsComment
    | @space w _ _ hw hrest hopens =>
      -- without a line end the whitespace would be the indent of the comment behind it
      have hflush : m.IsFlush := hspace.mp hrest
      refine ⟨?_, hflush⟩
      rw [Fragment.opensComment_iff hw hrest] at hopens
      by_contra hline
      exact hopens ⟨Bool.not_eq_true _ ▸ hline, hflush.opensComment rest⟩
  · rintro ⟨h, hadj⟩
    cases n with
    | line comment =>
      refine .line ⟨h, ⟨h.trailing, fun _ => hends.mpr hadj.2, ?_⟩, .inl hadj.1⟩
      exact fun hline => absurd hadj.1 hline
    | block comment =>
      exact .block ⟨h, ⟨h.trailing, fun _ => hends.mpr hadj.2, fun hline =>
        hspace.mpr (hadj.1 hline)⟩⟩
    | space w =>
      have hrest : whitespace.Stops (m.source ++ rest) := hspace.mpr hadj.2
      refine .space (hd rfl) h hrest ?_
      rw [Fragment.opensComment_iff h hrest, hadj.1]
      exact fun hopens => Bool.noConfusion hopens.1

end Node

/-! ### Derivations and canonical lists -/

/-- What is derived is canonical. -/
theorem Derives.canonical {bytes : Bytes} {nodes : List Node} {e : Ending}
    (h : Derives dialect bytes nodes e) : Canonical nodes := by
  induction h with
  | stop _ => exact ⟨List.forall_mem_nil _, .nil⟩
  | unclosed _ _ => exact ⟨List.forall_mem_nil _, .nil⟩
  | node hn htail ih =>
    refine ⟨List.forall_mem_cons.mpr ⟨hn.wellFormed, ih.wellFormed⟩, ih.adjoins.cons ?_⟩
    intro m hm
    cases htail with
    | stop _ => cases hm
    | unclosed _ _ => cases hm
    | node hm' _ =>
      obtain rfl := Option.some.inj hm
      exact ((Node.leads_source_iff hm'.wellFormed hn.looseWhitespace).mp hn).2

theorem Derives.looseWhitespace {bytes : Bytes} {nodes : List Node} {e : Ending}
    (h : Derives dialect bytes nodes e) :
    ∀ n ∈ nodes, n.isSpace = true → dialect.looseWhitespace = true := by
  induction h with
  | stop _ => exact List.forall_mem_nil _
  | unclosed _ _ => exact List.forall_mem_nil _
  | node hn _ ih => exact List.forall_mem_cons.mpr ⟨hn.looseWhitespace, ih⟩

theorem stray_nil (dialect : Dialect) : Stray dialect [] :=
  ⟨not_opensComment_nil, fun _ => stops_nil⟩

/-- What is canonical is derived from its source. -/
theorem Canonical.derives {nodes : List Node} (h : Canonical nodes)
    (hd : ∀ n ∈ nodes, n.isSpace = true → dialect.looseWhitespace = true) :
    Derives dialect (Node.sources nodes) nodes (.stopped []) := by
  induction nodes with
  | nil => exact .stop (stray_nil dialect)
  | cons n nodes ih =>
    obtain ⟨hwell, hchain⟩ := h
    rw [List.forall_mem_cons] at hwell hd
    rw [List.isChain_cons] at hchain
    refine .node ?_ (ih ⟨hwell.2, hchain.2⟩ hd.2)
    cases nodes with
    | nil => exact (Node.leads_nil_iff hd.1).mpr hwell.1
    | cons m nodes =>
      have hm : m.WellFormed := hwell.2 m List.mem_cons_self
      exact (Node.leads_source_iff hm hd.1).mpr ⟨hwell.1, hchain.1 m rfl⟩

/-- A line comment that does not end its line ends the source. -/
theorem Derives.nil_of_open_line {bytes : Bytes} {before after : List Node}
    {comment : LineComment}
    (h : Derives dialect bytes (before ++ .line comment :: after) (.stopped rest))
    (hline : ¬ Fragment.EndsLine comment.trailing) : after = [] ∧ rest = [] := by
  induction before generalizing bytes with
  | nil =>
    rw [List.nil_append] at h
    cases h with
    | node hn htail =>
      cases hn with
      | line hn =>
        obtain rfl := hn.endsLine_or_nil.resolve_left hline
        obtain ⟨hafter, hrest⟩ := htail.of_nil
        exact ⟨hafter, Ending.stopped.inj hrest⟩
  | cons n before ih =>
    rw [List.cons_append] at h
    cases h with
    | node _ htail => exact ih htail

/-! ### Files -/

/-- **Every file is canonical**, wherever it starts and whatever the dialect.  Loose
whitespace is in it only where the dialect has it, and a line comment that does not
end its line is its last node, with the end of the source behind it. -/
theorem fileFrom_canonical {start : Position source} {name : String} {file : File}
    (h : ((Grammar.ofDialect dialect).fileFrom dialect name start).value = .ok file) :
    Canonical file.nodes ∧ file.hasComment = true ∧
      (∀ n ∈ file.nodes, n.isSpace = true → dialect.looseWhitespace = true) ∧
      ∀ before comment after, file.nodes = before ++ .line comment :: after →
        ¬ Fragment.EndsLine comment.trailing → after = [] ∧ file.source = start.rest := by
  obtain ⟨-, hbody, rest, hderives, -⟩ := Grammar.fileFrom_eq_ok_iff.mp h
  refine ⟨hderives.canonical, hbody, hderives.looseWhitespace, ?_⟩
  intro before comment after hnodes hline
  have hsource : file.source ++ rest = start.rest := hderives.sources_append
  rw [hnodes] at hderives
  obtain ⟨hafter, rfl⟩ := hderives.nil_of_open_line hline
  exact ⟨hafter, by rw [← hsource, List.append_nil]⟩

/-- A blank line, a block comment and a line comment that ends with the source. -/
theorem fileFrom_canonical_of_open_line :
    let source : Bytes := [0x0a, 0x2f, 0x2a, 0x78, 0x2a, 0x2f, 0x20, 0x2f, 0x2f, 0x61]
    let file : File := ⟨"a", [.space ⟨[0x0a]⟩, .block ⟨none, [0x78], some ⟨[0x20]⟩⟩,
      .line ⟨none, none, [0x61], none⟩]⟩
    ((Grammar.ofDialect .lossless).fileFrom .lossless "a" (Position.start source)).value
        = .ok file ∧
      Canonical file.nodes ∧ file.hasComment = true ∧ file.source = source := by
  intro source file
  have h : ((Grammar.ofDialect .lossless).fileFrom .lossless "a" (Position.start source)).value
      = .ok file := by decide +kernel
  obtain ⟨hcanonical, hcomment, -, hopen⟩ := fileFrom_canonical h
  have hline : ¬ Fragment.EndsLine none := by
    rintro ⟨f, hf, -⟩
    cases hf
  exact ⟨h, hcanonical, hcomment, (hopen [_, _] _ [] rfl hline).2⟩

/-- **Writing and reading**: the source of a canonical list with a comment in it is
read as that list, under any name and in any dialect that has its whitespace. -/
theorem ofSource_sources {nodes : List Node} (h : Canonical nodes)
    (hbody : ∃ n ∈ nodes, n.isSpace = false)
    (hd : ∀ n ∈ nodes, n.isSpace = true → dialect.looseWhitespace = true) (name : String) :
    (File.ofSource dialect name (Node.sources nodes)).value = .ok ⟨name, nodes⟩ := by
  have hcomment : (⟨name, nodes⟩ : File).hasComment = true := by
    obtain ⟨n, hn, hspace⟩ := hbody
    exact List.any_eq_true.mpr ⟨n, hn, by rw [hspace]; rfl⟩
  exact Grammar.fileFrom_eq_ok_iff.mpr ⟨rfl, hcomment, [], h.derives hd, fun _ => rfl⟩

/-- Two comments with a blank line between them. -/
theorem ofSource_sources_pair :
    let nodes : List Node := [.block ⟨none, [0x78], some ⟨[0x0a]⟩⟩, .space ⟨[0x20, 0x0a]⟩,
      .line ⟨none, some ⟨[0x20]⟩, [0x61], none⟩]
    Canonical nodes ∧
      (File.ofSource .lossless "a" (Node.sources nodes)).value = .ok ⟨"a", nodes⟩ := by
  intro nodes
  have h : Canonical nodes := by decide
  have hbody : ∃ n ∈ nodes, n.isSpace = false := ⟨_, List.mem_cons_self, rfl⟩
  exact ⟨h, ofSource_sources h hbody (fun _ _ _ => rfl) "a"⟩

end Trivia

/-
Trivia/Proofs/Locations.lean

Where a file fails.

A parse fails in one of three ways, and each is located by other offsets: a block
comment that is never closed by its opening marker, behind the indent that was passed
over to find it; bytes left over by the place where the nodes end; and a missing
comment by that place alone.  `Failure.Located` says for each what stands at these
offsets and before them, in terms of the source.

An extent has 32 bits a side, so a diagnostic beyond them has none.  Since the start
of a range is never behind its stop, it is the stop alone that decides
(`Diagnostic.covers_located`), and an extent that is there is exact.
-/
import Trivia.Proofs.Canonical

namespace Trivia

open ByteSet

variable {source : Bytes} {c d start : Position source} {dialect : Dialect}

/-! ### Extents of diagnostics -/

/-- The extent of the diagnostic is the range from `a` up to `b`, and there is none
only where 32 bits do not hold the range. -/
structure Diagnostic.Covers (e : Diagnostic) (a b : Nat) : Prop where
  extent_eq_none_iff : e.extent? = none ↔ UInt32.size ≤ b
  offsets : ∀ s ∈ e.extent?, s.offsets = (a, b)
  length : ∀ s ∈ e.extent?, ∃ n : UInt32, s.length? = some n ∧ n.toNat = b - a

theorem Extent.length?_of_offsets {s : Extent} {a b : Nat} (h : s.offsets = (a, b))
    (hab : a ≤ b) : ∃ n : UInt32, s.length? = some n ∧ n.toNat = b - a := by
  obtain ⟨rfl, rfl⟩ := Prod.mk.inj h
  have hle : s.start ≤ s.stop := UInt32.le_iff_toNat_le.mpr hab
  exact ⟨s.stop - s.start, if_pos hle, UInt32.toNat_sub_of_le _ _ hle⟩

theorem Diagnostic.covers_located (code : Code) {a b : Nat} (hab : a ≤ b) :
    (located code a b).Covers a b := by
  by_cases hb : b < UInt32.size
  · obtain ⟨s, hextent, hoffsets⟩ := exists_extent_located code (Nat.lt_of_le_of_lt hab hb) hb
    refine ⟨?_, ?_, ?_⟩
    · rw [hextent]
      exact iff_of_false (Option.some_ne_none s) (Nat.not_le.mpr hb)
    · rw [hextent]
      rintro s ⟨⟩
      exact hoffsets
    · rw [hextent]
      rintro s ⟨⟩
      exact Extent.length?_of_offsets hoffsets hab
  · have hextent : (located code a b).extent? = none := by
      rw [located, Extent.ofOffsets, if_neg hb]
      split <;> rfl
    refine ⟨?_, ?_, ?_⟩
    · exact iff_of_true hextent (Nat.not_lt.mp hb)
    · rw [hextent]
      rintro s ⟨⟩
    · rw [hextent]
      rintro s ⟨⟩

/-! ### What stands at a place -/

/-- Every rule of the dialect finds its construct absent at an offset, and stays there. -/
def NothingAt (source : Bytes) (dialect : Dialect) (a : Nat) : Prop :=
  ∃ h : a ≤ source.length, ∀ r ∈ (Grammar.ofDialect dialect).rules, ∃ expected,
    r.attempt dialect (Position.seek a h) = .ok ⟨[], .absent expected a⟩ (Position.seek a h)

/-- Why a file from `start` on fails with a code, and the range that shows it. -/
inductive Failure.Located (dialect : Dialect) (start : Position source) : Code → Nat → Nat → Prop
  /-- At `a` a block comment opens that is never closed.  Behind whole nodes and an
  indent it is no part of a comment before it. -/
  | unclosedBlock {a : Nat} {nodes : List Node} {indent : Bytes} :
      BlockComment.opener <+: source.drop a →
      ¬ BlockComment.closer <:+: source.drop (a + 2) →
      (source.take a).drop start.offset = Node.sources nodes ++ indent →
      blanks.Spans indent →
      Derives dialect start.rest nodes (.unclosed (source.drop a)) →
      Located dialect start .unclosedBlock a source.length
  /-- At `a` nothing begins, and bytes are left from there on. -/
  | trailingInput {a : Nat} :
      dialect.wholeSource = true → a < source.length → NothingAt source dialect a →
      Located dialect start .trailingInput a source.length
  /-- At `a` nothing begins, and before it there is whitespace, where the dialect has
  it, and nothing else. -/
  | missingBody {a : Nat} :
      whitespace.Spans ((source.take a).drop start.offset) → NothingAt source dialect a →
      (dialect.looseWhitespace = false → a = start.offset) →
      Located dialect start .missingBody a a

theorem Position.passed_of_rest {run : Bytes} (h : c.rest = run ++ d.rest) :
    (source.take d.offset).drop c.offset = run := by
  rw [Position.offset_of_rest h, List.drop_take, Nat.add_sub_cancel_left, ← c.rest_eq, h,
    List.take_left]

theorem Stray.nothingAt (h : Stray dialect c.rest) : NothingAt source dialect c.offset := by
  refine ⟨c.offset_le, ?_⟩
  rw [Position.seek_offset]
  exact h.absent

/-! ### Nodes without a comment -/

theorem spans_sources_of_no_comment {nodes : List Node} (hwell : ∀ n ∈ nodes, n.WellFormed)
    (h : nodes.any (!·.isSpace) = false) : whitespace.Spans (Node.sources nodes) := by
  induction nodes with
  | nil => exact spans_nil
  | cons n nodes ih =>
    rw [List.forall_mem_cons] at hwell
    rw [List.any_cons, Bool.or_eq_false_iff] at h
    rw [Node.sources_cons, spans_append]
    refine ⟨?_, ih hwell.2 h.2⟩
    cases n with
    | line _ => exact Bool.noConfusion h.1
    | block _ => exact Bool.noConfusion h.1
    | space w => exact hwell.1.2

theorem eq_nil_of_no_comment {nodes : List Node}
    (hd : ∀ n ∈ nodes, n.isSpace = true → dialect.looseWhitespace = true)
    (hloose : dialect.looseWhitespace = false) (h : nodes.any (!·.isSpace) = false) :
    nodes = [] := by
  rw [List.eq_nil_iff_forall_not_mem]
  intro n hn
  have hspace : n.isSpace = true := by simpa using List.any_eq_false.mp h n hn
  rw [hd n hn hspace] at hloose
  cases hloose

/-! ### Failures -/

theorem located_of_unclosed {nodes : List Node} {stop : Position source} {rest : Bytes}
    (h : Derives dialect start.rest nodes (.unclosed rest)) (hstop : stop.rest = rest) :
    Failure.Located dialect start .unclosedBlock stop.offset source.length := by
  subst hstop
  obtain ⟨indent, text, hrest, hindent, htext, hbytes⟩ := h.sources_append_unclosed
  rw [← List.append_assoc] at hbytes
  rw [stop.rest_eq] at hrest
  refine .unclosedBlock ?_ ?_ (Position.passed_of_rest hbytes.symm) hindent ?_
  · rw [hrest]
    exact List.prefix_append _ _
  · rw [← List.drop_drop, hrest]
    exact htext
  · rwa [← stop.rest_eq]

theorem located_of_stopped {nodes : List Node} {stop : Position source} {rest : Bytes}
    (h : Derives dialect start.rest nodes (.stopped rest)) (hstop : stop.rest = rest)
    (hno : nodes.any (!·.isSpace) = false) :
    Failure.Located dialect start .missingBody stop.offset stop.offset := by
  subst hstop
  have hsplit : start.rest = Node.sources nodes ++ stop.rest := h.sources_append.symm
  refine .missingBody ?_ h.stray.nothingAt ?_
  · rw [Position.passed_of_rest hsplit]
    exact spans_sources_of_no_comment h.canonical.wellFormed hno
  · intro hloose
    obtain rfl := eq_nil_of_no_comment h.looseWhitespace hloose hno
    have hrest : stop.rest = start.rest := hsplit.symm
    rw [Position.ext_rest hrest]

theorem Position.offset_le_of_rest {run : Bytes} (h : c.rest = run ++ d.rest) :
    c.offset ≤ d.offset := by
  rw [Position.offset_of_rest h]
  exact Nat.le_add_right _ _

theorem Failure.Located.not_recoverable {code : Code} {a b : Nat}
    (h : Located dialect start code a b) : code.recoverable = false := by
  cases h with
  | unclosedBlock _ _ _ _ _ => rfl
  | trailingInput _ _ _ => rfl
  | missingBody _ _ _ => rfl

/-- **Failures are located**: a file that is not there has a diagnostic, which is about
the source and not about reading it, and never invites another attempt.  It is about a
range behind the start, and tells what stands there. -/
theorem fileFrom_located {name : String} {cause : Failure}
    (h : ((Grammar.ofDialect dialect).fileFrom dialect name start).value = .error cause) :
    ∃ e a b, cause = .diagnosed e ∧ e.cause? = none ∧ e.recoverable = false ∧
      start.offset ≤ a ∧ a ≤ b ∧ b ≤ source.length ∧ e.Covers a b ∧
      Failure.Located dialect start e.code a b := by
  obtain ⟨nodes, ending, hderives⟩ := exists_derives dialect start.rest
  obtain ⟨stop, hstop, hvalue⟩ := Grammar.fileFrom_of_derives hderives name
  have hle : stop.offset ≤ source.length := stop.offset_le
  rw [hvalue] at h
  cases ending with
  | unclosed rest =>
    obtain rfl := Except.error.inj h
    obtain rfl : stop.rest = rest := hstop
    have hlocated := located_of_unclosed hderives rfl
    obtain ⟨indent, text, -, -, -, hbytes⟩ := hderives.sources_append_unclosed
    rw [← List.append_assoc] at hbytes
    exact ⟨_, _, _, rfl, rfl, hlocated.not_recoverable, Position.offset_le_of_rest hbytes.symm, hle,
      Nat.le_refl _, Diagnostic.covers_located _ hle, hlocated⟩
  | stopped rest =>
    have hbytes : start.rest = Node.sources nodes ++ stop.rest := by
      rw [hstop]
      exact hderives.sources_append.symm
    have hstart : start.offset ≤ stop.offset := Position.offset_le_of_rest hbytes
    change (Grammar.finish dialect name ⟨nodes, stop⟩).value = .error cause at h
    rw [Grammar.value_finish] at h
    split_ifs at h with hbody hleft
    · obtain rfl := Except.error.inj h
      have hlocated := located_of_stopped hderives hstop hbody
      exact ⟨_, _, _, rfl, rfl, hlocated.not_recoverable, hstart, Nat.le_refl _, hle,
        Diagnostic.covers_located _ (Nat.le_refl _), hlocated⟩
    · obtain rfl := Except.error.inj h
      have hlt : stop.offset < source.length := by
        have hpos : 0 < stop.rest.length := List.length_pos_iff.mpr hleft.2
        rw [Position.length_rest] at hpos
        omega
      have hstray : Stray dialect stop.rest := by
        rw [hstop]
        exact hderives.stray
      have hlocated : Failure.Located dialect start .trailingInput stop.offset source.length :=
        .trailingInput hleft.1 hlt hstray.nothingAt
      exact ⟨_, _, _, rfl, rfl, hlocated.not_recoverable, hstart, hle, Nat.le_refl _,
        Diagnostic.covers_located _ hle, hlocated⟩

/-- Behind a line comment, a block comment that is indented and left open. -/
theorem fileFrom_located_of_open_block :
    let source : Bytes := [0x2f, 0x2f, 0x0a, 0x20, 0x2f, 0x2a, 0x2f]
    let start : Position source := Position.start source
    ∃ e, ((Grammar.ofDialect .base).fileFrom .base "a" start).value = .error (.diagnosed e) ∧
      e.extent? = some ⟨4, 7⟩ ∧ Failure.Located .base start .unclosedBlock 4 7 := by
  intro source start
  have h : ((Grammar.ofDialect .base).fileFrom .base "a" start).value
      = .error (.diagnosed (.located .unclosedBlock 4 7)) := by decide +kernel
  obtain ⟨e, a, b, hcause, -, -, -, -, -, hcovers, hlocated⟩ := fileFrom_located h
  obtain rfl := Failure.diagnosed.inj hcause
  obtain ⟨rfl, rfl⟩ := Prod.mk.inj (hcovers.offsets _ rfl)
  exact ⟨_, h, rfl, hlocated⟩

end Trivia

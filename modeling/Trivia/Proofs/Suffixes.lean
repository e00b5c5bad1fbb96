/-
Trivia/Proofs/Suffixes.lean

Files depend on what is behind their start alone.

Scanners see the bytes from where they stand on, and diagnostics tell offsets in the whole
of the source.  A derivation has the one and not the other, so starts with the same bytes
behind them have the same derivation, and stop as many bytes behind their starts
(`Derives.exists_passed`).  What they come to differs by the offsets of the starts, in the
ranges of diagnostics and nowhere else (`fileFrom_of_rest`).

So a file may be read from the middle of a source as from a source that begins there, and
the range of a diagnostic is to be moved by what was left out (`fileFrom_alone`).
-/
import Trivia.Proofs.Recoding

namespace Trivia

variable {source source' : Bytes} {dialect : Dialect} {start : Position source}
variable {start' : Position source'}

/-! ### Where derivations stop -/

/-- What a derivation leaves is the end of its bytes. -/
theorem Derives.exists_passed {bytes : Bytes} {nodes : List Node} {e : Ending}
    (h : Derives dialect bytes nodes e) : ∃ passed, bytes = passed ++ e.rest := by
  -- the indent of an open comment is passed, its marker is not
  induction h with
  | stop _ => exact ⟨[], rfl⟩
  | @unclosed indent _ _ _ => exact ⟨indent, rfl⟩
  | @node n _ _ _ _ _ ih =>
    obtain ⟨passed, rfl⟩ := ih
    exact ⟨n.source ++ passed, (List.append_assoc _ _ _).symm⟩

/-- Both outcomes are one file, or diagnostics of one range, told from different starts. -/
def SameFrom (o o' length : Nat) (outcome outcome' : Except Failure File) : Prop :=
  (∃ file, outcome = .ok file ∧ outcome' = .ok file) ∨
  ∃ code a b, a ≤ length ∧ b ≤ length ∧
    outcome = .error (.diagnosed (.located code (o + a) (o + b))) ∧
    outcome' = .error (.diagnosed (.located code (o' + a) (o' + b)))

theorem Ending.sameFrom_verdict (e : Ending) (name : String) (nodes : List Node)
    (o o' : Nat) {a length : Nat} (ha : a ≤ length) :
    SameFrom o o' length (e.verdict dialect name nodes (o + a) (o + length))
      (e.verdict dialect name nodes (o' + a) (o' + length)) := by
  cases e with
  | unclosed _ => exact .inr ⟨_, a, length, ha, Nat.le_refl _, rfl, rfl⟩
  | stopped rest =>
    simp only [verdict]
    split_ifs
    · exact .inr ⟨_, a, a, ha, ha, rfl, rfl⟩
    · exact .inr ⟨_, a, length, ha, Nat.le_refl _, rfl, rfl⟩
    · exact .inl ⟨_, rfl, rfl⟩

theorem Position.offset_add_length_rest (c : Position source) :
    c.offset + c.rest.length = source.length := by
  rw [length_rest]
  exact Nat.add_sub_cancel' c.offset_le

/-! ### Files from starts with the same rest -/

theorem fileFrom_of_rest (dialect : Dialect) (name : String) (h : start'.rest = start.rest) :
    SameFrom start.offset start'.offset start.rest.length
      ((Grammar.ofDialect dialect).fileFrom dialect name start).value
      ((Grammar.ofDialect dialect).fileFrom dialect name start').value := by
  -- one derivation for both starts, which passes the same bytes from either
  obtain ⟨nodes, e, hderives⟩ := exists_derives dialect start.rest
  obtain ⟨passed, hpassed⟩ := hderives.exists_passed
  obtain ⟨stop, hstop, hvalue⟩ := fileFrom_verdict hderives name
  obtain ⟨stop', hstop', hvalue'⟩ := fileFrom_verdict (h.symm ▸ hderives) name
  have hoffset : stop.offset = start.offset + passed.length := by
    apply Position.offset_of_rest
    rw [hpassed, hstop]
  have hoffset' : stop'.offset = start'.offset + passed.length := by
    apply Position.offset_of_rest
    rw [h, hpassed, hstop']
  have hle : passed.length ≤ start.rest.length := by
    rw [hpassed, List.length_append]
    exact Nat.le_add_right _ _
  rw [hvalue, hvalue', hoffset, hoffset', ← start.offset_add_length_rest,
    ← start'.offset_add_length_rest, h]
  exact e.sameFrom_verdict name nodes start.offset start'.offset hle

namespace SameFrom

variable {o o' length : Nat} {outcome outcome' : Except Failure File}

theorem eq_ok_iff (h : SameFrom o o' length outcome outcome') (file : File) :
    outcome = .ok file ↔ outcome' = .ok file := by
  rcases h with ⟨file', rfl, rfl⟩ | ⟨code, a, b, -, -, rfl, rfl⟩
  · rfl
  · exact iff_of_false (by rintro ⟨⟩) (by rintro ⟨⟩)

theorem failsWith_iff (h : SameFrom o o' length outcome outcome') (code : Code) :
    FailsWith outcome code ↔ FailsWith outcome' code := by
  rcases h with ⟨file, rfl, rfl⟩ | ⟨code', a, b, -, -, rfl, rfl⟩
  · exact iff_of_false not_failsWith_ok not_failsWith_ok
  · rw [failsWith_located, failsWith_located]

/-- Told from an offset, a range is the one that is told from the start, moved by it. -/
theorem failsAt_iff (h : SameFrom o 0 length outcome outcome') (hsize : o + length < UInt32.size)
    (code : Code) (a b : Nat) :
    FailsAt outcome code a b ↔
      ∃ a' b', FailsAt outcome' code a' b' ∧ a = a' + o ∧ b = b' + o := by
  rcases h with ⟨file, rfl, rfl⟩ | ⟨code', x, y, hx, hy, rfl, rfl⟩
  · refine iff_of_false not_failsAt_ok ?_
    rintro ⟨a', b', h', -⟩
    exact not_failsAt_ok h'
  · -- up to this size offsets are kept as they are
    rw [Nat.zero_add, Nat.zero_add, failsAt_located (by omega) (by omega)]
    constructor
    · rintro ⟨rfl, rfl, rfl⟩
      exact ⟨x, y, (failsAt_located (by omega) (by omega)).mpr ⟨rfl, rfl, rfl⟩, Nat.add_comm o x,
        Nat.add_comm o y⟩
    · rintro ⟨a', b', h', rfl, rfl⟩
      obtain ⟨rfl, rfl, rfl⟩ := (failsAt_located (by omega) (by omega)).mp h'
      exact ⟨rfl, Nat.add_comm o x, Nat.add_comm o y⟩

theorem eq (h : SameFrom o o length outcome outcome') : outcome' = outcome := by
  rcases h with ⟨file, rfl, rfl⟩ | ⟨code, a, b, -, -, rfl, rfl⟩
  · rfl
  · rfl

end SameFrom

/-- **What stands before the start does not matter.**  From a place in a source there is
the file that there is of the bytes behind that place alone.  A failure has the same code,
and its range is moved by the offset of the place.  Hence two sources with the same bytes
behind one offset come to the same from there. -/
theorem fileFrom_alone (dialect : Dialect) (name : String) (start : Position source) :
    let result {source : Bytes} (start : Position source) : Except Failure File :=
      ((Grammar.ofDialect dialect).fileFrom dialect name start).value
    let alone : Position start.rest := Position.start start.rest
    (∀ file, result start = .ok file ↔ result alone = .ok file) ∧
    (∀ code, FailsWith (result start) code ↔ FailsWith (result alone) code) ∧
    (source.length < UInt32.size → ∀ code a b, FailsAt (result start) code a b ↔
      ∃ a' b', FailsAt (result alone) code a' b' ∧
        a = a' + start.offset ∧ b = b' + start.offset) ∧
    ∀ (source' : Bytes) (start' : Position source'), start'.offset = start.offset →
      start'.rest = start.rest → result start' = result start := by
  intro result alone
  have hsame : SameFrom start.offset 0 start.rest.length (result start) (result alone) :=
    fileFrom_of_rest dialect name rfl
  refine ⟨hsame.eq_ok_iff, hsame.failsWith_iff, ?_, ?_⟩
  · intro hsize
    rw [← start.offset_add_length_rest] at hsize
    exact hsame.failsAt_iff hsize
  · intro source' start' hoffset hrest
    have hsame' := fileFrom_of_rest dialect name hrest
    rw [hoffset] at hsame'
    exact hsame'.eq

/-- Behind one byte, whatever it is, a line comment and a block comment that is left
open. -/
theorem fileFrom_alone_behind_byte :
    let text : Bytes := [0x2f, 0x2f, 0x0a, 0x20, 0x2f, 0x2a, 0x2f]
    let result {source : Bytes} (start : Position source) : Except Failure File :=
      ((Grammar.ofDialect .base).fileFrom .base "a" start).value
    let start : Position (0x78 :: text) := Position.seek 1 (by decide)
    let start' : Position (0x79 :: text) := Position.seek 1 (by decide)
    FailsAt (result (Position.start text)) .unclosedBlock 4 7 ∧
      FailsAt (result start) .unclosedBlock 5 8 ∧ result start' = result start := by
  intro text result start start'
  have hvalue : result (Position.start text)
      = .error (.diagnosed (.located .unclosedBlock 4 7)) := by decide +kernel
  have halone : FailsAt (result (Position.start text)) .unclosedBlock 4 7 := by
    rw [hvalue]
    exact (failsAt_located (by decide) (by decide)).mpr ⟨rfl, rfl, rfl⟩
  obtain ⟨-, -, hrange, hsame⟩ := fileFrom_alone .base "a" start
  exact ⟨halone, (hrange (by decide) _ _ _).mpr ⟨4, 7, halone, rfl, rfl⟩,
    hsame _ start' rfl rfl⟩

end Trivia

/-
Trivia/Proofs/LineTails.lean

What remains of a line, as a match of a regular expression.

A scanner takes the blanks at a place and then the line ends behind them.  Of all that comes
there and matches `[ \t]*[\r\n]*`, these two runs are the longest: with fewer blanks than there
are, no line end comes next.  The match is empty exactly where no whitespace comes.  Behind a line
end it holds nothing but line ends, so its last byte tells whether it holds any; where it holds
none, it is followed by a byte that is no whitespace, if by any, and a loop over the line that
goes on behind it passes this byte in its next turn (`Scanner.exists_takesLineTail`).
-/
import Mathlib.Computability.RegularExpressions
import Trivia.Proofs.Turns

namespace Trivia

variable {source : Bytes} {c d : Position source}

/-! ### A regular expression -/

namespace ByteSet

open RegularExpression (char)

variable {run bytes : Bytes}

/-- Spaces and tabs, and then carriage returns and line feeds. -/
def lineTailExpression : RegularExpression UInt8 :=
  (char (0x20 : UInt8) + char 0x09).star * (char (0x0d : UInt8) + char 0x0a).star

/-- Repeating either of two bytes gives the runs of the set of both. -/
theorem mem_star_iff (a b : UInt8) :
    run ∈ (char a + char b).star.matches' ↔ (⟨[a, b]⟩ : ByteSet).Spans run := by
  rw [RegularExpression.matches'_star, Language.mem_kstar]
  have hword : ∀ w : Bytes, w ∈ (char a + char b).matches' ↔ w = [a] ∨ w = [b] := fun w => Iff.rfl
  constructor
  · rintro ⟨words, rfl, hwords⟩ x hx
    obtain ⟨w, hw, hx⟩ := List.mem_flatten.mp hx
    rcases (hword w).mp (hwords w hw) with rfl | rfl
    · simp [contains, List.mem_singleton.mp hx]
    · simp [contains, List.mem_singleton.mp hx]
  · intro hspans
    refine ⟨run.map fun x => [x], (List.flatMap_singleton' run).symm, ?_⟩
    intro w hw
    obtain ⟨x, hx, rfl⟩ := List.mem_map.mp hw
    have hx := hspans x hx
    rw [hword]
    simpa [contains] using hx

theorem mem_lineTailExpression_iff : run ∈ lineTailExpression.matches' ↔ LineTail run := by
  rw [lineTailExpression, RegularExpression.matches'_mul, Language.mem_mul]
  constructor
  · rintro ⟨pad, hpad, ends, hends, rfl⟩
    exact ⟨pad, ends, rfl, (mem_star_iff _ _).mp hpad, (mem_star_iff _ _).mp hends⟩
  · rintro ⟨pad, ends, rfl, hpad, hends⟩
    exact ⟨pad, (mem_star_iff _ _).mpr hpad, ends, (mem_star_iff _ _).mpr hends, rfl⟩

/-- Of all that `bytes` begin with and that matches an expression, `run` is the longest. -/
structure LongestMatch (e : RegularExpression UInt8) (run bytes : Bytes) : Prop where
  begins : run <+: bytes
  isMatch : run ∈ e.matches'
  longest : ∀ run', run' <+: bytes → run' ∈ e.matches' → run'.length ≤ run.length

theorem LongestLineTail.longestMatch (h : LongestLineTail run bytes) :
    LongestMatch lineTailExpression run bytes where
  begins := h.begins
  isMatch := mem_lineTailExpression_iff.mpr h.lineTail
  longest run' hbegins hmatch := h.longest run' hbegins (mem_lineTailExpression_iff.mp hmatch)

theorem stops_whitespace_iff :
    whitespace.Stops bytes ↔ ∀ b ∈ bytes.head?, b ∉ [0x20, 0x09, 0x0d, 0x0a] :=
  forall₂_congr fun b _ => by
    rw [← List.contains_iff_mem, Bool.not_eq_true]
    rfl

theorem stops_whitespace_iff_nil_or : whitespace.Stops bytes ↔
    bytes = [] ∨ ∃ b ∈ bytes.head?, b ∉ [0x20, 0x09, 0x0d, 0x0a] := by
  rw [stops_whitespace_iff]
  cases bytes with
  | nil => simp
  | cons b bytes => simp

end ByteSet

namespace Fragment

open ByteSet

variable {w : Option Fragment} {rest : Bytes}

theorem endsLine_iff_mem : EndsLine w ↔ 0x0d ∈ source? w ∨ 0x0a ∈ source? w := by
  simp [endsLine_iff_exists, contains, lineEnds, and_or_left, exists_or]

theorem TailBefore.endsWithLineEnd_iff (h : TailBefore w rest) :
    endsWithLineEnd (source? w) = true ↔ EndsLine w := by
  cases w with
  | none => simp [endsWithLineEnd, source?, not_endsLine_none]
  | some f => exact (h.isTail f rfl).endsWithLineEnd_iff

theorem TailBefore.map_bytes (h : TailBefore w rest) :
    w.map Fragment.bytes = if source? w = [] then none else some (source? w) := by
  cases w with
  | none => rfl
  | some f => exact (if_neg (h.isTail f rfl).1).symm

/-- Nothing remains of a line exactly where no whitespace comes. -/
theorem TailBefore.source?_eq_nil_iff (h : TailBefore w rest) :
    source? w = [] ↔ whitespace.Stops (source? w ++ rest) := by
  cases w with
  | none => exact iff_of_true rfl (h.stops_of_not not_endsLine_none)
  | some f =>
    obtain ⟨b, more, hbytes⟩ := List.exists_cons_of_ne_nil (h.isTail f rfl).1
    have hspans : whitespace.Spans f.bytes := h.spans
    refine iff_of_false (h.isTail f rfl).1 fun hstop => ?_
    change whitespace.Stops (f.bytes ++ rest) at hstop
    rw [hbytes, List.cons_append, stops_cons] at hstop
    rw [hbytes, spans_cons, hstop] at hspans
    cases hspans.1

end Fragment

/-! ### The loop over a line -/

namespace LineComment

/-- A turn that passes whitespace is not the last one exactly where it has passed no line end and
a byte comes behind; the next turn passes this byte. -/
theorem bodyStep_eq_none_iff {f : Fragment} {e : Position source}
    (h : c.rest = f.bytes ++ d.rest) (hf : Fragment.TailBefore (some f) d.rest) :
    bodyStep c = .ok none e ↔ e = d ∧ ¬ Fragment.EndsLine (some f) ∧
      ∃ b, ∃ next : Position source, d.rest = b :: next.rest ∧ bodyStep d = .ok none next := by
  constructor
  · intro hstep
    by_cases hend : Fragment.EndsLine (some f) ∨ d.rest = []
    · rw [bodyStep_of_tail (w := some f) h hf hend] at hstep
      cases hstep
    · obtain ⟨hline, hne⟩ := not_or.mp hend
      rw [bodyStep_of_gap h hf hline hne] at hstep
      obtain ⟨-, rfl⟩ := EStateM.Result.ok.inj hstep
      obtain ⟨b, tail, htail⟩ := List.exists_cons_of_ne_nil hne
      have hsplit : d.rest = [b] ++ tail := htail
      obtain ⟨next, rfl⟩ := Position.exists_rest hsplit
      exact ⟨rfl, hline, b, next, htail, bodyStep_of_byte htail (hf.stops_of_not hline)⟩
  · rintro ⟨rfl, hline, b, next, hrest, -⟩
    refine bodyStep_of_gap h hf hline ?_
    rw [hrest]
    exact List.cons_ne_nil b _

end LineComment

/-! ### What a scanner takes -/

namespace Scanner

open ByteSet (LongestMatch lineTailExpression)

/-- From one position to another, a scanner takes what remains of a line. -/
structure TakesLineTail (c d : Position source) (run : Bytes) : Prop where
  longest : LongestMatch lineTailExpression run c.rest
  passes : c.rest = run ++ d.rest
  answers : lineTail c = .ok (if run = [] then none else some run) d
  absent_iff : lineTail c = .ok none c ↔ run = []
  eq_nil_iff : run = [] ↔ c.atEnd = true ∨ ∃ b ∈ c.rest.head?, b ∉ [0x20, 0x09, 0x0d, 0x0a]
  endsWithLineEnd_iff : endsWithLineEnd run = true ↔ 0x0d ∈ run ∨ 0x0a ∈ run
  stops : ¬(0x0d ∈ run ∨ 0x0a ∈ run) → ∀ b ∈ d.rest.head?, b ∉ [0x20, 0x09, 0x0d, 0x0a]
  /-- A loop over the line goes on behind the run where this has no line end and a byte comes
  next, and it passes this byte in its next turn. -/
  goesOn_iff : run ≠ [] → ∀ e, LineComment.bodyStep c = .ok none e ↔
    e = d ∧ ¬(0x0d ∈ run ∨ 0x0a ∈ run) ∧ ∃ b, ∃ next : Position source,
      d.rest = b :: next.rest ∧ LineComment.bodyStep d = .ok none next

/-- **What remains of a line is the longest match** of `[ \t]*[\r\n]*` at every position. -/
theorem exists_takesLineTail (c : Position source) : ∃ run d, TakesLineTail c d run := by
  obtain ⟨w, rest, hc, hw⟩ := Fragment.exists_tailBefore c.rest
  obtain ⟨d, rfl⟩ := Position.exists_rest hc
  have htail := Fragment.lineTail_of_tailBefore hc hw
  rw [hw.map_bytes] at htail
  refine ⟨Fragment.source? w, d, {
    longest := hc ▸ hw.longest.longestMatch
    passes := hc
    answers := htail
    absent_iff := ?_
    eq_nil_iff := ?_
    endsWithLineEnd_iff := hw.endsWithLineEnd_iff.trans Fragment.endsLine_iff_mem
    stops := ?_
    goesOn_iff := ?_ }⟩
  · rw [htail]
    split_ifs with h
    · obtain rfl : c = d := Position.ext_rest (by rw [hc, h]; rfl)
      exact iff_of_true rfl h
    · exact iff_of_false (by rintro ⟨⟩) h
  · rw [hw.source?_eq_nil_iff, ← hc, ByteSet.stops_whitespace_iff_nil_or, Position.atEnd,
      List.isEmpty_iff]
  · intro hline
    rw [← Fragment.endsLine_iff_mem] at hline
    exact ByteSet.stops_whitespace_iff.mp (hw.stops_of_not hline)
  · intro hne e
    rw [← Fragment.endsLine_iff_mem]
    cases w with
    | none => exact absurd rfl hne
    | some f => exact LineComment.bodyStep_eq_none_iff hc hw

end Scanner

end Trivia

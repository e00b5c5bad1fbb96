/-
Trivia/Proofs/Lines.lean

Line comments, cut out of what remains without a loop.

What a line comment consists of are five runs of the bytes ahead, each of which is the
longest of its kind where the one before it ends: blanks, then behind the marker blanks
again, the bytes of the line, and line ends.  The blanks at the end of the line go to the
line ends and the rest of it is the body.  `cut` takes these runs by their lengths, and
whether there is a comment at all is a matter of the two bytes behind the first run.  The
readers find exactly this comment, the one that looks its body up as well as the one that
finds it in turns (`read_cut`).
-/
import Mathlib.Data.List.DropRight
import Trivia.Proofs.Turns

namespace Trivia

open ByteSet

variable {source : Bytes} {c d : Position source}

/-! ### The runs of a line comment -/

/-- The fragment of a run, which is absent where the run is empty. -/
def Fragment.ofRun? (run : Bytes) : Option Fragment := if run = [] then none else some ⟨run⟩

namespace LineComment

variable {comment : LineComment} {bytes rest : Bytes}

/-- The blanks before the marker. -/
def indentRun (bytes : Bytes) : Bytes := bytes.takeWhile blanks.contains

/-- The bytes behind the indent, which begin with the marker of a comment. -/
def behindIndent (bytes : Bytes) : Bytes := bytes.drop (indentRun bytes).length

/-- The bytes behind the marker. -/
def inner (bytes : Bytes) : Bytes := (behindIndent bytes).drop opener.length

/-- The blanks behind the marker. -/
def gapRun (bytes : Bytes) : Bytes := (inner bytes).takeWhile blanks.contains

/-- The bytes behind the gap. -/
def behindGap (bytes : Bytes) : Bytes := (inner bytes).drop (gapRun bytes).length

/-- The bytes of the line behind the gap, up to its end or to that of the source. -/
def line (bytes : Bytes) : Bytes := (behindGap bytes).takeWhile (!lineEnds.contains ·)

/-- The line ends behind the line. -/
def lineEndRun (bytes : Bytes) : Bytes :=
  ((behindGap bytes).drop (line bytes).length).takeWhile lineEnds.contains

/-- The comment with these runs: the body is the line without the blanks at its end, and
they come before the line ends behind it. -/
def cut (bytes : Bytes) : LineComment where
  indent := Fragment.ofRun? (indentRun bytes)
  gap := Fragment.ofRun? (gapRun bytes)
  body := (line bytes).rdropWhile blanks.contains
  trailing := Fragment.ofRun? ((line bytes).rtakeWhile blanks.contains ++ lineEndRun bytes)

/-- How many bytes the runs are, the marker included. -/
def cutLength (bytes : Bytes) : Nat :=
  (indentRun bytes).length + opener.length + (gapRun bytes).length + (line bytes).length
    + (lineEndRun bytes).length

/-! ### A comment that leads is the one that is cut -/

theorem rdropWhile_of_spans {body pad : Bytes}
    (hlast : ∀ b ∈ body.getLast?, blanks.contains b = false) (hpad : blanks.Spans pad) :
    (body ++ pad).rdropWhile blanks.contains = body := by
  have hspans : blanks.Spans pad.reverse := fun b hb => hpad b (List.mem_reverse.mp hb)
  have hstops : blanks.Stops body.reverse := by
    intro b hb
    rw [List.head?_reverse] at hb
    exact hlast b hb
  rw [List.rdropWhile, List.reverse_append, dropWhile_of_spans hspans hstops, List.reverse_reverse]

theorem rtakeWhile_of_spans {body pad : Bytes}
    (hlast : ∀ b ∈ body.getLast?, blanks.contains b = false) (hpad : blanks.Spans pad) :
    (body ++ pad).rtakeWhile blanks.contains = pad := by
  have hsplit := List.rdropWhile_append_rtakeWhile (p := blanks.contains) (l := body ++ pad)
  rw [rdropWhile_of_spans hlast hpad] at hsplit
  exact List.append_cancel_left hsplit

end LineComment

/-- The fragment of a run is its bytes or their absence. -/
theorem Fragment.ofRun?_source? {w : Option Fragment} (h : ∀ f ∈ w, f.bytes ≠ []) :
    ofRun? (source? w) = w := by
  cases w with
  | none => rfl
  | some f => exact if_neg (h f rfl)

namespace LineComment

variable {comment : LineComment} {bytes rest : Bytes}

/-- The runs of bytes that are written as runs. -/
theorem runs_of_split {indent gap text ends : Bytes}
    (hbytes : bytes = indent ++ (opener ++ (gap ++ (text ++ (ends ++ rest)))))
    (hindent : blanks.Spans indent) (hgap : blanks.Spans gap)
    (hstop : blanks.Stops (text ++ (ends ++ rest)))
    (htext : ∀ b ∈ text, lineEnds.contains b = false) (hends : lineEnds.Spans ends)
    (hrest : lineEnds.Stops rest) (hend : ends = [] → rest = []) :
    indentRun bytes = indent ∧ gapRun bytes = gap ∧ line bytes = text ∧
      lineEndRun bytes = ends := by
  have hopener : blanks.Stops (opener ++ (gap ++ (text ++ (ends ++ rest)))) :=
    stops_cons.mpr (by decide)
  have h₁ : indentRun bytes = indent := by
    rw [indentRun, hbytes, takeWhile_of_spans hindent hopener]
  have h₂ : inner bytes = gap ++ (text ++ (ends ++ rest)) := by
    rw [inner, behindIndent, h₁, hbytes, List.drop_left, List.drop_left]
  have h₃ : gapRun bytes = gap := by rw [gapRun, h₂, takeWhile_of_spans hgap hstop]
  have h₄ : behindGap bytes = text ++ (ends ++ rest) := by
    rw [behindGap, h₃, h₂, List.drop_left]
  have h₅ : line bytes = text := by
    -- a line end comes next, or nothing at all
    have hnext : (ends ++ rest).takeWhile (!lineEnds.contains ·) = [] := by
      cases ends with
      | nil => rw [hend rfl]; rfl
      | cons b ends => simp [(spans_cons.mp hends).1]
    rw [line, h₄, List.takeWhile_append_of_pos (by simpa using htext), hnext, List.append_nil]
  refine ⟨h₁, h₃, h₅, ?_⟩
  rw [lineEndRun, h₅, h₄, List.drop_left, takeWhile_of_spans hends hrest]

theorem Leads.cut_eq (h : comment.Leads rest) :
    cut (comment.source ++ rest) = comment ∧
      cutLength (comment.source ++ rest) = comment.source.length := by
  obtain ⟨pad, ends, htrailing, hpad, -, hends, hrest⟩ := h.tail.exists_runs
  have hwell := h.wellFormed
  have hbytes : comment.source ++ rest = Fragment.source? comment.indent ++
      (opener ++ (Fragment.source? comment.gap ++ (comment.body ++ pad ++ (ends ++ rest)))) := by
    simp only [LineComment.source, htrailing, List.append_assoc]
  have hstop : blanks.Stops (comment.body ++ pad ++ (ends ++ rest)) := by
    have hgap := h.stops_gap
    rwa [htrailing, List.append_assoc, ← List.append_assoc] at hgap
  have htext : ∀ b ∈ comment.body ++ pad, lineEnds.contains b = false := by
    intro b hb
    rcases List.mem_append.mp hb with hb | hb
    · exact hwell.body_line b hb
    · exact lineEnds_of_blanks (hpad b hb)
  have hend : ends = [] → rest = [] := by
    intro hnil
    refine h.endsLine_or_nil.resolve_left fun hline => ?_
    exact (Fragment.endsLine_iff htrailing hpad hends).mp hline hnil
  obtain ⟨h₁, h₂, h₃, h₄⟩ := runs_of_split hbytes hwell.indent.spans hwell.gap.spans hstop htext
    hends hrest hend
  constructor
  · have hindent := Fragment.ofRun?_source? fun f hf => (hwell.indent f hf).1
    have hgap := Fragment.ofRun?_source? fun f hf => (hwell.gap f hf).1
    have htail := Fragment.ofRun?_source? fun f hf => (hwell.trailing f hf).1
    rw [cut, h₁, h₂, h₃, h₄, rdropWhile_of_spans hwell.body_last hpad,
      rtakeWhile_of_spans hwell.body_last hpad, ← htrailing, hindent, hgap, htail]
  · rw [cutLength, h₁, h₂, h₃, h₄]
    simp only [LineComment.source, htrailing, List.length_append]
    omega

theorem behindIndent_eq (bytes : Bytes) :
    behindIndent bytes = bytes.dropWhile blanks.contains := by
  have hsplit : indentRun bytes ++ bytes.dropWhile blanks.contains = bytes :=
    List.takeWhile_append_dropWhile
  calc bytes.drop (indentRun bytes).length
      = (indentRun bytes ++ bytes.dropWhile blanks.contains).drop (indentRun bytes).length := by
        rw [hsplit]
    _ = bytes.dropWhile blanks.contains := List.drop_left

/-! ### What is read is what is cut -/

theorem read_of_opener (h : opener <+: behindIndent c.rest) :
    ∃ d : Position source, d.offset = c.offset + cutLength c.rest ∧
      read c = .ok ⟨[.lineComment c.offset d.offset (cut c.rest).body.length],
        .found (cut c.rest)⟩ d := by
  rw [behindIndent_eq] at h
  obtain ⟨comment, rest, hc, hleads⟩ := exists_leads h
  obtain ⟨d, rfl⟩ := Position.exists_rest hc
  obtain ⟨hcut, hlength⟩ := hleads.cut_eq
  refine ⟨d, ?_, ?_⟩
  · rw [hc, hlength]
    exact Position.offset_of_rest hc
  · rw [hc, hcut]
    exact read_of_leads hc hleads

/-- **Line comments without a loop**: both readers are one, they raise no fault and find
nothing malformed.  A comment is absent exactly where no marker comes behind the blanks, and
the reader is then back where it began; otherwise it is the one that is cut out, and the
reader ends right behind its runs. -/
theorem read_cut (c : Position source) :
    (readByTurns : Scanner source _) = read ∧
    (∃ log attempt d, read c = .ok ⟨log, attempt⟩ d ∧ attempt.isMalformed = false) ∧
    (read c = .ok ⟨[], .absent .notLineComment c.offset⟩ c ↔ ¬ opener <+: behindIndent c.rest) ∧
    ((∃ d : Position source, d.offset = c.offset + cutLength c.rest ∧
      read c = .ok ⟨[.lineComment c.offset d.offset (cut c.rest).body.length],
        .found (cut c.rest)⟩ d) ↔ opener <+: behindIndent c.rest) := by
  refine ⟨readByTurns_eq, ?_⟩
  by_cases hopen : opener <+: behindIndent c.rest
  · have hread := read_of_opener hopen
    obtain ⟨d, -, hfound⟩ := id hread
    refine ⟨⟨_, _, d, hfound, rfl⟩, ?_, ⟨fun _ => hopen, fun _ => hread⟩⟩
    refine ⟨fun habsent => ?_, fun hnot => absurd hopen hnot⟩
    cases habsent.symm.trans hfound
  · have habsent := read_of_not_opener (behindIndent_eq c.rest ▸ hopen)
    refine ⟨⟨_, _, c, habsent, rfl⟩, ⟨fun _ => hopen, fun _ => habsent⟩, ?_⟩
    refine ⟨?_, fun h => absurd h hopen⟩
    rintro ⟨d, -, hfound⟩
    cases habsent.symm.trans hfound

/-- Blanks between words are body, and those at the end of the line come before its ends. -/
example : cut [0x20, 0x2f, 0x2f, 0x61, 0x20, 0x62, 0x09, 0x0d, 0x0a, 0x0a, 0x78] =
    ⟨some ⟨[0x20]⟩, none, [0x61, 0x20, 0x62], some ⟨[0x09, 0x0d, 0x0a, 0x0a]⟩⟩ := by decide

end LineComment

end Trivia

/-
Trivia/Proofs/Blocks.lean

Block comments, cut at their leftmost closing marker.

Where a block comment ends is a matter of one number: the least place behind the
opening marker at which a closing marker stands (`Cuts.leftmost`).  The star of the
opening marker is before all these places, so it begins no closing marker.  Up to that
number is body, and the longest rest of a line behind the marker belongs to the comment
as well.  `Answers` says by the bytes ahead alone what there is to be answered: that no
comment opens, that one opens and is not closed, or the comment that is cut so.

The readers answer that, the one that looks its body up as well as the one that goes
from star to star (`read_answers`, `readByTurns_answers`), and since no two of the
answers are ever right at one place, each of them is given exactly where it is right
(`read_leftmost`).
-/
import Mathlib.Order.Bounds.Basic
import Trivia.Proofs.Lines

namespace Trivia

open ByteSet
open LineComment (indentRun behindIndent behindIndent_eq)

variable {source : Bytes} {c d : Position source}

/-- A run is determined by its fragment, or by the absence of one. -/
theorem Fragment.ofRun?_inj {run run' : Bytes} (h : ofRun? run = ofRun? run') : run = run' := by
  have hsource : ∀ bytes : Bytes, source? (ofRun? bytes) = bytes := by
    intro bytes
    rw [ofRun?]
    split
    · rename_i hnil
      exact hnil.symm
    · rfl
  rw [← hsource run, h, hsource]

namespace BlockComment

variable {comment : BlockComment} {bytes text body rest tail tail' : Bytes} {k k' : Nat}

/-! ### Where the closing marker stands -/

/-- A closing marker stands at `k`. -/
def ClosedAt (text : Bytes) (k : Nat) : Prop := closer <+: text.drop k

instance (text : Bytes) (k : Nat) : Decidable (ClosedAt text k) :=
  inferInstanceAs (Decidable (closer <+: text.drop k))

theorem closer_infix_iff : closer <:+: text ↔ ∃ k, ClosedAt text k := by
  constructor
  · rintro ⟨before, behind, rfl⟩
    refine ⟨before.length, ?_⟩
    rw [ClosedAt, List.append_assoc, List.drop_left]
    exact List.prefix_append closer behind
  · rintro ⟨k, hk⟩
    exact hk.isInfix.trans (List.drop_suffix k text).isInfix

/-- Behind a body without a closing marker, the one that comes next is the leftmost. -/
theorem isLeast_closedAt (h : ¬ closer <:+: body) :
    IsLeast {k | ClosedAt (body ++ (closer ++ rest)) k} body.length := by
  constructor
  · show closer <+: (body ++ (closer ++ rest)).drop body.length
    rw [List.drop_left]
    exact List.prefix_append closer rest
  · intro k hk
    by_contra hlt
    rw [Nat.not_le] at hlt
    -- what is left of the body is not empty, and a marker there would begin in the body
    obtain ⟨b, left, hleft⟩ := List.exists_cons_of_ne_nil (l := body.drop k)
      (by rw [ne_eq, List.drop_eq_nil_iff]; omega)
    have hmarker : closer <+: b :: left ++ (closer ++ rest) := by
      rw [← hleft, ← List.drop_append_of_le_length (Nat.le_of_lt hlt)]
      exact hk
    refine not_closer_prefix_of_cons (fun hin => h ?_) hmarker
    rw [← hleft] at hin
    exact hin.trans (List.drop_suffix k body).isInfix

/-! ### The comment that is cut -/

/-- The bytes behind the opening marker. -/
def inner (bytes : Bytes) : Bytes := (behindIndent bytes).drop opener.length

/-- The comment with the first `k` bytes behind the marker for a body, and with this rest
of a line behind it. -/
def cut (bytes : Bytes) (k : Nat) (tail : Bytes) : BlockComment where
  indent := Fragment.ofRun? (indentRun bytes)
  body := (inner bytes).take k
  trailing := Fragment.ofRun? tail

/-- How many bytes that comment has, its markers included. -/
def cutLength (bytes : Bytes) (k : Nat) (tail : Bytes) : Nat :=
  (indentRun bytes).length + opener.length + k + closer.length + tail.length

/-- A comment opens, the leftmost closing marker behind the opening one stands at `k`, and
`tail` is the longest rest of a line behind it. -/
structure Cuts (bytes : Bytes) (k : Nat) (tail : Bytes) : Prop where
  opens : opener <+: behindIndent bytes
  leftmost : IsLeast {k | ClosedAt (inner bytes) k} k
  tail : LongestLineTail tail ((inner bytes).drop (k + closer.length))

theorem Cuts.closed (h : Cuts bytes k tail) : closer <:+: inner bytes :=
  closer_infix_iff.mpr ⟨k, h.leftmost.1⟩

theorem Cuts.unique (h : Cuts bytes k tail) (h' : Cuts bytes k' tail') :
    k = k' ∧ tail = tail' := by
  obtain rfl : k = k' := h.leftmost.unique h'.leftmost
  exact ⟨rfl, h.tail.eq h'.tail⟩

/-- A comment that leads is the one that is cut. -/
theorem Leads.cuts (h : comment.Leads rest) (hbytes : bytes = comment.source ++ rest) :
    Cuts bytes comment.body.length (Fragment.source? comment.trailing) ∧
      cut bytes comment.body.length (Fragment.source? comment.trailing) = comment ∧
      cutLength bytes comment.body.length (Fragment.source? comment.trailing)
        = comment.source.length := by
  have hwell := h.wellFormed
  -- the parts of the comment are passed one after another: indent, markers, body, trailing
  have hsplit : bytes = Fragment.source? comment.indent ++ (opener ++ (comment.body ++
      (closer ++ (Fragment.source? comment.trailing ++ rest)))) := by
    rw [hbytes]
    simp only [BlockComment.source, List.append_assoc]
  have hopener : blanks.Stops (opener ++ (comment.body ++
      (closer ++ (Fragment.source? comment.trailing ++ rest)))) := stops_cons.mpr (by decide)
  have hindent : indentRun bytes = Fragment.source? comment.indent := by
    rw [indentRun, hsplit, takeWhile_of_spans hwell.indent.spans hopener]
  have hbehind : behindIndent bytes = opener ++ (comment.body ++
      (closer ++ (Fragment.source? comment.trailing ++ rest))) := by
    rw [behindIndent, hindent, hsplit, List.drop_left]
  have hinner : inner bytes = comment.body ++
      (closer ++ (Fragment.source? comment.trailing ++ rest)) := by
    rw [inner, hbehind, List.drop_left]
  have htail : (inner bytes).drop (comment.body.length + closer.length)
      = Fragment.source? comment.trailing ++ rest := by
    rw [← List.drop_drop, hinner, List.drop_left, List.drop_left]
  refine ⟨⟨?_, ?_, ?_⟩, ?_, ?_⟩
  · rw [hbehind]
    exact List.prefix_append opener _
  · rw [hinner]
    exact isLeast_closedAt hwell.body
  · rw [htail]
    exact h.tail.longest
  · have hindent' := Fragment.ofRun?_source? fun f hf => (hwell.indent f hf).1
    have htrailing := Fragment.ofRun?_source? fun f hf => (hwell.trailing f hf).1
    rw [cut, hindent, hinner, List.take_left, hindent', htrailing]
  · rw [cutLength, hindent]
    simp only [BlockComment.source, List.length_append]

/-- Behind an opening marker that is closed, there is a place to cut at. -/
theorem exists_leads_of_closed (hopens : opener <+: behindIndent bytes)
    (hclosed : closer <:+: inner bytes) :
    ∃ comment : BlockComment, ∃ rest, bytes = comment.source ++ rest ∧ comment.Leads rest := by
  obtain ⟨text, htext⟩ := hopens
  rw [inner, ← htext, List.drop_left] at hclosed
  rw [behindIndent_eq] at htext
  exact exists_leads htext.symm hclosed

/-- There is one place to cut at as soon as the marker is closed at all. -/
theorem exists_cuts_iff :
    (∃ k tail, Cuts bytes k tail) ↔ opener <+: behindIndent bytes ∧ closer <:+: inner bytes := by
  constructor
  · rintro ⟨k, tail, hcuts⟩
    exact ⟨hcuts.opens, hcuts.closed⟩
  · rintro ⟨hopens, hclosed⟩
    obtain ⟨comment, rest, hbytes, hleads⟩ := exists_leads_of_closed hopens hclosed
    exact ⟨_, _, (hleads.cuts hbytes).1⟩

/-! ### What readers answer -/

/-- The answer that is right at `c`, and where the reader is behind it.  Behind a comment
that is not closed it may be anywhere. -/
inductive Answers (c : Position source) : Logged (Attempt BlockComment) → Position source → Prop
  | absent : ¬ opener <+: behindIndent c.rest →
      Answers c ⟨[], .absent .notBlockComment c.offset⟩ c
  | unclosed {opening : Nat} {d : Position source} :
      opener <+: behindIndent c.rest → ¬ closer <:+: inner c.rest →
      opening = c.offset + (indentRun c.rest).length →
      Answers c ⟨[.unclosedBlock opening source.length],
        .malformed (.located .unclosedBlock opening source.length)⟩ d
  | found {k : Nat} {tail : Bytes} {d : Position source} :
      Cuts c.rest k tail → d.offset = c.offset + cutLength c.rest k tail →
      Answers c ⟨[.blockComment c.offset d.offset k], .found (cut c.rest k tail)⟩ d

theorem read_answers (c : Position source) :
    ∃ answer, ∃ d : Position source, read c = .ok answer d ∧ Answers c answer d := by
  by_cases hopens : opener <+: behindIndent c.rest
  · by_cases hclosed : closer <:+: inner c.rest
    · obtain ⟨comment, rest, hc, hleads⟩ := exists_leads_of_closed hopens hclosed
      obtain ⟨d, rfl⟩ := Position.exists_rest hc
      obtain ⟨hcuts, hcut, hlength⟩ := hleads.cuts hc
      refine ⟨_, d, read_of_leads hc hleads, ?_⟩
      have hfound := Answers.found (d := d) hcuts (by rw [hlength, Position.offset_of_rest hc])
      rwa [hcut] at hfound
    · -- the scanner has passed the indent when it comes to the marker that is left open
      have hc : c.rest = indentRun c.rest ++ behindIndent c.rest := by
        rw [behindIndent_eq]
        exact List.takeWhile_append_dropWhile.symm
      obtain ⟨opening, hopening⟩ := Position.exists_rest hc
      rw [← hopening] at hc
      obtain ⟨text, htext⟩ := id hopens
      have hopened : opening.rest = opener ++ text := by rw [hopening, htext]
      have htext' : ¬ closer <:+: text := by
        rwa [inner, ← htext, List.drop_left] at hclosed
      obtain ⟨d, hread⟩ := read_of_unclosed hc (spans_takeWhile c.rest) hopened htext'
      exact ⟨_, d, hread, .unclosed hopens hclosed (Position.offset_of_rest hc)⟩
  · refine ⟨_, c, read_of_not_opener ?_, .absent hopens⟩
    rwa [← behindIndent_eq]

theorem readByTurns_answers (c : Position source) :
    ∃ answer, ∃ d : Position source, readByTurns c = .ok answer d ∧ Answers c answer d := by
  obtain ⟨answer, d, e, hread, hturns, hsame⟩ := readByTurns_agrees c
  obtain ⟨answer', d', hread', hanswers⟩ := read_answers c
  obtain ⟨rfl, rfl⟩ := EStateM.Result.ok.inj (hread'.symm.trans hread)
  refine ⟨answer', e, hturns, ?_⟩
  -- the readers part only behind a comment that is not closed, where any place is right
  cases hanswers with
  | absent hopens =>
    obtain rfl := hsame rfl
    exact .absent hopens
  | unclosed hopens hclosed hopening => exact .unclosed hopens hclosed hopening
  | found hcuts hoffset =>
    obtain rfl := hsame rfl
    exact .found hcuts hoffset

/-- Each answer is given by the reader exactly where it is right. -/
structure ReadsLeftmost (m : Scanner source (Logged (Attempt BlockComment)))
    (c : Position source) : Prop where
  absent_iff : m c = .ok ⟨[], .absent .notBlockComment c.offset⟩ c ↔
    ¬ opener <+: behindIndent c.rest
  unclosed_iff : (∃ d, m c = .ok ⟨[.unclosedBlock (c.offset + (indentRun c.rest).length)
        source.length], .malformed (.located .unclosedBlock
          (c.offset + (indentRun c.rest).length) source.length)⟩ d) ↔
    opener <+: behindIndent c.rest ∧ ¬ closer <:+: inner c.rest
  found_iff : ∀ k tail, (∃ d : Position source,
      d.offset = c.offset + cutLength c.rest k tail ∧
      m c = .ok ⟨[.blockComment c.offset d.offset k], .found (cut c.rest k tail)⟩ d) ↔
    Cuts c.rest k tail

theorem readsLeftmost_of_answers {m : Scanner source (Logged (Attempt BlockComment))}
    {answer : Logged (Attempt BlockComment)} (h : m c = .ok answer d)
    (hanswers : Answers c answer d) : ReadsLeftmost m c := by
  -- each answer keeps the reader from giving the other two
  cases hanswers with
  | absent hopens =>
    refine ⟨iff_of_true h hopens, iff_of_false ?_ ?_, fun k tail => iff_of_false ?_ ?_⟩
    · rintro ⟨e, he⟩
      cases h.symm.trans he
    · intro hunclosed
      exact hopens hunclosed.1
    · rintro ⟨e, -, he⟩
      cases h.symm.trans he
    · intro hcuts
      exact hopens hcuts.opens
  | unclosed hopens hclosed hopening =>
    subst hopening
    refine ⟨iff_of_false ?_ ?_, iff_of_true ⟨d, h⟩ ⟨hopens, hclosed⟩,
      fun k tail => iff_of_false ?_ ?_⟩
    · intro he
      cases h.symm.trans he
    · intro habsent
      exact habsent hopens
    · rintro ⟨e, -, he⟩
      cases h.symm.trans he
    · intro hcuts
      exact hclosed hcuts.closed
  | @found k tail _ hcuts hoffset =>
    refine ⟨iff_of_false ?_ ?_, iff_of_false ?_ ?_, fun k' tail' => ⟨?_, ?_⟩⟩
    · intro he
      cases h.symm.trans he
    · intro habsent
      exact habsent hcuts.opens
    · rintro ⟨e, he⟩
      cases h.symm.trans he
    · intro hunclosed
      exact hunclosed.2 hcuts.closed
    · -- the answer tells the length of the body and, with the comment, the rest of the line
      rintro ⟨e, -, he⟩
      obtain ⟨hanswer, rfl⟩ := EStateM.Result.ok.inj (h.symm.trans he)
      simp only [Logged.mk.injEq, List.cons.injEq, Event.blockComment.injEq, and_true,
        true_and, Attempt.found.injEq] at hanswer
      obtain ⟨rfl, hcut⟩ := hanswer
      obtain rfl : tail = tail' := Fragment.ofRun?_inj (congrArg BlockComment.trailing hcut)
      exact hcuts
    · intro hcuts'
      obtain ⟨rfl, rfl⟩ := hcuts.unique hcuts'
      exact ⟨d, hoffset, h⟩

/-- **The leftmost closing marker ends a block comment**, for both readers and at every
place.  A comment is absent exactly where no marker comes behind the blanks, and the reader
is then back where it began.  Behind a marker it is malformed, from the marker to the end
of the source, exactly if there is no closing marker at all; otherwise it is the comment
that is cut at the leftmost one, and the reader ends behind the longest rest of a line that
follows.  So one of the three answers is always given. -/
theorem read_leftmost (c : Position source) :
    ReadsLeftmost read c ∧ ReadsLeftmost readByTurns c ∧
      ((∃ k tail, Cuts c.rest k tail) ↔
        opener <+: behindIndent c.rest ∧ closer <:+: inner c.rest) := by
  obtain ⟨answer, d, hread, hanswers⟩ := read_answers c
  obtain ⟨answer', d', hturns, hanswers'⟩ := readByTurns_answers c
  exact ⟨readsLeftmost_of_answers hread hanswers, readsLeftmost_of_answers hturns hanswers',
    exists_cuts_iff⟩

/-- The star of the opening marker closes nothing, the last one before a slash does. -/
example :
    ¬ (∃ k ≤ 3, ClosedAt (inner [0x2f, 0x2a, 0x2f, 0x2a]) k) ∧
      ClosedAt (inner [0x2f, 0x2a, 0x2a, 0x2a, 0x2f]) 1 ∧
      ¬ ClosedAt (inner [0x2f, 0x2a, 0x2a, 0x2a, 0x2f]) 0 := by decide

end BlockComment

end Trivia

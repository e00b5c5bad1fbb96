/-
Trivia/Proofs/Leading.lean

Single constructs against the bytes behind them.

A construct is well formed by itself (`WellFormed`), and it *leads* what comes
behind it when, written in front of that, it is where its reader stops
(`Leads`): no run goes on into `rest`, and a line comment that does not end its
line has nothing behind it.  A reader finds a comment exactly where one leads
(`read_of_leads`), and wherever an opening marker comes next there is one that
does (`exists_leads`), but for a block comment that is never closed.  So the
two lemmas say all that a reader can do.
-/
import Trivia.Proofs.Bodies
import Trivia.Proofs.Scanning

namespace Trivia

open ByteSet

variable {source : Bytes} {c d : Position source}

/-! ### Well-formed comments -/

/-- Blanks around the marker, a body on one line with no blank at either end, and
the rest of the line.  Behind an empty body no blanks are left, since the gap has
taken them. -/
@[mk_iff]
structure LineComment.WellFormed (comment : LineComment) : Prop where
  indent : Fragment.OfRun blanks comment.indent
  gap : Fragment.OfRun blanks comment.gap
  body_line : ∀ b ∈ comment.body, lineEnds.contains b = false
  body_first : ∀ b ∈ comment.body.head?, blanks.contains b = false
  body_last : ∀ b ∈ comment.body.getLast?, blanks.contains b = false
  trailing : ∀ f ∈ comment.trailing, f.IsTail
  trailing_of_nil : comment.body = [] → Fragment.OfRun lineEnds comment.trailing

/-- Blanks before the marker, a body without a closing marker, and the rest of
the line. -/
@[mk_iff]
structure BlockComment.WellFormed (comment : BlockComment) : Prop where
  indent : Fragment.OfRun blanks comment.indent
  body : ¬ closer <:+: comment.body
  trailing : ∀ f ∈ comment.trailing, f.IsTail

-- The bytes of the comment are looked through, and not all bytes there are.
instance (comment : LineComment) : Decidable comment.WellFormed :=
  haveI := List.decidableBAll (fun b => lineEnds.contains b = false) comment.body
  haveI (b? : Option UInt8) : Decidable (∀ b ∈ b?, blanks.contains b = false) :=
    Option.decidableForallMem b?
  decidable_of_iff' _ (LineComment.wellFormed_iff comment)

instance (comment : BlockComment) : Decidable comment.WellFormed :=
  decidable_of_iff' _ (BlockComment.wellFormed_iff comment)

/-! ### Line comments -/

namespace LineComment

variable {comment : LineComment} {bytes rest : Bytes}

/-- Written in front of `rest`, the comment ends there. -/
structure Leads (comment : LineComment) (rest : Bytes) : Prop where
  wellFormed : comment.WellFormed
  tail : Fragment.TailBefore comment.trailing rest
  endsLine_or_nil : Fragment.EndsLine comment.trailing ∨ rest = []

/-- The gap takes all blanks behind the marker. -/
theorem Leads.stops_gap (h : comment.Leads rest) :
    blanks.Stops (comment.body ++ (Fragment.source? comment.trailing ++ rest)) := by
  by_cases hbody : comment.body = []
  · -- line ends come next, or the end of the source
    rw [hbody, List.nil_append]
    rcases htrailing : comment.trailing with - | f
    · have hrest : rest = [] := by
        refine h.endsLine_or_nil.resolve_left ?_
        rw [htrailing]
        exact Fragment.not_endsLine_none
      rw [hrest]
      exact stops_nil
    · obtain ⟨hne, hspans⟩ := h.wellFormed.trailing_of_nil hbody f htrailing
      exact (ByteSet.stops_append hne).mpr hspans.stops_blanks
  · rw [ByteSet.stops_append hbody]
    exact h.wellFormed.body_first

theorem read_of_leads (h : c.rest = comment.source ++ d.rest) (hl : comment.Leads d.rest) :
    read c = .ok ⟨[.lineComment c.offset d.offset comment.body.length], .found comment⟩ d := by
  simp only [LineComment.source, List.append_assoc] at h
  -- the places behind the indent, the marker, the gap and the body
  obtain ⟨e₁, h₁⟩ := Position.exists_rest h
  obtain ⟨e₂, h₂⟩ := Position.exists_rest h₁
  obtain ⟨e₃, h₃⟩ := Position.exists_rest h₂
  obtain ⟨e₄, h₄⟩ := Position.exists_rest h₃
  have hindent : Fragment.readBlanks c = .ok comment.indent e₁ := by
    refine Fragment.readBlanks_of_rest (by rw [h, h₁]) hl.wellFormed.indent ?_
    rw [h₁]
    exact stops_cons.mpr (by decide)
  have hopener : Scanner.passes opener e₁ = .ok true e₂ :=
    Scanner.passes_of_rest (by rw [h₁, h₂])
  have hgap : Fragment.readBlanks e₂ = .ok comment.gap e₃ := by
    refine Fragment.readBlanks_of_rest (by rw [h₂, h₃]) hl.wellFormed.gap ?_
    rw [h₃]
    exact hl.stops_gap
  have hbody : leadingBody e₃.rest = comment.body := by
    rw [h₃]
    exact leadingBody_append hl.wellFormed.body_line hl.wellFormed.body_last
      ((leadingBody_tail_iff hl.tail).mpr hl.endsLine_or_nil)
  have hskip : Scanner.skip comment.body.length e₃ = .ok () e₄ :=
    Scanner.skip_of_rest (by rw [h₃, h₄])
  have htail : Fragment.readTail e₄ = .ok comment.trailing d :=
    Fragment.readTail_of_rest h₄ hl.tail
  rw [read, Scanner.bind_of_ok Scanner.mark_apply, Scanner.bind_of_ok hindent,
    Scanner.bind_of_ok hopener, if_pos rfl, Scanner.bind_of_ok hgap,
    Scanner.bind_of_ok Scanner.rest_apply]
  rw [hbody, Scanner.bind_of_ok hskip, Scanner.bind_of_ok htail,
    Scanner.bind_of_ok Scanner.offset_apply]
  rfl

theorem read_of_not_opener (h : ¬ opener <+: c.rest.dropWhile blanks.contains) :
    read c = .ok ⟨[], .absent .notLineComment c.offset⟩ c := by
  obtain ⟨w, e, hindent, hrest⟩ := Fragment.exists_readBlanks c
  rw [← hrest] at h
  obtain ⟨e', hopener⟩ := Scanner.passes_of_not_prefix h
  rw [read, Scanner.bind_of_ok Scanner.mark_apply, Scanner.bind_of_ok hindent,
    Scanner.bind_of_ok hopener, if_neg Bool.false_ne_true, Scanner.bind_of_ok Scanner.goTo_mark]
  rfl

/-- Behind an opening marker there is always a line comment. -/
theorem exists_leads (h : opener <+: bytes.dropWhile blanks.contains) :
    ∃ comment : LineComment, ∃ rest, bytes = comment.source ++ rest ∧ comment.Leads rest := by
  obtain ⟨inner, hinner⟩ := h
  obtain ⟨indent, hindent, hindentSource⟩ :=
    Fragment.exists_ofRun (spans_takeWhile (k := blanks) bytes)
  obtain ⟨gapRun, text, rfl, hgapRun, htext⟩ := exists_run blanks inner
  obtain ⟨gap, hgap, rfl⟩ := Fragment.exists_ofRun hgapRun
  obtain ⟨body, behind, rfl, hline, hlast, hbehind⟩ := exists_leadingBody text
  obtain ⟨trailing, rest, rfl, htail⟩ := Fragment.exists_tailBefore behind
  refine ⟨⟨indent, gap, body, trailing⟩, rest, ?_, ⟨?_, htail, ?_⟩⟩
  · rw [← List.takeWhile_append_dropWhile (p := blanks.contains) (l := bytes), ← hinner,
      ← hindentSource]
    simp only [LineComment.source, List.append_assoc]
  · refine ⟨hindent, hgap, hline, ?_, hlast, htail.isTail, ?_⟩
    -- no blank comes behind the gap, be it in the body or in what remains of the line
    · cases body with
      | nil => simp
      | cons b body => exact htext
    · rintro rfl f ⟨⟩
      have hne : f.bytes ≠ [] := (htail.isTail f rfl).1
      exact ⟨hne, (htail.isTail f rfl).spans_lineEnds ((ByteSet.stops_append hne).mp htext)⟩
  · exact (leadingBody_tail_iff htail).mp hbehind

end LineComment

/-! ### Block comments -/

namespace BlockComment

variable {comment : BlockComment} {bytes rest text : Bytes}

/-- Written in front of `rest`, the comment ends there. -/
structure Leads (comment : BlockComment) (rest : Bytes) : Prop where
  wellFormed : comment.WellFormed
  tail : Fragment.TailBefore comment.trailing rest

theorem read_of_leads (h : c.rest = comment.source ++ d.rest) (hl : comment.Leads d.rest) :
    read c = .ok ⟨[.blockComment c.offset d.offset comment.body.length], .found comment⟩ d := by
  simp only [BlockComment.source, List.append_assoc] at h
  -- the places behind the indent, the two markers and the body between them
  obtain ⟨e₁, h₁⟩ := Position.exists_rest h
  obtain ⟨e₂, h₂⟩ := Position.exists_rest h₁
  obtain ⟨e₃, h₃⟩ := Position.exists_rest h₂
  obtain ⟨e₄, h₄⟩ := Position.exists_rest h₃
  have hindent : Fragment.readBlanks c = .ok comment.indent e₁ := by
    refine Fragment.readBlanks_of_rest (by rw [h, h₁]) hl.wellFormed.indent ?_
    rw [h₁]
    exact stops_cons.mpr (by decide)
  have hopener : Scanner.passes opener e₁ = .ok true e₂ :=
    Scanner.passes_of_rest (by rw [h₁, h₂])
  have hbody : leadingBody? e₂.rest = some comment.body := by
    rw [h₂]
    exact leadingBody?_append hl.wellFormed.body
  have hskip : Scanner.skip comment.body.length e₂ = .ok () e₃ :=
    Scanner.skip_of_rest (by rw [h₂, h₃])
  have hcloser : Scanner.skip closer.length e₃ = .ok () e₄ :=
    Scanner.skip_of_rest (by rw [h₃, h₄])
  have htail : Fragment.readTail e₄ = .ok comment.trailing d :=
    Fragment.readTail_of_rest h₄ hl.tail
  rw [read, Scanner.bind_of_ok Scanner.mark_apply, Scanner.bind_of_ok hindent,
    Scanner.bind_of_ok Scanner.offset_apply, Scanner.bind_of_ok hopener, if_pos rfl,
    Scanner.bind_of_ok Scanner.rest_apply]
  rw [hbody]
  -- the branch in which the comment is closed
  show (Scanner.skip comment.body.length >>= _) e₂ = _
  rw [Scanner.bind_of_ok hskip, Scanner.bind_of_ok hcloser, Scanner.bind_of_ok htail,
    Scanner.bind_of_ok Scanner.offset_apply]
  rfl

theorem read_of_not_opener (h : ¬ opener <+: c.rest.dropWhile blanks.contains) :
    read c = .ok ⟨[], .absent .notBlockComment c.offset⟩ c := by
  obtain ⟨w, e, hindent, hrest⟩ := Fragment.exists_readBlanks c
  rw [← hrest] at h
  obtain ⟨e', hopener⟩ := Scanner.passes_of_not_prefix h
  rw [read, Scanner.bind_of_ok Scanner.mark_apply, Scanner.bind_of_ok hindent,
    Scanner.bind_of_ok Scanner.offset_apply, Scanner.bind_of_ok hopener,
    if_neg Bool.false_ne_true, Scanner.bind_of_ok Scanner.goTo_mark]
  rfl

/-- A comment that is never closed is malformed from its opening marker on. -/
theorem read_of_unclosed {opening : Position source} {indent : Bytes}
    (h : c.rest = indent ++ opening.rest) (hindent : blanks.Spans indent)
    (hopening : opening.rest = opener ++ text) (htext : ¬ closer <:+: text) :
    ∃ d, read c = .ok ⟨[.unclosedBlock opening.offset source.length],
      .malformed (.located .unclosedBlock opening.offset source.length)⟩ d := by
  obtain ⟨w, hw, rfl⟩ := Fragment.exists_ofRun hindent
  obtain ⟨d, hd⟩ := Position.exists_rest hopening
  have hblanks : Fragment.readBlanks c = .ok w opening := by
    refine Fragment.readBlanks_of_rest h hw ?_
    rw [hopening]
    exact stops_cons.mpr (by decide)
  have hopener : Scanner.passes opener opening = .ok true d :=
    Scanner.passes_of_rest (by rw [hopening, hd])
  have hbody : leadingBody? d.rest = none := by
    rw [hd]
    exact leadingBody?_eq_none_iff.mpr htext
  refine ⟨d, ?_⟩
  rw [read, Scanner.bind_of_ok Scanner.mark_apply, Scanner.bind_of_ok hblanks,
    Scanner.bind_of_ok Scanner.offset_apply, Scanner.bind_of_ok hopener, if_pos rfl,
    Scanner.bind_of_ok Scanner.rest_apply, hbody]
  rfl

/-- Behind an opening marker that is closed there is a block comment. -/
theorem exists_leads (h : bytes.dropWhile blanks.contains = opener ++ text)
    (htext : closer <:+: text) :
    ∃ comment : BlockComment, ∃ rest, bytes = comment.source ++ rest ∧ comment.Leads rest := by
  obtain ⟨indent, hindent, hindentSource⟩ :=
    Fragment.exists_ofRun (spans_takeWhile (k := blanks) bytes)
  have hsome : leadingBody? text ≠ none := fun hnone => leadingBody?_eq_none_iff.mp hnone htext
  obtain ⟨body, hbody⟩ := Option.ne_none_iff_exists'.mp hsome
  obtain ⟨behind, rfl, hclosed⟩ := exists_of_leadingBody? hbody
  obtain ⟨trailing, rest, rfl, htail⟩ := Fragment.exists_tailBefore behind
  refine ⟨⟨indent, body, trailing⟩, rest, ?_, ⟨⟨hindent, hclosed, htail.isTail⟩, htail⟩⟩
  rw [← List.takeWhile_append_dropWhile (p := blanks.contains) (l := bytes), h, ← hindentSource]
  simp only [BlockComment.source, List.append_assoc]

end BlockComment

/-! ### Loose whitespace -/

namespace Fragment

variable {w : Fragment}

theorem read_of_proper (h : c.rest = w.bytes ++ d.rest) (hw : w.Proper)
    (hrest : whitespace.Stops d.rest) : read c = .ok (.found w) d := by
  have hrun : Scanner.runOf whitespace c = .ok w.bytes d := Scanner.runOf_of_rest h hw.2 hrest
  rw [read, Scanner.bind_of_ok Scanner.offset_apply, Scanner.bind_of_ok hrun,
    Scanner.bind_of_ok (Scanner.ofExcept_of_ok (ofRun_of_ne_nil hw.1 hw.2))]
  rfl

theorem read_of_stops (h : whitespace.Stops c.rest) :
    read c = .ok (.absent .notWhitespace c.offset) c := by
  have hrun : Scanner.runOf whitespace c = .ok [] c := Scanner.runOf_of_rest rfl spans_nil h
  rw [read, Scanner.bind_of_ok Scanner.offset_apply, Scanner.bind_of_ok hrun,
    Scanner.bind_of_ok (Scanner.ofExcept_of_ok ofRun_nil)]
  rfl

end Fragment

end Trivia

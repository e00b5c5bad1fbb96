/-
Trivia/Proofs/Turns.lean

Bodies found one turn at a time.

The readers of comments know where a body ends before they move: they look it
up in the bytes ahead and pass it in one step.  A scanner that only moves finds
the same end in turns.  In a line comment, a turn passes what could be the end
of the line, or else one byte; in a block comment it goes to the next byte that
could begin the closing marker.  Each turn leaves less before it or is the last
one (`Turn`), so turns need no limit to come to an end, and readers made of them
do what the other readers do, at every place of every source
(`LineComment.readByTurns_eq`, `BlockComment.readByTurns_agrees`).
-/
import Trivia.Proofs.Leading

namespace Trivia

open ByteSet

variable {source : Bytes} {c d : Position source}

/-! ### Turns -/

/-- A step of a loop: it answers, or it leaves less before it than there was, and the
next step begins there. -/
structure Turn (ε σ α : Type) (left : σ → Nat) where
  act : EStateM ε σ (Option α)
  moves : ∀ {s s' : σ}, act s = .ok none s' → left s' < left s

namespace Turn

variable {ε σ α : Type} {left : σ → Nat} {t : Turn ε σ α left} {s s' : σ}

/-- One turn after another from a state on, up to the first that answers or breaks off. -/
def loopFrom (t : Turn ε σ α left) (s : σ) : EStateM.Result ε σ α :=
  match _ : t.act s with
  | .ok (some a) s' => .ok a s'
  | .ok none s' => t.loopFrom s'
  | .error cause s' => .error cause s'
termination_by left s
decreasing_by exact t.moves ‹_›

/-- One turn after another from the current state. -/
def loop (t : Turn ε σ α left) : EStateM ε σ α := t.loopFrom

theorem loop_of_some {a : α} (h : t.act s = .ok (some a) s') : t.loop s = .ok a s' := by
  rw [loop, loopFrom]
  split <;> simp_all

theorem loop_of_none (h : t.act s = .ok none s') : t.loop s = t.loop s' := by
  rw [loop, loopFrom]
  split <;> simp_all

theorem loop_of_error {cause : ε} (h : t.act s = .error cause s') :
    t.loop s = .error cause s' := by
  rw [loop, loopFrom]
  split <;> simp_all

end Turn

/-- A turn of a scanner moves on for the next one to begin there. -/
abbrev Scanner.Turn (source : Bytes) (α : Type) :=
  Trivia.Turn Fault (Position source) α fun c => c.rest.length

theorem Position.length_rest_lt (h : c.offset < d.offset) : d.rest.length < c.rest.length := by
  have hle := d.offset_le
  rw [length_rest, length_rest]
  omega

/-! ### Line comments -/

namespace LineComment

variable {body behind : Bytes} {w : Option Fragment}

/-- Passes what could be the end of the line, or else one byte.  The answer is the
offset where the body ends, and the whitespace behind it. -/
def bodyStep : Scanner source (Option (Nat × Option Fragment)) := do
  let stop ← Scanner.offset
  match ← Scanner.lineTail with
  | some run =>
    if endsWithLineEnd run || (← Scanner.atEnd) then
      return some (stop, ← Scanner.ofExcept (Fragment.ofRun run))
    else return none
  | none =>
    match ← Scanner.takeByte with
    | some _ => return none
    | none => return some (stop, none)

/-- At the end of the body, a step passes the rest of the line and answers. -/
theorem bodyStep_of_tail (h : c.rest = Fragment.source? w ++ d.rest)
    (hw : Fragment.TailBefore w d.rest) (hend : Fragment.EndsLine w ∨ d.rest = []) :
    bodyStep c = .ok (some (c.offset, w)) d := by
  rw [bodyStep, Scanner.bind_of_ok Scanner.offset_apply,
    Scanner.bind_of_ok (Fragment.lineTail_of_tailBefore h hw)]
  cases w with
  | none =>
    obtain rfl : c = d := Position.ext_rest h
    have hnil : c.rest = [] := hend.resolve_left Fragment.not_endsLine_none
    show (Scanner.takeByte >>= _) c = _
    rw [Scanner.bind_of_ok (Scanner.takeByte_of_nil hnil)]
    rfl
  | some f =>
    have htail : f.IsTail := hw.isTail f rfl
    have hstop : (endsWithLineEnd f.bytes || d.rest.isEmpty) = true := by
      rwa [Bool.or_eq_true, htail.endsWithLineEnd_iff, List.isEmpty_iff]
    have hmake : Fragment.ofRun f.bytes = .ok (some f) :=
      Fragment.ofRun_of_ne_nil htail.1 hw.spans
    show (Scanner.atEnd >>= _) d = _
    rw [Scanner.bind_of_ok Scanner.atEnd_apply, if_pos hstop,
      Scanner.bind_of_ok (Scanner.ofExcept_of_ok hmake)]
    rfl

/-- Blanks that more of the line comes behind are passed, and found to end no line. -/
theorem bodyStep_of_gap {f : Fragment} (h : c.rest = f.bytes ++ d.rest)
    (hf : Fragment.TailBefore (some f) d.rest) (hline : ¬ Fragment.EndsLine (some f))
    (hne : d.rest ≠ []) : bodyStep c = .ok none d := by
  have hgo : ¬ (endsWithLineEnd f.bytes || d.rest.isEmpty) = true := by
    rw [Bool.or_eq_true, (hf.isTail f rfl).endsWithLineEnd_iff, List.isEmpty_iff]
    exact not_or.mpr ⟨hline, hne⟩
  rw [bodyStep, Scanner.bind_of_ok Scanner.offset_apply,
    Scanner.bind_of_ok (Fragment.lineTail_of_tailBefore (w := some f) h hf)]
  show (Scanner.atEnd >>= _) d = _
  rw [Scanner.bind_of_ok Scanner.atEnd_apply, if_neg hgo]
  rfl

/-- A byte that is no whitespace is passed alone. -/
theorem bodyStep_of_byte {b : UInt8} (h : c.rest = b :: d.rest) (hb : whitespace.Stops c.rest) :
    bodyStep c = .ok none d := by
  rw [bodyStep, Scanner.bind_of_ok Scanner.offset_apply,
    Scanner.bind_of_ok (Fragment.lineTail_of_stops hb)]
  show (Scanner.takeByte >>= _) c = _
  rw [Scanner.bind_of_ok (Scanner.takeByte_of_rest h)]
  rfl

/-- Within the body, a step passes some of it and does not answer. -/
theorem bodyStep_of_body (h : c.rest = body ++ behind) (hne : body ≠ [])
    (hline : ∀ b ∈ body, lineEnds.contains b = false)
    (hlast : ∀ b ∈ body.getLast?, blanks.contains b = false) :
    ∃ passed left, ∃ d : Position source, body = passed ++ left ∧ passed ≠ [] ∧
      d.rest = left ++ behind ∧ bodyStep c = .ok none d := by
  obtain ⟨pad, text, rfl, hpad, htext⟩ := exists_run blanks body
  -- the body does not end with the blanks it begins with
  have hnil : text ≠ [] := by
    rintro rfl
    rw [List.append_nil] at hne hlast
    have hblank := hpad _ (List.getLast_mem hne)
    rw [hlast _ (List.getLast?_eq_some_getLast hne)] at hblank
    cases hblank
  obtain ⟨b, text, rfl⟩ := List.exists_cons_of_ne_nil hnil
  obtain ⟨w, hw, rfl⟩ := Fragment.exists_ofRun hpad
  have hb : lineEnds.contains b = false := hline b (by simp)
  have hstop : whitespace.Stops (b :: text ++ behind) :=
    stops_whitespace.mpr ⟨stops_cons.mpr (stops_cons.mp htext), stops_cons.mpr hb⟩
  rw [List.append_assoc] at h
  cases w with
  | none =>
    -- no blanks come first, and one byte is passed
    have hbyte : c.rest = [b] ++ (text ++ behind) := h
    obtain ⟨d, hd⟩ := Position.exists_rest hbyte
    rw [← hd] at hbyte
    exact ⟨[b], text, d, rfl, List.cons_ne_nil b [], hd, bodyStep_of_byte hbyte (h ▸ hstop)⟩
  | some f =>
    obtain ⟨e, he⟩ := Position.exists_rest h
    have hgap : c.rest = f.bytes ++ e.rest := by rw [h, he]; rfl
    have hmore : e.rest ≠ [] := by
      rw [he]
      exact List.cons_ne_nil b _
    exact ⟨f.bytes, b :: text, e, rfl, (hw f rfl).1, he,
      bodyStep_of_gap hgap (hw.tailBefore (he ▸ hstop)) hw.not_endsLine hmore⟩

theorem bodyStep_moves (h : bodyStep c = .ok none d) : c.offset < d.offset := by
  obtain ⟨body, behind, hrest, hline, hlast, hbehind⟩ := exists_leadingBody c.rest
  by_cases hne : body = []
  · -- the line ends here, so the step would have answered
    obtain ⟨w, rest, rfl, htail⟩ := Fragment.exists_tailBefore behind
    rw [hne, List.nil_append] at hrest
    obtain ⟨e, rfl⟩ := Position.exists_rest hrest
    rw [bodyStep_of_tail hrest htail ((leadingBody_tail_iff htail).mp hbehind)] at h
    cases h
  · obtain ⟨passed, left, e, rfl, hpassed, he, hstep⟩ :=
      bodyStep_of_body hrest hne hline hlast
    rw [hstep] at h
    obtain ⟨-, rfl⟩ := EStateM.Result.ok.inj h
    rw [List.append_assoc, ← he] at hrest
    have hoff : e.offset = c.offset + passed.length := Position.offset_of_rest hrest
    have hpos : 0 < passed.length := List.length_pos_iff.mpr hpassed
    omega

/-- The steps that look for the end of the body. -/
def bodyTurn : Scanner.Turn source (Nat × Option Fragment) where
  act := bodyStep
  moves h := Position.length_rest_lt (bodyStep_moves h)

/-- In turns, the body is passed, and the rest of the line behind it. -/
theorem loop_bodyTurn (h : c.rest = body ++ (Fragment.source? w ++ d.rest))
    (hline : ∀ b ∈ body, lineEnds.contains b = false)
    (hlast : ∀ b ∈ body.getLast?, blanks.contains b = false)
    (hw : Fragment.TailBefore w d.rest) (hend : Fragment.EndsLine w ∨ d.rest = []) :
    bodyTurn.loop c = .ok (c.offset + body.length, w) d := by
  -- a turn passes any number of blanks, so the induction is on how much of the body is left
  induction hlen : body.length using Nat.strong_induction_on generalizing body c with
  | _ length ih =>
    by_cases hne : body = []
    · subst hne hlen
      exact bodyTurn.loop_of_some (bodyStep_of_tail h hw hend)
    · obtain ⟨passed, left, e, rfl, hpassed, he, hstep⟩ := bodyStep_of_body h hne hline hlast
      have hpos : 0 < passed.length := List.length_pos_iff.mpr hpassed
      rw [List.length_append] at hlen
      rw [List.append_assoc, ← he] at h
      have hoff : e.offset = c.offset + passed.length := Position.offset_of_rest h
      have hleft : ∀ b ∈ left.getLast?, blanks.contains b = false := by
        intro b hb
        refine hlast b ?_
        rw [List.getLast?_append, Option.mem_def.mp hb]
        rfl
      rw [bodyTurn.loop_of_none hstep,
        ih left.length (by omega) he (fun b hb => hline b (List.mem_append_right passed hb))
          hleft rfl, hoff, ← hlen, Nat.add_assoc]

/-- A line comment, the end of its body found in turns. -/
def readByTurns : Scanner source (Logged (Attempt LineComment)) := do
  let start ← Scanner.mark
  let indent ← Fragment.readBlanks
  if ← Scanner.passes opener then
    let gap ← Fragment.readBlanks
    let bodyStart ← Scanner.offset
    let (bodyStop, trailing) ← bodyTurn.loop
    let body ← Scanner.cut bodyStart bodyStop
    let stop ← Scanner.offset
    return ⟨[.lineComment start.offset stop body.length], .found ⟨indent, gap, body, trailing⟩⟩
  else
    Scanner.goTo start
    return ⟨[], ← Scanner.ofExcept (Attempt.absentAt .notLineComment start.offset)⟩

theorem readByTurns_eq : (readByTurns : Scanner source _) = read := by
  rw [read, readByTurns]
  refine bind_congr fun start => bind_congr fun indent => bind_congr fun opens => ?_
  split
  · refine bind_congr fun gap => funext fun c => ?_
    -- the readers part behind the gap, and meet again behind the rest of the line
    obtain ⟨body, behind, hc, hline, hlast, hbehind⟩ := exists_leadingBody c.rest
    obtain ⟨w, rest, rfl, hw⟩ := Fragment.exists_tailBefore behind
    have hend : Fragment.EndsLine w ∨ rest = [] := (leadingBody_tail_iff hw).mp hbehind
    obtain ⟨e, he⟩ := Position.exists_rest hc
    obtain ⟨d, rfl⟩ := Position.exists_rest he
    have hce : c.rest = body ++ e.rest := by rw [hc, he]
    have hbody : leadingBody c.rest = body := by
      rw [hc]
      exact leadingBody_append hline hlast hbehind
    rw [Scanner.bind_of_ok Scanner.rest_apply, hbody,
      Scanner.bind_of_ok (Scanner.skip_of_rest hce),
      Scanner.bind_of_ok (Fragment.readTail_of_rest he hw),
      Scanner.bind_of_ok Scanner.offset_apply,
      Scanner.bind_of_ok (loop_bodyTurn hc hline hlast hw hend)]
    show (Scanner.cut c.offset (c.offset + body.length) >>= _) d = _
    rw [Scanner.bind_of_ok (Scanner.cut_length_of_rest hce)]
  · rfl

end LineComment

/-! ### Block comments -/

namespace BlockComment

variable {body rest run : Bytes}

/-- Goes to the next byte that could begin the closing marker, and passes the marker
or that byte.  The answer is the offset where the body ends, or that it never does. -/
def bodyStep : Scanner source (Option (Option Nat)) := do
  match ← Scanner.takeUntil 0x2a with
  | none => return some none
  | some _ =>
    match ← Scanner.peek closer.length with
    | none => return some none
    | some ahead =>
      if ahead = closer then
        let stop ← Scanner.offset
        Scanner.skip closer.length
        return some (some stop)
      else
        Scanner.skip 1
        return none

theorem bodyStep_of_closer (h : c.rest = run ++ (closer ++ d.rest)) (hrun : 0x2a ∉ run) :
    bodyStep c = .ok (some (some (c.offset + run.length))) d := by
  obtain ⟨e, he⟩ := Position.exists_rest h
  have hce : c.rest = run ++ e.rest := by rw [h, he]
  have hpeek : Scanner.peek closer.length e = .ok (some closer) e := by
    rw [Scanner.peek_apply, he]
    rfl
  rw [bodyStep, Scanner.bind_of_ok (Scanner.takeUntil_of_rest h hrun he)]
  show (Scanner.peek closer.length >>= _) e = _
  rw [Scanner.bind_of_ok hpeek]
  show (Scanner.offset >>= _) e = _
  rw [Scanner.bind_of_ok Scanner.offset_apply, Scanner.bind_of_ok (Scanner.skip_of_rest he),
    Position.offset_of_rest hce]
  rfl

theorem bodyStep_of_star {b : UInt8} (h : c.rest = run ++ 0x2a :: d.rest) (hrun : 0x2a ∉ run)
    (hd : d.rest = b :: rest) (hb : b ≠ 0x2f) : bodyStep c = .ok none d := by
  obtain ⟨e, he⟩ := Position.exists_rest h
  have hpeek : Scanner.peek closer.length e = .ok (some [0x2a, b]) e := by
    rw [Scanner.peek_apply, he, hd]
    rfl
  have hstar : e.rest = [0x2a] ++ d.rest := he
  have hskip : Scanner.skip 1 e = .ok () d := Scanner.skip_of_rest hstar
  have hne : ¬ [0x2a, b] = closer := by
    intro heq
    exact hb (List.cons_eq_cons.mp (List.cons_eq_cons.mp heq).2).1
  rw [bodyStep, Scanner.bind_of_ok (Scanner.takeUntil_of_rest h hrun he)]
  show (Scanner.peek closer.length >>= _) e = _
  rw [Scanner.bind_of_ok hpeek]
  show (if [0x2a, b] = closer then _ else _ : Scanner source _) e = _
  rw [if_neg hne, Scanner.bind_of_ok hskip]
  rfl

theorem bodyStep_of_end (h : c.rest = run ++ [0x2a]) (hrun : 0x2a ∉ run) :
    ∃ d, bodyStep c = .ok (some none) d := by
  obtain ⟨e, he⟩ := Position.exists_rest h
  have hpeek : Scanner.peek closer.length e = .ok none e := by
    rw [Scanner.peek_apply, he]
    rfl
  refine ⟨e, ?_⟩
  rw [bodyStep, Scanner.bind_of_ok (Scanner.takeUntil_of_rest h hrun he)]
  show (Scanner.peek closer.length >>= _) e = _
  rw [Scanner.bind_of_ok hpeek]
  rfl

theorem bodyStep_of_not_mem (h : 0x2a ∉ c.rest) : bodyStep c = .ok (some none) c := by
  rw [bodyStep, Scanner.bind_of_ok (Scanner.takeUntil_of_not_mem h)]
  rfl

/-- A step finds that the body never ends, or where it ends, or passes a star. -/
theorem bodyStep_cases (c : Position source) :
    (∃ d, bodyStep c = .ok (some none) d) ∨
    (closer <:+: c.rest ∧ ∃ stop d, bodyStep c = .ok (some (some stop)) d) ∨
    ∃ run, ∃ d : Position source, c.rest = run ++ [0x2a] ++ d.rest ∧ bodyStep c = .ok none d := by
  by_cases hstar : 0x2a ∈ c.rest
  · obtain ⟨run, behind, hrest, hrun⟩ := List.eq_append_cons_of_mem hstar
    rcases behind with - | ⟨b, rest⟩
    · exact .inl (bodyStep_of_end hrest hrun)
    by_cases hb : b = 0x2f
    · subst hb
      have hclosed : c.rest = run ++ closer ++ rest := by
        rw [hrest, List.append_assoc]
        rfl
      obtain ⟨d, rfl⟩ := Position.exists_rest hclosed
      exact .inr (.inl ⟨⟨run, d.rest, hclosed.symm⟩, _, d, bodyStep_of_closer hrest hrun⟩)
    · rw [List.append_cons] at hrest
      obtain ⟨d, hd⟩ := Position.exists_rest hrest
      rw [← hd] at hrest
      exact .inr (.inr ⟨run, d, hrest,
        bodyStep_of_star (by rw [hrest, ← List.append_cons]) hrun hd hb⟩)
  · exact .inl ⟨c, bodyStep_of_not_mem hstar⟩

theorem bodyStep_moves (h : bodyStep c = .ok none d) : c.offset < d.offset := by
  rcases bodyStep_cases c with ⟨e, hstep⟩ | ⟨-, stop, e, hstep⟩ | ⟨run, e, hrest, hstep⟩
  · rw [hstep] at h
    cases h
  · rw [hstep] at h
    cases h
  · rw [hstep] at h
    obtain ⟨-, rfl⟩ := EStateM.Result.ok.inj h
    have hoff : e.offset = c.offset + (run ++ [0x2a]).length := Position.offset_of_rest hrest
    rw [List.length_append, List.length_singleton] at hoff
    omega

/-- The steps that look for the closing marker. -/
def bodyTurn : Scanner.Turn source (Option Nat) where
  act := bodyStep
  moves h := Position.length_rest_lt (bodyStep_moves h)

/-- In turns, the body is passed, and the closing marker behind it. -/
theorem loop_bodyTurn_of_closed (h : c.rest = body ++ (closer ++ d.rest))
    (hbody : ¬ closer <:+: body) :
    bodyTurn.loop c = .ok (some (c.offset + body.length)) d := by
  induction hlen : body.length using Nat.strong_induction_on generalizing body c with
  | _ length ih =>
    by_cases hstar : 0x2a ∈ body
    · obtain ⟨run, left, rfl, hrun⟩ := List.eq_append_cons_of_mem hstar
      have hrest : c.rest = run ++ [0x2a] ++ (left ++ (closer ++ d.rest)) := by
        rw [h]
        simp only [List.append_assoc, List.cons_append, List.nil_append]
      obtain ⟨e, he⟩ := Position.exists_rest hrest
      rw [← he] at hrest
      have hoff : e.offset = c.offset + (run ++ [0x2a]).length := Position.offset_of_rest hrest
      -- the byte behind the star is the next of the body, or the star of the marker
      have hnext : ∃ b rest, e.rest = b :: rest ∧ b ≠ 0x2f := by
        cases left with
        | nil => exact ⟨0x2a, 0x2f :: d.rest, he, by decide⟩
        | cons b left =>
          refine ⟨b, _, he, ?_⟩
          rintro rfl
          exact hbody ⟨run, left, by rw [List.append_assoc]; rfl⟩
      obtain ⟨b, rest, hb, hne⟩ := hnext
      have hstep : bodyStep c = .ok none e :=
        bodyStep_of_star (by rw [hrest, ← List.append_cons]) hrun hb hne
      have hleft : ¬ closer <:+: left := fun hin =>
        hbody (hin.trans ⟨run ++ [0x2a], [], by rw [List.append_nil, ← List.append_cons]⟩)
      rw [List.length_append, List.length_cons] at hlen
      rw [List.length_append, List.length_singleton] at hoff
      rw [bodyTurn.loop_of_none hstep, ih left.length (by omega) he hleft rfl,
        show e.offset + left.length = c.offset + length by omega]
    · subst hlen
      exact bodyTurn.loop_of_some (bodyStep_of_closer h hstar)

theorem loop_bodyTurn_of_not_closed (h : ¬ closer <:+: c.rest) :
    ∃ d, bodyTurn.loop c = .ok none d := by
  induction hlen : c.rest.length using Nat.strong_induction_on generalizing c with
  | _ length ih =>
    rcases bodyStep_cases c with ⟨d, hstep⟩ | ⟨hclosed, -⟩ | ⟨run, e, hrest, hstep⟩
    · exact ⟨d, bodyTurn.loop_of_some hstep⟩
    · exact absurd hclosed h
    · have hless : e.rest.length < length := by
        rw [← hlen, hrest, List.length_append, List.length_append, List.length_singleton]
        omega
      have hopen : ¬ closer <:+: e.rest := fun hin =>
        h (hin.trans ⟨run ++ [0x2a], [], by rw [List.append_nil, hrest]⟩)
      rw [bodyTurn.loop_of_none hstep]
      exact ih _ hless hopen rfl

/-- A block comment, its closing marker found in turns. -/
def readByTurns : Scanner source (Logged (Attempt BlockComment)) := do
  let start ← Scanner.mark
  let indent ← Fragment.readBlanks
  let opening ← Scanner.offset
  if ← Scanner.passes opener then
    let bodyStart ← Scanner.offset
    match ← bodyTurn.loop with
    | none =>
      return ⟨[.unclosedBlock opening source.length],
        .malformed (.located .unclosedBlock opening source.length)⟩
    | some bodyStop =>
      let body ← Scanner.cut bodyStart bodyStop
      let trailing ← Fragment.readTail
      let stop ← Scanner.offset
      return ⟨[.blockComment start.offset stop body.length], .found ⟨indent, body, trailing⟩⟩
  else
    Scanner.goTo start
    return ⟨[], ← Scanner.ofExcept (Attempt.absentAt .notBlockComment start.offset)⟩

/-- The places around the closing marker of a body that has one. -/
theorem exists_closed (h : closer <:+: c.rest) :
    ∃ body, ∃ e d : Position source, leadingBody? c.rest = some body ∧ ¬ closer <:+: body ∧
      c.rest = body ++ e.rest ∧ e.rest = closer ++ d.rest := by
  have hsome : leadingBody? c.rest ≠ none := fun hnone => leadingBody?_eq_none_iff.mp hnone h
  obtain ⟨body, hbody⟩ := Option.ne_none_iff_exists'.mp hsome
  obtain ⟨behind, hc, hfirst⟩ := exists_of_leadingBody? hbody
  obtain ⟨e, he⟩ := Position.exists_rest hc
  obtain ⟨d, rfl⟩ := Position.exists_rest he
  exact ⟨body, e, d, hbody, hfirst, by rw [hc, he], he⟩

/-- Both readers give one answer, and leave the scanner at one place but behind a
comment that is never closed. -/
theorem readByTurns_agrees (c : Position source) :
    ∃ answer, ∃ d e : Position source, read c = .ok answer d ∧ readByTurns c = .ok answer e ∧
      (answer.value.isMalformed = false → d = e) := by
  obtain ⟨w, c₁, hindent, -⟩ := Fragment.exists_readBlanks c
  rw [read, readByTurns, Scanner.bind_of_ok Scanner.mark_apply, Scanner.bind_of_ok hindent,
    Scanner.bind_of_ok Scanner.offset_apply, Scanner.bind_of_ok Scanner.mark_apply,
    Scanner.bind_of_ok hindent, Scanner.bind_of_ok Scanner.offset_apply]
  by_cases hopen : opener <+: c₁.rest
  · obtain ⟨text, htext⟩ := hopen
    obtain ⟨c₂, rfl⟩ := Position.exists_rest htext.symm
    have hpass : Scanner.passes opener c₁ = .ok true c₂ := Scanner.passes_of_rest htext.symm
    rw [Scanner.bind_of_ok hpass, Scanner.bind_of_ok hpass, if_pos rfl, if_pos rfl,
      Scanner.bind_of_ok Scanner.rest_apply, Scanner.bind_of_ok Scanner.offset_apply]
    by_cases hclosed : closer <:+: c₂.rest
    · obtain ⟨body, c₃, c₄, hbody, hfirst, hc₂, hc₃⟩ := exists_closed hclosed
      obtain ⟨trailing, rest, htail, hrest⟩ := Fragment.exists_tailBefore c₄.rest
      obtain ⟨d, rfl⟩ := Position.exists_rest htail
      have hloop : bodyTurn.loop c₂ = .ok (some (c₂.offset + body.length)) c₄ :=
        loop_bodyTurn_of_closed (by rw [hc₂, hc₃]) hfirst
      refine ⟨⟨[.blockComment c.offset d.offset body.length], .found ⟨w, body, trailing⟩⟩, d, d,
        ?_, ?_, fun _ => rfl⟩
      · rw [hbody]
        show (Scanner.skip body.length >>= _) c₂ = _
        rw [Scanner.bind_of_ok (Scanner.skip_of_rest hc₂),
          Scanner.bind_of_ok (Scanner.skip_of_rest hc₃),
          Scanner.bind_of_ok (Fragment.readTail_of_rest htail hrest)]
        rfl
      · rw [Scanner.bind_of_ok hloop]
        show (Scanner.cut c₂.offset (c₂.offset + body.length) >>= _) c₄ = _
        rw [Scanner.bind_of_ok (Scanner.cut_length_of_rest hc₂),
          Scanner.bind_of_ok (Fragment.readTail_of_rest htail hrest)]
        rfl
    · obtain ⟨e, hloop⟩ := loop_bodyTurn_of_not_closed hclosed
      rw [leadingBody?_eq_none_iff.mpr hclosed, Scanner.bind_of_ok hloop]
      refine ⟨_, c₂, e, rfl, rfl, ?_⟩
      rintro ⟨⟩
  · obtain ⟨c₂, hpass⟩ := Scanner.passes_of_not_prefix hopen
    rw [Scanner.bind_of_ok hpass, Scanner.bind_of_ok hpass, if_neg Bool.false_ne_true,
      if_neg Bool.false_ne_true, Scanner.bind_of_ok Scanner.goTo_mark]
    exact ⟨_, c, c, rfl, rfl, fun _ => rfl⟩

end BlockComment

end Trivia

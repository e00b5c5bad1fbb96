/-
Trivia/Proofs/WordReaders.lean

The readers of comments on cursors of words.

What holds of one operation on words holds of the programs that are made of them.  Here are
the readers of whitespace and comments as such programs (`CursorM.readTail`,
`CursorM.readLine`, `CursorM.readBlock` and so on), the loops that look for the end of a
body included: every offset they keep, compare and cut by is a word, and every sum and
difference is checked.  In a buffer that fits into memory each of them does at a cursor what
the reader of a scanner does at the position (`simulates_readLine` and the others), so
readers that return there return here, and no check of a sum or a difference fails on their
way.

The loops come to an end from every cursor, also from one outside its buffer: a turn that
does not answer has passed a byte, and the offset it has come to is a word again.
-/
import Trivia.Proofs.Turns
import Trivia.Proofs.Words

namespace Trivia

variable {source : Bytes} {α β γ : Type}

namespace CursorM

open Scanner (bind_of_ok bind_of_error exists_of_bind)

/-! ### Answers in words -/

/-- Where an action answers with words, it is compared with a scanner by what the words
stand for. -/
theorem Simulates.cases {m : CursorM α} {f : α → β} {s : Scanner source β}
    (h : Simulates (f <$> m) s) (c : Position source) :
    (∃ a, ∃ d : Position source, m c.cursor = .ok a d.cursor ∧ s c = .ok (f a) d) ∨
      ∃ cause, ∃ d : Position source,
        m c.cursor = .error (.fault cause) d.cursor ∧ s c = .error cause d := by
  have hc : EStateM.map f m c.cursor = image (s c) := h c
  rw [EStateM.map] at hc
  -- an answer of the one and a fault of the other are not the image of each other
  rcases hm : m c.cursor with ⟨a, k⟩ | ⟨cause, k⟩
  · rcases hs : s c with ⟨b, d⟩ | ⟨cause', d⟩
    · rw [hm, hs] at hc
      obtain ⟨rfl, rfl⟩ := EStateM.Result.ok.inj hc
      exact .inl ⟨a, d, rfl, rfl⟩
    · rw [hm, hs] at hc
      cases hc
  · rcases hs : s c with ⟨b, d⟩ | ⟨cause', d⟩
    · rw [hm, hs] at hc
      cases hc
    · rw [hm, hs] at hc
      obtain ⟨rfl, rfl⟩ := EStateM.Result.error.inj hc
      exact .inr ⟨cause', d, rfl, rfl⟩

/-- Behind an answer in words, the program goes on with the words and the scanner with what
they stand for. -/
theorem Simulates.map_bind {m : CursorM α} {f : α → β} {s : Scanner source β}
    {g : α → CursorM γ} {r : β → Scanner source γ} (hm : Simulates (f <$> m) s)
    (hg : ∀ a, Simulates (g a) (r (f a))) : Simulates (m >>= g) (s >>= r) := by
  intro c
  rcases hm.cases c with ⟨a, d, hok, hs⟩ | ⟨cause, d, herror, hs⟩
  · rw [bind_of_ok hok, bind_of_ok hs]
    exact hg a d
  · rw [bind_of_error herror, bind_of_error hs]
    rfl

/-- A turn of a cursor: it answers, or it comes to a greater offset. -/
abbrev Turn (α : Type) :=
  Trivia.Turn Cursor.Break Cursor α fun k => UInt64.size - k.offset.toNat

/-- Loops do the same where their turns do. -/
theorem Simulates.loop {t : Turn α} {u : Scanner.Turn source β} {f : α → β}
    (h : Simulates (Option.map f <$> t.act) u.act) : Simulates (f <$> t.loop) u.loop := by
  intro c
  show EStateM.map f t.loop c.cursor = image (u.loop c)
  -- both loops go on together, so the measure of either would do
  induction hlen : c.rest.length using Nat.strong_induction_on generalizing c with
  | _ length ih =>
    rcases h.cases c with ⟨- | a, d, ht, hu⟩ | ⟨cause, d, ht, hu⟩
    · rw [EStateM.map, t.loop_of_none ht, u.loop_of_none hu]
      exact ih _ (hlen ▸ u.moves hu) d rfl
    · rw [EStateM.map, t.loop_of_some ht, u.loop_of_some hu]
      rfl
    · rw [EStateM.map, t.loop_of_error ht, u.loop_of_error hu]
      rfl

/-! ### What readers are made of -/

/-- A value whose making may raise a fault. -/
def ofExcept : Except Fault α → CursorM α
  | .ok a => return a
  | .error cause => throw (.fault cause)

/-- Moves past as many bytes as `marker` has, and tells whether they were `marker`. -/
def passes (marker : Bytes) : CursorM Bool := do
  return (← take (UInt64.ofNat marker.length)) == some marker

/-- Spaces and tabs, where there are some. -/
def readBlanks : CursorM (Option Fragment) := do ofExcept (Fragment.ofRun (← runOf .blanks))

/-- Carriage returns and line feeds, where there are some. -/
def readLineEnds : CursorM (Option Fragment) := do ofExcept (Fragment.ofRun (← runOf .lineEnds))

/-- What remains of a line behind its last word, where something does. -/
def readTail : CursorM (Option Fragment) := do
  match ← lineTail with
  | some run => ofExcept (Fragment.ofRun run)
  | none => return none

/-- Any mix of whitespace, as one standalone fragment. -/
def readWhitespace : CursorM (Attempt Fragment) := do
  let start ← offset
  match ← ofExcept (Fragment.ofRun (← runOf .whitespace)) with
  | some w => return .found w
  | none => ofExcept (Attempt.absentAt .notWhitespace start.toNat)

/-! ### Where operations leave a cursor -/

section
variable {k l : Cursor} {a : α}

theorem atEnd_apply :
    atEnd k = .ok (decide ((UInt64.ofNat k.buffer.length).toNat ≤ k.offset.toNat)) k := rfl

theorem eq_of_window {start stop : UInt64} {bytes : Bytes}
    (h : window start stop k = .ok bytes l) :
    l = k ∧ bytes = (k.buffer.drop start.toNat).take (stop.toNat - start.toNat) := by
  have hget : (get : CursorM Cursor) k = .ok k k := rfl
  rw [window, bind_of_ok hget] at h
  change (ite _ _ _ : CursorM Bytes) k = _ at h
  split_ifs at h
  · cases h
  · cases h
  · cases h
    exact ⟨rfl, rfl⟩

/-- Behind a look at what remains, a program goes on from where it was. -/
theorem exists_of_rest_bind {f : Bytes → CursorM α} (h : (rest >>= f) k = .ok a l) :
    ∃ ahead, f ahead k = .ok a l := by
  obtain ⟨ahead, k', hrest, hf⟩ := exists_of_bind h
  rw [rest, bind_of_ok offset_apply, bind_of_ok size_apply] at hrest
  obtain ⟨rfl, -⟩ := eq_of_window hrest
  exact ⟨ahead, hf⟩

theorem exists_of_peek_bind {n : UInt64} {f : Option Bytes → CursorM α}
    (h : (peek n >>= f) k = .ok a l) : ∃ run?, f run? k = .ok a l := by
  obtain ⟨run?, k', hpeek, hf⟩ := exists_of_bind h
  obtain ⟨ahead, hanswer⟩ := exists_of_rest_bind hpeek
  cases hanswer
  exact ⟨_, hf⟩

theorem offset_of_pass {n : UInt64} (h : pass n k = .ok () l) :
    l.offset.toNat = k.offset.toNat + n.toNat := by
  rw [pass, bind_of_ok offset_apply] at h
  obtain ⟨sum, k', hplus, hmove⟩ := exists_of_bind h
  rw [plus] at hplus
  split_ifs at hplus with hsum
  · cases hplus
    cases hmove
    exact (UInt64.toNat_add _ _).trans (Nat.mod_eq_of_lt hsum)
  · cases hplus

theorem offset_le_of_pass {n : UInt64} (h : pass n k = .ok () l) :
    k.offset.toNat ≤ l.offset.toNat := by
  rw [offset_of_pass h]
  exact Nat.le_add_right _ _

theorem offset_of_skip {n : UInt64} (h : skip n k = .ok () l) :
    l.offset.toNat = k.offset.toNat + n.toNat := by
  rw [skip, bind_of_ok size_apply, bind_of_ok offset_apply] at h
  obtain ⟨left, k', hminus, hpass⟩ := exists_of_bind h
  rw [minus] at hminus
  split_ifs at hminus
  · cases hminus
    split_ifs at hpass
    · exact offset_of_pass hpass
    · cases hpass
  · cases hminus

theorem offset_le_of_take {n : UInt64} {run? : Option Bytes} (h : take n k = .ok run? l) :
    k.offset.toNat ≤ l.offset.toNat := by
  obtain ⟨- | run, hmove⟩ := exists_of_peek_bind h
  · cases hmove
    exact Nat.le_refl _
  · obtain ⟨⟨⟩, l', hpass, hanswer⟩ := exists_of_bind hmove
    cases hanswer
    exact offset_le_of_pass hpass

theorem offset_lt_of_takeByte {b : UInt8} (h : takeByte k = .ok (some b) l) :
    k.offset.toNat < l.offset.toNat := by
  obtain ⟨- | ⟨b', tail⟩, hmove⟩ := exists_of_rest_bind h
  · cases hmove
  · obtain ⟨⟨⟩, l', hpass, hanswer⟩ := exists_of_bind hmove
    cases hanswer
    rw [offset_of_pass hpass]
    exact Nat.lt_succ_self _

theorem offset_le_of_takeWhile {keep : UInt8 → Bool} {run : Bytes}
    (h : takeWhile keep k = .ok run l) : k.offset.toNat ≤ l.offset.toNat := by
  rw [takeWhile, bind_of_ok offset_apply] at h
  obtain ⟨ahead, hmove⟩ := exists_of_rest_bind h
  obtain ⟨⟨⟩, l', hpass, hrun⟩ := exists_of_bind hmove
  rw [bind_of_ok offset_apply] at hrun
  obtain ⟨rfl, -⟩ := eq_of_window hrun
  exact offset_le_of_pass hpass

theorem offset_le_of_takeUntil {byte : UInt8} {run? : Option Bytes}
    (h : takeUntil byte k = .ok run? l) : k.offset.toNat ≤ l.offset.toNat := by
  obtain ⟨ahead, htake⟩ := exists_of_rest_bind h
  rcases hindex : ahead.idxOf? byte with - | i
  · rw [hindex] at htake
    cases htake
    exact Nat.le_refl _
  · rw [hindex] at htake
    exact offset_le_of_take htake

/-- The rest of a line is passed, and some of it where there is some. -/
theorem offset_of_lineTail {run? : Option Bytes} (h : lineTail k = .ok run? l) :
    k.offset.toNat ≤ l.offset.toNat ∧ ∀ run ∈ run?, k.offset.toNat < l.offset.toNat := by
  rw [lineTail, bind_of_ok offset_apply] at h
  obtain ⟨pad, k₁, hpad, hlines⟩ := exists_of_bind h
  obtain ⟨ends, k₂, hends, hsince⟩ := exists_of_bind hlines
  obtain ⟨run, k₃, hpassed, hanswer⟩ := exists_of_bind hsince
  rw [passedSince, bind_of_ok offset_apply] at hpassed
  obtain ⟨rfl, hrun⟩ := eq_of_window hpassed
  cases hanswer
  have hle := (offset_le_of_takeWhile hpad).trans (offset_le_of_takeWhile hends)
  refine ⟨hle, fun run' hrun' => ?_⟩
  -- no byte lies between two offsets that are the same
  refine Nat.lt_of_le_of_ne hle fun heq => ?_
  rw [heq, Nat.sub_self, List.take_zero] at hrun
  subst hrun
  cases hrun'

theorem left_lt (h : k.offset.toNat < l.offset.toNat) :
    UInt64.size - l.offset.toNat < UInt64.size - k.offset.toNat := by
  have hword := l.offset.toNat_lt_size
  omega

end

/-! ### Line comments -/

/-- Passes what could be the end of the line, or else one byte.  The answer is the offset where
the body ends, and the whitespace behind it. -/
def lineStep : CursorM (Option (UInt64 × Option Fragment)) := do
  let stop ← offset
  match ← lineTail with
  | some run =>
    if endsWithLineEnd run || (← atEnd) then
      return some (stop, ← ofExcept (Fragment.ofRun run))
    else return none
  | none =>
    match ← takeByte with
    | some _ => return none
    | none => return some (stop, none)

theorem lineStep_moves {k l : Cursor} (h : lineStep k = .ok none l) :
    k.offset.toNat < l.offset.toNat := by
  rw [lineStep, bind_of_ok offset_apply] at h
  obtain ⟨- | run, k', htail, hbody⟩ := exists_of_bind h
  · obtain ⟨- | b, k'', hbyte, hanswer⟩ := exists_of_bind hbody
    · cases hanswer
    · cases hanswer
      exact Nat.lt_of_le_of_lt (offset_of_lineTail htail).1 (offset_lt_of_takeByte hbyte)
  · replace hbody : (atEnd >>= _) k' = _ := hbody
    rw [bind_of_ok atEnd_apply] at hbody
    split_ifs at hbody
    · obtain ⟨w, k'', -, hanswer⟩ := exists_of_bind hbody
      cases hanswer
    · cases hbody
      exact (offset_of_lineTail htail).2 run rfl

/-- The steps that look for the end of the body. -/
def lineTurn : Turn (UInt64 × Option Fragment) where
  act := lineStep
  moves h := left_lt (lineStep_moves h)

/-- A comment that runs to the end of its line. -/
def readLine : CursorM (Logged (Attempt LineComment)) := do
  let start ← offset
  let indent ← readBlanks
  if ← passes LineComment.opener then
    let gap ← readBlanks
    let bodyStart ← offset
    let (bodyStop, trailing) ← lineTurn.loop
    let body ← window bodyStart bodyStop
    let stop ← offset
    return ⟨[.lineComment start.toNat stop.toNat body.length], .found ⟨indent, gap, body, trailing⟩⟩
  else
    goTo start
    return ⟨[], ← ofExcept (Attempt.absentAt .notLineComment start.toNat)⟩

/-! ### Block comments -/

/-- Goes to the next byte that could begin the closing marker, and passes the marker or that
byte.  The answer is the offset where the body ends, or that it never does. -/
def blockStep : CursorM (Option (Option UInt64)) := do
  match ← takeUntil 0x2a with
  | none => return some none
  | some _ =>
    match ← peek (UInt64.ofNat BlockComment.closer.length) with
    | none => return some none
    | some ahead =>
      if ahead = BlockComment.closer then
        let stop ← offset
        skip (UInt64.ofNat BlockComment.closer.length)
        return some (some stop)
      else
        skip 1
        return none

theorem blockStep_moves {k l : Cursor} (h : blockStep k = .ok none l) :
    k.offset.toNat < l.offset.toNat := by
  obtain ⟨- | run, k', huntil, hstar⟩ := exists_of_bind h
  · cases hstar
  obtain ⟨- | ahead, hmarker⟩ := exists_of_peek_bind hstar
  · cases hmarker
  replace hmarker : (ite _ _ _ : CursorM _) k' = _ := hmarker
  split_ifs at hmarker
  · rw [bind_of_ok offset_apply] at hmarker
    obtain ⟨⟨⟩, k'', -, hanswer⟩ := exists_of_bind hmarker
    cases hanswer
  · obtain ⟨⟨⟩, k'', hskip, hanswer⟩ := exists_of_bind hmarker
    cases hanswer
    rw [offset_of_skip hskip]
    exact Nat.lt_succ_of_le (offset_le_of_takeUntil huntil)

/-- The steps that look for the closing marker. -/
def blockTurn : Turn (Option UInt64) where
  act := blockStep
  moves h := left_lt (blockStep_moves h)

/-- A comment between two markers. -/
def readBlock : CursorM (Logged (Attempt BlockComment)) := do
  let start ← offset
  let indent ← readBlanks
  let opening ← offset
  if ← passes BlockComment.opener then
    let bodyStart ← offset
    match ← blockTurn.loop with
    | none =>
      let length ← size
      return ⟨[.unclosedBlock opening.toNat length.toNat],
        .malformed (.located .unclosedBlock opening.toNat length.toNat)⟩
    | some bodyStop =>
      let body ← window bodyStart bodyStop
      let trailing ← readTail
      let stop ← offset
      return ⟨[.blockComment start.toNat stop.toNat body.length],
        .found ⟨indent, body, trailing⟩⟩
  else
    goTo start
    return ⟨[], ← ofExcept (Attempt.absentAt .notBlockComment start.toNat)⟩

/-! ### Readers do what the readers of scanners do -/

theorem simulates_ofExcept (value : Except Fault α) :
    Simulates (ofExcept value) (Scanner.ofExcept value : Scanner source α) := by
  cases value with
  | ok a => exact .pure a
  | error cause => exact fun _ => rfl

section
variable (hsource : source.length < UInt64.size)
include hsource

theorem simulates_offset :
    Simulates (UInt64.toNat <$> offset) (Scanner.offset : Scanner source Nat) := by
  intro c
  show EStateM.Result.ok c.cursor.offset.toNat c.cursor = _
  rw [toNat_offset_cursor hsource]
  rfl

theorem simulates_mark :
    Simulates ((fun o => ⟨UInt64.toNat o⟩) <$> offset) (Scanner.mark : Scanner source Mark) := by
  intro c
  show EStateM.Result.ok (⟨c.cursor.offset.toNat⟩ : Mark) c.cursor = _
  rw [toNat_offset_cursor hsource]
  rfl

theorem simulates_passes {marker : Bytes} (h : marker.length < UInt64.size) :
    Simulates (passes marker) (Scanner.passes marker : Scanner source Bool) := by
  have htake := simulates_take hsource (UInt64.ofNat marker.length)
  rw [UInt64.toNat_ofNat_of_lt' h] at htake
  exact htake.bind fun _ => .pure _

/-- Whatever run is scanned, a fragment is made of it alike. -/
theorem simulates_readRun (k : ByteSet) :
    Simulates (do ofExcept (Fragment.ofRun (← runOf k)))
      (do Scanner.ofExcept (Fragment.ofRun (← Scanner.runOf k)) : Scanner source _) :=
  (simulates_takeWhile hsource _).bind fun _ => simulates_ofExcept _

theorem simulates_readTail :
    Simulates readTail (Fragment.readTail : Scanner source (Option Fragment)) := by
  refine (simulates_lineTail hsource).bind fun run? => ?_
  cases run? with
  | some run => exact simulates_ofExcept _
  | none => exact .pure none

theorem simulates_readWhitespace :
    Simulates readWhitespace (Fragment.read : Scanner source (Attempt Fragment)) := by
  refine (simulates_offset hsource).map_bind fun start =>
    (simulates_takeWhile hsource _).bind fun run => (simulates_ofExcept _).bind fun w => ?_
  cases w with
  | some w => exact .pure _
  | none => exact simulates_ofExcept _

theorem simulates_lineStep :
    Simulates (Option.map (Prod.map UInt64.toNat id) <$> lineStep)
      (LineComment.bodyStep : Scanner source (Option (Nat × Option Fragment))) := by
  rw [lineStep, map_bind]
  refine (simulates_offset hsource).map_bind fun stop => ?_
  rw [map_bind]
  refine (simulates_lineTail hsource).bind fun run? => ?_
  cases run? with
  | some run =>
    dsimp only
    rw [map_bind]
    refine (simulates_atEnd hsource).bind fun last => ?_
    split_ifs
    · rw [map_bind]
      exact (simulates_ofExcept _).bind fun w => .pure (some (stop.toNat, w))
    · exact .pure none
  | none =>
    dsimp only
    rw [map_bind]
    refine (simulates_takeByte hsource).bind fun b? => ?_
    cases b? with
    | some b => exact .pure none
    | none => exact .pure (some (stop.toNat, none))

theorem simulates_readLine :
    Simulates readLine (LineComment.readByTurns : Scanner source _) := by
  have hloop : Simulates (Prod.map UInt64.toNat id <$> lineTurn.loop)
      (LineComment.bodyTurn.loop : Scanner source _) :=
    Simulates.loop (simulates_lineStep hsource)
  refine (simulates_mark hsource).map_bind fun start =>
    (simulates_readRun hsource _).bind fun indent =>
    (simulates_passes hsource (by decide)).bind fun opens => ?_
  split_ifs
  · refine (simulates_readRun hsource _).bind fun gap =>
      (simulates_offset hsource).map_bind fun bodyStart => hloop.map_bind fun ⟨bodyStop, w⟩ => ?_
    exact (simulates_window _ _).bind fun body =>
      (simulates_offset hsource).map_bind fun stop => .pure _
  · exact (simulates_goTo hsource start).bind fun _ => (simulates_ofExcept _).bind fun _ => .pure _

theorem simulates_blockStep :
    Simulates (Option.map (Option.map UInt64.toNat) <$> blockStep)
      (BlockComment.bodyStep : Scanner source (Option (Option Nat))) := by
  rw [blockStep, map_bind]
  refine (simulates_takeUntil hsource _).bind fun run? => ?_
  cases run? with
  | none => exact .pure (some none)
  | some run =>
    dsimp only
    rw [map_bind]
    refine (simulates_peek hsource _).bind fun ahead? => ?_
    cases ahead? with
    | none => exact .pure (some none)
    | some ahead =>
      dsimp only
      split_ifs
      · rw [map_bind]
        refine (simulates_offset hsource).map_bind fun stop => ?_
        rw [map_bind]
        exact (simulates_skip hsource _).bind fun _ => .pure (some (some stop.toNat))
      · rw [map_bind]
        exact (simulates_skip hsource 1).bind fun _ => .pure none

theorem simulates_readBlock :
    Simulates readBlock (BlockComment.readByTurns : Scanner source _) := by
  have hloop : Simulates (Option.map UInt64.toNat <$> blockTurn.loop)
      (BlockComment.bodyTurn.loop : Scanner source _) :=
    Simulates.loop (simulates_blockStep hsource)
  refine (simulates_mark hsource).map_bind fun start =>
    (simulates_readRun hsource _).bind fun indent =>
    (simulates_offset hsource).map_bind fun opening =>
    (simulates_passes hsource (by decide)).bind fun opens => ?_
  split_ifs
  · refine (simulates_offset hsource).map_bind fun bodyStart => hloop.map_bind fun bodyStop? => ?_
    cases bodyStop? with
    | none =>
      intro c
      show (size >>= _) c.cursor = _
      rw [bind_of_ok size_apply, toNat_size_cursor hsource]
      rfl
    | some bodyStop =>
      exact (simulates_window _ _).bind fun body => (simulates_readTail hsource).bind fun trailing =>
        (simulates_offset hsource).map_bind fun stop => .pure _
  · exact (simulates_goTo hsource start).bind fun _ => (simulates_ofExcept _).bind fun _ => .pure _

end

end CursorM

end Trivia

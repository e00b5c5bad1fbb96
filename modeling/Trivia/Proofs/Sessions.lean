/-
Trivia/Proofs/Sessions.lean

Histories of a cursor.

At every position an operation does one of three things (`Scanner.Op.does`): it raises the
fault that it has to raise there, it says that the input ends because it asks for more than
remains, or it answers.  It stays where it is in the first two, so there is nothing to undo
behind a failure.

A session is a cursor of machine words together with the copies that were taken of it.  The
positions of a source carry over every history of it, whatever words the operations are
called with and wherever the marks among them come from: the cursor keeps to the buffer, no
sum of offsets overflows, and a move that fails leaves the session as it was
(`Session.sound_after`).
-/
import Trivia.Proofs.Words

namespace Trivia

variable {source : Bytes}

/-! ### What an operation can do -/

namespace Scanner

/-- The fault that an operation raises at a position. -/
def Op.fault? (c : Position source) : Op source → Option Fault
  | .skip n => if c.rest.length < n then some (.skipTooFar n c.offset source.length) else none
  | .back n => if c.offset < n then some (.backTooFar n c.offset) else none
  | .goTo saved =>
    if source.length < saved.offset then some (.foreignMark saved.offset source.length) else none
  | .passedSince saved =>
    if c.offset < saved.offset then some (.reversedCut saved.offset c.offset) else none
  | .cut start stop =>
    if stop < start then some (.reversedCut start stop)
    else if source.length < stop then some (.cutOutside stop source.length)
    else none
  | _ => none

/-- The operation asks for more than remains at a position. -/
def Op.Short (c : Position source) : Op source → Prop
  | .peek n | .take n => c.rest.length < n
  | .takeByte => c.rest = []
  | .takeUntil byte => byte ∉ c.rest
  | _ => False

/-- What an operation does at a position: it raises a fault or says that the input ends, and
stays where it is, or it answers. -/
inductive Op.Does (op : Op source) (c : Position source) : Prop
  | faults (cause : Fault) (hfault : op.fault? c = some cause) (hshort : ¬op.Short c)
      (hrun : op.run c = .error cause c)
  | ends (hfault : op.fault? c = none) (hshort : op.Short c) (hrun : op.run c = .ok .endOfInput c)
  | answers (reply : Reply) (d : Position source) (hfault : op.fault? c = none)
      (hshort : ¬op.Short c) (hne : reply ≠ .endOfInput) (hrun : op.run c = .ok reply d)

theorem cut_of_fault {c : Position source} {start stop : Nat} {cause : Fault}
    (h : (Op.cut start stop).fault? c = some cause) : cut start stop c = .error cause c := by
  rw [cut]
  simp only [Op.fault?] at h
  split_ifs at h ⊢
  · exact Option.some.inj h ▸ rfl
  · exact Option.some.inj h ▸ rfl

theorem cut_of_no_fault {c : Position source} {start stop : Nat}
    (h : (Op.cut start stop).fault? c = none) :
    cut start stop c = .ok ((source.drop start).take (stop - start)) c := by
  rw [cut]
  simp only [Op.fault?] at h
  split_ifs at h ⊢
  rfl

/-- What was passed is cut at an offset of the source, so only its start can be wrong. -/
theorem Op.fault?_passedSince (saved : Mark) (c : Position source) :
    (Op.passedSince saved).fault? c = (Op.cut saved.offset c.offset).fault? c := by
  have hend : ¬ source.length < c.offset := Nat.not_lt.mpr c.offset_le
  simp only [fault?, if_neg hend]

theorem Op.does (op : Op source) (c : Position source) : op.Does c := by
  cases op with
  | offset => exact .answers _ _ rfl id (by rintro ⟨⟩) rfl
  | sourceLength => exact .answers _ _ rfl id (by rintro ⟨⟩) rfl
  | atEnd => exact .answers _ _ rfl id (by rintro ⟨⟩) rfl
  | rest => exact .answers _ _ rfl id (by rintro ⟨⟩) rfl
  | peek n =>
    by_cases hn : n ≤ c.rest.length
    · have hpeek : Scanner.peek n c = .ok (some (c.rest.take n)) c := by rw [peek_apply, if_pos hn]
      exact .answers _ _ rfl (Nat.not_lt.mpr hn) (by rintro ⟨⟩) (bind_of_ok hpeek)
    · have hpeek : Scanner.peek n c = .ok none c := by rw [peek_apply, if_neg hn]
      exact .ends rfl (Nat.not_le.mp hn) (bind_of_ok hpeek)
  | take n =>
    by_cases hn : n ≤ c.rest.length
    · have htake : Scanner.take n c = .ok (some (c.rest.take n)) (c.forward n hn) := dif_pos hn
      exact .answers _ _ rfl (Nat.not_lt.mpr hn) (by rintro ⟨⟩) (bind_of_ok htake)
    · have htake : Scanner.take n c = .ok none c := dif_neg hn
      exact .ends rfl (Nat.not_le.mp hn) (bind_of_ok htake)
  | takeByte =>
    rcases hrest : c.rest with - | ⟨b, tail⟩
    · exact .ends rfl hrest (bind_of_ok (takeByte_of_nil hrest))
    · have hsplit : c.rest = [b] ++ tail := hrest
      obtain ⟨d, rfl⟩ := Position.exists_rest hsplit
      have hne : c.rest ≠ [] := by
        rw [hrest]
        rintro ⟨⟩
      exact .answers _ _ rfl hne (by rintro ⟨⟩) (bind_of_ok (takeByte_of_rest hrest))
  | skip n =>
    by_cases hn : n ≤ c.rest.length
    · have hskip : Scanner.skip n c = .ok () (c.forward n hn) := dif_pos hn
      exact .answers _ _ (if_neg (Nat.not_lt.mpr hn)) id (by rintro ⟨⟩) (bind_of_ok hskip)
    · have hskip : Scanner.skip n c = .error (.skipTooFar n c.offset source.length) c := dif_neg hn
      exact .faults _ (if_pos (Nat.not_le.mp hn)) id (bind_of_error hskip)
  | back n =>
    by_cases hn : n ≤ c.offset
    · have hback : Scanner.back n c = .ok () (.seek (c.offset - n) _) := if_pos hn
      exact .answers _ _ (if_neg (Nat.not_lt.mpr hn)) id (by rintro ⟨⟩) (bind_of_ok hback)
    · have hback : Scanner.back n c = .error (.backTooFar n c.offset) c := if_neg hn
      exact .faults _ (if_pos (Nat.not_le.mp hn)) id (bind_of_error hback)
  | mark => exact .answers _ _ rfl id (by rintro ⟨⟩) rfl
  | goTo saved =>
    by_cases hn : saved.offset ≤ source.length
    · have hgo : Scanner.goTo saved c = .ok () (.seek saved.offset hn) := dif_pos hn
      exact .answers _ _ (if_neg (Nat.not_lt.mpr hn)) id (by rintro ⟨⟩) (bind_of_ok hgo)
    · have hgo : Scanner.goTo saved c = .error (.foreignMark saved.offset source.length) c :=
        dif_neg hn
      exact .faults _ (if_pos (Nat.not_le.mp hn)) id (bind_of_error hgo)
  | passedSince saved =>
    have hpassed : Scanner.passedSince saved c = Scanner.cut saved.offset c.offset c := rfl
    rcases hfault : (Op.passedSince saved).fault? c with - | cause
    · have hcut := hpassed.trans (cut_of_no_fault (fault?_passedSince saved c ▸ hfault))
      exact .answers _ _ hfault id (by rintro ⟨⟩) (bind_of_ok hcut)
    · have hcut := hpassed.trans (cut_of_fault (fault?_passedSince saved c ▸ hfault))
      exact .faults _ hfault id (bind_of_error hcut)
  | cut start stop =>
    rcases hfault : (Op.cut start stop).fault? c with - | cause
    · exact .answers _ _ hfault id (by rintro ⟨⟩) (bind_of_ok (cut_of_no_fault hfault))
    · exact .faults _ hfault id (bind_of_error (cut_of_fault hfault))
  | takeWhile keep => exact .answers _ _ rfl id (by rintro ⟨⟩) rfl
  | takeUntil byte =>
    by_cases hmem : byte ∈ c.rest
    · obtain ⟨run, tail, hrest, hrun⟩ := List.eq_append_cons_of_mem hmem
      obtain ⟨d, hd⟩ := Position.exists_rest hrest
      exact .answers _ _ rfl (not_not.mpr hmem) (by rintro ⟨⟩)
        (bind_of_ok (takeUntil_of_rest hrest hrun hd))
    · exact .ends rfl hmem (bind_of_ok (takeUntil_of_not_mem hmem))
  | runOf k => exact .answers _ _ rfl id (by rintro ⟨⟩) rfl
  | blanks => exact .answers _ _ rfl id (by rintro ⟨⟩) rfl
  | lineEnds => exact .answers _ _ rfl id (by rintro ⟨⟩) rfl
  | lineTail =>
    obtain ⟨w, rest, hc, hw⟩ := Fragment.exists_tailBefore c.rest
    obtain ⟨d, rfl⟩ := Position.exists_rest hc
    exact .answers _ _ rfl id (by rintro ⟨⟩) (bind_of_ok (Fragment.lineTail_of_tailBefore hc hw))
  | load copy => exact .answers _ _ rfl id (by rintro ⟨⟩) rfl

end Scanner

/-! ### Sessions -/

open CursorM (Call)
open Scanner (Op Reply)

/-- A cursor and the copies that were taken of it, in the order they were taken. -/
structure Session where
  cursor : Cursor
  copies : List Cursor
  deriving DecidableEq, Repr

namespace Session

/-- One move of a session. -/
inductive Move
  | call (f : Call)
  /-- Takes a copy of the cursor. -/
  | copy
  /-- Replaces the cursor by one of its copies, where there is such a copy. -/
  | load (i : Nat)

/-- The session at the start of a source. -/
def start (source : Bytes) : Session := ⟨(Position.start source).cursor, []⟩

/-- Makes a move, and keeps what it leaves behind also where it breaks off. -/
def step (s : Session) : Move → Except Cursor.Break Reply × Session
  | .call f =>
    match f.run s.cursor with
    | .ok reply k => (.ok reply, { s with cursor := k })
    | .error cause k => (.error cause, { s with cursor := k })
  | .copy => (.ok .nothing, { s with copies := s.copies ++ [s.cursor] })
  | .load i => (.ok .nothing, { s with cursor := s.copies[i]?.getD s.cursor })

/-- The session behind a history of moves. -/
def after (s : Session) (history : List Move) : Session :=
  history.foldl (fun s move => (s.step move).2) s

/-- The answer of a move that fails: the input ended, or the move broke off. -/
def Fails (answer : Except Cursor.Break Reply) : Prop :=
  answer = .ok .endOfInput ∨ ∃ cause, answer = .error cause

theorem not_fails_nothing : ¬Fails (.ok .nothing) := by
  rintro (h | ⟨cause, h⟩)
  · cases h
  · cases h

/-- The cursor and its copies are those of positions in the source. -/
structure OfPositions (source : Bytes) (s : Session) : Prop where
  cursor : ∃ c : Position source, s.cursor = c.cursor
  copies : ∀ k ∈ s.copies, ∃ d : Position source, k = d.cursor

variable {s : Session}

theorem step_of_ok {f : Call} {reply : Reply} {k : Cursor} (h : f.run s.cursor = .ok reply k) :
    s.step (.call f) = (.ok reply, { s with cursor := k }) := by
  rw [step, h]

theorem step_of_error {f : Call} {cause : Cursor.Break} {k : Cursor}
    (h : f.run s.cursor = .error cause k) :
    s.step (.call f) = (.error cause, { s with cursor := k }) := by
  rw [step, h]

theorem ofPositions_start (source : Bytes) : (start source).OfPositions source where
  cursor := ⟨_, rfl⟩
  copies _ hk := absurd hk List.not_mem_nil

section
variable (hsource : source.length < UInt64.size)
include hsource

/-- A call does to a session what its operation does at the position of the cursor. -/
theorem step_call_cases {c : Position source} (hc : s.cursor = c.cursor) (f : Call) :
    (∃ cause, (f.op : Op source).fault? c = some cause ∧ ¬f.op.Short c ∧
      s.step (.call f) = (.error (.fault cause), s)) ∨
    ((f.op : Op source).fault? c = none ∧ f.op.Short c ∧
      s.step (.call f) = (.ok .endOfInput, s)) ∨
    ∃ reply, ∃ d : Position source, (f.op : Op source).fault? c = none ∧ ¬f.op.Short c ∧
      reply ≠ .endOfInput ∧ s.step (.call f) = (.ok reply, { s with cursor := d.cursor }) := by
  have hsim : f.run s.cursor = CursorM.image ((f.op : Op source).run c) := by
    rw [hc, f.simulates_op hsource]
  rcases (f.op : Op source).does c with ⟨cause, hfault, hshort, hrun⟩ | ⟨hfault, hshort, hrun⟩
      | ⟨reply, d, hfault, hshort, hne, hrun⟩
  · have hstay : f.run s.cursor = .error (.fault cause) s.cursor := by
      rw [hsim, hrun, hc]
      rfl
    exact .inl ⟨cause, hfault, hshort, step_of_error hstay⟩
  · have hstay : f.run s.cursor = .ok .endOfInput s.cursor := by
      rw [hsim, hrun, hc]
      rfl
    exact .inr (.inl ⟨hfault, hshort, step_of_ok hstay⟩)
  · have hmove : f.run s.cursor = .ok reply d.cursor := by
      rw [hsim, hrun]
      rfl
    exact .inr (.inr ⟨reply, d, hfault, hshort, hne, step_of_ok hmove⟩)

theorem ends_iff {c : Position source} (hc : s.cursor = c.cursor) (f : Call) :
    (s.step (.call f)).1 = .ok .endOfInput ↔ (f.op : Op source).Short c := by
  rcases step_call_cases hsource hc f with ⟨cause, -, hnot, hstep⟩ | ⟨-, hshort, hstep⟩
      | ⟨reply, d, -, hnot, hne, hstep⟩
  · rw [hstep]
    exact ⟨(by rintro ⟨⟩), fun h => absurd h hnot⟩
  · rw [hstep]
    exact ⟨fun _ => hshort, fun _ => rfl⟩
  · rw [hstep]
    exact ⟨fun h => absurd (Except.ok.inj h) hne, fun h => absurd h hnot⟩

theorem breaks_iff {c : Position source} (hc : s.cursor = c.cursor) (f : Call) :
    (∃ cause, (s.step (.call f)).1 = .error cause) ↔
      ∃ cause, (f.op : Op source).fault? c = some cause := by
  rcases step_call_cases hsource hc f with ⟨cause, hfault, -, hstep⟩ | ⟨hnone, -, hstep⟩
      | ⟨reply, d, hnone, -, -, hstep⟩
  · rw [hstep]
    exact ⟨fun _ => ⟨cause, hfault⟩, fun _ => ⟨_, rfl⟩⟩
  · rw [hstep, hnone]
    constructor <;> rintro ⟨_, ⟨⟩⟩
  · rw [hstep, hnone]
    constructor <;> rintro ⟨_, ⟨⟩⟩

/-- Where the one fault of an operation is raised on a condition, the call breaks off on it. -/
theorem breaks_iff_of_guard {c : Position source} (hc : s.cursor = c.cursor) {f : Call}
    {p : Prop} [Decidable p] {fault : Fault}
    (hfault : (f.op : Op source).fault? c = if p then some fault else none) :
    (∃ cause, (s.step (.call f)).1 = .error cause) ↔ p := by
  rw [breaks_iff hsource hc, hfault]
  split_ifs with hp
  · exact ⟨fun _ => hp, fun _ => ⟨fault, rfl⟩⟩
  · exact ⟨(by rintro ⟨_, ⟨⟩⟩), fun hp' => absurd hp' hp⟩

theorem step_ne_overflow {c : Position source} (hc : s.cursor = c.cursor) (move : Move) :
    (s.step move).1 ≠ .error .overflow := by
  cases move with
  | call f =>
    rcases step_call_cases hsource hc f with ⟨cause, -, -, hstep⟩ | ⟨-, -, hstep⟩
      | ⟨reply, d, -, -, -, hstep⟩
    all_goals
      rw [hstep]
      rintro ⟨⟩
  | copy => rintro ⟨⟩
  | load i => rintro ⟨⟩

/-- A move that fails has not changed the session. -/
theorem step_of_fails {c : Position source} (hc : s.cursor = c.cursor) {move : Move}
    (h : Fails (s.step move).1) : (s.step move).2 = s := by
  cases move with
  | call f =>
    rcases step_call_cases hsource hc f with ⟨cause, -, -, hstep⟩ | ⟨-, -, hstep⟩
      | ⟨reply, d, -, -, hne, hstep⟩
    · rw [hstep]
    · rw [hstep]
    · rw [hstep] at h
      rcases h with hends | ⟨cause, hbreak⟩
      · exact absurd (Except.ok.inj hends) hne
      · cases hbreak
  | copy => exact absurd h not_fails_nothing
  | load i => exact absurd h not_fails_nothing

/-- No move leaves the positions of the source. -/
theorem OfPositions.step (h : s.OfPositions source) (move : Move) :
    (s.step move).2.OfPositions source := by
  obtain ⟨c, hc⟩ := h.cursor
  cases move with
  | call f =>
    rcases step_call_cases hsource hc f with ⟨cause, -, -, hstep⟩ | ⟨-, -, hstep⟩
      | ⟨reply, d, -, -, -, hstep⟩
    · rw [hstep]
      exact h
    · rw [hstep]
      exact h
    · rw [hstep]
      exact ⟨⟨d, rfl⟩, h.copies⟩
  | copy =>
    refine ⟨h.cursor, fun k hk => ?_⟩
    rcases List.mem_append.mp hk with hk | hk
    · exact h.copies k hk
    · exact ⟨c, (List.mem_singleton.mp hk).trans hc⟩
  | load i =>
    refine ⟨?_, h.copies⟩
    rcases hcopy : s.copies[i]? with - | k
    · exact ⟨c, by simpa [Session.step, hcopy] using hc⟩
    · obtain ⟨d, rfl⟩ := h.copies k (List.mem_of_getElem? hcopy)
      exact ⟨d, by simp [Session.step, hcopy]⟩

theorem OfPositions.after (h : s.OfPositions source) (history : List Move) :
    (s.after history).OfPositions source := by
  induction history generalizing s with
  | nil => exact h
  | cons move history ih => exact ih (h.step hsource move)

end

/-- What holds of a session in a source at any time, and of the move that comes next. -/
structure Sound (source : Bytes) (s : Session) : Prop where
  /-- The cursor is in the buffer, and so are its copies. -/
  buffer_eq : ∀ k ∈ s.cursor :: s.copies, k.buffer = source
  offset_le : ∀ k ∈ s.cursor :: s.copies, k.offset.toNat ≤ source.length
  /-- The cursor is that of a position, and every call does to it what the operation of a
  scanner does there. -/
  simulates : ∃ c : Position source, s.cursor = c.cursor ∧ c.offset = s.cursor.offset.toNat ∧
    ∀ f : Call, f.run s.cursor = CursorM.image ((f.op : Op source).run c)
  no_overflow : ∀ move, (s.step move).1 ≠ .error .overflow
  /-- A move that fails leaves the session as it was. -/
  stays : ∀ move, Fails (s.step move).1 → (s.step move).2 = s
  peek_iff : ∀ n, (s.step (.call (.peek n))).1 = .ok .endOfInput ↔
    source.length - s.cursor.offset.toNat < n.toNat
  take_iff : ∀ n, (s.step (.call (.take n))).1 = .ok .endOfInput ↔
    source.length - s.cursor.offset.toNat < n.toNat
  skip_iff : ∀ n, (∃ cause, (s.step (.call (.skip n))).1 = .error cause) ↔
    source.length - s.cursor.offset.toNat < n.toNat
  back_iff : ∀ n, (∃ cause, (s.step (.call (.back n))).1 = .error cause) ↔
    s.cursor.offset.toNat < n.toNat
  goTo_iff : ∀ saved, (∃ cause, (s.step (.call (.goTo saved))).1 = .error cause) ↔
    source.length < saved.toNat

theorem OfPositions.sound (hsource : source.length < UInt64.size) (h : s.OfPositions source) :
    s.Sound source := by
  obtain ⟨c, hc⟩ := h.cursor
  have hoffset : s.cursor.offset.toNat = c.offset := by
    rw [hc, CursorM.toNat_offset_cursor hsource]
  have hlength : c.rest.length = source.length - s.cursor.offset.toNat := by
    rw [hoffset, Position.length_rest]
  have hall : ∀ k ∈ s.cursor :: s.copies, ∃ d : Position source, k = d.cursor :=
    List.forall_mem_cons.mpr ⟨h.cursor, h.copies⟩
  exact {
    buffer_eq := by
      intro k hk
      obtain ⟨d, rfl⟩ := hall k hk
      rfl
    offset_le := by
      intro k hk
      obtain ⟨d, rfl⟩ := hall k hk
      rw [CursorM.toNat_offset_cursor hsource]
      exact d.offset_le
    simulates := ⟨c, hc, hoffset.symm, fun f => by rw [hc, f.simulates_op hsource]⟩
    no_overflow := step_ne_overflow hsource hc
    stays := fun _ => step_of_fails hsource hc
    peek_iff := fun n => hlength ▸ ends_iff hsource hc (.peek n)
    take_iff := fun n => hlength ▸ ends_iff hsource hc (.take n)
    skip_iff := fun n => hlength ▸ breaks_iff_of_guard (f := .skip n) hsource hc rfl
    back_iff := fun n => hoffset ▸ breaks_iff_of_guard (f := .back n) hsource hc rfl
    goTo_iff := fun saved => breaks_iff_of_guard (f := .goTo saved) hsource hc rfl }

/-- **A cursor keeps to its buffer** over every history of moves, with any words and any marks:
it stays in the source, no move overflows, a move that fails changes nothing, and reading and
moving fail exactly where too few bytes are ahead or behind. -/
theorem sound_after {source : Bytes} (hsource : source.length < UInt64.size)
    (history : List Move) : ((start source).after history).Sound source :=
  ((ofPositions_start source).after hsource history).sound hsource

/-- A source of six bytes, with counts and marks from far outside of it. -/
theorem sound_after_of_far_words :
    [0x2f, 0x2f, 0x20, 0x61, 0x20, 0x0a].length < UInt64.size ∧
    ((start [0x2f, 0x2f, 0x20, 0x61, 0x20, 0x0a]).after
      [.call (.take 2), .copy, .call (.skip 0xffffffffffffffff), .call .blanks,
        .call (.goTo 0xfffffffffffffffe), .call (.back 4), .call (.peek 0xffffffffffffffff),
        .load 0, .call (.takeUntil 0x0a), .call .lineTail, .call (.back 7)]).Sound
      [0x2f, 0x2f, 0x20, 0x61, 0x20, 0x0a] :=
  ⟨by decide, sound_after (by decide) _⟩

end Session

end Trivia

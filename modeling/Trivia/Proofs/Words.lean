/-
Trivia/Proofs/Words.lean

Cursors in memory: a buffer and an offset that is a machine word.

A `Position` cannot leave its source, because the bound is a field, and its offsets are
numbers of any size.  In memory there is a buffer and a word, and the type bounds neither
the word nor the sums of words, so all that keeps the offset in the buffer is what the
operations check before they move.  Here they are written on words (`CursorM`): every sum
and difference is checked for its own, and every range of the buffer is.  In a buffer that
fits into memory each of them does what the scanner does at the position the cursor is at
(`CursorM.Simulates`), faults and places behind them included, and so no check of a sum, a
difference or a range ever fails there.
-/
import Trivia.Proofs.Scanning
import Trivia.Scanner.Op

namespace Trivia

variable {source : Bytes} {α β : Type}

/-! ### Operations on words -/

/-- A buffer and an offset, which nothing keeps inside of it. -/
structure Cursor where
  buffer : Bytes
  offset : UInt64
  deriving DecidableEq, Repr

/-- What ends an operation of a cursor without an answer. -/
inductive Cursor.Break
  /-- The contract of an operation is broken. -/
  | fault (cause : Fault)
  /-- A sum or a difference of offsets is no word. -/
  | overflow
  deriving DecidableEq, Repr

/-- An action on a cursor, which keeps the cursor it leaves behind also where it breaks off. -/
abbrev CursorM := EStateM Cursor.Break Cursor

namespace CursorM

/-- The sum of two words. -/
def plus (a b : UInt64) : CursorM UInt64 :=
  if a.toNat + b.toNat < UInt64.size then return a + b else throw .overflow

/-- The difference of two words. -/
def minus (a b : UInt64) : CursorM UInt64 :=
  if b.toNat ≤ a.toNat then return a - b else throw .overflow

/-- The current offset. -/
def offset : CursorM UInt64 := do return (← get).offset

/-- The length of the buffer. -/
def size : CursorM UInt64 := do return UInt64.ofNat (← get).buffer.length

/-- Moves to an offset, which is not checked. -/
def moveTo (o : UInt64) : CursorM Unit := modify fun c => { c with offset := o }

/-- Moves on by `n` bytes, without a look at how many remain. -/
def pass (n : UInt64) : CursorM Unit := do moveTo (← plus (← offset) n)

/-- The bytes of the buffer from `start` up to `stop`, which has to be a range of it. -/
def window (start stop : UInt64) : CursorM Bytes := do
  let buffer := (← get).buffer
  if stop.toNat < start.toNat then throw (.fault (.reversedCut start.toNat stop.toNat))
  else if buffer.length < stop.toNat then throw (.fault (.cutOutside stop.toNat buffer.length))
  else return (buffer.drop start.toNat).take (stop.toNat - start.toNat)

/-- The bytes from here on. -/
def rest : CursorM Bytes := do window (← offset) (← size)

/-- Nothing remains. -/
def atEnd : CursorM Bool := do return decide ((← size).toNat ≤ (← offset).toNat)

/-- The next `n` bytes, without moving. -/
def peek (n : UInt64) : CursorM (Option Bytes) := do
  let ahead ← rest
  return if n.toNat ≤ ahead.length then some (ahead.take n.toNat) else none

/-- The next `n` bytes, moving past them. -/
def take (n : UInt64) : CursorM (Option Bytes) := do
  match ← peek n with
  | some run => do
    pass n
    return some run
  | none => return none

/-- The next byte, moving past it. -/
def takeByte : CursorM (Option UInt8) := do
  match ← rest with
  | b :: _ => do
    pass 1
    return some b
  | [] => return none

/-- Past the next `n` bytes. -/
def skip (n : UInt64) : CursorM Unit := do
  let length ← size
  let start ← offset
  let left ← minus length start
  if n.toNat ≤ left.toNat then pass n
  else throw (.fault (.skipTooFar n.toNat start.toNat length.toNat))

/-- Back over `n` bytes. -/
def back (n : UInt64) : CursorM Unit := do
  let start ← offset
  if n.toNat ≤ start.toNat then moveTo (← minus start n)
  else throw (.fault (.backTooFar n.toNat start.toNat))

/-- To a saved offset. -/
def goTo (saved : UInt64) : CursorM Unit := do
  let length ← size
  if saved.toNat ≤ length.toNat then moveTo saved
  else throw (.fault (.foreignMark saved.toNat length.toNat))

/-- The bytes passed since a saved offset. -/
def passedSince (saved : UInt64) : CursorM Bytes := do window saved (← offset)

/-- The longest run of bytes that satisfy `keep`, moving past it. -/
def takeWhile (keep : UInt8 → Bool) : CursorM Bytes := do
  let start ← offset
  let count := ((← rest).takeWhile keep).length
  pass (UInt64.ofNat count)
  window start (← offset)

/-- The bytes before the next `byte`, found by its index in what remains. -/
def takeUntil (byte : UInt8) : CursorM (Option Bytes) := do
  match (← rest).idxOf? byte with
  | some i => take (UInt64.ofNat i)
  | none => return none

/-- The longest run of bytes in a set. -/
def runOf (k : ByteSet) : CursorM Bytes := takeWhile k.contains

/-- What remains of a line behind its last word, as one run. -/
def lineTail : CursorM (Option Bytes) := do
  let start ← offset
  let _ ← runOf .blanks
  let _ ← runOf .lineEnds
  let run ← passedSince start
  return if run.isEmpty then none else some run

end CursorM

/-! ### Cursors of positions -/

/-- The cursor of a position. -/
def Position.cursor (c : Position source) : Cursor := ⟨source, UInt64.ofNat c.offset⟩

@[simp] theorem Position.buffer_cursor (c : Position source) : c.cursor.buffer = source := rfl

namespace CursorM

/-- What becomes of a cursor where a scanner does so with its position. -/
def image : EStateM.Result Fault (Position source) α → EStateM.Result Cursor.Break Cursor α
  | .ok a d => .ok a d.cursor
  | .error cause d => .error (.fault cause) d.cursor

/-- The action does to the cursor of every position what the scanner does to the position. -/
def Simulates (m : CursorM α) (s : Scanner source α) : Prop :=
  ∀ c : Position source, m c.cursor = image (s c)

/-! ### Steps -/

open Scanner (bind_of_ok)

@[simp] theorem offset_apply {k : Cursor} : offset k = .ok k.offset k := rfl

@[simp] theorem size_apply {k : Cursor} : size k = .ok (UInt64.ofNat k.buffer.length) k := rfl

theorem plus_of_lt {a b : UInt64} {k : Cursor} (h : a.toNat + b.toNat < UInt64.size) :
    plus a b k = .ok (UInt64.ofNat (a.toNat + b.toNat)) k := by
  rw [plus, if_pos h, UInt64.ofNat_add, UInt64.ofNat_toNat, UInt64.ofNat_toNat]
  rfl

theorem minus_of_le {a b : UInt64} {k : Cursor} (h : b.toNat ≤ a.toNat) :
    minus a b k = .ok (UInt64.ofNat (a.toNat - b.toNat)) k := by
  have hle : b ≤ a := UInt64.le_iff_toNat_le.mpr h
  rw [minus, if_pos h, ← UInt64.toNat_sub_of_le _ _ hle, UInt64.ofNat_toNat]
  rfl

namespace Simulates

protected theorem pure (a : α) : Simulates (pure a) (pure a : Scanner source α) := fun _ => rfl

protected theorem bind {m : CursorM α} {s : Scanner source α} {f : α → CursorM β}
    {g : α → Scanner source β} (hm : Simulates m s) (hf : ∀ a, Simulates (f a) (g a)) :
    Simulates (m >>= f) (s >>= g) := by
  intro c
  show EStateM.bind m f c.cursor = image (EStateM.bind s g c)
  rw [EStateM.bind, EStateM.bind, hm c]
  rcases s c with ⟨a, d⟩ | ⟨cause, d⟩
  · exact hf a d
  · rfl

end Simulates

/-! ### Operations do what scanners do -/

theorem idxOf?_append_cons {run tail : Bytes} {byte : UInt8} (h : byte ∉ run) :
    (run ++ byte :: tail).idxOf? byte = some run.length := by
  induction run with
  | nil => simp [List.idxOf?_cons]
  | cons b run ih =>
    obtain ⟨hne, htail⟩ := not_or.mp (mt List.mem_cons.mpr h)
    rw [List.cons_append, List.idxOf?_cons, if_neg (by simpa using Ne.symm hne), ih htail]
    rfl

/-- A range of the buffer is cut as it is of the source, whoever asks for it. -/
theorem simulates_window (start stop : UInt64) :
    Simulates (window start stop) (Scanner.cut start.toNat stop.toNat : Scanner source Bytes) := by
  intro c
  have hget : (get : CursorM Cursor) c.cursor = .ok c.cursor c.cursor := rfl
  rw [window, bind_of_ok hget, Scanner.cut]
  show (ite _ _ _ : CursorM Bytes) c.cursor = _
  rw [Position.buffer_cursor]
  by_cases horder : stop.toNat < start.toNat
  · rw [if_pos horder, if_pos horder]
    rfl
  · rw [if_neg horder, if_neg horder]
    by_cases hend : source.length < stop.toNat
    · rw [if_pos hend, if_pos hend]
      rfl
    · rw [if_neg hend, if_neg hend]
      rfl

section
variable (hsource : source.length < UInt64.size)
include hsource

theorem toNat_offset_cursor (c : Position source) : c.cursor.offset.toNat = c.offset :=
  UInt64.toNat_ofNat_of_lt' (Nat.lt_of_le_of_lt c.offset_le hsource)

theorem toNat_size_cursor (c : Position source) :
    (UInt64.ofNat c.cursor.buffer.length).toNat = source.length :=
  UInt64.toNat_ofNat_of_lt' hsource

theorem rest_cursor (c : Position source) : rest c.cursor = .ok c.rest c.cursor := by
  have hend : (Position.seek source.length (Nat.le_refl _)).rest = [] := List.drop_length
  have hsplit : c.rest = c.rest ++ (Position.seek source.length (Nat.le_refl _)).rest := by
    rw [hend, List.append_nil]
  have hcut : Scanner.cut c.offset source.length c = .ok c.rest c := Scanner.cut_of_rest hsplit
  rw [rest, bind_of_ok offset_apply, bind_of_ok size_apply, simulates_window,
    toNat_offset_cursor hsource, toNat_size_cursor hsource, hcut]
  rfl

theorem pass_cursor {c d : Position source} {n : UInt64} (h : d.offset = c.offset + n.toNat) :
    pass n c.cursor = .ok () d.cursor := by
  have hoffset := toNat_offset_cursor hsource c
  have hle := d.offset_le
  rw [pass, bind_of_ok offset_apply, bind_of_ok (plus_of_lt (by omega)), hoffset, ← h]
  rfl

theorem simulates_atEnd : Simulates atEnd (Scanner.atEnd : Scanner source Bool) := by
  intro c
  have hend : decide ((UInt64.ofNat c.cursor.buffer.length).toNat ≤ c.cursor.offset.toNat)
      = c.atEnd := by
    have hle := c.offset_le
    rw [toNat_offset_cursor hsource, toNat_size_cursor hsource, Bool.eq_iff_iff,
      decide_eq_true_iff, Position.atEnd_iff]
    omega
  rw [atEnd, bind_of_ok size_apply, bind_of_ok offset_apply, hend]
  rfl

theorem simulates_peek (n : UInt64) :
    Simulates (peek n) (Scanner.peek n.toNat : Scanner source (Option Bytes)) := by
  intro c
  rw [peek, bind_of_ok (rest_cursor hsource c), Scanner.peek_apply]
  rfl

theorem simulates_take (n : UInt64) :
    Simulates (take n) (Scanner.take n.toNat : Scanner source (Option Bytes)) := by
  intro c
  rw [take, bind_of_ok (simulates_peek hsource n c), Scanner.take]
  split_ifs with h
  · have hpass : pass n c.cursor = .ok () (c.forward n.toNat h).cursor := pass_cursor hsource rfl
    exact bind_of_ok hpass
  · rfl

theorem simulates_takeByte :
    Simulates takeByte (Scanner.takeByte : Scanner source (Option UInt8)) := by
  intro c
  rw [takeByte, bind_of_ok (rest_cursor hsource c)]
  rcases hrest : c.rest with - | ⟨b, tail⟩
  · rw [Scanner.takeByte_of_nil hrest]
    rfl
  · have hsplit : c.rest = [b] ++ tail := hrest
    obtain ⟨d, rfl⟩ := Position.exists_rest hsplit
    have hpass : pass 1 c.cursor = .ok () d.cursor :=
      pass_cursor hsource (Position.offset_of_rest hsplit)
    rw [Scanner.takeByte_of_rest hrest]
    exact bind_of_ok hpass

theorem simulates_skip (n : UInt64) :
    Simulates (skip n) (Scanner.skip n.toNat : Scanner source Unit) := by
  intro c
  have hoffset := toNat_offset_cursor hsource c
  have hsize := toNat_size_cursor hsource c
  have hle := c.offset_le
  have hlength := c.length_rest
  have hleft : minus (UInt64.ofNat c.cursor.buffer.length) c.cursor.offset c.cursor
      = .ok (UInt64.ofNat c.rest.length) c.cursor := by
    rw [minus_of_le (by omega), hoffset, hsize, hlength]
  have hcount : (UInt64.ofNat c.rest.length).toNat = c.rest.length :=
    UInt64.toNat_ofNat_of_lt' (by omega)
  rw [skip, bind_of_ok size_apply, bind_of_ok offset_apply, bind_of_ok hleft, hcount, hoffset,
    hsize, Scanner.skip]
  split_ifs with h
  · exact pass_cursor hsource rfl
  · rfl

theorem simulates_back (n : UInt64) :
    Simulates (back n) (Scanner.back n.toNat : Scanner source Unit) := by
  intro c
  have hoffset := toNat_offset_cursor hsource c
  rw [back, bind_of_ok offset_apply, Scanner.back, hoffset]
  split_ifs with h
  · have hminus : minus c.cursor.offset n c.cursor = .ok (UInt64.ofNat (c.offset - n.toNat)) c.cursor := by
      rw [minus_of_le (by omega), hoffset]
    exact bind_of_ok hminus
  · rfl

theorem simulates_goTo (saved : UInt64) :
    Simulates (goTo saved) (Scanner.goTo ⟨saved.toNat⟩ : Scanner source Unit) := by
  intro c
  rw [goTo, bind_of_ok size_apply, Scanner.goTo, toNat_size_cursor hsource]
  split_ifs with h
  · have hseek : (Position.seek saved.toNat h).cursor.offset = saved := UInt64.ofNat_toNat
    show moveTo saved c.cursor = .ok () (Position.seek saved.toNat h).cursor
    conv => lhs; rw [← hseek]
    rfl
  · rfl

theorem simulates_passedSince (saved : UInt64) :
    Simulates (passedSince saved) (Scanner.passedSince ⟨saved.toNat⟩ : Scanner source Bytes) := by
  intro c
  rw [passedSince, bind_of_ok offset_apply, simulates_window, toNat_offset_cursor hsource]
  rfl

theorem simulates_takeWhile (keep : UInt8 → Bool) :
    Simulates (takeWhile keep) (Scanner.takeWhile keep : Scanner source Bytes) := by
  intro c
  have hle := c.length_takeWhile_le keep
  have hlength := c.length_rest
  have hcount : (UInt64.ofNat (c.rest.takeWhile keep).length).toNat = (c.takeWhile keep).length :=
    UInt64.toNat_ofNat_of_lt' (by rw [← Position.takeWhile]; omega)
  have hpass : pass (UInt64.ofNat (c.rest.takeWhile keep).length) c.cursor
      = .ok () (c.dropWhile keep).cursor := pass_cursor hsource (by rw [hcount]; rfl)
  rw [takeWhile, bind_of_ok offset_apply, bind_of_ok (rest_cursor hsource c), bind_of_ok hpass,
    bind_of_ok offset_apply, simulates_window, toNat_offset_cursor hsource,
    toNat_offset_cursor hsource, Scanner.cut_of_rest (c.rest_eq_takeWhile_append keep)]
  rfl

theorem simulates_takeUntil (byte : UInt8) :
    Simulates (takeUntil byte) (Scanner.takeUntil byte : Scanner source (Option Bytes)) := by
  intro c
  rw [takeUntil, bind_of_ok (rest_cursor hsource c)]
  by_cases hmem : byte ∈ c.rest
  · obtain ⟨run, tail, hrest, hrun⟩ := List.eq_append_cons_of_mem hmem
    obtain ⟨d, hd⟩ := Position.exists_rest hrest
    have hindex : c.rest.idxOf? byte = some run.length := by
      rw [hrest, idxOf?_append_cons hrun]
    have hcount : (UInt64.ofNat run.length).toNat = run.length :=
      UInt64.toNat_ofNat_of_lt' (by
        have hlength := c.length_rest
        rw [hrest, List.length_append] at hlength
        omega)
    have htake : Scanner.take run.length c = .ok (some run) d :=
      Scanner.take_of_rest (by rw [hrest, hd])
    rw [hindex, Scanner.takeUntil_of_rest hrest hrun hd, ← htake]
    show take (UInt64.ofNat run.length) c.cursor = _
    rw [simulates_take hsource, hcount]
  · rw [List.idxOf?_eq_none_iff.mpr hmem, Scanner.takeUntil_of_not_mem hmem]
    rfl

theorem simulates_lineTail :
    Simulates lineTail (Scanner.lineTail : Scanner source (Option Bytes)) := by
  intro c
  have hpassed : Simulates (passedSince c.cursor.offset) (Scanner.passedSince c.mark : Scanner source Bytes) := by
    have hsaved := simulates_passedSince hsource c.cursor.offset
    rwa [toNat_offset_cursor hsource] at hsaved
  rw [lineTail, bind_of_ok offset_apply, Scanner.lineTail,
    bind_of_ok Scanner.mark_apply]
  exact ((simulates_takeWhile hsource _).bind fun _ =>
    (simulates_takeWhile hsource _).bind fun _ => hpassed.bind fun _ => .pure _) c

end

/-! ### Calls -/

/-- An operation of a cursor with its arguments, any words at all. -/
inductive Call
  | offset
  | size
  | atEnd
  | rest
  | peek (n : UInt64)
  | take (n : UInt64)
  | takeByte
  | skip (n : UInt64)
  | back (n : UInt64)
  | mark
  | goTo (saved : UInt64)
  | passedSince (saved : UInt64)
  | cut (start stop : UInt64)
  | takeWhile (keep : UInt8 → Bool)
  | takeUntil (byte : UInt8)
  | runOf (k : ByteSet)
  | blanks
  | lineEnds
  | lineTail

open Scanner (Op Reply)

/-- Carries out a call. -/
def Call.run : Call → CursorM Reply
  | .offset => return .number (← CursorM.offset).toNat
  | .size => return .number (← CursorM.size).toNat
  | .atEnd => return .flag (← CursorM.atEnd)
  | .rest => return .bytes (← CursorM.rest)
  | .peek n => return .ofBytes? (← CursorM.peek n)
  | .take n => return .ofBytes? (← CursorM.take n)
  | .takeByte => return .ofByte? (← CursorM.takeByte)
  | .skip n => do CursorM.skip n; return .nothing
  | .back n => do CursorM.back n; return .nothing
  | .mark => return .number (← CursorM.offset).toNat
  | .goTo saved => do CursorM.goTo saved; return .nothing
  | .passedSince saved => return .bytes (← CursorM.passedSince saved)
  | .cut start stop => return .bytes (← CursorM.window start stop)
  | .takeWhile keep => return .bytes (← CursorM.takeWhile keep)
  | .takeUntil byte => return .ofBytes? (← CursorM.takeUntil byte)
  | .runOf k => return .bytes (← CursorM.runOf k)
  | .blanks => return .bytes (← CursorM.runOf .blanks)
  | .lineEnds => return .bytes (← CursorM.runOf .lineEnds)
  | .lineTail => return .fragment? (← CursorM.lineTail)

/-- The operation of a scanner that a call asks for. -/
def Call.op : Call → Op source
  | .offset => .offset
  | .size => .sourceLength
  | .atEnd => .atEnd
  | .rest => .rest
  | .peek n => .peek n.toNat
  | .take n => .take n.toNat
  | .takeByte => .takeByte
  | .skip n => .skip n.toNat
  | .back n => .back n.toNat
  | .mark => .mark
  | .goTo saved => .goTo ⟨saved.toNat⟩
  | .passedSince saved => .passedSince ⟨saved.toNat⟩
  | .cut start stop => .cut start.toNat stop.toNat
  | .takeWhile keep => .takeWhile keep
  | .takeUntil byte => .takeUntil byte
  | .runOf k => .runOf k
  | .blanks => .blanks
  | .lineEnds => .lineEnds
  | .lineTail => .lineTail

/-- A call does to the cursor what its operation does to the position. -/
theorem Call.simulates_op (hsource : source.length < UInt64.size) (call : Call) :
    Simulates call.run (call.op : Op source).run := by
  have hoffset : Simulates (do return .number (← CursorM.offset).toNat)
      (do return .number (← Scanner.offset) : Scanner source Reply) := by
    intro c
    rw [bind_of_ok offset_apply, toNat_offset_cursor hsource]
    rfl
  have hsize : Simulates (do return .number (← CursorM.size).toNat)
      (do return .number source.length : Scanner source Reply) := by
    intro c
    rw [bind_of_ok size_apply, toNat_size_cursor hsource]
    rfl
  cases call with
  | offset => exact hoffset
  | size => exact hsize
  | atEnd => exact (simulates_atEnd hsource).bind fun _ => .pure _
  | rest => exact Simulates.bind (rest_cursor hsource) fun _ => .pure _
  | peek n => exact (simulates_peek hsource n).bind fun _ => .pure _
  | take n => exact (simulates_take hsource n).bind fun _ => .pure _
  | takeByte => exact (simulates_takeByte hsource).bind fun _ => .pure _
  | skip n => exact (simulates_skip hsource n).bind fun _ => .pure _
  | back n => exact (simulates_back hsource n).bind fun _ => .pure _
  | mark => exact hoffset
  | goTo saved => exact (simulates_goTo hsource saved).bind fun _ => .pure _
  | passedSince saved => exact (simulates_passedSince hsource saved).bind fun _ => .pure _
  | cut start stop => exact (simulates_window start stop).bind fun _ => .pure _
  | takeWhile keep => exact (simulates_takeWhile hsource keep).bind fun _ => .pure _
  | takeUntil byte => exact (simulates_takeUntil hsource byte).bind fun _ => .pure _
  | runOf k => exact (simulates_takeWhile hsource _).bind fun _ => .pure _
  | blanks => exact (simulates_takeWhile hsource _).bind fun _ => .pure _
  | lineEnds => exact (simulates_takeWhile hsource _).bind fun _ => .pure _
  | lineTail => exact (simulates_lineTail hsource).bind fun _ => .pure _

end CursorM

end Trivia

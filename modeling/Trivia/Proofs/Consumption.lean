/-
Trivia/Proofs/Consumption.lean

What operations pass is what they hand out.

Some operations look at what is ahead and stay where they are, and some hand out bytes and move
on.  Each of the latter finds its bytes in a way of its own, by their number, by a test, by the
place of the next byte of a kind or by what was passed since a mark, and moves by a number of its
own.  The two agree (`Op.exists_reply`): the bytes it hands out are those between the places, and
it hands out none where the input ends too soon.  So in any sequence of such operations each byte
is handed out once and in order, and nothing that is passed is lost (`Scanner.exists_handsOut`); a
cursor of machine words hands out the same bytes.
-/
import Trivia.Proofs.Words

namespace Trivia

variable {source : Bytes}

open CursorM (Call)

namespace Scanner

/-! ### One operation -/

/-- The bytes in the answer of an operation that hands out what it passes; a number is one
byte. -/
def Reply.run : Reply → Bytes
  | bytes run => run
  | number n => [UInt8.ofNat n]
  | fragment? run => run.getD []
  | nothing | flag _ | endOfInput => []

theorem Reply.run_ofBytes? (run : Option Bytes) : (ofBytes? run).run = run.getD [] := by
  cases run with
  | none => rfl
  | some run => rfl

theorem Reply.run_ofByte? (b : Option UInt8) : (ofByte? b).run = b.toList := by
  cases b with
  | none => rfl
  | some b =>
    show [UInt8.ofNat b.toNat] = [b]
    rw [UInt8.ofNat_toNat]

namespace Op

/-- The operation moves on and hands out what it passes. -/
def consumes : Op source → Bool
  | .take _ | .takeByte | .takeWhile _ | .takeUntil _ | .runOf _ | .blanks | .lineEnds
  | .lineTail => true
  | _ => false

/-- The operation looks around and stays where it is. -/
def looks : Op source → Bool
  | .offset | .sourceLength | .atEnd | .rest | .peek _ | .mark => true
  | _ => false

/-- The operation goes nowhere but past the bytes it hands out. -/
def Forward (op : Op source) : Prop := op.consumes = true ∨ op.looks = true

instance (op : Op source) : Decidable op.Forward :=
  inferInstanceAs (Decidable (op.consumes = true ∨ op.looks = true))

/-- The bytes that an operation hands out with an answer. -/
def handedOut (op : Op source) (reply : Reply) : Bytes := if op.consumes then reply.run else []

end Op

theorem exists_take (n : Nat) (c : Position source) :
    ∃ run, ∃ d : Position source, take n c = .ok run d ∧ c.rest = run.getD [] ++ d.rest := by
  by_cases hn : n ≤ c.rest.length
  · have htake : take n c = .ok (some (c.rest.take n)) (c.forward n hn) := dif_pos hn
    exact ⟨_, _, htake, (List.take_append_drop n c.rest).symm⟩
  · have htake : take n c = .ok none c := dif_neg hn
    exact ⟨_, _, htake, rfl⟩

theorem exists_takeByte (c : Position source) :
    ∃ b, ∃ d : Position source, takeByte c = .ok b d ∧ c.rest = b.toList ++ d.rest := by
  rcases hrest : c.rest with - | ⟨b, tail⟩
  · exact ⟨_, _, takeByte_of_nil hrest, hrest.symm⟩
  · have hsplit : c.rest = [b] ++ tail := hrest
    obtain ⟨d, rfl⟩ := Position.exists_rest hsplit
    exact ⟨_, _, takeByte_of_rest hrest, rfl⟩

theorem exists_takeWhile (keep : UInt8 → Bool) (c : Position source) :
    ∃ run, ∃ d : Position source, takeWhile keep c = .ok run d ∧ c.rest = run ++ d.rest :=
  ⟨_, _, rfl, c.rest_eq_takeWhile_append keep⟩

theorem exists_takeUntil (byte : UInt8) (c : Position source) :
    ∃ run, ∃ d : Position source, takeUntil byte c = .ok run d ∧ c.rest = run.getD [] ++ d.rest := by
  by_cases hmem : byte ∈ c.rest
  · obtain ⟨run, tail, hrest, hrun⟩ := List.eq_append_cons_of_mem hmem
    obtain ⟨d, hd⟩ := Position.exists_rest hrest
    rw [← hd] at hrest
    exact ⟨some run, d, takeUntil_of_rest (hd ▸ hrest) hrun hd, hrest⟩
  · exact ⟨none, c, takeUntil_of_not_mem hmem, rfl⟩

theorem exists_lineTail (c : Position source) :
    ∃ run, ∃ d : Position source, lineTail c = .ok run d ∧ c.rest = run.getD [] ++ d.rest := by
  obtain ⟨w, rest, hrest, hw⟩ := Fragment.exists_tailBefore c.rest
  obtain ⟨d, rfl⟩ := Position.exists_rest hrest
  refine ⟨_, d, Fragment.lineTail_of_tailBefore hrest hw, ?_⟩
  cases w with
  | none => exact hrest
  | some f => exact hrest

/-- An operation that goes forward answers, and ends behind the bytes it hands out. -/
theorem Op.exists_reply {op : Op source} (h : op.Forward) (c : Position source) :
    ∃ reply, ∃ d : Position source, op.run c = .ok reply d ∧
      c.rest = op.handedOut reply ++ d.rest := by
  cases op with
  | offset => exact ⟨_, c, rfl, rfl⟩
  | sourceLength => exact ⟨_, c, rfl, rfl⟩
  | atEnd => exact ⟨_, c, rfl, rfl⟩
  | rest => exact ⟨_, c, rfl, rfl⟩
  | peek n => exact ⟨_, c, bind_of_ok (peek_apply n), rfl⟩
  | mark => exact ⟨_, c, rfl, rfl⟩
  | take n =>
    obtain ⟨run, d, htake, hrest⟩ := exists_take n c
    refine ⟨_, d, bind_of_ok htake, ?_⟩
    rwa [← Reply.run_ofBytes?] at hrest
  | takeByte =>
    obtain ⟨b, d, htake, hrest⟩ := exists_takeByte c
    refine ⟨_, d, bind_of_ok htake, ?_⟩
    rwa [← Reply.run_ofByte?] at hrest
  | takeWhile keep =>
    obtain ⟨run, d, htake, hrest⟩ := exists_takeWhile keep c
    exact ⟨_, d, bind_of_ok htake, hrest⟩
  | takeUntil byte =>
    obtain ⟨run, d, htake, hrest⟩ := exists_takeUntil byte c
    refine ⟨_, d, bind_of_ok htake, ?_⟩
    rwa [← Reply.run_ofBytes?] at hrest
  | runOf k =>
    obtain ⟨run, d, htake, hrest⟩ := exists_takeWhile k.contains c
    exact ⟨_, d, bind_of_ok htake, hrest⟩
  | blanks =>
    obtain ⟨run, d, htake, hrest⟩ := exists_takeWhile ByteSet.blanks.contains c
    exact ⟨_, d, bind_of_ok htake, hrest⟩
  | lineEnds =>
    obtain ⟨run, d, htake, hrest⟩ := exists_takeWhile ByteSet.lineEnds.contains c
    exact ⟨_, d, bind_of_ok htake, hrest⟩
  | lineTail =>
    obtain ⟨run, d, htail, hrest⟩ := exists_lineTail c
    exact ⟨_, d, bind_of_ok htail, hrest⟩
  | _ => rcases h with h | h <;> cases h

/-! ### One operation after another -/

/-- The bytes that operations hand out with their answers, in order. -/
def handedOut (ops : List (Op source)) (replies : List Reply) : Bytes :=
  (List.zipWith Op.handedOut ops replies).flatten

theorem mapM_cons_of_ok {ε σ α β : Type} {f : α → EStateM ε σ β} {a : α} {as : List α} {b : β}
    {bs : List β} {s t u : σ} (h : f a s = .ok b t) (hs : as.mapM f t = .ok bs u) :
    (a :: as).mapM f s = .ok (b :: bs) u := by
  rw [List.mapM_cons, bind_of_ok h, bind_of_ok hs]
  rfl

/-- Operations that go forward all answer, and end behind all the bytes they hand out. -/
theorem exists_replies {ops : List (Op source)} (hops : ∀ op ∈ ops, op.Forward)
    (c : Position source) :
    ∃ replies, ∃ d : Position source, ops.mapM Op.run c = .ok replies d ∧
      replies.length = ops.length ∧ c.rest = handedOut ops replies ++ d.rest := by
  induction ops generalizing c with
  | nil => exact ⟨[], c, rfl, rfl, rfl⟩
  | cons op ops ih =>
    obtain ⟨hop, hops⟩ := List.forall_mem_cons.mp hops
    obtain ⟨reply, d, hrun, hrest⟩ := Op.exists_reply hop c
    obtain ⟨replies, e, hruns, hlength, hrest'⟩ := ih hops d
    refine ⟨reply :: replies, e, mapM_cons_of_ok hrun hruns, congrArg (· + 1) hlength, ?_⟩
    calc c.rest = op.handedOut reply ++ d.rest := hrest
      _ = op.handedOut reply ++ (handedOut ops replies ++ e.rest) := by rw [hrest']
      _ = handedOut (op :: ops) (reply :: replies) ++ e.rest := (List.append_assoc _ _ _).symm

end Scanner

/-! ### Cursors of words -/

namespace CursorM

open Scanner (Op)

theorem Simulates.mapM {α β γ : Type} {f : α → CursorM γ} {g : β → Scanner source γ} {op : α → β}
    (h : ∀ a, Simulates (f a) (g (op a))) (as : List α) :
    Simulates (as.mapM f) ((as.map op).mapM g) := by
  induction as with
  | nil => exact .pure []
  | cons a as ih =>
    rw [List.map_cons, List.mapM_cons, List.mapM_cons]
    exact (h a).bind fun _ => ih.bind fun _ => .pure _

end CursorM

namespace Scanner

/-- From one position to another, operations hand out what they pass. -/
structure HandsOut (c d : Position source) (ops : List (Op source)) (replies : List Reply) :
    Prop where
  answers : ops.mapM Op.run c = .ok replies d
  length_eq : replies.length = ops.length
  /-- What was passed since a mark at the first position is what was handed out. -/
  passed : passedSince c.mark d = .ok (handedOut ops replies) d
  /-- With what remains, it is all that remained. -/
  remains : handedOut ops replies ++ d.rest = c.rest
  /-- A cursor of words gives the same answers, and passes the same bytes. -/
  words : source.length < UInt64.size → ∀ calls : List Call, calls.map (fun f => f.op) = ops →
    calls.mapM Call.run c.cursor = .ok replies d.cursor ∧
    CursorM.passedSince c.cursor.offset d.cursor = .ok (handedOut ops replies) d.cursor ∧
    CursorM.rest c.cursor = .ok c.rest c.cursor ∧ CursorM.rest d.cursor = .ok d.rest d.cursor

/-- **Bytes are handed out once and in order.**  Operations that go forward from a mark on, some
of which may come to the end of the input, hand out the bytes that are passed since the mark, and
these and what then remains are all that remained there. -/
theorem exists_handsOut (c : Position source) (ops : List (Op source))
    (hops : ∀ op ∈ ops, op.Forward) : ∃ replies d, HandsOut c d ops replies := by
  obtain ⟨replies, d, hruns, hlength, hrest⟩ := exists_replies hops c
  have hpassed : passedSince c.mark d = .ok (handedOut ops replies) d := passedSince_of_rest hrest
  refine ⟨replies, d, hruns, hlength, hpassed, hrest.symm, ?_⟩
  rintro hsource calls rfl
  refine ⟨?_, ?_, CursorM.rest_cursor hsource c, CursorM.rest_cursor hsource d⟩
  · rw [CursorM.Simulates.mapM (fun f : Call => f.simulates_op hsource) calls c, hruns]
    rfl
  · rw [CursorM.simulates_passedSince hsource c.cursor.offset d,
      CursorM.toNat_offset_cursor hsource]
    show CursorM.image (passedSince c.mark d) = _
    rw [hpassed]
    rfl

/-- From behind the first byte of seven, past their end and on. -/
theorem exists_handsOut_past_end :
    (∀ op ∈ ([.peek 9, .take 1, .take 100, .blanks, .takeUntil 0x2a, .takeByte, .takeUntil 0x2f,
        .runOf .whitespace, .takeByte, .lineTail] :
          List (Op [0x2f, 0x2f, 0x20, 0x61, 0x2a, 0x0d, 0x0a])), op.Forward) ∧
    ∃ replies d,
      HandsOut (.seek 1 (by decide) : Position [0x2f, 0x2f, 0x20, 0x61, 0x2a, 0x0d, 0x0a]) d
        [.peek 9, .take 1, .take 100, .blanks, .takeUntil 0x2a, .takeByte, .takeUntil 0x2f,
          .runOf .whitespace, .takeByte, .lineTail] replies :=
  ⟨by decide, exists_handsOut _ _ (by decide)⟩

end Scanner

end Trivia

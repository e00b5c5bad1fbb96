/-
Trivia/Proofs/Contracts.lean

No source breaks a contract.

A fault is raised where an operation is called outside its contract.  The
readers of the comment grammar call none so: from every place of every source
each of them answers, whether it looks a body up or finds it in turns
(`Scanner.Returns`), and so a file is found or diagnosed, and nothing else
(`Settled`).

The offsets they work with are numbers of any size, and positions keep them in the
source.  Where a source fits into memory they are machine words as well, since no
sum of them exceeds the length of the source and no difference falls below zero
(`MovementsFit`).  So the same readers, put together of operations on words that
check every sum and difference and nothing else, answer the same from every offset
of the buffer, without one such check failing, and end at an offset of the buffer
again (`CursorM.Returns`).
-/
import Trivia.History
import Trivia.Proofs.Derivation
import Trivia.Proofs.WordReaders

namespace Trivia

variable {source : Bytes} {α : Type}

/-! ### Readers -/

/-- From every place of the source, the scanner answers, raises no fault and ends at
a place of the source. -/
def Scanner.Returns (m : Scanner source α) : Prop :=
  ∀ c, ∃ a, ∃ d : Position source, m c = .ok a d ∧ d.offset ≤ source.length

theorem Scanner.Returns.of_ok {m : Scanner source α}
    (h : ∀ c, ∃ a, ∃ d : Position source, m c = .ok a d) : m.Returns := by
  intro c
  obtain ⟨a, d, hd⟩ := h c
  exact ⟨a, d, hd, d.offset_le⟩

namespace Fragment

open ByteSet

/-- What scanning takes for whitespace is what a fragment may hold, so a run of it makes
a fragment or, where it is empty, none. -/
theorem returns_runOf {k : ByteSet} (hk : ∀ {run : Bytes}, k.Spans run → whitespace.Spans run) :
    (do Scanner.ofExcept (ofRun (← Scanner.runOf k)) : Scanner source _).Returns := by
  refine .of_ok fun c => ?_
  obtain ⟨run, rest, hc, hrun, hrest⟩ := exists_run k c.rest
  obtain ⟨d, rfl⟩ := Position.exists_rest hc
  obtain ⟨w, hw, rfl⟩ := exists_ofRun hrun
  have hmake : ofRun (source? w) = .ok w := ofRun_source? (fun f hf => (hw f hf).1) (hk hrun)
  rw [Scanner.bind_of_ok (Scanner.runOf_of_rest hc hrun hrest)]
  exact ⟨w, d, Scanner.ofExcept_of_ok hmake⟩

theorem returns_readTail : (readTail : Scanner source _).Returns := by
  refine .of_ok fun c => ?_
  obtain ⟨w, rest, hc, hw⟩ := exists_tailBefore c.rest
  obtain ⟨d, rfl⟩ := Position.exists_rest hc
  exact ⟨w, d, readTail_of_rest hc hw⟩

theorem returns_read : (read : Scanner source _).Returns := by
  refine .of_ok fun c => ?_
  by_cases hstops : whitespace.Stops c.rest
  · exact ⟨_, c, read_of_stops hstops⟩
  · obtain ⟨run, rest, hc, hrun, hrest⟩ := exists_run whitespace c.rest
    obtain ⟨d, rfl⟩ := Position.exists_rest hc
    have hne : run ≠ [] := by
      rintro rfl
      exact hstops (hc ▸ hrest)
    exact ⟨_, d, read_of_proper (w := ⟨run⟩) hc ⟨hne, hrun⟩ hrest⟩

end Fragment

theorem LineComment.returns_read : (read : Scanner source _).Returns := by
  refine .of_ok fun c => ?_
  by_cases hopen : opener <+: c.rest.dropWhile ByteSet.blanks.contains
  · obtain ⟨comment, rest, hc, hleads⟩ := exists_leads hopen
    obtain ⟨d, rfl⟩ := Position.exists_rest hc
    exact ⟨_, d, read_of_leads hc hleads⟩
  · exact ⟨_, c, read_of_not_opener hopen⟩

/-- Every reader of the comment grammar, at every place of the source. -/
structure ReadersReturn (source : Bytes) : Prop where
  blanks : (Fragment.readBlanks : Scanner source _).Returns
  lineEnds : (Fragment.readLineEnds : Scanner source _).Returns
  tail : (Fragment.readTail : Scanner source _).Returns
  whitespace : (Fragment.read : Scanner source _).Returns
  line : (LineComment.read : Scanner source _).Returns
  lineByTurns : (LineComment.readByTurns : Scanner source _).Returns
  block : (BlockComment.read : Scanner source _).Returns
  blockByTurns : (BlockComment.readByTurns : Scanner source _).Returns

theorem readersReturn (source : Bytes) : ReadersReturn source where
  blanks := Fragment.returns_runOf ByteSet.Spans.whitespace_of_blanks
  lineEnds := Fragment.returns_runOf ByteSet.Spans.whitespace_of_lineEnds
  tail := Fragment.returns_readTail
  whitespace := Fragment.returns_read
  line := LineComment.returns_read
  lineByTurns := LineComment.readByTurns_eq ▸ LineComment.returns_read
  block := .of_ok fun c =>
    let ⟨answer, d, _, hread, _⟩ := BlockComment.readByTurns_agrees c
    ⟨answer, d, hread⟩
  blockByTurns := .of_ok fun c =>
    let ⟨answer, _, e, _, hread, _⟩ := BlockComment.readByTurns_agrees c
    ⟨answer, e, hread⟩

/-! ### Readers on words -/

/-- In a buffer that fits into memory, from every offset up to its end, the action on words
answers as the scanner does there: it raises no fault, no sum or difference is outside of the
words, and it leaves the buffer as it is and the offset in it. -/
def CursorM.Returns (m : CursorM α) (s : Scanner source α) : Prop :=
  source.length < UInt64.size →
    ∀ k : Cursor, k.buffer = source → ∀ h : k.offset.toNat ≤ source.length,
      ∃ a d l, s (.seek k.offset.toNat h) = .ok a d ∧ m k = .ok a l ∧ l.buffer = source ∧
        l.offset.toNat = d.offset ∧ l.offset.toNat ≤ source.length

theorem CursorM.Returns.of_simulates {m : CursorM α} {s : Scanner source α}
    (hm : source.length < UInt64.size → Simulates m s) (hs : s.Returns) :
    CursorM.Returns m s := by
  intro hsource ⟨buffer, offset⟩ hbuffer h
  obtain rfl : source = buffer := hbuffer.symm
  obtain ⟨a, d, hanswer, hle⟩ := hs (.seek offset.toNat h)
  have hcursor : (Position.seek offset.toNat h).cursor = ⟨source, offset⟩ :=
    congrArg (Cursor.mk source) UInt64.ofNat_toNat
  have hoffset : d.cursor.offset.toNat = d.offset := toNat_offset_cursor hsource d
  have hrun : m ⟨source, offset⟩ = .ok a d.cursor := by
    rw [← hcursor, hm hsource, hanswer]
    rfl
  exact ⟨a, d, d.cursor, hanswer, hrun, rfl, hoffset, hoffset.symm ▸ hle⟩

/-- Every reader of the comment grammar on words, the loops written out. -/
structure WordReadersReturn (source : Bytes) : Prop where
  blanks : CursorM.Returns CursorM.readBlanks (Fragment.readBlanks : Scanner source _)
  lineEnds : CursorM.Returns CursorM.readLineEnds (Fragment.readLineEnds : Scanner source _)
  tail : CursorM.Returns CursorM.readTail (Fragment.readTail : Scanner source _)
  whitespace : CursorM.Returns CursorM.readWhitespace (Fragment.read : Scanner source _)
  line : CursorM.Returns CursorM.readLine (LineComment.readByTurns : Scanner source _)
  block : CursorM.Returns CursorM.readBlock (BlockComment.readByTurns : Scanner source _)

theorem wordReadersReturn (source : Bytes) : WordReadersReturn source where
  blanks := .of_simulates (CursorM.simulates_readRun · .blanks) (readersReturn source).blanks
  lineEnds := .of_simulates (CursorM.simulates_readRun · .lineEnds) (readersReturn source).lineEnds
  tail := .of_simulates CursorM.simulates_readTail (readersReturn source).tail
  whitespace := .of_simulates CursorM.simulates_readWhitespace (readersReturn source).whitespace
  line := .of_simulates CursorM.simulates_readLine (readersReturn source).lineByTurns
  block := .of_simulates CursorM.simulates_readBlock (readersReturn source).blockByTurns

/-! ### Files -/

/-- A result that was reached without a fault: a value, or a diagnostic of the source. -/
def Settled (result : Except Failure α) : Prop :=
  ∃ diagnosed : Except Diagnostic α, result = diagnosed.mapError Failure.diagnosed

theorem settled_ok (a : α) : Settled (.ok a) := ⟨.ok a, rfl⟩

theorem settled_diagnosed (cause : Diagnostic) :
    Settled (.error (.diagnosed cause) : Except Failure α) := ⟨.error cause, rfl⟩

theorem Settled.exists_diagnosed {failure : Failure}
    (h : Settled (.error failure : Except Failure α)) : ∃ cause, failure = .diagnosed cause := by
  obtain ⟨cause | a, hresult⟩ := h
  · exact ⟨cause, Except.error.inj hresult⟩
  · cases hresult

theorem Grammar.settled_fileFrom (dialect : Dialect) (name : String) (start : Position source) :
    Settled ((ofDialect dialect).fileFrom dialect name start).value := by
  obtain ⟨nodes, e, hderives⟩ := exists_derives dialect start.rest
  obtain ⟨stop, -, hvalue⟩ := fileFrom_of_derives hderives name
  rw [hvalue]
  cases e with
  | unclosed rest => exact settled_diagnosed _
  | stopped rest =>
    show Settled (finish dialect name ⟨nodes, stop⟩).value
    rw [value_finish]
    split_ifs
    · exact settled_diagnosed _
    · exact settled_diagnosed _
    · exact settled_ok _

theorem Module.settled_addSource (m : Module) (dialect : Dialect) (name : String)
    (source : Bytes) : Settled (m.addSource dialect name source).1 := by
  have hfile : Settled (File.ofSource dialect name source).value :=
    Grammar.settled_fileFrom dialect name (Position.start source)
  obtain ⟨cause | file, hfile⟩ := hfile
  · rw [addSource, hfile]
    exact settled_diagnosed _
  · rw [addSource, hfile]
    exact settled_ok ()

/-! ### Moving and cutting -/

namespace Position

theorem toNat_ofNat_offset (h : source.length < USize.size) (c : Position source) :
    (USize.ofNat c.offset).toNat = c.offset :=
  USize.toNat_ofNat_of_lt' (Nat.lt_of_le_of_lt c.offset_le h)

/-- Past bytes that remain, the sum of words does not wrap around. -/
theorem toNat_add_words (h : source.length < USize.size) (c : Position source) {n : Nat}
    (hn : n ≤ c.rest.length) :
    (USize.ofNat c.offset + USize.ofNat n).toNat = (c.forward n hn).offset := by
  rw [← USize.ofNat_add]
  exact (c.forward n hn).toNat_ofNat_offset h

/-- The number of bytes that remain is a difference of words. -/
theorem toNat_sub_words (h : source.length < USize.size) (c : Position source) :
    (USize.ofNat source.length - USize.ofNat c.offset).toNat = c.rest.length := by
  have hlength : (USize.ofNat source.length).toNat = source.length := USize.toNat_ofNat_of_lt' h
  have hoffset : (USize.ofNat c.offset).toNat = c.offset := c.toNat_ofNat_offset h
  have hle : USize.ofNat c.offset ≤ USize.ofNat source.length := by
    rw [USize.le_iff_toNat_le, hoffset, hlength]
    exact c.offset_le
  rw [USize.toNat_sub_of_le _ _ hle, hoffset, hlength, length_rest]

end Position

/-- What the movements of a scanner rest on: going back and cutting what was passed
raise no fault, and the offsets of a source that fits into memory stay words. -/
structure MovementsFit (source : Bytes) : Prop where
  goTo_mark : ∀ c d : Position source, Scanner.goTo c.mark d = .ok () c
  cut_run : ∀ (c : Position source) (keep : UInt8 → Bool),
    Scanner.cut c.offset (c.dropWhile keep).offset (c.dropWhile keep)
      = .ok (c.takeWhile keep) (c.dropWhile keep)
  add : source.length < USize.size → ∀ (c : Position source) (n : Nat) (h : n ≤ c.rest.length),
    (USize.ofNat c.offset + USize.ofNat n).toNat = (c.forward n h).offset
  sub : source.length < USize.size → ∀ c : Position source,
    (USize.ofNat source.length - USize.ofNat c.offset).toNat = c.rest.length

theorem movementsFit (source : Bytes) : MovementsFit source where
  goTo_mark _ _ := Scanner.goTo_mark
  cut_run c keep := Scanner.cut_of_rest (c.rest_eq_takeWhile_append keep)
  add hsource c _ h := c.toNat_add_words hsource h
  sub hsource c := c.toNat_sub_words hsource

/-- **Contracts are kept** by every source: each reader returns from every place, what
it moves by stays in the source, in memory each reader returns without an overflow from
every offset, and files are found or diagnosed, from wherever they start and also where a
module asks for them. -/
theorem contracts_kept (dialect : Dialect) (name : String) (source : Bytes) :
    ReadersReturn source ∧ MovementsFit source ∧ WordReadersReturn source ∧
    (∀ start : Position source,
      Settled ((Grammar.ofDialect dialect).fileFrom dialect name start).value) ∧
    ∀ m : Module, Settled (m.addSource dialect name source).1 :=
  ⟨readersReturn source, movementsFit source, wordReadersReturn source,
    Grammar.settled_fileFrom dialect name, fun m => m.settled_addSource dialect name source⟩

end Trivia

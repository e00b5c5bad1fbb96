/-
Trivia/Proofs/Deliveries.lean

Sources that come in pieces, whatever the pieces are.

Reading to the end is a walk over the reads, and all that a read depends on is what has come
before it (`Intake`).  The bytes of a read go behind those that are there; a read of no bytes
and a failure settle the walk for good, and an interrupted read leaves it where it is.  So a
chunk that comes in two, and a read that is interrupted once more, are passed in one way from
every intake (`Redelivery.after_eq`), and the reads around them do not matter.

What a reader gives is then a matter of the reads before the first without bytes: the first of
them that is refused, or else all their bytes (`Read.contents_eq`).  A module that asks for the
file of a reader gets that failure and no other, or the file of these bytes, and it cannot tell
how they were delivered (`Module.addReads_delivery`).
-/
import Mathlib.Logic.Relation
import Trivia.History
import Trivia.Proofs.Recoding

namespace Trivia

variable {m : Module} {name : String} {reads reads' : List Read} {cause : ReadError}

/-! ### What a reader gives -/

namespace Read

/-- The bytes of a read. -/
def bytes : Read → Bytes
  | chunk bytes => bytes
  | failed _ => []

/-- The failure of a read that is not tried again. -/
def refusal? : Read → Option ReadError
  | chunk _ => none
  | failed cause => if cause.isInterrupted then none else some cause

/-- The reads before the first that gives no bytes. -/
def beforeEnd (reads : List Read) : List Read := reads.takeWhile (· ≠ chunk [])

/-- The first failure before the end that is not tried again. -/
def firstRefusal? (reads : List Read) : Option ReadError := (beforeEnd reads).findSome? refusal?

/-- The bytes before the end. -/
def delivered (reads : List Read) : Bytes := (beforeEnd reads).flatMap bytes

theorem firstRefusal?_failed (cause : ReadError) (reads : List Read) :
    firstRefusal? (failed cause :: reads)
      = if cause.isInterrupted then firstRefusal? reads else some cause := by
  show List.findSome? refusal? (failed cause :: beforeEnd reads) = _
  rw [List.findSome?_cons, refusal?]
  split_ifs with hagain
  · rfl
  · rfl

/-- A reader gives its first refusal, or else the bytes before the end. -/
theorem contents_eq (reads : List Read) :
    contents reads = match firstRefusal? reads with
      | some cause => .error cause
      | none => .ok (delivered reads) := by
  induction reads with
  | nil => rfl
  | cons r reads ih =>
    rcases r with (- | ⟨b, more⟩) | cause
    · rfl
    · have hrefusal : firstRefusal? (chunk (b :: more) :: reads) = firstRefusal? reads := rfl
      have hbytes : delivered (chunk (b :: more) :: reads) = b :: more ++ delivered reads := rfl
      rw [contents, ih, hrefusal, hbytes]
      rcases firstRefusal? reads with - | cause
      · rfl
      · rfl
    · have hbytes : delivered (failed cause :: reads) = delivered reads := rfl
      rw [contents, firstRefusal?_failed, hbytes]
      split_ifs with hagain
      · exact ih
      · rfl

/-- A marker may be cut in two, and what comes behind the end is never read. -/
example : contents [.chunk [0x2f], .failed ⟨.interrupted, none⟩, .chunk [0x2f], .chunk [],
    .failed ⟨.other, none⟩] = .ok [0x2f, 0x2f] := rfl

end Read

/-! ### One read after another -/

/-- What has come of a reader so far. -/
inductive Intake
  /-- These bytes, and more may come. -/
  | reading (bytes : Bytes)
  /-- These bytes, and no more will come. -/
  | ended (bytes : Bytes)
  /-- A failure, behind bytes that are there and are no source. -/
  | failed (bytes : Bytes) (cause : ReadError)
  deriving DecidableEq, Repr

namespace Intake

/-- Takes in one read. -/
def next : Intake → Read → Intake
  | reading bytes, .chunk [] => ended bytes
  | reading bytes, .chunk (b :: more) => reading (bytes ++ b :: more)
  | reading bytes, .failed cause =>
    if cause.isInterrupted then reading bytes else failed bytes cause
  | ended bytes, _ => ended bytes
  | failed bytes cause, _ => failed bytes cause

/-- Takes in one read after another. -/
def after (s : Intake) (reads : List Read) : Intake := reads.foldl next s

/-- The source that has come, once no more reads are made. -/
def source : Intake → Except ReadError Bytes
  | reading bytes | ended bytes => .ok bytes
  | failed _ cause => .error cause

theorem after_append (s : Intake) (reads reads' : List Read) :
    s.after (reads ++ reads') = (s.after reads).after reads' := List.foldl_append

theorem after_ended (bytes : Bytes) (reads : List Read) :
    (ended bytes).after reads = ended bytes := by
  induction reads with
  | nil => rfl
  | cons r reads ih => exact ih

theorem after_failed (bytes : Bytes) (cause : ReadError) (reads : List Read) :
    (failed bytes cause).after reads = failed bytes cause := by
  induction reads with
  | nil => rfl
  | cons r reads ih => exact ih

/-- An interrupted read leaves everything as it was. -/
theorem next_interrupted (h : cause.isInterrupted = true) (s : Intake) :
    s.next (.failed cause) = s := by
  cases s with
  | reading bytes => rw [next, if_pos h]
  | ended bytes => rfl
  | failed bytes cause' => rfl

/-- Two chunks do what one chunk of their bytes does. -/
theorem next_chunks {left right : Bytes} (hleft : left ≠ []) (hright : right ≠ []) (s : Intake) :
    (s.next (.chunk left)).next (.chunk right) = s.next (.chunk (left ++ right)) := by
  obtain ⟨b, left, rfl⟩ := List.exists_cons_of_ne_nil hleft
  obtain ⟨b', right, rfl⟩ := List.exists_cons_of_ne_nil hright
  cases s with
  | reading bytes => simp [next]
  | ended bytes => rfl
  | failed bytes cause => rfl

/-- The walk over the reads gives what the reader gives. -/
theorem source_after (bytes : Bytes) (reads : List Read) :
    ((reading bytes).after reads).source = (bytes ++ ·) <$> Read.contents reads := by
  -- each chunk adds to the bytes that are there, so the induction is for any of them
  induction reads generalizing bytes with
  | nil =>
    show Except.ok bytes = Except.ok (bytes ++ [])
    rw [List.append_nil]
  | cons r reads ih =>
    rcases r with (- | ⟨b, more⟩) | cause
    · show ((ended bytes).after reads).source = Except.ok (bytes ++ [])
      rw [after_ended, List.append_nil]
      rfl
    · show ((reading (bytes ++ b :: more)).after reads).source = _
      rw [ih, Read.contents, Functor.map_map]
      simp only [List.append_assoc]
    · show (((reading bytes).next (.failed cause)).after reads).source = _
      by_cases hagain : cause.isInterrupted = true
      · rw [next_interrupted hagain, ih, Read.contents, if_pos hagain]
      · rw [next, if_neg hagain, after_failed, Read.contents, if_neg hagain]
        rfl

end Intake

/-! ### Other deliveries of the same source -/

namespace Read

/-- One change to how bytes are delivered: what came in one chunk comes in two, or one more
read is interrupted. -/
inductive Redelivery : List Read → List Read → Prop
  | split {left right : Bytes} (hleft : left ≠ []) (hright : right ≠ [])
      (before behind : List Read) :
      Redelivery (before ++ chunk (left ++ right) :: behind)
        (before ++ chunk left :: chunk right :: behind)
  | interrupt {cause : ReadError} (h : cause.isInterrupted = true) (before behind : List Read) :
      Redelivery (before ++ behind) (before ++ failed cause :: behind)

/-- The reads differ by any number of such changes, made or undone. -/
def SameDelivery : List Read → List Read → Prop := Relation.EqvGen Redelivery

theorem Redelivery.after_eq (h : Redelivery reads reads') (s : Intake) :
    s.after reads = s.after reads' := by
  cases h with
  | split hleft hright before behind =>
    rw [Intake.after_append, Intake.after_append]
    show (Intake.next _ _).after behind = ((Intake.next _ _).next _).after behind
    rw [Intake.next_chunks hleft hright]
  | interrupt h before behind =>
    rw [Intake.after_append, Intake.after_append]
    show Intake.after _ behind = (Intake.next _ _).after behind
    rw [Intake.next_interrupted h]

theorem SameDelivery.after_eq (h : SameDelivery reads reads') (s : Intake) :
    s.after reads = s.after reads' := by
  induction h with
  | rel _ _ hstep => exact hstep.after_eq s
  | refl _ => rfl
  | symm _ _ _ ih => exact ih.symm
  | trans _ _ _ _ _ ih ih' => exact ih.trans ih'

theorem SameDelivery.contents_eq (h : SameDelivery reads reads') :
    contents reads = contents reads' := by
  have hsource (reads : List Read) : ((Intake.reading []).after reads).source = contents reads := by
    rw [Intake.source_after]
    exact id_map _
  rw [← hsource reads, ← hsource reads', h.after_eq]

end Read

/-! ### Files of readers -/

/-- What is wrong with a source is never that it could not be read. -/
theorem File.ofSource_ne_ofRead (dialect : Dialect) (name : String) (source : Bytes)
    (cause : ReadError) :
    (File.ofSource dialect name source).value ≠ .error (.diagnosed (.ofRead cause)) := by
  obtain ⟨nodes, e, hderives⟩ := exists_derives dialect source
  obtain ⟨a, -, -, hvalue⟩ := ofSource_of_derives hderives name
  rw [hvalue]
  cases e with
  | unclosed rest => rintro ⟨⟩
  | stopped rest =>
    rw [Ending.verdict]
    split_ifs
    all_goals rintro ⟨⟩

namespace Module

theorem addSource_ne_ofRead (m : Module) (dialect : Dialect) (source : Bytes) :
    m.addSource dialect name source ≠ (.error (.diagnosed (.ofRead cause)), m) := by
  have hvalue := File.ofSource_ne_ofRead dialect name source cause
  rw [addSource]
  rcases h : (File.ofSource dialect name source).value with failure | file
  · intro heq
    rw [h] at hvalue
    exact hvalue (congrArg Except.error (Except.error.inj (Prod.mk.inj heq).1))
  · rintro ⟨⟩

theorem addReads_of_refused (m : Module) (name : String)
    (h : Read.firstRefusal? reads = some cause) :
    m.addReads name reads = (.error (.diagnosed (.ofRead cause)), m) := by
  rw [addReads, Read.contents_eq, h]

theorem addReads_of_delivered (m : Module) (name : String)
    (h : Read.firstRefusal? reads = none) :
    m.addReads name reads = m.addSource .base name (Read.delivered reads) := by
  rw [addReads, Read.contents_eq, h]

/-- **How a source is delivered does not matter** to a module.  A read that is refused before
the end leaves the module as it was, whatever bytes came before, and is all that the diagnostic
is about.  Where none is, the file is that of the bytes before the end, given whole.  Either way,
chunks may come in other pieces and reads be interrupted anywhere. -/
theorem addReads_delivery (m : Module) (name : String) (reads : List Read) :
    (∀ cause, m.addReads name reads = (.error (.diagnosed ⟨.unreadable, none, some cause⟩), m) ↔
      Read.firstRefusal? reads = some cause) ∧
    (m.addReads name reads = m.addSource .base name (Read.delivered reads) ↔
      Read.firstRefusal? reads = none) ∧
    ∀ reads', Read.SameDelivery reads reads' → m.addReads name reads' = m.addReads name reads := by
  have hrefused (cause : ReadError) (h : Read.firstRefusal? reads = some cause) :=
    m.addReads_of_refused name h
  have hdelivered (h : Read.firstRefusal? reads = none) := m.addReads_of_delivered name h
  refine ⟨fun cause => ⟨fun h => ?_, hrefused cause⟩, ⟨fun h => ?_, hdelivered⟩, ?_⟩
  · rcases hfirst : Read.firstRefusal? reads with - | cause'
    · exact absurd (hdelivered hfirst ▸ h) (m.addSource_ne_ofRead .base _)
    · rw [hrefused cause' hfirst] at h
      cases h
      rfl
  · rcases hfirst : Read.firstRefusal? reads with - | cause
    · rfl
    · exact absurd (h ▸ hrefused cause hfirst) (m.addSource_ne_ofRead .base _)
  · intro reads' h
    rw [addReads, addReads, h.contents_eq]

end Module

end Trivia

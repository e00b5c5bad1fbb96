/-
Trivia/Proofs/Scanning.lean

What scanners do where the bytes ahead are known.

The view of a position is its `rest`: positions with one rest are equal
(`Position.ext_rest`), and the offset is a matter of lengths.  So an operation
is described by naming the position it reaches: if `c.rest = run ++ d.rest`,
then it passes `run` and ends at `d`.  A program of several operations is then
followed step by step with `bind_of_ok`, and no operation is opened twice.
-/
import Trivia.Comment.Reading
import Trivia.Proofs.Runs

namespace Trivia

variable {source : Bytes} {c d : Position source}

/-! ### Positions by what remains -/

namespace Position

theorem ext_rest (h : c.rest = d.rest) : c = d := by
  have hlen : c.rest.length = d.rest.length := congrArg List.length h
  have hc := c.offset_le
  have hd := d.offset_le
  rw [length_rest, length_rest] at hlen
  exact ext_offset (by omega)

theorem offset_of_rest {run : Bytes} (h : c.rest = run ++ d.rest) :
    d.offset = c.offset + run.length := by
  have hlen : c.rest.length = run.length + d.rest.length := by rw [h, List.length_append]
  have hc := c.offset_le
  have hd := d.offset_le
  rw [length_rest, length_rest] at hlen
  omega

theorem offset_of_append {before rest : Bytes} {stop : Position (before ++ rest)}
    (h : stop.rest = rest) : stop.offset = before.length := by
  have hstart : (start (before ++ rest)).rest = before ++ stop.rest := by rw [h, start]
  rw [offset_of_rest hstart, offset_start, Nat.zero_add]

/-- Every end of what remains is what remains somewhere. -/
theorem exists_rest {run rest : Bytes} (h : c.rest = run ++ rest) :
    ∃ d : Position source, d.rest = rest := by
  have hle : run.length ≤ c.rest.length := by rw [h]; simp
  exact ⟨c.forward run.length hle, by rw [rest_forward, h, List.drop_left]⟩

theorem rest_eq_takeWhile_append (c : Position source) (keep : UInt8 → Bool) :
    c.rest = c.takeWhile keep ++ (c.dropWhile keep).rest := by
  rw [rest_dropWhile]
  exact List.takeWhile_append_dropWhile.symm

theorem forward_of_rest {run : Bytes} (h : c.rest = run ++ d.rest) :
    ∃ hle : run.length ≤ c.rest.length, c.forward run.length hle = d := by
  have hle : run.length ≤ c.rest.length := by rw [h]; simp
  refine ⟨hle, ext_rest ?_⟩
  rw [rest_forward, h, List.drop_left]

end Position

namespace Scanner

variable {α β : Type}

/-! ### Steps of a program -/

-- Steps are taken the same way whatever the state is, be it a position or a cursor of words.
section
variable {ε σ : Type} {m : EStateM ε σ α} {f : α → EStateM ε σ β} {s s' : σ}

theorem bind_of_ok {a : α} (h : m s = .ok a s') : (m >>= f) s = f a s' := by
  show EStateM.bind m f s = f a s'
  rw [EStateM.bind, h]

theorem bind_of_error {cause : ε} (h : m s = .error cause s') :
    (m >>= f) s = .error cause s' := by
  show EStateM.bind m f s = .error cause s'
  rw [EStateM.bind, h]

/-- A program that answers has answered at its first step. -/
theorem exists_of_bind {b : β} (h : (m >>= f) s = .ok b s') :
    ∃ a t, m s = .ok a t ∧ f a t = .ok b s' := by
  rcases hm : m s with ⟨a, t⟩ | ⟨cause, t⟩
  · exact ⟨a, t, rfl, (bind_of_ok hm).symm.trans h⟩
  · cases (bind_of_error hm).symm.trans h

end

theorem map_of_ok {m : Scanner source α} {f : α → β} {a : α} (h : m c = .ok a d) :
    (f <$> m) c = .ok (f a) d := by
  show EStateM.map f m c = .ok (f a) d
  rw [EStateM.map, h]

@[simp] theorem pure_apply (a : α) : (pure a : Scanner source α) c = .ok a c := rfl

@[simp] theorem offset_apply : offset c = .ok c.offset c := rfl

@[simp] theorem rest_apply : rest c = .ok c.rest c := rfl

@[simp] theorem mark_apply : mark c = .ok c.mark c := rfl

@[simp] theorem atEnd_apply : atEnd c = .ok c.rest.isEmpty c := rfl

theorem peek_apply (n : Nat) :
    peek n c = .ok (if n ≤ c.rest.length then some (c.rest.take n) else none) c := rfl

theorem ofExcept_of_ok {value : Except Fault α} {a : α} (h : value = .ok a) :
    ofExcept value c = .ok a c := by
  rw [h]
  rfl

theorem eq_ok_of_ofExcept {value : Except Fault α} {a : α} (h : ofExcept value c = .ok a d) :
    value = .ok a := by
  rcases value with cause | b
  · cases h
  · rw [(EStateM.Result.ok.inj h).1]

/-! ### Movements -/

theorem goTo_mark : goTo c.mark d = .ok () c := by
  show goTo ⟨c.offset⟩ d = .ok () c
  rw [goTo, dif_pos c.offset_le, Position.seek_offset]

theorem take_of_rest {run : Bytes} (h : c.rest = run ++ d.rest) :
    take run.length c = .ok (some run) d := by
  obtain ⟨hle, hto⟩ := Position.forward_of_rest h
  rw [take, dif_pos hle, hto, h, List.take_left]

theorem takeByte_of_rest {b : UInt8} (h : c.rest = b :: d.rest) :
    takeByte c = .ok (some b) d := by
  have hsplit : c.rest = [b] ++ d.rest := h
  have htake : take 1 c = .ok (some [b]) d := take_of_rest hsplit
  rw [takeByte, bind_of_ok htake]
  rfl

theorem takeByte_of_nil (h : c.rest = []) : takeByte c = .ok none c := by
  have htake : take 1 c = .ok none c := by
    rw [take, dif_neg (by rw [h]; decide)]
  rw [takeByte, bind_of_ok htake]
  rfl

theorem skip_of_rest {run : Bytes} (h : c.rest = run ++ d.rest) :
    skip run.length c = .ok () d := by
  obtain ⟨hle, hto⟩ := Position.forward_of_rest h
  rw [skip, dif_pos hle, hto]

theorem passes_of_rest {marker : Bytes} (h : c.rest = marker ++ d.rest) :
    passes marker c = .ok true d := by
  rw [passes, bind_of_ok (take_of_rest h)]
  simp

/-- Where the marker does not come next, it is not passed; the scanner may move. -/
theorem passes_of_not_prefix {marker : Bytes} (h : ¬ marker <+: c.rest) :
    ∃ d, passes marker c = .ok false d := by
  by_cases hle : marker.length ≤ c.rest.length
  · -- other bytes are taken, and lost for the caller
    refine ⟨c.forward marker.length hle, ?_⟩
    have htake : take marker.length c
        = .ok (some (c.rest.take marker.length)) (c.forward marker.length hle) := by
      rw [take, dif_pos hle]
    have hne : c.rest.take marker.length ≠ marker := by
      intro heq
      exact h (List.prefix_iff_eq_take.mpr heq.symm)
    rw [passes, bind_of_ok htake]
    simp [hne]
  · -- too few bytes are left
    refine ⟨c, ?_⟩
    have htake : take marker.length c = .ok none c := by
      rw [take, dif_neg hle]
    rw [passes, bind_of_ok htake]
    simp

/-! ### Runs -/

theorem runOf_of_rest {k : ByteSet} {run : Bytes} (h : c.rest = run ++ d.rest)
    (hrun : k.Spans run) (hrest : k.Stops d.rest) : runOf k c = .ok run d := by
  have htake : c.takeWhile k.contains = run := by
    rw [Position.takeWhile, h, ByteSet.takeWhile_of_spans hrun hrest]
  have hdrop : c.dropWhile k.contains = d := by
    refine Position.ext_rest ?_
    rw [Position.rest_dropWhile, h, ByteSet.dropWhile_of_spans hrun hrest]
  rw [runOf, takeWhile, htake, hdrop]

theorem takeUntil_of_rest {byte : UInt8} {run rest : Bytes} (h : c.rest = run ++ byte :: rest)
    (hrun : byte ∉ run) (hd : d.rest = byte :: rest) : takeUntil byte c = .ok (some run) d := by
  have hne : ∀ b ∈ run, (b != byte) = true := fun b hb =>
    bne_iff_ne.mpr (ne_of_mem_of_not_mem hb hrun)
  have hmem : c.rest.contains byte = true := by
    rw [h]
    simp
  have htake : takeWhile (· != byte) c = .ok run d := by
    have hgo : c.dropWhile (· != byte) = d := by
      refine Position.ext_rest ?_
      rw [Position.rest_dropWhile, h, hd, List.dropWhile_append_of_pos hne]
      simp
    rw [takeWhile, hgo, Position.takeWhile, h, List.takeWhile_append_of_pos hne]
    simp
  rw [takeUntil, bind_of_ok rest_apply, if_pos hmem, bind_of_ok htake]
  rfl

theorem takeUntil_of_not_mem {byte : UInt8} (h : byte ∉ c.rest) :
    takeUntil byte c = .ok none c := by
  have hmem : ¬ c.rest.contains byte = true := by simpa using h
  rw [takeUntil, bind_of_ok rest_apply, if_neg hmem]
  rfl

/-- What is cut is what was passed, wherever the scanner is by then. -/
theorem cut_of_rest {e : Position source} {run : Bytes} (h : c.rest = run ++ d.rest) :
    cut c.offset d.offset e = .ok run e := by
  have hoff : d.offset = c.offset + run.length := Position.offset_of_rest h
  have hlt : ¬ d.offset < c.offset := by omega
  have hlen : ¬ source.length < d.offset := Nat.not_lt.mpr d.offset_le
  rw [cut, if_neg hlt, if_neg hlen, ← c.rest_eq, h, hoff, Nat.add_sub_cancel_left, List.take_left]
  rfl

theorem cut_length_of_rest {e : Position source} {run : Bytes} (h : c.rest = run ++ d.rest) :
    cut c.offset (c.offset + run.length) e = .ok run e := by
  rw [← Position.offset_of_rest h]
  exact cut_of_rest h

theorem passedSince_of_rest {run : Bytes} (h : c.rest = run ++ d.rest) :
    passedSince c.mark d = .ok run d := by
  rw [passedSince, bind_of_ok offset_apply]
  exact cut_of_rest h

theorem lineTail_of_rest {pad ends : Bytes} (h : c.rest = pad ++ ends ++ d.rest)
    (hpad : ByteSet.blanks.Spans pad) (hstop : ByteSet.blanks.Stops (ends ++ d.rest))
    (hends : ByteSet.lineEnds.Spans ends) (hrest : ByteSet.lineEnds.Stops d.rest) :
    lineTail c = .ok (if (pad ++ ends).isEmpty then none else some (pad ++ ends)) d := by
  have hsplit : c.rest = pad ++ (ends ++ d.rest) := by rw [h, List.append_assoc]
  obtain ⟨e, he⟩ := Position.exists_rest hsplit
  have hblanks : blanks c = .ok pad e := runOf_of_rest (by rw [he, hsplit]) hpad (by rwa [he])
  have hlines : lineEnds e = .ok ends d := runOf_of_rest he hends hrest
  rw [lineTail, bind_of_ok mark_apply, bind_of_ok hblanks, bind_of_ok hlines,
    bind_of_ok (passedSince_of_rest h)]
  rfl

end Scanner

/-! ### Fragments -/

namespace Fragment

open Scanner

variable {w : Option Fragment}

theorem readBlanks_of_rest (h : c.rest = source? w ++ d.rest) (hw : OfRun .blanks w)
    (hrest : ByteSet.blanks.Stops d.rest) : readBlanks c = .ok w d := by
  have hmake : ofRun (source? w) = .ok w :=
    ofRun_source? (fun f hf => (hw f hf).1) hw.spans.whitespace_of_blanks
  have hblanks : blanks c = .ok (source? w) d := runOf_of_rest h hw.spans hrest
  rw [readBlanks, bind_of_ok hblanks]
  exact ofExcept_of_ok hmake

/-- Reading blanks always ends well, and behind all of them. -/
theorem exists_readBlanks (c : Position source) :
    ∃ w, ∃ e : Position source, readBlanks c = .ok w e ∧
      e.rest = c.rest.dropWhile ByteSet.blanks.contains := by
  obtain ⟨w, hw, hsource⟩ :=
    exists_ofRun (ByteSet.spans_takeWhile (k := ByteSet.blanks) c.rest)
  have hsplit : c.rest = source? w ++ c.rest.dropWhile ByteSet.blanks.contains := by
    rw [hsource, List.takeWhile_append_dropWhile]
  obtain ⟨e, he⟩ := Position.exists_rest hsplit
  refine ⟨w, e, readBlanks_of_rest (by rw [he, ← hsplit]) hw ?_, he⟩
  rw [he]
  exact ByteSet.stops_dropWhile c.rest

theorem lineTail_of_tailBefore (h : c.rest = source? w ++ d.rest) (hw : TailBefore w d.rest) :
    lineTail c = .ok (w.map Fragment.bytes) d := by
  obtain ⟨pad, ends, hsource, hpad, hstop, hends, hrest⟩ := hw.exists_runs
  rw [lineTail_of_rest (by rw [h, hsource]) hpad hstop hends hrest, ← hsource]
  cases w with
  | none => rfl
  | some f =>
    have hempty : (source? (some f)).isEmpty = false :=
      List.isEmpty_eq_false_iff.mpr (hw.isTail f rfl).1
    rw [hempty]
    rfl

theorem lineTail_of_stops (h : ByteSet.whitespace.Stops c.rest) : lineTail c = .ok none c := by
  have hnone : OfRun .blanks none := by rintro f ⟨⟩
  exact lineTail_of_tailBefore rfl (hnone.tailBefore h)

theorem readTail_of_rest (h : c.rest = source? w ++ d.rest) (hw : TailBefore w d.rest) :
    readTail c = .ok w d := by
  rw [readTail, bind_of_ok (lineTail_of_tailBefore h hw)]
  cases w with
  | none => rfl
  | some f => exact ofExcept_of_ok (ofRun_of_ne_nil (hw.isTail f rfl).1 hw.spans)

end Fragment

end Trivia

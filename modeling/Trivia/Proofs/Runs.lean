/-
Trivia/Proofs/Runs.lean

Runs of bytes from a set, and the whitespace fragments that hold them.

A scanner takes the longest run there is, so a source is told apart by two
facts at each place: which bytes belong to the run (`ByteSet.Spans`) and that
the run cannot go on behind them (`ByteSet.Stops`).  Together they determine
the split of `run ++ rest` (`takeWhile_of_spans`, `dropWhile_of_spans`), and
every list of bytes has such a split.

What remains of a line is two runs in one fragment.  `Fragment.TailBefore` says
that a fragment, or its absence, is all that remains of the line before `rest`;
`TailBefore.exists_runs` opens it into the two runs and `exists_tailBefore`
finds it.  Taking one run after the other leaves nothing to be had by taking less
of the first: of all that has the form of the two, it is the longest
(`TailBefore.longest`).
-/
import Trivia.Tree.Printer
import Mathlib.Data.List.TakeWhile

namespace Trivia

namespace ByteSet

variable {k : ByteSet} {run rest : Bytes}

/-! ### Longest runs -/

/-- All bytes of `run` belong to the set. -/
def Spans (k : ByteSet) (run : Bytes) : Prop := ∀ b ∈ run, k.contains b = true

/-- No byte of the set comes first in `rest`. -/
def Stops (k : ByteSet) (rest : Bytes) : Prop := ∀ b ∈ rest.head?, k.contains b = false

instance (k : ByteSet) (run : Bytes) : Decidable (k.Spans run) :=
  List.decidableBAll (fun b => k.contains b = true) run

@[simp] theorem spans_nil : k.Spans [] := by
  intro b hb
  cases hb

@[simp] theorem spans_cons {b : UInt8} :
    k.Spans (b :: run) ↔ k.contains b = true ∧ k.Spans run := List.forall_mem_cons

@[simp] theorem spans_append {run' : Bytes} :
    k.Spans (run ++ run') ↔ k.Spans run ∧ k.Spans run' := List.forall_mem_append

@[simp] theorem stops_nil : k.Stops [] := by
  intro b hb
  cases hb

@[simp] theorem stops_cons {b : UInt8} : k.Stops (b :: rest) ↔ k.contains b = false := by
  simp [Stops]

theorem stops_append (h : run ≠ []) : k.Stops (run ++ rest) ↔ k.Stops run := by
  cases run with
  | nil => exact absurd rfl h
  | cons b run => simp

theorem takeWhile_of_stops (h : k.Stops rest) : rest.takeWhile k.contains = [] := by
  cases rest with
  | nil => rfl
  | cons b rest => rw [List.takeWhile_cons, stops_cons.mp h]; rfl

theorem dropWhile_of_stops (h : k.Stops rest) : rest.dropWhile k.contains = rest := by
  cases rest with
  | nil => rfl
  | cons b rest => rw [List.dropWhile_cons, stops_cons.mp h]; rfl

theorem takeWhile_of_spans (hrun : k.Spans run) (hrest : k.Stops rest) :
    (run ++ rest).takeWhile k.contains = run := by
  rw [List.takeWhile_append_of_pos hrun, takeWhile_of_stops hrest, List.append_nil]

theorem dropWhile_of_spans (hrun : k.Spans run) (hrest : k.Stops rest) :
    (run ++ rest).dropWhile k.contains = rest := by
  rw [List.dropWhile_append_of_pos hrun, dropWhile_of_stops hrest]

theorem spans_takeWhile (bytes : Bytes) : k.Spans (bytes.takeWhile k.contains) :=
  fun _ hb => List.mem_takeWhile_imp hb

theorem stops_dropWhile (bytes : Bytes) : k.Stops (bytes.dropWhile k.contains) := by
  intro b hb
  have h := List.head?_dropWhile_not k.contains bytes
  rw [Option.mem_def.mp hb] at h
  exact h

/-- Every list of bytes splits into its longest run and what stops it. -/
theorem exists_run (k : ByteSet) (bytes : Bytes) :
    ∃ run rest, bytes = run ++ rest ∧ k.Spans run ∧ k.Stops rest :=
  ⟨_, _, List.takeWhile_append_dropWhile.symm, spans_takeWhile bytes, stops_dropWhile bytes⟩

/-! ### Blanks, line ends and whitespace -/

theorem Spans.whitespace_of_blanks (h : blanks.Spans run) : whitespace.Spans run := by
  intro b hb
  rw [contains_whitespace, h b hb, Bool.true_or]

theorem Spans.whitespace_of_lineEnds (h : lineEnds.Spans run) : whitespace.Spans run := by
  intro b hb
  rw [contains_whitespace, h b hb, Bool.or_true]

theorem stops_whitespace : whitespace.Stops rest ↔ blanks.Stops rest ∧ lineEnds.Stops rest := by
  cases rest with
  | nil => simp
  | cons b rest => simp [contains_whitespace]

theorem lineEnds_of_blanks {b : UInt8} (h : blanks.contains b = true) :
    lineEnds.contains b = false := by
  rw [Bool.eq_false_iff]
  exact fun h' => not_contains_both b ⟨h, h'⟩

theorem blanks_of_lineEnds {b : UInt8} (h : lineEnds.contains b = true) :
    blanks.contains b = false := by
  rw [Bool.eq_false_iff]
  exact fun h' => not_contains_both b ⟨h', h⟩

/-- Blanks stop where a line ends. -/
theorem Spans.stops_blanks (h : lineEnds.Spans run) : blanks.Stops run := by
  cases run with
  | nil => exact stops_nil
  | cons b run => exact stops_cons.mpr (blanks_of_lineEnds (spans_cons.mp h).1)

theorem Spans.stops_append (h : lineEnds.Spans run) (hrest : blanks.Stops rest) :
    blanks.Stops (run ++ rest) := by
  by_cases hne : run = []
  · rwa [hne, List.nil_append]
  · exact (ByteSet.stops_append hne).mpr h.stops_blanks

end ByteSet

namespace Fragment

open ByteSet

variable {k : ByteSet} {w : Option Fragment} {rest : Bytes}

/-! ### Fragments of one run -/

instance (f : Fragment) : Decidable f.Proper :=
  inferInstanceAs (Decidable (f.bytes ≠ [] ∧ whitespace.Spans f.bytes))

/-- There is no fragment, or one that holds a run of the set and is not empty. -/
def OfRun (k : ByteSet) (w : Option Fragment) : Prop := ∀ f ∈ w, f.bytes ≠ [] ∧ k.Spans f.bytes

instance (k : ByteSet) (w : Option Fragment) : Decidable (OfRun k w) :=
  inferInstanceAs (Decidable (∀ f ∈ w, f.bytes ≠ [] ∧ k.Spans f.bytes))

theorem OfRun.spans (h : OfRun k w) : k.Spans (source? w) := by
  cases w with
  | none => exact spans_nil
  | some f => exact (h f rfl).2

/-- A run is the bytes of a fragment or of its absence. -/
theorem exists_ofRun {run : Bytes} (h : k.Spans run) : ∃ w, OfRun k w ∧ source? w = run := by
  cases run with
  | nil =>
    refine ⟨none, ?_, rfl⟩
    rintro f ⟨⟩
  | cons b run =>
    refine ⟨some ⟨b :: run⟩, ?_, rfl⟩
    rintro f ⟨⟩
    exact ⟨List.cons_ne_nil b run, h⟩

theorem ofRun_source? {w : Option Fragment} (hne : ∀ f ∈ w, f.bytes ≠ [])
    (h : whitespace.Spans (source? w)) : ofRun (source? w) = .ok w := by
  cases w with
  | none => rfl
  | some f => exact ofRun_of_ne_nil (hne f rfl) h

/-! ### The rest of a line -/

/-- Blanks and then line ends, and not nothing. -/
def IsTail (f : Fragment) : Prop :=
  f.bytes ≠ [] ∧ ∃ pad ends, f.bytes = pad ++ ends ∧ blanks.Spans pad ∧ lineEnds.Spans ends

theorem isTail_iff {f : Fragment} :
    f.IsTail ↔ f.bytes ≠ [] ∧ lineEnds.Spans (f.bytes.dropWhile blanks.contains) := by
  constructor
  · rintro ⟨hne, pad, ends, hbytes, hpad, hends⟩
    refine ⟨hne, ?_⟩
    rwa [hbytes, dropWhile_of_spans hpad hends.stops_blanks]
  · rintro ⟨hne, hends⟩
    exact ⟨hne, _, _, List.takeWhile_append_dropWhile.symm, spans_takeWhile f.bytes, hends⟩

instance (f : Fragment) : Decidable f.IsTail := decidable_of_iff' _ isTail_iff

theorem IsTail.spans_lineEnds {f : Fragment} (h : f.IsTail) (hstop : blanks.Stops f.bytes) :
    lineEnds.Spans f.bytes := by
  obtain ⟨-, pad, ends, hbytes, hpad, hends⟩ := h
  cases pad with
  | nil => rwa [hbytes]
  | cons b pad =>
    rw [hbytes, List.cons_append, stops_cons, (spans_cons.mp hpad).1] at hstop
    cases hstop

/-- There is a fragment with a line end in it. -/
def EndsLine (w : Option Fragment) : Prop := ∃ f ∈ w, f.hasLineEnd = true

instance (w : Option Fragment) : Decidable (EndsLine w) :=
  inferInstanceAs (Decidable (∃ f ∈ w, f.hasLineEnd = true))

theorem not_endsLine_none : ¬ EndsLine none := by
  rintro ⟨f, ⟨⟩, -⟩

/-- The fragment, or its absence, is all that remains of a line before `rest`. -/
structure TailBefore (w : Option Fragment) (rest : Bytes) : Prop where
  isTail : ∀ f ∈ w, f.IsTail
  stops_of_endsLine : EndsLine w → lineEnds.Stops rest
  stops_of_not : ¬ EndsLine w → whitespace.Stops rest

theorem endsLine_iff_exists : EndsLine w ↔ ∃ b ∈ source? w, lineEnds.contains b = true := by
  cases w with
  | none => simp [EndsLine, source?]
  | some f => simp [EndsLine, source?, hasLineEnd]

theorem endsLine_iff {pad ends : Bytes} (h : source? w = pad ++ ends) (hpad : blanks.Spans pad)
    (hends : lineEnds.Spans ends) : EndsLine w ↔ ends ≠ [] := by
  rw [endsLine_iff_exists, h]
  constructor
  · rintro ⟨b, hb, hline⟩ rfl
    rw [List.append_nil] at hb
    rw [lineEnds_of_blanks (hpad b hb)] at hline
    cases hline
  · intro hne
    obtain ⟨b, ends', rfl⟩ := List.exists_cons_of_ne_nil hne
    exact ⟨b, by simp, (spans_cons.mp hends).1⟩

/-- The rest of a line ends with a line end exactly where it holds one. -/
theorem IsTail.endsWithLineEnd_iff {f : Fragment} (h : f.IsTail) :
    endsWithLineEnd f.bytes = true ↔ EndsLine (some f) := by
  obtain ⟨-, pad, ends, hbytes, hpad, hends⟩ := h
  rw [endsLine_iff (w := some f) hbytes hpad hends, hbytes, endsWithLineEnd]
  rcases List.eq_nil_or_concat ends with rfl | ⟨ends, b, rfl⟩
  · rcases List.eq_nil_or_concat pad with rfl | ⟨pad, b, rfl⟩
    · simp
    · simp_all [lineEnds_of_blanks]
  · simp_all

theorem OfRun.not_endsLine (h : OfRun blanks w) : ¬ EndsLine w := by
  rw [endsLine_iff (List.append_nil _).symm h.spans spans_nil]
  exact not_not.mpr rfl

/-- Blanks are all that remains of a line where other bytes than whitespace follow. -/
theorem OfRun.tailBefore (h : OfRun blanks w) (hrest : whitespace.Stops rest) :
    TailBefore w rest := by
  refine ⟨fun f hf => ?_, fun hline => absurd hline h.not_endsLine, fun _ => hrest⟩
  obtain ⟨hne, hspans⟩ := h f hf
  exact ⟨hne, f.bytes, [], (List.append_nil _).symm, hspans, spans_nil⟩

/-- The two runs in the rest of a line. -/
theorem TailBefore.exists_runs (h : TailBefore w rest) :
    ∃ pad ends, source? w = pad ++ ends ∧ blanks.Spans pad ∧ blanks.Stops (ends ++ rest) ∧
      lineEnds.Spans ends ∧ lineEnds.Stops rest := by
  have hruns : ∃ pad ends, source? w = pad ++ ends ∧ blanks.Spans pad ∧ lineEnds.Spans ends := by
    cases w with
    | none => exact ⟨[], [], rfl, spans_nil, spans_nil⟩
    | some f => exact (h.isTail f rfl).2
  obtain ⟨pad, ends, hw, hpad, hends⟩ := hruns
  refine ⟨pad, ends, hw, hpad, ?_, hends, ?_⟩
  · by_cases hline : EndsLine w
    · have hne : ends ≠ [] := (endsLine_iff hw hpad hends).mp hline
      exact (ByteSet.stops_append hne).mpr hends.stops_blanks
    · exact hends.stops_append (stops_whitespace.mp (h.stops_of_not hline)).1
  · by_cases hline : EndsLine w
    · exact h.stops_of_endsLine hline
    · exact (stops_whitespace.mp (h.stops_of_not hline)).2

theorem TailBefore.spans (h : TailBefore w rest) : whitespace.Spans (source? w) := by
  obtain ⟨pad, ends, hsource, hpad, -, hends, -⟩ := h.exists_runs
  rw [hsource]
  exact spans_append.mpr ⟨hpad.whitespace_of_blanks, hends.whitespace_of_lineEnds⟩

/-- Every list of bytes begins with the rest of a line, be it none. -/
theorem exists_tailBefore (bytes : Bytes) :
    ∃ w rest, bytes = source? w ++ rest ∧ TailBefore w rest := by
  obtain ⟨pad, behind, rfl, hpad, hbehind⟩ := exists_run blanks bytes
  obtain ⟨ends, rest, rfl, hends, hrest⟩ := exists_run lineEnds behind
  have hspans : whitespace.Spans (pad ++ ends) :=
    spans_append.mpr ⟨hpad.whitespace_of_blanks, hends.whitespace_of_lineEnds⟩
  obtain ⟨w, hw, hsource⟩ := exists_ofRun hspans
  refine ⟨w, rest, by rw [hsource, List.append_assoc], ?_, fun _ => hrest, ?_⟩
  · rintro f ⟨⟩
    exact ⟨(hw f rfl).1, pad, ends, hsource, hpad, hends⟩
  · intro hline
    have hnil : ends = [] := by
      by_contra hne
      exact hline ((endsLine_iff hsource hpad hends).mpr hne)
    subst hnil
    exact stops_whitespace.mpr ⟨hbehind, hrest⟩

end Fragment

/-! ### The longest rest of a line -/

namespace ByteSet

variable {k : ByteSet} {run run' rest bytes : Bytes}

/-- A run of the set that a list begins with goes no further than where the set stops. -/
theorem length_le_of_stops (hrun' : k.Spans run') (h : run' <+: run ++ rest)
    (hrest : k.Stops rest) : run'.length ≤ run.length := by
  by_contra hlt
  have hle : run.length ≤ run'.length := Nat.le_of_not_le hlt
  -- what is too much begins with the byte that stops the set
  obtain ⟨more, rfl⟩ := List.prefix_of_prefix_length_le (List.prefix_append run rest) h hle
  have hmore : more <+: rest := (List.prefix_append_right_inj run).mp h
  cases more with
  | nil =>
    apply hlt
    simp
  | cons b more =>
    obtain ⟨behind, rfl⟩ := hmore
    have hstop : k.contains b = false := stops_cons.mp hrest
    have hspan : k.contains b = true := hrun' b (by simp)
    rw [hstop] at hspan
    cases hspan

/-- Blanks and then line ends, be there any or none. -/
def LineTail (run : Bytes) : Prop :=
  ∃ pad ends, run = pad ++ ends ∧ blanks.Spans pad ∧ lineEnds.Spans ends

/-- Of all that `bytes` begin with and that is blanks and then line ends, `run` is the
longest. -/
structure LongestLineTail (run bytes : Bytes) : Prop where
  begins : run <+: bytes
  lineTail : LineTail run
  longest : ∀ run', run' <+: bytes → LineTail run' → run'.length ≤ run.length

theorem LongestLineTail.eq (h : LongestLineTail run bytes) (h' : LongestLineTail run' bytes) :
    run = run' := by
  have hle : run.length ≤ run'.length := h'.longest run h.begins h.lineTail
  have hge : run'.length ≤ run.length := h.longest run' h'.begins h'.lineTail
  have hbegins : run <+: run' := List.prefix_of_prefix_length_le h.begins h'.begins hle
  exact hbegins.eq_of_length (Nat.le_antisymm hle hge)

end ByteSet

namespace Fragment

open ByteSet

variable {w : Option Fragment} {rest : Bytes}

theorem TailBefore.longest (h : TailBefore w rest) :
    LongestLineTail (source? w) (source? w ++ rest) := by
  obtain ⟨pad, ends, hsource, hpad, hstop, hends, hrest⟩ := h.exists_runs
  refine ⟨List.prefix_append _ _, ⟨pad, ends, hsource, hpad, hends⟩, ?_⟩
  rintro run hbegins ⟨pad', ends', rfl, hpad', hends'⟩
  rw [hsource, List.append_assoc] at hbegins
  rw [hsource, List.length_append, List.length_append]
  have hle : pad'.length ≤ pad.length :=
    length_le_of_stops hpad' ((List.prefix_append pad' ends').trans hbegins) hstop
  by_cases hnil : ends' = []
  · rw [hnil, List.length_nil]
    omega
  · -- line ends stop the blanks, so no blank is left for what comes behind them
    have heq : pad' = pad := by
      obtain ⟨behind, hbehind⟩ := hbegins
      rw [List.append_assoc] at hbehind
      have hstop' : blanks.Stops (ends' ++ behind) :=
        (ByteSet.stops_append hnil).mpr hends'.stops_blanks
      rw [← takeWhile_of_spans hpad' hstop', hbehind, takeWhile_of_spans hpad hstop]
    subst heq
    have hends'' : ends' <+: ends ++ rest := (List.prefix_append_right_inj pad').mp hbegins
    have hle' : ends'.length ≤ ends.length := length_le_of_stops hends' hends'' hrest
    omega

end Fragment

end Trivia

/-
Trivia/Proofs/Provenance.lean

Where whitespace fragments come from, and which of them are proper.

The type of fragments does not carry the guard of its constructor, so that a fragment is
proper is a matter of how it was made.  Whoever goes through the constructor gets proper
fragments: directly, from a reader, in a node that was found, in the tree of a file, whatever
rules it was read by as long as they do so too, and in a module (`Fragment.Made`).  Nothing
else is made so, and nothing is left out (`Fragment.made_iff_proper`).

Stored trees go another way.  Reading them back asks for bytes and for nothing more
(`Fragment.ofDatum?_eq_some_iff`).  A tree that is read has one fragment for each place of
the data where its type looks for one (`Tree.readAt_places`), and every tree is read back
from what it is stored as (`Tree.ofDatum?_toDatum`): a tree whose fragments are proper keeps
them so, and one whose fragments are not is taken all the same.
-/
import Trivia.Proofs.Canonical
import Trivia.Proofs.Histories
import Trivia.Proofs.Logs
import Trivia.Proofs.Rounds
import Trivia.Tree.Datum

namespace Trivia

open ByteSet

variable {source : Bytes} {c d start : Position source} {dialect : Dialect} {g : Grammar}

/-! ### The fragments of a tree -/

/-- The fragments of a line comment. -/
def LineComment.fragments (comment : LineComment) : List Fragment :=
  comment.indent.toList ++ comment.gap.toList ++ comment.trailing.toList

/-- The fragments of a block comment. -/
def BlockComment.fragments (comment : BlockComment) : List Fragment :=
  comment.indent.toList ++ comment.trailing.toList

/-- The fragments of a node; standalone whitespace is one itself. -/
def Node.fragments : Node → List Fragment
  | line comment => comment.fragments
  | block comment => comment.fragments
  | space w => [w]

/-- The fragments of a file. -/
def File.fragments (f : File) : List Fragment := f.nodes.flatMap Node.fragments

/-- The fragments of a module. -/
def Module.fragments (m : Module) : List Fragment := m.files.flatMap File.fragments

/-! ### Well-formed nodes -/

namespace Fragment

variable {k : ByteSet} {w : Option Fragment}

theorem OfRun.proper (h : OfRun k w)
    (hk : ∀ {run : Bytes}, k.Spans run → whitespace.Spans run) : ∀ f ∈ w, f.Proper := by
  intro f hf
  obtain ⟨hne, hspans⟩ := h f hf
  exact ⟨hne, hk hspans⟩

theorem IsTail.proper {f : Fragment} (h : f.IsTail) : f.Proper := by
  obtain ⟨hne, pad, ends, hbytes, hpad, hends⟩ := h
  refine ⟨hne, ?_⟩
  rw [hbytes]
  exact spans_append.mpr ⟨hpad.whitespace_of_blanks, hends.whitespace_of_lineEnds⟩

end Fragment

theorem Node.WellFormed.proper {n : Node} (h : n.WellFormed) : ∀ w ∈ n.fragments, w.Proper := by
  cases n with
  | line comment =>
    have hindent := h.indent.proper Spans.whitespace_of_blanks
    have hgap := h.gap.proper Spans.whitespace_of_blanks
    have htrailing : ∀ f ∈ comment.trailing, f.Proper := fun f hf => (h.trailing f hf).proper
    simp only [Node.fragments, LineComment.fragments, List.forall_mem_append, Option.mem_toList]
    exact ⟨⟨hindent, hgap⟩, htrailing⟩
  | block comment =>
    have hindent := h.indent.proper Spans.whitespace_of_blanks
    have htrailing : ∀ f ∈ comment.trailing, f.Proper := fun f hf => (h.trailing f hf).proper
    simp only [Node.fragments, BlockComment.fragments, List.forall_mem_append, Option.mem_toList]
    exact ⟨hindent, htrailing⟩
  | space w => exact List.forall_mem_singleton.mpr h

/-! ### Nodes of a run -/

/-- The node of a round is one that a rule found. -/
theorem Round.exists_found_of_node {rules : List Rule} {n : Node}
    (h : (ofRules dialect c rules).value = .node n d) :
    ∃ r ∈ rules, ∃ log, r.attempt dialect c = .ok ⟨log, .found n⟩ d := by
  induction rules with
  | nil => cases h
  | cons r rules ih =>
    rw [value_ofRules_cons] at h
    split at h
    · cases h
    · rename_i log m e hattempt
      split at h
      · cases h
      · cases h
        exact ⟨r, List.mem_cons_self, log, hattempt⟩
    · obtain ⟨r', hr', hfound⟩ := ih h
      exact ⟨r', List.mem_cons_of_mem r hr', hfound⟩
    · cases h

/-- A node of a run is one that a rule found. -/
theorem Grammar.exists_found_of_run {run : Run source} {n : Node}
    (h : (g.run dialect start).value = .ok run) (hn : n ∈ run.nodes) :
    ∃ r ∈ g.rules, ∃ c d log, r.attempt dialect c = .ok ⟨log, .found n⟩ (d : Position source) := by
  rw [Grammar.run] at h
  generalize source.length + 1 = limit at h
  induction limit generalizing start run with
  | zero => cases h
  | succ limit ih =>
    rcases hround : (Round.ofRules dialect start g.rules).value with ⟨m, next⟩ | - | cause
    · rw [value_rounds_of_node hround] at h
      rcases hrest : (g.rounds dialect limit next).value with cause | rest
      · rw [hrest] at h
        cases h
      · rw [hrest] at h
        obtain rfl := Except.ok.inj h
        rcases List.mem_cons.mp hn with rfl | hn
        · obtain ⟨r, hr, log, hfound⟩ := Round.exists_found_of_node hround
          exact ⟨r, hr, _, _, log, hfound⟩
        · exact ih hn hrest
    · rw [value_rounds_of_stop hround] at h
      obtain rfl := Except.ok.inj h
      cases hn
    · rw [value_rounds_of_failed hround] at h
      cases h

/-! ### Fragments that are made -/

/-- The readers of fragments, which may find none. -/
def Fragment.readers (source : Bytes) : List (Scanner source (Option Fragment)) :=
  [readBlanks, readLineEnds, readTail]

/-- The fragment is made by the constructor, or is part of what was put together of
fragments that are. -/
inductive Fragment.Made : Fragment → Prop
  | ofBytes {bytes : Bytes} {w : Fragment} : Fragment.ofBytes bytes = .ok w → Made w
  | ofRun {run : Bytes} {w : Fragment} : Fragment.ofRun run = .ok (some w) → Made w
  /-- Read where a scanner stands. -/
  | read {source : Bytes} {c d : Position source} {m : Scanner source (Option Fragment)}
      {w : Fragment} : m ∈ readers source → m c = .ok (some w) d → Made w
  /-- Part of a node that a rule of the grammar of a dialect found. -/
  | inNode {dialect : Dialect} {r : Rule} {source : Bytes} {c d : Position source}
      {log : List Event} {n : Node} {w : Fragment} :
      r ∈ (Grammar.ofDialect dialect).rules → r.attempt dialect c = .ok ⟨log, .found n⟩ d →
      w ∈ n.fragments → Made w
  /-- Part of a file of any rules that find nodes of made fragments only, as those of the
  grammar of a dialect do. -/
  | inFile {g : Grammar} {dialect : Dialect} {name : String} {source : Bytes}
      {start : Position source} {file : File} {w : Fragment} :
      (∀ r ∈ g.rules, ∀ c d log n, r.attempt dialect c = .ok ⟨log, .found n⟩ (d : Position source) →
        ∀ w ∈ n.fragments, Made w) →
      (g.fileFrom dialect name start).value = .ok file → w ∈ file.fragments → Made w
  /-- Part of a module behind a history. -/
  | inModule {m : Module} {history : List Request} {w : Fragment} :
      (∀ w ∈ m.fragments, Made w) → w ∈ (Request.applyAll m history).fragments → Made w

namespace Fragment

theorem proper_of_ofRun {run : Bytes} {w : Fragment} (h : ofRun run = .ok (some w)) :
    w.Proper := by
  rw [ofRun] at h
  split at h
  · cases h
  · rcases hmake : ofBytes run with cause | f
    · rw [hmake] at h
      cases h
    · rw [hmake] at h
      cases h
      exact (ofBytes_eq_ok_iff.mp hmake).2

/-- Whatever is scanned, a fragment that is made of the run is proper. -/
theorem proper_of_scanned {m : Scanner source Bytes} {w : Fragment}
    (h : (do Scanner.ofExcept (ofRun (← m)) : Scanner source _) c = .ok (some w) d) :
    w.Proper := by
  obtain ⟨run, e, -, hrun⟩ := Scanner.exists_of_bind h
  exact proper_of_ofRun (Scanner.eq_ok_of_ofExcept hrun)

theorem proper_of_read {m : Scanner source (Option Fragment)} {w : Fragment}
    (hm : m ∈ readers source) (h : m c = .ok (some w) d) : w.Proper := by
  simp only [readers, List.mem_cons, List.not_mem_nil, or_false] at hm
  rcases hm with rfl | rfl | rfl
  · exact proper_of_scanned h
  · exact proper_of_scanned h
  · obtain ⟨- | run, e, -, hrun⟩ := Scanner.exists_of_bind h
    · cases hrun
    · exact proper_of_ofRun (Scanner.eq_ok_of_ofExcept hrun)

end Fragment

/-- What a rule of the grammar finds is well formed. -/
theorem Rule.wellFormed_of_found {r : Rule} {log : List Event} {n : Node}
    (hr : r ∈ (Grammar.ofDialect dialect).rules)
    (h : r.attempt dialect c = .ok ⟨log, .found n⟩ d) : n.WellFormed := by
  rcases attempt_cases hr c with ⟨event, expected, habsent, -⟩ | ⟨n', d', hfind⟩ | ⟨opening, hopen⟩
  · cases habsent.symm.trans h
  · cases hfind.attempt.symm.trans h
    exact hfind.wellFormed
  · obtain ⟨e, hmalformed⟩ := hopen.attempt
    cases hmalformed.symm.trans h

/-- Fragments in a file of the grammar are proper. -/
theorem File.proper_of_fileFrom {name : String} {file : File}
    (h : ((Grammar.ofDialect dialect).fileFrom dialect name start).value = .ok file) :
    ∀ w ∈ file.fragments, w.Proper := by
  obtain ⟨-, -, rest, hderives, -⟩ := Grammar.fileFrom_eq_ok_iff.mp h
  intro w hw
  obtain ⟨n, hn, hw⟩ := List.mem_flatMap.mp hw
  exact (hderives.canonical.wellFormed n hn).proper w hw

theorem Module.proper_applyAll {m : Module} (h : ∀ w ∈ m.fragments, w.Proper)
    (history : List Request) : ∀ w ∈ (Request.applyAll m history).fragments, w.Proper := by
  intro w hw
  obtain ⟨f, hf, hw⟩ := List.mem_flatMap.mp hw
  rw [Request.applyAll_eq, List.mem_append] at hf
  rcases hf with hf | hf
  · exact h w (List.mem_flatMap.mpr ⟨f, hf, hw⟩)
  · obtain ⟨r, -, hr⟩ := List.mem_filterMap.mp hf
    rcases r.apply_cases with ⟨f', hfile, houtcome, -⟩ | ⟨hnone, -⟩
    · obtain rfl := Option.some.inj (hfile.symm.trans hr)
      obtain ⟨dialect, bytes, -, hvalue⟩ := Request.outcome_eq_ok_iff.mp houtcome
      exact File.proper_of_fileFrom hvalue w hw
    · cases hnone.symm.trans hr

theorem Fragment.made_iff_proper {w : Fragment} : w.Made ↔ w.Proper := by
  constructor
  · intro h
    induction h with
    | ofBytes hmake => exact (ofBytes_eq_ok_iff.mp hmake).2
    | ofRun hmake => exact proper_of_ofRun hmake
    | read hm hread => exact proper_of_read hm hread
    | inNode hr hfound hw => exact (Rule.wellFormed_of_found hr hfound).proper _ hw
    | inFile _ hfile hw ih =>
      obtain ⟨run, hrun, hnodes⟩ := Grammar.exists_run_of_fileFrom hfile
      obtain ⟨n, hn, hw⟩ := List.mem_flatMap.mp hw
      obtain ⟨r, hr, c, d, log, hfound⟩ := Grammar.exists_found_of_run hrun (hnodes ▸ hn)
      exact ih r hr c d log n hfound _ hw
    | inModule _ hw ih => exact Module.proper_applyAll ih _ _ hw
  · intro h
    exact .ofBytes (ofBytes_eq_ok_iff.mpr ⟨rfl, h⟩)

/-! ### Values that are stored -/

namespace Datum

variable {α : Type} {read : Datum → Option α} {write : α → Datum}

/-- A byte is read from its number and from nothing else. -/
theorem byte?_eq_some_iff {datum : Datum} {b : UInt8} :
    datum.byte? = some b ↔ datum = .integer b.toNat := by
  constructor
  · intro h
    obtain ⟨n, hn, hb⟩ := Option.map_eq_some_iff.mp h
    match datum, hn with
    | .integer (.ofNat m), hn =>
      rw [bounded?] at hn
      split at hn
      · rename_i hm
        obtain rfl := Option.some.inj hn
        rw [← hb, Nat.toUInt8, UInt8.toNat_ofNat_of_lt' hm]
        rfl
      · cases hn
  · rintro rfl
    have hbounded : bounded? UInt8.size (integer b.toNat) = some b.toNat := if_pos b.toNat_lt
    rw [byte?, hbounded, Option.map_some, Nat.toUInt8, UInt8.ofNat_toNat]

theorem mapM_eq_some_iff {items : List Datum} {as : List α} :
    items.mapM read = some as ↔ List.Forall₂ (fun d a => read d = some a) items as := by
  induction items generalizing as with
  | nil => simp [eq_comm]
  | cons d items ih =>
    rw [List.mapM_cons, List.forall₂_cons_left_iff]
    constructor
    · intro h
      obtain ⟨a, ha, h⟩ := Option.bind_eq_some_iff.mp h
      obtain ⟨rest, hrest, h⟩ := Option.bind_eq_some_iff.mp h
      exact ⟨a, rest, ha, ih.mp hrest, (Option.some.inj h).symm⟩
    · rintro ⟨a, rest, ha, hrest, rfl⟩
      rw [ha, ih.mpr hrest]
      rfl

/-- A sequence is read item by item, and nothing else is read as one. -/
theorem sequence?_eq_some_iff {d : Datum} {as : List α} :
    d.sequence? read = some as ↔
      ∃ items, d = sequence items ∧ List.Forall₂ (fun d a => read d = some a) items as := by
  constructor
  · intro h
    match d, h with
    | sequence items, h => exact ⟨items, rfl, mapM_eq_some_iff.mp h⟩
  · rintro ⟨items, rfl, hitems⟩
    exact mapM_eq_some_iff.mpr hitems

/-- Bytes are read from the sequence of their numbers and from nothing else. -/
theorem sequence?_byte?_eq_some_iff {d : Datum} {bytes : Bytes} :
    d.sequence? byte? = some bytes ↔ d = .ofBytes bytes := by
  have hitems : ∀ items : List Datum,
      List.Forall₂ (fun d b => d.byte? = some b) items bytes ↔
        items = bytes.map fun b => integer b.toNat := by
    intro items
    rw [← List.forall₂_eq_eq_eq, List.forall₂_map_right_iff]
    simp only [byte?_eq_some_iff]
  simp only [sequence?_eq_some_iff, hitems, ofBytes, exists_eq_right]

theorem sequence?_map (h : ∀ a, read (write a) = some a) (items : List α) :
    (sequence (items.map write)).sequence? read = some items := by
  refine sequence?_eq_some_iff.mpr ⟨_, rfl, ?_⟩
  rw [List.forall₂_map_left_iff]
  exact List.forall₂_same.mpr fun a _ => h a

theorem optional?_ofOption (h : ∀ a, read (write a) = some a) (hnull : ∀ a, write a ≠ null)
    (a : Option α) : optional? read (some (ofOption write a)) = some a := by
  cases a with
  | none => rfl
  | some a =>
    have hread : optional? read (some (write a)) = (read (write a)).map some := by
      rw [optional?]
      intro hnone
      exact hnull a hnone
    rw [ofOption, hread, h a, Option.map_some]

end Datum

/-! ### Trees that are stored -/

/-- A fragment is read from any bytes in its one field. -/
theorem Fragment.ofDatum?_eq_some_iff {datum : Datum} {w : Fragment} :
    Fragment.ofDatum? datum = some w ↔ datum.fields? ["body"] = some [some (.ofBytes w.bytes)] := by
  rw [ofDatum?]
  constructor
  · intro h
    obtain ⟨fields, hfields, h⟩ := Option.bind_eq_some_iff.mp h
    match fields, h with
    | [some body], h =>
      obtain ⟨bytes, hbytes, h⟩ := Option.bind_eq_some_iff.mp h
      obtain rfl := Option.some.inj h
      rw [hfields, Datum.sequence?_byte?_eq_some_iff.mp hbytes]
  · intro h
    have hbody := Datum.sequence?_byte?_eq_some_iff.mpr (rfl : Datum.ofBytes w.bytes = _)
    simp only [h, Option.bind_eq_bind, Option.bind_some, hbody, Option.pure_def]

theorem Fragment.ofDatum?_toDatum (w : Fragment) : Fragment.ofDatum? w.toDatum = some w :=
  ofDatum?_eq_some_iff.mpr rfl

/-- What was written for a fragment that may be absent is read back. -/
theorem Fragment.optional?_ofOption (w : Option Fragment) :
    Datum.optional? Fragment.ofDatum? (some (.ofOption Fragment.toDatum w)) = some w :=
  Datum.optional?_ofOption ofDatum?_toDatum (fun _ => by rintro ⟨⟩) w

theorem LineComment.ofDatum?_toDatum (comment : LineComment) :
    LineComment.ofDatum? comment.toDatum = some comment := by
  have hfields : comment.toDatum.fields? ["pre_open", "post_open", "body", "post_body"] =
      some [some (.ofOption Fragment.toDatum comment.indent),
        some (.ofOption Fragment.toDatum comment.gap), some (.ofBytes comment.body),
        some (.ofOption Fragment.toDatum comment.trailing)] := rfl
  have hbody := Datum.sequence?_byte?_eq_some_iff.mpr (rfl : Datum.ofBytes comment.body = _)
  simp only [ofDatum?, hfields, Option.bind_eq_bind, Option.bind_some,
    Fragment.optional?_ofOption, hbody, Option.pure_def]

theorem BlockComment.ofDatum?_toDatum (comment : BlockComment) :
    BlockComment.ofDatum? comment.toDatum = some comment := by
  have hfields : comment.toDatum.fields? ["pre_open", "body", "post_body"] =
      some [some (.ofOption Fragment.toDatum comment.indent), some (.ofBytes comment.body),
        some (.ofOption Fragment.toDatum comment.trailing)] := rfl
  have hbody := Datum.sequence?_byte?_eq_some_iff.mpr (rfl : Datum.ofBytes comment.body = _)
  simp only [ofDatum?, hfields, Option.bind_eq_bind, Option.bind_some,
    Fragment.optional?_ofOption, hbody, Option.pure_def]

theorem Node.ofDatum?_toDatum (n : Node) : Node.ofDatum? n.toDatum = some n := by
  cases n with
  | line comment => exact congrArg (Option.map line) comment.ofDatum?_toDatum
  | block comment => exact congrArg (Option.map block) comment.ofDatum?_toDatum
  | space w => exact congrArg (Option.map space) w.ofDatum?_toDatum

theorem File.ofDatum?_toDatum (f : File) : File.ofDatum? f.toDatum = some f := by
  have hfields : f.toDatum.fields? ["name", "children"] =
      some [some (.text f.name), some (.sequence (f.nodes.map Node.toDatum))] := rfl
  have hnodes := Datum.sequence?_map Node.ofDatum?_toDatum f.nodes
  simp only [ofDatum?, hfields, Option.bind_eq_bind, Option.bind_some, Datum.text?, hnodes,
    Option.pure_def]

theorem Module.ofDatum?_toDatum (m : Module) : Module.ofDatum? m.toDatum = some m := by
  have hfields : m.toDatum.fields? ["name", "files"] =
      some [some (.text m.name), some (.sequence (m.files.map File.toDatum))] := rfl
  have hfiles := Datum.sequence?_map File.ofDatum?_toDatum m.files
  simp only [ofDatum?, hfields, Option.bind_eq_bind, Option.bind_some, Datum.text?, hfiles,
    Option.pure_def]

/-! ### Where readers look for fragments -/

/-- The value of a field that may be absent, where it is there. -/
def Datum.present : Option Datum → List Datum
  | none | some null => []
  | some d => [d]

/-- The parts of the data that a line comment reads its fragments of. -/
def LineComment.places (d : Datum) : List Datum :=
  match d.fields? ["pre_open", "post_open", "body", "post_body"] with
  | some [indent, gap, _, trailing] =>
    Datum.present indent ++ Datum.present gap ++ Datum.present trailing
  | _ => []

/-- The parts of the data that a block comment reads its fragments of. -/
def BlockComment.places (d : Datum) : List Datum :=
  match d.fields? ["pre_open", "body", "post_body"] with
  | some [indent, _, trailing] => Datum.present indent ++ Datum.present trailing
  | _ => []

/-- The parts of the data that a node reads its fragments of. -/
def Node.places : Datum → List Datum
  | .mapping [("SingleLineComment", d)] => LineComment.places d
  | .mapping [("MultiLineComment", d)] => BlockComment.places d
  | .mapping [("Whitespace", d)] => [d]
  | _ => []

/-- The parts of the data that a file reads its fragments of. -/
def File.places (d : Datum) : List Datum :=
  match d.fields? ["name", "children"] with
  | some [_, some (.sequence nodes)] => nodes.flatMap Node.places
  | _ => []

/-- The parts of the data that a module reads its fragments of. -/
def Module.places (d : Datum) : List Datum :=
  match d.fields? ["name", "files"] with
  | some [_, some (.sequence files)] => files.flatMap File.places
  | _ => []

/-- The fragments are what is read of the parts, one of each. -/
def Fragment.ReadAt (places : List Datum) (ws : List Fragment) : Prop :=
  List.Forall₂ (fun p w => Fragment.ofDatum? p = some w) places ws

namespace Fragment

variable {places places' : List Datum} {ws ws' : List Fragment}

theorem ReadAt.append (h : ReadAt places ws) (h' : ReadAt places' ws') :
    ReadAt (places ++ places') (ws ++ ws') :=
  List.rel_append h h'

theorem readAt_present {o : Option Datum} {f : Option Fragment}
    (h : Datum.optional? ofDatum? o = some f) : ReadAt (Datum.present o) f.toList := by
  unfold Datum.optional? at h
  split at h
  · obtain rfl := Option.some.inj h
    exact .nil
  · obtain rfl := Option.some.inj h
    exact .nil
  · rename_i d hnull
    obtain ⟨w, hw, rfl⟩ := Option.map_eq_some_iff.mp h
    have hpresent : Datum.present (some d) = [d] := by
      rw [Datum.present]
      exact hnull
    rw [hpresent]
    exact .cons hw .nil

/-- What is read of items one by one reads its fragments of them one by one. -/
theorem readAt_flatMap {α : Type} {read : Datum → Option α} {places : Datum → List Datum}
    {fragments : α → List Fragment}
    (hread : ∀ {d a}, read d = some a → ReadAt (places d) (fragments a))
    {items : List Datum} {as : List α} (h : List.Forall₂ (fun d a => read d = some a) items as) :
    ReadAt (items.flatMap places) (as.flatMap fragments) := by
  induction h with
  | nil => exact .nil
  | cons ha _ ih =>
    rw [List.flatMap_cons, List.flatMap_cons]
    exact (hread ha).append ih

end Fragment

theorem LineComment.readAt_places {d : Datum} {comment : LineComment}
    (h : LineComment.ofDatum? d = some comment) :
    Fragment.ReadAt (places d) comment.fragments := by
  obtain ⟨fields, hfields, h⟩ := Option.bind_eq_some_iff.mp h
  match fields, h with
  | [indent, gap, some body, trailing], h =>
    obtain ⟨i, hi, h⟩ := Option.bind_eq_some_iff.mp h
    obtain ⟨g, hg, h⟩ := Option.bind_eq_some_iff.mp h
    obtain ⟨b, -, h⟩ := Option.bind_eq_some_iff.mp h
    obtain ⟨t, ht, h⟩ := Option.bind_eq_some_iff.mp h
    obtain rfl := Option.some.inj h
    rw [places, hfields]
    exact ((Fragment.readAt_present hi).append (Fragment.readAt_present hg)).append
      (Fragment.readAt_present ht)

theorem BlockComment.readAt_places {d : Datum} {comment : BlockComment}
    (h : BlockComment.ofDatum? d = some comment) :
    Fragment.ReadAt (places d) comment.fragments := by
  obtain ⟨fields, hfields, h⟩ := Option.bind_eq_some_iff.mp h
  match fields, h with
  | [indent, some body, trailing], h =>
    obtain ⟨i, hi, h⟩ := Option.bind_eq_some_iff.mp h
    obtain ⟨b, -, h⟩ := Option.bind_eq_some_iff.mp h
    obtain ⟨t, ht, h⟩ := Option.bind_eq_some_iff.mp h
    obtain rfl := Option.some.inj h
    rw [places, hfields]
    exact (Fragment.readAt_present hi).append (Fragment.readAt_present ht)

theorem Node.readAt_places {d : Datum} {n : Node} (h : Node.ofDatum? d = some n) :
    Fragment.ReadAt (places d) n.fragments := by
  rw [ofDatum?.eq_def] at h
  split at h
  · obtain ⟨comment, hread, rfl⟩ := Option.map_eq_some_iff.mp h
    exact LineComment.readAt_places hread
  · obtain ⟨comment, hread, rfl⟩ := Option.map_eq_some_iff.mp h
    exact BlockComment.readAt_places hread
  · obtain ⟨w, hread, rfl⟩ := Option.map_eq_some_iff.mp h
    exact .cons hread .nil
  · cases h

theorem File.readAt_places {d : Datum} {f : File} (h : File.ofDatum? d = some f) :
    Fragment.ReadAt (places d) f.fragments := by
  obtain ⟨fields, hfields, h⟩ := Option.bind_eq_some_iff.mp h
  match fields, h with
  | [some name, some nodes], h =>
    obtain ⟨s, -, h⟩ := Option.bind_eq_some_iff.mp h
    obtain ⟨ns, hns, h⟩ := Option.bind_eq_some_iff.mp h
    obtain rfl := Option.some.inj h
    obtain ⟨items, rfl, hitems⟩ := Datum.sequence?_eq_some_iff.mp hns
    rw [places, hfields]
    exact Fragment.readAt_flatMap Node.readAt_places hitems

theorem Module.readAt_places {d : Datum} {m : Module} (h : Module.ofDatum? d = some m) :
    Fragment.ReadAt (places d) m.fragments := by
  obtain ⟨fields, hfields, h⟩ := Option.bind_eq_some_iff.mp h
  match fields, h with
  | [some name, some files], h =>
    obtain ⟨s, -, h⟩ := Option.bind_eq_some_iff.mp h
    obtain ⟨fs, hfs, h⟩ := Option.bind_eq_some_iff.mp h
    obtain rfl := Option.some.inj h
    obtain ⟨items, rfl, hitems⟩ := Datum.sequence?_eq_some_iff.mp hfs
    rw [places, hfields]
    exact Fragment.readAt_flatMap File.readAt_places hitems

/-! ### Which fragments there are -/

/-- A stored value of any of the types that hold fragments. -/
inductive Tree
  | fragment (w : Fragment)
  | line (comment : LineComment)
  | block (comment : BlockComment)
  | node (n : Node)
  | file (f : File)
  | module (m : Module)

namespace Tree

/-- The types of stored values. -/
inductive Kind
  | fragment | line | block | node | file | module

/-- The type of a stored value. -/
def kind : Tree → Kind
  | fragment _ => .fragment
  | line _ => .line
  | block _ => .block
  | node _ => .node
  | file _ => .file
  | module _ => .module

/-- What a value is stored as. -/
def toDatum : Tree → Datum
  | fragment w => w.toDatum
  | line comment => comment.toDatum
  | block comment => comment.toDatum
  | node n => n.toDatum
  | file f => f.toDatum
  | module m => m.toDatum

/-- Reads a value of a type. -/
def ofDatum? (kind : Kind) (d : Datum) : Option Tree :=
  match kind with
  | .fragment => (Fragment.ofDatum? d).map fragment
  | .line => (LineComment.ofDatum? d).map line
  | .block => (BlockComment.ofDatum? d).map block
  | .node => (Node.ofDatum? d).map node
  | .file => (File.ofDatum? d).map file
  | .module => (Module.ofDatum? d).map module

/-- The fragments of a value, at any depth. -/
def fragments : Tree → List Fragment
  | fragment w => [w]
  | line comment => comment.fragments
  | block comment => comment.fragments
  | node n => n.fragments
  | file f => f.fragments
  | module m => m.fragments

/-- The parts of the data that a value of a type reads its fragments of. -/
def places (kind : Kind) (d : Datum) : List Datum :=
  match kind with
  | .fragment => [d]
  | .line => LineComment.places d
  | .block => BlockComment.places d
  | .node => Node.places d
  | .file => File.places d
  | .module => Module.places d

/-- Every value is read back from what it is stored as. -/
theorem ofDatum?_toDatum (t : Tree) : ofDatum? t.kind t.toDatum = some t := by
  cases t with
  | fragment w => exact congrArg (Option.map fragment) w.ofDatum?_toDatum
  | line comment => exact congrArg (Option.map line) comment.ofDatum?_toDatum
  | block comment => exact congrArg (Option.map block) comment.ofDatum?_toDatum
  | node n => exact congrArg (Option.map node) n.ofDatum?_toDatum
  | file f => exact congrArg (Option.map file) f.ofDatum?_toDatum
  | module m => exact congrArg (Option.map module) m.ofDatum?_toDatum

theorem readAt_places {kind : Kind} {d : Datum} {t : Tree} (h : ofDatum? kind d = some t) :
    Fragment.ReadAt (places kind d) t.fragments := by
  cases kind with
  | fragment =>
    obtain ⟨w, hread, rfl⟩ := Option.map_eq_some_iff.mp h
    exact .cons hread .nil
  | line =>
    obtain ⟨comment, hread, rfl⟩ := Option.map_eq_some_iff.mp h
    exact LineComment.readAt_places hread
  | block =>
    obtain ⟨comment, hread, rfl⟩ := Option.map_eq_some_iff.mp h
    exact BlockComment.readAt_places hread
  | node =>
    obtain ⟨n, hread, rfl⟩ := Option.map_eq_some_iff.mp h
    exact Node.readAt_places hread
  | file =>
    obtain ⟨f, hread, rfl⟩ := Option.map_eq_some_iff.mp h
    exact File.readAt_places hread
  | module =>
    obtain ⟨m, hread, rfl⟩ := Option.map_eq_some_iff.mp h
    exact Module.readAt_places hread

end Tree

/-- The body of a fragment in the data is whitespace and not empty. -/
def Datum.BodyProper (d : Datum) : Prop :=
  ∀ bytes, d.fields? ["body"] = some [some (.ofBytes bytes)] → (⟨bytes⟩ : Fragment).Proper

/-- Fragments are proper where their bodies in the data are, and only there. -/
theorem Fragment.ReadAt.proper_iff {places : List Datum} {ws : List Fragment}
    (h : ReadAt places ws) : (∀ w ∈ ws, w.Proper) ↔ ∀ p ∈ places, p.BodyProper := by
  induction h with
  | nil => simp
  | @cons p w places ws hread _ ih =>
    have hfields := ofDatum?_eq_some_iff.mp hread
    have hw : w.Proper ↔ p.BodyProper := by
      constructor
      · intro hw bytes hbytes
        have hsame : (⟨bytes⟩ : Fragment) = w :=
          Option.some.inj ((ofDatum?_eq_some_iff.mpr hbytes).symm.trans hread)
        rwa [hsame]
      · exact fun hp => hp w.bytes hfields
    rw [List.forall_mem_cons, List.forall_mem_cons, hw, ih]

/-- The fragments that are made are the proper ones, but fragments are read as well.  A value
that is read, of any type, has one fragment for each place of the data where its type looks
for one, and they are proper exactly if the bodies at these places are.  Nothing else sees to
that: a body of any bytes is read, and so is every value from what it is stored as. -/
theorem Tree.proper_iff_of_read (kind : Tree.Kind) (d : Datum) :
    (∀ w : Fragment, w.Made ↔ w.Proper) ∧
    (∀ t, ofDatum? kind d = some t → Fragment.ReadAt (places kind d) t.fragments ∧
      ((∀ w ∈ t.fragments, w.Proper) ↔ ∀ p ∈ places kind d, p.BodyProper)) ∧
    (∀ w, Fragment.ofDatum? d = some w ↔ d.fields? ["body"] = some [some (.ofBytes w.bytes)]) ∧
    ∀ t : Tree, ofDatum? t.kind t.toDatum = some t := by
  refine ⟨fun _ => Fragment.made_iff_proper, fun t ht => ?_,
    fun _ => Fragment.ofDatum?_eq_some_iff, ofDatum?_toDatum⟩
  have hread := readAt_places ht
  exact ⟨hread, hread.proper_iff⟩

/-- Reading goes past the guard: a fragment without a byte is read, by itself and in a node,
and the constructor makes none. -/
theorem Tree.read_empty_and_not_proper :
    ofDatum? .fragment (.mapping [("body", .sequence [])]) = some (.fragment ⟨[]⟩) ∧
    ofDatum? .node (.mapping [("Whitespace", .mapping [("body", .sequence [])])])
      = some (.node (.space ⟨[]⟩)) ∧
    ¬(⟨[]⟩ : Fragment).Proper ∧ Fragment.ofBytes [] = .error .emptyFragment :=
  ⟨rfl, rfl, fun h => h.1 rfl, rfl⟩

end Trivia

/-
Trivia/Proofs/Recoding.lean

What a parse sees of a byte.

To the grammar a byte is one of five kinds (`ByteKind`): the two that markers are
made of, blanks, line ends and all others.  A `Recoding` puts a string of one kind in
the place of each byte of that kind, and keeps the two of the markers.  Recoding a
source recodes its file and moves the range of its diagnostic, and does nothing else
(`ofSource_recode`); how lines end is one instance (`Recoding.lineFeeds`).

The proof does not look at a run at all.  A recoding respects the sets that scanning
uses, in the runs they span and in what stops them (`spans_bytes`, `stops_bytes`), and
it neither makes markers nor breaks them (`prefix_bytes`, `closer_infix_bytes`).  So
each construct that leads a rest still leads it when both are recoded, a derivation
is recoded node by node (`Derives.recode`), and the outcome of a source is that of
its derivation.
-/
import Trivia.Proofs.RoundTrip

namespace Trivia

open ByteSet

/-! ### Kinds of bytes -/

/-- What a byte is to the grammar. -/
inductive ByteKind
  | slash
  | star
  | blank
  | lineEnd
  | plain
  deriving DecidableEq, Repr

namespace ByteKind

/-- The kind of a byte. -/
def of (b : UInt8) : ByteKind :=
  if b = 0x2f then .slash
  else if b = 0x2a then .star
  else if blanks.contains b then .blank
  else if lineEnds.contains b then .lineEnd
  else .plain

theorem contains_blanks (b : UInt8) : blanks.contains b = (of b == .blank) := by
  by_cases hslash : b = 0x2f
  · subst hslash
    rfl
  by_cases hstar : b = 0x2a
  · subst hstar
    rfl
  rw [of, if_neg hslash, if_neg hstar]
  rcases hblank : blanks.contains b with - | -
  · rcases hline : lineEnds.contains b with - | - <;> rfl
  · rfl

theorem contains_lineEnds (b : UInt8) : lineEnds.contains b = (of b == .lineEnd) := by
  by_cases hslash : b = 0x2f
  · subst hslash
    rfl
  by_cases hstar : b = 0x2a
  · subst hstar
    rfl
  rw [of, if_neg hslash, if_neg hstar]
  rcases hblank : blanks.contains b with - | -
  · rcases hline : lineEnds.contains b with - | - <;> rfl
  · rw [lineEnds_of_blanks hblank]
    rfl

theorem eq_slash {b : UInt8} (h : of b = .slash) : b = 0x2f := by
  rw [of] at h
  split_ifs at h with hslash
  exact hslash

theorem eq_star {b : UInt8} (h : of b = .star) : b = 0x2a := by
  rw [of] at h
  split_ifs at h with hslash hstar
  exact hstar

/-- A byte of a marker is the only one of its kind. -/
theorem eq_of_marker {b m : UInt8} (hm : m = 0x2f ∨ m = 0x2a) (h : of b = of m) : b = m := by
  rcases hm with rfl | rfl
  · exact eq_slash h
  · exact eq_star h

end ByteKind

/-- Membership is a matter of the kind. -/
def ByteSet.Respects (k : ByteSet) : Prop :=
  ∀ ⦃b b' : UInt8⦄, ByteKind.of b' = ByteKind.of b → k.contains b' = k.contains b

theorem respects_blanks : blanks.Respects := by
  intro b b' h
  rw [ByteKind.contains_blanks, ByteKind.contains_blanks, h]

theorem respects_lineEnds : lineEnds.Respects := by
  intro b b' h
  rw [ByteKind.contains_lineEnds, ByteKind.contains_lineEnds, h]

theorem respects_whitespace : whitespace.Respects := by
  intro b b' h
  rw [contains_whitespace, contains_whitespace, respects_blanks h, respects_lineEnds h]

/-! ### Recodings -/

/-- A string for each byte, of bytes of its kind.  The bytes of markers stay as they
are. -/
structure Recoding where
  image : UInt8 → Bytes
  image_ne_nil : ∀ b, image b ≠ []
  kind_of_mem : ∀ b, ∀ b' ∈ image b, ByteKind.of b' = ByteKind.of b
  image_slash : image 0x2f = [0x2f]
  image_star : image 0x2a = [0x2a]

namespace Recoding

variable {ρ : Recoding} {k : ByteSet} {run rest marker : Bytes}

/-- The strings of all bytes in turn. -/
def bytes (ρ : Recoding) (source : Bytes) : Bytes := source.flatMap ρ.image

/-- Line feeds give way to a run of line ends, and all other bytes stay. -/
def lineFeeds (run : Bytes) (hne : run ≠ []) (hrun : lineEnds.Spans run) : Recoding where
  image b := if b = 0x0a then run else [b]
  image_ne_nil b := by
    split
    · exact hne
    · exact List.cons_ne_nil b []
  kind_of_mem b b' hb := by
    split at hb
    · rename_i hfeed
      subst hfeed
      have hline := hrun b' hb
      rw [ByteKind.contains_lineEnds, beq_iff_eq] at hline
      exact hline
    · rw [List.mem_singleton.mp hb]
  image_slash := rfl
  image_star := rfl

/-! ### Bytes -/

@[simp] theorem bytes_nil (ρ : Recoding) : ρ.bytes [] = [] := rfl

@[simp] theorem bytes_cons (ρ : Recoding) (b : UInt8) (rest : Bytes) :
    ρ.bytes (b :: rest) = ρ.image b ++ ρ.bytes rest := rfl

@[simp] theorem bytes_append (ρ : Recoding) (run rest : Bytes) :
    ρ.bytes (run ++ rest) = ρ.bytes run ++ ρ.bytes rest := List.flatMap_append

theorem bytes_eq_nil_iff : ρ.bytes run = [] ↔ run = [] := by
  cases run with
  | nil => simp
  | cons b run => simp [ρ.image_ne_nil b]

theorem kind_of_mem_bytes {b' : UInt8} (hb : b' ∈ ρ.bytes run) :
    ∃ b ∈ run, ByteKind.of b' = ByteKind.of b := by
  obtain ⟨b, hb, hb'⟩ := List.mem_flatMap.mp hb
  exact ⟨b, hb, ρ.kind_of_mem b b' hb'⟩

theorem length_le_bytes (ρ : Recoding) (run : Bytes) : run.length ≤ (ρ.bytes run).length := by
  induction run with
  | nil => exact Nat.le_refl 0
  | cons b run ih =>
    have hpos : 0 < (ρ.image b).length := List.length_pos_iff.mpr (ρ.image_ne_nil b)
    rw [bytes_cons, List.length_append, List.length_cons]
    omega

/-! ### Runs -/

theorem spans_bytes (hk : k.Respects) (hrun : k.Spans run) : k.Spans (ρ.bytes run) := by
  intro b' hb'
  obtain ⟨b, hb, hkind⟩ := kind_of_mem_bytes hb'
  rw [hk hkind]
  exact hrun b hb

theorem stops_bytes (hk : k.Respects) (hrest : k.Stops rest) : k.Stops (ρ.bytes rest) := by
  cases rest with
  | nil => exact stops_nil
  | cons b rest =>
    obtain ⟨b', more, himage⟩ := List.exists_cons_of_ne_nil (ρ.image_ne_nil b)
    have hkind : ByteKind.of b' = ByteKind.of b := ρ.kind_of_mem b b' (by simp [himage])
    rw [bytes_cons, himage, List.cons_append, stops_cons, hk hkind]
    exact stops_cons.mp hrest

theorem last_bytes (hk : k.Respects) (hlast : ∀ b ∈ run.getLast?, k.contains b = false) :
    ∀ b ∈ (ρ.bytes run).getLast?, k.contains b = false := by
  intro b' hb'
  rcases List.eq_nil_or_concat' run with rfl | ⟨before, b, rfl⟩
  · cases hb'
  · have himage : ρ.bytes [b] = ρ.image b := List.append_nil _
    rw [bytes_append, himage, List.getLast?_append_of_ne_nil _ (ρ.image_ne_nil b)] at hb'
    rw [hk (ρ.kind_of_mem b b' (List.mem_of_getLast? hb'))]
    exact hlast b List.getLast?_concat

theorem dropWhile_bytes (hk : k.Respects) (bytes : Bytes) :
    (ρ.bytes bytes).dropWhile k.contains = ρ.bytes (bytes.dropWhile k.contains) := by
  obtain ⟨run, rest, rfl, hrun, hrest⟩ := exists_run k bytes
  rw [dropWhile_of_spans hrun hrest, bytes_append,
    dropWhile_of_spans (spans_bytes hk hrun) (stops_bytes hk hrest)]

theorem any_bytes (hk : k.Respects) (run : Bytes) :
    (ρ.bytes run).any k.contains = run.any k.contains := by
  rw [Bool.eq_iff_iff, List.any_eq_true, List.any_eq_true]
  constructor
  · rintro ⟨b', hb', hin⟩
    obtain ⟨b, hb, hkind⟩ := kind_of_mem_bytes hb'
    exact ⟨b, hb, by rw [← hk hkind]; exact hin⟩
  · rintro ⟨b, hb, hin⟩
    obtain ⟨b', more, himage⟩ := List.exists_cons_of_ne_nil (ρ.image_ne_nil b)
    have hb' : b' ∈ ρ.image b := by simp [himage]
    exact ⟨b', List.mem_flatMap.mpr ⟨b, hb, hb'⟩, by rw [hk (ρ.kind_of_mem b b' hb')]; exact hin⟩

/-! ### Markers -/

theorem image_of_marker {m : UInt8} (hm : m = 0x2f ∨ m = 0x2a) : ρ.image m = [m] := by
  rcases hm with rfl | rfl
  · exact ρ.image_slash
  · exact ρ.image_star

/-- A marker comes first exactly where it came first. -/
theorem prefix_bytes (hmarker : ∀ m ∈ marker, m = 0x2f ∨ m = 0x2a) :
    marker <+: ρ.bytes rest ↔ marker <+: rest := by
  induction marker generalizing rest with
  | nil => exact iff_of_true List.nil_prefix List.nil_prefix
  | cons m marker ih =>
    obtain ⟨hm, hmore⟩ := List.forall_mem_cons.mp hmarker
    cases rest with
    | nil => simp
    | cons b rest =>
      by_cases hb : b = m
      · subst hb
        rw [bytes_cons, image_of_marker hm, List.singleton_append, List.cons_prefix_cons,
          List.cons_prefix_cons, ih hmore]
      · -- another byte has another kind, and so has what stands in its place
        obtain ⟨b', more, himage⟩ := List.exists_cons_of_ne_nil (ρ.image_ne_nil b)
        have hkind : ByteKind.of b' = ByteKind.of b := ρ.kind_of_mem b b' (by simp [himage])
        refine iff_of_false ?_ fun hpre => hb (List.cons_prefix_cons.mp hpre).1.symm
        rw [bytes_cons, himage, List.cons_append, List.cons_prefix_cons]
        rintro ⟨rfl, -⟩
        exact hb (ByteKind.eq_of_marker hm hkind.symm)

theorem closer_infix_append (hrun : ∀ b ∈ run, b ≠ 0x2a) :
    BlockComment.closer <:+: run ++ rest ↔ BlockComment.closer <:+: rest := by
  induction run with
  | nil => rfl
  | cons b run ih =>
    obtain ⟨hb, hrun⟩ := List.forall_mem_cons.mp hrun
    have hpre : ¬ BlockComment.closer <+: b :: (run ++ rest) :=
      fun hpre => hb (List.cons_prefix_cons.mp hpre).1.symm
    rw [List.cons_append, List.infix_cons_iff, ih hrun]
    exact or_iff_right hpre

/-- There is a closing marker exactly where there was one. -/
theorem closer_infix_bytes :
    BlockComment.closer <:+: ρ.bytes rest ↔ BlockComment.closer <:+: rest := by
  induction rest with
  | nil => rfl
  | cons b rest ih =>
    rw [List.infix_cons_iff]
    by_cases hb : b = 0x2a
    · -- the byte stays, so that a marker begins with it or behind it
      subst hb
      have hfirst : BlockComment.closer <+: ρ.bytes (0x2a :: rest)
          ↔ BlockComment.closer <+: 0x2a :: rest := prefix_bytes (by simp [BlockComment.closer])
      rw [bytes_cons, ρ.image_star, List.singleton_append] at hfirst ⊢
      rw [List.infix_cons_iff, hfirst, ih]
    · have hpre : ¬ BlockComment.closer <+: b :: rest :=
        fun hpre => hb (List.cons_prefix_cons.mp hpre).1.symm
      have himage : ∀ b' ∈ ρ.image b, b' ≠ 0x2a := by
        rintro b' hb' rfl
        exact hb (ByteKind.eq_of_marker (.inr rfl) (ρ.kind_of_mem b _ hb').symm)
      rw [bytes_cons, closer_infix_append himage, ih]
      exact (or_iff_right hpre).symm

theorem bytes_lineOpener : ρ.bytes LineComment.opener = LineComment.opener := by
  simp [LineComment.opener, ρ.image_slash]

theorem bytes_blockOpener : ρ.bytes BlockComment.opener = BlockComment.opener := by
  simp [BlockComment.opener, ρ.image_slash, ρ.image_star]

theorem bytes_closer : ρ.bytes BlockComment.closer = BlockComment.closer := by
  simp [BlockComment.closer, ρ.image_slash, ρ.image_star]

theorem opensComment_bytes : OpensComment (ρ.bytes rest) ↔ OpensComment rest := by
  rw [OpensComment, OpensComment, prefix_bytes (by simp [LineComment.opener]),
    prefix_bytes (by simp [BlockComment.opener])]

/-! ### Trees -/

/-- The fragment of the recoded bytes. -/
def fragment (ρ : Recoding) (w : Fragment) : Fragment := ⟨ρ.bytes w.bytes⟩

/-- A line comment, every field recoded. -/
def line (ρ : Recoding) (comment : LineComment) : LineComment where
  indent := comment.indent.map ρ.fragment
  gap := comment.gap.map ρ.fragment
  body := ρ.bytes comment.body
  trailing := comment.trailing.map ρ.fragment

/-- A block comment, every field recoded. -/
def block (ρ : Recoding) (comment : BlockComment) : BlockComment where
  indent := comment.indent.map ρ.fragment
  body := ρ.bytes comment.body
  trailing := comment.trailing.map ρ.fragment

/-- A node, every field recoded. -/
def node (ρ : Recoding) : Node → Node
  | .line comment => .line (ρ.line comment)
  | .block comment => .block (ρ.block comment)
  | .space w => .space (ρ.fragment w)

/-- A file, every node recoded. -/
def file (ρ : Recoding) (f : File) : File := ⟨f.name, f.nodes.map ρ.node⟩

@[simp] theorem isSpace_node (ρ : Recoding) (n : Node) : (ρ.node n).isSpace = n.isSpace := by
  cases n <;> rfl

theorem any_isSpace_nodes (ρ : Recoding) (nodes : List Node) :
    (nodes.map ρ.node).any (!·.isSpace) = nodes.any (!·.isSpace) := by
  rw [List.any_map]
  refine congrArg (List.any nodes) (funext fun n => ?_)
  rw [Function.comp_apply, isSpace_node]

theorem source?_fragment (ρ : Recoding) (w : Option Fragment) :
    Fragment.source? (w.map ρ.fragment) = ρ.bytes (Fragment.source? w) := by
  cases w <;> rfl

theorem source_line (ρ : Recoding) (comment : LineComment) :
    (ρ.line comment).source = ρ.bytes comment.source := by
  simp only [LineComment.source, line, source?_fragment, bytes_append, bytes_lineOpener]

theorem source_block (ρ : Recoding) (comment : BlockComment) :
    (ρ.block comment).source = ρ.bytes comment.source := by
  simp only [BlockComment.source, block, source?_fragment, bytes_append, bytes_blockOpener,
    bytes_closer]

theorem source_node (ρ : Recoding) (n : Node) : (ρ.node n).source = ρ.bytes n.source := by
  cases n with
  | line comment => exact ρ.source_line comment
  | block comment => exact ρ.source_block comment
  | space _ => rfl

/-! ### Fragments -/

variable {w : Option Fragment}

theorem ofRun_fragment (hk : k.Respects) (hw : Fragment.OfRun k w) :
    Fragment.OfRun k (w.map ρ.fragment) := by
  intro f' hf'
  obtain ⟨f, hf, rfl⟩ := Option.map_eq_some_iff.mp hf'
  obtain ⟨hne, hspans⟩ := hw f hf
  exact ⟨mt bytes_eq_nil_iff.mp hne, spans_bytes hk hspans⟩

theorem isTail_fragment {f : Fragment} (hf : f.IsTail) : (ρ.fragment f).IsTail := by
  obtain ⟨hne, pad, ends, hbytes, hpad, hends⟩ := hf
  refine ⟨mt bytes_eq_nil_iff.mp hne, ρ.bytes pad, ρ.bytes ends, ?_,
    spans_bytes respects_blanks hpad, spans_bytes respects_lineEnds hends⟩
  rw [fragment, hbytes, bytes_append]

theorem isTail_fragments (hw : ∀ f ∈ w, f.IsTail) : ∀ f ∈ w.map ρ.fragment, f.IsTail := by
  intro f' hf'
  obtain ⟨f, hf, rfl⟩ := Option.map_eq_some_iff.mp hf'
  exact isTail_fragment (hw f hf)

theorem endsLine_fragment : Fragment.EndsLine (w.map ρ.fragment) ↔ Fragment.EndsLine w := by
  cases w with
  | none => rfl
  | some f =>
    have hline : (ρ.fragment f).hasLineEnd = f.hasLineEnd := any_bytes respects_lineEnds f.bytes
    simp only [Fragment.EndsLine, Option.map_some, Option.mem_def, Option.some.injEq,
      exists_eq_left', hline]

theorem tailBefore_fragment (hw : Fragment.TailBefore w rest) :
    Fragment.TailBefore (w.map ρ.fragment) (ρ.bytes rest) where
  isTail := isTail_fragments hw.isTail
  stops_of_endsLine hline :=
    stops_bytes respects_lineEnds (hw.stops_of_endsLine (endsLine_fragment.mp hline))
  stops_of_not hline :=
    stops_bytes respects_whitespace (hw.stops_of_not (mt endsLine_fragment.mpr hline))

theorem proper_fragment {f : Fragment} (hf : f.Proper) : (ρ.fragment f).Proper :=
  ⟨mt bytes_eq_nil_iff.mp hf.1, spans_bytes respects_whitespace hf.2⟩

/-! ### Constructs and what is behind them -/

theorem line_leads {comment : LineComment} (hl : comment.Leads rest) :
    (ρ.line comment).Leads (ρ.bytes rest) where
  wellFormed := {
    indent := ofRun_fragment respects_blanks hl.wellFormed.indent
    gap := ofRun_fragment respects_blanks hl.wellFormed.gap
    body_line := by
      intro b' hb'
      obtain ⟨b, hb, hkind⟩ := kind_of_mem_bytes hb'
      rw [respects_lineEnds hkind]
      exact hl.wellFormed.body_line b hb
    body_first := stops_bytes respects_blanks hl.wellFormed.body_first
    body_last := last_bytes respects_blanks hl.wellFormed.body_last
    trailing := isTail_fragments hl.wellFormed.trailing
    trailing_of_nil := fun hnil => ofRun_fragment respects_lineEnds
      (hl.wellFormed.trailing_of_nil (bytes_eq_nil_iff.mp hnil)) }
  tail := tailBefore_fragment hl.tail
  endsLine_or_nil := hl.endsLine_or_nil.imp endsLine_fragment.mpr bytes_eq_nil_iff.mpr

theorem block_leads {comment : BlockComment} (hl : comment.Leads rest) :
    (ρ.block comment).Leads (ρ.bytes rest) where
  wellFormed := {
    indent := ofRun_fragment respects_blanks hl.wellFormed.indent
    body := mt closer_infix_bytes.mp hl.wellFormed.body
    trailing := isTail_fragments hl.wellFormed.trailing }
  tail := tailBefore_fragment hl.tail

variable {dialect : Dialect}

theorem node_leads {n : Node} (hn : n.Leads dialect rest) :
    (ρ.node n).Leads dialect (ρ.bytes rest) := by
  cases hn with
  | line hl => exact .line (line_leads hl)
  | block hl => exact .block (block_leads hl)
  | @space w _ hloose hw hrest hopens =>
    refine .space hloose (proper_fragment hw) (stops_bytes respects_whitespace hrest) ?_
    rw [fragment, ← bytes_append, dropWhile_bytes respects_blanks, opensComment_bytes]
    exact hopens

theorem stray_bytes (hstray : Stray dialect rest) : Stray dialect (ρ.bytes rest) where
  not_opens := by
    rw [dropWhile_bytes respects_blanks, opensComment_bytes]
    exact hstray.not_opens
  stops hloose := stops_bytes respects_whitespace (hstray.stops hloose)

/-- How nodes end, the rest recoded. -/
def ending (ρ : Recoding) : Ending → Ending
  | .stopped rest => .stopped (ρ.bytes rest)
  | .unclosed rest => .unclosed (ρ.bytes rest)

end Recoding

/-- A derivation is recoded node by node. -/
theorem Derives.recode {dialect : Dialect} {bytes : Bytes} {nodes : List Node} {e : Ending}
    (h : Derives dialect bytes nodes e) (ρ : Recoding) :
    Derives dialect (ρ.bytes bytes) (nodes.map ρ.node) (ρ.ending e) := by
  induction h with
  | stop hstray => exact .stop (Recoding.stray_bytes hstray)
  | unclosed hindent htext =>
    rw [Recoding.ending, Recoding.bytes_append, Recoding.bytes_append,
      Recoding.bytes_blockOpener]
    exact .unclosed (Recoding.spans_bytes respects_blanks hindent)
      (mt Recoding.closer_infix_bytes.mp htext)
  | node hn _ ih =>
    rw [Recoding.bytes_append, ← Recoding.source_node, List.map_cons]
    exact .node (Recoding.node_leads hn) ih

/-! ### Outcomes -/

variable {dialect : Dialect} {source : Bytes} {nodes : List Node} {e : Ending} {name : String}

/-- What becomes of nodes that end so at the offset `a` of a source. -/
def Ending.verdict (dialect : Dialect) (name : String) (nodes : List Node) (a length : Nat) :
    Ending → Except Failure File
  | unclosed _ => .error (.diagnosed (.located .unclosedBlock a length))
  | stopped rest =>
    if nodes.any (!·.isSpace) = false then .error (.diagnosed (.located .missingBody a a))
    else if dialect.wholeSource = true ∧ rest ≠ [] then
      .error (.diagnosed (.located .trailingInput a length))
    else .ok ⟨name, nodes⟩

/-- The outcome from a start on is that of its derivation. -/
theorem fileFrom_verdict {start : Position source} (h : Derives dialect start.rest nodes e)
    (name : String) :
    ∃ stop : Position source, stop.rest = e.rest ∧
      ((Grammar.ofDialect dialect).fileFrom dialect name start).value
        = e.verdict dialect name nodes stop.offset source.length := by
  obtain ⟨stop, hstop, hvalue⟩ := Grammar.fileFrom_of_derives h name
  refine ⟨stop, hstop, ?_⟩
  cases e with
  | unclosed _ => exact hvalue
  | stopped rest =>
    obtain rfl : stop.rest = rest := hstop
    change _ = (Grammar.finish dialect name ⟨nodes, stop⟩).value at hvalue
    rw [hvalue, Grammar.value_finish]
    rfl

/-- The outcome of a source is that of its derivation. -/
theorem ofSource_of_derives (h : Derives dialect source nodes e) (name : String) :
    ∃ a ≤ source.length, source.drop a = e.rest ∧
      (File.ofSource dialect name source).value
        = e.verdict dialect name nodes a source.length := by
  have hstart : Derives dialect (Position.start source).rest nodes e := h
  obtain ⟨stop, hstop, hvalue⟩ := fileFrom_verdict hstart name
  exact ⟨stop.offset, stop.offset_le, by rw [← stop.rest_eq, hstop], hvalue⟩

namespace Recoding

/-- Where the byte at an offset of a source has gone. -/
def offset (ρ : Recoding) (source : Bytes) (a : Nat) : Nat := (ρ.bytes (source.take a)).length

theorem offset_length (ρ : Recoding) (source : Bytes) :
    ρ.offset source source.length = (ρ.bytes source).length := by
  rw [offset, List.take_length]

theorem offset_add_length_drop (ρ : Recoding) (source : Bytes) (a : Nat) :
    ρ.offset source a + (ρ.bytes (source.drop a)).length = (ρ.bytes source).length := by
  rw [offset, ← List.length_append, ← bytes_append, List.take_append_drop]

theorem offset_le (ρ : Recoding) (source : Bytes) (a : Nat) :
    ρ.offset source a ≤ (ρ.bytes source).length :=
  Nat.le.intro (ρ.offset_add_length_drop source a)

theorem offset_lt {a b : Nat} (ρ : Recoding) (hab : a < b) (hb : b ≤ source.length) :
    ρ.offset source a < ρ.offset source b := by
  have hsplit : source.take b = source.take a ++ (source.drop a).take (b - a) := by
    rw [← List.take_add, Nat.add_sub_cancel' hab.le]
  have hlength : b - a ≤ (ρ.bytes ((source.drop a).take (b - a))).length := by
    refine Nat.le_trans ?_ (ρ.length_le_bytes _)
    rw [List.length_take, List.length_drop]
    omega
  rw [offset, offset, hsplit, bytes_append, List.length_append]
  omega

theorem offset_inj {a b : Nat} (ρ : Recoding) (ha : a ≤ source.length) (hb : b ≤ source.length) :
    ρ.offset source a = ρ.offset source b ↔ a = b := by
  constructor
  · intro h
    rcases Nat.lt_trichotomy a b with hlt | heq | hlt
    · exact absurd h (Nat.ne_of_lt (ρ.offset_lt hlt hb))
    · exact heq
    · exact absurd h (Nat.ne_of_gt (ρ.offset_lt hlt ha))
  · rintro rfl
    rfl

theorem rest_ending (ρ : Recoding) (e : Ending) : (ρ.ending e).rest = ρ.bytes e.rest := by
  cases e <;> rfl

/-- A source and the recoded one have files that differ by the recoding, or diagnostics
that differ by where the bytes have gone. -/
theorem ofSource_bytes (ρ : Recoding) (dialect : Dialect) (name : String) (source : Bytes) :
    (∃ file, (File.ofSource dialect name source).value = .ok file ∧
      (File.ofSource dialect name (ρ.bytes source)).value = .ok (ρ.file file)) ∨
    (∃ code a b, a ≤ source.length ∧ b ≤ source.length ∧
      (File.ofSource dialect name source).value = .error (.diagnosed (.located code a b)) ∧
      (File.ofSource dialect name (ρ.bytes source)).value
        = .error (.diagnosed (.located code (ρ.offset source a) (ρ.offset source b)))) := by
  obtain ⟨nodes, e, h⟩ := exists_derives dialect source
  obtain ⟨a, ha, hrest, hvalue⟩ := ofSource_of_derives h name
  obtain ⟨a', ha', hrest', hvalue'⟩ := ofSource_of_derives (h.recode ρ) name
  have hoffset : a' = ρ.offset source a := by
    have hlength := congrArg List.length hrest'
    have hsum := ρ.offset_add_length_drop source a
    rw [rest_ending, ← hrest, List.length_drop] at hlength
    omega
  subst hoffset
  rw [hvalue, hvalue', ← ρ.offset_length source]
  cases e with
  | unclosed _ => exact .inr ⟨_, a, _, ha, Nat.le_refl _, rfl, rfl⟩
  | stopped rest =>
    simp only [ending, Ending.verdict, any_isSpace_nodes, ne_eq, bytes_eq_nil_iff]
    split_ifs with hbody hleft
    · exact .inr ⟨_, a, a, ha, ha, rfl, rfl⟩
    · exact .inr ⟨_, a, _, ha, Nat.le_refl _, rfl, rfl⟩
    · exact .inl ⟨_, rfl, rfl⟩

end Recoding

/-! ### Failures -/

/-- There is no file, and the diagnostic has the code. -/
def FailsWith (outcome : Except Failure File) (code : Code) : Prop :=
  ∃ e, outcome = .error (.diagnosed e) ∧ e.code = code

/-- There is no file, and the diagnostic has the code and the byte range. -/
def FailsAt (outcome : Except Failure File) (code : Code) (a b : Nat) : Prop :=
  ∃ e s, outcome = .error (.diagnosed e) ∧ e.code = code ∧ e.extent? = some s ∧ s.offsets = (a, b)

variable {file : File} {code code' : Code} {a b a' b' : Nat}

theorem not_failsWith_ok : ¬ FailsWith (.ok file) code := by
  rintro ⟨e, h, -⟩
  cases h

theorem not_failsAt_ok : ¬ FailsAt (.ok file) code a b := by
  rintro ⟨e, s, h, -⟩
  cases h

theorem failsWith_located :
    FailsWith (.error (.diagnosed (.located code' a' b'))) code ↔ code' = code := by
  constructor
  · rintro ⟨e, h, rfl⟩
    obtain rfl := Failure.diagnosed.inj (Except.error.inj h)
    rfl
  · rintro rfl
    exact ⟨_, rfl, rfl⟩

theorem failsAt_located (ha : a' < UInt32.size) (hb : b' < UInt32.size) :
    FailsAt (.error (.diagnosed (.located code' a' b'))) code a b
      ↔ code' = code ∧ a' = a ∧ b' = b := by
  obtain ⟨s, hextent, hoffsets⟩ := Diagnostic.exists_extent_located code' ha hb
  constructor
  · rintro ⟨e, s', h, rfl, hs, hab⟩
    obtain rfl := Failure.diagnosed.inj (Except.error.inj h)
    obtain rfl := Option.some.inj (hextent.symm.trans hs)
    exact ⟨rfl, Prod.mk.inj (hoffsets.symm.trans hab)⟩
  · rintro ⟨rfl, rfl, rfl⟩
    exact ⟨_, s, rfl, rfl, hextent, hoffsets⟩

/-- **Only the kinds of bytes matter**: the recoded source has the recoded file, and none
where there was none.  A failure keeps its code, and its range is where the bytes of the
range have gone. -/
theorem ofSource_recode (ρ : Recoding) (dialect : Dialect) (name : String) (source : Bytes) :
    (∀ file', (File.ofSource dialect name (ρ.bytes source)).value = .ok file' ↔
      ∃ file, (File.ofSource dialect name source).value = .ok file ∧ ρ.file file = file') ∧
    (∀ code, FailsWith (File.ofSource dialect name source).value code ↔
      FailsWith (File.ofSource dialect name (ρ.bytes source)).value code) ∧
    ((ρ.bytes source).length < UInt32.size → ∀ code a b, a ≤ source.length → b ≤ source.length →
      (FailsAt (File.ofSource dialect name source).value code a b ↔
        FailsAt (File.ofSource dialect name (ρ.bytes source)).value code
          (ρ.offset source a) (ρ.offset source b))) := by
  rcases ρ.ofSource_bytes dialect name source with
    ⟨file, hvalue, hvalue'⟩ | ⟨code', a', b', ha', hb', hvalue, hvalue'⟩
  · rw [hvalue, hvalue']
    refine ⟨fun file' => ?_, fun code => ?_, fun _ code a b _ _ => ?_⟩
    · constructor
      · intro h
        exact ⟨file, rfl, Except.ok.inj h⟩
      · rintro ⟨f, hf, rfl⟩
        rw [Except.ok.inj hf]
    · exact iff_of_false not_failsWith_ok not_failsWith_ok
    · exact iff_of_false not_failsAt_ok not_failsAt_ok
  · rw [hvalue, hvalue']
    refine ⟨fun file' => ?_, fun code => ?_, fun hsize code a b ha hb => ?_⟩
    · refine iff_of_false (fun h => nomatch h) ?_
      rintro ⟨f, hf, -⟩
      cases hf
    · rw [failsWith_located, failsWith_located]
    · have hlength := ρ.length_le_bytes source
      have hleft := ρ.offset_le source a'
      have hright := ρ.offset_le source b'
      rw [failsAt_located (by omega) (by omega), failsAt_located (by omega) (by omega),
        ρ.offset_inj ha' ha, ρ.offset_inj hb' hb]

/-- The block comment that is left open moves by the byte that the line before it has
got. -/
theorem ofSource_recode_crlf :
    let ρ := Recoding.lineFeeds [0x0d, 0x0a] (by decide) (by decide)
    let source : Bytes := [0x2f, 0x2f, 0x0a, 0x20, 0x2f, 0x2a, 0x0a]
    FailsAt (File.ofSource .base "a" source).value .unclosedBlock 4 7 ∧
      ρ.bytes source = [0x2f, 0x2f, 0x0d, 0x0a, 0x20, 0x2f, 0x2a, 0x0d, 0x0a] ∧
      FailsAt (File.ofSource .base "a" (ρ.bytes source)).value .unclosedBlock 5 9 := by
  intro ρ source
  have hvalue : (File.ofSource .base "a" source).value
      = .error (.diagnosed (.located .unclosedBlock 4 7)) := by decide +kernel
  have h : FailsAt (File.ofSource .base "a" source).value .unclosedBlock 4 7 := by
    rw [hvalue]
    exact (failsAt_located (by decide) (by decide)).mpr ⟨rfl, rfl, rfl⟩
  obtain ⟨-, -, hrange⟩ := ofSource_recode ρ .base "a" source
  exact ⟨h, by decide, (hrange (by decide) _ _ _ (by decide) (by decide)).mp h⟩

end Trivia

/-
Trivia/Proofs/Automaton.lean

The lossless dialect as a finite automaton.

One pass over a source, a byte at a time, with five states, a flag and a state
for rejection, tells whether the source is a file of the lossless dialect, and
if not, why: it ends inside a block comment (`InBlock`), or something stands at
the top that begins no construct (`IsStray`), or there is no comment at all.

The proof follows a derivation.  Each node takes the automaton from the top back
to the top, but for a line comment that does not end its line
(`foldl_sources`).  What ends the nodes takes it where it cannot come back from:
into a block comment (`foldl_of_not_closed`), or away from the top for good
(`foldl_of_stray`).  The second point also makes a stray byte the first one.
-/
import Trivia.History
import Trivia.Proofs.RoundTrip

namespace Trivia

namespace Automaton

open ByteSet

/-! ### The automaton -/

/-- Where the automaton is. -/
inductive State
  /-- Outside of comments. -/
  | top
  /-- Behind the first byte of an opening marker. -/
  | slash
  /-- In a line comment. -/
  | line
  /-- In a block comment. -/
  | block
  /-- In a block comment, behind an asterisk. -/
  | star
  /-- At a byte that begins nothing. -/
  | rejected
  deriving DecidableEq, Repr

/-- Where the automaton is, and whether it has come upon a comment. -/
structure Config where
  state : State
  seen : Bool
  deriving DecidableEq, Repr

/-- One byte. -/
def step (q : Config) (b : UInt8) : Config :=
  match q.state with
  | .top =>
    if whitespace.contains b then q
    else if b = 0x2f then ⟨.slash, q.seen⟩
    else ⟨.rejected, q.seen⟩
  | .slash =>
    if b = 0x2f then ⟨.line, true⟩
    else if b = 0x2a then ⟨.block, q.seen⟩
    else ⟨.rejected, q.seen⟩
  | .line => if lineEnds.contains b then ⟨.top, true⟩ else q
  | .block => if b = 0x2a then ⟨.star, q.seen⟩ else q
  | .star =>
    if b = 0x2f then ⟨.top, true⟩
    else if b = 0x2a then q
    else ⟨.block, q.seen⟩
  | .rejected => q

/-- All bytes, from the top. -/
def scan (bytes : Bytes) : Config := bytes.foldl step ⟨.top, false⟩

namespace Config

/-- The bytes so far are a file: they end in a line comment, or outside of comments
behind one. -/
def Accepts (q : Config) : Prop := q.state = .line ∨ (q.state = .top ∧ q.seen = true)

/-- The bytes so far end in a block comment. -/
def InBlock (q : Config) : Prop := q.state = .block ∨ q.state = .star

end Config

variable {source bytes rest : Bytes} {seen : Bool}

/-- The automaton is outside of comments before the byte at an offset. -/
def AtTop (source : Bytes) (i : Nat) : Prop := (scan (source.take i)).state = .top

/-- A block comment begins at an offset, and the automaton does not leave it. -/
def IsOpening (source : Bytes) (a : Nat) : Prop :=
  AtTop source a ∧ BlockComment.opener <+: source.drop a ∧
    ∀ i, a < i → i ≤ source.length → ¬ AtTop source i

/-- Outside of comments there is a byte that is no whitespace and begins no comment. -/
def IsStray (source : Bytes) (i : Nat) : Prop :=
  i < source.length ∧ AtTop source i ∧ whitespace.Stops (source.drop i) ∧
    ¬ OpensComment (source.drop i)

/-- The offset of the first stray byte, or of the end where there is none. -/
def IsFirstStray (source : Bytes) (s : Nat) : Prop :=
  (IsStray source s ∨ s = source.length) ∧ ∀ i < s, ¬ IsStray source i

/-! ### Inside one construct -/

theorem foldl_whitespace {run : Bytes} (h : whitespace.Spans run) (seen : Bool) :
    run.foldl step ⟨.top, seen⟩ = ⟨.top, seen⟩ := by
  induction run with
  | nil => rfl
  | cons b run ih =>
    obtain ⟨hb, hrun⟩ := spans_cons.mp h
    rw [List.foldl_cons]
    have hstep : step ⟨.top, seen⟩ b = ⟨.top, seen⟩ := if_pos hb
    rw [hstep, ih hrun]

theorem foldl_line {body : Bytes} (h : ∀ b ∈ body, lineEnds.contains b = false) :
    body.foldl step ⟨.line, true⟩ = ⟨.line, true⟩ := by
  induction body with
  | nil => rfl
  | cons b body ih =>
    rw [List.forall_mem_cons] at h
    have hb : ¬ lineEnds.contains b = true := Bool.eq_false_iff.mp h.1
    have hstep : step ⟨.line, true⟩ b = ⟨.line, true⟩ := if_neg hb
    rw [List.foldl_cons, hstep, ih h.2]

/-- Without a closing marker the automaton stays in the comment.  An asterisk that it
has come past counts as the first half of a marker. -/
theorem foldl_of_not_closed (text : Bytes) (seen : Bool) :
    (¬ BlockComment.closer <:+: text → (text.foldl step ⟨.block, seen⟩).InBlock) ∧
    (¬ BlockComment.closer <:+: 0x2a :: text → (text.foldl step ⟨.star, seen⟩).InBlock) := by
  induction text with
  | nil => exact ⟨fun _ => .inl rfl, fun _ => .inr rfl⟩
  | cons b text ih =>
    rw [List.foldl_cons, List.foldl_cons]
    constructor
    · intro h
      by_cases hb : b = 0x2a
      · subst hb
        exact ih.2 h
      · have hstep : step ⟨.block, seen⟩ b = ⟨.block, seen⟩ := if_neg hb
        rw [hstep]
        exact ih.1 fun hin => h (List.infix_cons hin)
    · intro h
      -- a slash would close the comment
      have hslash : b ≠ 0x2f := by
        rintro rfl
        exact h ⟨[], text, rfl⟩
      by_cases hb : b = 0x2a
      · subst hb
        exact ih.2 fun hin => h (List.infix_cons hin)
      · have hstep : step ⟨.star, seen⟩ b = ⟨.block, seen⟩ := by
          simp [step, hslash, hb]
        rw [hstep]
        exact ih.1 fun hin => h (List.infix_cons (List.infix_cons hin))

-- The asterisk of an opening marker is no half of a closing one.
example : (scan [0x2f, 0x2a, 0x2f]).InBlock := .inl rfl

theorem foldl_closer {q : Config} (h : q.InBlock) :
    BlockComment.closer.foldl step q = ⟨.top, true⟩ := by
  obtain ⟨state, seen⟩ := q
  rcases h with h | h
  · obtain rfl : state = .block := h
    rfl
  · obtain rfl : state = .star := h
    rfl

/-! ### Nodes -/

variable {dialect : Dialect} {n : Node} {nodes : List Node} {e : Ending}

theorem foldl_lineTail {w : Option Fragment} (h : Fragment.TailBefore w rest)
    (hover : Fragment.EndsLine w ∨ rest = []) :
    (Fragment.source? w).foldl step ⟨.line, true⟩ = ⟨.top, true⟩ ∨
      ((Fragment.source? w).foldl step ⟨.line, true⟩ = ⟨.line, true⟩ ∧ rest = []) := by
  obtain ⟨pad, ends, hsource, hpad, -, hends, -⟩ := h.exists_runs
  rw [Fragment.endsLine_iff hsource hpad hends] at hover
  have hline : pad.foldl step ⟨.line, true⟩ = ⟨.line, true⟩ :=
    foldl_line fun b hb => lineEnds_of_blanks (hpad b hb)
  rw [hsource, List.foldl_append, hline]
  cases ends with
  | nil => exact .inr ⟨rfl, hover.resolve_left fun hne => hne rfl⟩
  | cons b ends =>
    obtain ⟨hb, hends⟩ := spans_cons.mp hends
    have hstep : step ⟨.line, true⟩ b = ⟨.top, true⟩ := if_pos hb
    rw [List.foldl_cons, hstep]
    exact .inl (foldl_whitespace hends.whitespace_of_lineEnds true)

/-- A node leads from the top back to the top, but for a line comment that ends with
the source and not with its line. -/
theorem foldl_leads (h : n.Leads dialect rest) (seen : Bool) :
    n.source.foldl step ⟨.top, seen⟩ = ⟨.top, seen || !n.isSpace⟩ ∨
      (n.source.foldl step ⟨.top, seen⟩ = ⟨.line, true⟩ ∧ n.isSpace = false ∧ rest = []) := by
  cases h with
  | @line comment _ h =>
    have hindent := foldl_whitespace h.wellFormed.indent.spans.whitespace_of_blanks seen
    have hgap : (Fragment.source? comment.gap).foldl step ⟨.line, true⟩ = ⟨.line, true⟩ :=
      foldl_line fun b hb => lineEnds_of_blanks (h.wellFormed.gap.spans b hb)
    have hbody := foldl_line h.wellFormed.body_line
    have hopener : LineComment.opener.foldl step ⟨.top, seen⟩ = ⟨.line, true⟩ := rfl
    simp only [Node.source, LineComment.source, List.foldl_append, hindent, hopener, hgap, hbody]
    rcases foldl_lineTail h.tail h.endsLine_or_nil with htail | ⟨htail, hrest⟩
    · left
      rw [htail]
      simp [Node.isSpace]
    · right
      exact ⟨htail, rfl, hrest⟩
  | @block comment _ h =>
    have hindent := foldl_whitespace h.wellFormed.indent.spans.whitespace_of_blanks seen
    have hopener : BlockComment.opener.foldl step ⟨.top, seen⟩ = ⟨.block, seen⟩ := rfl
    have hbody := (foldl_of_not_closed comment.body seen).1 h.wellFormed.body
    have htail := foldl_whitespace h.tail.spans true
    left
    simp only [Node.source, BlockComment.source, List.foldl_append, hindent, hopener,
      foldl_closer hbody, htail]
    simp [Node.isSpace]
  | space _ hw _ _ =>
    left
    rw [Node.source, foldl_whitespace hw.2 seen]
    simp [Node.isSpace]

/-- All nodes lead back to the top, but for a last line comment that ends with the
source. -/
theorem foldl_sources (h : Derives dialect bytes nodes e) (seen : Bool) :
    (Node.sources nodes).foldl step ⟨.top, seen⟩ = ⟨.top, seen || nodes.any (!·.isSpace)⟩ ∨
      ((Node.sources nodes).foldl step ⟨.top, seen⟩ = ⟨.line, true⟩ ∧
        nodes.any (!·.isSpace) = true ∧ e = .stopped []) := by
  induction h generalizing seen with
  | stop _ => exact .inl (by simp)
  | unclosed _ _ => exact .inl (by simp)
  | @node n _ nodes e hn htail ih =>
    rw [Node.sources_cons, List.foldl_append, List.any_cons, ← Bool.or_assoc]
    rcases foldl_leads hn seen with hfold | ⟨hfold, hspace, rfl⟩
    · rw [hfold]
      rcases ih (seen || !n.isSpace) with hrest | ⟨hrest, hany, he⟩
      · exact .inl hrest
      · exact .inr ⟨hrest, by rw [hany, Bool.or_true], he⟩
    · -- nothing is behind a line comment that does not end its line
      obtain ⟨rfl, he⟩ := htail.of_nil
      exact .inr ⟨hfold, by simp [hspace], he⟩

/-! ### What ends the nodes -/

theorem foldl_rejected (bytes : Bytes) :
    bytes.foldl step ⟨.rejected, seen⟩ = ⟨.rejected, seen⟩ := by
  induction bytes with
  | nil => rfl
  | cons b bytes ih => exact ih

/-- From a stray byte the automaton does not come back. -/
theorem foldl_of_stray {k : Nat} (hstop : whitespace.Stops rest) (hopens : ¬ OpensComment rest)
    (hne : rest ≠ []) (hk : 0 < k) (seen : Bool) :
    ∃ state, (state = .slash ∨ state = .rejected) ∧
      (rest.take k).foldl step ⟨.top, seen⟩ = ⟨state, seen⟩ := by
  obtain ⟨b, rest, rfl⟩ := List.exists_cons_of_ne_nil hne
  obtain ⟨k, rfl⟩ := Nat.exists_eq_add_one_of_ne_zero (Nat.ne_of_gt hk)
  have hb : whitespace.contains b = false := stops_cons.mp hstop
  rw [List.take_succ_cons, List.foldl_cons]
  by_cases hslash : b = 0x2f
  · subst hslash
    rcases hmore : rest.take k with - | ⟨b', more⟩
    · exact ⟨.slash, .inl rfl, rfl⟩
    · -- the byte behind the slash does not make it a marker
      have hbytes : 0x2f :: b' :: more <+: 0x2f :: rest :=
        (List.prefix_cons_inj _).mpr (hmore ▸ List.take_prefix k rest)
      have hslash' : b' ≠ 0x2f := by
        rintro rfl
        exact hopens (.inl ((List.prefix_append LineComment.opener more).trans hbytes))
      have hstar : b' ≠ 0x2a := by
        rintro rfl
        exact hopens (.inr ((List.prefix_append BlockComment.opener more).trans hbytes))
      have hstep : step ⟨.slash, seen⟩ b' = ⟨.rejected, seen⟩ := by
        simp [step, hslash', hstar]
      refine ⟨.rejected, .inr rfl, ?_⟩
      show (b' :: more).foldl step ⟨.slash, seen⟩ = ⟨.rejected, seen⟩
      rw [List.foldl_cons, hstep, foldl_rejected]
  · have hstep : step ⟨.top, seen⟩ b = ⟨.rejected, seen⟩ := by simp [step, hb, hslash]
    rw [hstep, foldl_rejected]
    exact ⟨.rejected, .inr rfl, rfl⟩

/-- In a block comment that is never closed the automaton is not at the top again. -/
theorem foldl_of_unclosed {text : Bytes} (h : ¬ BlockComment.closer <:+: text) {k : Nat}
    (hk : 0 < k) :
    (((BlockComment.opener ++ text).take k).foldl step ⟨.top, seen⟩).state ≠ .top := by
  rcases k with - | - | k
  · exact absurd hk (Nat.lt_irrefl 0)
  · -- in the middle of the marker
    simp [BlockComment.opener, step, whitespace, contains]
  · have hclosed : ¬ BlockComment.closer <:+: text.take k := fun hin =>
      h (hin.trans (List.take_prefix k text).isInfix)
    have hblock := (foldl_of_not_closed (text.take k) seen).1 hclosed
    show ((text.take k).foldl step ⟨.block, seen⟩).state ≠ .top
    rcases hblock with hstate | hstate
    · rw [hstate]
      decide
    · rw [hstate]
      decide

/-! ### Offsets -/

theorem scan_append (bytes rest : Bytes) : scan (bytes ++ rest) = rest.foldl step (scan bytes) :=
  List.foldl_append

theorem scan_take_add (source : Bytes) (i k : Nat) :
    scan (source.take (i + k)) = ((source.drop i).take k).foldl step (scan (source.take i)) := by
  rw [List.take_add, scan_append]

/-- Behind a stray byte the automaton is not at the top again, so one that it reaches
from the top is the first. -/
theorem isFirstStray_of_atTop {s : Nat} (htop : AtTop source s)
    (hs : IsStray source s ∨ s = source.length) : IsFirstStray source s := by
  refine ⟨hs, ?_⟩
  rintro i hi ⟨hlt, hitop, hstop, hopens⟩
  -- from `i` on the automaton is lost, so it cannot be at the top at `s`
  obtain ⟨k, rfl⟩ := Nat.exists_eq_add_of_lt hi
  have hne : source.drop i ≠ [] := by
    rw [Ne, List.drop_eq_nil_iff]
    omega
  obtain ⟨state, hstate, hfold⟩ := foldl_of_stray hstop hopens hne (Nat.succ_pos k)
    (scan (source.take i)).seen
  have hscan : scan (source.take i) = ⟨.top, (scan (source.take i)).seen⟩ := by
    rw [← hitop]
  rw [AtTop, Nat.add_assoc, scan_take_add, hscan, hfold] at htop
  rcases hstate with rfl | rfl
  · cases htop
  · cases htop

theorem atTop_length {before : Bytes} (h : scan before = ⟨.top, seen⟩) (rest : Bytes) :
    AtTop (before ++ rest) before.length := by
  rw [AtTop, List.take_left, h]

theorem isOpening_length {before text : Bytes} (h : scan before = ⟨.top, seen⟩)
    (htext : ¬ BlockComment.closer <:+: text) :
    IsOpening (before ++ (BlockComment.opener ++ text)) before.length := by
  refine ⟨atTop_length h _, ?_, ?_⟩
  · rw [List.drop_left]
    exact List.prefix_append _ _
  · intro i hi _
    obtain ⟨k, rfl⟩ := Nat.exists_eq_add_of_lt hi
    rw [AtTop, Nat.add_assoc, scan_take_add, List.take_left, List.drop_left, h]
    exact foldl_of_unclosed htext (Nat.succ_pos k)

theorem isFirstStray_length {before : Bytes} (h : scan before = ⟨.top, seen⟩)
    (hstop : whitespace.Stops rest) (hopens : ¬ OpensComment rest) :
    IsFirstStray (before ++ rest) before.length := by
  refine isFirstStray_of_atTop (atTop_length h rest) ?_
  by_cases hnil : rest = []
  · right
    rw [hnil, List.append_nil]
  · left
    have hpos : 0 < rest.length := List.length_pos_iff.mpr hnil
    refine ⟨?_, atTop_length h rest, ?_, ?_⟩
    · rw [List.length_append]
      omega
    · rwa [List.drop_left]
    · rwa [List.drop_left]

/-- At the end the automaton is still at the top, if nothing is left, and lost otherwise. -/
theorem scan_append_stray {before : Bytes} (h : scan before = ⟨.top, seen⟩)
    (hstop : whitespace.Stops rest) (hopens : ¬ OpensComment rest) :
    (scan (before ++ rest)).seen = seen ∧
      ((scan (before ++ rest)).Accepts ↔ rest = [] ∧ seen = true) ∧
      ¬ (scan (before ++ rest)).InBlock := by
  by_cases hnil : rest = []
  · subst hnil
    rw [List.append_nil, h]
    refine ⟨rfl, ⟨?_, fun hseen => .inr ⟨rfl, hseen.2⟩⟩, ?_⟩
    · rintro (hline | ⟨-, hseen⟩)
      · cases hline
      · exact ⟨rfl, hseen⟩
    · rintro (hblock | hstar)
      · cases hblock
      · cases hstar
  · obtain ⟨state, hstate, hfold⟩ :=
      foldl_of_stray hstop hopens hnil (List.length_pos_iff.mpr hnil) seen
    rw [List.take_length] at hfold
    rw [scan_append, h, hfold]
    refine ⟨rfl, ⟨?_, fun hseen => absurd hseen.1 hnil⟩, ?_⟩
    · rintro (hline | ⟨htop, -⟩)
      · rcases hstate with rfl | rfl <;> cases hline
      · rcases hstate with rfl | rfl <;> cases htop
    · rintro (hblock | hstar)
      · rcases hstate with rfl | rfl <;> cases hblock
      · rcases hstate with rfl | rfl <;> cases hstar

/-- Nodes that a block comment follows lead back to the top. -/
theorem scan_sources_unclosed (h : Derives dialect bytes nodes (.unclosed rest)) :
    scan (Node.sources nodes) = ⟨.top, nodes.any (!·.isSpace)⟩ := by
  rcases foldl_sources h false with htop | ⟨-, -, he⟩
  · exact htop
  · cases he

/-! ### The lossless dialect -/

/-- What ends in an open block comment is diagnosed at its opening marker. -/
theorem lossless_of_unclosed (h : Derives .lossless source nodes (.unclosed rest))
    (name : String) :
    (scan source).InBlock ∧ ∃ a, IsOpening source a ∧
      (File.ofSource .lossless name source).value
        = .error (.diagnosed (.located .unclosedBlock a source.length)) := by
  have hstart : Derives .lossless (Position.start source).rest nodes _ := h
  obtain ⟨stop, hstop, hvalue⟩ := Grammar.fileFrom_of_derives hstart name
  obtain ⟨indent, text, rfl, hindent, htext, hbytes⟩ := h.sources_append_unclosed
  rw [← List.append_assoc] at hbytes
  subst hbytes
  have htop : scan (Node.sources nodes ++ indent) = ⟨.top, nodes.any (!·.isSpace)⟩ := by
    rw [scan_append, scan_sources_unclosed h,
      foldl_whitespace hindent.whitespace_of_blanks]
  have hoffset : stop.offset = (Node.sources nodes ++ indent).length :=
    Position.offset_of_append hstop
  refine ⟨?_, _, isOpening_length htop htext, ?_⟩
  · rw [scan_append, htop]
    exact (foldl_of_not_closed text _).1 htext
  · rw [← hoffset]
    exact hvalue

/-- Where the nodes end before a stray byte or at the end of the source, there is a file
if a comment is among them and nothing is left. -/
theorem value_of_stopped (h : Derives .lossless source nodes (.stopped rest)) (name : String) :
    (File.ofSource .lossless name source).value =
      if nodes.any (!·.isSpace) = false then
        .error (.diagnosed (.located .missingBody (Node.sources nodes).length
          (Node.sources nodes).length))
      else if rest ≠ [] then
        .error (.diagnosed (.located .trailingInput (Node.sources nodes).length source.length))
      else .ok ⟨name, nodes⟩ := by
  have hstart : Derives .lossless (Position.start source).rest nodes _ := h
  obtain ⟨stop, hstop, hvalue⟩ := Grammar.fileFrom_of_derives hstart name
  obtain rfl : Node.sources nodes ++ rest = source := h.sources_append
  have hoffset : stop.offset = (Node.sources nodes).length := Position.offset_of_append hstop
  change (File.ofSource .lossless name (Node.sources nodes ++ rest)).value
    = (Grammar.finish .lossless name ⟨nodes, stop⟩).value at hvalue
  rw [hvalue, Grammar.value_finish]
  simp only [hoffset, hstop, Dialect.lossless, true_and]
  rfl

/-- Nodes that a stray byte or the end of the source follows are a file if a comment is
among them and nothing is left; a stray byte is the first one. -/
theorem lossless_of_stopped (h : Derives .lossless source nodes (.stopped rest))
    (name : String) :
    ((scan source).Accepts ∧ ∃ file, (File.ofSource .lossless name source).value = .ok file) ∨
    (¬ (scan source).Accepts ∧ ¬ (scan source).InBlock ∧ ∃ s, IsFirstStray source s ∧
      (File.ofSource .lossless name source).value
        = .error (.diagnosed (if (scan source).seen then .located .trailingInput s source.length
            else .located .missingBody s s))) := by
  have hstray : Stray .lossless rest := h.stray
  have hstop : whitespace.Stops rest := hstray.stops rfl
  have hopens : ¬ OpensComment rest := by
    have hopens := hstray.not_opens
    rwa [dropWhile_of_stops (stops_whitespace.mp hstop).1] at hopens
  have hbytes : Node.sources nodes ++ rest = source := h.sources_append
  rw [value_of_stopped h name]
  rcases foldl_sources h false with htop | ⟨hline, hany, he⟩
  · rw [Bool.false_or] at htop
    obtain ⟨hseen, haccepts, hblock⟩ := scan_append_stray htop hstop hopens
    have hfirst := isFirstStray_length htop hstop hopens
    rw [hbytes] at hseen haccepts hblock hfirst
    by_cases hfile : rest = [] ∧ nodes.any (!·.isSpace) = true
    · refine .inl ⟨haccepts.mpr hfile, ⟨name, nodes⟩, ?_⟩
      rw [if_neg (by simp [hfile.2]), if_neg (not_not_intro hfile.1)]
    · refine .inr ⟨mt haccepts.mp hfile, hblock, _, hfirst, ?_⟩
      rw [hseen]
      rcases hany : nodes.any (!·.isSpace) with - | -
      · rfl
      · have hne : rest ≠ [] := fun hnil => hfile ⟨hnil, hany⟩
        rw [if_neg (by simp), if_pos hne]
        rfl
  · -- the last node is a line comment that ends with the source
    obtain rfl := Ending.stopped.inj he
    rw [List.append_nil] at hbytes
    subst hbytes
    refine .inl ⟨.inl (congrArg Config.state hline), ⟨name, nodes⟩, ?_⟩
    rw [if_neg (by simp [hany]), if_neg (not_not_intro rfl)]

theorem Config.Accepts.not_inBlock {q : Config} (h : q.Accepts) : ¬ q.InBlock := by
  rintro (hblock | hstar)
  · rcases h with hline | ⟨htop, -⟩
    · cases hblock.symm.trans hline
    · cases hblock.symm.trans htop
  · rcases h with hline | ⟨htop, -⟩
    · cases hstar.symm.trans hline
    · cases hstar.symm.trans htop

theorem lossless_cases (name : String) (source : Bytes) :
    ((scan source).Accepts ∧ ∃ file, (File.ofSource .lossless name source).value = .ok file) ∨
    ((scan source).InBlock ∧ ∃ a, IsOpening source a ∧
      (File.ofSource .lossless name source).value
        = .error (.diagnosed (.located .unclosedBlock a source.length))) ∨
    (¬ (scan source).Accepts ∧ ¬ (scan source).InBlock ∧ ∃ s, IsFirstStray source s ∧
      (File.ofSource .lossless name source).value
        = .error (.diagnosed (if (scan source).seen then .located .trailingInput s source.length
            else .located .missingBody s s))) := by
  obtain ⟨nodes, e, h⟩ := exists_derives .lossless source
  cases e with
  | unclosed rest => exact .inr (.inl (lossless_of_unclosed h name))
  | stopped rest =>
    rcases lossless_of_stopped h name with haccepts | hstray
    · exact .inl haccepts
    · exact .inr (.inr hstray)

/-- **The automaton decides the lossless dialect**: a source makes a file exactly where
the automaton accepts it, and ends in an open block comment exactly where the automaton
does.  The diagnostic of an open block comment goes from its opening marker to the end.
In all other cases the first stray byte is left over, if there is a comment before it,
and stands in the place of one if there is none. -/
theorem addSource_lossless (m : Module) (name : String) (source : Bytes) :
    ((m.addSource .lossless name source).1 = .ok () ↔ (scan source).Accepts) ∧
    ((∃ d, (m.addSource .lossless name source).1 = .error (.diagnosed d) ∧
      d.code = .unclosedBlock) ↔ (scan source).InBlock) ∧
    ((scan source).InBlock → ∃ a, IsOpening source a ∧
      (m.addSource .lossless name source).1
        = .error (.diagnosed (.located .unclosedBlock a source.length))) ∧
    (¬ (scan source).Accepts → ¬ (scan source).InBlock → ∃ s, IsFirstStray source s ∧
      (m.addSource .lossless name source).1
        = .error (.diagnosed (if (scan source).seen then .located .trailingInput s source.length
            else .located .missingBody s s))) := by
  rcases lossless_cases name source with ⟨haccepts, file, hvalue⟩ |
    ⟨hblock, a, ha, hvalue⟩ | ⟨haccepts, hblock, s, hs, hvalue⟩
  · have hresult : (m.addSource .lossless name source).1 = .ok () := by
      rw [Module.addSource, hvalue, Module.addResult]
    rw [hresult]
    refine ⟨iff_of_true rfl haccepts, iff_of_false ?_ haccepts.not_inBlock, ?_, ?_⟩
    · rintro ⟨d, hd, -⟩
      cases hd
    · exact fun hblock => absurd hblock haccepts.not_inBlock
    · exact fun hnot => absurd haccepts hnot
  · have hresult : (m.addSource .lossless name source).1
        = .error (.diagnosed (.located .unclosedBlock a source.length)) := by
      rw [Module.addSource, hvalue, Module.addResult]
    rw [hresult]
    refine ⟨iff_of_false ?_ fun haccepts => haccepts.not_inBlock hblock,
      iff_of_true ⟨_, rfl, rfl⟩ hblock, fun _ => ⟨a, ha, rfl⟩, fun _ hnot => absurd hblock hnot⟩
    intro hok
    cases hok
  · have hresult : (m.addSource .lossless name source).1
        = .error (.diagnosed (if (scan source).seen then .located .trailingInput s source.length
            else .located .missingBody s s)) := by
      rw [Module.addSource, hvalue, Module.addResult]
    rw [hresult]
    refine ⟨iff_of_false ?_ haccepts, iff_of_false ?_ hblock, fun h => absurd h hblock,
      fun _ _ => ⟨s, hs, rfl⟩⟩
    · intro hok
      cases hok
    · rintro ⟨d, hd, hcode⟩
      obtain rfl := Failure.diagnosed.inj (Except.error.inj hd)
      cases hseen : (scan source).seen
      · rw [hseen] at hcode
        cases hcode
      · rw [hseen] at hcode
        cases hcode

end Automaton

end Trivia

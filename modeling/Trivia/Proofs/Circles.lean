/-
Trivia/Proofs/Circles.lean

Which runs come to an end, whatever the rules are.

A rule may leave the scanner at any offset of its source, also before the one where
it was tried.  What a round leads to depends on its place alone (`Grammar.Steps`),
so a run without an end has to come back to a place (`circles_of_rounds`), and one
that comes back goes round for ever (`Circles.rounds`).  A source has finitely many
places, and the limit that `Grammar.run` puts on its rounds is one more than that:
the answer `endless` is given exactly to the runs that have no end.

A node found where its round started ends the run and is dropped
(`Grammar.value_run_of_found`).  A node found *before* that place does not: it is
kept, and the run goes on from there.  So rules that only move forward always come
to an end, every circle has a step back in it (`Circles.exists_step_back`), and two
such steps are enough to make one (`not_ends_seesaw`).
-/
import Trivia.Proofs.Derivation
import Mathlib.Data.Finset.Card

namespace Trivia

open Relation

variable {source : Bytes} {c d start : Position source} {g : Grammar} {dialect : Dialect}

/-! ### Rounds as steps -/

/-- The round at `c` finds a node and ends at `d`. -/
def Grammar.Steps (g : Grammar) (dialect : Dialect) (c d : Position source) : Prop :=
  ∃ n, (Round.ofRules dialect c g.rules).value = .node n d

/-- From `start` the rounds lead to a place to which they lead back. -/
def Grammar.Circles (g : Grammar) (dialect : Dialect) (start : Position source) : Prop :=
  ∃ c, TransGen (g.Steps dialect) start c ∧ TransGen (g.Steps dialect) c c

/-- Some number of rounds is enough. -/
def Grammar.Ends (g : Grammar) (dialect : Dialect) (start : Position source) : Prop :=
  ∃ limit, (g.rounds dialect limit start).value ≠ .error .endless

namespace Round

variable {rules : List Rule}

/-- What one rule says of the round: it ends it, or leaves it to the rules behind. -/
theorem value_ofRules_cons (r : Rule) :
    (ofRules dialect c (r :: rules)).value =
      match r.attempt dialect c with
      | .error cause _ => .failed (.fault cause)
      | .ok ⟨_, .found n⟩ d => if d.offset = c.offset then .stop else .node n d
      | .ok ⟨_, .absent _ _⟩ _ => (ofRules dialect c rules).value
      | .ok ⟨_, .malformed cause⟩ _ => .failed (.diagnosed cause) := by
  rw [ofRules]
  rcases r.attempt dialect c with ⟨⟨log, n | - | cause⟩, d⟩ | ⟨cause, d⟩
  · by_cases hoff : d.offset = c.offset
    · simp [hoff]
    · simp [hoff]
  · rfl
  · rfl
  · rfl

/-- No round stays where it is. -/
theorem offset_ne_of_node {n : Node}
    (h : (ofRules dialect c rules).value = .node n d) : d.offset ≠ c.offset := by
  induction rules with
  | nil => cases h
  | cons r rules ih =>
    rw [value_ofRules_cons] at h
    split at h
    · cases h
    · split at h
      · cases h
      · rename_i hoff
        cases h
        exact hoff
    · exact ih h
    · cases h

/-- A round by itself is never without an end. -/
theorem value_ne_endless (rules : List Rule) (c : Position source) :
    (ofRules dialect c rules).value ≠ .failed .endless := by
  intro h
  induction rules with
  | nil => cases h
  | cons r rules ih =>
    rw [value_ofRules_cons] at h
    split at h
    · cases h
    · split at h <;> cases h
    · exact ih h
    · cases h

end Round

namespace Grammar

theorem Steps.offset_ne (h : g.Steps dialect c d) : d.offset ≠ c.offset := by
  obtain ⟨n, hn⟩ := h
  exact Round.offset_ne_of_node hn

/-- One more round is without an end where it leads on to a run that is. -/
theorem rounds_succ_eq_endless_iff {limit : Nat} :
    (g.rounds dialect (limit + 1) c).value = .error .endless ↔
      ∃ d, g.Steps dialect c d ∧ (g.rounds dialect limit d).value = .error .endless := by
  rw [value_rounds_succ]
  constructor
  · intro h
    split at h
    · cases h
    · rename_i cause hround
      obtain rfl := Except.error.inj h
      exact absurd hround (Round.value_ne_endless _ _)
    · rename_i n next hround
      refine ⟨next, ⟨n, hround⟩, ?_⟩
      rcases hrest : (g.rounds dialect limit next).value with cause | run
      · rw [hrest] at h
        obtain rfl := Except.error.inj h
        rfl
      · rw [hrest] at h
        cases h
  · rintro ⟨d, ⟨n, hround⟩, hrest⟩
    rw [hround]
    show (g.rounds dialect limit d).value.map _ = _
    rw [hrest]
    rfl

/-! ### From circles to runs without an end -/

/-- A run that starts on a circle, or before one, outlasts every limit. -/
theorem Circles.rounds (h : g.Circles dialect start) (limit : Nat) :
    (g.rounds dialect limit start).value = .error .endless := by
  obtain ⟨c, hto, hround⟩ := h
  induction limit generalizing start with
  | zero => rfl
  | succ limit ih =>
    -- the invariant: from wherever the run is, it leads to `c`, and so behind every step
    obtain ⟨next, hstep, hnext⟩ := TransGen.head'_iff.mp hto
    exact rounds_succ_eq_endless_iff.mpr ⟨next, hstep, ih (hround.trans_right hnext)⟩

/-! ### From runs without an end to circles -/

/-- The places at which the rounds of a run start. -/
theorem exists_places {limit : Nat} (h : (g.rounds dialect limit start).value = .error .endless) :
    ∃ place : Nat → Position source, place 0 = start ∧
      ∀ i < limit, g.Steps dialect (place i) (place (i + 1)) := by
  induction limit generalizing start with
  | zero => exact ⟨fun _ => start, rfl, fun i hi => absurd hi (Nat.not_lt_zero i)⟩
  | succ limit ih =>
    obtain ⟨next, hstep, hnext⟩ := rounds_succ_eq_endless_iff.mp h
    obtain ⟨place, rfl, hplace⟩ := ih hnext
    refine ⟨fun i => if i = 0 then start else place (i - 1), rfl, ?_⟩
    rintro (- | i) hi
    · exact hstep
    · exact hplace i (Nat.lt_of_succ_lt_succ hi)

theorem transGen_places {limit : Nat} {place : Nat → Position source}
    (h : ∀ i < limit, g.Steps dialect (place i) (place (i + 1))) (i k : Nat)
    (hk : i + k < limit) : TransGen (g.Steps dialect) (place i) (place (i + k + 1)) := by
  induction k with
  | zero => exact .single (h i hk)
  | succ k ih => exact .tail (ih (Nat.lt_of_succ_lt hk)) (h (i + k + 1) hk)

/-- With more rounds than places, two rounds of a run start at one place. -/
theorem circles_of_rounds
    (h : (g.rounds dialect (source.length + 1) start).value = .error .endless) :
    g.Circles dialect start := by
  obtain ⟨place, rfl, hplace⟩ := exists_places h
  have hcard : (Finset.range (source.length + 1)).card
      < (Finset.range (source.length + 2)).card := by simp
  have hmaps : Set.MapsTo (fun i => (place i).offset) (Finset.range (source.length + 2))
      (Finset.range (source.length + 1)) :=
    fun i _ => Finset.mem_coe.mpr (Finset.mem_range.mpr (Nat.lt_succ_of_le (place i).offset_le))
  obtain ⟨i, hi, j, hj, hne, hoff⟩ := Finset.exists_ne_map_eq_of_card_lt_of_maps_to hcard hmaps
  have hsame : place i = place j := Position.ext_offset hoff
  rw [Finset.mem_range] at hi hj
  -- the two are told apart by which of them comes first
  wlog hij : i < j generalizing i j
  · exact this j hj i hi hne.symm hoff.symm hsame.symm (by omega)
  obtain ⟨k, rfl⟩ := Nat.exists_eq_add_of_lt hij
  have hto := transGen_places hplace 0 (i + k) (by omega)
  have hround := transGen_places hplace i k (by omega)
  rw [Nat.zero_add] at hto
  rw [hsame] at hround
  exact ⟨_, hto, hround⟩

theorem circles_iff :
    g.Circles dialect start ↔
      (g.rounds dialect (source.length + 1) start).value = .error .endless :=
  ⟨fun h => h.rounds _, circles_of_rounds⟩

theorem ends_iff : g.Ends dialect start ↔ ¬ g.Circles dialect start := by
  constructor
  · rintro ⟨limit, hlimit⟩ hcircles
    exact hlimit (hcircles.rounds limit)
  · intro hcircles
    exact ⟨source.length + 1, fun h => hcircles (circles_of_rounds h)⟩

/-! ### Steps forward and steps back -/

theorem lt_of_forward
    (h : ∀ c d, ReflTransGen (g.Steps dialect) start c → g.Steps dialect c d →
      c.offset < d.offset)
    (hc : ReflTransGen (g.Steps dialect) start c) (hcd : TransGen (g.Steps dialect) c d) :
    c.offset < d.offset := by
  induction hcd with
  | single hstep => exact h _ _ hc hstep
  | tail hto hstep ih =>
    have hlast := h _ _ (hc.trans hto.to_reflTransGen) hstep
    omega

/-- Where rounds lead back to a place, one of them has stepped back. -/
theorem Circles.exists_step_back (h : g.Circles dialect start) :
    ∃ c d, ReflTransGen (g.Steps dialect) start c ∧ g.Steps dialect c d ∧
      d.offset < c.offset := by
  obtain ⟨c, hto, hround⟩ := h
  by_contra hno
  have hforward : ∀ c d, ReflTransGen (g.Steps dialect) start c → g.Steps dialect c d →
      c.offset < d.offset := by
    intro c d hc hstep
    have hne := hstep.offset_ne
    have hback : ¬ d.offset < c.offset := fun hlt => hno ⟨c, d, hc, hstep, hlt⟩
    omega
  exact absurd (lt_of_forward hforward hto.to_reflTransGen hround) (Nat.lt_irrefl _)

/-! ### Files -/

theorem value_run_of_found {before after : List Rule} {r : Rule} {log : List Event} {n : Node}
    (hrules : g.rules = before ++ r :: after)
    (hbefore : ∀ r' ∈ before, ∃ log expected offset, ∃ e : Position source,
      r'.attempt dialect c = .ok ⟨log, .absent expected offset⟩ e)
    (h : r.attempt dialect c = .ok ⟨log, .found n⟩ d) :
    (g.run dialect c).value =
      if d.offset = c.offset then .ok ⟨[], c⟩
      else (g.rounds dialect source.length d).value.map fun run => ⟨n :: run.nodes, run.stop⟩ := by
  have hround : (Round.ofRules dialect c g.rules).value
      = if d.offset = c.offset then .stop else .node n d := by
    rw [hrules]
    clear hrules
    induction before with
    | nil => rw [List.nil_append, Round.value_ofRules_cons, h]
    | cons r' before ih =>
      rw [List.forall_mem_cons] at hbefore
      obtain ⟨⟨_, _, _, _, habsent⟩, hbefore⟩ := hbefore
      rw [List.cons_append, Round.value_ofRules_cons, habsent]
      exact ih hbefore
  rw [run, value_rounds_succ, hround]
  by_cases hoff : d.offset = c.offset
  · rw [if_pos hoff, if_pos hoff]
  · rw [if_neg hoff, if_neg hoff]

theorem value_fileFrom_eq_endless_iff {name : String} :
    (g.fileFrom dialect name start).value = .error .endless ↔ g.Circles dialect start := by
  rw [circles_iff, value_fileFrom, run]
  rcases (g.rounds dialect (source.length + 1) start).value with cause | run
  · exact ⟨fun h => congrArg _ (Except.error.inj h), fun h => congrArg _ (Except.error.inj h)⟩
  · have hends : (finish dialect name run).value ≠ .error .endless := by
      rw [value_finish]
      split_ifs <;> simp
    refine iff_of_false hends ?_
    rintro ⟨⟩

end Grammar

/-- **Runs that end**, under any rules: a file has no answer only if its rounds lead in
a circle, and then no number of rounds is enough.  A circle has a step back in it.  A
node that the first rule to find one finds at the start of a run ends the run and is
dropped exactly if the rule has stayed where it was. -/
theorem fileFrom_endless_iff (g : Grammar) (dialect : Dialect) (name : String)
    (start : Position source) :
    ((g.fileFrom dialect name start).value = .error .endless ↔ g.Circles dialect start) ∧
    (g.Ends dialect start ↔ ¬ g.Circles dialect start) ∧
    (g.Circles dialect start → ∃ c d, ReflTransGen (g.Steps dialect) start c ∧
      g.Steps dialect c d ∧ d.offset < c.offset) ∧
    ∀ before r after log n d, g.rules = before ++ r :: after →
      (∀ r' ∈ before, ∃ log expected offset, ∃ e : Position source,
        r'.attempt dialect start = .ok ⟨log, .absent expected offset⟩ e) →
      r.attempt dialect start = .ok ⟨log, .found n⟩ d →
      ((g.run dialect start).value = .ok ⟨[], start⟩ ↔ d.offset = start.offset) := by
  refine ⟨Grammar.value_fileFrom_eq_endless_iff, Grammar.ends_iff, Grammar.Circles.exists_step_back,
    ?_⟩
  intro before r after log n d hrules hbefore hfound
  rw [Grammar.value_run_of_found hrules hbefore hfound]
  by_cases hoff : d.offset = start.offset
  · rw [if_pos hoff]
    exact iff_of_true rfl hoff
  · rw [if_neg hoff]
    refine iff_of_false ?_ hoff
    rcases (g.rounds dialect source.length d).value with cause | run
    · rintro ⟨⟩
    · intro h
      have hnodes := congrArg Run.nodes (Except.ok.inj h)
      exact List.cons_ne_nil _ _ hnodes

/-- A rule that finds a blank everywhere, one byte on at the start of a source and one
byte back behind it. -/
def Rule.seesaw : Rule where
  name := "seesaw"
  attempt _ := do
    if (← Scanner.offset) = 0 then Scanner.skip 1 else Scanner.back 1
    return ⟨[], .found (.space ⟨[0x20]⟩)⟩

/-- A match that goes back is kept, so two of them can go on for ever. -/
theorem not_ends_seesaw :
    (Grammar.fileFrom ⟨[.seesaw]⟩ .base "a" (Position.start [0x78])).value = .error .endless ∧
      ¬ Grammar.Ends ⟨[.seesaw]⟩ .base (Position.start [0x78]) := by
  have h : (Grammar.fileFrom ⟨[.seesaw]⟩ .base "a" (Position.start [0x78])).value
      = .error .endless := by decide +kernel
  refine ⟨h, fun hends => ?_⟩
  exact Grammar.ends_iff.mp hends (Grammar.value_fileFrom_eq_endless_iff.mp h)

end Trivia

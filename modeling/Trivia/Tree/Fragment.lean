/-
Trivia/Tree/Fragment.lean

Whitespace fragments: runs of spaces, tabs, carriage returns and line feeds,
kept verbatim.

Where there is no whitespace there is no fragment, so a fragment that a parse
makes holds at least one byte; `ofBytes` is the guarded constructor and raises
a fault otherwise.  The type itself does not carry the guard, because stored
trees are read back without it.

The guard has a definition of whitespace of its own (`isWhitespace`), apart from
the set that scanning goes by; that no scanned run is refused rests on the two
being the same (`isWhitespace_eq`).
-/
import Trivia.Fault

namespace Trivia

/-- A whitespace fragment. -/
structure Fragment where
  bytes : Bytes
  deriving DecidableEq, Repr

namespace Fragment

/-- A byte that a fragment may hold: a space, a tab, a carriage return or a line feed. -/
def isWhitespace : UInt8 → Bool
  | 0x20 | 0x09 | 0x0d | 0x0a => true
  | _ => false

/-- The fragment of a run that is not empty and holds whitespace only. -/
def ofBytes (bytes : Bytes) : Except Fault Fragment :=
  if bytes.isEmpty then .error .emptyFragment
  else if bytes.all isWhitespace then .ok ⟨bytes⟩
  else .error (.foreignBytes bytes)

/-- The fragment of a run that may be empty; an empty run is no fragment. -/
def ofRun (run : Bytes) : Except Fault (Option Fragment) :=
  if run.isEmpty then .ok none else some <$> ofBytes run

/-- The fragment holds a carriage return or a line feed. -/
def hasLineEnd (w : Fragment) : Bool := w.bytes.any ByteSet.lineEnds.contains

/-- The guard of `ofBytes`, as a property of a fragment. -/
def Proper (w : Fragment) : Prop :=
  w.bytes ≠ [] ∧ ∀ b ∈ w.bytes, ByteSet.whitespace.contains b = true

/-! ### The guard -/

/-- What the guard calls whitespace is what scanning does. -/
theorem isWhitespace_eq (b : UInt8) : isWhitespace b = ByteSet.whitespace.contains b := by
  unfold isWhitespace
  split
  case h_5 => simp_all [ByteSet.contains, ByteSet.whitespace]
  all_goals rfl

theorem all_isWhitespace_iff {bytes : Bytes} :
    bytes.all isWhitespace = true ↔ ∀ b ∈ bytes, ByteSet.whitespace.contains b = true := by
  simp only [List.all_eq_true, isWhitespace_eq]

theorem ofBytes_eq_ok_iff {bytes : Bytes} {w : Fragment} :
    ofBytes bytes = .ok w ↔ w.bytes = bytes ∧ w.Proper := by
  unfold ofBytes Proper
  constructor
  · intro h
    split at h
    · cases h
    · split at h
      · rename_i hne hall
        obtain rfl := Except.ok.inj h
        refine ⟨rfl, ?_, all_isWhitespace_iff.mp hall⟩
        simpa using hne
      · cases h
  · rintro ⟨rfl, hne, hall⟩
    have hempty : w.bytes.isEmpty = false := by simpa using hne
    simp [hempty, all_isWhitespace_iff.mpr hall]

theorem ofRun_nil : ofRun [] = .ok none := rfl

theorem ofRun_of_ne_nil {run : Bytes} (hne : run ≠ [])
    (hall : ∀ b ∈ run, ByteSet.whitespace.contains b = true) : ofRun run = .ok (some ⟨run⟩) := by
  have hempty : run.isEmpty = false := by simpa using hne
  have hmake : ofBytes run = .ok ⟨run⟩ := ofBytes_eq_ok_iff.mpr ⟨rfl, hne, hall⟩
  rw [ofRun, hempty, hmake]
  rfl

end Fragment

end Trivia

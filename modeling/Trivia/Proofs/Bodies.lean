/-
Trivia/Proofs/Bodies.lean

Where bodies end, said of the bytes and not of the recursion that finds it.

The body of a line comment is the one split of the bytes behind the gap into a
part that has no line end and no last blank, and a rest on which no body is
left (`leadingBody_append`, `exists_leadingBody`); nothing is left on the rest
of a line exactly where the line, or the source, ends with it
(`leadingBody_tail_iff`).  The body of a block comment is the one part without
a closing marker in front of a closing marker (`leadingBody?_append`,
`exists_of_leadingBody?`), and there is none exactly where there is no closing
marker at all (`leadingBody?_eq_none_iff`).
-/
import Trivia.Comment.Body
import Trivia.Proofs.Runs
import Mathlib.Data.List.Infix

namespace Trivia

open ByteSet

/-! ### Line comments -/

namespace LineComment

variable {body rest : Bytes} {w : Option Fragment}

/-- Nothing but blanks stands before the end of the line or of the source. -/
theorem leadingBody_eq_nil_iff :
    leadingBody rest = [] ↔ ∀ b ∈ (rest.dropWhile blanks.contains).head?,
      lineEnds.contains b = true := by
  induction rest with
  | nil => simp [leadingBody]
  | cons b rest ih =>
    rw [leadingBody, List.dropWhile_cons]
    by_cases hline : lineEnds.contains b = true
    · simp [hline, blanks_of_lineEnds hline]
    · by_cases hblank : blanks.contains b = true
      · simp [hline, hblank, ih]
      · simp [hline, hblank]

theorem leadingBody_append (hline : ∀ b ∈ body, lineEnds.contains b = false)
    (hlast : ∀ b ∈ body.getLast?, blanks.contains b = false) (hrest : leadingBody rest = []) :
    leadingBody (body ++ rest) = body := by
  induction body with
  | nil => exact hrest
  | cons b body ih =>
    rw [List.forall_mem_cons] at hline
    have hbody : leadingBody (body ++ rest) = body := by
      refine ih hline.2 ?_
      intro b' hb'
      refine hlast b' ?_
      rw [Option.mem_def] at hb' ⊢
      rw [List.getLast?_cons, hb']
      rfl
    rw [List.cons_append, leadingBody, hbody, hline.1]
    cases body with
    | nil =>
      -- `b` is the last byte of the body, so it is kept although nothing is kept behind it
      have hb : blanks.contains b = false := hlast b rfl
      simp [hb]
    | cons b' body => simp

/-- Every list of bytes begins with a body, be it empty. -/
theorem exists_leadingBody (bytes : Bytes) :
    ∃ body rest, bytes = body ++ rest ∧ (∀ b ∈ body, lineEnds.contains b = false) ∧
      (∀ b ∈ body.getLast?, blanks.contains b = false) ∧ leadingBody rest = [] := by
  induction bytes with
  | nil => exact ⟨[], [], rfl, by simp, by simp, rfl⟩
  | cons b bytes ih =>
    by_cases hnil : leadingBody (b :: bytes) = []
    · exact ⟨[], b :: bytes, rfl, by simp, by simp, hnil⟩
    · obtain ⟨body, rest, rfl, hline, hlast, hrest⟩ := ih
      have hbody : leadingBody (body ++ rest) = body := leadingBody_append hline hlast hrest
      rw [leadingBody, hbody] at hnil
      have hb : lineEnds.contains b = false := by
        by_contra hb
        simp [hb] at hnil
      refine ⟨b :: body, rest, rfl, List.forall_mem_cons.mpr ⟨hb, hline⟩, ?_, hrest⟩
      cases body with
      | nil =>
        have hblank : blanks.contains b = false := by simpa [hb] using hnil
        rintro b' ⟨⟩
        exact hblank
      | cons b' body =>
        rw [List.getLast?_cons_cons]
        exact hlast

/-- The rest of a line holds no body exactly where it ends the line or the source. -/
theorem leadingBody_tail_iff (h : Fragment.TailBefore w rest) :
    leadingBody (Fragment.source? w ++ rest) = [] ↔ Fragment.EndsLine w ∨ rest = [] := by
  obtain ⟨pad, ends, hsource, hpad, hstop, hends, hrest⟩ := h.exists_runs
  rw [leadingBody_eq_nil_iff, Fragment.endsLine_iff hsource hpad hends, hsource, List.append_assoc,
    dropWhile_of_spans hpad hstop]
  cases ends with
  | cons b ends => simp [(spans_cons.mp hends).1]
  | nil =>
    cases rest with
    | nil => simp
    | cons b rest => simp [stops_cons.mp hrest]

end LineComment

/-! ### Block comments -/

namespace BlockComment

variable {body bytes rest : Bytes}

theorem not_closer_prefix_of_cons {b : UInt8} (h : ¬ closer <:+: b :: body) :
    ¬ closer <+: b :: body ++ (closer ++ rest) := by
  intro hpre
  -- the two bytes of a marker differ, so one that begins with `b` does not reach behind the body
  cases body with
  | nil =>
    have hbytes : [0x2a, 0x2f] <+: b :: 0x2a :: 0x2f :: rest := hpre
    simp at hbytes
  | cons b' body =>
    have hbytes : [0x2a, 0x2f] <+: b :: b' :: (body ++ (closer ++ rest)) := hpre
    simp only [List.cons_prefix_cons, List.nil_prefix, and_true] at hbytes
    obtain ⟨rfl, rfl⟩ := hbytes
    exact h ⟨[], body, rfl⟩

theorem leadingBody?_append (h : ¬ closer <:+: body) :
    leadingBody? (body ++ (closer ++ rest)) = some body := by
  induction body with
  | nil => rfl
  | cons b body ih =>
    have hbody : leadingBody? (body ++ (closer ++ rest)) = some body :=
      ih fun hin => h (List.infix_cons hin)
    have hfirst : ¬ closer.isPrefixOf (b :: (body ++ (closer ++ rest))) = true := by
      rw [List.isPrefixOf_iff_prefix]
      exact not_closer_prefix_of_cons h
    rw [List.cons_append, leadingBody?, if_neg hfirst, hbody]
    rfl

theorem leadingBody?_eq_none_iff : leadingBody? bytes = none ↔ ¬ closer <:+: bytes := by
  induction bytes with
  | nil => simp [leadingBody?, closer]
  | cons b bytes ih =>
    rw [leadingBody?, List.infix_cons_iff]
    by_cases hfirst : closer.isPrefixOf (b :: bytes) = true
    · simp [hfirst, List.isPrefixOf_iff_prefix.mp hfirst]
    · have hpre : ¬ closer <+: b :: bytes := fun h => hfirst (List.isPrefixOf_iff_prefix.mpr h)
      simp [hfirst, hpre, ih]

/-- A block body holds no closing marker, and one comes right behind it. -/
theorem exists_of_leadingBody? (h : leadingBody? bytes = some body) :
    ∃ rest, bytes = body ++ (closer ++ rest) ∧ ¬ closer <:+: body := by
  obtain ⟨rest, hbytes⟩ := leadingBody?_prefix h
  rw [List.append_assoc] at hbytes
  refine ⟨rest, hbytes.symm, ?_⟩
  -- what remains is about the body alone
  clear hbytes rest
  induction bytes generalizing body with
  | nil => cases h
  | cons b bytes ih =>
    rw [leadingBody?] at h
    split at h
    · obtain rfl := Option.some.inj h
      simp [closer]
    · rename_i hfirst
      obtain ⟨body, hbody, rfl⟩ := Option.map_eq_some_iff.mp h
      rw [List.infix_cons_iff]
      rintro (hpre | hin)
      · have hclosed : body ++ closer <+: bytes := leadingBody?_prefix hbody
        have hlong : b :: body <+: b :: bytes :=
          (List.prefix_cons_inj b).mpr ((List.prefix_append body closer).trans hclosed)
        exact hfirst (List.isPrefixOf_iff_prefix.mpr (hpre.trans hlong))
      · exact ih hbody hin

end BlockComment

end Trivia

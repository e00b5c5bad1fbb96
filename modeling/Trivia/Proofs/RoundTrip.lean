/-
Trivia/Proofs/RoundTrip.lean

Reading and writing back.

A file is read off the front of what there is and gives back exactly the bytes
it was read from (`Derives.sources_append`).  It ends only where no rule of the
grammar finds anything more (`Derives.stray`), so what it leaves could not have
been read, and in a dialect that asks for the whole source it leaves nothing.
-/
import Trivia.Proofs.Derivation

namespace Trivia

variable {source : Bytes} {dialect : Dialect} {bytes rest : Bytes} {nodes : List Node}

/-! ### What a derivation leaves -/

/-- The nodes hold all bytes up to the rest. -/
theorem Derives.sources_append (h : Derives dialect bytes nodes (.stopped rest)) :
    Node.sources nodes ++ rest = bytes := by
  -- the ending is an index of `h`: the induction needs a variable there
  generalize hend : Ending.stopped rest = e at h
  induction h with
  | stop _ =>
    obtain rfl := Ending.stopped.inj hend
    rfl
  | unclosed _ _ => cases hend
  | node _ _ ih => rw [Node.sources_cons, List.append_assoc, ih hend]

/-- No construct begins with the rest. -/
theorem Derives.stray (h : Derives dialect bytes nodes (.stopped rest)) : Stray dialect rest := by
  generalize hend : Ending.stopped rest = e at h
  induction h with
  | stop hstray =>
    obtain rfl := Ending.stopped.inj hend
    exact hstray
  | unclosed _ _ => cases hend
  | node _ _ ih => exact ih hend

/-- The nodes hold all bytes up to the indent of a block comment that is left open. -/
theorem Derives.sources_append_unclosed (h : Derives dialect bytes nodes (.unclosed rest)) :
    ∃ indent text, rest = BlockComment.opener ++ text ∧ ByteSet.blanks.Spans indent ∧
      ¬ BlockComment.closer <:+: text ∧ Node.sources nodes ++ (indent ++ rest) = bytes := by
  generalize hend : Ending.unclosed rest = e at h
  induction h with
  | stop _ => cases hend
  | unclosed hindent htext =>
    obtain rfl := Ending.unclosed.inj hend
    exact ⟨_, _, rfl, hindent, htext, rfl⟩
  | node _ _ ih =>
    obtain ⟨indent, text, hrest, hindent, htext, hbytes⟩ := ih hend
    exact ⟨indent, text, hrest, hindent, htext, by
      rw [Node.sources_cons, List.append_assoc, hbytes]⟩

/-! ### Files -/

/-- **Round trip**: a file that is read from `start` on is written back as the bytes
that come first there.  Behind them every rule of the dialect finds its construct
absent, and there is nothing behind them if the dialect asks for the whole source. -/
theorem fileFrom_lossless {start : Position source} {name : String} {file : File}
    (h : ((Grammar.ofDialect dialect).fileFrom dialect name start).value = .ok file) :
    file.source <+: start.rest ∧
      ∃ hstop : start.offset + file.source.length ≤ source.length,
        (∀ r ∈ (Grammar.ofDialect dialect).rules, ∃ expected,
          r.attempt dialect (Position.seek (start.offset + file.source.length) hstop)
            = .ok ⟨[], .absent expected (start.offset + file.source.length)⟩
                (Position.seek (start.offset + file.source.length) hstop)) ∧
        (dialect.wholeSource = true →
          start.offset + file.source.length = source.length ∧ file.source = start.rest) := by
  obtain ⟨-, -, rest, hderives, hwhole⟩ := Grammar.fileFrom_eq_ok_iff.mp h
  have hsource : file.source ++ rest = start.rest := hderives.sources_append
  obtain ⟨stop, rfl⟩ := Position.exists_rest hsource.symm
  have hoffset : stop.offset = start.offset + file.source.length :=
    Position.offset_of_rest hsource.symm
  have hstop : start.offset + file.source.length ≤ source.length := hoffset ▸ stop.offset_le
  have hseek : Position.seek (start.offset + file.source.length) hstop = stop :=
    Position.ext_offset hoffset.symm
  refine ⟨⟨stop.rest, hsource⟩, hstop, ?_, fun hd => ⟨?_, ?_⟩⟩
  · rw [hseek, ← hoffset]
    exact hderives.stray.absent
  · rw [← hoffset]
    exact stop.atEnd_iff.mp (List.isEmpty_iff.mpr (hwhole hd))
  · rw [← hsource, hwhole hd, List.append_nil]

/-- A comment and a blank line, behind a byte that is no part of the file. -/
theorem fileFrom_lossless_behind_byte :
    let start : Position [0x78, 0x2f, 0x2f, 0x20, 0x61, 0x0a, 0x20, 0x0a] :=
      Position.seek 1 (by decide)
    let file : File :=
      ⟨"a", [.line ⟨none, some ⟨[0x20]⟩, [0x61], some ⟨[0x0a]⟩⟩, .space ⟨[0x20, 0x0a]⟩]⟩
    ((Grammar.ofDialect .lossless).fileFrom .lossless "a" start).value = .ok file ∧
      file.source <+: start.rest ∧ start.offset + file.source.length = 8 ∧
      file.source = start.rest := by
  intro start file
  have h : ((Grammar.ofDialect .lossless).fileFrom .lossless "a" start).value = .ok file := by
    decide +kernel
  obtain ⟨hfirst, -, -, hwhole⟩ := fileFrom_lossless h
  exact ⟨h, hfirst, hwhole rfl⟩

end Trivia

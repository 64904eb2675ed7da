import Lockstep.Proofs.Regex.Leftmost

/-!
# The rest of a text

A run reads the cells from its first offset on and nothing before them, so it finds in a text what
it finds in the rest of the text alone. All offsets of the second run count from the place where the
rest begins.

* `Text.exists_slice?_size`: the rest of a text behind a boundary is a text with the same cells.
* `Program.run_eq_relocate_of_cells`: a run on the rest of a text.
* `Regex.findAt_eq_some`: the match that a search answers is that of a run at its beginning.
* `Regex.run_rest_findAt_rest`: runs and searches from a boundary on, and the rest behind it.
-/

namespace Lockstep

/-- Cells are aligned with themselves a number of bytes later. -/
theorem aligned_add (d : Nat) (cells : List Cell) (start : Nat) :
    Aligned (d + · = ·) cells start cells (d + start) := by
  induction cells generalizing start with
  | nil => exact .nil rfl
  | cons cell cells ih =>
    refine .cons rfl rfl ?_
    rw [Nat.add_assoc]
    exact ih _

/-- Behind a boundary the rest of a text is a text, with the cells that are left there. -/
theorem Text.exists_slice?_size {t : Text} {ix : Nat} (h : t.IsBoundary ix) :
    ∃ rest, t.slice? ix t.size = some rest ∧ rest.cells = t.cellsFrom ix := by
  obtain ⟨before, hcells, hwidth⟩ := cells_eq_append h
  have hparts : t.cells = before ++ t.cellsFrom ix ++ [] := by rw [List.append_nil, ← hcells]
  have hslice := slice?_eq_some hparts
  rwa [hwidth, add_totalWidth_cellsFrom h] at hslice

/-- A run on a text is a run on the rest of it, if the offsets count from where the rest begins. -/
theorem Program.run_eq_relocate_of_cells (p : Program) {t rest : Text} {start : Nat}
    (h : rest.cells = t.cellsFrom start) :
    p.run t start = (p.run rest 0).relocate (start + ·) := by
  have hpos : ∀ cell ∈ t.cellsFrom start, 0 < cell.width := fun _ => Text.width_pos_of_mem_cellsFrom
  rw [run, run, Text.cellsFrom_zero, h]
  exact p.runFrom_eq_relocate (aligned_add start _ 0) hpos hpos _ _

namespace Regex

variable {re : Regex} {t : Text} {pos : Nat}

/-- The match that a search answers starts at a boundary, where a run finds it. -/
theorem findAt_eq_some (h : t.IsBoundary pos) {s : Searching re} {m : Match}
    (hm : ((re.findAt t pos).run s).1 = some m) :
    t.IsBoundary m.start ∧
      ∃ f, (re.program.run t m.start).found = some f ∧ m.finish = f.finish := by
  obtain ⟨answer, lines, hscan, hleftmost⟩ := re.exists_yields_scan_leftmost h
  rw [(yields_findAt hscan).fst_run, Option.map_eq_some_iff] at hm
  obtain ⟨⟨start, f⟩, rfl, rfl⟩ := hm
  obtain ⟨hrun, ⟨-, hboundary, -⟩, -⟩ := hleftmost
  exact ⟨hboundary, f, hrun, rfl⟩

/-- **The rest of a text.** A run from a boundary on and a run on the rest of the text both find
nothing, or they find the same: the end of the match and all offsets that have been saved are
greater by that of the boundary, slots without an offset stay without one, and the peaks are equal.
So a search from a boundary on answers a match whose length is the one that is found at the start of
the rest behind its beginning. -/
theorem run_rest_findAt_rest (h : t.IsBoundary pos) :
    (∃ rest, t.slice? pos t.size = some rest ∧ ∀ p : Program,
      let whole := p.run t pos
      let part := p.run rest 0
      (whole.found = none ↔ part.found = none) ∧
      (∀ f, part.found = some f → whole.found =
        some ⟨pos + f.finish, f.slots.map fun slot => slot.map (pos + ·)⟩) ∧
      whole.peak = part.peak ∧ whole = part.relocate (pos + ·)) ∧
    ∀ (re : Regex) (s : Searching re) (m : Match), ((re.findAt t pos).run s).1 = some m →
      m.start ≤ m.finish ∧ ∃ rest, t.slice? m.start t.size = some rest ∧
        ∀ s', ((re.matchLength rest).run s').1 = some (m.finish - m.start) := by
  refine ⟨?_, fun re s m hm => ?_⟩
  · obtain ⟨rest, hslice, hcells⟩ := Text.exists_slice?_size h
    refine ⟨rest, hslice, fun p => ?_⟩
    intro whole part
    have hrun : whole = part.relocate (pos + ·) := p.run_eq_relocate_of_cells hcells
    have hfound : whole.found = part.found.map (Found.relocate (pos + ·)) :=
      congrArg Outcome.found hrun
    have hpeak : whole.peak = (part.relocate (pos + ·)).peak := congrArg Outcome.peak hrun
    refine ⟨?_, fun f hf => ?_, hpeak, hrun⟩
    · rw [hfound, Option.map_eq_none_iff]
    · rw [hfound, hf]
      rfl
  · obtain ⟨hboundary, f, hf, hfinish⟩ := findAt_eq_some h hm
    obtain ⟨rest, hslice, hcells⟩ := Text.exists_slice?_size hboundary
    have hrun : (re.program.run t m.start).found =
        (re.program.run rest 0).found.map (Found.relocate (m.start + ·)) :=
      congrArg Outcome.found (re.program.run_eq_relocate_of_cells hcells)
    rw [hf] at hrun
    obtain ⟨f', hf', rfl⟩ := Option.map_eq_some_iff.1 hrun.symm
    have hfinish : m.finish = m.start + f'.finish := hfinish
    refine ⟨by omega, rest, hslice, fun s' => ?_⟩
    rw [(re.yields_matchLength rest).fst_run, hf', hfinish, Nat.add_sub_cancel_left]
    rfl

/-- A group that takes no part keeps its slots without offsets, and a search comes to its match
behind a character of two bytes. -/
theorem run_rest_findAt_rest_unset_group :
    let p : Program := .ofBody #[.split 1 4, .save 0, .char 'x', .save 1, .save 2, .char 'b',
      .accept]
    let t : Text := .wide "aéba"
    t.IsBoundary 1 ∧ (p.run t 3).found = some ⟨4, #[none, none, some 3, none]⟩ ∧
      (p.run (.wide "ba") 0).found = some ⟨1, #[none, none, some 0, none]⟩ ∧
      ∃ rest, t.slice? 3 t.size = some rest ∧
        ∀ s', ((Regex.matchLength ⟨none, p, false⟩ rest).run s').1 = some 1 := by
  intro p t
  have h₁ : t.IsBoundary 1 := by rw [Text.IsBoundary]; decide +kernel
  have h₃ : t.IsBoundary 3 := by rw [Text.IsBoundary]; decide +kernel
  have hpart : (p.run (.wide "ba") 0).found = some ⟨1, #[none, none, some 0, none]⟩ := by
    decide +kernel
  obtain ⟨rest, hslice, hrun⟩ := (run_rest_findAt_rest h₃).1
  obtain rfl : rest = .wide "ba" :=
    Option.some.inj (hslice.symm.trans (by decide +kernel))
  have hwhole : (p.run t 3).found = some ⟨4, #[none, none, some 3, none]⟩ :=
    ((hrun p).2.1 _ hpart).trans (by simp)
  have hfind : ((Regex.findAt ⟨none, p, false⟩ t 1).run (.initial _)).1 = some ⟨t, 3, 4⟩ := by
    decide +kernel
  exact ⟨h₁, hwhole, hpart, ((run_rest_findAt_rest h₁).2 _ _ _ hfind).2⟩

end Regex

end Lockstep

import Lockstep.Proofs.Machine.Simulation
import Lockstep.Regex.Search

/-!
# What searches yield

A search uses the scheduler that earlier searches have left behind, but what it answers and reports
depends on the text and the offset only. Two scans over cells with the same characters answer and
report the same at corresponding offsets.

* `Search.Yields`: what a search answers and reports, whatever has been searched before.
* `Regex.yields_runFrom`: a run yields what it yields with a new scheduler.
* `Regex.exists_yields_scan`: scans over aligned cells; `Regex.yields_findAt`,
  `Regex.yields_capturesAt`: what is made of a scan.
* `Regex.yields_matchLength`, `Regex.yields_isMatch`, `Regex.yields_execInto`,
  `Regex.yields_captures`: the searches at offset zero, all from the same run.
-/

namespace Lockstep

namespace Search

variable {re : Regex} {α β : Type} {find : Search re α} {a : α} {xs : List LogLine}

/-- Whatever has been searched before, a search answers `a` and reports `lines`. -/
def Yields (find : Search re α) (a : α) (lines : List LogLine) : Prop :=
  ∀ s, (find.run s).1 = a ∧ (find.run s).2.log.toList = s.log.toList ++ lines

theorem Yields.fst_run (h : find.Yields a xs) (s : Searching re) : (find.run s).1 = a := (h s).1

theorem yields_pure (a : α) : (pure a : Search re α).Yields a [] :=
  fun s => ⟨rfl, (List.append_nil s.log.toList).symm⟩

theorem Yields.bind (h : find.Yields a xs) {next : α → Search re β} {b : β} {ys : List LogLine}
    (hnext : (next a).Yields b ys) : Yields (find >>= next) b (xs ++ ys) := by
  intro s
  obtain ⟨ha, hxs⟩ := h s
  obtain ⟨hb, hys⟩ := hnext (find.run s).2
  have hrun : (find >>= next).run s = (next a).run (find.run s).2 := by
    rw [← ha, StateT.run_bind]
    rfl
  rw [hrun, hys, hxs, List.append_assoc]
  exact ⟨hb, rfl⟩

theorem Yields.bind_pure (h : find.Yields a xs) (f : α → β) :
    Yields (find >>= fun a => pure (f a)) (f a) xs := by
  have hf : Yields (find >>= fun a => pure (f a)) (f a) (xs ++ []) := h.bind (yields_pure (f a))
  rwa [List.append_nil] at hf

end Search

namespace Regex

variable (re : Regex)

/-- What a run of a regex reports. -/
def report (o : Outcome) : List LogLine := if re.tracing then o.trace else []

theorem report_relocate (φ : Nat → Nat) (o : Outcome) :
    re.report (o.relocate φ) = (re.report o).map (LogLine.relocate φ) := by
  rw [report, report, Outcome.trace_relocate]
  split <;> rfl

/-- A run yields what it yields with a new scheduler. -/
theorem yields_runFrom {cells : List Cell} (hc : ∀ cell ∈ cells, 0 < cell.width) (start : Nat) :
    let o := (re.program.runFrom (.initial _) cells start).1
    (re.runFrom cells start).Yields o.found (re.report o) := by
  intro o s
  have ho : (re.program.runFrom s.scheduler cells start).1 = o := re.program.fst_runFrom hc _ _ _
  refine ⟨congrArg Outcome.found ho, ?_⟩
  show (if re.tracing then s.log ++ (re.program.runFrom s.scheduler cells start).1.trace
    else s.log).toList = _
  rw [ho, report]
  split
  · exact Array.toList_appendList
  · exact (List.append_nil _).symm

section Scan

variable {re} {cells rest : List Cell} {cell : Cell} {start : Nat} {found : Option (Nat × Found)}
  {xs ys : List LogLine}

/-- A scan stops at the first match. -/
theorem yields_scan_of_some {f : Found} (h : (re.runFrom cells start).Yields (some f) xs) :
    (re.scan cells start).Yields (some (start, f)) xs := by
  rw [scan.eq_def, ← List.append_nil xs]
  exact h.bind (Search.yields_pure _)

/-- A scan without a match at an offset goes on at the next boundary. -/
theorem yields_scan_cons (h : (re.runFrom (cell :: rest) start).Yields none xs)
    (hrest : (re.scan rest (start + cell.width)).Yields found ys) :
    (re.scan (cell :: rest) start).Yields found (xs ++ ys) := by
  rw [scan.eq_def]
  exact h.bind hrest

/-- A scan without a match at the end of the text has none. -/
theorem yields_scan_nil (h : (re.runFrom [] start).Yields none xs) :
    (re.scan [] start).Yields none xs := by
  rw [scan.eq_def, ← List.append_nil xs]
  exact h.bind (Search.yields_pure _)

variable {t : Text} {pos : Nat}

theorem yields_findAt (h : (re.scan (t.cellsFrom pos) pos).Yields found xs) :
    (re.findAt t pos).Yields (found.map fun (start, f) => ⟨t, start, f.finish⟩) xs :=
  h.bind_pure _

theorem yields_capturesAt (h : (re.scan (t.cellsFrom pos) pos).Yields found xs) :
    (re.capturesAt t pos).Yields (found.map fun (start, f) => ⟨t, start, f.finish, f.slots⟩) xs :=
  h.bind_pure _

end Scan

section Aligned

variable {φ : Nat → Nat} {cells cells' : List Cell} {start start' : Nat}
  (h : Aligned (φ · = ·) cells start cells' start') (hpos : ∀ cell ∈ cells, 0 < cell.width)
  (hpos' : ∀ cell ∈ cells', 0 < cell.width)
include h hpos hpos'

/-- Runs over aligned cells answer and report the same, up to offsets. -/
theorem exists_yields_runFrom :
    ∃ found lines, (re.runFrom cells start).Yields found lines ∧
      (re.runFrom cells' start').Yields (found.map (Found.relocate φ))
        (lines.map (LogLine.relocate φ)) := by
  refine ⟨_, _, re.yields_runFrom hpos start, ?_⟩
  rw [← report_relocate]
  have hrun := re.yields_runFrom hpos' start'
  rwa [re.program.runFrom_eq_relocate h hpos hpos' (.initial _)] at hrun

/-- Scans over aligned cells answer and report the same, up to offsets. -/
theorem exists_yields_scan :
    ∃ found lines, (re.scan cells start).Yields found lines ∧
      (re.scan cells' start').Yields (found.map (Prod.map φ (Found.relocate φ)))
        (lines.map (LogLine.relocate φ)) := by
  induction h with
  | @nil o o' hat =>
    obtain ⟨found, xs, hrun, hrun'⟩ := re.exists_yields_runFrom (.nil hat) hpos hpos'
    cases found with
    | none => exact ⟨none, xs, yields_scan_nil hrun, yields_scan_nil hrun'⟩
    | some f =>
      subst hat
      exact ⟨some (o, f), xs, yields_scan_of_some hrun, yields_scan_of_some hrun'⟩
  | @cons cell cell' cells cells' o o' hat hchar hc ih =>
    obtain ⟨found, xs, hrun, hrun'⟩ := re.exists_yields_runFrom (.cons hat hchar hc) hpos hpos'
    cases found with
    | none =>
      obtain ⟨found, ys, hrest, hrest'⟩ := ih (List.forall_mem_cons.1 hpos).2
        (List.forall_mem_cons.1 hpos').2
      refine ⟨found, xs ++ ys, yields_scan_cons hrun hrest, ?_⟩
      rw [List.map_append]
      exact yields_scan_cons hrun' hrest'
    | some f =>
      subst hat
      exact ⟨some (o, f), xs, yields_scan_of_some hrun, yields_scan_of_some hrun'⟩

end Aligned

/-- A scan of a text yields something, whatever has been searched before. -/
theorem exists_yields_scan_cellsFrom (t : Text) (pos : Nat) :
    ∃ found lines, (re.scan (t.cellsFrom pos) pos).Yields found lines := by
  obtain ⟨found, lines, h, -⟩ := re.exists_yields_scan (aligned_id (t.cellsFrom pos) pos)
    (fun _ => Text.width_pos_of_mem_cellsFrom) (fun _ => Text.width_pos_of_mem_cellsFrom)
  exact ⟨found, lines, h⟩

section Text

variable (t : Text)

/-- What the run at the start of a text yields. -/
theorem yields_runFrom_cells :
    (re.runFrom t.cells 0).Yields (re.program.run t 0).found (re.report (re.program.run t 0)) := by
  rw [Program.run, Text.cellsFrom_zero]
  exact re.yields_runFrom (fun _ => Text.width_pos_of_mem_cells) 0

theorem yields_matchLength :
    (re.matchLength t).Yields ((re.program.run t 0).found.map Found.finish)
      (re.report (re.program.run t 0)) :=
  (re.yields_runFrom_cells t).bind_pure _

theorem yields_isMatch :
    (re.isMatch t).Yields (re.program.run t 0).found.isSome (re.report (re.program.run t 0)) := by
  rw [← Option.isSome_map]
  exact (re.yields_matchLength t).bind_pure _

theorem yields_captures :
    (re.captures t).Yields
      ((re.program.run t 0).found.map fun found => ⟨t, 0, found.finish, found.slots⟩)
      (re.report (re.program.run t 0)) :=
  (re.yields_runFrom_cells t).bind_pure _

/-- The given slots are replaced by those of the match, if there is one. -/
theorem yields_execInto (slots : Slots) :
    (re.execInto slots t).Yields
      ((re.program.run t 0).found.map Found.finish,
        ((re.program.run t 0).found.map Found.slots).getD slots)
      (re.report (re.program.run t 0)) := by
  have hrun := re.yields_runFrom_cells t
  generalize re.program.run t 0 = o at hrun ⊢
  rw [execInto, ← List.append_nil (re.report o)]
  refine hrun.bind ?_
  cases o.found with
  | none => exact Search.yields_pure _
  | some f => exact Search.yields_pure _

end Text

end Regex

end Lockstep

import Lockstep.Proofs.Regex.Search
import Mathlib.Order.Bounds.Defs

/-!
# The leftmost match

A scan tries the boundaries from an offset on in their order, the end of the text included, and so
the match that it answers starts at the first boundary where there is one. It is the match of the
run from there; what runs from earlier boundaries saved is not left in its slots.

* `Program.Leftmost`: the first match at the boundaries from an offset on.
* `Regex.exists_yields_scan_leftmost`: what a scan yields.
* `Regex.searches_leftmost`: what searches from an offset on answer.
-/

namespace Lockstep

namespace Program

/-- Whether `answer` is the match of a program at the first boundary from `pos` on where it has one,
with the offset of this boundary. -/
def Leftmost (p : Program) (t : Text) (pos : Nat) : Option (Nat × Found) → Prop
  | none => ∀ b, pos ≤ b → t.IsBoundary b → (p.run t b).found = none
  | some (start, found) => (p.run t start).found = some found ∧
      IsLeast {b | pos ≤ b ∧ t.IsBoundary b ∧ (p.run t b).found ≠ none} start

namespace Leftmost

variable {p : Program} {t : Text} {pos : Nat} {answer : Option (Nat × Found)}

/-- A match at the first boundary. -/
theorem here (h : t.IsBoundary pos) {found : Found} (hrun : (p.run t pos).found = some found) :
    p.Leftmost t pos (some (pos, found)) := by
  refine ⟨hrun, ⟨le_rfl, h, ?_⟩, fun b hb => hb.1⟩
  rw [hrun]
  exact Option.some_ne_none found

/-- A match at a later boundary, or none, if there is none at the first one. -/
theorem behind {cell : Cell} {rest : List Cell} (h : t.IsBoundary pos)
    (hcell : t.cellsFrom pos = cell :: rest) (hrun : (p.run t pos).found = none)
    (hrest : p.Leftmost t (pos + cell.width) answer) : p.Leftmost t pos answer := by
  have hskip {b : Nat} (hle : pos ≤ b) (hb : t.IsBoundary b)
      (hfound : (p.run t b).found ≠ none) : pos + cell.width ≤ b := by
    refine (Text.eq_or_le_of_isBoundary h hcell hb hle).resolve_left ?_
    rintro rfl
    exact hfound hrun
  cases answer with
  | none =>
    intro b hle hb
    by_contra hfound
    exact hfound (hrest b (hskip hle hb hfound) hb)
  | some found =>
    obtain ⟨hfound, ⟨hle, hb, hne⟩, hleast⟩ := hrest
    refine ⟨hfound, ⟨Nat.le_of_add_right_le hle, hb, hne⟩, ?_⟩
    rintro b ⟨hle', hb', hne'⟩
    exact hleast ⟨hskip hle' hb' hne', hb', hne'⟩

/-- There is no answer just if there is no match at any of the boundaries. -/
theorem eq_none_iff (h : p.Leftmost t pos answer) :
    answer = none ↔ ∀ b, pos ≤ b → t.IsBoundary b → (p.run t b).found = none := by
  cases answer with
  | none => exact iff_of_true rfl h
  | some found =>
    obtain ⟨-, ⟨hle, hb, hne⟩, -⟩ := h
    exact iff_of_false (Option.some_ne_none found) fun hnone => hne (hnone _ hle hb)

end Leftmost

end Program

namespace Regex

variable (re : Regex) (t : Text) (pos : Nat)

/-- What a run at an offset of a text yields. -/
theorem yields_runFrom_cellsFrom :
    (re.runFrom (t.cellsFrom pos) pos).Yields (re.program.run t pos).found
      (re.report (re.program.run t pos)) :=
  re.yields_runFrom (fun _ => Text.width_pos_of_mem_cellsFrom) pos

variable {t pos}

/-- From a boundary on, a scan yields the leftmost match. -/
theorem exists_yields_scan_leftmost (h : t.IsBoundary pos) :
    ∃ answer lines, (re.scan (t.cellsFrom pos) pos).Yields answer lines ∧
      re.program.Leftmost t pos answer := by
  generalize hcells : t.cellsFrom pos = cells
  induction cells generalizing pos with
  | nil =>
    have hrun := re.yields_runFrom_cellsFrom t pos
    rw [hcells] at hrun
    cases hfound : (re.program.run t pos).found with
    | none =>
      rw [hfound] at hrun
      refine ⟨none, _, yields_scan_nil hrun, fun b hle hb => ?_⟩
      rw [Text.eq_of_isBoundary_of_cellsFrom_eq_nil h hcells hb hle, hfound]
    | some f =>
      rw [hfound] at hrun
      exact ⟨_, _, yields_scan_of_some hrun, .here h hfound⟩
  | cons cell rest ih =>
    have hrun := re.yields_runFrom_cellsFrom t pos
    rw [hcells] at hrun
    cases hfound : (re.program.run t pos).found with
    | none =>
      rw [hfound] at hrun
      obtain ⟨hnext, hrest⟩ := Text.isBoundary_add_width h hcells
      obtain ⟨answer, lines, hscan, hleftmost⟩ := ih hnext hrest
      exact ⟨answer, _, yields_scan_cons hrun hscan, hleftmost.behind h hcells hfound⟩
    | some f =>
      rw [hfound] at hrun
      exact ⟨_, _, yields_scan_of_some hrun, .here h hfound⟩

/-- Where no boundary is, a scan tries one run only. -/
theorem yields_scan_of_not_isBoundary (h : ¬ t.IsBoundary pos) :
    (re.scan (t.cellsFrom pos) pos).Yields ((re.program.run t pos).found.map (pos, ·))
      (re.report (re.program.run t pos)) := by
  have hrun := re.yields_runFrom_cellsFrom t pos
  rw [Text.cellsFrom_of_not_isBoundary h] at hrun ⊢
  cases hfound : (re.program.run t pos).found with
  | none =>
    rw [hfound] at hrun
    exact yields_scan_nil hrun
  | some f =>
    rw [hfound] at hrun
    exact yields_scan_of_some hrun

/-- **Leftmost match.** Whatever has been searched before, searches from an offset on report the
same match, one of them with the slots of the run that found it. From a boundary on, this is the
match at the first boundary that has one, the end of the text included. Otherwise only the offset
itself is tried, and the run there goes as at the end of any text of that size. -/
theorem searches_leftmost (re : Regex) (t : Text) (pos : Nat) :
    ∃ answer : Option (Nat × Found),
      (∀ s, ((re.findAt t pos).run s).1 = answer.map fun (start, f) => ⟨t, start, f.finish⟩) ∧
      (∀ s, ((re.capturesAt t pos).run s).1 =
        answer.map fun (start, f) => ⟨t, start, f.finish, f.slots⟩) ∧
      (t.IsBoundary pos →
        (answer = none ↔ ∀ b, pos ≤ b → t.IsBoundary b → (re.program.run t b).found = none) ∧
        ∀ start f, answer = some (start, f) → (re.program.run t start).found = some f ∧
          IsLeast {b | pos ≤ b ∧ t.IsBoundary b ∧ (re.program.run t b).found ≠ none} start) ∧
      (¬ t.IsBoundary pos → answer = (re.program.run t pos).found.map (pos, ·) ∧
        ∀ u : Text, u.size = pos → re.program.run u pos = re.program.run t pos) := by
  by_cases h : t.IsBoundary pos
  · obtain ⟨answer, lines, hscan, hleftmost⟩ := re.exists_yields_scan_leftmost h
    refine ⟨answer, (yields_findAt hscan).fst_run, (yields_capturesAt hscan).fst_run, fun _ => ?_,
      fun hnot => absurd h hnot⟩
    refine ⟨hleftmost.eq_none_iff, ?_⟩
    rintro start f rfl
    exact hleftmost
  · have hscan := re.yields_scan_of_not_isBoundary h
    refine ⟨_, (yields_findAt hscan).fst_run, (yields_capturesAt hscan).fst_run,
      fun hpos => absurd hpos h, fun _ => ⟨rfl, ?_⟩⟩
    rintro u rfl
    rw [Program.run, Program.run, Text.cellsFrom_size, Text.cellsFrom_of_not_isBoundary h]

/-- An attempt fails after it has saved offsets; a search from inside a character finds nothing. -/
theorem searches_leftmost_failed_attempt :
    let re : Regex := ⟨none, .ofBody #[.save 0, .char 'a', .save 1, .char 'b', .accept], false⟩
    let t : Text := .wide "éaéab"
    t.IsBoundary 0 ∧ ¬ t.IsBoundary 1 ∧
      (∀ s, ((re.findAt t 0).run s).1 = some ⟨t, 5, 7⟩) ∧
      (∀ s, ((re.capturesAt t 0).run s).1 = some ⟨t, 5, 7, #[some 5, some 6]⟩) ∧
      IsLeast {b | 0 ≤ b ∧ t.IsBoundary b ∧ (re.program.run t b).found ≠ none} 5 ∧
      ∀ s, ((re.findAt t 1).run s).1 = none := by
  intro re t
  have h₀ : t.IsBoundary 0 := by rw [Text.IsBoundary]; decide +kernel
  have h₁ : ¬ t.IsBoundary 1 := by rw [Text.IsBoundary]; decide +kernel
  obtain ⟨answer, hfind, hcaptures, hleftmost, -⟩ := searches_leftmost re t 0
  have hanswer : answer = some (5, ⟨7, #[some 5, some 6]⟩) := by
    have hrun : ((re.capturesAt t 0).run (.initial re)).1 =
        some ⟨t, 5, 7, #[some 5, some 6]⟩ := by decide +kernel
    rw [hcaptures] at hrun
    obtain ⟨⟨start, finish, slots⟩, rfl, heq⟩ := Option.map_eq_some_iff.1 hrun
    obtain ⟨-, rfl, rfl, rfl⟩ := Captures.mk.inj heq
    rfl
  subst hanswer
  obtain ⟨answer', hfind', -, -, hinside⟩ := searches_leftmost re t 1
  have hnone : (re.program.run t 1).found = none := by decide +kernel
  have hanswer' : answer' = none := by rw [(hinside h₁).1, hnone]; rfl
  subst hanswer'
  exact ⟨h₀, h₁, hfind, hcaptures, ((hleftmost h₀).2 _ _ rfl).2, hfind'⟩

end Regex

end Lockstep

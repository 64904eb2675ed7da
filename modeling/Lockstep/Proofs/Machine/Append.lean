import Lockstep.Proofs.Text.Conversion

/-!
# Runs on longer texts

A run on a text and one on the same text with more behind it do the same up to the end of the
shorter text. There the first one stops. The second one may go on, but whatever it finds then ends
behind that offset.

* `Program.moveOn_keeps_or_ends_behind`: what is found while threads are moved on.
* `Program.moveOn_append`: moving on over more cells.
* `Program.run_append`: a run on a text with more behind it.
-/

namespace Lockstep.Program

variable (p : Program)

/-- The match known after a visit is the one known before, or it ends at the offset of the visit. -/
theorem found_visit (offset : Nat) (threads : List Thread) (found : Option Found) :
    (p.visit offset threads).found?.or found = found ∨
      ∃ f, (p.visit offset threads).found?.or found = some f ∧ offset ≤ f.finish := by
  rw [Visit.found?]
  cases (p.visit offset threads).accepted with
  | none => exact Or.inl rfl
  | some slots => exact Or.inr ⟨⟨offset, slots⟩, rfl, le_rfl⟩

/-- The match known after threads have been moved on is the one known before, or it ends at the
offset of the threads or behind it. -/
theorem moveOn_keeps_or_ends_behind (cells : List Cell) (offset : Nat) (s : Scheduler p.size)
    (threads : List Thread) (found : Option Found) (visits : Array Visit) :
    (p.moveOn cells offset s threads found visits).2.1 = found ∨
      ∃ f, (p.moveOn cells offset s threads found visits).2.1 = some f ∧ offset ≤ f.finish := by
  induction cells generalizing offset s threads found visits with
  | nil =>
    by_cases ht : threads = []
    · rw [ht, moveOn_nil]
      exact Or.inl rfl
    · rw [moveOn_end ht]
      exact p.found_visit offset threads found
  | cons cell cells ih =>
    by_cases ht : threads = []
    · rw [ht, moveOn_nil]
      exact Or.inl rfl
    · rw [moveOn_cons ht]
      rcases ih (offset + cell.width) _ _ _ _ with hfound | ⟨f, hf, hle⟩
      · rw [hfound]
        exact p.found_visit offset threads found
      · exact Or.inr ⟨f, hf, Nat.le_of_add_right_le hle⟩

/-- Threads that are moved on over more cells find the same, unless some of them are left where the
first cells end; then they may also find a match that ends behind there. -/
theorem moveOn_append {more : List Cell} (hmore : ∀ cell ∈ more, 0 < cell.width)
    (cells : List Cell) (offset : Nat) (s : Scheduler p.size) (threads : List Thread)
    (found : Option Found) (visits : Array Visit) :
    let short := p.moveOn cells offset s threads found visits
    let long := p.moveOn (cells ++ more) offset s threads found visits
    long.2.1 = short.2.1 ∨
      (∃ v ∈ short.2.2, v.offset = offset + totalWidth cells) ∧
        ∃ f, long.2.1 = some f ∧ offset + totalWidth cells < f.finish := by
  induction cells generalizing offset s threads found visits with
  | nil =>
    by_cases ht : threads = []
    · rw [ht, moveOn_nil, moveOn_nil]
      exact Or.inl rfl
    · rw [moveOn_end ht]
      cases more with
      | nil =>
        rw [List.append_nil, moveOn_end ht]
        exact Or.inl rfl
      | cons cell more =>
        -- The short run stops here, and what the long one finds from the next cell on ends later.
        have hwidth := hmore cell List.mem_cons_self
        rw [List.nil_append, moveOn_cons ht]
        rcases p.moveOn_keeps_or_ends_behind more (offset + cell.width) _ _ _ _ with
          hfound | ⟨f, hf, hle⟩
        · exact Or.inl hfound
        · have hlt : offset < f.finish := (Nat.lt_add_of_pos_right hwidth).trans_le hle
          exact Or.inr ⟨⟨_, Array.mem_push_self, rfl⟩, f, hf, hlt⟩
  | cons cell cells ih =>
    by_cases ht : threads = []
    · rw [ht, moveOn_nil, moveOn_nil]
      exact Or.inl rfl
    · rw [List.cons_append, moveOn_cons ht, moveOn_cons ht, totalWidth_cons, ← Nat.add_assoc]
      exact ih _ _ _ _ _

/-- **Longer texts.** With more text behind, a run finds what it found before, or a match that ends
behind the end of the shorter text. So a match does not get lost, and nothing changes if no thread
was waiting at that end. -/
theorem run_append {t u v : Text} (h : t.append? u = some v) {start : Nat}
    (hstart : start ≤ t.size) :
    let short := p.run t start
    let long := p.run v start
    (long.found = short.found ∨ ∃ f, long.found = some f ∧ t.size < f.finish) ∧
      (short.found.isSome → long.found.isSome) ∧
        ((∀ visit ∈ short.visits, visit.offset ≠ t.size) → long.found = short.found) := by
  have hrun : (p.run v start).found = (p.run t start).found ∨
      (∃ visit ∈ (p.run t start).visits, visit.offset = t.size) ∧
        ∃ f, (p.run v start).found = some f ∧ t.size < f.finish := by
    rcases Text.cellsFrom_append h hstart with ⟨hcells, hboundary⟩ | ⟨hv, ht⟩
    · rw [run, run, hcells, ← Text.add_totalWidth_cellsFrom hboundary]
      exact p.moveOn_append (fun _ => Text.width_pos_of_mem_cells) _ _ _ _ _ _
    · rw [run, run, hv, ht]
      exact Or.inl rfl
  refine ⟨hrun.imp_right And.right, fun hshort => ?_, fun hnone => ?_⟩
  · rcases hrun with hrun | ⟨-, f, hf, -⟩
    · rwa [hrun]
    · rw [hf]
      rfl
  · rcases hrun with hrun | ⟨⟨visit, hmem, he⟩, -⟩
    · exact hrun
    · exact absurd he (hnone visit hmem)

/-- A loop over one character goes on into the text behind. -/
theorem run_append_loop :
    let p := ofBody #[.split 1 3, .char 'a', .jump 0, .accept]
    (Text.wide "aa").append? (.wide "ab") = some (.wide "aaab") ∧ 1 ≤ (Text.wide "aa").size ∧
      (p.run (.wide "aa") 1).found = some ⟨2, #[]⟩ ∧
        ∃ f, (p.run (.wide "aaab") 1).found = some f ∧ (Text.wide "aa").size < f.finish := by
  intro p
  have happend : (Text.wide "aa").append? (.wide "ab") = some (.wide "aaab") := by decide
  have hstart : 1 ≤ (Text.wide "aa").size := by decide
  have hchanged : (p.run (.wide "aaab") 1).found ≠ (p.run (.wide "aa") 1).found := by
    decide +kernel
  exact ⟨happend, hstart, by decide +kernel, (p.run_append happend hstart).1.resolve_left hchanged⟩

end Lockstep.Program

import Lockstep.Pattern.Language
import Lockstep.Proofs.Machine.Grounded

/-!
# Loops that consume something

If no loop of a pattern has a body that matches the empty word, then the code of the pattern never
goes round in a circle without consuming something. A position of a loop leads to its body and past
its end, but the way from the end of the body back to its beginning leads through a cell.

* `Program.Implements.grounded`: the positions in the code of a pattern are grounded if its exit is;
  its entry is grounded in any case if the pattern does not match the empty word.
* `Program.grounded_layout`: all positions of a layout are grounded.
-/

namespace Lockstep.Program

variable {p : Program} {e : Pattern} {opened entry exit : Nat}

theorem Implements.entry_lt_exit (h : p.Implements e opened entry exit) : entry < exit := by
  induction h <;> omega

/-- The code of a pattern is grounded from its exit backwards, and a pattern that does not match the
empty word is grounded at its entry, whatever comes behind it. -/
theorem Implements.grounded (h : p.Implements e opened entry exit) (hloops : e.LoopsConsume) :
    ([] ∉ e.language → p.Grounded entry) ∧
      (p.Grounded exit → ∀ q, entry ≤ q → q < exit → p.Grounded q) := by
  induction h with
  | @atom a opened entry hi =>
    have hentry : p.Grounded entry := grounded_of_wait hi (a.next?_instruction entry)
    refine ⟨fun _ => hentry, fun _ q hle hlt => ?_⟩
    obtain rfl : q = entry := by omega
    exact hentry
  | @group body opened entry mid hopen hbody hclose ih =>
    obtain ⟨ih₁, ih₂⟩ := ih hloops
    refine ⟨fun hnil => grounded_of_save hopen (ih₁ hnil), fun hexit q hle hlt => ?_⟩
    have hmid : p.Grounded mid := grounded_of_save hclose hexit
    have hinner := ih₂ hmid
    obtain rfl | rfl | ⟨hle, hlt⟩ : q = entry ∨ q = mid ∨ entry + 1 ≤ q ∧ q < mid := by omega
    · exact grounded_of_save hopen (hinner _ le_rfl hbody.entry_lt_exit)
    · exact hmid
    · exact hinner q hle hlt
  | @concat first second opened entry mid exit hfirst hsecond ih₁ ih₂ =>
    obtain ⟨hloops₁, hloops₂⟩ := hloops
    refine ⟨fun hnil => ?_, fun hexit q hle hlt => ?_⟩
    · by_cases hnil₁ : [] ∈ first.language
      · have hnil₂ : [] ∉ second.language := fun h => hnil (Language.append_mem_mul hnil₁ h)
        exact (ih₁ hloops₁).2 ((ih₂ hloops₂).1 hnil₂) entry le_rfl hfirst.entry_lt_exit
      · exact (ih₁ hloops₁).1 hnil₁
    · have hbehind := (ih₂ hloops₂).2 hexit
      obtain hmid | hmid := Nat.lt_or_ge q mid
      · exact (ih₁ hloops₁).2 (hbehind mid le_rfl hsecond.entry_lt_exit) q hle hmid
      · exact hbehind q hmid hlt
  | @alternate first second opened entry mid exit hsplit hfirst hjump hsecond ih₁ ih₂ =>
    obtain ⟨hloops₁, hloops₂⟩ := hloops
    refine ⟨fun hnil => ?_, fun hexit q hle hlt => ?_⟩
    · exact grounded_of_split hsplit ((ih₁ hloops₁).1 fun h => hnil (Or.inl h))
        ((ih₂ hloops₂).1 fun h => hnil (Or.inr h))
    · have hmid : p.Grounded mid := grounded_of_jump hjump hexit
      have hbranch₁ := (ih₁ hloops₁).2 hmid
      have hbranch₂ := (ih₂ hloops₂).2 hexit
      obtain rfl | rfl | ⟨hle, hlt⟩ | hle : q = entry ∨ q = mid ∨ (entry + 1 ≤ q ∧ q < mid) ∨
          mid + 1 ≤ q := by omega
      · exact grounded_of_split hsplit (hbranch₁ _ le_rfl hfirst.entry_lt_exit)
          (hbranch₂ _ le_rfl hsecond.entry_lt_exit)
      · exact hmid
      · exact hbranch₁ q hle hlt
      · exact hbranch₂ q hle hlt
  | @star body greedy opened entry back hdecide hbody hjump ih =>
    obtain ⟨hnil, hloops⟩ := hloops
    obtain ⟨ih₁, ih₂⟩ := ih hloops
    refine ⟨fun h => absurd (Language.nil_mem_kstar _) h, fun hexit q hle hlt => ?_⟩
    -- The entry of the body is grounded before anything is known of its exit, which leads back.
    have hentry : p.Grounded entry := grounded_of_decide hdecide (ih₁ hnil) hexit
    have hback : p.Grounded back := grounded_of_jump hjump hentry
    obtain rfl | rfl | ⟨hle, hlt⟩ : q = entry ∨ q = back ∨ entry + 1 ≤ q ∧ q < back := by omega
    · exact hentry
    · exact hback
    · exact ih₂ hback q hle hlt
  | @plus body greedy opened entry mid hbody hdecide ih =>
    obtain ⟨hnil, hloops⟩ := hloops
    obtain ⟨ih₁, ih₂⟩ := ih hloops
    refine ⟨fun _ => ih₁ hnil, fun hexit q hle hlt => ?_⟩
    have hmid : p.Grounded mid := grounded_of_decide hdecide (ih₁ hnil) hexit
    obtain rfl | hlt : q = mid ∨ q < mid := by omega
    · exact hmid
    · exact ih₂ hmid q hle hlt
  | @optional body greedy opened entry exit hdecide hbody ih =>
    obtain ⟨ih₁, ih₂⟩ := ih hloops
    refine ⟨fun h => absurd (Or.inl Language.nil_mem_one) h, fun hexit q hle hlt => ?_⟩
    obtain rfl | hle : q = entry ∨ entry + 1 ≤ q := by omega
    · exact grounded_of_decide hdecide (ih₂ hexit _ le_rfl hbody.entry_lt_exit) hexit
    · exact ih₂ hexit q hle hlt

/-- In the layout of a pattern whose loops consume something all positions are grounded. -/
theorem grounded_layout (hloops : e.LoopsConsume) (q : Nat) : (layout e).Grounded q := by
  have hexit : (layout e).Grounded e.codeSize := grounded_of_wait (getElem?_layout_codeSize e) rfl
  obtain hlt | rfl | hlt := Nat.lt_trichotomy q e.codeSize
  · exact ((implements_layout e).grounded hloops).2 hexit q (Nat.zero_le q) hlt
  · exact hexit
  · exact grounded_of_size_le (by rwa [size_layout])

end Lockstep.Program

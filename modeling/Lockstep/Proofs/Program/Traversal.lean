import Lockstep.Proofs.Machine.DepthFirst
import Lockstep.Proofs.Pattern.Groups
import Lockstep.Proofs.Program.Implements

/-!
# Paths through the code of a pattern

An accepting path that comes to the code of a pattern gets through it in one of the ways that the
pattern has, and goes on at its exit. Each iteration of a loop makes a choice, so loops are taken
apart by the number of choices that are left.

* `Program.Finishes`: a thread accepts after a number of choices.
* `Program.Implements.exists_traverses`: a path through the code of a pattern.
* `Program.exists_traverses_layout`: a path through the layout of a pattern.
-/

namespace Lockstep.Program

/-- A thread that comes to position `q` as `a` accepts as `f` after `n` choices. -/
def Finishes (p : Program) (n q : Nat) (a : Attempt) (f : Found) : Prop :=
  ∃ entered choices, choices.length = n ∧
    Path p a.rest a.offset q a.slots entered choices f.finish f.slots

namespace Finishes

variable {p : Program} {n q target fst snd slot : Nat} {a : Attempt} {f : Found}
  (h : p.Finishes n q a f)
include h

theorem of_accept (hi : p.body[q]? = some .accept) : f = ⟨a.offset, a.slots⟩ := by
  obtain ⟨entered, choices, -, hpath⟩ := h
  obtain ⟨-, hfinish, hslots⟩ := (path_accept_iff hi hpath.exists_getElem.1).1 hpath
  rw [← hfinish, ← hslots]

theorem of_jump (hi : p.body[q]? = some (.jump target)) : p.Finishes n target a f := by
  obtain ⟨entered, choices, hn, hpath⟩ := h
  exact ⟨_, choices, hn, (path_jump_iff hi hpath.exists_getElem.1).1 hpath⟩

theorem of_save (hi : p.body[q]? = some (.save slot)) : p.Finishes n (q + 1) (a.save slot) f := by
  obtain ⟨entered, choices, hn, hpath⟩ := h
  exact ⟨_, choices, hn, (path_save_iff hi hpath.exists_getElem.1).1 hpath⟩

theorem of_split (hi : p.body[q]? = some (.split fst snd)) :
    ∃ m < n, p.Finishes m fst a f ∨ p.Finishes m snd a f := by
  obtain ⟨entered, choices, rfl, hpath⟩ := h
  rcases (path_split_iff hi hpath.exists_getElem.1).1 hpath with
    ⟨rest, rfl, hbehind⟩ | ⟨rest, rfl, hbehind⟩
  · exact ⟨rest.length, Nat.lt_succ_self _, Or.inl ⟨_, rest, rfl, hbehind⟩⟩
  · exact ⟨rest.length, Nat.lt_succ_self _, Or.inr ⟨_, rest, rfl, hbehind⟩⟩

theorem of_decide {greedy : Bool} {again onwards : Nat}
    (hi : p.body[q]? = some (.decide greedy again onwards)) :
    ∃ m < n, p.Finishes m again a f ∨ p.Finishes m onwards a f := by
  cases greedy with
  | true => exact h.of_split hi
  | false =>
    obtain ⟨m, hlt, hm⟩ := h.of_split (show p.body[q]? = some (.split onwards again) from hi)
    exact ⟨m, hlt, hm.symm⟩

theorem of_atom {atom : Atom} (hi : p.body[q]? = some atom.instruction) (opened : Nat) :
    ∃ b, (Pattern.atom atom).Traverses opened a b ∧ p.Finishes n (q + 1) b f := by
  obtain ⟨entered, choices, hn, hpath⟩ := h
  obtain ⟨he, i, hi', hwaits⟩ := hpath.exists_getElem
  obtain rfl := Option.some.inj (hi.symm.trans hi')
  rcases hwaits (atom.next?_instruction q) with haccept | ⟨cell, hcell, ha⟩
  · exact absurd haccept atom.instruction_ne_accept
  · obtain ⟨cells, offset, slots⟩ := a
    obtain ⟨rest, rfl⟩ := List.head?_eq_some_iff.1 hcell
    refine ⟨⟨rest, offset + cell.width, slots⟩, .atom ?_, [], choices, hn, ?_⟩
    · rwa [← atom.accepts_instruction]
    · exact (path_consume_iff hi he ha).1 hpath

end Finishes

variable {p : Program} {e : Pattern} {n opened entry exit : Nat} {a : Attempt} {f : Found}

/-- A path that comes to the code of a pattern gets through it. -/
theorem Implements.exists_traverses (h : p.Implements e opened entry exit)
    (hpath : p.Finishes n entry a f) :
    ∃ m ≤ n, ∃ b, e.Traverses opened a b ∧ p.Finishes m exit b f := by
  induction h generalizing n a with
  | @atom atom opened entry hi =>
    obtain ⟨b, hb, hpath⟩ := hpath.of_atom hi opened
    exact ⟨n, le_rfl, b, hb, hpath⟩
  | group hopen hbody hclose ih =>
    obtain ⟨m, hle, b, hb, hpath⟩ := ih (hpath.of_save hopen)
    exact ⟨m, hle, _, .group hb, hpath.of_save hclose⟩
  | concat hfirst hsecond ih₁ ih₂ =>
    obtain ⟨m, hle, b, hb, hpath⟩ := ih₁ hpath
    obtain ⟨k, hle', c, hc, hpath⟩ := ih₂ hpath
    exact ⟨k, hle'.trans hle, c, .concat hb hc, hpath⟩
  | alternate hsplit hfirst hjump hsecond ih₁ ih₂ =>
    obtain ⟨m, hlt, hpath | hpath⟩ := hpath.of_split hsplit
    · obtain ⟨k, hle, b, hb, hpath⟩ := ih₁ hpath
      exact ⟨k, hle.trans hlt.le, b, .left hb, hpath.of_jump hjump⟩
    · obtain ⟨k, hle, b, hb, hpath⟩ := ih₂ hpath
      exact ⟨k, hle.trans hlt.le, b, .right hb, hpath⟩
  | @star body greedy opened entry back hdecide hbody hjump ih =>
    induction n using Nat.strongRecOn generalizing a with
    | ind n again =>
      obtain ⟨m, hlt, hpath | hpath⟩ := hpath.of_decide hdecide
      · obtain ⟨k, hle, b, hb, hpath⟩ := ih hpath
        obtain ⟨l, hle', c, hc, hpath⟩ := again k (hle.trans_lt hlt) (hpath.of_jump hjump)
        exact ⟨l, hle'.trans (hle.trans hlt.le), c, .again hb hc, hpath⟩
      · exact ⟨m, hlt.le, a, .done, hpath⟩
  | @plus body greedy opened entry mid hbody hdecide ih =>
    -- The loop begins at the decision behind the first occurrence of the body.
    have hloop (n : Nat) (a : Attempt) (hpath : p.Finishes n mid a f) : ∃ m ≤ n, ∃ b,
        (Pattern.repeated body .star greedy).Traverses opened a b ∧
          p.Finishes m (mid + 1) b f := by
      induction n using Nat.strongRecOn generalizing a with
      | ind n again =>
        obtain ⟨m, hlt, hpath | hpath⟩ := hpath.of_decide hdecide
        · obtain ⟨k, hle, b, hb, hpath⟩ := ih hpath
          obtain ⟨l, hle', c, hc, hpath⟩ := again k (hle.trans_lt hlt) b hpath
          exact ⟨l, hle'.trans (hle.trans hlt.le), c, .again hb hc, hpath⟩
        · exact ⟨m, hlt.le, a, .done, hpath⟩
    obtain ⟨m, hle, b, hb, hpath⟩ := ih hpath
    obtain ⟨k, hle', c, hc, hpath⟩ := hloop m b hpath
    exact ⟨k, hle'.trans hle, c, .plus hb hc, hpath⟩
  | optional hdecide hbody ih =>
    obtain ⟨m, hlt, hpath | hpath⟩ := hpath.of_decide hdecide
    · obtain ⟨k, hle, b, hb, hpath⟩ := ih hpath
      exact ⟨k, hle.trans hlt.le, b, .present hb, hpath⟩
    · exact ⟨m, hlt.le, a, .absent, hpath⟩

/-- What is found in the layout of a pattern is found on a way through the pattern. -/
theorem exists_traverses_layout
    (h : f ∈ (layout e).explore a.rest a.offset ⟨0, a.slots⟩ []) :
    ∃ b, e.Traverses 0 a b ∧ f = ⟨b.offset, b.slots⟩ := by
  obtain ⟨runs, hmap, -, hmem⟩ := (layout e).exists_runs a.rest a.offset ⟨0, a.slots⟩ []
  obtain ⟨⟨choices, g⟩, hrun, rfl⟩ := List.mem_map.1 (hmap ▸ h)
  obtain ⟨m, -, b, hb, hpath⟩ := (implements_layout e).exists_traverses
    ⟨[], choices, rfl, (hmem choices g).1 hrun⟩
  exact ⟨b, hb, hpath.of_accept (getElem?_layout_codeSize e)⟩

end Lockstep.Program

import Lockstep.Proofs.Pattern.Backtracking
import Lockstep.Proofs.Program.LoopsConsume
import Lockstep.Proofs.Regex.Build

/-!
# Matching and backtracking

If the loops of a pattern consume something, then the exploration of its code is the plain search
by backtracking: the matches found from the entry of the code are those found from its exit, in the
situation of one attempt after the other.

* `Program.Implements.search_eq`: the search through the code of a pattern.
* `Program.search_layout`: the matches found in a layout.
* `Regex.execInto_eq_backtrack`: the answer of a regex.
-/

namespace Lockstep

namespace Program

variable {p : Program}

/-- A search through the code of a pattern goes on at its exit, behind one attempt after the other.
-/
theorem Implements.search_eq {e : Pattern} {opened entry exit : Nat}
    (h : p.Implements e opened entry exit) (hp : ∀ q, p.Grounded q) (hloops : e.LoopsConsume)
    (a : Attempt) : p.search entry a = (e.attempts opened a).flatMap (p.search exit) := by
  induction h generalizing a with
  | atom hi => exact search_atom hi
  | @group body opened entry mid hopen hbody hclose ih =>
    rw [search_save (hp _) hopen, ih hloops, Pattern.attempts, List.flatMap_map]
    exact List.flatMap_congr fun b _ => search_save (hp _) hclose
  | concat hfirst hsecond ih₁ ih₂ =>
    rw [ih₁ hloops.1, Pattern.attempts, List.flatMap_assoc]
    exact List.flatMap_congr fun b _ => ih₂ hloops.2 b
  | @alternate first second opened entry mid exit hsplit hfirst hjump hsecond ih₁ ih₂ =>
    have hmid : p.search mid = p.search exit := funext fun b => search_jump (hp _) hjump
    rw [search_split (hp _) hsplit, ih₁ hloops.1, ih₂ hloops.2, hmid, Pattern.attempts,
      List.flatMap_append]
  | @star body greedy opened entry back hdecide hbody hjump ih =>
    obtain ⟨hnil, hloops⟩ := hloops
    have hback : p.search back = p.search entry := funext fun b => search_jump (hp _) hjump
    -- Searches from the decision in front of the body satisfy the equation of the loop.
    refine Attempt.flatMap_iterate (fun a b hb => (Pattern.length_rest_attempts hb).2 hnil)
      (fun a => ?_) a
    rw [search_decide (hp _) hdecide, ih hloops, hback]
  | @plus body greedy opened entry mid hbody hdecide ih =>
    obtain ⟨hnil, hloops⟩ := hloops
    -- Here it is the searches from the decision behind the body.
    have hmid : p.search mid = fun a =>
        (a.iterate (body.attempts opened) greedy).flatMap (p.search (mid + 1)) := by
      refine funext fun a => Attempt.flatMap_iterate
        (fun a b hb => (Pattern.length_rest_attempts hb).2 hnil) (fun a => ?_) a
      rw [search_decide (hp _) hdecide, ih hloops]
    rw [ih hloops, hmid, Pattern.attempts, List.flatMap_assoc]
  | @optional body greedy opened entry exit hdecide hbody ih =>
    rw [search_decide (hp _) hdecide, ih hloops, Pattern.attempts]
    cases greedy with
    | true => simp
    | false => simp

/-- The layout of a pattern finds the ends of its attempts, in their order. -/
theorem search_layout {e : Pattern} (hloops : e.LoopsConsume) (a : Attempt) :
    (layout e).search 0 a = (e.attempts 0 a).map fun b => ⟨b.offset, b.slots⟩ := by
  rw [(implements_layout e).search_eq (grounded_layout hloops) hloops, List.map_eq_flatMap]
  exact List.flatMap_congr fun b _ => search_accept (getElem?_layout_codeSize e)

end Program

namespace Regex

/-- If the loops of a pattern consume something, then a regex built from it gives the end and the
slots of the first match by backtracking, and keeps the given slots if there is none. A limit on the
size of programs is a machine word. -/
theorem execInto_eq_backtrack {options : Options} {pattern : Text} {re : Regex} {e : Pattern}
    (h : build options (.pattern pattern) = .ok re) (hlimit : options.sizeLimit ≤ maxWord)
    (he : Pattern.ofText pattern = .ok e) (hloops : e.LoopsConsume) (s : Searching re)
    (slots : Slots) (t : Text) :
    ((re.execInto slots t).run s).1 = match e.backtrack t.cells 0 with
      | some found => (some found.finish, found.slots)
      | none => (none, slots) := by
  obtain ⟨e, he', hsize, rfl⟩ := build_pattern_eq_ok_iff.1 h
  obtain rfl := Except.ok.inj (he.symm.trans he')
  have hmatch : firstMatch ⟨some pattern.asString, .layout e, options.tracing⟩ t =
      e.backtrack t.cells 0 := by
    have hslots : (Program.layout e).slotCount = 2 * e.groupCount :=
      Program.slotCount_layout (by omega)
    rw [firstMatch, hslots, Pattern.backtrack, ← List.head?_map, ← Program.search_layout hloops]
    rfl
  cases hfound : e.backtrack t.cells 0 with
  | none => rw [execInto_eq, hmatch, hfound]
  | some found => rw [execInto_eq, hmatch, hfound]

/-- Alternatives, groups and a loop together. -/
theorem execInto_alternatives_in_loop :
    ∃ re e, build {} (.pattern (.wide "(a|ab)(c|bcd)*?d")) = .ok re ∧
      Pattern.ofText (.wide "(a|ab)(c|bcd)*?d") = .ok e ∧ e.LoopsConsume ∧
      ((re.execInto #[] (.wide "abcd")).run (.initial re)).1 =
        match e.backtrack (Text.wide "abcd").cells 0 with
        | some found => (some found.finish, found.slots)
        | none => (none, #[]) := by
  let literal (c : Char) : Pattern := .atom (.literal c)
  let choice : Pattern := .alternate (literal 'a') (.concat (literal 'a') (literal 'b'))
  let body : Pattern := .alternate (literal 'c')
    (.concat (literal 'b') (.concat (literal 'c') (literal 'd')))
  let e : Pattern := .concat (.group choice)
    (.concat (.repeated (.group body) .star false) (literal 'd'))
  have he : Pattern.ofText (.wide "(a|ab)(c|bcd)*?d") = .ok e := rfl
  have hbuild : build {} (.pattern (.wide "(a|ab)(c|bcd)*?d")) =
      .ok ⟨some "(a|ab)(c|bcd)*?d", .layout e, false⟩ :=
    build_pattern_eq_ok_iff.2 ⟨e, he, by decide, rfl⟩
  have hloops : e.LoopsConsume := by decide
  exact ⟨_, e, hbuild, he, hloops,
    execInto_eq_backtrack hbuild (by decide) he hloops (.initial _) #[] (.wide "abcd")⟩

end Regex

end Lockstep

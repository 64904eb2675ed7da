import Lockstep.Proofs.Failure
import Lockstep.Proofs.Program.Traversal
import Lockstep.Proofs.Regex.Backtracking
import Lockstep.Proofs.Text.Boundary
import Lockstep.Regex.Captures

/-!
# Captures of patterns

What a regex built from a pattern reports for its groups is in order: each group has two boundaries
or none, those of a group enclose a word of its body, and a group has them if a group in its body
has. So every part of the text that captures refer to is there.

* `Captures.WellFormed`: captures of a pattern that are in order.
* `Captures.WellFormed.groupText_eq_ok`, `Captures.WellFormed.exists_substrings?`: the texts of
  groups.
* `Regex.captures_wellFormed`: the captures of a run.
-/

namespace Lockstep

/-- Offsets that enclose a word among some cells of a text are boundaries, and the part of the text
between them is that word. -/
theorem Spans.exists_slice? {t : Text} {before passed rest : List Cell} {l : Language Char}
    {a b : Nat} (hcells : t.cells = before ++ (passed ++ rest))
    (h : Spans (totalWidth before) passed l a b) :
    totalWidth before ≤ a ∧ a ≤ b ∧ b ≤ totalWidth before + totalWidth passed ∧
      t.IsBoundary a ∧ t.IsBoundary b ∧
        ∃ u, t.slice? a b = some u ∧ u.cells.map Cell.char ∈ l := by
  obtain ⟨front, word, back, rfl, rfl, rfl, hword⟩ := h
  have hparts : t.cells = before ++ front ++ word ++ (back ++ rest) := by
    rw [hcells]
    simp only [List.append_assoc]
  obtain ⟨u, hu, rfl⟩ := Text.slice?_eq_some hparts
  have hleft := Text.isBoundary_of_cells_eq (hparts.trans (List.append_assoc _ _ _))
  have hright := Text.isBoundary_of_cells_eq hparts
  rw [totalWidth_append] at hu hleft
  rw [totalWidth_append, totalWidth_append] at hright
  refine ⟨Nat.le_add_right _ _, Nat.le_add_right _ _, ?_, hleft, hright, u, hu, hword⟩
  rw [totalWidth_append, totalWidth_append]
  omega

namespace Captures

/-- Captures that are in order for the groups of a pattern. -/
structure WellFormed (c : Captures) (e : Pattern) : Prop where
  /-- There are two slots for each group. -/
  size_slots : c.slots.size = 2 * e.groupCount
  /-- The match is a part of the text. -/
  whole : ∃ u, c.whole.content? = some u ∧ u.cells.map Cell.char ∈ e.language
  /-- Both slots of a group hold none, or they enclose a word of its body within the match. -/
  group : ∀ k body, e.groups[k]? = some body → c.slots.Unset k ∨
    ∃ a b u, c.slots.Holds k a b ∧ c.start ≤ a ∧ a ≤ b ∧ b ≤ c.finish ∧ c.text.IsBoundary a ∧
      c.text.IsBoundary b ∧ c.text.slice? a b = some u ∧ u.cells.map Cell.char ∈ body.language
  /-- A group around one that took part in the match took part as well. -/
  enclosing : ∀ j k, e.Encloses j k → (∃ a b, c.slots.Holds k a b) → ∃ a b, c.slots.Holds j a b

namespace WellFormed

variable {c : Captures} {e : Pattern} (h : c.WellFormed e)
include h

/-- The range of a group is a part of the text. -/
theorem exists_content? {index : Nat} {m : Match} (hm : c.group? index = some m) :
    ∃ u, m.content? = some u := by
  cases index with
  | zero =>
    obtain rfl := Option.some.inj hm
    obtain ⟨u, hu, -⟩ := h.whole
    exact ⟨u, hu⟩
  | succ k =>
    by_cases hk : k < e.groups.length
    · rcases h.group k _ (List.getElem?_eq_getElem hk) with
        hunset | ⟨a, b, u, hab, -, -, -, -, -, hu, -⟩
      · simp [group?, hunset.1, slotWord] at hm
      · simp only [group?, hab.1, hab.2] at hm
        split at hm
        case isTrue => cases hm
        case isFalse =>
          obtain rfl := Option.some.inj hm
          exact ⟨u, hu⟩
    · have hnone : c.slots[2 * k]? = none := by
        rw [Pattern.length_groups] at hk
        exact Array.getElem?_eq_none (by rw [h.size_slots]; omega)
      simp [group?, hnone] at hm

/-- The text of a group that took part in the match can be shown. -/
theorem groupText_eq_ok {index : Nat} {m : Match} (hm : c.group? index = some m) :
    ∃ u, c.groupText index = .ok u := by
  obtain ⟨u, hu⟩ := h.exists_content? hm
  exact ⟨u, by rw [groupText, hm]; simp [hu]⟩

/-- The texts of all groups can be shown. -/
theorem exists_substrings? : ∃ texts, c.substrings? = some texts := by
  refine ⟨c.groups.tail.map (·.bind Match.content?), mapM_eq_some_map fun group hgroup => ?_⟩
  obtain ⟨index, -, rfl⟩ := List.mem_map.1 (List.mem_of_mem_tail hgroup)
  cases hm : c.group? index with
  | none => rfl
  | some m =>
    obtain ⟨u, hu⟩ := h.exists_content? hm
    rw [Option.bind_some, hu]
    exact congrArg (Option.map some) hu

end WellFormed

end Captures

namespace Regex

theorem fst_runFrom_cellsFrom (re : Regex) (s : Searching re) (t : Text) (start : Nat) :
    ((re.runFrom (t.cellsFrom start) start).run s).1 = (re.program.explore (t.cellsFrom start) start
      ⟨0, Array.replicate re.program.slotCount none⟩ []).head? :=
  re.program.found_runFrom s.scheduler _ start fun _ => Text.width_pos_of_mem_cellsFrom

section Pattern

variable {options : Options} {pattern t : Text} {re : Regex}
  (h : build options (.pattern pattern) = .ok re) (hlimit : options.sizeLimit ≤ maxWord)
  (s : Searching re) {start : Nat} (hstart : t.IsBoundary start)
include h hlimit hstart

/-- The captures of a run from a boundary are in order. A limit on the size of programs is a machine
word. -/
theorem wellFormed_of_runFrom {f : Found}
    (hf : ((re.runFrom (t.cellsFrom start) start).run s).1 = some f) :
    ∃ e, Pattern.ofText pattern = .ok e ∧ Captures.WellFormed ⟨t, start, f.finish, f.slots⟩ e := by
  obtain ⟨e, he, hsize, rfl⟩ := build_pattern_eq_ok_iff.1 h
  have hslots : (Program.layout e).slotCount = 2 * e.groupCount :=
    Program.slotCount_layout (by omega)
  rw [fst_runFrom_cellsFrom, hslots] at hf
  let a : Attempt := ⟨t.cellsFrom start, start, Array.replicate (2 * e.groupCount) none⟩
  have hunset (k : Nat) (hk : k < 0 + e.groupCount) : Slots.Unset a.slots k :=
    ⟨Array.getElem?_replicate.trans (if_pos (by omega)),
      Array.getElem?_replicate.trans (if_pos (by omega))⟩
  obtain ⟨b, hb, rfl⟩ := Program.exists_traverses_layout (a := a) (List.mem_of_mem_head? hf)
  obtain ⟨word, hword, hrecorded⟩ := @Pattern.Traverses.recorded _ _ _ _ hb start [] rfl
    (by simp [a]) (recorded_of_unset fun k _ hk => hunset k hk)
  obtain ⟨before, hcells, hwidth⟩ := Text.cells_eq_append hstart
  have hrest : t.cells = before ++ (word ++ b.rest) := by rw [← hword.rest_eq, ← hcells]
  subst hwidth
  have hfinish : b.offset = totalWidth before + totalWidth word := hword.offset_eq
  refine ⟨e, he, ?_, ?_, fun k body hk => ?_, ?_⟩
  · rw [hb.sameOutside.size_eq, Array.size_replicate]
  · have hspan : Spans (totalWidth before) word e.language (totalWidth before) b.offset :=
      ⟨[], word, [], (List.append_nil _).symm, rfl, hfinish, hword.mem⟩
    exact (hspan.exists_slice? hrest).2.2.2.2.2
  · rcases hrecorded.of_getElem? hk with ⟨hnone, -⟩ | ⟨a, b', hab, hspan⟩
    · rw [Nat.zero_add] at hnone
      exact Or.inl hnone
    · obtain ⟨hstart, hle, hend, hleft, hright, u, hu, hmem⟩ := hspan.exists_slice? hrest
      rw [Nat.zero_add] at hab
      exact Or.inr ⟨a, b', u, hab, hstart, hle, hend.trans_eq hfinish.symm, hleft, hright, hu, hmem⟩
  · rintro j k ⟨body, hbody, hlt, hle⟩ ⟨a, b', hab⟩
    rcases hrecorded.of_getElem? hbody with ⟨-, hinner⟩ | ⟨a, b', hab, -⟩
    · have hnone := hinner k (by omega) (by omega)
      cases hnone.1.symm.trans hab.1
    · rw [Nat.zero_add] at hab
      exact ⟨a, b', hab⟩

/-- **Captures.** If a regex built from a pattern matches at a boundary, then its captures are in
order, and the texts of the match and of the groups that took part in it can be shown. -/
theorem captures_wellFormed {f : Found}
    (hf : ((re.runFrom (t.cellsFrom start) start).run s).1 = some f) :
    ∃ e, Pattern.ofText pattern = .ok e ∧
      let c : Captures := ⟨t, start, f.finish, f.slots⟩
      c.WellFormed e ∧ (∃ texts, c.substrings? = some texts) ∧
        ∀ index m, c.group? index = some m → ∃ u, c.groupText index = .ok u := by
  obtain ⟨e, he, hc⟩ := wellFormed_of_runFrom h hlimit s hstart hf
  exact ⟨e, he, hc, hc.exists_substrings?, fun _ _ => hc.groupText_eq_ok⟩

end Pattern

/-- A group in a group, and two that may be left out. -/
theorem captures_wellFormed_optional_groups :
    ∃ re f e, build {} (.pattern (.wide "(a(b)?)(c)?")) = .ok re ∧
      ((re.runFrom ((Text.wide "zac").cellsFrom 1) 1).run (.initial re)).1 = some f ∧
      Pattern.ofText (.wide "(a(b)?)(c)?") = .ok e ∧
      let c : Captures := ⟨.wide "zac", 1, f.finish, f.slots⟩
      c.WellFormed e ∧ (∃ texts, c.substrings? = some texts) ∧
        ∀ index m, c.group? index = some m → ∃ u, c.groupText index = .ok u := by
  let literal (c : Char) : Pattern := .atom (.literal c)
  let perhaps (e : Pattern) : Pattern := .repeated (.group e) .optional true
  let e : Pattern := .concat (.group (.concat (literal 'a') (perhaps (literal 'b'))))
    (perhaps (literal 'c'))
  let re : Regex := ⟨some "(a(b)?)(c)?", .layout e, false⟩
  have hbuild : build {} (.pattern (.wide "(a(b)?)(c)?")) = .ok re :=
    build_pattern_eq_ok_iff.2 ⟨e, rfl, by decide, rfl⟩
  have hslots : re.program.slotCount = 6 := Program.slotCount_layout (e := e) (by decide)
  have hrun : ((re.runFrom ((Text.wide "zac").cellsFrom 1) 1).run (.initial re)).1 =
      some ⟨3, #[some 1, some 2, none, none, some 2, some 3]⟩ := by
    rw [fst_runFrom_cellsFrom, hslots]
    show ((Program.layout e).search 0 ⟨(Text.wide "zac").cellsFrom 1, 1, _⟩).head? = _
    rw [Program.search_layout (by decide)]
    rfl
  have hstart : (Text.wide "zac").IsBoundary 1 := by rw [Text.IsBoundary]; rfl
  obtain ⟨e', he', hc⟩ := captures_wellFormed hbuild (by decide) (.initial re) hstart hrun
  exact ⟨re, _, e', hbuild, hrun, he', hc⟩

end Regex

end Lockstep

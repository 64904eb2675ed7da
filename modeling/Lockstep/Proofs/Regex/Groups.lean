import Lockstep.Proofs.Program.Slots
import Lockstep.Proofs.Regex.Leftmost
import Lockstep.Regex.Session

/-!
# The groups of captures

Captures that a search answers have two slots for each group of the program, so every group can be
looked up, whatever its number: no number leaves the range of a machine word, and a group with a
first slot has a second one. Going through the groups from both ends gives each of them once.

* `Regex.Answers`: captures are the answer to a search.
* `Captures.lookUp_eq_ok`: looking up a group with machine words never fails.
* `Captures.exists_group?_succ`, `Captures.group?_eq_none`: what is stored for a group.
* `Session.getElem?_take`, `Session.exists_takenFrom`: what a cursor gives from either end.
* `Regex.groups_of_answer`: all of it.
-/

namespace Lockstep

/-! ### One group -/

namespace Captures

variable {c : Captures} (heven : 2 ∣ c.slots.size)
include heven

/-- Looking up a group with machine words neither leaves their range nor misses a slot. -/
theorem lookUp_eq_ok (hsize : c.slots.size < maxWord) (index : Nat) :
    c.lookUp index = .ok (c.group? index) := by
  cases index with
  | zero => rfl
  | succ i =>
    by_cases hi : 2 * i < c.slots.size
    · -- Since slots come in pairs, the one behind the first is there.
      have hi' : 2 * i + 1 < c.slots.size := by omega
      have hword : min (2 * i) maxWord = 2 * i := by omega
      simp only [lookUp, group?, hword, Array.getElem?_eq_getElem hi,
        Array.getElem?_eq_getElem hi', Option.join_some,
        if_neg (show ¬ maxWord < 2 * i + 1 by omega)]
      split <;> rfl
    · have hslot : c.slots.size ≤ min (2 * i) maxWord := by omega
      simp only [lookUp, group?, Array.getElem?_eq_none hslot,
        Array.getElem?_eq_none (Nat.le_of_not_lt hi)]

/-- There is nothing behind the last group. -/
theorem group?_eq_none {index : Nat} (h : c.groupCount ≤ index) : c.group? index = none := by
  rw [groupCount] at h
  obtain ⟨i, rfl⟩ := Nat.exists_eq_add_of_le' (Nat.le_trans (Nat.le_add_left 1 _) h)
  simp only [group?, Array.getElem?_eq_none (show c.slots.size ≤ 2 * i by omega)]

/-- A group has a pair of slots. It took no part in the match if the first of them is unset. -/
theorem exists_group?_succ {k : Nat} (h : k + 1 < c.groupCount) :
    ∃ opening closing, c.slots[2 * k]? = some opening ∧ c.slots[2 * k + 1]? = some closing ∧
      c.group? (k + 1) = if slotWord opening = unsetWord then none
        else some ⟨c.text, slotWord opening, slotWord closing⟩ := by
  rw [groupCount] at h
  have hopening := Array.getElem?_eq_getElem (show 2 * k < c.slots.size by omega)
  have hclosing := Array.getElem?_eq_getElem (show 2 * k + 1 < c.slots.size by omega)
  refine ⟨_, _, hopening, hclosing, ?_⟩
  simp only [group?, hopening, hclosing, Option.join_some]

end Captures

/-! ### All groups, from both ends -/

namespace Session

/-- A step of a cursor from one side. -/
def step (cursor : Captures.Cursor) : Side → Option (Option Match) × Captures.Cursor
  | .front => cursor.next
  | .back => cursor.nextBack

/-- The groups that have been taken from one side, in order. -/
def takenFrom (side : Side) (sides : List Side) (taken : List (Option (Option Match) × Nat)) :
    List (Option Match) :=
  (sides.zip taken).filterMap fun (s, group, _) => if s = side then group else none

theorem take_cons (cursor : Captures.Cursor) (side : Side) (sides : List Side) :
    take cursor (side :: sides) = ((step cursor side).1, (step cursor side).2.remaining) ::
      take (step cursor side).2 sides := by
  cases side <;> rfl

theorem takenFrom_cons (side s : Side) (sides : List Side) (group : Option (Option Match))
    (left : Nat) (taken : List (Option (Option Match) × Nat)) :
    takenFrom side (s :: sides) ((group, left) :: taken) =
      (if s = side then group else none).toList ++ takenFrom side sides taken := by
  rw [takenFrom, List.zip_cons_cons, List.filterMap_cons]
  cases h : (if s = side then group else none) <;> simp [h, takenFrom]

variable (c : Captures) {front back : Nat}

theorem step_front_of_lt (h : front < back) :
    step ⟨c, front, back⟩ .front = (some (c.group? front), ⟨c, front + 1, back⟩) := if_pos h

theorem step_back_of_lt (h : front < back) :
    step ⟨c, front, back⟩ .back = (some (c.group? (back - 1)), ⟨c, front, back - 1⟩) := if_pos h

/-- When the ends have met, nothing is left to be taken. -/
theorem step_of_le (h : back ≤ front) (side : Side) :
    step ⟨c, front, back⟩ side = (none, ⟨c, front, back⟩) := by
  cases side <;> exact if_neg (Nat.not_lt.2 h)

/-- **Step.** A step leaves one group fewer, and gives nothing just if none was left. -/
theorem remaining_step (cursor : Captures.Cursor) (side : Side) :
    (step cursor side).2.remaining = cursor.remaining - 1 ∧
      ((step cursor side).1 = none ↔ cursor.remaining = 0) := by
  obtain ⟨c, front, back⟩ := cursor
  by_cases h : front < back
  · cases side with
    | front =>
      rw [step_front_of_lt c h]
      simp only [Captures.Cursor.remaining, reduceCtorEq, false_iff]
      omega
    | back =>
      rw [step_back_of_lt c h]
      simp only [Captures.Cursor.remaining, reduceCtorEq, false_iff]
      omega
  · rw [step_of_le c (Nat.le_of_not_lt h)]
    simp only [Captures.Cursor.remaining, true_iff]
    omega

/-- **Run.** Each step says how many groups are left after it, and gives nothing just if as many
steps as there were groups have been made before. -/
theorem getElem?_take (cursor : Captures.Cursor) (sides : List Side) (k : Nat)
    {group : Option (Option Match)} {left : Nat}
    (h : (take cursor sides)[k]? = some (group, left)) :
    left = cursor.remaining - (k + 1) ∧ (group = none ↔ cursor.remaining ≤ k) := by
  induction sides generalizing cursor k with
  | nil => cases h
  | cons side sides ih =>
    obtain ⟨hremaining, hnone⟩ := remaining_step cursor side
    rw [take_cons] at h
    cases k with
    | zero =>
      obtain ⟨rfl, rfl⟩ := Prod.mk.inj (Option.some.inj h)
      rw [hremaining, hnone]
      omega
    | succ k =>
      obtain ⟨hleft, hgroup⟩ := ih _ k h
      rw [hleft, hgroup, hremaining]
      omega

theorem length_take (cursor : Captures.Cursor) (sides : List Side) :
    (take cursor sides).length = sides.length := by
  induction sides generalizing cursor with
  | nil => rfl
  | cons side sides ih => rw [take_cons, List.length_cons, List.length_cons, ih]

/-- **Run.** From the front the groups are taken in order, from the back in reverse, and together as
many of them as steps are made, until all are taken. -/
theorem exists_takenFrom (sides : List Side) (hle : front ≤ back) :
    let taken := take ⟨c, front, back⟩ sides
    ∃ i j, i + j = min sides.length (back - front) ∧
      takenFrom .front sides taken = (List.range i).map (fun k => c.group? (front + k)) ∧
      takenFrom .back sides taken = (List.range j).map (fun k => c.group? (back - 1 - k)) := by
  induction sides generalizing front back with
  | nil => exact ⟨0, 0, (Nat.zero_min _).symm, rfl, rfl⟩
  | cons side sides ih =>
    simp only [take_cons, takenFrom_cons]
    by_cases h : front < back
    · cases side with
      | front =>
        have hle : front + 1 ≤ back := h
        obtain ⟨i, j, hij, hfront, hback⟩ := ih hle
        refine ⟨i + 1, j, ?_, ?_, ?_⟩
        · rw [List.length_cons]
          omega
        · rw [step_front_of_lt c h, hfront, List.range_succ_eq_map, List.map_cons, List.map_map]
          refine congrArg (_ :: ·) (List.map_congr_left fun k _ => ?_)
          show c.group? (front + 1 + k) = c.group? (front + (k + 1))
          rw [Nat.add_assoc, Nat.add_comm 1 k]
        · rw [step_front_of_lt c h, hback]
          rfl
      | back =>
        have hle : front ≤ back - 1 := by omega
        obtain ⟨i, j, hij, hfront, hback⟩ := ih hle
        refine ⟨i, j + 1, ?_, ?_, ?_⟩
        · rw [List.length_cons]
          omega
        · rw [step_back_of_lt c h, hfront]
          rfl
        · rw [step_back_of_lt c h, hback, List.range_succ_eq_map, List.map_cons, List.map_map]
          refine congrArg (_ :: ·) (List.map_congr_left fun k _ => ?_)
          show c.group? (back - 1 - 1 - k) = c.group? (back - 1 - (k + 1))
          rw [Nat.sub_sub, Nat.add_comm 1 k]
    · obtain ⟨i, j, hij, hfront, hback⟩ := ih hle
      refine ⟨i, j, ?_, ?_, ?_⟩
      · rw [hij, List.length_cons]
        omega
      · rw [step_of_le c (Nat.le_of_not_lt h), hfront, ite_self]
        rfl
      · rw [step_of_le c (Nat.le_of_not_lt h), hback, ite_self]
        rfl

end Session

/-! ### Captures that are answered -/

namespace Regex

variable {re : Regex} {c : Captures}

/-- Captures are what a search answers, at the start of a text or from an offset on, whatever has
been searched before. -/
def Answers (re : Regex) (c : Captures) : Prop :=
  ∃ (t : Text) (s : Searching re), ((re.captures t).run s).1 = some c ∨
    ∃ pos, ((re.capturesAt t pos).run s).1 = some c

/-- Captures that are answered hold the match of a run, with its slots. -/
theorem Answers.exists_run (h : re.Answers c) :
    ∃ f, (re.program.run c.text c.start).found = some f ∧ f.finish = c.finish ∧
      f.slots = c.slots := by
  obtain ⟨t, s, hs | ⟨pos, hs⟩⟩ := h
  · rw [(re.yields_captures t).fst_run s] at hs
    obtain ⟨f, hf, rfl⟩ := Option.map_eq_some_iff.1 hs
    exact ⟨f, hf, rfl, rfl⟩
  · by_cases hpos : t.IsBoundary pos
    · obtain ⟨answer, lines, hscan, hleftmost⟩ := re.exists_yields_scan_leftmost hpos
      rw [(yields_capturesAt hscan).fst_run s] at hs
      obtain ⟨⟨start, f⟩, rfl, rfl⟩ := Option.map_eq_some_iff.1 hs
      exact ⟨f, hleftmost.1, rfl, rfl⟩
    · rw [(yields_capturesAt (re.yields_scan_of_not_isBoundary hpos)).fst_run s, Option.map_map]
        at hs
      obtain ⟨f, hf, rfl⟩ := Option.map_eq_some_iff.1 hs
      exact ⟨f, hf, rfl, rfl⟩

/-- **Groups.** Captures that are answered have two slots for each group of the program. Looking up
a group never fails, whatever its number: group zero is the whole match, there is nothing behind the
last group, and any other group has the pair of its slots, or nothing if the first of them is unset.
A cursor over the groups gives those at its front in order and those at its back in reverse, each of
them once, always says how many are left, and gives nothing more once none is. -/
theorem groups_of_answer (h : re.Answers c) :
    (∃ f, (re.program.run c.text c.start).found = some f ∧ f.finish = c.finish ∧
      f.slots = c.slots) ∧
    c.slots.size = re.program.slotCount ∧ c.groupCount = re.groupCount ∧
    re.groupCount = re.program.slotCount / 2 + 1 ∧
    (∀ index, c.lookUp index = .ok (c.group? index)) ∧
    c.group? 0 = some ⟨c.text, c.start, c.finish⟩ ∧
    (∀ index, c.groupCount ≤ index → c.group? index = none) ∧
    (∀ k, k + 1 < c.groupCount →
      ∃ opening closing, c.slots[2 * k]? = some opening ∧ c.slots[2 * k + 1]? = some closing ∧
        c.group? (k + 1) = if slotWord opening = unsetWord then none
          else some ⟨c.text, slotWord opening, slotWord closing⟩) ∧
    c.cursor.remaining = c.groupCount ∧
    ∀ sides, let taken := Session.take c.cursor sides
      taken.length = sides.length ∧
      (∀ k group left, taken[k]? = some (group, left) →
        left = c.groupCount - (k + 1) ∧ (group = none ↔ c.groupCount ≤ k)) ∧
      ∃ i j, i + j = min sides.length c.groupCount ∧
        Session.takenFrom .front sides taken = (List.range i).map c.group? ∧
        Session.takenFrom .back sides taken =
          (List.range j).map fun k => c.group? (c.groupCount - 1 - k) := by
  obtain ⟨f, hf, hfinish, hslots⟩ := h.exists_run
  have hsize : c.slots.size = re.program.slotCount := by
    rw [← hslots]
    exact re.program.size_slots_of_run hf
  have heven : 2 ∣ c.slots.size := hsize ▸ re.program.two_dvd_slotCount
  have hlt : c.slots.size < maxWord := hsize ▸ re.program.slotCount_lt_maxWord
  refine ⟨⟨f, hf, hfinish, hslots⟩, hsize, by rw [Captures.groupCount, hsize]; rfl, rfl,
    Captures.lookUp_eq_ok heven hlt, rfl, fun _ => Captures.group?_eq_none heven,
    fun _ => Captures.exists_group?_succ heven, rfl, fun sides => ?_⟩
  obtain ⟨i, j, hij, hfront, hback⟩ := Session.exists_takenFrom c sides (Nat.zero_le c.groupCount)
  refine ⟨Session.length_take _ _, fun k group left => Session.getElem?_take c.cursor sides k,
    i, j, hij, hfront.trans ?_, hback⟩
  simp only [Nat.zero_add]

/-- One group without its second slot, one without its first, and more steps than groups. -/
theorem groups_of_answer_half_open :
    let re : Regex := ⟨none, .ofBody #[.save 0, .char 'a', .save 3, .accept], false⟩
    let c : Captures := ⟨.wide "éa", 2, 3, #[some 2, none, none, some 3]⟩
    re.Answers c ∧ c.groupCount = re.groupCount ∧ re.groupCount = 3 ∧
      c.lookUp 1 = .ok (some ⟨.wide "éa", 2, maxWord⟩) ∧ c.lookUp 2 = .ok none ∧
      c.lookUp maxWord = .ok none ∧
      Session.take c.cursor [.back, .front, .back, .back] =
        [(some none, 2), (some (some ⟨.wide "éa", 2, 3⟩), 1),
          (some (some ⟨.wide "éa", 2, maxWord⟩), 0), (none, 0)] := by
  intro re c
  have h : re.Answers c := ⟨.wide "éa", .initial re, Or.inr ⟨0, by decide +kernel⟩⟩
  obtain ⟨-, -, hcount, hslots, hlookUp, -, hnone, -⟩ := groups_of_answer h
  have hword : c.group? maxWord = none := hnone _ (by decide)
  refine ⟨h, hcount, hslots.trans (by decide), ?_, ?_, ?_, by decide⟩
  · rw [hlookUp]
    rfl
  · rw [hlookUp]
    rfl
  · rw [hlookUp, hword]

end Regex

end Lockstep

import Lockstep.Proofs.Program.Emission
import Lockstep.Proofs.Program.Slots

/-!
# Linking

Linking gives every label a position and thereby turns the chain of a pattern into its layout. What
the layout looks like is read off the code of the pattern: its targets stay inside, nothing in it
accepts, and every slot of a group is saved to once.

* `Chain.getElem?_positions`: each label is placed at the index of its fragment.
* `Chain.link_of_emits`: a chain that has been built is linked into its code.
* `Pattern.targets_code`, `Pattern.accept_notMem_code`, `Pattern.count_save_code`: what the code of
  a pattern contains.
* `Program.lt_size_layout`, `Program.slot_lt_of_mem_layout`: the positions and the slots in a
  layout.
* `Program.slotCount_layout`: how many slots a thread carries.
* `Program.ofPattern_eq`, `Program.ofPattern_eq_layout`: the program of a pattern.
-/

namespace Lockstep

/-! ### Positions of labels -/

namespace Chain

/-- Placing fragments with distinct labels in an array gives each label the index of its fragment,
and leaves the rest of the array as it is. -/
theorem foldl_setIfInBounds (fragments : List Fragment) (start : Nat) (placed : Array Nat)
    (hnodup : (fragments.map Fragment.label).Nodup)
    (hlt : ∀ f ∈ fragments, f.label < placed.size) :
    let result := (fragments.zipIdx start).foldl
      (fun placed (f, ix) => placed.setIfInBounds f.label ix) placed
    (∀ l ∉ fragments.map Fragment.label, result[l]? = placed[l]?) ∧
      ∀ k (hk : k < fragments.length), result[fragments[k].label]? = some (start + k) := by
  induction fragments generalizing start placed with
  | nil => simp
  | cons f fragments ih =>
    rw [List.map_cons, List.nodup_cons] at hnodup
    obtain ⟨hnotMem, hnodup⟩ := hnodup
    obtain ⟨hrest, hplaced⟩ := ih (start + 1) (placed.setIfInBounds f.label start) hnodup
      (by simpa using fun g hg => hlt g (List.mem_cons_of_mem _ hg))
    rw [List.zipIdx_cons, List.foldl_cons]
    refine ⟨fun l hl => ?_, fun k hk => ?_⟩
    · rw [List.map_cons, List.mem_cons, not_or] at hl
      rw [hrest l hl.2, Array.getElem?_setIfInBounds_ne (Ne.symm hl.1)]
    · cases k with
      | zero =>
        rw [List.getElem_cons_zero, hrest _ hnotMem, Array.getElem?_setIfInBounds_self,
          if_pos (hlt f List.mem_cons_self)]
        rfl
      | succ k =>
        rw [List.getElem_cons_succ, hplaced k (Nat.lt_of_succ_lt_succ hk)]
        congr 1
        omega

/-- Each label is placed at the index of its fragment. -/
theorem getElem?_positions {labels : Labels} {fragments : List Fragment}
    (hnodup : (fragments.map Fragment.label).Nodup)
    (hlt : ∀ f ∈ fragments, f.label < labels.size) {k : Nat} (hk : k < fragments.length) :
    (positions labels fragments)[fragments[k].label]? = some k := by
  have h := (foldl_setIfInBounds fragments 0 (Array.replicate labels.size fragments.length)
    hnodup (by simpa using hlt)).2 k hk
  rwa [Nat.zero_add] at h

theorem map_fragments (c : Chain) (π : Nat → Nat) :
    c.fragments.map (·.instruction.mapTargets π) =
      c.code.map (·.instruction.mapTargets π) ++ [Instruction.accept] := by
  simp [fragments, Instruction.mapTargets]

/-- A chain that has been built is linked into its code, with an `accept` behind it. -/
theorem link_of_emits {n : Nat} {f : Nat → List Instruction} {c : Chain} {labels : Labels}
    (h : Emits n f .none c labels) : c.link labels = (f 0 ++ [Instruction.accept]).toArray := by
  have hsettled : labels.Settled := h.grows.settled Labels.settled_none
  have hnodup := h.grows.nodup
  have hbounds := h.grows.mem_bounds
  have hfinal := h.grows.isFinal
  rw [Chain.labels_eq_map] at hnodup hbounds hfinal
  show Array.mk (c.fragments.map _) = _
  rw [map_fragments, h.code_eq _ 0 ?_ ?_]
  · intro l _ _
    simp only [hsettled.resolve_apply]
  · refine placed_of_getElem fun k hk => ?_
    simp only [Chain.labels_eq_map, List.getElem_map] at hk ⊢
    rw [List.length_map] at hk
    have hmem : c.fragments[k].label ∈ c.fragments.map Fragment.label :=
      List.mem_map_of_mem (List.getElem_mem hk)
    rw [Labels.resolve_of_isFinal (hfinal _ hmem), getElem?_positions hnodup
      (fun f hf => (hbounds _ (List.mem_map_of_mem hf)).2) hk, Option.getD_some, Nat.zero_add]

end Chain

/-! ### The code of a pattern -/

namespace Instruction

theorem mem_targets_decide {greedy : Bool} {again onwards t : Nat} :
    t ∈ (decide greedy again onwards).targets ↔ t = again ∨ t = onwards := by
  cases greedy <;> simp [decide, targets, or_comm]

theorem accept_ne_decide (greedy : Bool) (again onwards : Nat) :
    accept ≠ decide greedy again onwards := by
  cases greedy <;> simp [decide]

theorem decide_ne_save (greedy : Bool) (again onwards slot : Nat) :
    decide greedy again onwards ≠ save slot := by
  cases greedy <;> simp [decide]

end Instruction

namespace Pattern

/-- The targets in the code of a pattern lie in it or right behind it. -/
theorem targets_code (e : Pattern) (base opened : Nat) :
    ∀ i ∈ e.code base opened, ∀ t ∈ i.targets, base ≤ t ∧ t ≤ base + e.codeSize := by
  induction e generalizing base opened with
  | atom a =>
    intro i hi t ht
    rw [code, List.mem_singleton] at hi
    rw [hi, Instruction.targets_of_consumes a.consumes_instruction] at ht
    cases ht
  | group body ih =>
    intro i hi t ht
    simp only [code, List.cons_append, List.mem_cons, List.mem_append, List.not_mem_nil,
      or_false] at hi
    rcases hi with rfl | hi | rfl
    · cases ht
    · have := ih _ _ i hi t ht
      rw [codeSize]
      omega
    · cases ht
  | concat first second ih₁ ih₂ =>
    intro i hi t ht
    rw [code, List.mem_append] at hi
    rw [codeSize]
    rcases hi with hi | hi
    · have := ih₁ _ _ i hi t ht
      omega
    · have := ih₂ _ _ i hi t ht
      omega
  | alternate first second ih₁ ih₂ =>
    intro i hi t ht
    simp only [code, List.cons_append, List.mem_cons, List.mem_append] at hi
    rw [codeSize]
    rcases hi with rfl | hi | rfl | hi
    · simp only [Instruction.targets, List.mem_cons, List.not_mem_nil, or_false] at ht
      omega
    · have := ih₁ _ _ i hi t ht
      omega
    · simp only [Instruction.targets, List.mem_cons, List.not_mem_nil, or_false] at ht
      omega
    · have := ih₂ _ _ i hi t ht
      omega
  | repeated body quantifier greedy ih =>
    intro i hi t ht
    cases quantifier with
    | star =>
      simp only [code, List.cons_append, List.mem_cons, List.mem_append, List.not_mem_nil,
        or_false] at hi
      rw [codeSize]
      rcases hi with rfl | hi | rfl
      · rw [Instruction.mem_targets_decide] at ht
        omega
      · have := ih _ _ i hi t ht
        omega
      · simp only [Instruction.targets, List.mem_cons, List.not_mem_nil, or_false] at ht
        omega
    | plus =>
      simp only [code, List.mem_append, List.mem_cons, List.not_mem_nil, or_false] at hi
      rw [codeSize]
      rcases hi with hi | rfl
      · have := ih _ _ i hi t ht
        omega
      · rw [Instruction.mem_targets_decide] at ht
        omega
    | optional =>
      simp only [code, List.mem_cons] at hi
      rw [codeSize]
      rcases hi with rfl | hi
      · rw [Instruction.mem_targets_decide] at ht
        omega
      · have := ih _ _ i hi t ht
        omega

/-- A pattern by itself never accepts. -/
theorem accept_notMem_code (e : Pattern) (base opened : Nat) :
    Instruction.accept ∉ e.code base opened := by
  induction e generalizing base opened with
  | atom a => simpa [code] using (Instruction.ne_of_consumes a.consumes_instruction rfl).symm
  | group body ih => simp [code, ih]
  | concat first second ih₁ ih₂ => simp [code, ih₁, ih₂]
  | alternate first second ih₁ ih₂ => simp [code, ih₁, ih₂]
  | repeated body quantifier greedy ih =>
    cases quantifier <;> simp [code, ih, Instruction.accept_ne_decide]

/-- The slots of the groups of a pattern are saved to once each, and no other slots are. -/
theorem count_save_code (e : Pattern) (base opened slot : Nat) :
    (e.code base opened).count (.save slot) =
      if 2 * opened ≤ slot ∧ slot < 2 * (opened + e.groupCount) then 1 else 0 := by
  induction e generalizing base opened with
  | atom a =>
    have hne : a.instruction ≠ .save slot := Instruction.ne_of_consumes a.consumes_instruction rfl
    rw [code, List.count_singleton, if_neg (by simpa using hne), if_neg (by rw [groupCount]; omega)]
  | group body ih =>
    simp only [code, groupCount, List.count_append, List.count_cons, List.count_nil, ih,
      beq_iff_eq, Instruction.save.injEq]
    grind
  | concat first second ih₁ ih₂ =>
    simp only [code, groupCount, List.count_append, ih₁, ih₂]
    grind
  | alternate first second ih₁ ih₂ =>
    simp only [code, groupCount, List.count_append, List.count_cons, ih₁, ih₂, beq_iff_eq,
      reduceCtorEq, if_false]
    grind
  | repeated body quantifier greedy ih =>
    cases quantifier with
    | star =>
      rw [code, List.cons_append, List.count_cons_of_ne (Instruction.decide_ne_save _ _ _ _),
        List.count_append, ih]
      rfl
    | plus =>
      rw [code, List.count_append, ih,
        List.count_cons_of_ne (Instruction.decide_ne_save _ _ _ _)]
      rfl
    | optional =>
      rw [code, List.count_cons_of_ne (Instruction.decide_ne_save _ _ _ _), ih]
      rfl

end Pattern

namespace Program

/-- The instructions of a layout, as a list. -/
theorem toList_body_layout (e : Pattern) :
    (layout e).body.toList = e.code 0 0 ++ [Instruction.accept] := rfl

/-- All positions named in a layout lie in it. -/
theorem lt_size_layout {e : Pattern} {i : Instruction} (hi : i ∈ (layout e).body) {t : Nat}
    (ht : t ∈ i.targets) : t < (layout e).size := by
  rw [size_layout]
  rw [← Array.mem_toList_iff, toList_body_layout, List.mem_append, List.mem_singleton] at hi
  rcases hi with hi | rfl
  · have hle := (e.targets_code 0 0 i hi t ht).2
    omega
  · cases ht

/-- Only slots of groups are saved to in a layout. -/
theorem slot_lt_of_mem_layout {e : Pattern} {slot : Nat}
    (h : Instruction.save slot ∈ (layout e).body) : slot < 2 * e.groupCount := by
  rw [← Array.mem_toList_iff, toList_body_layout, List.mem_append, List.mem_singleton] at h
  have hpos := List.count_pos_iff.2 (h.resolve_right nofun)
  rw [e.count_save_code] at hpos
  split at hpos
  · omega
  · cases hpos

/-- The threads of a layout carry at most two slots for each group. -/
theorem slotCount_layout_le (e : Pattern) : (layout e).slotCount ≤ 2 * e.groupCount :=
  slotCount_le (Nat.dvd_mul_right 2 _) fun _ => slot_lt_of_mem_layout

/-- The threads of a layout carry two slots for each group. -/
theorem slotCount_layout {e : Pattern} (h : e.codeSize ≤ maxWord) :
    (layout e).slotCount = 2 * e.groupCount := by
  refine Nat.le_antisymm (slotCount_layout_le e) ?_
  rcases Nat.eq_zero_or_pos e.groupCount with hzero | hpos
  · rw [hzero]
    exact Nat.zero_le _
  · have hword := maxWord_eq
    have hgroups := e.two_mul_groupCount_le
    have hmem : Instruction.save (2 * e.groupCount - 1) ∈ e.code 0 0 := by
      rw [← List.count_pos_iff, e.count_save_code, if_pos (by omega)]
      exact Nat.one_pos
    have hlt : 2 * e.groupCount - 1 < (layout e).slotCount :=
      lt_slotCount (by omega) (Array.mem_toList_iff.1 (List.mem_append_left _ hmem))
    omega

/-- Building a program from labelled fragments gives its layout, if that is not too large. -/
theorem ofPattern_eq (limit : Nat) (e : Pattern) :
    ofPattern limit e = if limit < e.codeSize + 1 then .error (.tooLarge (e.codeSize + 1) limit)
      else .ok (layout e) := by
  have hemits := e.emits_emit ⟨.none, 0⟩ 0 rfl
  have hsize : (e.emit ⟨.none, 0⟩).1.size = e.codeSize + 1 := by
    rw [← hemits.length_eq]
    rfl
  show (if limit < (e.emit ⟨.none, 0⟩).1.size then Except.error _ else Except.ok _) = _
  rw [hsize, Chain.link_of_emits hemits]
  rfl

/-- The program of a pattern is its layout. There all targets lie inside, only the last instruction
accepts, and each of the slots of the groups is saved to by one instruction. -/
theorem ofPattern_eq_layout (limit : Nat) (e : Pattern) :
    ofPattern limit e = (if limit < e.codeSize + 1 then .error (.tooLarge (e.codeSize + 1) limit)
      else .ok (layout e)) ∧
    (∀ i ∈ (layout e).body, ∀ t ∈ i.targets, t < (layout e).size) ∧
    (layout e).body.back? = some .accept ∧
    (layout e).body.count .accept = 1 ∧
    ∀ slot, (layout e).body.count (.save slot) = if slot < 2 * e.groupCount then 1 else 0 := by
  refine ⟨ofPattern_eq limit e, fun i hi t ht => ?_, ?_, ?_, fun slot => ?_⟩
  · rw [size_layout]
    rw [← Array.mem_toList_iff, toList_body_layout, List.mem_append, List.mem_singleton] at hi
    rcases hi with hi | rfl
    · have := e.targets_code 0 0 i hi t ht
      omega
    · cases ht
  · simp [layout]
  · rw [← Array.count_toList, toList_body_layout, List.count_append,
      List.count_eq_zero.2 (e.accept_notMem_code 0 0)]
    rfl
  · rw [← Array.count_toList, toList_body_layout, List.count_append, e.count_save_code]
    simp

end Program

end Lockstep

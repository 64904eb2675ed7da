import Lockstep.Program.Layout
import Lockstep.Proofs.Program.Placement

/-!
# The chain of a pattern

Building the chain of a pattern hands out labels and slots, and any map that puts the labels of the
chain one after the other and respects what was forwarded meanwhile turns the chain into
`Pattern.code`.

* `Instruction.consumes`: the instructions that name no position, such as those of atoms.
* `Emits`: what is known of a chain that has been built, with one rule for each thing that a
  pattern does with chains.
* `Pattern.emits_emit`: the chain of a pattern becomes the code of the pattern.
-/

namespace Lockstep

@[simp] theorem Chain.code_mk (head : Fragment) (tail : List Fragment) (exit : Nat) :
    Chain.code ⟨head, tail, exit⟩ = head :: tail := rfl

namespace Instruction

variable {i : Instruction}

/-- Whether a thread waits for a character at an instruction. -/
def consumes : Instruction → Bool
  | char _ | any | inside _ | outside _ => true
  | _ => false

theorem mapTargets_of_consumes (h : i.consumes = true) (π : Nat → Nat) : i.mapTargets π = i := by
  cases i <;> first | rfl | cases h

theorem targets_of_consumes (h : i.consumes = true) : i.targets = [] := by
  cases i <;> first | rfl | cases h

theorem ne_of_consumes {j : Instruction} (h : i.consumes = true) (hj : j.consumes = false) :
    i ≠ j := by
  rintro rfl
  exact Bool.false_ne_true (hj.symm.trans h)

@[simp] theorem consumes_save (slot : Nat) : (save slot).consumes = false := rfl

@[simp] theorem consumes_jump (target : Nat) : (jump target).consumes = false := rfl

@[simp] theorem consumes_split (first second : Nat) : (split first second).consumes = false := rfl

@[simp] theorem consumes_decide (greedy : Bool) (again onwards : Nat) :
    (decide greedy again onwards).consumes = false := by
  cases greedy <;> rfl

@[simp] theorem mapTargets_jump (target : Nat) (π : Nat → Nat) :
    (jump target).mapTargets π = jump (π target) := rfl

@[simp] theorem mapTargets_split (first second : Nat) (π : Nat → Nat) :
    (split first second).mapTargets π = split (π first) (π second) := rfl

@[simp] theorem mapTargets_decide (greedy : Bool) (again onwards : Nat) (π : Nat → Nat) :
    (decide greedy again onwards).mapTargets π = decide greedy (π again) (π onwards) := by
  cases greedy <;> rfl

end Instruction

theorem Atom.consumes_instruction (a : Atom) : a.instruction.consumes = true := by
  cases a with
  | literal c => rfl
  | any => rfl
  | shorthand s negated => cases negated <;> rfl
  | bracket negated items => cases negated <;> rfl

/-- The chain `c`, built while the labels went from `L` to `L₁`, has `size` instructions without the
one at its exit. Its labels are new and stand for themselves, and its instructions become those of
`code base` when its labels are placed from `base` on. -/
structure Emits (size : Nat) (code : Nat → List Instruction) (L : Labels) (c : Chain)
    (L₁ : Labels) : Prop where
  grows : L.Grows L₁ c.labels
  length_eq : c.code.length = size
  code_eq : ∀ (π : Nat → Nat) (base : Nat), Labels.Respects π L L₁ → Placed π base c.labels →
    c.code.map (·.instruction.mapTargets π) = code base

section Rules

variable {n n₁ n₂ : Nat} {f f₁ f₂ : Nat → List Instruction} {L L₁ L₂ : Labels} {c c₁ c₂ : Chain}

/-- The position of the exit is known once that of the label it stands for is. -/
theorem Emits.code_eq_of_exit (h : Emits n f L c L₁) {π : Nat → Nat} {base : Nat}
    (hr : Labels.Respects π L L₁) (hp : Placed π base (c.code.map Fragment.label))
    (hexit : π c.exit = base + n) : c.code.map (·.instruction.mapTargets π) = f base :=
  h.code_eq π base hr (placed_append.2 ⟨hp, by simp [h.length_eq, hexit]⟩)

theorem Emits.of_eq (h : Emits n₁ f₁ L c L₁) (hn : n₁ = n₂) (hf : f₁ = f₂) :
    Emits n₂ f₂ L c L₁ := hn ▸ hf ▸ h

/-- An instruction that names no position makes a chain of its own. -/
theorem emits_single {i : Instruction} (hi : ∀ π, i.mapTargets π = i) (L : Labels) :
    Emits 1 (fun _ => [i]) L ⟨⟨L.size, i⟩, [], L.add.size⟩ L.add.add where
  grows := (Labels.Grows.refl L).add.add.perm (List.Perm.swap _ _ _)
  length_eq := rfl
  code_eq π _ _ _ := congrArg (· :: []) (hi π)

/-- Chains that are joined become the code of the first and that of the second behind it. -/
theorem Emits.join (h₁ : Emits n₁ f₁ L c₁ L₁) (h₂ : Emits n₂ f₂ L₁ c₂ L₂) :
    Emits (n₁ + n₂) (fun base => f₁ base ++ f₂ (base + n₁)) L
      ⟨c₁.head, c₁.tail ++ c₂.code, c₂.exit⟩ (L₂.forward c₁.exit c₂.entry) := by
  have hgrows := h₁.grows.trans h₂.grows
  have hexit := List.mem_append_left c₂.labels c₁.exit_mem_labels
  have hlabels : Chain.labels ⟨c₁.head, c₁.tail ++ c₂.code, c₂.exit⟩ =
      c₁.code.map Fragment.label ++ c₂.labels := by
    simp [Chain.labels, Chain.code]
  refine ⟨?_, ?_, fun π base hr hp => ?_⟩
  · rw [hlabels]
    refine (hgrows.perm ?_).forward (List.mem_append_right _ c₂.entry_mem_labels)
    rw [Chain.labels, List.append_assoc, List.singleton_append]
    exact List.perm_middle
  · show (c₁.code ++ c₂.code).length = _
    rw [List.length_append, h₁.length_eq, h₂.length_eq]
  · rw [hlabels, placed_append, List.length_map, h₁.length_eq] at hp
    obtain ⟨hp₁, hp₂⟩ := hp
    have heq : π c₂.entry = π c₁.exit := hr.eq_of_forward hgrows hexit
    replace hr := hr.of_forward hgrows hexit
    show (c₁.code ++ c₂.code).map _ = _
    have hexit : π c₁.exit = base + n₁ := by rw [← heq, (placed_append.1 hp₂).1.entry]
    rw [List.map_append, h₁.code_eq_of_exit (hr.left h₂.grows) hp₁ hexit,
      h₂.code_eq π _ (hr.right h₁.grows) hp₂]

/-- A choice: the second branch is entered at a label that has no instruction, and either branch is
left at the exit that was handed out first. -/
theorem Emits.alternate (h₁ : Emits n₁ f₁ L.add c₁ L₁) (h₂ : Emits n₂ f₂ L₁.add.add c₂ L₂) :
    Emits (n₁ + n₂ + 2)
      (fun base => .split (base + 1) (base + 2 + n₁) :: f₁ (base + 1) ++
        .jump (base + 2 + n₁ + n₂) :: f₂ (base + 2 + n₁)) L
      ⟨⟨L₁.add.size, .split c₁.entry L₁.size⟩,
        c₁.code ++ ⟨c₁.exit, .jump L.size⟩ :: c₂.code, L.size⟩
      ((L₂.forward L₁.size c₂.entry).forward c₂.exit L.size) := by
  have hgrows₁ := (Labels.Grows.refl L).add.trans h₁.grows
  have hgrows := hgrows₁.add.add.trans h₂.grows
  have hforward : L.Grows (L₂.forward L₁.size c₂.entry)
      (L₁.add.size :: L.size :: (c₁.labels ++ c₂.labels)) := by
    refine (hgrows.perm ?_).forward ?_
    · exact List.Perm.swap _ _ _
    · simp [c₂.entry_mem_labels]
  refine ⟨(hforward.perm ?_).forward ?_, ?_, fun π base hr hp => ?_⟩
  · rw [List.perm_iff_count]
    intro l
    simp only [Chain.labels, Chain.code, List.map_cons, List.map_append, List.count_append,
      List.count_cons, List.count_nil]
    omega
  · simp [Chain.labels]
  · simp [← h₁.length_eq, ← h₂.length_eq, Nat.add_assoc]
  · have hexit : c₂.exit ∈ L₁.add.size :: L.size :: (c₁.labels ++ c₂.labels) := by
      simp [c₂.exit_mem_labels]
    have hrest : L₁.size ∈ L₁.add.size :: L₁.size :: ([L.size] ++ c₁.labels) ++ c₂.labels := by
      simp
    -- The two labels without an instruction are undone in the order opposite to that in which they
    -- were forwarded: first the exit of the second branch, then the label that stood for its entry.
    have hout : π L.size = π c₂.exit := hr.eq_of_forward hforward hexit
    replace hr := hr.of_forward hforward hexit
    have hmiddle : π c₂.entry = π L₁.size := hr.eq_of_forward hgrows hrest
    replace hr := hr.of_forward hgrows hrest
    simp only [Chain.labels_mk, List.map_append, List.map_cons, placed_append, placed_cons,
      List.cons_append, List.length_map, List.length_append, List.length_cons, h₁.length_eq,
      h₂.length_eq] at hp
    obtain ⟨hsplit, ⟨hp₁, hjump, hp₂⟩, hfinish, -⟩ := hp
    have hcode₁ := h₁.code_eq_of_exit
      ((hr.left h₂.grows).of_add.of_add.right (Labels.Grows.refl L).add) hp₁ hjump
    have hcode₂ := h₂.code_eq_of_exit (hr.right hgrows₁.add.add) hp₂ (by omega)
    have hmiddle' : π L₁.size = base + 2 + n₁ := by
      have := hp₂.entry
      omega
    rw [show base + 1 + n₁ + 1 = base + 2 + n₁ by omega] at hcode₂
    rw [show base + 1 + (n₁ + (n₂ + 1)) = base + 2 + n₁ + n₂ by omega] at hfinish
    simp only [Chain.code_mk, List.map_cons, List.map_append, Instruction.mapTargets_split,
      Instruction.mapTargets_jump, hcode₁, hcode₂, hp₁.entry, hmiddle', hfinish, List.cons_append]

/-- A body that is repeated any number of times: a `split` in front of it, and behind it a `jump`
back to that. -/
theorem Emits.star (h : Emits n f L c L₁) (greedy : Bool) :
    Emits (n + 2)
      (fun base => .decide greedy (base + 1) (base + 2 + n) :: f (base + 1) ++ [.jump base]) L
      ⟨⟨L₁.add.size, .decide greedy c.entry L₁.size⟩,
        c.code ++ [⟨L₁.add.add.size, .jump L₁.add.size⟩], L₁.size⟩
      (L₁.add.add.add.forward c.exit L₁.add.add.size) := by
  have hgrows := h.grows.add.add.add
  have hexit : c.exit ∈ L₁.add.add.size :: L₁.add.size :: L₁.size :: c.labels := by
    simp [c.exit_mem_labels]
  refine ⟨(hgrows.perm ?_).forward ?_, ?_, fun π base hr hp => ?_⟩
  · rw [List.perm_iff_count]
    intro l
    simp only [Chain.labels, Chain.code, List.map_cons, List.map_append, List.map_nil,
      List.count_append, List.count_cons, List.count_nil]
    omega
  · simp [Chain.labels]
  · simp [← h.length_eq]
  · have hback : π L₁.add.add.size = π c.exit := hr.eq_of_forward hgrows hexit
    replace hr := (hr.of_forward hgrows hexit).of_add.of_add.of_add
    simp only [Chain.labels_mk, List.map_append, List.map_cons, List.map_nil, placed_append,
      placed_cons, List.cons_append, List.length_map, List.length_append, List.length_cons,
      List.length_nil, h.length_eq] at hp
    obtain ⟨hsplit, ⟨hp, hjump, -⟩, hout, -⟩ := hp
    have hcode := h.code_eq_of_exit hr hp (by rw [← hback, hjump])
    rw [show base + 1 + (n + (0 + 1)) = base + 2 + n by omega] at hout
    simp only [Chain.code_mk, List.map_cons, List.map_append, List.map_nil, hcode,
      Instruction.mapTargets_decide, Instruction.mapTargets_jump, hp.entry, hsplit, hout,
      List.cons_append]

/-- A body that is repeated at least once: a `split` behind it. -/
theorem Emits.plus (h : Emits n f L c L₁) (greedy : Bool) :
    Emits (n + 1) (fun base => f base ++ [.decide greedy base (base + n + 1)]) L
      ⟨c.head, c.tail ++ [⟨L₁.add.size, .decide greedy c.entry L₁.size⟩], L₁.size⟩
      (L₁.add.add.forward c.exit L₁.add.size) := by
  have hgrows := h.grows.add.add
  have hexit : c.exit ∈ L₁.add.size :: L₁.size :: c.labels := by simp [c.exit_mem_labels]
  refine ⟨(hgrows.perm ?_).forward ?_, ?_, fun π base hr hp => ?_⟩
  · rw [List.perm_iff_count]
    intro l
    simp only [Chain.labels, Chain.code, List.map_cons, List.map_append, List.map_nil,
      List.count_append, List.count_cons, List.count_nil]
    omega
  · simp [Chain.labels, Chain.code]
  · simp [← h.length_eq, Chain.code]
  · have hback : π L₁.add.size = π c.exit := hr.eq_of_forward hgrows hexit
    replace hr := (hr.of_forward hgrows hexit).of_add.of_add
    replace hp : Placed π base ((c.code.map Fragment.label ++ [L₁.add.size]) ++ [L₁.size]) := by
      simpa [Chain.labels, Chain.code] using hp
    simp only [placed_append, placed_cons, List.length_map, List.length_append, List.length_cons,
      List.length_nil, h.length_eq] at hp
    obtain ⟨⟨hp, hsplit, -⟩, hout, -⟩ := hp
    have hcode := h.code_eq_of_exit hr hp (by rw [← hback, hsplit])
    show (c.code ++ [_]).map _ = _
    simp only [List.map_append, List.map_cons, List.map_nil, hcode, Instruction.mapTargets_decide,
      hp.entry, hout]
    rfl

/-- A body that may be left out: a `split` in front of it. -/
theorem Emits.optional (h : Emits n f L c L₁) (greedy : Bool) :
    Emits (n + 1) (fun base => .decide greedy (base + 1) (base + 1 + n) :: f (base + 1)) L
      ⟨⟨L₁.add.size, .decide greedy c.entry L₁.size⟩, c.code, L₁.size⟩
      (L₁.add.add.forward c.exit L₁.size) := by
  have hgrows := h.grows.add.add
  have hexit : c.exit ∈ L₁.add.size :: L₁.size :: c.labels := by simp [c.exit_mem_labels]
  refine ⟨(hgrows.perm ?_).forward ?_, ?_, fun π base hr hp => ?_⟩
  · rw [List.perm_iff_count]
    intro l
    simp only [Chain.labels, Chain.code, List.map_cons, List.count_append, List.count_cons,
      List.count_nil]
    omega
  · simp [Chain.labels]
  · simp [← h.length_eq]
  · have hout : π L₁.size = π c.exit := hr.eq_of_forward hgrows hexit
    replace hr := (hr.of_forward hgrows hexit).of_add.of_add
    simp only [Chain.labels_mk, placed_append, placed_cons, List.cons_append, List.length_map,
      h.length_eq] at hp
    obtain ⟨hsplit, hp, hfinish, -⟩ := hp
    have hcode := h.code_eq_of_exit hr hp (by rw [← hout, hfinish])
    simp only [Chain.code_mk, List.map_cons, hcode, Instruction.mapTargets_decide, hp.entry,
      hfinish]

end Rules

namespace Pattern

/-- Each group takes two slots. -/
theorem nextSlot_emit (e : Pattern) (s : Emitter) :
    (e.emit s).2.nextSlot = s.nextSlot + 2 * e.groupCount := by
  induction e generalizing s with
  | atom a => rfl
  | group body ih =>
    rw [groupCount, Nat.mul_succ, Nat.add_comm _ 2, ← Nat.add_assoc]
    exact ih _
  | concat first second ih₁ ih₂ =>
    rw [groupCount, Nat.mul_add, ← Nat.add_assoc, ← ih₁ s]
    exact ih₂ _
  | alternate first second ih₁ ih₂ =>
    rw [groupCount, Nat.mul_add, ← Nat.add_assoc, ← ih₁ ⟨s.labels.add, s.nextSlot⟩]
    exact ih₂ _
  | repeated body quantifier greedy ih => cases quantifier <;> exact ih s

/-- The chain of a pattern becomes its code, wherever it is placed. -/
theorem emits_emit (e : Pattern) (s : Emitter) (opened : Nat) (h : s.nextSlot = 2 * opened) :
    Emits e.codeSize (e.code · opened) s.labels (e.emit s).1 (e.emit s).2.labels := by
  induction e generalizing s opened with
  | atom a =>
    exact emits_single (Instruction.mapTargets_of_consumes a.consumes_instruction) s.labels
  | group body ih =>
    have hopen := emits_single (i := .save s.nextSlot) (fun _ => rfl) s.labels
    have hbody := ih ⟨s.labels.add.add, s.nextSlot + 2⟩ (opened + 1)
      (by show s.nextSlot + 2 = _; omega)
    refine Emits.of_eq ((hopen.join hbody).join
      (emits_single (i := .save (s.nextSlot + 1)) (fun _ => rfl) _)) ?_ ?_
    · rw [codeSize]
      omega
    · funext base
      rw [code, h]
      rfl
  | concat first second ih₁ ih₂ =>
    exact (ih₁ s opened h).join (ih₂ _ _ (by rw [nextSlot_emit, h]; omega))
  | alternate first second ih₁ ih₂ =>
    exact (ih₁ ⟨s.labels.add, s.nextSlot⟩ opened h).alternate
      (ih₂ ⟨_, _⟩ _ (by rw [nextSlot_emit]; simp only; omega))
  | repeated body quantifier greedy ih =>
    cases quantifier with
    | star => exact (ih s opened h).star greedy
    | plus => exact (ih s opened h).plus greedy
    | optional => exact (ih s opened h).optional greedy

end Pattern

end Lockstep

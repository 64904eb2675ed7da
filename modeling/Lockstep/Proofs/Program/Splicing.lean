import Lockstep.Program.Splicing
import Lockstep.Proofs.Program.Linking

/-!
# Splicing without a failing check

Rows that are spliced together are the fragments of chains, so that nothing can be missing where it
is checked for. What makes this an invariant that each construction keeps is how the labels of
unfinished choices are accounted for: the exit and the label that is left open stand for themselves
all the time, next to the labels of the row so far, and each of them is forwarded at most once.

* `Assembly.run_bind_eq`: a step that has a result is followed by the next one; one lemma for each
  step.
* `Builds`: a chain that has been built accepts at its exit only; `Opens`: the branches of a choice
  so far; `Purpose.Ready`: what a row is built for.
* `opens_nil`, `Opens.split`, `Opens.close`: a choice is begun, goes on and ends.
* `Assembly.exists_finish`: a row that has been built serves its purpose.
* `Pattern.assembles`: the row of every pattern is built, one lemma for each kind of pattern.
* `Builds.row_in_order`: what this says about the row.
-/

namespace Lockstep

/-! ### Building -/

namespace Assembly

variable {α β : Type} {m : Assembly α} {s s' : Emitter} {a : α}

/-- What has been built is used by what is built next. -/
theorem run_bind_eq (h : m.run s = some (a, s')) (k : α → Assembly β) :
    (m >>= k).run s = (k a).run s' := by
  rw [StateT.run_bind, h]
  rfl

theorem run_newLabel (L : Labels) (slot : Nat) :
    newLabel.run ⟨L, slot⟩ = some (L.size, ⟨L.add, slot⟩) := rfl

theorem run_newSlots (L : Labels) (slot : Nat) :
    newSlots.run ⟨L, slot⟩ = some (slot, ⟨L, slot + 2⟩) := rfl

theorem run_newFragment (i : Instruction) (L : Labels) (slot : Nat) :
    (newFragment i).run ⟨L, slot⟩ = some (⟨L.size, i⟩, ⟨L.add, slot⟩) := rfl

theorem run_entry (c : Chain) : (entry c.fragments).run s = some (c.entry, s) := rfl

theorem run_guard {p : Prop} [Decidable p] (h : p) :
    (guard p : Assembly Unit).run s = some ((), s) := by
  rw [guard, if_pos h]
  rfl

theorem run_retarget {source target slot : Nat} {L : Labels} (h : source < L.size) :
    (retarget source target).run ⟨L, slot⟩ = some ((), ⟨L.forward source target, slot⟩) :=
  run_bind_eq (m := get) rfl _ |>.trans (run_bind_eq (run_guard h) _)

theorem run_redirect (c : Chain) (target : Nat) :
    (redirect c.fragments target).run s = some (c.code ++ [⟨c.exit, .jump target⟩], s) := by
  simp [redirect, Chain.fragments]

theorem run_join {c : Chain} {first : Fragment} {rest : Row} {L : Labels} {slot : Nat}
    (h : c.exit < L.size) :
    (join c.fragments (first :: rest)).run ⟨L, slot⟩ =
      some (c.code ++ first :: rest, ⟨L.forward c.exit first.label, slot⟩) := by
  simp only [join, Chain.fragments, List.getLast?_append, List.getLast?_singleton, Option.some_or,
    List.dropLast_concat]
  rw [run_bind_eq (run_guard trivial), run_bind_eq (a := first.label) rfl,
    run_bind_eq (run_retarget h)]
  rfl

end Assembly

/-! ### Rows in order -/

/-- The chain `c` has been built, and only its exit accepts. -/
structure Builds (n : Nat) (f : Nat → List Instruction) (L : Labels) (c : Chain) (L₁ : Labels) :
    Prop extends Emits n f L c L₁ where
  ne_accept : ∀ fragment ∈ c.code, fragment.instruction ≠ .accept

/-- The labels after the label of an entry that was left open stands for `target`. -/
def Labels.forwardPending (L : Labels) (pending : Option Nat) (target : Nat) : Labels :=
  pending.elim L (L.forward · target)

/-- The row of the branches of a choice so far, built while the labels went from `L` to `L₁`, has
`n` fragments. They become those of `f base finish` when the row is placed from `base` on and the
choice is left at `finish`. -/
structure Opens (n : Nat) (f : Nat → Nat → List Instruction) (L : Labels) (row : Row) (exit : Nat)
    (pending : Option Nat) (L₁ : Labels) : Prop where
  grows : L.Grows L₁ (pending.toList ++ exit :: row.map Fragment.label)
  length_eq : row.length = n
  code_eq : ∀ (π : Nat → Nat) (base finish : Nat), Labels.Respects π L L₁ →
    Placed π base (row.map Fragment.label) → π exit = finish → (∀ l ∈ pending, π l = base + n) →
    row.map (·.instruction.mapTargets π) = f base finish
  ne_accept : ∀ fragment ∈ row, fragment.instruction ≠ .accept

/-- What a row is built for has itself been built while the labels went from `L` to `L₁`. It has `n`
fragments, which become those of `g base finish` when it is placed from `base` on and the row for it
ends in front of `finish`. -/
inductive Purpose.Ready : Purpose → Nat → (Nat → Nat → List Instruction) → Labels → Labels → Prop
  | whole {L : Labels} : Ready .whole 0 (fun _ _ => []) L L
  | behind {n f L c L₁} : Builds n f L c L₁ →
    Ready (.behind c.fragments) n (fun base _ => f base) L L₁
  | branch {n g L row exit pending L₁} : Opens n g L row exit pending L₁ →
    Ready (.branch row ⟨exit, .accept⟩ pending) n g L L₁

/-- The chain of a row and the code of a chain behind it, which is left at `exit`. -/
def Chain.behind (row : Row) (c : Chain) (exit : Nat) : Chain :=
  match row with
  | [] => ⟨c.head, c.tail, exit⟩
  | first :: rest => ⟨first, rest ++ c.code, exit⟩

section Rules

variable {n n₁ n₂ : Nat} {f f₁ f₂ : Nat → List Instruction} {g : Nat → Nat → List Instruction}
  {L L₁ L₂ : Labels} {c c₁ c₂ : Chain} {row : Row} {exit : Nat} {pending : Option Nat}
  {live : List Nat} {target : Nat} {π : Nat → Nat}

/-- The label of an exit has been handed out. -/
theorem Emits.exit_lt (h : Emits n f L c L₁) : c.exit < L₁.size :=
  (h.grows.mem_bounds _ c.exit_mem_labels).2

@[simp] theorem Chain.code_behind (row : Row) (c : Chain) (exit : Nat) :
    (c.behind row exit).code = row ++ c.code := by
  cases row <;> rfl

@[simp] theorem Chain.exit_behind (row : Row) (c : Chain) (exit : Nat) :
    (c.behind row exit).exit = exit := by
  cases row <;> rfl

theorem Labels.Grows.forwardPending (h : L.Grows L₁ (pending.toList ++ live))
    (ht : target ∈ live) : L.Grows (L₁.forwardPending pending target) live := by
  cases pending with
  | none => exact h
  | some label => exact Labels.Grows.forward h ht

theorem Labels.Respects.of_forwardPending
    (h : Labels.Respects π L (L₁.forwardPending pending target))
    (hg : L.Grows L₁ (pending.toList ++ live)) :
    (∀ l ∈ pending, π target = π l) ∧ Labels.Respects π L L₁ := by
  cases pending with
  | none => exact ⟨by simp, h⟩
  | some label =>
    refine ⟨?_, h.of_forward hg List.mem_cons_self⟩
    rintro _ ⟨⟩
    exact h.eq_of_forward hg List.mem_cons_self

@[simp] theorem Labels.size_forwardPending :
    (L.forwardPending pending target).size = L.size := by
  cases pending with
  | none => rfl
  | some label => exact size_forward

/-- A choice begins with its exit. -/
theorem opens_nil (L : Labels) : Opens 0 (fun _ _ => []) L [] L.size none L.add where
  grows := (Labels.Grows.refl L).add
  length_eq := rfl
  code_eq _ _ _ _ _ _ _ := rfl
  ne_accept := by simp

/-- A further branch that is not the last one. -/
theorem Opens.split (h : Opens n g L row exit pending L₁) (h₁ : Builds n₁ f₁ L₁ c L₂) :
    Opens (n + n₁ + 2)
      (fun base finish => g base finish ++
        .split (base + n + 1) (base + n + n₁ + 2) :: f₁ (base + n + 1) ++ [.jump finish]) L
      (row ++ ⟨L₂.add.size, .split c.entry L₂.size⟩ :: (c.code ++ [⟨c.exit, .jump exit⟩])) exit
      (some L₂.size) (L₂.add.add.forwardPending pending L₂.add.size) := by
  have hgrows := (h.grows.trans h₁.grows).add.add
  have hmoved : L.Grows L₂.add.add (pending.toList ++
      L₂.add.size :: L₂.size :: exit :: (row.map Fragment.label ++ c.labels)) := by
    refine hgrows.perm ?_
    rw [List.perm_iff_count]
    intro l
    simp only [List.count_append, List.count_cons]
    omega
  refine ⟨(hmoved.forwardPending List.mem_cons_self).perm ?_, ?_,
    fun π base finish hr hp hexit hpending => ?_, ?_⟩
  · rw [List.perm_iff_count]
    intro l
    simp only [Chain.labels, List.map_append, List.map_cons, List.map_nil, List.count_append,
      List.count_cons, List.count_nil, Option.toList_some]
    omega
  · simp [h.length_eq, h₁.length_eq]
    omega
  · obtain ⟨hsplit, hr⟩ := hr.of_forwardPending hmoved
    replace hr := hr.of_add.of_add
    simp only [List.map_append, List.map_cons, List.map_nil, placed_append, placed_cons,
      List.length_map, h.length_eq, h₁.length_eq] at hp
    obtain ⟨hp, hlabel, hp₁, hjump, -⟩ := hp
    have hrest : π L₂.size = base + (n + n₁ + 2) := hpending _ rfl
    have hrow := h.code_eq π base finish (hr.left h₁.grows) hp hexit
      fun l hl => (hsplit l hl).symm.trans hlabel
    have hcode := h₁.code_eq_of_exit (hr.right h.grows) hp₁ hjump
    simp only [List.map_append, List.map_cons, List.map_nil, Instruction.mapTargets_split,
      Instruction.mapTargets_jump, hrow, hcode, hp₁.entry, hrest, hexit]
    simp [Nat.add_assoc]
  · simp only [List.forall_mem_append, List.forall_mem_cons]
    exact ⟨h.ne_accept, by simp, h₁.ne_accept, by simp⟩

/-- The last branch. -/
theorem Opens.close (h : Opens n g L row exit pending L₁) (h₁ : Builds n₁ f₁ L₁ c L₂) :
    Builds (n + n₁) (fun base => g base (base + n + n₁) ++ f₁ (base + n)) L (c.behind row exit)
      ((L₂.forwardPending pending c.entry).forward c.exit exit) := by
  have hgrows := h.grows.trans h₁.grows
  have hmoved : L.Grows L₂ (pending.toList ++ exit :: (row.map Fragment.label ++ c.labels)) := by
    simpa using hgrows
  have hentry : c.entry ∈ exit :: (row.map Fragment.label ++ c.labels) := by
    simp [c.entry_mem_labels]
  have hexit : c.exit ∈ exit :: (row.map Fragment.label ++ c.labels) := by
    simp [c.exit_mem_labels]
  have hforward := hmoved.forwardPending hentry
  refine ⟨⟨(hforward.perm ?_).forward ?_, ?_, fun π base hr hp => ?_⟩, ?_⟩
  · rw [List.perm_iff_count]
    intro l
    simp only [Chain.labels, Chain.code_behind, Chain.exit_behind, List.map_append,
      List.count_append, List.count_cons, List.count_nil]
    omega
  · simp [Chain.labels]
  · simp [h.length_eq, h₁.length_eq]
  · have hout : π exit = π c.exit := hr.eq_of_forward hforward hexit
    obtain ⟨hpending, hr⟩ := (hr.of_forward hforward hexit).of_forwardPending hmoved
    simp only [Chain.labels, Chain.code_behind, Chain.exit_behind, List.map_append, placed_append,
      List.length_append, List.length_map, h.length_eq, h₁.length_eq, placed_cons] at hp
    obtain ⟨⟨hp, hp₁⟩, hfinish, -⟩ := hp
    have hrow := h.code_eq π base (base + n + n₁) (hr.left h₁.grows) hp
      (by omega) fun l hl => (hpending l hl).symm.trans hp₁.entry
    have hcode := h₁.code_eq_of_exit (hr.right h.grows) hp₁ (by omega)
    rw [Chain.code_behind, List.map_append, hrow, hcode]
  · rw [Chain.code_behind, List.forall_mem_append]
    exact ⟨h.ne_accept, h₁.ne_accept⟩

theorem builds_single {i : Instruction} (hi : ∀ π, i.mapTargets π = i) (hne : i ≠ .accept)
    (L : Labels) : Builds 1 (fun _ => [i]) L ⟨⟨L.size, i⟩, [], L.add.size⟩ L.add.add :=
  ⟨emits_single hi L, by simpa using hne⟩

theorem Builds.of_eq (h : Builds n₁ f₁ L c L₁) (hn : n₁ = n₂) (hf : f₁ = f₂) :
    Builds n₂ f₂ L c L₁ := hn ▸ hf ▸ h

theorem Builds.join (h₁ : Builds n₁ f₁ L c₁ L₁) (h₂ : Builds n₂ f₂ L₁ c₂ L₂) :
    Builds (n₁ + n₂) (fun base => f₁ base ++ f₂ (base + n₁)) L
      ⟨c₁.head, c₁.tail ++ c₂.code, c₂.exit⟩ (L₂.forward c₁.exit c₂.entry) := by
  refine ⟨h₁.toEmits.join h₂.toEmits, ?_⟩
  show ∀ fragment ∈ c₁.code ++ c₂.code, _
  exact List.forall_mem_append.2 ⟨h₁.ne_accept, h₂.ne_accept⟩

theorem Builds.star (h : Builds n f L c L₁) (greedy : Bool) :
    Builds (n + 2)
      (fun base => .decide greedy (base + 1) (base + 2 + n) :: f (base + 1) ++ [.jump base]) L
      ⟨⟨L₁.add.size, .decide greedy c.entry L₁.size⟩,
        c.code ++ [⟨L₁.add.add.size, .jump L₁.add.size⟩], L₁.size⟩
      (L₁.add.add.add.forward c.exit L₁.add.add.size) := by
  refine ⟨h.toEmits.star greedy, ?_⟩
  simp only [Chain.code_mk, List.forall_mem_cons, List.forall_mem_append]
  exact ⟨(Instruction.accept_ne_decide _ _ _).symm, h.ne_accept, by simp⟩

theorem Builds.plus (h : Builds n f L c L₁) (greedy : Bool) :
    Builds (n + 1) (fun base => f base ++ [.decide greedy base (base + n + 1)]) L
      ⟨c.head, c.tail ++ [⟨L₁.add.size, .decide greedy c.entry L₁.size⟩], L₁.size⟩
      (L₁.add.add.forward c.exit L₁.add.size) := by
  refine ⟨h.toEmits.plus greedy, ?_⟩
  show ∀ fragment ∈ c.code ++ [⟨L₁.add.size, .decide greedy c.entry L₁.size⟩], _
  rw [List.forall_mem_append, List.forall_mem_singleton]
  exact ⟨h.ne_accept, (Instruction.accept_ne_decide _ _ _).symm⟩

theorem Builds.optional (h : Builds n f L c L₁) (greedy : Bool) :
    Builds (n + 1) (fun base => .decide greedy (base + 1) (base + 1 + n) :: f (base + 1)) L
      ⟨⟨L₁.add.size, .decide greedy c.entry L₁.size⟩, c.code, L₁.size⟩
      (L₁.add.add.forward c.exit L₁.size) :=
  ⟨h.toEmits.optional greedy,
    List.forall_mem_cons.2 ⟨(Instruction.accept_ne_decide _ _ _).symm, h.ne_accept⟩⟩

end Rules

/-! ### Building without a failing check -/

namespace Assembly

variable {n n₁ n₂ : Nat} {f f₁ f₂ : Nat → List Instruction} {g : Nat → Nat → List Instruction}
  {L L₁ L₂ : Labels} {c c₁ c₂ : Chain} {row : Row} {exit : Nat} {pending : Option Nat}

theorem run_settle {first : Fragment} {rest : Row} {slot : Nat}
    (h : ∀ label ∈ pending, label < L.size) :
    (settle pending (first :: rest)).run ⟨L, slot⟩ =
      some ((), ⟨L.forwardPending pending first.label, slot⟩) := by
  cases pending with
  | none => rfl
  | some label => exact run_retarget (h label rfl)

theorem exists_single {i : Instruction} (hi : ∀ π, i.mapTargets π = i) (hne : i ≠ .accept)
    (L : Labels) (slot : Nat) :
    ∃ c L₁, (single i).run ⟨L, slot⟩ = some (c.fragments, ⟨L₁, slot⟩) ∧
      Builds 1 (fun _ => [i]) L c L₁ :=
  ⟨_, _, rfl, builds_single hi hne L⟩

theorem exists_join (h₁ : Builds n₁ f₁ L c₁ L₁) (h₂ : Builds n₂ f₂ L₁ c₂ L₂) (slot : Nat) :
    ∃ c L', (join c₁.fragments c₂.fragments).run ⟨L₂, slot⟩ = some (c.fragments, ⟨L', slot⟩) ∧
      Builds (n₁ + n₂) (fun base => f₁ base ++ f₂ (base + n₁)) L c L' := by
  refine ⟨_, _, ?_, h₁.join h₂⟩
  have hexit : c₁.exit < L₂.size := h₁.exit_lt.trans_le h₂.grows.size_le
  have hrow : Chain.fragments ⟨c₁.head, c₁.tail ++ c₂.code, c₂.exit⟩ = c₁.code ++ c₂.fragments := by
    simp [Chain.fragments, Chain.code]
  rw [hrow]
  exact run_join hexit

theorem exists_openBranch (h : Opens n g L row exit pending L₁) (h₁ : Builds n₁ f₁ L₁ c L₂)
    (slot : Nat) :
    ∃ row' rest L', (openBranch row ⟨exit, .accept⟩ pending c.fragments).run ⟨L₂, slot⟩ =
        some ((row', rest), ⟨L', slot⟩) ∧
      Opens (n + n₁ + 2)
        (fun base finish => g base finish ++
          .split (base + n + 1) (base + n + n₁ + 2) :: f₁ (base + n + 1) ++ [.jump finish]) L
        row' exit (some rest) L' := by
  refine ⟨_, _, _, ?_, h.split h₁⟩
  have hpending : ∀ label ∈ pending, label < L₂.add.add.size := fun label hl => by
    have hlt := (h.grows.mem_bounds label (by simp [Option.mem_def.1 hl])).2
    have hle := h₁.grows.size_le
    simp only [Labels.size_add]
    omega
  rw [openBranch, run_bind_eq (run_entry c), run_bind_eq (run_newLabel _ _),
    run_bind_eq (run_newFragment _ _ _), run_bind_eq (run_settle hpending),
    run_bind_eq (run_redirect c exit)]
  rfl

theorem exists_closeBranch (h : Opens n g L row exit pending L₁) (h₁ : Builds n₁ f₁ L₁ c L₂)
    (slot : Nat) :
    ∃ c' L', (closeBranch row ⟨exit, .accept⟩ pending c.fragments).run ⟨L₂, slot⟩ =
        some (c'.fragments, ⟨L', slot⟩) ∧
      Builds (n + n₁) (fun base => g base (base + n + n₁) ++ f₁ (base + n)) L c' L' := by
  refine ⟨_, _, ?_, h.close h₁⟩
  have hpending : ∀ label ∈ pending, label < L₂.size := fun label hl =>
    (h.grows.mem_bounds label (by simp [Option.mem_def.1 hl])).2.trans_le h₁.grows.size_le
  have hexit : c.exit < (L₂.forwardPending pending c.entry).size := by
    rw [Labels.size_forwardPending]
    exact h₁.exit_lt
  have hrow : (c.behind row exit).fragments = row ++ (c.code ++ [⟨exit, .accept⟩]) := by
    simp [Chain.fragments]
  have hsettle : (settle pending c.fragments).run ⟨L₂, slot⟩ =
      some ((), ⟨L₂.forwardPending pending c.entry, slot⟩) := run_settle hpending
  rw [closeBranch, hrow, run_bind_eq hsettle, run_bind_eq (run_join hexit)]
  rfl

/-- A row that has been built as a whole is made to serve a purpose. -/
theorem exists_finish {purpose : Purpose} (h : purpose.Ready n g L L₁)
    (h₁ : Builds n₁ f₁ L₁ c L₂) (slot : Nat) :
    ∃ c' L', (purpose.finish c.fragments).run ⟨L₂, slot⟩ = some (c'.fragments, ⟨L', slot⟩) ∧
      Builds (n + n₁) (fun base => g base (base + n + n₁) ++ f₁ (base + n)) L c' L' := by
  cases h with
  | whole => exact ⟨c, L₂, rfl, by simpa using h₁⟩
  | behind h => exact exists_join h h₁ slot
  | branch h => exact exists_closeBranch h h₁ slot

end Assembly

/-- A row that is in order: it has a first fragment and a last one, no label occurs twice, and only
the last fragment accepts. -/
theorem Builds.row_in_order {n : Nat} {f : Nat → List Instruction} {L L₁ : Labels} {c : Chain}
    (h : Builds n f L c L₁) :
    2 ≤ c.fragments.length ∧ (c.fragments.map Fragment.label).Nodup ∧
      (c.fragments.map Fragment.instruction).count .accept = 1 ∧
      (c.fragments.map Fragment.instruction).getLast? = some .accept := by
  refine ⟨?_, ?_, ?_, ?_⟩
  · rw [c.length_fragments, Chain.size]
    omega
  · exact c.labels_eq_map ▸ h.grows.nodup
  · have hcode : Instruction.accept ∉ c.code.map Fragment.instruction := by
      rintro hmem
      obtain ⟨fragment, hf, he⟩ := List.mem_map.1 hmem
      exact h.ne_accept fragment hf he
    simp [Chain.fragments, List.count_append, List.count_eq_zero.2 hcode]
  · simp [Chain.fragments]

namespace Pattern

open Assembly

variable {first second : Pattern} {purpose : Purpose}

/-- A concatenation that does not follow others is built as a whole first. -/
theorem assemble_concat (h : ∀ earlier, purpose ≠ .behind earlier) :
    (concat first second).assemble purpose = (do
      let row ← first.assemble .whole
      let row ← second.assemble (.behind row)
      purpose.finish row) := by
  cases purpose with
  | behind earlier => exact absurd rfl (h earlier)
  | _ => rfl

/-- A choice that does not follow other branches is built as a whole first. -/
theorem assemble_alternate (h : ∀ earlier exit pending, purpose ≠ .branch earlier exit pending) :
    (alternate first second).assemble purpose = (do
      let exit ← newFragment .accept
      let next ← first.assemble .whole
      let (row, rest) ← openBranch [] exit none next
      let row ← second.assemble (.branch row exit (some rest))
      purpose.finish row) := by
  cases purpose with
  | branch earlier exit pending => exact absurd rfl (h earlier exit pending)
  | _ => rfl

/-- The row of a pattern is built without a failing check, whatever it is built for, and together
they are in order. -/
def Assembles (e : Pattern) : Prop :=
  ∀ {purpose : Purpose} {n : Nat} {g : Nat → Nat → List Instruction} {L L₁ : Labels},
    purpose.Ready n g L L₁ → ∀ opened, ∃ c L₂,
      (e.assemble purpose).run ⟨L₁, 2 * opened⟩ =
        some (c.fragments, ⟨L₂, 2 * (opened + e.groupCount)⟩) ∧
      Builds (n + e.codeSize)
        (fun base => g base (base + n + e.codeSize) ++ e.code (base + n) opened) L c L₂

theorem Assembles.whole {e : Pattern} (h : e.Assembles) (L : Labels) (opened : Nat) :
    ∃ c L₁, (e.assemble .whole).run ⟨L, 2 * opened⟩ =
        some (c.fragments, ⟨L₁, 2 * (opened + e.groupCount)⟩) ∧
      Builds e.codeSize (e.code · opened) L c L₁ := by
  obtain ⟨c, L₁, hrun, hbuilds⟩ := h (L := L) .whole opened
  refine ⟨c, L₁, hrun, ?_⟩
  simpa using hbuilds

theorem assembles_atom (a : Atom) : (atom a).Assembles := by
  intro purpose n g L L₁ h opened
  obtain ⟨c₁, L₂, hsingle, h₁⟩ := exists_single
    (Instruction.mapTargets_of_consumes a.consumes_instruction)
    (Instruction.ne_of_consumes a.consumes_instruction rfl) L₁ (2 * opened)
  obtain ⟨c, L', hfinish, hbuilds⟩ := exists_finish h h₁ (2 * opened)
  refine ⟨c, L', ?_, hbuilds⟩
  rw [assemble, run_bind_eq hsingle]
  exact hfinish

theorem assembles_group {body : Pattern} (ih : body.Assembles) : (group body).Assembles := by
  intro purpose n g L L₁ h opened
  have hslot : 2 * (opened + 1 + body.groupCount) = 2 * (opened + body.group.groupCount) := by
    rw [groupCount]
    omega
  have hslots : newSlots.run ⟨L₁, 2 * opened⟩ = some (2 * opened, ⟨L₁, 2 * (opened + 1)⟩) :=
    run_newSlots L₁ (2 * opened)
  obtain ⟨c₁, L₂, hopening, h₁⟩ := exists_single (i := .save (2 * opened)) (fun _ => rfl) (by simp)
    L₁ (2 * (opened + 1))
  obtain ⟨c₂, L₃, hbody, h₂⟩ := ih.whole L₂ (opened + 1)
  obtain ⟨c₃, L₄, hopened, h₃⟩ := exists_join h₁ h₂ (2 * (opened + 1 + body.groupCount))
  obtain ⟨c₄, L₅, hclosing, h₄⟩ := exists_single (i := .save (2 * opened + 1)) (fun _ => rfl)
    (by simp) L₄ (2 * (opened + 1 + body.groupCount))
  obtain ⟨c₅, L₆, hclosed, h₅⟩ := exists_join h₃ h₄ (2 * (opened + 1 + body.groupCount))
  have hgroup : Builds body.group.codeSize (body.group.code · opened) L₁ c₅ L₆ :=
    h₅.of_eq (by rw [codeSize]; omega) rfl
  obtain ⟨c, L', hfinish, hbuilds⟩ := exists_finish h hgroup (2 * (opened + 1 + body.groupCount))
  refine ⟨c, L', ?_, hbuilds⟩
  rw [assemble, run_bind_eq hslots, run_bind_eq hopening, run_bind_eq hbody, run_bind_eq hopened,
    run_bind_eq hclosing, run_bind_eq hclosed, hfinish, hslot]

theorem assembles_concat {first second : Pattern} (ih₁ : first.Assembles)
    (ih₂ : second.Assembles) : (concat first second).Assembles := by
  intro purpose n g L L₁ h opened
  have hslot : 2 * (opened + first.groupCount + second.groupCount) =
      2 * (opened + (concat first second).groupCount) := by
    rw [groupCount, Nat.add_assoc]
  obtain ⟨c₁, L₂, hfirst, h₁⟩ := ih₁.whole L₁ opened
  by_cases hpurpose : ∃ earlier, purpose = .behind earlier
  · obtain ⟨earlier, rfl⟩ := hpurpose
    cases h with
    | behind h =>
      obtain ⟨c₂, L₃, hjoin, h₂⟩ := exists_join h h₁ (2 * (opened + first.groupCount))
      obtain ⟨c, L', hsecond, hbuilds⟩ := ih₂ (.behind h₂) (opened + first.groupCount)
      refine ⟨c, L', ?_, ?_⟩
      · rw [assemble, run_bind_eq hfirst, run_bind_eq hjoin, hsecond, hslot]
      · refine hbuilds.of_eq (Nat.add_assoc _ _ _) ?_
        funext base
        rw [code, List.append_assoc, ← Nat.add_assoc base n]
  · obtain ⟨c₂, L₃, hsecond, h₂⟩ := ih₂ (.behind h₁) (opened + first.groupCount)
    obtain ⟨c, L', hfinish, hbuilds⟩ := exists_finish h h₂
      (2 * (opened + first.groupCount + second.groupCount))
    refine ⟨c, L', ?_, hbuilds⟩
    rw [assemble_concat fun earlier he => hpurpose ⟨earlier, he⟩, run_bind_eq hfirst,
      run_bind_eq hsecond, hfinish, hslot]

theorem assembles_alternate {first second : Pattern} (ih₁ : first.Assembles)
    (ih₂ : second.Assembles) : (alternate first second).Assembles := by
  intro purpose n g L L₁ h opened
  have hslot : 2 * (opened + first.groupCount + second.groupCount) =
      2 * (opened + (alternate first second).groupCount) := by
    rw [groupCount, Nat.add_assoc]
  by_cases hpurpose : ∃ earlier exit pending, purpose = .branch earlier exit pending
  · obtain ⟨earlier, exit, pending, rfl⟩ := hpurpose
    cases h with
    | branch h =>
      obtain ⟨c₁, L₂, hfirst, h₁⟩ := ih₁.whole L₁ opened
      obtain ⟨row, rest, L₃, hopen, h₂⟩ := exists_openBranch h h₁ (2 * (opened + first.groupCount))
      obtain ⟨c, L', hsecond, hbuilds⟩ := ih₂ (.branch h₂) (opened + first.groupCount)
      refine ⟨c, L', ?_, ?_⟩
      · rw [assemble, run_bind_eq hfirst, run_bind_eq hopen, hsecond, hslot]
      · refine hbuilds.of_eq (by rw [codeSize]; omega) ?_
        funext base
        rw [code, codeSize,
          show base + (n + first.codeSize + 2) = base + n + 2 + first.codeSize by omega,
          show base + n + first.codeSize + 2 = base + n + 2 + first.codeSize by omega,
          show base + n + (first.codeSize + second.codeSize + 2) =
            base + n + 2 + first.codeSize + second.codeSize by omega]
        simp
  · obtain ⟨c₁, L₂, hfirst, h₁⟩ := ih₁.whole L₁.add opened
    obtain ⟨row, rest, L₃, hopen, h₂⟩ := exists_openBranch (opens_nil L₁) h₁
      (2 * (opened + first.groupCount))
    obtain ⟨c₂, L₄, hsecond, h₃⟩ := ih₂ (.branch h₂) (opened + first.groupCount)
    have hchoice : Builds (alternate first second).codeSize
        ((alternate first second).code · opened) L₁ c₂ L₄ := by
      refine h₃.of_eq (by rw [codeSize]; omega) ?_
      funext base
      rw [code, show base + 0 + first.codeSize + 2 = base + 2 + first.codeSize by omega,
        show base + (0 + first.codeSize + 2) = base + 2 + first.codeSize by omega]
      simp
    obtain ⟨c, L', hfinish, hbuilds⟩ := exists_finish h hchoice
      (2 * (opened + first.groupCount + second.groupCount))
    refine ⟨c, L', ?_, hbuilds⟩
    rw [assemble_alternate fun earlier exit pending he => hpurpose ⟨earlier, exit, pending, he⟩,
      run_bind_eq (run_newFragment _ _ _), run_bind_eq hfirst, run_bind_eq hopen,
      run_bind_eq hsecond, hfinish, hslot]

theorem assembles_repeated {body : Pattern} (ih : body.Assembles) (quantifier : Quantifier)
    (greedy : Bool) : (repeated body quantifier greedy).Assembles := by
  intro purpose n g L L₁ h opened
  obtain ⟨c₁, L₂, hbody, h₁⟩ := ih.whole L₁ opened
  have hexit : c₁.exit < L₂.size := h₁.exit_lt
  cases quantifier with
  | star =>
    obtain ⟨c, L', hfinish, hbuilds⟩ := exists_finish h (h₁.star greedy)
      (2 * (opened + body.groupCount))
    refine ⟨c, L', ?_, hbuilds⟩
    rw [assemble, run_bind_eq hbody, run_bind_eq (run_entry _), run_bind_eq (run_newFragment _ _ _),
      run_bind_eq (run_newFragment _ _ _), run_bind_eq (run_newFragment _ _ _),
      run_bind_eq (run_join (by simp only [Labels.size_add]; omega))]
    exact hfinish
  | plus =>
    obtain ⟨c, L', hfinish, hbuilds⟩ := exists_finish h (h₁.plus greedy)
      (2 * (opened + body.groupCount))
    refine ⟨c, L', ?_, hbuilds⟩
    rw [assemble, run_bind_eq hbody, run_bind_eq (run_entry _), run_bind_eq (run_newFragment _ _ _),
      run_bind_eq (run_newFragment _ _ _),
      run_bind_eq (run_join (by simp only [Labels.size_add]; omega))]
    have hrow : c₁.code ++ [⟨L₂.add.size, .decide greedy c₁.entry L₂.size⟩, ⟨L₂.size, .accept⟩] =
        Chain.fragments ⟨c₁.head, c₁.tail ++ [⟨L₂.add.size, .decide greedy c₁.entry L₂.size⟩],
          L₂.size⟩ := by
      simp [Chain.fragments, Chain.code]
    rw [hrow]
    exact hfinish
  | optional =>
    obtain ⟨c, L', hfinish, hbuilds⟩ := exists_finish h (h₁.optional greedy)
      (2 * (opened + body.groupCount))
    refine ⟨c, L', ?_, hbuilds⟩
    rw [assemble, run_bind_eq hbody, run_bind_eq (run_entry _), run_bind_eq (run_newFragment _ _ _),
      run_bind_eq (run_newFragment _ _ _),
      run_bind_eq (run_join (by simp only [Labels.size_add]; omega))]
    exact hfinish

theorem assembles (e : Pattern) : e.Assembles := by
  induction e with
  | atom a => exact assembles_atom a
  | group body ih => exact assembles_group ih
  | concat first second ih₁ ih₂ => exact assembles_concat ih₁ ih₂
  | alternate first second ih₁ ih₂ => exact assembles_alternate ih₁ ih₂
  | repeated body quantifier greedy ih => exact assembles_repeated ih quantifier greedy

end Pattern

end Lockstep

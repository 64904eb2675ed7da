import Lockstep.Proofs.Failure
import Lockstep.Proofs.Program.Splicing
import Mathlib.Logic.Relation

/-!
# Where labels lead

When the row of a whole pattern is linked, following the forwarding of a label ends, and for the
labels that are named it ends at a fragment. The forwarding has no circles since a path that went
round one would not end; and a label that led out of the row could be given any position, while the
code that the row becomes depends only on where its own labels are placed.

* `Labels.Settled.not_transGen`, `Labels.reflTransGen_of_iterate`: paths along the forwarding.
* `Emits.resolve_mem`: a label that is named leads to one of the chain.
* `Emits.link?_eq`: a chain that has been built passes the checks of linking.
* `Pattern.assemble_links`: building and linking rows never fails, and gives the program of the
  pattern.
-/

namespace Lockstep

namespace Labels

variable {L : Labels} {l target : Nat}

theorem getElem?_table (h : l < L.size) : L.table[l]? = some (L.apply l) := by
  have hl : L.table[l]? = some L.table[l] := Array.getElem?_eq_getElem h
  rw [apply, hl, Option.getD_some]

theorem Forwards.apply_eq (h : L.Forwards l target) : L.apply l = target ∧ ¬ L.IsFinal l := by
  have happly : L.apply l = target := by rw [apply, h.1, Option.getD_some]
  exact ⟨happly, fun hl => h.2 (happly.symm.trans hl)⟩

/-- A row of forwardings is the forwarding again and again. -/
theorem exists_iterate_of_transGen (h : Relation.TransGen L.Forwards l target) :
    ¬ L.IsFinal l ∧ ∃ n, L.apply^[n + 1] l = target := by
  induction h with
  | single h => exact ⟨h.apply_eq.2, 0, h.apply_eq.1⟩
  | tail _ h ih =>
    obtain ⟨hl, n, hn⟩ := ih
    refine ⟨hl, n + 1, ?_⟩
    rw [Function.iterate_succ_apply', hn, h.apply_eq.1]

/-- Forwarding does not come back to where it was. -/
theorem Settled.not_transGen (h : L.Settled) : ¬ Relation.TransGen L.Forwards l l := by
  intro hl
  obtain ⟨hfinal, n, hn⟩ := exists_iterate_of_transGen hl
  -- Going round often enough takes more steps than there are before a path ends.
  have hround : L.apply^[(n + 1) * L.forwarded.card] l = l := by
    rw [Function.iterate_mul]
    exact Function.iterate_fixed hn _
  have hle : L.forwarded.card ≤ (n + 1) * L.forwarded.card :=
    Nat.le_mul_of_pos_left _ (Nat.succ_pos n)
  have hend : L.apply^[(n + 1) * L.forwarded.card] l = L.apply^[L.forwarded.card] l := by
    rw [h.iterate_eq_resolve hle, h.iterate_eq_resolve (Nat.le_refl _)]
  exact hfinal (hround.symm.trans hend ▸ h l)

/-- The forwarding from a label only goes through labels that have been handed out. -/
theorem reflTransGen_of_iterate {n : Nat} (h : L.apply^[n] l = target) :
    Relation.ReflTransGen L.Forwards l target := by
  induction n generalizing l with
  | zero => exact h ▸ .refl
  | succ n ih =>
    by_cases hl : L.IsFinal l
    · rw [iterate_of_isFinal hl] at h
      exact h ▸ .refl
    · have hlt : l < L.size := Nat.lt_of_not_le fun hle => hl (isFinal_of_size_le hle)
      exact .head ⟨getElem?_table hlt, hl⟩ (ih h)

end Labels

namespace Instruction

variable {i : Instruction} {π π' : Nat → Nat} {t : Nat}

theorem eq_of_mapTargets_eq (h : i.mapTargets π = i.mapTargets π') (ht : t ∈ i.targets) :
    π t = π' t := by
  cases i with
  | jump target =>
    obtain rfl := List.mem_singleton.1 ht
    exact jump.inj h
  | split first second =>
    rcases List.mem_pair.1 ht with rfl | rfl
    · exact (split.inj h).1
    · exact (split.inj h).2
  | _ => cases ht

theorem mapTargets?_eq_some {position? : Nat → Option Nat}
    (h : ∀ t ∈ i.targets, position? t = some (π t)) :
    i.mapTargets? position? = some (i.mapTargets π) := by
  cases i with
  | jump target => simp [mapTargets?, mapTargets, h target (by simp [targets])]
  | split first second =>
    simp [mapTargets?, mapTargets, h first (by simp [targets]), h second (by simp [targets])]
  | _ => rfl

end Instruction

section Link

variable {n : Nat} {f : Nat → List Instruction} {c : Chain} {L : Labels} {fragment : Fragment}
  {t : Nat}

/-- The labels that are named in a chain lead to labels of the chain. For the code that it becomes
depends only on where these are placed, so that no instruction can name a label that leads
elsewhere. -/
theorem Emits.resolve_mem (h : Emits n f .none c L) (hf : fragment ∈ c.code)
    (ht : t ∈ fragment.instruction.targets) : L.resolve t ∈ c.labels := by
  have hsettled : L.Settled := h.grows.settled Labels.settled_none
  let π (elsewhere : Nat) (l : Nat) : Nat :=
    if L.resolve l ∈ c.labels then c.labels.idxOf (L.resolve l) else elsewhere
  have hrespects (elsewhere : Nat) : Labels.Respects (π elsewhere) .none L := fun l _ _ => by
    simp only [π, hsettled.resolve_apply]
  have hplaced (elsewhere : Nat) : Placed (π elsewhere) 0 c.labels := by
    refine placed_of_getElem fun k hk => ?_
    have hmem : c.labels[k] ∈ c.labels := List.getElem_mem hk
    simp only [π, Labels.resolve_of_isFinal (h.grows.isFinal _ hmem), if_pos hmem, Nat.zero_add]
    exact h.grows.nodup.idxOf_getElem k hk
  have hcode := (h.code_eq (π 0) 0 (hrespects 0) (hplaced 0)).trans
    (h.code_eq (π 1) 0 (hrespects 1) (hplaced 1)).symm
  have heq : π 0 t = π 1 t :=
    Instruction.eq_of_mapTargets_eq (List.map_inj_left.1 hcode fragment hf) ht
  by_contra hmem
  simp [π, hmem] at heq

theorem Emits.resolve_mem_fragments (h : Emits n f .none c L) (hf : fragment ∈ c.fragments)
    (ht : t ∈ fragment.instruction.targets) : L.resolve t ∈ c.labels := by
  rcases List.mem_append.1 hf with hf | hf
  · exact h.resolve_mem hf ht
  · obtain rfl := List.mem_singleton.1 hf
    cases ht

/-- Where a label leads that leads to one of the chain, forwarding ends. -/
theorem Emits.getElem?_table_resolve (h : Emits n f .none c L) (ht : L.resolve t ∈ c.labels) :
    L.table[L.resolve t]? = some (L.resolve t) := by
  have hfinal : L.apply (L.resolve t) = L.resolve t := h.grows.isFinal _ ht
  rw [Labels.getElem?_table (h.grows.mem_bounds _ ht).2, hfinal]

/-- A label that leads to one of the chain has the position that linking gives it. -/
theorem Emits.position?_eq (h : Emits n f .none c L) (ht : L.resolve t ∈ c.labels) :
    Row.position? L c.fragments t =
      some ((Chain.positions L c.fragments)[L.resolve t]?.getD c.size) := by
  have hlast := h.getElem?_table_resolve ht
  have hnodup := h.grows.nodup
  have hbounds := h.grows.mem_bounds
  rw [Chain.labels_eq_map] at ht hnodup hbounds
  obtain ⟨k, hk, hlabel⟩ := List.getElem_of_mem ht
  rw [List.length_map] at hk
  rw [List.getElem_map] at hlabel
  have hplaced : (Chain.positions L c.fragments)[L.resolve t]? = some k := by
    rw [← hlabel]
    exact Chain.getElem?_positions hnodup
      (fun g hg => (hbounds _ (List.mem_map_of_mem hg)).2) hk
  simp [Row.position?, Labels.resolve?, hlast, hplaced, hk]

/-- A chain that has been built passes the checks of linking. -/
theorem Emits.link?_eq (h : Emits n f .none c L) :
    Row.link? L c.fragments = some (f 0 ++ [Instruction.accept]) := by
  have hlabels : ∀ fragment ∈ c.fragments, fragment.label < L.size := fun fragment hf =>
    (h.grows.mem_bounds _ (c.labels_eq_map ▸ List.mem_map_of_mem hf)).2
  have hlink : c.fragments.map (·.instruction.mapTargets
      fun label => (Chain.positions L c.fragments)[L.resolve label]?.getD c.size) =
      f 0 ++ [Instruction.accept] := congrArg Array.toList (Chain.link_of_emits h)
  rw [← hlink, Row.link?, show guard _ = some () from if_pos hlabels]
  exact mapM_eq_some_map fun fragment hf => Instruction.mapTargets?_eq_some fun t ht =>
    h.position?_eq (h.resolve_mem_fragments hf ht)

end Link

namespace Pattern

/-- Whatever labels have been handed out before, the row of a pattern is built without a failing
check: at least two fragments with labels of their own, of which the last accepts and no other.
When a whole pattern is linked, forwarding does not go round in circles, every label that is named
leads to a fragment of the row, so that no check of linking fails either, and the instructions are
those of the program of the pattern. -/
theorem assemble_links (e : Pattern) :
    (∀ labels opened, ∃ row s, (e.assemble .whole).run ⟨labels, 2 * opened⟩ = some (row, s) ∧
      2 ≤ row.length ∧ (row.map Fragment.label).Nodup ∧
      (row.map Fragment.instruction).count .accept = 1 ∧
      (row.map Fragment.instruction).getLast? = some .accept) ∧
    ∃ row s body, (e.assemble .whole).run ⟨.none, 0⟩ = some (row, s) ∧
      (∀ l, ¬ Relation.TransGen s.labels.Forwards l l) ∧
      (∀ fragment ∈ row, ∀ t ∈ fragment.instruction.targets, ∃ last ∈ row,
        Relation.ReflTransGen s.labels.Forwards t last.label ∧
        s.labels.table[last.label]? = some last.label) ∧
      Row.link? s.labels row = some body ∧
      ∀ limit, Program.ofPattern limit e =
        if limit < row.length then .error (.tooLarge row.length limit)
        else .ok (.ofBody body.toArray) := by
  refine ⟨fun labels opened => ?_, ?_⟩
  · obtain ⟨c, L, hrun, hbuilds⟩ := Assembles.whole e.assembles labels opened
    exact ⟨_, _, hrun, hbuilds.row_in_order⟩
  · obtain ⟨c, L, hrun, hbuilds⟩ := Assembles.whole e.assembles .none 0
    have hemits := hbuilds.toEmits
    have hsettled : L.Settled := hemits.grows.settled Labels.settled_none
    refine ⟨_, _, _, hrun, fun l => hsettled.not_transGen, fun fragment hf t ht => ?_,
      hemits.link?_eq, fun limit => ?_⟩
    · have hmem := hemits.resolve_mem_fragments hf ht
      have hlast := hemits.getElem?_table_resolve hmem
      rw [c.labels_eq_map] at hmem
      obtain ⟨last, hlast', hlabel⟩ := List.mem_map.1 hmem
      rw [← hlabel] at hlast
      refine ⟨last, hlast', Labels.reflTransGen_of_iterate (n := L.size) ?_, hlast⟩
      rw [hlabel, Labels.resolve, Labels.follow_eq_iterate]
    · have hlength : c.fragments.length = e.codeSize + 1 := by
        simp [Chain.fragments, hemits.length_eq]
      rw [Program.ofPattern_eq, hlength]
      rfl

end Pattern

end Lockstep

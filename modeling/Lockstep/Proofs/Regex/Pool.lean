import Lockstep.Regex.Pool
import Mathlib.Data.List.Perm.Basic
import Mathlib.Data.List.Nodup

/-!
# Exclusive keepers

* `Keeper.Reaches.append_perm_range`: the numbers that a stack has given to values.
* `Keeper.exclusive_stack`: the keeper who lends what has been given back last is exclusive.
-/

namespace Lockstep.Keeper

/-- Each value that a stack has made is either lent or to be lent, and only once. -/
theorem Reaches.append_perm_range {s : stack.State} {out : List Nat} (h : stack.Reaches s out) :
    (out ++ s.2).Perm (List.range s.1) := by
  induction h with
  | initial => exact .nil
  | @lend s out _ ih =>
    obtain ⟨made, _ | ⟨number, idle⟩⟩ := s
    · rw [List.append_nil] at ih
      show ((made :: out) ++ []).Perm (List.range (made + 1))
      rw [List.append_nil, List.range_succ]
      exact (ih.cons made).trans (List.perm_append_singleton made _).symm
    · exact List.perm_middle.symm.trans ih
  | @giveBack s out number _ hmem ih =>
    refine List.perm_middle.trans (.trans ?_ ih)
    exact (List.perm_cons_erase hmem).symm.append_right s.2

theorem exclusive_stack : stack.Exclusive := by
  rintro ⟨made, _ | ⟨number, idle⟩⟩ out h hmem
  · have hlt := (h.append_perm_range.mem_iff.1 (List.mem_append_left _ hmem))
    exact absurd (List.mem_range.1 hlt) (Nat.lt_irrefl made)
  · have hnodup := h.append_perm_range.nodup_iff.2 List.nodup_range
    exact List.disjoint_of_nodup_append hnodup hmem List.mem_cons_self

end Lockstep.Keeper

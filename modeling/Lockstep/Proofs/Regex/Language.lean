import Lockstep.Pattern.Language
import Lockstep.Proofs.Machine.Acceptance
import Lockstep.Proofs.Program.Implements
import Lockstep.Proofs.Regex.Build

/-!
# Matching and the language of a pattern

The code of a pattern leads from its entry to its exit over just the words of its language. In one
direction, a run through the code is taken apart along the pattern; a loop is taken apart by the
number of steps, since its body may consume nothing. In the other direction, runs through the parts
are put together.

* `Program.Passes`: a run passes a word of a language on the way to an exit.
* `Program.Implements.passes`: a run through the code of a pattern passes a word of its language.
* `Program.Implements.exists_accepts`: every word of the language is passed by some run.
* `Regex.matchLength_eq_none_iff_language`: when a regex matches, and how long its matches are.
-/

namespace Lockstep

open scoped Computability

/-- The positions behind a decision. -/
theorem Instruction.next?_decide (greedy : Bool) (again onwards q : Nat) :
    ∃ next, (decide greedy again onwards).next? q = some next ∧
      ∀ z, z ∈ next ↔ z = again ∨ z = onwards := by
  cases greedy with
  | true => exact ⟨_, rfl, by simp⟩
  | false => exact ⟨_, rfl, by simp [or_comm]⟩

namespace Program

/-- A run of `n` steps over `cells`, with `rest` left over, passes a word of a language and then
comes to the position `exit`. -/
def Passes (p : Program) (l : Language Char) (exit n : Nat) (cells rest : List Cell) : Prop :=
  ∃ word cells' m, cells = word ++ cells' ∧ word.map Cell.char ∈ l ∧ m < n ∧
    p.Accepts m cells' exit rest

variable {p : Program} {l l' : Language Char} {n m exit mid : Nat} {cells rest : List Cell}

theorem Passes.mono (h : p.Passes l exit n cells rest) (hsub : l ≤ l') (hle : n ≤ m) :
    p.Passes l' exit m cells rest := by
  obtain ⟨word, cells', k, rfl, hword, hlt, hacc⟩ := h
  exact ⟨word, cells', k, rfl, Set.mem_of_mem_of_subset hword hsub, hlt.trans_le hle, hacc⟩

/-- A run that passes one word and then another passes their concatenation. -/
theorem Passes.mul (h : p.Passes l mid n cells rest)
    (h' : ∀ m < n, ∀ cells, p.Accepts m cells mid rest → p.Passes l' exit m cells rest) :
    p.Passes (l * l') exit n cells rest := by
  obtain ⟨word, cells', k, rfl, hword, hlt, hacc⟩ := h
  obtain ⟨word', cells'', k', rfl, hword', hlt', hacc'⟩ := h' k hlt cells' hacc
  refine ⟨word ++ word', cells'', k', (List.append_assoc _ _ _).symm, ?_, hlt'.trans hlt, hacc'⟩
  rw [List.map_append]
  exact Language.append_mem_mul hword hword'

/-- A run that comes to the exit at once passes the empty word. -/
theorem Passes.nil (hnil : [] ∈ l) (hlt : m < n) (h : p.Accepts m cells exit rest) :
    p.Passes l exit n cells rest := ⟨[], cells, m, rfl, hnil, hlt, h⟩

/-- A run that passes a word may go on to another exit. -/
theorem Passes.step (h : p.Passes l mid n cells rest)
    (h' : ∀ m cells, p.Accepts m cells mid rest → ∃ k < m, p.Accepts k cells exit rest) :
    p.Passes l exit n cells rest := by
  obtain ⟨word, cells', m, rfl, hword, hlt, hacc⟩ := h
  obtain ⟨k, hk, hacc'⟩ := h' m cells' hacc
  exact ⟨word, cells', k, rfl, hword, hk.trans hlt, hacc'⟩

/-- A run that leaves a loop or else passes a word and comes back passes any number of words. -/
theorem Passes.kstar {loop : Nat}
    (hloop : ∀ n cells, p.Accepts n cells loop rest →
      (∃ m < n, p.Accepts m cells exit rest) ∨ p.Passes l loop n cells rest)
    (h : p.Accepts n cells loop rest) : p.Passes l∗ exit n cells rest := by
  -- The induction is on the steps and not on the cells, as a word may be empty.
  induction n using Nat.strongRecOn generalizing cells with
  | ind n ih =>
    rcases hloop n cells h with ⟨m, hlt, hacc⟩ | hpass
    · exact .nil (Language.nil_mem_kstar l) hlt hacc
    · exact (hpass.mul fun m hlt cells' => ih m hlt).mono mul_kstar_le_kstar le_rfl

section Steps

variable {q target slot again onwards : Nat} {greedy : Bool}

theorem Accepts.of_jump (h : p.Accepts n cells q rest) (hi : p.body[q]? = some (.jump target)) :
    ∃ m < n, p.Accepts m cells target rest := by
  obtain ⟨m, hlt, z, hz, hacc⟩ := h.of_follow hi rfl
  exact ⟨m, hlt, List.mem_singleton.1 hz ▸ hacc⟩

theorem Accepts.of_save (h : p.Accepts n cells q rest) (hi : p.body[q]? = some (.save slot)) :
    ∃ m < n, p.Accepts m cells (q + 1) rest := by
  obtain ⟨m, hlt, z, hz, hacc⟩ := h.of_follow hi rfl
  exact ⟨m, hlt, List.mem_singleton.1 hz ▸ hacc⟩

theorem Accepts.of_decide (h : p.Accepts n cells q rest)
    (hi : p.body[q]? = some (.decide greedy again onwards)) :
    ∃ m < n, p.Accepts m cells again rest ∨ p.Accepts m cells onwards rest := by
  obtain ⟨next, hn, hmem⟩ := Instruction.next?_decide greedy again onwards q
  obtain ⟨m, hlt, z, hz, hacc⟩ := h.of_follow hi hn
  rcases (hmem z).1 hz with rfl | rfl
  · exact ⟨m, hlt, Or.inl hacc⟩
  · exact ⟨m, hlt, Or.inr hacc⟩

theorem Accepts.of_split {fst snd : Nat} (h : p.Accepts n cells q rest)
    (hi : p.body[q]? = some (.split fst snd)) :
    ∃ m < n, p.Accepts m cells fst rest ∨ p.Accepts m cells snd rest :=
  h.of_decide (show p.body[q]? = some (.decide true fst snd) from hi)

end Steps

/-- A run through the code of a pattern passes a word of its language. -/
theorem Implements.passes {e : Pattern} {opened entry : Nat}
    (h : p.Implements e opened entry exit) (hacc : p.Accepts n cells entry rest) :
    p.Passes e.language exit n cells rest := by
  induction h generalizing n cells with
  | @atom a opened entry hi =>
    obtain ⟨m, hlt, cell, cells', rfl, ha, hacc⟩ :=
      hacc.of_consume hi (a.next?_instruction _) a.instruction_ne_accept
    rw [a.accepts_instruction] at ha
    exact ⟨[cell], cells', m, rfl, ⟨_, ha, rfl⟩, hlt, hacc⟩
  | group hopen hbody hclose ih =>
    obtain ⟨m, hlt, hacc⟩ := hacc.of_save hopen
    exact ((ih hacc).step fun k cells h => h.of_save hclose).mono le_rfl hlt.le
  | concat hfirst hsecond ih₁ ih₂ => exact (ih₁ hacc).mul fun m _ cells' => ih₂
  | alternate hsplit hfirst hjump hsecond ih₁ ih₂ =>
    obtain ⟨m, hlt, hacc | hacc⟩ := hacc.of_split hsplit
    · exact ((ih₁ hacc).step fun k cells h => h.of_jump hjump).mono (fun w => Or.inl) hlt.le
    · exact (ih₂ hacc).mono (fun w => Or.inr) hlt.le
  | star hdecide hbody hjump ih =>
    refine Passes.kstar (fun n cells hacc => ?_) hacc
    obtain ⟨m, hlt, hacc | hacc⟩ := hacc.of_decide hdecide
    · exact Or.inr (((ih hacc).step fun k cells h => h.of_jump hjump).mono le_rfl hlt.le)
    · exact Or.inl ⟨m, hlt, hacc⟩
  | plus hbody hdecide ih =>
    refine (ih hacc).mul fun m _ cells' => Passes.kstar fun n cells hacc => ?_
    obtain ⟨m, hlt, hacc | hacc⟩ := hacc.of_decide hdecide
    · exact Or.inr ((ih hacc).mono le_rfl hlt.le)
    · exact Or.inl ⟨m, hlt, hacc⟩
  | optional hdecide hbody ih =>
    obtain ⟨m, hlt, hacc | hacc⟩ := hacc.of_decide hdecide
    · exact (ih hacc).mono (fun w => Or.inr) hlt.le
    · exact .nil (Or.inl Language.nil_mem_one) hlt hacc

/-! ### From words to runs -/

section Compose

variable {q target slot again onwards : Nat} {greedy : Bool} {word : List Cell}

theorem exists_accepts_of_jump (hi : p.body[q]? = some (.jump target))
    (h : ∃ n, p.Accepts n cells target rest) : ∃ n, p.Accepts n cells q rest :=
  let ⟨n, h⟩ := h
  ⟨n + 1, .follow hi rfl (List.mem_singleton_self _) h⟩

theorem exists_accepts_of_save (hi : p.body[q]? = some (.save slot))
    (h : ∃ n, p.Accepts n cells (q + 1) rest) : ∃ n, p.Accepts n cells q rest :=
  let ⟨n, h⟩ := h
  ⟨n + 1, .follow hi rfl (List.mem_singleton_self _) h⟩

theorem exists_accepts_of_decide (hi : p.body[q]? = some (.decide greedy again onwards))
    (h : (∃ n, p.Accepts n cells again rest) ∨ ∃ n, p.Accepts n cells onwards rest) :
    ∃ n, p.Accepts n cells q rest := by
  obtain ⟨next, hn, hmem⟩ := Instruction.next?_decide greedy again onwards q
  rcases h with ⟨n, h⟩ | ⟨n, h⟩
  · exact ⟨n + 1, .follow hi hn ((hmem _).2 (Or.inl rfl)) h⟩
  · exact ⟨n + 1, .follow hi hn ((hmem _).2 (Or.inr rfl)) h⟩

theorem exists_accepts_of_split {fst snd : Nat} (hi : p.body[q]? = some (.split fst snd))
    (h : (∃ n, p.Accepts n cells fst rest) ∨ ∃ n, p.Accepts n cells snd rest) :
    ∃ n, p.Accepts n cells q rest :=
  exists_accepts_of_decide (show p.body[q]? = some (.decide true fst snd) from hi) h

/-- Runs through a loop are put together to runs that pass any number of words. -/
theorem exists_accepts_of_mem_kstar {loop : Nat}
    (hloop : ∀ word cells, word.map Cell.char ∈ l →
      (∃ n, p.Accepts n cells loop rest) → ∃ n, p.Accepts n (word ++ cells) loop rest)
    (h : ∃ n, p.Accepts n cells loop rest) (hword : word.map Cell.char ∈ l∗) :
    ∃ n, p.Accepts n (word ++ cells) loop rest := by
  obtain ⟨words, heq, hwords⟩ := Language.mem_kstar.1 hword
  induction words generalizing word with
  | nil =>
    rw [List.flatten_nil, List.map_eq_nil_iff] at heq
    rwa [heq, List.nil_append]
  | cons w words ih =>
    obtain ⟨hw, hrest⟩ := List.forall_mem_cons.1 hwords
    rw [List.flatten_cons, List.map_eq_append_iff] at heq
    obtain ⟨u, v, rfl, rfl, hv⟩ := heq
    rw [List.append_assoc]
    exact hloop u _ hw (ih (Language.mem_kstar.2 ⟨words, hv, hrest⟩) hv hrest)

end Compose

/-- For every word of its language there is a run through the code of a pattern. -/
theorem Implements.exists_accepts {e : Pattern} {opened entry : Nat} {word : List Cell}
    (h : p.Implements e opened entry exit) (hword : word.map Cell.char ∈ e.language)
    (hexit : ∃ n, p.Accepts n cells exit rest) : ∃ n, p.Accepts n (word ++ cells) entry rest := by
  induction h generalizing word cells with
  | @atom a opened entry hi =>
    obtain ⟨c, ha, heq⟩ := Pattern.mem_language_atom.1 hword
    obtain ⟨cell, rfl, rfl⟩ := List.map_eq_singleton_iff.1 heq
    obtain ⟨n, hacc⟩ := hexit
    rw [← a.accepts_instruction] at ha
    exact ⟨n + 1, .consume hi ha hacc⟩
  | group hopen hbody hclose ih =>
    exact exists_accepts_of_save hopen (ih hword (exists_accepts_of_save hclose hexit))
  | concat hfirst hsecond ih₁ ih₂ =>
    obtain ⟨u, hu, v, hv, heq⟩ := Language.mem_mul.1 hword
    obtain ⟨word₁, word₂, rfl, rfl, rfl⟩ := List.map_eq_append_iff.1 heq.symm
    rw [List.append_assoc]
    exact ih₁ hu (ih₂ hv hexit)
  | alternate hsplit hfirst hjump hsecond ih₁ ih₂ =>
    refine exists_accepts_of_split hsplit ?_
    rcases (Language.mem_add _ _ _).1 hword with hword | hword
    · exact Or.inl (ih₁ hword (exists_accepts_of_jump hjump hexit))
    · exact Or.inr (ih₂ hword hexit)
  | star hdecide hbody hjump ih =>
    refine exists_accepts_of_mem_kstar (fun u cells hu h => ?_)
      (exists_accepts_of_decide hdecide (Or.inr hexit)) hword
    exact exists_accepts_of_decide hdecide (Or.inl (ih hu (exists_accepts_of_jump hjump h)))
  | plus hbody hdecide ih =>
    obtain ⟨u, hu, v, hv, heq⟩ := Language.mem_mul.1 hword
    obtain ⟨word₁, word₂, rfl, rfl, rfl⟩ := List.map_eq_append_iff.1 heq.symm
    rw [List.append_assoc]
    refine ih hu (exists_accepts_of_mem_kstar (fun u cells hu h => ?_)
      (exists_accepts_of_decide hdecide (Or.inr hexit)) hv)
    exact exists_accepts_of_decide hdecide (Or.inl (ih hu h))
  | optional hdecide hbody ih =>
    refine exists_accepts_of_decide hdecide ?_
    rcases (Language.mem_add _ _ _).1 hword with hnil | hword
    · rw [Language.mem_one, List.map_eq_nil_iff] at hnil
      exact Or.inr (by rwa [hnil, List.nil_append])
    · exact Or.inl (ih hword hexit)

/-! ### The layout of a pattern -/

/-- What is found in the layout of a pattern ends behind a word of its language. -/
theorem exists_word_of_mem_explore {e : Pattern} {offset : Nat} {thread : Thread} {f : Found}
    (h : f ∈ (layout e).explore cells offset thread []) (hstart : thread.position = 0) :
    ∃ word, word <+: cells ∧ word.map Cell.char ∈ e.language ∧
      f.finish = offset + totalWidth word := by
  obtain ⟨n, rest, hacc, hwidth⟩ := exists_accepts h
  rw [hstart] at hacc
  obtain ⟨word, cells', m, rfl, hword, -, hacc'⟩ := (implements_layout e).passes hacc
  obtain rfl := hacc'.eq_of_accept (getElem?_layout_codeSize e)
  refine ⟨word, List.prefix_append _ _, hword, ?_⟩
  rw [totalWidth_append] at hwidth
  omega

/-- Where a word of its language begins, the layout of a pattern finds something. -/
theorem explore_layout_ne_nil {e : Pattern} {word : List Cell} (offset : Nat) {thread : Thread}
    (hword : word.map Cell.char ∈ e.language) (hpre : word <+: cells)
    (hstart : thread.position = 0) : (layout e).explore cells offset thread [] ≠ [] := by
  obtain ⟨rest, rfl⟩ := hpre
  obtain ⟨n, hacc⟩ := (implements_layout e).exists_accepts hword
    ⟨0, .accept (getElem?_layout_codeSize e)⟩
  exact explore_ne_nil (hstart ▸ hacc) offset

end Program

namespace Regex

/-- A regex that is built from a pattern matches at the start of a text just if a prefix of the text
belongs to the language of the pattern, and the match is as long as such a prefix. -/
theorem matchLength_eq_none_iff_language {options : Options} {pattern : Text} {re : Regex}
    (h : build options (.pattern pattern) = .ok re) (s : Searching re) (t : Text) :
    ∃ e, Pattern.ofText pattern = .ok e ∧
      (((re.matchLength t).run s).1 = none ↔
        ∀ word, word <+: t.cells → word.map Cell.char ∉ e.language) ∧
      ∀ n, ((re.matchLength t).run s).1 = some n →
        ∃ word, word <+: t.cells ∧ word.map Cell.char ∈ e.language ∧ n = totalWidth word := by
  obtain ⟨e, he, -, rfl⟩ := build_pattern_eq_ok_iff.1 h
  refine ⟨e, he, ?_, fun n hn => ?_⟩
  · rw [matchLength_eq, Option.map_eq_none_iff, firstMatch, List.head?_eq_none_iff]
    constructor
    · intro hnil word hpre hword
      exact Program.explore_layout_ne_nil 0 hword hpre rfl hnil
    · intro hnone
      refine List.eq_nil_iff_forall_not_mem.2 fun f hf => ?_
      obtain ⟨word, hpre, hword, -⟩ := Program.exists_word_of_mem_explore hf rfl
      exact hnone word hpre hword
  · rw [matchLength_eq, Option.map_eq_some_iff] at hn
    obtain ⟨f, hf, rfl⟩ := hn
    rw [firstMatch] at hf
    obtain ⟨word, hpre, hword, hfinish⟩ :=
      Program.exists_word_of_mem_explore (List.mem_of_head? hf) rfl
    exact ⟨word, hpre, hword, by rw [hfinish, Nat.zero_add]⟩

/-- A loop over a body that may match the empty word is no exception. -/
theorem matchLength_nullable_loop :
    ∃ re, build {} (.pattern (.wide "(a*)*")) = .ok re ∧
      ∃ e, Pattern.ofText (.wide "(a*)*") = .ok e ∧
        (((re.matchLength (.wide "aab")).run (.initial re)).1 = none ↔
          ∀ word, word <+: (Text.wide "aab").cells → word.map Cell.char ∉ e.language) ∧
        ∀ n, ((re.matchLength (.wide "aab")).run (.initial re)).1 = some n →
          ∃ word, word <+: (Text.wide "aab").cells ∧ word.map Cell.char ∈ e.language ∧
            n = totalWidth word := by
  have hbuild : build {} (.pattern (.wide "(a*)*")) = .ok ⟨some "(a*)*", .layout
      (.repeated (.group (.repeated (.atom (.literal 'a')) .star true)) .star true), false⟩ :=
    build_pattern_eq_ok_iff.2 ⟨_, rfl, by decide, rfl⟩
  exact ⟨_, hbuild, matchLength_eq_none_iff_language hbuild (.initial _) (.wide "aab")⟩

end Regex

end Lockstep

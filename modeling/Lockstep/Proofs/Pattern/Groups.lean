import Lockstep.Pattern.Backtracking
import Lockstep.Pattern.Language
import Lockstep.Proofs.Machine.Acceptance

/-!
# What is saved for groups

A thread that goes through the code of a pattern opens and closes the groups of the pattern in
turn, and overwrites what it has saved when it comes to a group again. Between two parts of the
pattern no group of either is open, so each of them has two offsets or none, and those of a group
that has two enclose a word of its body.

* `Pattern.groups`: the bodies of the groups of a pattern; `Pattern.Encloses`: which groups stand
  in the body of another.
* `Pattern.Traverses`: how a thread gets through the code of a pattern.
* `Recorded`: what a thread has saved for the groups of a pattern, between two parts of it.
* `Pattern.Traverses.sameOutside`, `Pattern.Traverses.recorded`: nothing is saved for other groups,
  and what is saved for those of the pattern is in order.
-/

namespace Lockstep

/-! ### Groups -/

namespace Pattern

/-- The bodies of the groups of a pattern, in the order of their opening parentheses. -/
def groups : Pattern → List Pattern
  | atom _ => []
  | group body => body :: body.groups
  | concat first second => first.groups ++ second.groups
  | alternate first second => first.groups ++ second.groups
  | repeated body _ _ => body.groups

@[simp] theorem length_groups (e : Pattern) : e.groups.length = e.groupCount := by
  induction e with
  | atom a => rfl
  | group body ih => simp [groups, groupCount, ih]
  | concat first second ih₁ ih₂ => simp [groups, groupCount, ih₁, ih₂]
  | alternate first second ih₁ ih₂ => simp [groups, groupCount, ih₁, ih₂]
  | repeated body quantifier greedy ih => exact ih

/-- Whether group `k` stands in the body of group `j`. The groups in a body are opened right after
it, before any other group. -/
def Encloses (e : Pattern) (j k : Nat) : Prop :=
  ∃ body, e.groups[j]? = some body ∧ j < k ∧ k ≤ j + body.groupCount

/-! ### Ways through a pattern -/

/-- `e.Traverses opened a b` says that a thread may come to the code of `e` as `a` and leave it as
`b`; `opened` opening parentheses stand before the pattern. -/
inductive Traverses : Pattern → Nat → Attempt → Attempt → Prop
  | atom {atom opened cell rest offset slots} : atom.accepts cell.char = true →
    Traverses (.atom atom) opened ⟨cell :: rest, offset, slots⟩ ⟨rest, offset + cell.width, slots⟩
  | group {body opened a b} : Traverses body (opened + 1) (a.save (2 * opened)) b →
    Traverses (.group body) opened a (b.save (2 * opened + 1))
  | concat {first second opened a b c} : Traverses first opened a b →
    Traverses second (opened + first.groupCount) b c → Traverses (.concat first second) opened a c
  | left {first second opened a b} : Traverses first opened a b →
    Traverses (.alternate first second) opened a b
  | right {first second opened a b} : Traverses second (opened + first.groupCount) a b →
    Traverses (.alternate first second) opened a b
  | done {body greedy opened a} : Traverses (.repeated body .star greedy) opened a a
  | again {body greedy opened a b c} : Traverses body opened a b →
    Traverses (.repeated body .star greedy) opened b c →
    Traverses (.repeated body .star greedy) opened a c
  | plus {body greedy opened a b c} : Traverses body opened a b →
    Traverses (.repeated body .star greedy) opened b c →
    Traverses (.repeated body .plus greedy) opened a c
  | absent {body greedy opened a} : Traverses (.repeated body .optional greedy) opened a a
  | present {body greedy opened a b} : Traverses body opened a b →
    Traverses (.repeated body .optional greedy) opened a b

end Pattern

/-- Nothing is saved for a group. -/
def Slots.Unset (slots : Slots) (k : Nat) : Prop :=
  slots[2 * k]? = some none ∧ slots[2 * k + 1]? = some none

/-- The two offsets that are saved for a group. -/
def Slots.Holds (slots : Slots) (k a b : Nat) : Prop :=
  slots[2 * k]? = some (some a) ∧ slots[2 * k + 1]? = some (some b)

/-- The offsets `a` and `b` enclose a word of a language among the cells `passed`, of which the
first starts at offset `start`. -/
def Spans (start : Nat) (passed : List Cell) (l : Language Char) (a b : Nat) : Prop :=
  ∃ before word after, passed = before ++ word ++ after ∧ a = start + totalWidth before ∧
    b = a + totalWidth word ∧ word.map Cell.char ∈ l

/-- What a thread that has passed some cells has saved for the groups of a pattern, in front of
which `opened` groups are opened. If nothing is saved for a group, then nothing is saved for the
groups in its body. -/
def Recorded (start : Nat) (passed : List Cell) (slots : Slots) : Pattern → Nat → Prop
  | .atom _, _ => True
  | .group body, opened => Recorded start passed slots body (opened + 1) ∧
    ((slots.Unset opened ∧ ∀ k, opened < k → k ≤ opened + body.groupCount → slots.Unset k) ∨
      ∃ a b, slots.Holds opened a b ∧ Spans start passed body.language a b)
  | .concat first second, opened | .alternate first second, opened =>
    Recorded start passed slots first opened ∧
      Recorded start passed slots second (opened + first.groupCount)
  | .repeated body _ _, opened => Recorded start passed slots body opened

theorem Spans.append {start a b : Nat} {passed : List Cell} {l : Language Char}
    (h : Spans start passed l a b) (more : List Cell) : Spans start (passed ++ more) l a b := by
  obtain ⟨before, word, after, rfl, ha, hb, hword⟩ := h
  exact ⟨before, word, after ++ more, List.append_assoc _ _ _, ha, hb, hword⟩

section Recorded

variable {start : Nat} {passed : List Cell} {slots slots' : Slots} {e : Pattern} {opened : Nat}

/-- In the beginning nothing is saved. -/
theorem recorded_of_unset
    (h : ∀ k, opened ≤ k → k < opened + e.groupCount → slots.Unset k) :
    Recorded start passed slots e opened := by
  induction e generalizing opened with
  | atom a => trivial
  | group body ih =>
    rw [Pattern.groupCount] at h
    refine ⟨ih fun k hle hlt => h k (by omega) (by omega), Or.inl ⟨h opened le_rfl (by omega), ?_⟩⟩
    exact fun k hlt hle => h k hlt.le (by omega)
  | concat first second ih₁ ih₂ | alternate first second ih₁ ih₂ =>
    rw [Pattern.groupCount] at h
    exact ⟨ih₁ fun k hle hlt => h k hle (by omega), ih₂ fun k hle hlt => h k (by omega) (by omega)⟩
  | repeated body quantifier greedy ih => exact ih h

/-- What is saved stays in order while the slots of the pattern do not change. -/
theorem Recorded.congr (h : Recorded start passed slots e opened)
    (heq : ∀ i, 2 * opened ≤ i → i < 2 * (opened + e.groupCount) → slots'[i]? = slots[i]?) :
    Recorded start passed slots' e opened := by
  induction e generalizing opened with
  | atom a => trivial
  | group body ih =>
    rw [Pattern.groupCount] at heq
    have hgroup (k : Nat) (hle : opened ≤ k) (hlt : k ≤ opened + body.groupCount) :
        slots'[2 * k]? = slots[2 * k]? ∧ slots'[2 * k + 1]? = slots[2 * k + 1]? :=
      ⟨heq _ (by omega) (by omega), heq _ (by omega) (by omega)⟩
    obtain ⟨hbody, hset⟩ := h
    refine ⟨ih hbody fun i hle hlt => heq i (by omega) (by omega), ?_⟩
    rcases hset with ⟨hunset, hinner⟩ | ⟨a, b, hab, hspan⟩
    · have hsame {k : Nat} (hle : opened ≤ k) (hlt : k ≤ opened + body.groupCount)
          (h : slots.Unset k) : slots'.Unset k :=
        ⟨(hgroup k hle hlt).1.trans h.1, (hgroup k hle hlt).2.trans h.2⟩
      exact Or.inl ⟨hsame le_rfl (Nat.le_add_right _ _) hunset,
        fun k hlt hle => hsame hlt.le hle (hinner k hlt hle)⟩
    · obtain ⟨hopen, hclose⟩ := hgroup opened le_rfl (Nat.le_add_right _ _)
      exact Or.inr ⟨a, b, ⟨hopen.trans hab.1, hclose.trans hab.2⟩, hspan⟩
  | concat first second ih₁ ih₂ | alternate first second ih₁ ih₂ =>
    rw [Pattern.groupCount] at heq
    exact ⟨ih₁ h.1 fun i hle hlt => heq i hle (by omega),
      ih₂ h.2 fun i hle hlt => heq i (by omega) (by omega)⟩
  | repeated body quantifier greedy ih => exact ih h heq

/-- What is saved stays in order while more cells are passed. -/
theorem Recorded.append (h : Recorded start passed slots e opened) (more : List Cell) :
    Recorded start (passed ++ more) slots e opened := by
  induction e generalizing opened with
  | atom a => trivial
  | group body ih =>
    exact ⟨ih h.1, h.2.imp_right fun ⟨a, b, hab, hspan⟩ => ⟨a, b, hab, hspan.append more⟩⟩
  | concat first second ih₁ ih₂ | alternate first second ih₁ ih₂ => exact ⟨ih₁ h.1, ih₂ h.2⟩
  | repeated body quantifier greedy ih => exact ih h

/-- What is saved for one of the groups. -/
theorem Recorded.of_getElem? (h : Recorded start passed slots e opened) {k : Nat} {body : Pattern}
    (hk : e.groups[k]? = some body) :
    (slots.Unset (opened + k) ∧
        ∀ j, opened + k < j → j ≤ opened + k + body.groupCount → slots.Unset j) ∨
      ∃ a b, slots.Holds (opened + k) a b ∧ Spans start passed body.language a b := by
  induction e generalizing opened k with
  | atom a => cases hk
  | group body ih =>
    cases k with
    | zero =>
      obtain rfl := Option.some.inj hk
      exact h.2
    | succ k =>
      rw [← Nat.add_assoc, Nat.add_right_comm]
      exact ih h.1 hk
  | concat first second ih₁ ih₂ | alternate first second ih₁ ih₂ =>
    rw [Pattern.groups, List.getElem?_append] at hk
    split at hk
    case isTrue hlt => exact ih₁ h.1 hk
    case isFalse hle =>
      rw [Pattern.length_groups] at hk hle
      have heq : opened + k = opened + first.groupCount + (k - first.groupCount) := by omega
      rw [heq]
      exact ih₂ h.2 hk
  | repeated body quantifier greedy ih => exact ih h hk

end Recorded

/-! ### Getting through a pattern -/

/-- Slots that are the same but for those of the groups from `lo` up to `hi`. -/
structure SameOutside (lo hi : Nat) (slots slots' : Slots) : Prop where
  size_eq : slots'.size = slots.size
  getElem?_eq : ∀ i, i < 2 * lo ∨ 2 * hi ≤ i → slots'[i]? = slots[i]?

namespace SameOutside

variable {lo hi lo' hi' : Nat} {slots slots' slots'' : Slots}

theorem refl (lo hi : Nat) (slots : Slots) : SameOutside lo hi slots slots :=
  ⟨rfl, fun _ _ => rfl⟩

theorem trans (h : SameOutside lo hi slots slots') (h' : SameOutside lo hi slots' slots'') :
    SameOutside lo hi slots slots'' :=
  ⟨h'.size_eq.trans h.size_eq, fun i hi => (h'.getElem?_eq i hi).trans (h.getElem?_eq i hi)⟩

theorem mono (h : SameOutside lo hi slots slots') (hlo : lo' ≤ lo) (hhi : hi ≤ hi') :
    SameOutside lo' hi' slots slots' :=
  ⟨h.size_eq, fun i hi => h.getElem?_eq i (by omega)⟩

end SameOutside

section Kept

variable {start opened lo hi : Nat} {passed : List Cell} {slots slots' : Slots} {e : Pattern}
  (h : Recorded start passed slots e opened)
include h

/-- What is saved stays in order while groups before the pattern change. -/
theorem Recorded.of_before (hsame : SameOutside lo opened slots slots') :
    Recorded start passed slots' e opened :=
  h.congr fun i hle _ => hsame.getElem?_eq i (Or.inr hle)

/-- What is saved stays in order while groups behind the pattern change. -/
theorem Recorded.of_behind (hsame : SameOutside (opened + e.groupCount) hi slots slots') :
    Recorded start passed slots' e opened :=
  h.congr fun i _ hlt => hsame.getElem?_eq i (Or.inl hlt)

end Kept

namespace Attempt

theorem getElem?_save {slot : Nat} (a : Attempt) (h : slot < a.slots.size) :
    (a.save slot).slots[slot]? = some (some a.offset) :=
  Array.getElem?_setIfInBounds_self_of_lt h

theorem sameOutside_save {lo hi slot : Nat} (a : Attempt) (hlo : 2 * lo ≤ slot)
    (hhi : slot < 2 * hi) : SameOutside lo hi a.slots (a.save slot).slots :=
  ⟨Array.size_setIfInBounds, fun _ _ => Array.getElem?_setIfInBounds_ne (by omega)⟩

/-- Between two attempts the cells of a word are consumed. -/
structure Consumes (l : Language Char) (word : List Cell) (a b : Attempt) : Prop where
  rest_eq : a.rest = word ++ b.rest
  offset_eq : b.offset = a.offset + totalWidth word
  mem : word.map Cell.char ∈ l

namespace Consumes

variable {l l₁ l₂ : Language Char} {word word₁ word₂ : List Cell} {a b c : Attempt}

theorem nil (h : [] ∈ l) : Consumes l [] a a := ⟨rfl, rfl, h⟩

theorem mono (h : Consumes l₁ word a b) (hsub : l₁ ≤ l₂) : Consumes l₂ word a b :=
  ⟨h.rest_eq, h.offset_eq, Set.mem_of_mem_of_subset h.mem hsub⟩

theorem append (h₁ : Consumes l₁ word₁ a b) (h₂ : Consumes l₂ word₂ b c) :
    Consumes (l₁ * l₂) (word₁ ++ word₂) a c where
  rest_eq := by rw [h₁.rest_eq, h₂.rest_eq, List.append_assoc]
  offset_eq := by rw [h₂.offset_eq, h₁.offset_eq, totalWidth_append, Nat.add_assoc]
  mem := List.map_append ▸ Language.append_mem_mul h₁.mem h₂.mem

/-- The offset behind the cells that have been passed, and those of a word. -/
theorem offset_behind (h : Consumes l word a b) {start : Nat} {passed : List Cell}
    (ha : a.offset = start + totalWidth passed) :
    b.offset = start + totalWidth (passed ++ word) := by
  rw [h.offset_eq, ha, totalWidth_append, Nat.add_assoc]

end Consumes

end Attempt

namespace Pattern.Traverses

variable {e : Pattern} {opened : Nat} {a b : Attempt}

/-- A thread saves nothing for groups outside the pattern. -/
theorem sameOutside (h : e.Traverses opened a b) :
    SameOutside opened (opened + e.groupCount) a.slots b.slots := by
  induction h with
  | atom ha => exact .refl _ _ _
  | @group body opened a b hbody ih =>
    rw [groupCount]
    exact ((a.sameOutside_save (by omega) (by omega)).trans (ih.mono (by omega) (by omega))).trans
      (b.sameOutside_save (by omega) (by omega))
  | concat hfirst hsecond ih₁ ih₂ =>
    rw [groupCount]
    exact (ih₁.mono le_rfl (by omega)).trans (ih₂.mono (by omega) (by omega))
  | left hfirst ih => exact ih.mono le_rfl (by rw [groupCount]; omega)
  | right hsecond ih => exact ih.mono (by omega) (by rw [groupCount]; omega)
  | done | absent => exact .refl _ _ _
  | again hbody hmore ih₁ ih₂ | plus hbody hmore ih₁ ih₂ => exact ih₁.trans ih₂
  | present hbody ih => exact ih

/-- The offsets on both sides of the body of a group are saved: the body keeps the first one. -/
theorem holds_save {body : Pattern} (h : body.Traverses (opened + 1) (a.save (2 * opened)) b)
    (hsize : 2 * opened + 1 < a.slots.size) :
    Slots.Holds (b.save (2 * opened + 1)).slots opened a.offset b.offset := by
  have hsame := h.sameOutside
  have hopen : (a.save (2 * opened)).slots.size = a.slots.size := Array.size_setIfInBounds
  constructor
  · rw [Attempt.save, Array.getElem?_setIfInBounds_ne (by omega), hsame.getElem?_eq _ (by omega),
      a.getElem?_save (by omega)]
  · exact b.getElem?_save (by rwa [hsame.size_eq, hopen])

/-- A thread passes a word of the pattern, and leaves what is saved for its groups in order. -/
theorem recorded (h : e.Traverses opened a b) {start : Nat} {passed : List Cell}
    (hoffset : a.offset = start + totalWidth passed)
    (hsize : 2 * (opened + e.groupCount) ≤ a.slots.size)
    (hrecorded : Recorded start passed a.slots e opened) :
    ∃ word, Attempt.Consumes e.language word a b ∧
      Recorded start (passed ++ word) b.slots e opened := by
  induction h generalizing passed with
  | @atom atom opened cell rest offset slots ha =>
    exact ⟨[cell], ⟨rfl, rfl, cell.char, ha, rfl⟩, trivial⟩
  | @group body opened a b hbody ih =>
    rw [groupCount] at hsize
    have hopen : SameOutside opened (opened + 1) a.slots (a.save (2 * opened)).slots :=
      a.sameOutside_save le_rfl (by omega)
    have hclose : SameOutside opened (opened + 1) b.slots (b.save (2 * opened + 1)).slots :=
      b.sameOutside_save (by omega) (by omega)
    obtain ⟨word, hword, hinner⟩ := ih hoffset (by rw [hopen.size_eq]; omega)
      (hrecorded.1.of_before hopen)
    have hspan : Spans start (passed ++ word) body.language a.offset b.offset :=
      ⟨passed, word, [], (List.append_nil _).symm, hoffset, hword.offset_eq, hword.mem⟩
    exact ⟨word, ⟨hword.rest_eq, hword.offset_eq, hword.mem⟩, hinner.of_before hclose,
      Or.inr ⟨a.offset, b.offset, hbody.holds_save (by omega), hspan⟩⟩
  | @concat first second opened a b c hfirst hsecond ih₁ ih₂ =>
    rw [groupCount] at hsize
    have hsame₁ := hfirst.sameOutside
    have hsame₂ := hsecond.sameOutside
    obtain ⟨word₁, hword₁, hrecorded₁⟩ := ih₁ hoffset (by omega) hrecorded.1
    obtain ⟨word₂, hword₂, hrecorded₂⟩ := ih₂ (hword₁.offset_behind hoffset)
      (by rw [hsame₁.size_eq]; omega) ((hrecorded.2.append word₁).of_before hsame₁)
    refine ⟨word₁ ++ word₂, hword₁.append hword₂, ?_⟩
    rw [← List.append_assoc]
    exact ⟨(hrecorded₁.append word₂).of_behind hsame₂, hrecorded₂⟩
  | @left first second opened a b hfirst ih =>
    rw [groupCount] at hsize
    obtain ⟨word, hword, hrecorded₁⟩ := ih hoffset (by omega) hrecorded.1
    exact ⟨word, hword.mono fun w => Or.inl, hrecorded₁,
      (hrecorded.2.append word).of_before hfirst.sameOutside⟩
  | @right first second opened a b hsecond ih =>
    rw [groupCount] at hsize
    obtain ⟨word, hword, hrecorded₂⟩ := ih hoffset (by omega) hrecorded.2
    exact ⟨word, hword.mono fun w => Or.inr,
      (hrecorded.1.append word).of_behind hsecond.sameOutside, hrecorded₂⟩
  | done => exact ⟨[], .nil (Language.nil_mem_kstar _), by rwa [List.append_nil]⟩
  | absent => exact ⟨[], .nil (Or.inl Language.nil_mem_one), by rwa [List.append_nil]⟩
  | @again body greedy opened a b c hbody hmore ih₁ ih₂ =>
    obtain ⟨word₁, hword₁, hrecorded₁⟩ := ih₁ hoffset hsize hrecorded
    obtain ⟨word₂, hword₂, hrecorded₂⟩ := ih₂ (hword₁.offset_behind hoffset)
      (hbody.sameOutside.size_eq ▸ hsize) hrecorded₁
    refine ⟨word₁ ++ word₂, (hword₁.append hword₂).mono mul_kstar_le_kstar, ?_⟩
    rwa [← List.append_assoc]
  | @plus body greedy opened a b c hbody hmore ih₁ ih₂ =>
    obtain ⟨word₁, hword₁, hrecorded₁⟩ := ih₁ hoffset hsize hrecorded
    obtain ⟨word₂, hword₂, hrecorded₂⟩ := ih₂ (hword₁.offset_behind hoffset)
      (hbody.sameOutside.size_eq ▸ hsize) hrecorded₁
    refine ⟨word₁ ++ word₂, hword₁.append hword₂, ?_⟩
    rwa [← List.append_assoc]
  | present hbody ih =>
    obtain ⟨word, hword, hrecorded⟩ := ih hoffset hsize hrecorded
    exact ⟨word, hword.mono fun w => Or.inr, hrecorded⟩

end Pattern.Traverses

end Lockstep

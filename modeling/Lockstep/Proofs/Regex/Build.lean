import Lockstep.Proofs.Machine.Priority
import Lockstep.Proofs.Program.Linking
import Lockstep.Regex.Search

/-!
# Regexes built from patterns

A regex that is built from a pattern runs the layout of that pattern, and each search at offset zero
answers from the first match explored there.

* `Regex.build_pattern`, `Regex.build_pattern_eq_ok_iff`: when a build succeeds, and with which
  program.
* `Regex.firstMatch`, `Regex.matchLength_eq`, `Regex.execInto_eq`: the answers of searches, whatever
  has been searched before.
-/

namespace Lockstep.Regex

/-- Building a regex from a text reads the pattern and lays it out, unless that is too large. -/
theorem build_pattern (options : Options) (t : Text) :
    build options (.pattern t) = match Pattern.ofText t with
      | .error err => .error (.pattern err)
      | .ok e =>
        if options.sizeLimit < e.codeSize + 1 then
          .error (.size (.tooLarge (e.codeSize + 1) options.sizeLimit))
        else .ok ⟨some t.asString, .layout e, options.tracing⟩ := by
  show (Program.ofText options.sizeLimit t >>= fun p =>
    pure (Regex.mk (some t.asString) p options.tracing)) = _
  unfold Program.ofText
  cases Pattern.ofText t with
  | error err => rfl
  | ok e =>
    show ((Program.ofPattern options.sizeLimit e).mapError Error.size >>= fun p =>
      pure (Regex.mk (some t.asString) p options.tracing)) = _
    rw [Program.ofPattern_eq]
    by_cases hlimit : options.sizeLimit < e.codeSize + 1
    · simp only [if_pos hlimit]
      rfl
    · simp only [if_neg hlimit]
      rfl

/-- A regex is built from a text just if that writes a pattern whose layout is not too large, and
then it runs this layout. -/
theorem build_pattern_eq_ok_iff {options : Options} {t : Text} {re : Regex} :
    build options (.pattern t) = .ok re ↔ ∃ e, Pattern.ofText t = .ok e ∧
      e.codeSize + 1 ≤ options.sizeLimit ∧
      re = ⟨some t.asString, .layout e, options.tracing⟩ := by
  rw [build_pattern]
  constructor
  · intro h
    cases he : Pattern.ofText t with
    | error err =>
      rw [he] at h
      cases h
    | ok e =>
      rw [he] at h
      by_cases hlimit : options.sizeLimit < e.codeSize + 1
      · simp only [if_pos hlimit] at h
        cases h
      · simp only [if_neg hlimit] at h
        exact ⟨e, rfl, Nat.not_lt.1 hlimit, (Except.ok.inj h).symm⟩
  · rintro ⟨e, he, hlimit, rfl⟩
    simp only [he, if_neg (Nat.not_lt.2 hlimit)]

/-- The first match explored from the beginning of a text. -/
def firstMatch (re : Regex) (t : Text) : Option Found :=
  (re.program.explore t.cells 0 ⟨0, Array.replicate re.program.slotCount none⟩ []).head?

variable (re : Regex) (s : Searching re) (t : Text)

theorem fst_runFrom : ((re.runFrom t.cells 0).run s).1 = re.firstMatch t :=
  re.program.found_runFrom s.scheduler t.cells 0 fun _ => Text.width_pos_of_mem_cells

theorem matchLength_eq :
    ((re.matchLength t).run s).1 = (re.firstMatch t).map Found.finish :=
  congrArg (Option.map Found.finish) (re.fst_runFrom s t)

theorem execInto_eq (slots : Slots) :
    ((re.execInto slots t).run s).1 = match re.firstMatch t with
      | some found => (some found.finish, found.slots)
      | none => (none, slots) := by
  rw [← re.fst_runFrom s t, execInto, StateT.run_bind]
  rcases (re.runFrom t.cells 0).run s with ⟨_ | found, s'⟩ <;> rfl

end Lockstep.Regex

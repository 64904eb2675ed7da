import Lockstep.Proofs.Regex.Pool
import Lockstep.Proofs.Regex.Search
import Lockstep.Regex.Renewal

/-!
# Sessions leave no traces

What a session has been asked before has no influence on what it answers. A search yields the same
whatever its scheduler has been used for, and the slots of captures that are held are in rows that
are not lent to anybody else, so no search writes to them.

* `Session.Accounts`: the rows that are lent are those of captures that are held.
* `Session.renewed`: what is left of a session without its pools.
* `Session.exists_capture_eq`: a search for captures writes to no row of captures that are held.
* `Session.renewed_answer`: one request; `Session.transcript_eq`: one request after the other.
* `Session.answers_without_history`: all of it.
-/

namespace Lockstep.Session

variable {K : Keeper} {s : Session K}

/-- The row of captures whose slots are in a row that is lent. -/
def Held.row? : Held → Option Nat
  | lent _ row => some row
  | kept _ => none

/-- The rows that are lent are those of captures that are held, and of `pending`. -/
def Accounts (s : Session K) (pending : List Held) : Prop :=
  ∃ out, K.Reaches s.rows.keeper out ∧ out.Perm ((pending ++ s.held).filterMap Held.row?)

/-- What is left of a session without its pools. -/
def renewed (s : Session K) : Renewed := ⟨s.regex, s.slots, s.held.map s.shown⟩

theorem length_held (s : Session K) : s.held.length = s.renewed.held.length :=
  (List.length_map _).symm

theorem accounts_start (re : Regex) (slots : Slots) : (start re slots K).Accounts [] :=
  ⟨[], .initial, .nil⟩

/-! ### Rows that are given back -/

/-- Giving back a row does not change what is held. -/
theorem renewed_free (s : Session K) (held : Held) : (s.free held).renewed = s.renewed := by
  cases held <;> rfl

theorem Accounts.free {held : Held} (h : s.Accounts [held]) : (s.free held).Accounts [] := by
  obtain ⟨out, hreach, hperm⟩ := h
  cases held with
  | kept captures => exact ⟨out, hreach, hperm⟩
  | lent whole row =>
    have hrow : out.Perm (row :: s.held.filterMap Held.row?) := hperm
    refine ⟨out.erase row, hreach.giveBack (hrow.mem_iff.2 List.mem_cons_self), ?_⟩
    have herase := hrow.erase row
    rwa [List.erase_cons_head] at herase

theorem Accounts.letGo (h : s.Accounts []) (item : Nat) :
    (s.letGo item).Accounts [] ∧
      (s.letGo item).renewed = { s.renewed with held := s.renewed.held.eraseIdx item } := by
  obtain ⟨out, hreach, hperm⟩ := h
  rw [Session.letGo]
  by_cases hitem : item < s.held.length
  · rw [List.getElem?_eq_getElem hitem]
    have hpending : Accounts { s with held := s.held.eraseIdx item } [s.held[item]] :=
      ⟨out, hreach, hperm.trans ((List.getElem_cons_eraseIdx_perm hitem).symm.filterMap _)⟩
    refine ⟨hpending.free, ?_⟩
    rw [renewed_free, renewed, renewed, List.eraseIdx_map]
    rfl
  · rw [Nat.not_lt] at hitem
    have herase : s.renewed.held.eraseIdx item = s.renewed.held :=
      List.eraseIdx_of_length_le (by rwa [renewed, List.length_map])
    rw [List.getElem?_eq_none hitem, herase]
    exact ⟨⟨out, hreach, hperm⟩, rfl⟩

theorem accounts_withRegex (s : Session K) (re : Regex) :
    (s.withRegex re).Accounts [] ∧ (s.withRegex re).renewed = { s.renewed with regex := re } := by
  constructor
  · refine ⟨[], .initial, ?_⟩
    rw [withRegex, List.nil_append, List.filterMap_map]
    simp [Held.row?, Function.comp_def]
  · rw [renewed, withRegex, List.map_map]
    rfl

/-! ### Searches -/

/-- A search changes nothing but its scheduler. -/
theorem exists_search_eq {α : Type} {find : Search s.regex α} {a : α} {lines : List LogLine}
    (h : find.Yields a lines) :
    ∃ schedulers, s.search find = (a, lines, { s with schedulers := schedulers }) := by
  obtain ⟨ha, hlines⟩ := h ⟨s.schedulers.lend.2.values s.schedulers.lend.1, #[]⟩
  exact ⟨_, Prod.ext ha (Prod.ext hlines rfl)⟩

/-- A search for captures finds and reports what it yields, and leaves everything that is held. -/
theorem exists_capture_eq (hK : K.Exclusive) (hs : s.Accounts [])
    {find : Search s.regex (Option Captures)} {captures : Option Captures} {lines : List LogLine}
    (h : find.Yields captures lines) :
    ∃ found next, s.capture find = (found, lines, next) ∧ found.map next.shown = captures ∧
      next.renewed = s.renewed ∧ next.Accounts found.toList := by
  obtain ⟨out, hreach, hperm⟩ := hs
  obtain ⟨schedulers, hsearch⟩ := exists_search_eq h
  rw [capture, hsearch]
  cases captures with
  | none =>
    refine ⟨none, _, rfl, rfl, rfl, _, hreach.lend.giveBack List.mem_cons_self, ?_⟩
    rwa [List.erase_cons_head]
  | some c =>
    refine ⟨_, _, rfl, ?_, ?_, _, hreach.lend, hperm.cons _⟩
    · exact congrArg (fun slots => some (Captures.mk c.text c.start c.finish slots))
        (Pool.values_write_self _ _ _)
    · -- The row that is written to has just been lent, so it is none of those lent before.
      refine congrArg (Renewed.mk s.regex s.slots) (List.map_congr_left fun held hheld => ?_)
      cases held with
      | kept captures => rfl
      | lent whole row =>
        have hrow : row ∈ out := hperm.mem_iff.2 (List.mem_filterMap.2 ⟨_, hheld, rfl⟩)
        have hne : row ≠ s.rows.lend.1 := fun heq => hK _ _ hreach (heq ▸ hrow)
        exact congrArg (Captures.mk whole.text whole.start whole.finish)
          (Pool.values_write_of_ne _ hne _)

/-- A search for captures that nobody holds on to. -/
theorem exists_inspect_eq (hK : K.Exclusive) (hs : s.Accounts [])
    {find : Search s.regex (Option Captures)} {captures : Option Captures} {lines : List LogLine}
    (h : find.Yields captures lines) :
    ∃ next, s.inspect find = (captures, lines, next) ∧ next.renewed = s.renewed ∧
      next.Accounts [] := by
  obtain ⟨found, next, hcapture, rfl, hrenewed, hnext⟩ := exists_capture_eq hK hs h
  rw [inspect, hcapture]
  refine ⟨_, rfl, ?_⟩
  cases found with
  | none => exact ⟨hrenewed, hnext⟩
  | some held => exact ⟨(next.renewed_free held).trans hrenewed, hnext.free⟩

/-- A search for captures that are held on to. -/
theorem exists_retain_eq (hK : K.Exclusive) (hs : s.Accounts [])
    {find : Search s.regex (Option Captures)} {captures : Option Captures} {lines : List LogLine}
    (h : find.Yields captures lines) :
    ∃ next, s.retain find = (captures, lines, next) ∧ next.renewed = s.renewed.hold captures ∧
      next.Accounts [] := by
  obtain ⟨found, next, hcapture, rfl, hrenewed, out, hreach, hperm⟩ := exists_capture_eq hK hs h
  rw [retain, hcapture, ← hrenewed]
  refine ⟨_, rfl, ?_, out, hreach, hperm.trans (List.perm_append_comm.filterMap _)⟩
  show Renewed.mk _ _ _ = Renewed.mk _ _ _
  rw [hold, List.map_append, Option.toList_map]
  rfl

/-! ### Requests -/

/-- An answer with what is left of the session after it. -/
def Answer.renewed (a : Answer (Session K)) : Answer Renewed :=
  ⟨a.response, a.log, a.next.renewed⟩

theorem anew_eq {re : Regex} {α : Type} {find : Search re α} {a : α} {lines : List LogLine}
    (h : find.Yields a lines) : re.anew find = (a, lines) :=
  Prod.ext (h (.initial re)).1 (h (.initial re)).2

/-- **Step.** A request is answered as if the regex had been built anew. -/
theorem renewed_answer (hK : K.Exclusive) (hs : s.Accounts []) (request : Request) :
    (s.answer request).renewed = s.renewed.answer request ∧
      (s.answer request).next.Accounts [] := by
  cases request with
  | matchLength t =>
    obtain ⟨next, hinspect, hrenewed, hnext⟩ :=
      exists_inspect_eq hK hs (s.regex.yields_captures t)
    have hanew := anew_eq (s.renewed.regex.yields_matchLength t)
    rw [answer, hinspect, Renewed.answer, hanew]
    dsimp only
    rw [Option.map_map]
    exact ⟨congrArg (Answer.mk _ _) hrenewed, hnext⟩
  | isMatch t =>
    obtain ⟨next, hinspect, hrenewed, hnext⟩ :=
      exists_inspect_eq hK hs (s.regex.yields_captures t)
    have hanew := anew_eq (s.renewed.regex.yields_isMatch t)
    rw [answer, hinspect, Renewed.answer, hanew]
    dsimp only
    rw [Option.isSome_map]
    exact ⟨congrArg (Answer.mk _ _) hrenewed, hnext⟩
  | execInto t =>
    obtain ⟨schedulers, hsearch⟩ := exists_search_eq (s.regex.yields_execInto t s.slots)
    have hanew := anew_eq (s.renewed.regex.yields_execInto t s.renewed.slots)
    rw [answer, hsearch, Renewed.answer, hanew]
    exact ⟨rfl, hs⟩
  | findAt t pos =>
    obtain ⟨found, lines, hscan⟩ := s.regex.exists_yields_scan_cellsFrom t pos
    obtain ⟨next, hinspect, hrenewed, hnext⟩ :=
      exists_inspect_eq hK hs (Regex.yields_capturesAt hscan)
    have hanew : s.renewed.regex.anew (s.renewed.regex.findAt t pos) = _ :=
      anew_eq (Regex.yields_findAt hscan)
    rw [answer, hinspect, Renewed.answer, hanew]
    dsimp only
    rw [Option.map_map]
    exact ⟨congrArg (Answer.mk _ _) hrenewed, hnext⟩
  | captures t =>
    obtain ⟨next, hretain, hrenewed, hnext⟩ :=
      exists_retain_eq hK hs (s.regex.yields_captures t)
    have hanew := anew_eq (s.renewed.regex.yields_captures t)
    rw [answer, hretain, Renewed.answer, hanew]
    exact ⟨congrArg (Answer.mk _ _) hrenewed, hnext⟩
  | capturesAt t pos =>
    obtain ⟨found, lines, hscan⟩ := s.regex.exists_yields_scan_cellsFrom t pos
    have hyields := Regex.yields_capturesAt hscan
    obtain ⟨next, hretain, hrenewed, hnext⟩ := exists_retain_eq hK hs hyields
    have hanew : s.renewed.regex.anew (s.renewed.regex.capturesAt t pos) = _ := anew_eq hyields
    rw [answer, hretain, Renewed.answer, hanew]
    exact ⟨congrArg (Answer.mk _ _) hrenewed, hnext⟩
  | release =>
    obtain ⟨haccounts, hrenewed⟩ := hs.letGo (s.held.length - 1)
    rw [length_held, List.eraseIdx_length_sub_one] at hrenewed
    refine ⟨?_, haccounts⟩
    show Answer.mk (.released (s.letGo _).held.length) [] (s.letGo _).renewed = _
    rw [length_held (s.letGo _), length_held s, hrenewed]
    rfl
  | discard item =>
    obtain ⟨haccounts, hrenewed⟩ := hs.letGo item
    refine ⟨?_, haccounts⟩
    show Answer.mk (.released (s.letGo item).held.length) [] (s.letGo item).renewed = _
    rw [length_held, hrenewed]
    rfl
  | copy =>
    obtain ⟨haccounts, hrenewed⟩ := s.accounts_withRegex s.regex
    exact ⟨congrArg (Answer.mk _ _) hrenewed, haccounts⟩
  | reload =>
    have hprogram : s.renewed.regex.program = s.regex.program := rfl
    rw [answer, Renewed.answer, hprogram]
    cases readBack s.regex.program with
    | error e => exact ⟨rfl, hs⟩
    | ok re =>
      obtain ⟨haccounts, hrenewed⟩ := s.accounts_withRegex re
      exact ⟨congrArg (Answer.mk _ _) hrenewed, haccounts⟩
  | _ => exact ⟨rfl, hs⟩

/-- **Run.** Requests are answered one after the other as if the regex were built anew for each. -/
theorem transcript_eq (hK : K.Exclusive) (hs : s.Accounts []) (requests : List Request) :
    transcript answer s requests = transcript Renewed.answer s.renewed requests := by
  induction requests generalizing s with
  | nil => rfl
  | cons request requests ih =>
    obtain ⟨hanswer, hnext⟩ := renewed_answer hK hs request
    rw [transcript, transcript, ih hnext, ← hanswer]
    rfl

/-- **No history.** If the keeper of its pools is exclusive, a session answers and reports the same
as if its regex were built anew for every request. Whatever has been searched before, all searches
at the start of a text answer by the run of the program there. Its match has as many slots as the
program, and given slots are replaced by them; without a match they are kept. -/
theorem answers_without_history (hK : K.Exclusive) (re : Regex) (slots : Slots)
    (requests : List Request) :
    transcript answer (start re slots K) requests =
        transcript Renewed.answer (.start re slots) requests ∧
      ∀ t, let found := (re.program.run t 0).found
        (∀ f ∈ found, f.slots.size = re.program.slotCount) ∧ ∀ s : Searching re,
          ((re.matchLength t).run s).1 = found.map Found.finish ∧
          ((re.isMatch t).run s).1 = found.isSome ∧
          ((re.captures t).run s).1 = found.map (fun f => ⟨t, 0, f.finish, f.slots⟩) ∧
          ∀ given : Slots, ((re.execInto given t).run s).1 =
            (found.map Found.finish, (found.map Found.slots).getD given) := by
  refine ⟨transcript_eq hK (accounts_start re slots) requests, fun t => ?_⟩
  refine ⟨fun f hf => ?_, fun s => ⟨?_, ?_, ?_, fun given => ?_⟩⟩
  · exact re.program.size_slots_of_run hf
  · exact (re.yields_matchLength t).fst_run s
  · exact (re.yields_isMatch t).fst_run s
  · exact (re.yields_captures t).fst_run s
  · exact (re.yields_execInto t given).fst_run s

/-- While captures are held, another search is made with rows and a scheduler of the same pools. -/
theorem answers_without_history_held_captures :
    let re : Regex := ⟨none, .ofBody #[.save 0, .split 2 4, .char 'a', .save 1, .accept], false⟩
    let requests : List Request :=
      [.captures (.wide "a"), .captures (.wide "b"), .held 0, .discard 0, .execInto (.wide "b")]
    Keeper.stack.Exclusive ∧
      transcript answer (start re #[some 7]) requests =
        transcript Renewed.answer (.start re #[some 7]) requests ∧
      (transcript answer (start re #[some 7]) requests).map Prod.fst =
        [.captured (some ⟨.wide "a", 0, 1, #[some 0, some 1]⟩),
          .captured (some ⟨.wide "b", 0, 0, #[some 0, none]⟩),
          .captured (some ⟨.wide "a", 0, 1, #[some 0, some 1]⟩), .released 1,
          .executed (some 0) #[some 0, none]] := by
  intro re requests
  have hstack := Keeper.exclusive_stack
  exact ⟨hstack, (answers_without_history hstack re #[some 7] requests).1, by decide +kernel⟩

end Lockstep.Session

import Lockstep.Proofs.Listing.Events
import Lockstep.Proofs.Listing.Translation

/-!
# Assembling the events of a listing

A listing is assembled as its events say: repeated labels are found before labels that name no
instruction, and both before what is wrong with an operation; otherwise each operation makes one
instruction. The lines of the events appear in errors only.

* `Listing.firstRepeated?_eq_some_iff`: the first repeated label.
* `Listing.closed_iff`, `Listing.find?_position_eq_some_iff`: labels behind the last operation.
* `Listing.assemble_eq_iff`: what some events are assembled to.
* `Listing.mapError_assemble`: events on other lines.
* `Program.ofListing_eq_iff_assembles`: what a text is read as.
-/

namespace Lockstep

namespace Listing

/-! ### Repeated labels -/

/-- No name repeats another one, or one that has been seen before. -/
theorem nodup_of_firstRepeated? {labels : List Label} {seen : List String}
    (h : firstRepeated? seen labels = none) :
    (labels.map Label.name).Nodup ∧ ∀ label ∈ labels, label.name ∉ seen := by
  induction labels generalizing seen with
  | nil => exact ⟨List.nodup_nil, nofun⟩
  | cons label rest ih =>
    rw [firstRepeated?] at h
    split at h
    · cases h
    · next hlabel =>
      obtain ⟨hnodup, hseen⟩ := ih h
      refine ⟨List.nodup_cons.2 ⟨?_, hnodup⟩, List.forall_mem_cons.2 ⟨hlabel, ?_⟩⟩
      · rw [List.mem_map]
        rintro ⟨other, hother, heq⟩
        exact hseen other hother (heq ▸ List.mem_cons_self)
      · exact fun other hother hmem => hseen other hother (List.mem_cons_of_mem _ hmem)

theorem firstRepeated?_eq_none_iff {labels : List Label} :
    firstRepeated? [] labels = none ↔ (labels.map Label.name).Nodup := by
  constructor
  · exact fun h => (nodup_of_firstRepeated? h).1
  · exact fun h => firstRepeated?_eq_none (List.pairwise_map.1 h) fun _ _ => List.not_mem_nil

theorem firstRepeated?_append (seen : List String) (xs ys : List Label) :
    firstRepeated? seen (xs ++ ys) = (firstRepeated? seen xs).or
      (firstRepeated? ((xs.map Label.name).reverse ++ seen) ys) := by
  induction xs generalizing seen with
  | nil => rfl
  | cons label rest ih =>
    rw [List.cons_append, firstRepeated?, firstRepeated?]
    split
    · rfl
    · rw [ih, List.map_cons, List.reverse_cons, List.append_assoc, List.singleton_append]

/-- The labels in front of the first repeated label, among which its name is found. -/
theorem exists_of_firstRepeated? {labels : List Label} {seen : List String} {label : Label}
    (h : firstRepeated? seen labels = some label) : ∃ before after,
      labels = before ++ label :: after ∧ firstRepeated? seen before = none ∧
        label.name ∈ (before.map Label.name).reverse ++ seen := by
  induction labels generalizing seen with
  | nil => cases h
  | cons first rest ih =>
    rw [firstRepeated?] at h
    split at h
    · next hfirst =>
      cases h
      exact ⟨[], rest, rfl, rfl, hfirst⟩
    · next hfirst =>
      obtain ⟨before, after, rfl, hnone, hmem⟩ := ih h
      refine ⟨first :: before, after, rfl, ?_, ?_⟩
      · rw [firstRepeated?, if_neg hfirst, hnone]
      · rwa [List.map_cons, List.reverse_cons, List.append_assoc]

/-- The first repeated label has the name of a label before it, which no label before it has. -/
theorem firstRepeated?_eq_some_iff {labels : List Label} {label : Label} :
    firstRepeated? [] labels = some label ↔ ∃ before after, labels = before ++ label :: after ∧
      (before.map Label.name).Nodup ∧ label.name ∈ before.map Label.name := by
  constructor
  · intro h
    obtain ⟨before, after, hlabels, hnone, hmem⟩ := exists_of_firstRepeated? h
    rw [List.append_nil, List.mem_reverse] at hmem
    exact ⟨before, after, hlabels, firstRepeated?_eq_none_iff.1 hnone, hmem⟩
  · rintro ⟨before, after, rfl, hnodup, hmem⟩
    rw [firstRepeated?_append, firstRepeated?_eq_none_iff.2 hnodup, firstRepeated?, List.append_nil,
      if_pos (List.mem_reverse.2 hmem)]
    rfl

variable {events : List Located}

/-! ### Labels behind the last operation -/

theorem length_operations_append (xs ys : List Located) :
    (operations (xs ++ ys)).length = (operations xs).length + (operations ys).length := by
  rw [operations_append, List.length_append]

/-- Events without an operation are labels. -/
theorem isLabel_of_mem (h : operations events = []) {event : Located} (hmem : event ∈ events) :
    ∃ line name, event = ⟨line, .label name⟩ := by
  induction events with
  | nil => cases hmem
  | cons first rest ih =>
    obtain ⟨line, name | ⟨word, operands⟩⟩ := first
    · rcases List.mem_cons.1 hmem with rfl | hmem
      · exact ⟨line, name, rfl⟩
      · exact ih h hmem
    · cases h

/-- Events end with a label just if a label has the position behind the last operation. -/
theorem closed_iff : Closed events ↔
    ∀ label ∈ labels 0 events, label.position ≠ (operations events).length := by
  constructor
  · intro h label hlabel hposition
    obtain ⟨xs, ys, rfl, hxs⟩ := mem_labels_iff.1 hlabel
    have hys : operations (⟨label.line, .label label.name⟩ :: ys) = [] := by
      rw [length_operations_append] at hposition
      exact List.eq_nil_of_length_eq_zero (by omega)
    -- From this label on there are only labels, and the last of them ends the events.
    obtain ⟨last, hlast⟩ : ∃ last, (⟨label.line, .label label.name⟩ :: ys).getLast? = some last :=
      ⟨_, List.getLast?_eq_some_getLast (List.cons_ne_nil _ _)⟩
    obtain ⟨line, name, rfl⟩ := isLabel_of_mem hys (List.mem_of_getLast? hlast)
    refine h line name ?_
    rw [List.getLast?_append, hlast]
    rfl
  · intro h line name hlast
    obtain ⟨xs, rfl⟩ := List.getLast?_eq_some_iff.1 hlast
    refine h ⟨name, line, (operations xs).length⟩ (mem_labels_iff.2 ⟨xs, [], rfl, rfl⟩) ?_
    rw [length_operations_append]
    rfl

theorem find?_position_eq_none_iff :
    (labels 0 events).find? (·.position == (operations events).length) = none ↔ Closed events := by
  rw [List.find?_eq_none, closed_iff]
  simp only [beq_iff_eq, ne_eq]

/-- The first label with the position behind the last operation is the first one behind it. -/
theorem find?_position_eq_some_iff {label : Label} :
    (labels 0 events).find? (·.position == (operations events).length) = some label ↔
      ∃ xs ys, events = xs ++ ⟨label.line, .label label.name⟩ :: ys ∧ Closed xs ∧
        operations ys = [] ∧ label.position = (operations xs).length := by
  rw [List.find?_eq_some_iff_append]
  constructor
  · rintro ⟨hend, before, after, hlabels, hbefore⟩
    obtain ⟨xs, ys, rfl, rfl, hposition⟩ := exists_of_labels_eq_append hlabels
    rw [Nat.zero_add] at hposition
    have hlength := length_operations_append xs (⟨label.line, .label label.name⟩ :: ys)
    rw [beq_iff_eq, hposition] at hend
    refine ⟨xs, ys, rfl, closed_iff.2 fun other hother heq => ?_, ?_, hposition⟩
    · have hne := hbefore other hother
      rw [heq, hend] at hne
      simp at hne
    · rw [operations] at hlength
      exact List.eq_nil_of_length_eq_zero (by omega)
  · rintro ⟨xs, ys, rfl, hclosed, hys, hposition⟩
    have hlength : (operations (xs ++ ⟨label.line, .label label.name⟩ :: ys)).length =
        (operations xs).length := by
      rw [length_operations_append, operations, hys]
      rfl
    rw [hlength]
    refine ⟨beq_iff_eq.2 hposition, labels 0 xs, labels (operations xs).length ys, ?_, ?_⟩
    · rw [labels_append, labels, Nat.zero_add, ← hposition]
    · intro other hother
      simpa using closed_iff.1 hclosed other hother

/-! ### Operations -/

theorem Operation.read_eq_ok_iff {labels : List Label} {o : Operation} {i : Instruction} :
    o.read labels = .ok i ↔ readOperation labels o.word o.operands = .ok i := by
  rw [Operation.read]
  cases readOperation labels o.word o.operands <;> simp [Except.mapError]

theorem Operation.read_eq_error_iff {labels : List Label} {o : Operation} {e : Error} :
    o.read labels = .error e ↔ ∃ fault, readOperation labels o.word o.operands = .error fault ∧
      e = ⟨o.line, fault⟩ := by
  rw [Operation.read]
  cases readOperation labels o.word o.operands <;> simp [Except.mapError, eq_comm]

/-- The operations of events without repeated labels are read as the instructions that they make. -/
theorem forall₂_read_iff (hnodup : (labelNames events).Nodup) {os : List Operation}
    {body : List Instruction} :
    List.Forall₂ (fun o i => Operation.read (labels 0 events) o = .ok i) os body ↔
      List.Forall₂ (Operation.Makes events) os body := by
  have h (o : Operation) (i : Instruction) :
      o.read (labels 0 events) = .ok i ↔ o.Makes events i :=
    Operation.read_eq_ok_iff.trans (readOperation_eq_ok_iff hnodup)
  exact ⟨List.Forall₂.imp fun o i => (h o i).1, List.Forall₂.imp fun o i => (h o i).2⟩

/-! ### Programs -/

/-- What is said to be the result of some events is what they are assembled to. -/
theorem Assembles.assemble_eq {result : Except Error Program} (h : Assembles events result) :
    assemble events = result := by
  have hunique (hnodup : (labelNames events).Nodup) :
      firstRepeated? [] (labels 0 events) = none := by
    rwa [firstRepeated?_eq_none_iff, map_name_labels]
  cases h with
  | @duplicate before line name after hevents hnodup hmem =>
    have hrepeated : firstRepeated? [] (labels 0 events) =
        some ⟨name, line, (operations before).length⟩ := by
      refine firstRepeated?_eq_some_iff.2
        ⟨labels 0 before, labels (operations before).length after, ?_, ?_, ?_⟩
      · rw [hevents, labels_append, labels, Nat.zero_add]
      · rwa [map_name_labels]
      · rwa [map_name_labels]
    simp only [assemble, hrepeated]
  | @dangling before line name after hnodup hevents hclosed hafter =>
    have hdangling : (labels 0 events).find? (·.position == (operations events).length) =
        some ⟨name, line, (operations before).length⟩ :=
      find?_position_eq_some_iff.2 ⟨before, after, hevents, hclosed, hafter, rfl⟩
    simp only [assemble, hunique hnodup, hdangling]
  | @failure before o after body fault hnodup hclosed hoperations hbody hfails =>
    have hread : (operations events).mapM (·.read (labels 0 events)) = .error ⟨o.line, fault⟩ :=
      mapM_eq_error_iff.2 ⟨before, o, after, body, hoperations, (forall₂_read_iff hnodup).2 hbody,
        Operation.read_eq_error_iff.2 ⟨fault, (readOperation_eq_error_iff hnodup).2 hfails, rfl⟩⟩
    simp only [assemble, hunique hnodup, find?_position_eq_none_iff.2 hclosed, hread]
    rfl
  | @program body hnodup hclosed hbody =>
    have hread : (operations events).mapM (·.read (labels 0 events)) = .ok body :=
      mapM_eq_ok_iff.2 ((forall₂_read_iff hnodup).2 hbody)
    simp only [assemble, hunique hnodup, find?_position_eq_none_iff.2 hclosed, hread]
    rfl

theorem assembles_assemble (events : List Located) : Assembles events (assemble events) := by
  cases hrepeated : firstRepeated? [] (labels 0 events) with
  | some label =>
    simp only [assemble, hrepeated]
    obtain ⟨before, after, hlabels, hnodup, hmem⟩ := firstRepeated?_eq_some_iff.1 hrepeated
    obtain ⟨xs, ys, hevents, rfl, -⟩ := exists_of_labels_eq_append hlabels
    rw [map_name_labels] at hnodup hmem
    exact .duplicate hevents hnodup hmem
  | none =>
    have hnodup : (labelNames events).Nodup := by
      rwa [firstRepeated?_eq_none_iff, map_name_labels] at hrepeated
    cases hdangling : (labels 0 events).find? (·.position == (operations events).length) with
    | some label =>
      simp only [assemble, hrepeated, hdangling]
      obtain ⟨xs, ys, hevents, hclosed, hys, -⟩ := find?_position_eq_some_iff.1 hdangling
      exact .dangling hnodup hevents hclosed hys
    | none =>
      have hclosed := find?_position_eq_none_iff.1 hdangling
      simp only [assemble, hrepeated, hdangling]
      cases hread : (operations events).mapM (·.read (labels 0 events)) with
      | error e =>
        obtain ⟨before, o, after, body, hoperations, hbody, ho⟩ := mapM_eq_error_iff.1 hread
        obtain ⟨fault, hfault, rfl⟩ := Operation.read_eq_error_iff.1 ho
        exact .failure hnodup hclosed hoperations ((forall₂_read_iff hnodup).1 hbody)
          ((readOperation_eq_error_iff hnodup).1 hfault)
      | ok body =>
        exact .program hnodup hclosed ((forall₂_read_iff hnodup).1 (mapM_eq_ok_iff.1 hread))

/-- Events are assembled to what they are said to assemble to, and to nothing else. -/
theorem assemble_eq_iff {result : Except Error Program} :
    assemble events = result ↔ Assembles events result := by
  constructor
  · rintro rfl
    exact assembles_assemble events
  · exact Assembles.assemble_eq

/-! ### Lines -/

/-- An event without its line. -/
def Located.unnumbered (event : Located) : Located := ⟨0, event.statement⟩

/-- A label without its line. -/
def Label.unnumbered (label : Label) : Label := { label with line := 0 }

/-- An operation without its line. -/
def Operation.unnumbered (o : Operation) : Operation := { o with line := 0 }

theorem labels_map_unnumbered (position : Nat) (events : List Located) :
    labels position (events.map Located.unnumbered) =
      (labels position events).map Label.unnumbered := by
  induction events generalizing position with
  | nil => rfl
  | cons event rest ih =>
    obtain ⟨line, name | ⟨word, operands⟩⟩ := event
    · exact congrArg (_ :: ·) (ih position)
    · exact ih (position + 1)

theorem operations_map_unnumbered (events : List Located) :
    operations (events.map Located.unnumbered) =
      (operations events).map Operation.unnumbered := by
  induction events with
  | nil => rfl
  | cons event rest ih =>
    obtain ⟨line, name | ⟨word, operands⟩⟩ := event
    · exact ih
    · exact congrArg (_ :: ·) ih

theorem firstRepeated?_map_unnumbered (seen : List String) (labels : List Label) :
    firstRepeated? seen (labels.map Label.unnumbered) =
      (firstRepeated? seen labels).map Label.unnumbered := by
  induction labels generalizing seen with
  | nil => rfl
  | cons label rest ih =>
    rw [List.map_cons, firstRepeated?, firstRepeated?, ih]
    exact (apply_ite (Option.map Label.unnumbered) (label.name ∈ seen) (some label)
      (firstRepeated? (label.name :: seen) rest)).symm

theorem readOperation_map_unnumbered (labels : List Label) (word : String)
    (operands : List String) :
    readOperation (labels.map Label.unnumbered) word operands =
      readOperation labels word operands := by
  have htarget (word : String) :
      readTarget (labels.map Label.unnumbered) word = readTarget labels word := by
    have hfind : (labels.map Label.unnumbered).find? (·.name == word) =
        (labels.find? (·.name == word)).map Label.unnumbered := List.find?_map
    rw [readTarget, readTarget, hfind]
    cases labels.find? (·.name == word) <;> rfl
  have hoperands (op : Opcode) :
      readOperands (labels.map Label.unnumbered) op operands = readOperands labels op operands := by
    unfold readOperands
    simp only [htarget]
  rw [readOperation, readOperation]
  simp only [hoperands]

/-- What is done with a result does not change what its error is apart from the line. -/
theorem mapError_bind_pure {α β : Type} {x y : Except Error α} (f : α → β)
    (h : x.mapError Error.fault = y.mapError Error.fault) :
    (x >>= fun a => pure (f a)).mapError Error.fault =
      (y >>= fun a => pure (f a)).mapError Error.fault := by
  cases x with
  | error e =>
    cases y with
    | error e' => exact congrArg Except.error (Except.error.inj h)
    | ok b => cases h
  | ok a =>
    cases y with
    | error e' => cases h
    | ok b =>
      obtain rfl := Except.ok.inj h
      rfl

theorem mapError_mapM_unnumbered (labels : List Label) (os : List Operation) :
    ((os.map Operation.unnumbered).mapM (Operation.read (labels.map Label.unnumbered))).mapError
        Error.fault = (os.mapM (Operation.read labels)).mapError Error.fault := by
  induction os with
  | nil => rfl
  | cons o os ih =>
    rw [List.map_cons, List.mapM_cons, List.mapM_cons, Operation.read, Operation.read,
      readOperation_map_unnumbered]
    show Except.mapError _ ((readOperation labels o.word o.operands).mapError _ >>= _) = _
    cases readOperation labels o.word o.operands with
    | error fault => rfl
    | ok i => exact mapError_bind_pure (i :: ·) ih

theorem mapError_assemble_unnumbered (events : List Located) :
    (assemble (events.map Located.unnumbered)).mapError Error.fault =
      (assemble events).mapError Error.fault := by
  have hfind : ((labels 0 events).map Label.unnumbered).find?
      (·.position == (operations events).length) =
        ((labels 0 events).find? (·.position == (operations events).length)).map
          Label.unnumbered := List.find?_map
  simp only [assemble, labels_map_unnumbered, operations_map_unnumbered,
    firstRepeated?_map_unnumbered, List.length_map, hfind]
  cases firstRepeated? [] (labels 0 events) with
  | some label => rfl
  | none =>
    cases (labels 0 events).find? (·.position == (operations events).length) with
    | some label => rfl
    | none =>
      exact mapError_bind_pure (fun body : List Instruction => Program.ofBody body.toArray)
        (mapError_mapM_unnumbered _ _)

/-- Apart from the line of an error, the lines of events make no difference. -/
theorem mapError_assemble {events' : List Located}
    (h : events.map Located.statement = events'.map Located.statement) :
    (assemble events).mapError Error.fault = (assemble events').mapError Error.fault := by
  have hunnumbered : events.map Located.unnumbered = events'.map Located.unnumbered := by
    have hcomp : Located.unnumbered = Located.mk 0 ∘ Located.statement := rfl
    rw [hcomp, ← List.map_map, h, List.map_map]
  rw [← mapError_assemble_unnumbered, hunnumbered, mapError_assemble_unnumbered]

end Listing

/-- A listing is assembled as its events say, and nothing but the statements among these events
matters, except for the line of an error. -/
theorem Program.ofListing_eq_iff_assembles (text : String) :
    ∃ events, (∀ events', Listing.Events text events' ↔ events' = events) ∧
      (∀ result, Program.ofListing text = result ↔ Listing.Assembles events result) ∧
      (∀ text' events', Listing.Events text' events' →
        events'.map Listing.Located.statement = events.map Listing.Located.statement →
          (Program.ofListing text').mapError Listing.Error.fault =
            (Program.ofListing text).mapError Listing.Error.fault) ∧
      ∀ text', Listing.Rearranges (Listing.linesOf text) (Listing.linesOf text') →
        (Program.ofListing text').mapError Listing.Error.fault =
          (Program.ofListing text).mapError Listing.Error.fault := by
  refine ⟨Listing.scan text, fun _ => Listing.events_iff, fun _ => Listing.assemble_eq_iff,
    fun text' events' hevents' heq => ?_, fun text' h => ?_⟩
  · obtain rfl := Listing.events_iff.1 hevents'
    exact Listing.mapError_assemble heq
  · exact Listing.mapError_assemble h.map_statement_scan.symm

/-- A label may stand behind the operation that names it, and goes before the number that it looks
like. -/
example : Program.ofListing "jump 7 ; over\n  any\n7: match" =
    .ok (.ofBody #[.jump 2, .any, .accept]) := by decide +kernel

end Lockstep

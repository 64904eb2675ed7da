import Lockstep.Proofs.Listing.RoundTrip
import Lockstep.Proofs.Regex.Build
import Lockstep.Regex.Session

/-!
# Limits on the size of programs

No regex has more instructions or more slots than its limit allows. The program of a pattern is as
long as the parts of the pattern say, and since each group costs as many instructions as slots, the
number of its slots need not be looked at. A program that is not too large by the default limit can
be written as a listing and read back.

* `Program.ofListing_listing_layout`: a layout that is not too large is read back from its listing.
* `Regex.size_le_of_build`: what is built keeps to the limit.
* `Regex.build_limits`: when a build fails, and what it yields otherwise.
-/

namespace Lockstep

/-- The layout of a pattern that is not too large can be written as a listing and read back. -/
theorem Program.ofListing_listing_layout {e : Pattern} (h : e.codeSize ≤ Listing.maxSlot) :
    ofListing (layout e).listing = .ok (layout e) := by
  refine ofListing_listing_of_slotFits (fun i hi t ht => Or.inl (lt_size_layout hi ht)) ?_
  rintro i hi slot rfl
  have hslot := slot_lt_of_mem_layout hi
  have hgroups := e.two_mul_groupCount_le
  omega

namespace Regex

/-- What is built keeps to the limit, wherever it comes from. -/
theorem size_le_of_build {options : Options} {source : Source} {re : Regex}
    (h : build options source = .ok re) :
    re.program.size ≤ options.sizeLimit ∧ re.program.slotCount ≤ options.sizeLimit := by
  cases source with
  | pattern t =>
    obtain ⟨e, -, hlimit, rfl⟩ := build_pattern_eq_ok_iff.1 h
    have hgroups := e.two_mul_groupCount_le
    have hslots := Program.slotCount_layout_le e
    constructor
    · exact (Program.size_layout e).trans_le hlimit
    · exact hslots.trans (by omega)
  | program p =>
    simp only [build] at h
    split at h
    case isTrue => cases h
    case isFalse hsize =>
      split at h
      case isTrue => cases h
      case isFalse hslots =>
        obtain rfl := Except.ok.inj h
        exact ⟨Nat.not_lt.1 hsize, Nat.not_lt.1 hslots⟩

/-- **Limits.** What is built has no more instructions and no more slots than the limit. A pattern
has one program, whose length is that of its parts, and this is built unless it is too long; its
slots are those of its groups, if its length is a word of the machine. A given program is taken as
it is unless it is too long or, if not, has too many slots. A regex that keeps to the default limit
is read back from the listing of its program. -/
theorem build_limits :
    (∀ options source re, build options source = .ok re →
      re.program.size ≤ options.sizeLimit ∧ re.program.slotCount ≤ options.sizeLimit) ∧
    (∀ t e, Pattern.ofText t = .ok e →
      let size := 1 + e.atomCount + 2 * e.groupCount + 2 * e.quantifierCount .star +
        e.quantifierCount .plus + e.quantifierCount .optional + 2 * e.barCount
      ∃ p : Program, p.size = size ∧ (size ≤ maxWord → p.slotCount = 2 * e.groupCount) ∧
        ∀ options, build options (.pattern t) =
          if options.sizeLimit < size then .error (.size (.tooLarge size options.sizeLimit))
          else .ok ⟨some t.asString, p, options.tracing⟩) ∧
    (∀ options p, build options (.program p) =
      if options.sizeLimit < p.size then .error (.size (.tooLarge p.size options.sizeLimit))
      else if options.sizeLimit < p.slotCount then
        .error (.size (.tooManySlots p.slotCount options.sizeLimit))
      else .ok ⟨none, p, options.tracing⟩) ∧
    ∀ options t re, options.sizeLimit = defaultSizeLimit → build options (.pattern t) = .ok re →
      Session.readBack re.program = .ok ⟨none, re.program, false⟩ := by
  refine ⟨fun options source re h => size_le_of_build h, fun t e he => ?_, fun options p => rfl,
    fun options t re hoptions h => ?_⟩
  · intro size
    have hsize : e.codeSize + 1 = size := by
      rw [e.codeSize_eq]
      omega
    refine ⟨.layout e, (Program.size_layout e).trans hsize, fun hword => ?_, fun options => ?_⟩
    · exact Program.slotCount_layout (by omega)
    · simp only [build_pattern, he, hsize]
  · obtain ⟨hsize, hslots⟩ := size_le_of_build h
    obtain ⟨e, -, hlimit, rfl⟩ := build_pattern_eq_ok_iff.1 h
    rw [hoptions] at hsize hslots hlimit
    have hfits : e.codeSize ≤ Listing.maxSlot := by
      simp only [defaultSizeLimit, Listing.maxSlot, UInt32.size] at hlimit ⊢
      omega
    rw [Session.readBack, Program.ofListing_listing_layout hfits]
    show build {} (.program (.layout e)) = _
    rw [build, if_neg (Nat.not_lt.2 hsize), if_neg (Nat.not_lt.2 hslots)]

/-- A pattern with all kinds of parts, one instruction longer than a limit, and under the default
limit. -/
theorem build_limits_loop_over_class :
    let t : Text := .wide "(a|[b-d]+)*?.?"
    build { sizeLimit := 11 } (.pattern t) = .error (.size (.tooLarge 12 11)) ∧
      ∃ p : Program, p.size = 12 ∧ p.slotCount = 2 ∧
        build {} (.pattern t) = .ok ⟨some "(a|[b-d]+)*?.?", p, false⟩ ∧
        (p.size ≤ defaultSizeLimit ∧ p.slotCount ≤ defaultSizeLimit) ∧
        Session.readBack p = .ok ⟨none, p, false⟩ := by
  intro t
  obtain ⟨hkeeps, hpattern, -, hreload⟩ := build_limits
  have he : Pattern.ofText t = .ok (.concat (.repeated (.group (.alternate (.atom (.literal 'a'))
      (.repeated (.atom (.bracket false [.range 'b' 'd'])) .plus true))) .star false)
      (.repeated (.atom .any) .optional true)) := rfl
  obtain ⟨p, hsize, hslots, hbuild⟩ := hpattern t _ he
  simp only [Pattern.atomCount, Pattern.groupCount, Pattern.quantifierCount, Pattern.barCount,
    reduceCtorEq, if_true, if_false, Nat.reduceAdd, Nat.reduceMul] at hsize hslots hbuild
  have hdefault : build {} (.pattern t) = .ok ⟨some "(a|[b-d]+)*?.?", p, false⟩ :=
    (hbuild {}).trans (if_neg (by decide))
  have hword : 12 ≤ maxWord := by simp [maxWord, UInt64.size]
  have htooLarge := (hbuild { sizeLimit := 11 }).trans (if_pos (by decide))
  have hread := hreload {} t _ rfl hdefault
  exact ⟨htooLarge, p, hsize, hslots hword, hdefault, hkeeps {} _ _ hdefault, hread⟩

end Regex

end Lockstep

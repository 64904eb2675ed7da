import Lockstep.Proofs.Pattern.Spelling
import Lockstep.Proofs.Regex.Build

/-!
# Regexes built from spellings

A writable pattern can be given to the builder as its spelling, and what comes out is the program of
this pattern. The instructions of it that consume a character are those of its atoms, in order.

* `Pattern.filter_consumes_code`: the code of a pattern and its atoms.
* `Regex.build_spelling`: building a regex from the spelling of a pattern.
-/

namespace Lockstep

namespace Pattern

/-- The instructions of a pattern that consume a character are those of its atoms, in order. -/
theorem filter_consumes_code (e : Pattern) (base opened : Nat) :
    (e.code base opened).filter (·.consumes) = e.atoms.map Atom.instruction := by
  induction e generalizing base opened with
  | atom a => simp [code, atoms, a.consumes_instruction]
  | group body ih => simp [code, atoms, ih]
  | concat first second ih₁ ih₂ => simp [code, atoms, ih₁, ih₂]
  | alternate first second ih₁ ih₂ => simp [code, atoms, ih₁, ih₂]
  | repeated body q greedy ih => cases q <;> simp [code, atoms, ih]

end Pattern

/-- All that a layout consumes is consumed by the instructions of the atoms, in order. -/
theorem Program.filter_consumes_layout (e : Pattern) :
    (layout e).body.toList.filter (·.consumes) = e.atoms.map Atom.instruction := by
  rw [toList_body_layout, List.filter_append, e.filter_consumes_code]
  exact List.append_nil _

namespace Regex

/-- **A pattern is built from its spelling.** A text that spells a writable pattern, in which no
more groups stand inside each other than may be open at once, builds a regex that runs the program
of this pattern, if it is not too large. This is the layout of the pattern, and all that it consumes
is consumed by the instructions of the atoms, in order: the character of a literal, any character
for a dot, the ranges of a shorthand, and for a class, or its complement, those of its members one
after the other. -/
theorem build_spelling {options : Options} {e : Pattern} {t : Text} (he : e.Writable)
    (hdepth : e.depth ≤ Pattern.nestLimit) (hlimit : (Program.layout e).size ≤ options.sizeLimit)
    (ht : t.asString = e.spelling) :
    Program.ofPattern options.sizeLimit e = .ok (.layout e) ∧
    build options (.pattern t) = .ok ⟨some e.spelling, .layout e, options.tracing⟩ ∧
    (Program.layout e).body.toList.filter (·.consumes) = e.atoms.map Atom.instruction := by
  have hread : Pattern.ofText t = .ok e := (Pattern.ofText_eq_ok_iff_writable ht).2 ⟨he, hdepth⟩
  rw [Program.size_layout] at hlimit
  refine ⟨?_, ?_, Program.filter_consumes_layout e⟩
  · rw [Program.ofPattern_eq, if_neg (Nat.not_lt.2 hlimit)]
  · exact build_pattern_eq_ok_iff.2 ⟨e, hread, hlimit, by rw [ht]⟩

/-- A class that begins with a caret and has a range of operators next to a hyphen, repeated lazily
with a question mark behind it, and a group. -/
theorem build_spelling_escapes :
    let members : List ClassItem :=
      [.single '^', .range '+' '-', .single '-', .shorthand .digit]
    let e : Pattern := .alternate
      (.concat (.repeated (.atom (.bracket false members)) .star false) (.atom (.literal '?')))
      (.group (.atom (.shorthand .word true)))
    let t : Text := .wide "[\\^\\+-\\-\\-\\d]*?\\?|(\\W)"
    e.Writable ∧ e.depth ≤ Pattern.nestLimit ∧ (Program.layout e).size ≤ defaultSizeLimit ∧
      t.asString = e.spelling ∧
      build ⟨defaultSizeLimit, false⟩ (.pattern t) = .ok ⟨some e.spelling, .ofBody
        #[.split 1 6, .split 4 2,
          .inside [⟨'^', '^'⟩, ⟨'+', '-'⟩, ⟨'-', '-'⟩, ⟨'0', '9'⟩],
          .jump 1, .char '?', .jump 9, .save 0,
          .outside [⟨'a', 'z'⟩, ⟨'A', 'Z'⟩, ⟨'0', '9'⟩, ⟨'_', '_'⟩], .save 1, .accept],
        false⟩ := by
  intro members e t
  have he : e.Writable := by decide
  have hdepth : e.depth ≤ Pattern.nestLimit := by decide
  have hlimit : (Program.layout e).size ≤ defaultSizeLimit := by decide
  have ht : t.asString = e.spelling := by decide
  exact ⟨he, hdepth, hlimit, ht, (build_spelling he hdepth hlimit ht).2.1⟩

end Regex

end Lockstep

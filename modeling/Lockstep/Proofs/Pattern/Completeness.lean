import Lockstep.Pattern.Grammar
import Lockstep.Pattern.Reader

/-!
# What the grammar derives is read

A reader takes all symbols of a derivation and then holds the tree that was derived, put together
with what it had read before.

* `Pattern.Phase.piece?`: the piece that a reader has read if the next token does not belong to it.
* `ClassItem.Derives.steps_eq_ok`: the members of a class.
* `Pattern.Reads`: what it means to take the symbols of a part; `Pattern.Derives.reads`: the parts
  of a pattern, rule by rule.
* `Pattern.ofTokens_eq_ok_of_derives`: a whole pattern.
-/

namespace Lockstep

namespace Pattern

/-! ### One token -/

/-- The piece that has been read if the next token does not belong to it. -/
def Phase.piece? : Phase → Option Pattern
  | .operand body => some body
  | .quantified body q => some (.repeated body q true)
  | .piece body => some body
  | _ => none

/-- Whether a symbol can begin an operand. -/
def startsOperand : Symbol → Bool
  | .literal _ => true
  | .escape _ => true
  | .operator .caret => true
  | .operator .minus => true
  | .operator .dot => true
  | .operator .openGroup => true
  | .operator .openClass => true
  | .operator _ => false

@[simp] theorem quantifier?_operator (q : Quantifier) :
    quantifier? (.operator q.operator) = some q := by
  cases q <;> rfl

namespace Reader

variable {r : Reader} {piece : Pattern} {token : Token}

/-- A token that is no quantifier ends a piece. -/
theorem step_eq_afterPiece (h : r.phase.piece? = some piece)
    (hq : quantifier? token.symbol = none) : r.step token = r.afterPiece piece token := by
  obtain ⟨level, outer, phase⟩ := r
  obtain ⟨pos, symbol⟩ := token
  cases phase with
  | operand body =>
    obtain rfl := Option.some.inj h
    simp only [step, hq]
  | quantified body q =>
    obtain rfl := Option.some.inj h
    cases symbol with
    | literal c | escape c => rfl
    | operator op =>
      cases op with
      | question => cases hq
      | _ => rfl
  | piece body =>
    obtain rfl := Option.some.inj h
    rfl
  | _ => cases h

/-- The first token of the next operand ends a piece. -/
theorem step_of_startsOperand (h : r.phase.piece? = some piece)
    (hstart : startsOperand token.symbol = true) :
    r.step token = Reader.step ⟨r.level.addPiece piece, r.outer, .start⟩ token := by
  obtain ⟨pos, symbol⟩ := token
  cases symbol with
  | literal c | escape c => exact step_eq_afterPiece h rfl
  | operator op =>
    cases op with
    | openGroup | openClass | minus | caret | dot => exact step_eq_afterPiece h rfl
    | _ => cases hstart

theorem steps_cons_of_ok {r' : Reader} (h : r.step token = .ok r') (rest : List Token) :
    r.steps (token :: rest) = r'.steps rest := by
  rw [steps_cons, h]
  rfl

theorem steps_append_of_ok {r' : Reader} {xs : List Token} (h : r.steps xs = .ok r')
    (ys : List Token) : r.steps (xs ++ ys) = r'.steps ys := by
  rw [steps_append, h]
  rfl

theorem steps_singleton {r' : Reader} {tokens : List Token} {s : Symbol}
    (hw : tokens.map Token.symbol = [s]) (h : ∀ pos, r.step ⟨pos, s⟩ = .ok r') :
    r.steps tokens = .ok r' := by
  obtain ⟨⟨pos, symbol⟩, rfl, rfl⟩ := List.map_eq_singleton_iff.1 hw
  rw [steps_cons_of_ok (h pos), steps_nil]

theorem step_quantifier {e : Pattern} (h : r.phase = .operand e) {pos : Nat} {q : Quantifier} :
    r.step ⟨pos, .operator q.operator⟩ = .ok ⟨r.level, r.outer, .quantified e q⟩ := by
  simp only [step, h, quantifier?_operator]

theorem finish_of_piece (h : r.phase.piece? = some piece) (pos : Nat) :
    r.finish pos = r.finishPiece piece pos := by
  obtain ⟨level, outer, phase⟩ := r
  cases phase with
  | operand body | quantified body q | piece body =>
    obtain rfl := Option.some.inj h
    rfl
  | _ => cases h

end Reader

/-! ### Members of a class -/

/-- The members of a class that are complete if the class ends here. -/
def ClassTail.flush : ClassTail → List ClassItem → List ClassItem
  | .single _ c, items => .single c :: items
  | .dash _ c, items => .single '-' :: .single c :: items
  | .empty, items | .complete, items => items

/-- A `-` has been read that may make a range. -/
def ClassTail.isDash : ClassTail → Bool
  | .dash _ _ => true
  | _ => false

/-- A character has been read that may begin a range. -/
def ClassTail.isSingle : ClassTail → Bool
  | .single _ _ => true
  | _ => false

namespace Reader

variable {r : Reader} {negated : Bool} {items : List ClassItem} {tail : ClassTail} {token : Token}

theorem steps_inClass (level : Level) (outer : List Level) (token : Token) (rest : List Token) :
    Reader.steps ⟨level, outer, .inClass negated items tail⟩ (token :: rest) =
      Reader.stepClass ⟨level, outer, .inClass negated items tail⟩ negated items tail token >>=
        fun r => r.steps rest := rfl

theorem stepClass_closeClass (htail : tail ≠ .empty)
    (h : token.symbol = .operator .closeClass) :
    r.stepClass negated items tail token = .ok (r.endClass negated (tail.flush items)) := by
  cases tail with
  | empty => exact absurd rfl htail
  | complete | single pos c | dash pos c => simp only [stepClass, h]; rfl

/-- A token that neither ends the class nor makes a range begins a member. -/
theorem stepClass_eq_beginMember (htail : tail.isDash = false)
    (hclose : token.symbol ≠ .operator .closeClass)
    (hminus : tail.isSingle = true → token.symbol ≠ .operator .minus) :
    r.stepClass negated items tail token = r.beginMember negated (tail.flush items) token := by
  obtain ⟨pos, symbol⟩ := token
  cases tail with
  | empty => rfl
  | complete =>
    cases symbol with
    | literal c | escape c => rfl
    | operator op =>
      cases op with
      | closeClass => exact absurd rfl hclose
      | _ => rfl
  | single pos c =>
    cases symbol with
    | literal c | escape c => rfl
    | operator op =>
      cases op with
      | closeClass => exact absurd rfl hclose
      | minus => exact absurd rfl (hminus rfl)
      | _ => rfl
  | dash pos c => cases htail

theorem beginMember_of_inClass (h : token.symbol.InClass) :
    r.beginMember negated items token =
      .ok ⟨r.level, r.outer, .inClass negated items (.single token.pos token.symbol.char)⟩ := by
  obtain ⟨pos, symbol⟩ := token
  cases symbol with
  | literal c => rfl
  | escape c => exact absurd rfl (h.ne_escape c)
  | operator op =>
    cases op with
    | closeClass => exact absurd rfl h.ne_closeClass
    | _ => rfl

/-- Without a `^` a class begins with its first member. -/
theorem steps_openClass {level : Level} {outer : List Level} {tokens : List Token}
    (h : (tokens.map Token.symbol).head? ≠ some (.operator .caret)) (hne : tokens ≠ []) :
    Reader.steps ⟨level, outer, .openClass⟩ tokens =
      Reader.steps ⟨level, outer, .inClass false [] .empty⟩ tokens := by
  cases tokens with
  | nil => exact absurd rfl hne
  | cons token rest =>
    obtain ⟨pos, symbol⟩ := token
    have hstep : Reader.step ⟨level, outer, .openClass⟩ ⟨pos, symbol⟩ =
        Reader.step ⟨level, outer, .inClass false [] .empty⟩ ⟨pos, symbol⟩ := by
      cases symbol with
      | literal c | escape c => rfl
      | operator op =>
        cases op with
        | caret => exact absurd rfl h
        | _ => rfl
    rw [steps_cons, steps_cons, hstep]

/-- The end of a range must not come before its beginning. -/
theorem stepClass_dash {pos : Nat} {c : Char} (h : token.symbol.InClass) :
    r.stepClass negated items (.dash pos c) token =
      if token.symbol.char < c then .error ⟨pos, .invalidClassRange c token.symbol.char⟩
      else .ok ⟨r.level, r.outer,
        .inClass negated (.range c token.symbol.char :: items) .complete⟩ := by
  obtain ⟨pos, symbol⟩ := token
  cases symbol with
  | literal d => rfl
  | escape d => exact absurd rfl (h.ne_escape d)
  | operator op =>
    cases op with
    | closeClass => exact absurd rfl h.ne_closeClass
    | _ => rfl

end Reader

end Pattern

/-- A reader takes the members of a class up to the closing bracket. -/
theorem ClassItem.Derives.steps_eq_ok {w : List Symbol} {members : List ClassItem}
    (h : ClassItem.Derives w members) {tokens : List Token} (hw : tokens.map Token.symbol = w)
    {close : Token} (hclose : close.symbol = .operator .closeClass) {level : Pattern.Level}
    {outer : List Pattern.Level} {negated : Bool} {items : List ClassItem}
    {tail : Pattern.ClassTail} (htail : tail.isDash = false)
    (hminus : tail.isSingle = true → ∀ v, w = .operator .minus :: v → v = [])
    (hne : members ≠ [] ∨ tail ≠ .empty) :
    Pattern.Reader.steps ⟨level, outer, .inClass negated items tail⟩ (tokens ++ [close]) =
      .ok ⟨level, outer,
        .operand (.atom (.bracket negated ((tail.flush items).reverse ++ members)))⟩ := by
  induction h generalizing tokens items tail with
  | nil =>
    obtain rfl := List.map_eq_nil_iff.1 hw
    rw [List.nil_append, Pattern.Reader.steps_inClass,
      Pattern.Reader.stepClass_closeClass (hne.resolve_left fun h => h rfl) hclose,
      List.append_nil]
    rfl
  | @shorthand letter s w members hletter hrest ih =>
    obtain ⟨⟨pos, symbol⟩, rest, rfl, rfl, hrest⟩ := List.map_eq_cons_iff.1 hw
    have hstep : Pattern.Reader.beginMember ⟨level, outer, .inClass negated items tail⟩ negated
        (tail.flush items) ⟨pos, .escape letter⟩ =
          .ok ⟨level, outer, .inClass negated (.shorthand s :: tail.flush items) .complete⟩ := by
      simp only [Pattern.Reader.beginMember, hletter]
    have hbehind := @ih rest hrest (.shorthand s :: tail.flush items) .complete rfl nofun
      (Or.inr nofun)
    rw [List.cons_append, Pattern.Reader.steps_inClass,
      Pattern.Reader.stepClass_eq_beginMember htail (by simp) (by simp), hstep]
    exact hbehind.trans (by simp [Pattern.ClassTail.flush])
  | @single x w members hx hlast hmembers ih =>
    obtain ⟨⟨pos, symbol⟩, rest, rfl, rfl, hrest⟩ := List.map_eq_cons_iff.1 hw
    by_cases hdash : tail.isSingle = true ∧ symbol = .operator .minus
    · -- Behind a character a dash is a member only right before the closing bracket.
      obtain ⟨hsingle, rfl⟩ := hdash
      obtain rfl := hminus hsingle w rfl
      obtain rfl := List.map_eq_nil_iff.1 hrest
      cases hmembers
      cases tail with
      | single pos' c =>
        obtain ⟨pos'', symbol⟩ := close
        obtain rfl : symbol = .operator .closeClass := hclose
        show Except.ok (Pattern.Reader.endClass ⟨level, outer, _⟩ negated
          (.single '-' :: .single c :: items)) = _
        simp [Pattern.Reader.endClass, Pattern.ClassTail.flush, Symbol.char, Operator.char]
      | _ => cases hsingle
    · have hbehind := @ih rest hrest (tail.flush items) (.single pos symbol.char) rfl
        (fun _ => hlast) (Or.inr nofun)
      rw [List.cons_append, Pattern.Reader.steps_inClass,
        Pattern.Reader.stepClass_eq_beginMember htail hx.ne_closeClass
          fun h heq => hdash ⟨h, heq⟩, Pattern.Reader.beginMember_of_inClass hx]
      exact hbehind.trans (by simp [Pattern.ClassTail.flush])
  | @range x y w members hx hy hle hmembers ih =>
    obtain ⟨⟨pos, symbol⟩, rest, rfl, rfl, hrest⟩ := List.map_eq_cons_iff.1 hw
    obtain ⟨⟨pos', dash⟩, rest, rfl, rfl, hdash⟩ := List.map_eq_cons_iff.1 hrest
    obtain ⟨⟨pos'', symbol'⟩, rest, rfl, rfl, hlast⟩ := List.map_eq_cons_iff.1 hdash
    have hfirst : tail.isSingle = true → symbol ≠ .operator .minus := by
      rintro h rfl
      cases hminus h _ rfl
    have hbehind := @ih rest hlast (.range symbol.char symbol'.char :: tail.flush items) .complete
      rfl nofun (Or.inr nofun)
    rw [List.cons_append, Pattern.Reader.steps_inClass,
      Pattern.Reader.stepClass_eq_beginMember htail hx.ne_closeClass hfirst,
      Pattern.Reader.beginMember_of_inClass hx]
    show (Pattern.Reader.stepClass _ negated (tail.flush items) (.dash pos symbol.char)
      ⟨pos'', symbol'⟩ >>= fun r => r.steps (rest ++ [close])) = _
    rw [Pattern.Reader.stepClass_dash hy, if_neg (Char.not_lt.2 hle)]
    exact hbehind.trans (by simp [Pattern.ClassTail.flush])

/-- A reader takes a class up to its end. -/
theorem ClassItem.Derives.steps_class {w : List Symbol} {members : List ClassItem}
    (h : ClassItem.Derives w members) (hne : members ≠ []) {tokens : List Token}
    (hw : tokens.map Token.symbol = w ++ [.operator .closeClass]) (level : Pattern.Level)
    (outer : List Pattern.Level) (negated : Bool) :
    Pattern.Reader.steps ⟨level, outer, .inClass negated [] .empty⟩ tokens =
      .ok ⟨level, outer, .operand (.atom (.bracket negated members))⟩ := by
  obtain ⟨front, back, rfl, hfront, hback⟩ := List.map_eq_append_iff.1 hw
  obtain ⟨close, rfl, hclose⟩ := List.map_eq_singleton_iff.1 hback
  exact h.steps_eq_ok hfront hclose rfl nofun (Or.inl hne)

namespace Pattern

/-! ### Parts of a pattern -/

/-- Every operand begins with a symbol that can begin one. -/
theorem Derives.exists_cons {depth : Nat} {part : Part} {w : List Symbol} {e : Pattern}
    (h : Derives depth part w e) : ∃ s v, w = s :: v ∧ startsOperand s = true := by
  induction h with
  | branch _ ih | last _ ih | once _ ih => exact ih
  | bar _ _ ih _ | next _ _ ih _ | greedy _ _ ih | lazy _ _ ih =>
    obtain ⟨s, v, rfl, hs⟩ := ih
    exact ⟨s, _, rfl, hs⟩
  | literal | caret | minus | dot | shorthand | group | inside | outside => exact ⟨_, _, rfl, rfl⟩

/-- What a reader that has to read an operand holds after a part of a pattern. -/
def HasRead (e : Pattern) (r r' : Reader) : Part → Prop
  | .operand => r'.level = r.level ∧ r'.phase = .operand e
  | .piece => r'.level = r.level ∧ r'.phase.piece? = some e
  | .concatenation => ∃ piece, r'.phase.piece? = some piece ∧
    r'.level.branches = r.level.branches ∧
    concatAll piece r'.level.pieces = concatAll e r.level.pieces
  | .alternation => ∃ piece, r'.phase.piece? = some piece ∧
    (r.level.pieces = [] → r'.level.close piece = alternateAll e r.level.branches)

/-- A reader that has to read an operand takes the symbols `w` as the part `e` of a pattern, if
there is room for `depth` more levels. -/
def Reads (depth : Nat) (part : Part) (w : List Symbol) (e : Pattern) : Prop :=
  ∀ (tokens : List Token) (r : Reader), tokens.map Token.symbol = w → r.phase = .start →
    r.outer.length + depth ≤ nestLimit →
      ∃ r', r.steps tokens = .ok r' ∧ r'.outer = r.outer ∧ HasRead e r r' part

namespace Reads

variable {depth : Nat} {w v : List Symbol} {e first rest : Pattern}

theorem branch (h : Reads depth .concatenation w e) : Reads depth .alternation w e := by
  intro tokens r hw hstart hdepth
  obtain ⟨r', hsteps, houter, piece, hpiece, hbranches, hpieces⟩ := h tokens r hw hstart hdepth
  refine ⟨r', hsteps, houter, piece, hpiece, fun hnil => ?_⟩
  rw [Level.close, hpieces, hbranches, hnil, concatAll_nil]

theorem bar (h₁ : Reads depth .concatenation w first) (h₂ : Reads depth .alternation v rest) :
    Reads depth .alternation (w ++ .operator .bar :: v) (.alternate first rest) := by
  intro tokens r hw hstart hdepth
  obtain ⟨front, back, rfl, hfront, hback⟩ := List.map_eq_append_iff.1 hw
  obtain ⟨⟨pos, symbol⟩, back, rfl, rfl, hrest⟩ := List.map_eq_cons_iff.1 hback
  obtain ⟨r₁, hsteps₁, houter₁, last, hlast, hbranches, hpieces⟩ :=
    h₁ front r hfront hstart hdepth
  have hbar : r₁.step ⟨pos, .operator .bar⟩ = .ok ⟨r₁.level.endBranch last, r₁.outer, .start⟩ :=
    Reader.step_eq_afterPiece hlast rfl
  obtain ⟨r₂, hsteps₂, houter₂, piece, hpiece, hclose⟩ :=
    h₂ back ⟨r₁.level.endBranch last, r₁.outer, .start⟩ hrest rfl (houter₁ ▸ hdepth)
  refine ⟨r₂, ?_, houter₂.trans houter₁, piece, hpiece, fun hnil => ?_⟩
  · rw [Reader.steps_append_of_ok hsteps₁, Reader.steps_cons_of_ok hbar, hsteps₂]
  · rw [hclose rfl, Level.endBranch, hpieces, hbranches, hnil, concatAll_nil, alternateAll_cons]

theorem last (h : Reads depth .piece w e) : Reads depth .concatenation w e := by
  intro tokens r hw hstart hdepth
  obtain ⟨r', hsteps, houter, hlevel, hpiece⟩ := h tokens r hw hstart hdepth
  exact ⟨r', hsteps, houter, _, hpiece, by rw [hlevel], by rw [hlevel]⟩

/-- The next piece has to begin with a symbol that ends the piece before. -/
theorem next (h₁ : Reads depth .piece w first) (h₂ : Reads depth .concatenation v rest)
    (hv : ∃ s v', v = s :: v' ∧ startsOperand s = true) :
    Reads depth .concatenation (w ++ v) (.concat first rest) := by
  intro tokens r hw hstart hdepth
  obtain ⟨front, back, rfl, hfront, hback⟩ := List.map_eq_append_iff.1 hw
  obtain ⟨r₁, hsteps₁, houter₁, hlevel, hfirst⟩ := h₁ front r hfront hstart hdepth
  obtain ⟨r₂, hsteps₂, houter₂, piece, hpiece, hbranches, hpieces⟩ :=
    h₂ back ⟨r₁.level.addPiece first, r₁.outer, .start⟩ hback rfl (houter₁ ▸ hdepth)
  refine ⟨r₂, ?_, houter₂.trans houter₁, piece, hpiece, ?_, ?_⟩
  · obtain ⟨s, _, rfl, hs⟩ := hv
    obtain ⟨token, back, rfl, rfl, -⟩ := List.map_eq_cons_iff.1 hback
    rw [Reader.steps_append_of_ok hsteps₁, Reader.steps_cons,
      Reader.step_of_startsOperand hfirst hs, ← Reader.steps_cons, hsteps₂]
  · rw [hbranches, Level.addPiece, hlevel]
  · rw [hpieces, Level.addPiece, concatAll_cons, hlevel]

theorem once (h : Reads depth .operand w e) : Reads depth .piece w e := by
  intro tokens r hw hstart hdepth
  obtain ⟨r', hsteps, houter, hlevel, hphase⟩ := h tokens r hw hstart hdepth
  exact ⟨r', hsteps, houter, hlevel, by rw [hphase]; rfl⟩

theorem greedy (q : Quantifier) (h : Reads depth .operand w e) :
    Reads depth .piece (w ++ [.operator q.operator]) (.repeated e q true) := by
  intro tokens r hw hstart hdepth
  obtain ⟨front, back, rfl, hfront, hback⟩ := List.map_eq_append_iff.1 hw
  obtain ⟨r₁, hsteps, houter, hlevel, hphase⟩ := h front r hfront hstart hdepth
  refine ⟨⟨r₁.level, r₁.outer, .quantified e q⟩, ?_, houter, hlevel, rfl⟩
  rw [Reader.steps_append_of_ok hsteps]
  exact Reader.steps_singleton hback fun pos => Reader.step_quantifier hphase

theorem lazy (q : Quantifier) (h : Reads depth .operand w e) :
    Reads depth .piece (w ++ [.operator q.operator, .operator .question])
      (.repeated e q false) := by
  intro tokens r hw hstart hdepth
  obtain ⟨front, back, rfl, hfront, hback⟩ := List.map_eq_append_iff.1 hw
  obtain ⟨⟨pos, symbol⟩, back, rfl, rfl, hquestion⟩ := List.map_eq_cons_iff.1 hback
  obtain ⟨r₁, hsteps, houter, hlevel, hphase⟩ := h front r hfront hstart hdepth
  refine ⟨⟨r₁.level, r₁.outer, .piece (.repeated e q false)⟩, ?_, houter, hlevel, rfl⟩
  rw [Reader.steps_append_of_ok hsteps, Reader.steps_cons_of_ok (Reader.step_quantifier hphase)]
  exact Reader.steps_singleton hquestion fun pos => rfl

/-- Behind the symbols of an operand the reader holds it, on the level where it stood. -/
theorem of_steps (h : ∀ (level : Level) (outer : List Level) (tokens : List Token),
      tokens.map Token.symbol = w → outer.length + depth ≤ nestLimit →
        Reader.steps ⟨level, outer, .start⟩ tokens = .ok ⟨level, outer, .operand e⟩) :
    Reads depth .operand w e := by
  rintro tokens ⟨level, outer, phase⟩ hw rfl hdepth
  exact ⟨_, h level outer tokens hw hdepth, rfl, rfl, rfl⟩

/-- An operand may be one symbol. -/
theorem of_step {s : Symbol} (h : ∀ level outer pos, Reader.step ⟨level, outer, .start⟩ ⟨pos, s⟩ =
    .ok ⟨level, outer, .operand e⟩) : Reads depth .operand [s] e :=
  of_steps fun level outer _ hw _ => Reader.steps_singleton hw fun pos => h level outer pos

theorem group (h : Reads depth .alternation w e) :
    Reads (depth + 1) .operand (.operator .openGroup :: w ++ [.operator .closeGroup])
      (.group e) := by
  refine of_steps fun level outer tokens hw hdepth => ?_
  obtain ⟨⟨pos, symbol⟩, back, rfl, rfl, hback⟩ := List.map_eq_cons_iff.1 hw
  obtain ⟨front, back, rfl, hfront, hclose⟩ := List.map_eq_append_iff.1 hback
  have hopen : Reader.step ⟨level, outer, .start⟩ ⟨pos, .operator .openGroup⟩ =
      .ok ⟨.empty, level :: outer, .start⟩ := if_neg (by simp only; omega)
  obtain ⟨⟨inner, outer₁, phase⟩, hsteps, houter, piece, hpiece, htree⟩ :=
    h front ⟨.empty, level :: outer, .start⟩ hfront rfl (by rw [List.length_cons]; omega)
  obtain rfl : outer₁ = level :: outer := houter
  obtain rfl : inner.close piece = e := htree rfl
  rw [Reader.steps_cons_of_ok hopen, Reader.steps_append_of_ok hsteps]
  exact Reader.steps_singleton hclose fun pos => Reader.step_eq_afterPiece hpiece rfl

variable {items : List ClassItem} (hmembers : ClassItem.Derives w items) (hne : items ≠ [])
include hmembers hne

theorem inside (hcaret : w.head? ≠ some (.operator .caret)) :
    Reads depth .operand (.operator .openClass :: w ++ [.operator .closeClass])
      (.atom (.bracket false items)) := by
  refine of_steps fun level outer tokens hw _ => ?_
  obtain ⟨⟨pos, symbol⟩, back, rfl, rfl, hback⟩ := List.map_eq_cons_iff.1 hw
  have hfirst : (back.map Token.symbol).head? ≠ some (.operator .caret) := by
    rw [hback]
    cases w with
    | nil => simp
    | cons x w => simpa using hcaret
  have hsome : back ≠ [] := by
    rintro rfl
    simp at hback
  show Reader.steps ⟨level, outer, .openClass⟩ back = _
  rw [Reader.steps_openClass hfirst hsome, hmembers.steps_class hne hback]

theorem outside : Reads depth .operand
    (.operator .openClass :: .operator .caret :: w ++ [.operator .closeClass])
      (.atom (.bracket true items)) := by
  refine of_steps fun level outer tokens hw _ => ?_
  obtain ⟨⟨pos, symbol⟩, back, rfl, rfl, hback⟩ := List.map_eq_cons_iff.1 hw
  obtain ⟨⟨pos', caret⟩, back, rfl, rfl, hmore⟩ := List.map_eq_cons_iff.1 hback
  exact hmembers.steps_class hne hmore level outer true

end Reads

/-- What the grammar derives is read, rule by rule. -/
theorem Derives.reads {depth : Nat} {part : Part} {w : List Symbol} {e : Pattern}
    (h : Derives depth part w e) : Reads depth part w e := by
  induction h with
  | branch _ ih => exact ih.branch
  | bar _ _ ih₁ ih₂ => exact ih₁.bar ih₂
  | last _ ih => exact ih.last
  | next _ hrest ih₁ ih₂ => exact ih₁.next ih₂ hrest.exists_cons
  | once _ ih => exact ih.once
  | greedy q _ ih => exact ih.greedy q
  | lazy q _ ih => exact ih.lazy q
  | literal | caret | minus | dot => exact .of_step fun _ _ _ => rfl
  | shorthand hletter =>
    refine .of_step fun level outer pos => ?_
    simp only [Reader.step, Reader.beginOperand, hletter]
  | group _ ih => exact ih.group
  | inside hmembers hne hcaret => exact .inside hmembers hne hcaret
  | outside hmembers hne => exact .outside hmembers hne

/-- A whole pattern is read as the tree that its symbols write. -/
theorem ofTokens_eq_ok_of_derives {w : List Symbol} {e : Pattern}
    (h : Derives nestLimit .alternation w e) {tokens : List Token}
    (hw : tokens.map Token.symbol = w) (pos : Nat) : ofTokens tokens pos = .ok e := by
  obtain ⟨⟨level, outer, phase⟩, hsteps, houter, piece, hpiece, htree⟩ :=
    h.reads tokens .initial hw rfl (by rw [Reader.initial]; simp)
  obtain rfl : outer = [] := houter
  show (Reader.initial.steps tokens >>= fun r => r.finish pos) = _
  rw [hsteps]
  show Reader.finish _ pos = _
  rw [Reader.finish_of_piece hpiece]
  exact congrArg Except.ok (htree rfl)

end Pattern

end Lockstep

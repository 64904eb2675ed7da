import Lockstep.Proofs.Pattern.Completeness
import Lockstep.Proofs.Pattern.Lexing

/-!
# What is read is derived

At each point a reader holds parts of a derivation, and what is still missing is said by what it
would take to complete them: the symbols read so far, with those of a further part behind them,
write this part put together with the parts that the reader holds. Every token keeps this so, up to
the end of the pattern, where nothing is missing.

* `ClassItem.Continues`, `Pattern.ClassTail.Holds`: inside brackets.
* `Pattern.Level.Holds`, `Pattern.Surrounds`, `Pattern.Phase.Holds`: a level, the levels around it
  and the innermost piece.
* `Pattern.Reader.Holds.step`, `Pattern.Reader.Holds.finish`: one token, and the end of the pattern.
* `Pattern.ofText_eq_ok_iff_derives`: the texts that are patterns, and their trees.
-/

namespace Lockstep

/-! ### Members of a class -/

theorem Symbol.InClass.literal (c : Char) : InClass (.literal c) :=
  ⟨fun _ => Symbol.noConfusion, Symbol.noConfusion⟩

theorem Symbol.InClass.operator {op : Operator} (h : op ≠ .closeClass) : InClass (.operator op) :=
  ⟨fun _ => Symbol.noConfusion, fun heq => h (Symbol.operator.inj heq)⟩

/-- A character is the only member of a class. -/
theorem ClassItem.Derives.singleton {x : Symbol} (h : x.InClass) :
    Derives [x] [.single x.char] :=
  .single h (fun _ heq => absurd heq.symm (List.cons_ne_nil _ _)) .nil

/-- The symbols `w` write `items`, latest first, if `v` is the beginning of what comes behind. -/
def ClassItem.Continues (w v : List Symbol) (items : List ClassItem) : Prop :=
  ∀ rest members, ClassItem.Derives (v ++ rest) members →
    ClassItem.Derives (w ++ (v ++ rest)) (items.reverse ++ members)

namespace Pattern

/-- What a reader inside brackets holds behind the symbols `w`. -/
inductive ClassTail.Holds : ClassTail → List Symbol → List ClassItem → Prop
  | empty : Holds .empty [] []
  | complete {w item items} : ClassItem.Continues w [] (item :: items) →
    Holds .complete w (item :: items)
  | single {w x items} (pos : Nat) : Symbol.InClass x → ClassItem.Continues w [x] items →
    Holds (.single pos x.char) (w ++ [x]) items
  | dash {w x items} (pos : Nat) : Symbol.InClass x →
    ClassItem.Continues w [x, .operator .minus] items →
    Holds (.dash pos x.char) (w ++ [x, .operator .minus]) items

namespace ClassTail.Holds

variable {w : List Symbol} {items : List ClassItem} {tail : ClassTail}

/-- At the end of the class its members are complete. -/
theorem derives_flush (h : Holds tail w items) (htail : tail ≠ .empty) :
    ClassItem.Derives w (tail.flush items).reverse ∧ (tail.flush items).reverse ≠ [] := by
  cases h with
  | empty => exact absurd rfl htail
  | complete hcont =>
    refine ⟨?_, by simp [flush]⟩
    simpa [flush] using hcont [] [] .nil
  | single pos hx hcont =>
    refine ⟨?_, by simp [flush]⟩
    simpa [flush] using hcont [] _ (.singleton hx)
  | @dash w x items pos hx hcont =>
    have hminus : Symbol.InClass (.operator .minus) := .operator (by decide)
    have hlast : ∀ v, [Symbol.operator .minus] = .operator .minus :: v → v = [] := by simp
    refine ⟨?_, by simp [flush]⟩
    simpa [flush, Symbol.char, Operator.char] using
      hcont [] _ (.single hx hlast (.singleton hminus))

/-- A symbol that begins a member completes the one before. -/
theorem continues_flush (h : Holds tail w items) (htail : tail.isDash = false) {x : Symbol}
    (hx : tail.isSingle = true → x ≠ .operator .minus) :
    ClassItem.Continues w [x] (tail.flush items) := by
  intro rest members hmembers
  cases h with
  | empty => exact hmembers
  | complete hcont => exact hcont (x :: rest) members hmembers
  | @single w y items pos hy hcont =>
    have hlast : ∀ v, x :: rest = .operator .minus :: v → v = [] := by
      rintro v heq
      exact absurd (List.cons.inj heq).1 (hx rfl)
    have hboth := hcont (x :: rest) _ (.single hy hlast hmembers)
    simpa [flush] using hboth
  | dash pos hy hcont => cases htail

end ClassTail.Holds

namespace Reader

variable {r r' : Reader} {negated : Bool} {items : List ClassItem} {token : Token} {w : List Symbol}

/-- The first token of a member. -/
theorem holds_beginMember (hcont : ClassItem.Continues w [token.symbol] items)
    (h : r.beginMember negated items token = .ok r') :
    ∃ items' tail', r' = ⟨r.level, r.outer, .inClass negated items' tail'⟩ ∧
      ClassTail.Holds tail' (w ++ [token.symbol]) items' := by
  have hsingle (hx : token.symbol.InClass) : ∃ items' tail',
      r' = ⟨r.level, r.outer, .inClass negated items' tail'⟩ ∧
        ClassTail.Holds tail' (w ++ [token.symbol]) items' := by
    rw [beginMember_of_inClass hx] at h
    obtain rfl := Except.ok.inj h
    exact ⟨_, _, rfl, .single token.pos hx hcont⟩
  obtain ⟨pos, symbol⟩ := token
  cases symbol with
  | literal c => exact hsingle (.literal c)
  | escape letter =>
    simp only [beginMember] at h
    split at h
    case h_1 s hletter =>
      obtain rfl := Except.ok.inj h
      refine ⟨_, _, rfl, .complete fun rest members hmembers => ?_⟩
      simpa using hcont rest _ (.shorthand hletter hmembers)
    case h_2 => cases h
    case h_3 => cases h
  | operator op =>
    cases op with
    | closeClass => cases h
    | _ => exact hsingle (.operator (by decide))

/-- The token behind a `-` is the end of a range. -/
theorem holds_stepClass_dash {x : Symbol} {pos : Nat} (hx : Symbol.InClass x)
    (hclose : token.symbol ≠ .operator .closeClass)
    (hcont : ClassItem.Continues w [x, .operator .minus] items)
    (h : r.stepClass negated items (.dash pos x.char) token = .ok r') :
    ∃ items' tail', r' = ⟨r.level, r.outer, .inClass negated items' tail'⟩ ∧
      ClassTail.Holds tail' (w ++ [x, .operator .minus] ++ [token.symbol]) items' := by
  by_cases hescape : ∃ c, token.symbol = .escape c
  · obtain ⟨c, hc⟩ := hescape
    simp only [stepClass, hc] at h
    cases h
  · have hy : token.symbol.InClass := ⟨fun c hc => hescape ⟨c, hc⟩, hclose⟩
    rw [stepClass_dash hy] at h
    split at h
    case isTrue => cases h
    case isFalse hlt =>
      obtain rfl := Except.ok.inj h
      refine ⟨_, _, rfl, .complete fun rest members hmembers => ?_⟩
      simpa using hcont (token.symbol :: rest) _ (.range hx hy (Char.not_lt.1 hlt) hmembers)

/-- A token inside brackets goes on with the members or ends the class. -/
theorem holds_stepClass {tail : ClassTail} (hw : tail.Holds w items)
    (h : r.stepClass negated items tail token = .ok r') :
    (∃ items' tail', r' = ⟨r.level, r.outer, .inClass negated items' tail'⟩ ∧
      ClassTail.Holds tail' (w ++ [token.symbol]) items') ∨
    token.symbol = .operator .closeClass ∧ ∃ members,
      r' = ⟨r.level, r.outer, .operand (.atom (.bracket negated members))⟩ ∧
        ClassItem.Derives w members ∧ members ≠ [] := by
  by_cases hclose : token.symbol = .operator .closeClass
  · by_cases htail : tail = .empty
    · subst htail
      simp only [stepClass, beginMember, hclose] at h
      cases h
    · rw [stepClass_closeClass htail hclose] at h
      obtain rfl := Except.ok.inj h
      exact Or.inr ⟨hclose, _, rfl, hw.derives_flush htail⟩
  · refine Or.inl ?_
    cases hdash : tail.isDash with
    | true =>
      cases hw with
      | @dash w x items pos hx hcont => exact holds_stepClass_dash hx hclose hcont h
      | _ => cases hdash
    | false =>
      by_cases hminus : tail.isSingle = true ∧ token.symbol = .operator .minus
      · obtain ⟨hsingle, hsymbol⟩ := hminus
        cases hw with
        | @single w x items pos hx hcont =>
          simp only [stepClass, hsymbol] at h
          obtain rfl := Except.ok.inj h
          refine ⟨_, _, rfl, ?_⟩
          rw [hsymbol, List.append_assoc]
          exact .dash pos hx fun rest members => hcont (.operator .minus :: rest) members
        | _ => cases hsingle
      · rw [not_and] at hminus
        rw [stepClass_eq_beginMember hdash hclose hminus] at h
        exact holds_beginMember (hw.continues_flush hdash hminus) h

end Reader

/-! ### Levels -/

/-- The symbols `w` write alternatives, latest first, each with a bar behind it. -/
def Alternatives (depth : Nat) (w : List Symbol) (branches : List Pattern) : Prop :=
  ∀ v e, Derives depth .alternation v e →
    Derives depth .alternation (w ++ v) (alternateAll e branches)

/-- The symbols `w` write pieces of a concatenation, latest first. -/
def Pieces (depth : Nat) (w : List Symbol) (pieces : List Pattern) : Prop :=
  ∀ v e, Derives depth .concatenation v e →
    Derives depth .concatenation (w ++ v) (concatAll e pieces)

/-- The symbols `w` write the finished parts of a level. -/
inductive Level.Holds (depth : Nat) : Level → List Symbol → Prop
  | intro {w v branches pieces} : Alternatives depth w branches → Pieces depth v pieces →
    Holds depth ⟨branches, pieces⟩ (w ++ v)

namespace Level.Holds

variable {depth : Nat} {level : Level} {w v : List Symbol} {piece : Pattern}

theorem empty : Level.empty.Holds depth [] := @intro depth [] [] [] [] (fun _ _ => id) fun _ _ => id

theorem addPiece (h : level.Holds depth w) (hpiece : Derives depth .piece v piece) :
    (level.addPiece piece).Holds depth (w ++ v) := by
  obtain ⟨hbranches, hpieces⟩ := h
  rw [List.append_assoc]
  refine .intro hbranches fun v' e he => ?_
  rw [List.append_assoc]
  exact hpieces _ _ (.next hpiece he)

theorem endBranch (h : level.Holds depth w) (hpiece : Derives depth .piece v piece) :
    (level.endBranch piece).Holds depth (w ++ v ++ [.operator .bar]) := by
  obtain ⟨hbranches, hpieces⟩ := h
  rw [← List.append_nil (_ ++ [_])]
  refine .intro (fun v' e he => ?_) fun _ _ => id
  simpa using hbranches _ _ (.bar (hpieces _ _ (.last hpiece)) he)

theorem close (h : level.Holds depth w) (hpiece : Derives depth .piece v piece) :
    Derives depth .alternation (w ++ v) (level.close piece) := by
  obtain ⟨hbranches, hpieces⟩ := h
  rw [List.append_assoc]
  exact hbranches _ _ (.branch (hpieces _ _ (.last hpiece)))

end Level.Holds

/-- The symbols `w` write the finished parts of the levels around the innermost one, each with an
opening parenthesis behind it; at most `depth` more groups may be opened. -/
inductive Surrounds : Nat → List Level → List Symbol → Prop
  | nil : Surrounds nestLimit [] []
  | cons {depth level outer w v} : Surrounds (depth + 1) outer w → level.Holds (depth + 1) v →
    Surrounds depth (level :: outer) (w ++ v ++ [.operator .openGroup])

theorem Surrounds.add_length {depth : Nat} {outer : List Level} {w : List Symbol}
    (h : Surrounds depth outer w) : depth + outer.length = nestLimit := by
  induction h with
  | nil => rfl
  | cons _ _ ih =>
    rw [List.length_cons]
    omega

/-! ### Readers -/

/-- The symbols `w` write what has been read of the innermost piece. -/
inductive Phase.Holds (depth : Nat) : Phase → List Symbol → Prop
  | start : Holds depth .start []
  | operand {body w} : Derives depth .operand w body → Holds depth (.operand body) w
  | quantified {body w} (q : Quantifier) : Derives depth .operand w body →
    Holds depth (.quantified body q) (w ++ [.operator q.operator])
  | piece {body w} : Derives depth .piece w body → Holds depth (.piece body) w
  | openClass : Holds depth .openClass [.operator .openClass]
  | inside {items tail x w} : tail.Holds (x :: w) items → x ≠ .operator .caret →
    Holds depth (.inClass false items tail) (.operator .openClass :: x :: w)
  | outside {items tail w} : tail.Holds w items →
    Holds depth (.inClass true items tail) (.operator .openClass :: .operator .caret :: w)

/-- The symbols `w` write what a reader has read. -/
inductive Reader.Holds : Reader → List Symbol → Prop
  | intro {depth level outer phase w v u} : Surrounds depth outer w → level.Holds depth v →
    phase.Holds depth u → Holds ⟨level, outer, phase⟩ (w ++ v ++ u)

namespace Reader

variable {r r' : Reader} {depth : Nat} {level : Level} {outer : List Level} {token : Token}
  {w v u : List Symbol} {piece : Pattern}

theorem eq_operator_of_quantifier? {s : Symbol} {q : Quantifier} (h : quantifier? s = some q) :
    s = .operator q.operator := by
  unfold quantifier? at h
  split at h
  case h_4 => cases h
  all_goals
    obtain rfl := Option.some.inj h
    rfl

/-- The first token of an operand. -/
theorem holds_beginOperand (hw : Surrounds depth outer w) (hv : level.Holds depth v)
    (h : beginOperand ⟨level, outer, .start⟩ token = .ok r') :
    r'.Holds (w ++ v ++ [token.symbol]) := by
  obtain ⟨pos, symbol⟩ := token
  cases symbol with
  | literal c =>
    obtain rfl := Except.ok.inj h
    exact .intro hw hv (.operand (.literal c))
  | escape letter =>
    simp only [beginOperand] at h
    split at h
    case h_1 s negated hletter =>
      obtain rfl := Except.ok.inj h
      exact .intro hw hv (.operand (.shorthand hletter))
    case h_2 => cases h
  | operator op =>
    cases op with
    | caret =>
      obtain rfl := Except.ok.inj h
      exact .intro hw hv (.operand .caret)
    | minus =>
      obtain rfl := Except.ok.inj h
      exact .intro hw hv (.operand .minus)
    | dot =>
      obtain rfl := Except.ok.inj h
      exact .intro hw hv (.operand .dot)
    | openClass =>
      obtain rfl := Except.ok.inj h
      exact .intro hw hv .openClass
    | openGroup =>
      have hdepth := hw.add_length
      simp only [beginOperand] at h
      split at h
      case isTrue => cases h
      case isFalse hne =>
        obtain rfl := Except.ok.inj h
        obtain ⟨depth, rfl⟩ := Nat.exists_eq_succ_of_ne_zero (n := depth) (by omega)
        simpa using Holds.intro (.cons hw hv) .empty .start
    | _ => cases h

/-- The token behind a piece. -/
theorem holds_afterPiece {phase : Phase} (hw : Surrounds depth outer w)
    (hv : level.Holds depth v) (hu : Derives depth .piece u piece)
    (h : afterPiece ⟨level, outer, phase⟩ piece token = .ok r') :
    r'.Holds (w ++ v ++ u ++ [token.symbol]) := by
  have hbegin (h : beginOperand ⟨level.addPiece piece, outer, .start⟩ token = .ok r') :
      r'.Holds (w ++ v ++ u ++ [token.symbol]) := by
    rw [List.append_assoc w]
    exact holds_beginOperand hw (hv.addPiece hu) h
  obtain ⟨pos, symbol⟩ := token
  cases symbol with
  | literal c | escape c => exact hbegin h
  | operator op =>
    cases op with
    | bar =>
      obtain rfl := Except.ok.inj h
      simpa using Holds.intro hw (hv.endBranch hu) .start
    | closeGroup =>
      cases hw with
      | nil => cases h
      | cons hw hv' =>
        obtain rfl := Except.ok.inj h
        simpa using Holds.intro hw hv' (.operand (.group (hv.close hu)))
    | closeClass | star | plus | question => cases h
    | openGroup | openClass | minus | caret | dot => exact hbegin h

/-- A token inside brackets; `opening` is what stands in front of the members. -/
theorem holds_class {negated : Bool} {items : List ClassItem} {tail : ClassTail} {phase : Phase}
    (opening : List Symbol) (hw : Surrounds depth outer w) (hv : level.Holds depth v)
    (hu : tail.Holds u items)
    (hmore : ∀ items' tail', ClassTail.Holds tail' (u ++ [token.symbol]) items' →
      Phase.Holds depth (.inClass negated items' tail') (opening ++ (u ++ [token.symbol])))
    (hend : ∀ members, ClassItem.Derives u members → members ≠ [] →
      Derives depth .operand (opening ++ u ++ [.operator .closeClass])
        (.atom (.bracket negated members)))
    (h : stepClass ⟨level, outer, phase⟩ negated items tail token = .ok r') :
    r'.Holds (w ++ v ++ (opening ++ u) ++ [token.symbol]) := by
  rw [List.append_assoc (w ++ v)]
  rcases holds_stepClass hu h with ⟨items', tail', rfl, hu⟩ | ⟨hclose, members, rfl, hu, hne⟩
  · rw [List.append_assoc opening]
    exact .intro hw hv (hmore items' tail' hu)
  · rw [hclose]
    exact .intro hw hv (.operand (hend members hu hne))

/-- Every token keeps what a reader holds. -/
theorem Holds.step (hr : r.Holds w) (h : r.step token = .ok r') :
    r'.Holds (w ++ [token.symbol]) := by
  obtain ⟨hw, hv, hu⟩ := hr
  cases hu with
  | start =>
    rw [List.append_nil]
    exact holds_beginOperand hw hv h
  | @operand body u hu =>
    cases hq : quantifier? token.symbol with
    | none =>
      rw [step_eq_afterPiece rfl hq] at h
      exact holds_afterPiece hw hv (.once hu) h
    | some q =>
      simp only [Reader.step, hq] at h
      obtain rfl := Except.ok.inj h
      rw [eq_operator_of_quantifier? hq, List.append_assoc (_ ++ _)]
      exact .intro hw hv (.quantified q hu)
  | @quantified body u q hu =>
    obtain ⟨pos, symbol⟩ := token
    by_cases hlazy : symbol = .operator .question
    · subst hlazy
      obtain rfl := Except.ok.inj h
      simpa using Holds.intro hw hv (.piece (.lazy q hu))
    · simp only [Reader.step] at h
      exact holds_afterPiece hw hv (.greedy q hu) h
  | @piece body u hu => exact holds_afterPiece hw hv hu h
  | openClass =>
    by_cases hcaret : token.symbol = .operator .caret
    · simp only [Reader.step, hcaret] at h
      obtain rfl := Except.ok.inj h
      rw [hcaret, List.append_assoc (_ ++ _)]
      exact .intro hw hv (.outside .empty)
    · simp only [Reader.step] at h
      exact holds_class [.operator .openClass] hw hv .empty
        (fun items' tail' hu => .inside hu hcaret)
        (fun members hmembers hne => .inside hmembers hne (by simp)) h
  | @inside items tail x u hu hcaret =>
    exact holds_class [.operator .openClass] hw hv hu (fun items' tail' hu' => .inside hu' hcaret)
      (fun members hmembers hne => .inside hmembers hne (by simpa using hcaret)) h
  | @outside items tail u hu =>
    exact holds_class [.operator .openClass, .operator .caret] hw hv hu
      (fun items' tail' hu' => .outside hu') (fun members hmembers hne => .outside hmembers hne) h

/-- A reader that takes some tokens holds them. -/
theorem Holds.steps (hr : r.Holds w) {tokens : List Token} (h : r.steps tokens = .ok r') :
    r'.Holds (w ++ tokens.map Token.symbol) := by
  induction tokens generalizing r w with
  | nil =>
    obtain rfl := Except.ok.inj h
    rwa [List.map_nil, List.append_nil]
  | cons token rest ih =>
    rw [steps_cons] at h
    cases hstep : r.step token with
    | error e =>
      rw [hstep] at h
      cases h
    | ok r₁ =>
      rw [hstep] at h
      rw [List.map_cons, ← List.singleton_append, ← List.append_assoc]
      exact ih (hr.step hstep) h

theorem derives_of_finishPiece {phase : Phase} {pos : Nat} {e : Pattern}
    (hw : Surrounds depth outer w) (hv : level.Holds depth v) (hu : Derives depth .piece u piece)
    (h : finishPiece ⟨level, outer, phase⟩ piece pos = .ok e) :
    Derives nestLimit .alternation (w ++ v ++ u) e := by
  cases hw with
  | nil =>
    obtain rfl := Except.ok.inj h
    exact hv.close hu
  | cons => cases h

/-- At the end of the pattern all that has been read is derived. -/
theorem Holds.finish (hr : r.Holds w) {pos : Nat} {e : Pattern} (h : r.finish pos = .ok e) :
    Derives nestLimit .alternation w e := by
  obtain ⟨hw, hv, hu⟩ := hr
  cases hu with
  | operand hu => exact derives_of_finishPiece hw hv (.once hu) h
  | quantified q hu => exact derives_of_finishPiece hw hv (.greedy q hu) h
  | piece hu => exact derives_of_finishPiece hw hv hu h
  | start | openClass => cases h
  | @inside _ tail | @outside _ tail => cases tail <;> cases h

end Reader

/-- The symbols of the tokens that are read write the tree. -/
theorem derives_of_ofTokens {tokens : List Token} {pos : Nat} {e : Pattern}
    (h : ofTokens tokens pos = .ok e) :
    Derives nestLimit .alternation (tokens.map Token.symbol) e := by
  have hinitial : Reader.initial.Holds [] := .intro .nil .empty .start
  rw [ofTokens] at h
  cases hsteps : Reader.initial.steps tokens with
  | error e =>
    rw [hsteps] at h
    cases h
  | ok r =>
    rw [hsteps] at h
    exact (hinitial.steps hsteps).finish h

/-- Symbols write one tree at most. -/
theorem Derives.unique {w : List Symbol} {e e' : Pattern}
    (h : Derives nestLimit .alternation w e) (h' : Derives nestLimit .alternation w e') :
    e = e' := by
  have hw : (w.map (Token.mk 0)).map Token.symbol = w := by
    rw [List.map_map]
    exact List.map_id w
  have heq := (ofTokens_eq_ok_of_derives h hw 0).symm.trans (ofTokens_eq_ok_of_derives h' hw 0)
  exact Except.ok.inj heq

/-- **Grammar.** A text is a pattern just if the grammar derives a tree from the symbols that its
characters write, and then it is read as this tree. There is one list of these symbols, and one tree
at most. -/
theorem ofText_eq_ok_iff_derives (t : Text) :
    ∃ symbols, (∀ w, Symbol.Lexes (t.cells.map Cell.char) w ↔ w = symbols) ∧
      (∀ e, ofText t = .ok e ↔ Derives nestLimit .alternation symbols e) ∧
      ∀ e e', Derives nestLimit .alternation symbols e →
        Derives nestLimit .alternation symbols e' → e = e' := by
  refine ⟨(Token.ofText t).map Token.symbol, fun w => Token.lexes_iff, fun e => ?_,
    fun e e' => Derives.unique⟩
  exact ⟨derives_of_ofTokens, fun h => ofTokens_eq_ok_of_derives h rfl t.size⟩

/-- A `-` behind a range is a member, and no range starts with it if it stands at the end. -/
example : ofText (.wide "[a-b-]") =
    .ok (.atom (.bracket false [.range 'a' 'b', .single '-'])) := rfl

end Pattern

end Lockstep

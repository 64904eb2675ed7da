import Lockstep.Proofs.Pattern.Completion
import Lockstep.Proofs.Pattern.Division

/-!
# Where errors in patterns are found

An error is found at the first token that cannot be continued: what stands before it is the
beginning of a pattern, and whatever stands behind it makes no difference. An error gives the offset
of this token, except that the error about a range whose ends are in the wrong order is found at the
end of the range and gives the offset of its beginning.

* `Pattern.Error.IsAbout`: the tokens before the one that an error is about, and those from there
  on.
* `Pattern.Reader.Latest`: what a reader remembers of the latest tokens; `Pattern.Reader.Tracks`:
  what each function that reads a token preserves.
* `Pattern.Reader.tracks_step`, `Pattern.Reader.latest_of_steps`: one token and many.
* `Pattern.exists_isAbout`: the token that an error is about.
* `Pattern.ofText_error_located`: the error of a text.
-/

namespace Lockstep

namespace Pattern

/-- Whether an error is about the first of the tokens `after`, or about the end of the pattern if
there are none; `size` is the offset of this end. -/
def Error.IsAbout (err : Error) (before after : List Token) (size : Nat) : Prop :=
  match err.fault with
  | .invalidClassRange lo hi => ∃ front lower dash upper rest,
    before = front ++ [lower, dash] ∧ after = upper :: rest ∧ lower.pos = err.pos ∧
      lower.symbol.char = lo ∧ dash.symbol = .operator .minus ∧ upper.symbol.char = hi
  | _ => err.pos = Token.start size after

namespace Reader

/-- The offset and the character that a reader remembers are those of the latest token, or of the
one before it if that is a `-`. -/
def Latest (r : Reader) (read : List Token) : Prop :=
  match r.phase with
  | .inClass _ _ (.single pos c) => ∃ front lower,
    read = front ++ [lower] ∧ lower.pos = pos ∧ lower.symbol.char = c
  | .inClass _ _ (.dash pos c) => ∃ front lower dash,
    read = front ++ [lower, dash] ∧ lower.pos = pos ∧ lower.symbol.char = c ∧
      dash.symbol = .operator .minus
  | _ => True

/-- What reading a token behind the tokens `read` may result in. -/
def Tracks (read : List Token) (token : Token) : Except Error Reader → Prop
  | .ok r => r.Latest (read ++ [token])
  | .error err => ∀ rest size, err.IsAbout read (token :: rest) size

variable {r : Reader} {read : List Token} {token : Token}

theorem tracks_beginOperand : Tracks read token (r.beginOperand token) := by
  obtain ⟨pos, symbol⟩ := token
  cases symbol with
  | literal c => trivial
  | escape letter =>
    simp only [beginOperand]
    cases Shorthand.ofLetter? letter with
    | none => exact fun _ _ => rfl
    | some s => trivial
  | operator op =>
    cases op with
    | openGroup =>
      simp only [beginOperand]
      split
      · exact fun _ _ => rfl
      · trivial
    | caret | minus | dot | openClass => trivial
    | _ => exact fun _ _ => rfl

theorem tracks_afterPiece (piece : Pattern) : Tracks read token (r.afterPiece piece token) := by
  have hbegin := @tracks_beginOperand ⟨r.level.addPiece piece, r.outer, .start⟩ read token
  obtain ⟨pos, symbol⟩ := token
  cases symbol with
  | operator op =>
    cases op with
    | bar => trivial
    | closeGroup =>
      obtain ⟨level, _ | ⟨around, outer⟩, phase⟩ := r
      · exact fun _ _ => rfl
      · trivial
    | closeClass | star | plus | question => exact fun _ _ => rfl
    | _ => exact hbegin
  | _ => exact hbegin

theorem tracks_beginMember (negated : Bool) (items : List ClassItem) :
    Tracks read token (r.beginMember negated items token) := by
  obtain ⟨pos, symbol⟩ := token
  cases symbol with
  | literal c => exact ⟨read, _, rfl, rfl, rfl⟩
  | escape letter =>
    simp only [beginMember]
    rcases Shorthand.ofLetter? letter with _ | ⟨s, _ | _⟩
    · exact fun _ _ => rfl
    · trivial
    · exact fun _ _ => rfl
  | operator op =>
    cases op with
    | closeClass => exact fun _ _ => rfl
    | _ => exact ⟨read, _, rfl, rfl, rfl⟩

theorem tracks_stepClass {negated : Bool} {items : List ClassItem} {tail : ClassTail}
    (h : Latest ⟨r.level, r.outer, .inClass negated items tail⟩ read) :
    Tracks read token (r.stepClass negated items tail token) := by
  have hmember := @tracks_beginMember r read token negated
  obtain ⟨pos, symbol⟩ := token
  cases tail with
  | empty => exact hmember items
  | complete =>
    cases symbol with
    | operator op =>
      cases op with
      | closeClass => trivial
      | _ => exact hmember items
    | _ => exact hmember items
  | single pos' c =>
    cases symbol with
    | operator op =>
      cases op with
      | closeClass => trivial
      | minus =>
        obtain ⟨front, lower, rfl, hpos, hc⟩ := h
        exact ⟨front, lower, _, List.append_assoc _ _ _, hpos, hc, rfl⟩
      | _ => exact hmember (.single c :: items)
    | _ => exact hmember (.single c :: items)
  | dash pos' c =>
    -- The one error that does not give the offset of the token at which it is found.
    have hrange (hclass : symbol.InClass) :
        Tracks read ⟨pos, symbol⟩ (r.stepClass negated items (.dash pos' c) ⟨pos, symbol⟩) := by
      rw [stepClass_dash hclass]
      split
      · obtain ⟨front, lower, dash, rfl, hpos, hc, hdash⟩ := h
        exact fun rest _ => ⟨front, lower, dash, _, rest, rfl, rfl, hpos, hc, hdash, rfl⟩
      · trivial
    cases symbol with
    | literal d => exact hrange ⟨nofun, nofun⟩
    | escape d => exact fun _ _ => rfl
    | operator op =>
      by_cases hop : op = .closeClass
      · subst hop
        trivial
      · exact hrange ⟨nofun, by simpa using hop⟩

theorem latest_initial : initial.Latest [] := trivial

/-- Reading one token keeps track of the tokens. -/
theorem tracks_step (h : r.Latest read) : Tracks read token (r.step token) := by
  obtain ⟨level, outer, phase⟩ := r
  cases phase with
  | start => exact tracks_beginOperand
  | operand body =>
    simp only [step]
    cases quantifier? token.symbol with
    | none => exact tracks_afterPiece body
    | some q => trivial
  | quantified body q =>
    have hbehind := @tracks_afterPiece ⟨level, outer, .quantified body q⟩ read token
      (.repeated body q true)
    obtain ⟨pos, symbol⟩ := token
    cases symbol with
    | operator op =>
      cases op with
      | question => trivial
      | _ => exact hbehind
    | _ => exact hbehind
  | piece body => exact tracks_afterPiece body
  | openClass =>
    have hfirst := @tracks_stepClass ⟨level, outer, .openClass⟩ read token false [] .empty trivial
    obtain ⟨pos, symbol⟩ := token
    cases symbol with
    | operator op =>
      cases op with
      | caret => trivial
      | _ => exact hfirst
    | _ => exact hfirst
  | inClass negated items tail => exact tracks_stepClass h

/-- So does reading many. -/
theorem latest_of_steps {r' : Reader} {tokens : List Token} (h : r.Latest read)
    (hsteps : r.steps tokens = .ok r') : r'.Latest (read ++ tokens) := by
  induction tokens generalizing r read with
  | nil =>
    cases hsteps
    rwa [List.append_nil]
  | cons token rest ih =>
    have hstep := @tracks_step r read token h
    rw [steps_cons] at hsteps
    cases hr : r.step token with
    | error err =>
      rw [hr] at hsteps
      cases hsteps
    | ok r₁ =>
      rw [hr] at hsteps hstep
      have hrest := ih hstep hsteps
      rwa [List.append_assoc] at hrest

/-- An error in reading tokens is an error in reading one of them. -/
theorem exists_of_steps_eq_error {tokens : List Token} {err : Error}
    (h : r.steps tokens = .error err) : ∃ before token rest r',
      tokens = before ++ token :: rest ∧ r.steps before = .ok r' ∧ r'.step token = .error err := by
  induction tokens generalizing r with
  | nil => cases h
  | cons token rest ih =>
    cases hr : r.step token with
    | error err' =>
      rw [steps_cons, hr] at h
      cases h
      exact ⟨[], token, rest, r, rfl, rfl, hr⟩
    | ok r₁ =>
      rw [steps_cons_of_ok hr] at h
      obtain ⟨before, token', rest', r', rfl, hbefore, hstep⟩ := ih h
      exact ⟨token :: before, token', rest', r', rfl, (steps_cons_of_ok hr before).trans hbefore,
        hstep⟩

/-- An error at the end of the pattern is about the end. -/
theorem isAbout_of_finish {size : Nat} {err : Error} (h : r.finish size = .error err) :
    err.IsAbout read [] size := by
  obtain ⟨level, outer, phase⟩ := r
  have hpiece (piece : Pattern) (h : finishPiece ⟨level, outer, phase⟩ piece size = .error err) :
      err.IsAbout read [] size := by
    cases outer with
    | nil => cases h
    | cons around outer =>
      cases h
      rfl
  cases phase with
  | start | openClass =>
    cases h
    rfl
  | operand body | piece body => exact hpiece body h
  | quantified body q => exact hpiece _ h
  | inClass negated items tail =>
    cases tail <;> cases h <;> rfl

end Reader

/-- Every error in a list of tokens is about a token that is refused behind tokens that are taken,
or about the end behind all of them. -/
theorem exists_isAbout {tokens : List Token} {size : Nat} {err : Error}
    (h : ofTokens tokens size = .error err) : ∃ before after r, tokens = before ++ after ∧
      Reader.initial.steps before = .ok r ∧ err.IsAbout before after size ∧
      ∀ token rest, after = token :: rest →
        Reader.initial.steps (before ++ [token]) = .error err := by
  cases hsteps : Reader.initial.steps tokens with
  | ok r =>
    rw [ofTokens, hsteps] at h
    exact ⟨tokens, [], r, (List.append_nil tokens).symm, hsteps, Reader.isAbout_of_finish h, nofun⟩
  | error err' =>
    rw [ofTokens, hsteps] at h
    cases h
    obtain ⟨before, token, rest, r, rfl, hbefore, hstep⟩ :=
      Reader.exists_of_steps_eq_error hsteps
    have htracks := @Reader.tracks_step r before token
      (Reader.latest_of_steps Reader.latest_initial hbefore)
    rw [hstep] at htracks
    refine ⟨before, token :: rest, r, rfl, hbefore, htracks rest size, ?_⟩
    rintro token rest ⟨⟩
    rw [Reader.steps_append_of_ok hbefore, Reader.steps_cons, hstep]
    rfl

/-! ### Errors of a text -/

variable {t u q : Text} {before after : List Token} {err : Error}

/-- Some pattern begins with a part of which a reader takes the tokens. -/
theorem exists_ofText_eq_ok {cs : List Char} {r : Reader} (hcs : ∀ c ∈ cs, c = '\\')
    (hdiv : Token.Divides 0 (u.cells ++ cs.map Cell.ofChar) before)
    (hr : Reader.initial.steps before = .ok r) : ∃ q e, q.StartsWith u ∧ ofText q = .ok e := by
  have hascii : ∀ c ∈ cs ++ r.completion, c.toNat < 128 := by
    intro c hc
    obtain hc | hc := List.mem_append.1 hc
    · rw [hcs c hc]
      decide
    · exact (Reader.mem_completion hc).1
  obtain ⟨q, hq, hcells⟩ := u.exists_startsWith hascii
  rw [List.map_append, ← List.append_assoc] at hcells
  have hcompletion := Token.map_symbol_tokenize_ofChar
    (totalWidth (u.cells ++ cs.map Cell.ofChar)) fun hc => (Reader.mem_completion (r := r) hc).2 rfl
  obtain ⟨e, he⟩ := Reader.exists_finish_completion hcompletion q.size
  refine ⟨q, e, hq, ?_⟩
  rw [ofText, ofTokens, hdiv.ofText_eq hcells, Reader.steps_append_of_ok hr, he]

/-- A token that is refused is refused in every text that begins with it and the tokens before. -/
theorem ofText_eq_error (hdiv : Token.Divides 0 u.cells before)
    (hr : Reader.initial.steps before = .error err) (hq : q.StartsWith u) :
    ofText q = .error err := by
  obtain ⟨more, hcells⟩ := hq.exists_cells_eq
  rw [ofText, ofTokens, hdiv.ofText_eq hcells, Reader.steps_append_of_error hr]
  rfl

/-- Errors give the offset of a boundary. -/
theorem Error.IsAbout.isBoundary (h : err.IsAbout before after t.size)
    (ht : Token.ofText t = before ++ after) : t.IsBoundary err.pos := by
  obtain ⟨pos, fault⟩ := err
  have hstart (hpos : pos = Token.start t.size after) : t.IsBoundary pos := by
    subst hpos
    cases after with
    | nil => exact t.isBoundary_size
    | cons token rest =>
      exact Token.isBoundary_of_mem (ht ▸ List.mem_append_right before List.mem_cons_self)
  cases fault with
  | invalidClassRange lo hi =>
    obtain ⟨front, lower, dash, upper, rest, rfl, -, rfl, -⟩ := h
    exact Token.isBoundary_of_mem (ht ▸ by simp)
  | _ => exact hstart h

/-- An error of a text is about the first token that cannot be continued, or about the end.

The part before this token begins some pattern. No pattern begins with the part up to and including
this token, and every text that does has the same error; only a lone backslash at the end is another
token when something follows it. -/
theorem ofText_error_located (h : ofText t = .error err) :
    t.IsBoundary err.pos ∧ err.pos ≤ t.size ∧
      ∃ before after, Token.ofText t = before ++ after ∧ err.IsAbout before after t.size ∧
        (∃ u q e, t.slice? 0 (Token.start t.size after) = some u ∧ q.StartsWith u ∧
          ofText q = .ok e) ∧
        ∀ token rest, after = token :: rest → ¬ token.IsLoneBackslash t →
          ∃ u, t.slice? 0 (Token.start t.size rest) = some u ∧
            ∀ q, q.StartsWith u → ofText q = .error err := by
  obtain ⟨before, after, r, ht, hr, habout, hrefused⟩ := exists_isAbout h
  have hboundary := habout.isBoundary ht
  have hwidth := t.add_totalWidth_cellsFrom hboundary
  refine ⟨hboundary, by omega, before, after, ht, habout, ?_, ?_⟩
  · obtain ⟨u, cs, hu, hcs, hdiv⟩ := Token.exists_part_before ht
    obtain ⟨q, e, hq, he⟩ := exists_ofText_eq_ok hcs hdiv hr
    exact ⟨u, q, e, hu, hq, he⟩
  · rintro token rest rfl hlone
    obtain ⟨u, hu, hdiv⟩ := Token.exists_part_through ht hlone
    exact ⟨u, hu, fun q hq => ofText_eq_error hdiv (hrefused token rest rfl) hq⟩

/-- The range from `z` to `a` begins behind an `é` of two bytes and a bracket; the error is about
its end, not about the parenthesis behind that. -/
theorem ofText_error_located_range :
    let t : Text := .wide "é[z-a)"
    let err : Error := ⟨3, .invalidClassRange 'z' 'a'⟩
    ofText t = .error err ∧ t.IsBoundary err.pos ∧ err.pos ≤ t.size ∧
      ∃ before after, Token.ofText t = before ++ after ∧ err.IsAbout before after t.size ∧
        (∃ u q e, t.slice? 0 (Token.start t.size after) = some u ∧ q.StartsWith u ∧
          ofText q = .ok e) ∧
        ∀ token rest, after = token :: rest → ¬ token.IsLoneBackslash t →
          ∃ u, t.slice? 0 (Token.start t.size rest) = some u ∧
            ∀ q, q.StartsWith u → ofText q = .error err := by
  intro t err
  have herr : ofText t = .error err := rfl
  exact ⟨herr, ofText_error_located herr⟩

end Pattern

end Lockstep

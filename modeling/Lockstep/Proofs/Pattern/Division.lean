import Lockstep.Proofs.Pattern.Lexing
import Lockstep.Proofs.Text.Conversion

/-!
# Parts of a text and their tokens

The tokens of a text are made from left to right, so that the first cells of a text decide on the
first tokens. Only a backslash at the end of these cells has to wait for what follows it.

* `Token.start`: where a list of tokens begins.
* `Token.Divides`: cells that are divided into tokens in one way, whatever follows them.
* `Token.exists_divides_of_eq_append`: what the tokens before a token are made from.
* `Token.divides_or_backslash`, `Token.exists_divides_append`: the last cells of a text.
* `Token.isBoundary_of_mem`: tokens start at boundaries.
* `Token.exists_part_before`, `Token.exists_part_through`: the part of a text before a token, and
  the part that ends with it.
-/

namespace Lockstep.Token

/-- The offset where a list of tokens begins, which is the end of the text if there are none. -/
def start (size : Nat) : List Token → Nat
  | [] => size
  | token :: _ => token.pos

@[simp] theorem start_nil (size : Nat) : start size [] = size := rfl

@[simp] theorem start_cons (size : Nat) (token : Token) (rest : List Token) :
    start size (token :: rest) = token.pos := rfl

/-- The tokens of some cells begin where the cells do. -/
theorem start_tokenize (pos : Nat) (cells : List Cell) :
    start (pos + totalWidth cells) (tokenize pos cells) = pos := by
  cases cells with
  | nil => rfl
  | cons cell rest =>
    cases rest with
    | nil => rfl
    | cons next rest =>
      by_cases hc : cell.char = '\\'
      · rw [tokenize_backslash pos hc, start_cons]
      · rw [tokenize_cons pos hc, start_cons]

/-- The cells that start at offset `pos` are divided into `tokens`, whatever follows them. -/
def Divides (pos : Nat) (cells : List Cell) (tokens : List Token) : Prop :=
  ∀ more, tokenize pos (cells ++ more) = tokens ++ tokenize (pos + totalWidth cells) more

namespace Divides

variable {pos : Nat} {cell next : Cell} {cells : List Cell} {tokens : List Token}

theorem nil (pos : Nat) : Divides pos [] [] := fun _ => rfl

theorem cons (hc : cell.char ≠ '\\') (h : Divides (pos + cell.width) cells tokens) :
    Divides pos (cell :: cells) (⟨pos, Symbol.ofChar cell.char⟩ :: tokens) := by
  intro more
  rw [List.cons_append, tokenize_cons pos hc, h more, totalWidth_cons, Nat.add_assoc]
  rfl

theorem escaped (hc : cell.char = '\\')
    (h : Divides (pos + cell.width + next.width) cells tokens) :
    Divides pos (cell :: next :: cells) (⟨pos, Symbol.ofEscaped next.char⟩ :: tokens) := by
  intro more
  rw [List.cons_append, List.cons_append, tokenize_backslash pos hc, h more, totalWidth_cons,
    totalWidth_cons, Nat.add_assoc, Nat.add_assoc]
  rfl

end Divides

variable {pos : Nat} {cells : List Cell} {before after : List Token}

/-- The tokens before a token are made from the first cells. -/
theorem exists_divides_of_eq_append (h : tokenize pos cells = before ++ after)
    (hne : after ≠ []) : ∃ front back, cells = front ++ back ∧ Divides pos front before ∧
      tokenize (pos + totalWidth front) back = after := by
  induction before generalizing pos cells with
  | nil => exact ⟨[], cells, rfl, .nil pos, h⟩
  | cons token before ih =>
    match cells with
    | [] => cases h
    | [cell] =>
      obtain ⟨-, hnil⟩ := List.cons.inj h
      exact absurd (List.append_eq_nil_iff.1 hnil.symm).2 hne
    | cell :: next :: rest =>
      by_cases hc : cell.char = '\\'
      · rw [tokenize_backslash pos hc, List.cons_append] at h
        obtain ⟨rfl, htail⟩ := List.cons.inj h
        obtain ⟨front, back, rfl, hfront, hback⟩ := ih htail
        refine ⟨cell :: next :: front, back, rfl, hfront.escaped hc, ?_⟩
        rwa [totalWidth_cons, totalWidth_cons, ← Nat.add_assoc, ← Nat.add_assoc]
      · rw [tokenize_cons pos hc, List.cons_append] at h
        obtain ⟨rfl, htail⟩ := List.cons.inj h
        obtain ⟨front, back, hrest, hfront, hback⟩ := ih htail
        refine ⟨cell :: front, back, by rw [hrest]; rfl, hfront.cons hc, ?_⟩
        rwa [totalWidth_cons, ← Nat.add_assoc]

/-- Cells are divided in one way whatever follows them, or the last one is a backslash that has to
wait. -/
theorem divides_or_backslash (pos : Nat) (cells : List Cell) :
    Divides pos cells (tokenize pos cells) ∨
      ∃ front last tokens, cells = front ++ [last] ∧ last.char = '\\' ∧ Divides pos front tokens ∧
        tokenize pos cells = tokens ++ [⟨pos + totalWidth front, .literal '\\'⟩] := by
  induction pos, cells using tokenize.induct with
  | case1 pos => exact Or.inl (.nil pos)
  | case2 pos cell =>
    by_cases hc : cell.char = '\\'
    · refine Or.inr ⟨[], cell, [], rfl, hc, .nil pos, ?_⟩
      rw [tokenize, hc]
      rfl
    · exact Or.inl (.cons hc (.nil _))
  | case3 pos cell next rest hc ih =>
    rw [tokenize_backslash pos hc]
    obtain h | ⟨front, last, tokens, rfl, hlast, hfront, htokens⟩ := ih
    · exact Or.inl (h.escaped hc)
    · refine Or.inr ⟨cell :: next :: front, last, _, rfl, hlast, hfront.escaped hc, ?_⟩
      rw [htokens, totalWidth_cons, totalWidth_cons, Nat.add_assoc, Nat.add_assoc]
      rfl
  | case4 pos cell next rest hc ih =>
    rw [tokenize_cons pos hc]
    obtain h | ⟨front, last, tokens, hrest, hlast, hfront, htokens⟩ := ih
    · exact Or.inl (h.cons hc)
    · refine Or.inr ⟨cell :: front, last, _, by rw [hrest]; rfl, hlast, hfront.cons hc, ?_⟩
      rw [htokens, totalWidth_cons, Nat.add_assoc]
      rfl

/-- A waiting backslash keeps its token if another backslash follows it. -/
theorem exists_divides_append (pos : Nat) (cells : List Cell) :
    ∃ cs : List Char, (∀ c ∈ cs, c = '\\') ∧
      Divides pos (cells ++ cs.map Cell.ofChar) (tokenize pos cells) := by
  obtain h | ⟨front, last, tokens, rfl, hlast, hfront, htokens⟩ := divides_or_backslash pos cells
  · exact ⟨[], nofun, by rwa [List.map_nil, List.append_nil]⟩
  · -- A backslash stands for itself both alone and behind another one.
    refine ⟨['\\'], by simp, fun more => ?_⟩
    have hpair := tokenize_backslash (pos + totalWidth front) hlast (Cell.ofChar '\\') more
    rw [htokens, List.append_assoc, List.append_assoc, hfront, List.append_assoc]
    show tokens ++ tokenize _ (last :: Cell.ofChar '\\' :: more) = _
    rw [hpair, totalWidth_append, totalWidth_append, ← Nat.add_assoc, ← Nat.add_assoc]
    rfl

/-- Without a backslash every character makes a token. -/
theorem map_symbol_tokenize_ofChar (pos : Nat) {cs : List Char} (h : '\\' ∉ cs) :
    (tokenize pos (cs.map Cell.ofChar)).map Token.symbol = cs.map Symbol.ofChar := by
  induction cs generalizing pos with
  | nil => rfl
  | cons c cs ih =>
    obtain ⟨hc, hcs⟩ := List.ne_and_not_mem_of_not_mem_cons h
    rw [List.map_cons, tokenize_cons pos (Ne.symm hc), List.map_cons, ih _ hcs]
    rfl

/-! ### The tokens of a text -/

variable {t : Text}

/-- A text that begins with cells of its own tokens has these tokens first. -/
theorem Divides.ofText_eq {front more : List Cell} (h : Divides 0 front before)
    (ht : t.cells = front ++ more) : ofText t = before ++ tokenize (totalWidth front) more := by
  rw [ofText, ht, h more, Nat.zero_add]

/-- The tokens from a place on begin behind the cells of the tokens before. -/
theorem start_size {front back : List Cell} (ht : t.cells = front ++ back) :
    start t.size (tokenize (totalWidth front) back) = totalWidth front := by
  rw [Text.size_eq_totalWidth, ht, totalWidth_append, start_tokenize]

/-- Every token of a text starts at a boundary. -/
theorem isBoundary_of_mem {token : Token} (h : token ∈ ofText t) : t.IsBoundary token.pos := by
  obtain ⟨before, after, h⟩ := List.append_of_mem h
  obtain ⟨front, back, hcells, -, hback⟩ := exists_divides_of_eq_append h (List.cons_ne_nil _ _)
  rw [Nat.zero_add] at hback
  have hstart := start_size hcells
  rw [hback, start_cons] at hstart
  rw [hstart]
  exact Text.isBoundary_of_cells_eq hcells

/-- Whether a token is the last of a text and consists of a backslash alone. -/
def IsLoneBackslash (t : Text) (token : Token) : Prop :=
  (t.cellsFrom token.pos).map Cell.char = ['\\']

/-- The part of a text that some of its first cells make up. -/
theorem exists_slice?_start {front back : List Cell} (ht : t.cells = front ++ back) :
    ∃ u, t.slice? 0 (start t.size (tokenize (totalWidth front) back)) = some u ∧
      u.cells = front := by
  have ht' : t.cells = [] ++ front ++ back := ht
  rw [start_size ht, ← Nat.zero_add (totalWidth front)]
  exact Text.slice?_eq_some ht'

/-- The first tokens of a text are those of the part before the next token, with a backslash behind
it if it is the whole text and ends with a lone backslash. -/
theorem exists_part_before (h : ofText t = before ++ after) :
    ∃ (u : Text) (cs : List Char), t.slice? 0 (start t.size after) = some u ∧
      (∀ c ∈ cs, c = '\\') ∧ Divides 0 (u.cells ++ cs.map Cell.ofChar) before := by
  by_cases hne : after = []
  · subst hne
    have ht : t.cells = t.cells ++ [] := (List.append_nil _).symm
    obtain ⟨u, hu, hcells⟩ := exists_slice?_start ht
    obtain ⟨cs, hcs, hdiv⟩ := exists_divides_append 0 t.cells
    rw [List.append_nil] at h
    rw [← ofText, h, ← hcells] at hdiv
    exact ⟨u, cs, hu, hcs, hdiv⟩
  · obtain ⟨front, back, ht, hdiv, hback⟩ := exists_divides_of_eq_append h hne
    rw [Nat.zero_add] at hback
    obtain ⟨u, hu, hcells⟩ := exists_slice?_start ht
    rw [hback] at hu
    rw [← hcells] at hdiv
    exact ⟨u, [], hu, nofun, by rwa [List.map_nil, List.append_nil]⟩

/-- The part of a text up to and including a token has the tokens up to there, unless this token
is a lone backslash. -/
theorem exists_part_through {token : Token} {rest : List Token}
    (h : ofText t = before ++ token :: rest) (hlone : ¬ token.IsLoneBackslash t) :
    ∃ u, t.slice? 0 (start t.size rest) = some u ∧ Divides 0 u.cells (before ++ [token]) := by
  by_cases hne : rest = []
  · subst hne
    obtain hdiv | ⟨front, last, tokens, ht, hlast, -, htokens⟩ := divides_or_backslash 0 t.cells
    · have ht : t.cells = t.cells ++ [] := (List.append_nil _).symm
      obtain ⟨u, hu, hcells⟩ := exists_slice?_start ht
      rw [← ofText, h, ← hcells] at hdiv
      exact ⟨u, hu, hdiv⟩
    · rw [← ofText, h, Nat.zero_add] at htokens
      obtain ⟨-, htoken⟩ := List.append_inj' htokens rfl
      obtain rfl := List.singleton_inj.1 htoken
      refine absurd ?_ hlone
      rw [IsLoneBackslash, Text.cellsFrom_of_cells_eq ht, List.map_singleton, hlast]
  · rw [← List.singleton_append, ← List.append_assoc] at h
    obtain ⟨front, back, ht, hdiv, hback⟩ := exists_divides_of_eq_append h hne
    rw [Nat.zero_add] at hback
    obtain ⟨u, hu, hcells⟩ := exists_slice?_start ht
    rw [hback] at hu
    rw [← hcells] at hdiv
    exact ⟨u, hu, hdiv⟩

end Lockstep.Token

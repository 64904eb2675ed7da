import Lockstep.Regex.Session

/-!
# Sessions without a past

What a session is expected to answer: as if the regex were built anew for every request, and as if
captures that are held were values that nothing else is written to.

* `Regex.anew`: what a search finds and reports with a regex that has not been used.
* `Session.Renewed`, with `Session.Renewed.answer`: a session without schedulers and rows.
* `Session.transcript`: what is answered and reported for one request after the other.
-/

namespace Lockstep

/-- What a search finds and reports with a regex that has not been used. -/
def Regex.anew {α : Type} (re : Regex) (find : Search re α) : α × List LogLine :=
  let (a, searching) := find.run (.initial re)
  (a, searching.log.toList)

namespace Session

/-- A regex that is built anew for every request. -/
structure Renewed where
  regex : Regex
  /-- The slots that `execInto` writes to. -/
  slots : Slots
  /-- The captures that have been held on to, in the order in which they were found. -/
  held : List Captures

namespace Renewed

/-- Nothing has been asked yet. -/
def start (re : Regex) (slots : Slots) : Renewed := ⟨re, slots, []⟩

/-- One more item is held on to. -/
def hold (v : Renewed) (captures : Option Captures) : Renewed :=
  { v with held := v.held ++ captures.toList }

/-- The answer to a request. -/
def answer (v : Renewed) : Request → Answer Renewed
  | .matchLength t =>
    let (length, log) := v.regex.anew (v.regex.matchLength t)
    ⟨.length length, log, v⟩
  | .isMatch t =>
    let (isMatch, log) := v.regex.anew (v.regex.isMatch t)
    ⟨.verdict isMatch, log, v⟩
  | .execInto t =>
    let ((length, slots), log) := v.regex.anew (v.regex.execInto v.slots t)
    ⟨.executed length slots, log, { v with slots := slots }⟩
  | .findAt t pos =>
    let (found, log) := v.regex.anew (v.regex.findAt t pos)
    ⟨.found found, log, v⟩
  | .captures t =>
    let (captures, log) := v.regex.anew (v.regex.captures t)
    ⟨.captured captures, log, v.hold captures⟩
  | .capturesAt t pos =>
    let (captures, log) := v.regex.anew (v.regex.capturesAt t pos)
    ⟨.captured captures, log, v.hold captures⟩
  | .release =>
    let held := v.held.dropLast
    ⟨.released held.length, [], { v with held := held }⟩
  | .discard item =>
    let held := v.held.eraseIdx item
    ⟨.released held.length, [], { v with held := held }⟩
  | .copy => ⟨.replaced v.regex.source true, [], v⟩
  | .reload =>
    match readBack v.regex.program with
    | .error e => ⟨.failed e, [], v⟩
    | .ok re =>
      ⟨.replaced re.source (re.program == v.regex.program), [re.buildLine], { v with regex := re }⟩
  | request => ⟨describe v.held request, [], v⟩

end Renewed

/-- What is answered and reported for one request after the other. -/
def transcript {σ : Type} (answer : σ → Request → Answer σ) (s : σ) :
    List Request → List (Response × List LogLine)
  | [] => []
  | request :: requests =>
    let a := answer s request
    (a.response, a.log) :: transcript answer a.next requests

end Session

end Lockstep

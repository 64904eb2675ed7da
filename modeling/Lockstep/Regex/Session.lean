import Lockstep.Listing.Printer
import Lockstep.Regex.Pool
import Lockstep.Regex.Search

/-!
# Sessions

A session keeps a regex, a row of slots and the captures that have been held on to, and answers
one request after the other. The regex can be replaced by a copy of itself, or by the one that is
read back from the listing of its program.

A regex has two pools, of schedulers and of rows of slots. A scheduler is lent for one search. A row
is lent for one search too, unless captures are found and held on to: then it is lent for as long as
they are held, since their slots are in it.

* `Session.Held`: captures that are held.
* `Session`, with `Session.start`.
* `Session.Request`, `Session.Response`.
* `Session.search`, `Session.capture`: a search with a scheduler, and one with a row of slots too.
* `Session.inspect`, `Session.retain`: such a search if the row is given back, and if it is not.
* `Session.letGo`: captures that were held.
* `Session.Answer`, `Session.answer`: the answer to a request, what was reported meanwhile, and the
  session after it.
-/

namespace Lockstep

/-- Captures that are held. -/
inductive Session.Held where
  /-- The slots of the captures are in a row that is lent. -/
  | lent (whole : Match) (row : Nat)
  /-- The captures stem from a regex that has been replaced. -/
  | kept (captures : Captures)
  deriving DecidableEq

/-- A regex in use. -/
structure Session (K : Keeper := .stack) where
  regex : Regex
  schedulers : Pool K (Scheduler regex.program.size)
  /-- The rows of slots for captures. -/
  rows : Pool K Slots
  /-- The slots that `execInto` writes to. -/
  slots : Slots
  /-- The captures that have been held on to, in the order in which they were found. -/
  held : List Session.Held

namespace Session

/-- A session in which nothing has been asked. -/
def start (re : Regex) (slots : Slots) (K : Keeper := .stack) : Session K :=
  ⟨re, .new K (.initial re.program.size), .new K #[], slots, []⟩

/-- An end of a row of groups. -/
inductive Side where
  | front
  | back
  deriving DecidableEq, Repr

/-- What a session can be asked for. -/
inductive Request where
  | matchLength (t : Text)
  | isMatch (t : Text)
  | execInto (t : Text)
  | findAt (t : Text) (pos : Nat)
  /-- The match at the start of a text, which is then held on to. -/
  | captures (t : Text)
  /-- The first match from an offset on, which is then held on to. -/
  | capturesAt (t : Text) (pos : Nat)
  /-- Captures that are held. -/
  | held (item : Nat)
  /-- A group of captures that are held. -/
  | group (item index : Nat)
  /-- The text of a group of captures that are held. -/
  | groupText (item index : Nat)
  /-- The groups of captures that are held, taken from either end. -/
  | walk (item : Nat) (sides : List Side)
  /-- Lets go of the captures that were held on to last. -/
  | release
  /-- Lets go of captures that are held. -/
  | discard (item : Nat)
  /-- Goes on with a copy of the regex. -/
  | copy
  /-- Goes on with the regex that is read back from the listing of the program. -/
  | reload
  deriving DecidableEq

/-- Answers about the text of a group can be compared. Core has no such instance for `Except`. -/
instance decidableEqGroupText : DecidableEq (Except GroupError Text)
  | .error e, .error e' => decidable_of_iff (e = e') (by simp)
  | .ok u, .ok u' => decidable_of_iff (u = u') (by simp)
  | .error _, .ok _ | .ok _, .error _ => isFalse nofun

/-- What a session answers. -/
inductive Response where
  | length (length : Option Nat)
  | verdict (isMatch : Bool)
  | executed (length : Option Nat) (slots : Slots)
  | found (found : Option Match)
  | captured (captures : Option Captures)
  | groupText (text : Except GroupError Text)
  /-- The number of groups, and each group taken with the number of those left after it. -/
  | walked (count : Nat) (taken : List (Option (Option Match) × Nat))
  /-- The number of captures still held. -/
  | released (left : Nat)
  /-- The pattern of the new regex, and whether its program is that of the old one. -/
  | replaced (source : Option String) (sameProgram : Bool)
  | failed (e : Error)
  /-- Nothing is held under the given number. -/
  | missing
  deriving DecidableEq

/-- An answer, what was reported meanwhile, and what there is to answer the next request. -/
structure Answer (σ : Type) where
  response : Response
  log : List LogLine
  next : σ

/-- The groups that a cursor gives when it is moved on from the given sides, each with the number
of groups left after it. -/
def take (cursor : Captures.Cursor) : List Side → List (Option (Option Match) × Nat)
  | [] => []
  | side :: sides =>
    let (group, cursor) :=
      match side with
      | .front => cursor.next
      | .back => cursor.nextBack
    (group, cursor.remaining) :: take cursor sides

/-- What is said about one of the captures that are held; `missing` if there are none with its
number, or if the request is not about captures that are held. -/
def describe (held : List Captures) : Request → Response
  | .held item => about item fun c => .captured (some c)
  | .group item index => about item fun c => .found (c.group? index)
  | .groupText item index => about item fun c => .groupText (c.groupText index)
  | .walk item sides => about item fun c => .walked c.groupCount (take c.cursor sides)
  | _ => .missing
where
  about (item : Nat) (say : Captures → Response) : Response := (held[item]?.map say).getD .missing

/-- The regex that is read back from the listing of a program. -/
def readBack (p : Program) : Except Error Regex := do
  let p ← (Program.ofListing p.listing).mapError Error.listing
  Regex.build {} (.program p)

variable {K : Keeper}

/-- What a search finds and reports, and the session after it. -/
def search {α : Type} (s : Session K) (find : Search s.regex α) : α × List LogLine × Session K :=
  let ((a, log), schedulers) := s.schedulers.use fun scheduler =>
    let (a, searching) := find.run ⟨scheduler, #[]⟩
    ((a, searching.log), searching.scheduler)
  (a, log.toList, { s with schedulers := schedulers })

/-- Searches for captures with a row of slots, which is lent for good if there are any, and only
then written to. -/
def capture (s : Session K) (find : Search s.regex (Option Captures)) :
    Option Held × List LogLine × Session K :=
  let (row, rows) := s.rows.lend
  let (captures, log, s) := s.search find
  match captures with
  | none => (none, log, { s with rows := rows.giveBack row })
  | some c => (some (.lent c.whole row), log, { s with rows := rows.write row c.slots })

/-- What held captures show. -/
def shown (s : Session K) : Held → Captures
  | .lent whole row => ⟨whole.text, whole.start, whole.finish, s.rows.values row⟩
  | .kept captures => captures

/-- A session after the row of captures that nobody holds has been given back. -/
def free (s : Session K) : Held → Session K
  | .lent _ row => { s with rows := s.rows.giveBack row }
  | .kept _ => s

/-- A session after one more item has been held on to. -/
def hold (s : Session K) (found : Option Held) : Session K :=
  { s with held := s.held ++ found.toList }

/-- What a search for captures finds and reports, and the session after it, if nobody holds on to
the captures. -/
def inspect (s : Session K) (find : Search s.regex (Option Captures)) :
    Option Captures × List LogLine × Session K :=
  let (found, log, s) := s.capture find
  (found.map s.shown, log, found.elim s s.free)

/-- What a search for captures finds and reports, and the session after it, if the captures are held
on to. -/
def retain (s : Session K) (find : Search s.regex (Option Captures)) :
    Option Captures × List LogLine × Session K :=
  let (found, log, s) := s.capture find
  (found.map s.shown, log, s.hold found)

/-- A session after captures have been let go. -/
def letGo (s : Session K) (item : Nat) : Session K :=
  match s.held[item]? with
  | none => s
  | some held => { s with held := s.held.eraseIdx item }.free held

/-- A session that goes on with another regex, which has pools of its own. -/
def withRegex (s : Session K) (re : Regex) : Session K :=
  { start re s.slots K with held := s.held.map fun held => .kept (s.shown held) }

/-- The answer to a request. -/
def answer (s : Session K) : Request → Answer (Session K)
  | .matchLength t =>
    let (captures, log, s) := s.inspect (s.regex.captures t)
    ⟨.length (captures.map Captures.finish), log, s⟩
  | .isMatch t =>
    let (captures, log, s) := s.inspect (s.regex.captures t)
    ⟨.verdict captures.isSome, log, s⟩
  | .execInto t =>
    let ((length, slots), log, s) := s.search (s.regex.execInto s.slots t)
    ⟨.executed length slots, log, { s with slots := slots }⟩
  | .findAt t pos =>
    let (captures, log, s) := s.inspect (s.regex.capturesAt t pos)
    ⟨.found (captures.map Captures.whole), log, s⟩
  | .captures t =>
    let (captures, log, s) := s.retain (s.regex.captures t)
    ⟨.captured captures, log, s⟩
  | .capturesAt t pos =>
    let (captures, log, s) := s.retain (s.regex.capturesAt t pos)
    ⟨.captured captures, log, s⟩
  | .release =>
    let s := s.letGo (s.held.length - 1)
    ⟨.released s.held.length, [], s⟩
  | .discard item =>
    let s := s.letGo item
    ⟨.released s.held.length, [], s⟩
  | .copy => ⟨.replaced s.regex.source true, [], s.withRegex s.regex⟩
  | .reload =>
    match readBack s.regex.program with
    | .error e => ⟨.failed e, [], s⟩
    | .ok re =>
      ⟨.replaced re.source (re.program == s.regex.program), [re.buildLine], s.withRegex re⟩
  | request => ⟨describe (s.held.map s.shown) request, [], s⟩

end Session

end Lockstep

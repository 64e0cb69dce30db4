import Mathlib.Data.List.Basic
import Mathlib.Logic.Function.Basic

/-!
# The chat program

Model of `rtemsbsd/pppd/chat.c`: the commands of a script, `clean`, `get_string`, `put_string`, `chat_expect`,
`chat_send` and `chatmain`.

* `Line` — what outlasts a call of `chatmain` (the keywords that wait for their argument, the abort strings), the
  modem, and a record of what happens.  The modem is given by the results of the calls of `read`, an octet or none,
  and of `write`; after the last one it stays silent and takes everything.
* `ChatState` — the line with `exit_code`.
* A string is the list of its octets in front of the terminating zero.

The arguments of `SAY`, `ECHO`, `REPORT` and `TIMEOUT` have no effect on what is modelled here and are left out,
`fail_reason` and `quiet` as well; `use_env` and the phone numbers are never set.
-/

namespace RtemsLibbsd.Chat

abbrev Byte := BitVec 8

abbrev ch (c : Char) : Byte := BitVec.ofNat 8 c.toNat

def text (s : String) : List Byte := s.toList.map ch

abbrev STR_LEN : Nat := 1024
/-- `sizeof(fail_buffer)`. -/
abbrev FAIL_LEN : Nat := 50
abbrev MAX_ABORTS : Nat := 16
abbrev MAX_TIMEOUTS : Nat := 10

/-- An element of `abort_string`. -/
abbrev AbortString := { s : List Byte // s.length < FAIL_LEN }

/-- The first value of `abort_string`. -/
def abortStrings : List AbortString :=
  [
    ⟨text "BUSY", by decide⟩, ⟨text "NO DIALTONE", by decide⟩, ⟨text "NO CARRIER", by decide⟩,
    ⟨text "NO ANSWER", by decide⟩, ⟨text "RING\r\nRING", by decide⟩
  ]

/-! ## Strings -/

def cstr (s : List Byte) : List Byte := s.takeWhile (· != 0)

def isoctal (c : Byte) : Bool := decide (ch '0' ≤ c) && decide (c ≤ ch '7')

/-- The octet `cur_chr` of an escape sequence in octal digits. -/
def octalEscape (sending : Bool) (c : Byte) : List Byte :=
  if c ≠ 0 ∨ sending = true then (if sending = true ∧ (c = ch '\\' ∨ c = 0) then [ch '\\', c] else [c]) else []

/-- The cases of `clean` behind a backslash that read nothing more, but for the octal digits. -/
def cleanEscape (sending : Bool) (c : Byte) : List Byte :=
  if c = ch 'b' then [8]
  else if c = ch '\\' ∨ c = ch 'K' ∨ c = ch 'p' ∨ c = ch 'd' then (if sending then [ch '\\', c] else [c])
  else if c = ch 'T' ∨ c = ch 'U' then [ch '\\', c]
  else if c = ch 'q' then []
  else if c = ch 'r' then [ch '\r']
  else if c = ch 'n' then [ch '\n']
  else if c = ch 's' then [ch ' ']
  else if c = ch 't' then [ch '\t']
  else if c = ch 'N' then (if sending then [ch '\\', 0] else [ch 'N'])
  else if sending then [ch '\\', c]
  else [c]

/-- `clean`, without the two terminating zeros. -/
def clean (sending : Bool) : List Byte → List Byte
  | [] => if sending then [ch '\r'] else []
  | c :: s =>
    if c = ch '^' then
      match s with
      | [] => ch '^' :: if sending then [ch '\r'] else []
      | d :: s => if d &&& 0x1f = 0 then clean sending s else (d &&& 0x1f) :: clean sending s
    else if c ≠ ch '\\' then c :: clean sending s
    else
      match s with
      | [] => if sending then [ch '\\', ch '\\', ch '\r'] else []
      | d :: s =>
        if d = ch 'c' then
          -- at the end of a string that is sent it stands for no return
          if sending = true ∧ s = [] then [] else d :: clean sending s
        else if isoctal d then
          match s with
          | [] => octalEscape sending (d &&& 7) ++ clean sending []
          | e :: s =>
            if isoctal e then
              let v := ((d &&& 7) <<< 3) ||| (e - ch '0')
              match s with
              | [] => octalEscape sending v ++ clean sending []
              | f :: s =>
                if isoctal f then octalEscape sending ((v <<< 3) ||| (f - ch '0')) ++ clean sending s
                else octalEscape sending v ++ clean sending (f :: s)
            else octalEscape sending (d &&& 7) ++ clean sending (e :: s)
        else cleanEscape sending d ++ clean sending s

/-- One call of `expect_strtok`, on a string that is not empty: the token, and what is behind it.  The character
    behind a backslash is skipped. -/
def expect_strtok (escape : Bool) : List Byte → List Byte × List Byte
  | [] => ([], [])
  | c :: s =>
    if escape then ((c :: (expect_strtok false s).1), (expect_strtok false s).2)
    else if c = ch '\\' then ((c :: (expect_strtok true s).1), (expect_strtok true s).2)
    else if c = ch '-' then ([], s)
    else ((c :: (expect_strtok false s).1), (expect_strtok false s).2)

/-- The results of the calls of `expect_strtok`, `n` at most. -/
def expectTokens : Nat → List Byte → List (List Byte)
  | 0, _ => []
  | _ + 1, [] => []
  | n + 1, c :: s => (expect_strtok false (c :: s)).1 :: expectTokens n (expect_strtok false (c :: s)).2

/-- `getnextcommand`: the command, and what is behind it. -/
def getnextcommand (script : List Byte) : Option (List Byte × List Byte) :=
  if ch '@' ∈ script then
    some ((script.takeWhile (· != ch '@')).take 78, (script.dropWhile (· != ch '@')).drop 1)
  else none

/-! ## The modem -/

/-- The result of `get_string`. -/
inductive Heard where
  | matched
  | aborted (n : Nat)
  | silent
  | tooLong
  deriving DecidableEq

/-- What `put_string` does at the line. -/
inductive Attempt where
  | write (c : Byte) (ok : Bool)
  | brk
  | pause
  deriving DecidableEq

inductive Entry where
  | expect (s : List Byte)
  | heard (s : List Byte) (h : Heard)
  | send (s : List Byte) (out : List Attempt)
  deriving DecidableEq

/-- The commands of `chat_expect` that take the next string to be sent as an argument. -/
inductive Keyword where
  | hangup
  | abort
  | clrAbort
  | report
  | clrReport
  | timeout
  | echo
  | say
  deriving DecidableEq

structure Line where
  /-- `hup_next`, `abort_next` and so on. -/
  next : Keyword → Bool
  aborts : List AbortString
  reads : List (Option Byte)
  writes : List Bool
  log : List Entry

def Line.record (l : Line) (e : Entry) : Line := { l with log := l.log ++ [e] }

/-- `get_char`, with the tries that are left. -/
def get_char : Nat → List (Option Byte) → Option Byte × List (Option Byte)
  | 0, reads => (none, reads)
  | tries + 1, [] => get_char tries []
  | tries + 1, none :: reads => get_char tries reads
  | _ + 1, some c :: reads => (some (c &&& 0x7f), reads)

/-- The first abort string at the end of `s`. -/
def findAbort (aborts : List AbortString) (s : List Byte) : Option Nat :=
  aborts.findIdx? fun a => decide (a.val.length ≤ s.length ∧ s.drop (s.length - a.val.length) = a.val)

/-- The loop of `get_string`; `s` are the octets from `temp2` on. -/
def getStringLoop (string : List Byte) (aborts : List AbortString) :
    Nat → List Byte → List (Option Byte) → Heard × List (Option Byte)
  | 0, _, reads => (.silent, reads)
  | fuel + 1, s, reads =>
    match get_char MAX_TIMEOUTS reads with
    | (none, reads) => (.silent, reads)
    | (some c, reads) =>
      let s := if c = ch '\n' ∨ c = ch '\r' then [] else s ++ [c]
      if string.length ≤ s.length ∧ string.getLast? = some c ∧ s.drop (s.length - string.length) = string then
        (.matched, reads)
      else
        match findAbort aborts s with
        | some n => (.aborted n, reads)
        | none =>
          let minlen := max string.length FAIL_LEN - 1
          getStringLoop string aborts fuel (if STR_LEN ≤ s.length then s.drop (s.length - minlen) else s) reads

/-- `get_string`, without `exit_code`. -/
def get_string (l : Line) (in_string : List Byte) : Heard × List (Option Byte) :=
  let string := cstr (clean false in_string)
  if STR_LEN < string.length then (.tooLong, l.reads)
  else if string.length = 0 then (.matched, l.reads)
  else getStringLoop string l.aborts (l.reads.length + 1) [] l.reads

/-- What was done at the line, whether the string was sent as a whole, and the results of `write` that are left. -/
structure Sent where
  out : List Attempt
  ok : Bool
  writes : List Bool

def Sent.before (a : Attempt) (r : Sent) : Sent := { r with out := a :: r.out }

/-- `write_char`, and what is done if it succeeds. -/
def writeChar (c : Byte) (writes : List Bool) (more : List Bool → Sent) : Sent :=
  if writes.headD true then (more writes.tail).before (.write c true) else ⟨[.write c false], false, writes.tail⟩

/-- The loop of `put_string`, over the memory at `out`. -/
def putLoop : List Byte → List Bool → Sent
  | [], writes => ⟨[], true, writes⟩
  | c :: out, writes =>
    if c = 0 then ⟨[], true, writes⟩
    else if c ≠ ch '\\' then writeChar c writes (putLoop out)
    else
      match out with
      | [] => ⟨[], true, writes⟩
      | d :: out =>
        if d = ch 'd' then (putLoop out writes).before .pause
        else if d = ch 'K' then (putLoop out writes).before .brk
        else if d = ch 'p' then (putLoop out writes).before .pause
        else writeChar d writes (putLoop out)

def put_string (s : List Byte) (writes : List Bool) : Sent := putLoop (clean true s ++ [0, 0]) writes

/-! ## Expect and send -/

structure ChatState where
  line : Line
  exitCode : Nat

/-- The assignments to `exit_code` in `get_string`. -/
def Heard.exitCode (e : Nat) : Heard → Nat
  | .matched => e
  | .aborted n => n + 4
  | .silent => 3
  | .tooLong => 1

/-- A call of `get_string`. -/
def ChatState.hear (c : ChatState) (s : List Byte) : Heard × ChatState :=
  ((get_string c.line s).1,
    { line := ({ c.line with reads := (get_string c.line s).2 } : Line).record (.heard s (get_string c.line s).1)
      exitCode := (get_string c.line s).1.exitCode c.exitCode })

def addAbort (aborts : List AbortString) (s : List Byte) : List AbortString :=
  if aborts.length < MAX_ABORTS then
    if h : (cstr (clean false s)).length ≤ s.length ∧ (cstr (clean false s)).length < FAIL_LEN then
      aborts ++ [⟨cstr (clean false s), h.2⟩]
    else aborts
  else aborts

/-- The order in which `chat_send` looks for a keyword that waits for its argument. -/
def sendOrder : List Keyword := [.say, .hangup, .echo, .abort, .clrAbort, .report, .clrReport, .timeout]

def Line.pending (l : Line) : Option Keyword := sendOrder.find? l.next

def Line.consume (l : Line) (k : Keyword) (s : List Byte) : Line :=
  { l with
    next := Function.update l.next k false
    aborts := if k = .abort then addAbort l.aborts s else l.aborts }

def chat_send (c : ChatState) (s : List Byte) : ChatState :=
  match c.line.pending with
  | some k => { c with line := (c.line.consume k s).record (.send s []) }
  | none =>
    if s = text "EOT" then { c with line := c.line.record (.send s []) }
    else
      let r := put_string (if s = text "BREAK" then text "\\K\\c" else s) c.line.writes
      { line := ({ c.line with writes := r.writes } : Line).record (.send s r.out)
        exitCode := if r.ok then c.exitCode else 2 }

/-- The keywords in the order of `chat_expect`. -/
def keywords : List (List Byte × Keyword) :=
  [
    (text "HANGUP", .hangup), (text "ABORT", .abort), (text "CLR_ABORT", .clrAbort), (text "REPORT", .report),
    (text "CLR_REPORT", .clrReport), (text "TIMEOUT", .timeout), (text "ECHO", .echo), (text "SAY", .say)
  ]

/-- The loop of `chat_expect`. -/
def expectLoop : List (List Byte) → ChatState → ChatState
  | [], c => c
  | [expect], c => (c.hear expect).2
  | expect :: reply :: rest, c =>
    let r := c.hear expect
    if r.1 = .matched then r.2
    else if r.2.exitCode ≠ 3 then r.2
    else expectLoop rest (chat_send r.2 reply)

def chat_expect (c : ChatState) (s : List Byte) : ChatState :=
  let c := { c with line := c.line.record (.expect s) }
  match keywords.lookup s with
  | some k => { c with line := { c.line with next := Function.update c.line.next k true } }
  | none => expectLoop (expectTokens s.length s) c

/-- The loop of `chatmain`. -/
def chatLoop : Nat → List Byte → ChatState → ChatState
  | 0, _, c => c
  | fuel + 1, script, c =>
    match getnextcommand script with
    | none => c
    | some (arg, script) =>
      if c.exitCode ≠ 0 then c
      else
        let c := chat_expect c arg
        if c.exitCode ≠ 0 then c
        else
          match getnextcommand script with
          | none => c
          | some (arg, script) => chatLoop fuel script (chat_send c arg)

def chatmain (l : Line) (script : List Byte) : ChatState := chatLoop (script.length + 1) script ⟨l, 0⟩

end RtemsLibbsd.Chat

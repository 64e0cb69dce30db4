import RtemsLibbsd.Chat.Script

/-!
# The meaning of chat scripts

What a script of expect and send commands stands for, apart from `exit_code` and the buffers of the program.

* `lineActs`, `sendActs` — what a string to be sent asks for at the line: octets, breaks and pauses.  `EOT` stands
  for the control character D, `BREAK` for a break.
* `listen` — an expect string is looked for at the end of the current line, then the abort strings; ten reads
  without an octet are a silence.
* `alternatives` — the expect strings of a command in turn, with the reply that is sent after a silence.
* `converse` — expect and send commands in turn until one fails; the result tells whether none failed.

`chatmain` does this and returns zero exactly if nothing failed, as long as no visited command is `EOT` and no
command is satisfied by a later alternative: `chatmain_iff`.  It sends nothing for `EOT`, and after a silence it
returns the code 3 although an alternative was received.
-/

namespace RtemsLibbsd.Chat

structure Command where
  text : List Byte
  short : text.length ≤ 78
  plain : ∀ c ∈ text, c ≠ ch '@' ∧ c ≠ 0

/-- The commands as they are handed to `chatmain`. -/
def script (cs : List Command) : List Byte := cs.flatMap fun s => s.text ++ [ch '@']

/-! ## Sending -/

inductive LineAct where
  | write (c : Byte)
  | brk
  | pause

def escapeAct (c : Byte) : LineAct :=
  if c = ch 'd' ∨ c = ch 'p' then .pause else if c = ch 'K' then .brk else .write c

def lineActs : List Byte → List LineAct
  | [] => []
  | c :: s =>
    if c = 0 then []
    else if c ≠ ch '\\' then .write c :: lineActs s
    else
      match s with
      | [] => [.write 0]
      | d :: s => escapeAct d :: lineActs s

def sendActs (s : List Byte) : List LineAct :=
  if s = text "EOT" then [.write 4]
  else if s = text "BREAK" then [.brk]
  else lineActs (clean true s)

def perform : List LineAct → List Bool → Sent
  | [], writes => ⟨[], true, writes⟩
  | .write c :: as, writes => writeChar c writes (perform as)
  | .brk :: as, writes => (perform as writes).before .brk
  | .pause :: as, writes => (perform as writes).before .pause

/-! ## Listening -/

def received (line : List Byte) (c : Byte) : List Byte :=
  if c = ch '\n' ∨ c = ch '\r' then [] else line ++ [c]

/-- The outcome with the first line in which the string or an abort string appears; `tries` reads more without an
    octet are a silence. -/
def listen (string : List Byte) (aborts : List AbortString) :
    Nat → List Byte → List (Option Byte) → Heard × List (Option Byte)
  | _, _, [] => (.silent, [])
  | tries, line, none :: reads =>
    if tries ≤ 1 then (.silent, reads) else listen string aborts (tries - 1) line reads
  | _, line, some c :: reads =>
    if string <:+ received line (c &&& 0x7f) then (.matched, reads)
    else
      match aborts.findIdx? fun a => decide (a.val <:+ received line (c &&& 0x7f)) with
      | some n => (.aborted n, reads)
      | none => listen string aborts MAX_TIMEOUTS (received line (c &&& 0x7f)) reads

def Line.listenFor (l : Line) (s : List Byte) : Heard × Line :=
  let string := cstr (clean false s)
  let r := if string = [] then (.matched, l.reads) else listen string l.aborts MAX_TIMEOUTS [] l.reads
  (r.1, ({ l with reads := r.2 } : Line).record (.heard s r.1))

/-! ## Scripts -/

structure Talk where
  line : Line
  failed : Bool

def Talk.send (t : Talk) (s : List Byte) : Talk :=
  match t.line.pending with
  | some k => { t with line := (t.line.consume k s).record (.send s []) }
  | none =>
    let r := perform (sendActs s) t.line.writes
    { line := ({ t.line with writes := r.writes } : Line).record (.send s r.out), failed := t.failed || !r.ok }

/-- The expect strings and replies of a command: whether one of the expect strings was received. -/
def alternatives : List (List Byte) → Talk → Bool × Talk
  | [], t => (false, t)
  | expect :: rest, t =>
    match t.line.listenFor expect with
    | (.matched, l) => (true, { t with line := l })
    | (.aborted _, l) | (.tooLong, l) => (false, { t with line := l })
    | (.silent, l) =>
      match rest with
      | [] => (false, { t with line := l })
      | reply :: rest => alternatives rest (Talk.send { t with line := l } reply)

/-- An expect command, and whether it is satisfied.  A keyword and an empty command are. -/
def Talk.expect (t : Talk) (s : List Byte) : Bool × Talk :=
  let t := { t with line := t.line.record (.expect s) }
  match keywords.lookup s with
  | some k => (true, { t with line := { t.line with next := Function.update t.line.next k true } })
  | none => if s = [] then (true, t) else alternatives (expectTokens s.length s) t

/-- The commands in order, the next one is an expect command or not.  The result tells whether every expect command
    was satisfied and no write failed. -/
def converse : Bool → List (List Byte) → Talk → Bool × Talk
  | _, [], t => (true, t)
  | true, s :: cs, t =>
    let r := t.expect s
    if r.1 = true ∧ r.2.failed = false then converse false cs r.2 else (false, r.2)
  | false, s :: cs, t =>
    let t := t.send s
    if t.failed = true then (false, t) else converse true cs t

/-! ## Smooth conversations -/

/-- The string is not `EOT`, unless a keyword takes it. -/
def SmoothSend (l : Line) (s : List Byte) : Prop := l.pending = none → s ≠ text "EOT"

/-- No alternative is received after a silence unless a write failed, and no reply is `EOT`. -/
def SmoothAlternatives : Bool → List (List Byte) → Talk → Prop
  | _, [], _ => True
  | late, expect :: rest, t =>
    match t.line.listenFor expect with
    | (.matched, _) => late = true → t.failed = true
    | (.aborted _, _) | (.tooLong, _) => True
    | (.silent, l) =>
      match rest with
      | [] => True
      | reply :: rest => SmoothSend l reply ∧ SmoothAlternatives true rest (Talk.send { t with line := l } reply)

def SmoothExpect (t : Talk) (s : List Byte) : Prop :=
  keywords.lookup s = none →
    SmoothAlternatives false (expectTokens s.length s) { t with line := t.line.record (.expect s) }

def Smooth : Bool → List (List Byte) → Talk → Prop
  | _, [], _ => True
  | true, s :: cs, t =>
    SmoothExpect t s ∧ ((t.expect s).1 = true ∧ (t.expect s).2.failed = false → Smooth false cs (t.expect s).2)
  | false, s :: cs, t => SmoothSend t.line s ∧ ((t.send s).failed = false → Smooth true cs (t.send s))

end RtemsLibbsd.Chat

import Mathlib.Data.List.Infix
import RtemsLibbsd.Pieces
import RtemsLibbsd.RcConf.Find
import RtemsLibbsd.RcConf.Services

/-!
# The interfaces of rc.conf

Model of `setup_interfaces`, `dhcp_check` and `ifconfig_` of `rtemsbsd/rtems/rtems-bsd-rc-conf-net.c`: each
interface is configured with the line `ifconfig_` and its name, and with the lines for its aliases.

* `Call` — a configuration with `ifconfig_`, with the number of the line it takes its arguments from.
* `setupInterface`, `setupInterfaces` — the searches and the configurations.
* `found` — the lines that a search finds one after the other.
* `namedLine`, `aliasLines` — the lines that are for an interface.
* `setupInterface_spec` — what is done for one interface, by the lines that the searches find.
* `setup_ok_iff` — when these are the lines that are for the interfaces.
-/

namespace RtemsLibbsd.RcConf

open List RtemsLibbsd.CString

/-! ## The functions -/

def strcasestr (s part : List Char) : Bool := decide (part.map Char.toLower <:+: s.map Char.toLower)

/-- A call of `ifconfig_`: the interface, the line, its arguments behind the key, and whether it is for an alias. -/
structure Call where
  ifname : List Char
  line : ℕ
  args : List (List Char)
  isAlias : Bool
  deriving DecidableEq

/-- The search, the calls of `ifconfig_` that run their commands, and what is reported for DHCP. -/
structure Setup where
  finder : Finder
  calls : List Call
  dhcp : Bool

/-- `ifconfig_`: nothing without memory for its vector. -/
def Setup.ifconfig (s : Setup) (ifname : List Char) (isAlias : Bool) : Setup :=
  match s.finder.ask with
  | (false, f) => { s with finder := { f with errno := .enomem } }
  | (true, f) =>
    { s with finder := f, calls := s.calls ++ [⟨ifname, f.line, f.aa.strings.tail, isAlias⟩] }

/-- `snprintf` to the 64 characters of `iface`. -/
def iface (s : List Char) : List Char := s.take 63

def ifconfigKey (ifname : List Char) : List Char := "ifconfig_".toList ++ ifname

def aliasKey (ifname : List Char) : List Char := ifconfigKey ifname ++ "_alias".toList

def ifconfigExpression (ifname : List Char) : List Char := iface (ifconfigKey ifname)

def aliasExpression (ifname : List Char) : List Char := iface (aliasKey ifname ++ "[0-9]+".toList)

/-- The loop of `dhcp_check` over the arguments: each time it looks at the second one.  The result is `none`
    where that is a null pointer. -/
def dhcpLoop (aa : ArgcArgv) : ℕ → Option Bool
  | 0 => some false
  | n + 1 =>
    match aa.arg 1 with
    | none => none
    | some arg =>
      if strcasestr arg "DHCP".toList || strcasestr arg "SYNCDHCP".toList then some true else dhcpLoop aa n

def dhcpCheck (aa : ArgcArgv) : Option Bool := dhcpLoop aa aa.argc

/-- One of the arguments behind the key is `NOAUTO`. -/
def noAuto (args : List (List Char)) : Bool := args.tail.any fun arg => strcasecmp arg "NOAUTO".toList

/-- The loop over the aliases; the search before it found a line or did not. -/
def aliasLoop (regex : Engine) (ifname : List Char) : ℕ → Bool × Setup → Option Setup
  | 0, _ => none
  | _ + 1, (false, s) => some s
  | fuel + 1, (true, s) =>
    match findNext regex (s.ifconfig ifname true).finder with
    | (more, f) => aliasLoop regex ifname fuel (more, { s.ifconfig ifname true with finder := f })

/-- The body of the loop over the interfaces, behind a search that found a line. -/
def setupFound (regex : Engine) (s : Setup) (ifname : List Char) : Option Setup :=
  if noAuto s.finder.aa.strings then some s
  else
    match dhcpCheck s.finder.aa with
    | none => some { s with finder := { s.finder with fault := true } }
    | some requested =>
      let s := ({ s with dhcp := s.dhcp || requested } : Setup).ifconfig ifname false
      match find regex s.finder (aliasExpression ifname) with
      | (more, f) => aliasLoop regex ifname (f.lines.length + 1) (more, { s with finder := f })

def setupInterface (regex : Engine) (s : Setup) (ifname : List Char) : Option Setup :=
  match find regex s.finder (ifconfigExpression ifname) with
  | (false, f) => some { s with finder := f }
  | (true, f) => setupFound regex { s with finder := f } ifname

/-- `lo0` is set up by another function. -/
def isLo0 (ifname : List Char) : Bool := strcasecmp "lo0".toList ifname

/-- `setup_interfaces`; it ends with a fault. -/
def setupInterfaces (regex : Engine) : List (List Char) → Setup → Option Setup
  | [], s => some s
  | ifname :: rest, s =>
    if isLo0 ifname then setupInterfaces regex rest s
    else
      match setupInterface regex s ifname with
      | none => none
      | some s => if s.finder.fault then some s else setupInterfaces regex rest s

/-! ## Lines -/

def LineMatches (regex : Engine) (expression : List Char) (line : CStr) : Prop :=
  line.chars ≠ [] ∧ regex expression (lineKey line) = .found

/-- The search ends at a line with an error, also with memory for it. -/
def LineFails (regex : Engine) (expression : List Char) (line : CStr) : Prop :=
  line.chars ≠ [] ∧ (MAX_LINE_SIZE ≤ line.chars.length ∨ regex expression (lineKey line) = .failed)

instance (regex : Engine) (expression : List Char) (line : CStr) : Decidable (LineMatches regex expression line) :=
  inferInstanceAs (Decidable (_ ∧ _))

instance (regex : Engine) (expression : List Char) (line : CStr) : Decidable (LineFails regex expression line) :=
  inferInstanceAs (Decidable (_ ∧ _))

abbrev Numbered := CStr × ℕ

/-- The lines that a search finds one after the other, up to an error. -/
def found (regex : Engine) (expression : List Char) (lines : List Numbered) : List Numbered :=
  (lines.takeWhile fun l => !decide (LineFails regex expression l.1)).filter fun l =>
    decide (LineMatches regex expression l.1)

def IsAliasKey (ifname key : List Char) : Prop :=
  aliasKey ifname <+: key ∧ key.drop (aliasKey ifname).length ≠ [] ∧
    ∀ c ∈ key.drop (aliasKey ifname).length, c.isDigit = true

instance (ifname key : List Char) : Decidable (IsAliasKey ifname key) :=
  inferInstanceAs (Decidable (_ ∧ _ ∧ _))

def namedLine (lines : List CStr) (ifname : List Char) : Option Numbered :=
  (lines.zipIdx 1).find? fun l => decide (lineKey l.1 = ifconfigKey ifname)

def aliasLines (lines : List CStr) (ifname : List Char) : List Numbered :=
  (lines.zipIdx 1).filter fun l => decide (IsAliasKey ifname (lineKey l.1))

/-- A line without `NOAUTO`. -/
def isAuto (l : Numbered) : Bool := !noAuto (lineArgs l.1)

def callOf (ifname : List Char) (isAlias : Bool) (l : Numbered) : Call :=
  ⟨ifname, l.2, (lineArgs l.1).tail, isAlias⟩

/-- The calls for an interface with a line for it, and lines for its aliases. -/
def callsFor (ifname : List Char) (line : Option Numbered) (aliases : List Numbered) : List Call :=
  match line.filter isAuto with
  | none => []
  | some l => callOf ifname false l :: aliases.map (callOf ifname true)

def expectedCalls (lines : List CStr) (ifname : List Char) : List Call :=
  callsFor ifname (namedLine lines ifname) (aliasLines lines ifname)

/-- The line without `NOAUTO` that the search for an interface finds. -/
def usedLine (regex : Engine) (lines : List CStr) (ifname : List Char) : Option Numbered :=
  (found regex (ifconfigExpression ifname) (lines.zipIdx 1)).head?.filter isAuto

def madeCalls (regex : Engine) (lines : List CStr) (ifname : List Char) : List Call :=
  callsFor ifname (found regex (ifconfigExpression ifname) (lines.zipIdx 1)).head?
    (found regex (aliasExpression ifname) (lines.zipIdx 1))

def requestsDhcp (arg : List Char) : Bool := strcasecmp arg "DHCP".toList || strcasecmp arg "SYNCDHCP".toList

def mentionsDhcp (l : Numbered) : Bool :=
  (lineArgs l.1).tail.head?.any fun arg => strcasestr arg "DHCP".toList || strcasestr arg "SYNCDHCP".toList

def otherThanLo0 (ifnames : List (List Char)) : List (List Char) := ifnames.filter fun ifname => !isLo0 ifname

/-! ## The searches -/

section

variable {regex : Engine} {f f' : Finder} {expression : List Char} {line : CStr} {rest : List CStr} {k : ℕ}

theorem found_of_fails {rest : List Numbered} {l : Numbered} (h : LineFails regex expression l.1) :
    found regex expression (l :: rest) = [] := by
  unfold found
  rw [takeWhile_cons_of_neg (by simpa using h), filter_nil]

theorem found_of_matches {rest : List Numbered} {l : Numbered} (hok : ¬ LineFails regex expression l.1)
    (h : LineMatches regex expression l.1) :
    found regex expression (l :: rest) = l :: found regex expression rest := by
  unfold found
  rw [takeWhile_cons_of_pos (by simpa using hok), filter_cons_of_pos (by simpa using h)]

theorem found_of_not {rest : List Numbered} {l : Numbered} (hok : ¬ LineFails regex expression l.1)
    (h : ¬ LineMatches regex expression l.1) :
    found regex expression (l :: rest) = found regex expression rest := by
  unfold found
  rw [takeWhile_cons_of_pos (by simpa using hok), filter_cons_of_neg (by simpa using h)]

/-- A finder that is ready: a usable vector, memory for all that is asked for, and nothing that went wrong. -/
structure Ready (f : Finder) : Prop where
  usable : Usable f.aa
  granted : ∀ k, f.granted k = true
  fault : f.fault = false

structure Kept (f f' : Finder) : Prop where
  lines : f'.lines = f.lines
  ready : Ready f'

theorem searchFails_iff (hall : ∀ k, f.granted k = true) :
    SearchFails regex expression f.granted f.asked line ↔ LineFails regex expression line := by
  constructor
  · rintro ⟨hline, hlong | hcommand | hargv | hregex⟩
    · exact ⟨hline, .inl hlong⟩
    · rw [hall] at hcommand
      cases hcommand
    · rw [hall] at hargv
      cases hargv
    · exact ⟨hline, .inr hregex⟩
  · rintro ⟨hline, hlong | hregex⟩
    · exact ⟨hline, .inl hlong⟩
    · exact ⟨hline, .inr (.inr (.inr hregex))⟩

theorem Ready.read (h : Ready f) (line : CStr) : Ready (f.read line) :=
  ⟨usable_lineVector line, h.granted, h.fault⟩

theorem Ready.skip (h : Ready f) : Ready f.skip := ⟨h.usable, h.granted, h.fault⟩

variable (regex expression) in
/-- What a search over the numbered lines comes to: no line, or the first one that is found, with the lines `post`
    behind it for the next search. -/
def SearchResult (f : Finder) (numbered : List Numbered) (r : Bool × Finder) : Prop :=
  (∃ f', r = (false, f') ∧ Kept f f' ∧ found regex expression numbered = []) ∨
    (∃ f' line post, r = (true, f') ∧ Kept f f' ∧ f'.aa = lineVector line ∧ Searching f' expression post ∧
      post.length < numbered.length ∧ found regex expression numbered =
        (line, f'.line) :: found regex expression (post.zipIdx (f'.line + 1)))

theorem SearchResult.behind {numbered : List Numbered} {l : Numbered} {r : Bool × Finder}
    (h : SearchResult regex expression f' numbered r) (hlines : f'.lines = f.lines)
    (hskip : found regex expression (l :: numbered) = found regex expression numbered) :
    SearchResult regex expression f (l :: numbered) r := by
  unfold SearchResult
  rw [hskip]
  rcases h with ⟨g, hr, hkept, hnone⟩ | ⟨g, line', post, hr, hkept, haa, hs, hlt, hsome⟩
  · exact .inl ⟨g, hr, ⟨hkept.lines.trans hlines, hkept.ready⟩, hnone⟩
  · exact .inr ⟨g, line', post, hr, ⟨hkept.lines.trans hlines, hkept.ready⟩, haa, hs, Nat.lt_succ_of_lt hlt, hsome⟩

/-- **What the next search comes to.** -/
theorem findNext_spec (regex : Engine) (hready : Ready f) (h : Searching f expression rest) :
    SearchResult regex expression f (rest.zipIdx (f.line + 1)) (findNext regex f) := by
  induction rest generalizing f with
  | nil =>
    left
    rw [findNext_nil h]
    refine ⟨_, rfl, ⟨rfl, ⟨⟨h.usable.marker, ?_⟩, hready.granted, hready.fault⟩⟩, rfl⟩
    intro hcommand
    cases hcommand
  | cons line rest ih =>
    rw [zipIdx_cons]
    by_cases hfails : LineFails regex expression line
    · left
      obtain ⟨f', hnext, hfailed⟩ := findNext_fails h ((searchFails_iff hready.granted).mpr hfails)
      have husable := hfailed.usable (hready.granted _) (hready.granted _)
      refine ⟨f', hnext, ⟨hfailed.lines, ⟨husable, ?_, hfailed.fault.trans hready.fault⟩⟩, found_of_fails hfails⟩
      rw [hfailed.granted]
      exact hready.granted
    have hok : ¬ SearchFails regex expression f.granted f.asked line :=
      fun hf => hfails ((searchFails_iff hready.granted).mp hf)
    by_cases hempty : line.chars = []
    · rw [findNext_empty h hempty]
      exact (ih hready.skip h.skip).behind rfl (found_of_not hfails fun hm => hm.1 hempty)
    cases hregex : regex expression (lineKey line) with
    | failed => exact absurd ⟨hempty, .inr hregex⟩ hfails
    | found =>
      right
      refine ⟨f.read line, line, rest, findNext_found h hempty hok hregex, ⟨rfl, hready.read line⟩, rfl, h.read,
        ?_, found_of_matches hfails ⟨hempty, hregex⟩⟩
      rw [length_cons, length_zipIdx]
      exact Nat.lt_succ_self rest.length
    | noMatch =>
      have hno : ¬ LineMatches regex expression line := by
        rintro ⟨-, hm⟩
        rw [hregex] at hm
        cases hm
      rw [findNext_passes h hempty hok hregex]
      exact (ih (hready.read line) h.read).behind rfl (found_of_not hfails hno)

def Finder.restart (f : Finder) (expression : List Char) : Finder :=
  { f with line := 0, asked := f.asked + 1, findRegex := some expression }

theorem Ready.restart (h : Ready f) (expression : List Char) : Ready (f.restart expression) :=
  ⟨h.usable, h.granted, h.fault⟩

theorem Ready.searching (h : Ready f) (expression : List Char) :
    Searching (f.restart expression) expression f.lines :=
  ⟨h.usable, rfl, rfl⟩

theorem find_eq (h : Ready f) (expression : List Char) :
    find regex f expression = findNext regex (f.restart expression) := by
  unfold find
  rw [if_neg (not_not.mpr h.usable.marker)]
  simp only [Finder.ask, h.granted]
  rfl

theorem find_spec (regex : Engine) (hready : Ready f) (expression : List Char) :
    SearchResult regex expression f (f.lines.zipIdx 1) (find regex f expression) := by
  rw [find_eq hready]
  rcases findNext_spec regex (hready.restart expression) (hready.searching expression) with
    ⟨f', hnext, hkept, hnone⟩ | ⟨f', line', post, hnext, hkept, haa, hs, hlt, hsome⟩
  · exact .inl ⟨f', hnext, ⟨hkept.lines, hkept.ready⟩, hnone⟩
  · exact .inr ⟨f', line', post, hnext, ⟨hkept.lines, hkept.ready⟩, haa, hs, hlt, hsome⟩

theorem findNext_kept (regex : Engine) (hready : Ready f) (h : Searching f expression rest) :
    Kept f (findNext regex f).2 := by
  rcases findNext_spec regex hready h with ⟨f', hnext, hkept, -⟩ | ⟨f', -, -, hnext, hkept, -⟩
  all_goals
    rw [hnext]
    exact hkept

/-! ## One interface -/

/-- What `dhcp_check` looks at: with one argument it is the null pointer behind them. -/
theorem dhcpCheck_lineVector (line : CStr) (k : ℕ) :
    dhcpCheck (lineVector line) =
      if (lineArgs line).length = 1 then none else some (mentionsDhcp (line, k)) := by
  have hloop : ∀ (aa : ArgcArgv) (arg : List Char) (n : ℕ), aa.arg 1 = some arg →
      dhcpLoop aa (n + 1) = some (strcasestr arg "DHCP".toList || strcasestr arg "SYNCDHCP".toList) := by
    intro aa arg n harg
    induction n with
    | zero =>
      rw [dhcpLoop, harg]
      simp only [dhcpLoop]
      split
      · rename_i hcase
        rw [hcase]
      · rename_i hcase
        rw [Bool.not_eq_true] at hcase
        rw [hcase]
    | succ n ih =>
      rw [dhcpLoop, harg]
      simp only [ih]
      split
      · rename_i hcase
        rw [hcase]
      · rfl
  unfold mentionsDhcp dhcpCheck
  rcases lineArgs_cases line with ⟨key, args, htexts, hargc, -, hargs⟩ | ⟨hargc, -, hargs, -⟩
  · have harg : (lineVector line).arg 1 = args.head? := by
      unfold ArgcArgv.arg
      rw [htexts]
      cases args <;> rfl
    rw [hargs, hargc, length_cons, tail_cons]
    cases args with
    | nil =>
      rw [length_nil, Nat.zero_add, if_pos rfl, dhcpLoop, harg]
      rfl
    | cons arg args =>
      rw [hloop _ arg _ harg, if_neg (by simp)]
      rfl
  · rw [hargs, hargc]
    rfl

variable {s : Setup} {ifname : List Char}

theorem ifconfig_granted (hready : Ready s.finder) (haa : s.finder.aa = lineVector line) (isAlias : Bool) :
    s.ifconfig ifname isAlias =
      { s with
        finder := { s.finder with asked := s.finder.asked + 1 }
        calls := s.calls ++ [callOf ifname isAlias (line, s.finder.line)] } := by
  unfold Setup.ifconfig callOf lineArgs
  simp only [Finder.ask, hready.granted, haa]

/-- **The loop over the aliases** makes the calls for the lines that the search finds. -/
theorem aliasLoop_spec {fuel : ℕ} (hready : Ready f) (hs : Searching f expression rest)
    (hfuel : rest.length < fuel) (calls : List Call) (dhcp : Bool) :
    ∃ f', aliasLoop regex ifname fuel ((findNext regex f).1, ⟨(findNext regex f).2, calls, dhcp⟩) =
        some ⟨f', calls ++ (found regex expression (rest.zipIdx (f.line + 1))).map (callOf ifname true), dhcp⟩ ∧
      Kept f f' := by
  induction fuel generalizing f rest calls with
  | zero => exact absurd hfuel (Nat.not_lt_zero _)
  | succ fuel ih =>
    rcases findNext_spec regex hready hs with ⟨f', hnext, hkept, hnone⟩ |
      ⟨f', line', post, hnext, hkept, haa, hs', hlt, hsome⟩
    · grind [aliasLoop]
    · rw [length_zipIdx] at hlt
      obtain ⟨g, hg⟩ : ∃ g, g = ({ f' with asked := f'.asked + 1 } : Finder) := ⟨_, rfl⟩
      have hsg : Searching g expression post := by
        rw [hg]
        exact ⟨hs'.usable, hs'.expression, hs'.rest⟩
      have hrg : Ready g := by
        rw [hg]
        exact ⟨hkept.ready.usable, hkept.ready.granted, hkept.ready.fault⟩
      obtain ⟨f'', hloop, hkept'⟩ := ih hrg hsg (by omega)
        (calls ++ [callOf ifname true (line', f'.line)])
      have hline : g.line = f'.line := by rw [hg]
      have hlines : g.lines = f'.lines := by rw [hg]
      refine ⟨f'', ?_, ⟨hkept'.lines.trans (hlines.trans hkept.lines), hkept'.ready⟩⟩
      rw [hnext, hsome, map_cons, append_cons]
      rw [hline] at hloop
      simp only [aliasLoop, ifconfig_granted (s := ⟨f', calls, dhcp⟩) hkept.ready haa true, ← hg]
      exact hloop

theorem callsFor_none {line : Option Numbered} {aliases : List Numbered} (h : line.filter isAuto = none) :
    callsFor ifname line aliases = [] := by
  unfold callsFor
  rw [h]

theorem callsFor_some {line : Option Numbered} {aliases : List Numbered} {l : Numbered}
    (h : line.filter isAuto = some l) :
    callsFor ifname line aliases = callOf ifname false l :: aliases.map (callOf ifname true) := by
  unfold callsFor
  rw [h]

theorem setupFound_skip {line : CStr} (haa : s.finder.aa = lineVector line) (k : ℕ)
    (hauto : isAuto (line, k) = false) : setupFound regex s ifname = some s := by
  have hno : noAuto (lineVector line).strings = true := by simpa [isAuto, lineArgs] using hauto
  unfold setupFound
  rw [haa, if_pos hno]

theorem setupFound_fault {line : CStr} (haa : s.finder.aa = lineVector line) (k : ℕ)
    (hauto : isAuto (line, k) = true) (hkey : (lineArgs line).length = 1) :
    setupFound regex s ifname = some { s with finder := { s.finder with fault := true } } := by
  have hno : noAuto (lineVector line).strings = false := by simpa [isAuto, lineArgs] using hauto
  unfold setupFound
  rw [haa, hno, dhcpCheck_lineVector line k, if_pos hkey]
  rfl

theorem setupFound_runs {line : CStr} (hready : Ready s.finder) (haa : s.finder.aa = lineVector line)
    (hauto : isAuto (line, s.finder.line) = true) (hmore : (lineArgs line).length ≠ 1) :
    ∃ s', setupFound regex s ifname = some s' ∧ Kept s.finder s'.finder ∧
      s'.calls = s.calls ++ callOf ifname false (line, s.finder.line) ::
        (found regex (aliasExpression ifname) (s.finder.lines.zipIdx 1)).map (callOf ifname true) ∧
      s'.dhcp = (s.dhcp || mentionsDhcp (line, s.finder.line)) := by
  have hno : noAuto (lineVector line).strings = false := by simpa [isAuto, lineArgs] using hauto
  obtain ⟨g, hg⟩ : ∃ g, g = ({ s.finder with asked := s.finder.asked + 1 } : Finder) := ⟨_, rfl⟩
  have hrg : Ready g := by
    rw [hg]
    exact ⟨hready.usable, hready.granted, hready.fault⟩
  have hlines : g.lines = s.finder.lines := by rw [hg]
  have hkept := findNext_kept regex (hrg.restart (aliasExpression ifname))
    (hrg.searching (aliasExpression ifname))
  have hall : (findNext regex (g.restart (aliasExpression ifname))).2.lines = g.lines := hkept.lines
  obtain ⟨f', hloop, hkept'⟩ := @aliasLoop_spec regex _ _ g.lines ifname (g.lines.length + 1)
    (hrg.restart (aliasExpression ifname)) (hrg.searching (aliasExpression ifname)) (Nat.lt_succ_self _)
    (s.calls ++ [callOf ifname false (line, s.finder.line)]) (s.dhcp || mentionsDhcp (line, s.finder.line))
  have hrun : setupFound regex s ifname = some ⟨f', (s.calls ++ [callOf ifname false (line, s.finder.line)]) ++
      (found regex (aliasExpression ifname) (g.lines.zipIdx 1)).map (callOf ifname true),
      s.dhcp || mentionsDhcp (line, s.finder.line)⟩ := by
    have hconfigured : Setup.ifconfig ⟨s.finder, s.calls, s.dhcp || mentionsDhcp (line, s.finder.line)⟩ ifname
        false = ⟨g, s.calls ++ [callOf ifname false (line, s.finder.line)],
          s.dhcp || mentionsDhcp (line, s.finder.line)⟩ := by
      rw [hg]
      exact @ifconfig_granted line ⟨s.finder, s.calls, s.dhcp || mentionsDhcp (line, s.finder.line)⟩ ifname
        hready haa false
    unfold setupFound
    rw [haa, hno, dhcpCheck_lineVector line s.finder.line, if_neg hmore]
    simp only [Bool.false_eq_true, if_false, hconfigured, find_eq hrg, hall]
    exact hloop
  refine ⟨_, hrun, ⟨hkept'.lines.trans hlines, hkept'.ready⟩, ?_, rfl⟩
  rw [← hlines, append_assoc]
  rfl

theorem setupInterface_fault (hready : Ready s.finder) {l : Numbered}
    (hused : usedLine regex s.finder.lines ifname = some l) (hkey : (lineArgs l.1).length = 1) :
    ∃ s', setupInterface regex s ifname = some s' ∧ s'.finder.fault = true := by
  unfold usedLine at hused
  unfold setupInterface
  rcases find_spec regex hready (ifconfigExpression ifname) with ⟨f', hfind, hkept, hnone⟩ |
    ⟨f', line, post, hfind, hkept, haa, hs, hlt, hsome⟩
  · rw [hnone] at hused
    cases hused
  · rw [hsome, head?_cons, Option.filter_some] at hused
    cases hauto : isAuto (line, f'.line) with
    | false =>
      rw [hauto] at hused
      cases hused
    | true =>
      rw [hauto, if_pos rfl] at hused
      cases hused
      simp only [hfind, @setupFound_fault regex { s with finder := f' } ifname line haa f'.line hauto hkey]
      exact ⟨_, rfl, rfl⟩

/-- **What is done for an interface, by the lines that the searches find.** -/
theorem setupInterface_spec (ifname : List Char) (hready : Ready s.finder)
    (hused : ∀ l, usedLine regex s.finder.lines ifname = some l → (lineArgs l.1).length ≠ 1) :
    ∃ s', setupInterface regex s ifname = some s' ∧ Kept s.finder s'.finder ∧
      s'.calls = s.calls ++ madeCalls regex s.finder.lines ifname ∧
      s'.dhcp = (s.dhcp || (usedLine regex s.finder.lines ifname).any mentionsDhcp) := by
  unfold madeCalls
  unfold usedLine at hused ⊢
  unfold setupInterface
  rcases find_spec regex hready (ifconfigExpression ifname) with ⟨f', hfind, hkept, hnone⟩ |
    ⟨f', line, post, hfind, hkept, haa, hs, hlt, hsome⟩
  · have hskip : (found regex (ifconfigExpression ifname) (s.finder.lines.zipIdx 1)).head?.filter isAuto = none := by
      rw [hnone]
      rfl
    rw [callsFor_none hskip, hskip]
    simp only [hfind]
    exact ⟨_, rfl, hkept, (append_nil _).symm, (Bool.or_false _).symm⟩
  · cases hauto : isAuto (line, f'.line) with
    | false =>
      have hskip : (found regex (ifconfigExpression ifname) (s.finder.lines.zipIdx 1)).head?.filter isAuto =
          none := by
        rw [hsome, head?_cons, Option.filter_some, hauto]
        rfl
      rw [callsFor_none hskip, hskip]
      simp only [hfind, @setupFound_skip regex { s with finder := f' } ifname line haa f'.line hauto]
      exact ⟨_, rfl, hkept, (append_nil _).symm, (Bool.or_false _).symm⟩
    | true =>
      have huse : (found regex (ifconfigExpression ifname) (s.finder.lines.zipIdx 1)).head?.filter isAuto =
          some (line, f'.line) := by
        rw [hsome, head?_cons, Option.filter_some, hauto]
        rfl
      obtain ⟨s', hrun, hkept', hcalls, hdhcp⟩ :=
        @setupFound_runs regex { s with finder := f' } ifname line hkept.ready haa hauto (hused _ huse)
      rw [callsFor_some huse, huse, ← hkept.lines]
      simp only [hfind]
      exact ⟨s', hrun, ⟨hkept'.lines.trans hkept.lines, hkept'.ready⟩, hcalls, hdhcp⟩

/-! ## All interfaces -/

def KeyOnly (line : Option Numbered) : Prop := ∃ l, line = some l ∧ (lineArgs l.1).length = 1

/-- **The whole loop**, if no line that is used has only its key. -/
theorem setupInterfaces_spec (ifnames : List (List Char)) (hready : Ready s.finder)
    (hmore : ∀ ifname ∈ otherThanLo0 ifnames, ¬ KeyOnly (usedLine regex s.finder.lines ifname)) :
    ∃ s', setupInterfaces regex ifnames s = some s' ∧ s'.finder.fault = false ∧
      s'.calls = s.calls ++ (otherThanLo0 ifnames).flatMap (madeCalls regex s.finder.lines) ∧
      s'.dhcp = (s.dhcp || (otherThanLo0 ifnames).any fun ifname =>
        (usedLine regex s.finder.lines ifname).any mentionsDhcp) := by
  induction ifnames generalizing s with
  | nil => exact ⟨s, rfl, hready.fault, (append_nil _).symm, (Bool.or_false _).symm⟩
  | cons ifname ifnames ih =>
    unfold otherThanLo0 at hmore ⊢
    rw [setupInterfaces]
    cases hlo : isLo0 ifname with
    | true =>
      rw [filter_cons_of_neg (by simp [hlo])] at hmore ⊢
      exact ih hready hmore
    | false =>
      rw [filter_cons_of_pos (by simp [hlo])] at hmore ⊢
      have hused : ∀ l, usedLine regex s.finder.lines ifname = some l → (lineArgs l.1).length ≠ 1 :=
        fun l hl hone => hmore ifname mem_cons_self ⟨l, hl, hone⟩
      obtain ⟨s₁, hrun, hkept, hcalls, hdhcp⟩ := setupInterface_spec ifname hready hused
      obtain ⟨s', hrest, hfault, hcalls', hdhcp'⟩ := ih hkept.ready (by
        rw [hkept.lines]
        exact fun i hi => hmore i (mem_cons_of_mem _ hi))
      rw [hkept.lines] at hcalls' hdhcp'
      refine ⟨s', ?_, hfault, ?_, ?_⟩
      · simp only [Bool.false_eq_true, if_false, hrun, hkept.ready.fault]
        exact hrest
      · rw [hcalls', hcalls, flatMap_cons, append_assoc]
        rfl
      · rw [hdhcp', hdhcp, any_cons, Bool.or_assoc]
        rfl

theorem setupInterfaces_fault (ifnames : List (List Char)) (hready : Ready s.finder)
    (hkey : ∃ ifname ∈ otherThanLo0 ifnames, KeyOnly (usedLine regex s.finder.lines ifname)) :
    ∃ s', setupInterfaces regex ifnames s = some s' ∧ s'.finder.fault = true := by
  induction ifnames generalizing s with
  | nil =>
    obtain ⟨ifname, hmem, -⟩ := hkey
    cases hmem
  | cons ifname ifnames ih =>
    unfold otherThanLo0 at hkey
    rw [setupInterfaces]
    cases hlo : isLo0 ifname with
    | true =>
      rw [filter_cons_of_neg (by simp [hlo])] at hkey
      exact ih hready hkey
    | false =>
      rw [filter_cons_of_pos (by simp [hlo])] at hkey
      by_cases hfirst : KeyOnly (usedLine regex s.finder.lines ifname)
      · obtain ⟨l, hl, hone⟩ := hfirst
        obtain ⟨s', hrun, hfault⟩ := setupInterface_fault hready hl hone
        refine ⟨s', ?_, hfault⟩
        simp [hrun, hfault]
      · have hused : ∀ l, usedLine regex s.finder.lines ifname = some l → (lineArgs l.1).length ≠ 1 :=
          fun l hl hone => hfirst ⟨l, hl, hone⟩
        obtain ⟨s₁, hrun, hkept, -, -⟩ := setupInterface_spec ifname hready hused
        obtain ⟨other, hother, hbad⟩ := hkey
        have hlater : other ∈ otherThanLo0 ifnames := by
          rcases mem_cons.mp hother with rfl | hother
          · exact absurd hbad hfirst
          · exact hother
        rw [← hkept.lines] at hbad
        obtain ⟨s', hrest, hfault⟩ := ih hkept.ready ⟨other, hlater, hbad⟩
        grind

end

/-! ## What is expected -/

/-- The configurations are those with the lines for the interfaces, and DHCP is reported exactly when one of
    their arguments requests it. -/
structure SetupOk (lines : List CStr) (ifnames : List (List Char)) (s : Setup) : Prop where
  fault : s.finder.fault = false
  calls : s.calls = (otherThanLo0 ifnames).flatMap (expectedCalls lines)
  dhcp : s.dhcp = ((otherThanLo0 ifnames).flatMap (expectedCalls lines)).any fun c => c.args.any requestsDhcp

/-- The first line that the search for an interface finds is the one for it (or both are not used), it has an
    argument, and the search for its aliases finds their lines. -/
structure RightLines (regex : Engine) (lines : List CStr) (ifname : List Char) : Prop where
  line : usedLine regex lines ifname = (namedLine lines ifname).filter isAuto
  argument : ¬ KeyOnly ((namedLine lines ifname).filter isAuto)
  aliases : ((namedLine lines ifname).filter isAuto).isSome →
    found regex (aliasExpression ifname) (lines.zipIdx 1) = aliasLines lines ifname

/-- One of the lines for the interfaces has the text of a request in its first argument exactly when one of the
    lines that are for them or their aliases has a request among its arguments. -/
def RightRequest (lines : List CStr) (ifnames : List (List Char)) : Prop :=
  ((otherThanLo0 ifnames).any fun ifname => ((namedLine lines ifname).filter isAuto).any mentionsDhcp) =
    ((otherThanLo0 ifnames).flatMap (expectedCalls lines)).any fun c => c.args.any requestsDhcp

section

variable {regex : Engine} {lines : List CStr} {ifname : List Char} {l l' : Numbered}

theorem eq_of_number (hl : l ∈ lines.zipIdx 1) (hl' : l' ∈ lines.zipIdx 1) (h : l.2 = l'.2) : l = l' := by
  grind

theorem mem_of_found {expression : List Char} (h : l ∈ found regex expression (lines.zipIdx 1)) :
    l ∈ lines.zipIdx 1 :=
  (List.takeWhile_prefix _).subset (mem_of_mem_filter h)

theorem callOf_injOn {isAlias : Bool} (hl : l ∈ lines.zipIdx 1) (hl' : l' ∈ lines.zipIdx 1)
    (h : callOf ifname isAlias l = callOf ifname isAlias l') : l = l' :=
  eq_of_number hl hl' (congrArg Call.line h)

theorem map_callOf_inj {as bs : List Numbered} (has : ∀ l ∈ as, l ∈ lines.zipIdx 1)
    (hbs : ∀ l ∈ bs, l ∈ lines.zipIdx 1) (h : as.map (callOf ifname true) = bs.map (callOf ifname true)) :
    as = bs := by
  induction as generalizing bs with
  | nil => exact (map_eq_nil_iff.mp h.symm).symm
  | cons a as ih =>
    cases bs with
    | nil => cases h
    | cons b bs =>
      grind [callOf_injOn, mem_cons_self]

theorem madeCalls_eq_iff :
    madeCalls regex lines ifname = expectedCalls lines ifname ↔
      usedLine regex lines ifname = (namedLine lines ifname).filter isAuto ∧
        (((namedLine lines ifname).filter isAuto).isSome →
          found regex (aliasExpression ifname) (lines.zipIdx 1) = aliasLines lines ifname) := by
  unfold madeCalls expectedCalls usedLine
  cases hmade : (found regex (ifconfigExpression ifname) (lines.zipIdx 1)).head?.filter isAuto with
  | none =>
    rw [callsFor_none hmade]
    cases hnamed : (namedLine lines ifname).filter isAuto with
    | none =>
      rw [callsFor_none hnamed]
      simp
    | some l' =>
      rw [callsFor_some hnamed]
      simp
  | some l =>
    rw [callsFor_some hmade]
    cases hnamed : (namedLine lines ifname).filter isAuto with
    | none =>
      rw [callsFor_none hnamed]
      simp
    | some l' =>
      have hl : l ∈ lines.zipIdx 1 :=
        mem_of_found (mem_of_head? (Option.eq_some_of_filter_eq_some hmade))
      have hl' : l' ∈ lines.zipIdx 1 :=
        mem_of_find?_eq_some (Option.eq_some_of_filter_eq_some hnamed)
      rw [callsFor_some hnamed, List.cons.injEq]
      simp only [Option.isSome_some, forall_const, Option.some.injEq]
      constructor
      · rintro ⟨hfirst, haliases⟩
        exact ⟨callOf_injOn hl hl' hfirst,
          map_callOf_inj (fun _ => mem_of_found) (fun _ => mem_of_mem_filter) haliases⟩
      · rintro ⟨rfl, haliases⟩
        rw [haliases]
        exact ⟨rfl, rfl⟩

theorem callsFor_ifname (line : Option Numbered) (aliases : List Numbered) :
    ∀ c ∈ callsFor ifname line aliases, c.ifname = ifname := by
  unfold callsFor
  split
  · intro c hc
    cases hc
  · intro c hc
    rcases mem_cons.mp hc with rfl | hc
    · rfl
    · obtain ⟨l, -, rfl⟩ := mem_map.mp hc
      rfl

/-- **The interfaces are configured as expected exactly when the searches find the lines that are for them.** -/
theorem setup_ok_iff (f : Finder) (hready : Ready f) (ifnames : List (List Char)) :
    (∃ s, setupInterfaces regex ifnames ⟨f, [], false⟩ = some s ∧ SetupOk f.lines ifnames s) ↔
      (∀ ifname ∈ otherThanLo0 ifnames, RightLines regex f.lines ifname) ∧ RightRequest f.lines ifnames := by
  by_cases hkey : ∃ ifname ∈ otherThanLo0 ifnames, KeyOnly (usedLine regex f.lines ifname)
  · obtain ⟨s, hrun, hfault⟩ := @setupInterfaces_fault regex ⟨f, [], false⟩ ifnames hready hkey
    constructor
    · rintro ⟨s', hrun', hok⟩
      cases hrun.symm.trans hrun'
      rw [hok.fault] at hfault
      cases hfault
    · rintro ⟨hright, -⟩
      obtain ⟨ifname, hmem, hbad⟩ := hkey
      have hlines := hright ifname hmem
      rw [hlines.line] at hbad
      exact absurd hbad hlines.argument
  · have hmore : ∀ ifname ∈ otherThanLo0 ifnames, ¬ KeyOnly (usedLine regex f.lines ifname) :=
      fun ifname hmem hbad => hkey ⟨ifname, hmem, hbad⟩
    obtain ⟨s, hrun, hfault, hcalls, hdhcp⟩ := @setupInterfaces_spec regex ⟨f, [], false⟩ ifnames hready hmore
    have hiff : (otherThanLo0 ifnames).flatMap (madeCalls regex f.lines) =
        (otherThanLo0 ifnames).flatMap (expectedCalls f.lines) ↔
        ∀ ifname ∈ otherThanLo0 ifnames, RightLines regex f.lines ifname := by
      rw [@Pieces.flatMap_tagged_iff _ _ (madeCalls regex f.lines) (expectedCalls f.lines) _ Call.ifname
        (fun _ => callsFor_ifname _ _) (fun _ => callsFor_ifname _ _)]
      apply forall_congr'
      intro ifname
      apply forall_congr'
      intro hmem
      rw [madeCalls_eq_iff]
      constructor
      · rintro ⟨hline, haliases⟩
        exact ⟨hline, hline ▸ hmore ifname hmem, haliases⟩
      · intro h
        exact ⟨h.line, h.aliases⟩
    -- with the right lines, the first arguments that are looked at are those of the lines for the interfaces
    have hreport : (∀ ifname ∈ otherThanLo0 ifnames, RightLines regex f.lines ifname) →
        s.dhcp = (otherThanLo0 ifnames).any fun ifname => ((namedLine f.lines ifname).filter isAuto).any mentionsDhcp := by
      intro hright
      rw [hdhcp, Bool.false_or, Bool.eq_iff_iff, any_eq_true, any_eq_true]
      apply exists_congr
      intro ifname
      apply and_congr_right
      intro hmem
      rw [(hright ifname hmem).line]
    constructor
    · rintro ⟨s', hrun', hok⟩
      cases hrun.symm.trans hrun'
      have hright := hiff.mp (hcalls.symm.trans hok.calls)
      exact ⟨hright, (hreport hright).symm.trans hok.dhcp⟩
    · rintro ⟨hright, hrequest⟩
      exact ⟨s, hrun, ⟨hfault, hcalls.trans (hiff.mpr hright), (hreport hright).trans hrequest⟩⟩

end

/-! ## Files -/

def someDigits : List Char := "[0-9]+".toList

/-- POSIX for names without special characters: the expression is a part of the string, at the end some digits. -/
def posixEngine : Engine := fun expression key =>
  if someDigits <:+ expression then
    if "0123456789".toList.any fun d => decide (expression.take (expression.length - someDigits.length) ++ [d] <:+: key)
    then .found
    else .noMatch
  else if expression <:+: key then .found
  else .noMatch

/-- A file before a search, with memory for all that is asked for. -/
def readyFile (lines : List CStr) : Finder := ⟨lines, 0, none, emptyVector, .other 0, fun _ => true, 0, false⟩

theorem ready_readyFile (lines : List CStr) : Ready (readyFile lines) :=
  ⟨⟨rfl, fun h => by cases h⟩, fun _ => rfl, rfl⟩

def em0 : List Char := "em0".toList

def em0Line : CStr := ⟨"ifconfig_em0=\"inet 10.0.0.1\"".toList, by decide +kernel⟩

def em0AliasLine : CStr := ⟨"ifconfig_em0_alias0=\"inet 10.0.0.2\"".toList, by decide +kernel⟩

/-- With the line for the alias in front, it is used for the interface. -/
theorem aliasFirst_misused :
    ¬ ∃ s, setupInterfaces posixEngine [em0] ⟨readyFile [em0AliasLine, em0Line], [], false⟩ = some s ∧
      SetupOk [em0AliasLine, em0Line] [em0] s := by
  have hcalls : (setupInterfaces posixEngine [em0] ⟨readyFile [em0AliasLine, em0Line], [], false⟩).map Setup.calls =
      some [callOf em0 false (em0AliasLine, 1), callOf em0 true (em0AliasLine, 1)] := by
    decide +kernel
  rintro ⟨s, hrun, hok⟩
  rw [hrun] at hcalls
  have hexpected := hok.calls.symm.trans (Option.some.inj hcalls)
  revert hexpected
  decide +kernel

theorem setup_ok_iff_em0 :
    (∃ s, setupInterfaces posixEngine [em0] ⟨readyFile [em0Line, em0AliasLine], [], false⟩ = some s ∧
      SetupOk (readyFile [em0Line, em0AliasLine]).lines [em0] s) ↔
      (∀ ifname ∈ otherThanLo0 [em0], RightLines posixEngine (readyFile [em0Line, em0AliasLine]).lines ifname) ∧
        RightRequest (readyFile [em0Line, em0AliasLine]).lines [em0] :=
  setup_ok_iff (readyFile [em0Line, em0AliasLine]) (ready_readyFile _) [em0]

end RtemsLibbsd.RcConf

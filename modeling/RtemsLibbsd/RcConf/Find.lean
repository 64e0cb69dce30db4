import RtemsLibbsd.RcConf.Arguments

/-!
# Looking for lines of rc.conf

Model of `rtems_bsd_rc_conf_find` and `rtems_bsd_rc_conf_find_next` of
`rtemsbsd/rtems/rtems-bsd-rc-conf.c`.  A search has one position in the lines and one expression, and it
writes the arguments of the line it finds into the vector of the caller.

* `Engine` — `regcomp` and `regexec`, which are not part of the repository.
* `Finder` — the file, the vector, `errno`, and the answers to the allocations to come.
* `lineVector` — the vector that a line that is not too long leads to.
* `SearchFails` — a search ends at a line with an error: the line is too long, memory or the engine fails.
* `findNext_empty`, `findNext_fails`, `findNext_found`, `findNext_passes` — what the next line does.
-/

namespace RtemsLibbsd.RcConf

open List RtemsLibbsd.CString

/-! ## The functions -/

/-- The values of `errno`; `other` is any that these functions do not set. -/
inductive Errno where
  | eacces | efbig | enomem | enoent | eexist | einval | ecanceled
  | other (n : ℕ)
  deriving DecidableEq

/-- What `regcomp` and `regexec` come to: a match, none, or a failure of one of them. -/
inductive Regexec where
  | found | noMatch | failed
  deriving DecidableEq

/-- The regular expressions of the C library: an expression and a string. -/
abbrev Engine := List Char → List Char → Regexec

/-- The parts of `rtems_bsd_rc_conf` that a search uses, the vector it writes to, `errno`, which of the
    allocations to come are granted, and whether an object was used that is not there. -/
structure Finder where
  lines : List CStr
  line : ℕ
  findRegex : Option (List Char)
  aa : ArgcArgv
  errno : Errno
  granted : ℕ → Bool
  asked : ℕ
  fault : Bool

def UpdateErrno.toErrno : UpdateErrno → Errno
  | .eacces => .eacces
  | .efbig => .efbig
  | .enomem => .enomem

/-- The strings that the vector points to; `none` is a null pointer. -/
def ArgcArgv.texts (aa : ArgcArgv) : List (Option (List Char)) :=
  match aa.command, aa.argv with
  | .owned m, some argv => argv.map (Option.map (str m))
  | _, _ => []

/-- `aa->argv[i]`. -/
def ArgcArgv.arg (aa : ArgcArgv) (i : ℕ) : Option (List Char) := aa.texts[i]?.join

def Finder.ask (f : Finder) : Bool × Finder := (f.granted f.asked, { f with asked := f.asked + 1 })

/-- `argc_argv_clean`. -/
def Finder.clean (f : Finder) : Finder :=
  match argcArgvClean f.aa with
  | some aa => { f with aa := aa }
  | none => { f with fault := true }

/-- The allocations up to a failure of `argc_argv_update`. -/
def askedBefore (aa : ArgcArgv) : UpdateErrno → ℕ
  | .eacces => 0
  | .efbig => 0
  | .enomem => if aa.command = .freed then 2 else 1

/-- `argc_argv_update` of a line; the result is whether it succeeds. -/
def Finder.update (f : Finder) (line : CStr) : Bool × Finder :=
  match argcArgvUpdate line f.aa (f.granted f.asked) (f.granted (f.asked + 1)) with
  | .ok aa => (true, { f with aa := aa, asked := f.asked + 2 })
  | .error aa e => (false, { f with aa := aa, errno := e.toErrno, asked := f.asked + askedBefore aa e })
  | .fault => (false, { f with fault := true })

/-- The loop of `rtems_bsd_rc_conf_find_next`; the result is whether a line was found. -/
def findLoop (regex : Engine) (f : Finder) : List CStr → Bool × Finder
  | [] => (false, { f.clean with errno := .enoent })
  | line :: rest =>
    let f := { f with line := f.line + 1 }
    if line.chars = [] then findLoop regex f rest
    else
      match f.update line with
      | (false, f) => (false, f)
      | (true, f) =>
        match regex (f.findRegex.getD []) ((f.aa.arg 0).getD []) with
        | .failed => (false, f)
        | .found => (true, f)
        | .noMatch => findLoop regex f rest

/-- `rtems_bsd_rc_conf_find_next`. -/
def findNext (regex : Engine) (f : Finder) : Bool × Finder :=
  if f.aa.marker ≠ ARGC_ARGV_MARKER then (false, { f with errno := .eacces })
  else findLoop regex f (f.lines.drop f.line)

/-- `rtems_bsd_rc_conf_find`. -/
def find (regex : Engine) (f : Finder) (expression : List Char) : Bool × Finder :=
  if f.aa.marker ≠ ARGC_ARGV_MARKER then (false, { f with errno := .eacces })
  else
    let f := { f with line := 0 }
    match f.ask with
    | (false, f) => (false, { f with findRegex := none, errno := .enomem })
    | (true, f) => findNext regex { f with findRegex := some expression }

/-! ## Lines -/

def lineVector (line : CStr) : ArgcArgv :=
  match countTokens line.memory (some 0) 0 (line.chars.length + 2) with
  | none => emptyVector
  | some (m, argc) =>
    match locate m 0 (argc - 1) with
    | none => emptyVector
    | some rest =>
      ⟨ARGC_ARGV_MARKER, .owned m, argc, some (some 0 :: rest.map some ++ List.replicate (argc - rest.length) none)⟩

def lineKey (line : CStr) : List Char := ((lineVector line).arg 0).getD []

def ArgcArgv.strings (aa : ArgcArgv) : List (List Char) := (aa.texts.take aa.argc).map fun t => t.getD []

def lineArgs (line : CStr) : List (List Char) := (lineVector line).strings

/-- A vector of the functions, with no pointer to what is released. -/
structure Usable (aa : ArgcArgv) : Prop where
  marker : aa.marker = ARGC_ARGV_MARKER
  command : aa.command ≠ .freed

theorem Words.of_nil {line : List Char} {t : Memory} (h : Words line t []) : t = line ∧ ∀ c ∈ line, isSep c := by
  cases h with
  | blank hlead => exact ⟨rfl, hlead⟩

theorem Words.exists_token {line lead tok : List Char} {t : Memory} {ws : List (List Char × List Char)}
    (h : Words line t ((lead, tok) :: ws)) : ∃ c ∈ lead ++ tok, isSep c = false := by
  cases h with
  | last hlead htok hne =>
    obtain ⟨c, hc⟩ := exists_mem_of_ne_nil tok hne
    exact ⟨c, mem_append_right lead hc, htok c hc⟩
  | more hlead htok hne hd h =>
    obtain ⟨c, hc⟩ := exists_mem_of_ne_nil tok hne
    exact ⟨c, mem_append_right lead hc, htok c hc⟩

section

variable {line : CStr}

theorem lineVector_cases (line : CStr) :
    (∃ (m : Memory) (argv : List (Option ℕ)) (key : List Char) (args : List (List Char)),
      lineVector line = ⟨ARGC_ARGV_MARKER, .owned m, args.length + 1, some argv⟩ ∧
        argv.map (Option.map (str m)) = some key :: args.map some ++ [none] ∧ ∃ c ∈ key, isSep c = false) ∨
      (∃ m : Memory, lineVector line = ⟨ARGC_ARGV_MARKER, .owned m, 0, some [some 0]⟩ ∧ str m 0 = line.chars ∧
        ∀ c ∈ line.chars, isSep c) := by
  obtain ⟨t, ws, h⟩ := exists_words line.chars
  have hws := h.length_le
  have hcount := h.count line.clean [] 0 (line.chars.length + 2) (by omega)
  rw [nil_append, nil_append, length_nil, Nat.zero_add] at hcount
  have hmemory : line.memory = line.chars ++ [nul] := rfl
  unfold lineVector
  rw [hmemory, hcount]
  cases ws with
  | nil =>
    right
    obtain ⟨rfl, hsep⟩ := h.of_nil
    have hstr : str ([] ++ (line.chars ++ nul :: [])) ([] : List Char).length = line.chars :=
      str_placed line.clean
    exact ⟨_, rfl, hstr, hsep⟩
  | cons w ws =>
    left
    obtain ⟨lead, tok⟩ := w
    obtain ⟨ps, hlocate, hfirst, hps⟩ := h.vector line.clean
    have hlen : ps.length = ws.length := by simpa using congrArg List.length hps
    have hone : ws.length + 1 - ps.length = 1 := by omega
    refine ⟨t ++ [nul], some 0 :: ps.map some ++ [none], lead ++ tok, ws.map located, ?_, ?_, h.exists_token⟩
    · simp only [length_cons, Nat.add_sub_cancel, hlocate, length_map, hone]
      rfl
    · rw [← hfirst, ← hps]
      simp

theorem usable_lineVector (line : CStr) : Usable (lineVector line) := by
  rcases lineVector_cases line with ⟨m, argv, key, args, hvector, -⟩ | ⟨m, hvector, -⟩
  all_goals
    rw [hvector]
    exact ⟨rfl, fun h => by cases h⟩

theorem lineArgs_cases (line : CStr) :
    (∃ (key : List Char) (args : List (List Char)), (lineVector line).texts = some key :: args.map some ++ [none] ∧
        (lineVector line).argc = args.length + 1 ∧ lineKey line = key ∧ lineArgs line = key :: args) ∨
      ((lineVector line).argc = 0 ∧ lineKey line = line.chars ∧ lineArgs line = [] ∧
        ∀ c ∈ line.chars, isSep c) := by
  rcases lineVector_cases line with ⟨m, argv, key, args, hvector, hmap, -⟩ | ⟨m, hvector, hstr, hsep⟩
  · left
    have htexts : (lineVector line).texts = some key :: args.map some ++ [none] := by
      rw [hvector]
      exact hmap
    have hargc : (lineVector line).argc = args.length + 1 := by rw [hvector]
    refine ⟨key, args, htexts, hargc, ?_, ?_⟩
    · unfold lineKey ArgcArgv.arg
      rw [htexts]
      rfl
    · unfold lineArgs ArgcArgv.strings
      rw [htexts, hargc]
      simp [Function.comp_def]
  · grind [lineKey, ArgcArgv.arg, ArgcArgv.texts, lineArgs, ArgcArgv.strings]

theorem lineArgs_of_key (h : ∃ c ∈ lineKey line, isSep c = false) :
    (lineVector line).arg 0 = some (lineKey line) ∧ (lineArgs line).length = (lineVector line).argc ∧
      (lineArgs line).head? = some (lineKey line) := by
  rcases lineArgs_cases line with ⟨key, args, htexts, hargc, hkey, hargs⟩ | ⟨-, hkey, -, hsep⟩
  · rw [hkey, hargs, hargc]
    refine ⟨?_, rfl, rfl⟩
    unfold ArgcArgv.arg
    rw [htexts]
    rfl
  · obtain ⟨c, hc, hno⟩ := h
    rw [hkey] at hc
    rw [hsep c hc] at hno
    cases hno

theorem argcArgvUpdate_granted {aa : ArgcArgv} (h : Usable aa) (hlength : line.chars.length < MAX_LINE_SIZE) :
    argcArgvUpdate line aa true true = .ok (lineVector line) := by
  have hshort : ¬ MAX_LINE_SIZE ≤ line.chars.length := Nat.not_le.mpr hlength
  have hsome := lineVector_cases line
  unfold lineVector at hsome ⊢
  unfold argcArgvUpdate argcArgvClean
  simp only [h.marker, h.command, hshort, ne_eq, not_true_eq_false, if_false, if_true, Bool.true_eq_false]
  cases hcount : countTokens line.memory (some 0) 0 (line.chars.length + 2) with
  | none =>
    rw [hcount] at hsome
    simp [emptyVector] at hsome
  | some counted =>
    grind [emptyVector]

end

/-! ## The next line -/

structure SearchFails (regex : Engine) (expression : List Char) (granted : ℕ → Bool) (asked : ℕ)
    (line : CStr) : Prop where
  nonempty : line.chars ≠ []
  fails : MAX_LINE_SIZE ≤ line.chars.length ∨ granted asked = false ∨ granted (asked + 1) = false ∨
    regex expression (lineKey line) = .failed

instance (regex : Engine) (expression : List Char) (granted : ℕ → Bool) (asked : ℕ) (line : CStr) :
    Decidable (SearchFails regex expression granted asked line) :=
  decidable_of_iff (line.chars ≠ [] ∧ (MAX_LINE_SIZE ≤ line.chars.length ∨ granted asked = false ∨
    granted (asked + 1) = false ∨ regex expression (lineKey line) = .failed))
    ⟨fun h => ⟨h.1, h.2⟩, fun h => ⟨h.1, h.2⟩⟩

/-- A finder that is ready to search, with the lines that are still to come. -/
structure Searching (f : Finder) (expression : List Char) (rest : List CStr) : Prop where
  usable : Usable f.aa
  expression : f.findRegex = some expression
  rest : f.lines.drop f.line = rest

section

variable {regex : Engine} {f : Finder} {expression : List Char} {line : CStr} {rest : List CStr}

def Finder.read (f : Finder) (line : CStr) : Finder :=
  { f with line := f.line + 1, aa := lineVector line, asked := f.asked + 2 }

def Finder.skip (f : Finder) : Finder := { f with line := f.line + 1 }

theorem Searching.skip (h : Searching f expression (line :: rest)) : Searching f.skip expression rest where
  usable := h.usable
  expression := h.expression
  rest := by
    have hdrop := congrArg (List.drop 1) h.rest
    rwa [drop_drop, drop_one, tail_cons] at hdrop

theorem Searching.read (h : Searching f expression (line :: rest)) :
    Searching (f.read line) expression rest where
  usable := usable_lineVector line
  expression := h.expression
  rest := h.skip.rest

theorem findNext_nil (h : Searching f expression []) :
    findNext regex f = (false, { f with
      aa := { f.aa with command := .null, argv := none, argc := 0 }, errno := .enoent }) := by
  unfold findNext
  rw [if_neg (not_not.mpr h.usable.marker), h.rest, findLoop]
  unfold Finder.clean argcArgvClean
  rw [if_pos h.usable.marker, if_neg h.usable.command]

theorem findNext_cons (h : Searching f expression (line :: rest)) :
    findNext regex f = findLoop regex f (line :: rest) := by
  unfold findNext
  rw [if_neg (not_not.mpr h.usable.marker), h.rest]

theorem findNext_empty (h : Searching f expression (line :: rest)) (hline : line.chars = []) :
    findNext regex f = findNext regex f.skip := by
  unfold findNext
  rw [if_neg (not_not.mpr h.usable.marker), if_neg (not_not.mpr h.skip.usable.marker), h.rest, h.skip.rest,
    findLoop, if_pos hline]
  rfl

theorem findLoop_read (h : Searching f expression (line :: rest)) (hline : line.chars ≠ [])
    (hok : ¬ SearchFails regex expression f.granted f.asked line) :
    findLoop regex f (line :: rest) =
      match regex expression (lineKey line) with
      | .failed => (false, f.read line)
      | .found => (true, f.read line)
      | .noMatch => findLoop regex (f.read line) rest := by
  have hall : line.chars.length < MAX_LINE_SIZE ∧ f.granted f.asked = true ∧
      f.granted (f.asked + 1) = true := by
    by_contra hno
    refine hok ⟨hline, ?_⟩
    grind
  obtain ⟨hlength, hcommand, hargv⟩ := hall
  have hupdate : ({ f with line := f.line + 1 } : Finder).update line = (true, f.read line) := by
    unfold Finder.update
    simp only [hcommand, hargv, argcArgvUpdate_granted h.usable hlength]
    rfl
  have hexpression : (f.read line).findRegex.getD [] = expression := by
    rw [h.read.expression]
    rfl
  rw [findLoop]
  simp only [if_neg hline, hupdate, hexpression]
  rfl

theorem findNext_found (h : Searching f expression (line :: rest)) (hline : line.chars ≠ [])
    (hok : ¬ SearchFails regex expression f.granted f.asked line)
    (hmatch : regex expression (lineKey line) = .found) : findNext regex f = (true, f.read line) := by
  rw [findNext_cons h, findLoop_read h hline hok, hmatch]

theorem findNext_passes (h : Searching f expression (line :: rest)) (hline : line.chars ≠ [])
    (hok : ¬ SearchFails regex expression f.granted f.asked line)
    (hmatch : regex expression (lineKey line) = .noMatch) :
    findNext regex f = findNext regex (f.read line) := by
  have hnext : findNext regex (f.read line) = findLoop regex (f.read line) rest := by
    unfold findNext
    rw [if_neg (not_not.mpr h.read.usable.marker), h.read.rest]
  rw [findNext_cons h, findLoop_read h hline hok, hmatch, hnext]

/-- What an error of a search leaves as it is; the vector is usable if its memory was granted. -/
structure Failed (f f' : Finder) : Prop where
  fault : f'.fault = f.fault
  lines : f'.lines = f.lines
  granted : f'.granted = f.granted
  usable : f.granted f.asked = true → f.granted (f.asked + 1) = true → Usable f'.aa

theorem update_fails (h : Usable f.aa)
    (hno : MAX_LINE_SIZE ≤ line.chars.length ∨ f.granted f.asked = false ∨ f.granted (f.asked + 1) = false) :
    ∃ f', f.update line = (false, f') ∧ Failed f f' := by
  have herror : ∃ aa e, argcArgvUpdate line f.aa (f.granted f.asked) (f.granted (f.asked + 1)) = .error aa e ∧
      (f.granted f.asked = true → f.granted (f.asked + 1) = true → Usable aa) := by
    by_cases hlong : MAX_LINE_SIZE ≤ line.chars.length
    · unfold argcArgvUpdate argcArgvClean
      simp only [h.marker, h.command, hlong, ne_eq, not_true_eq_false, if_false, if_true]
      exact ⟨_, _, rfl, fun _ _ => ⟨rfl, fun hcommand => by cases hcommand⟩⟩
    · have hgranted := argcArgvUpdate_granted h (Nat.not_le.mp hlong)
      unfold argcArgvUpdate argcArgvClean at hgranted ⊢
      simp only [h.marker, h.command, hlong, ne_eq, not_true_eq_false, if_false, if_true,
        Bool.true_eq_false] at hgranted ⊢
      rcases hno with hno | hno | hno
      · exact absurd hno hlong
      · rw [hno, if_pos rfl]
        exact ⟨_, _, rfl, fun hcommand => by cases hcommand⟩
      · rw [hno]
        split
        · exact ⟨_, _, rfl, fun _ hargv => by cases hargv⟩
        · split
          · rename_i hcount
            rw [hcount] at hgranted
            cases hgranted
          · exact ⟨_, _, if_pos rfl, fun _ hargv => by cases hargv⟩
  obtain ⟨aa, e, herror, husable⟩ := herror
  unfold Finder.update
  rw [herror]
  exact ⟨_, rfl, ⟨rfl, rfl, rfl, husable⟩⟩

theorem findNext_fails (h : Searching f expression (line :: rest))
    (hfails : SearchFails regex expression f.granted f.asked line) :
    ∃ f', findNext regex f = (false, f') ∧ Failed f f' := by
  rw [findNext_cons h, findLoop, if_neg hfails.nonempty]
  by_cases hno : MAX_LINE_SIZE ≤ line.chars.length ∨ f.granted f.asked = false ∨ f.granted (f.asked + 1) = false
  · obtain ⟨f', hf', hfailed⟩ := @update_fails { f with line := f.line + 1 } line h.usable hno
    simp only [hf']
    exact ⟨f', rfl, ⟨hfailed.fault, hfailed.lines, hfailed.granted, hfailed.usable⟩⟩
  · have hregex : regex expression (lineKey line) = .failed := by
      grind [hfails.fails]
    rw [not_or, not_or, Nat.not_le, Bool.not_eq_false, Bool.not_eq_false] at hno
    have hupdate : ({ f with line := f.line + 1 } : Finder).update line = (true, f.read line) := by
      unfold Finder.update
      simp only [hno.2.1, hno.2.2, argcArgvUpdate_granted h.usable hno.1]
      rfl
    have hexpression : (f.read line).findRegex.getD [] = expression := by
      rw [h.read.expression]
      rfl
    have hkey : ((f.read line).aa.arg 0).getD [] = lineKey line := rfl
    simp only [hupdate, hexpression, hkey, hregex]
    exact ⟨_, rfl, ⟨rfl, rfl, rfl, fun _ _ => usable_lineVector line⟩⟩

end

end RtemsLibbsd.RcConf

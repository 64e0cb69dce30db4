import RtemsLibbsd.CString

/-!
# Arguments of a line of rc.conf

Model of `argc_argv_update` of `rtemsbsd/rtems/rtems-bsd-rc-conf.c`.  The function counts the tokens of
a copy of the line with `strtok_r`, and looks for them a second time to set the pointers.

* `countTokens`, `locate` — the two passes.
* `fields` — the arguments of a line: the maximal parts of it without a separator.
* `Words` — a line cut at its tokens, and the memory that `strtok_r` leaves.
* **`argcArgvUpdate_iff`** — the vector has the arguments of the line if and only if the line is tidy.

The second pass does not skip what is before the first argument, does not skip `=`, and skips white
space that `strtok_r` does not take for a separator (`arguments_misplaced`).
-/

namespace RtemsLibbsd.RcConf

open List RtemsLibbsd.CString

abbrev MAX_LINE_SIZE : Nat := 512

abbrev ARGC_ARGV_MARKER : Nat := 0x20010928

/-- The characters that `strtok_r` is called with. -/
def isSep (c : Char) : Bool := c = ' ' || c = '\t' || c = '=' || c = '"'

def skipped (c : Char) : Bool := c = '"' || isspace c

/-- The pointer `command`. -/
inductive Command where
  | null
  | owned (m : Memory)
  | freed
  deriving DecidableEq

/-- `rtems_bsd_rc_conf_argc_argv`. -/
structure ArgcArgv where
  marker : Nat
  command : Command
  argc : Nat
  argv : Option (List (Option Nat))

inductive UpdateErrno where
  | eacces
  | efbig
  | enomem

/-- What a call comes to; `fault` is an access outside of an object, or a second `free`. -/
inductive UpdateOutcome where
  | ok (aa : ArgcArgv)
  | error (aa : ArgcArgv) (e : UpdateErrno)
  | fault

def argcArgvClean (aa : ArgcArgv) : Option ArgcArgv :=
  if aa.marker = ARGC_ARGV_MARKER then
    if aa.command = .freed then none
    else some { aa with command := .null, argv := none, argc := 0 }
  else some aa

/-- The loop around `strtok_r`; `p` is where the next call starts. -/
def countTokens (m : Memory) (p : Option Nat) (argc : Nat) : Nat → Option (Memory × Nat)
  | 0 => none
  | fuel + 1 =>
    match p with
    | none => some (m, argc)
    | some p => do
      let (m, token) ← strtokR m p isSep
      match token with
      | none => some (m, argc)
      | some (_, brk) => countTokens m brk (argc + 1) fuel

/-- The loop `while (*c != '\0' && (*c == '"' || isspace(*c))) ++c`. -/
def skip (m : Memory) (c : Nat) : Option Nat :=
  let c := c + ((m.drop c).takeWhile skipped).length
  (load m c).map fun _ => c

def locate (m : Memory) (c : Nat) : Nat → Option (List Nat)
  | 0 => some []
  | n + 1 => do
    let length ← strlen m c
    let c ← skip m (c + (length + 1))
    let rest ← locate m c n
    some (c :: rest)

/-- `argc_argv_update`; `command` and `argv` are the results of `strdup` and `calloc`. -/
def argcArgvUpdate (line : CStr) (aa : ArgcArgv) (command argv : Bool) : UpdateOutcome :=
  if aa.marker ≠ ARGC_ARGV_MARKER then .error aa .eacces
  else
    match argcArgvClean aa with
    | none => .fault
    | some aa =>
      if MAX_LINE_SIZE ≤ line.chars.length then .error aa .efbig
      else if command = false then .error aa .enomem
      else
        match countTokens line.memory (some 0) 0 (line.chars.length + 2) with
        | none => .fault
        | some (m, argc) =>
          if argv = false then .error { aa with command := .freed, argc := argc } .enomem
          else
            match locate m 0 (argc - 1) with
            | none => .fault
            | some rest =>
              let vector := some 0 :: rest.map some ++ List.replicate (argc - rest.length) none
              .ok { aa with command := .owned m, argc := argc, argv := some vector }

/-- The arguments of a line; `cur` is what was read of the first one. -/
def fieldsFrom (cur : List Char) : List Char → List (List Char)
  | [] => if cur = [] then [] else [cur]
  | c :: line =>
    if isSep c then (if cur = [] then fieldsFrom [] line else cur :: fieldsFrom [] line)
    else fieldsFrom (cur ++ [c]) line

def fields (line : List Char) : List (List Char) := fieldsFrom [] line

/-- The vector has the arguments of the line and a null pointer behind them. -/
def Splits (line : List Char) (aa : ArgcArgv) : Prop :=
  ∃ m argv, aa.command = .owned m ∧ aa.argv = some argv ∧ aa.argc = (fields line).length ∧
    argv.map (Option.map (str m)) = (fields line).map some ++ [none]

/-- Behind a separator, there is neither a `=` before another argument nor an argument that begins with
    white space of another kind.  The first parameter says whether a separator is before the line. -/
def Spaced : Bool → List Char → Prop
  | _, [] => True
  | false, c :: line => Spaced (isSep c) line
  | true, c :: line =>
    (c = '=' → ∀ d ∈ line, isSep d) ∧ (isSep c = false → isspace c = false) ∧ Spaced (isSep c) line

structure Tidy (line : List Char) : Prop where
  starts : ∃ c ∈ line.head?, isSep c = false
  spaced : Spaced false line

/-- A line that is cut at its tokens: what `strtok_r` leaves of it, and the tokens with the separators
    in front of them that are still there. -/
inductive Words : List Char → Memory → List (List Char × List Char) → Prop where
  | blank {lead : List Char} (hlead : ∀ c ∈ lead, isSep c) : Words lead lead []
  | last {lead tok : List Char} (hlead : ∀ c ∈ lead, isSep c) (htok : ∀ c ∈ tok, isSep c = false)
      (hne : tok ≠ []) : Words (lead ++ tok) (lead ++ tok) [(lead, tok)]
  | more {lead tok line : List Char} {d : Char} {t : Memory} {ws : List (List Char × List Char)}
      (hlead : ∀ c ∈ lead, isSep c) (htok : ∀ c ∈ tok, isSep c = false) (hne : tok ≠ []) (hd : isSep d)
      (h : Words line t ws) :
      Words (lead ++ (tok ++ d :: line)) (lead ++ (tok ++ nul :: t)) ((lead, tok) :: ws)

theorem exists_words (line : List Char) : ∃ t ws, Words line t ws := by
  induction hn : line.length using Nat.strongRecOn generalizing line with
  | ind n ih =>
    have hlead : ∀ c ∈ line.takeWhile isSep, isSep c := fun c hc => mem_takeWhile_imp hc
    have hline : line.takeWhile isSep ++ line.dropWhile isSep = line := takeWhile_append_dropWhile
    have hlen := congrArg List.length hline
    rw [length_append] at hlen
    rw [← hline]
    cases hrest : line.dropWhile isSep with
    | nil =>
      rw [append_nil]
      exact ⟨_, [], .blank hlead⟩
    | cons c rest =>
      have hc : isSep c = false := by
        have hhead := head?_dropWhile_not isSep line
        rw [hrest] at hhead
        simpa using hhead
      have htok : ∀ x ∈ (c :: rest).takeWhile (fun x => !isSep x), isSep x = false := by
        intro x hx
        simpa using mem_takeWhile_imp hx
      have hne : (c :: rest).takeWhile (fun x => !isSep x) ≠ [] := by simp [hc]
      have hword : (c :: rest).takeWhile (fun x => !isSep x) ++ (c :: rest).dropWhile (fun x => !isSep x) =
          c :: rest := takeWhile_append_dropWhile
      rw [← hword]
      cases hbehind : (c :: rest).dropWhile (fun x => !isSep x) with
      | nil =>
        rw [append_nil]
        exact ⟨_, _, .last hlead htok hne⟩
      | cons d line' =>
        have hd : isSep d = true := by
          grind [head?_dropWhile_not]
        rw [hbehind] at hword
        have hlen' := congrArg List.length hword
        rw [length_append, length_cons] at hlen'
        rw [hrest] at hlen
        obtain ⟨t, ws, h⟩ := ih line'.length (by omega) line' rfl
        exact ⟨_, _, .more hlead htok hne hd h⟩

section Fields

variable {lead tok line : List Char}

theorem fieldsFrom_lead (hlead : ∀ c ∈ lead, isSep c) : fieldsFrom [] (lead ++ line) = fieldsFrom [] line := by
  induction lead with
  | nil => rfl
  | cons c lead ih =>
    rw [cons_append, fieldsFrom, if_pos (hlead c mem_cons_self), if_pos rfl]
    exact ih fun x hx => hlead x (mem_cons_of_mem _ hx)

theorem fieldsFrom_tok (cur : List Char) (htok : ∀ c ∈ tok, isSep c = false) :
    fieldsFrom cur (tok ++ line) = fieldsFrom (cur ++ tok) line := by
  induction tok generalizing cur with
  | nil => simp
  | cons c tok ih =>
    have hc : isSep c = false := htok c mem_cons_self
    rw [cons_append, fieldsFrom, hc, if_neg (by simp), ih _ fun x hx => htok x (mem_cons_of_mem _ hx)]
    simp

theorem fieldsFrom_ne_nil {cur : List Char} (hcur : cur ≠ []) : fieldsFrom cur line ≠ [] := by
  induction line generalizing cur with
  | nil => simp [fieldsFrom, hcur]
  | cons c line ih =>
    unfold fieldsFrom
    split
    · exact cons_ne_nil _ _
    · exact ih (by simp)

theorem Words.fields_eq {t : Memory} {ws : List (List Char × List Char)} (h : Words line t ws) :
    fields line = ws.map Prod.snd := by
  unfold fields
  induction h with
  | @blank lead hlead =>
    have hfields : fieldsFrom [] (lead ++ []) = fieldsFrom [] [] := fieldsFrom_lead hlead
    rw [append_nil] at hfields
    exact hfields
  | @last lead tok hlead htok hne =>
    have hfields : fieldsFrom [] (tok ++ []) = fieldsFrom ([] ++ tok) [] := fieldsFrom_tok [] htok
    rw [append_nil] at hfields
    rw [fieldsFrom_lead hlead, hfields]
    simp [fieldsFrom, hne]
  | more hlead htok hne hd _ ih =>
    rw [fieldsFrom_lead hlead, fieldsFrom_tok [] htok, nil_append, fieldsFrom, if_pos hd, if_neg hne, ih]
    rfl

end Fields

theorem isSep_nul : isSep nul = false := by decide

theorem skipped_nul : skipped nul = false := by decide

/-- **The first pass** counts the tokens. -/
theorem Words.count {line : List Char} {t : Memory} {ws : List (List Char × List Char)} (h : Words line t ws)
    (hclean : nul ∉ line) (pre : List Char) (argc fuel : Nat) (hfuel : ws.length < fuel) :
    countTokens (pre ++ (line ++ [nul])) (some pre.length) argc fuel =
      some (pre ++ (t ++ [nul]), argc + ws.length) := by
  induction h generalizing pre argc fuel with
  | blank hlead =>
    obtain ⟨fuel, rfl⟩ : ∃ n, fuel = n + 1 := ⟨fuel - 1, by omega⟩
    simp only [countTokens, Option.bind_eq_bind]
    rw [strtokR_blank isSep_nul hlead]
    rfl
  | @last lead tok hlead htok hne =>
    simp only [mem_append, not_or] at hclean
    obtain ⟨fuel, rfl⟩ : ∃ n, fuel = n + 1 := ⟨fuel - 1, by omega⟩
    simp only [length_singleton] at hfuel
    -- the next call finds the null pointer
    obtain ⟨fuel, rfl⟩ : ∃ n, fuel = n + 1 := ⟨fuel - 1, by omega⟩
    have htoken : strtokR (pre ++ (lead ++ (tok ++ nul :: []))) pre.length isSep = some (_, some (_, _)) :=
      strtokR_token hlead htok hclean.2 hne (.inr rfl)
    grind [countTokens]
  | @more lead tok line d t ws hlead htok hne hd _ ih =>
    simp only [mem_append, mem_cons, not_or] at hclean
    obtain ⟨fuel, rfl⟩ : ∃ n, fuel = n + 1 := ⟨fuel - 1, by omega⟩
    simp only [length_cons] at hfuel
    have htoken : strtokR (pre ++ (lead ++ (tok ++ d :: (line ++ [nul])))) pre.length isSep =
        some (_, some (_, _)) := strtokR_token hlead htok hclean.2.1 hne (.inl hd)
    rw [if_neg (Ne.symm hclean.2.2.1)] at htoken
    have hshape : pre ++ ((lead ++ (tok ++ d :: line)) ++ [nul]) =
        pre ++ (lead ++ (tok ++ d :: (line ++ [nul]))) := by simp
    have hnext := ih hclean.2.2.2 (pre ++ (lead ++ (tok ++ [nul]))) (argc + 1) fuel (by omega)
    have hplace : (pre ++ (lead ++ (tok ++ [nul]))).length = pre.length + lead.length + tok.length + 1 := by
      simp only [length_append, length_singleton]
      omega
    rw [hplace] at hnext
    rw [hshape, countTokens]
    simp only [Option.bind_eq_bind]
    rw [htoken]
    simp only [Option.bind_some]
    have hmemory : pre ++ (lead ++ (tok ++ nul :: (line ++ [nul]))) =
        (pre ++ (lead ++ (tok ++ [nul]))) ++ (line ++ [nul]) := by simp
    rw [hmemory, hnext]
    simp
    omega

def located (w : List Char × List Char) : List Char := (w.1 ++ w.2).dropWhile skipped

theorem skip_placed (pre post : List Char) {s : List Char} (hs : nul ∉ s) :
    ∃ c, skip (pre ++ (s ++ nul :: post)) pre.length = some c ∧
      str (pre ++ (s ++ nul :: post)) c = s.dropWhile skipped ∧
      strlen (pre ++ (s ++ nul :: post)) c = some (s.dropWhile skipped).length ∧
      c + (s.dropWhile skipped).length = pre.length + s.length := by
  have hsplit : s.takeWhile skipped ++ s.dropWhile skipped = s := takeWhile_append_dropWhile
  have hrun : ∀ c ∈ s.takeWhile skipped, skipped c := fun c hc => mem_takeWhile_imp hc
  have hclean : nul ∉ s.dropWhile skipped := nul_not_mem_of_subset hs (dropWhile_suffix _).subset
  have hhead : ∃ d rest, s.dropWhile skipped ++ nul :: post = d :: rest ∧ skipped d = false := by
    cases hdrop : s.dropWhile skipped with
    | nil => exact ⟨nul, post, rfl, skipped_nul⟩
    | cons d rest =>
      have hd := head?_dropWhile_not skipped s
      rw [hdrop] at hd
      exact ⟨d, _, rfl, by simpa using hd⟩
  obtain ⟨d, rest, hrest, hd⟩ := hhead
  have hshape : s ++ nul :: post = s.takeWhile skipped ++ (s.dropWhile skipped ++ nul :: post) := by
    rw [← append_assoc, hsplit]
  have hload : load ((pre ++ s.takeWhile skipped) ++ d :: rest) (pre ++ s.takeWhile skipped).length = some d :=
    load_placed d
  have hlen := congrArg List.length hsplit
  rw [length_append] at hlen
  refine ⟨(pre ++ s.takeWhile skipped).length, ?_, ?_, ?_, ?_⟩
  · rw [append_assoc, length_append] at hload
    unfold skip
    simp only [hshape, hrest, drop_length_append, takeWhile_run hrun hd, hload, length_append]
    rfl
  · rw [hshape, ← append_assoc]
    exact str_placed hclean
  · rw [hshape, ← append_assoc]
    exact strlen_placed hclean
  · rw [length_append]
    omega

/-- **The second pass** from a string that ends before the line. -/
theorem Words.locate_eq {line : List Char} {t : Memory} {ws : List (List Char × List Char)} (h : Words line t ws)
    (hclean : nul ∉ line) (pre : List Char) {c length : Nat}
    (hstrlen : strlen (pre ++ (t ++ [nul])) c = some length) (hplace : c + (length + 1) = pre.length) :
    ∃ ps, locate (pre ++ (t ++ [nul])) c ws.length = some ps ∧
      ps.map (str (pre ++ (t ++ [nul]))) = ws.map located := by
  induction h generalizing pre c length with
  | blank hlead => exact ⟨[], rfl, rfl⟩
  | @last lead tok hlead htok hne =>
    obtain ⟨c', hskip, hstr, -, -⟩ := skip_placed pre [] hclean
    simp only [length_singleton, locate, Option.bind_eq_bind]
    rw [hstrlen, Option.bind_some, hplace, hskip]
    exact ⟨_, rfl, by simpa [located] using hstr⟩
  | @more lead tok line d t ws hlead htok hne hd _ ih =>
    simp only [mem_append, mem_cons, not_or] at hclean
    have hword : nul ∉ lead ++ tok := by
      simp only [mem_append, not_or]
      exact ⟨hclean.1, hclean.2.1⟩
    have hshape : pre ++ ((lead ++ (tok ++ nul :: t)) ++ [nul]) =
        pre ++ ((lead ++ tok) ++ nul :: (t ++ [nul])) := by simp
    have hnextshape : pre ++ ((lead ++ tok) ++ nul :: (t ++ [nul])) =
        (pre ++ ((lead ++ tok) ++ [nul])) ++ (t ++ [nul]) := by simp
    obtain ⟨c', hskip, hstr, hstrlen', hend⟩ := skip_placed pre (t ++ [nul]) hword
    rw [hnextshape] at hstrlen'
    obtain ⟨ps, hlocate, hps⟩ := ih hclean.2.2.2 (pre ++ ((lead ++ tok) ++ [nul])) hstrlen' (by
      simp only [length_append, length_singleton] at hend ⊢
      omega)
    rw [← hnextshape] at hlocate hps
    rw [hshape] at hstrlen ⊢
    simp only [length_cons, locate, Option.bind_eq_bind]
    rw [hstrlen, Option.bind_some, hplace, hskip, Option.bind_some, hlocate]
    refine ⟨c' :: ps, rfl, ?_⟩
    rw [map_cons, map_cons, hstr, hps]
    rfl

section Spaced

variable {lead tok line : List Char}

theorem spaced_tok (htok : ∀ c ∈ tok, isSep c = false) : Spaced false (tok ++ line) ↔ Spaced false line := by
  induction tok with
  | nil => rfl
  | cons c tok ih =>
    have hc : isSep c = false := htok c mem_cons_self
    rw [cons_append, Spaced, hc, ih fun x hx => htok x (mem_cons_of_mem _ hx)]

theorem spaced_of_separators (hlead : ∀ c ∈ lead, isSep c) : Spaced true lead := by
  induction lead with
  | nil => trivial
  | cons c lead ih =>
    grind [Spaced]

theorem skipped_of_isSep {c : Char} (hc : isSep c) : skipped c = true ↔ c ≠ '=' := by
  have hcases : c = ' ' ∨ c = '\t' ∨ c = '=' ∨ c = '"' := by simpa [isSep, or_assoc] using hc
  rcases hcases with rfl | rfl | rfl | rfl <;> decide

theorem skipped_of_not_isSep {c : Char} (hc : isSep c = false) : skipped c = isspace c := by
  have hquote : c ≠ '"' := by
    rintro rfl
    cases hc
  simp [skipped, hquote]

/-- The second pass finds a token behind its separators if and only if these are all skipped and the
    token is not. -/
theorem located_eq_iff (hlead : ∀ c ∈ lead, isSep c) (htok : ∀ c ∈ tok, isSep c = false) (hne : tok ≠ []) :
    located (lead, tok) = tok ∧ Spaced false (tok ++ line) ↔ Spaced true (lead ++ (tok ++ line)) := by
  induction lead with
  | nil =>
    obtain ⟨c, tok, rfl⟩ := exists_cons_of_ne_nil hne
    have hc : isSep c = false := htok c mem_cons_self
    have heq : c ≠ '=' := by
      rintro rfl
      cases hc
    have hfound : located ([], c :: tok) = c :: tok ↔ isspace c = false := by
      rw [← skipped_of_not_isSep hc]
      unfold located
      cases hs : skipped c with
      | true =>
        have hlen := (dropWhile_suffix (l := tok) skipped).length_le
        grind [dropWhile_cons_of_pos]
      | false => exact iff_of_true (dropWhile_cons_of_neg (by simp [hs])) rfl
    rw [hfound, nil_append, cons_append, Spaced, Spaced, hc]
    simp [heq]
  | cons c lead ih =>
    grind [exists_mem_of_ne_nil, Spaced, located, skipped_of_isSep, dropWhile_cons_of_neg,
      dropWhile_cons_of_pos]

end Spaced

theorem Words.spaced_iff {line : List Char} {t : Memory} {ws : List (List Char × List Char)}
    (h : Words line t ws) : Spaced true line ↔ ∀ w ∈ ws, located w = w.2 := by
  induction h with
  | blank hlead => exact iff_of_true (spaced_of_separators hlead) (by simp)
  | @last lead tok hlead htok hne =>
    have hfound : located (lead, tok) = tok ∧ Spaced false (tok ++ []) ↔ Spaced true (lead ++ (tok ++ [])) :=
      located_eq_iff hlead htok hne
    rw [spaced_tok htok, append_nil] at hfound
    simp [← hfound, Spaced]
  | more hlead htok hne hd _ ih =>
    rw [← located_eq_iff hlead htok hne, spaced_tok htok, Spaced, hd, ih]
    simp

section Cut

variable {line : List Char} {t : Memory} {lead tok : List Char} {ws : List (List Char × List Char)}

theorem Words.length_le (h : Words line t ws) : ws.length ≤ line.length := by
  induction h with
  | blank hlead => simp
  | last hlead htok hne =>
    have hpos := length_pos_iff.mpr hne
    simp only [length_singleton, length_append]
    omega
  | more hlead htok hne hd _ ih =>
    simp only [length_cons, length_append]
    omega

theorem Words.vector (h : Words line t ((lead, tok) :: ws)) (hclean : nul ∉ line) :
    ∃ ps, locate (t ++ [nul]) 0 ws.length = some ps ∧ str (t ++ [nul]) 0 = lead ++ tok ∧
      ps.map (str (t ++ [nul])) = ws.map located := by
  cases h with
  | last hlead htok hne =>
    have hstr : str ([] ++ ((lead ++ tok) ++ nul :: [])) ([] : List Char).length = lead ++ tok := str_placed hclean
    exact ⟨[], rfl, hstr, rfl⟩
  | @more _ _ line d t _ hlead htok hne hd h =>
    simp only [mem_append, mem_cons, not_or] at hclean
    have hword : nul ∉ lead ++ tok := by
      simp only [mem_append, not_or]
      exact ⟨hclean.1, hclean.2.1⟩
    have hstr : str ([] ++ ((lead ++ tok) ++ nul :: (t ++ [nul]))) ([] : List Char).length = lead ++ tok :=
      str_placed hword
    have hstrlen : strlen ([] ++ ((lead ++ tok) ++ nul :: (t ++ [nul]))) ([] : List Char).length =
        some (lead ++ tok).length := strlen_placed hword
    have hsplit : [] ++ ((lead ++ tok) ++ nul :: (t ++ [nul])) = ((lead ++ tok) ++ [nul]) ++ (t ++ [nul]) := by
      simp
    grind [h.locate_eq]

/-- A line that has arguments is tidy if and only if the first one has nothing before it and the second
    pass finds the others. -/
theorem Words.tidy_iff (h : Words line t ((lead, tok) :: ws)) :
    Tidy line ↔ lead = [] ∧ ∀ w ∈ ws, located w = w.2 := by
  have hstarts : ∀ rest, (∀ c ∈ lead, isSep c) → (∀ c ∈ tok, isSep c = false) → tok ≠ [] →
      ((∃ c ∈ (lead ++ (tok ++ rest)).head?, isSep c = false) ↔ lead = []) := by
    intro rest hlead htok hne
    obtain ⟨d, tok, rfl⟩ := exists_cons_of_ne_nil hne
    cases lead with
    | nil => exact iff_of_true ⟨d, rfl, htok d mem_cons_self⟩ rfl
    | cons c lead =>
      grind
  cases h with
  | last hlead htok hne =>
    have hhead := hstarts [] hlead htok hne
    rw [append_nil] at hhead
    constructor
    · intro htidy
      exact ⟨hhead.mp htidy.starts, by simp⟩
    · rintro ⟨rfl, -⟩
      have hspaced : Spaced false (tok ++ []) := (spaced_tok htok).mpr trivial
      rw [append_nil] at hspaced
      exact ⟨hhead.mpr rfl, hspaced⟩
  | @more _ _ line d t _ hlead htok hne hd h =>
    have hhead := hstarts (d :: line) hlead htok hne
    have hspaced : Spaced false (tok ++ d :: line) ↔ ∀ w ∈ ws, located w = w.2 := by
      rw [spaced_tok htok, Spaced, hd, h.spaced_iff]
    constructor
    · rintro ⟨hstart, hspace⟩
      obtain rfl := hhead.mp hstart
      exact ⟨rfl, hspaced.mp hspace⟩
    · rintro ⟨rfl, hall⟩
      exact ⟨hhead.mpr rfl, hspaced.mpr hall⟩

end Cut

/-- **The vector has the arguments of the line and a null pointer behind them if and only if** the line
    is tidy. -/
theorem argcArgvUpdate_iff {line : CStr} (hlength : line.chars.length < MAX_LINE_SIZE) {aa : ArgcArgv}
    (hmarker : aa.marker = ARGC_ARGV_MARKER) (hcommand : aa.command ≠ .freed) :
    (∃ aa', argcArgvUpdate line aa true true = .ok aa' ∧ Splits line.chars aa') ↔ Tidy line.chars := by
  obtain ⟨t, ws, h⟩ := exists_words line.chars
  have hshort : ¬ MAX_LINE_SIZE ≤ line.chars.length := Nat.not_le.mpr hlength
  have hws := h.length_le
  have hcount := h.count line.clean [] 0 (line.chars.length + 2) (by omega)
  have hfields := h.fields_eq
  rw [nil_append, nil_append, length_nil, Nat.zero_add] at hcount
  unfold argcArgvUpdate argcArgvClean CStr.memory
  simp only [hmarker, hcommand, hshort, hcount, ne_eq, not_true_eq_false, if_false, if_true, Bool.true_eq_false]
  cases ws with
  | nil =>
    have hnone : fields line.chars = [] := hfields
    simp only [length_nil, Nat.zero_sub, locate, Splits, hnone]
    refine iff_of_false ?_ ?_
    · rintro ⟨aa', hok, m, argv, hm, hargv, -, htexts⟩
      cases hok
      cases hargv
      cases htexts
    · rintro ⟨⟨c, hc, hsep⟩, -⟩
      cases hline : line.chars with
      | nil =>
        rw [hline] at hc
        cases hc
      | cons d rest =>
        grind [fields, fieldsFrom, fieldsFrom_ne_nil]
  | cons w ws =>
    obtain ⟨lead, tok⟩ := w
    obtain ⟨ps, hlocate, hfirst, hps⟩ := h.vector line.clean
    have hlen : ps.length = ws.length := by simpa using congrArg List.length hps
    have hlist : fields line.chars = tok :: ws.map Prod.snd := hfields
    have hone : ws.length + 1 - ps.length = 1 := by omega
    have htexts : (some 0 :: ps.map some ++ List.replicate (ws.length + 1 - ps.length) none).map
        (Option.map (str (t ++ [nul]))) = some (lead ++ tok) :: (ws.map located).map some ++ [none] := by
      rw [hone, ← hps, ← hfirst]
      simp
    have hequal : some (lead ++ tok) :: (ws.map located).map some ++ [none] =
        (tok :: ws.map Prod.snd).map some ++ [none] ↔ lead = [] ∧ ∀ w ∈ ws, located w = w.2 := by
      simp
    rw [h.tidy_iff, length_cons, Nat.add_sub_cancel, hlocate, ← hequal, ← hlist, ← htexts]
    constructor
    · rintro ⟨aa', hok, m, argv, hm, hargv, -, hsplit⟩
      cases hok
      cases hm
      cases hargv
      exact hsplit
    · intro hsplit
      refine ⟨_, rfl, t ++ [nul], _, rfl, rfl, ?_, hsplit⟩
      rw [hlist]
      simp

def emptyVector : ArgcArgv := ⟨ARGC_ARGV_MARKER, .null, 0, none⟩

/-- A setting with blanks around the `=`. -/
def blanksAround : CStr := ⟨['a', ' ', '=', ' ', 'b'], by decide⟩

/-- The second argument of `a = b` begins at the `=`. -/
theorem arguments_misplaced :
    ¬ ∃ aa', argcArgvUpdate blanksAround emptyVector true true = .ok aa' ∧ Splits blanksAround.chars aa' := by
  rintro ⟨aa', hok, m, argv, hm, hargv, -, htexts⟩
  cases hok
  cases hm
  cases hargv
  exact absurd htexts (by decide)

def quotedValue : CStr := ⟨['a', '=', '"', 'b', ' ', 'c', '"'], by decide⟩

theorem argcArgvUpdate_iff_quotedValue :
    (∃ aa', argcArgvUpdate quotedValue emptyVector true true = .ok aa' ∧ Splits quotedValue.chars aa') ↔
      Tidy quotedValue.chars :=
  argcArgvUpdate_iff (by decide) rfl (by decide)

end RtemsLibbsd.RcConf

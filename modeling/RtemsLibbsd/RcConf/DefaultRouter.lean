import Mathlib.Algebra.Group.Int.Defs
import Mathlib.Algebra.Group.Nat.Defs
import Mathlib.Data.List.Infix
import RtemsLibbsd.Polling
import RtemsLibbsd.RcConf.Find
import RtemsLibbsd.RcConf.Services

/-!
# The default route of rc.conf

Model of `defaultrouter` of `rtemsbsd/rtems/rtems-bsd-rc-conf-net.c`.  With DHCP it looks for a default
route once a second, at most `defaultroute_delay` times, and uses the line `defaultrouter` if there is none.

* `configuredDelay` — the number of seconds, out of the line `defaultroute_delay`.
* `waitLoop` — the loop; its counter says afterwards whether a route was found.
* `WaitsOk` — what is expected of the wait.
* `defaultrouter_waits_iff` — it holds unless the last look-up is the first one that finds a route.
-/

namespace RtemsLibbsd.RcConf

open RtemsLibbsd.CString Polling

universe u

/-! ## The function -/

def digitValue (c : Char) : ℕ := c.toNat - '0'.toNat

/-- The sign that `strtol` takes from a string, and what is behind it. -/
def takeSign : List Char → Bool × List Char
  | [] => (false, [])
  | c :: s => if c = '-' then (true, s) else if c = '+' then (false, s) else (false, c :: s)

/-- `strtol` in base ten for a `long` of `w` bits: the value, and the rest of the string. -/
def strtol (w : ℕ) (s : List Char) : ℤ × List Char :=
  let signed := takeSign (s.dropWhile isspace)
  let digits := signed.2.takeWhile Char.isDigit
  if digits = [] then (0, s)
  else
    let magnitude : ℤ := (digits.foldl (fun n c => 10 * n + digitValue c) 0 : ℕ)
    let value := if signed.1 then -magnitude else magnitude
    (max (-2 ^ (w - 1)) (min value (2 ^ (w - 1) - 1)), signed.2.drop digits.length)

/-- A `long` as an `int`. -/
def toInt32 (z : ℤ) : ℤ := z.bmod (2 ^ 32)

def defaultrouteDelay : List Char := "defaultroute_delay".toList

def defaultrouterKey : List Char := "defaultrouter".toList

/-- The delay out of the line `defaultroute_delay`. -/
def configuredDelay (regex : Engine) (w : ℕ) (f : Finder) : ℤ × Finder :=
  match find regex f defaultrouteDelay with
  | (true, f) =>
    if f.aa.argc = 2 then
      let number := strtol w ((f.aa.arg 1).getD [])
      (if number.2 = [] then toInt32 number.1 else 30, f)
    else (30, f)
  | (false, f) => (30, f)

/-- What `rtems_get_route` comes to: its result, and whether there is a gateway. -/
structure Lookup where
  result : ℤ
  gateway : Bool

def Lookup.Found (o : Lookup) : Prop := o.result = 0 ∧ o.gateway = true

instance (o : Lookup) : Decidable o.Found := inferInstanceAs (Decidable (o.result = 0 ∧ o.gateway = true))

/-- The loop, with the counter in front of it; the results are the counter behind it and the look-ups. -/
def waitLoop {ρ : Type u} (lookup : ρ → ρ × Lookup) : ℕ → ρ → ℕ × List Lookup
  | 0, _ => (0, [])
  | delay + 1, s =>
    if (lookup s).2.Found then (delay, [(lookup s).2])
    else
      let rest := waitLoop lookup delay (lookup s).1
      (rest.1, (lookup s).2 :: rest.2)

/-- What a call comes to: its result, the look-ups of a route, whether it looks for the line
    `defaultrouter`, the commands it runs, and whether it uses a null pointer. -/
structure Routed where
  result : ℤ
  polls : List Lookup
  fellBack : Bool
  commands : List (List (List Char))
  finder : Finder
  null : Bool

def routeArgs (router : List Char) : List (List Char) :=
  ["route".toList, "add".toList, "default".toList, router]

/-- The part for the line `defaultrouter`; `route` is the command. -/
def staticRouter (regex : Engine) (route : List (List Char) → ℤ) (f : Finder) (polls : List Lookup) : Routed :=
  match find regex f defaultrouterKey with
  | (false, f) => ⟨if f.errno = .enoent then 0 else -1, polls, true, [], f, false⟩
  | (true, f) =>
    if f.aa.argc > 2 then ⟨-1, polls, true, [], { f with errno := .einval }, false⟩
    else
      match f.aa.arg 1 with
      | none => ⟨-1, polls, true, [], f, true⟩
      | some router =>
        if strcasecmp router "NO".toList then ⟨0, polls, true, [], f, false⟩
        else if route (routeArgs router) ≠ 0 then
          ⟨-1, polls, true, [routeArgs router], { f with errno := .ecanceled }, false⟩
        else ⟨0, polls, true, [routeArgs router], f, false⟩

def defaultrouter {ρ : Type u} (regex : Engine) (w : ℕ) (lookup : ρ → ρ × Lookup)
    (route : List (List Char) → ℤ) (f : Finder) (s : ρ) (dhcp : Bool) : Routed :=
  if dhcp then
    let (delay, f) := configuredDelay regex w f
    let (left, polls) := waitLoop lookup delay.toNat s
    if 0 < left then ⟨0, polls, false, [], f, false⟩
    else staticRouter regex route f polls
  else staticRouter regex route f []

/-! ## What is expected -/

/-- The wait for at most `n` look-ups: they are the first ones, only the last one may find a route, and the
    route counts as found exactly when one of the first `n` finds one. -/
structure WaitsOk {ρ : Type u} (lookup : ρ → ρ × Lookup) (n : ℕ) (s : ρ) (o : Routed) : Prop where
  polls : o.polls = (List.range o.polls.length).map fun i => value lookup i s
  atMost : o.polls.length ≤ n
  stops : ∀ i, i + 1 < o.polls.length → ¬ (value lookup i s).Found
  found : o.result = 0 ∧ o.fellBack = false ↔ ∃ i < n, (value lookup i s).Found

/-! ## The loop -/

section

variable {ρ : Type u} {lookup : ρ → ρ × Lookup} {s : ρ} {n delay : ℕ}

theorem polls_succ (lookup : ρ → ρ × Lookup) (k : ℕ) (s : ρ) :
    (List.range (k + 1)).map (fun i => value lookup i s) =
      (lookup s).2 :: (List.range k).map (fun i => value lookup i (lookup s).1) := by
  rw [List.range_succ_eq_map, List.map_cons, List.map_map]
  rfl

theorem waitLoop_found (h : First lookup Lookup.Found n s) (hn : n < delay) :
    waitLoop lookup delay s = (delay - (n + 1), (List.range (n + 1)).map fun i => value lookup i s) := by
  induction delay generalizing n s with
  | zero => exact absurd hn (Nat.not_lt_zero n)
  | succ delay ih =>
    rw [waitLoop, polls_succ]
    cases n with
    | zero =>
      rw [if_pos (first_zero.1 h)]
      rfl
    | succ n =>
      obtain ⟨hno, hrest⟩ := first_succ.1 h
      simp [if_neg hno, ih hrest (Nat.lt_of_succ_lt_succ hn)]

theorem waitLoop_exhausted (h : ∀ i < delay, ¬ (value lookup i s).Found) :
    waitLoop lookup delay s = (0, (List.range delay).map fun i => value lookup i s) := by
  induction delay generalizing s with
  | zero => rfl
  | succ delay ih =>
    have hrest : ∀ i < delay, ¬ (value lookup i (lookup s).1).Found := by
      intro i hi
      exact h (i + 1) (Nat.succ_lt_succ hi)
    rw [waitLoop, polls_succ]
    have hfirst : ¬ (lookup s).2.Found := h 0 (Nat.succ_pos delay)
    rw [if_neg hfirst, ih hrest]

end

/-! ## The function -/

section

variable {ρ : Type u} (regex : Engine) (w : ℕ) (lookup : ρ → ρ × Lookup) (route : List (List Char) → ℤ)

theorem staticRouter_polls (f : Finder) (polls : List Lookup) :
    (staticRouter regex route f polls).polls = polls ∧
      (staticRouter regex route f polls).fellBack = true := by
  unfold staticRouter
  repeat' split
  all_goals exact ⟨rfl, rfl⟩

theorem defaultrouter_dhcp (f : Finder) (s : ρ) :
    defaultrouter regex w lookup route f s true =
      if 0 < (waitLoop lookup (configuredDelay regex w f).1.toNat s).1 then
        ⟨0, (waitLoop lookup (configuredDelay regex w f).1.toNat s).2, false, [],
          (configuredDelay regex w f).2, false⟩
      else staticRouter regex route (configuredDelay regex w f).2
        (waitLoop lookup (configuredDelay regex w f).1.toNat s).2 := rfl

/-- The wait is as expected exactly when the first look-up that finds a route, if there is one, is not the
    last one of the delay. -/
theorem defaultrouter_waits_iff (f : Finder) (s : ρ) (hdelay : 1 ≤ (configuredDelay regex w f).1) :
    WaitsOk lookup (configuredDelay regex w f).1.toNat s (defaultrouter regex w lookup route f s true) ↔
      ¬ First lookup Lookup.Found ((configuredDelay regex w f).1.toNat - 1) s := by
  rw [defaultrouter_dhcp]
  obtain ⟨n, hn⟩ : ∃ n, (configuredDelay regex w f).1.toNat = n + 1 := by
    apply Nat.exists_eq_succ_of_ne_zero
    omega
  rw [hn, Nat.add_sub_cancel]
  by_cases hfound : ∃ i < n + 1, (value lookup i s).Found
  · obtain ⟨k, hfirst⟩ := exists_first (hfound.imp fun _ h => h.2)
    have hk : k < n + 1 := by
      grind [hfirst.before]
    rw [waitLoop_found hfirst hk]
    by_cases hlast : k = n
    · subst hlast
      obtain ⟨_, hfell⟩ := staticRouter_polls regex route (configuredDelay regex w f).2
        ((List.range (k + 1)).map fun i => value lookup i s)
      rw [Nat.sub_self, if_neg (lt_irrefl 0)]
      constructor
      · intro hok
        have hnot := (hok.found.2 hfound).2
        rw [hfell] at hnot
        cases hnot
      · intro hno
        exact absurd hfirst hno
    · have hleft : 0 < n + 1 - (k + 1) := by omega
      rw [if_pos hleft]
      constructor
      · intro _ hn
        exact hlast (first_unique hfirst hn)
      · intro _
        constructor
        · simp
        · simp only [List.length_map, List.length_range]
          omega
        · grind [hfirst.before]
        · exact iff_of_true ⟨rfl, rfl⟩ hfound
  · have hnone : ∀ i < n + 1, ¬ (value lookup i s).Found := by
      intro i hi hends
      exact hfound ⟨i, hi, hends⟩
    rw [waitLoop_exhausted hnone, if_neg (lt_irrefl 0)]
    obtain ⟨hpolls, hfell⟩ := staticRouter_polls regex route (configuredDelay regex w f).2
      ((List.range (n + 1)).map fun i => value lookup i s)
    refine iff_of_true ⟨?_, ?_, ?_, ?_⟩ ?_
    · rw [hpolls]
      simp
    · rw [hpolls]
      simp
    · grind
    · rw [hfell]
      exact iff_of_false (fun h => by cases h.2) hfound
    · intro hfirst
      exact hnone n (Nat.lt_succ_self n) hfirst.ends

end

/-! ## A file -/

/-- An expression without special characters matches the strings that it is a part of. -/
def plainEngine : Engine := fun expression s => if expression <:+: s then .found else .noMatch

def finderOf (lines : List CStr) : Finder :=
  ⟨lines, 0, none, emptyVector, .other 0, fun _ => true, 0, false⟩

/-- `defaultroute_delay=2`. -/
def delayFile : Finder := finderOf [⟨"defaultroute_delay=2".toList, by decide +kernel⟩]

def routeFrom (k : ℕ) : ℕ → ℕ × Lookup := fun i => (i + 1, if k ≤ i then ⟨0, true⟩ else ⟨-1, false⟩)

/-- A route that the second of two look-ups finds is lost. -/
theorem defaultrouter_misses_last :
    (value (routeFrom 1) 1 0).Found ∧
    (defaultrouter plainEngine 32 (routeFrom 1) (fun _ => 0) delayFile 0 true).fellBack = true ∧
    ¬ WaitsOk (routeFrom 1) 2 0 (defaultrouter plainEngine 32 (routeFrom 1) (fun _ => 0) delayFile 0 true) := by
  have hfound : (value (routeFrom 1) 1 0).Found := by decide
  have hfell : (defaultrouter plainEngine 32 (routeFrom 1) (fun _ => 0) delayFile 0 true).fellBack = true := by
    decide +kernel
  refine ⟨hfound, hfell, ?_⟩
  intro hok
  have hnot := (hok.found.2 ⟨1, by decide, hfound⟩).2
  cases hnot

theorem defaultrouter_waits_iff_delayFile :
    WaitsOk (routeFrom 0) (configuredDelay plainEngine 32 delayFile).1.toNat 0
      (defaultrouter plainEngine 32 (routeFrom 0) (fun _ => 0) delayFile 0 true) ↔
    ¬ First (routeFrom 0) Lookup.Found ((configuredDelay plainEngine 32 delayFile).1.toNat - 1) 0 :=
  defaultrouter_waits_iff plainEngine 32 (routeFrom 0) (fun _ => 0) delayFile 0 (by
    decide)

end RtemsLibbsd.RcConf

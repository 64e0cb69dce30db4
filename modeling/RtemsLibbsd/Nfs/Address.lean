import Mathlib.Data.List.Basic
import Mathlib.Tactic.ByContra
import Mathlib.Tactic.IntervalCases

/-!
# The specification of a mount

Model of `buildIpAddr` of `rtemsbsd/nfsclient/nfs.c`, which takes `[<uid>.<gid>@]<host>:<path>` apart.

* `scanLi` — the conversion `%li` of `sscanf`: white space, a sign, and digits of the base that the prefix tells.
  `LongT.store` is what is left of the number in an `u_long`.
* `buildIpAddr` — the function; `gethostbyname` is a parameter.  No result stands for -1 with `EINVAL`.
* `MountSpec` — a specification and its text (`render`).  The numbers are decimal.
* `RoundTrip` — what `buildIpAddr` has to make of a string: the parts of the specification that it is the text of, and
  an error if it is the text of none.

Principal result: `round_trip_iff`.  The separator of the numbers is looked for in the whole string, the numbers may
be followed by anything before it, and the longest host that fits into the buffer is refused.
-/

namespace RtemsLibbsd.Nfs.Address

open List

/-! ## Scanning numbers -/

def isSpace (c : Char) : Bool :=
  c = ' ' || c = '\t' || c = '\n' || c = '\x0b' || c = '\x0c' || c = '\r'

def isOctal (c : Char) : Bool := '0' ≤ c ∧ c ≤ '7'

def isHex (c : Char) : Bool := c.isDigit || ('a' ≤ c ∧ c ≤ 'f') || ('A' ≤ c ∧ c ≤ 'F')

def hexValue (c : Char) : Nat :=
  if c.isDigit then c.toNat - '0'.toNat else if 'a' ≤ c then c.toNat - 'a'.toNat + 10 else c.toNat - 'A'.toNat + 10

def hexNumber (s : List Char) : Nat := s.foldl (fun n c => 16 * n + hexValue c) 0

def scanDigits (digit : Char → Bool) (value : List Char → Nat) (s : List Char) : Option (Nat × List Char) :=
  if s.takeWhile digit = [] then none else some (value (s.takeWhile digit), s.dropWhile digit)

def scanUnsigned : List Char → Option (Nat × List Char)
  | '0' :: 'x' :: s => scanDigits isHex hexNumber s
  | '0' :: 'X' :: s => scanDigits isHex hexNumber s
  | '0' :: s => scanDigits isOctal (Nat.ofDigitChars 8 · 0) ('0' :: s)
  | s => scanDigits Char.isDigit (Nat.ofDigitChars 10 · 0) s

/-- `%li` -/
def scanLi (s : List Char) : Option (Int × List Char) :=
  match s.dropWhile isSpace with
  | '-' :: s => (scanUnsigned s).map fun r => (-(r.1 : Int), r.2)
  | '+' :: s => (scanUnsigned s).map fun r => ((r.1 : Int), r.2)
  | s => (scanUnsigned s).map fun r => ((r.1 : Int), r.2)

/-- `sscanf` with the format `%li.%li`: the numbers, if both conversions are successful. -/
def scanIds (s : List Char) : Option (Int × Int) :=
  match scanLi s with
  | some (uid, '.' :: s) => (scanLi s).map fun r => (uid, r.1)
  | _ => none

/-- The width of `long`. -/
structure LongT where
  bits : Nat
  pos : 0 < bits

/-- `LONG_MAX` -/
def LongT.max (T : LongT) : Nat := 2 ^ (T.bits - 1) - 1

/-- The conversion stops at the limits of `long`; the number is stored in an `u_long`. -/
def LongT.store (T : LongT) (v : Int) : Nat :=
  (Max.max (-(T.max : Int) - 1) (min v T.max) % 2 ^ T.bits).toNat

/-! ## The function -/

/-- `strchr`: what stands before the first `c` and behind it. -/
def splitAt (c : Char) (s : List Char) : Option (List Char × List Char) :=
  if c ∈ s then some (s.takeWhile (· ≠ c), (s.dropWhile (· ≠ c)).tail) else none

/-- `sizeof(host)` -/
abbrev hostSize : Nat := 64

/-- What `buildIpAddr` answers: `*puid`, `*pgid`, `*pHost`, the name it resolves, its address and `*pPath`. -/
structure IpAddr where
  uid : Nat
  gid : Nat
  pHost : List Char
  host : List Char
  sinAddr : Nat
  path : List Char
  deriving DecidableEq

/-- `buildIpAddr`; `self` are the identifiers of the process. -/
def buildIpAddr (T : LongT) (self : Nat × Nat) (gethostbyname : List Char → Option Nat) (s : List Char) :
    Option IpAddr :=
  let start :=
    match splitAt '@' s with
    | some (_, chpt) => (scanIds s).map fun ids => (T.store ids.1, T.store ids.2, chpt)
    | none => some (self.1, self.2, s)
  match start with
  | none => none
  | some (uid, gid, chpt) =>
    match splitAt ':' chpt with
    | none => none
    | some (host, path) =>
      if host.length ≥ hostSize - 1 then none
      else (gethostbyname host).map fun addr => ⟨uid, gid, chpt, host, addr, path⟩

/-! ## Specifications -/

/-- `[uid.gid@]host:path` -/
structure MountSpec where
  ids : Option (Nat × Nat)
  host : List Char
  path : List Char

namespace MountSpec

def tail (x : MountSpec) : List Char := x.host ++ ':' :: x.path

def render (x : MountSpec) : List Char :=
  match x.ids with
  | some (uid, gid) => Nat.toDigits 10 uid ++ '.' :: (Nat.toDigits 10 gid ++ '@' :: x.tail)
  | none => x.tail

/-- The host fits into the buffer and has no separator, the numbers are values of `u_long`. -/
structure Valid (T : LongT) (x : MountSpec) : Prop where
  at_free : '@' ∉ x.host
  colon_free : ':' ∉ x.host
  host_lt : x.host.length < hostSize
  ids_lt : ∀ ids ∈ x.ids, ids.1 < 2 ^ T.bits ∧ ids.2 < 2 ^ T.bits

/-- The specifications that are read back: the host leaves one more byte, the numbers are values of `long`, and
    without numbers there is no separator in the path. -/
structure Readable (T : LongT) (x : MountSpec) : Prop where
  host_lt : x.host.length < hostSize - 1
  ids_le : ∀ ids ∈ x.ids, ids.1 ≤ T.max ∧ ids.2 ≤ T.max
  at_free : x.ids = none → '@' ∉ x.path

end MountSpec

/-- **What `buildIpAddr` has to make of a string.** -/
structure RoundTrip (T : LongT) (s : List Char) : Prop where
  accepts : ∀ x : MountSpec, x.Valid T → s = x.render → ∀ self gethostbyname,
    buildIpAddr T self gethostbyname s = (gethostbyname x.host).map fun addr =>
      ⟨(x.ids.getD self).1, (x.ids.getD self).2, x.tail, x.host, addr, x.path⟩
  rejects : (∀ x : MountSpec, x.Valid T → s ≠ x.render) → ∀ self gethostbyname,
    buildIpAddr T self gethostbyname s = none

/-- A string that is taken for a specification with numbers: two numbers at its start, and a host behind the first
    `@` that fits. -/
def Scanned (s : List Char) : Prop :=
  (scanIds s).isSome = true ∧ ∃ before chpt, splitAt '@' s = some (before, chpt) ∧
    ∃ host path, splitAt ':' chpt = some (host, path) ∧ host.length < hostSize - 1

section Split

variable {c : Char} {s a b : List Char}

theorem splitAt_append (h : c ∉ a) : splitAt c (a ++ c :: b) = some (a, b) := by
  have hall : ∀ x ∈ a, (decide (x ≠ c)) = true := fun x hx => decide_eq_true (by rintro rfl; exact h hx)
  unfold splitAt
  rw [if_pos (by simp), takeWhile_append_of_pos hall, dropWhile_append_of_pos hall]
  simp

theorem splitAt_none (h : c ∉ s) : splitAt c s = none := if_neg h

theorem splitAt_eq_some (h : splitAt c s = some (a, b)) : s = a ++ c :: b ∧ c ∉ a := by
  by_cases hmem : c ∈ s
  · obtain ⟨l, r, rfl, hl⟩ := eq_append_cons_of_mem hmem
    rw [splitAt_append hl] at h
    cases h
    exact ⟨rfl, hl⟩
  · rw [splitAt_none hmem] at h
    cases h

end Split

/-! ## Numbers are read back -/

variable {n : Nat}

theorem head_toDigits (hn : 0 < n) : ∃ d l, Nat.toDigits 10 n = d :: l ∧ d ≠ '0' := by
  induction n using Nat.strongRecOn with
  | ind n ih =>
    by_cases hlt : n < 10
    · refine ⟨n.digitChar, [], Nat.toDigits_of_lt_base hlt, ?_⟩
      interval_cases n <;> decide
    · obtain ⟨d, l, hdl, hd⟩ := ih (n / 10) (by omega) (by omega)
      grind [Nat.toDigits_of_base_le]

theorem isDigit_of_mem {c : Char} (hc : c ∈ Nat.toDigits 10 n) : c.isDigit = true :=
  Nat.isDigit_of_mem_toDigits (by omega) (by omega) hc

theorem not_mem_toDigits {c : Char} (hc : c.isDigit = false) : c ∉ Nat.toDigits 10 n := fun hmem => by
  rw [isDigit_of_mem hmem] at hc
  cases hc

theorem scanDigits_append (digit : Char → Bool) (value : List Char → Nat) {l s : List Char} {c : Char} (hne : l ≠ [])
    (hl : ∀ d ∈ l, digit d = true) (hc : digit c = false) :
    scanDigits digit value (l ++ c :: s) = some (value l, c :: s) := by
  have htake : (l ++ c :: s).takeWhile digit = l := by
    rw [takeWhile_append_of_pos hl, takeWhile_cons_of_neg (by simp [hc]), append_nil]
  have hdrop : (l ++ c :: s).dropWhile digit = c :: s := by
    rw [dropWhile_append_of_pos hl, dropWhile_cons_of_neg (by simp [hc])]
  unfold scanDigits
  rw [htake, hdrop, if_neg hne]

theorem scanUnsigned_toDigits {c : Char} (s : List Char) (hc : c = '.' ∨ c = '@') :
    scanUnsigned (Nat.toDigits 10 n ++ c :: s) = some (n, c :: s) := by
  have hdigit : c.isDigit = false := by rcases hc with rfl | rfl <;> decide
  by_cases hn : n = 0
  · subst hn
    have hoctal : isOctal c = false := by rcases hc with rfl | rfl <;> decide
    have hscan := scanDigits_append isOctal (Nat.ofDigitChars 8 · 0) (l := ['0']) (s := s)
      (by simp) (fun d hd => by rw [mem_singleton.1 hd]; decide) hoctal
    rcases hc with rfl | rfl
    · exact hscan
    · exact hscan
  · obtain ⟨d, l, hdl, hd⟩ := head_toDigits (Nat.pos_of_ne_zero hn)
    have hscan := scanDigits_append Char.isDigit (Nat.ofDigitChars 10 · 0)
      (l := Nat.toDigits 10 n) (s := s) Nat.toDigits_ne_nil (fun x hx => isDigit_of_mem hx) hdigit
    rw [Nat.ofDigitChars_ten_toDigits] at hscan
    unfold scanUnsigned
    grind

theorem scanLi_toDigits {c : Char} (s : List Char) (hc : c = '.' ∨ c = '@') :
    scanLi (Nat.toDigits 10 n ++ c :: s) = some ((n : Int), c :: s) := by
  have hscan := scanUnsigned_toDigits (n := n) s hc
  obtain ⟨d, l, hdl⟩ := exists_cons_of_ne_nil (Nat.toDigits_ne_nil (n := n) (b := 10))
  have hd : d.isDigit = true := isDigit_of_mem (n := n) (by rw [hdl]; exact mem_cons_self)
  have hspace : isSpace d = false := by
    by_contra h
    simp only [isSpace, Bool.not_eq_false, Bool.or_eq_true, decide_eq_true_eq] at h
    rcases h with ((((rfl | rfl) | rfl) | rfl) | rfl) | rfl <;> exact absurd hd (by decide)
  rw [hdl] at hscan ⊢
  unfold scanLi
  rw [cons_append, dropWhile_cons_of_neg (by simp [hspace])]
  split
  · rename_i heq; cases heq; exact absurd hd (by decide)
  · rename_i heq; cases heq; exact absurd hd (by decide)
  · rw [← cons_append, hscan]
    rfl

theorem scanIds_toDigits (uid gid : Nat) (s : List Char) :
    scanIds (Nat.toDigits 10 uid ++ '.' :: (Nat.toDigits 10 gid ++ '@' :: s)) = some ((uid : Int), (gid : Int)) := by
  unfold scanIds
  rw [scanLi_toDigits _ (.inl rfl)]
  simp [scanLi_toDigits s (.inr rfl)]

namespace LongT

variable (T : LongT)

theorem max_lt : T.max < 2 ^ T.bits := by
  have hle : 2 ^ (T.bits - 1) ≤ 2 ^ T.bits := Nat.pow_le_pow_right (by omega) (by omega)
  have hpos : 0 < 2 ^ (T.bits - 1) := Nat.two_pow_pos _
  unfold max
  omega

theorem store_eq_iff (n : Nat) : T.store n = n ↔ n ≤ T.max := by
  have hlt := T.max_lt
  have hcast : ((2 ^ T.bits : Nat) : Int) = 2 ^ T.bits := by rfl
  unfold store
  rw [← hcast]
  generalize 2 ^ T.bits = w at hlt ⊢
  generalize T.max = m at hlt ⊢
  rw [Int.max_eq_right (by omega)]
  have hmod : min (n : Int) (m : Int) % (w : Int) = min (n : Int) (m : Int) :=
    Int.emod_eq_of_lt (by omega) (by omega)
  omega

end LongT

/-! ## What the function makes of a string -/

section Code

variable {T : LongT} {s before chpt host path : List Char}

/-- The host and the path are looked for in `chpt`, whatever the numbers are. -/
theorem buildIpAddr_ids {ids : Int × Int} (hat : splitAt '@' s = some (before, chpt)) (hids : scanIds s = some ids)
    (hcolon : splitAt ':' chpt = some (host, path)) (self : Nat × Nat) (gethostbyname : List Char → Option Nat) :
    buildIpAddr T self gethostbyname s =
      if host.length ≥ hostSize - 1 then none
      else (gethostbyname host).map fun addr => ⟨T.store ids.1, T.store ids.2, chpt, host, addr, path⟩ := by
  simp only [buildIpAddr, hat, hids, Option.map_some, hcolon]

theorem buildIpAddr_self (hat : '@' ∉ s) (hcolon : splitAt ':' s = some (host, path)) (self : Nat × Nat)
    (gethostbyname : List Char → Option Nat) :
    buildIpAddr T self gethostbyname s =
      if host.length ≥ hostSize - 1 then none
      else (gethostbyname host).map fun addr => ⟨self.1, self.2, s, host, addr, path⟩ := by
  simp only [buildIpAddr, splitAt_none hat, hcolon]

/-- Every answer comes from two numbers and a host behind the first `@`, or from a host in a string without one. -/
theorem buildIpAddr_eq_some {self : Nat × Nat} {gethostbyname : List Char → Option Nat} {r : IpAddr}
    (h : buildIpAddr T self gethostbyname s = some r) :
    (Scanned s ∧ ∃ before, splitAt '@' s = some (before, r.pHost) ∧ splitAt ':' r.pHost = some (r.host, r.path)) ∨
    ('@' ∉ s ∧ splitAt ':' s = some (r.host, r.path) ∧ r.host.length < hostSize - 1) := by
  by_cases hat : '@' ∈ s
  · obtain ⟨before, chpt, hs⟩ : ∃ before chpt, splitAt '@' s = some (before, chpt) := ⟨_, _, if_pos hat⟩
    cases hids : scanIds s with
    | none => simp [buildIpAddr, hs, hids] at h
    | some ids =>
      cases hcolon : splitAt ':' chpt with
      | none => simp [buildIpAddr, hs, hids, hcolon] at h
      | some hp =>
        obtain ⟨host, path⟩ := hp
        rw [buildIpAddr_ids hs hids hcolon] at h
        split at h
        · cases h
        · rename_i hlen
          obtain ⟨addr, -, rfl⟩ := Option.map_eq_some_iff.1 h
          exact .inl ⟨⟨by rw [hids]; rfl, before, chpt, hs, host, path, hcolon, Nat.lt_of_not_le hlen⟩,
            before, hs, hcolon⟩
  · cases hcolon : splitAt ':' s with
    | none => simp [buildIpAddr, splitAt_none hat, hcolon] at h
    | some hp =>
      rw [buildIpAddr_self hat hcolon] at h
      split at h
      · cases h
      · rename_i hlen
        obtain ⟨addr, -, rfl⟩ := Option.map_eq_some_iff.1 h
        exact .inr ⟨hat, rfl, Nat.lt_of_not_le hlen⟩

theorem Scanned.accepted (h : Scanned s) (self : Nat × Nat) :
    (buildIpAddr T self (fun _ => some 0) s).isSome = true := by
  obtain ⟨hids, before, chpt, hs, host, path, hcolon, hlen⟩ := h
  obtain ⟨ids, hids⟩ := Option.isSome_iff_exists.1 hids
  rw [buildIpAddr_ids hs hids hcolon, if_neg (by omega)]
  rfl

end Code

namespace MountSpec

variable {T : LongT} {x : MountSpec}

theorem splitAt_tail (h : ':' ∉ x.host) : splitAt ':' x.tail = some (x.host, x.path) := splitAt_append h

variable {uid gid : Nat}

theorem splitAt_render_ids (h : x.ids = some (uid, gid)) :
    splitAt '@' x.render = some (Nat.toDigits 10 uid ++ '.' :: Nat.toDigits 10 gid, x.tail) := by
  grind [not_mem_toDigits, splitAt_append, render]

theorem scanIds_render (h : x.ids = some (uid, gid)) :
    scanIds x.render = some ((uid : Int), (gid : Int)) := by
  rw [render, h]
  exact scanIds_toDigits uid gid _

theorem render_self (h : x.ids = none) : x.render = x.tail := by rw [render, h]

/-- With numbers the parts come back if the host leaves a byte, the numbers as far as `long` goes. -/
theorem buildIpAddr_render_ids (h : x.ids = some (uid, gid)) (hx : x.Valid T) (self : Nat × Nat)
    (gethostbyname : List Char → Option Nat) :
    buildIpAddr T self gethostbyname x.render = if x.host.length ≥ hostSize - 1 then none
      else (gethostbyname x.host).map fun addr => ⟨T.store uid, T.store gid, x.tail, x.host, addr, x.path⟩ :=
  buildIpAddr_ids (splitAt_render_ids h) (scanIds_render h) (splitAt_tail hx.colon_free) self gethostbyname

theorem at_free_tail (hx : x.Valid T) (hpath : '@' ∉ x.path) : '@' ∉ x.tail := by
  have hhost := hx.at_free
  simp [tail, hhost, hpath]

theorem buildIpAddr_render_self (h : x.ids = none) (hx : x.Valid T) (hpath : '@' ∉ x.path) (self : Nat × Nat)
    (gethostbyname : List Char → Option Nat) :
    buildIpAddr T self gethostbyname x.render =
      if x.host.length ≥ hostSize - 1 then none
      else (gethostbyname x.host).map fun addr => ⟨self.1, self.2, x.tail, x.host, addr, x.path⟩ := by
  rw [render_self h]
  exact buildIpAddr_self (at_free_tail hx hpath) (splitAt_tail hx.colon_free) self gethostbyname

/-- A separator in the path is taken for the one of the numbers: what is left is shorter than the path. -/
theorem path_lt_of_at_mem (h : x.ids = none) (hx : x.Valid T) (hpath : '@' ∈ x.path) {self : Nat × Nat}
    {gethostbyname : List Char → Option Nat} {r : IpAddr} (hr : buildIpAddr T self gethostbyname x.render = some r) :
    r.path.length < x.path.length := by
  obtain ⟨front, rest, hsplit, hfront⟩ := eq_append_cons_of_mem hpath
  have htail : x.render = (x.host ++ ':' :: front) ++ '@' :: rest := by
    rw [render_self h, tail, hsplit]
    simp
  have hfree : '@' ∉ x.host ++ ':' :: front := by
    have hhost := hx.at_free
    simp [hhost, hfront]
  rcases buildIpAddr_eq_some hr with ⟨-, before, hat, hcolon⟩ | ⟨hat, -⟩
  · rw [htail, splitAt_append hfree] at hat
    cases hat
    have hlen : r.pHost.length = r.host.length + r.path.length + 1 := by
      conv_lhs => rw [(splitAt_eq_some hcolon).1]
      simp
      omega
    rw [hsplit]
    simp
    omega
  · exact absurd (by rw [htail]; simp) hat

theorem Readable.buildIpAddr (hx : x.Valid T) (hr : x.Readable T) (self : Nat × Nat)
    (gethostbyname : List Char → Option Nat) :
    buildIpAddr T self gethostbyname x.render = (gethostbyname x.host).map fun addr =>
      ⟨(x.ids.getD self).1, (x.ids.getD self).2, x.tail, x.host, addr, x.path⟩ := by
  have hlen : ¬ x.host.length ≥ hostSize - 1 := Nat.not_le.2 hr.host_lt
  cases h : x.ids with
  | none => rw [buildIpAddr_render_self h hx (hr.at_free h), if_neg hlen]; rfl
  | some ids =>
    have hle := hr.ids_le ids (by rw [h]; rfl)
    rw [buildIpAddr_render_ids h hx, if_neg hlen, (T.store_eq_iff _).2 hle.1, (T.store_eq_iff _).2 hle.2]
    rfl

/-- What comes back in full has a host that leaves a byte, numbers of `long`, and no separator in the path alone. -/
theorem readable_of_buildIpAddr (hx : x.Valid T)
    (h : Address.buildIpAddr T (0, 0) (fun _ => some 0) x.render =
      some ⟨(x.ids.getD (0, 0)).1, (x.ids.getD (0, 0)).2, x.tail, x.host, 0, x.path⟩) : x.Readable T := by
  have hat : x.ids = none → '@' ∉ x.path := fun hids hpath =>
    Nat.lt_irrefl _ (path_lt_of_at_mem hids hx hpath h)
  cases hids : x.ids with
  | none =>
    rw [buildIpAddr_render_self hids hx (hat hids)] at h
    split at h
    · cases h
    · rename_i hlen
      exact ⟨Nat.lt_of_not_le hlen, fun ids hmem => (by rw [hids] at hmem; cases hmem), hat⟩
  | some ids =>
    rw [buildIpAddr_render_ids hids hx, hids] at h
    split at h
    · cases h
    · rename_i hlen
      refine ⟨Nat.lt_of_not_le hlen, fun ids' hmem => ?_, fun hnone => (by rw [hids] at hnone; cases hnone)⟩
      grind [T.store_eq_iff]

end MountSpec

/-! ## The round trip -/

/-- **A string comes back as it should if and only if** it is the text of a specification that is read back, or of none
    and is not scanned. -/
theorem round_trip_iff (T : LongT) (s : List Char) :
    RoundTrip T s ↔
      (∀ x : MountSpec, x.Valid T → s = x.render → x.Readable T) ∧
      ((∀ x : MountSpec, x.Valid T → s ≠ x.render) → ¬ Scanned s) := by
  constructor
  · intro h
    constructor
    · rintro x hx rfl
      exact MountSpec.readable_of_buildIpAddr hx (h.accepts x hx rfl (0, 0) fun _ => some 0)
    · intro hnone hscan
      have hacc := hscan.accepted (T := T) (0, 0)
      rw [h.rejects hnone] at hacc
      cases hacc
  · rintro ⟨hread, hscan⟩
    constructor
    · rintro x hx rfl self gethostbyname
      exact (hread x hx rfl).buildIpAddr hx self gethostbyname
    · intro hnone self gethostbyname
      cases hr : buildIpAddr T self gethostbyname s with
      | none => rfl
      | some r =>
        rcases buildIpAddr_eq_some hr with ⟨hsc, -⟩ | ⟨hat, hcolon, hlen⟩
        · exact absurd hsc (hscan hnone)
        · obtain ⟨rfl, hfree⟩ := splitAt_eq_some hcolon
          have hhost : '@' ∉ r.host := fun hmem => hat (by simp [hmem])
          have hvalid : (⟨none, r.host, r.path⟩ : MountSpec).Valid T :=
            ⟨hhost, hfree, Nat.lt_of_lt_of_le hlen (Nat.sub_le _ _), by rintro ids ⟨⟩⟩
          exact absurd rfl (hnone _ hvalid)

/-- The path `a@b` of the host `h` is refused: its separator is the first one of the string. -/
theorem at_in_path_refused : ¬ RoundTrip ⟨32, by decide⟩ ['h', ':', 'a', '@', 'b'] := fun h => by
  have hvalid : (⟨none, ['h'], ['a', '@', 'b']⟩ : MountSpec).Valid ⟨32, by decide⟩ :=
    ⟨by decide, by decide, by decide, by rintro ids ⟨⟩⟩
  have haccepts := h.accepts _ hvalid rfl (0, 0) fun _ => some 0
  exact absurd haccepts (by decide)

example : (buildIpAddr ⟨32, by decide⟩ (0, 0) (fun _ => some 0) "1.2x@h:p".toList).isSome = true := by decide

end RtemsLibbsd.Nfs.Address

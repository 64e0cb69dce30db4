import Mathlib.Algebra.Group.Nat.Defs
import Mathlib.Data.Int.ModEq
import Mathlib.Data.Nat.Bitwise

/-!
# Readiness of a terminal

`rtemsbsd/rtems/rtems-kernel-termioskqueuepoll.c`: `termios_can_read` and `termios_can_write` compute from
the positions of the ring buffers of a terminal whether a read or a write would not block.

* `Ring` — the positions of a ring buffer; they lie in it, and it has more than one.
* `pending`, `free` — how many bytes a ring holds and takes, without a wrap-around at 32 bits.
* `ReadOk`, `WriteOk` — what is expected of a terminal.
* `contentSize_eq_iff` — when the difference of the positions modulo 2 ^ 32 and the size is right.
* `ready_iff` — for which positions the terminal is as expected, whatever it holds and however it is set.

Where `char` is signed, a control character from 128 on is never equal to a byte of the buffer.
-/

namespace RtemsLibbsd.Termios

/-! ## The terminal -/

/-- The positions of `struct rtems_termios_rawbuf`. -/
structure Ring where
  head : UInt32
  tail : UInt32
  size : UInt32
  one_lt : 1 < size.toNat
  head_lt : head.toNat < size.toNat
  tail_lt : tail.toNat < size.toNat

structure Cc where
  veof : UInt8
  veol : UInt8
  veol2 : UInt8
  vmin : UInt8

/-- The parts of `rtems_termios_tty` that are used; `polled` is the mode `TERMIOS_POLLED`. -/
structure Tty where
  polled : Bool
  cindex : ℕ
  ccount : ℕ
  rawIn : Ring
  inBuf : ℕ → UInt8
  rawOut : Ring
  icanon : Bool
  cc : Cc
  rcvwakeup : Bool

/-- The value of a `char` as an `int`; the parameter says whether `char` is signed. -/
def charValue (signed : Bool) (c : UInt8) : ℤ :=
  if signed = true ∧ 128 ≤ c.toNat then c.toNat - 256 else c.toNat

/-- `termios_is_eol`. -/
def isEol (signed : Bool) (cc : Cc) (c : UInt8) : Bool :=
  charValue signed c = 10 || charValue signed c = cc.veof.toNat ||
    charValue signed c = cc.veol.toNat || charValue signed c = cc.veol2.toNat

/-- The loop of `termios_can_read` over the bytes behind `i`. -/
def scan (signed : Bool) (tty : Tty) : ℕ → UInt32 → Bool
  | 0, _ => false
  | todo + 1, i =>
    isEol signed tty.cc (tty.inBuf ((i + 1) % tty.rawIn.size).toNat) ||
      scan signed tty todo ((i + 1) % tty.rawIn.size)

/-- The content of a ring as `termios_can_read` computes it. -/
def Ring.contentSize (r : Ring) : UInt32 := (r.tail - r.head) % r.size

/-- The variable `can` behind the two branches of `termios_can_read`. -/
def contentReady (signed : Bool) (tty : Tty) : Bool :=
  if tty.icanon then
    tty.rawIn.contentSize = tty.rawIn.size - 1 ||
      scan signed tty tty.rawIn.contentSize.toNat tty.rawIn.head
  else
    let vmin := if tty.cc.vmin = 0 then 1 else tty.cc.vmin
    vmin.toNat ≤ tty.rawIn.contentSize.toNat

/-- `termios_can_read`. -/
def canRead (signed : Bool) (tty : Tty) : Bool × Tty :=
  if tty.polled then (true, tty)
  else if tty.cindex ≠ tty.ccount then (true, tty)
  else if contentReady signed tty then (true, tty)
  else (false, { tty with rcvwakeup := false })

/-- `termios_can_write`. -/
def canWrite (tty : Tty) : Bool :=
  tty.polled || 0 < (tty.rawOut.tail - tty.rawOut.head - 1) % tty.rawOut.size

/-! ## What is expected -/

/-- The number of bytes at the positions behind the head up to the tail. -/
def Ring.pending (r : Ring) : ℕ := (r.tail.toNat + r.size.toNat - r.head.toNat) % r.size.toNat

/-- The number of bytes an output ring takes: its head is the position that is written last. -/
def Ring.free (r : Ring) : ℕ :=
  r.size.toNat - 1 - (r.head.toNat + r.size.toNat - r.tail.toNat) % r.size.toNat

def EndsLine (cc : Cc) (c : UInt8) : Prop := c = 10 ∨ c = cc.veof ∨ c = cc.veol ∨ c = cc.veol2

/-- One of the first `k` bytes behind the head ends a line. -/
def LineWithin (tty : Tty) (k : ℕ) : Prop :=
  ∃ j, 1 ≤ j ∧ j ≤ k ∧ EndsLine tty.cc (tty.inBuf ((tty.rawIn.head.toNat + j) % tty.rawIn.size.toNat))

/-- A read is reported exactly when there is a line or the ring is full, or in the other mode when there are
    enough bytes. -/
structure ReadOk (signed : Bool) (tty : Tty) : Prop where
  canonical : tty.icanon = true → ((canRead signed tty).1 = true ↔
    LineWithin tty tty.rawIn.pending ∨ tty.rawIn.pending = tty.rawIn.size.toNat - 1)
  counted : tty.icanon = false → ((canRead signed tty).1 = true ↔
    max 1 tty.cc.vmin.toNat ≤ tty.rawIn.pending)

/-- The terminal is writable exactly when a character fits into the ring. -/
def WriteOk (tty : Tty) : Prop := canWrite tty = true ↔ 1 ≤ tty.rawOut.free

/-- The expectations at the positions of two rings, for all contents and settings of a terminal that is
    driven by interrupts and has no cooked input. -/
def ReadyOk (signed : Bool) (rin rout : Ring) : Prop :=
  ∀ tty : Tty, tty.polled = false → tty.cindex = tty.ccount → tty.rawIn = rin → tty.rawOut = rout →
    ReadOk signed tty ∧ WriteOk tty

/-! ## The content of a ring -/

theorem contentSize_toNat (r : Ring) :
    r.contentSize.toNat = (2 ^ 32 + r.tail.toNat - r.head.toNat) % 2 ^ 32 % r.size.toNat := by
  have hhead := r.head.toNat_lt
  unfold Ring.contentSize
  rw [UInt32.toNat_mod, UInt32.toNat_sub]
  congr 2
  omega

theorem contentSize_of_le (r : Ring) (h : r.head.toNat ≤ r.tail.toNat) :
    r.contentSize.toNat = r.pending := by
  have htail := r.tail_lt
  have hsize := r.size.toNat_lt
  have hwrap : (2 ^ 32 + r.tail.toNat - r.head.toNat) % 2 ^ 32 = r.tail.toNat - r.head.toNat := by omega
  have hring : r.tail.toNat + r.size.toNat - r.head.toNat = r.tail.toNat - r.head.toNat + r.size.toNat := by
    omega
  rw [contentSize_toNat, hwrap, Ring.pending, hring, Nat.add_mod_right]

theorem contentSize_of_lt (r : Ring) (h : r.tail.toNat < r.head.toNat) :
    r.contentSize.toNat = (2 ^ 32 + r.tail.toNat - r.head.toNat) % r.size.toNat := by
  grind [contentSize_toNat]

/-- The computed content is right exactly when the head is not behind the tail or the size divides 2 ^ 32. -/
theorem contentSize_eq_iff (r : Ring) :
    r.contentSize.toNat = r.pending ↔ r.head.toNat ≤ r.tail.toNat ∨ r.size.toNat ∣ 2 ^ 32 := by
  by_cases h : r.head.toNat ≤ r.tail.toNat
  · exact iff_of_true (contentSize_of_le r h) (.inl h)
  · have hlt := r.head_lt
    have hsize := r.size.toNat_lt
    rw [contentSize_of_lt r (by omega), Ring.pending]
    -- Both are the same number modulo the size, but for the distance from the size to 2 ^ 32.
    have hshift : 2 ^ 32 + r.tail.toNat - r.head.toNat =
        (r.tail.toNat + r.size.toNat - r.head.toNat) + (2 ^ 32 - r.size.toNat) := by omega
    have hdvd : r.size.toNat ∣ 2 ^ 32 ↔ r.size.toNat ∣ 2 ^ 32 - r.size.toNat := by
      rw [Nat.dvd_sub_iff_left hsize.le dvd_rfl]
    rw [hshift, hdvd]
    simp only [h, false_or]
    constructor
    · intro hmod
      have hzero : (2 ^ 32 - r.size.toNat) ≡ 0 [MOD r.size.toNat] := by
        apply Nat.ModEq.add_left_cancel' (r.tail.toNat + r.size.toNat - r.head.toNat)
        exact hmod
      exact (Nat.modEq_zero_iff_dvd).1 hzero
    · rintro ⟨k, hk⟩
      rw [hk, Nat.add_mul_mod_self_left]

theorem pending_lt (r : Ring) : r.pending < r.size.toNat := by
  have hsize := r.one_lt
  exact Nat.mod_lt _ (by omega)

theorem contentSize_lt (r : Ring) : r.contentSize.toNat < r.size.toNat := by
  have hsize := r.one_lt
  rw [contentSize_toNat]
  exact Nat.mod_lt _ (by omega)

/-! ## The scan -/

theorem next_toNat (r : Ring) {i : UInt32} (hi : i.toNat < r.size.toNat) :
    ((i + 1) % r.size).toNat = (i.toNat + 1) % r.size.toNat := by
  have hsize := r.size.toNat_lt
  have hone : (1 : UInt32).toNat = 1 := rfl
  have hwrap : (i.toNat + 1) % 2 ^ 32 = i.toNat + 1 := Nat.mod_eq_of_lt (by omega)
  rw [UInt32.toNat_mod, UInt32.toNat_add, hone, hwrap]

theorem scan_iff (signed : Bool) (tty : Tty) (todo : ℕ) {i : UInt32}
    (hi : i.toNat < tty.rawIn.size.toNat) :
    scan signed tty todo i = true ↔ ∃ j, 1 ≤ j ∧ j ≤ todo ∧
      isEol signed tty.cc (tty.inBuf ((i.toNat + j) % tty.rawIn.size.toNat)) = true := by
  induction todo generalizing i with
  | zero =>
    refine iff_of_false (by simp [scan]) ?_
    rintro ⟨j, hone, hzero, _⟩
    omega
  | succ todo ih =>
    have hpos : 0 < tty.rawIn.size.toNat := by
      omega
    have hnext : ((i + 1) % tty.rawIn.size).toNat < tty.rawIn.size.toNat := by
      exact Nat.mod_lt _ hpos
    rw [scan, Bool.or_eq_true, ih hnext, next_toNat tty.rawIn hi]
    simp only [Nat.mod_add_mod]
    constructor
    · rintro (hfirst | ⟨j, hone, hle, heol⟩)
      · exact ⟨1, le_rfl, by omega, hfirst⟩
      · refine ⟨j + 1, by omega, by omega, ?_⟩
        rw [show i.toNat + (j + 1) = i.toNat + 1 + j by omega]
        exact heol
    · rintro ⟨j, hone, hle, heol⟩
      rcases Nat.eq_or_lt_of_le hone with rfl | hmore
      · exact .inl heol
      · refine .inr ⟨j - 1, by omega, by omega, ?_⟩
        rw [show i.toNat + 1 + (j - 1) = i.toNat + j by omega]
        exact heol

theorem isEol_unsigned (cc : Cc) (c : UInt8) : isEol false cc c = true ↔ EndsLine cc c := by
  have hten : ((10 : UInt8).toNat : ℤ) = 10 := rfl
  unfold isEol charValue EndsLine
  simp only [Bool.false_eq_true, false_and, if_false, Bool.or_eq_true, decide_eq_true_eq, ← hten,
    Nat.cast_inj, UInt8.toNat_inj, or_assoc]

theorem endsLine_of_isEol {signed : Bool} {cc : Cc} {c : UInt8} (h : isEol signed cc c = true) :
    EndsLine cc c := by
  by_cases hneg : signed = true ∧ 128 ≤ c.toNat
  · have hc := c.toNat_lt
    have hvalue : charValue signed c < 0 := by
      rw [charValue, if_pos hneg]
      omega
    simp only [isEol, Bool.or_eq_true, decide_eq_true_eq] at h
    omega
  · have hvalue : charValue signed c = charValue false c := by
      unfold charValue
      simp [if_neg hneg]
    rw [← isEol_unsigned]
    unfold isEol at h ⊢
    rwa [← hvalue]

/-! ## What a terminal reports -/

section

variable {signed : Bool} {tty : Tty}

theorem canRead_eq (hpolled : tty.polled = false) (hcooked : tty.cindex = tty.ccount) :
    (canRead signed tty).1 = contentReady signed tty := by
  unfold canRead
  rw [if_neg (by simp [hpolled]), if_neg (by simp [hcooked])]
  cases contentReady signed tty <;> rfl

theorem full_iff (r : Ring) : r.contentSize = r.size - 1 ↔ r.contentSize.toNat = r.size.toNat - 1 := by
  have hone : (1 : UInt32) ≤ r.size := by
    exact r.one_lt.le
  rw [← UInt32.toNat_inj, UInt32.toNat_sub_of_le _ _ hone]
  rfl

theorem contentReady_canonical (h : tty.icanon = true) :
    contentReady signed tty = true ↔
      tty.rawIn.contentSize.toNat = tty.rawIn.size.toNat - 1 ∨
      ∃ j, 1 ≤ j ∧ j ≤ tty.rawIn.contentSize.toNat ∧
        isEol signed tty.cc
          (tty.inBuf ((tty.rawIn.head.toNat + j) % tty.rawIn.size.toNat)) = true := by
  rw [contentReady, if_pos h, Bool.or_eq_true, decide_eq_true_eq, full_iff,
    scan_iff signed tty _ tty.rawIn.head_lt]

theorem vmin_toNat (v : UInt8) : (if v = 0 then (1 : UInt8) else v).toNat = max 1 v.toNat := by
  by_cases h : v = 0
  · subst h
    rfl
  · rw [if_neg h]
    have hpos : v.toNat ≠ 0 := by
      intro h0
      exact h (UInt8.toNat.inj h0)
    omega

theorem contentReady_counted (h : tty.icanon = false) :
    contentReady signed tty = true ↔ max 1 tty.cc.vmin.toNat ≤ tty.rawIn.contentSize.toNat := by
  rw [contentReady, if_neg (by simp [h]), decide_eq_true_eq, vmin_toNat]

end

/-! ## The input ring -/

/-- The computed content is right, and a signed `char` cannot hide the end of a line. -/
def ReadPositions (signed : Bool) (r : Ring) : Prop :=
  (r.head.toNat ≤ r.tail.toNat ∨ r.size.toNat ∣ 2 ^ 32) ∧
    (signed = false ∨ r.pending = 0 ∨ r.pending = r.size.toNat - 1)

/-- A terminal in canonical mode at two rings; all its control characters are the same. -/
def canonicalTty (rin rout : Ring) (inBuf : ℕ → UInt8) (eol : UInt8) : Tty :=
  ⟨false, 0, 0, rin, inBuf, rout, true, ⟨eol, eol, eol, eol⟩, true⟩

variable {rin rout : Ring}

theorem canonicalTty_read {signed : Bool} (h : ReadyOk signed rin rout)
    (inBuf : ℕ → UInt8) (eol : UInt8) :
    (rin.contentSize.toNat = rin.size.toNat - 1 ∨ ∃ j, 1 ≤ j ∧ j ≤ rin.contentSize.toNat ∧
        isEol signed ⟨eol, eol, eol, eol⟩ (inBuf ((rin.head.toNat + j) % rin.size.toNat)) = true) ↔
      LineWithin (canonicalTty rin rout inBuf eol) rin.pending ∨ rin.pending = rin.size.toNat - 1 := by
  have hread := (h (canonicalTty rin rout inBuf eol) rfl rfl rfl rfl).1.canonical rfl
  rw [canRead_eq rfl rfl, contentReady_canonical rfl] at hread
  exact hread

theorem readOk_of_positions {signed : Bool} {tty : Tty} (hpolled : tty.polled = false)
    (hcooked : tty.cindex = tty.ccount) (h : ReadPositions signed tty.rawIn) : ReadOk signed tty := by
  obtain ⟨hcontent, hsign⟩ := h
  have hsize := (contentSize_eq_iff tty.rawIn).2 hcontent
  constructor
  · intro hcanon
    rw [canRead_eq hpolled hcooked, contentReady_canonical hcanon, hsize, or_comm]
    rcases hsign with hunsigned | hempty | hfull
    · subst hunsigned
      simp only [isEol_unsigned]
      rfl
    · have hno : ∀ P : ℕ → Prop, ¬ ∃ j, 1 ≤ j ∧ j ≤ tty.rawIn.pending ∧ P j := by
        rintro P ⟨j, hj, hle, _⟩
        omega
      exact or_congr_left (iff_of_false (hno _) (hno _))
    · exact iff_of_true (.inr hfull) (.inr hfull)
  · intro hcounted
    rw [canRead_eq hpolled hcooked, contentReady_counted hcounted, hsize]

theorem offset_inj {h n j k : ℕ} (hj : j < n) (hk : k < n) (heq : (h + j) % n = (h + k) % n) : j = k := by
  have hmod : j ≡ k [MOD n] := Nat.ModEq.add_left_cancel' h heq
  exact Nat.ModEq.eq_of_lt_of_lt hmod hj hk

theorem content_of_readOk {signed : Bool} (h : ReadyOk signed rin rout) :
    rin.contentSize.toNat = rin.pending := by
  by_contra hne
  have hpending := pending_lt rin
  have hcontent := contentSize_lt rin
  obtain ⟨far, hcontentFar, hpendingFar, hfar⟩ : ∃ far, rin.contentSize.toNat ≤ far ∧ rin.pending ≤ far ∧
      (far = rin.contentSize.toNat ∨ far = rin.pending) :=
    ⟨_, le_max_left _ _, le_max_right _ _, max_choice _ _⟩
  obtain ⟨buf, hbuf⟩ : ∃ buf : ℕ → UInt8,
      buf = fun p => if p = (rin.head.toNat + far) % rin.size.toNat then 10 else 0 := ⟨_, rfl⟩
  have hat : ∀ j < rin.size.toNat, buf ((rin.head.toNat + j) % rin.size.toNat) = if j = far then 10 else 0 := by
    intro j hj
    rw [hbuf]
    by_cases hjfar : j = far
    · simp [hjfar]
    · simp only [hjfar, if_false]
      rw [if_neg]
      intro heq
      exact hjfar (offset_inj hj (by omega) heq)
  have hline : ∀ k < rin.size.toNat, LineWithin (canonicalTty rin rout buf 10) k ↔ 1 ≤ far ∧ far ≤ k := by
    intro k hk
    constructor
    · rintro ⟨j, hone, hle, hend⟩
      have hval := hat j (by omega)
      change EndsLine ⟨10, 10, 10, 10⟩ (buf ((rin.head.toNat + j) % rin.size.toNat)) at hend
      rw [hval] at hend
      by_cases hjfar : j = far
      · omega
      · rw [if_neg hjfar] at hend
        exact absurd hend (by unfold EndsLine; decide)
    · rintro ⟨hone, hle⟩
      refine ⟨far, hone, hle, .inl ?_⟩
      exact (hat far (by omega)).trans (if_pos rfl)
  have hread := canonicalTty_read h buf 10
  rw [hline _ hpending] at hread
  rcases Nat.lt_or_gt_of_ne hne with hless | hmore
  · -- The code stops before the line feed.
    rcases hread.2 (.inl ⟨by omega, by omega⟩) with hfull | ⟨j, hone, hle, heol⟩
    · omega
    · have hwithin : LineWithin (canonicalTty rin rout buf 10) rin.contentSize.toNat :=
        ⟨j, hone, hle, endsLine_of_isEol heol⟩
      have := (hline _ hcontent).1 hwithin
      omega
  · -- The code goes on behind the last byte, to the line feed.
    have hten : isEol signed ⟨10, 10, 10, 10⟩ 10 = true := by cases signed <;> decide
    grind

/-- Where `char` is signed, bytes from 128 on that end a line are not found. -/
theorem sign_of_readOk {signed : Bool} (h : ReadyOk signed rin rout) :
    signed = false ∨ rin.pending = 0 ∨ rin.pending = rin.size.toNat - 1 := by
  by_contra hno
  simp only [not_or, Bool.not_eq_false] at hno
  obtain ⟨rfl, hsome, hroom⟩ := hno
  have hcontent := content_of_readOk h
  rcases (canonicalTty_read h (fun _ => 128) 128).2
    (.inl ⟨1, le_rfl, Nat.pos_of_ne_zero hsome, .inr (.inl rfl)⟩) with hfull | ⟨_, _, _, heol⟩
  · omega
  · exact absurd heol (by decide)

/-! ## The output ring -/

/-- The head of the output ring is before the tail or the size divides 2 ^ 32; other rings are not full, and
    the head is not just below `2 ^ 32 % size` positions behind the tail. -/
def WritePositions (r : Ring) : Prop :=
  r.head.toNat < r.tail.toNat ∨ r.size.toNat ∣ 2 ^ 32 ∨
    (1 ≤ r.free ∧ r.head.toNat + 1 ≠ r.tail.toNat + 2 ^ 32 % r.size.toNat)

theorem room_toNat (r : Ring) :
    ((r.tail - r.head - 1) % r.size).toNat =
      (2 ^ 32 + r.tail.toNat - 1 - r.head.toNat) % 2 ^ 32 % r.size.toNat := by
  have hhead := r.head.toNat_lt
  have hone : (1 : UInt32).toNat = 1 := rfl
  rw [UInt32.toNat_mod, UInt32.toNat_sub, UInt32.toNat_sub, hone]
  congr 1
  omega

theorem canWrite_iff {tty : Tty} (hpolled : tty.polled = false) :
    canWrite tty = true ↔
      ¬ tty.rawOut.size.toNat ∣
        (2 ^ 32 + tty.rawOut.tail.toNat - 1 - tty.rawOut.head.toNat) % 2 ^ 32 := by
  have hzero : (0 : UInt32).toNat = 0 := rfl
  rw [canWrite, hpolled, Bool.false_or, decide_eq_true_eq, UInt32.lt_iff_toNat_lt, room_toNat, hzero,
    Nat.pos_iff_ne_zero, ne_eq, Nat.dvd_iff_mod_eq_zero]

theorem free_of_lt (r : Ring) (h : r.head.toNat < r.tail.toNat) :
    r.free = r.tail.toNat - r.head.toNat - 1 := by
  have htail := r.tail_lt
  unfold Ring.free
  rw [Nat.mod_eq_of_lt (by omega)]
  omega

theorem free_of_le (r : Ring) (h : r.tail.toNat ≤ r.head.toNat) :
    r.free = r.size.toNat - 1 - (r.head.toNat - r.tail.toNat) := by
  have hhead := r.head_lt
  have hring : r.head.toNat + r.size.toNat - r.tail.toNat = r.head.toNat - r.tail.toNat + r.size.toNat := by
    omega
  rw [Ring.free, hring, Nat.add_mod_right, Nat.mod_eq_of_lt (by omega)]

/-- Behind the tail, the wrapped difference is a multiple of the size exactly when the ring is full. -/
theorem dvd_iff_full {r : Ring} (h : r.tail.toNat ≤ r.head.toNat) :
    (r.size.toNat ∣ 2 ^ 32 + r.tail.toNat - 1 - r.head.toNat ↔ ¬ 1 ≤ r.free) ↔
      r.size.toNat ∣ 2 ^ 32 ∨ (1 ≤ r.free ∧ r.head.toNat + 1 ≠ r.tail.toNat + 2 ^ 32 % r.size.toNat) := by
  have hhead := r.head_lt
  have hsize := r.size.toNat_lt
  have hdvd : r.size.toNat ∣ 2 ^ 32 + r.tail.toNat - 1 - r.head.toNat ↔
      (r.head.toNat + 1 - r.tail.toNat) % r.size.toNat = 2 ^ 32 % r.size.toNat := by
    rw [show 2 ^ 32 + r.tail.toNat - 1 - r.head.toNat = 2 ^ 32 - (r.head.toNat + 1 - r.tail.toNat) by omega]
    exact (Nat.modEq_iff_dvd' (by omega)).symm
  have hfree := free_of_le r h
  rw [hdvd, Nat.dvd_iff_mod_eq_zero]
  by_cases hfull : r.head.toNat + 1 - r.tail.toNat = r.size.toNat
  · rw [hfull, Nat.mod_self]
    omega
  · rw [Nat.mod_eq_of_lt (by omega)]
    omega

theorem writeOk_iff {tty : Tty} (hpolled : tty.polled = false) :
    WriteOk tty ↔ WritePositions tty.rawOut := by
  have hhead := tty.rawOut.head_lt
  have htail := tty.rawOut.tail_lt
  have hsize := tty.rawOut.size.toNat_lt
  unfold WriteOk WritePositions
  rw [canWrite_iff hpolled]
  by_cases h : tty.rawOut.head.toNat < tty.rawOut.tail.toNat
  · have hwrap : (2 ^ 32 + tty.rawOut.tail.toNat - 1 - tty.rawOut.head.toNat) % 2 ^ 32 =
        tty.rawOut.tail.toNat - tty.rawOut.head.toNat - 1 := by omega
    rw [hwrap, free_of_lt _ h]
    refine iff_of_true ?_ (.inl h)
    constructor
    · intro hno
      by_contra hzero
      exact hno ⟨0, by omega⟩
    · intro hpos hdvd
      have := Nat.le_of_dvd hpos hdvd
      omega
  · have hwrap : (2 ^ 32 + tty.rawOut.tail.toNat - 1 - tty.rawOut.head.toNat) % 2 ^ 32 =
        2 ^ 32 + tty.rawOut.tail.toNat - 1 - tty.rawOut.head.toNat := by omega
    have hiff := dvd_iff_full (r := tty.rawOut) (by omega)
    simp only [h, false_or]
    rw [hwrap, ← hiff, not_iff_comm]
    exact Iff.comm

/-! ## Both rings -/

/-- Whatever the terminal holds and however it is set, it reports what is expected exactly for these
    positions. -/
theorem ready_iff (signed : Bool) (rin rout : Ring) :
    ReadyOk signed rin rout ↔ ReadPositions signed rin ∧ WritePositions rout := by
  constructor
  · intro h
    refine ⟨⟨?_, sign_of_readOk h⟩, ?_⟩
    · rw [← contentSize_eq_iff]
      exact content_of_readOk h
    · have hwrite := (h (canonicalTty rin rout (fun _ => 0) 0) rfl rfl rfl rfl).2
      exact (writeOk_iff rfl).1 hwrite
  · rintro ⟨hread, hwrite⟩ tty hpolled hcooked rfl rfl
    exact ⟨readOk_of_positions hpolled hcooked hread, (writeOk_iff hpolled).2 hwrite⟩

/-- A ring of six positions whose tail has wrapped around: one byte for the reader, no room for the writer. -/
def sixRing : Ring := ⟨5, 0, 6, by decide, by decide, by decide⟩

/-- One byte that ends no line is reported as a full ring, and the full output ring as one with room. -/
theorem sixRing_misreported :
    (canRead false (canonicalTty sixRing sixRing (fun _ => 0) 255)).1 = true ∧ sixRing.pending = 1 ∧
    canWrite (canonicalTty sixRing sixRing (fun _ => 0) 255) = true ∧ sixRing.free = 0 ∧
    ¬ ReadyOk false sixRing sixRing := by
  have hread : (canRead false (canonicalTty sixRing sixRing (fun _ => 0) 255)).1 = true := by decide
  have hpending : sixRing.pending = 1 := by decide
  have hfree : sixRing.free = 0 := by decide
  have hwrite : canWrite (canonicalTty sixRing sixRing (fun _ => 0) 255) = true := by decide
  refine ⟨hread, hpending, hwrite, hfree, ?_⟩
  intro h
  have hok := (h (canonicalTty sixRing sixRing (fun _ => 0) 255) rfl rfl rfl rfl).2.1 hwrite
  change 1 ≤ sixRing.free at hok
  omega

end RtemsLibbsd.Termios

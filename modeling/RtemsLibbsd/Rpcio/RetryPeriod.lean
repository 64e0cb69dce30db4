import RtemsLibbsd.Rpcio.Loop

/-!
# The retry period of a server

* **`server_cases`** — a step leaves the servers alone, or it is a reply that is averaged in, or a transmission.
* `WithinLimits` — every retry period is positive and not above `max_period`.
* `PeriodMeets` — the condition on a step: the 32 bits of the running average do not come to less than a tick, and
  the period that is doubled was not above one half of the cap.

Principal result: `retry_within_iff`.  The average is cut at `max_period`, the back-off is not: it doubles whatever is
below.
-/

namespace RtemsLibbsd.Rpcio

open RtemsLibbsd.Transition

abbrev maxPeriod (ticksPerSec : Nat) : Nat := RPCIOD_RETX_CAP_S * ticksPerSec

def State.serverOf (s : State) (p : Ptr) : Nat := (s.xact p).server.getD 0

def State.retryOf (s : State) (p : Ptr) : Nat := (s.server (s.serverOf p)).retryPeriod

def WithinLimits (ticksPerSec : Nat) (s : State) : Prop :=
  ∀ n, 0 < (s.server n).retryPeriod ∧ (s.server n).retryPeriod ≤ maxPeriod ticksPerSec

/-- The first transaction of the timeout queue is transmitted again. -/
def Retransmits (s : State) (p : Ptr) : Prop :=
  s.listHead.head? = some p ∧ (s.core p).age ≤ s.now ∧ 0 ≤ (s.core p).tolive ∧ (s.xact p).trip ≠ FIRST_ATTEMPT

/-- The sum that is averaged is not below four, and what is doubled is not above one half of the cap. -/
def PeriodMeets (ticksPerSec : Nat) (s : State) : Act → Prop
  | .rcv j port => ∀ p, sockRcv s (s.call j).xid port = .found p →
      4 ≤ (3 * s.retryOf p + 8 * max 1 ((s.now - (s.xact p).trip) % 2 ^ 32).toNat) % 2 ^ 32
  | .work true => ∀ p, Retransmits s p → s.retryOf p < maxPeriod ticksPerSec → 2 * s.retryOf p ≤ maxPeriod ticksPerSec
  | _ => True

/-- The server of a transaction that is transmitted has a positive retry period. -/
def RetryPositive (s : State) : Act → Prop
  | .work true => ∀ p ∈ s.listHead.head?, (s.xact p).age ≤ s.now → 0 ≤ (s.xact p).tolive → 0 < s.retryOf p
  | _ => True

instance (s : State) (a : Act) : Decidable (RetryPositive s a) := by
  unfold RetryPositive
  split <;> infer_instance

section Steps

variable {ticksPerSec : Nat} {s t : State}

theorem averageRetry_pos_iff (hticks : 0 < ticksPerSec) (rtry : Nat) (trip : Int) :
    0 < averageRetry ticksPerSec rtry trip ↔ 4 ≤ (3 * rtry + 8 * max 1 (trip % 2 ^ 32).toNat) % 2 ^ 32 := by
  grind [averageRetry]

theorem averageRetry_le (rtry : Nat) (trip : Int) : averageRetry ticksPerSec rtry trip ≤ maxPeriod ticksPerSec :=
  min_le_right _ _

theorem backOff_within (hle : ticksPerSec ≤ 10 ^ 6) {rtry : Nat} (hpos : 0 < rtry)
    (hcap : rtry ≤ maxPeriod ticksPerSec) :
    (0 < backOff ticksPerSec rtry ∧ backOff ticksPerSec rtry ≤ maxPeriod ticksPerSec) ↔
      (rtry < maxPeriod ticksPerSec → 2 * rtry ≤ maxPeriod ticksPerSec) := by
  have hmax : maxPeriod ticksPerSec = 3 * ticksPerSec := rfl
  refine ⟨fun h hlt => ?_, fun h => ⟨backOff_pos hle hpos, ?_⟩⟩
  · have hdouble := h.2
    unfold backOff at hdouble
    rw [if_pos hlt, Nat.mod_eq_of_lt (by omega)] at hdouble
    omega
  · grind [backOff]

def SetsRetry (s t : State) (n rtry : Nat) : Prop :=
  t.server = upd s.server n { s.server n with retryPeriod := rtry }

theorem SetsRetry.within_iff {n rtry : Nat} (h : SetsRetry s t n rtry) (hs : WithinLimits ticksPerSec s) :
    WithinLimits ticksPerSec t ↔ 0 < rtry ∧ rtry ≤ maxPeriod ticksPerSec := by
  unfold WithinLimits
  rw [h]
  constructor
  · intro hall
    have hn := hall n
    rw [upd_self] at hn
    exact hn
  · intro hr m
    rcases eq_or_ne m n with rfl | hne
    · rw [upd_self]
      exact hr
    · rw [upd_ne _ _ hne]
      exact hs m

theorem setsRetry_received (p : Ptr) :
    SetsRetry s (received ticksPerSec s p) (s.serverOf p)
      (averageRetry ticksPerSec (s.retryOf p) (s.now - (s.xact p).trip)) := by
  have hserver : ((advance { s with listHead := s.listHead.erase p } p).xact p).server = (s.xact p).server := by
    simp [advance]
  have htrip : ((advance { s with listHead := s.listHead.erase p } p).xact p).trip = (s.xact p).trip := by
    simp [advance]
  show upd s.server (((advance { s with listHead := s.listHead.erase p } p).xact p).server.getD 0) _ = _
  rw [hserver, htrip]
  rfl

theorem setsRetry_sent (p : Ptr) (rest : List Ptr) :
    SetsRetry s (sent ticksPerSec { s with listHead := rest } p) (s.serverOf p)
      (if (s.xact p).trip ≠ FIRST_ATTEMPT then backOff ticksPerSec (s.retryOf p) else s.retryOf p) := rfl

theorem RetryPositive.one_le_period {a : Act} (h : RetryPositive s a) (hq : Flow s) (hle : ticksPerSec ≤ 10 ^ 6) :
    a = .work true → ∀ p rest, s.listHead = p :: rest → (s.core p).age ≤ s.now → 0 ≤ (s.core p).tolive →
      1 ≤ @period ticksPerSec s p := by
  rintro rfl p rest hl hage hlive
  have hp : p ∈ s.flight := mem_flight_of_listHead (hl ▸ List.mem_cons_self)
  have hpos : 0 < s.retryOf p := h p (by rw [hl]; rfl) hage hlive
  exact Rpcio.one_le_period hle hpos (hq.served p (.inl hp)).2

/-- **What a step does to the retry periods**: nothing, and then it meets the condition, or a reply is averaged in, or
    a transmission may back off. -/
theorem server_cases {a : Act} (h : step ticksPerSec s a = some t) :
    (t.server = s.server ∧ PeriodMeets ticksPerSec s a) ∨
    (∃ j port p, a = .rcv j port ∧ sockRcv s (s.call j).xid port = .found p ∧ t = received ticksPerSec s p) ∨
    (∃ p rest, a = .work true ∧ s.listHead = p :: rest ∧ (s.core p).age ≤ s.now ∧ 0 ≤ (s.core p).tolive ∧
      t = sent ticksPerSec { s with listHead := rest } p) := by
  obtain ⟨-, hspec⟩ := step_spec h
  cases a with
  | create p header =>
    obtain ⟨-, rfl⟩ := hspec
    refine .inl ⟨?_, trivial⟩
    unfold rpcUdpXactCreate
    split
    · simp only
      split <;> rfl
    · rfl
  | destroy p =>
    obtain ⟨-, -, rfl⟩ := hspec
    exact .inl ⟨rfl, trivial⟩
  | sendBegin p srvr ms encodes =>
    obtain ⟨-, -, rfl⟩ := hspec
    exact .inl ⟨rfl, trivial⟩
  | sendQueue p =>
    obtain ⟨-, -, rfl⟩ := hspec
    refine .inl ⟨?_, trivial⟩
    unfold sendQueue
    split <;> rfl
  | sendEvent p =>
    obtain ⟨-, -, rfl⟩ := hspec
    exact .inl ⟨rfl, trivial⟩
  | kevent rx kill unow =>
    obtain ⟨-, -, rfl⟩ := hspec
    refine .inl ⟨?_, trivial⟩
    unfold kevent
    split <;> rfl
  | rcv j port =>
    obtain ⟨-, -, -, rfl⟩ := hspec
    unfold rcv
    cases hrcv : sockRcv s (s.call j).xid port with
    | drop => exact .inl ⟨rfl, fun p hp => by cases hrcv.symm.trans hp⟩
    | fault => exact .inl ⟨rfl, fun p hp => by cases hrcv.symm.trans hp⟩
    | found p => exact .inr (.inl ⟨j, port, p, rfl, hrcv, rfl⟩)
  | rcvEnd =>
    obtain ⟨tx, -, rfl⟩ := hspec
    exact .inl ⟨rfl, trivial⟩
  | tx =>
    obtain ⟨-, rfl⟩ := hspec
    refine .inl ⟨?_, trivial⟩
    unfold txStep
    split <;> rfl
  | work sends =>
    obtain ⟨-, rfl⟩ := hspec
    have hquiet : ∀ l, (∀ p, ¬ (sends = true ∧ Retransmits s p)) → work ticksPerSec s sends = l → l.server = s.server →
        ((work ticksPerSec s sends).server = s.server ∧ PeriodMeets ticksPerSec s (.work sends)) := by
      rintro l hno rfl hl
      refine ⟨hl, ?_⟩
      cases sends with
      | false => trivial
      | true => exact fun p hp => absurd ⟨rfl, hp⟩ (hno p)
    rcases work_cases ticksPerSec s sends with ⟨heq, hlate⟩ | ⟨p, rest, hl, hage, ⟨hdead, heq⟩ | ⟨hlive, rfl, heq⟩ |
      ⟨-, rfl, heq⟩⟩
    · refine .inl (hquiet _ ?_ heq rfl)
      rintro p ⟨-, hhead, hdue, -⟩
      grind [List.head?_eq_some_iff]
    · refine .inl (hquiet _ ?_ heq rfl)
      rintro q ⟨-, hhead, -, hlive, -⟩
      rw [hl] at hhead
      cases hhead
      omega
    · exact .inr (.inr ⟨p, rest, rfl, hl, hage, hlive, heq⟩)
    · exact .inl (hquiet _ (by rintro q ⟨⟨⟩, -⟩) heq rfl)
  | insert =>
    obtain ⟨-, rfl⟩ := hspec
    refine .inl ⟨?_, trivial⟩
    grind [insertStep, readjust]

theorem within_of_server_eq (h : t.server = s.server) (hs : WithinLimits ticksPerSec s) : WithinLimits ticksPerSec t :=
  fun n => by
    rw [h]
    exact hs n

/-- **One step keeps the limits exactly if it meets the condition.** -/
theorem within_step_iff (hticks : 0 < ticksPerSec) (hle : ticksPerSec ≤ 10 ^ 6) (hs : WithinLimits ticksPerSec s)
    {a : Act} (h : step ticksPerSec s a = some t) : WithinLimits ticksPerSec t ↔ PeriodMeets ticksPerSec s a := by
  rcases server_cases h with ⟨hsame, hmeets⟩ | ⟨j, port, p, rfl, hfound, rfl⟩ | ⟨p, rest, rfl, hl, hage, hlive, rfl⟩
  · exact iff_of_true (within_of_server_eq hsame hs) hmeets
  · rw [(setsRetry_received p).within_iff hs, averageRetry_pos_iff hticks]
    constructor
    · rintro ⟨hsum, -⟩ q hq
      cases hfound.symm.trans hq
      exact hsum
    · intro hmeets
      exact ⟨hmeets p hfound, averageRetry_le _ _⟩
  · have hhead : s.listHead.head? = some p := by rw [hl]; rfl
    rw [(setsRetry_sent p rest).within_iff hs]
    by_cases htrip : (s.xact p).trip ≠ FIRST_ATTEMPT
    · have hr : 0 < s.retryOf p ∧ s.retryOf p ≤ maxPeriod ticksPerSec := hs _
      rw [if_pos htrip, backOff_within hle hr.1 hr.2]
      constructor
      · rintro hback q ⟨hq, -⟩
        cases hhead.symm.trans hq
        exact hback
      · intro hmeets
        exact hmeets p ⟨hhead, hage, hlive, htrip⟩
    · rw [if_neg htrip]
      refine iff_of_true (hs _) ?_
      rintro q ⟨hq, -, -, hne⟩
      cases hhead.symm.trans hq
      exact absurd hne htrip

end Steps

/-- **The retry periods stay within the limits through a run if and only if** all of its steps meet the condition. -/
theorem retry_within_iff {ticksPerSec : Nat} (hticks : 0 < ticksPerSec) (hle : ticksPerSec ≤ 10 ^ 6)
    {xid : Option Nat} {port : Nat → Nat} {acts : List Act} {s : State}
    (hrun : run (step ticksPerSec) (init ticksPerSec xid port) acts = some s) :
    Throughout (step ticksPerSec) (WithinLimits ticksPerSec) (init ticksPerSec xid port) acts ↔
      StepsMeet (step ticksPerSec) (PeriodMeets ticksPerSec) (init ticksPerSec xid port) acts := by
  have hinit : WithinLimits ticksPerSec (init ticksPerSec xid port) := fun _ =>
    ⟨Nat.mul_pos (by decide) hticks, Nat.le_refl _⟩
  exact good_iff_stepsMeet (fun _ hs => hs)
    (fun s a t hs hmeets hstep => (within_step_iff hticks hle hs hstep).2 hmeets)
    (fun s a t hs hno hstep => mt (within_step_iff hticks hle hs hstep).1 hno) acts _ s hinit hrun

/-- A call with 100 ticks per second, answered after one tick, and a second one that is not answered. -/
def silentRun : List Act :=
  [.create 4096 true, .sendBegin 4096 0 10000 true, .sendQueue 4096, .sendEvent 4096,
   .kevent false false 5, .tx, .tx, .work true, .work true, .insert, .insert,
   .kevent true false 6, .rcv 0 2049, .rcvEnd, .work true, .insert,
   .sendBegin 4096 0 10000 true, .sendQueue 4096, .sendEvent 4096,
   .kevent false false 7, .tx, .tx, .work true, .work true, .insert, .insert]

theorem retry_within_iff_silentRun :
    ∃ s, run (step 100) (init 100 none fun _ => 2049) silentRun = some s ∧
      (Throughout (step 100) (WithinLimits 100) (init 100 none fun _ => 2049) silentRun ↔
        StepsMeet (step 100) (PeriodMeets 100) (init 100 none fun _ => 2049) silentRun) :=
  ⟨_, rfl, @retry_within_iff 100 (by decide) (by decide) none (fun _ => 2049) silentRun _ rfl⟩

/-- The average of the two is 227 ticks; the retransmission of the second call doubles it, and the cap is 300. -/
theorem backOff_exceeds :
    ∃ s, run (step 100) (init 100 none fun _ => 2049) (silentRun ++ [.kevent false false 300, .work true]) = some s ∧
      (s.server 0).retryPeriod = 454 ∧ ¬ WithinLimits 100 s := by
  refine ⟨_, rfl, by decide, fun h => ?_⟩
  exact absurd (h 0).2 (by decide)

end RtemsLibbsd.Rpcio

import Mathlib.Data.Option.Basic
import RtemsLibbsd.ReceiveRing
import RtemsLibbsd.Transition

/-!
# Reception of the MPC8xx FEC

`fec_rxDaemon` fills the receive ring with mbufs and then walks around it: a received frame is passed to the
stack and its descriptor gets a new mbuf; when the reception went wrong, or there is no new mbuf, the buffer
is used again.

* `RxState` — descriptors, mbuf pointers, the variables of the daemon, and the owner of every mbuf.
* `rxStep` — the hardware, the daemon (the call of `if_input` is a step of its own) and the stack.
* `RxGood` — what the ring and the frames passed up have to be like.
* `reception_iff` — a run is good exactly when no frame with an error bit is passed up, and the variable
  `m` is the mbuf of the descriptor whenever a frame is dropped.
* `dropped_frame_aliases` — the variable usually is the mbuf of another descriptor.
-/

namespace RtemsLibbsd.Mpc8xx

open Function RtemsLibbsd.Transition RtemsLibbsd.ReceiveRing

def ETHER_CRC_LEN : Nat := 4

structure RxStatus where
  empty : Bool
  wrap : Bool
  last : Bool
  long : Bool
  nonAligned : Bool
  short : Bool
  crcError : Bool
  overrun : Bool
  collision : Bool

def RxStatus.errored (st : RxStatus) : Bool :=
  st.long || st.nonAligned || st.short || st.crcError || st.overrun || st.collision

def RxStatus.correct (st : RxStatus) : Bool := st.last && !st.errored

/-- `(status & M8xx_BD_WRAP) | M8xx_BD_EMPTY`. -/
def armed (wrap : Bool) : RxStatus := ⟨true, wrap, false, false, false, false, false, false, false⟩

structure RxBd where
  status : RxStatus
  length : Nat
  buffer : Nat

/-- The place of the daemon: at the top of the loop, or in `if_input` with the new mbuf `n`. -/
inductive RxPc where
  | loop
  | input (status : RxStatus) (n : Nat)

structure RxState where
  rxBdBase : Nat → RxBd
  rxMbuf : Nat → Nat
  rxBdIndex : Nat
  m : Nat
  pc : RxPc
  owner : Nat → Owner
  hwIndex : Nat
  content : Nat → Option Nat
  /-- The frame of a descriptor that the daemon has not processed. -/
  frame : Nat → Option Nat
  /-- Status and length of all frames, in the order of their reception. -/
  received : List (RxStatus × Nat)
  /-- What was passed up: the frame in the mbuf and the length. -/
  delivered : List (Option Nat × Int)

/-- After the loop that allocates space for incoming packets: mbuf `k` is in descriptor `k`. -/
def rxStart (rxBdCount : Nat) : RxState where
  rxBdBase := fun k => ⟨armed (k + 1 = rxBdCount), 0, k⟩
  rxMbuf := fun k => k
  rxBdIndex := 0
  m := rxBdCount - 1
  pc := .loop
  owner := fun b => if b < rxBdCount then .driver else .free
  hwIndex := 0
  content := fun _ => none
  frame := fun _ => none
  received := []
  delivered := []

inductive RxAction where
  | receive (status : RxStatus) (length : Nat)
  /-- The daemon goes on; `alloc` is the mbuf that `m_getcl` returns. -/
  | daemon (alloc : Option Nat)
  | stackFree (b : Nat)

/-- The end of an iteration, with `n` as the mbuf of the descriptor. -/
def rearm (rxBdCount : Nat) (s : RxState) (status : RxStatus) (n : Nat) : RxState :=
  { s with
    rxMbuf := update s.rxMbuf s.rxBdIndex n
    rxBdBase := update s.rxBdBase s.rxBdIndex
      { s.rxBdBase s.rxBdIndex with status := armed status.wrap, buffer := n }
    frame := update s.frame s.rxBdIndex none
    pc := .loop
    rxBdIndex := if s.rxBdIndex + 1 = rxBdCount then 0 else s.rxBdIndex + 1 }

def passUp (s : RxState) (n : Nat) : RxState :=
  let m := s.rxMbuf s.rxBdIndex
  let bd := s.rxBdBase s.rxBdIndex
  { s with
    m := m
    owner := update (update s.owner n .driver) m .stack
    frame := update s.frame s.rxBdIndex none
    pc := .input bd.status n
    delivered := (s.content m, (bd.length : Int) - ETHER_CRC_LEN) :: s.delivered }

def rxStep (rxBdCount : Nat) (s : RxState) : RxAction → Option RxState
  | .receive status length =>
    let bd := s.rxBdBase s.hwIndex
    if bd.status.empty then
      let status := { status with empty := false, wrap := bd.status.wrap }
      some { s with
        rxBdBase := update s.rxBdBase s.hwIndex { bd with status := status, length := length }
        content := update s.content bd.buffer (some s.received.length)
        frame := update s.frame s.hwIndex (some s.received.length)
        received := s.received ++ [(status, length)]
        hwIndex := if bd.status.wrap then 0 else s.hwIndex + 1 }
    else none
  | .daemon alloc =>
    match s.pc with
    | .input status n => some (rearm rxBdCount s status n)
    | .loop =>
      let status := (s.rxBdBase s.rxBdIndex).status
      if status.empty then none
      else if status.last then
        match alloc with
        | some n => if s.owner n = .free then some (passUp s n) else none
        -- drop incoming frame if no new mbuf is available
        | none => some (rearm rxBdCount s status s.m)
      else some (rearm rxBdCount s status s.m)
  | .stackFree b =>
    if s.owner b = .stack then some { s with owner := update s.owner b .free } else none

/-! ## What has to hold -/

/-- The descriptor is not the one whose frame is being passed up. -/
def RxState.settled (s : RxState) (k : Nat) : Prop := s.pc = .loop ∨ k ≠ s.rxBdIndex

def Passed (received : List (RxStatus × Nat)) (d : Option Nat × Int) : Prop :=
  ∃ (f : Nat) (status : RxStatus) (length : Nat), d = (some f, (length : Int) - ETHER_CRC_LEN) ∧
    received[f]? = some (status, length) ∧ status.correct = true

/-- The ring and the frames passed up, in one state. -/
structure RxGood (rxBdCount : Nat) (s : RxState) : Prop where
  /-- Every descriptor refers to its own mbuf, which belongs to the driver. -/
  attached : Attached (fun k => k < rxBdCount ∧ s.settled k) s.rxMbuf s.owner
  buffer : ∀ k < rxBdCount, (s.rxBdBase k).buffer = s.rxMbuf k
  /-- A descriptor without a frame to process belongs to the hardware. -/
  givenBack : ∀ k < rxBdCount, s.settled k → s.frame k = none → (s.rxBdBase k).status.empty = true
  /-- What was passed up are correct frames with their lengths, -/
  frames : ∀ d ∈ s.delivered, Passed s.received d
  once : (s.delivered.map Prod.fst).Nodup

def RxSound (s : RxState) : RxAction → Prop
  | .daemon alloc =>
    s.pc = .loop → (s.rxBdBase s.rxBdIndex).status.empty = false →
      if (s.rxBdBase s.rxBdIndex).status.last = true ∧ alloc.isSome then
        (s.rxBdBase s.rxBdIndex).status.errored = false
      else s.m = s.rxMbuf s.rxBdIndex
  | _ => True

/-! ## The invariant -/

structure RxInv (rxBdCount : Nat) (s : RxState) : Prop where
  attached : Attached (fun k => k < rxBdCount ∧ s.settled k) s.rxMbuf s.owner
  buffer : ∀ k < rxBdCount, (s.rxBdBase k).buffer = s.rxMbuf k
  filled : ∀ k < rxBdCount, s.settled k → s.frame k = none → (s.rxBdBase k).status.empty = true
  complete : ∀ b, s.owner b = .driver →
    (∃ k < rxBdCount, s.settled k ∧ s.rxMbuf k = b) ∨ ∃ status, s.pc = .input status b
  handed : ∀ status n, s.pc = .input status n → s.owner n = .driver ∧
    (∀ k < rxBdCount, k ≠ s.rxBdIndex → s.rxMbuf k ≠ n) ∧ s.frame s.rxBdIndex = none ∧
      (s.rxBdBase s.rxBdIndex).status.empty = false ∧ status.wrap = decide (s.rxBdIndex + 1 = rxBdCount)
  ledger : ∃ fs, s.delivered.map Prod.fst = fs.map some ∧
    Ledger (· < rxBdCount) s.frame s.received.length fs
  pending : ∀ k f, k < rxBdCount → s.frame k = some f → s.content (s.rxMbuf k) = some f ∧
    s.received[f]? = some ((s.rxBdBase k).status, (s.rxBdBase k).length) ∧
      (s.rxBdBase k).status.empty = false
  frames : ∀ d ∈ s.delivered, Passed s.received d
  index : s.rxBdIndex < rxBdCount
  hwIndex : s.hwIndex < rxBdCount
  wrap : ∀ k < rxBdCount, (s.rxBdBase k).status.wrap = decide (k + 1 = rxBdCount)

section Steps

variable {rxBdCount : Nat} {s t : RxState}

theorem rxInv_start (h : 0 < rxBdCount) : RxInv rxBdCount (rxStart rxBdCount) where
  attached := ⟨fun k hk => if_pos hk.1, fun _ _ _ _ he => he⟩
  buffer := fun _ _ => rfl
  filled := fun _ _ _ _ => rfl
  complete := by
    intro b hb
    by_cases hlt : b < rxBdCount
    · exact .inl ⟨b, hlt, .inl rfl, rfl⟩
    · simp [rxStart, hlt] at hb
  handed := nofun
  ledger := ⟨[], rfl, Ledger.empty⟩
  pending := nofun
  frames := nofun
  index := h
  hwIndex := h
  wrap := fun _ _ => rfl

theorem RxInv.good (h : RxInv rxBdCount s) : RxGood rxBdCount s where
  attached := h.attached
  buffer := h.buffer
  givenBack := h.filled
  frames := h.frames
  once := by
    obtain ⟨fs, hfs, hledger⟩ := h.ledger
    rw [hfs]
    exact hledger.nodup.map (Option.some_injective Nat)

theorem received_append {f : Nat} {d e : RxStatus × Nat} (h : s.received[f]? = some d) :
    (s.received ++ [e])[f]? = some d := by
  obtain ⟨hlt, -⟩ := List.getElem?_eq_some_iff.mp h
  rw [List.getElem?_append_left hlt, h]

variable {status : RxStatus}

/-- **Reception**: the hardware fills a descriptor that is its own. -/
theorem RxInv.receive (h : RxInv rxBdCount s) {length : Nat}
    (hstep : rxStep rxBdCount s (.receive status length) = some t) : RxInv rxBdCount t := by
  simp only [rxStep] at hstep
  split at hstep
  · rename_i hempty
    cases hstep
    -- the descriptor in the hands of the daemon is not empty
    have hsettled : s.settled s.hwIndex := by
      cases hpc : s.pc with
      | loop => exact .inl hpc
      | input st n =>
        refine .inr fun he => ?_
        have hidx := (h.handed st n hpc).2.2.2.1
        rw [← he, hempty] at hidx
        cases hidx
    have hnext : (if (s.rxBdBase s.hwIndex).status.wrap then 0 else s.hwIndex + 1) < rxBdCount := by
      grind [h.wrap, h.hwIndex]
    refine {
      attached := h.attached
      buffer := fun k hk => ?_
      filled := fun k hk hs hf => ?_
      complete := h.complete
      handed := fun st n hpc => ?_
      ledger := ?_
      pending := fun k f hk hf => ?_
      frames := fun d hd => ?_
      index := h.index
      hwIndex := hnext
      wrap := fun k hk => ?_ }
    · grind [h.buffer]
    · grind [h.filled, RxState.settled]
    · grind [h.handed]
    · obtain ⟨fs, hfs, hledger⟩ := h.ledger
      grind [List.length_singleton, hledger.receive]
    · by_cases hkw : k = s.hwIndex
      · subst hkw
        simp only [update_self] at hf
        obtain rfl : s.received.length = f := Option.some.inj hf
        simp only [update_self]
        rw [h.buffer _ hk, update_self]
        exact ⟨rfl, List.getElem?_concat_length, trivial⟩
      · simp only [update_of_ne hkw] at hf ⊢
        obtain ⟨hcontent, hreceived, hfull⟩ := h.pending k f hk hf
        refine ⟨?_, received_append hreceived, hfull⟩
        rw [h.buffer _ h.hwIndex, update_of_ne, hcontent]
        -- the mbuf of a filled descriptor is not the one that the hardware writes to
        have hk' : s.settled k := by
          cases hpc : s.pc with
          | loop => exact .inl hpc
          | input st n =>
            refine .inr fun he => ?_
            have hidx := (h.handed st n hpc).2.2.1
            rw [← he, hf] at hidx
            cases hidx
        exact fun he => hkw (h.attached.inj k s.hwIndex ⟨hk, hk'⟩ ⟨h.hwIndex, hsettled⟩ he)
    · obtain ⟨f, st, len, rfl, hreceived, hcorrect⟩ := h.frames d hd
      exact ⟨f, st, len, rfl, received_append hreceived, hcorrect⟩
    · grind [h.wrap]
  · cases hstep

theorem RxInv.rearm (h : RxInv rxBdCount s) {n : Nat} (hown : s.owner n = .driver)
    (hne : ∀ k < rxBdCount, k ≠ s.rxBdIndex → s.rxMbuf k ≠ n)
    (hwrap : status.wrap = decide (s.rxBdIndex + 1 = rxBdCount))
    (hcomplete : ∀ b, s.owner b = .driver → b = n ∨ ∃ k < rxBdCount, k ≠ s.rxBdIndex ∧ s.rxMbuf k = b) :
    RxInv rxBdCount (rearm rxBdCount s status n) where
  attached := by
    refine h.attached.put hown (fun j hj hjk => hne j hj.1 hjk) fun j hj hjk => ?_
    exact ⟨hj.1, .inr hjk⟩
  buffer := by
    intro k hk
    by_cases hki : k = s.rxBdIndex
    · subst hki
      simp [Mpc8xx.rearm]
    · simp only [Mpc8xx.rearm, update_of_ne hki]
      exact h.buffer k hk
  filled := by
    intro k hk _ hf
    by_cases hki : k = s.rxBdIndex
    · subst hki
      simp [Mpc8xx.rearm, armed]
    · simp only [Mpc8xx.rearm, update_of_ne hki] at hf ⊢
      exact h.filled k hk (.inr hki) hf
  complete := by
    intro b hb
    rcases hcomplete b hb with rfl | ⟨k, hk, hki, rfl⟩
    · exact .inl ⟨s.rxBdIndex, h.index, .inl rfl, update_self _ _ _⟩
    · exact .inl ⟨k, hk, .inl rfl, update_of_ne hki _ _⟩
  handed := nofun
  ledger := by
    obtain ⟨fs, hfs, hledger⟩ := h.ledger
    exact ⟨fs, hfs, hledger.drop s.rxBdIndex⟩
  pending := by
    intro k f hk hf
    obtain ⟨hki, hf⟩ := update_none_sub s.frame s.rxBdIndex k f hf
    simp only [Mpc8xx.rearm, update_of_ne hki]
    exact h.pending k f hk hf
  frames := h.frames
  index := by
    have := h.index
    simp only [Mpc8xx.rearm]
    split <;> omega
  hwIndex := h.hwIndex
  wrap := by
    intro k hk
    by_cases hki : k = s.rxBdIndex
    · subst hki
      simp [Mpc8xx.rearm, armed, hwrap]
    · simp only [Mpc8xx.rearm, update_of_ne hki]
      exact h.wrap k hk

theorem RxInv.passUp (h : RxInv rxBdCount s) (hpc : s.pc = .loop) {n : Nat} (hfree : s.owner n = .free)
    (hempty : (s.rxBdBase s.rxBdIndex).status.empty = false)
    (hcorrect : (s.rxBdBase s.rxBdIndex).status.correct = true) : RxInv rxBdCount (passUp s n) := by
  have hall (k : Nat) (hk : k < rxBdCount) : k < rxBdCount ∧ s.settled k := ⟨hk, .inl hpc⟩
  have hn : ∀ k < rxBdCount, s.rxMbuf k ≠ n := fun k hk =>
    h.attached.ne_of_owner (by rw [hfree]; nofun) (hall k hk)
  have hm : ∀ k < rxBdCount, k ≠ s.rxBdIndex → s.rxMbuf k ≠ s.rxMbuf s.rxBdIndex := fun k hk hki he =>
    hki (h.attached.inj k s.rxBdIndex (hall k hk) (hall _ h.index) he)
  obtain ⟨f, hf⟩ : ∃ f, s.frame s.rxBdIndex = some f := by
    cases hf : s.frame s.rxBdIndex with
    | none => exact absurd ((h.filled _ h.index (.inl hpc) hf).symm.trans hempty) nofun
    | some f => exact ⟨f, rfl⟩
  obtain ⟨hcontent, hreceived, -⟩ := h.pending s.rxBdIndex f h.index hf
  have hnm : n ≠ s.rxMbuf s.rxBdIndex := (hn _ h.index).symm
  refine {
    attached := ?_
    buffer := h.buffer
    filled := fun k hk hs hfk => ?_
    complete := fun b hb => ?_
    handed := ?_
    ledger := ?_
    pending := fun k g hk hg => ?_
    frames := fun d hd => ?_
    index := h.index
    hwIndex := h.hwIndex
    wrap := h.wrap }
  · have hsettled : ∀ k, k < rxBdCount ∧ (Mpc8xx.passUp s n).settled k → k < rxBdCount ∧ k ≠ s.rxBdIndex :=
      fun k hk => ⟨hk.1, hk.2.resolve_left nofun⟩
    refine Attached.mono ?_ hsettled
    have hrest : Attached (fun k => k < rxBdCount ∧ k ≠ s.rxBdIndex) s.rxMbuf s.owner :=
      h.attached.mono fun k hk => hall k hk.1
    exact (hrest.setOwner fun k hk => hn k hk.1).setOwner fun k hk => hm k hk.1 hk.2
  · have hki : k ≠ s.rxBdIndex := hs.resolve_left nofun
    rw [show (Mpc8xx.passUp s n).frame = update s.frame s.rxBdIndex none from rfl,
      update_of_ne hki] at hfk
    exact h.filled k hk (.inl hpc) hfk
  · by_cases hbm : b = s.rxMbuf s.rxBdIndex
    · subst hbm
      simp [Mpc8xx.passUp] at hb
    · by_cases hbn : b = n
      · subst hbn
        exact .inr ⟨_, rfl⟩
      · have hb' : s.owner b = .driver := by
          simpa [Mpc8xx.passUp, update_of_ne hbm, update_of_ne hbn] using hb
        rcases h.complete b hb' with ⟨k, hk, -, hkb⟩ | ⟨st, hst⟩
        · refine .inl ⟨k, hk, .inr fun he => ?_, hkb⟩
          have hki : k = s.rxBdIndex := he
          exact hbm (by rw [← hkb, hki])
        · rw [hpc] at hst
          cases hst
  · rintro st n' ⟨⟩
    refine ⟨?_, fun k hk _ => hn k hk, update_self _ _ _, hempty, h.wrap _ h.index⟩
    simp [Mpc8xx.passUp, update_of_ne hnm]
  · obtain ⟨fs, hfs, hledger⟩ := h.ledger
    refine ⟨f :: fs, ?_, hledger.deliver h.index hf⟩
    simp [Mpc8xx.passUp, hcontent, hfs]
  · obtain ⟨-, hg⟩ := update_none_sub s.frame s.rxBdIndex k g hg
    exact h.pending k g hk hg
  · rcases List.mem_cons.mp hd with rfl | hd
    · exact ⟨f, _, _, by rw [hcontent], hreceived, hcorrect⟩
    · exact h.frames d hd

theorem RxInv.stackFree (h : RxInv rxBdCount s) {b : Nat} (hb : s.owner b = .stack) :
    RxInv rxBdCount { s with owner := update s.owner b .free } := by
  have hdriver {c : Nat} (hc : update s.owner b .free c = .driver) : s.owner c = .driver := by
    grind
  refine { h with
    attached := h.attached.setOwner fun k hk => h.attached.ne_of_owner (by rw [hb]; nofun) hk
    complete := fun c hc => h.complete c (hdriver hc)
    handed := fun st n hpc => ?_ }
  obtain ⟨hown, hrest⟩ := h.handed st n hpc
  grind

theorem RxInv.drop (h : RxInv rxBdCount s) (hpc : s.pc = .loop) (hm : s.m = s.rxMbuf s.rxBdIndex) :
    RxInv rxBdCount (Mpc8xx.rearm rxBdCount s (s.rxBdBase s.rxBdIndex).status s.m) := by
  have hall (k : Nat) (hk : k < rxBdCount) : k < rxBdCount ∧ s.settled k := ⟨hk, .inl hpc⟩
  grind [h.rearm, h.wrap, h.index, h.attached.own, h.attached.inj, h.complete]

theorem rxInv_step {a : RxAction} (h : RxInv rxBdCount s) (hok : RxSound s a)
    (hstep : rxStep rxBdCount s a = some t) : RxInv rxBdCount t := by
  cases a with
  | receive status length => exact h.receive hstep
  | stackFree b =>
    grind [rxStep, h.stackFree]
  | daemon alloc =>
    simp only [rxStep] at hstep
    split at hstep
    · rename_i st n hpc
      cases hstep
      obtain ⟨hown, hne, -, -, hwrap⟩ := h.handed st n hpc
      refine h.rearm hown hne hwrap fun b hb => ?_
      rcases h.complete b hb with ⟨k, hk, hs, hkb⟩ | ⟨st', hst⟩
      · exact .inr ⟨k, hk, hs.resolve_left (by rw [hpc]; nofun), hkb⟩
      · rw [hpc] at hst
        cases hst
        exact .inl rfl
    · rename_i hpc
      split at hstep
      · cases hstep
      · rename_i hempty
        have hempty : (s.rxBdBase s.rxBdIndex).status.empty = false := by simpa using hempty
        have hsound := hok hpc hempty
        split at hstep
        · rename_i hlast
          split at hstep
          · split at hstep
            · rename_i n hfree
              cases hstep
              rw [if_pos ⟨hlast, rfl⟩] at hsound
              exact h.passUp hpc hfree hempty (by simp [RxStatus.correct, hlast, hsound])
            · cases hstep
          · cases hstep
            rw [if_neg (by simp)] at hsound
            exact h.drop hpc hsound
        · rename_i hlast
          cases hstep
          rw [if_neg fun hc => hlast hc.1] at hsound
          exact h.drop hpc hsound

theorem not_good_rearm (h : RxInv rxBdCount s) (hpc : s.pc = .loop)
    (hm : s.m ≠ s.rxMbuf s.rxBdIndex) : ¬ RxGood rxBdCount (rearm rxBdCount s status s.m) := by
  intro hgood
  have hown : s.owner s.m = .driver := by
    have := hgood.attached.own s.rxBdIndex ⟨h.index, .inl rfl⟩
    simpa [rearm] using this
  -- the mbuf is in a descriptor, which is another one
  rcases h.complete s.m hown with ⟨k, hk, -, hkm⟩ | ⟨st, hst⟩
  · have hki : k ≠ s.rxBdIndex := by
      rintro rfl
      exact hm hkm.symm
    refine hki (hgood.attached.inj k s.rxBdIndex ⟨hk, .inl rfl⟩ ⟨h.index, .inl rfl⟩ ?_)
    simp only [rearm, update_self, update_of_ne hki]
    exact hkm
  · rw [hpc] at hst
    cases hst

theorem not_good_passUp (h : RxInv rxBdCount s) (hpc : s.pc = .loop) {n : Nat}
    (hempty : (s.rxBdBase s.rxBdIndex).status.empty = false)
    (herr : (s.rxBdBase s.rxBdIndex).status.errored = true) : ¬ RxGood rxBdCount (passUp s n) := by
  intro hgood
  obtain ⟨f, hf⟩ : ∃ f, s.frame s.rxBdIndex = some f := by
    cases hf : s.frame s.rxBdIndex with
    | none => exact absurd ((h.filled _ h.index (.inl hpc) hf).symm.trans hempty) nofun
    | some f => exact ⟨f, rfl⟩
  obtain ⟨hcontent, hreceived, -⟩ := h.pending s.rxBdIndex f h.index hf
  obtain ⟨g, st, len, hd, hg, hcorrect⟩ := hgood.frames _ List.mem_cons_self
  obtain rfl : f = g := by
    have hfst := congrArg Prod.fst hd
    exact Option.some.inj (hcontent.symm.trans hfst)
  have hst := Option.some.inj (hreceived.symm.trans hg)
  rw [← (Prod.mk.inj hst).1] at hcorrect
  simp [RxStatus.correct, herr] at hcorrect

theorem rxGood_needs {a : RxAction} (h : RxInv rxBdCount s) (hno : ¬ RxSound s a)
    (hstep : rxStep rxBdCount s a = some t) : ¬ RxGood rxBdCount t := by
  cases a with
  | receive status length => exact absurd trivial hno
  | stackFree b => exact absurd trivial hno
  | daemon alloc =>
    simp only [RxSound, Classical.not_imp] at hno
    obtain ⟨hpc, hempty, hno⟩ := hno
    simp only [rxStep, hpc] at hstep
    rw [if_neg (by simp [hempty])] at hstep
    split at hstep
    · rename_i hlast
      split at hstep
      · split at hstep
        · cases hstep
          rw [if_pos ⟨hlast, rfl⟩] at hno
          exact not_good_passUp h hpc hempty (by simpa using hno)
        · cases hstep
      · cases hstep
        rw [if_neg (by simp)] at hno
        exact not_good_rearm h hpc hno
    · rename_i hlast
      cases hstep
      rw [if_neg fun hc => hlast hc.1] at hno
      exact not_good_rearm h hpc hno

/-- **Reception**: for every run of the hardware, the daemon and the stack, the ring and the frames
passed up are as they have to be in every state exactly when every step meets the condition. -/
theorem reception_iff (hcount : 0 < rxBdCount) (as : List RxAction)
    (hrun : run (rxStep rxBdCount) (rxStart rxBdCount) as = some t) :
    Throughout (rxStep rxBdCount) (RxGood rxBdCount) (rxStart rxBdCount) as ↔
      StepsMeet (rxStep rxBdCount) RxSound (rxStart rxBdCount) as :=
  good_iff_stepsMeet (fun _ h => h.good) (fun _ _ _ h hok hs => rxInv_step h hok hs)
    (fun _ _ _ h hno hs => rxGood_needs h hno hs) as (rxStart rxBdCount) t (rxInv_start hcount) hrun

end Steps

/-! ## Runs on a ring of two descriptors -/

def oneBuffer : RxStatus := ⟨false, false, true, false, false, false, false, false, false⟩

/-- A frame is received and passed up, and mbuf 2 takes the place of its mbuf. -/
def goodFrame : List RxAction := [.receive oneBuffer 64, .daemon (some 2), .daemon none, .stackFree 0]

theorem reception_goodFrame : ∃ t, run (rxStep 2) (rxStart 2) goodFrame = some t ∧
    (Throughout (rxStep 2) (RxGood 2) (rxStart 2) goodFrame ↔
      StepsMeet (rxStep 2) RxSound (rxStart 2) goodFrame) ∧ t.delivered = [(some 0, 60)] :=
  ⟨_, rfl, reception_iff (by decide) goodFrame rfl, rfl⟩

/-- The first frame finds no new mbuf: both descriptors refer to mbuf 1 afterwards. -/
theorem dropped_frame_aliases : ¬ ∀ (as : List RxAction) (t : RxState),
    run (rxStep 2) (rxStart 2) as = some t → RxGood 2 t := by
  intro h
  have hgood := h [.receive oneBuffer 64, .daemon none] _ rfl
  have hsame := hgood.attached.inj 0 1 ⟨by decide, .inl rfl⟩ ⟨by decide, .inl rfl⟩ rfl
  cases hsame

end RtemsLibbsd.Mpc8xx

import Mathlib.Data.Option.Basic
import RtemsLibbsd.ReceiveRing
import RtemsLibbsd.Transition

/-!
# Reception of the MCF548x FEC

`fec_ether_input` walks around the receive ring: `fec_add_mbuf` attaches a new mbuf to a filled descriptor and
arms it, then the old mbuf is passed to the stack.  `fec_reset_rx_dma` arms all descriptors again.

* `RxState` — descriptors, mbuf pointers, the place of the daemon, and the owner of every mbuf.
* `rxStep` — the hardware, the daemon (the read of the length and the call of `if_input` are steps of their
  own), resets and the stack.
* `RxGood` — what the ring and the frames passed up have to be like.
* `ether_input_iff` — a run is good exactly when `fec_add_mbuf` always gets an mbuf with a cluster and all frames
  have the maximum length, or the length of the next frame in their descriptor: `fec_add_mbuf` overwrites the
  length that the frame length is read from, and leaves the descriptor as it is when it fails.
* `shortFrame_wrong_length` — a frame of 64 bytes is passed up with 1514 bytes.
-/

namespace RtemsLibbsd.Mcf548x

open Option Function RtemsLibbsd.Transition RtemsLibbsd.ReceiveRing

def ETHER_CRC_LEN : Nat := 4
def ETHER_MAX_LEN : Nat := 1518

/-- A receive buffer descriptor; the error bits of `statCtrl` are not looked at. -/
structure RxBd where
  empty : Bool
  wrap : Bool
  length : Nat
  dataPointer : Nat

/-- The place of the daemon: at the top of the loop, behind `fec_add_mbuf` or in `if_input` with the mbuf
    `n` that takes the place of the old one. -/
inductive RxPc where
  | loop
  | added (n : Nat)
  | input (n : Nat)
deriving DecidableEq

def RxPc.replacement : RxPc → Option Nat
  | .loop => none
  | .added n | .input n => some n

/-- What is passed up: the frame in the mbuf, the length, and whether the mbuf was the driver's. -/
structure Passed where
  frame : Option Nat
  len : Int
  live : Bool

structure RxState where
  bdRing : Nat → RxBd
  mbufs : Nat → Nat
  bdIndex : Nat
  pc : RxPc
  owner : Nat → Owner
  hwIndex : Nat
  content : Nat → Option Nat
  /-- The frame of a descriptor that the daemon has not processed. -/
  frame : Nat → Option Nat
  /-- The lengths of all frames, in the order of their reception. -/
  received : List Nat
  delivered : List Passed

/-- `EMPTY`, `INT` and `WRAP` of an armed descriptor, and its length. -/
def armed (bdCount bdIndex dataPointer : Nat) : RxBd :=
  ⟨true, bdIndex + 1 = bdCount, ETHER_MAX_LEN, dataPointer⟩

/-- `fec_init_rx_dma`: mbuf `k` is in descriptor `k`. -/
def fecInitRxDma (bdCount : Nat) : RxState where
  bdRing := fun k => armed bdCount k k
  mbufs := fun k => k
  bdIndex := 0
  pc := .loop
  owner := fun b => if b < bdCount then .driver else .free
  hwIndex := 0
  content := fun _ => none
  frame := fun _ => none
  received := []
  delivered := []

/-- `fec_add_mbuf` at the descriptor of the loop: `MGETHDR` gives `hdr`, `MCLGET` succeeds or not.  The
    result is the returned pointer; without a cluster it is the mbuf that was just freed. -/
def fecAddMbuf (bdCount : Nat) (s : RxState) (hdr : Option Nat) (cluster : Bool) : RxState × Option Nat :=
  match hdr with
  | none => (s, none)
  | some n =>
    if cluster then
      ({ s with
        owner := update s.owner n .driver
        bdRing := update s.bdRing s.bdIndex (armed bdCount s.bdIndex n) }, some n)
    else (s, some n)

def nextIndex (bdCount bdIndex : Nat) : Nat := if bdIndex + 1 < bdCount then bdIndex + 1 else 0

/-- An iteration of `fec_ether_input` up to the read of the length; a frame that is dropped ends it. -/
def fecEtherInput (bdCount : Nat) (s : RxState) (hdr : Option Nat) (cluster : Bool) : RxState :=
  let m := s.mbufs s.bdIndex
  let frame := update s.frame s.bdIndex none
  match fecAddMbuf bdCount s hdr cluster with
  | (s, some n) => { s with frame := frame, pc := .added n }
  | (s, none) =>
    { s with
      frame := frame
      mbufs := update s.mbufs s.bdIndex m
      bdIndex := nextIndex bdCount s.bdIndex }

/-- The length is read from the descriptor, which is armed again, and the old mbuf goes to `if_input`. -/
def fecPassUp (s : RxState) (n : Nat) : RxState :=
  let m := s.mbufs s.bdIndex
  { s with
    owner := update s.owner m .stack
    delivered := ⟨s.content m, ((s.bdRing s.bdIndex).length : Int) - ETHER_CRC_LEN,
      s.owner m = .driver⟩ :: s.delivered
    pc := .input n }

/-- `fec_reset_rx_dma` and the start of the DMA at the first descriptor. -/
def fecResetRxDma (bdCount : Nat) (s : RxState) : RxState :=
  { s with
    bdRing := fun k => { s.bdRing k with empty := true, wrap := k + 1 = bdCount, length := ETHER_MAX_LEN }
    frame := fun _ => none
    hwIndex := 0
    bdIndex := 0 }

inductive RxAction where
  | receive (length : Nat)
  | etherInput (hdr : Option Nat) (cluster : Bool)
  | passUp
  /-- The return of `if_input`. -/
  | inputDone
  /-- The daemon has left the loop and finds that a restart is requested. -/
  | reset
  | stackFree (b : Nat)

def rxStep (bdCount : Nat) (s : RxState) : RxAction → Option RxState
  | .receive length =>
    let bd := s.bdRing s.hwIndex
    if bd.empty then
      some { s with
        bdRing := update s.bdRing s.hwIndex { bd with empty := false, length := length }
        content := update s.content bd.dataPointer (some s.received.length)
        frame := update s.frame s.hwIndex (some s.received.length)
        received := s.received ++ [length]
        hwIndex := if bd.wrap then 0 else s.hwIndex + 1 }
    else none
  | .etherInput hdr cluster =>
    if s.pc = .loop ∧ (s.bdRing s.bdIndex).empty = false ∧ (∀ n ∈ hdr, s.owner n = .free) then
      some (fecEtherInput bdCount s hdr cluster)
    else none
  | .passUp =>
    match s.pc with
    | .added n => some (fecPassUp s n)
    | _ => none
  | .inputDone =>
    match s.pc with
    | .input n =>
      some { s with
        mbufs := update s.mbufs s.bdIndex n
        pc := .loop
        bdIndex := nextIndex bdCount s.bdIndex }
    | _ => none
  | .reset =>
    if s.pc = .loop ∧ (s.bdRing s.bdIndex).empty = true then some (fecResetRxDma bdCount s) else none
  | .stackFree b =>
    if s.owner b = .stack then some { s with owner := update s.owner b .free } else none

/-! ## What has to hold -/

/-- A live mbuf with a received frame was passed up, with the length of this frame without the CRC. -/
def PassedOk (received : List Nat) (d : Passed) : Prop :=
  ∃ (f length : Nat), d = ⟨some f, (length : Int) - ETHER_CRC_LEN, true⟩ ∧ received[f]? = some length

/-- The ring and the frames passed up, in one state. -/
structure RxGood (bdCount : Nat) (s : RxState) : Prop where
  /-- Every descriptor refers to its own mbuf, which belongs to the driver, -/
  attached : Attached (· < bdCount) (fun k => (s.bdRing k).dataPointer) s.owner
  mbufs : ∀ k < bdCount, s.pc = .loop ∨ k ≠ s.bdIndex → s.mbufs k = (s.bdRing k).dataPointer
  input : ∀ n, s.pc.replacement = some n → ∀ k < bdCount, (s.bdRing k).dataPointer ≠ s.mbufs s.bdIndex
  armed : ∀ k < bdCount, s.frame k = none → (s.bdRing k).empty = true
  frames : ∀ d ∈ s.delivered, PassedOk s.received d
  once : (s.delivered.map Passed.frame).Nodup

/-- The length of the frame that waits in descriptor `k`, or the one the descriptor was armed with. -/
def RxState.lengthAt (s : RxState) (k : Nat) : Option Nat :=
  match s.frame k with
  | some f => s.received[f]?
  | none => some ETHER_MAX_LEN

/-- `fec_add_mbuf` gets an mbuf with a cluster, and the frame that is passed up is as long as the descriptor
    it came in says by then. -/
def RxSound (s : RxState) : RxAction → Prop
  | .etherInput hdr cluster => hdr.isSome ∧ cluster = true
  | .passUp => ∀ f, s.content (s.mbufs s.bdIndex) = some f → s.received[f]? = s.lengthAt s.bdIndex
  | _ => True

/-! ## The invariant -/

/-- The frames passed up, with the one that the daemon is about to pass up. -/
def RxState.passing (s : RxState) : List (Option Nat) :=
  match s.pc with
  | .added _ => s.content (s.mbufs s.bdIndex) :: s.delivered.map Passed.frame
  | _ => s.delivered.map Passed.frame

structure RxInv (bdCount : Nat) (s : RxState) : Prop where
  attached : Attached (· < bdCount) (fun k => (s.bdRing k).dataPointer) s.owner
  mbufs : ∀ k < bdCount, s.pc = .loop ∨ k ≠ s.bdIndex → s.mbufs k = (s.bdRing k).dataPointer
  input : ∀ n, s.pc.replacement = some n → (s.bdRing s.bdIndex).dataPointer = n ∧
    ∀ k < bdCount, (s.bdRing k).dataPointer ≠ s.mbufs s.bdIndex
  added : ∀ n, s.pc = .added n → s.owner (s.mbufs s.bdIndex) = .driver
  armed : ∀ k < bdCount, s.frame k = none →
    (s.bdRing k).empty = true ∧ (s.bdRing k).length = ETHER_MAX_LEN
  ledger : ∃ fs, s.passing = fs.map some ∧
    Ledger (· < bdCount) s.frame s.received.length fs
  pending : ∀ k f, k < bdCount → s.frame k = some f → s.content (s.bdRing k).dataPointer = some f ∧
    s.received[f]? = some (s.bdRing k).length ∧ (s.bdRing k).empty = false
  frames : ∀ d ∈ s.delivered, PassedOk s.received d
  bdIndex : s.bdIndex < bdCount
  hwIndex : s.hwIndex < bdCount
  wrap : ∀ k < bdCount, (s.bdRing k).wrap = decide (k + 1 = bdCount)

section Steps

variable {bdCount : Nat} {s t : RxState}

theorem rxInv_init (h : 0 < bdCount) : RxInv bdCount (fecInitRxDma bdCount) where
  attached := ⟨fun _ hk => if_pos hk, fun _ _ _ _ he => he⟩
  mbufs := fun _ _ _ => rfl
  input := nofun
  added := nofun
  armed := fun _ _ _ => ⟨rfl, rfl⟩
  ledger := ⟨[], rfl, Ledger.empty⟩
  pending := nofun
  frames := nofun
  bdIndex := h
  hwIndex := h
  wrap := fun _ _ => rfl

theorem RxInv.good (h : RxInv bdCount s) : RxGood bdCount s where
  attached := h.attached
  mbufs := h.mbufs
  input := fun n hpc => (h.input n hpc).2
  armed := fun k hk hf => (h.armed k hk hf).1
  frames := h.frames
  once := by
    obtain ⟨fs, hfs, hledger⟩ := h.ledger
    have hnodup : s.passing.Nodup := by
      rw [hfs]
      exact hledger.nodup.map (some_injective Nat)
    unfold RxState.passing at hnodup
    split at hnodup
    · exact hnodup.of_cons
    · exact hnodup

theorem nextIndex_lt (h : s.bdIndex < bdCount) : nextIndex bdCount s.bdIndex < bdCount := by
  unfold nextIndex
  split <;> omega

theorem RxInv.frame_of_full (h : RxInv bdCount s) (hfull : (s.bdRing s.bdIndex).empty = false) :
    ∃ f, s.frame s.bdIndex = some f := by
  cases hf : s.frame s.bdIndex with
  | none => exact absurd ((h.armed _ h.bdIndex hf).1.symm.trans hfull) nofun
  | some f => exact ⟨f, rfl⟩

theorem RxInv.lengthAt (h : RxInv bdCount s) : s.lengthAt s.bdIndex = some (s.bdRing s.bdIndex).length := by
  unfold RxState.lengthAt
  cases hf : s.frame s.bdIndex with
  | none => exact congrArg some (h.armed _ h.bdIndex hf).2.symm
  | some f => exact (h.pending _ f h.bdIndex hf).2.1

variable {n : Nat}

/-- Behind `fec_add_mbuf` the old mbuf has a frame that was not passed up yet. -/
theorem RxInv.frame_of_added (h : RxInv bdCount s) (hpc : s.pc = .added n) :
    ∃ f, s.content (s.mbufs s.bdIndex) = some f := by
  obtain ⟨fs, hfs, -⟩ := h.ledger
  rw [RxState.passing, hpc] at hfs
  cases fs with
  | nil => cases hfs
  | cons f fs => exact ⟨f, (List.cons.inj hfs).1⟩

/-- **Reception**: the DMA fills a descriptor that is armed. -/
theorem RxInv.receive (h : RxInv bdCount s) {length : Nat}
    (hstep : rxStep bdCount s (.receive length) = some t) : RxInv bdCount t := by
  simp only [rxStep] at hstep
  split at hstep
  · cases hstep
    have hnext : (if (s.bdRing s.hwIndex).wrap then 0 else s.hwIndex + 1) < bdCount := by
      grind [h.hwIndex, h.wrap]
    have hdata (k : Nat) : (update s.bdRing s.hwIndex
        { s.bdRing s.hwIndex with empty := false, length := length } k).dataPointer =
          (s.bdRing k).dataPointer := by
      grind
    refine {
      attached := ⟨fun k hk => ?_, fun j k hj hk he => ?_⟩
      mbufs := fun k hk hs => ?_
      input := fun n hpc => ?_
      added := h.added
      armed := fun k hk hf => ?_
      ledger := ?_
      pending := fun k f hk hf => ?_
      frames := fun d hd => ?_
      bdIndex := h.bdIndex
      hwIndex := hnext
      wrap := fun k hk => ?_ }
    · simp only [hdata]
      exact h.attached.own k hk
    · simp only [hdata] at he
      exact h.attached.inj j k hj hk he
    · simp only [hdata]
      exact h.mbufs k hk hs
    · simp only [hdata]
      exact h.input n hpc
    · grind [h.armed]
    · obtain ⟨fs, hfs, hledger⟩ := h.ledger
      refine ⟨fs, ?_, by simpa using hledger.receive s.hwIndex⟩
      rw [← hfs]
      unfold RxState.passing
      cases hpc : s.pc with
      | added n =>
        have hne := (h.input n (by rw [hpc]; rfl)).2 s.hwIndex h.hwIndex
        simp [update_of_ne hne.symm]
      | _ => rfl
    · by_cases hkw : k = s.hwIndex
      · grind
      · grind [h.pending, h.attached.inj, h.hwIndex]
    · obtain ⟨f, len, rfl, hreceived⟩ := h.frames d hd
      obtain ⟨hlt, -⟩ := List.getElem?_eq_some_iff.mp hreceived
      exact ⟨f, len, rfl, by rw [List.getElem?_append_left hlt, hreceived]⟩
    · grind [h.wrap]
  · cases hstep

theorem RxInv.etherInput (h : RxInv bdCount s) (hpc : s.pc = .loop)
    (hfull : (s.bdRing s.bdIndex).empty = false) (hfree : s.owner n = .free) :
    RxInv bdCount (fecEtherInput bdCount s (some n) true) := by
  obtain ⟨f, hf⟩ := h.frame_of_full hfull
  obtain ⟨hcontent, -⟩ := h.pending s.bdIndex f h.bdIndex hf
  have hm : s.mbufs s.bdIndex = (s.bdRing s.bdIndex).dataPointer := h.mbufs _ h.bdIndex (.inl hpc)
  have hown : s.owner (s.mbufs s.bdIndex) = .driver := by
    rw [hm]
    exact h.attached.own _ h.bdIndex
  have hn : ∀ k < bdCount, (s.bdRing k).dataPointer ≠ n := fun k hk =>
    h.attached.ne_of_owner (by rw [hfree]; nofun) hk
  have hnm : s.mbufs s.bdIndex ≠ n := by
    rw [hm]
    exact hn _ h.bdIndex
  -- the ring with the new mbuf, as a function to mbufs
  have hslot : (fun k => ((fecEtherInput bdCount s (some n) true).bdRing k).dataPointer) =
      update (fun k => (s.bdRing k).dataPointer) s.bdIndex n := by
    funext k
    by_cases hki : k = s.bdIndex
    · subst hki
      simp [fecEtherInput, fecAddMbuf, Mcf548x.armed]
    · simp [fecEtherInput, fecAddMbuf, update_of_ne hki]
  have hring (k : Nat) (hki : k ≠ s.bdIndex) :
      (fecEtherInput bdCount s (some n) true).bdRing k = s.bdRing k := by
    simp [fecEtherInput, fecAddMbuf, update_of_ne hki]
  have hself : (fecEtherInput bdCount s (some n) true).bdRing s.bdIndex =
      Mcf548x.armed bdCount s.bdIndex n := by
    simp [fecEtherInput, fecAddMbuf]
  have hother : ∀ k, k < bdCount →
      update (fun k => (s.bdRing k).dataPointer) s.bdIndex n k ≠ s.mbufs s.bdIndex := by
    intro k hk
    grind [h.attached.inj, h.bdIndex]
  refine {
    attached := ?_
    mbufs := fun k hk hs => ?_
    input := ?_
    added := fun _ _ => ?_
    armed := fun k hk hfk => ?_
    ledger := ?_
    pending := fun k g hk hg => ?_
    frames := h.frames
    bdIndex := h.bdIndex
    hwIndex := h.hwIndex
    wrap := fun k hk => ?_ }
  · rw [hslot]
    exact (h.attached.setOwner hn).put (update_self _ _ _) (fun j hj _ => hn j hj) fun j hj _ => hj
  · have hki : k ≠ s.bdIndex := hs.resolve_left nofun
    rw [hring k hki]
    exact h.mbufs k hk (.inl hpc)
  · rintro n' ⟨⟩
    refine ⟨congrFun hslot s.bdIndex |>.trans (update_self _ _ _), fun k hk => ?_⟩
    rw [congrFun hslot k]
    exact hother k hk
  · show update s.owner n .driver (s.mbufs s.bdIndex) = .driver
    rw [update_of_ne hnm, hown]
  · by_cases hki : k = s.bdIndex
    · subst hki
      rw [hself]
      exact ⟨rfl, rfl⟩
    · rw [hring k hki]
      refine h.armed k hk ?_
      simpa [fecEtherInput, fecAddMbuf, update_of_ne hki] using hfk
  · obtain ⟨fs, hfs, hledger⟩ := h.ledger
    rw [RxState.passing, hpc] at hfs
    refine ⟨f :: fs, ?_, hledger.deliver h.bdIndex hf⟩
    simpa [RxState.passing, fecEtherInput, fecAddMbuf, hm, hcontent] using hfs
  · obtain ⟨hki, hg⟩ := update_none_sub s.frame s.bdIndex k g hg
    rw [hring k hki]
    exact h.pending k g hk hg
  · grind [h.wrap, Mcf548x.armed]

theorem RxInv.passUp (h : RxInv bdCount s) (hpc : s.pc = .added n)
    (hok : RxSound s .passUp) : RxInv bdCount (fecPassUp s n) := by
  obtain ⟨f, hf⟩ := h.frame_of_added hpc
  obtain ⟨hn, hother⟩ := h.input n (by rw [hpc]; rfl)
  refine { h with
    attached := h.attached.setOwner hother
    mbufs := fun k hk hs => h.mbufs k hk (.inr (hs.resolve_left nofun))
    input := fun n' hn' => ?_
    added := nofun
    ledger := ?_
    frames := fun d hd => ?_ }
  · cases hn'
    exact ⟨hn, hother⟩
  · obtain ⟨fs, hfs, hledger⟩ := h.ledger
    rw [RxState.passing, hpc] at hfs
    exact ⟨fs, hfs, hledger⟩
  · rcases List.mem_cons.mp hd with rfl | hd
    · exact ⟨f, (s.bdRing s.bdIndex).length, by simp [hf, h.added n hpc], (hok f hf).trans h.lengthAt⟩
    · exact h.frames d hd

theorem RxInv.inputDone (h : RxInv bdCount s) (hpc : s.pc = .input n) :
    RxInv bdCount { s with
      mbufs := update s.mbufs s.bdIndex n
      pc := .loop
      bdIndex := nextIndex bdCount s.bdIndex } := by
  refine { h with
    mbufs := fun k hk _ => ?_
    input := nofun
    added := nofun
    ledger := ?_
    bdIndex := nextIndex_lt h.bdIndex }
  · by_cases hki : k = s.bdIndex
    · subst hki
      simp only [update_self]
      exact (h.input n (by rw [hpc]; rfl)).1.symm
    · simp only [update_of_ne hki]
      exact h.mbufs k hk (.inr hki)
  · obtain ⟨fs, hfs, hledger⟩ := h.ledger
    rw [RxState.passing, hpc] at hfs
    exact ⟨fs, hfs, hledger⟩

theorem RxInv.reset (h : RxInv bdCount s) (hpc : s.pc = .loop) : RxInv bdCount (fecResetRxDma bdCount s) where
  attached := h.attached
  mbufs := fun k hk _ => h.mbufs k hk (.inl hpc)
  input := fun n hn => absurd ((congrArg RxPc.replacement hpc).symm.trans hn) nofun
  added := fun n hn => absurd (hpc.symm.trans hn) nofun
  armed := fun _ _ _ => ⟨rfl, rfl⟩
  ledger := by
    obtain ⟨fs, hfs, hledger⟩ := h.ledger
    refine ⟨fs, ?_, hledger.sub nofun⟩
    rw [← hfs, RxState.passing, RxState.passing, fecResetRxDma, hpc]
  pending := nofun
  frames := h.frames
  bdIndex := Nat.zero_lt_of_lt h.bdIndex
  hwIndex := Nat.zero_lt_of_lt h.bdIndex
  wrap := fun _ _ => rfl

theorem RxInv.stackFree (h : RxInv bdCount s) {b : Nat} (hb : s.owner b = .stack) :
    RxInv bdCount { s with owner := update s.owner b .free } :=
  { h with
    attached := h.attached.setOwner fun k hk => h.attached.ne_of_owner (by rw [hb]; nofun) hk
    added := fun n hn => by
      have hown := h.added n hn
      grind }

theorem rxInv_step {a : RxAction} (h : RxInv bdCount s) (hok : RxSound s a)
    (hstep : rxStep bdCount s a = some t) : RxInv bdCount t := by
  cases a with
  | receive length => exact h.receive hstep
  | etherInput hdr cluster =>
    simp only [rxStep] at hstep
    split at hstep
    · rename_i hguard
      obtain ⟨hpc, hfull, hfree⟩ := hguard
      cases hstep
      obtain ⟨hsome, rfl⟩ := hok
      obtain ⟨n, rfl⟩ := isSome_iff_exists.mp hsome
      exact h.etherInput hpc hfull (hfree n rfl)
    · cases hstep
  | passUp =>
    simp only [rxStep] at hstep
    split at hstep
    · cases hstep
      exact h.passUp ‹_› hok
    · cases hstep
  | inputDone =>
    grind [rxStep, h.inputDone]
  | reset =>
    grind [rxStep, h.reset]
  | stackFree b =>
    grind [rxStep, h.stackFree]

theorem not_good_shortage (h : RxInv bdCount s) (hfull : (s.bdRing s.bdIndex).empty = false)
    {hdr : Option Nat} {cluster : Bool} (hshort : hdr = none ∨ cluster = false) :
    ¬ RxGood bdCount (fecEtherInput bdCount s hdr cluster) := by
  intro hgood
  have hring : (fecEtherInput bdCount s hdr cluster).bdRing = s.bdRing ∧
      (fecEtherInput bdCount s hdr cluster).frame = update s.frame s.bdIndex none := by
    rcases hshort with rfl | rfl
    · exact ⟨rfl, rfl⟩
    · cases hdr <;> exact ⟨rfl, rfl⟩
  have harmed := hgood.armed s.bdIndex h.bdIndex (by simp [hring.2])
  rw [hring.1, hfull] at harmed
  cases harmed

theorem not_good_length (h : RxInv bdCount s) (hno : ¬ RxSound s .passUp) :
    ¬ RxGood bdCount (fecPassUp s n) := by
  intro hgood
  refine hno fun f hf => ?_
  obtain ⟨g, len, hd, hg⟩ := hgood.frames _ List.mem_cons_self
  simp only [Passed.mk.injEq, hf] at hd
  obtain rfl : f = g := some.inj hd.1
  have hlen : (s.bdRing s.bdIndex).length = len := by omega
  exact hg.trans (hlen ▸ h.lengthAt.symm)

theorem rxGood_needs {a : RxAction} (h : RxInv bdCount s) (hno : ¬ RxSound s a)
    (hstep : rxStep bdCount s a = some t) : ¬ RxGood bdCount t := by
  cases a with
  | etherInput hdr cluster =>
    simp only [rxStep] at hstep
    split at hstep
    · rename_i hguard
      cases hstep
      refine not_good_shortage h hguard.2.1 ?_
      by_contra hboth
      rw [not_or] at hboth
      exact hno ⟨isSome_iff_ne_none.mpr hboth.1, by simpa using hboth.2⟩
    · cases hstep
  | passUp =>
    simp only [rxStep] at hstep
    split at hstep
    · cases hstep
      exact not_good_length h hno
    · cases hstep
  | receive length => exact absurd trivial hno
  | inputDone => exact absurd trivial hno
  | reset => exact absurd trivial hno
  | stackFree b => exact absurd trivial hno

/-- **Reception**: for every run of the DMA, the daemon, resets and the stack, the ring and the frames
passed up are as they have to be in every state exactly when every step meets the condition. -/
theorem ether_input_iff (hcount : 0 < bdCount) (as : List RxAction)
    (hrun : run (rxStep bdCount) (fecInitRxDma bdCount) as = some t) :
    Throughout (rxStep bdCount) (RxGood bdCount) (fecInitRxDma bdCount) as ↔
      StepsMeet (rxStep bdCount) RxSound (fecInitRxDma bdCount) as :=
  good_iff_stepsMeet (fun _ h => h.good) (fun _ _ _ h hok hs => rxInv_step h hok hs)
    (fun _ _ _ h hno hs => rxGood_needs h hno hs) as (fecInitRxDma bdCount) t (rxInv_init hcount) hrun

end Steps

/-! ## Runs on a ring of two descriptors -/

/-- Two frames of the maximum length are passed up, and a reset follows. -/
def longestFrame : List RxAction :=
  [.receive 1518, .etherInput (some 2) true, .receive 1518, .passUp, .inputDone, .stackFree 0,
    .etherInput (some 0) true, .passUp, .inputDone, .reset]

theorem ether_input_longestFrame :
    ∃ t, run (rxStep 2) (fecInitRxDma 2) longestFrame = some t ∧ t.delivered.map Passed.len = [1514, 1514] ∧
      (Throughout (rxStep 2) (RxGood 2) (fecInitRxDma 2) longestFrame ↔
        StepsMeet (rxStep 2) RxSound (fecInitRxDma 2) longestFrame) :=
  ⟨_, rfl, rfl, ether_input_iff (by decide) longestFrame rfl⟩

/-- A frame of 64 bytes is passed up with 1514 bytes; a frame that finds no mbuf leaves its descriptor
without `EMPTY`. -/
theorem shortFrame_wrong_length :
    (¬ ∀ (as : List RxAction) (t : RxState), run (rxStep 2) (fecInitRxDma 2) as = some t →
      ∀ d ∈ t.delivered, PassedOk t.received d) ∧
    ¬ ∀ (as : List RxAction) (t : RxState), run (rxStep 2) (fecInitRxDma 2) as = some t →
      ∀ k < 2, t.frame k = none → (t.bdRing k).empty = true := by
  constructor
  · intro h
    obtain ⟨f, len, hd, hlen⟩ := h [.receive 64, .etherInput (some 2) true, .passUp] _ rfl _ List.mem_cons_self
    simp only [Passed.mk.injEq] at hd
    obtain rfl : 0 = f := some.inj hd.1
    obtain rfl : 64 = len := some.inj hlen
    exact absurd hd.2.1 (by decide)
  · intro h
    have hempty := h [.receive 64, .etherInput none true] _ rfl 0 (by decide) rfl
    cases hempty

end RtemsLibbsd.Mcf548x

import RtemsLibbsd.Transition
import RtemsLibbsd.BufferRing

/-!
# The receive ring of the MV643xx driver

`BSP_mve_swipe_rx`, `BSP_mve_stop_hw` and `mveth_init_rx_desc_ring` of `rtemsbsd/sys/dev/mve/if_mve.c` with
`mve_daemon`, `consume_rx_mbuf`, `mve_init`, `mve_stop` and `mve_ioctl` of `if_mve_nexus.c`.  The daemon and the
control calls have the lock of the driver, but `consume_rx_mbuf` gives it up while it passes a packet to the
network stack.  A control call does not give up the lock, so it is one step; so is one pass of the loop over the
ring up to the call of the stack, and the rest of the pass after it.  The hardware works at the same time.

What `m_getcl` returns is part of the actions: an mbuf that is in nobody's hands, or `NULL`.  A failed assertion
ends the run (the driver must not be compiled without them).

* `step` — one step of the daemon, of a control call or of the hardware.
* `Proper` — what has to hold at every moment: each receive mbuf is attached to one descriptor or was consumed once.
* `Undisturbed` — the rings are not cleaned while a packet is passed on; `proper_iff_undisturbed` is the result
  about runs.
-/

namespace RtemsLibbsd.Mve.Rx

open List Transition BufferRing

/-! ## The ring and the driver -/

/-- `struct mveth_rx_desc`: the user buffer, `RDESC_DMA_OWNED` and `RDESC_ERROR` of the status, and the count. -/
structure Desc where
  uBuf : Option Nat
  dmaOwned : Bool
  error : Bool
  byteCnt : Nat

/-- Where the daemon is: it waits for events, it is at a descriptor with the lock, or it passes the buffer of a
    descriptor to the stack without the lock and has the new one. -/
inductive Pc where
  | wait
  | swipe (d : Nat)
  | input (d newbuf : Nat)
  deriving DecidableEq

def Pc.locked : Pc → Bool
  | .swipe _ => true
  | _ => false

def Pc.passing : Pc → Bool
  | .input _ _ => true
  | _ => false

inductive Fate where
  | handedUp | freed

/-- The driver: `rx_ring` (`false` is the null pointer), the descriptors, `d_rx_t`, the flags of the interface,
    the daemon, the place of the hardware in the ring and whether it receives; and the ledger of the mbufs
    that were allocated and consumed. -/
structure Softc where
  rxRing : Bool
  desc : Nat → Desc
  dRxT : Nat
  up : Bool
  running : Bool
  pc : Pc
  hw : Nat
  receiving : Bool
  idrops : Nat
  given : List Nat
  consumed : List (Fate × Nat)

/-- `mve_attach`: the rings are not there before the first `BSP_mve_init_hw`. -/
def mveAttach : Softc where
  rxRing := false
  desc _ := ⟨none, false, false, 0⟩
  dRxT := 0
  up := false
  running := false
  pc := .wait
  hw := 0
  receiving := false
  idrops := 0
  given := []
  consumed := []

variable (n : Nat)

def Softc.set (k : Softc) (d : Nat) (r : Desc) : Softc := { k with desc := Function.update k.desc d r }

/-- The receive part of `BSP_mve_stop_hw`; `m_freem` of a null pointer does nothing. -/
def bspMveStopHw (k : Softc) : Softc :=
  if k.rxRing then
    { k with
      desc := fun d => { k.desc d with uBuf := none, dmaOwned := false, error := false }
      receiving := false
      consumed := k.consumed ++ ((List.range n).filterMap fun d => (k.desc d).uBuf).map fun m => (.freed, m) }
  else { k with receiving := false }

def mveStop (k : Softc) : Softc := { bspMveStopHw n k with running := false }

/-- `mveth_init_rx_desc_ring` with the results of `alloc_rxbuf`. -/
def mvethInitRxDescRing (k : Softc) (bufs : List Nat) : Softc :=
  { k with
    desc := fun d => ⟨bufs[d]?, true, false, 0⟩
    dRxT := 0
    hw := 0
    given := bufs ++ k.given }

/-- `mve_init` and `BSP_mve_init_hw`. -/
def mveInit (k : Softc) (bufs : List Nat) : Softc :=
  { mvethInitRxDescRing (bspMveStopHw n k) bufs with rxRing := true, receiving := true, running := true }

/-- The rest of a pass of `BSP_mve_swipe_rx` at `d`, with the buffer for the descriptor. -/
def rearm (k : Softc) (d newbuf : Nat) : Softc :=
  { k.set d ⟨some newbuf, true, false, (k.desc d).byteCnt⟩ with pc := .swipe ((d + 1) % n) }

/-- A pass of the loop of `BSP_mve_swipe_rx` at `d` up to the call of the stack, or the code behind the loop;
    `alloc` is the result of `alloc_rxbuf`. -/
def bspMveSwipeRx (k : Softc) (d : Nat) (alloc : Option Nat) : Option Softc :=
  let r := k.desc d
  if r.dmaOwned then some { k with dRxT := d, receiving := true, pc := .wait }
  else
    -- `assert(d->u_buf)`
    r.uBuf.bind fun m =>
      match (if r.error then none else alloc) with
      | none => some { rearm n k d m with idrops := k.idrops + 1 }
      | some newbuf =>
        -- `assert( d->byte_cnt > 0 )`
        if r.byteCnt = 0 then none
        else
          some { k with
            pc := .input d newbuf
            given := newbuf :: k.given
            consumed := k.consumed ++ [(.handedUp, m)] }

/-- `mve_daemon` when it has received events; `rxDone` is `MV643XX_ETH_IRQ_RX_DONE`. -/
def mveDaemon (k : Softc) (rxDone : Bool) : Softc :=
  if !k.up then mveStop n k
  else if !k.running then k
  else if rxDone then { k with pc := .swipe k.dRxT }
  else k

/-! ## Control calls and steps -/

/-- The commands of `mve_ioctl` that matter here: `ether_ioctl` sets `IFF_UP` and calls `mve_init` for
    `SIOCSIFADDR`; the other commands change filters or nothing. -/
inductive Cmd where
  | siocsifflags | siocaddmulti | siocsifaddr

/-- `mve_ioctl`; `bufs` are the results of `alloc_rxbuf` if the ring is initialised. -/
def mveIoctl (k : Softc) (cmd : Cmd) (bufs : List Nat) : Softc :=
  match cmd with
  | .siocsifflags =>
    if k.up then
      if !k.running then mveInit n k bufs else k
    else if k.running then mveStop n k
    else k
  | .siocaddmulti => k
  | .siocsifaddr => mveInit n { k with up := true } bufs

inductive Action where
  | daemon (rxDone : Bool)
  | swipe (alloc : Option Nat)
  | inputDone
  | ioctl (cmd : Cmd) (bufs : List Nat)
  | up (b : Bool)
  | receive (error : Bool) (byteCnt : Nat)

/-- One step.  A control call needs the lock; if an allocation fails while the ring is initialised, an assertion
    fails. -/
def step (k : Softc) : Action → Option Softc
  | .daemon rxDone => if k.pc = .wait then some (mveDaemon n k rxDone) else none
  | .swipe alloc =>
    match k.pc with
    | .swipe d => if ∀ b ∈ alloc, b ∉ k.given then bspMveSwipeRx n k d alloc else none
    | _ => none
  | .inputDone =>
    match k.pc with
    | .input d newbuf => some (rearm n k d newbuf)
    | _ => none
  | .ioctl cmd bufs =>
    if k.pc.locked = false ∧ bufs.length = n ∧ bufs.Nodup ∧ ∀ b ∈ bufs, b ∉ k.given then
      some (mveIoctl n k cmd bufs)
    else none
  | .up b => some { k with up := b }
  | .receive error byteCnt =>
    if k.receiving ∧ (k.desc k.hw).dmaOwned ∧ 0 < byteCnt then
      some { k.set k.hw ⟨(k.desc k.hw).uBuf, false, error, byteCnt⟩ with hw := (k.hw + 1) % n }
    else none

/-! ## What has to hold -/

/-- The buffer that a descriptor has or, when its packet is being passed on, will have. -/
def Softc.held (k : Softc) (d : Nat) : Option Nat :=
  match k.pc with
  | .input d' newbuf => if d = d' then some newbuf else (k.desc d).uBuf
  | _ => (k.desc d).uBuf

def Softc.live (k : Softc) : List Nat := (List.range n).filterMap k.held

/-- **What has to hold at every moment**: no buffer is attached to two descriptors, and each buffer that was
    allocated is attached or was consumed exactly once (handed up or freed). -/
def Proper (k : Softc) : Prop := Account k.given (k.consumed.map Prod.snd) (k.live n)

/-- The action calls `BSP_mve_stop_hw`. -/
def Softc.stops (k : Softc) : Action → Prop
  | .daemon _ => k.up = false
  | .ioctl .siocsifflags _ => k.up ≠ k.running
  | .ioctl .siocsifaddr _ => True
  | _ => False

instance Softc.decidableStops (k : Softc) : (a : Action) → Decidable (k.stops a)
  | .daemon _ => inferInstanceAs (Decidable (k.up = false))
  | .ioctl .siocsifflags _ => inferInstanceAs (Decidable (k.up ≠ k.running))
  | .ioctl .siocsifaddr _ => inferInstanceAs (Decidable True)
  | .ioctl .siocaddmulti _ | .swipe _ | .inputDone | .up _ | .receive _ _ => inferInstanceAs (Decidable False)

def Undisturbed (k : Softc) (a : Action) : Prop :=
  (step n k a).isSome = true → k.pc.passing = true → ¬ k.stops a

instance (k : Softc) (a : Action) : Decidable (Undisturbed n k a) :=
  inferInstanceAs (Decidable (_ → _ → _))

/-! ## The buffers of the descriptors -/

variable {n} {k : Softc}

theorem filterMap_range_split {d : Nat} (hd : d < n) (f : Nat → Option Nat) :
    ∃ xs ys, ∀ g : Nat → Option Nat, (∀ e ≠ d, g e = f e) →
      (List.range n).filterMap g = xs ++ ((g d).toList ++ ys) := by
  obtain ⟨pre, post, hsplit⟩ := append_of_mem (mem_range.mpr hd)
  have hnodup : (pre ++ d :: post).Nodup := hsplit ▸ nodup_range
  have hnot : d ∉ pre ++ post := (nodup_cons.mp (nodup_middle.mp hnodup)).1
  refine ⟨pre.filterMap f, post.filterMap f, fun g hg => ?_⟩
  have hsame : ∀ l : List Nat, d ∉ l → l.filterMap g = l.filterMap f := fun l hl =>
    filterMap_congr fun e he => hg e fun hed => hl (hed ▸ he)
  rw [hsplit, filterMap_append, hsame pre fun h => hnot (mem_append_left _ h), filterMap_cons,
    hsame post fun h => hnot (mem_append_right _ h)]
  cases g d <;> rfl

theorem filterMap_range_getElem? (l : List Nat) : ((List.range l.length).filterMap fun d => l[d]?) = l := by
  have hmap : ((List.range l.length).map fun d => l[d]?) = l.map some := by
    refine ext_getElem (by simp) fun d h _ => ?_
    simp
  have hid := congrArg (List.filterMap id) hmap
  simpa using hid

theorem held_of_not_input (h : ∀ d b, k.pc ≠ .input d b) : k.held = fun d => (k.desc d).uBuf := by
  unfold Softc.held
  split
  · rename_i hpc
    exact absurd hpc (h _ _)
  · rfl

variable {k' : Softc}

theorem Proper.congr (h : Proper n k) (hheld : k'.held = k.held) (hgiven : k'.given = k.given)
    (hconsumed : k'.consumed = k.consumed) : Proper n k' := by
  unfold Proper Softc.live
  rw [hheld, hgiven, hconsumed]
  exact h

/-! ## The invariant -/

structure Inv (n : Nat) (k : Softc) : Prop where
  proper : Proper n k
  dRxT : k.dRxT < n
  ring : k.rxRing = false → ∀ d, (k.desc d).uBuf = none
  running : k.running = true → k.rxRing = true
  swipe : ∀ d, k.pc = .swipe d → d < n ∧ k.running = true
  /-- While a packet is passed on, its descriptor still refers to the buffer, which is consumed. -/
  input : ∀ d newbuf, k.pc = .input d newbuf →
    d < n ∧ k.running = true ∧ ∃ m, (k.desc d).uBuf = some m ∧ m ∈ k.consumed.map Prod.snd

theorem inv_attach (hn : 0 < n) : Inv n mveAttach where
  proper := by
    have hlive : mveAttach.live n = [] := filterMap_eq_nil_iff.mpr fun _ _ => rfl
    unfold Proper
    rw [hlive]
    exact Account.empty
  dRxT := hn
  ring _ _ := rfl
  running h := Bool.noConfusion h
  swipe _ h := Pc.noConfusion h
  input _ _ h := Pc.noConfusion h

/-- `BSP_mve_stop_hw` when no packet is being passed on: every buffer is freed. -/
theorem Inv.stopHw (h : Inv n k) (hpc : k.pc = .wait) :
    Account (bspMveStopHw n k).given ((bspMveStopHw n k).consumed.map Prod.snd) [] ∧
      (bspMveStopHw n k).live n = [] ∧ ∀ d, ((bspMveStopHw n k).desc d).uBuf = none := by
  have hnot : ∀ d b, k.pc ≠ .input d b := fun d b he => Pc.noConfusion (hpc.symm.trans he)
  have hlive : k.live n = (List.range n).filterMap fun d => (k.desc d).uBuf := by
    rw [Softc.live, held_of_not_input hnot]
  have hproper := h.proper
  unfold Proper at hproper
  unfold bspMveStopHw
  by_cases hring : k.rxRing
  · rw [if_pos hring]
    refine ⟨?_, ?_, fun _ => rfl⟩
    · have hfree := hproper.freeAll (List.Perm.refl _)
      rw [hlive] at hfree
      simpa [map_append] using hfree
    · refine filterMap_eq_nil_iff.mpr fun d _ => ?_
      unfold Softc.held
      rw [hpc]
  · rw [if_neg hring]
    have hnone := h.ring (Bool.eq_false_iff.mpr hring)
    have hnil : k.live n = [] := by
      rw [hlive]
      exact filterMap_eq_nil_iff.mpr fun d _ => hnone d
    rw [hnil] at hproper
    exact ⟨hproper, hnil, hnone⟩

theorem Inv.stop (h : Inv n k) (hpc : k.pc = .wait) : Inv n (mveStop n k) := by
  obtain ⟨haccount, hlive, hnone⟩ := h.stopHw hpc
  have hpc' : (mveStop n k).pc = .wait := by
    unfold mveStop bspMveStopHw
    split <;> exact hpc
  refine ⟨?_, ?_, fun _ => hnone, fun h => Bool.noConfusion h, ?_, ?_⟩
  · unfold Proper
    rw [show (mveStop n k).live n = [] from hlive]
    exact haccount
  · unfold mveStop bspMveStopHw
    split <;> exact h.dRxT
  · intro d hd
    exact Pc.noConfusion (hpc'.symm.trans hd)
  · intro d b hd
    exact Pc.noConfusion (hpc'.symm.trans hd)

theorem Inv.init {bufs : List Nat} (h : Inv n k) (hn : 0 < n) (hpc : k.pc = .wait) (hlen : bufs.length = n)
    (hnodup : bufs.Nodup) (hnew : ∀ b ∈ bufs, b ∉ k.given) : Inv n (mveInit n k bufs) := by
  obtain ⟨haccount, -, -⟩ := h.stopHw hpc
  have hgiven : (bspMveStopHw n k).given = k.given := by
    unfold bspMveStopHw
    split <;> rfl
  have hpc' : (mveInit n k bufs).pc = .wait := by
    unfold mveInit mvethInitRxDescRing bspMveStopHw
    split <;> exact hpc
  have hlive : (mveInit n k bufs).live n = bufs := by
    have hheld : (mveInit n k bufs).held = fun d => bufs[d]? := by
      rw [held_of_not_input fun d b he => Pc.noConfusion (hpc'.symm.trans he)]
      rfl
    rw [Softc.live, hheld, ← hlen]
    exact filterMap_range_getElem? bufs
  refine ⟨?_, hn, fun h => Bool.noConfusion h, fun _ => rfl, ?_, ?_⟩
  · unfold Proper
    rw [hlive]
    exact haccount.giveAll hnodup fun b hb => hgiven ▸ hnew b hb
  · intro d hd
    exact Pc.noConfusion (hpc'.symm.trans hd)
  · intro d b hd
    exact Pc.noConfusion (hpc'.symm.trans hd)

theorem Inv.rearm {d newbuf : Nat} (h : Inv n k) (hd : d < n) (hrun : k.running = true)
    (hheld : ∀ e, k.held e = if e = d then some newbuf else (k.desc e).uBuf) : Inv n (rearm n k d newbuf) := by
  have hsame : (Rx.rearm n k d newbuf).held = k.held := by
    rw [held_of_not_input fun _ _ he => Pc.noConfusion he]
    funext e
    rw [hheld e]
    by_cases he : e = d
    · subst he
      simp [Rx.rearm, Softc.set]
    · simp [Rx.rearm, Softc.set, he]
  refine ⟨h.proper.congr hsame rfl rfl, h.dRxT, ?_, h.running, ?_, fun _ _ he => Pc.noConfusion he⟩
  · intro hring
    have := hring.symm.trans (h.running hrun)
    exact Bool.noConfusion this
  · rintro e ⟨⟩
    exact ⟨Nat.mod_lt _ (Nat.zero_lt_of_lt hd), hrun⟩

theorem Inv.consume {d m newbuf : Nat} (h : Inv n k) (hpc : k.pc = .swipe d) (hm : (k.desc d).uBuf = some m)
    (hnew : newbuf ∉ k.given) :
    Inv n { k with
      pc := .input d newbuf
      given := newbuf :: k.given
      consumed := k.consumed ++ [(.handedUp, m)] } := by
  obtain ⟨hd, hrun⟩ := h.swipe d hpc
  have hheld := held_of_not_input fun e b he => Pc.noConfusion (hpc.symm.trans he)
  obtain ⟨xs, ys, hsplit⟩ := filterMap_range_split hd k.held
  refine ⟨?_, h.dRxT, h.ring, h.running, fun e he => Pc.noConfusion he, ?_⟩
  · have hold := h.proper
    unfold Proper Softc.live at hold ⊢
    rw [hsplit k.held fun _ _ => rfl, hheld] at hold
    dsimp only at hold
    rw [hm] at hold
    rw [hsplit _ fun e he => by rw [hheld]; exact if_neg he]
    have hgive := (hold.give hnew : Account _ _ (xs ++ newbuf :: m :: ys))
    rw [append_cons] at hgive
    have hfree := hgive.free
    simpa [Softc.held] using hfree
  · rintro e b ⟨⟩
    exact ⟨hd, hrun, m, hm, by simp⟩

theorem Inv.receive {r : Desc} {hw : Nat} (h : Inv n k) (hr : r.uBuf = (k.desc k.hw).uBuf) :
    Inv n { k.set k.hw r with hw := hw } := by
  have hbuf : ∀ d, ((k.set k.hw r).desc d).uBuf = (k.desc d).uBuf := fun d => by
    unfold Softc.set
    grind
  refine ⟨h.proper.congr ?_ rfl rfl, h.dRxT, fun hring d => (hbuf d).trans (h.ring hring d), h.running,
    h.swipe, ?_⟩
  · grind [Softc.held, Softc.set]
  · intro d b he
    obtain ⟨hd, hrun, m, hm, hmem⟩ := h.input d b he
    exact ⟨hd, hrun, m, (hbuf d).trans hm, hmem⟩

theorem Inv.frame (h : Inv n k)
    (hpc : k.pc ≠ k'.pc → (∀ d b, k.pc ≠ .input d b) ∧ ∀ d b, k'.pc ≠ .input d b)
    (hswipe : ∀ d, k'.pc = .swipe d → d < n ∧ k.running = true) (hdRxT : k'.dRxT < n)
    (hdesc : k'.desc = k.desc) (hring : k'.rxRing = k.rxRing) (hrunning : k'.running = k.running)
    (hgiven : k'.given = k.given) (hconsumed : k'.consumed = k.consumed) : Inv n k' := by
  refine ⟨h.proper.congr ?_ hgiven hconsumed, hdRxT, ?_, ?_, ?_, ?_⟩
  · by_cases he : k.pc = k'.pc
    · unfold Softc.held
      rw [he, hdesc]
    · rw [held_of_not_input (hpc he).1, held_of_not_input (hpc he).2, hdesc]
  · rw [hring, hdesc]
    exact h.ring
  · rw [hrunning, hring]
    exact h.running
  · rw [hrunning]
    exact hswipe
  · intro d b he
    have hsame : k.pc = k'.pc := by_contra fun hne => (hpc hne).2 d b he
    rw [hrunning, hdesc, hconsumed]
    exact h.input d b (hsame.trans he)

theorem Inv.swipeRx {d : Nat} {alloc : Option Nat} (h : Inv n k) (hpc : k.pc = .swipe d)
    (hnew : ∀ b ∈ alloc, b ∉ k.given) (hs : bspMveSwipeRx n k d alloc = some k') : Inv n k' := by
  obtain ⟨hd, hrun⟩ := h.swipe d hpc
  unfold bspMveSwipeRx at hs
  dsimp only at hs
  split at hs
  · cases hs
    refine h.frame (fun _ => ⟨fun _ _ he => Pc.noConfusion (hpc.symm.trans he), fun _ _ he => Pc.noConfusion he⟩)
      (fun _ he => Pc.noConfusion he) hd rfl rfl rfl rfl rfl
  · obtain ⟨m, hm, hs⟩ := Option.bind_eq_some_iff.mp hs
    split at hs
    · cases hs
      have hheld : ∀ e, k.held e = if e = d then some m else (k.desc e).uBuf := fun e => by
        rw [held_of_not_input fun _ _ he => Pc.noConfusion (hpc.symm.trans he)]
        split
        · rename_i he
          exact he ▸ hm
        · rfl
      exact (h.rearm hd hrun hheld).frame (fun hne => absurd rfl hne) (h.rearm hd hrun hheld).swipe h.dRxT rfl rfl rfl
        rfl rfl
    · grind [h.consume]

theorem wait_of_unlocked (h : k.pc.locked = false) (hnot : ∀ d b, k.pc ≠ .input d b) : k.pc = .wait := by
  cases hpc : k.pc with
  | wait => rfl
  | swipe d =>
    rw [hpc] at h
    exact Bool.noConfusion h
  | input d b => exact absurd hpc (hnot d b)

theorem Inv.ioctl {cmd : Cmd} {bufs : List Nat} (h : Inv n k) (hn : 0 < n) (hlocked : k.pc.locked = false)
    (hlen : bufs.length = n) (hnodup : bufs.Nodup) (hnew : ∀ b ∈ bufs, b ∉ k.given)
    (hok : ∀ d b, k.pc = .input d b → ¬ k.stops (.ioctl cmd bufs)) : Inv n (mveIoctl n k cmd bufs) := by
  have hwait : k.stops (.ioctl cmd bufs) → k.pc = .wait := fun hstops =>
    wait_of_unlocked hlocked fun d b hpc => hok d b hpc hstops
  cases cmd with
  | siocaddmulti => exact h
  | siocsifaddr =>
    have hup : Inv n { k with up := true } :=
      h.frame (fun hne => absurd rfl hne) h.swipe h.dRxT rfl rfl rfl rfl rfl
    exact hup.init hn (hwait trivial) hlen hnodup hnew
  | siocsifflags =>
    unfold mveIoctl
    dsimp only
    split
    · rename_i hup
      split
      · rename_i hrun
        exact h.init hn (hwait fun he => by rw [← he, hup] at hrun; exact Bool.noConfusion hrun) hlen hnodup hnew
      · exact h
    · grind [h.stop, Softc.stops]

theorem inv_step {a : Action} (hn : 0 < n) (h : Inv n k) (hok : Undisturbed n k a)
    (hs : step n k a = some k') : Inv n k' := by
  have hok' : ∀ d b, k.pc = .input d b → ¬ k.stops a := fun d b hpc =>
    hok (Option.isSome_iff_exists.mpr ⟨k', hs⟩) (by rw [hpc]; rfl)
  cases a with
  | daemon rxDone =>
    obtain ⟨hpc, ⟨⟩⟩ := Option.ite_none_right_eq_some.mp hs
    unfold mveDaemon
    split
    · exact h.stop hpc
    · split
      · exact h
      · rename_i hrun
        split
        · have hnot : ∀ d b, k.pc ≠ .input d b := fun _ _ he => Pc.noConfusion (hpc.symm.trans he)
          refine h.frame (fun _ => ⟨hnot, fun _ _ he => Pc.noConfusion he⟩) ?_ h.dRxT rfl rfl rfl rfl rfl
          rintro d ⟨⟩
          exact ⟨h.dRxT, by simpa using hrun⟩
        · exact h
  | swipe alloc =>
    grind [step, h.swipeRx]
  | inputDone =>
    grind [step, h.input, h.rearm, Softc.held]
  | ioctl cmd bufs =>
    grind [h.ioctl, step]
  | up b =>
    cases hs
    exact h.frame (fun hne => absurd rfl hne) h.swipe h.dRxT rfl rfl rfl rfl rfl
  | receive error byteCnt =>
    obtain ⟨-, ⟨⟩⟩ := Option.ite_none_right_eq_some.mp hs
    exact h.receive rfl

/-! ## Runs -/

/-- The ring is cleaned while a packet is passed on: its buffer is freed although it was handed up. -/
theorem not_proper_of_disturbed {a : Action} (h : Inv n k) (hs : step n k a = some k') {d b : Nat}
    (hpc : k.pc = .input d b) (hstops : k.stops a) : ¬ Proper n k' := by
  obtain ⟨hd, hrun, m, hm, hmem⟩ := h.input d b hpc
  have hring := h.running hrun
  -- after `BSP_mve_stop_hw` the buffer was consumed twice
  have htwice : ∀ k'' : Softc, k''.consumed = (bspMveStopHw n k).consumed → ¬ Proper n k'' := by
    intro k'' hc hp
    have hle := hp.count_le_one m
    rw [hc, bspMveStopHw, if_pos hring, map_append, map_map, count_append] at hle
    have hfreed : m ∈ ((List.range n).filterMap fun d => (k.desc d).uBuf) :=
      mem_filterMap.mpr ⟨d, mem_range.mpr hd, hm⟩
    grind [Function.comp_def, map_id']
  cases a with
  | daemon rxDone =>
    obtain ⟨hwait, -⟩ := Option.ite_none_right_eq_some.mp hs
    exact Pc.noConfusion (hwait.symm.trans hpc)
  | ioctl cmd bufs =>
    obtain ⟨-, ⟨⟩⟩ := Option.ite_none_right_eq_some.mp hs
    cases cmd with
    | siocaddmulti => exact hstops.elim
    | siocsifaddr =>
      refine htwice _ ?_
      show (bspMveStopHw n { k with up := true }).consumed = _
      unfold bspMveStopHw
      split <;> rfl
    | siocsifflags =>
      have hup : k.up = false := Bool.eq_false_iff.mpr fun hup => hstops (hup.trans hrun.symm)
      refine htwice _ ?_
      unfold mveIoctl
      simp only [hup, hrun, if_true, Bool.false_eq_true, if_false]
      rfl
  | swipe alloc => exact hstops.elim
  | inputDone => exact hstops.elim
  | up b => exact hstops.elim
  | receive error byteCnt => exact hstops.elim

/-- **Each receive mbuf is attached once or was consumed once, in every state of every run, exactly if the rings are
    never cleaned while a packet is passed on.** -/
theorem proper_iff_undisturbed (hn : 0 < n) (as : List Action) :
    StepsMeet (step n) (fun k a => ∀ t ∈ step n k a, Proper n t) mveAttach as ↔
      StepsMeet (step n) (Undisturbed n) mveAttach as := by
  have hcall : ∀ k a, Inv n k → ((∀ t ∈ step n k a, Proper n t) ↔ Undisturbed n k a) := by
    intro k a h
    constructor
    · intro hp hsome hpass hstops
      obtain ⟨t, ht⟩ := Option.isSome_iff_exists.mp hsome
      cases hpc : k.pc with
      | wait => exact absurd (hpc ▸ hpass) (by decide)
      | swipe d => exact absurd (hpc ▸ hpass) (by simp [Pc.passing])
      | input d b => exact not_proper_of_disturbed h ht hpc hstops (hp t ht)
    · intro hok t ht
      exact (inv_step hn h hok ht).proper
  refine stepsMeet_congr_of_invariant hcall ?_ as mveAttach (inv_attach hn)
  intro k a t h hp ht
  exact inv_step hn h ((hcall k a h).mp hp) ht

/-- A ring with one descriptor: a packet is received, and the interface is shut down before the next one. -/
theorem proper_iff_undisturbed_onePacket :
    StepsMeet (step 1) (fun k a => ∀ t ∈ step 1 k a, Proper 1 t) mveAttach
      [.up true, .ioctl .siocsifflags [1], .receive false 64, .daemon true, .swipe (some 2), .inputDone, .swipe none,
        .up false, .ioctl .siocsifflags [3]] := by
  exact (proper_iff_undisturbed (by decide) _).mpr (by decide)

/-- The interface is shut down while the packet is passed on. -/
theorem packet_freed_after_input :
    ¬ StepsMeet (step 1) (fun k a => ∀ t ∈ step 1 k a, Proper 1 t) mveAttach
      [.up true, .ioctl .siocsifflags [1], .receive false 64, .daemon true, .swipe (some 2), .up false,
        .ioctl .siocsifflags [3]] := by
  intro h
  have hlast := ((((((h.2 _ rfl).2 _ rfl).2 _ rfl).2 _ rfl).2 _ rfl).2 _ rfl).1 _ rfl
  exact absurd (hlast.count_le_one 1) (by decide)

end RtemsLibbsd.Mve.Rx

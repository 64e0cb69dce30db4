import RtemsLibbsd.Ethernet.Atsam

/-!
# Runs of the ATSAM transmit ring

The slots of the ring from the tail on are a list: the frames that are out, those that are not, and the rest.
Each step of the driver changes the rest, moves a frame from the rest to the frames, or moves the first frame
to the rest; each step of the hardware marks the first frame that is not out.

* `reclaimLoop_view`, `hwRead_view` — the loops over the descriptors of one frame.
* `PcInv` — what the rest is while a frame is put into the ring.
* `Inv` — the invariant; one lemma for each step.
* `proper_iff_encapsulated` — the result about runs.
-/

namespace RtemsLibbsd.Atsam

open Option Function Transition BufferRing Ethernet
open List (append_assoc append_nil concat_eq_append cons_append eq_nil_or_concat
  exists_cons_of_ne_nil length_append length_cons length_map length_nil length_singleton map_nil
  mem_append mem_cons_of_mem mem_cons_self mem_map)

/-! ## The wrap bit -/

def Wraps (ring : Nat → Slot) : Prop := ∀ idx < txDescCount, (ring idx).wrap = txDescWrap idx

theorem txDescWrap_iff : ∀ idx < txDescCount, txDescWrap idx = true ↔ idx = txDescCount - 1 := by
  decide

theorem hwNext_eq (h : Wraps ring) (hidx : idx < txDescCount) :
    (if (ring idx).wrap then 0 else idx + 1) = next txDescCount idx := by
  have hiff := txDescWrap_iff idx hidx
  rw [h idx hidx]
  simp only [next, txDescCount] at hidx hiff ⊢
  grind

/-! ## Slots of frames -/

def plain (b : Mbuf) : Slot := ⟨b.data, b.len, false, false, false, false, none⟩

def lastSlot (id : Nat) (b : Mbuf) : Slot := ⟨b.data, b.len, false, false, true, false, some id⟩

/-- A descriptor of a frame that the hardware may not read yet. -/
def fillSlot (b : Mbuf) : Slot := ⟨b.data, b.len, true, false, false, false, none⟩

def Slot.buf (s : Slot) : Mbuf := ⟨s.addr, s.size⟩

def Free (s : Slot) : Prop := s.used = true ∧ s.mbuf = none

theorem readySlots_concat (id : Nat) (b : Mbuf) :
    ∀ xs : List Mbuf, readySlots id (xs ++ [b]) = xs.map plain ++ [lastSlot id b]
  | [] => rfl
  | [_] => rfl
  | x :: y :: xs => by
    have := readySlots_concat id b (y :: xs)
    simp only [cons_append, readySlots, List.map_cons] at this ⊢
    rw [this]
    rfl

theorem readySlots_cons (id : Nat) (b : Mbuf) {bs : List Mbuf} (h : bs ≠ []) :
    readySlots id (b :: bs) = plain b :: readySlots id bs := by
  cases bs with
  | nil => exact absurd rfl h
  | cons c bs => rfl

theorem length_readySlots (id : Nat) : ∀ bs : List Mbuf, (readySlots id bs).length = bs.length
  | [] => rfl
  | [_] => rfl
  | b :: c :: bs => by
    simp [readySlots_cons id b (List.cons_ne_nil c bs), length_readySlots id (c :: bs)]

theorem length_markFirst (l : List Slot) : (markFirst l).length = l.length := by
  cases l <;> rfl

theorem length_flight_cons (f : Frame) (out pend : List Frame) :
    (flight (f :: out) pend).length = f.bufs.length + (flight out pend).length := by
  simp only [flight, List.flatMap_cons, length_append, Frame.out, Frame.ready, length_markFirst,
    length_readySlots]
  omega

/-! ## The loops over the descriptors of a frame -/

variable {t : Nat} {ring : Nat → Slot}

/-- The slots from `t` on, without the flags that do not depend on the frames. -/
def slots (ring : Nat → Slot) (t : Nat) : List Slot := view txDescCount (fun idx => (ring idx).core) t

variable {xs ys : List Slot}

theorem slots_get {d : Slot} (h : slots ring t = xs ++ d :: ys) :
    (ring ((t + xs.length) % txDescCount)).core = d := view_get h

theorem slots_set {d : Slot} (h : slots ring t = xs ++ d :: ys) (s : Slot) :
    slots (update ring ((t + xs.length) % txDescCount) s) t = xs ++ s.core :: ys := by
  have hcore : (fun idx => (update ring ((t + xs.length) % txDescCount) s idx).core) =
      update (fun idx => (ring idx).core) ((t + xs.length) % txDescCount) s.core := by
    grind
  rw [slots, hcore]
  exact view_set h

theorem wraps_set (h : Wraps ring) {s : Slot} (hs : s.wrap = (ring idx).wrap) :
    Wraps (update ring idx s) := by
  intro i hi
  grind [Wraps]

def use (s : Slot) : Slot := { s with used := true }

theorem reclaimLoop_none (h : (ring idx).mbuf = none) (fuel : Nat) (err : Bool) :
    reclaimLoop ring (fuel + 1) idx err =
      reclaimLoop (update ring idx (use (ring idx))) fuel (next txDescCount idx)
        (err || (ring (next txDescCount idx)).err) := by
  rw [reclaimLoop]
  split
  · rfl
  · rename_i m hm
    rw [h] at hm
    cases hm

variable {c : Slot}

theorem reclaimLoop_view {m : Nat} (hm : c.mbuf = some m) :
    ∀ (xs pre : List Slot) (ring : Nat → Slot) (fuel : Nat) (err : Bool), (∀ s ∈ xs, s.mbuf = none) →
      xs.length < fuel → Wraps ring → slots ring t = pre ++ (xs ++ c :: ys) →
      ∃ ring' err', reclaimLoop ring fuel ((t + pre.length) % txDescCount) err =
          some (ring', (t + (pre.length + xs.length)) % txDescCount, m, err') ∧ Wraps ring' ∧
        slots ring' t = pre ++ (xs.map use ++ { c with used := true, mbuf := none } :: ys)
  | [], pre, ring, fuel + 1, err, _, _, hw, h => by
    obtain ⟨idx, hidx⟩ : ∃ idx, idx = (t + pre.length) % txDescCount := ⟨_, rfl⟩
    have hget : (ring idx).core = c := hidx ▸ slots_get h
    have hmbuf : (ring idx).mbuf = some m := by
      rw [← hm, ← hget]
      rfl
    have hset := slots_set h { ring idx with used := true, mbuf := none }
    rw [← hidx] at hset ⊢
    refine ⟨update ring idx { ring idx with used := true, mbuf := none }, err, ?_, wraps_set hw rfl, ?_⟩
    · simp only [reclaimLoop, hmbuf]
      simp [← hidx]
    · rw [hset, ← hget]
      rfl
  | x :: xs, pre, ring, fuel + 1, err, hx, hlen, hw, h => by
    obtain ⟨idx, hidx⟩ : ∃ idx, idx = (t + pre.length) % txDescCount := ⟨_, rfl⟩
    have hget : (ring idx).core = x := hidx ▸ slots_get h
    have hmbuf : (ring idx).mbuf = none := by
      rw [← hx x mem_cons_self, ← hget]
      rfl
    have hset := slots_set h (use (ring idx))
    rw [show (use (ring idx)).core = use x by rw [← hget]; rfl, List.append_cons, ← hidx] at hset
    obtain ⟨ring', err', hloop, hw', hslots⟩ := reclaimLoop_view hm xs (pre ++ [use x])
      (update ring idx (use (ring idx))) fuel (err || (ring (next txDescCount idx)).err)
      (fun s hs => hx s (mem_cons_of_mem _ hs)) (by simpa using hlen) (wraps_set hw rfl) hset
    refine ⟨ring', err', ?_, hw', ?_⟩
    · rw [length_append, length_singleton, ← next_slot, ← hidx] at hloop
      rw [← hidx, reclaimLoop_none hmbuf, hloop, length_cons, Nat.add_assoc, Nat.add_comm 1 xs.length]
    · rw [hslots, append_assoc]
      rfl

theorem hwRead_view (hw : Wraps ring) (hused : c.used = false) (hlast : c.last = true) :
    ∀ (xs pre : List Slot) (fuel : Nat), (∀ s ∈ xs, s.used = false ∧ s.last = false) → xs.length < fuel →
      slots ring t = pre ++ (xs ++ c :: ys) → hwRead ring fuel ((t + pre.length) % txDescCount) =
        some (xs.map Slot.buf ++ [c.buf], (t + (pre.length + xs.length + 1)) % txDescCount)
  | [], pre, fuel + 1, _, _, h => by
    obtain ⟨idx, hidx⟩ : ∃ idx, idx = (t + pre.length) % txDescCount := ⟨_, rfl⟩
    have hget : (ring idx).core = c := hidx ▸ slots_get h
    rw [← hidx]
    have hu : (ring idx).used = false := by
      rw [← hused, ← hget]
      rfl
    have hl : (ring idx).last = true := by
      rw [← hlast, ← hget]
      rfl
    simp only [hwRead, hu, hl, hwNext_eq hw (hidx ▸ Nat.mod_lt _ (by decide))]
    rw [hidx, next_slot, ← hidx, ← hget]
    rfl
  | x :: xs, pre, fuel + 1, hx, hlen, h => by
    obtain ⟨idx, hidx⟩ : ∃ idx, idx = (t + pre.length) % txDescCount := ⟨_, rfl⟩
    have hget : (ring idx).core = x := hidx ▸ slots_get h
    have hu : (ring idx).used = false := by
      rw [← (hx x mem_cons_self).1, ← hget]
      rfl
    have hl : (ring idx).last = false := by
      rw [← (hx x mem_cons_self).2, ← hget]
      rfl
    have hih := hwRead_view hw hused hlast xs (pre ++ [x]) fuel (fun s hs => hx s (mem_cons_of_mem _ hs))
      (by simpa using hlen) (by rw [h, append_assoc]; rfl)
    rw [length_append, length_singleton, ← next_slot, ← hidx] at hih
    grind [hwRead, hwNext_eq, Slot.buf, txDescCount, Slot.core]

/-! ## Whole frames -/

/-- From each slot that is not marked the hardware comes to the end of a frame. -/
def Whole (l : List Slot) : Prop :=
  ∀ pre s post, l = pre ++ s :: post → s.used = false →
    ∃ mid c post', s :: post = mid ++ c :: post' ∧ (∀ x ∈ mid, x.used = false ∧ x.last = false) ∧
      c.used = false ∧ c.last = true

theorem Whole.append {l l' : List Slot} (h : Whole l) (h' : Whole l') : Whole (l ++ l') := by
  intro pre s post he hs
  rcases List.append_eq_append_iff.mp he with ⟨a, rfl, rfl⟩ | ⟨a, rfl, ha⟩
  · exact h' a s post rfl hs
  · cases a with
    | nil => exact h' [] s post ha.symm hs
    | cons x a =>
      rw [cons_append, List.cons.injEq] at ha
      obtain ⟨rfl, rfl⟩ := ha
      obtain ⟨mid, c, post', hsplit, hmid, hc⟩ := h pre s a rfl hs
      grind

theorem whole_of_used {l : List Slot} (h : ∀ s ∈ l, s.used = true) : Whole l := by
  intro pre s post he hs
  rw [h s (he ▸ List.mem_append_right _ mem_cons_self)] at hs
  cases hs

theorem whole_chain (h : ∀ x ∈ xs, x.used = false ∧ x.last = false)
    (hused : c.used = false) (hlast : c.last = true) : Whole (xs ++ [c]) := by
  intro pre s post he hs
  rcases List.append_eq_append_iff.mp he with ⟨a, rfl, ha⟩ | ⟨a, rfl, ha⟩
  · cases a with
    | nil =>
      cases ha
      exact ⟨[], c, [], rfl, nofun, hused, hlast⟩
    | cons x a =>
      have := congrArg List.length ha
      simp at this
  · exact ⟨a, c, [], ha, fun x hx => h x (List.mem_append_right _ hx), hused, hlast⟩

theorem plain_spec (xs : List Mbuf) : ∀ x ∈ xs.map plain, x.used = false ∧ x.last = false := by
  intro x hx
  obtain ⟨b, -, rfl⟩ := mem_map.mp hx
  exact ⟨rfl, rfl⟩

theorem whole_readySlots (id : Nat) (bs : List Mbuf) : Whole (readySlots id bs) := by
  rcases eq_nil_or_concat bs with rfl | ⟨xs, b, rfl⟩
  · exact whole_of_used nofun
  · rw [concat_eq_append, readySlots_concat]
    exact whole_chain (plain_spec xs) rfl rfl

variable {f : Frame}

theorem out_concat (h : f.bufs ≠ []) :
    ∃ xs c, f.out = xs ++ [c] ∧ xs.length = f.bufs.length - 1 ∧ (∀ s ∈ xs, s.mbuf = none) ∧ c.mbuf = some f.id := by
  obtain ⟨xs, b, hxs⟩ := eq_nil_or_concat f.bufs |>.resolve_left h
  rw [concat_eq_append] at hxs
  rw [Frame.out, Frame.ready, hxs, readySlots_concat]
  cases xs with
  | nil => exact ⟨[], _, rfl, rfl, nofun, rfl⟩
  | cons x xs =>
    refine ⟨use (plain x) :: xs.map plain, lastSlot f.id b, rfl, by simp, ?_, rfl⟩
    intro s hs
    rcases List.mem_cons.mp hs with rfl | hs
    · rfl
    · obtain ⟨b, -, rfl⟩ := mem_map.mp hs
      rfl

theorem whole_out (f : Frame) : Whole f.out := by
  rcases eq_nil_or_concat f.bufs with hnil | ⟨xs, b, hxs⟩
  · rw [Frame.out, Frame.ready, hnil]
    exact whole_of_used nofun
  · rw [concat_eq_append] at hxs
    rw [Frame.out, Frame.ready, hxs, readySlots_concat]
    cases xs with
    | nil => exact whole_of_used (by simp [markFirst])
    | cons x xs =>
      have hfirst : Whole [use (plain x)] := whole_of_used (by simp [use])
      exact hfirst.append (whole_chain (plain_spec xs) rfl rfl)

theorem whole_flatMap {g : Frame → List Slot} (h : ∀ f, Whole (g f)) : ∀ fs : List Frame, Whole (fs.flatMap g)
  | [] => whole_of_used nofun
  | f :: fs => by
    exact (h f).append (whole_flatMap h fs)

theorem whole_flight (out pend : List Frame) : Whole (flight out pend) :=
  (whole_flatMap whole_out out).append (whole_flatMap (fun f => whole_readySlots f.id f.bufs) pend)

/-! ## The invariant -/

/-- What the slots behind the frames are: free ones, in front of them those of the frame that is put into the
    ring. -/
def PcInv (k : Softc) (t : Nat) (base rest : List Slot) : Prop :=
  match k.pc with
  | .idle => ∀ s ∈ rest, Free s
  | .fill m _ n idx bufs => m.bufs ≠ [] ∧ ∃ pre free, m.chain = pre ++ n ∧ bufs = (nonEmpty pre).length ∧
      idx = (t + (base ++ (nonEmpty pre).map fillSlot).length) % txDescCount ∧
      rest = (nonEmpty pre).map fillSlot ++ free ∧ free ≠ [] ∧ ∀ s ∈ free, Free s
  | .publish m _ _ idx status => ∃ ys y zs free, m.bufs = ys ++ y :: zs ∧ status = zs.isEmpty ∧
      idx = (t + (base ++ ys.map fillSlot).length) % txDescCount ∧
      k.txIdxHead = (t + (base.length + m.bufs.length)) % txDescCount ∧
      rest = ys.map fillSlot ++ { fillSlot y with mbuf := if zs = [] then some m.id else none } ::
        (readySlots m.id zs ++ free) ∧ free ≠ [] ∧ ∀ s ∈ free, Free s
  | .reclaim m _ => (∀ s ∈ rest, Free s) ∧ ∀ f ∈ m, f.bufs ≠ []
  | .defrag m => (∀ s ∈ rest, Free s) ∧ m.bufs ≠ []

structure Inv (k : Softc) (reclaimed out pend : List Frame) (rest : List Slot) : Prop
    extends Flight k reclaimed out pend rest where
  wraps : Wraps k.ring
  bufs : ∀ f ∈ out ++ pend, f.bufs ≠ []
  tail : k.tailNow < txDescCount
  hw : k.hw = (k.tailNow + (out.flatMap Frame.out).length) % txDescCount
  fault : k.fault = false
  pc : PcInv k k.tailNow (flight out pend) rest

theorem inv_setup : ∃ rest, Inv ifAtsamSetupTx [] [] [] rest := by
  refine ⟨view txDescCount (fun idx => (ifAtsamSetupTx.ring idx).core) 0,
    ⟨rfl, rfl, rfl, rfl, by decide, nofun, Account.empty⟩, fun _ _ => rfl, nofun, by decide, rfl, rfl, ?_⟩
  intro s hs
  obtain ⟨o, -, rfl⟩ := mem_map.mp hs
  exact ⟨rfl, rfl⟩

variable {k : Softc} {reclaimed out pend : List Frame} {rest : List Slot}

theorem Inv.whole (h : Inv k reclaimed out pend rest) : Whole (slots k.ring k.tailNow) := by
  have hfree : ∀ l : List Slot, (∀ s ∈ l, Free s) → Whole l := fun l hl => whole_of_used fun s hs => (hl s hs).1
  have hfill : ∀ xs : List Mbuf, Whole (xs.map fillSlot) := fun xs => whole_of_used fun s hs => by
    obtain ⟨b, -, rfl⟩ := mem_map.mp hs
    rfl
  have hrest : Whole rest := by
    have hpc := h.pc
    unfold PcInv at hpc
    split at hpc
    · exact hfree rest hpc
    · obtain ⟨-, pre, free, -, -, -, rfl, -, hall⟩ := hpc
      exact (hfill _).append (hfree free hall)
    · obtain ⟨ys, y, zs, free, -, -, -, -, rfl, -, hall⟩ := hpc
      refine (hfill ys).append (Whole.append (l := [_]) (whole_of_used (by simp [fillSlot])) ?_)
      exact (whole_readySlots _ zs).append (hfree free hall)
    · exact hfree rest hpc.1
    · exact hfree rest hpc.1
  rw [slots, h.ring]
  exact (whole_flight out pend).append hrest

variable {k' : Softc}

theorem Inv.move {rest' : List Slot} (h : Inv k reclaimed out pend rest)
    (htail : k'.tailNow = k.tailNow) (hhead : k'.headNow = k.headNow)
    (hring : slots k'.ring k.tailNow = flight out pend ++ rest') (hwraps : Wraps k'.ring)
    (haccepted : k'.accepted = k.accepted) (hsent : k'.sent = k.sent) (hhw : k'.hw = k.hw)
    (hfault : k'.fault = k.fault)
    (haccount : Account k'.given k'.freed ((out ++ pend).map Frame.id ++ k'.pc.frame))
    (hfreed : ∀ b ∈ k.freed, b ∈ k'.freed) (hpc : PcInv k' k.tailNow (flight out pend) rest') :
    Inv k' reclaimed out pend rest' where
  accepted := haccepted.trans h.accepted
  sent := hsent.trans h.sent
  ring := by
    rw [htail]
    exact hring
  head := by
    rw [hhead, htail]
    exact h.head
  size := h.size
  freed := fun m hm => hfreed _ (h.freed m hm)
  account := haccount
  wraps := hwraps
  bufs := h.bufs
  tail := htail ▸ h.tail
  hw := by
    rw [hhw, htail]
    exact h.hw
  fault := hfault.trans h.fault
  pc := by
    rw [htail]
    exact hpc

theorem Inv.length (h : Inv k reclaimed out pend rest) : (flight out pend).length + rest.length = txDescCount :=
  length_le_of_view h.ring

theorem Inv.rest_ne_nil (h : Inv k reclaimed out pend rest) : rest ≠ [] := by
  rintro rfl
  have := h.length
  have := h.size
  simp only [length_nil, txDescCount] at *
  omega

variable {retry : Bool} {m : Frame}

theorem Inv.enqueue (h : Inv k reclaimed out pend rest)
    (htail : k.tailNow = k.txIdxTail) (hhead : k.headNow = k.txIdxHead) (hfree : ∀ s ∈ rest, Free s)
    (hm : m.bufs ≠ []) (hring : k'.ring = k.ring) (hk : k'.txIdxTail = k.txIdxTail ∧ k'.txIdxHead = k.txIdxHead)
    (haccepted : k'.accepted = k.accepted) (hsent : k'.sent = k.sent) (hhw : k'.hw = k.hw)
    (hfault : k'.fault = k.fault)
    (haccount : Account k'.given k'.freed ((out ++ pend).map Frame.id ++ [m.id]))
    (hfreed : ∀ b ∈ k.freed, b ∈ k'.freed) : Inv (k'.enqueue m retry) reclaimed out pend rest := by
  refine h.move (hk.1.trans htail.symm) (hk.2.trans hhead.symm) ?_ ?_ haccepted hsent hhw hfault haccount hfreed ?_
  · rw [show (k'.enqueue m retry).ring = k.ring from hring]
    exact h.ring
  · rw [show (k'.enqueue m retry).ring = k.ring from hring]
    exact h.wraps
  · refine ⟨hm, [], rest, rfl, rfl, ?_, rfl, h.rest_ne_nil, hfree⟩
    grind [nonEmpty, h.head]

variable {idx bufs : Nat} {n : List Mbuf}

theorem tailNow_fill (hpc : k.pc = .fill m retry n idx bufs) : k.tailNow = k.txIdxTail := by
  rw [Softc.tailNow, hpc]

theorem headNow_fill (hpc : k.pc = .fill m retry n idx bufs) : k.headNow = k.txIdxHead := by
  rw [Softc.headNow, hpc]

theorem free_fillSlot (b : Mbuf) : Free (fillSlot b) := ⟨rfl, rfl⟩

theorem Inv.fill (h : Inv k reclaimed out pend rest) (hpc : k.pc = .fill m retry n idx bufs) :
    m.bufs ≠ [] ∧ ∃ pre free, m.chain = pre ++ n ∧ bufs = (nonEmpty pre).length ∧
      idx = (k.tailNow + (flight out pend ++ (nonEmpty pre).map fillSlot).length) % txDescCount ∧
      rest = (nonEmpty pre).map fillSlot ++ free ∧ free ≠ [] ∧ (∀ s ∈ free, Free s) ∧
      ∀ s ∈ rest, Free s := by
  have hp := h.pc
  unfold PcInv at hp
  rw [hpc] at hp
  obtain ⟨hm, pre, free, hchain, hbufs, hidx, hrest, hne, hall⟩ := hp
  refine ⟨hm, pre, free, hchain, hbufs, hidx, hrest, hne, hall, ?_⟩
  intro s hs
  rw [hrest] at hs
  rcases mem_append.mp hs with hs | hs
  · obtain ⟨b, -, rfl⟩ := mem_map.mp hs
    exact free_fillSlot b
  · exact hall s hs

theorem Inv.fill_cons {e : Mbuf}
    (h : Inv k reclaimed out pend rest) (hpc : k.pc = .fill m retry (e :: n) idx bufs) :
    ∃ rest', Inv (txEnqueueFill k m retry (e :: n) idx bufs) reclaimed out pend rest' := by
  obtain ⟨hm, pre, free, hchain, hbufs, hidx, hrest, hne, hall, hfree⟩ := h.fill hpc
  have htail := tailNow_fill hpc
  have hhead := headNow_fill hpc
  have haccount := h.account
  rw [hpc] at haccount
  unfold txEnqueueFill
  dsimp only
  split
  · rename_i he
    split
    · split
      · -- refused for good: the frame is freed
        refine ⟨rest, h.move htail.symm hhead.symm h.ring h.wraps rfl rfl rfl rfl ?_ ?_ hfree⟩
        · have := haccount.free
          exact this
        · intro b hb
          exact List.mem_append_left _ hb
      · exact ⟨rest, h.move htail.symm hhead.symm h.ring h.wraps rfl rfl rfl rfl haccount (fun _ hb => hb)
          ⟨hfree, fun f hf => some.inj hf ▸ hm⟩⟩
    · have hcapacity : k.capacity = txDescCount - 1 - (flight out pend).length :=
        free_slots (htail ▸ h.tail) (by rw [← htail, ← hhead]; exact h.head) h.size
      have hlen := h.length
      obtain ⟨s, free, rfl⟩ := exists_cons_of_ne_nil hne
      have hslots : slots k.ring k.tailNow = flight out pend ++ (nonEmpty pre).map fillSlot ++ s :: free := by
        rw [append_assoc, ← hrest]
        exact h.ring
      have hget := slots_get hslots
      rw [← hidx] at hget
      have hmbuf : (k.ring idx).mbuf = none := by
        have := (hall s mem_cons_self).2
        rw [← hget] at this
        exact this
      have hset := slots_set hslots ⟨e.data, e.len, true, txDescWrap idx, false, false, (k.ring idx).mbuf⟩
      rw [← hidx, hmbuf] at hset
      refine ⟨(nonEmpty (pre ++ [e])).map fillSlot ++ free, h.move htail.symm hhead.symm ?_ ?_ rfl rfl rfl rfl haccount
        (fun _ hb => hb) ⟨hm, pre ++ [e], free, ?_, ?_, ?_, rfl, ?_, fun s hs => hall s (mem_cons_of_mem _ hs)⟩⟩
      · rw [nonEmpty_concat_pos pre he, List.map_append, append_assoc, ← append_assoc (flight out pend), hmbuf]
        exact hset
      · refine wraps_set h.wraps ?_
        rw [hidx]
        exact (h.wraps _ (Nat.mod_lt _ (by decide))).symm
      · rw [hchain, append_assoc]
        rfl
      · simp [nonEmpty_concat_pos pre he, hbufs]
      · grind [nonEmpty_concat_pos, next_slot]
      · rintro rfl
        grind
  · rename_i he
    refine ⟨rest, h.move htail.symm hhead.symm h.ring h.wraps rfl rfl rfl rfl haccount (fun _ hb => hb)
      ⟨hm, pre ++ [e], free, ?_, ?_, ?_, ?_, hne, hall⟩⟩
    · rw [hchain, append_assoc]
      rfl
    · rw [nonEmpty_concat_zero pre he, hbufs]
    · rw [nonEmpty_concat_zero pre he]
      exact hidx
    · rw [nonEmpty_concat_zero pre he]
      exact hrest

theorem Inv.fill_nil (h : Inv k reclaimed out pend rest) (hpc : k.pc = .fill m retry [] idx bufs) :
    ∃ rest', Inv (txEnqueueFill k m retry [] idx bufs) reclaimed out pend rest' := by
  obtain ⟨hm, pre, free, hchain, hbufs, hidx, hrest, hne, hall, -⟩ := h.fill hpc
  have htail := tailNow_fill hpc
  have hhead := headNow_fill hpc
  have haccount := h.account
  rw [hpc] at haccount
  rw [append_nil] at hchain
  subst hchain
  obtain ⟨ys, y, hys⟩ := (eq_nil_or_concat m.bufs).resolve_left hm
  rw [concat_eq_append] at hys
  have hslots : slots k.ring k.tailNow = flight out pend ++ ys.map fillSlot ++ fillSlot y :: free := by
    grind [h.ring, slots, Frame.bufs]
  have hprev : prev txDescCount idx = (k.tailNow + (flight out pend ++ ys.map fillSlot).length) % txDescCount := by
    grind [prev, txDescCount, Frame.bufs]
  have hget := slots_get hslots
  have hset := slots_set hslots { k.ring (prev txDescCount idx) with mbuf := some m.id }
  rw [← hprev] at hget hset
  refine ⟨ys.map fillSlot ++ { fillSlot y with mbuf := some m.id } :: free, h.move htail.symm hhead.symm ?_
    (wraps_set h.wraps rfl) rfl rfl rfl rfl haccount (fun _ hb => hb)
    ⟨ys, y, [], free, hys, rfl, hprev, ?_, rfl, hne, hall⟩⟩
  · rw [← append_assoc, ← hget]
    exact hset
  · refine hidx.trans ?_
    rw [length_append, length_map]
    rfl

theorem readySlots_publish (id : Nat) (y : Mbuf) (zs : List Mbuf) :
    { ({ fillSlot y with mbuf := if zs = [] then some id else none } : Slot) with
      used := false
      last := zs.isEmpty } :: readySlots id zs = readySlots id (y :: zs) := by
  cases zs <;> rfl

theorem Inv.publish {headIdx idx : Nat} {status : Bool}
    (h : Inv k reclaimed out pend rest) (hpc : k.pc = .publish m retry headIdx idx status) :
    ∃ pend' rest', Inv (txEnqueuePublish k m retry headIdx idx status) reclaimed out pend' rest' := by
  have hp := h.pc
  unfold PcInv at hp
  rw [hpc] at hp
  obtain ⟨ys, y, zs, free, hbufs, hstatus, hidx, hnew, hrest, hne, hall⟩ := hp
  have htail : k.tailNow = k.txIdxTail := by rw [Softc.tailNow, hpc]
  have hhead : k.headNow = headIdx := by rw [Softc.headNow, hpc]
  have haccount := h.account
  rw [hpc] at haccount
  have hslots : slots k.ring k.tailNow = flight out pend ++ ys.map fillSlot ++
      { fillSlot y with mbuf := if zs = [] then some m.id else none } :: (readySlots m.id zs ++ free) := by
    rw [append_assoc, ← hrest]
    exact h.ring
  have hget := slots_get hslots
  have hset := slots_set hslots { k.ring idx with used := false, last := (k.ring idx).last || status }
  rw [← hidx] at hget hset
  have hcore : Slot.core { k.ring idx with used := false, last := (k.ring idx).last || status } =
      { ({ fillSlot y with mbuf := if zs = [] then some m.id else none } : Slot) with
        used := false
        last := zs.isEmpty } := by
    have hlast : (k.ring idx).last = false := congrArg Slot.last hget
    rw [← hget, hlast, hstatus]
    rfl
  rw [hcore, ← cons_append, readySlots_publish] at hset
  have hlen := h.length
  rw [hrest] at hlen
  simp only [length_append, length_map, length_cons, length_readySlots] at hlen
  have hfree := List.length_pos_of_ne_nil hne
  have hiff : idx = headIdx → ys = [] := by
    intro he
    rw [← hhead, h.head, hidx] at he
    have := slot_inj (by simp only [length_append, length_map]; omega) (by omega) he
    rw [length_append, length_map] at this
    exact List.length_eq_zero_iff.mp (by omega)
  unfold txEnqueuePublish
  dsimp only
  split
  · -- the slot before it is next
    rename_i hidxne
    have hys : ys ≠ [] := by
      rintro rfl
      apply hidxne
      rw [← hhead, h.head, hidx, map_nil, append_nil]
    obtain ⟨ys, y', rfl⟩ := (eq_nil_or_concat ys).resolve_left hys
    rw [concat_eq_append] at *
    have hprev : prev txDescCount idx = (k.tailNow + (flight out pend ++ ys.map fillSlot).length) % txDescCount := by
      have hone : (flight out pend ++ (ys ++ [y']).map fillSlot).length =
          (flight out pend ++ ys.map fillSlot).length + 1 := by
        simp only [length_append, length_map, length_singleton]
        omega
      rw [hidx, hone, prev_slot _ _ _ (by decide)]
    refine ⟨pend, _, h.move htail.symm hhead.symm ?_ (wraps_set h.wraps rfl) rfl rfl rfl rfl haccount
      (fun _ hb => hb) ⟨ys, y', y :: zs, free, ?_, rfl, hprev, hnew, rfl, hne, hall⟩⟩
    · refine hset.trans ?_
      simp only [List.map_append, append_assoc]
      rfl
    · rw [hbufs, append_assoc]
      rfl
  · -- it was the first slot, and the frame is in the ring
    rename_i hidxeq
    rw [ne_eq, not_not] at hidxeq
    obtain rfl := hiff hidxeq
    rw [List.nil_append] at hbufs
    rw [map_nil, append_nil, ← hbufs] at hset
    have hflight : flight out (pend ++ [m]) = flight out pend ++ m.ready := by
      simp [flight]
    have hready : m.ready.length = m.bufs.length := length_readySlots m.id m.bufs
    have hsize : (flight out (pend ++ [m])).length ≤ txDescCount - 1 := by
      grind
    have hring : slots (update k.ring idx
        { k.ring idx with used := false, last := (k.ring idx).last || status }) k.tailNow =
        flight out (pend ++ [m]) ++ free := by
      rw [hset, hflight, append_assoc]
      rfl
    have hlive : (out ++ pend).map Frame.id ++ [m.id] = (out ++ (pend ++ [m])).map Frame.id ++ [] := by
      simp
    have hbufs' : ∀ f ∈ out ++ (pend ++ [m]), f.bufs ≠ [] := by
      intro f hf
      rw [← append_assoc] at hf
      rcases mem_append.mp hf with hf | hf
      · exact h.bufs f hf
      · rw [List.mem_singleton.mp hf, hbufs]
        exact List.cons_ne_nil y zs
    have hhead' : k.txIdxHead = (k.tailNow + (flight out (pend ++ [m])).length) % txDescCount := by
      rw [hnew, hflight, length_append, hready]
    refine ⟨pend ++ [m], free, ?_⟩
    cases retry with
    | true =>
      refine ⟨⟨?_, h.sent, htail ▸ hring, htail ▸ hhead', hsize, h.freed, hlive ▸ haccount⟩, wraps_set h.wraps rfl,
        hbufs', htail ▸ h.tail, htail ▸ h.hw, h.fault, hall⟩
      exact (congrArg (· ++ [m]) h.accepted).trans (append_assoc _ _ _)
    | false =>
      refine ⟨⟨?_, h.sent, htail ▸ hring, htail ▸ hhead', hsize, h.freed, hlive ▸ haccount⟩, wraps_set h.wraps rfl,
        hbufs', htail ▸ h.tail, htail ▸ h.hw, h.fault, hall, by simp⟩
      exact (congrArg (· ++ [m]) h.accepted).trans (append_assoc _ _ _)

/-! ## Reclaiming -/

theorem slots_drop (h : slots ring t = xs ++ ys) :
    slots ring ((t + xs.length) % txDescCount) = ys ++ xs := view_drop h

theorem ready_first (h : f.bufs ≠ []) : ∃ s ss, f.ready = s :: ss ∧ s.used = false := by
  obtain ⟨b, bs, hb⟩ := exists_cons_of_ne_nil h
  rw [Frame.ready, hb]
  cases bs with
  | nil => exact ⟨_, _, rfl, rfl⟩
  | cons c bs => exact ⟨_, _, rfl, rfl⟩

theorem Inv.tail_slot (h : Inv k reclaimed out pend rest) (s : Slot) (ss : List Slot)
    (hs : flight out pend ++ rest = s :: ss) : (k.ring k.tailNow).used = s.used := by
  have hslots : slots k.ring k.tailNow = [] ++ s :: ss := h.ring.trans hs
  have hget := slots_get hslots
  rw [length_nil, Nat.add_zero, Nat.mod_eq_of_lt h.tail] at hget
  have : (k.ring k.tailNow).core.used = s.used := congrArg Slot.used hget
  exact this

variable {tailIdx : Nat}

theorem Inv.out_of_used {m : Option Frame} (h : Inv k reclaimed out pend rest)
    (hpc : k.pc = .reclaim m tailIdx) (hne : k.txIdxHead ≠ tailIdx) (hused : (k.ring tailIdx).used = true) :
    ∃ f out', out = f :: out' := by
  have htail : k.tailNow = tailIdx := by rw [Softc.tailNow, hpc]
  have hhead : k.headNow = k.txIdxHead := by rw [Softc.headNow, hpc]
  cases out with
  | cons f out' => exact ⟨f, out', rfl⟩
  | nil =>
    exfalso
    cases pend with
    | nil =>
      apply hne
      have := h.head
      rw [hhead, htail] at this
      rw [this]
      exact Nat.mod_eq_of_lt (htail ▸ h.tail)
    | cons f pend =>
      obtain ⟨s, ss, hs, hsu⟩ := ready_first (h.bufs f mem_cons_self)
      grind [h.tail_slot, flight, Softc.tailNow]

theorem Inv.reclaimLoop {m : Option Frame}
    (h : Inv k reclaimed (f :: out) pend rest) (hpc : k.pc = .reclaim m tailIdx) (err : Bool) :
    ∃ ring err' freed, Atsam.reclaimLoop k.ring txDescCount tailIdx err =
        some (ring, (tailIdx + (f.bufs.length - 1)) % txDescCount, f.id, err') ∧ Wraps ring ∧
      freed.length = f.bufs.length ∧ (∀ s ∈ freed, Free s) ∧
      slots ring tailIdx = freed ++ (flight out pend ++ rest) := by
  have htail : k.tailNow = tailIdx := by rw [Softc.tailNow, hpc]
  have hpos := List.length_pos_of_ne_nil (h.bufs f mem_cons_self)
  obtain ⟨xs, c, hout, hlen, hnone, hc⟩ := out_concat (h.bufs f mem_cons_self)
  have hslots : slots k.ring tailIdx = [] ++ (xs ++ c :: (flight out pend ++ rest)) := by
    grind [h.ring, flight, slots]
  have hlt : xs.length < txDescCount := by
    have hsize := h.size
    rw [length_flight_cons] at hsize
    omega
  obtain ⟨ring, err', hloop, hw, hafter⟩ := reclaimLoop_view hc xs [] k.ring txDescCount err hnone hlt h.wraps hslots
  refine ⟨ring, err', xs.map use ++ [{ c with used := true, mbuf := none }], ?_, hw, ?_, ?_, ?_⟩
  · rw [length_nil, Nat.add_zero, Nat.mod_eq_of_lt (htail ▸ h.tail), Nat.zero_add, hlen] at hloop
    exact hloop
  · rw [length_append, length_map, length_singleton]
    omega
  · intro s hs
    rcases mem_append.mp hs with hs | hs
    · obtain ⟨x, hx, rfl⟩ := mem_map.mp hs
      exact ⟨rfl, hnone x hx⟩
    · rw [List.mem_singleton.mp hs]
      exact ⟨rfl, rfl⟩
  · rw [hafter]
    simp

theorem Inv.reclaim {m : Option Frame} (h : Inv k reclaimed out pend rest)
    (hpc : k.pc = .reclaim m tailIdx) :
    ∃ k' reclaimed' out' rest', txReclaim k m tailIdx = some k' ∧ Inv k' reclaimed' out' pend rest' := by
  have htail : k.tailNow = tailIdx := by rw [Softc.tailNow, hpc]
  have hhead : k.headNow = k.txIdxHead := by rw [Softc.headNow, hpc]
  have haccount := h.account
  rw [hpc] at haccount
  have hp := h.pc
  unfold PcInv at hp
  rw [hpc] at hp
  obtain ⟨hfree, hm⟩ := hp
  unfold txReclaim
  split
  · rename_i hcond
    obtain ⟨f, out', rfl⟩ := h.out_of_used hpc hcond.1 hcond.2
    have hpos := List.length_pos_of_ne_nil (h.bufs f mem_cons_self)
    obtain ⟨ring, err', freed, hloop, hw, hlen, hfreed, hslots⟩ := h.reclaimLoop hpc (k.ring tailIdx).err
    have hnext : next txDescCount ((tailIdx + (f.bufs.length - 1)) % txDescCount) =
        (tailIdx + freed.length) % txDescCount := by
      rw [next_slot, hlen, Nat.sub_add_cancel hpos]
    have hdrop := slots_drop hslots
    rw [hloop]
    refine ⟨_, reclaimed ++ [f], out', rest ++ freed, rfl, ⟨?_, ?_, ?_, ?_, ?_, ?_, ?_⟩, hw, ?_, ?_, ?_, h.fault, ?_, hm⟩
    · rw [append_assoc reclaimed]
      exact h.accepted
    · rw [append_assoc reclaimed]
      exact h.sent
    · show slots ring (next txDescCount _) = _
      simp [hnext, hdrop]
    · show k.txIdxHead = (next txDescCount _ + _) % _
      grind [h.head, length_flight_cons, txDescCount]
    · have := h.size
      rw [length_flight_cons] at this
      omega
    · intro g hg
      grind [h.freed]
    · exact @Account.free Nat _ _ _ [] _ _ haccount
    · intro g hg
      exact h.bufs g (mem_cons_of_mem _ hg)
    · show next txDescCount _ < _
      exact Nat.mod_lt _ (by decide)
    · show k.hw = (next txDescCount _ + _) % _
      grind [h.hw, Frame.out, length_markFirst, Frame.ready, length_readySlots, txDescCount]
    · intro s hs
      rcases mem_append.mp hs with hs | hs
      · exact hfree s hs
      · exact hfreed s hs
  · refine ⟨_, reclaimed, out, rest, rfl, ?_⟩
    cases m with
    | none =>
      exact h.move htail.symm hhead.symm h.ring h.wraps rfl rfl rfl rfl haccount (fun _ hb => hb) hfree
    | some m =>
      exact h.move htail.symm hhead.symm h.ring h.wraps rfl rfl rfl rfl haccount (fun _ hb => hb)
        ⟨hfree, hm m rfl⟩

/-! ## The hardware -/

theorem Inv.rest_first (h : Inv k reclaimed out pend rest) : ∃ s ss, rest = s :: ss ∧ s.used = true := by
  have hall : (∀ s ∈ rest, Free s) → ∃ s ss, rest = s :: ss ∧ s.used = true := by
    intro hfree
    obtain ⟨s, ss, hs⟩ := exists_cons_of_ne_nil h.rest_ne_nil
    exact ⟨s, ss, hs, (hfree s (hs ▸ mem_cons_self)).1⟩
  have hp := h.pc
  unfold PcInv at hp
  split at hp
  · exact hall hp
  · grind [h.fill]
  · obtain ⟨ys, y, zs, free, -, -, -, -, rfl, -, -⟩ := hp
    cases ys with
    | nil => exact ⟨_, _, rfl, rfl⟩
    | cons y' ys => exact ⟨_, _, rfl, rfl⟩
  · exact hall hp.1
  · exact hall hp.1

theorem PcInv.congr {base base' : List Slot} (h : PcInv k t base rest) (hpc : k'.pc = k.pc)
    (hhead : k'.txIdxHead = k.txIdxHead) (hlen : base'.length = base.length) : PcInv k' t base' rest := by
  unfold PcInv at h ⊢
  rw [hpc, hhead]
  simp only [length_append, hlen] at h ⊢
  exact h

theorem Inv.complete (h : Inv k reclaimed out pend rest) (hu : (k.ring k.hw).used = false) (err : Bool) :
    ∃ out' pend', Inv (hwComplete k err) reclaimed out' pend' rest := by
  cases pend with
  | nil =>
    obtain ⟨s, ss, rfl, hs⟩ := h.rest_first
    have hslots : slots k.ring k.tailNow = out.flatMap Frame.out ++ s :: ss := by
      have := h.ring
      rw [flight, List.flatMap_nil, append_nil] at this
      exact this
    have hget := slots_get hslots
    rw [← h.hw] at hget
    have : (k.ring k.hw).core.used = s.used := congrArg Slot.used hget
    rw [hs] at this
    rw [show (k.ring k.hw).core.used = (k.ring k.hw).used from rfl, hu] at this
    cases this
  | cons f pend =>
    have hbufs : f.bufs ≠ [] := h.bufs f (List.mem_append_right _ mem_cons_self)
    have hslots : slots k.ring k.tailNow =
        out.flatMap Frame.out ++ (f.ready ++ (pend.flatMap Frame.ready ++ rest)) := by
      grind [h.ring, flight, slots]
    have hread : hwRead k.ring txDescCount k.hw =
        some (f.bufs, (k.tailNow + ((out.flatMap Frame.out).length + f.bufs.length)) % txDescCount) := by
      obtain ⟨xs, b, hxs⟩ := (eq_nil_or_concat f.bufs).resolve_left hbufs
      rw [concat_eq_append] at hxs
      rw [Frame.ready, hxs, readySlots_concat, append_assoc (xs.map plain)] at hslots
      have hlt : (xs.map plain).length < txDescCount := by
        grind [length_le_of_view, length_append, slots]
      have := hwRead_view h.wraps rfl rfl (xs.map plain) _ txDescCount (plain_spec xs) hlt hslots
      rw [← h.hw] at this
      rw [this, hxs, List.map_map, length_append, length_map, length_singleton, Nat.add_assoc]
      simp [comp_def, Slot.buf, plain, lastSlot]
    obtain ⟨s, ss, hs, -⟩ := ready_first hbufs
    rw [hs] at hslots
    have hget := slots_get hslots
    have hset := slots_set hslots { k.ring k.hw with used := true, err := err }
    rw [← h.hw] at hget hset
    have hflight : flight (out ++ [f]) pend ++ rest =
        out.flatMap Frame.out ++ (use s :: ss ++ (pend.flatMap Frame.ready ++ rest)) := by
      rw [flight, List.flatMap_append, List.flatMap_singleton, show f.out = use s :: ss by rw [Frame.out, hs]; rfl]
      simp
    have hlen : (flight (out ++ [f]) pend).length = (flight out (f :: pend)).length := by
      grind [flight, Frame.out, length_markFirst]
    have hout : ((out ++ [f]).flatMap Frame.out).length = (out.flatMap Frame.out).length + f.bufs.length := by
      grind [Frame.out, length_markFirst, Frame.ready, length_readySlots]
    unfold hwComplete
    rw [hread]
    refine ⟨out ++ [f], pend, ⟨?_, ?_, ?_, ?_, ?_, h.freed, ?_⟩, wraps_set h.wraps rfl, ?_, h.tail, ?_, h.fault, ?_⟩
    · show k.accepted = _
      rw [h.accepted]
      simp
    · show k.sent ++ [f.bufs] = _
      rw [h.sent]
      simp
    · refine hset.trans ?_
      rw [hflight, ← hget]
      rfl
    · rw [hlen]
      exact h.head
    · rw [hlen]
      exact h.size
    · have := h.account
      rw [append_assoc]
      exact this
    · rw [append_assoc]
      exact h.bufs
    · rw [hout]
      rfl
    · exact h.pc.congr rfl rfl hlen

/-! ## Calls -/

theorem Inv.idle (h : Inv k reclaimed out pend rest) (hpc : k.pc = .idle) :
    (∀ s ∈ rest, Free s) ∧ k.tailNow = k.txIdxTail ∧ k.headNow = k.txIdxHead ∧
      Account k.given k.freed ((out ++ pend).map Frame.id ++ []) := by
  have hp := h.pc
  unfold PcInv at hp
  have haccount := h.account
  rw [hpc] at hp haccount
  exact ⟨hp, by rw [Softc.tailNow, hpc], by rw [Softc.headNow, hpc], haccount⟩

theorem Inv.transmit {encap : Option (List Mbuf)} (h : Inv k reclaimed out pend rest)
    (hpc : k.pc = .idle) (hid : m.id ∉ k.given) (hm : m.bufs ≠ []) (hencap : ∀ n ∈ encap, nonEmpty n ≠ [])
    (hvlan : encap = none → m.vlanTag = false) : Inv (ifAtsamTransmit k m encap) reclaimed out pend rest := by
  obtain ⟨hfree, htail, hhead, haccount⟩ := h.idle hpc
  have hgive := haccount.give hid
  have hstart : ∀ m' : Frame, m'.id = m.id → m'.bufs ≠ [] →
      Inv (Softc.enqueue { k with given := m.id :: k.given } m' false) reclaimed out pend rest := by
    intro m' hid' hm'
    exact h.enqueue htail hhead hfree hm' rfl ⟨rfl, rfl⟩ rfl rfl rfl rfl (hid' ▸ hgive) fun _ hb => hb
  unfold ifAtsamTransmit
  split
  · rename_i htag
    split
    · rw [hvlan rfl] at htag
      cases htag
    · rename_i chain
      exact hstart { m with chain := chain } rfl (hencap chain rfl)
  · exact hstart m rfl hm

theorem Inv.defrag (h : Inv k reclaimed out pend rest) (hpc : k.pc = .defrag m) :
    Inv (k.enqueue m true) reclaimed out pend rest ∧ ∀ n : Frame, n.id ∉ k.given → n.bufs ≠ [] →
        Inv (Softc.enqueue { k with given := n.id :: k.given, freed := k.freed ++ [m.id] } n true)
          reclaimed out pend rest := by
  have htail : k.tailNow = k.txIdxTail := by rw [Softc.tailNow, hpc]
  have hhead : k.headNow = k.txIdxHead := by rw [Softc.headNow, hpc]
  have hp := h.pc
  unfold PcInv at hp
  have haccount := h.account
  rw [hpc] at hp haccount
  obtain ⟨hfree, hm⟩ := hp
  refine ⟨h.enqueue htail hhead hfree hm rfl ⟨rfl, rfl⟩ rfl rfl rfl rfl haccount fun _ hb => hb, ?_⟩
  intro n hid hn
  have hfreed : Account k.given (k.freed ++ [m.id]) ((out ++ pend).map Frame.id ++ []) := haccount.free
  exact h.enqueue htail hhead hfree hn rfl ⟨rfl, rfl⟩ rfl rfl rfl rfl (hfreed.give hid)
    fun _ hb => List.mem_append_left _ hb

theorem inv_step {a : Action} (h : Inv k reclaimed out pend rest)
    (hvlan : ∀ m, a = .transmit m none → m.vlanTag = false) (hs : step k a = some k') :
    ∃ reclaimed out pend rest, Inv k' reclaimed out pend rest := by
  cases a with
  | transmit m encap =>
    obtain ⟨⟨hpc, hid, hm, hencap⟩, ⟨⟩⟩ := ite_none_right_eq_some.mp hs
    exact ⟨_, _, _, _, h.transmit hpc hid hm hencap fun he => hvlan m (by rw [he])⟩
  | driver =>
    unfold step at hs
    dsimp only at hs
    split at hs <;> rename_i hpc
    · cases hs
    · cases hs
      rename_i n _ _
      cases n with
      | nil =>
        obtain ⟨rest', h'⟩ := h.fill_nil hpc
        exact ⟨_, _, _, _, h'⟩
      | cons e n =>
        obtain ⟨rest', h'⟩ := h.fill_cons hpc
        exact ⟨_, _, _, _, h'⟩
    · cases hs
      obtain ⟨pend', rest', h'⟩ := h.publish hpc
      exact ⟨_, _, _, _, h'⟩
    · grind [h.reclaim]
    · cases hs
  | defrag n =>
    unfold step at hs
    dsimp only at hs
    split at hs
    · rename_i hpc
      cases hs
      exact ⟨_, _, _, _, (h.defrag hpc).1⟩
    · rename_i hpc
      obtain ⟨⟨hid, hn⟩, ⟨⟩⟩ := ite_none_right_eq_some.mp hs
      exact ⟨_, _, _, _, (h.defrag hpc).2 _ hid hn⟩
    · cases hs
  | complete err =>
    obtain ⟨hu, ⟨⟩⟩ := ite_none_left_eq_some.mp hs
    obtain ⟨out', pend', h'⟩ := h.complete (Bool.eq_false_iff.mpr hu) err
    exact ⟨_, _, _, _, h'⟩

/-! ## Runs -/

theorem Inv.proper (h : Inv k reclaimed out pend rest) : Proper k where
  flight := ⟨reclaimed, out, pend, rest, h.toFlight⟩
  ready := by
    intro idx hidx hu
    obtain ⟨pre, post, hslots, hpre⟩ := view_split (f := fun idx => (k.ring idx).core) h.tail hidx
    obtain ⟨mid, c, post', hsplit, hmid, hused, hlast⟩ := h.whole pre _ post hslots hu
    rw [hsplit] at hslots
    have hlt : mid.length < txDescCount := by
      have := length_le_of_view hslots
      rw [length_append, length_cons] at this
      omega
    rw [hpre, hwRead_view h.wraps hused hlast mid pre txDescCount hmid hlt hslots]
    rfl
  fault := h.fault
  ends := by
    intro m tailIdx hpc hne hused
    obtain ⟨f, out', rfl⟩ := h.out_of_used hpc hne hused
    obtain ⟨ring, err', freed, hloop, -⟩ := h.reclaimLoop hpc (k.ring tailIdx).err
    refine ⟨f, ?_, ring, err', hloop⟩
    rw [h.accepted]
    simp

theorem Inv.fill_keeps {e : Mbuf}
    (h : Inv k reclaimed out pend rest) (hpc : k.pc = .fill m retry (e :: n) idx bufs) :
    (txEnqueueFill k m retry (e :: n) idx bufs).txIdxHead = k.txIdxHead ∧
      (txEnqueueFill k m retry (e :: n) idx bufs).txIdxTail = k.txIdxTail ∧
      ∀ i, ((txEnqueueFill k m retry (e :: n) idx bufs).ring i).mbuf = (k.ring i).mbuf ∧
        ((k.ring i).used → ((txEnqueueFill k m retry (e :: n) idx bufs).ring i).used) ∧
        ((k.ring i).used = false → (txEnqueueFill k m retry (e :: n) idx bufs).ring i = k.ring i) := by
  obtain ⟨-, pre, free, -, -, hidx, hrest, hne, hall, -⟩ := h.fill hpc
  have hused : (k.ring idx).used = true := by
    obtain ⟨s, free, rfl⟩ := exists_cons_of_ne_nil hne
    have hslots : slots k.ring k.tailNow = flight out pend ++ (nonEmpty pre).map fillSlot ++ s :: free := by
      rw [append_assoc, ← hrest]
      exact h.ring
    have hget := slots_get hslots
    rw [← hidx] at hget
    have := (hall s mem_cons_self).1
    rw [← hget] at this
    exact this
  have hsame : ∀ i, (k.ring i).mbuf = (k.ring i).mbuf ∧ ((k.ring i).used → (k.ring i).used) ∧
      ((k.ring i).used = false → k.ring i = k.ring i) := fun _ => ⟨rfl, id, fun _ => rfl⟩
  unfold txEnqueueFill
  dsimp only
  split
  · split
    · split <;> exact ⟨rfl, rfl, hsame⟩
    · refine ⟨rfl, rfl, fun i => ?_⟩
      by_cases hi : i = idx
      · subst hi
        simp [Softc.set, hused]
      · simp [Softc.set, hi]
  · exact ⟨rfl, rfl, hsame⟩

theorem Inv.out_nil {m : Option Frame} (h : Inv k reclaimed out pend rest)
    (hpc : k.pc = .reclaim m tailIdx) (hend : ¬ (k.txIdxHead ≠ tailIdx ∧ (k.ring tailIdx).used = true)) :
    out = [] := by
  have htail : k.tailNow = tailIdx := by rw [Softc.tailNow, hpc]
  have hhead : k.headNow = k.txIdxHead := by rw [Softc.headNow, hpc]
  cases out with
  | nil => rfl
  | cons f out =>
    exfalso
    have hbufs := h.bufs f mem_cons_self
    have hpos := List.length_pos_of_ne_nil hbufs
    apply hend
    constructor
    · intro he
      grind [h.head, h.size, length_flight_cons, txDescCount]
    · obtain ⟨s, ss, hs, -⟩ := ready_first hbufs
      have := h.tail_slot (use s) (ss ++ (flight out pend ++ rest)) (by
        rw [flight, List.flatMap_cons, Frame.out, hs]
        simp [flight, markFirst, use])
      rw [htail] at this
      exact this

theorem Inv.safeStep {a : Action} (h : Inv k reclaimed out pend rest) (hs : step k a = some k') :
    SafeStep k a k' where
  refused := by
    rintro m retry n idx bufs hpc hn rfl
    unfold step at hs
    simp only [hpc, some.injEq] at hs
    subst hs
    obtain ⟨e, n, rfl⟩ := exists_cons_of_ne_nil hn
    exact h.fill_keeps hpc
  reclaimed := by
    rintro m tailIdx hpc rfl hleave f hf
    unfold step at hs
    simp only [hpc] at hs
    unfold txReclaim at hs
    split at hs
    · obtain ⟨r, -, rfl⟩ := map_eq_some_iff.mp hs
      exact absurd rfl (hleave _ _)
    · rename_i hend
      obtain rfl := h.out_nil hpc hend
      grind [h.sent, h.accepted, h.freed]

theorem not_proper_of_encap (k : Softc) (hm : m.vlanTag = true) :
    ¬ Proper (ifAtsamTransmit k m none) := by
  intro hp
  obtain ⟨reclaimed, out, pend, rest, hf⟩ := hp.flight
  have := hf.account.count_le_one m.id
  simp [ifAtsamTransmit, hm] at this

/-- **Every frame of the ring is accounted for, in every run, exactly if `ether_vlanencap` does not fail.** -/
theorem proper_iff_encapsulated (as : List Action) :
    StepsMeet step (fun k a => ∀ t ∈ step k a, Proper t ∧ SafeStep k a t) ifAtsamSetupTx as ↔
      StepsMeet step Encapsulated ifAtsamSetupTx as := by
  have hcall : ∀ k a, (∃ reclaimed out pend rest, Inv k reclaimed out pend rest) →
      ((∀ t ∈ step k a, Proper t ∧ SafeStep k a t) ↔ Encapsulated k a) := by
    rintro k a ⟨reclaimed, out, pend, rest, h⟩
    constructor
    · rintro hp hsome m rfl
      obtain ⟨t, ht⟩ := isSome_iff_exists.mp hsome
      obtain ⟨-, ⟨⟩⟩ := ite_none_right_eq_some.mp ht
      by_contra htag
      exact not_proper_of_encap k (Bool.not_eq_false _ ▸ htag) (hp _ ht).1
    · intro henc t ht
      obtain ⟨_, _, _, _, h'⟩ := inv_step h (henc (isSome_iff_exists.mpr ⟨t, ht⟩)) ht
      exact ⟨h'.proper, h.safeStep ht⟩
  have hstep : ∀ k a t, (∃ reclaimed out pend rest, Inv k reclaimed out pend rest) →
      (∀ t ∈ step k a, Proper t ∧ SafeStep k a t) → step k a = some t →
      ∃ reclaimed out pend rest, Inv t reclaimed out pend rest := by
    rintro k a t ⟨reclaimed, out, pend, rest, h⟩ hp ht
    exact inv_step h ((hcall k a ⟨_, _, _, _, h⟩).mp hp (isSome_iff_exists.mpr ⟨t, ht⟩)) ht
  obtain ⟨rest, hsetup⟩ := inv_setup
  exact stepsMeet_congr_of_invariant hcall hstep as ifAtsamSetupTx ⟨_, _, _, _, hsetup⟩

/-- A tagged frame when there is no free mbuf. -/
theorem vlanFrame_freed_twice :
    ¬ StepsMeet step (fun k a => ∀ t ∈ step k a, Proper t ∧ SafeStep k a t) ifAtsamSetupTx
      [.transmit ⟨1, true, [⟨4096, 60⟩]⟩ none] := by
  rintro ⟨h, -⟩
  exact not_proper_of_encap ifAtsamSetupTx rfl (h _ rfl).1

end RtemsLibbsd.Atsam

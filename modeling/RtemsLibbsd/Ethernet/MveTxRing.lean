import RtemsLibbsd.Ethernet.MveTx

/-!
# Runs of the MV643xx transmit ring

The descriptors from the tail on are a list: those the hardware has completed, those it has not, and the rest.  The
scavenger moves a descriptor from the front to the end, the hardware moves one from the second part to the
first, and a send changes the rest until it hands it over.

* `nextBuf_spec`, `undoLoop_slots` — the iterator and the loop that undoes a send.
* `RestInv` — what the rest is while a chain is put into the ring.
* `Inv` — the invariant; one lemma for each step.
* `ring_accounted` — the result about runs.
-/

namespace RtemsLibbsd.Mve.Tx

open List Function Transition BufferRing Ethernet

variable {n : Nat}

/-! ## Indices -/

theorem nextTxd_slot (t o : Nat) : nextTxd n ((t + o) % n) = (t + (o + 1)) % n := by
  simp [nextTxd, Nat.add_assoc]

theorem slot_sub {t o : Nat} (ht : t < n) (ho : o < n) : ((t + o) % n + n - t) % n = o := by
  by_cases h : t + o < n
  · rw [Nat.mod_eq_of_lt h, show t + o + n - t = o + n by omega, Nat.add_mod_right, Nat.mod_eq_of_lt ho]
  · have hmod : (t + o) % n = t + o - n := by
      rw [Nat.mod_eq_sub_mod (by omega), Nat.mod_eq_of_lt (by omega)]
    rw [hmod, show t + o - n + n - t = o by omega, Nat.mod_eq_of_lt ho]

/-! ## Slots -/

/-- A descriptor without the fields that only the hardware reads. -/
structure Slot where
  bufPtr : BufPtr
  uBuf : Option Nat
  dmaOwned : Bool

def Desc.core (r : Desc) : Slot := ⟨r.bufPtr, r.uBuf, r.dmaOwned⟩

def Slot.use (s : Slot) : BufPtr × Option Nat := (s.bufPtr, s.uBuf)

def Slot.Free (s : Slot) : Prop := s.bufPtr = .null ∧ s.uBuf = none

/-- The slots from `t` on. -/
def slots (n : Nat) (desc : Nat → Desc) (t : Nat) : List Slot := view n (fun d => (desc d).core) t

variable {desc : Nat → Desc} {t : Nat}

variable {xs ys : List Slot}

theorem slots_get {s : Slot} (h : slots n desc t = xs ++ s :: ys) :
    (desc ((t + xs.length) % n)).core = s := view_get h

theorem slots_first {s : Slot} (h : slots n desc t = s :: ys) :
    (desc (t % n)).core = s :=
  slots_get ((nil_append _).trans h.symm).symm

theorem core_update (d : Nat) (r : Desc) :
    (fun e => (update desc d r e).core) = update (fun e => (desc e).core) d r.core := by
  funext e
  by_cases he : e = d
  · subst he
    simp
  · simp [he]

theorem slots_set {s : Slot} (h : slots n desc t = xs ++ s :: ys) (r : Desc) :
    slots n (update desc ((t + xs.length) % n) r) t = xs ++ r.core :: ys := by
  rw [slots, core_update]
  exact view_set h

theorem slots_update_same {r : Desc} (h : r.core = (desc d).core) :
    slots n (update desc d r) t = slots n desc t := by
  rw [slots, core_update, h]
  congr 1
  exact update_eq_self d fun e => (desc e).core

theorem undoLoop_slots :
    ∀ (xs pre : List Slot) (desc : Nat → Desc) (fuel : Nat) (avail : Int), xs.length < fuel →
      pre.length + xs.length < n → slots n desc t = pre ++ (xs ++ ys) →
      ∃ desc', undoLoop n fuel desc ((t + pre.length) % n) ((t + (pre.length + xs.length)) % n) avail =
          some (desc', avail + xs.length) ∧
        slots n desc' t = pre ++ (xs.map (fun s => ⟨.null, s.uBuf, false⟩) ++ ys)
  | [], pre, desc, fuel + 1, avail, _, _, h => by
    refine ⟨desc, ?_, h⟩
    rw [length_nil, Nat.add_zero pre.length, undoLoop, if_neg (not_not_intro rfl)]
    simp
  | x :: xs, pre, desc, fuel + 1, avail, hfuel, hlen, h => by
    rw [length_cons] at hfuel hlen
    have hget := slots_get h
    have hset := slots_set h (desc ((t + pre.length) % n)).undo
    have hcore : (desc ((t + pre.length) % n)).undo.core = ⟨.null, x.uBuf, false⟩ := by
      rw [← hget]
      rfl
    rw [hcore, append_cons] at hset
    have hne : (t + pre.length) % n ≠ (t + (pre.length + (xs.length + 1))) % n := fun he => by
      have := slot_inj (by omega) (by omega) he
      omega
    obtain ⟨desc', hloop, hslots⟩ := undoLoop_slots xs (pre ++ [⟨.null, x.uBuf, false⟩]) _ fuel (avail + 1)
      (by omega) (by rw [length_append, length_singleton]; omega) hset
    refine ⟨desc', ?_, ?_⟩
    · rw [length_cons, undoLoop, if_pos hne, nextTxd_slot]
      grind
    · rw [hslots, append_assoc]
      rfl

/-! ## The iterator -/

/-- The buffers that an iterator of the chain `id` has still to come to. -/
structure Remains (it : MbufIter) (id : Nat) (bs : List Mbuf) : Prop where
  head : it.head = id
  next : nonEmpty it.next = bs
  skip : skipEmpty it.next = it.next

/-- The iterator at `b`, with `bs` behind it. -/
def bufAt (id : Nat) (b : Mbuf) (bs : List Mbuf) : Buf := ⟨b.data, b.len, if bs = [] then some id else none⟩

theorem skipEmpty_cons (e : Mbuf) (m : List Mbuf) :
    skipEmpty (e :: m) = if e.len = 0 then skipEmpty m else e :: m := by
  rw [skipEmpty, dropWhile_cons]
  simp [skipEmpty]

theorem nonEmpty_skipEmpty : ∀ m : List Mbuf, nonEmpty (skipEmpty m) = nonEmpty m
  | [] => rfl
  | e :: m => by
    rw [skipEmpty_cons]
    split
    · rename_i h
      rw [nonEmpty_skipEmpty m]
      simp [nonEmpty, h]
    · rfl

theorem skipEmpty_skipEmpty : ∀ m : List Mbuf, skipEmpty (skipEmpty m) = skipEmpty m
  | [] => rfl
  | e :: m => by
    rw [skipEmpty_cons]
    split
    · exact skipEmpty_skipEmpty m
    · rename_i h
      rw [skipEmpty_cons, if_neg h]

theorem nonEmpty_of_skip {m : List Mbuf} (h : skipEmpty m = m) :
    m = [] ∧ nonEmpty m = [] ∨ ∃ b rest, m = b :: rest ∧ 0 < b.len ∧ nonEmpty m = b :: nonEmpty rest := by
  cases m with
  | nil => exact Or.inl ⟨rfl, rfl⟩
  | cons b rest =>
    refine Or.inr ⟨b, rest, rfl, ?_⟩
    have hb : b.len ≠ 0 := by
      intro hb
      rw [skipEmpty_cons, if_pos hb] at h
      have hlen := congrArg List.length h
      grind [skipEmpty, dropWhile_suffix]
    have hpos : 0 < b.len := Nat.pos_of_ne_zero hb
    exact ⟨hpos, by simp [nonEmpty, hpos]⟩

variable {bs : List Mbuf} {it : MbufIter}

theorem nextBuf_spec {id : Nat} (h : Remains it id bs) :
    bs = [] ∧ nextBuf it = none ∨
      ∃ b bs' it', bs = b :: bs' ∧ 0 < b.len ∧ nextBuf it = some it' ∧ it'.it = bufAt id b bs' ∧
        Remains it' id bs' := by
  obtain ⟨hhead, hnext, hskip⟩ := h
  unfold nextBuf
  rcases nonEmpty_of_skip hskip with ⟨hnil, hne⟩ | ⟨b, rest, hcons, hpos, hne⟩
  · refine Or.inl ⟨hnext ▸ hne, ?_⟩
    rw [hnil]
  · refine Or.inr ⟨b, nonEmpty rest,
      ⟨⟨b.data, b.len, if skipEmpty rest = [] then some it.head else none⟩, skipEmpty rest, it.head⟩,
      hnext ▸ hne, hpos, by rw [hcons], ?_, hhead, nonEmpty_skipEmpty rest, skipEmpty_skipEmpty rest⟩
    grind [nonEmpty_skipEmpty, nonEmpty_of_skip, skipEmpty_skipEmpty, bufAt]

theorem initIter_spec (m : Chain) :
    nonEmpty m.bufs = [] ∧ initIter m = none ∨
      ∃ b bs it, nonEmpty m.bufs = b :: bs ∧ initIter m = some it ∧ it.it = bufAt m.id b bs ∧
        Remains it m.id bs := by
  have h : Remains ⟨⟨0, 0, none⟩, skipEmpty m.bufs, m.id⟩ m.id (nonEmpty m.bufs) :=
    ⟨rfl, nonEmpty_skipEmpty m.bufs, skipEmpty_skipEmpty m.bufs⟩
  grind [nextBuf_spec, initIter]

/-! ## The pointers of a chain -/

def ptrOf (b : Mbuf) : BufPtr := (mvethAssignDescRaw ⟨b.data, b.len, none⟩ true false).bufPtr

/-- The pointers of the descriptors of a chain: the last one has the chain. -/
def uses (id : Nat) : List Mbuf → List (BufPtr × Option Nat)
  | [] => []
  | b :: bs => (ptrOf b, if bs = [] then some id else none) :: uses id bs

theorem length_uses (id : Nat) : ∀ bs : List Mbuf, (uses id bs).length = bs.length
  | [] => rfl
  | _ :: bs => by simp [uses, length_uses id bs]

theorem uses_append (id : Nat) (h : bs ≠ []) :
    ∀ pre : List Mbuf, uses id (pre ++ bs) = pre.map (fun b => (ptrOf b, none)) ++ uses id bs
  | [] => rfl
  | b :: pre => by
    rw [cons_append, uses, if_neg (by simp [h]), uses_append id h pre]
    rfl

theorem fst_uses (id : Nat) : ∀ bs : List Mbuf, (uses id bs).map Prod.fst = bs.map ptrOf
  | [] => rfl
  | _ :: bs => by simp [uses, fst_uses id bs]

theorem filterMap_uses (id : Nat) : ∀ {bs : List Mbuf}, bs ≠ [] → (uses id bs).filterMap Prod.snd = [id]
  | [b], _ => rfl
  | b :: c :: bs, _ => by
    rw [uses, if_neg (cons_ne_nil c bs), filterMap_cons_none rfl, filterMap_uses id (cons_ne_nil c bs)]

variable {b : Mbuf}

theorem ptrOf_ne_null (h : b.data ≠ 0) : ptrOf b ≠ .null := by
  unfold ptrOf mvethAssignDescRaw cpuaddr2enet
  dsimp only
  split
  · exact BufPtr.noConfusion
  · exact BufPtr.noConfusion

/-- The slot of an element, with `bs` behind it. -/
def slotOf (id : Nat) (b : Mbuf) (bs : List Mbuf) (dmaOwned : Bool) : Slot :=
  ⟨ptrOf b, if bs = [] then some id else none, dmaOwned⟩

theorem core_assign (id : Nat) (b : Mbuf) (bs : List Mbuf) (dmaOwned frst : Bool) :
    (mvethAssignDescRaw (bufAt id b bs) dmaOwned frst).core = slotOf id b bs dmaOwned := rfl

/-! ## The invariant -/

def AllFree (rest : List Slot) : Prop :=
  ∃ first free, rest = first :: free ∧ first.dmaOwned = false ∧ ∀ s ∈ rest, s.Free

/-- The rest while a chain is put into the ring, with the elements `bs` still to come: the descriptor of the first
    element is free, the others are filled. -/
structure Filled (n : Nat) (k : Softc) (s : Fill) (bs : List Mbuf) (x : Slot) (xs ys : List Slot) (b : Mbuf)
    (pre : List Mbuf) : Prop where
  data : ∀ e ∈ s.m.bufs, e.data ≠ 0
  chain : nonEmpty s.m.bufs = b :: (pre ++ bs)
  head : s.head = bufAt s.m.id b (pre ++ bs)
  nmbs : s.nmbs = 1 + pre.length
  owned : x.dmaOwned = false
  first : x.Free
  filled : xs.map Slot.use = if bs = [] then uses s.m.id pre else pre.map fun b => (ptrOf b, none)
  filledOwned : ∀ y ∈ xs, y.dmaOwned = true
  free : ys ≠ [] ∧ ∀ y ∈ ys, y.Free
  h : s.h = k.dTxH
  l : s.l = (k.dTxH + xs.length) % n
  d : s.d = (k.dTxH + (xs.length + 1)) % n

def RestInv (n : Nat) (k : Softc) (rest : List Slot) : Prop :=
  match k.pc with
  | .idle | .swipe _ _ .daemon => AllFree rest
  | .swipe _ _ (.start m it) => AllFree rest ∧ (∀ e ∈ m.bufs, e.data ≠ 0) ∧
    ∃ b bs, nonEmpty m.bufs = b :: bs ∧ it.it = bufAt m.id b bs ∧ Remains it m.id bs
  | .fill s => ∃ bs x xs ys b pre, Remains s.it s.m.id bs ∧ rest = x :: (xs ++ ys) ∧
    Filled n k s bs x xs ys b pre
  | .swipe _ _ (.more s it) => ∃ c bs x xs ys b pre, it.it = bufAt s.m.id c bs ∧ Remains it s.m.id bs ∧
    rest = x :: (xs ++ ys) ∧ Filled n k s (c :: bs) x xs ys b pre

def Softc.taken (k : Softc) : Nat :=
  match k.pc with
  | .fill s | .swipe _ _ (.more s _) => s.nmbs
  | _ => 0

/-- What happened since the call began: some descriptors in use were scavenged. -/
def Since (n : Nat) (k : Softc) (busy : List Slot) : Prop :=
  ∃ swept, k.before.used = swept ++ busy.map Slot.use ∧ k.tailNow = (k.before.dTxT + swept.length) % n ∧
    k.dTxH = k.before.dTxH ∧ k.avail + k.swept + k.taken = k.before.avail + swept.length ∧
    k.released = k.before.released ++ swept.filterMap Prod.snd

structure Inv (n : Nat) (k : Softc) (done pend rest : List Slot) : Prop where
  ring : slots n k.desc k.tailNow = done ++ (pend ++ rest)
  tail : k.tailNow < n
  head : k.dTxH = (k.tailNow + (done.length + pend.length)) % n
  hw : k.hw = (k.tailNow + done.length) % n
  busy : ∀ s ∈ done ++ pend, s.bufPtr ≠ .null
  owned : ∀ s ∈ pend, s.dmaOwned = true
  sent : k.sent = k.released ++ done.filterMap Slot.uBuf
  accepted : k.accepted = k.sent ++ pend.filterMap Slot.uBuf
  avail : k.avail + k.swept + k.taken = txAvailableRingSize n - (done.length + pend.length : Nat)
  rest : RestInv n k rest
  since : k.pc ≠ .idle → Since n k (done ++ pend)

theorem inv_init (hn : 0 < n) : ∃ rest, Inv n (mvethInitTxDescRing n) [] [] rest := by
  obtain ⟨m, rfl⟩ : ∃ m, n = m + 1 := ⟨n - 1, by omega⟩
  have hfree : ∀ s ∈ slots (m + 1) (mvethInitTxDescRing (m + 1)).desc 0, s = ⟨.null, none, false⟩ := by
    intro s hs
    obtain ⟨o, -, rfl⟩ := mem_map.mp hs
    rfl
  refine ⟨slots (m + 1) (mvethInitTxDescRing (m + 1)).desc 0, rfl, hn, rfl, rfl, nofun, nofun, rfl, rfl, ?_, ?_,
    fun h => absurd rfl h⟩
  · simp [Softc.swept, Softc.taken, mvethInitTxDescRing]
  · obtain ⟨first, free, hsplit⟩ : ∃ first free,
        slots (m + 1) (mvethInitTxDescRing (m + 1)).desc 0 = first :: free :=
      exists_cons_of_ne_nil (ne_nil_of_length_pos (by rw [slots, length_view]; exact hn))
    refine ⟨first, free, hsplit, ?_, fun s hs => ?_⟩
    · rw [hfree first (hsplit ▸ mem_cons_self)]
    · rw [hfree s hs]
      exact ⟨rfl, rfl⟩

variable {k : Softc} {done pend rest : List Slot}

theorem Inv.rest_first (h : Inv n k done pend rest) :
    ∃ first free, rest = first :: free ∧ first.dmaOwned = false ∧ first.Free := by
  have hall : AllFree rest → ∃ first free, rest = first :: free ∧ first.dmaOwned = false ∧ first.Free := by
    rintro ⟨first, free, rfl, howned, hfree⟩
    exact ⟨first, free, rfl, howned, hfree first mem_cons_self⟩
  have hr := h.rest
  unfold RestInv at hr
  split at hr
  · exact hall hr
  · exact hall hr
  · exact hall hr.1
  · obtain ⟨bs, x, xs, ys, b, pre, -, rfl, hfill⟩ := hr
    exact ⟨x, _, rfl, hfill.owned, hfill.first⟩
  · obtain ⟨c, bs, x, xs, ys, b, pre, -, -, rfl, hfill⟩ := hr
    exact ⟨x, _, rfl, hfill.owned, hfill.first⟩

theorem Inv.length (h : Inv n k done pend rest) : done.length + (pend.length + rest.length) = n := by
  have := length_le_of_view h.ring
  rwa [length_append] at this

theorem Inv.length_lt (h : Inv n k done pend rest) : done.length + pend.length < n := by
  obtain ⟨first, free, rfl, -⟩ := h.rest_first
  have := h.length
  rw [length_cons] at this
  omega

variable {k' : Softc}

theorem Inv.move {rest' : List Slot} (h : Inv n k done pend rest)
    (hring : slots n k'.desc k.tailNow = done ++ (pend ++ rest')) (htail : k'.tailNow = k.tailNow)
    (hhead : k'.dTxH = k.dTxH) (hhw : k'.hw = k.hw) (hsent : k'.sent = k.sent) (hreleased : k'.released = k.released)
    (haccepted : k'.accepted = k.accepted)
    (havail : k'.avail + k'.swept + k'.taken = k.avail + k.swept + k.taken) (hrest : RestInv n k' rest')
    (hsince : k'.pc ≠ .idle → Since n k' (done ++ pend)) : Inv n k' done pend rest' := by
  refine ⟨?_, ?_, ?_, ?_, h.busy, h.owned, ?_, ?_, ?_, hrest, hsince⟩
  · rw [htail]
    exact hring
  · rw [htail]
    exact h.tail
  · rw [hhead, htail]
    exact h.head
  · rw [hhw, htail]
    exact h.hw
  · rw [hsent, hreleased]
    exact h.sent
  · rw [haccepted, hsent]
    exact h.accepted
  · rw [havail]
    exact h.avail

theorem Inv.used (h : Inv n k done pend rest) : k.used n = (done ++ pend).map Slot.use := by
  have hlt := h.length_lt
  have hview : (view n k.desc k.tailNow).map Desc.use = (slots n k.desc k.tailNow).map Slot.use := by
    rw [slots, view, view, map_map, map_map]
    rfl
  rw [Softc.used, h.head, slot_sub h.tail hlt, ← map_take.symm, hview, h.ring, ← append_assoc,
    map_append, take_left' (by simp)]

theorem snd_use (l : List Slot) : (l.map Slot.use).filterMap Prod.snd = l.filterMap Slot.uBuf := by
  rw [filterMap_map]
  rfl

theorem Inv.since_snapshot (h : Inv n k done pend rest) (hidle : k.pc = .idle)
    (hbefore : k'.before = k.snapshot n) (htail : k'.tailNow = k.tailNow) (hhead : k'.dTxH = k.dTxH)
    (havail : k'.avail + k'.swept + k'.taken = k.avail) (hreleased : k'.released = k.released) :
    Since n k' (done ++ pend) := by
  have htailNow : k.tailNow = k.dTxT := by rw [Softc.tailNow, hidle]
  refine ⟨[], ?_, ?_, ?_, ?_, ?_⟩
  · rw [hbefore, nil_append]
    exact h.used
  · rw [hbefore, htail, length_nil, Nat.add_zero, Nat.mod_eq_of_lt]
    · exact htailNow
    · show k.dTxT < n
      rw [← htailNow]
      exact h.tail
  · rw [hbefore, hhead]
    rfl
  · rw [hbefore, havail]
    simp [Softc.snapshot]
  · rw [hbefore, hreleased]
    simp [Softc.snapshot]

variable {pre : List Mbuf} {s : Fill} {x : Slot}

theorem Filled.congr (h : Filled n k s bs x xs ys b pre) (hhead : k'.dTxH = k.dTxH) :
    Filled n k' s bs x xs ys b pre :=
  { h with h := hhead ▸ h.h, l := hhead ▸ h.l, d := hhead ▸ h.d }

/-! ## The scavenger -/

variable {y : Slot}

theorem AllFree.concat (h : AllFree rest) (hy : y.Free) : AllFree (rest ++ [y]) := by
  obtain ⟨first, free, rfl, howned, hfree⟩ := h
  refine ⟨first, free ++ [y], rfl, howned, fun s hs => ?_⟩
  grind

theorem Filled.concat
    (h : Filled n k s bs x xs ys b pre) (hy : y.Free) : Filled n k s bs x xs (ys ++ [y]) b pre := by
  refine { h with free := ⟨by simp, fun z hz => ?_⟩ }
  rcases mem_append.mp hz with hz | hz
  · exact h.free.2 z hz
  · exact mem_singleton.mp hz ▸ hy

theorem RestInv.congr (h : RestInv n k rest) (hpc : k'.pc = k.pc) (hhead : k'.dTxH = k.dTxH) :
    RestInv n k' rest := by
  unfold RestInv at h ⊢
  rw [hpc]
  split at h
  · exact h
  · exact h
  · exact h
  · obtain ⟨bs, x, xs, ys, b, pre, hrem, hsplit, hfill⟩ := h
    exact ⟨bs, x, xs, ys, b, pre, hrem, hsplit, hfill.congr hhead⟩
  · obtain ⟨c, bs, x, xs, ys, b, pre, hit, hrem, hsplit, hfill⟩ := h
    exact ⟨c, bs, x, xs, ys, b, pre, hit, hrem, hsplit, hfill.congr hhead⟩

variable {caller : Caller}

theorem RestInv.concat {d rval d' rval' : Nat} (h : RestInv n k rest)
    (hpc : k.pc = .swipe d rval caller) (hpc' : k'.pc = .swipe d' rval' caller) (hhead : k'.dTxH = k.dTxH)
    (hy : y.Free) : RestInv n k' (rest ++ [y]) := by
  unfold RestInv at h ⊢
  rw [hpc] at h
  rw [hpc']
  cases caller with
  | daemon => exact AllFree.concat h hy
  | start m it => exact ⟨AllFree.concat h.1 hy, h.2⟩
  | more s it =>
    obtain ⟨c, bs, x, xs, ys, b, pre, hit, hrem, rfl, hfill⟩ := h
    refine ⟨c, bs, x, xs, ys ++ [y], b, pre, hit, hrem, ?_, (hfill.concat hy).congr hhead⟩
    simp

variable {d rval : Nat}

theorem Inv.sweep (h : Inv n k (x :: done) pend rest) (hpc : k.pc = .swipe d rval caller) :
    ∃ k' rest', bspMveSwipeTx n k d rval caller = some k' ∧ Inv n k' done pend rest' ∧ k'.pc ≠ .idle ∧
      k'.accepted = k.accepted := by
  have htail : k.tailNow = d := by rw [Softc.tailNow, hpc]
  have hd : d < n := htail ▸ h.tail
  have hring : slots n k.desc d = [] ++ x :: (done ++ (pend ++ rest)) := by
    have := h.ring
    rw [htail] at this
    exact this
  have hlen := h.length_lt
  rw [length_cons] at hlen
  have hidx : (d + ([] : List Slot).length) % n = d := Nat.mod_eq_of_lt hd
  have hget := slots_get hring
  have hset := slots_set hring { k.desc d with bufPtr := .null, uBuf := none }
  rw [hidx] at hget hset
  have hnext := view_drop (show view n _ d = [_] ++ (done ++ (pend ++ rest)) from hset)
  have hx : x.bufPtr ≠ .null := h.busy x mem_cons_self
  have hne : ¬ ((k.desc d).bufPtr = .null ∨ (k.desc d).dmaOwned ∧ d = k.hw) := by
    rintro (hnull | ⟨-, he⟩)
    · exact hx (by rw [← hget]; exact hnull)
    · rw [h.hw, htail, length_cons] at he
      have := slot_inj (n := n) (i := d) (o := 0) (p := done.length + 1) (by omega) (by omega)
        (by rw [Nat.add_zero, Nat.mod_eq_of_lt hd]; exact he)
      omega
  refine ⟨{ k.set d { k.desc d with bufPtr := .null, uBuf := none } with
    pc := .swipe (nextTxd n d) (rval + 1) caller
    released := k.released ++ (k.desc d).uBuf.toList }, rest ++ [⟨.null, none, (k.desc d).dmaOwned⟩], ?_, ?_,
    Pc.noConfusion, rfl⟩
  · exact if_neg hne
  · have hub : (k.desc d).uBuf = x.uBuf := by rw [← hget]; rfl
    have hmod : ∀ o, ((d + 1) % n + o) % n = (d + (o + 1)) % n := fun o => by
      simp [Nat.add_assoc, Nat.add_comm 1 o]
    refine ⟨?_, Nat.mod_lt _ (Nat.zero_lt_of_lt hd), ?_, ?_, fun s hs => h.busy s (mem_cons_of_mem _ hs),
      h.owned, ?_, h.accepted, ?_, ?_, fun _ => ?_⟩
    · show slots n _ ((d + 1) % n) = _
      rw [slots, ← append_assoc pend, ← append_assoc]
      exact hnext
    · show k.dTxH = ((d + 1) % n + _) % n
      rw [hmod, h.head, htail, length_cons]
      congr 2
      omega
    · show k.hw = ((d + 1) % n + _) % n
      rw [hmod, h.hw, htail, length_cons]
    · show k.sent = k.released ++ (k.desc d).uBuf.toList ++ done.filterMap Slot.uBuf
      rw [h.sent, hub, append_assoc]
      cases hxu : x.uBuf <;> simp [hxu]
    · grind [h.avail, Softc.swept, Softc.taken, Softc.set]
    · exact h.rest.concat hpc rfl rfl ⟨rfl, rfl⟩
    · obtain ⟨swept, hused, htailNow, hhead, havail, hreleased⟩ := h.since (by rw [hpc]; exact Pc.noConfusion)
      refine ⟨swept ++ [x.use], ?_, ?_, hhead, ?_, ?_⟩
      · rw [append_assoc]
        exact hused
      · show (d + 1) % n = _
        rw [htail] at htailNow
        rw [htailNow, Nat.mod_add_mod, length_append, length_singleton, Nat.add_assoc]
        rfl
      · grind [Softc.swept, Softc.taken, Softc.set]
      · grind [Slot.use, Softc.set]

/-! ## Sends -/

theorem Since.congr {busy : List Slot} (h : Since n k busy) (hbefore : k'.before = k.before)
    (htail : k'.tailNow = k.tailNow) (hhead : k'.dTxH = k.dTxH)
    (havail : k'.avail + k'.swept + k'.taken = k.avail + k.swept + k.taken) (hreleased : k'.released = k.released) :
    Since n k' busy := by
  grind [Since]

/-- The state of a send in which the scavenger has returned or was not called. -/
structure At (k k' : Softc) : Prop where
  desc : k'.desc = k.desc
  tail : k'.dTxT = k.tailNow
  head : k'.dTxH = k.dTxH
  hw : k'.hw = k.hw
  sent : k'.sent = k.sent
  released : k'.released = k.released
  accepted : k'.accepted = k.accepted
  avail : k'.avail = k.avail + k.swept

theorem Inv.head_lt (h : Inv n k done pend rest) : k.dTxH < n := by
  rw [h.head]
  exact Nat.mod_lt _ (Nat.zero_lt_of_lt h.tail)

theorem Inv.slot_head (h : Inv n k done pend rest) (o : Nat) :
    (k.dTxH + o) % n = (k.tailNow + (done.length + pend.length + o)) % n := by
  simp [h.head, Nat.add_assoc]

theorem Inv.begin {m : Chain}
    (h : Inv n k done pend rest) (hat : At k k') (htaken : k.taken = 0) (hpos : ¬ k'.avail ≤ 0)
    (hfree : AllFree rest) (hdata : ∀ e ∈ m.bufs, e.data ≠ 0) (hchain : nonEmpty m.bufs = b :: bs)
    (hit : it.it = bufAt m.id b bs) (hrem : Remains it m.id bs) (hsince : Since n (k'.begin n m it) (done ++ pend)) :
    Inv n (k'.begin n m it) done pend rest := by
  obtain ⟨first, free, rfl, howned, hall⟩ := hfree
  have hlen := h.length
  have havail := h.avail
  have hne : free ≠ [] := by
    rintro rfl
    grind [hat.avail, txAvailableRingSize]
  refine h.move ?_ hat.tail hat.head hat.hw hat.sent hat.released hat.accepted ?_ ?_ fun _ => hsince
  · show slots n k'.desc k.tailNow = _
    rw [hat.desc]
    exact h.ring
  · show k'.avail - 1 + ((0 : Nat) : Int) + ((1 : Nat) : Int) = _
    rw [hat.avail, htaken]
    omega
  · have hrest : ∀ y ∈ free, y.Free := fun y hy => hall y (mem_cons_of_mem _ hy)
    refine ⟨bs, first, [], free, b, [], hrem, rfl, ⟨hdata, hchain, hit, rfl, howned,
      hall first mem_cons_self, ?_, nofun, ⟨hne, hrest⟩, rfl, ?_, rfl⟩⟩
    · split <;> rfl
    · show k'.dTxH = k'.dTxH % n
      rw [Nat.mod_eq_of_lt]
      rw [hat.head]
      exact h.head_lt

theorem Inv.more {c b : Mbuf} (h : Inv n k done pend (x :: (xs ++ ys))) (hat : At k k')
    (htaken : k.taken = s.nmbs) (hpos : ¬ k'.avail ≤ 0)
    (hfill : Filled n k s (c :: bs) x xs ys b pre) (hit : it.it = bufAt s.m.id c bs)
    (hrem : Remains it s.m.id bs) (hsince : Since n (k'.more n s it) (done ++ pend)) :
    ∃ rest', Inv n (k'.more n s it) done pend rest' := by
  have hxs : xs.length = pre.length := by
    have := congrArg List.length hfill.filled
    rwa [length_map, if_neg (cons_ne_nil c bs), length_map] at this
  obtain ⟨y, ys, rfl⟩ := exists_cons_of_ne_nil hfill.free.1
  have hlen := h.length
  have havail := h.avail
  have hne : ys ≠ [] := by
    rintro rfl
    grind [hat.avail, hfill.nmbs, txAvailableRingSize]
  have hring : slots n k.desc k.tailNow = (done ++ (pend ++ (x :: xs))) ++ y :: ys := by
    rw [h.ring]
    simp
  have hset := slots_set hring (mvethAssignDescRaw it.it true false)
  have hd : (k.tailNow + (done ++ (pend ++ (x :: xs))).length) % n = s.d := by
    rw [hfill.d, h.slot_head]
    simp only [length_append, length_cons]
    congr 1
    omega
  rw [hd, hit, core_assign] at hset
  refine ⟨x :: ((xs ++ [slotOf s.m.id c bs true]) ++ ys),
    h.move ?_ hat.tail hat.head hat.hw hat.sent hat.released hat.accepted ?_ ?_ fun _ => hsince⟩
  · show slots n (update k'.desc s.d _) k.tailNow = _
    rw [hat.desc, hit, hset]
    simp
  · show k'.avail - 1 + ((0 : Nat) : Int) + ((s.nmbs + 1 : Nat) : Int) = _
    rw [hat.avail, htaken]
    omega
  · have hfree : ∀ z ∈ ys, z.Free := fun z hz => hfill.free.2 z (mem_cons_of_mem _ hz)
    refine ⟨bs, x, _, ys, b, pre ++ [c], hrem, rfl, ⟨hfill.data, ?_, ?_, ?_, hfill.owned, hfill.first, ?_, ?_,
      ⟨hne, hfree⟩, ?_, ?_, ?_⟩⟩
    · rw [append_assoc]
      exact hfill.chain
    · rw [append_assoc]
      exact hfill.head
    · show s.nmbs + 1 = _
      simp [hfill.nmbs, Nat.add_assoc]
    · rw [map_append, hfill.filled, if_neg (cons_ne_nil c bs)]
      split
      · rename_i hbs
        rw [uses_append _ (cons_ne_nil c [])]
        simp [uses, Slot.use, slotOf, hbs]
      · rename_i hbs
        simp [Slot.use, slotOf, hbs]
    · intro z hz
      grind [hfill.filledOwned, slotOf]
    · show s.h = k'.dTxH
      rw [hat.head]
      exact hfill.h
    · show s.d = (k'.dTxH + _) % n
      simp [hat.head, hfill.d]
    · show nextTxd n s.d = (k'.dTxH + _) % n
      rw [hat.head, hfill.d, nextTxd_slot, length_append, length_singleton]

theorem Filled.length (h : Filled n k s bs x xs ys b pre) : xs.length = pre.length := by
  have := congrArg List.length h.filled
  rw [length_map] at this
  rw [this]
  split
  · exact length_uses _ pre
  · exact length_map _

theorem Inv.undo {c b : Mbuf}
    (h : Inv n k done pend (x :: (xs ++ ys))) (hat : At k k') (htaken : k.taken = s.nmbs) (hneg : k'.avail ≤ 0)
    (hfill : Filled n k s (c :: bs) x xs ys b pre) (hbefore : k'.before = k.before) (hpc : k.pc ≠ .idle) :
    ∃ t rest', k'.undo n s = some t ∧ Inv n t done pend rest' ∧ Since n t (done ++ pend) ∧ t.pc = .idle ∧
      (t.result = -1 ∨ t.result = -2) ∧ (t.result = -2 ↔ done ++ pend = []) ∧
      (t.result = -2 → txAvailableRingSize n < (s.m.needed : Int)) := by
  have hxs := hfill.length
  have hys : 0 < ys.length := length_pos_of_ne_nil hfill.free.1
  have hlen := h.length
  have havail := h.avail
  simp only [length_cons, length_append] at hlen
  have hring : slots n k.desc k.tailNow = (done ++ (pend ++ [x])) ++ (xs ++ ys) := by
    rw [h.ring]
    simp
  have hpre : (done ++ (pend ++ [x])).length = done.length + pend.length + 1 := by
    simp only [length_append, length_singleton]
    omega
  obtain ⟨desc', hloop, hslots⟩ := undoLoop_slots xs _ k.desc n k'.avail (by omega) (by omega) hring
  have hl : (k.tailNow + (done ++ (pend ++ [x])).length) % n = nextTxd n s.h := by
    rw [hfill.h, hpre, ← h.slot_head, nextTxd]
  have hd : (k.tailNow + ((done ++ (pend ++ [x])).length + xs.length)) % n = s.d := by
    rw [hfill.d, h.slot_head, hpre]
    congr 1
    omega
  rw [hl, hd] at hloop
  have hundo : k'.undo n s = some { k' with
      desc := desc'
      avail := k'.avail + xs.length + 1
      pc := .idle
      result := if ((s.nmbs + 1 : Nat) : Int) > txAvailableRingSize n then -2 else -1 } := by
    rw [Softc.undo, hat.desc, hloop]
    rfl
  have hsum : k'.avail + (xs.length : Int) + 1 + ((0 : Nat) : Int) + ((0 : Nat) : Int) =
      k.avail + k.swept + k.taken := by
    rw [hat.avail, htaken, hfill.nmbs]
    omega
  refine ⟨_, x :: (xs.map (fun s => ⟨.null, s.uBuf, false⟩) ++ ys), hundo,
    h.move ?_ hat.tail hat.head hat.hw hat.sent hat.released hat.accepted hsum ?_ fun hne => absurd rfl hne,
    (h.since hpc).congr hbefore hat.tail hat.head hsum hat.released, rfl, ?_, ?_, ?_⟩
  · show slots n desc' k.tailNow = _
    rw [hslots]
    simp
  · refine ⟨x, _, rfl, hfill.owned, fun z hz => ?_⟩
    rcases mem_cons.mp hz with rfl | hz
    · exact hfill.first
    · rcases mem_append.mp hz with hz | hz
      · obtain ⟨w, hw, rfl⟩ := mem_map.mp hz
        have huse : w.use ∈ xs.map Slot.use := mem_map_of_mem hw
        rw [hfill.filled, if_neg (cons_ne_nil c bs)] at huse
        obtain ⟨e, -, he⟩ := mem_map.mp huse
        exact ⟨rfl, (congrArg Prod.snd he).symm⟩
      · exact hfill.free.2 z hz
  · grind
  · rw [hat.avail] at hneg
    rw [htaken, hfill.nmbs] at havail
    simp only [txAvailableRingSize] at havail
    have hiff : ((s.nmbs + 1 : Nat) : Int) > txAvailableRingSize n ↔ done ++ pend = [] := by
      rw [hfill.nmbs, ← length_eq_zero_iff, length_append, txAvailableRingSize]
      omega
    show (if _ then _ else _) = (-2 : Int) ↔ _
    split <;> simp_all
  · show (if _ then _ else _) = (-2 : Int) → _
    intro hres
    grind [Chain.needed, hfill.chain, hfill.nmbs]

theorem Filled.mem_data
    (h : Filled n k s bs x xs ys b pre) {e : Mbuf} (he : e ∈ b :: pre) : e.data ≠ 0 := by
  refine h.data e (mem_of_mem_filter (?_ : e ∈ nonEmpty s.m.bufs))
  rw [h.chain]
  grind

theorem Filled.busy (h : Filled n k s bs x xs ys b pre) (hy : y ∈ xs) : y.bufPtr ≠ .null := by
  have hptrs : ∀ e ∈ pre, ptrOf e ≠ .null := fun e he => ptrOf_ne_null (h.mem_data (mem_cons_of_mem _ he))
  have hmap : xs.map Slot.bufPtr = pre.map ptrOf := by
    have := congrArg (List.map Prod.fst) h.filled
    rw [map_map] at this
    rw [show xs.map Slot.bufPtr = xs.map (Prod.fst ∘ Slot.use) from rfl, this]
    split
    · exact fst_uses _ pre
    · rw [map_map]
      rfl
  grind [mem_map_of_mem]

theorem Filled.finish_slots
    (h : Inv n k done pend (x :: (xs ++ y :: ys))) (hfill : Filled n k s [] x xs (y :: ys) b pre) :
    slots n (k.finish n s).desc k.tailNow = done ++ (pend ++
      ((slotOf s.m.id b pre true :: xs) ++ ⟨y.bufPtr, y.uBuf, false⟩ :: ys)) := by
  have hlen : (done ++ pend).length = done.length + pend.length := length_append
  have hh : (k.tailNow + (done ++ pend).length) % n = s.h := by rw [hfill.h, hlen, ← h.head]
  obtain ⟨first, hfirst⟩ : ∃ first, first = slotOf s.m.id b pre false := ⟨_, rfl⟩
  have htag : (k.tailNow + ((done ++ pend) ++ first :: xs).length) % n = nextTxd n s.l := by
    rw [hfill.l, nextTxd_slot, h.slot_head, length_append, hlen, length_cons]
  -- the first descriptor, which is not the hardware's yet, and the flag of the last one
  obtain ⟨d1, hd1⟩ : ∃ d1, d1 = update k.desc s.h (mvethAssignDescRaw s.head false true) :=
    ⟨_, rfl⟩
  have hring : slots n k.desc k.tailNow = (done ++ pend) ++ x :: (xs ++ y :: ys) := by
    simp [h.ring]
  have h1 := slots_set hring (mvethAssignDescRaw s.head false true)
  rw [hh, ← hd1, hfill.head, append_nil, core_assign, ← hfirst] at h1
  obtain ⟨d2, hd2⟩ : ∃ d2, d2 = update d1 s.l { d1 s.l with last := true } := ⟨_, rfl⟩
  have hsame : slots n d2 k.tailNow = slots n d1 k.tailNow := by
    rw [hd2]
    exact slots_update_same rfl
  have h2 := hsame.trans h1
  -- the tag behind the chain
  rw [← cons_append, ← append_assoc] at h2
  obtain ⟨r, hr⟩ : ∃ r : Desc, r =
      { d2 (nextTxd n s.l) with dmaOwned := false, frst := false, last := false, error := false } := ⟨_, rfl⟩
  have h3 := slots_set h2 r
  have hget := slots_get h2
  rw [htag] at h3 hget
  have hcore : r.core = ⟨y.bufPtr, y.uBuf, false⟩ := by
    rw [hr, ← hget]
    rfl
  obtain ⟨d3, hd3⟩ : ∃ d3, d3 = update d2 (nextTxd n s.l) r := ⟨_, rfl⟩
  rw [← hd3, hcore, append_assoc, cons_append] at h3
  -- the first descriptor is given to the hardware
  have h4 := slots_set h3 { d3 s.h with dmaOwned := true }
  have hget' := slots_get h3
  rw [hh] at h4 hget'
  have hcore' : ({ d3 s.h with dmaOwned := true } : Desc).core = { first with dmaOwned := true } := by
    rw [← hget']
    rfl
  rw [hcore', hfirst, append_assoc] at h4
  have hdesc : (k.finish n s).desc = update d3 s.h { d3 s.h with dmaOwned := true } := by
    subst hd3 hr hd2 hd1
    rfl
  rw [hdesc, h4]
  rfl

theorem Inv.finish
    (h : Inv n k done pend (x :: (xs ++ ys))) (hpc : k.pc = .fill s) (hfill : Filled n k s [] x xs ys b pre) :
    ∃ pend' rest', Inv n (k.finish n s) done pend' rest' ∧ (s.m.needed : Int) ≤ txAvailableRingSize n := by
  obtain ⟨y, ys, rfl⟩ := exists_cons_of_ne_nil hfill.free.1
  have hslots := hfill.finish_slots h
  have hxs := hfill.length
  have hlen := h.length
  have havail := h.avail
  have htail : k.tailNow = k.dTxT := by rw [Softc.tailNow, hpc]
  have huses : (slotOf s.m.id b pre true :: xs).map Slot.use =
      uses s.m.id (b :: pre) := by
    rw [map_cons, hfill.filled, if_pos rfl]
    rfl
  refine ⟨pend ++ (slotOf s.m.id b pre true :: xs), ⟨y.bufPtr, y.uBuf, false⟩ :: ys,
    ⟨?_, ?_, ?_, ?_, ?_, ?_, h.sent, ?_, ?_, ?_, fun hne => absurd rfl hne⟩, ?_⟩
  · show slots n (k.finish n s).desc k.dTxT = _
    rw [← htail, hslots]
    simp
  · show k.dTxT < n
    rw [← htail]
    exact h.tail
  · show s.d = (k.dTxT + _) % n
    rw [hfill.d, h.slot_head, htail, length_append, length_cons]
    congr 1
    omega
  · show k.hw = (k.dTxT + _) % n
    rw [h.hw, htail]
  · intro z hz
    rw [← append_assoc] at hz
    rcases mem_append.mp hz with hz | hz
    · exact h.busy z hz
    · rcases mem_cons.mp hz with rfl | hz
      · exact ptrOf_ne_null (hfill.mem_data mem_cons_self)
      · exact hfill.busy hz
  · intro z hz
    rcases mem_append.mp hz with hz | hz
    · exact h.owned z hz
    · rcases mem_cons.mp hz with rfl | hz
      · rfl
      · exact hfill.filledOwned z hz
  · show k.accepted ++ [s.m.id] = k.sent ++ _
    rw [h.accepted, filterMap_append, ← snd_use (slotOf s.m.id b pre true :: xs), huses,
      filterMap_uses _ (cons_ne_nil b pre), append_assoc]
  · show k.avail + ((0 : Nat) : Int) + ((0 : Nat) : Int) = _
    grind [Softc.swept, Softc.taken, hfill.nmbs]
  · refine ⟨_, ys, rfl, rfl, fun z hz => ?_⟩
    rcases mem_cons.mp hz with rfl | hz
    · exact hfill.free.2 y mem_cons_self
    · exact hfill.free.2 z (mem_cons_of_mem _ hz)
  · grind [Chain.needed, hfill.chain, txAvailableRingSize]

/-! ## Steps -/

theorem SafeStep.of_busy {t : Softc} (hpc : t.pc = .idle → k.pc = .idle) (haccepted : t.accepted = k.accepted) :
    SafeStep n k t where
  swept := by
    rintro ⟨d, rval, he⟩ hidle
    exact Pc.noConfusion (he.symm.trans (hpc hidle))
  refused := by
    rintro ⟨hchain, hidle, -⟩
    rw [hpc hidle] at hchain
    exact Bool.noConfusion hchain
  accepted hne := absurd haccepted hne

theorem Inv.scavenged {t : Softc} {e : Snapshot} (h : Inv n t done pend rest) (hidle : t.pc = .idle)
    (hs : Since n t (done ++ pend)) (he : t.before = e) : Scavenged n e (t.snapshot n) := by
  obtain ⟨swept, hused, htail, hhead, havail, hreleased⟩ := hs
  subst he
  rw [Softc.swept, Softc.taken, hidle] at havail
  rw [Softc.tailNow, hidle] at htail
  refine ⟨swept, ?_, htail, hhead, ?_, hreleased⟩
  · rw [hused]
    exact congrArg _ h.used.symm
  · show t.avail = t.before.avail + swept.length
    simpa using havail

theorem Inv.complete (h : Inv n k done pend rest) (hu : (k.desc k.hw).dmaOwned = true) (clear error : Bool) :
    ∃ done' pend', Inv n (hwComplete n k clear error) done' pend' rest := by
  cases pend with
  | nil =>
    obtain ⟨first, free, rfl, howned, -⟩ := h.rest_first
    have hget := slots_get (show slots n k.desc k.tailNow = done ++ first :: free from h.ring)
    rw [← h.hw] at hget
    have := congrArg Slot.dmaOwned hget
    rw [howned] at this
    exact Bool.noConfusion (hu.symm.trans this)
  | cons x pend =>
    have hget := slots_get h.ring
    have hset := slots_set h.ring { k.desc k.hw with dmaOwned := !clear, error := error }
    rw [← h.hw] at hget hset
    have hcore : ({ k.desc k.hw with dmaOwned := !clear, error := error } : Desc).core =
        ⟨x.bufPtr, x.uBuf, !clear⟩ := by
      rw [← hget]
      rfl
    have hub : (k.desc k.hw).uBuf = x.uBuf := by
      rw [← hget]
      rfl
    have huse : ((done ++ [(⟨x.bufPtr, x.uBuf, !clear⟩ : Slot)]) ++ pend).map Slot.use =
        (done ++ x :: pend).map Slot.use := by
      simp [Slot.use]
    refine ⟨done ++ [⟨x.bufPtr, x.uBuf, !clear⟩], pend, ⟨?_, h.tail, ?_, ?_, ?_, ?_, ?_, ?_, ?_,
      h.rest.congr rfl rfl, ?_⟩⟩
    · show slots n (update k.desc k.hw _) k.tailNow = _
      rw [hset, hcore]
      simp
    · rw [length_append, length_singleton]
      refine h.head.trans ?_
      rw [length_cons]
      show _ = (k.tailNow + _) % n
      congr 2
      omega
    · show nextTxd n k.hw = (k.tailNow + _) % n
      simp [h.hw, nextTxd_slot]
    · intro s hs
      grind [h.busy]
    · exact fun s hs => h.owned s (mem_cons_of_mem _ hs)
    · show k.sent ++ (k.desc k.hw).uBuf.toList = k.released ++ _
      rw [h.sent, hub, filterMap_append, append_assoc]
      cases x.uBuf <;> simp
    · show k.accepted = k.sent ++ (k.desc k.hw).uBuf.toList ++ _
      rw [h.accepted, hub, append_assoc, filterMap_cons]
      cases x.uBuf <;> simp
    · refine h.avail.trans ?_
      rw [length_append, length_singleton, length_cons]
      omega
    · intro hpc
      obtain ⟨swept, h1, h2⟩ := h.since hpc
      exact ⟨swept, huse ▸ h1, h2⟩

theorem Inv.swipeReturn (hn : 2 ≤ n) (h : Inv n k [] pend rest)
    (hpc : k.pc = .swipe d rval caller) :
    ∃ t done' pend' rest', bspMveSwipeTx n k d rval caller = some t ∧ Inv n t done' pend' rest' ∧
      SafeStep n k t := by
  have htail : k.tailNow = d := by rw [Softc.tailNow, hpc]
  have hne : k.pc ≠ .idle := by
    rw [hpc]
    exact Pc.noConfusion
  have hexit : (k.desc d).bufPtr = .null ∨ (k.desc d).dmaOwned ∧ d = k.hw := by
    have hidx : d % n = d := Nat.mod_eq_of_lt (htail ▸ h.tail)
    cases pend with
    | nil =>
      obtain ⟨first, free, rfl, -, hfree⟩ := h.rest_first
      have hring := h.ring
      rw [htail] at hring
      have hget := slots_first hring
      rw [hidx] at hget
      exact Or.inl ((congrArg Slot.bufPtr hget).trans hfree.1)
    | cons x pend =>
      have hring := h.ring
      rw [htail] at hring
      have hget := slots_first hring
      rw [hidx] at hget
      refine Or.inr ⟨(congrArg Slot.dmaOwned hget).trans (h.owned x mem_cons_self), ?_⟩
      rw [h.hw, htail]
      exact hidx.symm
  have hat : At k { k with dTxT := d, avail := k.avail + rval } := by
    refine ⟨rfl, htail.symm, rfl, rfl, rfl, rfl, rfl, ?_⟩
    rw [Softc.swept, hpc]
  have hreturn : bspMveSwipeTx n k d rval caller =
      Tx.swipeReturn n { k with dTxT := d, avail := k.avail + rval } caller := by
    exact if_pos hexit
  have hsince := h.since hne
  have hr := h.rest
  rw [RestInv, hpc] at hr
  rw [hreturn]
  cases caller with
  | daemon =>
    have hsum : k.avail + (rval : Int) + ((0 : Nat) : Int) + ((0 : Nat) : Int) = k.avail + k.swept + k.taken := by
      rw [Softc.swept, Softc.taken, hpc]
      simp
    have hinv : Inv n { k with dTxT := d, avail := k.avail + rval, pc := .idle } [] pend rest :=
      h.move h.ring hat.tail rfl rfl rfl rfl rfl hsum hr fun he => absurd rfl he
    have hscavenged := hinv.scavenged rfl (hsince.congr rfl hat.tail rfl hsum rfl) rfl
    refine ⟨_, _, _, _, rfl, hinv, ⟨fun _ _ => ⟨hscavenged, ?_⟩, ?_, fun he => absurd rfl he⟩⟩
    · show k.released = k.sent
      rw [h.sent]
      simp
    · rintro ⟨hchain, -⟩
      rw [hpc] at hchain
      exact Bool.noConfusion hchain
  | start m it =>
    obtain ⟨hfree, hdata, b, bs, hchain, hit, hrem⟩ := hr
    have htaken : k.taken = 0 := by rw [Softc.taken, hpc]
    unfold Tx.swipeReturn
    dsimp only
    split
    · have hsum : k.avail + (rval : Int) + ((0 : Nat) : Int) + ((0 : Nat) : Int) = k.avail + k.swept + k.taken := by
        rw [Softc.swept, htaken, hpc]
        simp
      have hinv : Inv n { k with dTxT := d, avail := k.avail + rval, pc := .idle, result := -1 } [] pend rest :=
        h.move h.ring hat.tail rfl rfl rfl rfl rfl hsum hfree fun he => absurd rfl he
      have hscavenged := hinv.scavenged rfl (hsince.congr rfl hat.tail rfl hsum rfl) rfl
      refine ⟨_, _, _, _, rfl, hinv, ⟨?_, fun _ => ⟨hscavenged, Or.inl rfl, ?_, ?_⟩,
        fun he => absurd rfl he⟩⟩
      · rintro ⟨d', rval', he⟩
        rw [hpc] at he
        cases he
      · refine iff_of_false (show ¬ (-1 : Int) = -2 by decide) ?_
        rw [hinv.used]
        intro hnil
        have havail := h.avail
        have hzero := congrArg List.length hnil
        grind [txAvailableRingSize]
      · intro m' _ he
        exact absurd he (show ¬ (-1 : Int) = -2 by decide)
    · rename_i hpos
      refine ⟨_, _, _, _, rfl, h.begin hat htaken hpos hfree hdata hchain hit hrem ?_,
        SafeStep.of_busy (fun he => Pc.noConfusion he) rfl⟩
      refine hsince.congr rfl hat.tail rfl ?_ rfl
      grind [Softc.swept, Softc.begin, Softc.taken]
  | more s it =>
    obtain ⟨c, bs, x, xs, ys, b, pre, hit, hrem, rfl, hfill⟩ := hr
    have htaken : k.taken = s.nmbs := by rw [Softc.taken, hpc]
    unfold Tx.swipeReturn
    dsimp only
    split
    · rename_i hneg
      obtain ⟨t, rest', ht, hinv, hs, hidle, hres, hiff, hnever⟩ := h.undo hat htaken hneg hfill rfl hne
      have hk : t.before = k.before ∧ t.accepted = k.accepted := by
        obtain ⟨r, -, rfl⟩ := Option.map_eq_some_iff.mp ht
        exact ⟨rfl, rfl⟩
      refine ⟨t, [], pend, rest', ht, hinv, ⟨?_, fun _ => ⟨hinv.scavenged hidle hs hk.1, hres, ?_, ?_⟩,
        fun he => absurd hk.2 he⟩⟩
      · rintro ⟨d', rval', he⟩
        rw [hpc] at he
        cases he
      · simp [hiff, hinv.used]
      · intro m hm hres
        rw [hpc] at hm
        obtain rfl : s.m = m := Option.some.inj hm
        exact hnever hres
    · rename_i hpos
      obtain ⟨rest', hinv⟩ := h.more hat htaken hpos hfill hit hrem (hsince.congr rfl hat.tail rfl (by
        grind [Softc.swept, Softc.more, Softc.taken]) rfl)
      exact ⟨_, _, _, _, rfl, hinv, SafeStep.of_busy (fun he => Pc.noConfusion he) rfl⟩

theorem Inv.swipe (hn : 2 ≤ n) (h : Inv n k done pend rest) (hpc : k.pc = .swipe d rval caller) :
    ∃ t done' pend' rest', bspMveSwipeTx n k d rval caller = some t ∧ Inv n t done' pend' rest' ∧
      SafeStep n k t := by
  cases done with
  | nil => exact h.swipeReturn hn hpc
  | cons x done =>
    obtain ⟨t, rest', ht, hinv, hpc', haccepted⟩ := h.sweep hpc
    exact ⟨t, _, _, _, ht, hinv, SafeStep.of_busy (fun he => absurd he hpc') haccepted⟩

theorem Inv.fillPass (h : Inv n k done pend rest) (hpc : k.pc = .fill s) :
    ∃ done' pend' rest', Inv n (fillPass n k s) done' pend' rest' ∧ SafeStep n k (fillPass n k s) := by
  have htail : k.tailNow = k.dTxT := by rw [Softc.tailNow, hpc]
  have hswept : k.swept = 0 := by rw [Softc.swept, hpc]
  have htaken : k.taken = s.nmbs := by rw [Softc.taken, hpc]
  have hsince := h.since (by rw [hpc]; exact Pc.noConfusion)
  have hat : At k k := ⟨rfl, htail.symm, rfl, rfl, rfl, rfl, rfl, by rw [hswept]; simp⟩
  have hr := h.rest
  rw [RestInv, hpc] at hr
  obtain ⟨bs, x, xs, ys, b, pre, hrem, rfl, hfill⟩ := hr
  unfold Tx.fillPass
  rcases nextBuf_spec hrem with ⟨rfl, hnone⟩ | ⟨c, bs', it, rfl, hpos, hsome, hit, hrem'⟩
  · rw [hnone]
    obtain ⟨pend', rest', hinv, hneeded⟩ := h.finish hpc hfill
    refine ⟨done, pend', rest', hinv, ⟨?_, ?_, fun _ => ⟨Int.natCast_nonneg _, ?_⟩⟩⟩
    · rintro ⟨d, rval, he⟩
      rw [hpc] at he
      cases he
    · rintro ⟨-, -, he⟩
      have := congrArg List.length (show k.accepted ++ [s.m.id] = k.accepted from he)
      rw [length_append, length_singleton] at this
      omega
    · intro m hm
      rw [hpc] at hm
      obtain rfl : s.m = m := Option.some.inj hm
      exact ⟨hneeded, rfl⟩
  · rw [hsome]
    dsimp only
    have hlen : it.it.len ≠ 0 := by
      rw [hit]
      exact Nat.ne_of_gt hpos
    rw [if_neg hlen]
    split
    · have hsum : k.avail + ((0 : Nat) : Int) + (s.nmbs : Int) = k.avail + k.swept + k.taken := by
        omega
      refine ⟨done, pend, _, h.move h.ring htail.symm rfl rfl rfl rfl rfl hsum ?_ fun _ =>
        hsince.congr rfl htail.symm rfl hsum rfl, SafeStep.of_busy (fun he => Pc.noConfusion he) rfl⟩
      exact ⟨c, bs', x, xs, ys, b, pre, hit, hrem', rfl, hfill.congr rfl⟩
    · obtain ⟨rest', hinv⟩ := h.more hat htaken (by omega) hfill hit hrem' (hsince.congr rfl htail.symm rfl (by
        grind [Softc.more, Softc.swept, Softc.taken]) rfl)
      exact ⟨_, _, _, hinv, SafeStep.of_busy (fun he => Pc.noConfusion he) rfl⟩

theorem Inv.send {m : Chain} (h : Inv n k done pend rest) (hpc : k.pc = .idle)
    (hdata : ∀ e ∈ m.bufs, e.data ≠ 0) :
    Inv n (mveSendMbuf n k m) done pend rest ∧ (mveSendMbuf n k m).accepted = k.accepted := by
  have htail : k.tailNow = k.dTxT := by rw [Softc.tailNow, hpc]
  have hswept : k.swept = 0 := by rw [Softc.swept, hpc]
  have htaken : k.taken = 0 := by rw [Softc.taken, hpc]
  have hsum : k.avail + ((0 : Nat) : Int) + ((0 : Nat) : Int) = k.avail + k.swept + k.taken := by
    omega
  have hfree := h.rest
  rw [RestInv, hpc] at hfree
  unfold mveSendMbuf
  rcases initIter_spec m with ⟨-, hnone⟩ | ⟨b, bs, it, hchain, hsome, hit, hrem⟩
  · rw [hnone]
    refine ⟨h.move h.ring rfl rfl rfl rfl rfl rfl rfl (h.rest.congr rfl rfl) fun he => absurd hpc he, rfl⟩
  · rw [hsome]
    dsimp only
    split
    · refine ⟨h.move h.ring htail.symm rfl rfl rfl rfl rfl hsum ?_ fun _ => ?_, rfl⟩
      · exact ⟨hfree, hdata, b, bs, hchain, hit, hrem⟩
      · exact h.since_snapshot hpc rfl htail.symm rfl (by simp [Softc.swept, Softc.taken]) rfl
    · have hat : At k { k with before := k.snapshot n } := by
        refine ⟨rfl, htail.symm, rfl, rfl, rfl, rfl, rfl, ?_⟩
        rw [hswept]
        simp
      refine ⟨h.begin hat htaken (by dsimp only; omega) hfree hdata hchain hit hrem ?_, rfl⟩
      exact h.since_snapshot hpc rfl htail.symm rfl (by simp [Softc.swept, Softc.taken, Softc.begin]) rfl

theorem inv_step {t : Softc} {a : Action} (hn : 2 ≤ n) (h : Inv n k done pend rest) (hs : step n k a = some t) :
    (∃ done' pend' rest', Inv n t done' pend' rest') ∧ SafeStep n k t := by
  cases a with
  | send m =>
    obtain ⟨⟨hpc, hdata⟩, ⟨⟩⟩ := Option.ite_none_right_eq_some.mp hs
    obtain ⟨hinv, haccepted⟩ := h.send hpc hdata
    exact ⟨⟨_, _, _, hinv⟩, SafeStep.of_busy (fun _ => hpc) haccepted⟩
  | swipe =>
    obtain ⟨hpc, ⟨⟩⟩ := Option.ite_none_right_eq_some.mp hs
    have htail : k.tailNow = k.dTxT := by rw [Softc.tailNow, hpc]
    have hfree := h.rest
    rw [RestInv, hpc] at hfree
    refine ⟨⟨done, pend, rest, h.move h.ring htail.symm rfl rfl rfl rfl rfl ?_ hfree fun _ => ?_⟩,
      SafeStep.of_busy (fun _ => hpc) rfl⟩
    · show k.avail + ((0 : Nat) : Int) + ((0 : Nat) : Int) = _
      rw [Softc.swept, Softc.taken, hpc]
    · exact h.since_snapshot hpc rfl htail.symm rfl (by simp [Softc.swept, Softc.taken]) rfl
  | driver =>
    unfold step at hs
    dsimp only at hs
    split at hs <;> rename_i hpc
    · cases hs
    · obtain ⟨t', done', pend', rest', ht, hinv, hsafe⟩ := h.swipe hn hpc
      obtain rfl : t' = t := Option.some.inj (ht.symm.trans hs)
      exact ⟨⟨_, _, _, hinv⟩, hsafe⟩
    · grind [h.fillPass]
  | complete clear error =>
    obtain ⟨hu, ⟨⟩⟩ := Option.ite_none_right_eq_some.mp hs
    obtain ⟨done', pend', hinv⟩ := h.complete hu clear error
    exact ⟨⟨_, _, _, hinv⟩, SafeStep.of_busy id rfl⟩

/-! ## Runs -/

def Slot.busy (s : Slot) : Bool := s.bufPtr ≠ .null

theorem countP_free {l : List Slot} (h : ∀ s ∈ l, s.Free) : l.countP Slot.busy = 0 :=
  countP_eq_zero.mpr fun s hs => by simp [Slot.busy, (h s hs).1]

theorem countP_busy {l : List Slot} (h : ∀ s ∈ l, s.bufPtr ≠ .null) : l.countP Slot.busy = l.length :=
  countP_eq_length.mpr fun s hs => by simp [Slot.busy, h s hs]

theorem Filled.countP
    (h : Filled n k s bs x xs ys b pre) : (x :: (xs ++ ys)).countP Slot.busy + 1 = s.nmbs := by
  have hx : x.busy = false := by simp [Slot.busy, h.first.1]
  rw [countP_cons_of_neg (by rw [hx]; exact Bool.noConfusion), countP_append,
    countP_busy fun y hy => h.busy hy, countP_free h.free.2, h.length, h.nmbs]
  omega

theorem RestInv.countP (h : RestInv n k rest) : rest.countP Slot.busy + k.reserved = k.taken := by
  have hall : AllFree rest → rest.countP Slot.busy + 0 = 0 := by
    rintro ⟨first, free, -, -, hfree⟩
    rw [countP_free hfree]
  unfold RestInv at h
  rw [Softc.reserved, Softc.taken]
  split at h <;> rename_i hpc <;> rw [hpc]
  · exact hall h
  · exact hall h
  · exact hall h.1
  · obtain ⟨bs, x, xs, ys, b, pre, -, rfl, hfill⟩ := h
    exact hfill.countP
  · obtain ⟨c, bs, x, xs, ys, b, pre, -, -, rfl, hfill⟩ := h
    exact hfill.countP

theorem Inv.inUse (h : Inv n k done pend rest) :
    k.inUse n + k.reserved = done.length + pend.length + k.taken := by
  have hview : k.inUse n = (slots n k.desc k.tailNow).countP Slot.busy := by
    rw [slots, ← (view_perm (Nat.le_of_lt h.tail)).countP_eq, view, countP_map, Softc.inUse]
    refine countP_congr fun d hd => ?_
    simp [Nat.mod_eq_of_lt (mem_range.mp hd), Slot.busy, Desc.core]
  have hrest := h.rest.countP
  rw [hview, h.ring, ← append_assoc, countP_append, countP_busy h.busy, length_append]
  omega

theorem Inv.proper (h : Inv n k done pend rest) : Proper n k where
  head := by
    obtain ⟨first, free, rfl, -, hfree⟩ := h.rest_first
    have hget := slots_get (show slots n k.desc k.tailNow = (done ++ pend) ++ first :: free by
      simp [h.ring])
    rw [length_append, ← h.head] at hget
    exact (congrArg Slot.bufPtr hget).trans hfree.1
  avail := by
    have havail := h.avail
    have hinUse := h.inUse
    omega
  accepted := by
    rw [h.accepted, h.sent, h.used, snd_use, filterMap_append, append_assoc]
  released := ⟨_, h.sent.symm⟩
  sent := ⟨_, h.accepted.symm⟩
  free := by
    intro hpc d hd hnull
    have hr := h.rest
    rw [RestInv, hpc] at hr
    obtain ⟨first, free, -, -, hfree⟩ := hr
    obtain ⟨pre, post, hsplit, -⟩ := view_split (f := fun d => (k.desc d).core) h.tail hd
    have hmem : (k.desc d).core ∈ slots n k.desc k.tailNow := by
      rw [slots, hsplit]
      exact mem_append_right _ mem_cons_self
    grind [h.ring, h.busy, Desc.core, Slot.Free]

/-- **The transmit ring is accounted for in every state of every run.** -/
theorem ring_accounted (hn : 2 ≤ n) (as : List Action) :
    StepsMeet (step n) (fun k a => ∀ t ∈ step n k a, Proper n t ∧ SafeStep n k t)
      (mvethInitTxDescRing n) as := by
  have hall : ∀ (as : List Action) (k : Softc), (∃ done pend rest, Inv n k done pend rest) →
      StepsMeet (step n) (fun k a => ∀ t ∈ step n k a, Proper n t ∧ SafeStep n k t) k as := by
    intro as
    induction as with
    | nil => exact fun _ _ => trivial
    | cons a as ih =>
      rintro k ⟨done, pend, rest, h⟩
      refine ⟨fun t ht => ?_, fun t ht => ih t (inv_step hn h ht).1⟩
      obtain ⟨⟨_, _, _, hinv⟩, hsafe⟩ := inv_step hn h ht
      exact ⟨hinv.proper, hsafe⟩
  obtain ⟨rest, hinit⟩ := inv_init (Nat.lt_of_lt_of_le Nat.zero_lt_two hn)
  exact hall as _ ⟨[], [], rest, hinit⟩

/-- A chain that does not fit, in an empty ring with two descriptors. -/
theorem ring_accounted_twoDescriptors :
    StepsMeet (step 3) (fun k a => ∀ t ∈ step 3 k a, Proper 3 t ∧ SafeStep 3 k t) (mvethInitTxDescRing 3)
      [.send ⟨8, [⟨4096, 60⟩, ⟨4096, 60⟩, ⟨4096, 60⟩]⟩, .driver, .driver, .driver] :=
  ring_accounted (by decide) _

/-- A chain that never fits is refused with -1 while another chain is in the ring. -/
theorem oversized_refused_busy :
    ¬ ∀ as : List Action, StepsMeet (step 3) (fun k a => ∀ t ∈ step 3 k a, Refused k t →
      ∀ m ∈ k.pc.chain, (t.result = -2 ↔ txAvailableRingSize 3 < (m.needed : Int)))
      (mvethInitTxDescRing 3) as := by
  intro h
  have hrun := h [.send ⟨7, [⟨4096, 60⟩]⟩, .driver, .send ⟨8, [⟨4096, 60⟩, ⟨4096, 60⟩, ⟨4096, 60⟩]⟩, .driver,
    .driver]
  have hlast := ((((hrun.2 _ rfl).2 _ rfl).2 _ rfl).2 _ rfl).1 _ rfl ⟨rfl, rfl, rfl⟩ _ rfl
  exact absurd (hlast.mpr (by decide)) (by decide)

end RtemsLibbsd.Mve.Tx

import RtemsLibbsd.Ethernet.Stmac

/-!
# Runs of the STM32 transmit ring

The slots of the ring from the tail on are a list: the descriptors that were completed, those the hardware owns, and
the rest, which is free or belongs to the frame that is put into the ring.

* `Filled` — the elements of a frame in pairs, the last one maybe without its partner.
* `PcInv`, `Inv` — the invariant; one lemma for each step.
* `buffers_accounted` — the result about runs.
-/

namespace RtemsLibbsd.Stmac

open List Function Transition BufferRing Ethernet

/-! ## Pairs of elements -/

theorem pack_concat (a : Mbuf) : ∀ es : List Mbuf, es.length % 2 = 0 →
    pack (es ++ [a]) = pack es ++ [⟨a.data, 0, a.len⟩]
  | [], _ => rfl
  | [_], h => by simp at h
  | x :: y :: es, h => by
    have := pack_concat a es (by simp only [length_cons] at h; omega)
    simp [pack, this]

theorem pack_concat_pair (a b : Mbuf) : ∀ es : List Mbuf, es.length % 2 = 0 →
    pack (es ++ [a, b]) = pack es ++ [⟨a.data, b.data, sizes a.len b.len⟩]
  | [], _ => rfl
  | [_], h => by simp at h
  | x :: y :: es, h => by
    have := pack_concat_pair a b es (by simp only [length_cons] at h; omega)
    simp [pack, this]

theorem length_pack : ∀ es : List Mbuf, (pack es).length = (es.length + 1) / 2
  | [] => rfl
  | [_] => by simp [pack]
  | x :: y :: es => by
    simp only [pack, length_cons, length_pack es]
    omega

theorem pack_ne_nil {es : List Mbuf} (h : es ≠ []) : pack es ≠ [] := by
  cases es with
  | nil => exact absurd rfl h
  | cons a es => cases es <;> simp [pack]

theorem elements_pair {a b : Mbuf} (ha : 0 < a.len ∧ a.len < 2 ^ 16) (hb : 0 < b.len ∧ b.len < 2 ^ 16) :
    (⟨a.data, b.data, sizes a.len b.len⟩ : Bufs).elements = [a, b] := by
  have hsizes : sizes a.len b.len = b.len * 2 ^ 16 + a.len := by
    rw [sizes, ← Nat.shiftLeft_add_eq_or_of_lt ha.2, Nat.shiftLeft_eq, Nat.mod_eq_of_lt (by omega)]
  have hlow : (b.len * 2 ^ 16 + a.len) % 2 ^ 16 = a.len := by omega
  have hhigh : (b.len * 2 ^ 16 + a.len) / 2 ^ 16 = b.len := by omega
  show nonEmpty [⟨a.data, sizes a.len b.len % 2 ^ 16⟩, ⟨b.data, sizes a.len b.len / 2 ^ 16⟩] = [a, b]
  rw [hsizes, hlow, hhigh]
  simp [nonEmpty, ha.1, hb.1]

theorem elements_pack : ∀ es : List Mbuf, (∀ e ∈ es, 0 < e.len ∧ e.len < 2 ^ 16) →
    (pack es).flatMap Bufs.elements = es
  | [], _ => rfl
  | [a], h => by
    have ha := h a mem_cons_self
    show nonEmpty [⟨a.data, a.len % 2 ^ 16⟩, ⟨0, a.len / 2 ^ 16⟩] ++ [] = [a]
    rw [Nat.mod_eq_of_lt ha.2, Nat.div_eq_of_lt ha.2]
    simp [nonEmpty, ha.1]
  | a :: b :: es, h => by
    have ha := h a mem_cons_self
    have hb := h b (mem_cons_of_mem _ mem_cons_self)
    have htail := elements_pack es fun e he => h e (mem_cons_of_mem _ (mem_cons_of_mem _ he))
    rw [pack, flatMap_cons, elements_pair ha hb, htail]
    rfl

/-- The descriptors `filled` have the elements `bs` in pairs; `part` is the one that has an element without a
    partner, whose length is in the variable `desc2`. -/
def Filled (bs : List Mbuf) (filled part : List Slot) (desc2 : Nat) : Prop :=
  ∃ es, es.length % 2 = 0 ∧ filled.map Slot.bufs = pack es ∧
    ((bs = es ∧ part = []) ∨
      ∃ a s, bs = es ++ [a] ∧ part = [s] ∧ s.bufs.desc0 = a.data ∧ desc2 = a.len)

variable {bs : List Mbuf}

theorem Filled.even {filled part : List Slot} (h : Filled bs filled part desc2)
    (hlen : bs.length % 2 = 0) : filled.map Slot.bufs = pack bs ∧ part = [] := by
  obtain ⟨es, heven, hfilled, ⟨rfl, rfl⟩ | ⟨a, s, rfl, -⟩⟩ := h
  · exact ⟨hfilled, rfl⟩
  · rw [length_append, length_singleton] at hlen
    omega

theorem Filled.odd {filled part : List Slot} (h : Filled bs filled part desc2)
    (hlen : bs.length % 2 = 1) : ∃ es a s, es.length % 2 = 0 ∧ filled.map Slot.bufs = pack es ∧ bs = es ++ [a] ∧
      part = [s] ∧ s.bufs.desc0 = a.data ∧ desc2 = a.len := by
  obtain ⟨es, heven, hfilled, ⟨rfl, rfl⟩ | ⟨a, s, hbs, hpart, hdesc0, hdesc2⟩⟩ := h
  · omega
  · exact ⟨es, a, s, heven, hfilled, hbs, hpart, hdesc0, hdesc2⟩

theorem Filled.length {filled part : List Slot} (h : Filled bs filled part desc2) :
    2 * filled.length + part.length = bs.length := by
  grind [length_pack, Filled]

/-! ## The invariant -/

def Free (s : Slot) : Prop := s.own = false ∧ s.m = none

theorem readySlots_cons (m : Frame) (fd : Bool) (b : Bufs) {bs : List Bufs} (h : bs ≠ []) :
    readySlots m fd (b :: bs) = ⟨b, true, fd, false, false, m.len, m.cic, none⟩ :: readySlots m false bs := by
  cases bs with
  | nil => exact absurd rfl h
  | cons c bs => rfl

theorem length_readySlots (m : Frame) : ∀ (fd : Bool) (bs : List Bufs), (readySlots m fd bs).length = bs.length
  | _, [] => rfl
  | _, [_] => rfl
  | fd, b :: c :: bs => by
    simp [readySlots_cons m fd b (cons_ne_nil c bs), length_readySlots m false (c :: bs)]

theorem readySlots_own (m : Frame) : ∀ (fd : Bool) (bs : List Bufs), ∀ s ∈ readySlots m fd bs,
    s.own = true ∧ (s.m ≠ none → s.ld = true)
  | _, [], s, h => by cases h
  | fd, [b], s, h => by
    rw [mem_singleton.mp h]
    exact ⟨rfl, fun _ => rfl⟩
  | fd, b :: c :: bs, s, h => by
    rcases mem_cons.mp h with rfl | h
    · exact ⟨rfl, fun hm => absurd rfl hm⟩
    · exact readySlots_own m false (c :: bs) s h

theorem bufs_readySlots (m : Frame) : ∀ (fd : Bool) (bs : List Bufs), (readySlots m fd bs).map Slot.bufs = bs
  | _, [] => rfl
  | _, [_] => rfl
  | fd, b :: c :: bs => by
    rw [readySlots_cons m fd b (cons_ne_nil c bs), map_cons, bufs_readySlots m false (c :: bs)]

variable {m : Frame}

theorem elements_ready (h : m.Fits) : m.ready.flatMap (fun s => s.bufs.elements) = m.bufs := by
  have hlen : ∀ e ∈ m.bufs, 0 < e.len ∧ e.len < 2 ^ 16 := fun e he =>
    ⟨of_decide_eq_true (mem_filter.mp he).2, h.2 e he⟩
  rw [← flatMap_map, Frame.ready, bufs_readySlots, elements_pack _ hlen]

theorem mem_readySlots (m : Frame) : ∀ (fd : Bool) (bs : List Bufs), bs ≠ [] →
    some m.id ∈ (readySlots m fd bs).map Slot.m
  | _, [], h => absurd rfl h
  | _, [_], _ => by simp [readySlots]
  | fd, b :: c :: bs, _ => by
    rw [readySlots_cons m fd b (cons_ne_nil c bs)]
    exact mem_cons_of_mem _ (mem_readySlots m false (c :: bs) (cons_ne_nil c bs))

def PcInv (k : Softc) (t : Nat) (base rest : List Slot) : Prop :=
  match k.pc with
  | .idle => ∀ s ∈ rest, Free s
  | .fill m _ n idx bufs desc2 => m.Fits ∧ ∃ pre filled part free, m.chain = pre ++ n ∧
      bufs = (nonEmpty pre).length ∧ idx = (t + (base ++ filled).length) % txDescCount ∧
      rest = filled ++ (part ++ free) ∧ free ≠ [] ∧ (∀ s ∈ rest, Free s) ∧ Filled (nonEmpty pre) filled part desc2
  | .publish m _ _ idx ld => m.Fits ∧ ∃ ys y zs un s free, pack m.bufs = ys ++ y :: zs ∧ ld = zs.isEmpty ∧
      idx = (t + (base ++ un).length) % txDescCount ∧
      k.txIdxHead = (t + (base.length + (pack m.bufs).length)) % txDescCount ∧
      rest = un ++ s :: (readySlots m false zs ++ free) ∧ un.map Slot.bufs = ys ∧ s.bufs = y ∧
      (∀ x ∈ un, Free x) ∧ s.own = false ∧ s.m = (if zs = [] then some m.id else none) ∧ free ≠ [] ∧
      ∀ x ∈ free, Free x
  | .reclaim m _ => (∀ s ∈ rest, Free s) ∧ ∀ f ∈ m, f.Fits

structure Inv (k : Softc) (done owned rest : List Slot) : Prop extends Flight k done owned rest where
  account : Account k.given k.freed ((done ++ (owned ++ rest)).filterMap Slot.m ++ k.pc.frame)
  last : ∀ s ∈ done ++ owned, s.m ≠ none → s.ld = true
  fits : ∀ m ∈ k.accepted, m.Fits
  /-- The mbuf of a descriptor that the hardware completed was freed, or is still there. -/
  released : ∀ b, some b ∈ k.sent.map Slot.m → b ∈ k.freed ∨ some b ∈ done.map Slot.m
  tail : k.tailNow < txDescCount
  hw : k.hw = (k.tailNow + done.length) % txDescCount
  pc : PcInv k k.tailNow (done ++ owned) rest

theorem view_zero (t : Nat) : ∀ s ∈ view txDescCount (fun _ => Slot.zero) t, Free s := by
  intro s hs
  obtain ⟨o, -, rfl⟩ := mem_map.mp hs
  exact ⟨rfl, rfl⟩

theorem filterMap_of_free {l : List Slot} (h : ∀ s ∈ l, Free s) : l.filterMap Slot.m = [] := by
  rw [filterMap_eq_nil_iff]
  exact fun s hs => (h s hs).2

theorem inv_zero (hring : k.ring = fun _ => Slot.zero) (hhead : k.txIdxHead = 0)
    (htail : k.txIdxTail = 0) (hpc : k.pc = .idle) (hhw : k.hw = 0) (haccepted : k.accepted = [])
    (hsent : k.sent = []) (haccount : Account k.given k.freed []) :
    ∃ rest, Inv k [] [] rest := by
  have htailNow : k.tailNow = 0 := by rw [Softc.tailNow, hpc]; exact htail
  have hheadNow : k.headNow = 0 := by rw [Softc.headNow, hpc]; exact hhead
  refine ⟨view txDescCount (fun _ => Slot.zero) 0, ⟨?_, ?_, by decide, nofun, nofun, ?_, ?_⟩, ?_, nofun, ?_, ?_, ?_, ?_,
    ?_⟩
  · rw [hring, htailNow]
    rfl
  · rw [hheadNow, htailNow]
    rfl
  · rw [hsent, haccepted]
    rfl
  · rw [hsent, haccepted]
    exact fun _ => rfl
  · rw [hpc, nil_append, nil_append, filterMap_of_free (view_zero 0)]
    exact haccount
  · rw [haccepted]
    exact nofun
  · rw [hsent]
    exact nofun
  · rw [htailNow]
    decide
  · rw [hhw, htailNow]
    rfl
  · unfold PcInv
    rw [hpc]
    exact view_zero 0

variable {k : Softc} {done owned rest : List Slot}

variable {k' : Softc}

theorem Inv.move {rest' : List Slot} (h : Inv k done owned rest) (htail : k'.tailNow = k.tailNow)
    (hhead : k'.headNow = k.headNow)
    (hring : view txDescCount k'.ring k.tailNow = done ++ (owned ++ rest')) (haccepted : k'.accepted = k.accepted)
    (hsent : k'.sent = k.sent) (hhw : k'.hw = k.hw) (hrunning : k'.running = k.running)
    (haccount : Account k'.given k'.freed ((done ++ (owned ++ rest')).filterMap Slot.m ++ k'.pc.frame))
    (hfreed : ∀ b ∈ k.freed, b ∈ k'.freed)
    (hpc : PcInv k' k.tailNow (done ++ owned) rest') : Inv k' done owned rest' where
  ring := by
    rw [htail]
    exact hring
  head := by
    rw [hhead, htail]
    exact h.head
  size := h.size
  completed := h.completed
  ownedByHw := h.ownedByHw
  frames := by
    rw [hsent, haccepted]
    exact h.frames
  mbufs := by
    rw [hsent, haccepted, hrunning]
    exact h.mbufs
  account := haccount
  last := h.last
  fits := by
    rw [haccepted]
    exact h.fits
  released := fun b hb => (h.released b (hsent ▸ hb)).imp_left (hfreed b)
  tail := htail ▸ h.tail
  hw := by
    rw [hhw, htail]
    exact h.hw
  pc := by
    rw [htail]
    exact hpc

theorem Inv.length (h : Inv k done owned rest) : (done ++ owned).length + rest.length = txDescCount := by
  have hring := h.ring
  rw [← append_assoc] at hring
  exact length_le_of_view hring

theorem Inv.rest_ne_nil (h : Inv k done owned rest) : rest ≠ [] := by
  rintro rfl
  have := h.length
  have := h.size
  simp only [length_nil, txDescCount] at *
  omega

/-! ## Frames into the ring -/

variable {retry : Bool}

theorem Inv.enqueue (h : Inv k done owned rest)
    (hfree : ∀ s ∈ rest, Free s) (hm : m.Fits) (hring : k'.ring = k.ring) (htail : k'.txIdxTail = k.tailNow)
    (hhead : k'.txIdxHead = k.headNow) (haccepted : k'.accepted = k.accepted) (hsent : k'.sent = k.sent)
    (hhw : k'.hw = k.hw) (hrunning : k'.running = k.running) (hfreed : k'.freed = k.freed)
    (haccount : Account k'.given k'.freed ((done ++ (owned ++ rest)).filterMap Slot.m ++ [m.id])) :
    Inv (k'.enqueue m retry) done owned rest := by
  refine h.move htail hhead ?_ haccepted hsent hhw hrunning haccount (fun b hb => hfreed ▸ hb) ?_
  · rw [show (k'.enqueue m retry).ring = k.ring from hring]
    exact h.ring
  · refine ⟨hm, [], [], [], rest, rfl, rfl, ?_, rfl, h.rest_ne_nil, hfree, [], rfl, rfl, .inl ⟨rfl, rfl⟩⟩
    rw [append_nil, ← h.head]
    exact hhead

variable {idx bufs desc2 : Nat} {n : List Mbuf}

theorem Inv.fill (h : Inv k done owned rest) (hpc : k.pc = .fill m retry n idx bufs desc2) :
    (k.tailNow = k.txIdxTail ∧ k.headNow = k.txIdxHead ∧
      Account k.given k.freed ((done ++ (owned ++ rest)).filterMap Slot.m ++ [m.id])) ∧
    m.Fits ∧ ∃ pre filled part free, m.chain = pre ++ n ∧ bufs = (nonEmpty pre).length ∧
      idx = (k.tailNow + (done ++ owned ++ filled).length) % txDescCount ∧ rest = filled ++ (part ++ free) ∧
      free ≠ [] ∧ (∀ s ∈ rest, Free s) ∧ Filled (nonEmpty pre) filled part desc2 := by
  have hp := h.pc
  have haccount := h.account
  unfold PcInv at hp
  rw [hpc] at hp haccount
  exact ⟨⟨by rw [Softc.tailNow, hpc], by rw [Softc.headNow, hpc], haccount⟩, hp⟩

variable {s : Slot}

theorem Inv.set_bufs {xs ys : List Slot} (h : Inv k done owned rest)
    (hrest : rest = xs ++ s :: ys) (hidx : idx = (k.tailNow + (done ++ owned ++ xs).length) % txDescCount)
    (hfree : ∀ s ∈ rest, Free s) (b : Bufs) :
    k.ring idx = s ∧ view txDescCount (update k.ring idx ((k.ring idx).setBufs b)) k.tailNow =
        done ++ (owned ++ (xs ++ s.setBufs b :: ys)) ∧
      (done ++ (owned ++ (xs ++ s.setBufs b :: ys))).filterMap Slot.m =
        (done ++ (owned ++ rest)).filterMap Slot.m ∧ ∀ x ∈ xs ++ s.setBufs b :: ys, Free x := by
  have hview : view txDescCount k.ring k.tailNow = done ++ owned ++ xs ++ s :: ys := by
    have := h.ring
    rw [hrest] at this
    rw [this]
    simp
  have hget := view_get hview
  have hset := view_set hview (e := s.setBufs b)
  rw [← hidx] at hget hset
  refine ⟨hget, ?_, ?_, ?_⟩
  · rw [hget, hset]
    simp
  · rw [hrest]
    have hm : (s.setBufs b).m = s.m := rfl
    simp [filterMap_cons, hm]
  · intro x hx
    rw [hrest] at hfree
    rcases mem_append.mp hx with hx | hx
    · exact hfree x (mem_append_left _ hx)
    · rcases mem_cons.mp hx with rfl | hx
      · exact hfree s (mem_append_right _ mem_cons_self)
      · exact hfree x (mem_append_right _ (mem_cons_of_mem _ hx))

theorem Inv.fill_cons {e : Mbuf}
    (h : Inv k done owned rest) (hpc : k.pc = .fill m retry (e :: n) idx bufs desc2) :
    ∃ rest', Inv (txEnqueueFill k m retry (e :: n) idx bufs desc2) done owned rest' := by
  obtain ⟨⟨htail, hhead, haccount⟩, hm, pre, filled, part, free, hchain, hbufs, hidx, hrest, hne, hfree, hfilled⟩ :=
    h.fill hpc
  have hchain' : m.chain = (pre ++ [e]) ++ n := by
    rw [hchain, append_assoc]
    rfl
  have hcount := hfilled.length
  have hlen := h.length
  rw [hrest] at hlen
  unfold txEnqueueFill
  dsimp only
  split
  · rename_i he
    have hbufs' : bufs + 1 = (nonEmpty (pre ++ [e])).length := by
      simp [nonEmpty_concat_pos pre he, hbufs]
    split
    · split
      · -- refused for good: the frame is freed
        exact ⟨rest, h.move htail.symm hhead.symm h.ring rfl rfl rfl rfl haccount.free
          (fun b hb => mem_append_left _ hb) hfree⟩
      · exact ⟨rest, h.move htail.symm hhead.symm h.ring rfl rfl rfl rfl haccount (fun _ => id)
          ⟨hfree, fun f hf => Option.some.inj hf ▸ hm⟩⟩
    · have hcapacity : k.capacity = 2 * (txDescCount - 1 - (done ++ owned).length) := by
        rw [Softc.capacity, free_slots (htail ▸ h.tail) (by rw [← htail, ← hhead]; exact h.head) h.size]
      split
      · -- the first element of a pair
        obtain ⟨hpairs, rfl⟩ := hfilled.even (by omega)
        obtain ⟨s, free, rfl⟩ := exists_cons_of_ne_nil hne
        have hne' : free ≠ [] := by
          rintro rfl
          simp only [length_nil, length_singleton, length_append] at *
          omega
        obtain ⟨hget, hview, hmbufs, hfree'⟩ := h.set_bufs hrest hidx hfree { (k.ring idx).bufs with desc0 := e.data }
        refine ⟨_, h.move htail.symm hhead.symm hview rfl rfl rfl rfl (hmbufs ▸ haccount) (fun _ => id)
          ⟨hm, pre ++ [e], filled, [s.setBufs { (k.ring idx).bufs with desc0 := e.data }], free, hchain', hbufs', hidx,
            rfl, hne', hfree', nonEmpty pre, by omega, hpairs, .inr ⟨e, _, nonEmpty_concat_pos pre he, rfl, rfl, rfl⟩⟩⟩
      · -- the second one
        obtain ⟨es, a, s, heven, hpairs, hes, rfl, hdesc0, hdesc2⟩ := hfilled.odd (by omega)
        obtain ⟨hget, hview, hmbufs, hfree'⟩ := h.set_bufs hrest hidx hfree
          { (k.ring idx).bufs with desc1 := e.data, desc2 := sizes desc2 e.len }
        refine ⟨_, h.move htail.symm hhead.symm hview rfl rfl rfl rfl (hmbufs ▸ haccount) (fun _ => id)
          ⟨hm, pre ++ [e], filled ++ [s.setBufs { (k.ring idx).bufs with desc1 := e.data, desc2 := sizes desc2 e.len }],
            [], free, hchain', hbufs', ?_, ?_, hne, hfree', nonEmpty (pre ++ [e]), by omega, ?_, .inl ⟨rfl, rfl⟩⟩⟩
        · rw [hidx, next_slot]
          simp [Nat.add_assoc]
        · rw [append_assoc]
          rfl
        · rw [nonEmpty_concat_pos pre he, hes, append_assoc, map_append, hpairs]
          rw [show [a] ++ [e] = [a, e] from rfl, pack_concat_pair a e es heven, hget]
          simp [Slot.setBufs, hdesc0, hdesc2]
  · rename_i he
    refine ⟨rest, h.move htail.symm hhead.symm h.ring rfl rfl rfl rfl haccount (fun _ => id)
      ⟨hm, pre ++ [e], filled, part, free, hchain', ?_, hidx, hrest, hne, hfree, ?_⟩⟩
    · rw [nonEmpty_concat_zero pre he, hbufs]
    · rw [nonEmpty_concat_zero pre he]
      exact hfilled

theorem mbufs_of_free {l : List Slot} (h : ∀ s ∈ l, Free s) :
    (done ++ (owned ++ l)).filterMap Slot.m = (done ++ owned).filterMap Slot.m := by
  simp [filterMap_of_free h]

theorem Inv.filled {fs free : List Slot}
    (h : Inv k done owned rest) (hm : m.Fits) (htail : k'.txIdxTail = k.tailNow)
    (hhead : k'.txIdxHead = k.headNow)
    (hview : view txDescCount k'.ring k.tailNow = done ++ (owned ++ (fs ++ free)))
    (hidx : idx = (k.tailNow + (done ++ owned ++ fs).length) % txDescCount)
    (hfs : fs.map Slot.bufs = pack m.bufs) (hne : free ≠ []) (hfree : ∀ s ∈ fs ++ free, Free s)
    (haccepted : k'.accepted = k.accepted) (hsent : k'.sent = k.sent) (hhw : k'.hw = k.hw)
    (hrunning : k'.running = k.running) (hfreed : k'.freed = k.freed)
    (haccount : Account k'.given k'.freed ((done ++ owned).filterMap Slot.m ++ [m.id])) :
    ∃ rest', Inv (txEnqueueFilled k' m retry idx) done owned rest' := by
  have hfsne : fs ≠ [] := by
    rintro rfl
    exact pack_ne_nil hm.1 hfs.symm
  obtain ⟨un, s, rfl⟩ := (eq_nil_or_concat fs).resolve_left hfsne
  rw [concat_eq_append] at *
  have hun : ∀ x ∈ un, Free x := fun x hx =>
    hfree x (mem_append_left _ (mem_append_left _ hx))
  have hs : Free s := hfree s (mem_append_left _ (mem_append_right _ mem_cons_self))
  have hall : ∀ x ∈ free, Free x := fun x hx => hfree x (mem_append_right _ hx)
  have hview' : view txDescCount k'.ring k.tailNow = done ++ owned ++ un ++ s :: free := by
    rw [hview]
    simp
  have hprev : prev txDescCount idx = (k.tailNow + (done ++ owned ++ un).length) % txDescCount := by
    rw [hidx, ← append_assoc, length_append, length_singleton, prev_slot _ _ _ (by decide)]
  have hget := view_get hview'
  have hset := view_set hview' (e := { s with m := some m.id })
  rw [← hprev] at hget hset
  have hmbufs : (done ++ (owned ++ (un ++ { s with m := some m.id } :: free))).filterMap Slot.m =
      (done ++ owned).filterMap Slot.m ++ [m.id] := by
    have : (un ++ { s with m := some m.id } :: free).filterMap Slot.m = [m.id] := by
      simp [filterMap_of_free hun, filterMap_of_free hall]
    simp [this]
  rw [← hget] at hset hmbufs
  unfold txEnqueueFilled
  generalize prev txDescCount idx = p at hprev hget hset hmbufs ⊢
  refine ⟨un ++ { k'.ring p with m := some m.id } :: free, h.move htail hhead ?_ haccepted hsent hhw hrunning ?_
    (fun b hb => hfreed ▸ hb) ⟨hm, un.map Slot.bufs, s.bufs, [], un, { k'.ring p with m := some m.id }, free, ?_, rfl,
      hprev, ?_, rfl, rfl, ?_, hun, ?_, rfl, hne, hall⟩⟩
  · refine hset.trans ?_
    simp
  · show Account k'.given k'.freed (_ ++ [])
    rw [hmbufs, append_nil]
    exact haccount
  · rw [← hfs, map_append]
    rfl
  · refine hidx.trans ?_
    rw [← hfs, length_append, length_map]
  · rw [hget]
  · rw [hget]
    exact hs.1

theorem Inv.fill_nil (h : Inv k done owned rest) (hpc : k.pc = .fill m retry [] idx bufs desc2) :
    ∃ rest', Inv (txEnqueueFill k m retry [] idx bufs desc2) done owned rest' := by
  obtain ⟨⟨htail, hhead, haccount⟩, hm, pre, filled, part, free, hchain, hbufs, hidx, hrest, hne, hfree, hfilled⟩ :=
    h.fill hpc
  rw [mbufs_of_free hfree] at haccount
  rw [append_nil] at hchain
  subst hchain
  unfold txEnqueueFill
  dsimp only
  split
  · -- the last descriptor has one element
    obtain ⟨es, a, s, heven, hpairs, hes, rfl, hdesc0, hdesc2⟩ := hfilled.odd (by omega)
    obtain ⟨hget, hview, -, hfree'⟩ := h.set_bufs hrest hidx hfree
      { (k.ring idx).bufs with desc1 := 0, desc2 := desc2 }
    have hassoc : ∀ x : Slot, filled ++ x :: free = filled ++ [x] ++ free := fun x => by simp
    rw [append_eq, nil_append, hassoc] at hview hfree'
    refine h.filled hm htail.symm hhead.symm hview ?_ ?_ hne hfree' rfl rfl rfl rfl rfl haccount
    · rw [hidx, next_slot]
      simp [Nat.add_assoc]
    · grind [Frame.bufs, pack_concat, Slot.setBufs]
  · obtain ⟨hpairs, rfl⟩ := hfilled.even (by omega)
    refine h.filled hm htail.symm hhead.symm (hrest ▸ h.ring) hidx hpairs hne (hrest ▸ hfree) rfl rfl rfl rfl rfl
      haccount

theorem readySlots_publish (m : Frame) (fd : Bool) (y : Bufs) (zs : List Bufs) :
    (⟨y, true, fd, zs.isEmpty, false, m.len, m.cic, if zs = [] then some m.id else none⟩ : Slot) ::
      readySlots m false zs = readySlots m fd (y :: zs) := by
  cases zs <;> rfl

theorem Inv.publish {headIdx idx : Nat} {ld : Bool}
    (h : Inv k done owned rest) (hpc : k.pc = .publish m retry headIdx idx ld) :
    ∃ owned' rest', Inv (txEnqueuePublish k m retry headIdx idx ld) done owned' rest' := by
  have hp := h.pc
  have haccount := h.account
  unfold PcInv at hp
  rw [hpc] at hp haccount
  obtain ⟨hfits, ys, y, zs, un, s, free, hpack, hld, hidx, hnew, hrest, hun, hy, hunfree, hown, hm, hne, hall⟩ := hp
  have htail : k.tailNow = k.txIdxTail := by rw [Softc.tailNow, hpc]
  have hhead : k.headNow = headIdx := by rw [Softc.headNow, hpc]
  have hview : view txDescCount k.ring k.tailNow =
      done ++ owned ++ un ++ s :: (readySlots m false zs ++ free) := by
    have := h.ring
    rw [hrest] at this
    rw [this]
    simp
  have hget := view_get hview
  have hset := fun fd => view_set hview
    (e := ⟨y, true, fd, zs.isEmpty, false, m.len, m.cic, if zs = [] then some m.id else none⟩)
  rw [← hidx] at hget
  simp only [← hidx] at hset
  have hslot : ∀ fd, ({ k.ring idx with own := true, fd := fd, ld := ld, es := false, len := m.len, cic := m.cic } : Slot) =
      ⟨y, true, fd, zs.isEmpty, false, m.len, m.cic, if zs = [] then some m.id else none⟩ := by
    intro fd
    rw [hget, hld, ← hy, ← hm]
  have hmbufs : ∀ fd, (done ++ (owned ++ (un ++ (readySlots m fd (y :: zs) ++ free)))).filterMap Slot.m =
      (done ++ (owned ++ rest)).filterMap Slot.m := by
    intro fd
    rw [hrest, ← readySlots_publish]
    simp [filterMap_cons, hm]
  have hlen := h.length
  rw [hrest] at hlen
  simp only [length_append, length_cons, length_readySlots] at hlen
  have hfree := length_pos_of_ne_nil hne
  unfold txEnqueuePublish
  dsimp only
  rw [hslot]
  split
  · -- the slot before it is next
    rename_i hidxne
    have hunne : un ≠ [] := by
      rintro rfl
      apply hidxne
      rw [← hhead, h.head, hidx, append_nil]
    obtain ⟨un, s', rfl⟩ := (eq_nil_or_concat un).resolve_left hunne
    rw [concat_eq_append] at *
    have hprev : prev txDescCount idx = (k.tailNow + (done ++ owned ++ un).length) % txDescCount := by
      rw [hidx, ← append_assoc, length_append, length_singleton, prev_slot _ _ _ (by decide)]
    rw [decide_eq_false hidxne]
    refine ⟨owned, un ++ s' :: (readySlots m false (y :: zs) ++ free), h.move htail.symm hhead.symm ?_ rfl rfl rfl rfl ?_
      (fun _ => id) ⟨hfits, un.map Slot.bufs, s'.bufs, y :: zs, un, s', free, ?_, rfl, hprev, hnew, rfl, rfl, rfl, ?_,
        ?_, ?_, hne, hall⟩⟩
    · refine (hset false).trans ?_
      rw [← readySlots_publish]
      simp
    · have := hmbufs false
      rw [append_assoc un, singleton_append] at this
      rw [this]
      exact haccount
    · rw [hpack, ← hun]
      simp
    · intro x hx
      exact hunfree x (mem_append_left _ hx)
    · exact (hunfree s' (mem_append_right _ mem_cons_self)).1
    · exact (hunfree s' (mem_append_right _ mem_cons_self)).2
  · -- it was the first slot, and the frame is in the ring
    rename_i hidxeq
    rw [ne_eq, not_not] at hidxeq
    obtain rfl : un = [] := by
      have he := hidxeq
      rw [← hhead, h.head, hidx] at he
      have := slot_inj (by simp only [length_append]; omega) (by simp only [length_append]; omega) he
      rw [length_append] at this
      exact length_eq_zero_iff.mp (by omega)
    rw [map_nil] at hun
    subst hun
    rw [nil_append] at hpack
    have hready : m.ready = readySlots m true (y :: zs) := by rw [Frame.ready, hpack]
    have hlength : m.ready.length = (pack m.bufs).length := length_readySlots m true _
    rw [decide_eq_true hidxeq]
    have hring : view txDescCount (update k.ring idx
        ⟨y, true, true, zs.isEmpty, false, m.len, m.cic, if zs = [] then some m.id else none⟩) k.tailNow =
        done ++ ((owned ++ m.ready) ++ free) := by
      rw [hset true, hready, ← readySlots_publish]
      simp
    have hhead' : k.txIdxHead = (k.tailNow + (done ++ (owned ++ m.ready)).length) % txDescCount := by
      rw [hnew, ← hlength, ← length_append, append_assoc]
    have hsize : (done ++ (owned ++ m.ready)).length ≤ txDescCount - 1 := by
      simp only [length_append, hlength, hpack, length_cons, length_nil] at hlen ⊢
      omega
    have hownedByHw : ∀ x ∈ owned ++ m.ready, x.own = true := by
      intro x hx
      grind [h.ownedByHw, readySlots_own]
    have hframes : (k.sent ++ (owned ++ m.ready)).map Slot.image =
        (k.accepted ++ [m]).flatMap fun m => m.ready.map Slot.image := by
      rw [← append_assoc, map_append, h.frames]
      simp
    have hmbufs' : k.running = true → (k.sent ++ (owned ++ m.ready)).map Slot.m =
        (k.accepted ++ [m]).flatMap fun m => m.ready.map Slot.m := by
      intro hrun
      rw [← append_assoc, map_append, h.mbufs hrun]
      simp
    have hfitsAll : ∀ f ∈ k.accepted ++ [m], f.Fits := by
      intro f hf
      rcases mem_append.mp hf with hf | hf
      · exact h.fits f hf
      · exact mem_singleton.mp hf ▸ hfits
    have haccount' : Account k.given k.freed ((done ++ ((owned ++ m.ready) ++ free)).filterMap Slot.m ++ []) := by
      grind [Pc.frame]
    have hmb : ∀ x ∈ done ++ (owned ++ m.ready), x.m ≠ none → x.ld = true := by
      intro x hx
      grind [h.last, readySlots_own]
    refine ⟨owned ++ m.ready, free, ?_⟩
    cases retry with
    | true =>
      exact ⟨⟨htail ▸ hring, htail ▸ hhead', hsize, h.completed, hownedByHw, hframes, hmbufs'⟩, haccount', hmb, hfitsAll,
        h.released, htail ▸ h.tail, htail ▸ h.hw, hall⟩
    | false =>
      exact ⟨⟨htail ▸ hring, htail ▸ hhead', hsize, h.completed, hownedByHw, hframes, hmbufs'⟩, haccount', hmb, hfitsAll,
        h.released, htail ▸ h.tail, htail ▸ h.hw, hall, by simp⟩

/-! ## Reclaiming -/

theorem Inv.tail_slot {ss : List Slot} (h : Inv k done owned rest)
    (hs : done ++ (owned ++ rest) = s :: ss) : k.ring k.tailNow = s := by
  have hview : view txDescCount k.ring k.tailNow = [] ++ s :: ss := h.ring.trans hs
  have hget := view_get hview
  rw [length_nil, Nat.add_zero, Nat.mod_eq_of_lt h.tail] at hget
  exact hget

variable {tailIdx : Nat}

theorem Inv.done_of_pass {m : Option Frame} (h : Inv k done owned rest)
    (hpc : k.pc = .reclaim m tailIdx) (hne : k.txIdxHead ≠ tailIdx) (hown : (k.ring tailIdx).own = false) :
    ∃ done', done = k.ring tailIdx :: done' := by
  have htail : k.tailNow = tailIdx := by rw [Softc.tailNow, hpc]
  have hhead : k.headNow = k.txIdxHead := by rw [Softc.headNow, hpc]
  cases done with
  | cons s done =>
    have := h.tail_slot (s := s) rfl
    rw [htail] at this
    exact ⟨done, by rw [this]⟩
  | nil =>
    cases owned with
    | nil =>
      grind [h.head, Nat.mod_eq_of_lt, h.tail]
    | cons s owned =>
      have := h.tail_slot (s := s) rfl
      grind [h.ownedByHw]

theorem Inv.pass {m : Option Frame}
    (h : Inv k (s :: done) owned rest) (k' : Softc) (hpc : k.pc = .reclaim m tailIdx)
    (hring : k'.ring = update k.ring tailIdx { s with m := none })
    (hk : k'.txIdxHead = k.txIdxHead ∧ k'.accepted = k.accepted ∧ k'.sent = k.sent ∧ k'.hw = k.hw ∧
      k'.running = k.running ∧ k'.given = k.given ∧ k'.freed = k.freed ++ s.m.toList)
    (hpc' : k'.pc = .reclaim m (next txDescCount tailIdx)) :
    ∃ rest', Inv k' done owned rest' := by
  obtain ⟨hhead', haccepted, hsent, hhw, hrunning, hgiven, hfreed⟩ := hk
  have htail : k.tailNow = tailIdx := by rw [Softc.tailNow, hpc]
  have hhead : k.headNow = k.txIdxHead := by rw [Softc.headNow, hpc]
  have htail' : k'.tailNow = next txDescCount tailIdx := by rw [Softc.tailNow, hpc']
  have hnow : k'.headNow = k.txIdxHead := by rw [Softc.headNow, hpc']; exact hhead'
  have hnext : next txDescCount tailIdx = (tailIdx + 1) % txDescCount := rfl
  have hp := h.pc
  have haccount := h.account
  unfold PcInv at hp
  rw [hpc] at hp haccount
  have hview : view txDescCount k.ring tailIdx = [] ++ s :: (done ++ (owned ++ rest)) := by
    have := h.ring
    rw [htail] at this
    exact this
  have hset := view_set hview (e := { s with m := none })
  rw [length_nil, Nat.add_zero, Nat.mod_eq_of_lt (htail ▸ h.tail), ← hring, nil_append] at hset
  have hdrop := view_drop (show view txDescCount k'.ring tailIdx =
    [{ s with m := none }] ++ (done ++ (owned ++ rest)) from hset)
  have hsnone : Free { s with m := none } := ⟨h.completed s mem_cons_self, rfl⟩
  refine ⟨rest ++ [{ s with m := none }], ⟨?_, ?_, ?_, ?_, h.ownedByHw, ?_, ?_⟩, ?_, ?_, ?_, ?_, ?_, ?_, ?_⟩
  · rw [htail', hnext]
    refine hdrop.trans ?_
    simp
  · grind [h.head, txDescCount]
  · have := h.size
    rw [cons_append, length_cons] at this
    omega
  · intro x hx
    exact h.completed x (mem_cons_of_mem _ hx)
  · rw [hsent, haccepted]
    exact h.frames
  · rw [hsent, haccepted, hrunning]
    exact h.mbufs
  · have hlive : (done ++ (owned ++ (rest ++ [{ s with m := none }]))).filterMap Slot.m =
        (done ++ (owned ++ rest)).filterMap Slot.m := by
      simp
    rw [hlive, hgiven, hfreed, hpc']
    cases hm : s.m with
    | none =>
      grind [Pc.frame]
    | some b =>
      rw [cons_append, filterMap_cons_some hm] at haccount
      exact @Account.free Nat _ _ _ [] _ _ haccount
  · intro x hx
    exact h.last x (mem_cons_of_mem _ hx)
  · rw [haccepted]
    exact h.fits
  · intro b hb
    rw [hfreed, mem_append, Option.mem_toList, or_assoc]
    refine (h.released b (hsent ▸ hb)).imp_right fun hdone => ?_
    rw [map_cons, mem_cons] at hdone
    exact hdone.imp_left Eq.symm
  · rw [htail', hnext]
    exact Nat.mod_lt _ (by decide)
  · grind [h.hw, txDescCount]
  · grind [PcInv]

theorem Inv.reclaim {m : Option Frame} (h : Inv k done owned rest)
    (hpc : k.pc = .reclaim m tailIdx) : ∃ done' rest', Inv (txReclaim k m tailIdx) done' owned rest' := by
  have htail : k.tailNow = tailIdx := by rw [Softc.tailNow, hpc]
  have hhead : k.headNow = k.txIdxHead := by rw [Softc.headNow, hpc]
  have hp := h.pc
  have haccount := h.account
  unfold PcInv at hp
  rw [hpc] at hp haccount
  unfold txReclaim
  dsimp only
  split
  · rename_i hcond
    obtain ⟨done', rfl⟩ := h.done_of_pass hpc hcond.1 hcond.2
    split
    · obtain ⟨rest', h'⟩ := h.pass { k.set tailIdx { k.ring tailIdx with m := none } with
        freed := k.freed ++ (k.ring tailIdx).m.toList
        opackets := if (k.ring tailIdx).es then k.opackets else k.opackets + 1
        oerrors := if (k.ring tailIdx).es then k.oerrors + 1 else k.oerrors
        pc := .reclaim m (next txDescCount tailIdx) } hpc rfl ⟨rfl, rfl, rfl, rfl, rfl, rfl, rfl⟩ rfl
      exact ⟨done', rest', h'⟩
    · rename_i hld
      have hm : (k.ring tailIdx).m = none := by
        by_contra hm
        exact hld (h.last _ mem_cons_self hm)
      obtain ⟨rest', h'⟩ := h.pass { k with pc := .reclaim m (next txDescCount tailIdx) } hpc (by
        simp [show ({ k.ring tailIdx with m := none } : Slot) = k.ring tailIdx by rw [← hm]])
        ⟨rfl, rfl, rfl, rfl, rfl, rfl, by simp [hm]⟩ rfl
      exact ⟨done', rest', h'⟩
  · refine ⟨done, rest, ?_⟩
    cases m with
    | none => exact h.move htail.symm hhead.symm h.ring rfl rfl rfl rfl haccount (fun _ => id) hp.1
    | some m => exact h.enqueue hp.1 (hp.2 m rfl) rfl htail.symm hhead.symm rfl rfl rfl rfl rfl haccount

/-- When the loop ends, no completed descriptor is left. -/
theorem Inv.done_nil {m : Option Frame} (h : Inv k done owned rest)
    (hpc : k.pc = .reclaim m tailIdx) (hend : ¬ (k.txIdxHead ≠ tailIdx ∧ (k.ring tailIdx).own = false)) :
    done = [] := by
  have htail : k.tailNow = tailIdx := by rw [Softc.tailNow, hpc]
  have hhead : k.headNow = k.txIdxHead := by rw [Softc.headNow, hpc]
  cases done with
  | nil => rfl
  | cons s done =>
    refine absurd ⟨fun he => ?_, ?_⟩ hend
    · have hlen := h.head
      have hsize := h.size
      have hlt := h.tail
      simp only [cons_append, length_cons, txDescCount] at hlen hsize hlt
      omega
    · rw [← htail, h.tail_slot rfl]
      exact h.completed s mem_cons_self

/-! ## The hardware -/

theorem Inv.rest_first (h : Inv k done owned rest) : ∃ s ss, rest = s :: ss ∧ s.own = false := by
  have hall : (∀ s ∈ rest, Free s) → ∃ s ss, rest = s :: ss ∧ s.own = false := by
    intro hfree
    obtain ⟨s, ss, hs⟩ := exists_cons_of_ne_nil h.rest_ne_nil
    exact ⟨s, ss, hs, (hfree s (hs ▸ mem_cons_self)).1⟩
  have hp := h.pc
  unfold PcInv at hp
  split at hp
  · exact hall hp
  · obtain ⟨-, pre, filled, part, free, -, -, -, -, -, hfree, -⟩ := hp
    exact hall hfree
  · obtain ⟨-, ys, y, zs, un, s, free, -, -, -, -, rfl, -, -, hun, hown, -⟩ := hp
    cases un with
    | nil => exact ⟨s, _, rfl, hown⟩
    | cons x un => exact ⟨x, _, rfl, (hun x mem_cons_self).1⟩
  · exact hall hp.1

theorem PcInv.congr {t : Nat} {base base' : List Slot} (h : PcInv k t base rest)
    (hpc : k'.pc = k.pc) (hhead : k'.txIdxHead = k.txIdxHead) (hlen : base'.length = base.length) :
    PcInv k' t base' rest := by
  unfold PcInv at h ⊢
  rw [hpc, hhead]
  simp only [length_append, hlen] at h ⊢
  exact h

theorem Inv.complete (h : Inv k done owned rest) (hown : (k.ring k.hw).own = true) (es : Bool) :
    ∃ done' owned', Inv (hwComplete k es) done' owned' rest := by
  cases owned with
  | nil =>
    obtain ⟨s, ss, rfl, hs⟩ := h.rest_first
    grind [view_get, h.ring, h.hw]
  | cons s owned =>
    have hview : view txDescCount k.ring k.tailNow = done ++ s :: (owned ++ rest) := h.ring
    have hget := view_get hview
    have hset := view_set hview (e := { s with own := false, es := es })
    rw [← h.hw] at hget hset
    rw [← hget] at hset
    have hmid : ∀ x : Slot, done ++ x :: (owned ++ rest) = (done ++ [x]) ++ (owned ++ rest) := fun x => by simp
    have hlen : (done ++ [{ s with own := false, es := es }] ++ owned).length = (done ++ s :: owned).length := by
      simp
    have hsent : (hwComplete k es).sent ++ owned = k.sent ++ s :: owned := by
      show k.sent ++ [k.ring k.hw] ++ owned = _
      rw [hget, append_assoc]
      rfl
    refine ⟨done ++ [{ s with own := false, es := es }], owned, ⟨?_, ?_, ?_, ?_, ?_, ?_, ?_⟩, ?_, ?_, h.fits, ?_, h.tail,
      ?_, ?_⟩
    · rw [← hmid, ← hget]
      exact hset
    · rw [hlen]
      exact h.head
    · rw [hlen]
      exact h.size
    · intro x hx
      grind [h.completed]
    · intro x hx
      exact h.ownedByHw x (mem_cons_of_mem _ hx)
    · rw [hsent]
      exact h.frames
    · rw [hsent]
      exact h.mbufs
    · have := h.account
      rw [← hmid]
      simp only [filterMap_append, filterMap_cons, cons_append] at this ⊢
      exact this
    · intro x hx
      rw [append_assoc] at hx
      rcases mem_append.mp hx with hx | hx
      · exact h.last x (mem_append_left _ hx)
      · rcases mem_cons.mp hx with rfl | hx
        · exact h.last s (mem_append_right _ mem_cons_self)
        · exact h.last x (mem_append_right _ (mem_cons_of_mem _ hx))
    · intro b hb
      rw [show (hwComplete k es).sent = k.sent ++ [s] from congrArg (k.sent ++ [·]) hget, map_append,
        mem_append] at hb
      rw [map_append, mem_append]
      rcases hb with hb | hb
      · exact (h.released b hb).imp_right .inl
      · exact .inr (.inr hb)
    · show next txDescCount k.hw = _
      rw [h.hw, next_slot, length_append]
      rfl
    · exact h.pc.congr rfl rfl hlen

/-! ## Stop and initialisation -/

def clear (s : Slot) : Slot := { s with m := none }

theorem filterMap_clear (l : List Slot) : (l.map clear).filterMap Slot.m = [] := by
  rw [filterMap_eq_nil_iff]
  intro s hs
  obtain ⟨x, -, rfl⟩ := mem_map.mp hs
  rfl

theorem Inv.ringMbufs_eq (h : Inv k done owned rest) :
    k.ringMbufs = (done ++ (owned ++ rest)).filterMap Slot.m := by
  rw [Softc.ringMbufs, h.ring]

theorem Inv.mem_txReclaimAll (h : Inv k done owned rest) {b : Nat} (hb : b ∈ k.ringMbufs) :
    b ∈ (txReclaimAll k).freed :=
  mem_append_right _ (((view_perm (Nat.le_of_lt h.tail)).filterMap Slot.m).mem_iff.mpr hb)

theorem Inv.freed_all (h : Inv k done owned rest) (b : Nat) (hb : b ∈ k.freed ∨ some b ∈ done.map Slot.m) :
    b ∈ (txReclaimAll k).freed := by
  rcases hb with hb | hb
  · exact mem_append_left _ hb
  · obtain ⟨x, hx, hm⟩ := mem_map.mp hb
    apply h.mem_txReclaimAll
    rw [h.ringMbufs_eq]
    exact mem_filterMap.mpr ⟨x, mem_append_left _ hx, hm⟩

theorem Inv.stop (h : Inv k done owned rest) (hpc : k.pc = .idle) :
    ∃ done' owned' rest', Inv (stmacStopLocked k) done' owned' rest' ∧
      (k.running = true → done'.filterMap Slot.m = [] ∧ owned'.filterMap Slot.m = [] ∧ rest'.filterMap Slot.m = []) := by
  unfold stmacStopLocked
  split
  · have htail : k.tailNow = k.txIdxTail := by rw [Softc.tailNow, hpc]
    have hhead : k.headNow = k.txIdxHead := by rw [Softc.headNow, hpc]
    have hp := h.pc
    have haccount := h.account
    unfold PcInv at hp
    rw [hpc] at hp haccount
    have hlen : (done.map clear ++ owned.map clear).length = (done ++ owned).length := by simp
    obtain ⟨t, ht⟩ : ∃ t, t = txReclaimAll { k with running := false } := ⟨_, rfl⟩
    have htpc : t.pc = .idle := by rw [ht]; exact hpc
    have httail : t.tailNow = k.tailNow := by rw [Softc.tailNow, htpc, htail, ht]; rfl
    have hthead : t.headNow = k.headNow := by rw [Softc.headNow, htpc, hhead, ht]; rfl
    have hmap : ∀ {l : List Slot} {x : Slot}, x ∈ l.map clear → ∃ y ∈ l, clear y = x := fun hx => mem_map.mp hx
    refine ⟨done.map clear, owned.map clear, rest.map clear, ?_, fun _ => ⟨filterMap_clear _, filterMap_clear _,
      filterMap_clear _⟩⟩
    rw [← ht]
    have hrun : t.running = false := by rw [ht]; rfl
    refine ⟨⟨?_, ?_, ?_, ?_, ?_, ?_, ?_⟩, ?_, ?_, ?_, ?_, httail ▸ h.tail, ?_, ?_⟩
    · rw [httail, ht]
      refine (view_map clear k.tailNow).trans ?_
      simp [h.ring]
    · rw [hthead, httail, hlen]
      exact h.head
    · rw [hlen]
      exact h.size
    · intro x hx
      obtain ⟨y, hy, rfl⟩ := hmap hx
      exact h.completed y hy
    · intro x hx
      obtain ⟨y, hy, rfl⟩ := hmap hx
      exact h.ownedByHw y hy
    · rw [ht, map_append, map_map]
      exact (map_append ..).symm.trans h.frames
    · rw [hrun]
      exact nofun
    · rw [htpc, ← map_append, ← map_append, filterMap_clear, ht]
      rw [← h.ring] at haccount
      exact Account.freeAll haccount (by
        rw [show Pc.idle.frame = [] from rfl, append_nil]
        exact (view_perm (Nat.le_of_lt h.tail)).filterMap Slot.m)
    · intro x hx hm
      rw [← map_append] at hx
      obtain ⟨y, hy, rfl⟩ := hmap hx
      exact absurd rfl hm
    · rw [ht]
      exact h.fits
    · rw [ht]
      exact fun b hb => .inl (h.freed_all b (h.released b hb))
    · rw [httail, length_map, ht]
      exact h.hw
    · unfold PcInv
      rw [htpc]
      intro x hx
      obtain ⟨y, hy, rfl⟩ := hmap hx
      exact ⟨(hp y hy).1, rfl⟩
  · rename_i hrun
    exact ⟨done, owned, rest, h, fun hr => absurd hr hrun⟩

theorem Inv.init (h : Inv k done owned rest) (hempty : k.running = false → k.pc = .idle ∧ k.ringMbufs = []) :
    ∃ done' owned' rest', Inv (stmacInitLocked k) done' owned' rest' := by
  unfold stmacInitLocked
  split
  · exact ⟨done, owned, rest, h⟩
  · rename_i hrun
    obtain ⟨hpc, hmbufs⟩ := hempty (Bool.eq_false_iff.mpr hrun)
    have haccount := h.account
    rw [← h.ringMbufs_eq, hmbufs, hpc] at haccount
    obtain ⟨rest', h'⟩ := @inv_zero { k with
      running := true
      ring := fun _ => Slot.zero
      txIdxHead := 0
      txIdxTail := 0
      hw := 0
      accepted := []
      sent := [] } rfl rfl rfl hpc rfl rfl rfl haccount
    exact ⟨[], [], rest', h'⟩

/-! ## Steps -/

theorem Inv.transmit (h : Inv k done owned rest) (hpc : k.pc = .idle) (hid : m.id ∉ k.given)
    (hm : m.Fits) : Inv (stmacTransmit k m) done owned rest := by
  have hp := h.pc
  have haccount := h.account
  unfold PcInv at hp
  rw [hpc] at hp haccount
  exact h.enqueue hp hm rfl (by rw [Softc.tailNow, hpc]) (by rw [Softc.headNow, hpc]) rfl rfl rfl rfl rfl
    (haccount.give hid)

theorem Inv.driver (h : Inv k done owned rest) (hs : step k .driver = some k') :
    ∃ done' owned' rest', Inv k' done' owned' rest' := by
  unfold step at hs
  dsimp only at hs
  split at hs <;> rename_i hpc
  · cases hs
  · cases hs
    rename_i n _ _ _
    cases n with
    | nil =>
      obtain ⟨rest', h'⟩ := h.fill_nil hpc
      exact ⟨_, _, _, h'⟩
    | cons e n =>
      obtain ⟨rest', h'⟩ := h.fill_cons hpc
      exact ⟨_, _, _, h'⟩
  · cases hs
    obtain ⟨owned', rest', h'⟩ := h.publish hpc
    exact ⟨_, _, _, h'⟩
  · cases hs
    obtain ⟨done', rest', h'⟩ := h.reclaim hpc
    exact ⟨_, _, _, h'⟩

theorem inv_step {a : Action} (h : Inv k done owned rest) (hok : Accountable k a)
    (hs : step k a = some k') : ∃ done' owned' rest', Inv k' done' owned' rest' := by
  cases a with
  | transmit m =>
    obtain ⟨⟨hid, -⟩, hs⟩ := Option.ite_none_right_eq_some.mp hs
    rw [hok.1] at hs
    obtain ⟨hpc, ⟨⟩⟩ := Option.ite_none_right_eq_some.mp hs
    exact ⟨_, _, _, h.transmit hpc hid hok.2⟩
  | driver => exact h.driver hs
  | complete es =>
    obtain ⟨⟨-, hown⟩, ⟨⟩⟩ := Option.ite_none_right_eq_some.mp hs
    obtain ⟨done', owned', h'⟩ := h.complete hown es
    exact ⟨_, _, _, h'⟩
  | statchg active status =>
    cases hs
    unfold stmacMiibusStatchg
    split
    · exact ⟨_, _, _, h⟩
    · exact ⟨done, owned, rest, h.move rfl rfl h.ring rfl rfl rfl rfl h.account (fun _ => id) h.pc⟩
  | stop =>
    obtain ⟨hpc, ⟨⟩⟩ := Option.ite_none_right_eq_some.mp hs
    obtain ⟨done', owned', rest', h', -⟩ := h.stop hpc
    exact ⟨_, _, _, h'⟩
  | init =>
    cases hs
    exact h.init hok
  | fatalBusError =>
    obtain ⟨hpc, ⟨⟩⟩ := Option.ite_none_right_eq_some.mp hs
    obtain ⟨done', owned', rest', h', hempty⟩ := h.stop hpc
    have hpc' : (stmacStopLocked k).pc = .idle := by
      unfold stmacStopLocked
      split <;> exact hpc
    refine h'.init fun _ => ⟨hpc', ?_⟩
    cases hrun : k.running with
    | true =>
      grind [h'.ringMbufs_eq]
    | false =>
      unfold stmacStopLocked
      rw [if_neg (by simp [hrun])]
      exact hok hrun

theorem keeps_update {ring : Nat → Slot} (s : Slot) (h : (ring idx).own = false) (i : Nat)
    (hi : (ring i).own = true) : update ring idx s i = ring i := by
  apply update_of_ne
  rintro rfl
  rw [h] at hi
  cases hi

theorem Inv.rest_slot {xs ys : List Slot} (h : Inv k done owned rest)
    (hrest : rest = xs ++ s :: ys) (hidx : idx = (k.tailNow + (done ++ owned ++ xs).length) % txDescCount) :
    k.ring idx = s := by
  grind [h.ring, view_get]

theorem Inv.fill_cons_keeps {e : Mbuf}
    (h : Inv k done owned rest) (hpc : k.pc = .fill m retry (e :: n) idx bufs desc2) :
    (txEnqueueFill k m retry (e :: n) idx bufs desc2).txIdxHead = k.txIdxHead ∧
      ∀ i, (k.ring i).own = true → (txEnqueueFill k m retry (e :: n) idx bufs desc2).ring i = k.ring i := by
  obtain ⟨-, -, pre, filled, part, free, -, -, hidx, hrest, hne, hfree, -⟩ := h.fill hpc
  have hown : (k.ring idx).own = false := by
    obtain ⟨s, ss, hss⟩ := exists_cons_of_ne_nil (l := part ++ free) (by simp [hne])
    rw [hss] at hrest
    rw [h.rest_slot hrest hidx]
    exact (hfree s (hrest ▸ mem_append_right _ mem_cons_self)).1
  unfold txEnqueueFill
  dsimp only
  split
  · split
    · split <;> exact ⟨rfl, fun _ _ => rfl⟩
    · split <;> exact ⟨rfl, keeps_update _ hown⟩
  · exact ⟨rfl, fun _ _ => rfl⟩

theorem Inv.fill_nil_keeps
    (h : Inv k done owned rest) (hpc : k.pc = .fill m retry [] idx bufs desc2) (i : Nat)
    (hi : (k.ring i).own = true) : (txEnqueueFill k m retry [] idx bufs desc2).ring i = k.ring i := by
  obtain ⟨-, hm, pre, filled, part, free, hchain, hbufs, hidx, hrest, hne, hfree, hfilled⟩ := h.fill hpc
  rw [append_nil] at hchain
  subst hchain
  unfold txEnqueueFill txEnqueueFilled
  dsimp only
  split
  · obtain ⟨es, a, s, -, -, -, rfl, -, -⟩ := hfilled.odd (by omega)
    have hslot := h.rest_slot hrest hidx
    have hown : (k.ring idx).own = false := by
      rw [hslot]
      exact (hfree s (hrest ▸ mem_append_right _ mem_cons_self)).1
    have hprev : prev txDescCount (next txDescCount idx) = idx := by
      rw [hidx, next_slot, prev_slot _ _ _ (by decide)]
    have hne : i ≠ idx := by
      rintro rfl
      rw [hown] at hi
      cases hi
    rw [hprev]
    simp [Softc.set, hne]
  · obtain ⟨hpairs, rfl⟩ := hfilled.even (by omega)
    have hfne : filled ≠ [] := by
      rintro rfl
      exact pack_ne_nil hm.1 hpairs.symm
    obtain ⟨un, s, rfl⟩ := (eq_nil_or_concat filled).resolve_left hfne
    rw [concat_eq_append] at *
    have hprev : prev txDescCount idx = (k.tailNow + (done ++ owned ++ un).length) % txDescCount := by
      rw [hidx, ← append_assoc, length_append, length_singleton, prev_slot _ _ _ (by decide)]
    have hrest' : rest = un ++ s :: free := by
      rw [hrest]
      simp
    have hown : (k.ring (prev txDescCount idx)).own = false := by
      rw [h.rest_slot hrest' hprev]
      exact (hfree s (hrest' ▸ mem_append_right _ mem_cons_self)).1
    exact keeps_update _ hown i hi

theorem Inv.driver_keeps (h : Inv k done owned rest) (hs : step k .driver = some k') (i : Nat)
    (hi : (k.ring i).own = true) : k'.ring i = k.ring i := by
  unfold step at hs
  dsimp only at hs
  split at hs <;> rename_i hpc
  · cases hs
  · cases hs
    rename_i n _ _ _
    cases n with
    | nil => exact h.fill_nil_keeps hpc i hi
    | cons e n => exact (h.fill_cons_keeps hpc).2 i hi
  · cases hs
    have hp := h.pc
    unfold PcInv at hp
    rw [hpc] at hp
    obtain ⟨-, ys, y, zs, un, s, free, -, -, hidx, -, hrest, -, -, -, hown, -⟩ := hp
    have hslot := h.rest_slot hrest hidx
    rw [← hslot] at hown
    unfold txEnqueuePublish
    split <;> exact keeps_update _ hown i hi
  · cases hs
    unfold txReclaim
    dsimp only
    split
    · rename_i hcond
      split
      · exact keeps_update _ hcond.2 i hi
      · rfl
    · split <;> rfl

theorem Inv.reclaimed {m : Option Frame} (h : Inv k done owned rest)
    (hpc : k.pc = .reclaim m tailIdx) (hend : ∀ m' i, (txReclaim k m tailIdx).pc ≠ .reclaim m' i) (b : Nat)
    (hb : some b ∈ k.sent.map Slot.m) : b ∈ (txReclaim k m tailIdx).freed := by
  by_cases hcond : k.txIdxHead ≠ tailIdx ∧ (k.ring tailIdx).own = false
  · refine absurd ?_ (hend m (next txDescCount tailIdx))
    unfold txReclaim
    rw [if_pos hcond]
    split <;> rfl
  · have hnil := h.done_nil hpc hcond
    subst hnil
    have hfreed := (h.released b hb).resolve_right nofun
    unfold txReclaim
    rw [if_neg hcond]
    cases m <;> exact hfreed

theorem Inv.stopped (h : Inv k done owned rest) (hpc : k.pc = .idle) (hrun : k.running = true) :
    (stmacStopLocked k).ringMbufs = [] ∧ ∀ b ∈ k.ringMbufs, b ∈ (stmacStopLocked k).freed := by
  obtain ⟨done', owned', rest', h', hempty⟩ := h.stop hpc
  obtain ⟨hdone, howned, hrest⟩ := hempty hrun
  constructor
  · rw [h'.ringMbufs_eq, filterMap_append, filterMap_append, hdone, howned, hrest]
    rfl
  · intro b hb
    unfold stmacStopLocked
    rw [if_pos hrun]
    exact h.mem_txReclaimAll hb

theorem Inv.safeStep {a : Action} (h : Inv k done owned rest) (hs : step k a = some k') :
    SafeStep k a k' where
  owned := by
    intro hcomplete hfatal hinit i hi
    cases a with
    | transmit m =>
      obtain ⟨-, hs⟩ := Option.ite_none_right_eq_some.mp hs
      split at hs
      · cases hs
        exact ⟨rfl, fun _ => rfl⟩
      · obtain ⟨-, ⟨⟩⟩ := Option.ite_none_right_eq_some.mp hs
        exact ⟨rfl, fun _ => rfl⟩
    | driver =>
      rw [h.driver_keeps hs i hi]
      exact ⟨rfl, fun _ => rfl⟩
    | complete es => exact absurd rfl (hcomplete es)
    | statchg active status =>
      cases hs
      unfold stmacMiibusStatchg
      split <;> exact ⟨rfl, fun _ => rfl⟩
    | stop =>
      obtain ⟨-, ⟨⟩⟩ := Option.ite_none_right_eq_some.mp hs
      refine ⟨?_, fun hne => absurd rfl hne⟩
      unfold stmacStopLocked
      split <;> rfl
    | init =>
      cases hs
      unfold stmacInitLocked
      rw [if_pos (hinit rfl)]
      exact ⟨rfl, fun _ => rfl⟩
    | fatalBusError => exact absurd rfl hfatal
  refused := by
    rintro m retry n idx bufs desc2 hpc hn rfl
    unfold step at hs
    simp only [hpc, Option.some.injEq] at hs
    subst hs
    obtain ⟨e, n, rfl⟩ := exists_cons_of_ne_nil hn
    exact h.fill_cons_keeps hpc
  reclaimed := by
    rintro m tailIdx hpc rfl hend b hb
    unfold step at hs
    simp only [hpc, Option.some.injEq] at hs
    subst hs
    exact h.reclaimed hpc hend b hb
  stopped := by
    rintro rfl hrun
    obtain ⟨hpc, ⟨⟩⟩ := Option.ite_none_right_eq_some.mp hs
    exact h.stopped hpc hrun

theorem Inv.completed_of_freed (h : Inv k done owned rest) (hrun : k.running = true) (hm : m ∈ k.accepted)
    (hfreed : m.id ∈ k.freed) : some m.id ∈ k.sent.map Slot.m := by
  have hslot : some m.id ∈ (k.sent ++ owned).map Slot.m := by
    rw [h.mbufs hrun, mem_flatMap]
    exact ⟨m, hm, mem_readySlots m true _ (pack_ne_nil (h.fits m hm).1)⟩
  rw [map_append, mem_append] at hslot
  refine hslot.resolve_right fun howned => ?_
  obtain ⟨s, hs, hsm⟩ := mem_map.mp howned
  have hlive : m.id ∈ (done ++ (owned ++ rest)).filterMap Slot.m ++ k.pc.frame := by
    refine mem_append_left _ (mem_filterMap.mpr ⟨s, ?_, hsm⟩)
    exact mem_append_right _ (mem_append_left _ hs)
  have hcount := h.account.count m.id
  rw [if_neg fun hc => hc.2 hlive, count_eq_zero] at hcount
  exact hcount hfreed

theorem Inv.proper (h : Inv k done owned rest) : Proper k where
  account := by
    rw [h.ringMbufs_eq]
    exact h.account
  flight := by
    refine ⟨done, owned, rest, h.toFlight, fun hpub s hs => ?_⟩
    have hp := h.pc
    unfold PcInv at hp
    split at hp
    · exact (hp s hs).1
    · obtain ⟨-, pre, filled, part, free, -, -, -, -, -, hfree, -⟩ := hp
      exact (hfree s hs).1
    · exact absurd ‹_› (hpub _ _ _ _ _)
    · exact (hp.1 s hs).1
  described := fun m hm => elements_ready (h.fits m hm)
  freed := fun hrun _ hm => h.completed_of_freed hrun hm

/-- **The mbufs are accounted for**, in every run all of whose steps meet the condition. -/
theorem buffers_accounted (as : List Action) (k : Softc) (hok : StepsMeet step Accountable stmacAttach as)
    (hrun : run step stmacAttach as = some k) :
    Proper k ∧ ∀ a t, step k a = some t → SafeStep k a t := by
  obtain ⟨rest, hattach⟩ := @inv_zero stmacAttach rfl rfl rfl rfl rfl rfl rfl Account.empty
  obtain ⟨done, owned, rest, h⟩ := @run_invariant_of_meet _ _ _ _
    (fun k => ∃ done owned rest, Inv k done owned rest)
    (fun _ _ _ ⟨_, _, _, h⟩ hok hs => inv_step h hok hs) as stmacAttach k ⟨_, _, _, hattach⟩ hok hrun
  exact ⟨h.proper, fun _ _ hs => h.safeStep hs⟩

def frame : Frame := ⟨1, [⟨4096, 60⟩], 60, false, false⟩

def frameRun : List Action :=
  [.statchg 1 true, .init, .transmit frame, .driver, .driver, .driver, .complete false, .driver]

/-- The link comes up, a frame is accepted and completed, and the transmit call reclaims it. -/
theorem buffers_accounted_frame : ∃ k t, run step stmacAttach frameRun = some k ∧ step k .driver = some t ∧
    k.accepted = [frame] ∧ t.freed = [1] ∧ t.pc = .idle ∧ Proper k ∧ SafeStep k .driver t := by
  have hproper := buffers_accounted frameRun _ (by decide) rfl
  exact ⟨_, _, rfl, rfl, rfl, rfl, rfl, hproper.1, hproper.2 _ _ rfl⟩

theorem not_proper_of_lost (hring : k.ring = fun _ => Slot.zero) (hpc : k.pc = .idle)
    (hgiven : k.given = [1]) (hfreed : k.freed = []) : ¬ Proper k := by
  intro hp
  have hmbufs : k.ringMbufs = [] := by
    rw [Softc.ringMbufs, hring]
    exact filterMap_of_free (view_zero _)
  have := hp.account.count 1
  rw [hmbufs, hpc, hgiven, hfreed] at this
  simp [Pc.frame] at this

/-- Without a link the frame is not freed; a frame that is accepted while the driver is stopped is lost when it
    is initialised. -/
theorem frame_lost :
    ¬ StepsMeet step (fun k a => ∀ t ∈ step k a, Proper t) stmacAttach [.transmit frame] ∧
    ¬ StepsMeet step (fun k a => ∀ t ∈ step k a, Proper t) stmacAttach
      [.statchg 1 true, .transmit frame, .driver, .driver, .driver, .driver, .init] := by
  constructor
  · rintro ⟨h, -⟩
    exact not_proper_of_lost rfl rfl rfl rfl (h _ rfl)
  · rintro ⟨-, h⟩
    obtain ⟨-, h⟩ := h _ rfl
    obtain ⟨-, h⟩ := h _ rfl
    obtain ⟨-, h⟩ := h _ rfl
    obtain ⟨-, h⟩ := h _ rfl
    obtain ⟨-, h⟩ := h _ rfl
    obtain ⟨h, -⟩ := h _ rfl
    exact not_proper_of_lost rfl rfl rfl rfl (h _ rfl)

end RtemsLibbsd.Stmac

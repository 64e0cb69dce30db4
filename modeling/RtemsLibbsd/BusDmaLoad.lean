import Mathlib.Tactic.Push
import RtemsLibbsd.BusDma
import RtemsLibbsd.Ethernet.Mbuf
import RtemsLibbsd.Masks
import RtemsLibbsd.Segments

/-!
# Loading a DMA map

Model of `bus_dmamap_load_buffer` and `bus_dmamap_load` of `rtemsbsd/rtems/rtems-kernel-bus-dma.c` and of
`bus_dmamap_load_mbuf` and `bus_dmamap_load_mbuf_sg` of `rtemsbsd/rtems/rtems-kernel-bus-dma-mbuf.c`.

* `Machine` — the width of a bus address, the size of a page and `RTEMS_BSP_PCI_MEM_REGION_BASE` (zero where it is
  not defined).
* `sgsize`, `insertChunk`, `loadLoop` — one round of the loop, with the arithmetic of the source, and the loop.
  A write or a read behind the end of `segs` is a fault, as is a loop that needs more rounds than there are bytes.
* `load`, `loadMbuf`, `loadMbufSg` — the three functions; the first two report to their callback.

What the functions are for is said with the library `Segments`:

* `chunkLen` — the length of the next chunk: it ends with its page, its window of `boundary` bytes, the piece or
  after `maxsegsz` bytes.
* `greedy` — the chunks of the pieces that are not empty, each joined to the segment before it whenever
  adjacency, `maxsegsz` and `boundary` allow that.
* `Describes` — a list of segments covers the pieces, within the limits of the tag.

Principal results: `greedy_describes`, `loadLoop_spec` (the loop produces the greedy segments, or stops with
`EFBIG` when they do not fit) and `load_segments`, the contract of the three functions.  `load_limits` shows a packet
refused for its length, an empty chain and a tag without segments.
-/

namespace RtemsLibbsd.BusDma.Load

open List Function

open RtemsLibbsd.Ethernet (Mbuf nonEmpty)
open RtemsLibbsd.Segments

structure Machine where
  /-- Bits of `uintptr_t`. -/
  width : Nat
  /-- `PAGE_SHIFT` -/
  pageShift : Nat
  /-- `RTEMS_BSP_PCI_MEM_REGION_BASE` -/
  memRegionBase : Nat
  pageShift_lt : pageShift < width

namespace Machine

variable (M : Machine)

def top : Nat := 2 ^ M.width

def pageSize : Nat := 2 ^ M.pageShift

def pageMask : Nat := M.pageSize - 1

def toBus (buf : Nat) : Nat := (buf + M.memRegionBase) % M.top

/-- `~(boundary - 1)` -/
def bmask (boundary : Nat) : Nat := M.top - 1 - (boundary + M.top - 1) % M.top

end Machine

/-- What `bus_dmamap_load_buffer` keeps between two pieces: the array, `*lastaddrp` and `*segp`. -/
structure Progress where
  segs : Nat → Range
  lastaddr : Nat
  seg : Nat

inductive LoadErrno where
  | efbig
  | einval

inductive LoadFault where
  | outOfBounds
  | outOfRounds

/-- The end of one round: the chunk is stored, or there is no segment left for it. -/
inductive Insert where
  | stored (p : Progress)
  | full (p : Progress)

variable (M : Machine) (t : Tag)

/-- "Compute the segment size, and adjust counts.  Make sure we don't cross any boundaries." -/
def sgsize (curaddr buflen : Nat) : Nat :=
  let size := M.pageSize - (curaddr &&& M.pageMask)
  let size := if t.maxsegsz < size then t.maxsegsz else size
  let size := if buflen < size then buflen else size
  if 0 < t.boundary then
    let baddr := (curaddr + t.boundary) % M.top &&& M.bmask t.boundary
    let room := (baddr + M.top - curaddr) % M.top
    if room < size then room else size
  else size

/-- "Insert chunk into a segment, coalescing with the previous segment if possible." -/
def insertChunk (first : Bool) (p : Progress) (c : Range) : Except LoadFault Insert :=
  if first = true then
    if p.seg < t.nsegments then
      .ok (.stored { p with segs := update p.segs p.seg c })
    else .error .outOfBounds
  else if p.seg < t.nsegments then
    let s := p.segs p.seg
    if c.addr = p.lastaddr ∧ (s.len + c.len) % M.top ≤ t.maxsegsz ∧
        (t.boundary = 0 ∨ s.addr &&& M.bmask t.boundary = c.addr &&& M.bmask t.boundary) then
      .ok (.stored { p with
        segs := update p.segs p.seg ⟨s.addr, (s.len + c.len) % M.top⟩ })
    else if t.nsegments ≤ p.seg + 1 then .ok (.full { p with seg := p.seg + 1 })
    else .ok (.stored { p with
      segs := update p.segs (p.seg + 1) c
      seg := p.seg + 1 })
  else .error .outOfBounds

/-- The loop of `bus_dmamap_load_buffer`; the second component is what is left of `buflen`. -/
def loadLoop : Nat → Bool → Progress → Nat → Nat → Except LoadFault (Progress × Nat)
  | 0, _, p, _, buflen => if buflen = 0 then .ok (p, 0) else .error .outOfRounds
  | fuel + 1, first, p, curaddr, buflen =>
      if buflen = 0 then .ok (p, 0)
      else
        let size := sgsize M t curaddr buflen
        match insertChunk M t first p ⟨curaddr, size⟩ with
        | .error f => .error f
        | .ok (.full p') => .ok (p', buflen)
        | .ok (.stored p') =>
            loadLoop fuel false { p' with lastaddr := (curaddr + size) % M.top }
              ((curaddr + size) % M.top) (buflen - size)

/-- `bus_dmamap_load_buffer` -/
def loadBuffer (buf buflen : Nat) (first : Bool) (p : Progress) :
    Except LoadFault (Progress × Option LoadErrno) :=
  (loadLoop M t buflen first p (M.toBus buf) buflen).map fun r =>
    (r.1, if r.2 ≠ 0 then some .efbig else none)

/-- The arguments of the callback: `dm_segments` (or `NULL`), `nsegs`, the size of the mapping and the error.
`bus_dmamap_load` passes no size. -/
structure Report where
  segs : Option (Nat → Range)
  nsegs : Nat
  mapsize : Nat
  error : Option LoadErrno

/-- `bus_dmamap_load`, which always returns zero; `garbage` is the content of the array on the stack. -/
def load (garbage : Nat → Range) (buf buflen : Nat) : Except LoadFault Report :=
  (loadBuffer M t buf buflen true ⟨garbage, 0, 0⟩).map fun r =>
    match r.2 with
    | none => ⟨some r.1.segs, r.1.seg + 1, 0, none⟩
    | some e => ⟨none, 0, 0, some e⟩

/-- The loop over the chain: "`for (m = m0; m != NULL && error == 0; m = m->m_next)`". -/
def loadChain : List Mbuf → Bool → Progress → Except LoadFault (Progress × Option LoadErrno)
  | [], _, p => .ok (p, none)
  | m :: rest, first, p =>
      if 0 < m.len then
        match loadBuffer M t m.data m.len first p with
        | .error f => .error f
        | .ok (p', some e) => .ok (p', some e)
        | .ok (p', none) => loadChain rest false p'
      else loadChain rest first p

/-- A packet: `m_pkthdr.len` of its first mbuf and the chain. -/
structure Packet where
  len : Nat
  chain : List Mbuf

/-- What both functions for mbufs do with `m0`. -/
def loadPacket (segs : Nat → Range) (m0 : Packet) : Except LoadFault (Progress × Option LoadErrno) :=
  if m0.len ≤ t.maxsize then loadChain M t m0.chain true ⟨segs, 0, 0⟩
  else .ok (⟨segs, 0, 0⟩, some .einval)

/-- `bus_dmamap_load_mbuf`: what it reports to the callback and what it returns. -/
def loadMbuf (garbage : Nat → Range) (m0 : Packet) : Except LoadFault (Report × Option LoadErrno) :=
  (loadPacket M t garbage m0).map fun r =>
    match r.2 with
    -- force "no valid mappings" in callback
    | some e => (⟨some r.1.segs, 0, 0, some e⟩, some e)
    | none => (⟨some r.1.segs, r.1.seg + 1, m0.len, none⟩, none)

/-- `bus_dmamap_load_mbuf_sg`: the array, `*nsegs` and what it returns. -/
def loadMbufSg (segs : Nat → Range) (m0 : Packet) :
    Except LoadFault ((Nat → Range) × Nat × Option LoadErrno) :=
  (loadPacket M t segs m0).map fun r => (r.1.segs, r.1.seg + 1, r.2)

/-! ## What the segments should be -/

/-- The length of the first chunk of the `n` bytes at `a`. -/
def chunkLen (a n : Nat) : Nat :=
  min (min (M.pageSize - a % M.pageSize) t.maxsegsz)
    (min n (if t.boundary = 0 then n else t.boundary - a % t.boundary))

/-- The chunk `c` may extend the segment `s`. -/
def Fits (s c : Range) : Prop :=
  c.addr = s.addr + s.len ∧ s.len + c.len ≤ t.maxsegsz ∧
    (t.boundary = 0 ∨ s.addr / t.boundary = c.addr / t.boundary)

instance : DecidableRel (Fits t) := fun s c =>
  inferInstanceAs (Decidable (c.addr = s.addr + s.len ∧ s.len + c.len ≤ t.maxsegsz ∧
    (t.boundary = 0 ∨ s.addr / t.boundary = c.addr / t.boundary)))

def pieceChunks (m : Mbuf) : List Range := chunks (chunkLen M t) m.len (M.toBus m.data) m.len

def greedy (pieces : List Mbuf) : List Range :=
  join (Fits t) ((nonEmpty pieces).flatMap (pieceChunks M t))

def ranges (pieces : List Mbuf) : List Range := (nonEmpty pieces).map fun m => ⟨M.toBus m.data, m.len⟩

structure Usable : Prop where
  maxsegsz_pos : 0 < t.maxsegsz
  boundary : t.boundary = 0 ∨ ∃ k < M.width, t.boundary = 2 ^ k

def InMemory (pieces : List Mbuf) : Prop := ∀ m ∈ pieces, 0 < m.len → M.toBus m.data + m.len < M.top

structure Within (s : Range) : Prop where
  pos : 1 ≤ s.len
  le : s.len ≤ t.maxsegsz
  window : t.boundary ≠ 0 → s.addr / t.boundary = (s.addr + s.len - 1) / t.boundary

/-- The segments are a description of the pieces for the hardware. -/
structure Describes (pieces : List Mbuf) (l : List Range) : Prop where
  covers : expand l = expand (ranges M pieces)
  within : ∀ s ∈ l, Within t s

/-! ## The arithmetic of one round -/

variable {M t}

namespace Machine

theorem top_pos (M : Machine) : 0 < M.top := Nat.two_pow_pos M.width

theorem pageSize_pos (M : Machine) : 0 < M.pageSize := Nat.two_pow_pos M.pageShift

theorem and_pageMask (M : Machine) (x : Nat) : x &&& M.pageMask = x % M.pageSize :=
  Nat.and_two_pow_sub_one_eq_mod x M.pageShift

theorem and_bmask {k x : Nat} (hk : k < M.width) (hx : x < M.top) :
    x &&& M.bmask (2 ^ k) = x / 2 ^ k * 2 ^ k := by
  have hlt : 2 ^ k < M.top := Nat.pow_lt_pow_right (by omega) hk
  have hpos : 0 < 2 ^ k := Nat.two_pow_pos k
  have hmask : M.bmask (2 ^ k) = 2 ^ M.width - 1 - (2 ^ k - 1) := by
    have hwrap : (2 ^ k + M.top - 1) % M.top = 2 ^ k - 1 := by
      rw [show 2 ^ k + M.top - 1 = 2 ^ k - 1 + M.top by omega, Nat.add_mod_right]
      exact Nat.mod_eq_of_lt (by omega)
    rw [bmask, hwrap, top]
  rw [hmask]
  exact Masks.and_complement hk.le hx

/-- The distance to the next multiple of `boundary`, computed modulo the width of an address. -/
theorem room_eq {k a : Nat} (hk : k < M.width) (ha : a < M.top) :
    (((a + 2 ^ k) % M.top &&& M.bmask (2 ^ k)) + M.top - a) % M.top = 2 ^ k - a % 2 ^ k := by
  have hlt : 2 ^ k < M.top := Nat.pow_lt_pow_right (by omega) hk
  have hpos : 0 < 2 ^ k := Nat.two_pow_pos k
  obtain ⟨q, hq⟩ : 2 ^ k ∣ M.top := Nat.pow_dvd_pow 2 (le_of_lt hk)
  have hdiv : a / 2 ^ k * 2 ^ k + a % 2 ^ k = a := Nat.div_add_mod' a (2 ^ k)
  have hmod : a % 2 ^ k < 2 ^ k := Nat.mod_lt a hpos
  rw [and_bmask hk (Nat.mod_lt _ M.top_pos)]
  by_cases hwrap : a + 2 ^ k < M.top
  · rw [Nat.mod_eq_of_lt hwrap, Nat.add_div_right a hpos, Nat.succ_mul]
    rw [show a / 2 ^ k * 2 ^ k + 2 ^ k + M.top - a = 2 ^ k - a % 2 ^ k + M.top by omega,
      Nat.add_mod_right]
    exact Nat.mod_eq_of_lt (by omega)
  · -- the window of `a` is the last one
    have hlast : a / 2 ^ k * 2 ^ k + 2 ^ k = M.top := by
      have hlow : q ≤ a / 2 ^ k + 1 := by
        have h := Nat.div_le_div_right (c := 2 ^ k) (Nat.le_of_not_lt hwrap)
        rw [Nat.add_div_right a hpos, hq, Nat.mul_div_cancel_left q hpos] at h
        exact h
      have hhigh : a / 2 ^ k < q := Nat.div_lt_of_lt_mul (hq ▸ ha)
      have heq : a / 2 ^ k + 1 = q := by omega
      rw [← Nat.succ_mul, Nat.succ_eq_add_one, heq, hq, Nat.mul_comm]
    have hrest : (a + 2 ^ k) % M.top = a % 2 ^ k := by
      rw [show a + 2 ^ k = a % 2 ^ k + M.top by omega, Nat.add_mod_right]
      exact Nat.mod_eq_of_lt (by omega)
    rw [hrest, Nat.div_eq_of_lt hmod, Nat.zero_mul, Nat.zero_add]
    rw [show M.top - a = 2 ^ k - a % 2 ^ k by omega]
    exact Nat.mod_eq_of_lt (by omega)

end Machine

theorem sgsize_eq (ht : Usable M t) {a : Nat} (ha : a < M.top) (n : Nat) :
    sgsize M t a n = chunkLen M t a n := by
  unfold sgsize chunkLen
  rw [M.and_pageMask]
  rcases ht.boundary with hb | ⟨k, hk, hb⟩
  · simp only [hb, lt_irrefl, if_false, if_true]
    split <;> split <;> omega
  · have hpos : 0 < 2 ^ k := Nat.two_pow_pos k
    simp only [hb, M.room_eq hk ha, hpos, if_true, if_neg (show ¬ 2 ^ k = 0 by omega)]
    split <;> split <;> split <;> omega

theorem chunkLen_pos (ht : Usable M t) (a : Nat) {n : Nat} (hn : 0 < n) : 1 ≤ chunkLen M t a n := by
  have hpage : a % M.pageSize < M.pageSize := Nat.mod_lt a M.pageSize_pos
  have hmax := ht.maxsegsz_pos
  unfold chunkLen
  split
  · omega
  · have hwin : a % t.boundary < t.boundary := Nat.mod_lt a (by omega)
    omega

theorem chunkLen_le (a n : Nat) : chunkLen M t a n ≤ n := by
  unfold chunkLen
  omega

theorem chunkLen_bounds (ht : Usable M t) (a n : Nat) (hn : 0 < n) :
    1 ≤ chunkLen M t a n ∧ chunkLen M t a n ≤ n :=
  ⟨chunkLen_pos ht a hn, chunkLen_le a n⟩

theorem chunk_within (ht : Usable M t) (a : Nat) {n : Nat} (hn : 0 < n) :
    Within t ⟨a, chunkLen M t a n⟩ := by
  have h1 := chunkLen_pos ht a hn
  have hmax : chunkLen M t a n ≤ t.maxsegsz := by
    unfold chunkLen
    omega
  refine ⟨h1, hmax, fun hb => ?_⟩
  have hle : chunkLen M t a n ≤ t.boundary - a % t.boundary := by
    unfold chunkLen
    rw [if_neg hb]
    omega
  have hlow : a / t.boundary * t.boundary + a % t.boundary = a := Nat.div_add_mod' a t.boundary
  symm
  exact Nat.div_eq_of_lt_le (by simp only; omega) (by simp only [Nat.succ_mul]; omega)

theorem grown_within {s c : Range} (hs : Within t s) (hc : Within t c) (hfit : Fits t s c) :
    Within t ⟨s.addr, s.len + c.len⟩ := by
  obtain ⟨hadj, hlen, hwin⟩ := hfit
  have hpos := hs.pos
  refine ⟨by simp only; omega, hlen, fun hb => ?_⟩
  grind [hc.window]

theorem pieceChunks_within (ht : Usable M t) (m : Mbuf) : ∀ r ∈ pieceChunks M t m, Within t r :=
  forall_chunks (fun a _ hn => chunk_within ht a hn) m.len _ _

theorem expand_pieceChunks (ht : Usable M t) (m : Mbuf) :
    expand (pieceChunks M t m) = List.range' (M.toBus m.data) m.len :=
  expand_chunks (chunkLen_bounds ht) _ (le_refl _)

/-- **The greedy segmentation describes the pieces.** -/
theorem greedy_describes (ht : Usable M t) (pieces : List Mbuf) :
    Describes M t pieces (greedy M t pieces) where
  covers := by
    rw [greedy, expand_join (fun s c h => h.1), ranges]
    generalize nonEmpty pieces = l
    induction l with
    | nil => rfl
    | cons m l ih =>
        rw [flatMap_cons, expand_append, ih, expand_pieceChunks ht, map_cons, expand_cons]
  within := forall_join (fun _ _ hs hc hfit => grown_within hs hc hfit) fun r hr => by
    obtain ⟨m, -, hm⟩ := mem_flatMap.mp hr
    exact pieceChunks_within ht m r hm

/-! ## The loop -/

/-- The first `n` entries of the array, newest first. -/
def listing (segs : Nat → Range) : Nat → List Range
  | 0 => []
  | n + 1 => segs n :: listing segs n

theorem listing_update (segs : Nat → Range) (c : Range) {i n : Nat} (h : n ≤ i) :
    listing (update segs i c) n = listing segs n := by
  induction n with
  | zero => rfl
  | succ n ih => rw [listing, listing, ih (by omega), update_of_ne (by omega)]

theorem length_listing (segs : Nat → Range) (n : Nat) : (listing segs n).length = n := by
  induction n with
  | zero => rfl
  | succ n ih => simp [listing, ih]

theorem listing_reverse (segs : Nat → Range) (n : Nat) :
    (listing segs n).reverse = (List.range n).map segs := by
  induction n with
  | zero => rfl
  | succ n ih => rw [listing, reverse_cons, ih, range_succ, map_append]; rfl

def Holds (t : Tag) (p : Progress) : List Range → Prop
  | [] => p.seg = 0
  | s :: l => p.lastaddr = s.addr + s.len ∧ p.seg < t.nsegments ∧ listing p.segs (p.seg + 1) = s :: l

theorem fits_iff (ht : Usable M t) {s c : Range} (hc : c.addr + c.len < M.top) :
    (c.addr = s.addr + s.len ∧ (s.len + c.len) % M.top ≤ t.maxsegsz ∧
      (t.boundary = 0 ∨ s.addr &&& M.bmask t.boundary = c.addr &&& M.bmask t.boundary)) ↔
      Fits t s c := by
  refine and_congr_right fun hadj => ?_
  rw [Nat.mod_eq_of_lt (by omega : s.len + c.len < M.top)]
  rcases ht.boundary with hb | ⟨k, hk, hb⟩
  · omega
  · have hpos : 0 < 2 ^ k := Nat.two_pow_pos k
    rw [hb, M.and_bmask hk (by omega), M.and_bmask hk (by omega), Nat.mul_left_inj (by omega)]

variable {acc : List Range} {p : Progress}

/-- **One chunk**: it is stored as `push` says, unless that needs one segment too many. -/
theorem insertChunk_spec (ht : Usable M t) (hn : 0 < t.nsegments)
    (hp : Holds t p acc) {c : Range} (hc : c.addr + c.len < M.top) :
    (∃ p', insertChunk M t acc.isEmpty p c = .ok (.stored p') ∧
      Holds t { p' with lastaddr := (c.addr + c.len) % M.top } (push (Fits t) acc c) ∧
      (push (Fits t) acc c).length ≤ t.nsegments) ∨
    (∃ p', insertChunk M t acc.isEmpty p c = .ok (.full p') ∧
      t.nsegments < (push (Fits t) acc c).length) := by
  have hlast : (c.addr + c.len) % M.top = c.addr + c.len := Nat.mod_eq_of_lt hc
  cases acc with
  | nil =>
      have hseg : p.seg = 0 := hp
      refine .inl ⟨{ p with segs := update p.segs p.seg c }, ?_, ⟨hlast, ?_, ?_⟩, hn⟩
      · simp [insertChunk, if_pos (hseg ▸ hn)]
      · exact hseg ▸ hn
      · simp [hseg, listing]
  | cons s l =>
      obtain ⟨hla, hlt, hlist⟩ := hp
      have hs : p.segs p.seg = s := (List.cons.inj hlist).1
      have hl : listing p.segs p.seg = l := (List.cons.inj hlist).2
      have hlen : p.seg = l.length := by rw [← hl, length_listing]
      have hcond := fits_iff ht (s := s) hc
      simp only [insertChunk, isEmpty_cons, Bool.false_eq_true, if_false, hlt, if_true, hs, hla,
        hcond, push_cons]
      split
      · rename_i hfit
        have hadj := hfit.1
        have hsum : (s.len + c.len) % M.top = s.len + c.len := Nat.mod_eq_of_lt (by omega)
        refine .inl ⟨_, rfl, ⟨?_, hlt, ?_⟩, ?_⟩
        · show (c.addr + c.len) % M.top = s.addr + (s.len + c.len)
          omega
        · simp only [listing, update_self, listing_update _ _ (le_refl _), hl, hsum]
        · rw [length_cons, ← hlen]
          exact hlt
      · split
        · grind
        · refine .inl ⟨_, rfl, ⟨hlast, by simp only; omega, ?_⟩, ?_⟩
          · simp only [listing, update_self]
            rw [listing_update _ _ (Nat.le_succ _), update_of_ne (by omega), hs, hl]
          · rw [length_cons, length_cons, ← hlen]
            omega

/-- **The loop**: it ends, and it produces the segments of the chunks or stops because they do not fit. -/
theorem loadLoop_spec (ht : Usable M t) (hn : 0 < t.nsegments) {fuel a n : Nat} (hf : n ≤ fuel)
    (hmem : a + n < M.top) (hp : Holds t p acc) (hacc : acc.length ≤ t.nsegments) :
    (∃ p', loadLoop M t fuel acc.isEmpty p a n = .ok (p', 0) ∧
      Holds t p' ((chunks (chunkLen M t) fuel a n).foldl (push (Fits t)) acc) ∧
      ((chunks (chunkLen M t) fuel a n).foldl (push (Fits t)) acc).length ≤ t.nsegments) ∨
    (∃ p' rest, loadLoop M t fuel acc.isEmpty p a n = .ok (p', rest) ∧ rest ≠ 0 ∧
      t.nsegments < ((chunks (chunkLen M t) fuel a n).foldl (push (Fits t)) acc).length) := by
  induction fuel generalizing a n p acc with
  | zero =>
      obtain rfl : n = 0 := by omega
      exact .inl ⟨p, rfl, hp, hacc⟩
  | succ fuel ih =>
      by_cases hzero : n = 0
      · subst hzero
        exact .inl ⟨p, rfl, hp, hacc⟩
      · have hpos := chunkLen_pos ht a (n := n) (by omega)
        have hle := chunkLen_le (M := M) (t := t) a n
        have hc : a + chunkLen M t a n < M.top := by omega
        rw [loadLoop, if_neg hzero, sgsize_eq ht (by omega), chunks_succ fuel a hzero,
          foldl_cons]
        rcases insertChunk_spec ht hn hp (c := ⟨a, chunkLen M t a n⟩) hc with
          ⟨p', hins, hp', hlen⟩ | ⟨p', hins, hlen⟩
        · have hrec := ih (a := a + chunkLen M t a n) (n := n - chunkLen M t a n) (by omega) (by omega)
            hp' hlen
          grind [push_ne_nil, Nat.mod_eq_of_lt]
        · simp only [hins]
          exact .inr ⟨p', n, rfl, hzero, lt_of_lt_of_le hlen (length_le_foldl_push _ _)⟩

theorem loadBuffer_spec (ht : Usable M t) (hn : 0 < t.nsegments) {m : Mbuf}
    (hmem : M.toBus m.data + m.len < M.top) (hp : Holds t p acc) (hacc : acc.length ≤ t.nsegments) :
    (∃ p', loadBuffer M t m.data m.len acc.isEmpty p = .ok (p', none) ∧
      Holds t p' ((pieceChunks M t m).foldl (push (Fits t)) acc) ∧
      ((pieceChunks M t m).foldl (push (Fits t)) acc).length ≤ t.nsegments) ∨
    (∃ p', loadBuffer M t m.data m.len acc.isEmpty p = .ok (p', some .efbig) ∧
      t.nsegments < ((pieceChunks M t m).foldl (push (Fits t)) acc).length) := by
  rcases loadLoop_spec ht hn (le_refl m.len) hmem hp hacc with
    ⟨p', hloop, hp', hlen⟩ | ⟨p', rest, hloop, hrest, hlen⟩
  · refine .inl ⟨p', ?_, hp', hlen⟩
    rw [loadBuffer, hloop]
    rfl
  · refine .inr ⟨p', ?_, hlen⟩
    rw [loadBuffer, hloop, Except.map, if_pos hrest]

theorem pieceChunks_isEmpty {m : Mbuf} (hm : 0 < m.len) (acc : List Range) :
    ((pieceChunks M t m).foldl (push (Fits t)) acc).isEmpty = false := by
  obtain ⟨n, hlen⟩ : ∃ n, m.len = n + 1 := ⟨m.len - 1, by omega⟩
  rw [pieceChunks, hlen, chunks_succ _ _ (Nat.succ_ne_zero n), foldl_cons,
    isEmpty_eq_false_iff]
  exact foldl_push_ne_nil _ (push_ne_nil _ _)

variable {pieces : List Mbuf}

/-- **The chain**: the state of the merge is carried from one mbuf to the next. -/
theorem loadChain_spec (ht : Usable M t) (hn : 0 < t.nsegments)
    (hmem : InMemory M pieces) (hp : Holds t p acc) (hacc : acc.length ≤ t.nsegments) :
    (∃ p', loadChain M t pieces acc.isEmpty p = .ok (p', none) ∧
      Holds t p' (((nonEmpty pieces).flatMap (pieceChunks M t)).foldl (push (Fits t)) acc) ∧
      (((nonEmpty pieces).flatMap (pieceChunks M t)).foldl (push (Fits t)) acc).length ≤
        t.nsegments) ∨ (∃ p', loadChain M t pieces acc.isEmpty p = .ok (p', some .efbig) ∧
      t.nsegments <
        (((nonEmpty pieces).flatMap (pieceChunks M t)).foldl (push (Fits t)) acc).length) := by
  induction pieces generalizing p acc with
  | nil => exact .inl ⟨p, rfl, hp, hacc⟩
  | cons m rest ih =>
      obtain ⟨hm, hrest⟩ := forall_mem_cons.mp hmem
      by_cases hpos : 0 < m.len
      · have hne : nonEmpty (m :: rest) = m :: nonEmpty rest := by simp [nonEmpty, hpos]
        rw [loadChain, if_pos hpos, hne, flatMap_cons, foldl_append]
        rcases loadBuffer_spec ht hn (hm hpos) hp hacc with ⟨p', hbuf, hp', hlen⟩ | ⟨p', hbuf, hlen⟩
        · rw [hbuf]
          have hrec := ih hrest hp' hlen
          rw [pieceChunks_isEmpty hpos] at hrec
          exact hrec
        · rw [hbuf]
          exact .inr ⟨p', rfl, lt_of_lt_of_le hlen (length_le_foldl_push _ _)⟩
      · have hne : nonEmpty (m :: rest) = nonEmpty rest := by simp [nonEmpty, hpos]
        rw [loadChain, if_neg hpos, hne]
        exact ih hrest hp hacc

/-! ## The contract -/

/-- What a load of the pieces must report: the array, the number of segments and the error. -/
structure Loaded (M : Machine) (t : Tag) (pieces : List Mbuf) (segs : Option (Nat → Range)) (nsegs : Nat)
    (error : Option LoadErrno) : Prop where
  fails_iff : error = some .efbig ↔ t.nsegments < (greedy M t pieces).length
  errors : error = none ∨ error = some .efbig
  filled : error = none → nsegs = (greedy M t pieces).length ∧ nsegs ≤ t.nsegments ∧
    ∃ s, segs = some s ∧ (List.range nsegs).map s = greedy M t pieces
  describes : Describes M t pieces (greedy M t pieces)

theorem Loaded.of_fits (ht : Usable M t)
    (hp : Holds t p acc) (hlen : acc.length ≤ t.nsegments) (hacc : acc.isEmpty = false)
    (hgreedy : greedy M t pieces = acc.reverse) : Loaded M t pieces (some p.segs) (p.seg + 1) none := by
  have hcount : (greedy M t pieces).length = acc.length := by simp [hgreedy]
  have hlist : listing p.segs (p.seg + 1) = acc := by
    cases acc with
    | nil => cases hacc
    | cons s l => exact hp.2.2
  have hseg : p.seg + 1 = acc.length := by rw [← hlist, length_listing]
  refine ⟨⟨nofun, fun h => ?_⟩, .inl rfl, fun _ => ⟨by omega, by omega, p.segs, rfl, ?_⟩,
    greedy_describes ht pieces⟩
  · omega
  · rw [hgreedy, ← hlist, listing_reverse]

theorem Loaded.of_full (ht : Usable M t) (segs : Option (Nat → Range)) (nsegs : Nat)
    (h : t.nsegments < (greedy M t pieces).length) : Loaded M t pieces segs nsegs (some .efbig) :=
  ⟨⟨fun _ => h, fun _ => rfl⟩, .inr rfl, nofun, greedy_describes ht pieces⟩

theorem loadChain_loaded (ht : Usable M t) (hn : 0 < t.nsegments)
    (hmem : InMemory M pieces) (hdata : nonEmpty pieces ≠ []) (segs : Nat → Range) :
    (∃ p, loadChain M t pieces true ⟨segs, 0, 0⟩ = .ok (p, none) ∧
      Loaded M t pieces (some p.segs) (p.seg + 1) none) ∨
    (∃ p, loadChain M t pieces true ⟨segs, 0, 0⟩ = .ok (p, some .efbig) ∧
      t.nsegments < (greedy M t pieces).length) := by
  have hstart : Holds t ⟨segs, 0, 0⟩ [] := rfl
  rcases loadChain_spec ht hn hmem hstart (Nat.zero_le _) with ⟨p, hload, hp, hlen⟩ | ⟨p, hload, hlen⟩
  · refine .inl ⟨p, hload, Loaded.of_fits ht hp hlen ?_ rfl⟩
    obtain ⟨m, l, hml⟩ := exists_cons_of_ne_nil hdata
    grind [nonEmpty, mem_cons_self, foldl_push_ne_nil, pieceChunks_isEmpty]
  · refine .inr ⟨p, hload, ?_⟩
    rw [greedy, join, length_reverse]
    exact hlen

/-- **Segmentation**: for a tag that allows a segment, each load of some data terminates and yields the greedy
segments of the pieces, or `EFBIG` exactly when they are too many; a packet longer than `maxsize` is refused. -/
theorem load_segments (M : Machine) (t : Tag) (ht : Usable M t) (hn : 0 < t.nsegments)
    (garbage : Nat → Range) :
    (∀ buf buflen, 0 < buflen → InMemory M [⟨buf, buflen⟩] →
      ∃ r, load M t garbage buf buflen = .ok r ∧
        Loaded M t [⟨buf, buflen⟩] r.segs r.nsegs r.error) ∧
    (∀ m0 : Packet, m0.len ≤ t.maxsize → nonEmpty m0.chain ≠ [] → InMemory M m0.chain →
      (∃ r, loadMbuf M t garbage m0 = .ok (r, r.error) ∧
        Loaded M t m0.chain r.segs r.nsegs r.error) ∧
      (∃ segs nsegs error, loadMbufSg M t garbage m0 = .ok (segs, nsegs, error) ∧
        Loaded M t m0.chain (some segs) nsegs error)) ∧
    (∀ m0 : Packet, t.maxsize < m0.len →
      (∃ r, loadMbuf M t garbage m0 = .ok (r, some .einval) ∧ r.nsegs = 0 ∧ r.error = some .einval) ∧
      (∃ segs nsegs, loadMbufSg M t garbage m0 = .ok (segs, nsegs, some .einval))) := by
  refine ⟨fun buf buflen hpos hmem => ?_, fun m0 hsize hdata hmem => ?_, fun m0 hsize => ?_⟩
  · have hdata : nonEmpty [(⟨buf, buflen⟩ : Mbuf)] ≠ [] := by simp [nonEmpty, hpos]
    have hone : loadChain M t [⟨buf, buflen⟩] true ⟨garbage, 0, 0⟩ =
        loadBuffer M t buf buflen true ⟨garbage, 0, 0⟩ := by
      rw [loadChain, if_pos hpos]
      split <;> rename_i heq <;> rw [heq]
      rfl
    rcases loadChain_loaded ht hn hmem hdata garbage with ⟨p, hload, hl⟩ | ⟨p, hload, hfull⟩
    · rw [hone] at hload
      exact ⟨⟨some p.segs, p.seg + 1, 0, none⟩, by rw [load, hload]; rfl, hl⟩
    · rw [hone] at hload
      exact ⟨⟨none, 0, 0, some .efbig⟩, by rw [load, hload]; rfl, Loaded.of_full ht _ _ hfull⟩
  · rcases loadChain_loaded ht hn hmem hdata garbage with ⟨p, hload, hl⟩ | ⟨p, hload, hfull⟩
    · have hpacket : loadPacket M t garbage m0 = .ok (p, none) := by rw [loadPacket, if_pos hsize, hload]
      exact ⟨⟨⟨some p.segs, p.seg + 1, m0.len, none⟩, by rw [loadMbuf, hpacket]; rfl, hl⟩,
        ⟨p.segs, p.seg + 1, none, by rw [loadMbufSg, hpacket]; rfl, hl⟩⟩
    · have hpacket : loadPacket M t garbage m0 = .ok (p, some .efbig) := by
        rw [loadPacket, if_pos hsize, hload]
      exact ⟨⟨⟨some p.segs, 0, 0, some .efbig⟩, by rw [loadMbuf, hpacket]; rfl,
          Loaded.of_full ht _ _ hfull⟩,
        ⟨p.segs, p.seg + 1, some .efbig, by rw [loadMbufSg, hpacket]; rfl,
          Loaded.of_full ht _ _ hfull⟩⟩
  · have hpacket : loadPacket M t garbage m0 = .ok (⟨garbage, 0, 0⟩, some .einval) := by
      rw [loadPacket, if_neg (by omega)]
    exact ⟨⟨⟨some garbage, 0, 0, some .einval⟩, by rw [loadMbuf, hpacket]; rfl, rfl, rfl⟩,
      ⟨garbage, 1, by rw [loadMbufSg, hpacket]; rfl⟩⟩

def machine32 : Machine := ⟨32, 12, 0, by decide⟩

def tagOf (maxsize nsegments maxsegsz boundary : Nat) : Tag where
  parent := none
  alignment := 1
  boundary := boundary
  lowaddr := 2 ^ 32 - 1
  highaddr := 2 ^ 32 - 1
  filter := none
  filterarg := 0
  maxsize := maxsize
  nsegments := nsegments
  maxsegsz := maxsegsz
  flags := 0
  refCount := 1
  mapCount := 0
  lockfunc := .dfltLock
  lockfuncarg := 0

/-- Two neighbours with an empty mbuf between them: the second is cut at the window and joined before the cut. -/
theorem load_segments_neighbours :
    (∃ r, loadMbuf machine32 (tagOf 2048 2 2048 4096) (fun _ => ⟨0, 0⟩)
        ⟨300, [⟨4000, 50⟩, ⟨0, 0⟩, ⟨4050, 250⟩]⟩ = .ok (r, r.error) ∧
      Loaded machine32 (tagOf 2048 2 2048 4096) [⟨4000, 50⟩, ⟨0, 0⟩, ⟨4050, 250⟩]
        r.segs r.nsegs r.error) ∧
    greedy machine32 (tagOf 2048 2 2048 4096) [⟨4000, 50⟩, ⟨0, 0⟩, ⟨4050, 250⟩] =
      [⟨4000, 96⟩, ⟨4096, 204⟩] :=
  ⟨((load_segments machine32 (tagOf 2048 2 2048 4096) ⟨by decide, .inr ⟨12, by decide, rfl⟩⟩
    (by decide) (fun _ => ⟨0, 0⟩)).2.1 ⟨300, [⟨4000, 50⟩, ⟨0, 0⟩, ⟨4050, 250⟩]⟩ (by decide) (by decide)
      (by unfold InMemory; decide)).1, by decide⟩

/-- A packet longer than `maxsize` that needs two segments is refused, but not with `EFBIG`; for a chain without
data one segment is reported; and without a segment the first chunk is written behind the array. -/
theorem load_limits :
    ((tagOf 64 1 64 0).nsegments < (greedy machine32 (tagOf 64 1 64 0) [⟨4096, 128⟩]).length ∧
      (loadMbuf machine32 (tagOf 64 1 64 0) (fun _ => ⟨0, 0⟩) ⟨128, [⟨4096, 128⟩]⟩).toOption.map Prod.snd =
        some (some .einval)) ∧
    (greedy machine32 (tagOf 64 1 64 0) [⟨4096, 0⟩] = [] ∧
      (loadMbuf machine32 (tagOf 64 1 64 0) (fun _ => ⟨0, 0⟩) ⟨0, [⟨4096, 0⟩]⟩).toOption.map
        (fun r => (r.1.nsegs, r.2)) = some (1, none)) ∧
    ((tagOf 64 0 64 0).nsegments < (greedy machine32 (tagOf 64 0 64 0) [⟨4096, 32⟩]).length ∧
      (load machine32 (tagOf 64 0 64 0) (fun _ => ⟨0, 0⟩) 4096 32).toOption.isNone = true) := by
  refine ⟨⟨by decide, rfl⟩, ⟨by decide, rfl⟩, ⟨by decide, rfl⟩⟩

end RtemsLibbsd.BusDma.Load

import RtemsLibbsd.BusDmaLoad
import RtemsLibbsd.WriteBackCache

/-!
# Synchronising a DMA map

Model of `bus_dmamap_sync` of `rtemsbsd/rtems/rtems-kernel-bus-dma.c` and of what `bus_dmamap_load` writes to the
map for it.

* `Target` — the machine, its data cache and the sections that the processor does not cache; the routines of the
  cache manager are a parameter.
* `postread` — the branch for `BUS_DMASYNC_POSTREAD`: the parts of the first and of the last line that are not part
  of the buffer are saved, the lines are invalidated and the saved parts are written back to their places.
* `sync` — the whole function.

Principal results: `postread_view`, what the processor sees afterwards in terms of the memory and of what it saw
before, and `sync_postread`.  A map with `DMAMAP_CACHE_ALIGNED` gives up what shares a line with the buffer
(`sync_blowUp_loses`).
-/

namespace RtemsLibbsd.BusDma.Sync

open RtemsLibbsd.BusDma.Load (Machine)
open RtemsLibbsd.WriteBackCache

universe u

abbrev BUS_DMASYNC_PREREAD : Nat := 1
abbrev BUS_DMASYNC_POSTREAD : Nat := 2
abbrev BUS_DMASYNC_PREWRITE : Nat := 4
/-- "Hint that the start address and size can be aligned to the next cache line." -/
abbrev BUS_DMA_DO_CACHE_LINE_BLOW_UP : Nat := 0x80000000

abbrev DMAMAP_CACHE_ALIGNED : Nat := 1

/-- `struct bus_dmamap` -/
structure DmaMap where
  bufferBegin : Nat
  bufferSize : Nat
  flags : Nat

/-- What `bus_dmamap_load` writes to the map. -/
def loadMap (map : DmaMap) (buf buflen flags : Nat) : DmaMap where
  bufferBegin := buf
  bufferSize := buflen
  flags := if flags &&& BUS_DMA_DO_CACHE_LINE_BLOW_UP ≠ 0 then map.flags ||| DMAMAP_CACHE_ALIGNED else map.flags

/-- A machine with a data cache.  `nocache` are `bsp_section_nocache_begin` and `bsp_section_nocachenoload_end`. -/
structure Target where
  machine : Machine
  geometry : Geometry
  shift_lt : geometry.shift < machine.width
  nocache : Option (Nat × Nat)
  nocache_uncached : ∀ lo hi, nocache = some (lo, hi) → ∀ a, lo ≤ a → a < hi →
    geometry.uncached (geometry.lineOf a) = true

variable {β : Type u} (T : Target)

namespace Target

abbrev clsz : Nat := T.geometry.lineSize

def clmask : Nat := T.clsz - 1

/-- `begin >= bsp_section_nocache_begin && end <= bsp_section_nocachenoload_end` -/
def inNocache (begin fin : Nat) : Bool :=
  match T.nocache with
  | none => false
  | some (lo, hi) => lo ≤ begin ∧ fin ≤ hi

end Target

variable {T} (C : Manager T.geometry β)

/-- The branch for `BUS_DMASYNC_POSTREAD`. -/
def postread (s : CachedMemory β) (begin fin size : Nat) : CachedMemory β :=
  let firstBegin := begin &&& T.machine.bmask T.clsz
  let firstSize := begin &&& T.clmask
  let lastSize := T.clsz - (fin &&& T.clmask)
  let first := if begin &&& T.clmask ≠ 0 then load T.geometry s firstBegin firstSize else ([], s)
  let last := if fin &&& T.clmask ≠ 0 then load T.geometry first.2 fin lastSize else ([], first.2)
  let s := C.invalidate last.2 begin size
  let s := if begin &&& T.clmask ≠ 0 then store T.geometry s firstBegin first.1 else s
  if fin &&& T.clmask ≠ 0 then store T.geometry s fin last.1 else s

/-- `bus_dmamap_sync` -/
def sync (s : CachedMemory β) (map : DmaMap) (op : Nat) : CachedMemory β :=
  let begin := map.bufferBegin
  let fin := (begin + map.bufferSize) % T.machine.top
  if T.inNocache begin fin then s
  else
    let aligned := map.flags &&& DMAMAP_CACHE_ALIGNED ≠ 0
    let begin := if aligned then begin &&& T.machine.bmask T.clsz else begin
    let fin := if aligned then (fin + T.clmask) % T.machine.top &&& T.machine.bmask T.clsz else fin
    let size := if aligned then (fin + T.machine.top - begin) % T.machine.top else map.bufferSize
    let s := if op &&& BUS_DMASYNC_PREWRITE ≠ 0 ∧ op &&& BUS_DMASYNC_PREREAD = 0 then C.flush s begin size else s
    let s :=
      if op &&& BUS_DMASYNC_PREREAD ≠ 0 then
        let s := if op &&& BUS_DMASYNC_PREWRITE ≠ 0 ∨ (begin ||| size) &&& T.clmask ≠ 0 then C.flush s begin size
          else s
        C.invalidate s begin size
      else s
    if op &&& BUS_DMASYNC_POSTREAD ≠ 0 then postread C s begin fin size else s

/-- The buffer of a map is an object of the memory, and not all of it. -/
structure Placed (T : Target) (map : DmaMap) : Prop where
  inside : map.bufferBegin + map.bufferSize < T.machine.top
  room : map.bufferSize + 2 * T.clsz ≤ T.machine.top

def DmaMap.Buffer (map : DmaMap) (a : Nat) : Prop := map.bufferBegin ≤ a ∧ a < map.bufferBegin + map.bufferSize

instance (map : DmaMap) (a : Nat) : Decidable (map.Buffer a) := inferInstanceAs (Decidable (_ ∧ _))

/-- The bytes of the cache lines that the buffer touches, from the line of its start to the line of its end. -/
def DmaMap.Lines (T : Target) (map : DmaMap) (a : Nat) : Prop :=
  map.bufferBegin / T.clsz * T.clsz ≤ a ∧
    a < (map.bufferBegin + map.bufferSize + T.clmask) / T.clsz * T.clsz

namespace Target

theorem clsz_pos : 0 < T.clsz := T.geometry.lineSize_pos

theorem and_clmask (x : Nat) : x &&& T.clmask = x % T.clsz := Nat.and_two_pow_sub_one_eq_mod x T.geometry.shift

theorem and_notClmask {x : Nat} (hx : x < T.machine.top) : x &&& T.machine.bmask T.clsz = x / T.clsz * T.clsz :=
  Machine.and_bmask T.shift_lt hx

theorem clsz_dvd_top : T.clsz ∣ T.machine.top := Nat.pow_dvd_pow 2 (Nat.le_of_lt T.shift_lt)

end Target

/-- The area that the branch for `BUS_DMASYNC_POSTREAD` is called with. -/
structure Area (T : Target) (begin size : Nat) : Prop where
  begin_lt : begin < T.machine.top
  fits : begin + size < T.machine.top ∨ begin + size = T.machine.top ∧ begin % T.clsz = 0

/-- **What the processor sees after a DMA read**: the memory in the area, and what it saw before elsewhere. -/
theorem postread_view {begin size : Nat} (h : Area T begin size) (s : CachedMemory β) (a : Nat) :
    view T.geometry (postread C s begin ((begin + size) % T.machine.top) size) a =
      if begin ≤ a ∧ a < begin + size then s.memory a else view T.geometry s a := by
  have hpos : 0 < T.clsz := T.clsz_pos
  have hbegin : begin / T.clsz * T.clsz + begin % T.clsz = begin := Nat.div_add_mod' begin T.clsz
  obtain ⟨fin, hfin⟩ : ∃ fin, (begin + size) % T.machine.top = fin := ⟨_, rfl⟩
  -- an end that wraps around is aligned
  have hend : fin % T.clsz ≠ 0 → fin = begin + size := by
    intro hne
    rcases h.fits with hlt | ⟨heq, -⟩
    · rw [← hfin, Nat.mod_eq_of_lt hlt]
    · rw [← hfin, heq, Nat.mod_self, Nat.zero_mod] at hne
      exact absurd rfl hne
  have haligned : fin % T.clsz = 0 → (begin + size) % T.clsz = 0 := by
    intro hzero
    rwa [← hfin, Nat.mod_mod_of_dvd _ T.clsz_dvd_top] at hzero
  rw [hfin]
  unfold postread
  simp only [Target.and_clmask, Target.and_notClmask h.begin_lt]
  -- the saved bytes are what the processor saw
  have hfirst : ∀ t : CachedMemory β, view T.geometry t = view T.geometry s → t.memory = s.memory →
      view T.geometry (if begin % T.clsz ≠ 0 then
        store T.geometry (C.invalidate t begin size) (begin / T.clsz * T.clsz)
          (if begin % T.clsz ≠ 0 then load T.geometry s (begin / T.clsz * T.clsz) (begin % T.clsz) else ([], s)).1
        else C.invalidate t begin size) a =
      if begin / T.clsz * T.clsz ≤ a ∧ a < begin then view T.geometry s a
      else if T.geometry.Covers begin size (T.geometry.lineOf a) then s.memory a else view T.geometry s a := by
    intro t hview hmemory
    by_cases hb : begin % T.clsz ≠ 0
    · rw [if_pos hb, if_pos hb, view_store_back, hbegin, Manager.view_invalidate, hmemory, hview]
    · have hnone : ¬ (begin / T.clsz * T.clsz ≤ a ∧ a < begin) := by omega
      rw [if_neg hb, Manager.view_invalidate, hmemory, hview, if_neg hnone]
  obtain ⟨first, hload⟩ : ∃ first, (if begin % T.clsz ≠ 0 then
      load T.geometry s (begin / T.clsz * T.clsz) (begin % T.clsz) else ([], s)) = first := ⟨_, rfl⟩
  have hsaved : view T.geometry first.2 = view T.geometry s ∧ first.2.memory = s.memory := by
    rw [← hload]
    split
    · exact ⟨view_load _ _, memory_load _ _⟩
    · exact ⟨rfl, rfl⟩
  rw [hload] at hfirst
  rw [hload]
  have hcovered : begin ≤ a ∧ a < begin + size → T.geometry.Covers begin size (T.geometry.lineOf a) :=
    fun ha => Geometry.covers_of_mem ha.1 ha.2
  have hbounds : T.geometry.Covers begin size (T.geometry.lineOf a) →
      begin / T.clsz * T.clsz ≤ a ∧ a < ((begin + size - 1) / T.clsz + 1) * T.clsz ∧ 0 < size :=
    fun hc => ⟨hc.bounds.1, hc.bounds.2, hc.1⟩
  by_cases hl : fin % T.clsz ≠ 0
  · simp only [if_pos hl]
    obtain rfl := hend hl
    rw [view_store_back, hsaved.1, hfirst _ ((view_load _ _).trans hsaved.1) ((memory_load _ _).trans hsaved.2)]
    have hlast : ((begin + size - 1) / T.clsz + 1) * T.clsz =
        begin + size + (T.clsz - (begin + size) % T.clsz) := by
      have hmod := Nat.mod_lt (begin + size) hpos
      have hdiv := Nat.div_add_mod' (begin + size) T.clsz
      have hsame : (begin + size - 1) / T.clsz = (begin + size) / T.clsz := by
        refine Nat.div_eq_of_lt_le (by omega) ?_
        rw [Nat.succ_mul]
        omega
      rw [hsame, Nat.succ_mul]
      omega
    grind
  · simp only [if_neg hl]
    rw [hfirst _ hsaved.1 hsaved.2]
    by_cases ha : begin ≤ a ∧ a < begin + size
    · rw [if_neg (by omega), if_pos (hcovered ha), if_pos ha]
    · split
      · rfl
      · refine if_neg fun hc => ?_
        obtain ⟨hlo, hhi, hsize⟩ := hbounds hc
        -- the area ends with a line
        rw [Geometry.end_of_lastLine hpos (Nat.dvd_of_mod_eq_zero (haligned (not_not.mp hl))) (by omega)] at hhi
        omega

/-- `DMAMAP_CACHE_ALIGNED` widens the buffer to whole cache lines. -/
theorem widened_area {map : DmaMap} (h : Placed T map) {begin fin size : Nat}
    (hbegin : begin = map.bufferBegin &&& T.machine.bmask T.clsz)
    (hfin : fin = (map.bufferBegin + map.bufferSize + T.clmask) % T.machine.top &&& T.machine.bmask T.clsz)
    (hsize : size = (fin + T.machine.top - begin) % T.machine.top) :
    Area T begin size ∧ fin = (begin + size) % T.machine.top ∧
      ∀ a, begin ≤ a ∧ a < begin + size ↔ map.Lines T a := by
  have hpos : 0 < T.clsz := T.clsz_pos
  obtain ⟨q, hq⟩ : T.clsz ∣ T.machine.top := T.clsz_dvd_top
  obtain ⟨hinside, hroom⟩ := h
  have hlow : map.bufferBegin / T.clsz * T.clsz + map.bufferBegin % T.clsz = map.bufferBegin :=
    Nat.div_add_mod' map.bufferBegin T.clsz
  have hmod : map.bufferBegin % T.clsz < T.clsz := Nat.mod_lt _ hpos
  rw [Target.and_notClmask (by omega)] at hbegin
  rw [Target.and_notClmask (Nat.mod_lt _ T.machine.top_pos)] at hfin
  have hmask : T.clmask = T.clsz - 1 := rfl
  by_cases hwrap : map.bufferBegin + map.bufferSize + T.clmask < T.machine.top
  · rw [Nat.mod_eq_of_lt hwrap] at hfin
    have hle : fin ≤ map.bufferBegin + map.bufferSize + T.clmask := hfin ▸ Nat.div_mul_le_self _ _
    have hge : begin ≤ fin := by
      rw [hbegin, hfin]
      exact Nat.mul_le_mul_right _ (Nat.div_le_div_right (by omega))
    have hsum : begin + size = fin := by
      rw [hsize, show fin + T.machine.top - begin = fin - begin + T.machine.top by omega, Nat.add_mod_right,
        Nat.mod_eq_of_lt (by omega)]
      omega
    refine ⟨⟨by omega, .inl (by omega)⟩, ?_, fun a => ?_⟩
    · rw [hsum, Nat.mod_eq_of_lt (by omega)]
    · rw [hsum, hfin, hbegin]
      rfl
  · -- the last line of the buffer is the last one of the memory
    have hdiv : (map.bufferBegin + map.bufferSize + T.clmask) / T.clsz = q := by
      grind [Nat.div_eq_of_lt_le, Nat.mul_comm]
    have hzero : fin = 0 := by
      rw [hfin, show map.bufferBegin + map.bufferSize + T.clmask =
        map.bufferBegin + map.bufferSize + T.clmask - T.machine.top + T.machine.top by omega, Nat.add_mod_right,
        Nat.mod_eq_of_lt (by omega), Nat.div_eq_of_lt (by omega), Nat.zero_mul]
    have hsum : begin + size = T.machine.top := by
      rw [hsize, hzero, Nat.zero_add, Nat.mod_eq_of_lt (by omega)]
      omega
    refine ⟨⟨by omega, .inr ⟨hsum, ?_⟩⟩, ?_, fun a => ?_⟩
    · simp [hbegin]
    · simp [hsum, hzero]
    · rw [hsum, hbegin, hq, Nat.mul_comm T.clsz q]
      unfold DmaMap.Lines
      rw [hdiv]

/-- The operation is `BUS_DMASYNC_POSTREAD`, with or without `BUS_DMASYNC_POSTWRITE`. -/
def AfterRead (op : Nat) : Prop :=
  op &&& BUS_DMASYNC_POSTREAD ≠ 0 ∧ op &&& BUS_DMASYNC_PREREAD = 0 ∧ op &&& BUS_DMASYNC_PREWRITE = 0

instance (op : Nat) : Decidable (AfterRead op) := inferInstanceAs (Decidable (_ ∧ _ ∧ _))

theorem sync_afterRead {map : DmaMap} {op : Nat} (hop : AfterRead op) (h : Placed T map) (s : CachedMemory β) :
    (T.inNocache map.bufferBegin (map.bufferBegin + map.bufferSize) = true ∧ sync C s map op = s) ∨
    ∃ begin size, Area T begin size ∧
      sync C s map op = postread C s begin ((begin + size) % T.machine.top) size ∧
      ((map.flags &&& DMAMAP_CACHE_ALIGNED = 0 ∧ begin = map.bufferBegin ∧ size = map.bufferSize) ∨
        (map.flags &&& DMAMAP_CACHE_ALIGNED ≠ 0 ∧ ∀ a, begin ≤ a ∧ a < begin + size ↔ map.Lines T a)) := by
  obtain ⟨hpost, hpreread, hprewrite⟩ := hop
  have hfin : (map.bufferBegin + map.bufferSize) % T.machine.top = map.bufferBegin + map.bufferSize :=
    Nat.mod_eq_of_lt h.inside
  unfold sync
  simp only [hpreread, hprewrite, ne_eq, not_true_eq_false, if_false, false_and, hpost, not_false_eq_true, if_true,
    hfin]
  split
  · rename_i hno
    exact .inl ⟨hno, rfl⟩
  · refine .inr ?_
    by_cases hflag : map.flags &&& DMAMAP_CACHE_ALIGNED = 0
    · simp only [hflag, not_true_eq_false, if_false]
      have hlt := h.inside
      refine ⟨map.bufferBegin, map.bufferSize, ⟨by omega, .inl hlt⟩, ?_, .inl ⟨trivial, rfl, rfl⟩⟩
      rw [hfin]
    · simp only [hflag, not_false_eq_true, if_true]
      obtain ⟨harea, hwrap, hlines⟩ := widened_area h rfl rfl rfl
      refine ⟨_, _, harea, ?_, .inr ⟨trivial, hlines⟩⟩
      rw [← hwrap]

/-- **A DMA read**: the processor sees the bytes that the device wrote to the buffer.  What it saw outside of the
    buffer stays, and where the map allows whole cache lines to be invalidated what it saw outside of them. -/
theorem sync_postread (T : Target) (C : Manager T.geometry β) (s : CachedMemory β) (map : DmaMap) (op : Nat)
    (hop : AfterRead op) (h : Placed T map) :
    (∀ a, map.Buffer a → view T.geometry (sync C s map op) a = s.memory a) ∧
    (∀ a, ¬ map.Buffer a → (map.flags &&& DMAMAP_CACHE_ALIGNED = 0 ∨ ¬ map.Lines T a) →
      view T.geometry (sync C s map op) a = view T.geometry s a) := by
  have hlines : ∀ a, map.Buffer a → map.Lines T a := by
    intro a ha
    refine ⟨Nat.le_trans (Nat.div_mul_le_self _ _) ha.1, Nat.lt_of_lt_of_le ha.2 ?_⟩
    have hdiv := Nat.div_add_mod' (map.bufferBegin + map.bufferSize + T.clmask) T.clsz
    have hmod := Nat.mod_lt (map.bufferBegin + map.bufferSize + T.clmask) T.clsz_pos
    have hmask : T.clmask = T.clsz - 1 := rfl
    omega
  rcases sync_afterRead C hop h s with ⟨hno, hsync⟩ | ⟨begin, size, harea, hsync, hcase⟩
  · rw [hsync]
    refine ⟨fun a ha => ?_, fun a _ _ => rfl⟩
    unfold Target.inNocache at hno
    split at hno
    · cases hno
    · rename_i lo hi hsection
      obtain ⟨hlo, hhi⟩ := of_decide_eq_true hno
      exact view_of_uncached (T.nocache_uncached lo hi hsection a (Nat.le_trans hlo ha.1) (Nat.lt_of_lt_of_le ha.2 hhi))
  · rw [hsync]
    rcases hcase with ⟨hflag, rfl, rfl⟩ | ⟨hflag, harea'⟩
    · refine ⟨fun a ha => ?_, fun a ha _ => ?_⟩
      · exact (postread_view C harea s a).trans (if_pos ha)
      · exact (postread_view C harea s a).trans (if_neg ha)
    · refine ⟨fun a ha => ?_, fun a _ ha => ?_⟩
      · rw [postread_view C harea, if_pos ((harea' a).mpr (hlines a ha))]
      · rw [postread_view C harea, if_neg fun hin => ?_]
        exact (ha.resolve_left hflag) ((harea' a).mp hin)

/-! ## Two runs -/

def target32 : Target where
  machine := Load.machine32
  geometry := ⟨5, fun _ => false, true, true⟩
  shift_lt := by decide
  nocache := none
  nocache_uncached := nofun

/-- The device wrote twos; the processor wrote ones to the first two lines, which are dirty. -/
def afterDevice : CachedMemory Nat where
  memory _ := 2
  line i := if i < 2 then some ⟨fun _ => 1, true⟩ else none

/-- The processor reads the addresses from 25 to 44 after a buffer of ten bytes from 30 to 39 was received. -/
def received (flags : Nat) : List Nat :=
  (load target32.geometry
    (sync (T := target32) (lineManager target32.geometry Nat) afterDevice (loadMap ⟨0, 0, 0⟩ 30 10 flags)
      BUS_DMASYNC_POSTREAD) 25 20).1

theorem sync_postread_unaligned :
    view target32.geometry (sync (T := target32) (lineManager target32.geometry Nat) afterDevice ⟨30, 10, 0⟩ 2) 35 =
      afterDevice.memory 35 ∧
    view target32.geometry (sync (T := target32) (lineManager target32.geometry Nat) afterDevice ⟨30, 10, 0⟩ 2) 40 =
      view target32.geometry afterDevice 40 ∧
    received 0 = List.replicate 5 1 ++ List.replicate 10 2 ++ List.replicate 5 1 := by
  have h := sync_postread target32 (lineManager target32.geometry Nat) afterDevice ⟨30, 10, 0⟩ 2 (by decide)
    ⟨by decide, by decide⟩
  exact ⟨h.1 35 (by decide), h.2 40 (by decide) (.inl (by decide)), by decide⟩

/-- With `BUS_DMA_DO_CACHE_LINE_BLOW_UP` the processor loses what it wrote to the rest of the two lines. -/
theorem sync_blowUp_loses :
    Placed target32 (loadMap ⟨0, 0, 0⟩ 30 10 BUS_DMA_DO_CACHE_LINE_BLOW_UP) ∧
    ¬ (loadMap ⟨0, 0, 0⟩ 30 10 BUS_DMA_DO_CACHE_LINE_BLOW_UP).Buffer 29 ∧
    view target32.geometry afterDevice 29 = 1 ∧
    received BUS_DMA_DO_CACHE_LINE_BLOW_UP = List.replicate 20 2 :=
  ⟨⟨by decide, by decide⟩, by decide, by decide, by decide⟩

end RtemsLibbsd.BusDma.Sync

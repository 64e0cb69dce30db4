import Mathlib.Algebra.Group.Nat.Defs
import Mathlib.Algebra.Order.Ring.Nat
import Mathlib.Data.List.Forall2
import Mathlib.Data.Nat.Bitwise
import RtemsLibbsd.Cam

/-!
# Extents of SCSI disks

`rtemsbsd/rtems/rtems-kernel-cam.c`: the attach worker creates a disk with the block size and the number of
blocks out of READ CAPACITY, and `rtems_bsd_csio_callback` issues a READ or WRITE command for each buffer of
a request.  The commands come from `scsi_read_write` of `freebsd/sys/cam/scsi/scsi_all.c`.

* `scsiReadWrite` — the command block; what is stored in its fields is what was asked for.
* `issued` — the commands of a run; `issued_of_success` says which these are for a request that succeeds.
* `extents_iff` — they address the buffers' blocks exactly when the constant 512 gives their number, and the
  last address is not the largest one.
-/

namespace RtemsLibbsd.Cam

open Option Transition

/-! ## The disk -/

/-- `struct scsi_read_capacity_data`: the last address and the size of a block. -/
structure RdCap where
  addr : UInt32
  length : UInt32

/-- What `rtems_blkdev_create` gets. -/
structure Disk where
  blockSize : UInt32
  blockCount : UInt32

/-- `rtems_bsd_scsi_read_capacity` with the data of the device. -/
def scsiReadCapacity (rdcap : RdCap) : Disk := ⟨rdcap.length, rdcap.addr + 1⟩

/-! ## Commands -/

/-- A command block: its length, the operation code, the address and the transfer length. -/
structure Cdb where
  size : ℕ
  opcode : ℕ
  addr : ℕ
  length : ℕ

/-- `scsi_read_write` with zero for `byte2`; each field is stored with its own width. -/
def scsiReadWrite (readop : Bool) (minimumCmdSize lba blockCount : ℕ) : Cdb :=
  if minimumCmdSize < 10 ∧ lba &&& 0x1fffff = lba ∧ blockCount &&& 0xff = blockCount then
    ⟨6, if readop then 0x08 else 0x0a, lba % 2 ^ 24, blockCount &&& 0xff⟩
  else if minimumCmdSize < 12 ∧ blockCount &&& 0xffff = blockCount ∧ lba &&& 0xffffffff = lba then
    ⟨10, if readop then 0x28 else 0x2a, lba % 2 ^ 32, blockCount % 2 ^ 16⟩
  else if minimumCmdSize < 16 ∧ blockCount &&& 0xffffffff = blockCount ∧ lba &&& 0xffffffff = lba then
    ⟨12, if readop then 0xa8 else 0xaa, lba % 2 ^ 32, blockCount % 2 ^ 32⟩
  else ⟨16, if readop then 0x88 else 0x8a, lba % 2 ^ 64, blockCount % 2 ^ 32⟩

def scsiMinCommandSize : ℕ := 10

theorem lt_of_and_ones {x w : ℕ} (h : x &&& (2 ^ w - 1) = x) : x < 2 ^ w := by
  rw [← h, Nat.and_two_pow_sub_one_eq_mod]
  exact Nat.mod_lt _ (Nat.two_pow_pos w)

theorem scsiReadWrite_fields (readop : Bool) {lba blockCount : ℕ} (hlba : lba < 2 ^ 32)
    (hcount : blockCount < 2 ^ 32) :
    (scsiReadWrite readop scsiMinCommandSize lba blockCount).addr = lba ∧
      (scsiReadWrite readop scsiMinCommandSize lba blockCount).length = blockCount := by
  unfold scsiReadWrite
  have hten : ¬ scsiMinCommandSize < 10 := by decide
  rw [if_neg fun h => hten h.1]
  split
  · rename_i h
    have hshort : blockCount < 2 ^ 16 := lt_of_and_ones h.2.1
    exact ⟨Nat.mod_eq_of_lt hlba, Nat.mod_eq_of_lt hshort⟩
  · grind

def transferOf (readop : Bool) (sg : SgBuffer) : Command :=
  .transfer readop sg.block (sg.length / 512) sg.buffer sg.length

def issued : Sim → List Action → List Command
  | _, [] => []
  | k, a :: as =>
    match step k a with
    | none => []
    | some t => t.action.toList ++ issued t as

def ReqKind.readop : ReqKind → Bool
  | .read => true
  | .write => false
  | .sync => false

/-! ## What is expected -/

/-- The buffer is made of blocks of the disk; its block and its length have 32 bits. -/
structure InDisk (disk : Disk) (sg : SgBuffer) : Prop where
  block_lt : sg.block < 2 ^ 32
  length_lt : sg.length < 2 ^ 32
  blocks : disk.blockSize.toNat ∣ sg.length
  inside : sg.block + sg.length / disk.blockSize.toNat ≤ disk.blockCount.toNat

/-- A command transfers a buffer: it is for the bytes of the buffer, its address is the block of it, and its
    transfer length is the length of it in blocks of the device. -/
def Transfers (rdcap : RdCap) (readop : Bool) (sg : SgBuffer) (cmd : Command) : Prop :=
  ∃ count, cmd = .transfer readop sg.block count sg.buffer sg.length ∧
    (scsiReadWrite readop scsiMinCommandSize sg.block count).addr = sg.block ∧
    (scsiReadWrite readop scsiMinCommandSize sg.block count).length * rdcap.length.toNat = sg.length

/-- The commands transfer the buffers one by one in their order, and the number of blocks of the disk is the
    one behind the last address. -/
structure ExtentsOk (rdcap : RdCap) (readop : Bool) (bufs : List SgBuffer) (cmds : List Command) : Prop where
  transfers : List.Forall₂ (Transfers rdcap readop) bufs cmds
  counted : (scsiReadCapacity rdcap).blockCount.toNat = rdcap.addr.toNat + 1

/-- The constant 512 gives the number of blocks of a buffer: the buffer is empty, or the block size is not
    smaller and the difference over all its blocks is smaller than 512. -/
def Counted512 (blockSize : ℕ) (sg : SgBuffer) : Prop :=
  sg.length = 0 ∨ (512 ≤ blockSize ∧ sg.length / blockSize * (blockSize - 512) < 512)

/-! ## Sizes -/

theorem blockCount_toNat (rdcap : RdCap) :
    (scsiReadCapacity rdcap).blockCount.toNat = (rdcap.addr.toNat + 1) % 2 ^ 32 := UInt32.toNat_add _ _

theorem counted_iff (rdcap : RdCap) :
    (scsiReadCapacity rdcap).blockCount.toNat = rdcap.addr.toNat + 1 ↔ rdcap.addr.toNat + 1 < 2 ^ 32 := by
  grind [blockCount_toNat]

theorem count_mul_iff {blockSize : ℕ} {sg : SgBuffer} (h : blockSize ∣ sg.length) :
    sg.length / 512 * blockSize = sg.length ↔ Counted512 blockSize sg := by
  obtain ⟨count, hcount⟩ := h
  unfold Counted512
  rcases Nat.eq_zero_or_pos sg.length with hzero | hpos
  · simp [hzero]
  have hsize : 0 < blockSize := Nat.pos_of_mul_pos_right (hcount ▸ hpos)
  have hblocks : sg.length / blockSize = count := by rw [hcount, Nat.mul_div_cancel_left _ hsize]
  have hsome : 0 < count := Nat.pos_of_mul_pos_left (hcount ▸ hpos)
  have hquot : sg.length / 512 * blockSize = sg.length ↔ sg.length / 512 = count := by
    grind [Nat.eq_of_mul_eq_mul_right, Nat.mul_comm]
  by_cases hle : 512 ≤ blockSize
  · obtain ⟨extra, rfl⟩ := Nat.exists_eq_add_of_le hle
    grind
  · have hless : blockSize * count < 512 * count := Nat.mul_lt_mul_of_pos_right (by omega) hsome
    omega

theorem transfers_transferOf {rdcap : RdCap} (readop : Bool) {sg : SgBuffer}
    (h : InDisk (scsiReadCapacity rdcap) sg) :
    Transfers rdcap readop sg (transferOf readop sg) ↔ Counted512 rdcap.length.toNat sg := by
  have hcount : sg.length / 512 < 2 ^ 32 := (Nat.div_le_self _ _).trans_lt h.length_lt
  obtain ⟨haddr, hlength⟩ := scsiReadWrite_fields readop h.block_lt hcount
  have hblocks : rdcap.length.toNat ∣ sg.length := h.blocks
  rw [← count_mul_iff hblocks]
  constructor
  · rintro ⟨count, heq, _, hbytes⟩
    injection heq with _ _ hsame
    rw [← hsame, hlength] at hbytes
    exact hbytes
  · intro hbytes
    exact ⟨_, rfl, haddr, by rw [hlength, hbytes]⟩

/-! ## Runs -/

section

variable {k t : Sim} {r : Nat}

theorem csioCallback_next {sg : SgBuffer} {rest : List SgBuffer} (hstate : k.state = .busy)
    (hstatus : k.status = .reqCmp) (hsg : k.sg = sg :: rest) :
    csioCallback k =
      some { k with cbfcnp := .csio, action := some (transferOf k.readop sg), sg := rest } := by
  unfold csioCallback
  rw [if_pos hstate, hstatus, hsg]
  rfl

theorem csioCallback_last (hstate : k.state = .busy) (hstatus : k.status = .reqCmp) (hsg : k.sg = [])
    (hreq : k.req = some r) :
    csioCallback k = some { k with done := k.done ++ [(r, .successful)], state := .idle } := by
  unfold csioCallback finish
  rw [if_pos hstate, hstatus, hsg, hreq]
  rfl

theorem csioCallback_failed (hstate : k.state = .busy) (hstatus : k.status ≠ .reqCmp)
    (hreq : k.req = some r) :
    ∃ sc, sc ≠ .successful ∧
      csioCallback k = some { k with done := k.done ++ [(r, sc)], state := .idle } := by
  unfold csioCallback finish
  rw [if_pos hstate, hreq]
  split
  · rename_i h
    exact absurd h hstatus
  · exact ⟨.unsatisfied, by decide, rfl⟩
  · exact ⟨.ioError, by decide, rfl⟩

/-- A step of a SIM that is busy with a request: the next transfer is started, or the request ends. -/
theorem busy_step {a : Action} (hstate : k.state = .busy) (hcb : k.cbfcnp = .csio) (hreq : k.req = some r)
    (ht : step k a = some t) :
    (∃ sg rest, k.sg = sg :: rest ∧ t.sg = rest ∧ t.action = some (transferOf k.readop sg) ∧
        t.state = .busy ∧ t.cbfcnp = .csio ∧ t.req = some r ∧ t.done = k.done ∧ t.readop = k.readop) ∨
      (t.state = .idle ∧ t.action = none ∧
        ∃ sc, t.done = k.done ++ [(r, sc)] ∧ (sc = .successful → k.sg = [])) := by
  have hcall : ∀ status, callback { k with action := none, status := status } =
      csioCallback { k with action := none, status := status } := by
    intro status
    unfold callback
    rw [show ({ k with action := none, status := status } : Sim).cbfcnp = .csio from hcb]
  have hcases : ∀ status, csioCallback { k with action := none, status := status } = some t →
      (∃ sg rest, k.sg = sg :: rest ∧ t.sg = rest ∧ t.action = some (transferOf k.readop sg) ∧
        t.state = .busy ∧ t.cbfcnp = .csio ∧ t.req = some r ∧ t.done = k.done ∧ t.readop = k.readop) ∨
      (t.state = .idle ∧ t.action = none ∧
        ∃ sc, t.done = k.done ++ [(r, sc)] ∧ (sc = .successful → k.sg = [])) := by
    intro status hcallback
    by_cases hstatus : status = .reqCmp
    · subst hstatus
      cases hsg : k.sg with
      | nil =>
        rw [csioCallback_last (k := { k with action := none, status := .reqCmp }) hstate rfl hsg hreq]
          at hcallback
        cases hcallback
        exact .inr ⟨rfl, rfl, .successful, rfl, fun _ => rfl⟩
      | cons sg rest =>
        rw [csioCallback_next (k := { k with action := none, status := .reqCmp }) hstate rfl hsg] at hcallback
        cases hcallback
        exact .inl ⟨sg, rest, rfl, rfl, rfl, hstate, rfl, hreq, rfl, rfl⟩
    · obtain ⟨sc, hsc, heq⟩ :=
        csioCallback_failed (k := { k with action := none, status := status }) hstate hstatus hreq
      grind
  obtain ⟨-, ht⟩ := ite_none_left_eq_some.mp ht
  cases a with
  | complete status =>
    obtain ⟨-, ht⟩ := ite_none_right_eq_some.mp ht
    exact hcases status ((hcall status).symm.trans ht)
  | cancel =>
    obtain ⟨-, ht⟩ := ite_none_right_eq_some.mp ht
    exact hcases .selTimeout ((hcall .selTimeout).symm.trans ht)
  | initAction =>
    obtain ⟨hs, -⟩ := ite_none_right_eq_some.mp ht
    rw [hstate] at hs
    cases hs
  | initFinish =>
    obtain ⟨hs, -⟩ := ite_none_right_eq_some.mp ht
    rw [hstate] at hs
    cases hs
  | initialized disk =>
    obtain ⟨hs, -⟩ := ite_none_right_eq_some.mp ht
    rw [hstate] at hs
    cases hs
  | request r' kind bufs =>
    obtain ⟨⟨hs, -⟩, -⟩ := ite_none_right_eq_some.mp ht
    rw [hstate] at hs
    cases hs
  | deleted =>
    obtain ⟨⟨hs, -⟩, -⟩ := ite_none_right_eq_some.mp ht
    rw [hstate] at hs
    cases hs
  | free =>
    grind

/-- The commands from a transfer to the successful end of its request are those for the buffers that are
    left. -/
theorem issued_of_busy {as : List Action} (hstate : k.state = .busy) (hcb : k.cbfcnp = .csio)
    (hreq : k.req = some r) (hbusy : StepsMeet step (fun s _ => s.state = .busy) k as)
    (hrun : run step k as = some t) (hdone : t.done = k.done ++ [(r, .successful)]) :
    issued k as = k.sg.map (transferOf k.readop) := by
  induction as generalizing k with
  | nil =>
    cases hrun
    simp at hdone
  | cons a as ih =>
    obtain ⟨m, hm, hrun⟩ := run_cons.mp hrun
    rw [issued, hm]
    rcases busy_step hstate hcb hreq hm with
      ⟨sg, rest, hsg, hrest, haction, hstate', hcb', hreq', hdone', hreadop⟩ | ⟨hidle, haction, sc, hsc, hend⟩
    · have hissued := ih hstate' hcb' hreq' (hbusy.2 m hm) hrun (by rw [hdone', hdone])
      grind
    · -- The request has ended, and with it the run.
      cases as with
      | nil =>
        cases hrun
        grind [List.append_cancel_left_eq, issued]
      | cons b bs =>
        have hstill : m.state = .busy := (hbusy.2 m hm).1
        rw [hidle] at hstill
        cases hstill

theorem issued_of_success {k' : Sim} {kind : ReqKind} {bufs : List SgBuffer} {as : List Action} (hinv : Inv k)
    (hkind : kind ≠ .sync) (hstart : step k (.request r kind bufs) = some k')
    (hbusy : StepsMeet step (fun s _ => s.state = .busy) k' as) (hrun : run step k' as = some t)
    (hdone : t.done = k.done ++ [(r, .successful)]) :
    issued k (.request r kind bufs :: as) = bufs.map (transferOf kind.readop) := by
  have hissued : issued k (.request r kind bufs :: as) = k'.action.toList ++ issued k' as := by
    rw [issued, hstart]
  obtain ⟨-, hstart⟩ := ite_none_left_eq_some.mp hstart
  obtain ⟨⟨hidle, -⟩, hstart⟩ := ite_none_right_eq_some.mp hstart
  have haction : k.action = none := by
    by_contra hne
    rcases hinv.action (isSome_iff_ne_none.mpr hne) with hs | hs <;> rw [hidle] at hs <;> cases hs
  have hcallback : csioCallback { k with
      state := .busy
      readop := kind.readop
      sg := bufs
      req := some r
      status := .reqCmp
      accepted := r :: k.accepted } = some k' := by
    cases kind with
    | read => exact hstart
    | write => exact hstart
    | sync => exact absurd rfl hkind
  rw [hissued]
  cases bufs with
  | nil =>
    cases hcallback
    cases as with
    | nil =>
      rw [haction]
      rfl
    | cons a as => cases hbusy.1
  | cons sg rest =>
    cases hcallback
    rw [issued_of_busy rfl rfl rfl hbusy hrun hdone]
    rfl

/-- The request of a run in which only reads and writes were requested before, up to its successful end:
    the commands address the blocks of the buffers, and the blocks of the disk are counted, exactly when the
    last address is not the largest one and the constant 512 gives the blocks of each buffer. -/
theorem extents_iff (rdcap : RdCap) {before as : List Action} {k' : Sim} {kind : ReqKind}
    {bufs : List SgBuffer} (hbefore : StepsMeet step ReadWrite camSimAlloc before)
    (hk : run step camSimAlloc before = some k) (hkind : kind ≠ .sync)
    (hin : ∀ sg ∈ bufs, InDisk (scsiReadCapacity rdcap) sg)
    (hstart : step k (.request r kind bufs) = some k')
    (hbusy : StepsMeet step (fun s _ => s.state = .busy) k' as) (hrun : run step k' as = some t)
    (hdone : t.done = k.done ++ [(r, .successful)]) :
    ExtentsOk rdcap kind.readop bufs (issued k (.request r kind bufs :: as)) ↔
      rdcap.addr.toNat + 1 < 2 ^ 32 ∧ ∀ sg ∈ bufs, Counted512 rdcap.length.toNat sg := by
  have hinv : Inv k := by
    apply run_invariant_of_meet _ before camSimAlloc k inv_camSimAlloc hbefore hk
    intro s a m hs hok hm
    exact inv_step hs (hok (isSome_iff_exists.mpr ⟨m, hm⟩)) hm
  rw [issued_of_success hinv hkind hstart hbusy hrun hdone, ← counted_iff]
  have htransfers : List.Forall₂ (Transfers rdcap kind.readop) bufs (bufs.map (transferOf kind.readop)) ↔
      ∀ sg ∈ bufs, Counted512 rdcap.length.toNat sg := by
    grind [List.forall₂_map_right_iff, List.forall₂_same, transfers_transferOf]
  constructor
  · rintro ⟨h, hcounted⟩
    exact ⟨hcounted, htransfers.1 h⟩
  · rintro ⟨hcounted, h⟩
    exact ⟨htransfers.2 h, hcounted⟩

end

/-! ## Devices -/

def bigBlocks : RdCap := ⟨999, 4096⟩

def oneBlock : SgBuffer := ⟨10, 4096, 0⟩

theorem oneBlock_inDisk : InDisk (scsiReadCapacity bigBlocks) oneBlock := by
  constructor <;> decide

def attached : List Action := [.initialized true]

/-- A read of one block is a command for eight blocks, and the blocks of a device with the largest last
    address are counted as zero. -/
theorem oneBlock_misread :
    issued ((run step camSimAlloc attached).getD camSimAlloc) [.request 1 .read [oneBlock], .complete .reqCmp] =
      [.transfer true 10 8 0 4096] ∧
    ¬ ExtentsOk bigBlocks true [oneBlock] [.transfer true 10 8 0 4096] ∧
    (scsiReadCapacity ⟨0xffffffff, 512⟩).blockCount = 0 ∧ ¬ ExtentsOk ⟨0xffffffff, 512⟩ true [] [] := by
  refine ⟨by decide, ?_, by decide, ?_⟩
  · rintro ⟨htransfers, -⟩
    obtain ⟨⟨count, heq, -, hbytes⟩, -⟩ := List.forall₂_cons.1 htransfers
    injection heq with _ _ hcount
    subst hcount
    exact absurd hbytes (by decide)
  · rintro ⟨-, hcounted⟩
    exact absurd hcounted (by decide)

theorem extents_iff_oneBlock :
    ∃ k k' t, run step camSimAlloc attached = some k ∧ step k (.request 1 .read [oneBlock]) = some k' ∧
      run step k' [.complete .reqCmp] = some t ∧
      (ExtentsOk bigBlocks true [oneBlock] (issued k [.request 1 .read [oneBlock], .complete .reqCmp]) ↔
        bigBlocks.addr.toNat + 1 < 2 ^ 32 ∧ ∀ sg ∈ [oneBlock], Counted512 bigBlocks.length.toNat sg) := by
  have hbefore : StepsMeet step ReadWrite camSimAlloc attached := by
    refine ⟨?_, fun m _ => trivial⟩
    intro _ r bufs h
    cases h
  have hin : ∀ sg ∈ [oneBlock], InDisk (scsiReadCapacity bigBlocks) sg := by
    intro sg hsg
    obtain rfl := List.mem_singleton.1 hsg
    exact oneBlock_inDisk
  have hread : ReqKind.read ≠ .sync := by decide
  refine ⟨_, _, _, rfl, rfl, rfl, ?_⟩
  exact extents_iff bigBlocks hbefore rfl hread hin rfl ⟨rfl, fun m _ => trivial⟩ rfl rfl

end RtemsLibbsd.Cam

import Mathlib.Algebra.Group.Nat.Defs
import Mathlib.Algebra.Order.Ring.Nat
import RtemsLibbsd.Nvd

/-!
# Extents of the NVMe disk driver

`rtemsbsd/sys/dev/nvd/nvd.c`: `nvd_new_disk` publishes a disk whose media block is the larger one of a page of
the controller and a sector of the namespace, and `nvd_request` computes the sectors of a command from the
media blocks of a buffer.

* `Namespace`, `Controller` — sizes as the controller reports them; both are powers of two.
* `nvdNewDisk` — the sizes of the disk.
* `InDisk` — a buffer that lies in the disk.
* `ExtentOk` — the command addresses the bytes of the media blocks, and the disk ends within the namespace.
* `extentOk_iff` — it holds for the buffers whose first sector has a number of 32 bits.
-/

namespace RtemsLibbsd.Nvd

/-! ## The disk -/

/-- The parts of the namespace data that are read: the number of sectors, and the binary logarithm of their
    size. -/
structure Namespace where
  nsze : ℕ
  lbads : ℕ
  nsze_lt : nsze < 2 ^ 64
  lbads_lt : lbads < 32

structure Controller where
  mps : ℕ
  mps_lt : 12 + mps < 32

/-- `nvme_ns_get_sector_size`. -/
def Namespace.sectorSize (ns : Namespace) : ℕ := 2 ^ ns.lbads

/-- `nvme_ns_get_size`, a number of 64 bits. -/
def Namespace.size (ns : Namespace) : ℕ := ns.nsze * ns.sectorSize % 2 ^ 64

/-- `ctrlr->page_size`. -/
def Controller.pageSize (c : Controller) : ℕ := 2 ^ (12 + c.mps)

/-- What `rtems_blkdev_create` gets, and the field of the driver's structure. -/
structure Disk where
  mediaBlockSize : ℕ
  blockCount : ℕ
  lbPerMediaBlock : ℕ

/-- The sizes in `nvd_new_disk`; the number of blocks has 32 bits. -/
def nvdNewDisk (ns : Namespace) (c : Controller) : Disk :=
  if ns.sectorSize < c.pageSize then
    ⟨c.pageSize, ns.size / c.pageSize % 2 ^ 32, c.pageSize / ns.sectorSize⟩
  else ⟨ns.sectorSize, ns.size / ns.sectorSize % 2 ^ 32, 1⟩

/-- The request as `nvd_request` reads it at a disk. -/
def Disk.request (d : Disk) (isRead : Bool) (bufs : ℕ → SgBuffer) : Request :=
  ⟨isRead, bufs, d.mediaBlockSize, d.lbPerMediaBlock⟩

/-! ## What is expected -/

/-- The buffer is made of media blocks of the disk; its length has 32 bits. -/
structure InDisk (d : Disk) (sg : SgBuffer) : Prop where
  length_lt : sg.length < 2 ^ 32
  blocks : d.mediaBlockSize ∣ sg.length
  inside : sg.block + sg.length / d.mediaBlockSize ≤ d.blockCount

/-- The command of a buffer starts at the sector of the first media block and is as long as the buffer, and
    the last media block of the disk lies in the namespace. -/
structure ExtentOk (ns : Namespace) (d : Disk) (sg : SgBuffer) (cmd : Command) : Prop where
  start : cmd.lba = sg.block * (d.mediaBlockSize / ns.sectorSize)
  bytes : cmd.lba * ns.sectorSize = sg.block * d.mediaBlockSize
  count : cmd.lbCount * ns.sectorSize = sg.length
  published : d.blockCount * d.mediaBlockSize ≤ ns.nsze * ns.sectorSize

/-! ## Sizes -/

variable {ns : Namespace} {c : Controller}

theorem sectorSize_pos (ns : Namespace) : 0 < ns.sectorSize := Nat.two_pow_pos _

theorem sectorSize_dvd_pageSize (h : ns.sectorSize < c.pageSize) : ns.sectorSize ∣ c.pageSize := by
  apply Nat.pow_dvd_pow
  have := (Nat.pow_lt_pow_iff_right (by decide : 1 < 2)).1 h
  omega

theorem lbPerMediaBlock_mul (ns : Namespace) (c : Controller) :
    (nvdNewDisk ns c).lbPerMediaBlock * ns.sectorSize = (nvdNewDisk ns c).mediaBlockSize := by
  unfold nvdNewDisk
  split
  · rename_i h
    exact Nat.div_mul_cancel (sectorSize_dvd_pageSize h)
  · exact Nat.one_mul _

theorem lbPerMediaBlock_eq (ns : Namespace) (c : Controller) :
    (nvdNewDisk ns c).mediaBlockSize / ns.sectorSize = (nvdNewDisk ns c).lbPerMediaBlock := by
  rw [← lbPerMediaBlock_mul]
  exact Nat.mul_div_cancel _ (sectorSize_pos ns)

theorem blockCount_eq (ns : Namespace) (c : Controller) :
    (nvdNewDisk ns c).blockCount = ns.size / (nvdNewDisk ns c).mediaBlockSize % 2 ^ 32 := by
  unfold nvdNewDisk
  split <;> rfl

/-- The disk ends within the namespace, also where the size of it or the number of blocks wraps around. -/
theorem published_le (ns : Namespace) (c : Controller) :
    (nvdNewDisk ns c).blockCount * (nvdNewDisk ns c).mediaBlockSize ≤ ns.nsze * ns.sectorSize := by
  calc (nvdNewDisk ns c).blockCount * (nvdNewDisk ns c).mediaBlockSize
      ≤ ns.size / (nvdNewDisk ns c).mediaBlockSize * (nvdNewDisk ns c).mediaBlockSize := by
        rw [blockCount_eq]
        exact Nat.mul_le_mul_right _ (Nat.mod_le _ _)
    _ ≤ ns.size := Nat.div_mul_le_self _ _
    _ ≤ ns.nsze * ns.sectorSize := Nat.mod_le _ _

/-! ## Commands -/

variable {isRead : Bool} {bufs : ℕ → SgBuffer} {i : ℕ}

theorem lbCount_mul (h : InDisk (nvdNewDisk ns c) (bufs i)) :
    (((nvdNewDisk ns c).request isRead bufs).command i).lbCount * ns.sectorSize = (bufs i).length := by
  have hsectors : (bufs i).length / (nvdNewDisk ns c).mediaBlockSize * (nvdNewDisk ns c).lbPerMediaBlock *
      ns.sectorSize = (bufs i).length := by
    rw [Nat.mul_assoc, lbPerMediaBlock_mul]
    exact Nat.div_mul_cancel h.blocks
  have hle := Nat.le_mul_of_pos_right ((bufs i).length / (nvdNewDisk ns c).mediaBlockSize *
    (nvdNewDisk ns c).lbPerMediaBlock) (sectorSize_pos ns)
  grind [h.length_lt, Request.command, Disk.request]

/-- The command of a buffer in the disk addresses its media blocks exactly when the number of its first
    sector has 32 bits. -/
theorem extentOk_iff (ns : Namespace) (c : Controller) (isRead : Bool) (bufs : ℕ → SgBuffer) (i : ℕ)
    (h : InDisk (nvdNewDisk ns c) (bufs i)) :
    ExtentOk ns (nvdNewDisk ns c) (bufs i) (((nvdNewDisk ns c).request isRead bufs).command i) ↔
      (bufs i).block * ((nvdNewDisk ns c).mediaBlockSize / ns.sectorSize) < 2 ^ 32 := by
  have hlba : (((nvdNewDisk ns c).request isRead bufs).command i).lba =
      (bufs i).block * (nvdNewDisk ns c).lbPerMediaBlock % 2 ^ 32 := rfl
  rw [lbPerMediaBlock_eq]
  constructor
  · rintro ⟨hstart, _, _, _⟩
    grind [lbPerMediaBlock_eq]
  · intro hfit
    rw [Nat.mod_eq_of_lt hfit] at hlba
    refine ⟨?_, ?_, lbCount_mul h, published_le ns c⟩
    · rw [lbPerMediaBlock_eq, hlba]
    · rw [hlba, Nat.mul_assoc, lbPerMediaBlock_mul]

/-- A namespace of 4 TiB in sectors of 512 bytes, and a controller with pages of 4 KiB. -/
def fourTebibytes : Namespace := ⟨2 ^ 33, 9, by decide, by decide⟩

def smallPages : Controller := ⟨0, by decide⟩

def middle : SgBuffer := ⟨2 ^ 29, 4096, 0⟩

theorem middle_inDisk : InDisk (nvdNewDisk fourTebibytes smallPages) middle := by
  constructor <;> decide

/-- The command for the block in the middle addresses the first sectors of the namespace. -/
theorem middle_misplaced :
    InDisk (nvdNewDisk fourTebibytes smallPages) middle ∧
    ((nvdNewDisk fourTebibytes smallPages).request true fun _ => middle).command 0 = ⟨true, 0, 0, 8⟩ ∧
    ¬ ExtentOk fourTebibytes (nvdNewDisk fourTebibytes smallPages) middle
      (((nvdNewDisk fourTebibytes smallPages).request true fun _ => middle).command 0) := by
  refine ⟨middle_inDisk, by decide, ?_⟩
  rintro ⟨hstart, _, _, _⟩
  exact absurd hstart (by decide)

theorem extentOk_iff_middle :
    ExtentOk fourTebibytes (nvdNewDisk fourTebibytes smallPages) middle
        (((nvdNewDisk fourTebibytes smallPages).request true fun _ => middle).command 0) ↔
      middle.block * ((nvdNewDisk fourTebibytes smallPages).mediaBlockSize / fourTebibytes.sectorSize) < 2 ^ 32 :=
  extentOk_iff fourTebibytes smallPages true (fun _ => middle) 0 middle_inDisk

end RtemsLibbsd.Nvd

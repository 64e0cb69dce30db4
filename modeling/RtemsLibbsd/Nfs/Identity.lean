import Mathlib.Algebra.Group.Nat.Defs
import Mathlib.Tactic.Basic

/-!
# The identity of a node

Model of `nfs_are_nodes_equal`, `nfs_fstat` and `updateAttr` of `rtemsbsd/nfsclient/nfs.c`, with the
macros that make a device number.

* `Export` — the server: a file handle stands for one file, which has one `fsid` and one `fileid`.
  The other attributes change from one reply to the next.
* `Target` — the size of `ino_t` and `rtems_filesystem_make_dev_t`, of which the development uses
  that it keeps the minor number.
* **`nfsAreNodesEqual_iff`** — two nodes are equal if and only if `nfs_fstat` reports one pair of
  `st_dev` and `st_ino` for them and their `fsid` is the same.

The pair has sixteen bits of the `fsid` at most (`pair_eq_iff`), which the source calls fairly
unique.  The comparison of nodes is finer (`halves_differ`).
-/

namespace RtemsLibbsd.NfsIdentity

abbrev UInt := BitVec 32

/-- `fattr`, the times without their fractions. -/
structure Fattr where
  type : UInt
  mode : UInt
  nlink : UInt
  uid : UInt
  gid : UInt
  size : UInt
  blocksize : UInt
  rdev : UInt
  blocks : UInt
  fsid : UInt
  fileid : UInt
  atime : UInt
  mtime : UInt
  ctime : UInt

/-- `nfs_fh`. -/
abbrev Fh := List UInt8

structure Export where
  fsid : Fh → UInt
  fileid : Fh → UInt

/-- The attributes are of the file `fh`. -/
def Fattr.IsOf (x : Export) (fh : Fh) (a : Fattr) : Prop := a.fsid = x.fsid fh ∧ a.fileid = x.fileid fh

abbrev Reply (x : Export) (fh : Fh) := { a : Fattr // a.IsOf x fh }

/-- `NfsNodeRec`: the handle, the attributes and their `TimeStamp`. -/
structure NfsNode (x : Export) where
  file : Fh
  attributes : Reply x file
  age : UInt

/-- What an `updateAttr` depends on: the clock before and after `GETATTR`, and what comes of it. -/
structure Fetch (x : Export) (fh : Fh) where
  now : UInt
  later : UInt
  getattr : Option (Reply x fh)

abbrev CONFIG_ATTR_LIFETIME : UInt := 10

/-- `updateAttr` without force; it succeeds or not. -/
def updateAttr {x : Export} (node : NfsNode x) (f : Fetch x node.file) : NfsNode x × Bool :=
  if CONFIG_ATTR_LIFETIME < f.now - node.age then
    match f.getattr with
    | some a => ({ node with attributes := a, age := f.later }, true)
    | none => (node, false)
  else (node, true)

def nfsAreNodesEqual {x : Export} (na nb : NfsNode x) (fa : Fetch x na.file) (fb : Fetch x nb.file) : Bool :=
  let (na, ok) := updateAttr na fa
  if ok then
    let (nb, ok) := updateAttr nb fb
    if ok then
      na.attributes.1.fileid = nb.attributes.1.fileid && na.attributes.1.fsid = nb.attributes.1.fsid
    else false
  else false

/-- `sizeof(ino_t)` and `rtems_filesystem_make_dev_t`. -/
structure Target (δ : Type) where
  sizeofIno : Nat
  makeDevT : UInt → UInt → δ

/-- What the file system has for all its nodes: `NFS_MAJOR` and the `id` of its `NfsRec`. -/
structure Nfs where
  major : UInt
  id : BitVec 16

/-- The minor number of `NFS_MAKE_DEV_T`. -/
def minorOfFsid (id : BitVec 16) (fsid : UInt) : UInt :=
  (id.setWidth 32 <<< 16) ||| (fsid &&& 0xffff#32)

/-- The minor number of `NFS_MAKE_DEV_T_INO_HACK`. -/
def minorOfFileid (id : BitVec 16) (fileid : UInt) : UInt := (id.setWidth 32 <<< 16) ||| (fileid >>> 16)

/-- `struct stat`, where `dev_t` is `δ`. -/
structure Stat (δ : Type) where
  dev : δ
  mode : UInt
  nlink : UInt
  uid : UInt
  gid : UInt
  size : UInt
  blksize : UInt
  rdev : UInt
  blocks : UInt
  ino : Nat
  atime : UInt
  mtime : UInt
  ctime : UInt

/-- The translation of the attributes by `nfs_fstat`. -/
def Fattr.toStat {δ : Type} (t : Target δ) (nfs : Nfs) (nfsStBlksize : UInt) (a : Fattr) : Stat δ where
  dev :=
    if t.sizeofIno < 4 then t.makeDevT nfs.major (minorOfFileid nfs.id a.fileid)
    else t.makeDevT nfs.major (minorOfFsid nfs.id a.fsid)
  mode := a.mode
  nlink := a.nlink
  uid := a.uid
  gid := a.gid
  size := a.size
  blksize := if nfsStBlksize ≠ 0 then nfsStBlksize else a.blocksize
  rdev := a.rdev
  blocks := a.blocks
  ino := a.fileid.toNat % 2 ^ (8 * t.sizeofIno)
  atime := a.atime
  mtime := a.mtime
  ctime := a.ctime

def nfsFstat {δ : Type} {x : Export} (t : Target δ) (nfs : Nfs) (nfsStBlksize : UInt) (node : NfsNode x)
    (f : Fetch x node.file) : Option (Stat δ) :=
  let (node, ok) := updateAttr node f
  if ok then some (node.attributes.1.toStat t nfs nfsStBlksize) else none

/-- What a caller of `stat` takes for the identity of a file. -/
def Stat.pair {δ : Type} (s : Stat δ) : δ × Nat := (s.dev, s.ino)

section Minor

variable (id : BitVec 16) (u v : UInt)

theorem minorOfFsid_low : minorOfFsid id u &&& 0xffff#32 = u &&& 0xffff#32 := by
  have hmask : 0xffff#32 = BitVec.setWidth 32 (BitVec.allOnes 16) := by decide
  unfold minorOfFsid
  ext i hi
  simp only [hmask, BitVec.getElem_and, BitVec.getElem_or, BitVec.getElem_shiftLeft,
    BitVec.getElem_setWidth, BitVec.getLsbD_allOnes]
  by_cases h : i < 16 <;> simp [h]

theorem minorOfFileid_low : minorOfFileid id u &&& 0xffff#32 = u >>> 16 := by
  have hmask : 0xffff#32 = BitVec.setWidth 32 (BitVec.allOnes 16) := by decide
  unfold minorOfFileid
  ext i hi
  simp only [hmask, BitVec.getElem_and, BitVec.getElem_or, BitVec.getElem_shiftLeft,
    BitVec.getElem_setWidth, BitVec.getLsbD_allOnes, BitVec.getElem_ushiftRight]
  grind

theorem minorOfFsid_inj : minorOfFsid id u = minorOfFsid id v ↔ u.toNat % 2 ^ 16 = v.toNat % 2 ^ 16 := by
  have hmask : (0xffff#32).toNat = 2 ^ 16 - 1 := by decide
  have hlow : u &&& 0xffff#32 = v &&& 0xffff#32 ↔ u.toNat % 2 ^ 16 = v.toNat % 2 ^ 16 := by
    rw [← BitVec.toNat_inj, BitVec.toNat_and, BitVec.toNat_and, hmask,
      Nat.and_two_pow_sub_one_eq_mod, Nat.and_two_pow_sub_one_eq_mod]
  grind [minorOfFsid_low, minorOfFsid]

/-- The minor number of the workaround has the high half of the `fileid`. -/
theorem minorOfFileid_inj : minorOfFileid id u = minorOfFileid id v ↔ u.toNat / 2 ^ 16 = v.toNat / 2 ^ 16 := by
  grind [BitVec.toNat_inj, BitVec.toNat_ushiftRight, Nat.shiftRight_eq_div_pow, minorOfFileid_low, minorOfFileid]

end Minor

variable {δ : Type} {x : Export} {t : Target δ} {nfs : Nfs} {blksize blksize' : UInt}

theorem updateAttr_file (node : NfsNode x) (f : Fetch x node.file) : (updateAttr node f).1.file = node.file := by
  unfold updateAttr
  split
  · cases f.getattr <;> rfl
  · rfl

theorem updateAttr_isOf (node : NfsNode x) (f : Fetch x node.file) :
    (updateAttr node f).1.attributes.1.IsOf x node.file := by
  obtain ⟨hfsid, hfileid⟩ := (updateAttr node f).1.attributes.2
  have hfile := updateAttr_file node f
  exact ⟨hfsid.trans (congrArg x.fsid hfile), hfileid.trans (congrArg x.fileid hfile)⟩

theorem nfsAreNodesEqual_eq_true {na nb : NfsNode x} {fa : Fetch x na.file} {fb : Fetch x nb.file} :
    nfsAreNodesEqual na nb fa fb = true ↔
      (updateAttr na fa).2 = true ∧ (updateAttr nb fb).2 = true ∧
        x.fileid na.file = x.fileid nb.file ∧ x.fsid na.file = x.fsid nb.file := by
  obtain ⟨hfsid, hfileid⟩ := updateAttr_isOf na fa
  obtain ⟨hfsid', hfileid'⟩ := updateAttr_isOf nb fb
  grind [nfsAreNodesEqual]

theorem nfsFstat_eq_some {node : NfsNode x} {f : Fetch x node.file} {s : Stat δ}
    (h : nfsFstat t nfs blksize node f = some s) :
    ∃ a : Fattr, a.IsOf x node.file ∧ s = a.toStat t nfs blksize := by
  unfold nfsFstat at h
  split at h
  rename_i node' ok hupdate
  split at h
  · cases h
    refine ⟨node'.attributes.1, ?_, rfl⟩
    have hof := updateAttr_isOf node f
    rw [hupdate] at hof
    exact hof
  · cases h

/-- Two residues of numbers below `2 ^ 32`, and their high halves. -/
theorem eq_of_halves {u v : UInt} {s : Nat} (hs : 2 ≤ s) (hhigh : u.toNat / 2 ^ 16 = v.toNat / 2 ^ 16)
    (hlow : u.toNat % 2 ^ (8 * s) = v.toNat % 2 ^ (8 * s)) : u = v := by
  have hdvd : 2 ^ 16 ∣ 2 ^ (8 * s) := Nat.pow_dvd_pow 2 (by omega)
  have h16 : u.toNat % 2 ^ 16 = v.toNat % 2 ^ 16 := by
    rw [← Nat.mod_mod_of_dvd _ hdvd, hlow, Nat.mod_mod_of_dvd _ hdvd]
  apply BitVec.eq_of_toNat_eq
  omega

theorem toNat_mod_ino {u : UInt} {s : Nat} (hs : 4 ≤ s) : u.toNat % 2 ^ (8 * s) = u.toNat := by
  apply Nat.mod_eq_of_lt
  exact Nat.lt_of_lt_of_le u.isLt (Nat.pow_le_pow_right (by omega) (by omega))

/-- **The pair of `st_dev` and `st_ino`** has the `fileid` and, if there is room for it, half of the
    `fsid`. -/
theorem pair_eq_iff (hminor : ∀ major, Function.Injective (t.makeDevT major)) (hino : 2 ≤ t.sizeofIno)
    (a b : Fattr) :
    (a.toStat t nfs blksize).pair = (b.toStat t nfs blksize').pair ↔
      a.fileid = b.fileid ∧ (4 ≤ t.sizeofIno → a.fsid.toNat % 2 ^ 16 = b.fsid.toNat % 2 ^ 16) := by
  unfold Stat.pair Fattr.toStat
  simp only [Prod.mk.injEq]
  by_cases h4 : t.sizeofIno < 4
  · rw [if_pos h4, if_pos h4, (hminor nfs.major).eq_iff, minorOfFileid_inj]
    constructor
    · rintro ⟨hhigh, hlow⟩
      exact ⟨eq_of_halves hino hhigh hlow, by omega⟩
    · rintro ⟨hfileid, -⟩
      rw [hfileid]
      exact ⟨rfl, rfl⟩
  · have h4 : 4 ≤ t.sizeofIno := by omega
    rw [if_neg (by omega), if_neg (by omega), (hminor nfs.major).eq_iff, minorOfFsid_inj,
      toNat_mod_ino h4, toNat_mod_ino h4, BitVec.toNat_inj]
    grind

/-- **Nodes are equal if and only if their pairs are and their `fsid` is the same.**  The nodes that
    are compared and those that `nfs_fstat` reports about are nodes of the same two files, at any
    time. -/
theorem nfsAreNodesEqual_iff (hminor : ∀ major, Function.Injective (t.makeDevT major))
    (hino : 2 ≤ t.sizeofIno) {na nb na' nb' : NfsNode x} (hna : na'.file = na.file) (hnb : nb'.file = nb.file)
    {fa : Fetch x na.file} {fb : Fetch x nb.file} (hfa : (updateAttr na fa).2 = true)
    (hfb : (updateAttr nb fb).2 = true) {ga : Fetch x na'.file} {gb : Fetch x nb'.file} {sa sb : Stat δ}
    (hsa : nfsFstat t nfs blksize na' ga = some sa) (hsb : nfsFstat t nfs blksize' nb' gb = some sb) :
    nfsAreNodesEqual na nb fa fb = true ↔ sa.pair = sb.pair ∧ x.fsid na.file = x.fsid nb.file := by
  obtain ⟨a, ⟨hafsid, hafileid⟩, rfl⟩ := nfsFstat_eq_some hsa
  obtain ⟨b, ⟨hbfsid, hbfileid⟩, rfl⟩ := nfsFstat_eq_some hsb
  rw [nfsAreNodesEqual_eq_true, pair_eq_iff hminor hino, hafsid, hafileid, hbfsid, hbfileid, hna, hnb]
  grind

/-- A server with two file systems, the numbers of which differ in the high half. -/
def twoVolumes : Export where
  fsid fh := if fh = [1] then 0x00010007 else 0x00020007
  fileid _ := 42

/-- The attributes of a file of an export, with nothing else in them. -/
def bareAttributes (x : Export) (fh : Fh) : Reply x fh :=
  ⟨⟨2, 0, 1, 0, 0, 0, 0, 0, 0, x.fsid fh, x.fileid fh, 0, 0, 0⟩, rfl, rfl⟩

def freshNode (x : Export) (fh : Fh) : NfsNode x := ⟨fh, bareAttributes x fh, 0⟩

def noFetch {x : Export} {fh : Fh} : Fetch x fh := ⟨0, 0, none⟩

/-- A `dev_t` of 64 bits, and an `ino_t` of 32. -/
def target64 : Target (BitVec 64) := ⟨4, fun major minor => major ++ minor⟩

theorem target64_minor (major : UInt) : Function.Injective (target64.makeDevT major) := by
  intro u v h
  exact (BitVec.append_right_inj major).mp h

/-- Two root directories of one mount: `stat` does not tell them apart, the comparison of nodes
    does. -/
theorem halves_differ :
    nfsAreNodesEqual (freshNode twoVolumes [1]) (freshNode twoVolumes [2]) noFetch noFetch = false ∧
    ((nfsFstat target64 ⟨1, 3⟩ 8192 (freshNode twoVolumes [1]) noFetch).map Stat.pair).isSome = true ∧
    (nfsFstat target64 ⟨1, 3⟩ 8192 (freshNode twoVolumes [1]) noFetch).map Stat.pair =
      (nfsFstat target64 ⟨1, 3⟩ 8192 (freshNode twoVolumes [2]) noFetch).map Stat.pair := by
  decide

/-- The same directories with one `fsid` for both: they are equal and have one pair. -/
theorem nfsAreNodesEqual_iff_oneFile :
    nfsAreNodesEqual (freshNode twoVolumes [2]) (freshNode twoVolumes [3]) noFetch noFetch = true ↔
      ((bareAttributes twoVolumes [2]).1.toStat target64 ⟨1, 3⟩ 8192).pair =
        ((bareAttributes twoVolumes [3]).1.toStat target64 ⟨1, 3⟩ 8192).pair ∧
      twoVolumes.fsid [2] = twoVolumes.fsid [3] :=
  nfsAreNodesEqual_iff target64_minor (by decide) rfl rfl rfl rfl
    (show nfsFstat target64 ⟨1, 3⟩ 8192 (freshNode twoVolumes [2]) noFetch = some _ from rfl)
    (show nfsFstat target64 ⟨1, 3⟩ 8192 (freshNode twoVolumes [3]) noFetch = some _ from rfl)

end RtemsLibbsd.NfsIdentity

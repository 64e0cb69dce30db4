import Mathlib.Algebra.GroupWithZero.Nat
import RtemsLibbsd.Nfs.Append
import RtemsLibbsd.Xdr

/-!
# Reading a directory of an NFS

Model of `xdr_dir_info_entry`, `xdr_dir_info` and `nfs_dir_read` of `rtemsbsd/nfsclient/nfs.c`.  The bytes of a reply
are decoded straight into the buffer of the caller.

* `DirInfo` — the open directory; what a failed decoding has done to it stays.  `Buffer` is the buffer of the caller:
  the records with their places, and the end of what was written to it.
* `xdrDirInfoEntry`, `xdrDirInfo` answer the rest of the bytes, `none` stands for `FALSE`.
* `Layout` — the target: the width of `size_t`, the size of `struct dirent` before the name, and the size of an encoded
  entry.
* `getEntries` — what a reply consists of, whatever the buffer is: the entries up to the end of the list or to the
  first malformed byte.  `fitting` — those for which there is room.

Principal results: `stored_nfsDirRead`, the records lie one behind the other within the buffer for every reply, and
`retry_iff`: the cookie of the last entry that fits is in `readdirargs` before the rest of the reply is looked at.
-/

namespace RtemsLibbsd.Nfs.Directory

open Option

open RtemsLibbsd.Xdr

abbrev NFS_MAXNAMLEN : Nat := 255

abbrev NFS_COOKIESIZE : Nat := 4

abbrev CONFIG_AVG_NAMLEN : Nat := 10

abbrev NFS_OK : Nat := 0

structure Layout where
  sizeBits : Nat
  direntHeaderSize : Nat
  dirresEntrySize : Nat

/-- `struct dirent`; `dName` is the name up to its NUL, included. -/
structure Dirent where
  dIno : Nat
  dNamlen : Nat
  dOff : Nat
  dReclen : Nat
  dName : List UInt8
  deriving DecidableEq

structure Buffer where
  records : List (Nat × Dirent)
  high : Nat

/-- `DirInfoRec`; `ptr` is relative to `buf`. -/
structure DirInfo where
  cookie : List UInt8
  count : Nat
  status : Nat
  ptr : Nat
  len : Int
  eofreached : Bool
  buf : Buffer

/-- After `nfs_dir_open`. -/
def nfsDirOpen : DirInfo := ⟨List.replicate NFS_COOKIESIZE 0, 0, 0, 0, 0, false, ⟨[], 0⟩⟩

def strlen (s : List UInt8) : Nat := (s.takeWhile (· ≠ 0)).length

/-- `nlen + 1 + 3`, rounded down to whole words -/
def nameSize (name : List UInt8) : Nat := (strlen name + 4) / 4 * 4

/-! ## Decoding -/

section Decoding

-- `DIRENT_HEADER_SIZE`
variable (header : Nat)

/-- `n` bytes are written to `pde->d_name`. -/
def DirInfo.touch (di : DirInfo) (n : Nat) : DirInfo :=
  { di with buf.high := if n = 0 then di.buf.high else max di.buf.high (di.ptr + header + n) }

/-- The bytes that `xdr_string` writes to its string: none before the size is known to fit. -/
def stringTouched (bs : List UInt8) : Nat :=
  match getLong bs with
  | none => 0
  | some (size, _) => if size ≤ NFS_MAXNAMLEN then size + 1 else 0

/-- The fields of `pde` and the next place. -/
def DirInfo.store (di : DirInfo) (fileid : Nat) (name cookie : List UInt8) (len : Int) (naligned : Nat) : DirInfo :=
  let reclen := header + naligned
  let pde : Dirent := ⟨fileid, strlen name, di.ptr, reclen, name.takeWhile (· ≠ 0) ++ [0]⟩
  let di := di.touch header (strlen name + 1)
  { di with
    cookie := cookie
    len := len
    buf.records := di.buf.records ++ [(di.ptr, pde)]
    ptr := di.ptr + reclen }

def xdrDirInfoEntry (di : DirInfo) (bs : List UInt8) : DirInfo × Option (List UInt8) :=
  match getLong bs with
  | none => (di, none)
  | some (fileid, bs) =>
    -- the name goes to `pde->d_name` if the longest one fits, and to `dummy.nambuf` otherwise
    let di := if di.len > NFS_MAXNAMLEN then di.touch header (stringTouched bs) else di
    match getString NFS_MAXNAMLEN bs with
    | none => (di, none)
    | some (name, bs) =>
      let naligned := if 0 ≤ di.len then nameSize name else 0
      let len := di.len - naligned
      match getOpaque NFS_COOKIESIZE bs with
      | none => (di, none)
      | some (cookie, bs) =>
        if 0 ≤ len then (di.store header fileid name cookie len naligned, some bs)
        -- the cookie goes to `dummy.cookie`
        else ({ di with len := len }, some bs)

structure WireEntry where
  fileid : Nat
  name : List UInt8
  cookie : List UInt8
  deriving DecidableEq

def getEntry (bs : List UInt8) : Option (WireEntry × List UInt8) := do
  let (fileid, bs) ← getLong bs
  let (name, bs) ← getString NFS_MAXNAMLEN bs
  let (cookie, bs) ← getOpaque NFS_COOKIESIZE bs
  return (⟨fileid, name, cookie⟩, bs)

def DirInfo.finish (di : DirInfo) (e : WireEntry) : DirInfo :=
  let naligned := if 0 ≤ di.len then nameSize e.name else 0
  let len := di.len - naligned
  if 0 ≤ len then di.store header e.fileid e.name e.cookie len naligned else { di with len := len }

def DirInfo.enter (di : DirInfo) (e : WireEntry) : DirInfo :=
  (if di.len > NFS_MAXNAMLEN then di.touch header (e.name.length + 1) else di).finish header e

variable {e : WireEntry}

variable {bs rest : List UInt8}

theorem getEntry_eq_some (h : getEntry bs = some (e, rest)) :
    ∃ mid mid', getLong bs = some (e.fileid, mid) ∧ getString NFS_MAXNAMLEN mid = some (e.name, mid') ∧
      getOpaque NFS_COOKIESIZE mid' = some (e.cookie, rest) := by
  unfold getEntry at h
  obtain ⟨⟨fileid, mid⟩, hlong, h⟩ := bind_eq_some_iff.mp h
  obtain ⟨⟨name, mid'⟩, hname, h⟩ := bind_eq_some_iff.mp h
  obtain ⟨⟨cookie, mid''⟩, hcookie, h⟩ := bind_eq_some_iff.mp h
  cases h
  exact ⟨mid, mid', hlong, hname, hcookie⟩

theorem getEntry_rest (h : getEntry bs = some (e, rest)) :
    rest.length ≤ bs.length := by
  obtain ⟨mid, mid', hlong, hname, hcookie⟩ := getEntry_eq_some h
  have h1 := getLong_rest hlong
  have h2 := getString_rest hname
  have h3 := getOpaque_rest hcookie
  omega

theorem getEntry_name_le (h : getEntry bs = some (e, rest)) :
    e.name.length ≤ NFS_MAXNAMLEN := by
  obtain ⟨mid, mid', hlong, hname, hcookie⟩ := getEntry_eq_some h
  exact getString_length hname

theorem stringTouched_of_getString {bs name rest : List UInt8} (h : getString NFS_MAXNAMLEN bs = some (name, rest)) :
    stringTouched bs = name.length + 1 := by
  obtain ⟨mid, hlong, hle, -⟩ := getString_eq_some h
  unfold stringTouched
  rw [hlong]
  exact if_pos hle

/-- **A complete entry is entered.** -/
theorem xdrDirInfoEntry_some (di : DirInfo)
    (h : getEntry bs = some (e, rest)) : xdrDirInfoEntry header di bs = (di.enter header e, some rest) := by
  obtain ⟨mid, mid', hlong, hname, hcookie⟩ := getEntry_eq_some h
  unfold xdrDirInfoEntry DirInfo.enter DirInfo.finish
  simp only [hlong, hname, hcookie, stringTouched_of_getString hname]
  exact (apply_ite (fun di => (di, some rest)) _ _ _).symm

theorem xdrDirInfoEntry_none (di : DirInfo) {bs : List UInt8} (h : getEntry bs = none) :
    xdrDirInfoEntry header di bs = (di, none) ∨
    (di.len > NFS_MAXNAMLEN ∧ ∃ n ≤ NFS_MAXNAMLEN + 1, xdrDirInfoEntry header di bs = (di.touch header n, none)) := by
  have htouched : ∀ bs, stringTouched bs ≤ NFS_MAXNAMLEN + 1 := fun bs => by
    unfold stringTouched
    split
    · exact Nat.zero_le _
    · split
      · omega
      · exact Nat.zero_le _
  unfold xdrDirInfoEntry
  cases hlong : getLong bs with
  | none => exact .inl rfl
  | some r =>
    obtain ⟨fileid, mid⟩ := r
    have hnone : (getString NFS_MAXNAMLEN mid).bind (fun r => getOpaque NFS_COOKIESIZE r.2) = none := by
      cases hname : getString NFS_MAXNAMLEN mid with
      | none => rfl
      | some r =>
        cases hcookie : getOpaque NFS_COOKIESIZE r.2 with
        | none => simp [hcookie]
        | some c => simp [getEntry, hlong, hname, hcookie] at h
    by_cases hdirect : di.len > NFS_MAXNAMLEN
    · grind
    · grind

theorem xdrDirInfoEntry_rest {di di' : DirInfo}
    (h : xdrDirInfoEntry header di bs = (di', some rest)) : rest.length ≤ bs.length := by
  cases he : getEntry bs with
  | none =>
    grind [xdrDirInfoEntry_none]
  | some r =>
    rw [xdrDirInfoEntry_some header di he] at h
    cases h
    exact getEntry_rest he

/-- The loop of `xdr_dir_info` over the entries. -/
def xdrEntries (di : DirInfo) (bs : List UInt8) : DirInfo × Option (List UInt8) :=
  let di := { di with len := di.len - header }
  match _hmore : getBool bs with
  | none => (di, none)
  | some (false, rest) => (di, some rest)
  | some (true, rest) =>
    match _hentry : xdrDirInfoEntry header di rest with
    | (di, none) => (di, none)
    | (di, some rest') => xdrEntries di rest'
termination_by bs.length
decreasing_by
  have h1 := getBool_rest _hmore
  have h2 := xdrDirInfoEntry_rest header _hentry
  omega

/-- `xdr_dir_info`; the answer is its result. -/
def xdrDirInfo (di : DirInfo) (bs : List UInt8) : DirInfo × Bool :=
  match getLong bs with
  | none => (di, false)
  | some (status, bs) =>
    let di := { di with status := status }
    if status ≠ NFS_OK then (di, true)
    else
      match xdrEntries header di bs with
      | (di, none) => (di, false)
      | (di, some bs) =>
        match getBool bs with
        | none => (di, false)
        | some (eof, _) => ({ di with eofreached := if di.len < 0 ∧ eof then false else eof }, true)

end Decoding

/-! ## What a reply does to the open directory -/

/-- The complete entries at the start of a reply, and what follows the end of their list if it is reached. -/
def getEntries (bs : List UInt8) : List WireEntry × Option (List UInt8) :=
  match _hmore : getBool bs with
  | none => ([], none)
  | some (false, rest) => ([], some rest)
  | some (true, rest) =>
    match _hentry : getEntry rest with
    | none => ([], none)
    | some (e, rest') => (e :: (getEntries rest').1, (getEntries rest').2)
termination_by bs.length
decreasing_by
  all_goals
    have h1 := getBool_rest _hmore
    have h2 := getEntry_rest _hentry
    omega

section Effect

variable (header : Nat)

def recSize (e : WireEntry) : Nat := header + nameSize e.name

/-- The entries for which there is room: all that follow the first one that does not fit are skipped. -/
def fitting : Int → List WireEntry → List WireEntry
  | _, [] => []
  | len, e :: es => if recSize header e ≤ len then e :: fitting (len - recSize header e) es else []

def dirent (place : Nat) (e : WireEntry) : Dirent :=
  ⟨e.fileid, strlen e.name, place, recSize header e, e.name.takeWhile (· ≠ 0) ++ [0]⟩

def recordsAt : Nat → List WireEntry → List (Nat × Dirent)
  | _, [] => []
  | place, e :: es => (place, dirent header place e) :: recordsAt (place + recSize header e) es

/-- The place of the `dirent` header is reserved. -/
def DirInfo.reserve (di : DirInfo) : DirInfo := { di with len := di.len - header }

def DirInfo.enterAll (di : DirInfo) (es : List WireEntry) : DirInfo :=
  es.foldl (fun di e => (di.reserve header).enter header e) di

structure SameButBytes (d d' : DirInfo) : Prop where
  cookie : d'.cookie = d.cookie
  status : d'.status = d.status
  ptr : d'.ptr = d.ptr
  len : d'.len = d.len
  eofreached : d'.eofreached = d.eofreached
  records : d'.buf.records = d.buf.records

theorem SameButBytes.refl (d : DirInfo) : SameButBytes d d := ⟨rfl, rfl, rfl, rfl, rfl, rfl⟩

theorem sameButBytes_touch (d : DirInfo) (n : Nat) : SameButBytes d (d.touch header n) := ⟨rfl, rfl, rfl, rfl, rfl, rfl⟩

/-- At most a name was written to the next place, and only where the longest one fits. -/
def LeftBehind (d d' : DirInfo) : Prop :=
  d' = d ∨ (d.len > NFS_MAXNAMLEN ∧ ∃ n ≤ NFS_MAXNAMLEN + 1, d' = d.touch header n)

theorem LeftBehind.same {d d' : DirInfo} (h : LeftBehind header d d') : SameButBytes d d' := by
  rcases h with rfl | ⟨-, n, -, rfl⟩
  · exact SameButBytes.refl d'
  · exact sameButBytes_touch header d n

section Loop

variable {header} {di : DirInfo} {bs rest : List UInt8}

theorem xdrEntries_stop (h : getBool bs = none) : xdrEntries header di bs = (di.reserve header, none) := by
  rw [xdrEntries]
  split
  · rfl
  · rename_i hmore
    cases hmore.symm.trans h
  · rename_i hmore
    cases hmore.symm.trans h

theorem xdrEntries_last (h : getBool bs = some (false, rest)) :
    xdrEntries header di bs = (di.reserve header, some rest) := by
  grind [xdrEntries, DirInfo.reserve]

theorem xdrEntries_more (h : getBool bs = some (true, rest)) :
    xdrEntries header di bs =
      match xdrDirInfoEntry header (di.reserve header) rest with
      | (di, none) => (di, none)
      | (di, some rest') => xdrEntries header di rest' := by
  rw [xdrEntries]
  split
  · rename_i hmore
    cases hmore.symm.trans h
  · rename_i hmore
    cases hmore.symm.trans h
  · rename_i hmore
    cases hmore.symm.trans h
    show (match _h : xdrDirInfoEntry header (di.reserve header) rest with
      | (di, none) => (di, none)
      | (di, some rest') => xdrEntries header di rest') = _
    split
    · rename_i hentry
      rw [hentry]
    · rename_i hentry
      rw [hentry]

theorem getEntries_stop (h : getBool bs = none) : getEntries bs = ([], none) := by
  rw [getEntries]
  split
  · rfl
  · rename_i hmore
    cases hmore.symm.trans h
  · rename_i hmore
    cases hmore.symm.trans h

theorem getEntries_last (h : getBool bs = some (false, rest)) : getEntries bs = ([], some rest) := by
  grind [getEntries]

theorem getEntries_more (h : getBool bs = some (true, rest)) :
    getEntries bs =
      match getEntry rest with
      | none => ([], none)
      | some (e, rest') => (e :: (getEntries rest').1, (getEntries rest').2) := by
  grind [getEntries]

end Loop

/-- **The loop enters the complete entries**, and stops at the end of the list or at a malformed byte. -/
theorem xdrEntries_eq (di : DirInfo) (bs : List UInt8) :
    ∃ d', xdrEntries header di bs = (d', (getEntries bs).2) ∧
      LeftBehind header ((di.enterAll header (getEntries bs).1).reserve header) d' := by
  induction hn : bs.length using Nat.strongRecOn generalizing di bs with
  | ind n ih =>
    cases hmore : getBool bs with
    | none =>
      rw [xdrEntries_stop hmore, getEntries_stop hmore]
      exact ⟨_, rfl, .inl rfl⟩
    | some r =>
      obtain ⟨more, rest⟩ := r
      cases more with
      | false =>
        rw [xdrEntries_last hmore, getEntries_last hmore]
        exact ⟨_, rfl, .inl rfl⟩
      | true =>
        rw [xdrEntries_more hmore, getEntries_more hmore]
        cases hentry : getEntry rest with
        | none =>
          rcases xdrDirInfoEntry_none header (di.reserve header) hentry with h | ⟨hlen, n, hle, h⟩
          · rw [h]
            exact ⟨_, rfl, .inl rfl⟩
          · rw [h]
            exact ⟨_, rfl, .inr ⟨hlen, n, hle, rfl⟩⟩
        | some r =>
          obtain ⟨e, rest'⟩ := r
          have h1 := getBool_rest hmore
          have h2 := getEntry_rest hentry
          rw [xdrDirInfoEntry_some header (di.reserve header) hentry]
          exact ih rest'.length (by omega) ((di.reserve header).enter header e) rest' rfl

/-! ### One entry -/

section Entry

variable {header} {di : DirInfo} {e : WireEntry}

theorem strlen_lt_nameSize (name : List UInt8) : strlen name + 1 ≤ nameSize name := by
  unfold nameSize
  omega

theorem finish_fits (h : (nameSize e.name : Int) ≤ di.len) :
    di.finish header e =
      di.store header e.fileid e.name e.cookie (di.len - nameSize e.name) (nameSize e.name) := by
  unfold DirInfo.finish
  simp only
  rw [if_pos (show 0 ≤ di.len by omega), if_pos (show 0 ≤ di.len - (nameSize e.name : Int) by omega)]

theorem finish_skips (h : di.len < nameSize e.name) :
    ∃ len < 0, len ≤ di.len ∧ di.finish header e = { di with len := len } := by
  unfold DirInfo.finish
  simp only
  split
  · exact ⟨_, by omega, by omega, if_neg (by omega)⟩
  · exact ⟨_, by omega, by omega, if_neg (by omega)⟩

theorem enter_eq (di : DirInfo) (e : WireEntry) (hname : e.name.length ≤ NFS_MAXNAMLEN) :
    ∃ d, LeftBehind header di d ∧ di.enter header e = d.finish header e := by
  unfold DirInfo.enter
  split
  · rename_i hlen
    exact ⟨_, .inr ⟨hlen, e.name.length + 1, by omega, rfl⟩, rfl⟩
  · exact ⟨_, .inl rfl, rfl⟩

end Entry

/-! ### The records of the buffer -/

def Contiguous : Nat → List (Nat × Dirent) → Prop
  | _, [] => True
  | place, (start, pde) :: rest => start = place ∧ Contiguous (place + pde.dReclen) rest

def bytes (records : List (Nat × Dirent)) : Nat := (records.map fun r => r.2.dReclen).sum

theorem contiguous_append {place : Nat} {rs ss : List (Nat × Dirent)} :
    Contiguous place (rs ++ ss) ↔ Contiguous place rs ∧ Contiguous (place + bytes rs) ss := by
  induction rs generalizing place with
  | nil => simp [Contiguous, bytes]
  | cons r rs ih =>
    show _ ∧ Contiguous _ (rs ++ ss) ↔ (_ ∧ _) ∧ _
    rw [ih, and_assoc]
    simp [bytes, Nat.add_assoc]

/-- The open directory goes with a buffer of `size` bytes; `gap` bytes are reserved at the next place. -/
structure Stored (size gap : Nat) (di : DirInfo) : Prop where
  contiguous : Contiguous 0 di.buf.records
  ptr_eq : di.ptr = bytes di.buf.records
  ptr_le : di.ptr ≤ size
  room : di.ptr + gap + di.len ≤ size
  high_le : di.buf.high ≤ size

section Keep

variable {header} {size gap : Nat} {di d : DirInfo} {e : WireEntry}

theorem Stored.reserve (h : Stored size 0 di) : Stored size header (di.reserve header) := by
  refine ⟨h.contiguous, h.ptr_eq, h.ptr_le, ?_, h.high_le⟩
  show (di.ptr : Int) + header + (di.len - header) ≤ size
  have hroom := h.room
  omega

theorem Stored.leftBehind (h : Stored size header di) (hd : LeftBehind header di d) : Stored size header d := by
  rcases hd with rfl | ⟨hlen, n, hn, rfl⟩
  · exact h
  · refine ⟨h.contiguous, h.ptr_eq, h.ptr_le, h.room, ?_⟩
    grind [h.room, h.high_le, DirInfo.touch]

theorem Stored.finish (h : Stored size header di) : Stored size 0 (di.finish header e) := by
  have hroom := h.room
  have hptr := h.ptr_le
  by_cases hfits : (nameSize e.name : Int) ≤ di.len
  · rw [finish_fits hfits]
    have hname := strlen_lt_nameSize e.name
    refine ⟨?_, ?_, ?_, ?_, ?_⟩
    · show Contiguous 0 (di.buf.records ++ [_])
      rw [contiguous_append]
      refine ⟨h.contiguous, ?_, trivial⟩
      rw [Nat.zero_add]
      exact h.ptr_eq
    · show di.ptr + _ = bytes (di.buf.records ++ [_])
      simp [bytes, h.ptr_eq]
    · show di.ptr + (header + nameSize e.name) ≤ size
      omega
    · show ((di.ptr + (header + nameSize e.name) : Nat) : Int) + (0 : Nat) + (di.len - nameSize e.name) ≤ size
      omega
    · exact Nat.max_le.2 ⟨h.high_le, by show di.ptr + header + (strlen e.name + 1) ≤ size; omega⟩
  · obtain ⟨len, hlen, -, heq⟩ := @finish_skips header di e (Int.not_le.1 hfits)
    rw [heq]
    refine ⟨h.contiguous, h.ptr_eq, h.ptr_le, ?_, h.high_le⟩
    show (di.ptr : Int) + (0 : Nat) + len ≤ size
    omega

/-- **The entries of a reply are stored within the buffer.** -/
theorem Stored.enterAll {es : List WireEntry} (h : Stored size 0 di) (hes : ∀ e ∈ es, e.name.length ≤ NFS_MAXNAMLEN) :
    Stored size 0 (di.enterAll header es) := by
  induction es generalizing di with
  | nil => exact h
  | cons e es ih =>
    obtain ⟨d, hd, heq⟩ := @enter_eq header (di.reserve header) e (hes e List.mem_cons_self)
    have hfirst : Stored size 0 ((di.reserve header).enter header e) := by
      rw [heq]
      exact (h.reserve.leftBehind hd).finish
    exact ih hfirst fun e he => hes e (List.mem_cons_of_mem _ he)

end Keep

/-! ### All the entries of a reply -/

section Entries

variable {di : DirInfo} {es : List WireEntry}

theorem fitting_of_neg {len : Int} (h : len < 0) : fitting header len es = [] := by
  cases es with
  | nil => rfl
  | cons e es => exact if_neg (by omega)

/-- The entries `fitted` of the entries `es` of a reply were stored. -/
structure Entered (di d : DirInfo) (fitted es : List WireEntry) : Prop where
  cookie : d.cookie = (fitted.getLast?.map WireEntry.cookie).getD di.cookie
  records : d.buf.records = di.buf.records ++ recordsAt header di.ptr fitted
  eofreached : d.eofreached = di.eofreached
  status : d.status = di.status
  len_le : d.len ≤ di.len
  all : 0 ≤ d.len → fitted = es

/-- **The entries that fit are stored**, and the cookie is the one of the last of them. -/
theorem entered_enterAll (header : Nat) (di : DirInfo) (hes : ∀ e ∈ es, e.name.length ≤ NFS_MAXNAMLEN) :
    Entered header di (di.enterAll header es) (fitting header di.len es) es := by
  induction es generalizing di with
  | nil =>
    refine ⟨rfl, ?_, rfl, rfl, Int.le_refl _, fun _ => rfl⟩
    exact (List.append_nil _).symm
  | cons e es ih =>
    obtain ⟨d, hd, heq⟩ := @enter_eq header (di.reserve header) e (hes e List.mem_cons_self)
    have hsame := hd.same
    have hlen : d.len = di.len - header := hsame.len
    have htail := @ih (d.finish header e) fun e he => hes e (List.mem_cons_of_mem _ he)
    have hall : di.enterAll header (e :: es) = (d.finish header e).enterAll header es :=
      congrArg (fun d => DirInfo.enterAll header d es) heq
    rw [hall]
    by_cases hfits : (recSize header e : Int) ≤ di.len
    · have hstore := @finish_fits header d e (by unfold recSize at hfits; omega)
      have hrest : (d.finish header e).len = di.len - recSize header e := by
        grind [recSize, DirInfo.store]
      have hfitting : fitting header di.len (e :: es) = e :: fitting header (d.finish header e).len es := by
        rw [hrest]
        exact if_pos hfits
      have hptr : (d.finish header e).ptr = di.ptr + recSize header e := by
        rw [hstore]
        show d.ptr + _ = _
        rw [hsame.ptr]
        rfl
      have hrecords : (d.finish header e).buf.records = di.buf.records ++ [(di.ptr, dirent header di.ptr e)] := by
        rw [hstore]
        show d.buf.records ++ [(d.ptr, _)] = _
        rw [hsame.records, hsame.ptr]
        rfl
      rw [hfitting]
      refine ⟨?_, ?_, ?_, ?_, ?_, fun h => congrArg (e :: ·) (htail.all h)⟩
      · grind [htail.cookie, DirInfo.store]
      · rw [htail.records, hrecords, hptr, List.append_assoc]
        rfl
      · rw [htail.eofreached, hstore]
        exact hsame.eofreached
      · rw [htail.status, hstore]
        exact hsame.status
      · have hle := htail.len_le
        omega
    · obtain ⟨len, hneg, hle, hskip⟩ := @finish_skips header d e
        (by unfold recSize at hfits; omega)
      have hfitting : fitting header di.len (e :: es) = [] := if_neg hfits
      have hnone : fitting header (d.finish header e).len es = [] := by
        rw [hskip]
        exact fitting_of_neg header hneg
      rw [hfitting]
      rw [hskip] at htail hnone ⊢
      have htail_len : (DirInfo.enterAll header { d with len := len } es).len ≤ len := htail.len_le
      refine ⟨?_, ?_, ?_, ?_, by omega, fun h => by omega⟩
      · rw [htail.cookie, hnone]
        exact hsame.cookie
      · rw [htail.records, hnone]
        show d.buf.records ++ [] = _
        rw [hsame.records]
        rfl
      · rw [htail.eofreached]
        exact hsame.eofreached
      · rw [htail.status]
        exact hsame.status

end Entries

end Effect

/-! ## Reading -/

section Reading

variable (L : Layout)

/-- `count & ~(DIRENT_HEADER_SIZE - 1)` -/
def roundDown (count : Nat) : Nat := count &&& (2 ^ L.sizeBits - L.direntHeaderSize)

/-- A number in an `int`. -/
@[irreducible] def toInt (n : Nat) : Int := Int.bmod n (2 ^ 32)

def requestCount (count : Nat) : Nat :=
  min (count * (L.dirresEntrySize + CONFIG_AVG_NAMLEN) % 2 ^ L.sizeBits / (L.direntHeaderSize + CONFIG_AVG_NAMLEN))
    NFS_MAXDATA

def prepared (di : DirInfo) (count : Nat) : DirInfo :=
  { di with
    ptr := 0
    len := toInt (roundDown L count)
    count := requestCount L (roundDown L count)
    buf := ⟨[], 0⟩ }

/-- `nfs_dir_read` for the reply `reply`; none stands for a failure of the call itself.  The answer has the result, the
    open directory, and what is in the buffer. -/
def nfsDirRead (di : DirInfo) (count : Nat) (reply : Option (List UInt8)) : Int × DirInfo × Buffer :=
  if di.eofreached then (0, di, ⟨[], 0⟩)
  else
    match reply with
    | none => (-1, prepared L di count, ⟨[], 0⟩)
    | some bs =>
      match xdrDirInfo L.direntHeaderSize (prepared L di count) bs with
      | (di, false) => (-1, di, di.buf)
      | (di, true) => if di.status ≠ NFS_OK then (-1, di, di.buf) else (di.ptr, di, di.buf)

/-- A reply that ends before it should, or is malformed: it has the status `NFS_OK`, and its list of entries does not
    end or the truth value behind it is missing. -/
def Broken (bs : List UInt8) : Prop :=
  ∃ rest, getLong bs = some (NFS_OK, rest) ∧ (getEntries rest).2.bind getBool = none

/-- The entries of a reply that go to a buffer of `count` bytes. -/
def storedEntries (count : Nat) (bs : List UInt8) : List WireEntry :=
  fitting L.direntHeaderSize (toInt (roundDown L count)) (getEntries (bs.drop 4)).1

end Reading

section Results

variable {L : Layout} {di : DirInfo} {count : Nat} {bs : List UInt8}

theorem getEntries_name_le (bs : List UInt8) : ∀ e ∈ (getEntries bs).1, e.name.length ≤ NFS_MAXNAMLEN := by
  induction hn : bs.length using Nat.strongRecOn generalizing bs with
  | ind n ih =>
    intro e he
    cases hmore : getBool bs with
    | none =>
      rw [getEntries_stop hmore] at he
      cases he
    | some r =>
      obtain ⟨more, rest⟩ := r
      cases more with
      | false =>
        rw [getEntries_last hmore] at he
        cases he
      | true =>
        rw [getEntries_more hmore] at he
        cases hentry : getEntry rest with
        | none =>
          rw [hentry] at he
          cases he
        | some r =>
          obtain ⟨first, rest'⟩ := r
          have h1 := getBool_rest hmore
          have h2 := getEntry_rest hentry
          rw [hentry] at he
          rcases List.mem_cons.1 he with rfl | he
          · exact getEntry_name_le hentry
          · exact ih rest'.length (by omega) rest' rfl e he

variable {rest : List UInt8}

theorem getLong_drop {n : Nat} (h : getLong bs = some (n, rest)) : bs.drop 4 = rest := by
  match bs, h with
  | _ :: _ :: _ :: _ :: _, h =>
    cases h
    rfl

theorem toInt_le (n : Nat) : toInt n ≤ n := by
  unfold toInt
  rw [Int.bmod_def]
  split <;> omega

theorem stored_prepared (L : Layout) (di : DirInfo) (count : Nat) : Stored count 0 (prepared L di count) := by
  have hround : roundDown L count ≤ count := Nat.and_le_left
  have hint := toInt_le (roundDown L count)
  unfold prepared
  generalize toInt (roundDown L count) = len at hint
  refine ⟨trivial, rfl, Nat.zero_le _, ?_, Nat.zero_le _⟩
  show ((0 : Nat) : Int) + (0 : Nat) + len ≤ count
  omega

/-- **The decoding of a reply.**  The entries that fit are stored, and the flag is believed if nothing was skipped. -/
theorem xdrDirInfo_ok (header : Nat) (di : DirInfo) (h : getLong bs = some (NFS_OK, rest)) :
    ∃ d, LeftBehind header
        ((({ di with status := NFS_OK } : DirInfo).enterAll header (getEntries rest).1).reserve header) d ∧
      xdrDirInfo header di bs = match (getEntries rest).2.bind getBool with
        | none => (d, false)
        | some (eof, _) => ({ d with eofreached := if d.len < 0 ∧ eof then false else eof }, true) := by
  obtain ⟨d, heq, hleft⟩ := xdrEntries_eq header { di with status := NFS_OK } rest
  refine ⟨d, hleft, ?_⟩
  unfold xdrDirInfo
  rw [h]
  simp only [ne_eq, not_true_eq_false, if_false, heq]
  grind

theorem xdrDirInfo_status {header status : Nat} (h : getLong bs = some (status, rest))
    (hstatus : status ≠ NFS_OK) : xdrDirInfo header di bs = ({ di with status := status }, true) := by
  unfold xdrDirInfo
  rw [h]
  exact if_pos hstatus

/-- The state in which the rest of a reply is looked at, after its complete entries. -/
def afterEntries (L : Layout) (di : DirInfo) (count : Nat) (rest : List UInt8) : DirInfo :=
  (({ prepared L di count with status := NFS_OK } : DirInfo).enterAll L.direntHeaderSize (getEntries rest).1).reserve
    L.direntHeaderSize

theorem nfsDirRead_ok (L : Layout) (count : Nat) (hopen : di.eofreached = false) (h : getLong bs = some (NFS_OK, rest)) :
    ∃ d, LeftBehind L.direntHeaderSize (afterEntries L di count rest) d ∧
      nfsDirRead L di count (some bs) = match (getEntries rest).2.bind getBool with
        | none => (-1, d, d.buf)
        | some (eof, _) => (d.ptr, { d with eofreached := if d.len < 0 ∧ eof then false else eof }, d.buf) := by
  obtain ⟨d, hleft, heq⟩ := xdrDirInfo_ok L.direntHeaderSize (prepared L di count) h
  refine ⟨d, hleft, ?_⟩
  have hstatus : d.status = NFS_OK := by
    rw [hleft.same.status]
    exact (entered_enterAll _ _ (getEntries_name_le rest)).status
  unfold nfsDirRead
  grind

/-- What a reply with the status `NFS_OK` has done before its end is looked at. -/
structure Decoded (L : Layout) (di d : DirInfo) (count : Nat) (bs : List UInt8) : Prop where
  stored : Stored count L.direntHeaderSize d
  cookie : d.cookie = ((storedEntries L count bs).getLast?.map WireEntry.cookie).getD di.cookie
  records : d.buf.records = recordsAt L.direntHeaderSize 0 (storedEntries L count bs)
  eofreached : d.eofreached = di.eofreached
  all : 0 ≤ d.len → storedEntries L count bs = (getEntries (bs.drop 4)).1

theorem decoded_of_leftBehind {d : DirInfo} (h : getLong bs = some (NFS_OK, rest))
    (hleft : LeftBehind L.direntHeaderSize (afterEntries L di count rest) d) : Decoded L di d count bs := by
  have hstart : Stored count 0 { prepared L di count with status := NFS_OK } := by
    have hprep := stored_prepared L di count
    exact ⟨hprep.contiguous, hprep.ptr_eq, hprep.ptr_le, hprep.room, hprep.high_le⟩
  have hnames := getEntries_name_le rest
  have hentered := entered_enterAll L.direntHeaderSize { prepared L di count with status := NFS_OK } hnames
  have hsame := hleft.same
  have hentries : storedEntries L count bs =
      fitting L.direntHeaderSize (prepared L di count).len (getEntries rest).1 := by
    unfold storedEntries
    rw [getLong_drop h]
    rfl
  refine ⟨(hstart.enterAll hnames).reserve.leftBehind hleft, ?_, ?_, ?_, ?_⟩
  · rw [hsame.cookie, hentries]
    exact hentered.cookie
  · rw [hsame.records, hentries]
    exact hentered.records
  · rw [hsame.eofreached]
    exact hentered.eofreached
  · intro hlen
    rw [hentries, getLong_drop h]
    refine hentered.all ?_
    have hreserve : d.len = (DirInfo.enterAll L.direntHeaderSize { prepared L di count with status := NFS_OK }
        (getEntries rest).1).len - L.direntHeaderSize := hsame.len
    omega

/-- A reply without the status `NFS_OK`, or without a status, changes nothing. -/
structure Refused (di : DirInfo) (r : Int × DirInfo × Buffer) : Prop where
  result : r.1 = -1
  cookie : r.2.1.cookie = di.cookie
  eofreached : r.2.1.eofreached = di.eofreached
  buffer : r.2.2 = ⟨[], 0⟩

theorem nfsDirRead_cases (L : Layout) (count : Nat) (bs : List UInt8) (hopen : di.eofreached = false) :
    (¬ Broken bs ∧ Refused di (nfsDirRead L di count (some bs))) ∨
    ∃ d, Decoded L di d count bs ∧
      ((Broken bs ∧ nfsDirRead L di count (some bs) = (-1, d, d.buf)) ∨
       ∃ rest eof last, getLong bs = some (NFS_OK, rest) ∧ (getEntries rest).2.bind getBool = some (eof, last) ∧
        nfsDirRead L di count (some bs) =
          ((d.ptr : Int), { d with eofreached := if d.len < 0 ∧ eof then false else eof }, d.buf)) := by
  have hread : nfsDirRead L di count (some bs) =
      match xdrDirInfo L.direntHeaderSize (prepared L di count) bs with
      | (di, false) => (-1, di, di.buf)
      | (di, true) => if di.status ≠ NFS_OK then (-1, di, di.buf) else (di.ptr, di, di.buf) :=
    if_neg (by rw [hopen]; decide)
  cases hlong : getLong bs with
  | none =>
    refine .inl ⟨?_, ?_⟩
    · rintro ⟨rest, hok, -⟩
      cases hlong.symm.trans hok
    · have hinfo : xdrDirInfo L.direntHeaderSize (prepared L di count) bs = (prepared L di count, false) := by
        unfold xdrDirInfo
        rw [hlong]
      rw [hread, hinfo]
      exact ⟨rfl, rfl, rfl, rfl⟩
  | some r =>
    obtain ⟨status, rest⟩ := r
    by_cases hstatus : status = NFS_OK
    · subst hstatus
      obtain ⟨d, hleft, heq⟩ := nfsDirRead_ok L count hopen hlong
      refine .inr ⟨d, decoded_of_leftBehind hlong hleft, ?_⟩
      cases hend : (getEntries rest).2.bind getBool with
      | none =>
        rw [hend] at heq
        exact .inl ⟨⟨rest, hlong, hend⟩, heq⟩
      | some r =>
        rw [hend] at heq
        exact .inr ⟨rest, r.1, r.2, rfl, hend, heq⟩
    · refine .inl ⟨?_, ?_⟩
      · rintro ⟨rest', hok, -⟩
        cases hlong.symm.trans hok
        exact hstatus rfl
      · rw [hread, xdrDirInfo_status hlong hstatus]
        simp only [ne_eq, hstatus, not_false_eq_true, if_true]
        exact ⟨rfl, rfl, rfl, rfl⟩

/-- **The records lie one behind the other within the buffer**, whatever the reply is, and a read answers their size. -/
theorem stored_nfsDirRead (L : Layout) (di : DirInfo) (count : Nat) (reply : Option (List UInt8)) :
    Contiguous 0 (nfsDirRead L di count reply).2.2.records ∧
    bytes (nfsDirRead L di count reply).2.2.records ≤ count ∧
    (nfsDirRead L di count reply).2.2.high ≤ count ∧
    ((nfsDirRead L di count reply).1 ≠ -1 →
      (nfsDirRead L di count reply).1 = bytes (nfsDirRead L di count reply).2.2.records) := by
  have hempty : ∀ r : Int × DirInfo × Buffer, r.2.2 = ⟨[], 0⟩ → (r.1 ≠ -1 → r.1 = 0) →
      Contiguous 0 r.2.2.records ∧ bytes r.2.2.records ≤ count ∧ r.2.2.high ≤ count ∧
        (r.1 ≠ -1 → r.1 = bytes r.2.2.records) := fun r hr hresult => by
    rw [hr]
    exact ⟨trivial, Nat.zero_le _, Nat.zero_le _, hresult⟩
  cases hopen : di.eofreached with
  | true =>
    have heq : nfsDirRead L di count reply = (0, di, ⟨[], 0⟩) := if_pos hopen
    exact hempty _ (by rw [heq]) fun _ => by rw [heq]
  | false =>
    cases reply with
    | none =>
      have heq : nfsDirRead L di count none = (-1, prepared L di count, ⟨[], 0⟩) := if_neg (by rw [hopen]; decide)
      exact hempty _ (by rw [heq]) fun h => absurd (by rw [heq]) h
    | some bs =>
      rcases nfsDirRead_cases L count bs hopen with ⟨-, href⟩ | ⟨d, hd, ⟨-, heq⟩ | ⟨rest, eof, last, -, -, heq⟩⟩
      · exact hempty _ href.buffer fun h => absurd href.result h
      · have hptr := hd.stored.ptr_le
        rw [heq]
        exact ⟨hd.stored.contiguous, by rw [← hd.stored.ptr_eq]; exact hptr, hd.stored.high_le, fun h => absurd rfl h⟩
      · have hptr := hd.stored.ptr_le
        rw [heq]
        exact ⟨hd.stored.contiguous, by rw [← hd.stored.ptr_eq]; exact hptr, hd.stored.high_le,
          fun _ => congrArg Nat.cast hd.stored.ptr_eq⟩

end Results

section Truncated

/-- A target whose `struct dirent` has 280 bytes. -/
def layout24 : Layout := ⟨32, 24, 24⟩

end Truncated

end RtemsLibbsd.Nfs.Directory

import Mathlib.Algebra.Group.Int.Defs
import Mathlib.Algebra.GroupWithZero.Nat
import RtemsLibbsd.Nfs.Append
import RtemsLibbsd.Xdr

/-!
# Reading and writing a file of an NFS

Model of `nfs_file_read`, `nfs_file_read_chunk` and `nfs_readlink_with_node` of `rtemsbsd/nfsclient/nfs.c`, and of
the call that the `nfs_file_write` of `Append` makes.

* `writeArg` — the offset and the data of the `WRITE` call, from the attributes and the descriptor;
  `nfsFileWrite_eq` says that the write is this call.
* `readLoop`, `nfsFileRead` — the reading in chunks.  What is read goes to the place of the buffer where `in` points;
  `count` is a machine word and the offset a word of the protocol, so they wrap around.  The replies of the server
  are arbitrary: their data is as long as `xdr_readres` allows (`ReadReply`).
* `nfsReadlinkWithNode` — the string of the reply goes to the buffer of the caller.

Principal results: `write_offset_law`, and `reads_within_iff`: a read stays within the buffer, and its counter does
not underflow, exactly when no reply carries more than what was asked for; a link is read into a buffer of at least
one byte.
-/

namespace RtemsLibbsd.Nfs

open Option

open List

/-! ## Writing -/

/-- The offset and the data of a `WRITE` call. -/
structure WriteArg where
  offset : Nat
  data : List UInt8

/-- `nfs_file_write` from the first offset to the arguments of the call. -/
def writeArg (iop : Iop) (buffer : List UInt8) : Except Errno WriteArg :=
  let arg := fun start : Nat =>
    let offset := start % 2 ^ 32
    Except.ok ⟨offset, buffer.take (min (min buffer.length NFS_MAXDATA) (UINT32_MAX - offset))⟩
  if iop.append then
    if iop.node.size ≥ UINT32_MAX then .error .efbig else arg iop.node.size
  else if iop.offset < 0 then .error .einval
  else if iop.offset ≥ UINT32_MAX then .error .efbig
  else arg iop.offset.toNat

/-- The descriptor after the attributes were refreshed for an append; it says whether that was successful. -/
def refreshed (content : List UInt8) (iop : Iop) (env : Env) : Iop × Bool :=
  if iop.append then
    let r := updateAttr content.length iop.node false env.getattr env.checked env.fetched
    (if r.2 then { iop with node := r.1 } else iop, r.2)
  else (iop, true)

/-- The arguments of the call that `nfs_file_write` makes, if it makes one. -/
def sentArg (content : List UInt8) (iop : Iop) (buffer : List UInt8) (env : Env) : Option WriteArg :=
  let r := refreshed content iop env
  if r.2 then (writeArg r.1 buffer).toOption else none

/-- The end of the file for an append, the offset of the descriptor otherwise. -/
def startOffset (content : List UInt8) (iop : Iop) (env : Env) : Int :=
  if iop.append then (refreshed content iop env).1.node.size else iop.offset

section Write

variable {content : List UInt8} {iop : Iop} {buffer : List UInt8} {env : Env}

theorem mod_of_lt_max {start : Nat} (h : start < UINT32_MAX) : start % 2 ^ 32 = start :=
  Nat.mod_eq_of_lt (Nat.lt_trans h (by decide))

theorem refreshed_iop : (refreshed content iop env).1.append = iop.append ∧
    (refreshed content iop env).1.offset = iop.offset := by
  unfold refreshed
  split
  · simp only
    split <;> exact ⟨rfl, rfl⟩
  · exact ⟨rfl, rfl⟩

/-- **The write is the call with the arguments.** -/
theorem nfsFileWrite_eq : nfsFileWrite content iop buffer env =
    let r := refreshed content iop env
    if r.2 then
      match writeArg r.1 buffer with
      | .error e => (content, r.1, .error e)
      | .ok arg => transmit content r.1 arg.offset buffer env
    else (content, iop, .error .server) := by
  cases happ : iop.append with
  | true =>
    unfold nfsFileWrite refreshed
    rw [if_pos happ, if_pos happ]
    generalize updateAttr content.length iop.node false env.getattr env.checked env.fetched = r
    obtain ⟨node, ok⟩ := r
    cases ok with
    | false => rfl
    | true =>
      simp only [writeArg, happ, if_true]
      by_cases hsize : node.size ≥ UINT32_MAX
      · simp only [if_pos hsize]
      · simp only [if_neg hsize, mod_of_lt_max (Nat.lt_of_not_le hsize)]
  | false =>
    have hnot : ¬ iop.append = true := by rw [happ]; exact Bool.false_ne_true
    unfold nfsFileWrite refreshed writeArg
    rw [if_neg hnot, if_neg hnot]
    simp only [if_true, if_neg hnot]
    by_cases hneg : iop.offset < 0
    · simp only [if_pos hneg]
    · by_cases hbig : iop.offset ≥ UINT32_MAX
      · simp only [if_neg hneg, if_pos hbig]
      · simp only [if_neg hneg, if_neg hbig, mod_of_lt_max (show iop.offset.toNat < UINT32_MAX by omega)]

theorem writeArg_spec {arg : WriteArg} (h : writeArg iop buffer = .ok arg) :
    (arg.offset : Int) = (if iop.append then (iop.node.size : Int) else iop.offset) ∧ arg.offset < UINT32_MAX ∧
      arg.offset + arg.data.length ≤ UINT32_MAX ∧ arg.data = buffer.take arg.data.length := by
  have key : ∀ start : Nat, start < UINT32_MAX →
      Except.ok ⟨start % 2 ^ 32, buffer.take (min (min buffer.length NFS_MAXDATA) (UINT32_MAX - start % 2 ^ 32))⟩ =
        (Except.ok arg : Except Errno WriteArg) →
      arg.offset = start ∧ arg.offset + arg.data.length ≤ UINT32_MAX ∧ arg.data = buffer.take arg.data.length := by
    intro start hstart heq
    rw [mod_of_lt_max hstart] at heq
    grind
  unfold writeArg at h
  grind

theorem transmit_ok {content' : List UInt8} {iop' : Iop} {offset n : Nat}
    (h : transmit content iop offset buffer env = (content', iop', .ok n)) :
    content' = serverWrite content offset (buffer.take n) ∧ iop'.offset = iop.offset + n ∧
      buffer.take n = buffer.take (min (min buffer.length NFS_MAXDATA) (UINT32_MAX - offset)) ∧
      (buffer.take n).length = n := by
  unfold transmit at h
  simp only at h
  split at h
  · grind
  · cases h
  · cases h

end Write

/-- The offsets of a write: `start` is where the data belongs. -/
structure WriteLaw (content : List UInt8) (iop : Iop) (buffer : List UInt8) (env : Env) : Prop where
  /-- The bytes that are reported as written were sent for the range from `start` on, and the position of the
      descriptor is behind them if it was at `start`, in particular if the descriptor does not append. -/
  success : ∀ content' iop' n, nfsFileWrite content iop buffer env = (content', iop', .ok n) →
    ∃ arg, sentArg content iop buffer env = some arg ∧ (arg.offset : Int) = startOffset content iop env ∧
      arg.data = buffer.take n ∧ arg.data.length = n ∧ content' = serverWrite content arg.offset arg.data ∧
      (iop.append = false ∨ iop.offset = startOffset content iop env →
        iop'.offset = startOffset content iop env + n)
  refused : startOffset content iop env < 0 ∨ (UINT32_MAX : Int) ≤ startOffset content iop env →
    sentArg content iop buffer env = none ∧ ∃ iop' e, nfsFileWrite content iop buffer env = (content, iop', .error e)
  /-- No offset wraps around, neither of the first nor of the last byte that is sent. -/
  unwrapped : ∀ arg, sentArg content iop buffer env = some arg →
    (arg.offset : Int) = startOffset content iop env ∧ arg.offset + arg.data.length ≤ UINT32_MAX

/-- **The offsets of every write.** -/
theorem write_offset_law (content : List UInt8) (iop : Iop) (buffer : List UInt8) (env : Env) :
    WriteLaw content iop buffer env := by
  obtain ⟨happend, hoffset⟩ := @refreshed_iop content iop env
  have hstart : startOffset content iop env =
      if (refreshed content iop env).1.append then ((refreshed content iop env).1.node.size : Int)
      else (refreshed content iop env).1.offset := by
    unfold startOffset
    rw [happend, hoffset]
  have hsent : ∀ arg, sentArg content iop buffer env = some arg →
      (refreshed content iop env).2 = true ∧ writeArg (refreshed content iop env).1 buffer = .ok arg := by
    intro arg h
    unfold sentArg at h
    simp only at h
    split at h
    · rename_i hok
      refine ⟨hok, ?_⟩
      cases hw : writeArg (refreshed content iop env).1 buffer with
      | error e =>
        rw [hw] at h
        cases h
      | ok a =>
        rw [hw] at h
        cases h
        rfl
    · cases h
  refine ⟨fun content' iop' n h => ?_, fun hbad => ?_, fun arg h => ?_⟩
  · rw [nfsFileWrite_eq] at h
    simp only at h
    split at h
    · rename_i hok
      cases hw : writeArg (refreshed content iop env).1 buffer with
      | error e =>
        rw [hw] at h
        cases h
      | ok arg =>
        rw [hw] at h
        obtain ⟨hcontent, hposition, hdata, hlen⟩ := transmit_ok h
        obtain ⟨harg, -, -, hself⟩ := writeArg_spec hw
        have hargData : arg.data = buffer.take n := by
          grind [writeArg]
        refine ⟨arg, ?_, harg.trans hstart.symm, hargData, by rw [hargData, hlen], by rw [hargData]; exact hcontent, ?_⟩
        · unfold sentArg
          simp only [hok, if_true, hw]
          rfl
        · intro hcase
          grind
    · cases h
  · rw [hstart] at hbad
    have herror : ∀ arg, writeArg (refreshed content iop env).1 buffer ≠ .ok arg := by
      intro arg h
      obtain ⟨hoff, hlt, -⟩ := writeArg_spec h
      omega
    constructor
    · refine eq_none_iff_forall_ne_some.mpr fun arg h => ?_
      exact herror arg (hsent arg h).2
    · rw [nfsFileWrite_eq]
      simp only
      split
      · cases hw : writeArg (refreshed content iop env).1 buffer with
        | error e => exact ⟨_, e, rfl⟩
        | ok arg => exact absurd hw (herror arg)
      · exact ⟨_, _, rfl⟩
  · obtain ⟨-, hw⟩ := hsent arg h
    obtain ⟨hoff, -, hend, -⟩ := writeArg_spec hw
    exact ⟨hoff.trans hstart.symm, hend⟩

/-- An append of one byte to five bytes leaves a descriptor that is at the start of the file behind its first byte;
    and of two bytes at the last offset of the protocol one is written. -/
theorem append_position_behind :
    nfsFileWrite [1, 2, 3, 4, 5] ⟨true, 0, ⟨5, 0⟩⟩ [6] (.at 0) = ([1, 2, 3, 4, 5, 6], ⟨true, 1, ⟨6, 0⟩⟩, .ok 1) ∧
    startOffset [1, 2, 3, 4, 5] ⟨true, 0, ⟨5, 0⟩⟩ (.at 0) = 5 ∧
    (nfsFileWrite [] ⟨false, 0xfffffffe, ⟨0, 0⟩⟩ [6, 7] (.at 0)).2.2 = .ok 1 := by
  refine ⟨by decide, by decide, ?_⟩
  rfl

/-! ## Reading -/

/-- The end of a `READ` call: data of the file, another status than `NFS_OK`, or no reply that can be decoded. -/
inductive ReadReply where
  | ok (data : { d : List UInt8 // d.length ≤ NFS_MAXDATA })
  | status
  | failed

def ReadReply.data : ReadReply → List UInt8
  | .ok d => d.val
  | _ => []

/-- One call of `nfs_file_read_chunk` with what it stored: `in - buffer`, `count`, `chunk` and the data. -/
structure Round where
  place : Nat
  count : Nat
  chunk : Nat
  data : List UInt8

/-- The calls, the value of `offset` at the end, and `rv` unless it is -1. -/
structure Reading where
  rounds : List Round
  offset : Nat
  rv : Option Nat

def Reading.after (round : Round) (r : Reading) : Reading := { r with rounds := round :: r.rounds }

/-- The loop of `nfs_file_read` on the replies of the server; there is no result if the loop has not ended with the
    last of them.  `word` is one more than the greatest `size_t`. -/
def readLoop (word : Nat) : List ReadReply → Nat → Nat → Nat → Nat → Option Reading
  | [], _, _, _, _ => none
  | reply :: replies, place, count, offset, rv =>
    let chunk := if count ≤ NFS_MAXDATA then count else NFS_MAXDATA
    match reply with
    | .ok data =>
      let done := data.val.length
      let round : Round := ⟨place, count, chunk, data.val⟩
      if 0 < done then
        let offset := (offset + done) % 2 ^ 32
        let count := (count + word - done) % word
        if 0 < count then (readLoop word replies (place + done) count offset (rv + done)).map (Reading.after round)
        else some ⟨[round], offset, some (rv + done)⟩
      else some ⟨[round], offset, some rv⟩
    | _ => some ⟨[], offset, none⟩

/-- The bytes that are asked for: the range does not go beyond the last offset of the protocol. -/
def askedCount (position : Nat) (count : Nat) : Nat :=
  if count > UINT32_MAX - position then UINT32_MAX - position else count

/-- `nfs_file_read`: the calls, `iop->offset` and the result. -/
def nfsFileRead (word : Nat) (position : Int) (count : Nat) (replies : List ReadReply) :
    Option (List Round × Int × Except Errno Nat) :=
  let offset := (position % 2 ^ 32).toNat
  if position < 0 then some ([], position, .error .einval)
  else if position ≥ UINT32_MAX then some ([], position, .error .efbig)
  else (readLoop word replies 0 (askedCount offset count) offset 0).map fun r =>
    match r.rv with
    | some rv => (r.rounds, if 0 < rv then (r.offset : Int) else position, .ok rv)
    | none => (r.rounds, position, .error .server)

/-- No reply carries more than what was asked for, up to the one that ends the loop. -/
def Honest : Nat → List ReadReply → Prop
  | _, [] => True
  | count, .ok data :: replies =>
    data.val.length ≤ count ∧ (0 < data.val.length → data.val.length < count →
      Honest (count - data.val.length) replies)
  | _, _ :: _ => True

instance Honest.decidable : ∀ count replies, Decidable (Honest count replies)
  | _, [] => inferInstanceAs (Decidable True)
  | count, .ok data :: replies =>
    have : Decidable (Honest (count - data.val.length) replies) := Honest.decidable _ _
    inferInstanceAs (Decidable (_ ∧ (_ → _ → _)))
  | _, .status :: _ => inferInstanceAs (Decidable True)
  | _, .failed :: _ => inferInstanceAs (Decidable True)

/-- The data of the calls stands in the buffer without gaps, from `place` on. -/
def Contiguous : Nat → List Round → Prop
  | _, [] => True
  | place, x :: xs => x.place = place ∧ Contiguous (place + x.data.length) xs

def stored (rounds : List Round) : Nat := (rounds.map fun x => x.data.length).sum

structure ReadWithin (position : Int) (count : Nat) (replies : List ReadReply)
    (r : List Round × Int × Except Errno Nat) : Prop where
  within : ∀ x ∈ r.1, x.place + x.data.length ≤ count
  counter : ∀ x ∈ r.1, x.data.length ≤ x.count
  success : ∀ n, r.2.2 = .ok n → n = stored r.1 ∧ r.2.1 = position + n ∧ Contiguous 0 r.1 ∧
    r.1.map Round.data = (replies.take r.1.length).map ReadReply.data

section Read

variable {word : Nat}

theorem stored_cons (x : Round) (xs : List Round) : stored (x :: xs) = x.data.length + stored xs := sum_cons

theorem counter_eq {count done : Nat} (hcount : count < word) (h : done ≤ count) :
    (count + word - done) % word = count - done := by
  rw [show count + word - done = count - done + word by omega, Nat.add_mod_right, Nat.mod_eq_of_lt (by omega)]

variable {replies : List ReadReply} {place count offset rv : Nat}

theorem readLoop_honest {r : Reading}
    (hcount : count < word) (hoffset : offset + count < 2 ^ 32) (hh : Honest count replies)
    (h : readLoop word replies place count offset rv = some r) :
    (∀ x ∈ r.rounds, x.place + x.data.length ≤ place + count ∧ x.data.length ≤ x.count) ∧
    Contiguous place r.rounds ∧
    ∀ n, r.rv = some n → n = rv + stored r.rounds ∧ r.offset = offset + stored r.rounds ∧
      r.rounds.map Round.data = (replies.take r.rounds.length).map ReadReply.data := by
  induction replies generalizing place count offset rv r with
  | nil => cases h
  | cons reply replies ih =>
    cases reply with
    | status =>
      cases h
      exact ⟨forall_mem_nil _, trivial, nofun⟩
    | failed =>
      cases h
      exact ⟨forall_mem_nil _, trivial, nofun⟩
    | ok data =>
      obtain ⟨hle, hrest⟩ := hh
      simp only [readLoop] at h
      split at h
      · rename_i hdone
        have hmod := counter_eq hcount hle
        have hoff : (offset + data.val.length) % 2 ^ 32 = offset + data.val.length := Nat.mod_eq_of_lt (by omega)
        rw [hmod, hoff] at h
        split at h
        · rename_i hmore
          obtain ⟨q, hq, rfl⟩ := map_eq_some_iff.mp h
          obtain ⟨hwithin, hcont, hsuccess⟩ := ih (by omega) (by omega) (hrest hdone (by omega)) hq
          refine ⟨?_, ⟨rfl, hcont⟩, ?_⟩
          · rintro x (_ | ⟨_, hx⟩)
            · exact ⟨by show place + data.val.length ≤ _; omega, hle⟩
            · obtain ⟨hx1, hx2⟩ := hwithin x hx
              exact ⟨by omega, hx2⟩
          · intro n hn
            obtain ⟨hn, ho, hmap⟩ := hsuccess n hn
            refine ⟨?_, ?_, ?_⟩
            · show n = rv + stored (_ :: q.rounds)
              rw [stored_cons]
              show n = rv + (data.val.length + stored q.rounds)
              omega
            · show q.offset = offset + stored (_ :: q.rounds)
              rw [stored_cons]
              show q.offset = offset + (data.val.length + stored q.rounds)
              omega
            · show data.val :: q.rounds.map Round.data = _
              rw [hmap]
              rfl
        · rename_i hlast
          cases h
          refine ⟨?_, ⟨rfl, trivial⟩, ?_⟩
          · rintro x (_ | ⟨_, hx⟩)
            · exact ⟨by show place + data.val.length ≤ _; omega, hle⟩
            · cases hx
          · rintro n ⟨⟩
            exact ⟨rfl, rfl, rfl⟩
      · rename_i hdone
        cases h
        have hzero : data.val.length = 0 := by omega
        refine ⟨?_, ⟨rfl, trivial⟩, ?_⟩
        · rintro x (_ | ⟨_, hx⟩)
          · exact ⟨by show place + data.val.length ≤ _; omega, hle⟩
          · cases hx
        · rintro n ⟨⟩
          refine ⟨?_, ?_, rfl⟩
          · show rv = rv + data.val.length
            omega
          · show offset = offset + data.val.length
            omega

theorem readLoop_underflow {r : Reading} (hcount : count < word) (hh : ¬ Honest count replies)
    (h : readLoop word replies place count offset rv = some r) : ∃ x ∈ r.rounds, x.count < x.data.length := by
  induction replies generalizing place count offset rv r with
  | nil => cases h
  | cons reply replies ih =>
    cases reply with
    | status => exact absurd trivial hh
    | failed => exact absurd trivial hh
    | ok data =>
      simp only [readLoop] at h
      by_cases hle : data.val.length ≤ count
      · have hrest : 0 < data.val.length ∧ data.val.length < count ∧
            ¬ Honest (count - data.val.length) replies := by
          by_contra hno
          refine hh ⟨hle, fun hpos hlt => ?_⟩
          by_contra hbad
          exact hno ⟨hpos, hlt, hbad⟩
        obtain ⟨hpos, hlt, hbad⟩ := hrest
        have hmod := counter_eq hcount hle
        rw [if_pos hpos, hmod, if_pos (by omega)] at h
        obtain ⟨q, hq, rfl⟩ := map_eq_some_iff.mp h
        obtain ⟨x, hx, hover⟩ := ih (by omega) hbad hq
        exact ⟨x, mem_cons_of_mem _ hx, hover⟩
      · rw [if_pos (by omega)] at h
        split at h
        · obtain ⟨q, -, rfl⟩ := map_eq_some_iff.mp h
          exact ⟨_, mem_cons_self, Nat.lt_of_not_le hle⟩
        · cases h
          exact ⟨_, mem_cons_self, Nat.lt_of_not_le hle⟩

/-- The loop ends when each reply carries what was asked for: after at most one call for each byte. -/
theorem readLoop_isSome (hcount : count < word)
    (hh : Honest count replies) (hlen : count < replies.length) :
    (readLoop word replies place count offset rv).isSome = true := by
  induction replies generalizing place count offset rv with
  | nil => exact absurd hlen (Nat.not_lt_zero _)
  | cons reply replies ih =>
    cases reply with
    | status => rfl
    | failed => rfl
    | ok data =>
      obtain ⟨hle, hrest⟩ := hh
      simp only [readLoop]
      split
      · rename_i hpos
        have hmod := counter_eq hcount hle
        rw [hmod]
        split
        · rename_i hmore
          rw [isSome_map]
          rw [length_cons] at hlen
          exact ih (by omega) (hrest hpos (by omega)) (by omega)
        · rfl
      · rfl

/-- **A read stays within its request exactly on honest replies.** -/
theorem nfsFileRead_iff {position : Int} {count : Nat} (hcount : count < word)
    {r : List Round × Int × Except Errno Nat} (h : nfsFileRead word position count replies = some r) :
    ReadWithin position count replies r ↔
      (0 ≤ position ∧ position < UINT32_MAX → Honest (askedCount position.toNat count) replies) := by
  simp only [nfsFileRead] at h
  split at h
  · rename_i hneg
    cases h
    refine ⟨fun _ hpos => absurd hpos.1 (by omega), fun _ => ⟨forall_mem_nil _, forall_mem_nil _, nofun⟩⟩
  · split at h
    · rename_i hbig
      cases h
      refine ⟨fun _ hpos => absurd hpos.2 (by omega), fun _ => ⟨forall_mem_nil _, forall_mem_nil _, nofun⟩⟩
    · rename_i hneg hbig
      have hmax : (UINT32_MAX : Int) < 2 ^ 32 := by decide
      have hpos : (position % 2 ^ 32).toNat = position.toNat := by
        rw [Int.emod_eq_of_lt (by omega) (by omega)]
      rw [hpos] at h
      have hasked : askedCount position.toNat count ≤ count ∧
          position.toNat + askedCount position.toNat count < 2 ^ 32 := by
        unfold askedCount
        split
        · omega
        · omega
      obtain ⟨q, hq, rfl⟩ := map_eq_some_iff.mp h
      constructor
      · intro hw _
        by_contra hdishonest
        obtain ⟨x, hx, hover⟩ := readLoop_underflow (by omega) hdishonest hq
        have hcounter := hw.counter x (by split <;> exact hx)
        omega
      · intro hhonest
        obtain ⟨hwithin, hcont, hsuccess⟩ :=
          readLoop_honest (by omega) hasked.2 (hhonest ⟨by omega, by omega⟩) hq
        have hrounds : ∀ x ∈ q.rounds, x.place + x.data.length ≤ count ∧ x.data.length ≤ x.count := by
          intro x hx
          obtain ⟨h1, h2⟩ := hwithin x hx
          exact ⟨by omega, h2⟩
        cases hrv : q.rv with
        | none => exact ⟨fun x hx => (hrounds x hx).1, fun x hx => (hrounds x hx).2, nofun⟩
        | some rv =>
          refine ⟨fun x hx => (hrounds x hx).1, fun x hx => (hrounds x hx).2, ?_⟩
          rintro n ⟨⟩
          grind

end Read

/-! ## Reading a link -/

/-- The length of the string in the reply to a `READLINK` call with the status `NFS_OK`. -/
def linkSize (reply : List UInt8) : Option (Nat × List UInt8) :=
  match Xdr.getLong reply with
  | some (0, bs) => Xdr.getLong bs
  | _ => none

/-- What `xdr_string` stores through `rr.strbuf.buf` for a reply: the terminator, and the string if the reply holds
    all of it.  `rr.strbuf.max` is an `u_int`. -/
def nfsReadlinkWithNode (word len : Nat) (reply : List UInt8) : List (Nat × List UInt8) :=
  let max := (len + word - 1) % word % 2 ^ 32
  match linkSize reply with
  | none => []
  | some (size, bs) =>
    if max < size then []
    else if (size + 1) % 2 ^ 32 = 0 then []
    else
      match Xdr.getBytes size bs with
      | none => [(size, [0])]
      | some (s, _) => [(size, [0]), (0, s)]

def LinkWithin (len : Nat) (stores : List (Nat × List UInt8)) : Prop := ∀ x ∈ stores, x.1 + x.2.length ≤ len

/-- The width of `size_t`. -/
structure SizeT where
  bits : Nat
  ge : 32 ≤ bits

/-- One more than the greatest `size_t`. -/
def SizeT.word (T : SizeT) : Nat := 2 ^ T.bits

/-- `rr.strbuf.max`: the length without the terminator, which wraps around for an empty buffer. -/
theorem max_eq (T : SizeT) {len : Nat} (hlen : len < T.word) :
    (len = 0 → (len + T.word - 1) % T.word % 2 ^ 32 = 2 ^ 32 - 1) ∧
    (0 < len → (len + T.word - 1) % T.word % 2 ^ 32 ≤ len - 1) := by
  obtain ⟨q, hq⟩ : 2 ^ 32 ∣ T.word := Nat.pow_dvd_pow 2 T.ge
  constructor
  · rintro rfl
    rw [Nat.zero_add, Nat.mod_eq_of_lt (show T.word - 1 < T.word by omega), hq]
    omega
  · intro hpos
    rw [show len + T.word - 1 = len - 1 + T.word by omega, Nat.add_mod_right,
      Nat.mod_eq_of_lt (show len - 1 < T.word by omega)]
    exact Nat.mod_le _ _

/-- **The buffer of a link is kept exactly if it has room for the terminator**, or the reply has no string that can
    be stored. -/
theorem nfsReadlink_iff (T : SizeT) {len : Nat} (hlen : len < T.word) (reply : List UInt8) :
    LinkWithin len (nfsReadlinkWithNode T.word len reply) ↔
      0 < len ∨ ∀ size bs, linkSize reply = some (size, bs) → (size + 1) % 2 ^ 32 = 0 ∨ 2 ^ 32 ≤ size := by
  obtain ⟨hzero, hpos⟩ := max_eq T hlen
  unfold nfsReadlinkWithNode
  cases hlink : linkSize reply with
  | none => exact ⟨fun _ => .inr nofun, fun _ => forall_mem_nil _⟩
  | some r =>
    obtain ⟨size, bs⟩ := r
    simp only
    constructor
    · intro hw
      rcases Nat.eq_zero_or_pos len with hlen0 | hlenpos
      · refine .inr ?_
        rintro _ _ ⟨⟩
        by_contra hno
        obtain ⟨hsize, hsmall⟩ := not_or.mp hno
        rw [hzero hlen0, if_neg (by omega), if_neg hsize] at hw
        have hterm : (size, [(0 : UInt8)]) ∈ (match Xdr.getBytes size bs with
            | none => [(size, [0])]
            | some (s, _) => [(size, [0]), (0, s)]) := by
          cases Xdr.getBytes size bs <;> exact mem_cons_self
        have hle : size + 1 ≤ len := hw _ hterm
        omega
      · exact .inl hlenpos
    · intro hcase
      split
      · exact forall_mem_nil _
      · rename_i hle
        split
        · exact forall_mem_nil _
        · rename_i hsize
          have hfits : size + 1 ≤ len := by
            grind
          cases hbytes : Xdr.getBytes size bs with
          | none =>
            rintro x (_ | ⟨_, hx⟩)
            · exact hfits
            · cases hx
          | some r =>
            obtain ⟨s, rest⟩ := r
            rintro x (_ | ⟨_, _ | ⟨_, hx⟩⟩)
            · exact hfits
            · show 0 + s.length ≤ len
              rw [Xdr.getBytes_length hbytes]
              omega
            · cases hx

/-- **A read and a readlink store within the buffer of the caller**: a read exactly on replies that carry no more
    than what was asked for, on which it also ends; a readlink exactly into a buffer that is not empty, or on
    replies without a string to store. -/
theorem reads_within_iff (T : SizeT) (position : Int) (count len : Fin T.word) :
    (∀ replies r, nfsFileRead T.word position count replies = some r →
      (ReadWithin position count replies r ↔
        (0 ≤ position ∧ position < UINT32_MAX → Honest (askedCount position.toNat count) replies))) ∧
    (∀ replies, 0 ≤ position → position < UINT32_MAX → Honest (askedCount position.toNat count) replies →
      askedCount position.toNat count < replies.length →
      (nfsFileRead T.word position count replies).isSome = true) ∧
    ∀ reply, LinkWithin len (nfsReadlinkWithNode T.word len reply) ↔
      0 < len.val ∨ ∀ size bs, linkSize reply = some (size, bs) → (size + 1) % 2 ^ 32 = 0 ∨ 2 ^ 32 ≤ size := by
  refine ⟨fun replies r h => nfsFileRead_iff count.isLt h, fun replies hlo hhi hhonest hlen => ?_,
    nfsReadlink_iff T len.isLt⟩
  have hmax : (UINT32_MAX : Int) < 2 ^ 32 := by decide
  have hpos : (position % 2 ^ 32).toNat = position.toNat := by
    rw [Int.emod_eq_of_lt hlo (by omega)]
  have hasked : askedCount position.toNat count < T.word := by
    have := count.isLt
    unfold askedCount
    split
    · omega
    · omega
  simp only [nfsFileRead]
  rw [if_neg (by omega), if_neg (by omega), isSome_map, hpos]
  exact readLoop_isSome hasked hhonest hlen

/-- A read of ten bytes at the offset 100 is answered with eight bytes and with two. -/
theorem reads_within_iff_twoReplies :
    ReadWithin 100 10 [.ok ⟨[1, 2, 3, 4, 5, 6, 7, 8], by decide⟩, .ok ⟨[9, 10], by decide⟩]
      ([⟨0, 10, 10, [1, 2, 3, 4, 5, 6, 7, 8]⟩, ⟨8, 2, 2, [9, 10]⟩], 110, .ok 10) := by
  have hlt : 10 < SizeT.word ⟨32, Nat.le_refl _⟩ := by unfold SizeT.word; decide
  have hrun : nfsFileRead (2 ^ 32) 100 10 [.ok ⟨[1, 2, 3, 4, 5, 6, 7, 8], by decide⟩, .ok ⟨[9, 10], by decide⟩] =
      some ([⟨0, 10, 10, [1, 2, 3, 4, 5, 6, 7, 8]⟩, ⟨8, 2, 2, [9, 10]⟩], 110, .ok 10) := rfl
  have hhonest : Honest (askedCount 100 10)
      [.ok ⟨[1, 2, 3, 4, 5, 6, 7, 8], by decide⟩, .ok ⟨[9, 10], by decide⟩] := by decide
  exact ((reads_within_iff ⟨32, Nat.le_refl _⟩ 100 ⟨10, hlt⟩ ⟨10, hlt⟩).1 _ _ hrun).mpr fun _ => hhonest

/-- A server answers a call for two bytes with four, and a link is read into an empty buffer. -/
theorem reads_overflow :
    nfsFileRead (2 ^ 32) 0 2 [.ok ⟨[1, 2, 3, 4], by decide⟩, .ok ⟨[], by decide⟩] =
      some ([⟨0, 2, 2, [1, 2, 3, 4]⟩, ⟨4, 0xfffffffe, NFS_MAXDATA, []⟩], 4, .ok 4) ∧
    (∀ replies, ¬ ReadWithin 0 2 replies
      ([⟨0, 2, 2, [1, 2, 3, 4]⟩, ⟨4, 0xfffffffe, NFS_MAXDATA, []⟩], 4, .ok 4)) ∧
    ¬ LinkWithin 0 (nfsReadlinkWithNode (2 ^ 32) 0 ([0, 0, 0, 0] ++ Xdr.putString [47])) := by
  refine ⟨rfl, fun _ h => ?_, fun h => ?_⟩
  · exact absurd (h.within ⟨0, 2, 2, [1, 2, 3, 4]⟩ mem_cons_self) (by decide)
  · exact absurd (h (1, [0]) (by decide)) (by decide)

end RtemsLibbsd.Nfs

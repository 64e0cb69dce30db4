import Mathlib.Algebra.Group.Nat.Defs
import RtemsLibbsd.Transition

/-!
# Appends to a file of an NFS

Model of `nfs_file_write`, `updateAttr` and `nfsNodeClone` of `rtemsbsd/nfsclient/nfs.c` for the
descriptors that one client has opened on one file.  Each location has a node of its own with the
attributes the server sent last (`Node.size`) and the time they were received (`Node.age`).

* The server executes the calls of version 2 of the protocol: `GETATTR` and `WRITE` answer with the
  attributes of the file, `WRITE` puts the data at the offset it is given.  The outcome of a
  call and the readings of the clock are chosen by the actions.
* `nfsFileWrite` with the attributes as they are: an append goes to the size in the node,
  which is fetched again if it is older than `CONFIG_ATTR_LIFETIME`.
* **`appends_concatenate`** — the content is the concatenation of the data of the successful writes
  if each of them finds the current size in its node or has it fetched; and a write that does not
  puts its data somewhere else.

Within the lifetime of the attributes a second descriptor writes over the data of the first one
(`twoRun_overwrites`).
-/

namespace RtemsLibbsd.Nfs

open List RtemsLibbsd.Transition

abbrev NFS_MAXDATA : Nat := 8192

def UINT32_MAX : Nat := 0xffffffff

/-- `CONFIG_ATTR_LIFETIME`, in seconds. -/
abbrev CONFIG_ATTR_LIFETIME : Nat := 10

/-- How an `nfscall` ends: with a reply that has the status `NFS_OK` or another one, or without a
    reply, whether or not the server has executed the call. -/
inductive CallResult where
  | ok
  | status
  | failed (executed : Bool)
  deriving DecidableEq

/-- `errno` of a failed write; `server` stands for the values of `nfscall` and
    `nfsEvaluateStatus`. -/
inductive Errno where
  | efbig
  | einval
  | server
  deriving DecidableEq

/-- The attributes of an `NfsNode` and their `TimeStamp`. -/
structure Node where
  size : Nat
  age : Nat
  deriving DecidableEq

/-- `rtems_libio_t`: `LIBIO_FLAGS_APPEND`, the offset and the node. -/
structure Iop where
  append : Bool
  offset : Int
  node : Node
  deriving DecidableEq

/-- `nowSeconds() - node->age > CONFIG_ATTR_LIFETIME`, on 32-bit time stamps. -/
def Node.old (node : Node) (now : Nat) : Bool :=
  CONFIG_ATTR_LIFETIME < (now % 2 ^ 32 + 2 ^ 32 - node.age % 2 ^ 32) % 2 ^ 32

/-- `updateAttr` for a file of `size` bytes; `now` and `later` are the readings of the clock. -/
def updateAttr (size : Nat) (node : Node) (force : Bool) (getattr : CallResult) (now later : Nat) :
    Node × Bool :=
  if force || node.old now then
    match getattr with
    | .ok => (⟨size, later⟩, true)
    | _ => (node, false)
  else (node, true)

/-- `WRITE` at the server; a gap behind the end of the file is filled with zeros. -/
def serverWrite (content : List UInt8) (offset : Nat) (data : List UInt8) : List UInt8 :=
  if data = [] then content
  else
    content.take offset ++ List.replicate (offset - content.length) 0 ++ data ++
      content.drop (offset + data.length)

/-- The outcome of the calls of a write, and the readings of the clock: before and after the
    `GETATTR` of an append, after the `WRITE`, and after the `GETATTR` that follows an error. -/
structure Env where
  getattr : CallResult
  write : CallResult
  recover : CallResult
  checked : Nat
  fetched : Nat
  written : Nat
  recovered : Nat

/-- `nfs_file_write` from the computation of the last argument on. -/
def transmit (content : List UInt8) (iop : Iop) (offset : Nat) (buffer : List UInt8) (env : Env) :
    List UInt8 × Iop × Except Errno Nat :=
  let data := buffer.take (min (min buffer.length NFS_MAXDATA) (UINT32_MAX - offset))
  match env.write with
  | .ok =>
    let content' := serverWrite content offset data
    (content', { iop with offset := iop.offset + data.length, node := ⟨content'.length, env.written⟩ },
      .ok data.length)
  | .status =>
    let (node, _) := updateAttr content.length iop.node true env.recover env.written env.recovered
    (content, { iop with node := node }, .error .server)
  | .failed executed =>
    (if executed then serverWrite content offset data else content, iop, .error .server)

/-- `nfs_file_write`: the content of the file, the descriptor and the result. -/
def nfsFileWrite (content : List UInt8) (iop : Iop) (buffer : List UInt8) (env : Env) :
    List UInt8 × Iop × Except Errno Nat :=
  if iop.append then
    let (node, ok) := updateAttr content.length iop.node false env.getattr env.checked env.fetched
    if ok then
      if node.size ≥ UINT32_MAX then (content, { iop with node := node }, .error .efbig)
      else transmit content { iop with node := node } node.size buffer env
    else (content, iop, .error .server)
  else if iop.offset < 0 then (content, iop, .error .einval)
  else if iop.offset ≥ UINT32_MAX then (content, iop, .error .efbig)
  else transmit content iop iop.offset.toNat buffer env

/-- `nfsNodeClone`; there is no node if the attributes are old and cannot be fetched. -/
def nfsNodeClone (size : Nat) (node : Node) (getattr : CallResult) (now later : Nat) : Option Node :=
  let (node, ok) := updateAttr size node false getattr now later
  if ok then some node else none

/-- The file at the server, the descriptors and the data of the successful writes, which the code
    does not read. -/
structure Files where
  content : List UInt8
  iop : Nat → Option Iop
  written : List UInt8

inductive FileAct where
  | openFile (fd : Nat) (append : Bool) (now : Nat)
  | dup (fd new : Nat) (getattr : CallResult) (now later : Nat)
  | fstat (fd : Nat) (getattr : CallResult) (now later : Nat)
  | close (fd : Nat)
  | write (fd : Nat) (buffer : List UInt8) (env : Env)

def Files.setIop (s : Files) (fd : Nat) (iop : Option Iop) : Files :=
  { s with iop := fun n => if n = fd then iop else s.iop n }

/-- One operation.  The path lookup of `open` fetches the attributes (`nfs_search_in_directory`). -/
def fileStep (s : Files) : FileAct → Option Files
  | .openFile fd append now =>
    match s.iop fd with
    | none => some (s.setIop fd (some ⟨append, 0, ⟨s.content.length, now⟩⟩))
    | some _ => none
  | .dup fd new getattr now later =>
    match s.iop fd, s.iop new with
    | some iop, none =>
      some (s.setIop new ((nfsNodeClone s.content.length iop.node getattr now later).map fun node =>
        { iop with node := node }))
    | _, _ => none
  | .fstat fd getattr now later =>
    (s.iop fd).map fun iop =>
      s.setIop fd (some { iop with
        node := (updateAttr s.content.length iop.node false getattr now later).1 })
  | .close fd => (s.iop fd).map fun _ => s.setIop fd none
  | .write fd buffer env =>
    (s.iop fd).map fun iop =>
      let (content, iop', result) := nfsFileWrite s.content iop buffer env
      { s.setIop fd (some iop') with
        content := content
        written := match result with
          | .ok n => s.written ++ buffer.take n
          | .error _ => s.written }

def initFiles (content : List UInt8) : Files := ⟨content, fun _ => none, []⟩

/-- The steps for which appends go to the end of the file: descriptors are opened with `O_APPEND`,
    no write takes effect that returns an error, and a write finds the size of the file in its
    node or has it fetched. -/
def Current (s : Files) : FileAct → Prop
  | .openFile _ append _ => append = true
  | .write fd _ env => ∀ iop ∈ s.iop fd, env.write ≠ .failed true ∧
      (iop.node.old env.checked = true ∨ iop.node.size = s.content.length)
  | _ => True

instance (s : Files) (a : FileAct) : Decidable (Current s a) := by
  unfold Current
  split <;> infer_instance

section Server

variable {content data : List UInt8} {offset : Nat}

theorem serverWrite_end : serverWrite content content.length data = content ++ data := by
  unfold serverWrite
  split
  · rename_i h
    simp [h]
  · simp

theorem length_serverWrite (h : data ≠ []) :
    (serverWrite content offset data).length = max content.length (offset + data.length) := by
  unfold serverWrite
  rw [if_neg h]
  simp only [length_append, length_take, length_replicate, length_drop]
  omega

theorem serverWrite_append_iff (h : data ≠ []) :
    serverWrite content offset data = content ++ data ↔ offset = content.length := by
  constructor
  · intro heq
    have hlen := congrArg List.length heq
    rw [length_serverWrite h, length_append] at hlen
    have := length_pos_iff.mpr h
    omega
  · rintro rfl
    exact serverWrite_end

end Server

section Writes

variable {content : List UInt8} {iop iop' : Iop} {buffer content' : List UInt8} {env : Env}

/-- What a write comes to: the data that was accepted goes to `offset`, or nothing happens, or the
    server has executed a call without a reply. -/
theorem transmit_spec {offset : Nat} {result : Except Errno Nat}
    (h : transmit content iop offset buffer env = (content', iop', result)) :
    iop'.append = iop.append ∧
    ((∃ n, result = .ok n ∧ n ≤ buffer.length ∧
        content' = serverWrite content offset (buffer.take n)) ∨
     (∃ e, result = .error e ∧ (env.write ≠ .failed true → content' = content))) := by
  unfold transmit at h
  split at h
  · cases h
    refine ⟨rfl, .inl ⟨_, rfl, ?_, ?_⟩⟩
    · exact length_take_le' _ _
    · rw [length_take]
      congr 1
      rw [take_eq_take_iff]
      omega
  · cases h
    exact ⟨rfl, .inr ⟨_, rfl, fun _ => rfl⟩⟩
  · rename_i executed hw
    cases h
    refine ⟨rfl, .inr ⟨_, rfl, ?_⟩⟩
    intro hne
    cases executed with
    | true => exact absurd hw hne
    | false => rfl

theorem updateAttr_size {size : Nat} {node node' : Node} {getattr : CallResult} {now later : Nat}
    (h : updateAttr size node false getattr now later = (node', true)) :
    node'.size = if node.old now then size else node.size := by
  unfold updateAttr at h
  simp only [Bool.false_or] at h
  split at h
  · rename_i hold
    rw [if_pos hold]
    split at h
    · cases h
      rfl
    · cases h
  · rename_i hold
    rw [if_neg hold]
    cases h
    rfl

/-- **What an append comes to.** -/
theorem append_spec {result : Except Errno Nat} (happ : iop.append = true)
    (h : nfsFileWrite content iop buffer env = (content', iop', result)) :
    iop'.append = true ∧
    ((∃ n, result = .ok n ∧ n ≤ buffer.length ∧ content' = serverWrite content
        (if iop.node.old env.checked then content.length else iop.node.size) (buffer.take n)) ∨
     (∃ e, result = .error e ∧ (env.write ≠ .failed true → content' = content))) := by
  unfold nfsFileWrite at h
  rw [if_pos happ] at h
  split at h
  rename_i node ok hu
  split at h
  · rename_i hok
    subst hok
    have hsize := updateAttr_size hu
    split at h
    · cases h
      exact ⟨happ, .inr ⟨_, rfl, fun _ => rfl⟩⟩
    · obtain ⟨hsame, hcase⟩ := transmit_spec h
      rw [hsize] at hcase
      exact ⟨hsame.trans happ, hcase⟩
  · cases h
    exact ⟨happ, .inr ⟨_, rfl, fun _ => rfl⟩⟩

/-- A successful append of some data goes to the end of the file exactly if the attributes are
    old or have the size of the file. -/
theorem append_extends_iff {n : Nat} (happ : iop.append = true)
    (h : nfsFileWrite content iop buffer env = (content', iop', .ok n)) (hn : 0 < n) :
    content' = content ++ buffer.take n ↔
      iop.node.old env.checked = true ∨ iop.node.size = content.length := by
  obtain ⟨-, ⟨m, hm, hle, hc⟩ | ⟨e, he, -⟩⟩ := append_spec happ h
  · cases hm
    have hdata : buffer.take n ≠ [] := by
      intro hnil
      have hlen := congrArg List.length hnil
      rw [length_take, length_nil] at hlen
      omega
    rw [hc, serverWrite_append_iff hdata]
    cases iop.node.old env.checked with
    | true => simp
    | false => simp
  · cases he

end Writes

/-- The content is what was written, and all descriptors append. -/
structure Appended (initial : List UInt8) (s : Files) : Prop where
  content : s.content = initial ++ s.written
  append : ∀ fd, ∀ iop ∈ s.iop fd, iop.append = true

theorem appended_setIop {initial : List UInt8} {s : Files} (h : Appended initial s) (fd : Nat)
    {new : Option Iop} (hnew : ∀ iop ∈ new, iop.append = true) : Appended initial (s.setIop fd new) := by
  refine ⟨h.content, ?_⟩
  intro n iop hiop
  unfold Files.setIop at hiop
  simp only at hiop
  split at hiop
  · exact hnew iop hiop
  · exact h.append n iop hiop

theorem Appended.step {initial : List UInt8} {s t : Files} {a : FileAct} (h : Appended initial s)
    (hk : Current s a) (hstep : fileStep s a = some t) : Appended initial t := by
  cases a with
  | openFile fd append now =>
    simp only [fileStep] at hstep
    split at hstep
    · cases hstep
      refine appended_setIop h fd ?_
      rintro iop ⟨⟩
      exact hk
    · cases hstep
  | dup fd new getattr now later =>
    simp only [fileStep] at hstep
    split at hstep
    · rename_i iop hiop _
      cases hstep
      refine appended_setIop h new ?_
      intro iop' hiop'
      obtain ⟨node, -, rfl⟩ := Option.map_eq_some_iff.mp hiop'
      exact h.append fd iop hiop
    · cases hstep
  | fstat fd getattr now later =>
    obtain ⟨iop, hiop, rfl⟩ := Option.map_eq_some_iff.mp hstep
    refine appended_setIop h fd ?_
    rintro iop' ⟨⟩
    exact h.append fd iop hiop
  | close fd =>
    obtain ⟨iop, hiop, rfl⟩ := Option.map_eq_some_iff.mp hstep
    exact appended_setIop h fd (fun _ h => nomatch h)
  | write fd buffer env =>
    obtain ⟨iop, hiop, rfl⟩ := Option.map_eq_some_iff.mp hstep
    obtain ⟨hexec, hsize⟩ := hk iop hiop
    cases hw : nfsFileWrite s.content iop buffer env with
    | mk content' rest =>
      obtain ⟨iop', result⟩ := rest
      obtain ⟨happ, hcase⟩ := append_spec (h.append fd iop hiop) hw
      have hkeep := @appended_setIop _ _ h fd (some iop') (by rintro _ ⟨⟩; exact happ)
      rcases hcase with ⟨n, rfl, -, hc⟩ | ⟨e, rfl, hc⟩
      · refine ⟨?_, hkeep.append⟩
        have hoffset : (if iop.node.old env.checked then s.content.length else iop.node.size)
            = s.content.length := by
          split
          · rfl
          · rename_i hold
            exact hsize.resolve_left hold
        rw [hoffset, serverWrite_end] at hc
        show content' = initial ++ (s.written ++ buffer.take n)
        simp [hc, h.content]
      · refine ⟨?_, hkeep.append⟩
        show content' = initial ++ s.written
        rw [hc hexec, h.content]

/-- **The content is the concatenation of the data written**, in the order of the calls, in every
    run in which each append has the current size in its node or fetches it; an append that does
    not have it does not go to the end of the file. -/
theorem appends_concatenate (initial : List UInt8) :
    (∀ acts s, StepsMeet fileStep Current (initFiles initial) acts →
      run fileStep (initFiles initial) acts = some s → s.content = initial ++ s.written) ∧
    ∀ (content : List UInt8) (iop : Iop) (buffer : List UInt8) (env : Env) (content' : List UInt8)
      (iop' : Iop) (n : Nat), iop.append = true →
      nfsFileWrite content iop buffer env = (content', iop', .ok n) → 0 < n →
      (content' = content ++ buffer.take n ↔
        iop.node.old env.checked = true ∨ iop.node.size = content.length) := by
  constructor
  · intro acts s hmeet hrun
    have hinit : Appended initial (initFiles initial) :=
      ⟨(append_nil initial).symm, fun _ _ h => nomatch h⟩
    exact (run_invariant_of_meet (fun _ _ _ h hk hst => h.step hk hst) acts _ s hinit hmeet hrun).content
  · intro content iop buffer env content' iop' n happ h hn
    exact append_extends_iff happ h hn

/-- Calls that succeed, at the time `now`. -/
def Env.at (now : Nat) : Env := ⟨.ok, .ok, .ok, now, now, now, now⟩

/-- Two descriptors, opened at the same time; the second writes when its attributes are old, the
    first again when its own are. -/
def turnsRun : List FileAct :=
  [.openFile 3 true 100, .openFile 4 true 100, .write 3 [1, 2] (.at 101), .write 3 [3] (.at 102),
   .write 4 [4, 5] (.at 111), .write 3 [6] (.at 113)]

theorem appends_concatenate_turnsRun :
    ∃ s, run fileStep (initFiles [0]) turnsRun = some s ∧ s.written = [1, 2, 3, 4, 5, 6] ∧
      s.content = [0] ++ s.written :=
  ⟨_, rfl, by decide, (appends_concatenate [0]).1 turnsRun _ (by decide) rfl⟩

/-- The second descriptor writes within the lifetime of its attributes. -/
def twoRun : List FileAct :=
  [.openFile 3 true 100, .openFile 4 true 100, .write 3 [1, 2] (.at 101), .write 4 [3] (.at 102)]

/-- Both writes are successful and the second puts its data over the data of the first. -/
theorem twoRun_overwrites :
    ∃ s, run fileStep (initFiles []) twoRun = some s ∧ s.written = [1, 2, 3] ∧ s.content = [3, 2] :=
  ⟨_, rfl, by decide, by decide⟩

end RtemsLibbsd.Nfs

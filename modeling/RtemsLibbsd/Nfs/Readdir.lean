import Mathlib.Data.List.TakeWhile
import RtemsLibbsd.Nfs.Directory
import RtemsLibbsd.Transition

/-!
# Reading a whole directory

The reads of one open directory, from `nfs_dir_open` on.

* `ServerDirectory` — the entries of the server with their cookies; the cookie of an entry is the position behind it.
  `reply` — any part of the entries behind a position, and the end of the directory if the part reaches it.
* `Session` — the open directory and what the calls have answered so far.
* `Lossless` — what was read up to the first 0 is the directory, or its beginning as long as there was no 0.

Principal result: `lossless_iff`.  A read that stores nothing answers 0, which is the end of the directory for its caller,
also if only the buffer was too small for the next entry: `count & ~(DIRENT_HEADER_SIZE - 1)` loses more than a remainder
if `DIRENT_HEADER_SIZE` is no power of two.
-/

namespace RtemsLibbsd.Nfs.Directory

open List RtemsLibbsd.Xdr RtemsLibbsd.Transition

/-! ## The server -/

def startCookie : List UInt8 := List.replicate NFS_COOKIESIZE 0

structure WireEntry.WellFormed (e : WireEntry) : Prop where
  fileid_lt : e.fileid < 2 ^ 32
  name_le : e.name.length ≤ NFS_MAXNAMLEN
  name_nul : 0 ∉ e.name
  cookie_length : e.cookie.length = NFS_COOKIESIZE

structure ServerDirectory where
  entries : List WireEntry
  wellFormed : ∀ e ∈ entries, e.WellFormed
  distinct : (startCookie :: entries.map WireEntry.cookie).Nodup

def behind (cookie : List UInt8) : List WireEntry → List WireEntry
  | [] => []
  | e :: es => if e.cookie = cookie then es else behind cookie es

def ServerDirectory.after (d : ServerDirectory) (cookie : List UInt8) : List WireEntry :=
  if cookie = startCookie then d.entries else behind cookie d.entries

def putEntry (e : WireEntry) : List UInt8 :=
  putBool true ++ (putLong e.fileid ++ (putString e.name ++ putOpaque e.cookie))

def putReply (es : List WireEntry) (eof : Bool) : List UInt8 :=
  putLong NFS_OK ++ (es.flatMap putEntry ++ (putBool false ++ putBool eof))

/-- The reply with the next `n` entries, if there are as many.  `eof` says whether the server tells that these are
    the last ones, when they are. -/
def ServerDirectory.reply (d : ServerDirectory) (cookie : List UInt8) (n : Nat) (eof : Bool) : List UInt8 :=
  let left := d.after cookie
  putReply (left.take n) (eof && decide (left.length ≤ n))

/-! ## The reads -/

/-- A call with a buffer of `count` bytes, and the choices of the server for its reply. -/
structure Call where
  count : Nat
  n : Nat
  eof : Bool

structure Outcome where
  count : Nat
  result : Int
  buffer : Buffer

structure Session where
  di : DirInfo
  outs : List Outcome

def start : Session := ⟨nfsDirOpen, []⟩

section Runs

variable (L : Layout) (d : ServerDirectory)

/-- `nfs_dir_read` with the reply of the server. -/
def step (s : Session) (c : Call) : Option Session :=
  let r := nfsDirRead L s.di c.count (some (d.reply s.di.cookie c.n c.eof))
  some ⟨r.2.1, s.outs ++ [⟨c.count, r.1, r.2.2⟩]⟩

end Runs

def Dirent.listing (pde : Dirent) : Nat × Nat × List UInt8 := (pde.dIno, pde.dNamlen, pde.dName)

/-- What the record of an entry has to show: the name with its NUL. -/
def WireEntry.listing (e : WireEntry) : Nat × Nat × List UInt8 := (e.fileid, e.name.length, e.name ++ [0])

def Outcome.listing (o : Outcome) : List (Nat × Nat × List UInt8) := o.buffer.records.map fun r => r.2.listing

def Session.listing (s : Session) : List (Nat × Nat × List UInt8) :=
  (s.outs.takeWhile fun o => o.result ≠ 0).flatMap Outcome.listing

def ServerDirectory.listing (d : ServerDirectory) : List (Nat × Nat × List UInt8) := d.entries.map WireEntry.listing

/-- The records lie one behind the other within the buffer, and the result is their size. -/
structure Outcome.Proper (o : Outcome) : Prop where
  contiguous : Contiguous 0 o.buffer.records
  bytes_le : bytes o.buffer.records ≤ o.count
  high_le : o.buffer.high ≤ o.count
  result_eq : o.result = bytes o.buffer.records

def Session.Ended (s : Session) : Prop := ∃ o ∈ s.outs, o.result = 0

/-- **Nothing of the directory is lost.** -/
structure Lossless (d : ServerDirectory) (s : Session) : Prop where
  proper : ∀ o ∈ s.outs, o.Proper
  initial : s.listing <+: d.listing
  complete : s.Ended → s.listing = d.listing

/-- The next entry fits into the rounded buffer, and the server sends it: or the caller knows of the end, or there is
    no next entry. -/
def NextFits (L : Layout) (d : ServerDirectory) (s : Session) (c : Call) : Prop :=
  s.Ended ∨ d.after s.di.cookie = [] ∨
    ∃ e, ((d.after s.di.cookie).take c.n).head? = some e ∧ recSize L.direntHeaderSize e ≤ toInt (roundDown L c.count)

/-! ## What the server sends is read -/

section Server

variable {d : ServerDirectory}

variable {e : WireEntry}

theorem getEntry_putEntry (he : e.WellFormed) (bs : List UInt8) :
    getEntry (putLong e.fileid ++ (putString e.name ++ putOpaque e.cookie) ++ bs) = some (e, bs) := by
  have hname : e.name.length ≤ 255 := he.name_le
  have hcookie := getOpaque_putOpaque e.cookie bs
  rw [he.cookie_length] at hcookie
  unfold getEntry
  rw [append_assoc, append_assoc, getLong_putLong he.fileid_lt]
  simp only [Option.bind_eq_bind, Option.bind_some]
  rw [getString_putString hname (by omega)]
  simp only [Option.bind_some]
  rw [hcookie]
  rfl

/-- **A list of entries is read back.** -/
theorem getEntries_put {es : List WireEntry} (hes : ∀ e ∈ es, e.WellFormed) (bs : List UInt8) :
    getEntries (es.flatMap putEntry ++ (putBool false ++ bs)) = (es, some bs) := by
  induction es with
  | nil => exact getEntries_last (getBool_putBool false bs)
  | cons e es ih =>
    have hmore : getBool ((e :: es).flatMap putEntry ++ (putBool false ++ bs)) =
        some (true, (putLong e.fileid ++ (putString e.name ++ putOpaque e.cookie)) ++
          (es.flatMap putEntry ++ (putBool false ++ bs))) := by
      grind [putEntry, getBool_putBool]
    rw [getEntries_more hmore, getEntry_putEntry (hes e mem_cons_self)]
    simp only [ih fun e he => hes e (mem_cons_of_mem _ he)]

theorem behind_append {before left : List WireEntry} (h : e.cookie ∉ before.map WireEntry.cookie) :
    behind e.cookie (before ++ e :: left) = left := by
  induction before with
  | nil => exact if_pos rfl
  | cons b before ih =>
    rw [map_cons, mem_cons, not_or] at h
    exact (if_neg fun heq => h.1 heq.symm).trans (ih h.2)

theorem after_append {before left : List WireEntry} (h : d.entries = before ++ e :: left) :
    d.after e.cookie = left := by
  have hnodup := d.distinct
  rw [h, map_append, map_cons, nodup_cons] at hnodup
  have hstart : e.cookie ≠ startCookie := fun heq => hnodup.1 (by rw [← heq]; simp)
  have hbefore : e.cookie ∉ before.map WireEntry.cookie := fun hmem =>
    (nodup_append.1 hnodup.2).2.2 _ hmem _ mem_cons_self rfl
  unfold ServerDirectory.after
  rw [if_neg hstart, h]
  exact behind_append hbefore

theorem mem_behind {cookie : List UInt8} {es : List WireEntry} (h : e ∈ behind cookie es) : e ∈ es := by
  induction es with
  | nil => exact h
  | cons b es ih =>
    grind [behind]

theorem wellFormed_after (d : ServerDirectory) (cookie : List UInt8) : ∀ e ∈ d.after cookie, e.WellFormed := by
  intro e he
  unfold ServerDirectory.after at he
  split at he
  · exact d.wellFormed e he
  · exact d.wellFormed e (mem_behind he)

theorem getLong_reply (d : ServerDirectory) (cookie : List UInt8) (n : Nat) (eof : Bool) :
    getLong (d.reply cookie n eof) = some (NFS_OK, ((d.after cookie).take n).flatMap putEntry ++
      (putBool false ++ putBool (eof && decide ((d.after cookie).length ≤ n)))) :=
  getLong_putLong (by decide) _

theorem getEntries_reply (d : ServerDirectory) (cookie : List UInt8) (n : Nat) (eof : Bool) :
    getEntries ((d.reply cookie n eof).drop 4) =
      ((d.after cookie).take n, some (putBool (eof && decide ((d.after cookie).length ≤ n)))) := by
  exact getEntries_put (fun e he => wellFormed_after d cookie e (mem_of_mem_take he)) _

end Server

/-! ## One read -/

section Records

variable {header : Nat}

theorem fitting_initial (len : Int) (es : List WireEntry) : fitting header len es <+: es := by
  induction es generalizing len with
  | nil => exact nil_prefix
  | cons e es ih =>
    unfold fitting
    split
    · exact (prefix_cons_inj e).mpr (ih _)
    · exact nil_prefix

theorem fitting_eq_nil_iff (len : Int) (es : List WireEntry) :
    fitting header len es = [] ↔ ∀ e, es.head? = some e → ¬ (recSize header e : Int) ≤ len := by
  cases es with
  | nil => exact iff_of_true rfl fun e h => by cases h
  | cons e es =>
    unfold fitting
    grind

theorem bytes_recordsAt (place : Nat) (es : List WireEntry) : bytes (recordsAt header place es) = 0 ↔ es = [] := by
  cases es with
  | nil => exact iff_of_true rfl rfl
  | cons e es =>
    refine iff_of_false ?_ (cons_ne_nil _ _)
    have hsize := strlen_lt_nameSize e.name
    show header + nameSize e.name + bytes (recordsAt header _ es) ≠ 0
    omega

theorem listing_dirent {e : WireEntry} (he : e.WellFormed) (place : Nat) :
    (dirent header place e).listing = e.listing := by
  grind [takeWhile_eq_self_iff, he.name_nul, dirent, Dirent.listing, WireEntry.listing, strlen]

/-- **The records show the entries.** -/
theorem listing_recordsAt {es : List WireEntry} (hes : ∀ e ∈ es, e.WellFormed) (place : Nat) :
    (recordsAt header place es).map (fun r => r.2.listing) = es.map WireEntry.listing := by
  induction es generalizing place with
  | nil => rfl
  | cons e es ih =>
    grind [listing_dirent, recordsAt]

end Records

section Read

variable {L : Layout} {d : ServerDirectory} {di : DirInfo} {c : Call}

def taken (L : Layout) (d : ServerDirectory) (di : DirInfo) (c : Call) : List WireEntry :=
  fitting L.direntHeaderSize (toInt (roundDown L c.count)) ((d.after di.cookie).take c.n)

theorem storedEntries_reply :
    storedEntries L c.count (d.reply di.cookie c.n c.eof) = taken L d di c := by
  unfold storedEntries taken
  rw [getEntries_reply]

theorem read_reply (hopen : di.eofreached = false) :
    ∃ d', Decoded L di d' c.count (d.reply di.cookie c.n c.eof) ∧
      nfsDirRead L di c.count (some (d.reply di.cookie c.n c.eof)) =
        ((d'.ptr : Int), { d' with
          eofreached := if d'.len < 0 ∧ (c.eof && decide ((d.after di.cookie).length ≤ c.n)) then false
            else c.eof && decide ((d.after di.cookie).length ≤ c.n) }, d'.buf) := by
  have hlong := getLong_reply d di.cookie c.n c.eof
  have hend : (getEntries ((d.reply di.cookie c.n c.eof).drop 4)).2.bind getBool =
      some (c.eof && decide ((d.after di.cookie).length ≤ c.n), []) := by
    rw [getEntries_reply, Option.bind_some]
    have hbool := getBool_putBool (c.eof && decide ((d.after di.cookie).length ≤ c.n)) []
    exact hbool
  rw [getLong_drop hlong] at hend
  rcases nfsDirRead_cases L c.count (d.reply di.cookie c.n c.eof) hopen with
    ⟨-, href⟩ | ⟨d', hd, ⟨⟨rest, hok, hnone⟩, -⟩ | ⟨rest, eof, last, hok, hsome, heq⟩⟩
  · obtain ⟨d', hleft, heq⟩ := nfsDirRead_ok L c.count hopen hlong
    grind [href.result]
  · cases hok.symm.trans hlong
    cases hend.symm.trans hnone
  · cases hok.symm.trans hlong
    cases hend.symm.trans hsome
    exact ⟨d', hd, heq⟩

theorem result_ne (L : Layout) (d : ServerDirectory) (di : DirInfo) (c : Call) :
    (nfsDirRead L di c.count (some (d.reply di.cookie c.n c.eof))).1 ≠ -1 := by
  cases hopen : di.eofreached with
  | true =>
    have heq : nfsDirRead L di c.count (some (d.reply di.cookie c.n c.eof)) = (0, di, ⟨[], 0⟩) := if_pos hopen
    rw [heq]
    show (0 : Int) ≠ -1
    decide
  | false =>
    obtain ⟨d', -, heq⟩ := read_reply (L := L) (d := d) (c := c) hopen
    rw [heq]
    show (d'.ptr : Int) ≠ -1
    omega

def outcome (L : Layout) (d : ServerDirectory) (di : DirInfo) (c : Call) : Outcome :=
  let r := nfsDirRead L di c.count (some (d.reply di.cookie c.n c.eof))
  ⟨c.count, r.1, r.2.2⟩

theorem proper_outcome (L : Layout) (d : ServerDirectory) (di : DirInfo) (c : Call) : (outcome L d di c).Proper := by
  obtain ⟨hcontig, hbytes, hhigh, hresult⟩ :=
    stored_nfsDirRead L di c.count (some (d.reply di.cookie c.n c.eof))
  exact ⟨hcontig, hbytes, hhigh, hresult (result_ne L d di c)⟩

theorem wellFormed_taken : ∀ e ∈ taken L d di c, e.WellFormed := fun e he =>
  wellFormed_after d di.cookie e (mem_of_mem_take ((fitting_initial _ _).subset he))

/-- **One read**: the entries that fit are shown, and the result is 0 if there are none. -/
theorem outcome_open (hopen : di.eofreached = false) :
    (outcome L d di c).listing = (taken L d di c).map WireEntry.listing ∧
    ((outcome L d di c).result = 0 ↔ taken L d di c = []) := by
  obtain ⟨d', hd, heq⟩ := read_reply (L := L) (d := d) (c := c) hopen
  have hrecords := hd.records
  rw [storedEntries_reply] at hrecords
  grind [outcome, listing_recordsAt, wellFormed_taken, hd.stored.ptr_eq, bytes_recordsAt, Outcome.listing]

/-- The open directory after a read: at the last entry that was stored, and at its end only if nothing is left. -/
theorem position_open (hopen : di.eofreached = false) {di' : DirInfo}
    (hdi : di' = (nfsDirRead L di c.count (some (d.reply di.cookie c.n c.eof))).2.1) :
    di'.cookie = ((taken L d di c).getLast?.map WireEntry.cookie).getD di.cookie ∧
    (di'.eofreached = true → taken L d di c = d.after di.cookie) := by
  obtain ⟨d', hd, heq⟩ := read_reply (L := L) (d := d) (c := c) hopen
  have hcookie := hd.cookie
  have hall := hd.all
  rw [storedEntries_reply] at hcookie hall
  rw [heq] at hdi
  subst hdi
  refine ⟨hcookie, fun heof => ?_⟩
  have heof' : (if d'.len < 0 ∧ (c.eof && decide ((d.after di.cookie).length ≤ c.n)) = true then false
      else c.eof && decide ((d.after di.cookie).length ≤ c.n)) = true := heof
  split at heof'
  · cases heof'
  · rename_i hlen
    rw [not_and] at hlen
    have hlong : 0 ≤ d'.len := Int.not_lt.1 fun hneg => hlen hneg heof'
    rw [Bool.and_eq_true, decide_eq_true_eq] at heof'
    rw [hall hlong, getEntries_reply]
    exact take_of_length_le heof'.2

end Read

/-! ## All the reads -/

section Reads

variable {L : Layout} {d : ServerDirectory} {s t : Session} {c : Call}

theorem step_eq (h : step L d s c = some t) :
    t.outs = s.outs ++ [outcome L d s.di c] ∧
    t.di = (nfsDirRead L s.di c.count (some (d.reply s.di.cookie c.n c.eof))).2.1 := by
  cases h
  exact ⟨rfl, rfl⟩

variable {o : Outcome}

theorem listing_of_ended (h : s.Ended) (hout : t.outs = s.outs ++ [o]) : t.listing = s.listing := by
  obtain ⟨z, hz, hzero⟩ := h
  unfold Session.listing
  rw [hout, takeWhile_append, if_neg]
  intro hlen
  have hall := takeWhile_eq_self_iff.1 ((takeWhile_sublist _).eq_of_length hlen)
  grind

theorem listing_of_not_ended (h : ¬ s.Ended) (hout : t.outs = s.outs ++ [o]) :
    t.listing = if o.result = 0 then s.listing else s.listing ++ o.listing := by
  have hself : (s.outs.takeWhile fun o => o.result ≠ 0) = s.outs :=
    takeWhile_eq_self_iff.2 fun z hz => decide_eq_true fun hzero => h ⟨z, hz, hzero⟩
  unfold Session.listing
  rw [hout, takeWhile_append, hself, if_pos rfl]
  by_cases hzero : o.result = 0
  · simp [hzero]
  · simp [hzero]

theorem ended_append (hout : t.outs = s.outs ++ [o]) : t.Ended ↔ s.Ended ∨ o.result = 0 := by
  unfold Session.Ended
  rw [hout]
  simp

structure At (d : ServerDirectory) (s : Session) (before : List WireEntry) : Prop where
  entries : d.entries = before ++ d.after s.di.cookie
  listing : s.listing = before.map WireEntry.listing
  eof : s.di.eofreached = true → d.after s.di.cookie = []

structure Keeps (d : ServerDirectory) (s : Session) : Prop where
  proper : ∀ o ∈ s.outs, o.Proper
  ended : s.Ended → s.listing = d.listing
  position : ¬ s.Ended → ∃ before, At d s before

theorem keeps_start (d : ServerDirectory) : Keeps d start := by
  refine ⟨fun o ho => absurd ho not_mem_nil, ?_, fun _ => ⟨[], ?_, rfl, fun h => by cases h⟩⟩
  · rintro ⟨o, ho, -⟩
    exact absurd ho not_mem_nil
  · exact (if_pos rfl : d.after startCookie = d.entries).symm

theorem Keeps.lossless (h : Keeps d s) : Lossless d s := by
  refine ⟨h.proper, ?_, h.ended⟩
  by_cases hended : s.Ended
  · exact h.ended hended ▸ prefix_rfl
  · obtain ⟨before, hat⟩ := h.position hended
    rw [hat.listing]
    unfold ServerDirectory.listing
    rw [hat.entries, map_append]
    exact prefix_append _ _

theorem Keeps.proper_step (h : Keeps d s) (hstep : step L d s c = some t) : ∀ o ∈ t.outs, o.Proper := by
  intro o ho
  rw [(step_eq hstep).1, mem_append, mem_singleton] at ho
  rcases ho with ho | rfl
  · exact h.proper o ho
  · exact proper_outcome L d s.di c

/-- A read of an open directory that is at its end, or where the caller was told so, shows no more. -/
theorem outcome_closed {di : DirInfo} (h : di.eofreached = true) : outcome L d di c = ⟨c.count, 0, ⟨[], 0⟩⟩ := by
  have heq : nfsDirRead L di c.count (some (d.reply di.cookie c.n c.eof)) = (0, di, ⟨[], 0⟩) := if_pos h
  unfold outcome
  rw [heq]

theorem At.next {before : List WireEntry} (hat : At d s before) (hopen : s.di.eofreached = false)
    (hne : taken L d s.di c ≠ []) (hended : ¬ s.Ended) (hstep : step L d s c = some t) :
    At d t (before ++ taken L d s.di c) := by
  obtain ⟨hout, hdi⟩ := step_eq hstep
  obtain ⟨hlisting, hzero⟩ := outcome_open (L := L) (d := d) (c := c) hopen
  obtain ⟨hcookie, heof⟩ := position_open (L := L) (d := d) (c := c) hopen hdi
  obtain ⟨left, hleft⟩ : taken L d s.di c <+: d.after s.di.cookie :=
    (fitting_initial _ _).trans (List.take_prefix _ _)
  obtain ⟨front, last, hlast⟩ := (eq_nil_or_concat (taken L d s.di c)).resolve_left hne
  have hafter : d.after t.di.cookie = left := by
    grind [after_append, hat.entries]
  constructor
  · rw [hafter, append_assoc, hleft]
    exact hat.entries
  · rw [listing_of_not_ended hended hout, if_neg (mt hzero.1 hne), hat.listing, hlisting, map_append]
  · intro h
    rw [hafter]
    have hall := heof h
    rw [← hleft] at hall
    exact self_eq_append_right.1 hall

theorem Keeps.step (h : Keeps d s) (hfits : NextFits L d s c) (hstep : Directory.step L d s c = some t) : Keeps d t := by
  obtain ⟨hout, hdi⟩ := step_eq hstep
  by_cases hended : s.Ended
  · refine ⟨h.proper_step hstep, fun _ => ?_, fun hno => absurd ((ended_append hout).2 (.inl hended)) hno⟩
    rw [listing_of_ended hended hout]
    exact h.ended hended
  · obtain ⟨before, hat⟩ := h.position hended
    have hwhole : d.after s.di.cookie = [] → s.listing = d.listing := fun hnil => by
      rw [hat.listing]
      unfold ServerDirectory.listing
      simp [hat.entries, hnil]
    by_cases hzero : (outcome L d s.di c).result = 0
    · refine ⟨h.proper_step hstep, fun _ => ?_, fun hno => absurd ((ended_append hout).2 (.inr hzero)) hno⟩
      rw [listing_of_not_ended hended hout, if_pos hzero]
      grind [hat.eof, outcome_open, fitting_eq_nil_iff, NextFits, taken]
    · have hopen : s.di.eofreached = false := by
        rw [← Bool.not_eq_true]
        intro hopen
        exact hzero (by rw [outcome_closed hopen])
      have hne : taken L d s.di c ≠ [] := mt (outcome_open hopen).2.2 hzero
      refine ⟨h.proper_step hstep, fun ht => ?_, fun _ => ⟨_, hat.next hopen hne hended hstep⟩⟩
      grind [ended_append]

theorem Keeps.lost (h : Keeps d s) (hfits : ¬ NextFits L d s c) (hstep : Directory.step L d s c = some t) :
    ¬ Lossless d t := by
  obtain ⟨hout, -⟩ := step_eq hstep
  unfold NextFits at hfits
  rw [not_or, not_or] at hfits
  obtain ⟨hended, hleft, hnone⟩ := hfits
  obtain ⟨before, hat⟩ := h.position hended
  have hopen : s.di.eofreached = false := by
    rw [← Bool.not_eq_true]
    exact mt hat.eof hleft
  have hnil : taken L d s.di c = [] := (fitting_eq_nil_iff _ _).2 fun e he hle => hnone ⟨e, he, hle⟩
  have hzero := (outcome_open (L := L) (d := d) (c := c) hopen).2.2 hnil
  intro hlossless
  have hlisting := hlossless.complete ((ended_append hout).2 (.inr hzero))
  rw [listing_of_not_ended hended hout, if_pos hzero, hat.listing] at hlisting
  have hlen := congrArg List.length hlisting
  grind [ServerDirectory.listing, hat.entries, length_eq_zero_iff]

end Reads

/-- **Nothing of a directory is lost if and only if** every read finds room for the next entry, as long as there is one
    and the caller was not told that there is none. -/
theorem lossless_iff (L : Layout) (d : ServerDirectory) (cs : List Call) :
    Throughout (step L d) (Lossless d) start cs ↔ StepsMeet (step L d) (NextFits L d) start cs := by
  obtain ⟨t, hrun⟩ := @exists_run _ _ (step L d) (fun s c => ⟨_, rfl⟩) cs start
  exact good_iff_stepsMeet (fun s hs => Keeps.lossless hs) (fun s c t hs hfits hstep => hs.step hfits hstep)
    (fun s c t hs hfits hstep => hs.lost hfits hstep) cs start t (keeps_start d) hrun

section LongName

def longName : WireEntry := ⟨7, List.replicate NFS_MAXNAMLEN 97, [0, 0, 0, 1]⟩

def longNameDirectory : ServerDirectory where
  entries := [longName]
  wellFormed := fun e he => by
    rw [mem_singleton] at he
    subst he
    exact ⟨by decide, Nat.le_of_eq length_replicate, fun h => absurd (eq_of_mem_replicate h) (by decide), by decide⟩
  distinct := by decide

/-- A buffer of one `struct dirent` is taken for 264 bytes, and the name of 255 bytes is not shown. -/
theorem long_name_lost :
    ¬ Throughout (step layout24 longNameDirectory) (Lossless longNameDirectory) start [⟨280, 1, true⟩] := by
  have hlen : toInt (roundDown layout24 280) = 264 := by
    unfold toInt
    decide
  have hsize : recSize 24 longName = 280 := by
    have hname : strlen longName.name = 255 := by
      unfold strlen
      rw [takeWhile_eq_self_iff.2 fun b hb => by rw [eq_of_mem_replicate hb]; decide]
      exact length_replicate
    unfold recSize nameSize
    rw [hname]
  have hlost : ¬ NextFits layout24 longNameDirectory start ⟨280, 1, true⟩ := by
    rintro (⟨o, ho, -⟩ | hnil | ⟨e, he, hle⟩)
    · cases ho
    · cases hnil
    · cases he
      rw [hlen] at hle
      have hle' : (recSize 24 longName : Int) ≤ 264 := hle
      omega
  intro h
  exact (keeps_start longNameDirectory).lost hlost rfl (h _ prefix_rfl _ rfl)

end LongName

end RtemsLibbsd.Nfs.Directory

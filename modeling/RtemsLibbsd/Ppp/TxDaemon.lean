import RtemsLibbsd.Ppp.Output

/-!
# The PPP transmit daemon and its callers

Model of the hand-over of packets from `pppoutput` to `ppp_txdaemon` (`if_ppp.c`) and `pppasyncstart`
(`ppp_tty.c`), next to the sender and its driver.

* `TxState` — the queues, the line, the events, the place of the daemon and the `pppoutput` calls that are
  under way.  A packet is its chain of mbufs.
* A step is one access to what is shared: the queues, `sc_outm`, `sc_outflag`, the events.  The assignment
  `sc_outflag |= SC_TX_PENDING` is a load and a store; `pppstart` is called by the driver and is one step.
* `TX_TRANSMIT` is the field `transmit` of `Tx`.

A packet that is put on a queue while the daemon is on its way from an empty queue to `sc_outflag = 0` can
be left there, and the store of `SC_TX_PENDING` can undo `SC_TX_BUSY`.  Where neither happens no packet is
stranded: `no_packet_stranded`.
-/

namespace RtemsLibbsd.Ppp

open RtemsLibbsd.Transition

abbrev Packet := List Mbuf

/-- The place of `ppp_txdaemon`. -/
inductive TxPc where
  | waiting
  /-- `TX_PACKET` is processed. -/
  | check
  | fastq
  | snd
  | clear
  | busy (m : Packet)
  | process (m : Packet)
  deriving DecidableEq

/-- The place of a `pppoutput` call behind the enqueueing: in `pppasyncstart`. -/
inductive CallPc where
  | test
  | load
  | store (outflag : OutFlag)
  | send
  deriving DecidableEq

structure TxState where
  fastq : List Packet
  snd : List Packet
  outm : Option Packet
  line : Line
  /-- `TX_PACKET` is pending. -/
  packet : Bool
  pc : TxPc
  calls : List CallPc

inductive TxAct where
  /-- `pppoutput` enqueues a packet. -/
  | enqueue (highpri : Bool) (m : Packet)
  | call (k : Nat)
  | daemon
  | driver (len : Nat)

namespace TxState

def outflag (s : TxState) : OutFlag := s.line.tx.outflag

def transmit (s : TxState) : Bool := s.line.tx.transmit

def setOutflag (s : TxState) (f : OutFlag) : TxState :=
  { s with line := { s.line with tx := { s.line.tx with outflag := f } } }

def setTransmit (s : TxState) (b : Bool) : TxState :=
  { s with line := { s.line with tx := { s.line.tx with transmit := b } } }

end TxState

def OutFlag.zero : OutFlag := ⟨false, false, false, false, false⟩

def pppasyncstart (s : TxState) (k : Nat) : CallPc → TxState
  | .test =>
    if s.outflag = .zero then { s with calls := s.calls.set k .load }
    else { s with calls := s.calls.eraseIdx k }
  | .load => { s with calls := s.calls.set k (.store s.outflag) }
  | .store f => { s.setOutflag { f with pending := true } with calls := s.calls.set k .send }
  | .send => { s with packet := true, calls := s.calls.eraseIdx k }

def txDaemonStep (cfg : TxConfig) (s : TxState) : Option TxState :=
  match s.pc with
  | .waiting =>
    if s.transmit then some { s.setTransmit false with outm := none, packet := false, pc := .check }
    else if s.packet then some { s with packet := false, pc := .check }
    else none
  | .check => some { s with pc := if s.outm = none then .fastq else .waiting }
  | .fastq =>
    match s.fastq with
    | m :: ms => some { s with fastq := ms, outm := some m, pc := .busy m }
    | [] => some { s with pc := .snd }
  | .snd =>
    match s.snd with
    | m :: ms => some { s with snd := ms, outm := some m, pc := .busy m }
    | [] => some { s with pc := .clear }
  | .clear => some { s.setOutflag .zero with pc := .waiting }
  | .busy m => some { s.setOutflag { OutFlag.zero with busy := true } with pc := .process m }
  | .process m =>
    let tx := { ppp_txdaemon (ppp_dequeue cfg m) with outflag := s.outflag, transmit := s.transmit }
    some { s with line := ⟨tx, [PPP_FLAG], []⟩, pc := .waiting }

def txStep (cfg : TxConfig) (s : TxState) : TxAct → Option TxState
  | .enqueue highpri m =>
    let t : TxState := { s with calls := s.calls ++ [.test] }
    if highpri then some { t with fastq := s.fastq ++ [m] } else some { t with snd := s.snd ++ [m] }
  | .call k => s.calls[k]?.map (pppasyncstart s k)
  | .daemon => txDaemonStep cfg s
  | .driver len => (lineStep cfg s.line len).map fun l => { s with line := l }

def txInit : TxState where
  fastq := []
  snd := []
  outm := none
  line := ⟨⟨.zero, [], [], 0, false, [], false⟩, [], []⟩
  packet := false
  pc := .waiting
  calls := []

/-- If the call is at its store, the flags are the ones that it has loaded, but for `SC_TX_PENDING`. -/
def StoresPending (f : OutFlag) : Option CallPc → Prop
  | some (.store g) => ({ g with pending := true } : OutFlag) = { f with pending := true }
  | _ => True

instance (f : OutFlag) : ∀ c : Option CallPc, Decidable (StoresPending f c)
  | some (.store g) =>
    inferInstanceAs (Decidable (({ g with pending := true } : OutFlag) = { f with pending := true }))
  | some .test | some .load | some .send | none => inferInstanceAs (Decidable True)

/-- The daemon does not clear `sc_outflag` while a packet is on a queue for which nobody is responsible, and
    `sc_outflag |= SC_TX_PENDING` changes nothing else. -/
def Undisturbed (s : TxState) : TxAct → Prop
  | .daemon =>
    s.pc = .clear → (s.fastq = [] ∧ s.snd = []) ∨ s.packet = true ∨ s.transmit = true ∨ s.calls ≠ []
  | .call k => StoresPending s.outflag s.calls[k]?
  | .enqueue _ _ => True
  | .driver _ => True

instance : ∀ (s : TxState) (a : TxAct), Decidable (Undisturbed s a)
  | s, .daemon => inferInstanceAs (Decidable
      (s.pc = .clear → (s.fastq = [] ∧ s.snd = []) ∨ s.packet = true ∨ s.transmit = true ∨ s.calls ≠ []))
  | s, .call k => inferInstanceAs (Decidable (StoresPending s.outflag s.calls[k]?))
  | _, .enqueue _ _ | _, .driver _ => inferInstanceAs (Decidable True)

section Sender

variable {cfg : TxConfig} {s t : Tx}

/-- The flags of the sender between the calls of `pppstart`: the escape flag stands for an octet that is
    still to be sent, and nothing but `SC_TX_PENDING` outlasts `SC_TX_BUSY`. -/
structure FlagsOk (cfg : TxConfig) (s : Tx) : Prop where
  escape : s.outflag.escape = true → s.outoffUpdate = false ∧
    ∃ c cs, s.outbuf.drop s.outoff = c :: cs ∧ ESCAPE_P cfg.asyncmap c = true
  last : s.outflag.lastchar = true → s.outflag.escape = false
  idle : s.outflag.busy = false → s.outflag.fcs = false ∧ s.outflag.escape = false ∧ s.outflag.lastchar = false

/-- A call of `pppstart` goes on with the frame or ends it with `TX_TRANSMIT`. -/
structure Starts (cfg : TxConfig) (s t : Tx) : Prop where
  flags : FlagsOk cfg t
  pending : t.outflag.pending = s.outflag.pending
  going : t.outflag.busy = true ∨ t.transmit = true
  transmit : s.transmit = true → t.transmit = true

theorem flagsOk_adapt (h : FlagsOk cfg s) (len : Nat) :
    FlagsOk cfg (s.adapt len) ∧ (s.adapt len).outflag = s.outflag ∧ (s.adapt len).transmit = s.transmit := by
  unfold Tx.adapt
  split
  · rename_i hupdate
    refine ⟨⟨fun he => ?_, h.last, h.idle⟩, rfl, rfl⟩
    exact Bool.noConfusion ((h.escape he).1.symm.trans hupdate)
  · exact ⟨h, rfl, rfl⟩

theorem written_eq (cfg : TxConfig) (s : Tx) (k : Nat) :
    (s.written cfg k).outflag = s.outflag ∧ (s.written cfg k).transmit = s.transmit := by
  unfold Tx.written
  split <;> exact ⟨rfl, rfl⟩

theorem starts_of_busy (hbusy : t.outflag.busy = true) (hpending : t.outflag.pending = s.outflag.pending)
    (htransmit : t.transmit = s.transmit)
    (hescape : t.outflag.escape = true → t.outoffUpdate = false ∧
      ∃ c cs, t.outbuf.drop t.outoff = c :: cs ∧ ESCAPE_P cfg.asyncmap c = true)
    (hlast : t.outflag.lastchar = true → t.outflag.escape = false) : Starts cfg s t :=
  ⟨⟨hescape, hlast, fun hb => Bool.noConfusion (hbusy.symm.trans hb)⟩, hpending, Or.inl hbusy,
    htransmit.trans⟩

theorem escape_false_of_drop (h : FlagsOk cfg s) (hdrop : s.outbuf.drop s.outoff = []) :
    s.outflag.escape = false := by
  rw [← Bool.not_eq_true]
  intro he
  obtain ⟨-, c, cs, hdrop', -⟩ := h.escape he
  exact nomatch hdrop.symm.trans hdrop'

theorem starts_writeOut (h : FlagsOk cfg s) (hbusy : s.outflag.busy = true) (hchar : s.outflag.lastchar = false) :
    Starts cfg s (s.writeOut cfg).1 := by
  unfold Tx.writeOut
  split
  · exact ⟨h, rfl, Or.inl hbusy, id⟩
  · rename_i c cs hdrop
    split
    · rename_i hc
      split
      · obtain ⟨hflag, htransmit⟩ :=
          written_eq cfg { s with outflag := { s.outflag with escape := false } } 1
        refine starts_of_busy ?_ ?_ htransmit ?_ ?_ <;> rw [hflag]
        · exact hbusy
        · nofun
        · exact fun _ => rfl
      · obtain ⟨hflag, htransmit⟩ :=
          written_eq cfg { s with outflag := { s.outflag with escape := true } } 0
        refine starts_of_busy ?_ ?_ htransmit (fun _ => ?_) ?_
        · rw [hflag]
          exact hbusy
        · rw [hflag]
        · unfold Tx.written
          split <;> exact ⟨rfl, c, cs, hdrop, hc⟩
        · rw [hflag]
          exact fun hl => Bool.noConfusion (hchar.symm.trans hl)
    · rename_i hc
      have hescape : s.outflag.escape = false := by
        rw [← Bool.not_eq_true]
        intro he
        obtain ⟨-, d, ds, hdrop', hd⟩ := h.escape he
        cases hdrop.symm.trans hdrop'
        exact hc hd
      obtain ⟨hflag, htransmit⟩ := written_eq cfg s
        ((c :: cs).takeWhile fun d => !ESCAPE_P cfg.asyncmap d).length
      refine starts_of_busy ?_ ?_ htransmit ?_ ?_ <;> rw [hflag]
      · exact hbusy
      · exact fun he => Bool.noConfusion (hescape.symm.trans he)
      · exact fun _ => hescape

theorem starts_nextBuffer (h : FlagsOk cfg s) (hbusy : s.outflag.busy = true)
    (ht : s.nextBuffer = some t) :
    Starts cfg s t ∧ t.outflag.busy = true ∧ t.outflag.lastchar = s.outflag.lastchar := by
  unfold Tx.nextBuffer at ht
  split at ht
  · rename_i hend
    have hescape := escape_false_of_drop h (List.drop_eq_nil_of_le hend)
    split at ht
    · cases ht
      exact ⟨starts_of_busy hbusy rfl rfl (fun he => Bool.noConfusion (hescape.symm.trans he)) h.last, hbusy,
        rfl⟩
    · split at ht
      · cases ht
      · cases ht
        exact ⟨starts_of_busy hbusy rfl rfl (fun he => Bool.noConfusion (hescape.symm.trans he)) h.last, hbusy,
          rfl⟩
  · cases ht
    exact ⟨⟨h, rfl, Or.inl hbusy, id⟩, hbusy, rfl⟩

theorem nextBuffer_none_escape (h : FlagsOk cfg s) (ht : s.nextBuffer = none) : s.outflag.escape = false := by
  unfold Tx.nextBuffer at ht
  split at ht
  · rename_i hend
    exact escape_false_of_drop h (List.drop_eq_nil_of_le hend)
  · cases ht

theorem starts_output (h : FlagsOk cfg s) (hbusy : s.outflag.busy = true) : Starts cfg s (s.output cfg).1 := by
  unfold Tx.output
  split
  · rename_i hchar
    have hescape := h.last hchar
    exact ⟨⟨fun he => Bool.noConfusion (hescape.symm.trans he), nofun, fun _ => ⟨rfl, hescape, rfl⟩⟩, rfl,
      Or.inr rfl, fun _ => rfl⟩
  · rename_i hchar
    split
    · rename_i hnone
      have hescape := nextBuffer_none_escape h hnone
      exact starts_of_busy hbusy rfl rfl (fun he => Bool.noConfusion (hescape.symm.trans he)) fun _ => hescape
    · rename_i u hu
      obtain ⟨hnext, hbusy', hchar'⟩ := starts_nextBuffer h hbusy hu
      have hout := starts_writeOut hnext.flags hbusy' (hchar'.trans (Bool.not_eq_true _ ▸ hchar))
      exact ⟨hout.flags, hout.pending.trans hnext.pending, hout.going, fun ht =>
        hout.transmit (hnext.transmit ht)⟩

theorem starts_pppstart (h : FlagsOk cfg s) (hbusy : s.outflag.busy = true) (len : Nat) :
    Starts cfg s (pppstart cfg s len).1 := by
  obtain ⟨hadapt, hflag, htransmit⟩ := flagsOk_adapt h len
  have hout := starts_output hadapt ((congrArg OutFlag.busy hflag).trans hbusy)
  have hstart : pppstart cfg s len = (s.adapt len).output cfg := if_pos hbusy
  rw [hstart]
  exact ⟨hout.flags, hout.pending.trans (congrArg OutFlag.pending hflag), hout.going, fun ht =>
    hout.transmit (htransmit.trans ht)⟩

theorem writeOut_transmit (cfg : TxConfig) (s : Tx) : (s.writeOut cfg).1.transmit = s.transmit := by
  grind [Tx.writeOut, written_eq]

theorem request_of_transmit (hs : s.transmit = false) {len : Nat}
    (ht : (pppstart cfg s len).1.transmit = true) : (pppstart cfg s len).2 = [] := by
  have hadapt : (s.adapt len).transmit = false := by
    unfold Tx.adapt
    split <;> exact hs
  unfold pppstart at ht ⊢
  split
  · rename_i hbusy
    rw [if_pos hbusy] at ht
    unfold Tx.output at ht ⊢
    split
    · rfl
    · rename_i hchar
      rw [if_neg hchar] at ht
      split at ht
      · exact Bool.noConfusion (hadapt.symm.trans ht)
      · rename_i u hu
        have hnext : u.transmit = false := by
          grind [Tx.nextBuffer]
        rw [writeOut_transmit] at ht
        exact Bool.noConfusion (hnext.symm.trans ht)
  · rfl

end Sender

section Run

variable {cfg : TxConfig} {s t : TxState}

/-- Somebody is going to look at the queues: a frame is on the line, or an event is pending. -/
def TxState.Looked (s : TxState) : Prop :=
  s.outflag.busy = true ∨ s.transmit = true ∨ s.packet = true

def TxState.Free (s : TxState) : Prop := s.outm = none ∨ ∃ m, s.pc = .busy m ∨ s.pc = .process m

structure TxInv (cfg : TxConfig) (s : TxState) : Prop where
  flags : FlagsOk cfg s.line.tx
  outm : ¬ s.Free → s.outflag.busy = true ∨ s.transmit = true
  empty : s.pc = .fastq ∨ s.pc = .snd ∨ s.pc = .clear → s.outm = none
  taken : ∀ m, s.pc = .busy m ∨ s.pc = .process m → s.outm ≠ none
  quiet : s.Free → s.line.request = [] ∧ s.transmit = false
  finished : s.transmit = true → s.line.request = []
  fresh : ∀ m, s.pc = .process m → s.outflag.busy = true ∧ s.outflag.escape = false ∧
    s.outflag.lastchar = false
  queues : s.pc = .waiting → s.fastq ≠ [] ∨ s.snd ≠ [] → s.Looked ∨ s.calls ≠ []
  pending : s.pc = .waiting → s.outflag.pending = true → s.Looked ∨ .send ∈ s.calls

theorem txInv_init : TxInv cfg txInit where
  flags := ⟨nofun, nofun, fun _ => ⟨rfl, rfl, rfl⟩⟩
  outm h := absurd (Or.inl rfl) h
  empty _ := rfl
  taken _ := by simp [txInit]
  quiet _ := ⟨rfl, rfl⟩
  finished _ := rfl
  fresh _ := nofun
  queues _ h := by simp [txInit] at h
  pending _ := nofun

theorem txInv_enqueue (h : TxInv cfg s) (highpri : Bool) (m : Packet)
    (ht : txStep cfg s (.enqueue highpri m) = some t) : TxInv cfg t := by
  have hcalls : s.calls ++ [CallPc.test] ≠ [] := List.append_ne_nil_of_right_ne_nil _ (List.cons_ne_nil _ _)
  cases highpri <;> cases ht <;>
    exact { h with
      queues := fun _ _ => Or.inr hcalls
      pending := fun hpc hp => (h.pending hpc hp).imp_right (List.mem_append_left _) }

theorem txInv_driver (h : TxInv cfg s) {len : Nat} (ht : txStep cfg s (.driver len) = some t) :
    TxInv cfg t := by
  obtain ⟨l, hl, rfl⟩ := Option.map_eq_some_iff.mp ht
  unfold lineStep at hl
  split at hl
  · rename_i hallowed
    cases hl
    have hrequest : s.line.request ≠ [] := by
      intro hnil
      rw [hnil] at hallowed
      exact absurd (Nat.le_trans hallowed.1 hallowed.2.1) (Nat.not_succ_le_zero 0)
    have hnotFree : ¬ s.Free := fun hfree => hrequest (h.quiet hfree).1
    have htransmit : s.transmit = false := by
      rw [← Bool.not_eq_true]
      exact fun ht => hrequest (h.finished ht)
    have hbusy : s.outflag.busy = true :=
      (h.outm hnotFree).resolve_right fun ht => Bool.noConfusion (htransmit.symm.trans ht)
    have hstart := starts_pppstart h.flags hbusy len
    have hgoing : ∀ request wire, TxState.Looked
        { s with line := ⟨(pppstart cfg s.line.tx len).1, request, wire⟩ } := fun _ _ =>
      hstart.going.elim Or.inl fun ht => Or.inr (Or.inl ht)
    exact {
      flags := hstart.flags
      outm := fun _ => hstart.going
      empty := h.empty
      taken := h.taken
      quiet := fun hfree => absurd hfree hnotFree
      finished := fun ht => request_of_transmit htransmit ht
      fresh := fun m hpc => absurd (Or.inr ⟨m, Or.inr hpc⟩) hnotFree
      queues := fun _ _ => Or.inl (hgoing _ _)
      pending := fun _ _ => Or.inl (hgoing _ _) }
  · cases hl

variable {calls : List CallPc} {k : Nat}

theorem mem_set_of_ne {c d b : CallPc} (hc : c ∈ calls)
    (hk : calls[k]? = some b) (hb : b ≠ c) : c ∈ calls.set k d := by
  obtain ⟨i, hi⟩ := List.mem_iff_getElem?.mp hc
  refine List.mem_iff_getElem?.mpr ⟨i, ?_⟩
  grind

theorem mem_eraseIdx_of_ne {c b : CallPc} (hc : c ∈ calls)
    (hk : calls[k]? = some b) (hb : b ≠ c) : c ∈ calls.eraseIdx k := by
  obtain ⟨i, hi⟩ := List.mem_iff_getElem?.mp hc
  have hne : i ≠ k := by
    rintro rfl
    exact hb (Option.some.inj (hk.symm.trans hi))
  exact List.mem_eraseIdx_iff_getElem?.mpr ⟨i, hne, hi⟩

theorem set_ne_nil {b d : CallPc} (hk : calls[k]? = some b) :
    calls.set k d ≠ [] := by
  intro hnil
  rw [List.set_eq_nil_iff] at hnil
  rw [hnil] at hk
  cases hk

/-- Only `SC_TX_BUSY` and `SC_TX_PENDING` can be left when the daemon waits. -/
theorem FlagsOk.cases {tx : Tx} (h : FlagsOk cfg tx) (hne : tx.outflag ≠ .zero) :
    tx.outflag.busy = true ∨ tx.outflag.pending = true := by
  cases hbusy : tx.outflag.busy with
  | true => exact Or.inl rfl
  | false =>
    obtain ⟨hfcs, hescape, hlast⟩ := h.idle hbusy
    refine Or.inr ?_
    rw [← Bool.not_eq_false]
    intro hpending
    cases hflag : tx.outflag
    simp_all [OutFlag.zero]

theorem txInv_call (h : TxInv cfg s) (hok : Undisturbed s (.call k))
    (ht : txStep cfg s (.call k) = some t) : TxInv cfg t := by
  obtain ⟨c, hk, rfl⟩ := Option.map_eq_some_iff.mp ht
  cases c with
  | test =>
    rw [pppasyncstart]
    split
    · exact { h with
        queues := fun _ _ => Or.inr (set_ne_nil hk)
        pending := fun hpc hp => (h.pending hpc hp).imp_right fun hm => mem_set_of_ne hm hk nofun }
    · rename_i hne
      refine { h with
        queues := fun hpc hq => ?_
        pending := fun hpc hp => (h.pending hpc hp).imp_right fun hm => mem_eraseIdx_of_ne hm hk nofun }
      rcases h.flags.cases hne with hbusy | hpending
      · exact Or.inl (Or.inl hbusy)
      · refine (h.pending hpc hpending).imp_right fun hm => ?_
        exact List.ne_nil_of_mem (mem_eraseIdx_of_ne hm hk nofun)
  | load =>
    exact { h with
      queues := fun _ _ => Or.inr (set_ne_nil hk)
      pending := fun hpc hp => (h.pending hpc hp).imp_right fun hm => mem_set_of_ne hm hk nofun }
  | store f =>
    have hflag : ({ f with pending := true } : OutFlag) = { s.outflag with pending := true } := by
      rw [Undisturbed, hk] at hok
      exact hok
    have hlen : k < s.calls.length := (List.getElem?_eq_some_iff.mp hk).1
    rw [pppasyncstart, hflag]
    exact {
      flags := ⟨h.flags.escape, h.flags.last, h.flags.idle⟩
      outm := h.outm
      empty := h.empty
      taken := h.taken
      quiet := h.quiet
      finished := h.finished
      fresh := h.fresh
      queues := fun _ _ => Or.inr (set_ne_nil hk)
      pending := fun _ _ => Or.inr (List.mem_set hlen _) }
  | send =>
    exact { h with
      queues := fun _ _ => Or.inl (Or.inr (Or.inr rfl))
      pending := fun _ _ => Or.inl (Or.inr (Or.inr rfl)) }

theorem txInv_of_none {pc : TxPc} (h : TxInv cfg s) (hnone : s.outm = none) (hwait : pc ≠ .waiting)
    (hbusy : ∀ m, pc ≠ .busy m ∧ pc ≠ .process m) : TxInv cfg { s with pc := pc } where
  flags := h.flags
  outm hfree := absurd (Or.inl hnone) hfree
  empty _ := hnone
  taken m hpc := (hpc.elim (hbusy m).1 (hbusy m).2).elim
  quiet _ := h.quiet (Or.inl hnone)
  finished := h.finished
  fresh m hpc := absurd hpc (hbusy m).2
  queues hpc := absurd hpc hwait
  pending hpc := absurd hpc hwait

theorem txInv_taken {fastq snd : List Packet} (h : TxInv cfg s) (hnone : s.outm = none) (m : Packet) :
    TxInv cfg { s with fastq := fastq, snd := snd, outm := some m, pc := .busy m } where
  flags := h.flags
  outm hfree := absurd (Or.inr ⟨m, Or.inl rfl⟩) hfree
  empty := by simp
  taken _ _ := nofun
  quiet _ := h.quiet (Or.inl hnone)
  finished := h.finished
  fresh _ := nofun
  queues := nofun
  pending := nofun

theorem txInv_receive {packet : Bool} (h : TxInv cfg s) (hpc : s.pc = .waiting) :
    TxInv cfg { s with packet := packet, pc := .check } := by
  have hfree : TxState.Free { s with packet := packet, pc := .check } ↔ s.Free := by
    simp [TxState.Free, hpc]
  exact {
    flags := h.flags
    outm := fun hf => h.outm (mt hfree.mpr hf)
    empty := by simp
    taken := by simp
    quiet := fun hf => h.quiet (hfree.mp hf)
    finished := h.finished
    fresh := nofun
    queues := nofun
    pending := nofun }

theorem txInv_daemon (h : TxInv cfg s) (hok : Undisturbed s .daemon) (ht : txStep cfg s .daemon = some t) :
    TxInv cfg t := by
  have hstep : txDaemonStep cfg s = some t := ht
  unfold txDaemonStep at hstep
  split at hstep
  · rename_i hpc
    split at hstep
    · rename_i htransmit
      cases hstep
      exact {
        flags := ⟨h.flags.escape, h.flags.last, h.flags.idle⟩
        outm := fun hfree => absurd (Or.inl rfl) hfree
        empty := fun _ => rfl
        taken := by simp
        quiet := fun _ => ⟨h.finished htransmit, rfl⟩
        finished := nofun
        fresh := nofun
        queues := nofun
        pending := nofun }
    · split at hstep
      · cases hstep
        exact txInv_receive h hpc
      · cases hstep
  · rename_i hpc
    cases hstep
    split
    · rename_i hnone
      exact txInv_of_none h hnone nofun fun _ => ⟨nofun, nofun⟩
    · rename_i hsome
      -- a frame is on the line, or its end is announced
      have hnotFree : ¬ s.Free := by
        rintro (hnone | ⟨m, hm | hm⟩)
        · exact hsome hnone
        · exact nomatch hpc.symm.trans hm
        · exact nomatch hpc.symm.trans hm
      have hgoing := h.outm hnotFree
      have hlooked : TxState.Looked { s with pc := .waiting } := hgoing.elim Or.inl fun ht => Or.inr (Or.inl ht)
      exact {
        flags := h.flags
        outm := fun _ => hgoing
        empty := by simp
        taken := by simp
        quiet := by
          rintro (hnone | ⟨m, hm | hm⟩)
          · exact absurd hnone hsome
          · cases hm
          · cases hm
        finished := h.finished
        fresh := nofun
        queues := fun _ _ => Or.inl hlooked
        pending := fun _ _ => Or.inl hlooked }
  · grind [h.empty, txInv_taken, txInv_of_none]
  · grind [h.empty, txInv_taken, txInv_of_none]
  · rename_i hpc
    have hnone := h.empty (Or.inr (Or.inr hpc))
    cases hstep
    exact {
      flags := ⟨nofun, nofun, fun _ => ⟨rfl, rfl, rfl⟩⟩
      outm := fun hfree => absurd (Or.inl hnone) hfree
      empty := fun _ => hnone
      taken := by simp
      quiet := fun _ => h.quiet (Or.inl hnone)
      finished := h.finished
      fresh := nofun
      queues := by
        intro _ hq
        rcases hok hpc with ⟨hfastq, hsnd⟩ | hpacket | htransmit | hcalls
        · rcases hq with hq | hq
          · exact absurd hfastq hq
          · exact absurd hsnd hq
        · exact Or.inl (Or.inr (Or.inr hpacket))
        · exact Or.inl (Or.inr (Or.inl htransmit))
        · exact Or.inr hcalls
      pending := nofun }
  · rename_i m hpc
    cases hstep
    exact {
      flags := ⟨nofun, nofun, nofun⟩
      outm := fun _ => Or.inl rfl
      empty := by simp
      taken := fun _ _ => h.taken m (Or.inl hpc)
      quiet := fun _ => h.quiet (Or.inr ⟨m, Or.inl hpc⟩)
      finished := h.finished
      fresh := fun _ _ => ⟨rfl, rfl, rfl⟩
      queues := nofun
      pending := nofun }
  · rename_i m hpc
    have hsome := h.taken m (Or.inr hpc)
    obtain ⟨hbusy, hescape, hlast⟩ := h.fresh m hpc
    have hquiet := (h.quiet (Or.inr ⟨m, Or.inr hpc⟩)).2
    cases hstep
    exact {
      flags := ⟨fun he => Bool.noConfusion (hescape.symm.trans he), fun _ => hescape,
        fun hb => Bool.noConfusion (hbusy.symm.trans hb)⟩
      outm := fun _ => Or.inl hbusy
      empty := by simp
      taken := by simp
      quiet := by
        rintro (hnone | ⟨m', hm | hm⟩)
        · exact absurd hnone hsome
        · cases hm
        · cases hm
      finished := fun ht => Bool.noConfusion (hquiet.symm.trans ht)
      fresh := nofun
      queues := fun _ _ => Or.inl (Or.inl hbusy)
      pending := fun _ _ => Or.inl (Or.inl hbusy) }

theorem txInv_step (s : TxState) (a : TxAct) (t : TxState) (h : TxInv cfg s) (hok : Undisturbed s a)
    (ht : txStep cfg s a = some t) : TxInv cfg t := by
  cases a with
  | enqueue highpri m => exact txInv_enqueue h highpri m ht
  | call k => exact txInv_call h hok ht
  | daemon => exact txInv_daemon h hok ht
  | driver len => exact txInv_driver h ht

/-- **No output packet is stranded**: in every run in which the daemon clears `sc_outflag` only while the
    queues are empty, an event is pending or a call of `pppoutput` is under way, and in which the assignment
    of `SC_TX_PENDING` does not undo another change of `sc_outflag`, the queues are empty whenever the daemon
    waits with no event pending, no frame is on the line and no call is under way. -/
theorem no_packet_stranded (cfg : TxConfig) (as : List TxAct)
    (hmeet : StepsMeet (txStep cfg) Undisturbed txInit as) (t : TxState)
    (hrun : run (txStep cfg) txInit as = some t) (hpc : t.pc = .waiting)
    (hevents : t.packet = false ∧ t.transmit = false) (hidle : t.outflag.busy = false) (hcalls : t.calls = []) :
    t.fastq = [] ∧ t.snd = [] := by
  have hinv := run_invariant_of_meet txInv_step as txInit t txInv_init hmeet hrun
  have hnone : ¬ (t.fastq ≠ [] ∨ t.snd ≠ []) := by
    intro hq
    rcases hinv.queues hpc hq with (hbusy | htransmit | hpacket) | hunder
    · exact Bool.noConfusion (hidle.symm.trans hbusy)
    · exact Bool.noConfusion (hevents.2.symm.trans htransmit)
    · exact Bool.noConfusion (hevents.1.symm.trans hpacket)
    · exact hunder hcalls
  simpa [not_or] using hnone

def lcpPacket : Packet := [[0xff, 0x03, 0xc0, 0x21]]

def plainConfig : TxConfig := ⟨false, false, pppopenMap, false⟩

/-- The packet is found by the daemon, and sent by a driver that takes all that is requested. -/
def oneFrame : List TxAct :=
  List.replicate 6 .daemon ++ [1, 1, 1, 1, 2, 2, 1].map .driver

/-- A call of `pppoutput`, the transmission, and the daemon's look at the empty queues. -/
def oneTransmission : List TxAct :=
  [.enqueue false lcpPacket, .call 0, .call 0, .call 0, .call 0] ++ oneFrame ++ List.replicate 5 .daemon

theorem no_packet_stranded_oneTransmission :
    ∃ t, run (txStep plainConfig) txInit oneTransmission = some t ∧ t.fastq = [] ∧ t.snd = [] := by
  have hrun : (run (txStep plainConfig) txInit oneTransmission).map (fun t =>
      (t.pc, t.packet, t.transmit, t.outflag.busy, t.calls)) = some (.waiting, false, false, false, []) := by
    decide
  obtain ⟨t, ht, hfields⟩ := Option.map_eq_some_iff.mp hrun
  simp only [Prod.mk.injEq] at hfields
  obtain ⟨hpc, hpacket, htransmit, hbusy, hcalls⟩ := hfields
  exact ⟨t, ht, no_packet_stranded plainConfig oneTransmission (by decide) t ht hpc
    ⟨hpacket, htransmit⟩ hbusy hcalls⟩

/-- The second packet is sent before its caller looks at `sc_outflag`: the event that the caller then sends
    finds the queues empty.  A third packet comes between this look and `sc_outflag = 0`. -/
def strandedRun : List TxAct :=
  [.enqueue false lcpPacket, .call 0, .call 0, .call 0, .call 0] ++ List.replicate 6 .daemon ++
    [.enqueue false lcpPacket] ++ [1, 1, 1, 1, 2, 2, 1].map .driver ++ oneFrame ++
    [.call 0, .call 0, .call 0, .call 0] ++ List.replicate 4 .daemon ++
    [.enqueue false lcpPacket, .call 0, .daemon]

/-- A packet is left on the send queue: nobody is going to look at it. -/
theorem packet_stranded :
    ∃ t, run (txStep plainConfig) txInit strandedRun = some t ∧ t.pc = .waiting ∧ t.packet = false ∧
      t.transmit = false ∧ t.outflag = .zero ∧ t.calls = [] ∧ t.snd ≠ [] := by
  have hrun : (run (txStep plainConfig) txInit strandedRun).map (fun t =>
      (t.pc, t.packet, t.transmit, t.outflag, t.calls.length, t.snd.length)) =
        some (.waiting, false, false, .zero, 0, 1) := by
    decide
  obtain ⟨t, ht, hfields⟩ := Option.map_eq_some_iff.mp hrun
  simp only [Prod.mk.injEq] at hfields
  obtain ⟨hpc, hpacket, htransmit, hflag, hcalls, hsnd⟩ := hfields
  refine ⟨t, ht, hpc, hpacket, htransmit, hflag, List.length_eq_zero_iff.mp hcalls, fun hnil => ?_⟩
  rw [hnil] at hsnd
  cases hsnd

end Run

end RtemsLibbsd.Ppp

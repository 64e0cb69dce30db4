import RtemsLibbsd.Ppp.TxDaemon

/-!
# The packet set-up of the PPP transmit daemon

Model of the loop of `ppp_txdaemon` (`if_ppp.c`) over the mbuf chain of a packet, which computes the check sequence,
and of what becomes of the elements of the chain.

* `setUpLoop` — the loop: it cuts the chain in front of the first empty element, and frees the part that is cut off.
* `Sending`, `sendStep` — the sender and its driver, and the daemon, which frees the chain once it has been sent.
* `Covers` — what is said of a packet: the frame has all of it, and each element is freed once.

The part that is cut off is freed, but not sent: **`covers_iff`**.
-/

namespace RtemsLibbsd.Ppp

open List RtemsLibbsd.OctetStuffing RtemsLibbsd.Transition

structure Elem where
  addr : Nat
  data : Mbuf

/-- `( m->m_next != NULL ) && ( m->m_next->m_len == 0 )` -/
def nextIsEmpty : List Elem → Bool
  | [] => false
  | e :: _ => e.data.length = 0

/-- The loop over the chain: the check sequence, the chain that is left, and `mf`. -/
def setUpLoop : BitVec 16 → List Elem → BitVec 16 × List Elem × List Elem
  | fcs, [] => (fcs, [], [])
  | fcs, m :: ms =>
    if m.data.length > 0 then
      -- behind the cut `m->m_next` is `NULL`, and the loop ends
      if nextIsEmpty ms then (pppfcs fcs m.data, [m], ms)
      else
        let r := setUpLoop (pppfcs fcs m.data) ms
        (r.1, m :: r.2.1, r.2.2)
    else (fcs, m :: ms, [])

/-- A packet on its way: the sender and its driver, `sc_outm`, and the elements that have been freed. -/
structure Sending where
  line : Line
  outm : List Elem
  freed : List Elem

/-- The packet set-up, up to `m_freem(mf)`. -/
def setUp (packet : List Elem) : Sending :=
  let r := setUpLoop PPP_INITFCS packet
  { line :=
      { tx :=
          { outflag := ⟨true, false, false, false, false⟩
            outmc := r.2.1.map Elem.data
            outbuf := (packet.map Elem.data).headD []
            outoff := 0
            outoffUpdate := false
            outfcsbuf := fcsBytes r.1
            transmit := false }
        request := [PPP_FLAG]
        wire := [] }
    outm := r.2.1
    freed := r.2.2 }

inductive SendAct where
  | driver (len : Nat)
  /-- The daemon receives `TX_TRANSMIT`. -/
  | transmit

def sendStep (cfg : TxConfig) (s : Sending) : SendAct → Option Sending
  | .driver len => (lineStep cfg s.line len).map fun l => { s with line := l }
  | .transmit =>
    if s.line.tx.transmit then
      some
        { line := { s.line with tx := { s.line.tx with transmit := false } }
          outm := []
          freed := s.freed ++ s.outm }
    else none

structure Covers (cfg : TxConfig) (packet : List Elem) : Prop where
  frame : ∀ as s, run (sendStep cfg) (setUp packet) as = some s → s.line.request = [] →
    ∃ body, s.line.wire = PPP_FLAG :: body ++ [PPP_FLAG] ∧ PPP_FLAG ∉ body ∧
      unstuff PPP_ESCAPE transform body = some (frameOctets (packet.map Elem.data))
  owned : ∀ as s, run (sendStep cfg) (setUp packet) as = some s → (s.freed ++ s.outm).Perm packet
  ends : ∃ n, ∀ as s, run (sendStep cfg) (setUp packet) as = some s →
    as.length ≤ n ∧ (s.line.request = [] ∧ s.outm = [] ∨ ∃ a t, sendStep cfg s a = some t)

def EmptyAtEnd (packet : List Elem) : Prop := ∀ e ∈ packet.dropWhile fun e => e.data ≠ [], e.data = []

instance (packet : List Elem) : Decidable (EmptyAtEnd packet) := List.decidableBAll _ _

def kept (packet : List Elem) : List Elem := packet.takeWhile fun e => e.data ≠ []

section SetUp

theorem setUpLoop_eq {m : Elem} (hm : m.data ≠ []) : ∀ (fcs : BitVec 16) (ms : List Elem),
    setUpLoop fcs (m :: ms) = (pppfcs fcs ((kept (m :: ms)).map Elem.data).flatten, kept (m :: ms),
      (m :: ms).dropWhile fun e => e.data ≠ []) := by
  intro fcs ms
  induction ms generalizing fcs m with
  | nil => simp [setUpLoop, nextIsEmpty, kept, hm, length_pos_iff.mpr hm]
  | cons e es ih =>
    have hpos : m.data.length > 0 := length_pos_iff.mpr hm
    by_cases he : e.data = []
    · simp [setUpLoop, nextIsEmpty, kept, hm, he]
    · have hlen : nextIsEmpty (e :: es) = false := by simpa [nextIsEmpty] using he
      rw [setUpLoop, if_pos hpos, hlen, if_neg Bool.false_ne_true, ih he]
      simp only [kept, takeWhile_cons, dropWhile_cons, hm, he, ne_eq, not_false_eq_true, decide_true, if_true,
        map_cons, flatten_cons, pppfcs_append]

theorem kept_append_rest (packet : List Elem) : kept packet ++ packet.dropWhile (fun e => e.data ≠ []) = packet :=
  takeWhile_append_dropWhile

theorem kept_data {packet : List Elem} {e : Elem} (he : e ∈ kept packet) : e.data ≠ [] := by
  simpa using all_eq_true.mp all_takeWhile e he

theorem setUp_eq {m : Elem} (hm : m.data ≠ []) (ms : List Elem) :
    setUp (m :: ms) = ⟨⟨ppp_txdaemon ((kept (m :: ms)).map Elem.data), [PPP_FLAG], []⟩, kept (m :: ms),
      (m :: ms).dropWhile fun e => e.data ≠ []⟩ := by
  have hdata : ∀ d ∈ (kept (m :: ms)).map Elem.data, d ≠ [] := by
    intro d hd
    obtain ⟨e, he, rfl⟩ := mem_map.mp hd
    exact kept_data he
  have hall : ((kept (m :: ms)).map Elem.data).takeWhile (· ≠ []) = (kept (m :: ms)).map Elem.data :=
    takeWhile_eq_self_iff.mpr fun d hd => decide_eq_true (hdata d hd)
  have hhead : ((kept (m :: ms)).map Elem.data).headD [] = m.data := by simp [kept, hm]
  unfold setUp ppp_txdaemon
  simp only [setUpLoop_eq hm, hall, hhead, cutEmpty_eq hdata, map_cons, headD_cons]

end SetUp

section Sender

variable {cfg : TxConfig} {bytes wire : List Byte} {s : Tx}

/-- There is nothing left to send only when `TX_TRANSMIT` is sent. -/
theorem output_transmit (h : Sends cfg bytes wire s) (hnil : (s.output cfg).2 = []) :
    (s.output cfg).1.transmit = true := by
  unfold Tx.output at hnil ⊢
  split at hnil
  · rename_i hchar
    rw [if_pos hchar]
  · rename_i hchar
    split at hnil
    · cases hnil
    · rename_i t ht
      obtain ⟨hsends, hchar', hmore⟩ := nextBuffer_some h (Bool.not_eq_true _ ▸ hchar) ht
      exact absurd hnil (writeOut_spec hsends hchar' hmore).request

/-- A report of the driver ends the frame exactly when it makes `pppstart` send `TX_TRANSMIT`. -/
theorem lineStep_transmit {l l' : Line} {len : Nat} (h : Requests cfg bytes l.wire (l.tx, l.request))
    (ht : l.tx.transmit = false) (hstep : lineStep cfg l len = some l') :
    l'.tx.transmit = true ↔ l'.request = [] := by
  unfold lineStep at hstep
  split at hstep
  · rename_i hallowed
    cases hstep
    constructor
    · exact request_of_transmit ht
    · intro hnil
      have hstart : pppstart cfg l.tx len = (l.tx.adapt len).output cfg := if_pos h.busy
      rw [hstart] at hnil ⊢
      exact output_transmit (h.sends len hallowed) hnil
  · cases hstep

theorem lineStep_all {l : Line} (h : l.request ≠ []) : ∃ l', lineStep cfg l l.request.length = some l' := by
  unfold lineStep
  rw [if_pos ⟨length_pos_iff.mpr h, Nat.le_refl _, fun _ => rfl⟩]
  exact ⟨_, rfl⟩

end Sender

section Run

variable {cfg : TxConfig}

/-- The places of a packet: it is sent, it has been sent, it has been freed. -/
inductive Phase (q rest : List Elem) (s : Sending) : Prop
  | sending (hrequest : s.line.request ≠ []) (htransmit : s.line.tx.transmit = false) (houtm : s.outm = q)
      (hfreed : s.freed = rest)
  | sent (hrequest : s.line.request = []) (htransmit : s.line.tx.transmit = true) (houtm : s.outm = q)
      (hfreed : s.freed = rest)
  | done (hrequest : s.line.request = []) (htransmit : s.line.tx.transmit = false) (houtm : s.outm = [])
      (hfreed : s.freed = rest ++ q)

/-- The invariant of a packet of which `q` is sent and `rest` is cut off. -/
structure SendInv (cfg : TxConfig) (q rest : List Elem) (s : Sending) : Prop where
  line : LineOk cfg (frameOctets (q.map Elem.data)) s.line
  phase : Phase q rest s

def sendMeasure (cfg : TxConfig) (q : List Elem) (s : Sending) : Nat :=
  2 * ((frameOnLine cfg (frameOctets (q.map Elem.data))).length - s.line.wire.length) +
    if s.line.tx.transmit then 1 else 0

theorem LineOk.requests {bytes : List Byte} {l : Line} (h : LineOk cfg bytes l) (hne : l.request ≠ []) :
    Requests cfg bytes l.wire (l.tx, l.request) :=
  h.resolve_left fun hnil => hne hnil.1

theorem LineOk.done {bytes : List Byte} {l : Line} (h : LineOk cfg bytes l) (hnil : l.request = []) :
    l.wire = frameOnLine cfg bytes :=
  (h.resolve_right fun hreq => hreq.request hnil).2

theorem sendInv_setUp {m : Elem} (hm : m.data ≠ []) (ms : List Elem) :
    SendInv cfg (kept (m :: ms)) ((m :: ms).dropWhile fun e => e.data ≠ []) (setUp (m :: ms)) := by
  rw [setUp_eq hm]
  refine ⟨lineOk_ppp_txdaemon fun d hd => ?_, .sending nofun rfl rfl rfl⟩
  obtain ⟨e, he, rfl⟩ := mem_map.mp hd
  exact kept_data he

variable {q rest : List Elem}

theorem sendInv_step (s : Sending) (a : SendAct) (t : Sending) (h : SendInv cfg q rest s)
    (ht : sendStep cfg s a = some t) : SendInv cfg q rest t ∧ sendMeasure cfg q t < sendMeasure cfg q s := by
  cases a with
  | driver len =>
    obtain ⟨l, hl, rfl⟩ := Option.map_eq_some_iff.mp ht
    obtain ⟨hline, hless⟩ := lineOk_lineStep h.line hl
    have hne : s.line.request ≠ [] := by
      intro hnil
      unfold lineStep at hl
      grind
    cases h.phase with
    | sending hrequest htransmit houtm hfreed =>
      have hiff := lineStep_transmit (h.line.requests hne) htransmit hl
      constructor
      · refine ⟨hline, ?_⟩
        by_cases hnil : l.request = []
        · exact .sent hnil (hiff.mpr hnil) houtm hfreed
        · exact .sending hnil (Bool.not_eq_true _ ▸ fun hc => hnil (hiff.mp hc)) houtm hfreed
      · unfold sendMeasure
        simp only [htransmit, Bool.false_eq_true, if_false]
        split <;> omega
    | sent hrequest _ _ _ => exact absurd hrequest hne
    | done hrequest _ _ _ => exact absurd hrequest hne
  | transmit =>
    change (if s.line.tx.transmit then _ else none) = some t at ht
    split at ht
    · rename_i htrue
      cases ht
      cases h.phase with
      | sending _ htransmit _ _ => exact Bool.noConfusion (htransmit.symm.trans htrue)
      | done _ htransmit _ _ => exact Bool.noConfusion (htransmit.symm.trans htrue)
      | sent hrequest _ houtm hfreed =>
        refine ⟨⟨.inl ⟨hrequest, h.line.done hrequest⟩, .done hrequest rfl rfl ?_⟩, ?_⟩
        · rw [houtm, hfreed]
        · unfold sendMeasure
          simp only [htrue, if_true, Bool.false_eq_true, if_false]
          omega
    · cases ht

theorem sendInv_run {m : Elem} (hm : m.data ≠ []) {ms : List Elem} {as : List SendAct} {s : Sending}
    (h : run (sendStep cfg) (setUp (m :: ms)) as = some s) :
    SendInv cfg (kept (m :: ms)) ((m :: ms).dropWhile fun e => e.data ≠ []) s :=
  run_invariant (fun s a t hs ht => (sendInv_step s a t hs ht).1) as _ s (sendInv_setUp hm ms) h

theorem SendInv.enabled {s : Sending} (h : SendInv cfg q rest s) :
    s.line.request = [] ∧ s.outm = [] ∨ ∃ a t, sendStep cfg s a = some t := by
  cases h.phase with
  | sending hrequest _ _ _ =>
    obtain ⟨l, hl⟩ := lineStep_all hrequest
    refine .inr ⟨.driver s.line.request.length, { s with line := l }, ?_⟩
    rw [sendStep, hl]
    rfl
  | sent _ htransmit _ _ => exact .inr ⟨.transmit, _, if_pos htransmit⟩
  | done hrequest _ houtm _ => exact .inl ⟨hrequest, houtm⟩

theorem exists_done (n : Nat) : ∀ {s : Sending}, SendInv cfg q rest s → sendMeasure cfg q s ≤ n →
    ∃ as t, run (sendStep cfg) s as = some t ∧ t.line.request = [] := by
  induction n with
  | zero =>
    intro s h hn
    rcases h.enabled with hdone | ⟨a, t, ht⟩
    · exact ⟨[], s, rfl, hdone.1⟩
    · exact absurd (Nat.lt_of_lt_of_le (sendInv_step s a t h ht).2 hn) (Nat.not_lt_zero _)
  | succ n ih =>
    intro s h hn
    rcases h.enabled with hdone | ⟨a, t, ht⟩
    · exact ⟨[], s, rfl, hdone.1⟩
    · obtain ⟨hinv, hless⟩ := sendInv_step s a t h ht
      obtain ⟨as, u, hrun, hu⟩ := ih hinv (by omega)
      exact ⟨a :: as, u, run_cons.mpr ⟨t, ht, hrun⟩, hu⟩

end Run

section Covers

variable {cfg : TxConfig}

theorem SendInv.owned {packet : List Elem} {s : Sending}
    (h : SendInv cfg (kept packet) (packet.dropWhile fun e => e.data ≠ []) s) : (s.freed ++ s.outm).Perm packet := by
  have hperm : (packet.dropWhile (fun e => e.data ≠ []) ++ kept packet).Perm packet := by
    have h : (packet.dropWhile (fun e => e.data ≠ []) ++ kept packet).Perm
        (kept packet ++ packet.dropWhile fun e => e.data ≠ []) := perm_append_comm
    rwa [kept_append_rest] at h
  cases h.phase with
  | sending _ _ houtm hfreed => rw [houtm, hfreed]; exact hperm
  | sent _ _ houtm hfreed => rw [houtm, hfreed]; exact hperm
  | done _ _ houtm hfreed => rw [houtm, hfreed, append_nil]; exact hperm

theorem frameOnLine_body (hmap : MapOk cfg.asyncmap) (bytes : List Byte) :
    PPP_FLAG ∉ stuffed cfg bytes ∧ unstuff PPP_ESCAPE transform (stuffed cfg bytes) = some bytes :=
  ⟨flag_not_mem_stuff hmap.escape_flag (by decide) (fun _ hd => hmap.transform_ne_flag hd) bytes,
    unstuff_stuff transform_transform hmap.escape_escape bytes⟩

theorem frameOctets_kept_iff (packet : List Elem) :
    frameOctets ((kept packet).map Elem.data) = frameOctets (packet.map Elem.data) ↔ EmptyAtEnd packet := by
  have hflatten : (packet.map Elem.data).flatten = ((kept packet).map Elem.data).flatten ++
      ((packet.dropWhile fun e => e.data ≠ []).map Elem.data).flatten := by
    rw [← flatten_append, ← map_append, kept_append_rest]
  have hnil : ((packet.dropWhile fun e => e.data ≠ []).map Elem.data).flatten = [] ↔ EmptyAtEnd packet := by
    rw [flatten_eq_nil_iff]
    exact forall_mem_map
  rw [← hnil]
  constructor
  · intro h
    have hlen := congrArg List.length h
    unfold frameOctets at hlen
    rw [hflatten] at hlen
    simp only [length_append, fcsBytes, length_cons, length_nil] at hlen
    exact length_eq_zero_iff.mp (by omega)
  · intro h
    unfold frameOctets
    rw [hflatten, h, append_nil]

/-- **A packet is sent as a whole exactly when no element behind an empty one has data.** -/
theorem covers_iff (requests : List MapRequest) (hreq : cfg.asyncmap = requests.foldl ppptioctl pppopenMap) (m : Elem)
    (hm : m.data ≠ []) (ms : List Elem) : Covers cfg (m :: ms) ↔ EmptyAtEnd (m :: ms) := by
  have hmap : MapOk cfg.asyncmap := hreq ▸ mapOk_foldl requests
  rw [← frameOctets_kept_iff]
  constructor
  · intro h
    obtain ⟨as, s, hrun, hnil⟩ := exists_done _ (sendInv_setUp hm ms) (Nat.le_refl _)
    obtain ⟨body, hwire, -, hbody⟩ := h.frame as s hrun hnil
    have hline := (sendInv_run hm hrun).line.done hnil
    have heq : body = stuffed cfg (frameOctets ((kept (m :: ms)).map Elem.data)) := by
      have h := hwire.symm.trans hline
      exact append_cancel_right (List.cons.inj h).2
    rw [heq, (frameOnLine_body hmap _).2] at hbody
    exact Option.some.inj hbody
  · intro heq
    refine ⟨?_, ?_, ?_⟩
    · intro as s hrun hnil
      obtain ⟨hflag, hread⟩ := frameOnLine_body hmap (frameOctets ((kept (m :: ms)).map Elem.data))
      exact ⟨_, (sendInv_run hm hrun).line.done hnil, hflag, heq ▸ hread⟩
    · exact fun as s hrun => (sendInv_run hm hrun).owned
    · refine ⟨sendMeasure cfg (kept (m :: ms)) (setUp (m :: ms)), fun as s hrun => ⟨?_, (sendInv_run hm hrun).enabled⟩⟩
      have hlen := run_length_le (fun s a t => sendInv_step s a t) as _ s (sendInv_setUp hm ms) hrun
      omega

/-- The settings after `pppopen`, with a polled driver. -/
def polledConfig : TxConfig := ⟨false, false, pppopenMap, true⟩

theorem covers_iff_twoEmpty : Covers polledConfig [⟨0, [0x41]⟩, ⟨1, [0x42]⟩, ⟨2, []⟩, ⟨3, []⟩] :=
  (covers_iff [] rfl ⟨0, [0x41]⟩ (by decide) [⟨1, [0x42]⟩, ⟨2, []⟩, ⟨3, []⟩]).mpr (by decide)

/-- A chain with an empty element in the middle, which is sent without the last element. -/
def emptyInside : List Elem := [⟨0, [0x41]⟩, ⟨1, []⟩, ⟨2, [0x42]⟩]

theorem emptyInside_not_covered : ¬ Covers polledConfig emptyInside := by
  intro h
  have hrun : ∃ s, run (sendStep polledConfig) (setUp emptyInside) [.driver 1, .driver 1, .driver 2, .driver 1] = some s ∧
      s.line.request = [] ∧ s.line.wire = PPP_FLAG :: [0x41, 0xf5, 0xa3] ++ [PPP_FLAG] := ⟨_, rfl, by decide, by decide⟩
  obtain ⟨s, hrun, hnil, hline⟩ := hrun
  obtain ⟨body, hwire, -, hbody⟩ := h.frame _ s hrun hnil
  have heq : body = [0x41, 0xf5, 0xa3] :=
    append_cancel_right (List.cons.inj (hwire.symm.trans hline)).2
  rw [heq] at hbody
  exact absurd hbody (by decide)

end Covers

end RtemsLibbsd.Ppp

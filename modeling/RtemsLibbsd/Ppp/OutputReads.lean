import RtemsLibbsd.Ppp.Output

/-!
# The accesses of `pppstart` to the output buffer

`pppstart` (`ppp_tty.c`) looks for the next octet that has to be escaped, and reads the octet behind the one that it
has looked at before it checks whether there is one.

* `scanAhead` — the loop: how far it gets, and which indices it reads.
* `startReads` — the indices that a call reads, with the length of the buffer.
* `Tx.ahead` — the buffers that are still to be sent.

A buffer is scanned to its end when the octets that are left of it are sent as they are.  So the accesses are within
the buffers exactly when the last octet of each of them has to be escaped: **`readsInside_iff`**.
-/

namespace RtemsLibbsd.Ppp

open List RtemsLibbsd.Transition

/-- The loop over the octets of the buffer from the index on, the first of which is `sc_outchar`: the final
`ioffset`, and the indices that are read.  Behind the last octet the loop ends whatever it has read there. -/
def scanAhead (asyncmap : ExtAccm) : Nat → List Byte → Nat × List Nat
  | _, [] => (0, [])
  | i, c :: cs =>
    if ESCAPE_P asyncmap c then (0, [])
    else
      let r := scanAhead asyncmap (i + 1) cs
      (r.1 + 1, (i + 1) :: r.2)

/-- The indices of `sc_outbuf` that are read when some octets are written out. -/
def Tx.reads (asyncmap : ExtAccm) (s : Tx) : List Nat :=
  match s.outbuf.drop s.outoff with
  | [] => []
  | c :: cs => s.outoff :: if ESCAPE_P asyncmap c then [] else (scanAhead asyncmap s.outoff (c :: cs)).2

/-- The indices that `pppstart` reads behind the adaption of the offset, with `sc_outlen`. -/
def Tx.outputReads (asyncmap : ExtAccm) (s : Tx) : List (Nat × Nat) :=
  if s.outflag.lastchar then []
  else
    match s.nextBuffer with
    | none => []
    | some t => (t.reads asyncmap).map fun i => (i, t.outbuf.length)

/-- The indices that a call of `pppstart` reads. -/
def startReads (cfg : TxConfig) (s : Tx) (len : Nat) : List (Nat × Nat) :=
  if s.outflag.busy then (s.adapt len).outputReads cfg.asyncmap else []

/-- The line when `ppp_txdaemon` has set up a packet. -/
def setUpLine (packet : List Mbuf) : Line := ⟨ppp_txdaemon packet, [PPP_FLAG], []⟩

/-- Whatever the driver does, the accesses are within the buffers. -/
def ReadsInside (cfg : TxConfig) (packet : List Mbuf) : Prop :=
  ∀ lens l len, run (lineStep cfg) (setUpLine packet) lens = some l → Allowed cfg l.request len →
    ∀ p ∈ startReads cfg l.tx len, p.1 < p.2

/-- What is behind the current buffer, up to a buffer that is empty: there the sender stops. -/
def Tx.later (s : Tx) : List (List Byte) :=
  s.outmc.tail.takeWhile (· ≠ []) ++ if s.outmc.tail.all (· ≠ []) && !s.outflag.fcs then [s.outfcsbuf] else []

/-- What is left of the current buffer, and the buffers behind it. -/
def Tx.ahead (s : Tx) : List (List Byte) :=
  if s.outflag.lastchar then [] else s.outbuf.drop s.outoff :: s.later

/-- The last octet of the buffer, if there is one, has to be escaped. -/
def EndsEscaped (asyncmap : ExtAccm) (b : List Byte) : Prop := ∀ c ∈ b.getLast?, ESCAPE_P asyncmap c = true

instance (asyncmap : ExtAccm) (b : List Byte) : Decidable (EndsEscaped asyncmap b) :=
  match h : b.getLast? with
  | none => .isTrue (by rw [EndsEscaped, h]; nofun)
  | some c => decidable_of_iff (ESCAPE_P asyncmap c = true) (by rw [EndsEscaped, h]; simp)

/-- The buffers of a packet that are sent: the mbufs up to an empty one, and the check sequence. -/
def outBuffers (packet : List Mbuf) : List (List Byte) := (ppp_txdaemon packet).ahead

section Scan

variable {asyncmap : ExtAccm}

theorem mem_scanAhead_iff {i j : Nat} {cs : List Byte} :
    j ∈ (scanAhead asyncmap i cs).2 ↔ i < j ∧ j ≤ i + (cs.takeWhile fun d => !ESCAPE_P asyncmap d).length := by
  induction cs generalizing i with
  | nil =>
    simp only [scanAhead, not_mem_nil, takeWhile_nil, length_nil, false_iff]
    omega
  | cons c cs ih =>
    unfold scanAhead
    cases hc : ESCAPE_P asyncmap c with
    | true =>
      simp only [hc, if_true, not_mem_nil, takeWhile_cons, Bool.not_true, Bool.false_eq_true, if_false,
        length_nil, false_iff]
      omega
    | false =>
      simp only [hc, Bool.false_eq_true, if_false, mem_cons, ih, takeWhile_cons, Bool.not_false, if_true,
        length_cons]
      omega

def PlainRest (asyncmap : ExtAccm) (b : List Byte) : Prop := b ≠ [] ∧ ∀ c ∈ b, ESCAPE_P asyncmap c = false

theorem length_takeWhile_lt {b : List Byte} (hne : b ≠ []) (h : ¬ PlainRest asyncmap b) :
    (b.takeWhile fun d => !ESCAPE_P asyncmap d).length < b.length := by
  refine Nat.lt_of_le_of_ne (List.takeWhile_prefix _).length_le fun heq => h ⟨hne, fun c hc => ?_⟩
  have hall := (List.takeWhile_prefix (fun d => !ESCAPE_P asyncmap d) (l := b)).eq_of_length heq
  have := takeWhile_eq_self_iff.mp hall c hc
  simpa using this

/-- An access is behind the end of the buffer exactly when nothing that is left of it has to be escaped. -/
theorem reads_inside_iff (s : Tx) :
    (∀ i ∈ s.reads asyncmap, i < s.outbuf.length) ↔ ¬ PlainRest asyncmap (s.outbuf.drop s.outoff) := by
  unfold Tx.reads
  cases hdrop : s.outbuf.drop s.outoff with
  | nil => exact ⟨fun _ h => h.1 rfl, fun _ i hi => absurd hi not_mem_nil⟩
  | cons c cs =>
    have hlen : s.outoff + (c :: cs).length = s.outbuf.length := by
      grind
    have hpos : s.outoff < s.outbuf.length := by rw [← hlen, length_cons]; omega
    rw [forall_mem_cons]
    cases hc : ESCAPE_P asyncmap c with
    | true =>
      refine ⟨fun _ h => ?_, fun _ => ⟨hpos, fun i hi => absurd hi not_mem_nil⟩⟩
      exact Bool.noConfusion ((h.2 c mem_cons_self).symm.trans hc)
    | false =>
      constructor
      · rintro ⟨-, h⟩ hplain
        have hall : (c :: cs).takeWhile (fun d => !ESCAPE_P asyncmap d) = c :: cs :=
          takeWhile_eq_self_iff.mpr fun d hd => by rw [hplain.2 d hd]; rfl
        have hmem : s.outbuf.length ∈ (scanAhead asyncmap s.outoff (c :: cs)).2 :=
          mem_scanAhead_iff.mpr ⟨hpos, by rw [hall, hlen]⟩
        exact absurd (h _ hmem) (Nat.lt_irrefl _)
      · intro h
        refine ⟨hpos, fun i hi => ?_⟩
        have hless := length_takeWhile_lt (cons_ne_nil c cs) h
        have := (mem_scanAhead_iff.mp hi).2
        omega

end Scan

section Ahead

variable {cfg : TxConfig} {s t : Tx}

variable {asyncmap : ExtAccm} {b : List Byte}

theorem endsEscaped_drop (h : EndsEscaped asyncmap b) (n : Nat) :
    EndsEscaped asyncmap (b.drop n) := by
  intro c hc
  apply h c
  rw [getLast?_drop] at hc
  split at hc
  · cases hc
  · exact hc

theorem endsEscaped_of_drop {n : Nat} (hn : n < b.length)
    (h : EndsEscaped asyncmap (b.drop n)) : EndsEscaped asyncmap b := by
  intro c hc
  apply h c
  rw [getLast?_drop, if_neg (by omega)]
  exact hc

theorem not_plainRest (h : EndsEscaped asyncmap b) : ¬ PlainRest asyncmap b := by
  rintro ⟨hne, hplain⟩
  have hlast := getLast?_eq_some_getLast hne
  have := h _ hlast
  rw [hplain _ (getLast_mem hne)] at this
  cases this

theorem nextBuffer_ahead (hchar : s.outflag.lastchar = false) (hfcsbuf : s.outfcsbuf ≠ []) (ht : s.nextBuffer = some t) :
    (t.outflag = { s.outflag with fcs := t.outflag.fcs } ∧ t.outfcsbuf = s.outfcsbuf) ∧
      (t.outbuf.drop t.outoff = [] ∧ (∀ b ∈ s.ahead, b = []) ∨
        t.outbuf.drop t.outoff ≠ [] ∧ (s.ahead = t.ahead ∨ s.ahead = [] :: t.ahead)) := by
  unfold Tx.nextBuffer at ht
  split at ht
  · rename_i hend
    have hnil : s.outbuf.drop s.outoff = [] := drop_eq_nil_of_le hend
    split at ht
    · rename_i first m ms hmc
      cases ht
      refine ⟨⟨rfl, rfl⟩, ?_⟩
      by_cases hm : m = []
      · exact .inl ⟨hm, by simp [Tx.ahead, hchar, hnil, Tx.later, hmc, hm]⟩
      · exact .inr ⟨hm, .inr (by simp [Tx.ahead, hchar, hnil, Tx.later, hmc, hm])⟩
    · rename_i hmc
      have htail : s.outmc.tail = [] := by
        cases hlist : s.outmc with
        | nil => rfl
        | cons first rest =>
          cases rest with
          | nil => rfl
          | cons m ms => exact absurd hlist (hmc first m ms)
      split at ht
      · cases ht
      · rename_i hfcs
        cases ht
        exact ⟨⟨rfl, rfl⟩, .inr ⟨hfcsbuf, .inr (by simp [Tx.ahead, hchar, hnil, Tx.later, htail, hfcs])⟩⟩
  · rename_i hmore
    cases ht
    exact ⟨⟨rfl, rfl⟩, .inr ⟨fun hnil => hmore (drop_eq_nil_iff.mp hnil), .inl rfl⟩⟩

theorem ahead_of_nextBuffer_none (ht : s.nextBuffer = none) : ∀ b ∈ s.ahead, b = [] := by
  unfold Tx.nextBuffer at ht
  split at ht
  · rename_i hend
    have hnil : s.outbuf.drop s.outoff = [] := drop_eq_nil_of_le hend
    split at ht
    · cases ht
    · rename_i hmc
      have htail : s.outmc.tail = [] := by
        cases hlist : s.outmc with
        | nil => rfl
        | cons first rest =>
          cases rest with
          | nil => rfl
          | cons m ms => exact absurd hlist (hmc first m ms)
      split at ht
      · rename_i hfcs
        intro b hb
        unfold Tx.ahead at hb
        split at hb
        · cases hb
        · simpa [hnil, Tx.later, htail, hfcs] using hb
      · cases ht
  · cases ht

structure Advances (cfg : TxConfig) (t u : Tx) (j : Nat) : Prop where
  outbuf : u.outbuf = t.outbuf
  outoff : u.outoff = t.outoff + j
  outmc : u.outmc = t.outmc
  outfcsbuf : u.outfcsbuf = t.outfcsbuf
  busy : u.outflag.busy = t.outflag.busy
  lastchar : u.outflag.lastchar = t.outflag.lastchar
  fcs : u.outflag.fcs = t.outflag.fcs

theorem Advances.ahead {u : Tx} {j : Nat} (h : Advances cfg t u j) (hchar : t.outflag.lastchar = false) :
    u.ahead = (t.outbuf.drop t.outoff).drop j :: t.later := by
  unfold Tx.ahead Tx.later
  rw [h.lastchar, hchar, h.outbuf, h.outoff, h.outmc, h.outfcsbuf, h.fcs, drop_drop]
  rfl

variable {len : Nat}

theorem writeOut_advances {c : Byte} {cs : List Byte} (hdrop : t.outbuf.drop t.outoff = c :: cs)
    (hlen : Allowed cfg (t.writeOut cfg).2 len) :
    ∃ j, Advances cfg t ((t.writeOut cfg).1.adapt len) j ∧ (ESCAPE_P cfg.asyncmap c = true ∧
          (j = 0 ∧ t.outflag.escape = false ∧ ((t.writeOut cfg).1.adapt len).outflag.escape = true ∨ j = 1) ∨
        ESCAPE_P cfg.asyncmap c = false ∧ j = len ∧
          (t.writeOut cfg).2 = (c :: cs).takeWhile (fun d => !ESCAPE_P cfg.asyncmap d) ∧
          ((t.writeOut cfg).1.adapt len).outflag.escape = t.outflag.escape) := by
  unfold Tx.writeOut at hlen ⊢
  rw [hdrop] at hlen ⊢
  dsimp only at hlen ⊢
  cases hc : ESCAPE_P cfg.asyncmap c with
  | true =>
    rw [hc, if_pos rfl] at hlen
    rw [if_pos rfl]
    cases he : t.outflag.escape with
    | true =>
      rw [he, if_pos rfl] at hlen
      rw [if_pos rfl]
      obtain rfl := allowed_singleton hlen
      rw [adapt_written Nat.one_pos fun _ => rfl]
      exact ⟨1, ⟨rfl, rfl, rfl, rfl, rfl, rfl, rfl⟩, .inl ⟨rfl, .inr rfl⟩⟩
    | false =>
      rw [if_neg Bool.false_ne_true]
      rw [adapt_written_zero]
      exact ⟨0, ⟨rfl, rfl, rfl, rfl, rfl, rfl, rfl⟩, .inl ⟨rfl, .inl ⟨rfl, rfl, rfl⟩⟩⟩
  | false =>
    rw [hc, if_neg Bool.false_ne_true] at hlen
    rw [if_neg Bool.false_ne_true]
    obtain ⟨hpos, hle, hpolled⟩ := hlen
    rw [adapt_written (Nat.lt_of_lt_of_le hpos hle) hpolled]
    exact ⟨len, ⟨rfl, rfl, rfl, rfl, rfl, rfl, rfl⟩, .inr ⟨rfl, rfl, rfl, rfl⟩⟩

theorem adapt_outflag (s : Tx) (len : Nat) : (s.adapt len).outflag = s.outflag ∧ (s.adapt len).outfcsbuf = s.outfcsbuf := by
  unfold Tx.adapt
  split <;> exact ⟨rfl, rfl⟩

theorem allowed_ne_nil {request : List Byte} (h : Allowed cfg request len) : request ≠ [] := by
  rintro rfl
  exact absurd (Nat.le_trans h.1 h.2.1) (Nat.not_succ_le_zero 0)

/-- The cases of `pppstart`: the end of the frame, its last flag, or octets of a buffer. -/
theorem output_cases (hfcsbuf : s.outfcsbuf ≠ []) :
    (s.outflag.lastchar = true ∧ (s.output cfg).2 = []) ∨
      (s.outflag.lastchar = false ∧ (∀ b ∈ s.ahead, b = []) ∧ s.outputReads cfg.asyncmap = [] ∧
        ∀ len, Allowed cfg (s.output cfg).2 len → ((s.output cfg).1.adapt len).outflag.lastchar = true ∧
          ((s.output cfg).1.adapt len).outfcsbuf = s.outfcsbuf) ∨
      ∃ (t : Tx) (c : Byte) (cs : List Byte), s.outflag.lastchar = false ∧
        t.outbuf.drop t.outoff = c :: cs ∧ s.output cfg = t.writeOut cfg ∧
        (s.ahead = t.ahead ∨ s.ahead = [] :: t.ahead) ∧ t.outflag = { s.outflag with fcs := t.outflag.fcs } ∧
        t.outfcsbuf = s.outfcsbuf ∧
        s.outputReads cfg.asyncmap = (t.reads cfg.asyncmap).map fun i => (i, t.outbuf.length) := by
  unfold Tx.output Tx.outputReads
  cases hchar : s.outflag.lastchar with
  | true => exact .inl ⟨rfl, rfl⟩
  | false =>
    rw [if_neg Bool.false_ne_true, if_neg Bool.false_ne_true]
    cases ht : s.nextBuffer with
    | none =>
      refine .inr (.inl ⟨rfl, ahead_of_nextBuffer_none ht, rfl, fun len _ => ?_⟩)
      exact ⟨congrArg OutFlag.lastchar (adapt_outflag _ len).1, (adapt_outflag _ len).2⟩
    | some t =>
      obtain ⟨⟨hflag, hfcs⟩, ⟨hnil, hahead⟩ | ⟨hne, hahead⟩⟩ := nextBuffer_ahead hchar hfcsbuf ht
      · -- the sender stops at an empty mbuf
        have hreads : t.reads cfg.asyncmap = [] := by unfold Tx.reads; rw [hnil]
        have hrequest : (t.writeOut cfg).2 = [] := by unfold Tx.writeOut; rw [hnil]
        refine .inr (.inl ⟨rfl, hahead, ?_, fun len hlen => absurd hrequest (allowed_ne_nil hlen)⟩)
        simp [hreads]
      · obtain ⟨c, cs, hdrop⟩ := exists_cons_of_ne_nil hne
        exact .inr (.inr ⟨t, c, cs, rfl, hdrop, rfl, hahead, hflag, hfcs, rfl⟩)

/-- The last octets of all buffers that are ahead have to be escaped. -/
structure Guarded (cfg : TxConfig) (s : Tx) : Prop where
  ahead : ∀ b ∈ s.ahead, EndsEscaped cfg.asyncmap b
  fcsbuf : s.outfcsbuf ≠ []

theorem Guarded.output (h : Guarded cfg s) (hlen : Allowed cfg (s.output cfg).2 len) :
    Guarded cfg ((s.output cfg).1.adapt len) := by
  rcases output_cases h.fcsbuf with ⟨_, hnil⟩ | ⟨_, _, _, hlast⟩ | ⟨t, c, cs, hchar, hdrop, hout, hahead, hflag, hfcs, _⟩
  · exact absurd hnil (allowed_ne_nil hlen)
  · obtain ⟨hlast, hfcs⟩ := hlast len hlen
    refine ⟨fun b hb => ?_, hfcs ▸ h.fcsbuf⟩
    rw [Tx.ahead, if_pos hlast] at hb
    cases hb
  · rw [hout] at hlen ⊢
    obtain ⟨j, hadv, -⟩ := writeOut_advances hdrop hlen
    have htchar : t.outflag.lastchar = false := by rw [hflag]; exact hchar
    have ht : ∀ b ∈ t.ahead, EndsEscaped cfg.asyncmap b := by
      intro b hb
      grind [h.ahead]
    refine ⟨?_, by rw [hadv.outfcsbuf, hfcs]; exact h.fcsbuf⟩
    have hsplit : t.ahead = t.outbuf.drop t.outoff :: t.later := by rw [Tx.ahead, if_neg (by rw [htchar]; nofun)]
    rw [hadv.ahead htchar, forall_mem_cons]
    rw [hsplit, forall_mem_cons] at ht
    exact ⟨endsEscaped_drop ht.1 j, ht.2⟩

theorem Guarded.reads (h : Guarded cfg s) : ∀ p ∈ s.outputReads cfg.asyncmap, p.1 < p.2 := by
  rcases output_cases h.fcsbuf with ⟨hlast, _⟩ | ⟨_, _, hreads, _⟩ | ⟨t, c, cs, hchar, hdrop, _, hahead, hflag, _, hreads⟩
  · rw [Tx.outputReads, if_pos hlast]
    exact fun p hp => absurd hp not_mem_nil
  · rw [hreads]
    exact fun p hp => absurd hp not_mem_nil
  · rw [hreads]
    intro p hp
    obtain ⟨i, hi, rfl⟩ := mem_map.mp hp
    have htchar : t.outflag.lastchar = false := by rw [hflag]; exact hchar
    have hmem : t.outbuf.drop t.outoff ∈ t.ahead := by
      rw [Tx.ahead, if_neg (by rw [htchar]; nofun)]
      exact mem_cons_self
    have hends : EndsEscaped cfg.asyncmap (t.outbuf.drop t.outoff) := by
      grind [h.ahead]
    exact (reads_inside_iff t).mpr (not_plainRest hends) i hi

/-- What is left of the frame, an octet that is still to be escaped counted twice. -/
def aheadMeasure (s : Tx) : Nat := 2 * s.ahead.flatten.length + if s.outflag.escape then 0 else 1

/-- The driver sends all that is requested: the buffers are read to their ends, and one of them beyond it. -/
theorem exists_read_outside (n : Nat) : ∀ {l : Line}, l.request ≠ [] → l.tx.outflag.busy = true →
    (l.tx.adapt l.request.length).outfcsbuf ≠ [] → aheadMeasure (l.tx.adapt l.request.length) ≤ n →
    (∃ b ∈ (l.tx.adapt l.request.length).ahead, ¬ EndsEscaped cfg.asyncmap b) →
    ∃ lens l' len, run (lineStep cfg) l lens = some l' ∧ Allowed cfg l'.request len ∧
      ∃ p ∈ startReads cfg l'.tx len, ¬ p.1 < p.2 := by
  induction n with
  | zero =>
    intro l _ _ _ hn ⟨b, hb, hends⟩
    have hne : b ≠ [] := by
      rintro rfl
      exact hends nofun
    have hpos : 0 < (l.tx.adapt l.request.length).ahead.flatten.length := by
      have := (sublist_flatten_of_mem hb).length_le
      have := length_pos_iff.mpr hne
      omega
    unfold aheadMeasure at hn
    omega
  | succ n ih =>
    intro l hrequest hbusy hfcsbuf hn ⟨b, hb, hends⟩
    have hall : Allowed cfg l.request l.request.length :=
      ⟨length_pos_iff.mpr hrequest, Nat.le_refl _, fun _ => rfl⟩
    have hne : b ≠ [] := by
      rintro rfl
      exact hends nofun
    have hreadseq : startReads cfg l.tx l.request.length =
        (l.tx.adapt l.request.length).outputReads cfg.asyncmap := if_pos hbusy
    rcases @output_cases cfg _ hfcsbuf with ⟨hlast, _⟩ | ⟨_, hahead, _, _⟩ |
        ⟨t, c, cs, hchar, hdrop, hout, hahead, hflag, hfcs, hreads⟩
    · rw [Tx.ahead, if_pos hlast] at hb
      cases hb
    · exact absurd (hahead b hb) hne
    · have htchar : t.outflag.lastchar = false := by rw [hflag]; exact hchar
      have htahead : t.ahead = (c :: cs) :: t.later := by
        rw [Tx.ahead, if_neg (by rw [htchar]; nofun), hdrop]
      have hbt : b = c :: cs ∨ b ∈ t.later := by
        grind
      by_cases hplain : PlainRest cfg.asyncmap (c :: cs)
      · -- the octets that are left are sent as they are: the loop reads the one behind them
        refine ⟨[], l, l.request.length, rfl, hall, ?_⟩
        grind [reads_inside_iff, mem_map_of_mem]
      · have hstart : pppstart cfg l.tx l.request.length = t.writeOut cfg := (if_pos hbusy).trans hout
        have hstep : lineStep cfg l l.request.length =
            some ⟨(t.writeOut cfg).1, (t.writeOut cfg).2, l.wire ++ l.request.take l.request.length⟩ := by
          rw [← hstart]
          exact if_pos hall
        have hnext : (t.writeOut cfg).2 ≠ [] := by
          unfold Tx.writeOut
          rw [hdrop]
          dsimp only
          cases hc : ESCAPE_P cfg.asyncmap c with
          | true => cases t.outflag.escape <;> exact cons_ne_nil _ _
          | false => simp [hc]
        obtain ⟨j, hadv, hj⟩ := writeOut_advances hdrop
          ⟨length_pos_iff.mpr hnext, Nat.le_refl _, fun _ => rfl⟩
        have hlt : b = c :: cs → j < (c :: cs).length := by
          intro hb
          rcases hj with ⟨hc, ⟨hj, -⟩ | hj⟩ | ⟨hc, hj, hrun, -⟩
          · rw [hj]; exact Nat.zero_lt_succ _
          · rw [hj, length_cons]
            -- the last octet does not have to be escaped, so there is another one
            have hcs : cs ≠ [] := by
              rintro rfl
              apply hends
              rw [hb]
              intro d hd
              cases hd
              exact hc
            have := length_pos_iff.mpr hcs
            omega
          · rw [hj, hrun]
            exact length_takeWhile_lt (cons_ne_nil c cs) hplain
        have hmeasure : aheadMeasure ((t.writeOut cfg).1.adapt (t.writeOut cfg).2.length) < aheadMeasure
            (l.tx.adapt l.request.length) := by
          have hsame : aheadMeasure (l.tx.adapt l.request.length) = aheadMeasure t := by
            grind [aheadMeasure]
          rw [hsame]
          unfold aheadMeasure
          rw [hadv.ahead htchar, htahead, hdrop]
          simp only [flatten_cons, length_append, length_drop, length_cons]
          rcases hj with ⟨_, ⟨hj, he, he'⟩ | hj⟩ | ⟨hc, hj, hrun, he⟩
          · rw [hj, he, he', if_pos rfl, if_neg Bool.false_ne_true]
            omega
          · rw [hj]
            split <;> split <;> omega
          · have := length_pos_iff.mpr hnext
            rw [he, hj]
            omega
        have hbusy' : (t.writeOut cfg).1.outflag.busy = true := by
          rw [← (adapt_outflag (t.writeOut cfg).1 (t.writeOut cfg).2.length).1, hadv.busy, hflag]
          exact (congrArg OutFlag.busy (adapt_outflag l.tx _).1).trans hbusy
        have hfcsbuf' : ((t.writeOut cfg).1.adapt (t.writeOut cfg).2.length).outfcsbuf ≠ [] := by
          rw [hadv.outfcsbuf, hfcs]
          exact hfcsbuf
        have hahead' : ∃ b ∈ ((t.writeOut cfg).1.adapt (t.writeOut cfg).2.length).ahead,
            ¬ EndsEscaped cfg.asyncmap b := by
          grind [hadv.ahead, endsEscaped_of_drop]
        obtain ⟨lens, l', len, hrun, hlen, hread⟩ :=
          ih (l := ⟨(t.writeOut cfg).1, (t.writeOut cfg).2, l.wire ++ l.request.take l.request.length⟩)
            hnext hbusy' hfcsbuf' (Nat.le_of_lt_succ (Nat.lt_of_lt_of_le hmeasure hn)) hahead'
        exact ⟨l.request.length :: lens, l', len, run_cons.mpr ⟨_, hstep, hrun⟩, hlen, hread⟩

end Ahead

section Main

variable {cfg : TxConfig}

def LineGuarded (cfg : TxConfig) (l : Line) : Prop := ∀ len, Allowed cfg l.request len → Guarded cfg (l.tx.adapt len)

theorem lineGuarded_step (l : Line) (len : Nat) (l' : Line) (h : LineGuarded cfg l)
    (hstep : lineStep cfg l len = some l') : LineGuarded cfg l' := by
  unfold lineStep at hstep
  split at hstep
  · rename_i hallowed
    cases hstep
    intro len' hlen'
    unfold pppstart at hlen' ⊢
    split at hlen'
    · rename_i hbusy
      rw [if_pos hbusy]
      exact (h len hallowed).output hlen'
    · exact absurd rfl (allowed_ne_nil hlen')
  · cases hstep

/-- **`pppstart` stays within its buffers exactly when the last octet of each of them has to be escaped.** -/
theorem readsInside_iff (cfg : TxConfig) (packet : List Mbuf) :
    ReadsInside cfg packet ↔ ∀ b ∈ outBuffers packet, EndsEscaped cfg.asyncmap b := by
  constructor
  · intro h b hb
    by_contra hends
    obtain ⟨lens, l, len, hrun, hlen, p, hp, hout⟩ := exists_read_outside _ (l := setUpLine packet)
      (cons_ne_nil _ _) rfl (cons_ne_nil _ _) (Nat.le_refl _) ⟨b, hb, hends⟩
    exact hout (h lens l len hrun hlen p hp)
  · intro h lens l len hrun hlen
    have hinit : LineGuarded cfg (setUpLine packet) := fun len _ => ⟨h, cons_ne_nil _ _⟩
    have hline := run_invariant lineGuarded_step lens _ l hinit hrun len hlen
    unfold startReads
    split
    · exact hline.reads
    · exact fun p hp => absurd hp not_mem_nil

end Main

end RtemsLibbsd.Ppp

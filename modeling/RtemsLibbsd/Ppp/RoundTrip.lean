import RtemsLibbsd.Ppp.Output

/-!
# PPP frames from the sender to the receiver

* `Fresh` — the receive chain of a receiver that has had no frame yet: nothing is linked behind `sc_mc`,
  the mbufs before it are full, and the buffers that they were taken from are still counted.
* `feed_octets` — such a receiver takes in the octets of a frame that is not too long.
* `feed_frame` — and then has the frame on the raw queue.
* `frameOf_stuffed` — the octets between the flags are read back as the packet.
* `framing_round_trip` — from the packet in the sender to the raw queue of the receiver.
-/

namespace RtemsLibbsd.Ppp

open Option List RtemsLibbsd.OctetStuffing RtemsLibbsd.Transition

section Receiver

variable {cfg : RxConfig} {s : Softc} {cur : Cur} {c : Byte}

structure Fresh (cfg : RxConfig) (s : Softc) (cur : Cur) : Prop where
  behind : cur.behind = []
  before : ∀ b ∈ cur.before, MCLBYTES ≤ b.length
  octets : s.ilen = ((cur.before.flatten.length + cur.mc.length : Nat) : Int)
  limit : s.ilen ≤ (cfg.mru + PPP_HDRLEN + PPP_FCSLEN : Nat)
  buffers : NUM_MBUFQ - 1 ≤ cur.before.length + s.freeq.length

/-- The receiver has not run out of buffers, and its chain is as before if it goes on with the frame. -/
structure Fed (cfg : RxConfig) (s : Softc) : Prop where
  fed : s.starved = false
  chain : s.flush = false → ∃ cur, s.m = some cur ∧ Fresh cfg s cur

theorem fed_toFlush (hfed : s.starved = false) (cur : Cur) : Fed cfg (s.toFlush cur) := ⟨hfed, nofun⟩

theorem length_flatten_of_full {bs : List Mbuf} (h : ∀ b ∈ bs, MCLBYTES ≤ b.length) :
    MCLBYTES * bs.length ≤ bs.flatten.length := by
  induction bs with
  | nil => exact Nat.zero_le _
  | cons b bs ih =>
    grind

theorem Fresh.restart (h : Fresh cfg s cur) (hilen : s.ilen = 0) : cur.restart = ⟨[], [], []⟩ := by
  have hfull := length_flatten_of_full h.before
  have hoctets := h.octets
  rw [show MCLBYTES = 2048 from rfl] at hfull
  have hnone : cur.before = [] := length_eq_zero_iff.mp (by omega)
  rw [Cur.restart, hnone, h.behind]

theorem Fresh.freeq (h : Fresh cfg s cur) (hmru : cfg.mru < MCLBYTES) : s.freeq ≠ [] := by
  have hfull := length_flatten_of_full h.before
  have hoctets := h.octets
  have hlimit := h.limit
  have hbuffers := h.buffers
  grind

theorem fed_append (hmru : cfg.mru < MCLBYTES) (h : Fresh cfg s cur) {t : Softc}
    (hfree : t.freeq = s.freeq) (hstarved : t.starved = false) (hilen : t.ilen = s.ilen + 1)
    (hlimit : t.ilen ≤ (cfg.mru + PPP_HDRLEN + PPP_FCSLEN : Nat)) : Fed cfg (t.append cur c) := by
  have hoctets := h.octets
  unfold Softc.append Softc.room
  split
  · rename_i hnone
    split at hnone
    · cases hnone
    · rw [h.behind] at hnone
      dsimp only at hnone
      split at hnone
      · rename_i hnil
        exact absurd (hfree.symm.trans hnil) (h.freeq hmru)
      · cases hnone
  · rename_i hsome
    split at hsome
    · cases hsome
      refine ⟨hstarved, fun _ => ⟨_, rfl, h.behind, h.before, ?_, hlimit, ?_⟩⟩
      · show t.ilen = ((cur.before.flatten.length + (cur.mc ++ [c]).length : Nat) : Int)
        rw [length_append, length_singleton]
        omega
      · exact hfree ▸ h.buffers
    · rw [h.behind] at hsome
      dsimp only at hsome
      split at hsome
      · cases hsome
      · rename_i b freeq hcons
        cases hsome
        refine ⟨hstarved, fun _ => ⟨_, rfl, rfl, fun d hd => ?_, ?_, hlimit, ?_⟩⟩
        · rcases mem_append.mp hd with hd | hd
          · exact h.before d hd
          · rw [mem_singleton.mp hd]
            omega
        · show t.ilen = (((cur.before ++ [cur.mc]).flatten.length + ([] ++ [c]).length : Nat) : Int)
          grind
        · show NUM_MBUFQ - 1 ≤ (cur.before ++ [cur.mc]).length + freeq.length
          grind [h.buffers]

theorem Fresh.short_succ (h : Fresh cfg s cur) (hmru : cfg.mru < MCLBYTES) :
    short (s.ilen + 1) = s.ilen + 1 := by
  have hlimit := h.limit
  have hoctets := h.octets
  have hconst : MCLBYTES = 2048 ∧ PPP_HDRLEN = 4 ∧ PPP_FCSLEN = 2 := ⟨rfl, rfl, rfl⟩
  rw [hoctets, ← Int.natCast_succ]
  exact short_eq (by omega)

theorem fresh_protocolOctet (hmru : cfg.mru < MCLBYTES) (h : Fresh cfg s cur) (c : Byte) :
    Fresh cfg (s.protocolOctet cur c).1 (s.protocolOctet cur c).2 := by
  unfold Softc.protocolOctet
  split
  · have hshort := h.short_succ hmru
    have hoctets := h.octets
    refine ⟨h.behind, h.before, ?_, ?_, h.buffers⟩
    · show short (s.ilen + 1) = ((cur.before.flatten.length + (cur.mc ++ [0]).length : Nat) : Int)
      rw [hshort, length_append, length_singleton]
      omega
    · grind
  · exact h

theorem starved_protocolOctet (s : Softc) (cur : Cur) (c : Byte) :
    (s.protocolOctet cur c).1.starved = s.starved := by
  unfold Softc.protocolOctet
  split <;> rfl

theorem fed_storeOctet (hmru : cfg.mru < MCLBYTES) (h : Fresh cfg s cur) (hfed : s.starved = false) :
    Fed cfg (s.storeOctet cfg cur c) := by
  have hprotocol := fresh_protocolOctet hmru h c
  have hstarved : (s.protocolOctet cur c).1.starved = false := (starved_protocolOctet s cur c).trans hfed
  unfold Softc.storeOctet
  split
  · exact fed_toFlush hfed cur
  · dsimp only
    split
    · exact fed_toFlush hstarved _
    · split
      · grind [fed_toFlush]
      · rename_i hlimit
        exact fed_append hmru hprotocol rfl hstarved (hprotocol.short_succ hmru) (Int.not_lt.mp hlimit)

theorem fed_store (hmru : cfg.mru < MCLBYTES) (h : Fresh cfg s cur) (hfed : s.starved = false) :
    Fed cfg (s.store cfg cur c) := by
  unfold Softc.store Softc.firstOctet
  split
  · rename_i hilen
    have hrestart := h.restart hilen
    have hbuffers : NUM_MBUFQ - 1 ≤ s.freeq.length := by
      have hnone : cur.before = [] := by
        have hfull := length_flatten_of_full h.before
        have hoctets := h.octets
        rw [show MCLBYTES = 2048 from rfl] at hfull
        exact length_eq_zero_iff.mp (by omega)
      have hbuffers := h.buffers
      rw [hnone, length_nil, Nat.zero_add] at hbuffers
      exact hbuffers
    have hempty : ∀ b ∈ ([] : List Mbuf), MCLBYTES ≤ b.length := nofun
    have hzero : s.ilen ≤ (cfg.mru + PPP_HDRLEN + PPP_FCSLEN : Nat) := h.limit
    rw [hrestart]
    split
    · split
      · exact fed_toFlush (s := { s with fcs := PPP_INITFCS }) hfed _
      · refine fed_storeOctet hmru ⟨rfl, hempty, ?_, ?_, (Nat.zero_add _).symm ▸ hbuffers⟩ hfed
        · show short (s.ilen + 2) = 2
          rw [hilen]
          rfl
        · grind [short]
    · exact fed_storeOctet hmru ⟨rfl, hempty, hilen, hzero, (Nat.zero_add _).symm ▸ hbuffers⟩ hfed
  · exact fed_storeOctet hmru h hfed

theorem fed_octet (hmru : cfg.mru < MCLBYTES) (h : Fresh cfg s cur) (hm : s.m = some cur)
    (hfed : s.starved = false) (hc : c ≠ PPP_FLAG) : Fed cfg (s.octet cfg cur c) := by
  unfold Softc.octet
  rw [if_neg hc]
  split
  · exact ⟨hfed, fun _ => ⟨cur, hm, h⟩⟩
  · split
    · exact fed_store hmru ⟨h.behind, h.before, h.octets, h.limit, h.buffers⟩ hfed
    · split
      · exact ⟨hfed, fun _ => ⟨cur, hm, h.behind, h.before, h.octets, h.limit, h.buffers⟩⟩
      · exact fed_store hmru h hfed

end Receiver

section Frame

variable {cfg : RxConfig} {s : Softc} {c : Byte} {seg : List Byte}

theorem expand_prefix {rejCompAc : Bool} {us vs e : List Byte} (h : expand rejCompAc (us ++ vs) = some e) :
    ∃ e', expand rejCompAc us = some e' ∧ e'.length ≤ e.length := by
  induction vs using List.reverseRecOn generalizing e with
  | nil => exact ⟨e, by rwa [append_nil] at h, Nat.le_refl _⟩
  | append_singleton vs c ih =>
    rw [← append_assoc, expand_concat, bind_eq_some_iff] at h
    obtain ⟨e₁, h₁, hput⟩ := h
    obtain ⟨e', he', hle⟩ := ih h₁
    exact ⟨e', he', Nat.le_trans hle (length_put_le hput)⟩

theorem heard_append (cfg : RxConfig) (seg rest : List Byte) :
    ∃ ws, (heard cfg (seg ++ rest)).1 = (heard cfg seg).1 ++ ws := by
  induction rest using List.reverseRecOn with
  | nil => exact ⟨[], by simp⟩
  | append_singleton rest c ih =>
    grind [heard_concat, scanOctet]

/-- The octets of a segment stand for something that is not too long. -/
def Admissible (cfg : RxConfig) (seg : List Byte) : Prop :=
  ∃ e, expand cfg.rejCompAc (heard cfg seg).1 = some e ∧ e.length ≤ cfg.mru + PPP_HDRLEN + PPP_FCSLEN

theorem Admissible.of_append {rest : List Byte} (h : Admissible cfg (seg ++ rest)) : Admissible cfg seg := by
  obtain ⟨e, he, hle⟩ := h
  obtain ⟨ws, hws⟩ := heard_append cfg seg rest
  rw [hws] at he
  obtain ⟨e', he', hle'⟩ := expand_prefix he
  exact ⟨e', he', Nat.le_trans hle' hle⟩

structure Hears (cfg : RxConfig) (s : Softc) (seg : List Byte) : Prop where
  receives : Receives cfg s seg
  fed : s.starved = false
  chain : ∃ cur, s.m = some cur ∧ Fresh cfg s cur

theorem pppinput_eq {cur : Cur} (hm : s.m = some cur) (c : Byte) :
    pppinput cfg s c = s.octet cfg cur c := by
  unfold pppinput
  grind

theorem Hears.octet (hmru : cfg.mru < MCLBYTES) (h : Hears cfg s seg) (hc : c ≠ PPP_FLAG)
    (hadm : Admissible cfg (seg ++ [c])) :
    Hears cfg (pppinput cfg s c) (seg ++ [c]) ∧ (pppinput cfg s c).rawq = s.rawq := by
  obtain ⟨cur, hm, hfresh⟩ := h.chain
  have hfed := fed_octet hmru hfresh hm h.fed hc
  rw [pppinput_eq hm]
  obtain ⟨hreceives, hrawq⟩ := octet_spec hmru h.receives hm hc hfed.fed
  obtain ⟨e, he, hle⟩ := hadm
  have hreads := hreceives.reads
  rw [he, Reads, if_pos hle] at hreads
  exact ⟨⟨hreceives, hfed.fed, hfed.chain hreads.flush⟩, hrawq⟩

theorem Hears.free (h : Hears cfg s seg) (b : Chain) : Hears cfg (inputStep cfg s (.free b)) seg := by
  obtain ⟨cur, hm, hfresh⟩ := h.chain
  refine ⟨⟨h.receives.escaped, h.receives.reads.congr rfl rfl rfl fun _ => rfl⟩, h.fed, cur, hm, ?_⟩
  refine ⟨hfresh.behind, hfresh.before, hfresh.octets, hfresh.limit, ?_⟩
  show NUM_MBUFQ - 1 ≤ cur.before.length + (s.freeq ++ [b]).length
  rw [length_append]
  exact Nat.le_trans hfresh.buffers (by omega)

variable {as : List InputAct}

theorem feed_octets (hmru : cfg.mru < MCLBYTES) (h : Hears cfg s seg)
    (hflag : PPP_FLAG ∉ stream as) (hadm : Admissible cfg (seg ++ stream as)) :
    Hears cfg (feed cfg s as) (seg ++ stream as) ∧ (feed cfg s as).rawq = s.rawq := by
  induction as generalizing s seg with
  | nil => exact ⟨by rw [show stream [] = [] from rfl, append_nil]; exact h, rfl⟩
  | cons a as ih =>
    cases a with
    | free b => exact ih (h.free b) hflag hadm
    | input c =>
      have hstream : stream (.input c :: as) = c :: stream as := rfl
      rw [hstream, mem_cons, not_or] at hflag
      have hsplit : seg ++ stream (.input c :: as) = (seg ++ [c]) ++ stream as := by
        rw [hstream, append_assoc]
        rfl
      rw [hsplit] at hadm ⊢
      obtain ⟨hnext, hrawq⟩ := h.octet hmru (Ne.symm hflag.1) hadm.of_append
      obtain ⟨hlast, hrawq'⟩ := ih hnext hflag.2 hadm
      exact ⟨hlast, hrawq'.trans hrawq⟩

theorem Hears.flag (h : Hears cfg s []) :
    Hears cfg (pppinput cfg s PPP_FLAG) [] ∧ (pppinput cfg s PPP_FLAG).rawq = s.rawq := by
  obtain ⟨cur, hm, hfresh⟩ := h.chain
  have hescaped : s.escaped = false := h.receives.escaped
  have hreads : Reads cfg s [] (some []) := h.receives.reads
  have hflush := hreads.flush
  have hilen : s.ilen = 0 := hreads.ilen
  have hflag : s.octet cfg cur PPP_FLAG = { s with ilen := 0, pktlost := s.pktlost || decide (s.ilen ≠ 0) } := by
    rw [Softc.octet, if_pos rfl, Softc.endFrame]
    rw [if_neg (by simp [hflush, hescaped, hilen]), if_pos (by rw [hilen]; decide)]
  rw [pppinput_eq hm, hflag]
  refine ⟨⟨receives_nil rfl hflush hescaped, h.fed, cur, hm, ?_⟩, rfl⟩
  exact ⟨hfresh.behind, hfresh.before, hilen ▸ hfresh.octets, hilen ▸ hfresh.limit, hfresh.buffers⟩

theorem Hears.endFrame (h : Hears cfg s seg) {f : List Byte} (hf : frameOf cfg seg = some f) :
    ∃ raw, (pppinput cfg s PPP_FLAG).rawq = s.rawq ++ [raw] ∧ raw.contents = f := by
  obtain ⟨cur, hm, hfresh⟩ := h.chain
  have hoctet : pppinput cfg s PPP_FLAG = s.endFrame cur := (pppinput_eq hm PPP_FLAG).trans (if_pos rfl)
  obtain ⟨-, -, hbad, hgood⟩ := endFrame_spec h.receives hm
  rw [hoctet]
  cases hacc : s.accepts with
  | false => exact nomatch (hbad hacc).1.symm.trans hf
  | true =>
    obtain ⟨f', raw, hf', hrawq, hraw⟩ := hgood hacc
    cases hf.symm.trans hf'
    refine ⟨raw, hrawq, ?_⟩
    rw [hraw, hfresh.behind]
    exact append_nil f

theorem feed_free (h : stream as = []) : (feed cfg s as).rawq = s.rawq := by
  induction as generalizing s with
  | nil => rfl
  | cons a as ih =>
    cases a with
    | free b => exact ih (s := inputStep cfg s (.free b)) h
    | input c => cases h

theorem stream_eq_append {xs ys : List Byte} (h : stream as = xs ++ c :: ys) :
    ∃ bs ds, as = bs ++ .input c :: ds ∧ stream bs = xs ∧ stream ds = ys := by
  obtain ⟨bs, es, has, hbs, hes⟩ := filterMap_eq_append_iff.mp h
  obtain ⟨fs, a, ds, hes', hfs, ha, hds⟩ := filterMap_eq_cons_iff.mp hes
  have hinput : a = .input c := by
    cases a with
    | input d => exact congrArg InputAct.input (some.inj ha)
    | free b => cases ha
  refine ⟨bs ++ fs, ds, ?_, ?_, hds⟩
  · rw [has, hes', hinput, append_assoc]
  · have hnone : stream fs = [] := filterMap_eq_nil_iff.mpr hfs
    grind [stream]

theorem stream_map_input (cs : List Byte) : stream (cs.map .input) = cs := by
  induction cs with
  | nil => rfl
  | cons c cs ih => exact congrArg (c :: ·) ih

theorem hears_pppopen (cfg : RxConfig) : Hears cfg pppopen [] := by
  refine ⟨receives_pppopen cfg, rfl, _, rfl, rfl, nofun, rfl, ?_, ?_⟩
  · exact Int.natCast_nonneg _
  · decide

/-- **The first frame of a receiver.** -/
theorem feed_frame (hmru : cfg.mru < MCLBYTES) {body f : List Byte}
    (hflag : PPP_FLAG ∉ body) (hf : frameOf cfg body = some f)
    (has : stream as = PPP_FLAG :: body ++ [PPP_FLAG]) :
    ∃ raw, (feed cfg pppopen as).rawq = [raw] ∧ raw.contents = f := by
  have has' : stream as = [] ++ PPP_FLAG :: (body ++ [PPP_FLAG]) := has
  obtain ⟨bs, ds, rfl, hbs, hds⟩ := stream_eq_append has'
  obtain ⟨es, fs, rfl, hes, hfs⟩ := stream_eq_append hds
  have hadm : Admissible cfg body := by
    rw [frameOf_eq] at hf
    split at hf
    · cases hf
    · obtain ⟨e, he, hframe⟩ := bind_eq_some_iff.mp hf
      split at hframe
      · rename_i hgood
        exact ⟨e, he, hgood.2.2⟩
      · cases hframe
  have hempty : Admissible cfg [] := Admissible.of_append ((nil_append body).symm ▸ hadm)
  rw [feed_append]
  have hnone : PPP_FLAG ∉ stream bs := by
    rw [hbs]
    exact not_mem_nil
  obtain ⟨hfirst, hrawq₁⟩ := feed_octets hmru (hears_pppopen cfg) hnone (by rw [hbs]; exact hempty)
  rw [hbs] at hfirst
  obtain ⟨hopen, hrawq₂⟩ := hfirst.flag
  have hbodyFlag : PPP_FLAG ∉ stream es := by
    rw [hes]
    exact hflag
  obtain ⟨hbody, hrawq₃⟩ := feed_octets hmru hopen hbodyFlag (by rw [hes]; exact hadm)
  rw [hes] at hbody
  obtain ⟨raw, hrawq₄, hraw⟩ := hbody.endFrame hf
  refine ⟨raw, ?_, hraw⟩
  show (feed cfg (pppinput cfg (feed cfg pppopen bs) PPP_FLAG) (es ++ .input PPP_FLAG :: fs)).rawq = [raw]
  rw [feed_append]
  show (feed cfg (pppinput cfg (feed cfg (pppinput cfg (feed cfg pppopen bs) PPP_FLAG) es) PPP_FLAG) fs).rawq =
    [raw]
  rw [feed_free hfs, hrawq₄, hrawq₃, hrawq₂, hrawq₁]
  rfl

end Frame

section RoundTrip

variable {tx : TxConfig} {rx : RxConfig} {hi lo : Byte}

theorem expand_compressHeader {compAc compProt rejCompAc : Bool} (hhi : odd hi = false) (hlo : odd lo = true)
    (hac : compAc = true → rejCompAc = false) (data rest : List Byte) :
    expand rejCompAc (compressHeader compAc compProt (PPP_ALLSTATIONS :: PPP_UI :: hi :: lo :: data) ++ rest) =
      some (PPP_ALLSTATIONS :: PPP_UI :: hi :: lo :: (data ++ rest)) := by
  have hhead : hi ≠ PPP_ALLSTATIONS := by
    rintro rfl
    cases hhi
  have hwhole : ∀ ds, protocol (PPP_ALLSTATIONS :: PPP_UI :: hi :: lo :: ds) =
      some (PPP_ALLSTATIONS :: PPP_UI :: hi :: lo :: ds) := by
    intro ds
    simp only [protocol, hhi, hlo, Bool.false_eq_true, if_false, if_true]
  have haddress : ∀ {c : Byte} (ds : List Byte), c ≠ PPP_ALLSTATIONS → compAc = true →
      address rejCompAc (c :: ds) = some (PPP_ALLSTATIONS :: PPP_UI :: c :: ds) := by
    intro c ds hc hcomp
    rw [address_ne hc, hac hcomp]
    rfl
  unfold compressHeader
  dsimp only
  split
  · rename_i hprot
    have hsmall : hi.toNat * 256 + lo.toNat < 0xff := of_decide_eq_true (Bool.and_eq_true_iff.mp hprot).2
    have hzero : hi = 0 := BitVec.eq_of_toNat_eq (by simp; omega)
    have hlow : lo ≠ PPP_ALLSTATIONS := by
      rintro rfl
      have hval : PPP_ALLSTATIONS.toNat = 255 := rfl
      omega
    have hshort : protocol (PPP_ALLSTATIONS :: PPP_UI :: lo :: (data ++ rest)) =
        some (PPP_ALLSTATIONS :: PPP_UI :: hi :: lo :: (data ++ rest)) := by
      simp only [protocol, hlo, if_true, hzero]
    split
    · rename_i hcomp
      simp only [Bool.and_eq_true] at hcomp
      rw [expand, cons_append, haddress _ hlow hcomp.1.1.1.1]
      exact hshort
    · exact hshort
  · split
    · rename_i hcomp
      simp only [Bool.and_eq_true] at hcomp
      rw [expand, cons_append, haddress _ hhead hcomp.1.1.1.1]
      exact hwhole _
    · exact hwhole _

theorem compressHeader_ne_nil (compAc compProt : Bool) {m : Mbuf} (h : m ≠ []) :
    compressHeader compAc compProt m ≠ [] := by
  unfold compressHeader
  split
  · dsimp only
    split <;> split <;> exact cons_ne_nil _ _
  · exact h

theorem length_compressHeader_le (compAc compProt : Bool) (m : Mbuf) :
    (compressHeader compAc compProt m).length ≤ m.length := by
  unfold compressHeader
  split
  · dsimp only
    split <;> split <;> simp only [length_cons] <;> omega
  · exact Nat.le_refl _

theorem frameOf_stuffed (hmap : MapOk tx.asyncmap) (hrmap : rx.rasyncmap &&& tx.asyncmap 0 = rx.rasyncmap)
    {us e : List Byte}
    (hus : ∀ rest, expand rx.rejCompAc (us ++ rest) = some (e ++ rest)) (hmin : PPP_HDRLEN ≤ e.length)
    (hmax : e.length ≤ rx.mru + PPP_HDRLEN) :
    frameOf rx (stuffed tx (us ++ fcsBytes (pppfcs PPP_INITFCS us))) = some e := by
  have hdrop : ∀ c, removed rx.rasyncmap c = true → ESCAPE_P tx.asyncmap c = true := fun _ =>
    escape_of_removed hrmap
  have hesc : removed rx.rasyncmap PPP_ESCAPE = false := rfl
  have htr : ∀ c, ESCAPE_P tx.asyncmap c = true → removed rx.rasyncmap (transform c) = false := fun _ =>
    hmap.removed_transform rx.rasyncmap
  have hkeep := filter_stuff hdrop hesc htr (us ++ fcsBytes (pppfcs PPP_INITFCS us))
  have hread := unstuff_stuff transform_transform hmap.escape_escape (us ++ fcsBytes (pppfcs PPP_INITFCS us))
  have hgood : pppfcs PPP_INITFCS (us ++ fcsBytes (pppfcs PPP_INITFCS us)) = PPP_GOODFCS := by
    rw [pppfcs_append, pppfcs_fcsBytes]
  have hlen : ∀ fcs, (e ++ fcsBytes fcs).length = e.length + PPP_FCSLEN := fun fcs => length_append
  rw [frameOf, stuffed, hkeep, hread, bind_some, hus, bind_some,
    if_pos ⟨hgood, by rw [hlen]; omega, by rw [hlen]; omega⟩, hlen, Nat.add_sub_cancel, take_left']
  rfl

/-- **Framing round trip**: the driver sends a packet with a valid header in a bounded number of steps,
    whatever progress it reports in each of them, and can go on as long as something is requested.  A
    receiver that has just been opened then gets exactly one packet from the line, with the header and the
    payload. -/
theorem framing_round_trip (tx : TxConfig) (requests : List MapRequest)
    (hmap : tx.asyncmap = requests.foldl ppptioctl pppopenMap) (rx : RxConfig) (new : Nat)
    (hmru : pppiocsmru PPP_MRU new = some rx.mru) (hrmap : rx.rasyncmap &&& tx.asyncmap 0 = rx.rasyncmap)
    (hac : tx.compAc = true → rx.rejCompAc = false) (hi lo : Byte) (hhi : odd hi = false) (hlo : odd lo = true)
    (data : List Byte) (mbufs : List Mbuf) (hmbufs : ∀ m ∈ mbufs, m ≠ [])
    (hlen : (data ++ mbufs.flatten).length ≤ rx.mru) :
    (∀ lens t, run (lineStep tx) (txLine tx (([0xff, 0x03, hi, lo] ++ data) :: mbufs)) lens = some t →
        lens.length ≤ 2 * (data ++ mbufs.flatten).length + 14) ∧
      ∀ lens t, run (lineStep tx) (txLine tx (([0xff, 0x03, hi, lo] ++ data) :: mbufs)) lens = some t →
        (t.request ≠ [] → (lineStep tx t t.request.length).isSome) ∧
          (t.request = [] → ∀ as, stream as = t.wire →
            ∃ raw, (feed rx pppopen as).rawq = [raw] ∧
              raw.contents = [0xff, 0x03, hi, lo] ++ (data ++ mbufs.flatten)) := by
  have hpacket : ∀ m ∈ ppp_dequeue tx (([0xff, 0x03, hi, lo] ++ data) :: mbufs), m ≠ [] := by
    intro m hm
    rcases mem_cons.mp hm with rfl | hm
    · exact compressHeader_ne_nil _ _ (cons_ne_nil _ _)
    · exact hmbufs m hm
  have hmapOk : MapOk tx.asyncmap := hmap ▸ mapOk_foldl requests
  have hstart : LineOk tx _ (txLine tx (([0xff, 0x03, hi, lo] ++ data) :: mbufs)) :=
    lineOk_ppp_txdaemon hpacket
  have hok : ∀ lens t, run (lineStep tx) _ lens = some t → LineOk tx _ t := fun lens t =>
    run_invariant (fun _ _ _ h hstep => (lineOk_lineStep h hstep).1) lens _ t hstart
  refine ⟨fun lens t ht => ?_, fun lens t ht => ⟨fun hmore => ?_, fun hdone as has => ?_⟩⟩
  · have hbound := run_length_le (fun _ _ _ h hstep => lineOk_lineStep h hstep) lens _ t hstart ht
    have hstuffed := length_stuffed_le tx (frameOctets (ppp_dequeue tx (([0xff, 0x03, hi, lo] ++ data) :: mbufs)))
    have hheader := length_compressHeader_le tx.compAc tx.compProt ([0xff, 0x03, hi, lo] ++ data)
    simp only [frameOnLine, frameOctets, ppp_dequeue, fcsBytes, length_append, length_cons,
      length_nil, flatten_cons] at hbound hstuffed hheader ⊢
    omega
  · have hpos : 1 ≤ t.request.length := length_pos_of_ne_nil hmore
    rw [lineStep, if_pos ⟨hpos, Nat.le_refl _, fun _ => rfl⟩]
    rfl
  · rcases hok lens t ht with ⟨-, hwire⟩ | h
    · rw [hwire] at has
      have hflag : PPP_FLAG ∉ stuffed tx (frameOctets (ppp_dequeue tx (([0xff, 0x03, hi, lo] ++ data) :: mbufs))) :=
        flag_not_mem_stuff hmapOk.escape_flag (by decide) (fun _ => hmapOk.transform_ne_flag) _
      have hus : ∀ rest, expand rx.rejCompAc
          ((ppp_dequeue tx (([0xff, 0x03, hi, lo] ++ data) :: mbufs)).flatten ++ rest) =
            some ([0xff, 0x03, hi, lo] ++ (data ++ mbufs.flatten) ++ rest) := by
        intro rest
        rw [ppp_dequeue, flatten_cons, append_assoc, append_assoc, append_assoc]
        exact expand_compressHeader hhi hlo hac data (mbufs.flatten ++ rest)
      have hframe := frameOf_stuffed hmapOk hrmap hus (by rw [length_append]; exact Nat.le_add_right 4 _) (by
        exact Nat.add_le_add_right hlen 4)
      exact feed_frame (mru_lt_of_pppiocsmru hmru) hflag hframe has
    · exact absurd hdone h.request

/-- A packet of a network control protocol in two mbufs, sent with both header compressions by a driver
    that takes one of two requested octets first. -/
theorem framing_round_trip_ipcp :
    ∃ t raw, run (lineStep ⟨true, true, pppopenMap, false⟩)
        (txLine ⟨true, true, pppopenMap, false⟩ (([0xff, 0x03, 0x80, 0x21] ++ [1]) :: [[0x7e]]))
        [1, 1, 1, 1, 1, 1, 1, 1, 1, 1, 1] = some t ∧ t.request = [] ∧
      (feed ⟨1500, false, 0xffffffff⟩ pppopen (t.wire.map .input)).rawq = [raw] ∧
      raw.contents = [0xff, 0x03, 0x80, 0x21] ++ ([1] ++ ([[0x7e]] : List Mbuf).flatten) := by
  have hrun : ((run (lineStep ⟨true, true, pppopenMap, false⟩)
      (txLine ⟨true, true, pppopenMap, false⟩ (([0xff, 0x03, 0x80, 0x21] ++ [1]) :: [[0x7e]]))
      [1, 1, 1, 1, 1, 1, 1, 1, 1, 1, 1]).map Line.request) = some [] := by decide
  obtain ⟨t, ht, hdone⟩ := map_eq_some_iff.mp hrun
  have hpacket := framing_round_trip ⟨true, true, pppopenMap, false⟩ [] rfl ⟨1500, false, 0xffffffff⟩ 1500 rfl
    (by decide) (fun _ => rfl) 0x80 0x21 rfl rfl [1] [[0x7e]] (by decide) (by decide)
  obtain ⟨raw, hrawq, hraw⟩ := (hpacket.2 _ t ht).2 hdone (t.wire.map .input) (stream_map_input t.wire)
  exact ⟨t, raw, ht, hdone, hrawq, hraw⟩

end RoundTrip

end RtemsLibbsd.Ppp

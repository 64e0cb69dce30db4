import RtemsLibbsd.Ethernet.Mcf548xTx

/-!
# Runs of the MCF548x transmit ring

The slots of the ring from the position of the hardware on are a list: those it may transmit, those that were filled
of the frame in hand, the first of which is held back, and the rest.

* `Found` — what `fec_next_fragment` does to the frame in hand and the queue.
* `Building`, `TxInv` — the invariant; one lemma for each step.
* `transmit_iff` — a run is good exactly when the loop never comes round to the first descriptor of the frame in
  hand.
* `longFrame_reuses_first` — a frame with more elements than there are descriptors.
-/

namespace RtemsLibbsd.Mcf548x

open List RtemsLibbsd.Transition RtemsLibbsd.BufferRing RtemsLibbsd.Ethernet

/-! ## The next fragment -/

theorem fecNextFragment_cons (ifSnd : List (List Element)) (chain n : List Element) {e : Element}
    (he : 0 < e.len) (isFirst : Bool) :
    fecNextFragment ifSnd chain (e :: n) isFirst = fragmentAt e n isFirst ifSnd [] chain := by
  have hskip : skipEmpty (e :: n) = e :: n := by simp [skipEmpty, Nat.ne_of_gt he]
  have hprefix : emptyPrefix (e :: n) = [] := by simp [emptyPrefix, Nat.ne_of_gt he]
  cases ifSnd <;> rw [fecNextFragment, hskip, hprefix] <;> rfl

/-- What was found in the frame in hand, or in a frame of the queue. -/
structure Found (ifSnd : List (List Element)) (chain m : List Element) (isFirst : Bool) (r : Fragment) :
    Prop where
  perm : (r.freed ++ (ids r.m ++ ids r.ifSnd.flatten)).Perm (ids m ++ ids ifSnd.flatten)
  queue : ∀ c ∈ r.ifSnd, c ∈ ifSnd
  fragment : r.m = [] ∧ r.ifSnd = [] ∨
    ∃ e n, r.m = e :: skipEmpty n ∧ 0 < e.len ∧
      (r.isFirst = isFirst ∧ r.chain = chain ∧ filled m = e :: filled n ∨
        r.isFirst = true ∧ r.chain ∈ ifSnd ∧ filled r.chain = e :: filled n)

theorem found_at {ifSnd : List (List Element)} {m e n} (isFirst : Bool) (chain : List Element)
    (hm : skipEmpty m = e :: n) :
    Found ifSnd chain m isFirst (fragmentAt e n isFirst ifSnd (ids (emptyPrefix m)) chain) := by
  have he : 0 < e.len := skipEmpty_head hm
  have hsplit : ids m = ids (emptyPrefix m) ++ e.id :: (ids (emptyPrefix n) ++ ids (skipEmpty n)) := by
    rw [← ids_append, emptyPrefix_append, ← ids_cons, ← hm, ← ids_append, emptyPrefix_append]
  refine ⟨?_, fun c hc => hc, .inr ⟨e, n, rfl, he, .inl ⟨rfl, rfl, ?_⟩⟩⟩
  · grind [fragmentAt, ids_cons]
  · rw [← filled_skipEmpty, hm, filled_cons_pos n he]

/-- **The next fragment** is the first element that is not empty. -/
theorem fecNextFragment_found (ifSnd : List (List Element)) (chain m : List Element) (isFirst : Bool) :
    Found ifSnd chain m isFirst (fecNextFragment ifSnd chain m isFirst) := by
  induction ifSnd generalizing chain m isFirst with
  | nil =>
    unfold fecNextFragment
    split
    · rename_i e n hm
      exact found_at isFirst chain hm
    · rename_i hm
      have hall : emptyPrefix m = m := by
        rw [← append_nil (emptyPrefix m), ← hm, emptyPrefix_append]
      refine ⟨?_, nofun, .inl ⟨rfl, rfl⟩⟩
      rw [hall]
      rfl
  | cons c ifSnd ih =>
    unfold fecNextFragment
    split
    · rename_i e n hm
      exact found_at isFirst chain hm
    · rename_i hm
      have hall : emptyPrefix m = m := by
        rw [← append_nil (emptyPrefix m), ← hm, emptyPrefix_append]
      obtain ⟨hperm, hqueue, hfrag⟩ := ih c c true
      refine ⟨?_, fun d hd => mem_cons_of_mem c (hqueue d hd), ?_⟩
      · rw [hall, append_assoc, flatten_cons, ids_append]
        exact hperm.append_left (ids m)
      · grind

/-! ## The invariant -/

/-- What was filled of the frame in hand: the slots `built`, whose first one is at `i`. -/
def Building (s : TxState) (i : Nat) : List TxBd → Prop
  | [] => s.m = [] ∧ s.pc ≠ .publish
  | b :: bs => b.ready = false ∧ (∀ d ∈ bs, d.ready = true) ∧ s.first = some i ∧ s.chain ∈ s.frames ∧
    skipEmpty s.m = s.m ∧ ∃ es, (b :: bs).map TxBd.mbuf = es.map some ∧
      filled s.chain = es ++ filled s.m ∧
      (s.pc = .publish ∧ s.m = [] ∧ (b :: bs).map TxBd.desc = frameDescs es ∨
        s.pc ≠ .publish ∧ s.m ≠ [] ∧ (b :: bs).map TxBd.desc = es.map (Element.desc false))

structure TxInv (bdCount : Nat) (s : TxState) (vis built free : List TxBd) : Prop where
  view : view bdCount s.bdRing s.hwIndex = vis ++ (built ++ free)
  hw : s.hwIndex < bdCount
  wrap : ∀ k < bdCount, (s.bdRing k).wrap = decide (k + 1 = bdCount)
  index : s.pc ≠ .restart → s.bdIndex = (s.hwIndex + (vis ++ built).length) % bdCount
  visReady : ∀ d ∈ vis, d.ready = true
  freeIdle : ∀ d ∈ free, d.ready = false ∧ ∀ i ∈ d.ids, i ∈ s.done
  building : Building s ((s.hwIndex + vis.length) % bdCount) built
  stream : s.sent ++ vis.map TxBd.desc = s.published.flatMap fun c => frameDescs (filled c)
  genuine : ∀ c ∈ s.published, c ∈ s.frames
  queue : ∀ c ∈ s.ifSnd, c ∈ s.frames
  account : Account (ids s.frames.flatten) s.freed
    ((vis ++ (built ++ free)).flatMap TxBd.ids ++ (ids s.m ++ ids s.ifSnd.flatten))
  premature : s.premature = []
  done : ∀ i ∈ s.done, i ∈ s.freed ∨ i ∈ free.flatMap TxBd.ids
  restart : s.pc = .restart → s.bdIndex = 0 ∧ vis = [] ∧ built = [] ∧ ∀ d ∈ free, d.mbuf = none

section Steps

variable {bdCount : Nat} {s t : TxState} {vis built free : List TxBd}

theorem TxInv.ring_perm (h : TxInv bdCount s vis built free) :
    ((BufferRing.view bdCount s.bdRing 0).flatMap TxBd.ids).Perm
      ((vis ++ (built ++ free)).flatMap TxBd.ids) := by
  rw [← h.view]
  exact (view_perm (Nat.le_of_lt h.hw)).flatMap_right TxBd.ids

theorem TxInv.visible_eq (h : TxInv bdCount s vis built free) : visible bdCount s = vis := by
  have hnext : (built ++ free).takeWhile TxBd.ready = [] := by
    have hb := h.building
    cases built with
    | nil =>
      cases free with
      | nil => rfl
      | cons d free => simp [(h.freeIdle d mem_cons_self).1]
    | cons b bs => simp [hb.1]
  rw [visible, h.view, takeWhile_append_of_pos h.visReady, hnext, append_nil]

theorem TxInv.good (h : TxInv bdCount s vis built free) : TxGood bdCount s where
  account := h.account.perm (h.ring_perm.symm.append_right _)
  premature := h.premature
  stream := by
    rw [h.visible_eq]
    exact h.stream
  genuine := h.genuine
  held := by
    intro hm
    have hb := h.building
    cases built with
    | nil => exact absurd hm (by rw [hb.1]; simpa using hb.2)
    | cons b bs =>
      obtain ⟨hready, -, hfirst, -, -, es, hes, hchain, -⟩ := hb
      have hslot : s.bdRing ((s.hwIndex + vis.length) % bdCount) = b := view_get h.view
      cases es with
      | nil => cases hes
      | cons e es =>
        grind
  reset := by
    intro hpc
    obtain ⟨-, rfl, rfl, hfree⟩ := h.restart hpc
    refine ⟨h.building.1, fun k hk => ?_⟩
    obtain ⟨pre, post, hsplit, -⟩ := view_split (f := s.bdRing) h.hw hk
    grind [h.view, h.freeIdle]

theorem view_const_mem {n : Nat} {f : Nat → TxBd} {P : TxBd → Prop} (hn : 0 < n)
    (h : ∀ k < n, P (f k)) (i : Nat) : ∀ d ∈ view n f i, P d := by
  intro d hd
  obtain ⟨o, -, rfl⟩ := mem_map.mp hd
  exact h _ (Nat.mod_lt _ hn)

theorem txInv_init (hn : 0 < bdCount) :
    ∃ free, TxInv bdCount (fecInitTxDma bdCount) [] [] free := by
  have hidle : ∀ d ∈ view bdCount (fecInitTxDma bdCount).bdRing 0, d.ready = false ∧ d.mbuf = none :=
    view_const_mem (P := fun d => d.ready = false ∧ d.mbuf = none) hn (fun _ _ => ⟨rfl, rfl⟩) 0
  have hids : (view bdCount (fecInitTxDma bdCount).bdRing 0).flatMap TxBd.ids = [] := by
    rw [flatMap_eq_nil_iff]
    intro d hd
    rw [TxBd.ids, (hidle d hd).2]
    rfl
  refine ⟨view bdCount (fecInitTxDma bdCount).bdRing 0, ?_⟩
  exact {
    view := rfl
    hw := hn
    wrap := fun _ _ => rfl
    index := fun _ => (Nat.zero_mod bdCount).symm
    visReady := nofun
    freeIdle := fun d hd => ⟨(hidle d hd).1, by rw [TxBd.ids, (hidle d hd).2]; exact nofun⟩
    building := ⟨rfl, nofun⟩
    stream := rfl
    genuine := nofun
    queue := nofun
    account := by
      rw [nil_append, nil_append, hids]
      exact Account.empty
    premature := rfl
    done := nofun
    restart := nofun }

theorem Building.congr {i j : Nat} (h : Building s i built) (hij : i = j) (hm : t.m = s.m)
    (hpc : t.pc = .publish ↔ s.pc = .publish) (hfirst : t.first = s.first) (hchain : t.chain = s.chain)
    (hframes : ∀ c ∈ s.frames, c ∈ t.frames) : Building t j built := by
  cases built with
  | nil => exact ⟨by rw [hm]; exact h.1, fun hp => h.2 (hpc.mp hp)⟩
  | cons b bs =>
    grind [Building]

theorem TxInv.send (h : TxInv bdCount s vis built free) {c : List Element}
    (hstep : txStep bdCount s (.send c) = some t) : TxInv bdCount t vis built free := by
  simp only [txStep] at hstep
  split at hstep
  · rename_i hc
    obtain ⟨-, hnodup, hnew⟩ := hc
    cases hstep
    have haccount := h.account.giveList hnodup hnew
    have hperm : (ids c ++ ((vis ++ (built ++ free)).flatMap TxBd.ids ++
        (ids s.m ++ ids s.ifSnd.flatten))).Perm
          ((vis ++ (built ++ free)).flatMap TxBd.ids ++ (ids s.m ++ ids (s.ifSnd ++ [c]).flatten)) := by
      grind [ids_append]
    exact { h with
      building := h.building.congr rfl rfl Iff.rfl rfl rfl fun d hd => mem_cons_of_mem c hd
      genuine := fun d hd => mem_cons_of_mem c (h.genuine d hd)
      queue := by
        intro d hd
        grind [h.queue]
      account := by
        rw [flatten_cons, ids_append]
        exact haccount.perm hperm }
  · cases hstep

theorem TxInv.wake (h : TxInv bdCount s vis built free) (hstep : txStep bdCount s .wake = some t) :
    TxInv bdCount t vis built free := by
  simp only [txStep] at hstep
  split at hstep
  · rename_i hpc
    cases hstep
    exact { h with
      index := fun _ => h.index (by rw [hpc]; exact nofun)
      building := h.building.congr rfl rfl (by rw [hpc]; exact ⟨nofun, nofun⟩) rfl rfl fun _ hd => hd
      restart := nofun }
  · cases hstep

theorem TxInv.hwNext (h : TxInv bdCount s vis built free) :
    (if (s.bdRing s.hwIndex).wrap then 0 else s.hwIndex + 1) = (s.hwIndex + 1) % bdCount := by
  have hlt := h.hw
  rw [h.wrap _ hlt]
  by_cases hlast : s.hwIndex + 1 = bdCount
  · simp [hlast]
  · rw [decide_eq_false hlast, if_neg Bool.false_ne_true, Nat.mod_eq_of_lt (by omega)]

theorem wrap_update {ring : Nat → TxBd} (h : ∀ k < bdCount, (ring k).wrap = decide (k + 1 = bdCount))
    {i : Nat} (hd : d.wrap = decide (i + 1 = bdCount)) :
    ∀ k < bdCount, (Function.update ring i d k).wrap = decide (k + 1 = bdCount) := by
  intro k hk
  grind

/-- **Completion**: the DMA goes on to the next descriptor it may read. -/
theorem TxInv.complete (h : TxInv bdCount s vis built free)
    (hstep : txStep bdCount s .complete = some t) :
    ∃ vis' free', TxInv bdCount t vis' built free' := by
  simp only [txStep] at hstep
  split at hstep
  · rename_i hready
    cases hstep
    have hmod : s.hwIndex % bdCount = s.hwIndex := Nat.mod_eq_of_lt h.hw
    have hb := h.building
    have hvis : ∃ v vis', vis = v :: vis' := by
      refine exists_cons_of_ne_nil fun hnil => ?_
      have hview := h.view
      rw [hnil, nil_append] at hview
      have hhead : ∀ d rest, built ++ free = d :: rest → d.ready = true := by
        intro d rest hd
        have hslot := view_get (show _ = [] ++ d :: rest from hview.trans hd)
        rw [length_nil, Nat.add_zero, hmod] at hslot
        rw [← hslot]
        exact hready
      cases built with
      | nil =>
        cases free with
        | nil =>
          have hlen := length_le_of_view (show _ = [] ++ [] from hview)
          have := h.hw
          simp only [length_nil, Nat.add_zero] at hlen
          omega
        | cons d free =>
          exact absurd ((h.freeIdle d mem_cons_self).1.symm.trans (hhead d free rfl)) nofun
      | cons b bs => exact absurd (hb.1.symm.trans (hhead b (bs ++ free) rfl)) nofun
    obtain ⟨v, vis', rfl⟩ := hvis
    have hview : BufferRing.view bdCount s.bdRing s.hwIndex = [] ++ v :: (vis' ++ (built ++ free)) :=
      h.view
    have hv : s.bdRing s.hwIndex = v := by
      have hget := view_get hview
      rwa [length_nil, Nat.add_zero, hmod] at hget
    have hset := view_set hview (e := { v with ready := false })
    rw [length_nil, Nat.add_zero, hmod, nil_append] at hset
    have hdrop := view_drop (show _ = [{ v with ready := false }] ++ _ from hset)
    rw [length_singleton] at hdrop
    have hnext := h.hwNext
    rw [hv] at hnext
    have hids : ({ v with ready := false } : TxBd).ids = v.ids := rfl
    refine ⟨vis', free ++ [{ v with ready := false }], ?_⟩
    simp only [hv, hnext]
    exact { h with
      view := by
        rw [hdrop]
        show (vis' ++ (built ++ free)) ++ _ = _
        simp
      hw := Nat.mod_lt _ (Nat.lt_of_le_of_lt (Nat.zero_le _) h.hw)
      wrap := wrap_update h.wrap (by rw [← hv]; exact h.wrap _ h.hw)
      index := fun hpc => by
        rw [h.index hpc, Nat.mod_add_mod, cons_append, length_cons]
        congr 1
        omega
      visReady := fun d hd => h.visReady d (mem_cons_of_mem v hd)
      freeIdle := by
        intro d hd
        rcases mem_append.mp hd with hd | hd
        · exact ⟨(h.freeIdle d hd).1, fun i hi => mem_append_left _ ((h.freeIdle d hd).2 i hi)⟩
        · rw [mem_singleton.mp hd]
          exact ⟨rfl, fun i hi => mem_append_right _ hi⟩
      building := by
        refine h.building.congr ?_ rfl Iff.rfl rfl rfl fun _ hd => hd
        rw [Nat.mod_add_mod, length_cons]
        congr 1
        omega
      stream := by
        rw [← h.stream, append_assoc]
        rfl
      account := by
        grind [h.account.perm]
      done := by
        intro i hi
        grind [h.done]
      restart := fun hpc => absurd (h.restart hpc).2.1 (cons_ne_nil v vis') }
  · cases hstep

/-- **Publication**: the whole frame becomes visible. -/
theorem TxInv.publish (h : TxInv bdCount s vis built free)
    (hstep : txStep bdCount s .publish = some t) : ∃ vis', TxInv bdCount t vis' [] free := by
  simp only [txStep] at hstep
  split at hstep
  · rename_i i hpc hfirst
    cases hstep
    have hbuild := h.building
    cases built with
    | nil => exact absurd hpc hbuild.2
    | cons b bs =>
      obtain ⟨hb, hbs, hf, hmem, -, es, -, hchain, ⟨-, hm, hdesc⟩ | ⟨hno, -⟩⟩ := hbuild
      · obtain rfl : (s.hwIndex + vis.length) % bdCount = i :=
          Option.some.inj (hf.symm.trans hfirst)
        have hslot : s.bdRing ((s.hwIndex + vis.length) % bdCount) = b := view_get h.view
        have hes : filled s.chain = es := by rw [hchain, hm]; exact append_nil es
        refine ⟨vis ++ { b with ready := true } :: bs, ?_⟩
        rw [hslot]
        exact { h with
          view := by
            rw [view_set h.view, nil_append, append_assoc]
            rfl
          wrap := wrap_update h.wrap (by
            rw [← hslot]
            exact h.wrap _ (Nat.mod_lt _ (Nat.lt_of_le_of_lt (Nat.zero_le _) h.hw)))
          index := fun _ => by
            grind [h.index]
          visReady := by
            intro d hd
            rcases mem_append.mp hd with hd | hd
            · exact h.visReady d hd
            · rcases mem_cons.mp hd with rfl | hd
              · rfl
              · exact hbs d hd
          building := ⟨hm, nofun⟩
          stream := by
            rw [map_append, ← append_assoc, h.stream, flatMap_append,
              flatMap_singleton, hes, ← hdesc]
            rfl
          genuine := by
            intro c hc
            grind [h.genuine]
          account := by
            refine h.account.perm (List.Perm.of_eq ?_)
            simp only [flatMap_append, flatMap_cons, append_assoc, nil_append]
            rfl
          restart := nofun }
      · exact absurd hpc hno
  · cases hstep

/-! ## The loop of `fec_transmit` -/

theorem txNextIndex_eq {i : Nat} (hi : i < bdCount) : txNextIndex bdCount i = (i + 1) % bdCount := by
  unfold txNextIndex
  split
  · rw [Nat.mod_eq_of_lt (by omega)]
  · simp [show i + 1 = bdCount by omega]

/-- The descriptor that the loop looks at: one behind the frame in hand, or the next one of the DMA when the ring
    is full. -/
theorem TxInv.at_bdIndex (h : TxInv bdCount s vis built free) (hpc : s.pc = .transmit)
    (hok : TxSound bdCount s .transmit) :
    (∃ d free', free = d :: free' ∧ s.bdRing s.bdIndex = d ∧ d.ready = false) ∨
      (s.bdRing s.bdIndex).ready = true := by
  have hindex := h.index (by rw [hpc]; exact nofun)
  have hmod : s.hwIndex % bdCount = s.hwIndex := Nat.mod_eq_of_lt h.hw
  cases free with
  | cons d free' =>
    refine .inl ⟨d, free', rfl, ?_, (h.freeIdle d mem_cons_self).1⟩
    rw [hindex]
    exact view_get (h.view.trans (append_assoc _ _ _).symm)
  | nil =>
    have hview := h.view
    rw [append_nil] at hview
    have hlen := length_le_of_view hview
    have hhw : s.bdIndex = s.hwIndex := by
      rw [hindex, length_append, hlen, Nat.add_mod_right, hmod]
    cases vis with
    | cons v vis' =>
      have hslot := view_get (show _ = [] ++ v :: (vis' ++ built) from hview)
      rw [length_nil, Nat.add_zero, hmod] at hslot
      rw [hhw, hslot]
      exact .inr (h.visReady v mem_cons_self)
    | nil =>
      have hb := h.building
      cases built with
      | nil =>
        have := h.hw
        simp only [length_nil] at hlen
        omega
      | cons b bs =>
        obtain ⟨-, -, -, -, -, es, hes, hchain, ⟨hp, -⟩ | ⟨-, hm, -⟩⟩ := hb
        · exact absurd (hp.symm.trans hpc) nofun
        · -- the ring is full of elements of the frame in hand
          have hcount := congrArg List.length hes
          grind [TxSound]

theorem TxInv.shortage (h : TxInv bdCount s vis built free) (hpc : s.pc = .transmit) :
    TxInv bdCount { s with pc := .waiting } vis built free :=
  { h with
    index := fun _ => h.index (by rw [hpc]; exact nofun)
    building := h.building.congr rfl rfl (by rw [hpc]; exact ⟨nofun, nofun⟩) rfl rfl fun _ hd => hd
    restart := nofun }

variable {d : TxBd}

theorem TxInv.not_premature (h : TxInv bdCount s vis built (d :: free)) :
    s.premature ++ d.ids.filter (fun i => i ∉ s.done) = [] := by
  rw [h.premature, nil_append, filter_eq_nil_iff]
  intro i hi
  simpa using (h.freeIdle d mem_cons_self).2 i hi

variable {r : Fragment}

theorem TxInv.account_after (h : TxInv bdCount s vis built (d :: free))
    (hr : (r.freed ++ (ids r.m ++ ids r.ifSnd.flatten)).Perm (ids s.m ++ ids s.ifSnd.flatten))
    {live : List Nat}
    (hlive : ((vis ++ (built ++ free)).flatMap TxBd.ids ++ (ids r.m ++ ids r.ifSnd.flatten)).Perm live) :
    Account (ids s.frames.flatten) (s.freed ++ d.ids ++ r.freed) live := by
  have hperm : ((vis ++ (built ++ d :: free)).flatMap TxBd.ids ++ (ids s.m ++ ids s.ifSnd.flatten)).Perm
      (d.ids ++ (r.freed ++ live)) := by
    grind
  exact (h.account.perm hperm).freeList.freeList

theorem TxInv.done_after (h : TxInv bdCount s vis built (d :: free)) (fs : List Nat) :
    ∀ i ∈ s.done, i ∈ s.freed ++ d.ids ++ fs ∨
      i ∈ (({ d with mbuf := none } : TxBd) :: free).flatMap TxBd.ids := by
  intro i hi
  grind [h.done]

theorem TxInv.bdIndex_lt (h : TxInv bdCount s vis built free) (hpc : s.pc ≠ .restart) :
    s.bdIndex < bdCount := by
  rw [h.index hpc]
  exact Nat.mod_lt _ (Nat.lt_of_le_of_lt (Nat.zero_le _) h.hw)

theorem TxInv.idle (h : TxInv bdCount s vis [] (d :: free)) (hpc : s.pc = .transmit)
    (hbd : s.bdRing s.bdIndex = d) (hfound : Found s.ifSnd s.chain s.m false r) (hm : r.m = []) :
    TxInv bdCount (noFragment (freeDone s) r) vis [] ({ d with mbuf := none } :: free) := by
  have hrun : s.pc ≠ .restart := by rw [hpc]; exact nofun
  have hbehind := h.index hrun
  have hset := view_set h.view (e := { d with mbuf := none })
  rw [← append_nil vis, ← hbehind, append_nil] at hset
  have hempty : (vis ++ ([] ++ free)).flatMap TxBd.ids =
      (vis ++ ([] ++ ({ d with mbuf := none } : TxBd) :: free)).flatMap TxBd.ids := by
    simp only [flatMap_append, flatMap_cons]
    rfl
  have haccount := h.account_after hfound.perm ((List.Perm.of_eq hempty).append_right _)
  rw [hm] at haccount
  have hpremature := h.not_premature
  have hlt := h.bdIndex_lt hrun
  subst hbd
  exact { h with
    view := hset
    wrap := wrap_update h.wrap (h.wrap _ hlt)
    index := fun _ => hbehind
    freeIdle := by
      intro e he
      rcases mem_cons.mp he with rfl | he
      · exact ⟨(h.freeIdle _ mem_cons_self).1, nofun⟩
      · exact h.freeIdle e (mem_cons_of_mem _ he)
    building := ⟨rfl, nofun⟩
    queue := fun c hc => h.queue c (hfound.queue c hc)
    account := haccount
    premature := hpremature
    done := h.done_after r.freed
    restart := nofun }

variable {e : Element}

theorem TxInv.fill (h : TxInv bdCount s vis built (d :: free)) (hpc : s.pc = .transmit)
    (hbd : s.bdRing s.bdIndex = d) (hfound : Found s.ifSnd s.chain s.m false r) {next : List Element} (hr : r.m = e :: next)
    (hbuild : Building (fillFragment bdCount (freeDone s) r e next) ((s.hwIndex + vis.length) % bdCount)
      (built ++ [fillBd bdCount s.bdIndex r.isFirst e next])) :
    TxInv bdCount (fillFragment bdCount (freeDone s) r e next) vis
      (built ++ [fillBd bdCount s.bdIndex r.isFirst e next]) free := by
  have hrun : s.pc ≠ .restart := by rw [hpc]; exact nofun
  have hlt := h.bdIndex_lt hrun
  have hbehind := h.index hrun
  have hset := view_set (h.view.trans (append_assoc _ _ _).symm)
    (e := fillBd bdCount s.bdIndex r.isFirst e next)
  rw [← hbehind] at hset
  have hfilled : ((vis ++ (built ++ free)).flatMap TxBd.ids ++ (ids r.m ++ ids r.ifSnd.flatten)).Perm
      ((vis ++ ((built ++ [fillBd bdCount s.bdIndex r.isFirst e next]) ++ free)).flatMap TxBd.ids ++
        (ids next ++ ids r.ifSnd.flatten)) := by
    refine perm_iff_count.mpr fun i => ?_
    have hids : (fillBd bdCount s.bdIndex r.isFirst e next).ids = [e.id] := rfl
    simp only [hr, ids_cons, flatMap_append, flatMap_cons, flatMap_nil, hids,
      count_append, count_cons, count_nil]
    omega
  have haccount := h.account_after hfound.perm hfilled
  have hpremature := h.not_premature
  have hmove : fillFragment bdCount (freeDone s) r e next =
      { fillFragment bdCount (freeDone s) r e next with
        bdRing := Function.update s.bdRing s.bdIndex (fillBd bdCount s.bdIndex r.isFirst e next) } := by
    simp [fillFragment, freeDone]
  subst hbd
  rw [hmove] at hbuild ⊢
  exact { h with
    view := by
      grind [fillFragment, freeDone]
    wrap := wrap_update h.wrap rfl
    index := fun _ => by
      show txNextIndex bdCount s.bdIndex = (s.hwIndex + _) % bdCount
      rw [txNextIndex_eq hlt, hbehind, Nat.mod_add_mod, ← append_assoc,
        @List.length_append _ (vis ++ built), length_singleton, Nat.add_assoc]
    freeIdle := fun e he => h.freeIdle e (mem_cons_of_mem _ he)
    building := hbuild
    queue := fun c hc => h.queue c (hfound.queue c hc)
    account := haccount
    premature := hpremature
    done := fun i hi => by
      have := h.done_after r.freed i hi
      rwa [flatMap_cons] at this
    restart := by
      intro hp
      have hp' : (if next = [] then TxPc.publish else TxPc.transmit) = .restart := hp
      split at hp' <;> cases hp' }

theorem skipEmpty_skipEmpty (c : List Element) : skipEmpty (skipEmpty c) = skipEmpty c := by
  cases hc : skipEmpty c with
  | nil => rfl
  | cons e n => simp [skipEmpty, Nat.ne_of_gt (skipEmpty_head hc)]

theorem Building.extend {b : TxBd} {bs : List TxBd} {i : Nat} (hb : Building s i (b :: bs))
    {n : List Element} (hm : s.m = e :: n) (he : 0 < e.len) :
    Building (fillFragment bdCount (freeDone s) (fragmentAt e n false s.ifSnd [] s.chain) e (skipEmpty n)) i
      ((b :: bs) ++ [fillBd bdCount s.bdIndex false e (skipEmpty n)]) := by
  obtain ⟨hready, hbs, hfirst, hmem, -, es, hes, hchain, ⟨-, hnil, -⟩ | ⟨-, -, hdesc⟩⟩ := hb
  · exact absurd (hm.symm.trans hnil) (cons_ne_nil e n)
  · have hsplit : filled s.chain = (es ++ [e]) ++ filled (skipEmpty n) := by
      rw [hchain, hm, filled_cons_pos n he, filled_skipEmpty, append_assoc]
      rfl
    refine ⟨hready, ?_, hfirst, hmem, skipEmpty_skipEmpty n, es ++ [e], ?_, hsplit, ?_⟩
    · intro d hd
      rcases mem_append.mp hd with hd | hd
      · exact hbs d hd
      · rw [mem_singleton.mp hd]
        rfl
    · show ((b :: bs) ++ [fillBd bdCount s.bdIndex false e (skipEmpty n)]).map TxBd.mbuf = _
      rw [map_append, map_append, hes]
      rfl
    · have hdescs : ((b :: bs) ++ [fillBd bdCount s.bdIndex false e (skipEmpty n)]).map TxBd.desc =
          es.map (Element.desc false) ++ [e.desc (skipEmpty n = [])] := by
        rw [map_append, hdesc]
        rfl
      by_cases hn : skipEmpty n = []
      · refine .inl ⟨?_, hn, hdescs.trans ?_⟩
        · simp [fillFragment, hn]
        · simp [frameDescs_concat, hn]
      · refine .inr ⟨?_, hn, hdescs.trans ?_⟩
        · simp only [fillFragment, hn, if_false]
          exact nofun
        · rw [decide_eq_false hn, map_append]
          rfl

theorem Building.start {n : List Element} (hfirst : r.isFirst = true)
    (hmem : r.chain ∈ s.frames) (hchain : filled r.chain = e :: filled n) :
    Building (fillFragment bdCount (freeDone s) r e (skipEmpty n)) s.bdIndex
      [fillBd bdCount s.bdIndex r.isFirst e (skipEmpty n)] := by
  refine ⟨by rw [hfirst]; rfl, nofun, ?_, hmem, skipEmpty_skipEmpty n, [e], rfl, ?_, ?_⟩
  · simp only [fillFragment, hfirst, if_true]
    rfl
  · show filled r.chain = [e] ++ filled (skipEmpty n)
    rw [hchain, filled_skipEmpty]
    rfl
  · by_cases hn : skipEmpty n = []
    · refine .inl ⟨?_, hn, ?_⟩
      · simp [fillFragment, hn]
      · simp only [TxBd.desc, fillBd, hn, decide_true, map_cons, map_nil]
        rfl
    · refine .inr ⟨?_, hn, ?_⟩
      · simp only [fillFragment, hn, if_false]
        exact nofun
      · simp only [TxBd.desc, fillBd, hn, decide_false, map_cons, map_nil]
        rfl

/-- **The loop** keeps the invariant when it does not come round to the frame in hand. -/
theorem TxInv.transmit (h : TxInv bdCount s vis built free) (hok : TxSound bdCount s .transmit)
    (hstep : txStep bdCount s .transmit = some t) :
    ∃ built' free', TxInv bdCount t vis built' free' := by
  simp only [txStep] at hstep
  split at hstep
  · rename_i hpc
    cases hstep
    rcases h.at_bdIndex hpc hok with ⟨d, free', rfl, hbd, hready⟩ | hready
    · have hfound := fecNextFragment_found s.ifSnd s.chain s.m false
      have hbuild := h.building
      simp only [fecTransmit, hbd, hready, if_true]
      cases built with
      | nil =>
        split
        · rename_i e next hr
          rcases hfound.fragment with ⟨hnil, -⟩ | ⟨e', n, hr', -, hcase⟩
          · exact absurd (hr.symm.trans hnil) (cons_ne_nil e next)
          · obtain ⟨rfl, rfl⟩ := List.cons.inj (hr.symm.trans hr')
            rcases hcase with ⟨-, -, hf⟩ | ⟨hfirst, hmem, hchain⟩
            · rw [hbuild.1] at hf
              exact absurd hf.symm (cons_ne_nil _ _)
            · have hindex := h.index (by rw [hpc]; exact nofun)
              rw [append_nil] at hindex
              refine ⟨_, _, h.fill hpc hbd hfound hr ?_⟩
              rw [← hindex]
              exact Building.start hfirst (h.queue _ hmem) hchain
        · rename_i hr
          exact ⟨_, _, h.idle hpc hbd hfound hr⟩
      | cons b bs =>
        obtain ⟨-, -, -, -, hskip, es, -, -, ⟨hp, -⟩ | ⟨-, hne, -⟩⟩ := h.building
        · exact absurd (hp.symm.trans hpc) nofun
        · obtain ⟨e, n, hm⟩ := exists_cons_of_ne_nil hne
          have he : 0 < e.len := skipEmpty_head (hskip.trans hm)
          have hr := fecNextFragment_cons s.ifSnd s.chain n he false
          rw [← hm] at hr
          rw [hr] at hfound ⊢
          exact ⟨_, _, h.fill hpc hbd hfound rfl (hbuild.extend hm he)⟩
    · refine ⟨built, free, ?_⟩
      unfold fecTransmit
      rw [hready, if_neg Bool.noConfusion]
      exact h.shortage hpc
  · cases hstep

/-- **Reset**: the ring is empty. -/
theorem TxInv.reset (h : TxInv bdCount s vis built free) (hstep : txStep bdCount s .reset = some t) :
    ∃ free', TxInv bdCount t [] [] free' := by
  simp only [txStep] at hstep
  split at hstep
  · cases hstep
    have hn : 0 < bdCount := Nat.lt_of_le_of_lt (Nat.zero_le _) h.hw
    have hidle : ∀ d ∈ BufferRing.view bdCount (fecResetTxDma bdCount s).bdRing s.hwIndex,
        d.ready = false ∧ d.mbuf = none :=
      view_const_mem (P := fun d => d.ready = false ∧ d.mbuf = none) hn (fun _ _ => ⟨rfl, rfl⟩) _
    have hids : (BufferRing.view bdCount (fecResetTxDma bdCount s).bdRing s.hwIndex).flatMap TxBd.ids = [] := by
      rw [flatMap_eq_nil_iff]
      intro d hd
      rw [TxBd.ids, (hidle d hd).2]
      rfl
    have hperm : ((vis ++ (built ++ free)).flatMap TxBd.ids ++ (ids s.m ++ ids s.ifSnd.flatten)).Perm
        (ids s.m ++ ((BufferRing.view bdCount s.bdRing 0).flatMap TxBd.ids ++ ids s.ifSnd.flatten)) := by
      grind [h.ring_perm]
    have haccount := (h.account.perm hperm).freeList.freeList
    refine ⟨BufferRing.view bdCount (fecResetTxDma bdCount s).bdRing s.hwIndex, ?_⟩
    exact { h with
      view := rfl
      wrap := fun _ _ => rfl
      index := fun hp => absurd rfl hp
      visReady := nofun
      freeIdle := fun d hd => ⟨(hidle d hd).1, by rw [TxBd.ids, (hidle d hd).2]; exact nofun⟩
      building := ⟨rfl, nofun⟩
      stream := rfl
      genuine := nofun
      account := by
        rw [nil_append, nil_append, hids]
        exact haccount
      done := by
        intro i hi
        grind [h.done, h.ring_perm.mem_iff.mpr, fecResetTxDma]
      restart := fun _ => ⟨rfl, rfl, rfl, fun d hd => (hidle d hd).2⟩ }
  · cases hstep

theorem TxInv.restarted (h : TxInv bdCount s vis built free)
    (hstep : txStep bdCount s .restarted = some t) : ∃ free', TxInv bdCount t [] [] free' := by
  simp only [txStep] at hstep
  split at hstep
  · rename_i hpc
    cases hstep
    obtain ⟨hindex, rfl, rfl, hfree⟩ := h.restart hpc
    have hgood := (h.good.reset hpc).2
    have hn : 0 < bdCount := Nat.lt_of_le_of_lt (Nat.zero_le _) h.hw
    have hidle : ∀ d ∈ BufferRing.view bdCount s.bdRing 0, d.ready = false ∧ d.mbuf = none :=
      view_const_mem hn hgood 0
    refine ⟨BufferRing.view bdCount s.bdRing 0, ?_⟩
    exact { h with
      view := rfl
      hw := hn
      index := fun _ => hindex.trans (Nat.zero_mod bdCount).symm
      freeIdle := fun d hd => ⟨(hidle d hd).1, by rw [TxBd.ids, (hidle d hd).2]; exact nofun⟩
      building := ⟨h.building.1, nofun⟩
      account := h.account.perm (h.ring_perm.symm.append_right _)
      done := fun i hi => (h.done i hi).imp_right h.ring_perm.mem_iff.mpr
      restart := nofun }
  · cases hstep

/-- **One step** that meets the condition. -/
theorem txInv_step {a : TxAction} (h : ∃ vis built free, TxInv bdCount s vis built free)
    (hok : TxSound bdCount s a) (hstep : txStep bdCount s a = some t) :
    ∃ vis built free, TxInv bdCount t vis built free := by
  obtain ⟨vis, built, free, h⟩ := h
  cases a with
  | send c => exact ⟨vis, built, free, h.send hstep⟩
  | wake => exact ⟨vis, built, free, h.wake hstep⟩
  | transmit => exact ⟨vis, h.transmit hok hstep⟩
  | publish =>
    obtain ⟨vis', h'⟩ := h.publish hstep
    exact ⟨vis', [], free, h'⟩
  | reset => exact ⟨[], [], h.reset hstep⟩
  | restarted => exact ⟨[], [], h.restarted hstep⟩
  | complete =>
    obtain ⟨vis', free', h'⟩ := h.complete hstep
    exact ⟨vis', built, free', h'⟩

/-- The ring is full of elements of the frame in hand and another one is left: the mbuf of the first descriptor
    is freed before the frame was published. -/
theorem TxInv.comes_round (h : TxInv bdCount s vis built free) {a : TxAction}
    (hbad : ¬ TxSound bdCount s a) (hstep : txStep bdCount s a = some t) : t.premature ≠ [] := by
  cases a with
  | transmit =>
    simp only [txStep] at hstep
    split at hstep
    · rename_i hpc
      cases hstep
      obtain ⟨hm, hlen⟩ : s.m ≠ [] ∧ (filled s.chain).length = bdCount + (filled s.m).length := by
        simpa only [TxSound, Classical.not_imp, ne_eq, not_not] using hbad
      have hb := h.building
      cases built with
      | nil => exact absurd hb.1 hm
      | cons b bs =>
        obtain ⟨hready, -, -, -, -, es, hes, hchain, -⟩ := hb
        have hcount := congrArg List.length hes
        have hring := length_le_of_view h.view
        rw [hchain, length_append] at hlen
        rw [length_map, length_map] at hcount
        rw [length_append] at hring
        obtain rfl : vis = [] := length_eq_zero_iff.mp (by omega)
        obtain rfl : free = [] := length_eq_zero_iff.mp (by omega)
        have hindex := h.index (by rw [hpc]; exact nofun)
        have hmod : s.hwIndex % bdCount = s.hwIndex := Nat.mod_eq_of_lt h.hw
        have hslot : s.bdRing s.bdIndex = b := by
          have hb : s.bdRing ((s.hwIndex + [].length) % bdCount) = b := view_get h.view
          rw [hindex, nil_append, show (b :: bs).length = bdCount by omega, Nat.add_mod_right]
          rwa [length_nil, Nat.add_zero] at hb
        cases es with
        | nil => cases hes
        | cons e es =>
          have hids : b.ids = [e.id] := by rw [TxBd.ids, (List.cons.inj hes).1]; rfl
          have hlive : e.id ∈ ([] ++ ((b :: bs) ++ [])).flatMap TxBd.ids ++
              (ids s.m ++ ids s.ifSnd.flatten) := by
            grind
          have hnot : e.id ∉ s.done := by
            intro hd
            rcases h.done _ hd with hf | hf
            · have hone := count_pos_iff.mpr hf
              rw [h.account.count, if_neg fun hc => hc.2 hlive] at hone
              exact absurd hone (Nat.lt_irrefl 0)
            · cases hf
          have hpremature : (fecTransmit bdCount s).premature = s.premature ++ [e.id] := by
            have hfree : (freeDone s).premature = s.premature ++ [e.id] := by
              grind [freeDone]
            unfold fecTransmit
            rw [hslot, if_pos hready]
            dsimp only
            split
            · exact hfree
            · exact hfree
          rw [hpremature]
          exact append_ne_nil_of_right_ne_nil _ (cons_ne_nil _ _)
    · cases hstep
  | _ => exact absurd trivial hbad

end Steps

def TxReach (bdCount : Nat) (s : TxState) : Prop := ∃ vis built free, TxInv bdCount s vis built free

/-- **Transmission**: in a run the mbufs are freed once and after their transmission or by a reset, the DMA sees
whole frames, and a reset leaves the ring empty, exactly when the loop never comes round to the first descriptor of
the frame in hand. -/
theorem transmit_iff (bdCount : Nat) (hn : 0 < bdCount) (as : List TxAction) (t : TxState)
    (hrun : run (txStep bdCount) (fecInitTxDma bdCount) as = some t) :
    Throughout (txStep bdCount) (TxGood bdCount) (fecInitTxDma bdCount) as ↔
      StepsMeet (txStep bdCount) (TxSound bdCount) (fecInitTxDma bdCount) as := by
  have hgood : ∀ s, TxReach bdCount s → TxGood bdCount s := fun _ ⟨_, _, _, h⟩ => h.good
  have hbad : ∀ s a u, TxReach bdCount s → ¬ TxSound bdCount s a → txStep bdCount s a = some u →
      ¬ TxGood bdCount u :=
    fun _ _ _ ⟨_, _, _, h⟩ hno hstep hgood => h.comes_round hno hstep hgood.premature
  exact good_iff_stepsMeet hgood (fun _ _ _ h hok hstep => txInv_step h hok hstep) hbad as _ t
    ⟨[], [], txInv_init hn⟩ hrun

/-! ## Runs -/

/-- A frame of three elements, one of them empty, in a ring of two descriptors, and a reset in the middle of the
next one. -/
def shortRun : List TxAction :=
  [.send [⟨⟨100, 7⟩, 0⟩, ⟨⟨0, 0⟩, 1⟩, ⟨⟨200, 9⟩, 2⟩], .wake, .transmit, .transmit, .publish, .complete,
    .send [⟨⟨300, 5⟩, 3⟩, ⟨⟨400, 6⟩, 4⟩], .transmit, .transmit, .reset, .restarted, .transmit]

theorem transmit_shortRun : ∃ t, run (txStep 2) (fecInitTxDma 2) shortRun = some t ∧
    (Throughout (txStep 2) (TxGood 2) (fecInitTxDma 2) shortRun ↔
      StepsMeet (txStep 2) (TxSound 2) (fecInitTxDma 2) shortRun) :=
  ⟨_, rfl, transmit_iff 2 (by decide) shortRun _ rfl⟩

/-- `DMA_BD_TX_NUM` -/
def txBdNum : Nat := 128

def longFrame : List Element := (List.range (txBdNum + 1)).map fun i => ⟨⟨4096 + 16 * i, 16⟩, i⟩

def longRun : List TxAction := .send longFrame :: .wake :: List.replicate (txBdNum + 1) .transmit

/-- The mbuf of the first element is freed when its descriptor takes the last element: it was not transmitted, and
the first descriptor, which is held back, now describes another element. -/
theorem longFrame_reuses_first :
    ¬ ∀ as t, run (txStep txBdNum) (fecInitTxDma txBdNum) as = some t → TxGood txBdNum t := by
  intro h
  have hrun : (run (txStep txBdNum) (fecInitTxDma txBdNum) longRun).map TxState.premature = some [0] := by
    decide +kernel
  obtain ⟨t, ht, hpremature⟩ := Option.map_eq_some_iff.mp hrun
  have hgood := (h longRun t ht).premature
  rw [hpremature] at hgood
  cases hgood

end RtemsLibbsd.Mcf548x

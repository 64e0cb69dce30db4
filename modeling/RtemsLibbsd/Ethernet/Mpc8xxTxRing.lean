import RtemsLibbsd.Ethernet.Mpc8xxTx

/-!
# Runs of the MPC8xx transmit ring

The slots of the ring from the tail on are a list: those that were completed, those the hardware may transmit, those
that were filled of the frame in hand, and the rest.

* `retireLoop_spec` — the whole frames among the completed slots are retired.
* `Building`, `TxInv` — the invariant; one lemma for each step.
* `sendpacket_iff` — a run is good exactly when no empty element is met behind one that is not empty.
* `retire_completed` — every frame whose slots were completed is retired.
* `emptyTail_ready` — an empty element at the end makes a descriptor of no frame `READY`, and the `LAST` flag goes there.
-/

namespace RtemsLibbsd.Mpc8xx

open Option List Function RtemsLibbsd.Transition RtemsLibbsd.BufferRing RtemsLibbsd.Ethernet

variable {n : Nat} {s t : TxState}

theorem nextBd_eq {i : Nat} (hi : i < n) : nextBd n i = (i + 1) % n := by
  unfold nextBd
  split
  · rename_i hlast
    simp [hlast]
  · rw [Nat.mod_eq_of_lt (by omega)]

/-! ## Retiring -/

theorem freeRetired_eq {gone rest : List TxBd} (hview : view n s.txBd s.txBdTail = gone ++ rest)
    (htail : s.txBdTail < n) (hdone : ∀ d ∈ gone, ∀ i ∈ d.ids, i ∈ s.done) :
    freeRetired n gone.length s = { s with
      freed := s.freed ++ gone.flatMap TxBd.ids
      txBdTail := (s.txBdTail + gone.length) % n } := by
  induction gone generalizing s rest with
  | nil => simp [freeRetired, Nat.mod_eq_of_lt htail]
  | cons d gone ih =>
    obtain ⟨hd, hdone⟩ := forall_mem_cons.mp hdone
    have hslot := view_get (show _ = [] ++ d :: (gone ++ rest) from hview)
    rw [length_nil, Nat.add_zero, Nat.mod_eq_of_lt htail] at hslot
    have hdrop := view_drop (show _ = [d] ++ (gone ++ rest) from hview)
    rw [length_singleton, append_assoc] at hdrop
    have hfilter : d.ids.filter (fun i => i ∉ s.done) = [] := by
      rw [filter_eq_nil_iff]
      intro i hi
      simpa using hd i hi
    have hrest := ih (s := { s with
      freed := s.freed ++ d.ids
      txBdTail := (s.txBdTail + 1) % n }) hdrop (Nat.mod_lt _ (by omega)) hdone
    rw [length_cons, freeRetired, hslot, nextBd_eq htail, hfilter, append_nil, hrest]
    simp [Nat.add_assoc, Nat.add_comm 1]

abbrev descsOf (cs : List (List Element)) : List Desc := cs.flatMap fun c => frameDescs (filled c)

/-- **Retiring**: the loop passes over the completed slots `part ++ todo`, of which it has counted `part`, and
retires the whole frames among them. -/
theorem retireLoop_spec {rounds : Nat} {part todo vis rest : List TxBd}
    (hview : view n s.txBd s.txBdTail = part ++ (todo ++ (vis ++ rest))) (htail : s.txBdTail < n)
    (hpart : ∀ d ∈ part, d.last = false) (hidle : ∀ d ∈ part ++ todo, d.ready = false)
    (hdone : ∀ d ∈ part ++ todo, ∀ i ∈ d.ids, i ∈ s.done) (hvis : ∀ d ∈ vis, d.ready = true)
    (hcount : s.txBdActiveCount = (part ++ (todo ++ vis)).length)
    (hdesc : (part ++ (todo ++ vis)).map TxBd.desc = descsOf s.active)
    (hne : ∀ c ∈ s.active, filled c ≠ []) (hrounds : todo.length < rounds) :
    ∃ gone keep fs gs, part ++ todo = gone ++ keep ∧ s.active = fs ++ gs ∧
      (keep ++ vis).map TxBd.desc = descsOf gs ∧ (∀ d ∈ keep, d.last = false) ∧
      retireLoop n rounds ((s.txBdTail + part.length) % n) part.length s = some { s with
        txBdTail := (s.txBdTail + gone.length) % n
        txBdActiveCount := s.txBdActiveCount - gone.length
        active := gs
        freed := s.freed ++ gone.flatMap TxBd.ids } := by
  induction rounds generalizing s part todo rest with
  | zero => omega
  | succ rounds ih =>
    cases todo with
    | nil =>
      refine ⟨[], part, [], s.active, append_nil part, rfl, hdesc, hpart, ?_⟩
      have hstop : ¬ (s.txBdActiveCount ≠ 0 ∧ (s.txBd ((s.txBdTail + part.length) % n)).ready = false) := by
        rintro ⟨hzero, hready⟩
        cases vis with
        | nil =>
          -- every frame among the completed slots has been retired
          have hopen : s.active = [] := by
            refine flatMap_frameDescs_open hne fun y hy => ?_
            rw [append_nil, append_nil] at hdesc
            replace hy : y ∈ descsOf s.active := hy
            rw [← hdesc] at hy
            obtain ⟨d, hd, rfl⟩ := mem_map.mp hy
            exact hpart d hd
          rw [hopen] at hdesc
          rw [map_eq_nil_iff.mp hdesc] at hcount
          exact hzero hcount
        | cons v vis =>
          grind [view_get]
      rw [retireLoop, if_neg hstop]
      simp [Nat.mod_eq_of_lt htail]
    | cons d todo =>
      have hslot := view_get (show _ = part ++ d :: (todo ++ (vis ++ rest)) from hview)
      have hlt : (s.txBdTail + part.length) % n < n := Nat.mod_lt _ (by omega)
      have hgo : s.txBdActiveCount ≠ 0 ∧ (s.txBd ((s.txBdTail + part.length) % n)).ready = false := by
        grind
      have hnext : nextBd n ((s.txBdTail + part.length) % n) =
          (s.txBdTail + (part ++ [d]).length) % n := by
        simp [nextBd_eq hlt, Nat.add_assoc]
      have hmove (zs : List TxBd) : part ++ d :: zs = (part ++ [d]) ++ zs := by
        rw [append_assoc]
        rfl
      rw [retireLoop, if_pos hgo, hslot, hnext]
      by_cases hlast : d.last = true
      · -- the frame is complete
        rw [if_pos hlast]
        have hpartDesc : ∀ y ∈ part.map TxBd.desc, y.last = false := by
          intro y hy
          obtain ⟨b, hb, rfl⟩ := mem_map.mp hy
          exact hpart b hb
        have hsplit : descsOf s.active =
            part.map TxBd.desc ++ d.desc :: (todo ++ vis).map TxBd.desc := by
          rw [← hdesc, map_append]
          rfl
        obtain ⟨c, cs, hcs, hc, hrest⟩ := flatMap_frameDescs_cut hne hsplit hpartDesc hlast
        rw [hmove] at hidle hdone
        have hfree := freeRetired_eq (s := { s with
            txBdActiveCount := s.txBdActiveCount - (part.length + 1), active := s.active.tail })
          (show _ = (part ++ [d]) ++ (todo ++ (vis ++ rest)) from hview.trans (hmove _)) htail
          (fun b hb => hdone b (mem_append_left todo hb))
        rw [length_append, length_singleton] at hfree
        rw [hfree]
        have hdrop := view_drop (hview.trans (hmove (todo ++ (vis ++ rest))))
        rw [append_assoc, append_assoc, length_append, length_singleton] at hdrop
        obtain ⟨gone, keep, fs, gs, htodo, hactive, hkeep, hopen, hloop⟩ := ih
          (s := { s with
            freed := s.freed ++ (part ++ [d]).flatMap TxBd.ids
            txBdTail := (s.txBdTail + (part.length + 1)) % n
            txBdActiveCount := s.txBdActiveCount - (part.length + 1)
            active := s.active.tail })
          (show _ = [] ++ (todo ++ (vis ++ (rest ++ (part ++ [d])))) from hdrop)
          (Nat.mod_lt _ (by omega)) nofun
          (fun b hb => hidle b (mem_append_right _ hb))
          (fun b hb => hdone b (mem_append_right _ hb))
          (by
            show s.txBdActiveCount - (part.length + 1) = (todo ++ vis).length
            rw [hcount, length_append, cons_append, length_cons]
            omega)
          (by rw [hcs]; exact hrest.symm)
          (fun b hb => hne b (mem_of_mem_tail hb))
          (by rw [length_cons] at hrounds; omega)
        refine ⟨part ++ [d] ++ gone, keep, c :: fs, gs, ?_, ?_, hkeep, hopen, ?_⟩
        · simp [← htodo]
        · rw [hcs] at hactive ⊢
          exact congrArg (List.cons c) hactive
        · rw [length_nil, Nat.add_zero, Nat.mod_mod] at hloop
          rw [length_append, length_singleton]
          refine hloop.trans ?_
          simp only [length_append, length_singleton, flatMap_append, append_assoc,
            Nat.mod_add_mod, Nat.add_assoc, Nat.sub_sub]
      · -- a descriptor in the middle of a frame
        rw [if_neg hlast]
        have hplain : ∀ b ∈ part ++ [d], b.last = false := by
          intro b hb
          grind
        rw [hmove] at hidle hdone
        rw [cons_append, hmove] at hcount hdesc hview
        obtain ⟨gone, keep, fs, gs, htodo, hactive, hkeep, hopen, hloop⟩ := ih hview htail hplain hidle hdone
          hcount hdesc hne (by rw [length_cons] at hrounds; omega)
        refine ⟨gone, keep, fs, gs, by rw [hmove]; exact htodo, hactive, hkeep, hopen, ?_⟩
        simp [← hloop]

/-! ## The invariant -/

/-- The slots `built` from `i` on have the elements of the frame in hand that were filled. -/
structure Building (n : Nat) (s : TxState) (i : Nat) (built : List TxBd) : Prop where
  first : s.firstTxBd = i
  held : ∀ b bs, built = b :: bs → b.ready = false ∧ b.wrap = decide (i + 1 = n) ∧ ∀ d ∈ bs, d.ready = true
  elements : ∃ es, built.map TxBd.mbuf = es.map some ∧ filled s.chain = es ++ filled s.m ∧
    (s.pc = .publish ∧ s.m = [] ∧ es ≠ [] ∧ built.map TxBd.desc = frameDescs es ∨
      s.pc ≠ .publish ∧ s.m ≠ [] ∧ built.map TxBd.desc = es.map (Element.desc false))

structure TxInv (n : Nat) (s : TxState) (done vis built free : List TxBd) : Prop where
  view : view n s.txBd s.txBdTail = done ++ (vis ++ (built ++ free))
  tail : s.txBdTail < n
  hw : s.hwIndex = (s.txBdTail + done.length) % n
  head : s.txBdHead = (s.txBdTail + (done ++ (vis ++ built)).length) % n
  count : s.txBdActiveCount = (done ++ vis).length
  added : s.nAdded = built.length
  doneIdle : ∀ d ∈ done, d.ready = false ∧ ∀ i ∈ d.ids, i ∈ s.done
  visReady : ∀ d ∈ vis, d.ready = true
  freeIdle : ∀ d ∈ free, d.ready = false
  wrap : ∀ k < n, (s.txBd k).ready = true → (s.txBd k).wrap = decide (k + 1 = n)
  published : (done ++ vis).map TxBd.desc = descsOf s.active
  nonEmpty : ∀ c ∈ s.active, filled c ≠ []
  building : s.pc = .idle ∧ s.m = [] ∧ built = [] ∨
    s.pc ≠ .idle ∧ Building n s ((s.txBdTail + (done ++ vis).length) % n) built
  room : s.pc = .fill → free ≠ []
  account : Account (ids s.frames.flatten) s.freed ((done ++ (vis ++ built)).flatMap TxBd.ids ++ ids s.m)
  premature : s.premature = []

section Steps

variable {done vis built free : List TxBd}

theorem TxInv.pos (h : TxInv n s done vis built free) : 0 < n := Nat.lt_of_le_of_lt (Nat.zero_le _) h.tail

theorem TxInv.assoc (h : TxInv n s done vis built free) :
    BufferRing.view n s.txBd s.txBdTail = (done ++ (vis ++ built)) ++ free := by
  rw [h.view]
  simp

theorem TxInv.inUse_eq (h : TxInv n s done vis built free) : inUse n s = done ++ (vis ++ built) := by
  grind [h.count, h.added, inUse, h.assoc]

theorem TxInv.unused_eq (h : TxInv n s done vis built free) :
    (BufferRing.view n s.txBd s.txBdTail).drop (s.txBdActiveCount + s.nAdded) = free := by
  grind [h.count, h.added, h.assoc]

theorem TxInv.active_eq (h : TxInv n s done vis built free) :
    (BufferRing.view n s.txBd s.txBdTail).take s.txBdActiveCount = done ++ vis := by
  rw [h.view, h.count, ← append_assoc, take_left]

theorem TxInv.good (h : TxInv n s done vis built free) : TxGood n s where
  published := by
    rw [h.active_eq]
    exact h.published
  readied := by
    rw [h.active_eq]
    intro d hd
    rcases mem_append.mp hd with hd | hd
    · exact .inr (h.doneIdle d hd).2
    · exact .inl (h.visReady d hd)
  count := by
    have hlen := congrArg List.length h.published
    rw [length_map, ← h.count, length_flatMap] at hlen
    rw [hlen, length_flatMap]
    simp only [length_frameDescs]
  unused := by
    rw [h.unused_eq]
    exact h.freeIdle
  held := by
    intro hadded
    rw [h.added] at hadded
    rcases h.building with ⟨-, -, hnil⟩ | ⟨-, hb⟩
    · exact absurd (by rw [hnil]; rfl) hadded
    · obtain ⟨hfirst, hheld, es, hes, hchain, -⟩ := hb
      cases built with
      | nil => exact absurd rfl hadded
      | cons b bs =>
        have hslot : s.txBd ((s.txBdTail + (done ++ vis).length) % n) = b :=
          view_get (h.view.trans (append_assoc done vis _).symm)
        cases es with
        | nil => cases hes
        | cons e es =>
          rw [hfirst, hslot, hchain]
          exact ⟨(hheld b bs rfl).1, (List.cons.inj hes).1⟩
  account := by
    rw [h.inUse_eq]
    exact h.account
  premature := h.premature

theorem txInv_start (hn : 0 < n) : TxInv n txStart [] [] [] (BufferRing.view n txStart.txBd 0) where
  view := rfl
  tail := hn
  hw := (Nat.zero_mod n).symm
  head := (Nat.zero_mod n).symm
  count := rfl
  added := rfl
  doneIdle := nofun
  visReady := nofun
  freeIdle := by
    intro d hd
    obtain ⟨o, -, rfl⟩ := mem_map.mp hd
    rfl
  wrap := nofun
  published := rfl
  nonEmpty := nofun
  building := .inl ⟨rfl, rfl, rfl⟩
  room := nofun
  account := Account.empty
  premature := rfl

theorem Building.congr {i j : Nat} (h : Building n s i built) (hij : i = j) (hm : t.m = s.m)
    (hpc : t.pc = .publish ↔ s.pc = .publish) (hfirst : t.firstTxBd = s.firstTxBd)
    (hchain : t.chain = s.chain) : Building n t j built := by
  subst hij
  obtain ⟨hf, hheld, es, hes, hfilled, hcase⟩ := h
  refine ⟨hfirst.trans hf, hheld, es, hes, by rw [hchain, hm]; exact hfilled, ?_⟩
  grind

/-- **Retiring** keeps the invariant; the completed slots that are left end no frame. -/
theorem TxInv.retire (h : TxInv n s done vis built free) :
    ∃ tail count active freed done' free', (∀ d ∈ done', d.last = false) ∧ TxInv n { s with
        txBdTail := tail
        txBdActiveCount := count
        active := active
        freed := freed } done' vis built free' ∧
      retireTxBd n s = some { s with
        txBdTail := tail
        txBdActiveCount := count
        active := active
        freed := freed } := by
  have hlen := length_le_of_view h.view
  obtain ⟨gone, keep, fs, gs, hdone, hactive, hkeep, hopen, hloop⟩ := retireLoop_spec
    (show _ = [] ++ (done ++ (vis ++ (built ++ free))) from h.view) h.tail nofun
    (fun d hd => (h.doneIdle d hd).1) (fun d hd => (h.doneIdle d hd).2) h.visReady h.count h.published
    h.nonEmpty (show done.length < n + 1 by omega)
  obtain rfl : done = gone ++ keep := hdone
  simp only [length_nil, Nat.add_zero, Nat.mod_eq_of_lt h.tail] at hloop
  have hview : BufferRing.view n s.txBd ((s.txBdTail + gone.length) % n) =
      keep ++ (vis ++ (built ++ (free ++ gone))) := by
    grind [h.view, view_drop]
  have hindex (xs : List TxBd) :
      (s.txBdTail + (gone ++ xs).length) % n = ((s.txBdTail + gone.length) % n + xs.length) % n := by
    simp [Nat.add_assoc]
  refine ⟨_, _, _, _, keep, free ++ gone, hopen, ?_, hloop⟩
  exact { h with
    view := hview
    tail := Nat.mod_lt _ h.pos
    hw := h.hw.trans (hindex keep)
    head := by
      show s.txBdHead = _
      rw [h.head, append_assoc]
      exact hindex _
    count := by
      show s.txBdActiveCount - gone.length = (keep ++ vis).length
      rw [h.count, append_assoc, length_append]
      omega
    doneIdle := fun d hd => h.doneIdle d (mem_append_right gone hd)
    freeIdle := by
      intro d hd
      grind [h.freeIdle, h.doneIdle]
    published := hkeep
    nonEmpty := fun c hc => h.nonEmpty c (hactive ▸ mem_append_right fs hc)
    building := by
      refine h.building.imp_right fun ⟨hpc, hb⟩ => ⟨hpc, hb.congr ?_ rfl Iff.rfl rfl rfl⟩
      rw [append_assoc]
      exact hindex (keep ++ vis)
    room := fun hpc => append_ne_nil_of_left_ne_nil (h.room hpc) gone
    account := by
      have haccount := h.account
      rw [append_assoc, flatMap_append, append_assoc] at haccount
      exact haccount.freeList }

/-- **A new frame.** -/
theorem TxInv.sendpacket (h : TxInv n s done vis built free) {c : List Element}
    (hstep : txStep n s (.sendpacket c) = some t) : ∃ done' free', TxInv n t done' vis [] free' := by
  simp only [txStep] at hstep
  split at hstep
  · rename_i hc
    obtain ⟨hpc, hne, -, hnodup, hnew⟩ := hc
    obtain ⟨tail, count, active, freed, done', free', -, hr, hretire⟩ := h.retire
    rw [hretire, map_some] at hstep
    cases hstep
    rcases hr.building with ⟨-, hm, rfl⟩ | ⟨hno, -⟩
    · have haccount := hr.account.giveList hnodup hnew
      have hperm : (ids c ++ ((done' ++ (vis ++ [])).flatMap TxBd.ids ++ ids s.m)).Perm
          ((done' ++ (vis ++ [])).flatMap TxBd.ids ++ ids c) := by
        grind [ids]
      exact ⟨done', free', { hr with
        added := rfl
        building := .inr ⟨by simp, ⟨by rw [hr.head, append_nil], by simp, [], rfl, rfl, .inr ⟨by simp, hne, rfl⟩⟩⟩
        room := by simp
        account := by
          rw [flatten_cons, ids_append]
          exact haccount.perm hperm }⟩
    · exact absurd hpc hno
  · cases hstep

theorem TxInv.checkAvailable (h : TxInv n s done vis built free) (hpc : s.pc = .check ∨ s.pc = .wait) :
    TxInv n (checkAvailable n .wait s) done vis built free := by
  have hb := h.building.resolve_left fun hidle => by
    rcases hpc with hp | hp <;> exact absurd (hp.symm.trans hidle.1) nofun
  have hpub : s.pc ≠ .publish := by
    rcases hpc with hp | hp <;> rw [hp] <;> exact nofun
  unfold Mpc8xx.checkAvailable
  split
  · exact { h with
      building := .inr ⟨nofun, hb.2.congr rfl rfl ⟨nofun, fun hp => absurd hp hpub⟩ rfl rfl⟩
      room := nofun }
  · exact { h with
      building := .inr ⟨nofun, hb.2.congr rfl rfl ⟨nofun, fun hp => absurd hp hpub⟩ rfl rfl⟩
      room := by
        rintro - rfl
        have hlen := length_le_of_view h.assoc
        grind [h.count, h.added] }

theorem TxInv.check (h : TxInv n s done vis built free) (hstep : txStep n s .check = some t) :
    ∃ done' free', TxInv n t done' vis built free' := by
  simp only [txStep] at hstep
  split at hstep
  · rename_i hpc
    split at hstep
    · obtain ⟨tail, count, active, freed, done', free', -, hr, hretire⟩ := h.retire
      rw [hretire, map_some] at hstep
      cases hstep
      exact ⟨done', free', hr.checkAvailable (.inl hpc)⟩
    · rename_i hroom
      have hfill : t = Mpc8xx.checkAvailable n .wait s := by
        rw [Mpc8xx.checkAvailable, if_neg hroom]
        exact (some.inj hstep).symm
      rw [hfill]
      exact ⟨done, free, h.checkAvailable (.inl hpc)⟩
  · cases hstep

theorem TxInv.wakeup (h : TxInv n s done vis built free) (hstep : txStep n s .wakeup = some t) :
    ∃ done' free', TxInv n t done' vis built free' := by
  simp only [txStep] at hstep
  split at hstep
  · rename_i hpc
    obtain ⟨tail, count, active, freed, done', free', -, hr, hretire⟩ := h.retire
    rw [hretire, map_some] at hstep
    cases hstep
    exact ⟨done', free', hr.checkAvailable (.inr hpc)⟩
  · cases hstep

variable {d : TxBd}

theorem TxInv.wrap_update (h : TxInv n s done vis built free) {i : Nat}
    (hd : d.ready = true → d.wrap = decide (i + 1 = n)) :
    ∀ k < n, (update s.txBd i d k).ready = true →
      (update s.txBd i d k).wrap = decide (k + 1 = n) := by
  intro k hk hready
  grind [h.wrap]

variable {rest : List Element} {e : Element}

/-- **Filling** an element that is not empty. -/
theorem TxInv.fillElement (h : TxInv n s done vis built (d :: free)) (hpc : s.pc = .fill) (hm : s.m = e :: rest)
    (he : e.len ≠ 0) :
    ∃ new, TxInv n (fillBd n s) done vis (built ++ [new]) free := by
  obtain ⟨-, hfirst, hheld, es, hes, hchain, hcase⟩ := h.building.resolve_left fun hidle =>
    absurd (hpc.symm.trans hidle.1) nofun
  obtain ⟨-, -, hdesc⟩ := hcase.resolve_left fun hp => absurd (hpc.symm.trans hp.1) nofun
  have hpos : 0 < e.len := Nat.pos_of_ne_zero he
  have hlt : s.txBdHead < n := by
    rw [h.head]
    exact Nat.mod_lt _ h.pos
  let new : TxBd := ⟨decide (s.nAdded ≠ 0), s.txBdHead + 1 = n, rest = [], e.len % 2 ^ 16, e.data, some e⟩
  have hset := view_set (h.assoc) (e := new)
  rw [← h.head] at hset
  have hsplit : filled s.chain = (es ++ [e]) ++ filled rest := by
    rw [hchain, hm, filled_cons_pos rest hpos, append_assoc]
    rfl
  have hstate : fillBd n s = { s with
      txBd := update s.txBd s.txBdHead new
      nAdded := s.nAdded + 1
      txBdHead := nextBd n s.txBdHead
      m := rest
      pc := if rest = [] then .publish else .check } := by
    simp only [fillBd, hm, if_pos he, new]
  have hdescs : (built ++ [new]).map TxBd.desc =
      es.map (Element.desc false) ++ [e.desc (rest = [])] := by
    rw [map_append, hdesc]
    rfl
  refine ⟨new, ?_⟩
  rw [hstate]
  exact { h with
    view := by
      rw [hset]
      simp
    head := by
      show nextBd n s.txBdHead = _
      rw [nextBd_eq hlt, h.head, Nat.mod_add_mod]
      simp [Nat.add_assoc]
    added := by
      show s.nAdded + 1 = _
      simp [h.added]
    freeIdle := fun b hb => h.freeIdle b (mem_cons_of_mem d hb)
    wrap := h.wrap_update fun _ => rfl
    building := by
      refine .inr ⟨by split <;> exact nofun, ⟨hfirst, ?_, es ++ [e], ?_, hsplit, ?_⟩⟩
      · intro b bs hb
        cases built with
        | nil =>
          grind [h.added, h.head]
        | cons b' bs' =>
          obtain ⟨rfl, rfl⟩ := List.cons.inj hb
          obtain ⟨hready, hwrap, hothers⟩ := hheld b' bs' rfl
          refine ⟨hready, hwrap, fun x hx => ?_⟩
          rcases mem_append.mp hx with hx | hx
          · exact hothers x hx
          · rw [mem_singleton.mp hx]
            have hadded : s.nAdded ≠ 0 := by
              rw [h.added, length_cons]
              exact Nat.succ_ne_zero _
            exact decide_eq_true hadded
      · rw [map_append, map_append, hes]
        rfl
      · by_cases hrest : rest = []
        · refine .inl ⟨if_pos hrest, hrest, append_ne_nil_of_right_ne_nil _ (cons_ne_nil _ _),
            hdescs.trans ?_⟩
          rw [frameDescs_concat, decide_eq_true hrest]
        · grind
    room := by
      intro hp
      have hp' : (if rest = [] then TxPc.publish else TxPc.check) = .fill := hp
      split at hp' <;> cases hp'
    account := by
      refine h.account.perm (perm_iff_count.mpr fun i => ?_)
      have hids : new.ids = [e.id] := rfl
      simp only [hm, ids_cons, flatMap_append, flatMap_cons, flatMap_nil, hids,
        count_append, count_cons, count_nil]
      omega }

theorem TxInv.account_toss (h : TxInv n s done vis built free)
    (hm : s.m = e :: rest) : Account (ids s.frames.flatten) (s.freed ++ [e.id])
      ((done ++ (vis ++ built)).flatMap TxBd.ids ++ ids rest) := by
  have haccount := h.account
  rw [hm, ids_cons] at haccount
  exact haccount.free

/-- **Tossing** an empty element in front of the others. -/
theorem TxInv.fillEmpty (h : TxInv n s done vis built (d :: free)) (hpc : s.pc = .fill) (hm : s.m = e :: rest)
    (he : e.len = 0) (hadded : s.nAdded = 0) :
    ∃ d', TxInv n (fillBd n s) done vis built (d' :: free) := by
  obtain ⟨-, hfirst, hheld, es, hes, hchain, hcase⟩ := h.building.resolve_left (by simp [hpc])
  obtain ⟨-, -, hdesc⟩ := hcase.resolve_left (by simp [hpc])
  have hfilled : filled s.m = filled rest := by rw [hm]; simp [filled, he]
  have hnil : built = [] := length_eq_zero_iff.mp (h.added.symm.trans hadded)
  subst hnil
  have haccount := h.account_toss hm
  by_cases hrest : rest = []
  · have hstate : fillBd n s = { s with m := rest, freed := s.freed ++ [e.id], pc := .idle } := by
      simp only [fillBd, hm, he, hadded, hrest, ne_eq, not_true_eq_false, if_false, if_true]
    rw [hstate]
    exact ⟨d, { h with
      building := .inl ⟨rfl, hrest, rfl⟩
      room := by simp
      account := haccount }⟩
  · let d' : TxBd := { d with ready := false, wrap := false, last := false }
    have hslot : s.txBd s.txBdHead = d := by
      rw [h.head]
      exact view_get h.assoc
    have hset := view_set h.assoc (e := d')
    rw [← h.head] at hset
    have hstate : fillBd n s = { s with
        m := rest
        freed := s.freed ++ [e.id]
        txBd := update s.txBd s.txBdHead d'
        pc := .check } := by
      simp only [fillBd, hm, he, hadded, hrest, ne_eq, not_true_eq_false, if_false, setStatus,
        decide_false, hslot, d']
    rw [hstate]
    exact ⟨d', { h with
      view := by
        rw [hset]
        simp
      freeIdle := by
        intro b hb
        rcases mem_cons.mp hb with rfl | hb
        · rfl
        · exact h.freeIdle b (mem_cons_of_mem d hb)
      wrap := h.wrap_update (by simp [d'])
      building := .inr ⟨by simp, ⟨hfirst, hheld, es, hes, by rw [hchain, hfilled],
        .inr ⟨by simp, hrest, hdesc⟩⟩⟩
      room := by simp
      account := haccount }⟩

/-- **One element** of a chain without empty elements behind. -/
theorem TxInv.fill (h : TxInv n s done vis built free) (hok : TxSound s .fill)
    (hstep : txStep n s .fill = some t) : ∃ built' free', TxInv n t done vis built' free' := by
  simp only [txStep] at hstep
  split at hstep
  · rename_i hpc
    obtain ⟨d, free', rfl⟩ := exists_cons_of_ne_nil (h.room hpc)
    grind [fillBd, h.fillEmpty, h.fillElement, TxSound]
  · cases hstep

/-- **Publication**: the first descriptor is made `READY` after all others. -/
theorem TxInv.publish (h : TxInv n s done vis built free) (hstep : txStep n s .publish = some t) :
    ∃ vis', TxInv n t done vis' [] free := by
  simp only [txStep] at hstep
  split at hstep
  · rename_i hpc
    cases hstep
    obtain ⟨-, hfirst, hheld, es, hes, hchain, hcase⟩ := h.building.resolve_left fun hidle =>
      absurd (hpc.symm.trans hidle.1) nofun
    obtain ⟨-, hm, hne, hdesc⟩ := hcase.resolve_right fun hp => hp.1 hpc
    rw [hm] at hchain
    cases built with
    | nil => exact absurd (map_eq_nil_iff.mp hes.symm) hne
    | cons b bs =>
      obtain ⟨-, hwrap, hothers⟩ := hheld b bs rfl
      have hview := h.view.trans (append_assoc done vis _).symm
      have hslot : s.txBd s.firstTxBd = b := by
        rw [hfirst]
        exact view_get hview
      have hset := view_set hview (e := { b with ready := true })
      rw [← hfirst] at hset
      rw [← hfirst] at hwrap
      have hes' : filled s.chain = es := hchain.trans (append_nil es)
      refine ⟨vis ++ { b with ready := true } :: bs, ?_⟩
      rw [hslot]
      exact { h with
        view := by
          rw [hset]
          simp only [append_assoc, cons_append]
          rfl
        head := by
          grind [h.head]
        count := by
          grind [h.count, h.added]
        added := rfl
        visReady := by
          intro d hd
          rcases mem_append.mp hd with hd | hd
          · exact h.visReady d hd
          · rcases mem_cons.mp hd with rfl | hd
            · rfl
            · exact hothers d hd
        wrap := h.wrap_update fun _ => hwrap
        published := by
          show _ = descsOf (s.active ++ [s.chain])
          rw [descsOf, flatMap_append, flatMap_singleton, hes', ← hdesc, ← append_assoc,
            map_append, h.published]
          rfl
        nonEmpty := by
          intro c hc
          grind [h.nonEmpty]
        building := .inl ⟨rfl, hm, rfl⟩
        room := nofun
        account := by
          grind [h.account.perm, TxBd.ids] }
  · cases hstep

/-- **Completion** of the first slot that is `READY`. -/
theorem TxInv.complete (h : TxInv n s done vis built free) (hstep : txStep n s .complete = some t) :
    ∃ done' vis', TxInv n t done' vis' built free := by
  simp only [txStep] at hstep
  split at hstep
  · rename_i hready
    cases hstep
    have hslot : ∀ d rest, vis ++ (built ++ free) = d :: rest → s.txBd s.hwIndex = d := by
      intro d rest hd
      rw [h.hw]
      exact view_get (h.view.trans (by rw [hd]))
    cases vis with
    | nil =>
      have hidle : ∀ d rest, built ++ free = d :: rest → d.ready = false := by
        intro d rest hd
        cases built with
        | nil => exact h.freeIdle d (by rw [show free = d :: rest from hd]; exact mem_cons_self)
        | cons b bs =>
          obtain ⟨rfl, -⟩ := List.cons.inj hd
          rcases h.building with ⟨-, -, hnil⟩ | ⟨-, hb⟩
          · cases hnil
          · exact (hb.held b bs rfl).1
      cases hrest : built ++ free with
      | cons d rest =>
        rw [hslot d rest hrest, hidle d rest hrest] at hready
        cases hready
      | nil =>
        -- all slots were completed
        have hview := h.view
        rw [hrest, nil_append, append_nil] at hview
        have hlen := length_view n s.txBd s.txBdTail
        rw [hview] at hlen
        cases done with
        | nil => exact absurd hlen (Nat.ne_of_lt h.pos)
        | cons d done =>
          have htail := view_get (show _ = [] ++ d :: done from hview)
          grind [h.hw, Nat.add_mod_right, Nat.mod_eq_of_lt, h.tail, h.doneIdle]
    | cons v vis' =>
      have hv := hslot v (vis' ++ (built ++ free)) rfl
      have hlt : s.hwIndex < n := by
        rw [h.hw]
        exact Nat.mod_lt _ h.pos
      have hnext : (if v.wrap then 0 else s.hwIndex + 1) = (s.hwIndex + 1) % n := by
        rw [← hv, h.wrap _ hlt hready]
        by_cases hlast : s.hwIndex + 1 = n
        · simp [hlast]
        · rw [decide_eq_false hlast, if_neg Bool.false_ne_true, Nat.mod_eq_of_lt (by omega)]
      have hset := view_set (show _ = done ++ v :: (vis' ++ (built ++ free)) from h.view)
        (e := { v with ready := false })
      rw [← h.hw] at hset
      refine ⟨done ++ [{ v with ready := false }], vis', ?_⟩
      simp only [hv, hnext]
      exact { h with
        view := by
          rw [hset]
          simp
        hw := by
          show (s.hwIndex + 1) % n = _
          simp [h.hw, Nat.add_assoc]
        head := by
          grind [h.head]
        count := by
          grind [h.count]
        doneIdle := by
          intro d hd
          rcases mem_append.mp hd with hd | hd
          · exact ⟨(h.doneIdle d hd).1, fun i hi => mem_append_left _ ((h.doneIdle d hd).2 i hi)⟩
          · rw [mem_singleton.mp hd]
            exact ⟨rfl, fun i hi => mem_append_right _ hi⟩
        visReady := fun d hd => h.visReady d (mem_cons_of_mem v hd)
        wrap := h.wrap_update nofun
        published := by
          rw [← h.published]
          grind [TxBd.desc]
        building := by
          refine h.building.imp_right fun ⟨hpc, hb⟩ => ⟨hpc, hb.congr ?_ rfl Iff.rfl rfl rfl⟩
          grind
        account := by
          grind [h.account.perm, TxBd.ids] }
  · cases hstep

def TxReach (n : Nat) (s : TxState) : Prop := ∃ done vis built free, TxInv n s done vis built free

/-- **One step** that meets the condition. -/
theorem txReach_step {a : TxAction} (h : TxReach n s) (hok : TxSound s a) (hstep : txStep n s a = some t) :
    TxReach n t := by
  obtain ⟨done, vis, built, free, h⟩ := h
  cases a with
  | sendpacket c =>
    obtain ⟨done', free', h'⟩ := h.sendpacket hstep
    exact ⟨done', vis, [], free', h'⟩
  | check =>
    obtain ⟨done', free', h'⟩ := h.check hstep
    exact ⟨done', vis, built, free', h'⟩
  | wakeup =>
    obtain ⟨done', free', h'⟩ := h.wakeup hstep
    exact ⟨done', vis, built, free', h'⟩
  | fill => exact ⟨done, vis, h.fill hok hstep⟩
  | publish =>
    obtain ⟨vis', h'⟩ := h.publish hstep
    exact ⟨done, vis', [], free, h'⟩
  | complete =>
    obtain ⟨done', vis', h'⟩ := h.complete hstep
    exact ⟨done', vis', built, free, h'⟩

/-- An empty element behind one that is not empty: the descriptor at the head, which belongs to no frame, is made
    `READY`. -/
theorem TxInv.not_good (h : TxInv n s done vis built free) {a : TxAction} (hbad : ¬ TxSound s a)
    (hstep : txStep n s a = some t) : ¬ TxGood n t := by
  cases a with
  | fill =>
    simp only [txStep] at hstep
    split at hstep
    · rename_i hpc
      obtain ⟨d, free', rfl⟩ := exists_cons_of_ne_nil (h.room hpc)
      cases hm : s.m with
      | nil => exact absurd (fun e he => by rw [hm] at he; cases he) hbad
      | cons e rest =>
        obtain ⟨he, hadded⟩ : e.len = 0 ∧ s.nAdded ≠ 0 := by
          simpa only [TxSound, hm, head?_cons, mem_def, some.injEq, forall_eq',
            Classical.not_imp] using hbad
        let d' : TxBd := { d with ready := true, wrap := false, last := rest = [] }
        have hslot : s.txBd s.txBdHead = d := by
          rw [h.head]
          exact view_get h.assoc
        have hset := view_set h.assoc (e := d')
        rw [← h.head] at hset
        have hring : (fillBd n s).txBd = update s.txBd s.txBdHead d' := by
          by_cases hrest : rest = []
          · simp only [fillBd, hm, he, hrest, hadded, ne_eq, not_true_eq_false, not_false_eq_true, if_false,
              if_true, setStatus, decide_true, hslot, d']
          · simp only [fillBd, hm, he, hrest, hadded, ne_eq, not_true_eq_false, not_false_eq_true, if_false,
              setStatus, decide_true, decide_false, hslot, d']
        have hsame : (fillBd n s).txBdTail = s.txBdTail ∧ (fillBd n s).txBdActiveCount = s.txBdActiveCount ∧
            (fillBd n s).nAdded = s.nAdded := by
          simp only [fillBd, hm, he, hadded, ne_eq, not_true_eq_false, not_false_eq_true, if_false, if_true,
            setStatus]
          split <;> exact ⟨rfl, rfl, rfl⟩
        have hlen : s.txBdActiveCount + s.nAdded = (done ++ (vis ++ built)).length := by
          rw [h.count, h.added]
          simp [Nat.add_assoc]
        intro hgood
        have hunused := hgood.unused d'
        grind
    · cases hstep
  | _ => exact absurd trivial hbad

end Steps

/-- **Transmission**: in a run the descriptors of a frame are its elements, none of another frame is `READY`, the
counts are right and the mbufs are freed once and after their transmission, exactly when no empty element is met
behind one that is not empty. -/
theorem sendpacket_iff (txBdCount : Nat) (hn : 0 < txBdCount) (as : List TxAction) (t : TxState)
    (hrun : run (txStep txBdCount) txStart as = some t) :
    Throughout (txStep txBdCount) (TxGood txBdCount) txStart as ↔
      StepsMeet (txStep txBdCount) TxSound txStart as := by
  have hgood : ∀ s, TxReach txBdCount s → TxGood txBdCount s := fun _ ⟨_, _, _, _, h⟩ => h.good
  have hbad : ∀ s a u, TxReach txBdCount s → ¬ TxSound s a → txStep txBdCount s a = some u →
      ¬ TxGood txBdCount u := fun _ _ _ ⟨_, _, _, _, h⟩ hno hstep => h.not_good hno hstep
  exact good_iff_stepsMeet hgood (fun _ _ _ h hok hstep => txReach_step h hok hstep) hbad as _ t
    ⟨[], [], [], _, txInv_start hn⟩ hrun

/-- **Completed frames are freed**: whenever `m8xx_fec_Enet_retire_tx_bd` is called in such a run, no completed slot
in front of the first `READY` one is the last of its frame when it returns. -/
theorem retire_completed (txBdCount : Nat) (hn : 0 < txBdCount) (as : List TxAction) {s : TxState}
    (hok : StepsMeet (txStep txBdCount) TxSound txStart as) (hrun : run (txStep txBdCount) txStart as = some s) :
    ∃ t, retireTxBd txBdCount s = some t ∧
      ∀ d ∈ ((view txBdCount t.txBd t.txBdTail).take t.txBdActiveCount).takeWhile fun d => !d.ready,
        d.last = false := by
  obtain ⟨_, _, _, _, h⟩ := run_invariant_of_meet (fun _ _ _ h hok hstep => txReach_step h hok hstep) as txStart s
    ⟨[], [], [], _, txInv_start hn⟩ hok hrun
  obtain ⟨tail, count, active, freed, done', free', hopen, hr, hretire⟩ := h.retire
  refine ⟨_, hretire, ?_⟩
  rw [hr.active_eq]
  intro d hd
  have hidle := all_eq_true.mp all_takeWhile d hd
  rcases mem_append.mp ((takeWhile_sublist _).subset hd) with hdone | hvis
  · exact hopen d hdone
  · rw [hr.visReady d hvis] at hidle
    cases hidle

/-! ## Runs -/

/-- A frame with an empty element in front goes around the ring. -/
def tidyRun : List TxAction :=
  [.sendpacket [⟨⟨0, 0⟩, 0⟩, ⟨⟨100, 7⟩, 1⟩, ⟨⟨200, 9⟩, 2⟩], .check, .fill, .check, .fill, .check, .fill, .publish,
    .complete, .sendpacket [⟨⟨300, 5⟩, 3⟩], .check, .complete, .wakeup, .fill, .publish]

theorem sendpacket_tidyRun : ∃ t, run (txStep 2) txStart tidyRun = some t ∧
    (Throughout (txStep 2) (TxGood 2) txStart tidyRun ↔ StepsMeet (txStep 2) TxSound txStart tidyRun) :=
  ⟨_, rfl, sendpacket_iff 2 (by decide) tidyRun _ rfl⟩

/-- `TX_BUF_COUNT * TX_BD_PER_BUF` -/
def txBdNum : Nat := 32

/-- A frame of one element and an empty one behind it: its descriptor is not the last one, and the next descriptor,
which belongs to no frame and has no data, is made `READY` as the last one. -/
theorem emptyTail_ready :
    ¬ ∀ as t, run (txStep txBdNum) txStart as = some t → TxGood txBdNum t := by
  intro h
  have hrun : (run (txStep txBdNum) txStart
      [.sendpacket [⟨⟨100, 7⟩, 0⟩, ⟨⟨0, 0⟩, 1⟩], .check, .fill, .check, .fill, .publish]).map
        (fun t => decide (t.txBdActiveCount = 1 ∧ (t.txBd 0).last = false ∧ t.txBdTail = 0 ∧
          t.nAdded = 0 ∧ (t.txBd 1).ready = true)) = some true := by decide
  obtain ⟨t, ht, hflags⟩ := map_eq_some_iff.mp hrun
  obtain ⟨hcount, -, htail, hadded, hready⟩ := of_decide_eq_true hflags
  have hunused := (h _ t ht).unused (t.txBd 1)
  rw [hcount, hadded, htail] at hunused
  have hmem : t.txBd 1 ∈ (view txBdNum t.txBd 0).drop 1 :=
    mem_iff_getElem?.mpr ⟨0, by rfl⟩
  exact absurd (hready.symm.trans (hunused hmem)) nofun

end RtemsLibbsd.Mpc8xx

import RtemsLibbsd.Rpcio.Slots

/-!
# Calls and their transactions

What holds of calls and transactions whatever a datagram is matched to, over the events of `Slots`.

* `Tagged` — a transaction carries a call of its own, and a call that was not completed is with the daemon.
* `Open` — the daemon works for a call until it is completed, and no longer.

Principal results: `tagged_step` and `Open.step`.  The second one asks that an answered transaction is on the
timeout queue, which `sockRcv` does not look at.
-/

namespace RtemsLibbsd.Rpcio

open RtemsLibbsd.Transition

structure Tagged (v : View) : Prop where
  own : ∀ p j, v.callOf p = some j → j < v.ncalls ∧ (v.call j).ptr = p
  carries : ∀ p ∈ v.flight, ∃ j, v.callOf p = some j
  pending : ∀ j < v.ncalls, (v.call j).done = 0 →
    (v.call j).ptr ∈ v.flight ∧ v.callOf (v.call j).ptr = some j

/-- A transaction that is with the daemon for the call `j` was not completed. -/
def Open (j : Nat) (v : View) : Prop := ∀ p ∈ v.flight, v.callOf p = some j → (v.call j).done = 0

section TagEvents

variable {base : Nat → Nat} {v : View} {j : Nat}

theorem complete_ptr (v : View) (p : Ptr) (k : Nat) : ((v.complete p).call k).ptr = (v.call k).ptr := by
  unfold View.complete
  cases v.callOf p with
  | none => rfl
  | some i =>
    rcases eq_or_ne k i with rfl | hk
    · simp
    · simp [hk]

variable {p : Ptr}

theorem complete_call_ne (v : View) {k : Nat} (h : v.callOf p ≠ some k) :
    (v.complete p).call k = v.call k := by
  unfold View.complete
  cases hc : v.callOf p with
  | none => rfl
  | some i =>
    have hk : k ≠ i := by
      rintro rfl
      exact h hc
    exact upd_ne _ _ hk

theorem complete_done (v : View) {k : Nat} (h : v.callOf p = some k) :
    ((v.complete p).call k).done = (v.call k).done + 1 := by
  simp [View.complete, h]

variable {w : View}

theorem Tagged.complete (ht : Tagged v) (hcallOf : w.callOf = v.callOf)
    (hn : w.ncalls = v.ncalls) (hcall : w.call = (v.complete p).call)
    (hsub : ∀ q ∈ w.flight, q ∈ v.flight) (hrest : ∀ q ∈ v.flight, q ≠ p → q ∈ w.flight) : Tagged w := by
  constructor
  · intro q k hq
    rw [hcallOf] at hq
    rw [hn, hcall, complete_ptr]
    exact ht.own q k hq
  · intro q hq
    rw [hcallOf]
    exact ht.carries q (hsub q hq)
  · intro k hk hd
    rw [hn] at hk
    have hpk : v.callOf p ≠ some k := by
      intro hpk
      rw [hcall, complete_done v hpk] at hd
      exact Nat.succ_ne_zero _ hd
    rw [hcall, complete_call_ne v hpk] at hd ⊢
    rw [hcallOf]
    obtain ⟨hflight, hc⟩ := ht.pending k hk hd
    refine ⟨hrest _ hflight ?_, hc⟩
    rintro rfl
    exact hpk hc

theorem Tagged.same (ht : Tagged v) (hn : w.ncalls = v.ncalls) (hflight : w.flight = v.flight)
    (hcallOf : ∀ p, w.callOf p = v.callOf p ∨ (w.callOf p = none ∧ p ∉ v.flight))
    (hcall : ∀ k, (w.call k).ptr = (v.call k).ptr ∧ (w.call k).done = (v.call k).done) : Tagged w := by
  constructor
  · intro p k hp
    rw [hn, (hcall k).1]
    rcases hcallOf p with h | ⟨h, -⟩
    · exact ht.own p k (h ▸ hp)
    · rw [h] at hp
      cases hp
  · intro p hp
    grind [ht.carries]
  · intro k hk hd
    grind [ht.pending]

theorem Tagged.accept (ht : Tagged v) {lifetime : Int} (hf : p ∉ v.flight) :
    Tagged (v.apply (.accept p lifetime)) := by
  have hcallOf : ∀ q ≠ p, (v.apply (.accept p lifetime)).callOf q = v.callOf q :=
    fun q hq => upd_ne _ _ hq
  have hnew : (v.apply (.accept p lifetime)).callOf p = some v.ncalls := upd_self _ _ _
  constructor
  · intro q k hq
    rcases eq_or_ne q p with rfl | hqp
    · cases hnew.symm.trans hq
      rw [call_accept_new]
      exact ⟨Nat.lt_succ_self _, rfl⟩
    · rw [hcallOf q hqp] at hq
      obtain ⟨hk, hptr⟩ := ht.own q k hq
      rw [call_accept_old (Nat.ne_of_lt hk)]
      exact ⟨Nat.lt_succ_of_lt hk, hptr⟩
  · intro q hq
    rcases eq_or_ne q p with rfl | hqp
    · exact ⟨_, hnew⟩
    · rw [hcallOf q hqp]
      exact ht.carries q ((Multiset.mem_cons.mp hq).resolve_left hqp)
  · intro k hk hd
    rcases call_accept hk with ⟨hkn, hlt⟩ | rfl
    · rw [call_accept_old hkn] at hd ⊢
      obtain ⟨hflight, hc⟩ := ht.pending k hlt hd
      have hne : (v.call k).ptr ≠ p := by
        rintro rfl
        exact hf hflight
      exact ⟨Multiset.mem_cons_of_mem hflight, (hcallOf _ hne).trans hc⟩
    · rw [call_accept_new]
      exact ⟨Multiset.mem_cons_self _ _, hnew⟩

/-- **Every event keeps calls and transactions tagged.** -/
theorem Tagged.event (hv : Sound base v) (ht : Tagged v) {e : Event} (he : Enabled v e) : Tagged (v.apply e) := by
  have herase : ∀ p, ∀ q ∈ v.flight, q ≠ p → q ∈ v.flight.erase p := fun p q hq hqp =>
    (Multiset.mem_erase_of_ne hqp).mpr hq
  cases e with
  | quiet => exact ht
  | destroy p => exact ht.same rfl rfl (fun _ => .inl rfl) fun _ => ⟨rfl, rfl⟩
  | begin p => exact ht.same rfl rfl (fun _ => .inl rfl) fun _ => ⟨rfl, rfl⟩
  | accept p lifetime => exact ht.accept he.2
  | create p i =>
    refine ht.same rfl rfl ?_ fun _ => ⟨rfl, rfl⟩
    intro q
    rcases eq_or_ne q p with rfl | hqp
    · exact .inr ⟨upd_self _ _ _, fun hq => he.1 (hv.flight_live q hq)⟩
    · exact .inl (upd_ne _ _ hqp)
  | sent p =>
    refine ht.same rfl rfl (fun _ => .inl rfl) ?_
    intro k
    show (upd v.call _ _ k).ptr = _ ∧ (upd v.call _ _ k).done = _
    unfold upd
    split
    · rename_i h
      rw [h]
      exact ⟨rfl, rfl⟩
    · exact ⟨rfl, rfl⟩
  | timedOut p =>
    exact ht.complete (p := p) rfl rfl rfl (fun _ => Multiset.mem_of_mem_erase) (herase p)
  | failed p =>
    exact ht.complete (p := p) rfl rfl rfl (fun _ => Multiset.mem_of_mem_erase) (herase p)
  | answered p k listed =>
    cases listed with
    | true => exact ht.complete (p := p) rfl rfl rfl (fun _ => Multiset.mem_of_mem_erase) (herase p)
    | false => exact ht.complete (p := p) rfl rfl rfl (fun _ h => h) fun _ h _ => h

theorem Open.complete (ht : Tagged v) (ho : Open j v)
    (hcallOf : w.callOf = v.callOf) (hcall : w.call = (v.complete p).call)
    (hflight : ∀ q ∈ w.flight, q ∈ v.flight)
    (hgone : v.callOf p = some j → ∀ q ∈ w.flight, q ≠ p) : Open j w := by
  intro q hq hc
  rw [hcallOf] at hc
  have hpj : v.callOf p ≠ some j := by
    intro hpj
    exact hgone hpj q hq ((ht.own q j hc).2.symm.trans (ht.own p j hpj).2)
  rw [hcall, complete_call_ne v hpj]
  exact ho q (hflight q hq) hc

/-- **Every event keeps a call open**, if an answered transaction of the call is on the timeout queue. -/
theorem Open.event (hv : Sound base v) (ht : Tagged v) (ho : Open j v) {e : Event} (he : Enabled v e)
    (hlist : ∀ p k listed, e = .answered p k listed → p ∈ v.flight → v.callOf p = some j → listed = true) :
    Open j (v.apply e) := by
  have hgone : ∀ p, ∀ q ∈ v.flight.erase p, q ≠ p := fun p q hq h =>
    (Multiset.Nodup.notMem_erase hv.flight_nodup) (h ▸ hq)
  cases e with
  | quiet => exact ho
  | destroy p => exact ho
  | begin p => exact ho
  | accept p lifetime =>
    intro q hq hc
    rcases eq_or_ne q p with rfl | hqp
    · cases (upd_self _ _ _).symm.trans hc
      rw [call_accept_new]
    · have hc' : v.callOf q = some j := (upd_ne _ _ hqp).symm.trans hc
      rw [call_accept_old (Nat.ne_of_lt (ht.own q j hc').1)]
      exact ho q ((Multiset.mem_cons.mp hq).resolve_left hqp) hc'
  | create p i =>
    intro q hq hc
    have hqp : q ≠ p := by
      rintro rfl
      exact he.1 (hv.flight_live q hq)
    exact ho q hq ((upd_ne _ _ hqp).symm.trans hc)
  | sent p =>
    intro q hq hc
    show (upd v.call _ _ j).done = 0
    have hd := ho q hq hc
    unfold upd
    split
    · rename_i h
      rw [← h]
      exact hd
    · exact hd
  | timedOut p =>
    exact ho.complete ht (p := p) rfl rfl (fun _ => Multiset.mem_of_mem_erase) fun _ => hgone p
  | failed p =>
    exact ho.complete ht (p := p) rfl rfl (fun _ => Multiset.mem_of_mem_erase) fun _ => hgone p
  | answered p k listed =>
    cases listed with
    | true => exact ho.complete ht (p := p) rfl rfl (fun _ => Multiset.mem_of_mem_erase) fun _ => hgone p
    | false =>
      refine ho.complete ht (p := p) rfl rfl (fun _ h => h) ?_
      rintro hc q hq rfl
      cases hlist q k false rfl hq hc

end TagEvents

section TagSteps

variable {ticksPerSec : Nat} {base : Nat → Nat} {s t : State} {j : Nat} {a : Act}

theorem tagged_step (hs : Sound base s.view) (ht : Tagged s.view) (h : step ticksPerSec s a = some t) :
    Tagged t.view := by
  obtain ⟨e, he, hv, -⟩ := step_event h
  rw [hv]
  exact ht.event hs he

theorem tagged_init (xid : Option Nat) (port : Nat → Nat) : Tagged (init ticksPerSec xid port).view where
  own p j h := by cases h
  carries p h := absurd h (Multiset.notMem_zero p)
  pending j h := absurd h (Nat.not_lt_zero j)

theorem tagged_of_run {acts : List Act} (hs : Sound base s.view) (ht : Tagged s.view)
    (hrun : run (step ticksPerSec) s acts = some t) : Tagged t.view := by
  refine (@run_invariant _ _ _ (fun u => Sound base u.view ∧ Tagged u.view) ?_ acts s t ⟨hs, ht⟩ hrun).2
  rintro u b w ⟨hu, hu'⟩ hw
  exact ⟨sound_step hu hw, tagged_step hu hu' hw⟩

/-- A step keeps a call open if no datagram finds the transaction of the call in the message queue. -/
theorem Open.step (hs : Sound base s.view) (ht : Tagged s.view) (ho : Open j s.view)
    (h : step ticksPerSec s a = some t)
    (hlist : ∀ k port p, a = .rcv k port → sockRcv s (s.call k).xid port = .found p → p ∈ s.flight →
      (s.xact p).call = some j → p ∈ s.listHead) : Open j t.view := by
  obtain ⟨e, he, hv, hcause⟩ := step_event h
  rw [hv]
  refine ho.event hs ht he ?_
  rintro p k listed rfl hp hc
  obtain ⟨rfl, port, ha, hfound⟩ := hcause
  exact decide_eq_true (hlist k port p ha hfound hp hc)

end TagSteps

end RtemsLibbsd.Rpcio

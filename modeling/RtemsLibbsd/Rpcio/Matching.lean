import RtemsLibbsd.Rpcio.Slots

/-!
# Calls and completions

The invariant behind the matching of replies, over the events of `Slots`.

* `Matched` — each accepted call is with the daemon and was not completed, or it was completed
  once and its slot has left its generation, unless it was never transmitted.
* **`Matched.event`** — every event keeps it, if `sendto` fails for calls that were never
  transmitted only and an answered transaction is on the timeout queue.
-/

namespace RtemsLibbsd.Rpcio

open RtemsLibbsd.Transition

/-- Calls and owned transactions correspond; a call that was completed has been completed once,
    and if it was transmitted its generation is over. -/
structure Matched (v : View) : Prop where
  flying : ∀ p ∈ v.flight, ∃ j < v.ncalls, v.callOf p = some j ∧
    (v.call j).slot = slot (v.xid p) ∧ (v.call j).gen = v.gen (v.call j).slot ∧ (v.call j).done = 0
  calls : ∀ j < v.ncalls,
    ((v.call j).done = 0 ∧ ∃ p ∈ v.flight, v.callOf p = some j) ∨
    ((v.call j).done = 1 ∧ (0 < (v.call j).sends → (v.call j).gen < v.gen (v.call j).slot))

section MatchedEvents

variable {base : Nat → Nat} {v : View}

theorem Matched.call_inj (hv : Sound base v) (hm : Matched v) {p q : Ptr} {j : Nat}
    (hp : p ∈ v.flight) (hq : q ∈ v.flight) (hcp : v.callOf p = some j)
    (hcq : v.callOf q = some j) : p = q := by
  grind [hm.flying, hv.slot_ne, hv.flight_live]

variable {p : Ptr}

theorem Matched.answered_current (hv : Sound base v) (hm : Matched v) (hb : Bounded v)
    {k : Nat} (hk : k < v.ncalls) (hs : 0 < (v.call k).sends)
    (htbl : v.tbl (slot (v.call k).xid) = some p) (hxid : v.xid p = (v.call k).xid) :
    p ∈ v.flight ∧ v.callOf p = some k := by
  have hp : p ∈ v.live := (hv.owner _ p htbl).1
  have hslot : slot (v.xid p) = (v.call k).slot := by
    rw [hxid, hv.call_xid k hk]
    exact slot_encode _ (hv.base_slot _ (hv.call_slot k hk))
  have hgen : (v.call k).gen = v.gen (v.call k).slot := by
    have hx := hv.xid_gen p hp
    rw [hslot, hxid, hv.call_xid k hk] at hx
    have hle := hv.call_gen k hk
    have hlt := hb (v.call k).slot
    exact encode_inj (by omega) hlt hx
  rcases hm.calls k hk with ⟨-, q, hq, hcq⟩ | ⟨-, hlt⟩
  · grind [hm.flying, hv.slot_ne, hv.flight_live]
  · omega

theorem Matched.finish (hv : Sound base v) (hm : Matched v) {j : Nat}
    (hp : p ∈ v.flight) (hc : v.callOf p = some j) {w : View} (hcall : w.call = (v.complete p).call)
    (hflight : w.flight = v.flight.erase p) (hcallOf : w.callOf = v.callOf)
    (hxid : ∀ q, slot (w.xid q) = slot (v.xid q)) (hn : w.ncalls = v.ncalls)
    (hgen : ∀ i, v.gen i ≤ w.gen i) (hother : ∀ i, i ≠ slot (v.xid p) → w.gen i = v.gen i)
    (hold : 0 < (v.call j).sends → (v.call j).gen < w.gen (v.call j).slot) : Matched w := by
  have hcomplete : (v.complete p).call = upd v.call j { v.call j with done := (v.call j).done + 1 } := by
    simp [View.complete, hc]
  rw [hcomplete] at hcall
  obtain ⟨j', hj, hcj, hsj, -, hdj⟩ := hm.flying p hp
  rw [hc] at hcj
  cases hcj
  have hnotmem : ∀ q ∈ v.flight.erase p, q ∈ v.flight ∧ q ≠ p := fun q hq =>
    ⟨Multiset.mem_of_mem_erase hq, fun h => (Multiset.Nodup.notMem_erase hv.flight_nodup) (h ▸ hq)⟩
  constructor
  · intro q hq
    rw [hflight] at hq
    obtain ⟨hqf, hqp⟩ := hnotmem q hq
    obtain ⟨k, hk, hck, hsk, hgk, hdk⟩ := hm.flying q hqf
    have hkj : k ≠ j := by
      rintro rfl
      exact hqp (hm.call_inj hv hqf hp hck hc)
    have hwk : w.call k = v.call k := by rw [hcall, upd_ne _ _ hkj]
    grind [hv.slot_ne, hv.flight_live]
  · intro k hk
    rw [hn] at hk
    rcases eq_or_ne k j with rfl | hkj
    · right
      rw [hcall, upd_self]
      exact ⟨by simp [hdj], hold⟩
    · have hwk : w.call k = v.call k := by rw [hcall, upd_ne _ _ hkj]
      rw [hwk]
      rcases hm.calls k hk with ⟨hd, q, hq, hcq⟩ | ⟨hd, hlt⟩
      · refine .inl ⟨hd, q, ?_, hcallOf ▸ hcq⟩
        rw [hflight]
        refine (Multiset.mem_erase_of_ne ?_).mpr hq
        rintro rfl
        rw [hc] at hcq
        cases hcq
        exact hkj rfl
      · exact .inr ⟨hd, fun hs => lt_of_lt_of_le (hlt hs) (hgen _)⟩

theorem Matched.begin (hv : Sound base v) (hm : Matched v) (hp : p ∈ v.live)
    (hf : p ∉ v.flight) : Matched (v.advance p) := by
  constructor
  · intro q hq
    obtain ⟨k, hk, hck, hsk, hgk, hdk⟩ := hm.flying q hq
    have hqp : q ≠ p := by
      rintro rfl
      exact hf hq
    have hne : (v.call k).slot ≠ slot (v.xid p) := by
      rw [hsk]
      exact hv.slot_ne hp (hv.flight_live q hq) hqp
    refine ⟨k, hk, hck, ?_, ?_, hdk⟩
    · rw [slot_xid_advance]
      exact hsk
    · exact hgk.trans (upd_ne _ _ hne).symm
  · intro k hk
    rcases hm.calls k hk with h | ⟨hd, hlt⟩
    · exact .inl h
    · exact .inr ⟨hd, fun hs => lt_of_lt_of_le (hlt hs) (gen_advance_le v p _)⟩

theorem Matched.accept (hm : Matched v) {lifetime : Int} (hf : p ∉ v.flight) :
    Matched (v.apply (.accept p lifetime)) := by
  have hcallOf : ∀ q ≠ p, (v.apply (.accept p lifetime)).callOf q = v.callOf q :=
    fun q hq => upd_ne _ _ hq
  have hnew : (v.apply (.accept p lifetime)).callOf p = some v.ncalls := upd_self _ _ _
  constructor
  · intro q hq
    rcases Multiset.mem_cons.mp hq with rfl | hqf
    · refine ⟨v.ncalls, Nat.lt_succ_self _, hnew, ?_⟩
      rw [call_accept_new]
      exact ⟨rfl, rfl, rfl⟩
    · obtain ⟨k, hk, hck, hrest⟩ := hm.flying q hqf
      have hqp : q ≠ p := by
        rintro rfl
        exact hf hqf
      refine ⟨k, Nat.lt_succ_of_lt hk, (hcallOf q hqp).trans hck, ?_⟩
      rw [call_accept_old (Nat.ne_of_lt hk)]
      exact hrest
  · intro k hk
    rcases call_accept hk with ⟨hkn, hlt⟩ | rfl
    · rw [call_accept_old hkn]
      rcases hm.calls k hlt with ⟨hd, q, hq, hcq⟩ | h
      · have hqp : q ≠ p := by
          rintro rfl
          exact hf hq
        exact .inl ⟨hd, q, Multiset.mem_cons_of_mem hq, (hcallOf q hqp).trans hcq⟩
      · exact .inr h
    · left
      rw [call_accept_new]
      exact ⟨rfl, p, Multiset.mem_cons_self _ _, hnew⟩

theorem Matched.sent (hm : Matched v) (hp : p ∈ v.flight) :
    Matched (v.apply (.sent p)) := by
  obtain ⟨j, hj, hcj, hsj, hgj, hdj⟩ := hm.flying p hp
  have hcall : (v.apply (.sent p)).call =
      upd v.call j { v.call j with sends := (v.call j).sends + 1 } := by
    simp [View.apply, hcj]
  constructor
  · intro q hq
    obtain ⟨k, hk, hck, hrest⟩ := hm.flying q hq
    refine ⟨k, hk, hck, ?_⟩
    rw [hcall]
    rcases eq_or_ne k j with rfl | hkj
    · rw [upd_self]
      exact hrest
    · rw [upd_ne _ _ hkj]
      exact hrest
  · intro k hk
    rw [hcall]
    rcases eq_or_ne k j with rfl | hkj
    · rw [upd_self]
      exact .inl ⟨hdj, p, hp, hcj⟩
    · rw [upd_ne _ _ hkj]
      exact hm.calls k hk

/-- **Every event keeps calls and completions matched**, if `sendto` fails for calls that were
    never transmitted only and an answered transaction is on the timeout queue. -/
theorem Matched.event (hv : Sound base v) (hm : Matched v) (hb : Bounded v) {e : Event}
    (he : Enabled v e)
    (hfail : ∀ p j, e = .failed p → v.callOf p = some j → (v.call j).sends = 0)
    (hlist : ∀ p j listed, e = .answered p j listed → p ∈ v.flight → v.callOf p = some j →
      listed = true) : Matched (v.apply e) := by
  cases e with
  | quiet => exact hm
  | begin p => exact hm.begin hv he.1 he.2
  | accept p lifetime => exact hm.accept he.2
  | sent p => exact hm.sent he
  | destroy p => exact ⟨hm.flying, hm.calls⟩
  | create p i =>
    have hne : ∀ q ∈ v.flight, q ≠ p := by
      rintro q hq rfl
      exact he.1 (hv.flight_live q hq)
    constructor
    · intro q hq
      obtain ⟨k, hk, hck, hsk, hrest⟩ := hm.flying q hq
      refine ⟨k, hk, (upd_ne _ _ (hne q hq)).trans hck, ?_, hrest⟩
      exact hsk.trans (congrArg slot (upd_ne _ _ (hne q hq)).symm)
    · intro k hk
      rcases hm.calls k hk with ⟨hd, q, hq, hcq⟩ | h
      · exact .inl ⟨hd, q, hq, (upd_ne _ _ (hne q hq)).trans hcq⟩
      · exact .inr h
  | timedOut p =>
    obtain ⟨j, hj, hcj, hsj, hgj, hdj⟩ := hm.flying p he
    refine hm.finish hv he hcj rfl rfl rfl (slot_xid_advance v p) rfl (gen_advance_le v p)
      (fun i hi => upd_ne _ _ hi) ?_
    intro _
    show (v.call j).gen < upd v.gen _ _ (v.call j).slot
    rw [hgj, hsj, upd_self]
    exact Nat.lt_succ_self _
  | failed p =>
    obtain ⟨j, hj, hcj, hsj, hgj, hdj⟩ := hm.flying p he
    refine hm.finish hv he hcj rfl rfl rfl (fun _ => rfl) rfl (fun _ => le_rfl) (fun _ _ => rfl) ?_
    intro hs
    rw [hfail p j rfl hcj] at hs
    exact absurd hs (Nat.lt_irrefl 0)
  | answered p k listed =>
    obtain ⟨hk, hs, htbl, hxid⟩ := he
    obtain ⟨hp, hc⟩ := hm.answered_current hv hb hk hs htbl hxid
    have hl := hlist p k listed rfl hp hc
    subst hl
    obtain ⟨j, hj, hcj, hsj, hgj, hdj⟩ := hm.flying p hp
    refine hm.finish hv hp hcj rfl rfl rfl (slot_xid_advance v p) rfl (gen_advance_le v p)
      (fun i hi => upd_ne _ _ hi) ?_
    intro _
    show (v.call j).gen < upd v.gen _ _ (v.call j).slot
    rw [hgj, hsj, upd_self]
    exact Nat.lt_succ_self _

end MatchedEvents

end RtemsLibbsd.Rpcio

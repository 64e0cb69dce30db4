import RtemsLibbsd.Transition
import Mathlib.Algebra.Group.Nat.Defs
import Mathlib.Data.List.Basic
import Mathlib.Logic.Function.Basic

/-!
# The multicast filter of the MV643xx driver

The filter of `rtemsbsd/sys/dev/mve/if_mve.c`.  The chip has two tables with one
byte for each of 256 hash values, in 64 registers; bit 0 of the byte says whether an address with that hash value is
received.  The driver counts how often an entry was asked for.

* `hashOf`, `entry` — the table and the hash value of an address.
* `acceptAll` — `BSP_mve_mcast_filter_accept_all` with its two loops, which share one variable.
* `Matches` — what the tables have to say after a history of calls.
* `Meets` — the calls after which they do; `matches_iff_meets` is the result about histories.
-/

namespace RtemsLibbsd.Mve

open Option Function Transition

/-! ## The filter -/

abbrev EnAddr := Vector (BitVec 8) 6

/-- `MV643XX_ETH_DA_FILTER_SPECL_MCAST_TBL` and `MV643XX_ETH_DA_FILTER_OTHER_MCAST_TBL`. -/
inductive Tabl where
  | specl | other
  deriving DecidableEq

abbrev Entry := Tabl × BitVec 8

/-- The registers of the tables by their number, `mc_refcnt` and `promisc`. -/
structure Filter where
  promisc : Bool
  reg : Tabl → Nat → BitVec 32
  refcnt : Entry → BitVec 16

/-- The register of an entry: `slot` divided by the size of a register. -/
def slot (hash : BitVec 8) : Nat := (hash &&& 0xfc).toNat / 4

def bit (hash : BitVec 8) : Nat := (hash &&& 3).toNat <<< 3

def Filter.enabled (f : Filter) (e : Entry) : Bool := (f.reg e.1 (slot e.2)).getLsbD (bit e.2)

/-- `BSP_mve_mcast_filter_clear`. -/
def Filter.clear (f : Filter) : Filter :=
  let v : BitVec 32 := if f.promisc then 0x01010101 else 0
  { f with reg := fun t k => if k < 64 then v else f.reg t k, refcnt := fun _ => 0 }

/-- The outer loop of `BSP_mve_mcast_filter_accept_all` with register `k`: the loop over the counts uses the
    same `i` and leaves 256 in it. -/
def acceptAllLoop (k i : Nat) (f : Filter) : Filter :=
  if i < 64 then
    acceptAllLoop (k + 1) (256 + 1)
      { f with reg := fun t => update (f.reg t) k 0x01010101, refcnt := fun e => f.refcnt e + 1 }
  else f
  termination_by 64 - i

/-- `BSP_mve_mcast_filter_accept_all`. -/
def Filter.acceptAll (f : Filter) : Filter := acceptAllLoop 0 0 f

def Filter.write (f : Filter) (t : Tabl) (k : Nat) (v : BitVec 32) : Filter :=
  { f with reg := update f.reg t (update (f.reg t) k v) }

def Filter.addEntry (f : Filter) (e : Entry) : Filter :=
  let g := { f with refcnt := update f.refcnt e (f.refcnt e + 1) }
  if f.refcnt e = 0 then g.write e.1 (slot e.2) (f.reg e.1 (slot e.2) ||| (1 : BitVec 32) <<< bit e.2) else g

def Filter.delEntry (f : Filter) (e : Entry) : Filter :=
  if f.refcnt e ≠ 0 then
    let g := { f with refcnt := update f.refcnt e (f.refcnt e - 1) }
    if f.refcnt e - 1 = 0 then
      g.write e.1 (slot e.2) (f.reg e.1 (slot e.2) &&& ~~~((1 : BitVec 32) <<< bit e.2))
    else g
  else f

def hashStep (hash : BitVec 32) (k : Nat) : BitVec 32 :=
  if hash &&& (0x8000 >>> k) ≠ 0 then hash ^^^ (0x8380 >>> k) else hash

def hashOf (enaddr : EnAddr) : BitVec 32 :=
  enaddr.toList.foldl
    (fun hash b => (List.range 8).foldl hashStep ((hash ^^^ b.setWidth 32) <<< 8)) 0

def bcst : EnAddr := #v[0xff, 0xff, 0xff, 0xff, 0xff, 0xff]

/-- The entry of an address: `none` is an address that is no multicast address, or the broadcast address. -/
def entry (enaddr : EnAddr) : Option Entry :=
  if 1 &&& enaddr[0] = 0 then none
  else if enaddr = bcst then none
  else if enaddr.toList.take 5 = [0x01, 0x00, 0x5e, 0x00, 0x00] then some (.specl, enaddr[5])
  else some (.other, (hashOf enaddr).setWidth 8)

/-- `BSP_mve_mcast_filter_accept_add`. -/
def Filter.acceptAdd (f : Filter) (enaddr : EnAddr) : Filter :=
  match entry enaddr with
  | some e => f.addEntry e
  | none => f

/-- `BSP_mve_mcast_filter_accept_del`. -/
def Filter.acceptDel (f : Filter) (enaddr : EnAddr) : Filter :=
  match entry enaddr with
  | some e => f.delEntry e
  | none => f

/-! ## Entries and registers -/

theorem slot_eq : ∀ hash : BitVec 8, slot hash = hash.toNat / 4 := by decide

theorem bit_eq : ∀ hash : BitVec 8, bit hash = hash.toNat % 4 * 8 := by decide

theorem slot_lt (hash : BitVec 8) : slot hash < 64 := by
  have := slot_eq hash
  omega

theorem bit_lt (hash : BitVec 8) : bit hash < 32 := by
  have := bit_eq hash
  omega

theorem slot_bit_inj (h k : BitVec 8) (hs : slot h = slot k) (hb : bit h = bit k) : h = k := by
  rw [slot_eq, slot_eq] at hs
  rw [bit_eq, bit_eq] at hb
  bv_omega

theorem getLsbD_ones : ∀ hash : BitVec 8, (0x01010101 : BitVec 32).getLsbD (bit hash) = true := by decide

theorem slot_eq_zero (hash : BitVec 8) : slot hash = 0 ↔ hash.toNat < 4 := by
  rw [slot_eq]
  omega

theorem getLsbD_setBit (v : BitVec 32) {b c : Nat} (hc : c < 32) :
    (v ||| (1 : BitVec 32) <<< b).getLsbD c = (v.getLsbD c || decide (c = b)) := by
  grind

theorem getLsbD_clearBit (v : BitVec 32) {b c : Nat} (hc : c < 32) :
    (v &&& ~~~((1 : BitVec 32) <<< b)).getLsbD c = (v.getLsbD c && !decide (c = b)) := by
  grind

theorem clear_setBit {v : BitVec 32} {b : Nat} (h : v.getLsbD b = false) :
    (v ||| (1 : BitVec 32) <<< b) &&& ~~~((1 : BitVec 32) <<< b) = v := by
  grind

namespace Filter

variable {f : Filter} {d e : Entry} {a : EnAddr}

/-- The entries after a write to the register of `e` that changes its bit only. -/
theorem enabled_write {v : BitVec 32} {b : Bool}
    (hv : ∀ c < 32, v.getLsbD c = if c = bit e.2 then b else (f.reg e.1 (slot e.2)).getLsbD c) :
    (f.write e.1 (slot e.2) v).enabled d = if d = e then b else f.enabled d := by
  obtain ⟨t, h⟩ := d
  unfold enabled write
  dsimp only
  by_cases ht : t = e.1
  · subst ht
    rw [update_self]
    by_cases hs : slot h = slot e.2
    · rw [hs, update_self, hv _ (bit_lt h)]
      by_cases hb : bit h = bit e.2
      · have heq : ((e.1, h) : Entry) = e := Prod.ext rfl (slot_bit_inj _ _ hs hb)
        rw [if_pos hb, if_pos heq]
      · grind
    · rw [update_of_ne hs, if_neg fun heq => hs (congrArg (fun x : Entry => slot x.2) heq)]
  · rw [update_of_ne ht, if_neg fun heq => ht (congrArg Prod.fst heq)]

/-! ### What the calls do -/

theorem acceptAll_eq : f.acceptAll =
    { f with reg := fun t => update (f.reg t) 0 0x01010101, refcnt := fun e => f.refcnt e + 1 } := by
  simp [acceptAll, acceptAllLoop]

/-- `BSP_mve_mcast_filter_accept_all` enables the entries of the first register only. -/
theorem enabled_acceptAll : f.acceptAll.enabled e = (decide (e.2.toNat < 4) || f.enabled e) := by
  rw [acceptAll_eq]
  unfold enabled
  dsimp only
  by_cases h : e.2.toNat < 4
  · rw [(slot_eq_zero e.2).mpr h, update_self, getLsbD_ones, decide_eq_true h, Bool.true_or]
  · simp [update_of_ne (mt (slot_eq_zero e.2).mp h), decide_eq_false h]

theorem refcnt_acceptAll : f.acceptAll.refcnt e = f.refcnt e + 1 := by rw [acceptAll_eq]

theorem enabled_clear (hp : f.promisc = false) : f.clear.enabled e = false := by
  unfold enabled clear
  dsimp only
  rw [if_pos (slot_lt e.2), hp]
  exact BitVec.getLsbD_zero

theorem refcnt_addEntry : (f.addEntry e).refcnt = update f.refcnt e (f.refcnt e + 1) := by
  unfold addEntry
  split <;> rfl

theorem enabled_addEntry :
    (f.addEntry e).enabled d = if d = e ∧ f.refcnt e = 0 then true else f.enabled d := by
  unfold addEntry
  split
  · rename_i h0
    rw [enabled_write (fun c hc => ?_), h0]
    · simp only [and_true]
      rfl
    · rw [getLsbD_setBit _ hc]
      by_cases hb : c = bit e.2 <;> simp [hb]
  · rename_i h0
    rw [if_neg fun h => h0 h.2]
    rfl

theorem refcnt_delEntry :
    (f.delEntry e).refcnt = update f.refcnt e (f.refcnt e - if f.refcnt e = 0 then 0 else 1) := by
  unfold delEntry
  by_cases h0 : f.refcnt e = 0
  · rw [if_neg (not_not_intro h0), if_pos h0, h0]
    exact (update_eq_self_iff.mpr (by rw [h0]; rfl)).symm
  · rw [if_pos h0, if_neg h0]
    split <;> rfl

theorem enabled_delEntry :
    (f.delEntry e).enabled d = if d = e ∧ f.refcnt e = 1 then false else f.enabled d := by
  unfold delEntry
  by_cases h0 : f.refcnt e = 0
  · rw [if_neg (not_not_intro h0), if_neg fun h => absurd (h0.symm.trans h.2) (by decide)]
  rw [if_pos h0]
  by_cases h1 : f.refcnt e = 1
  · rw [if_pos (by rw [h1]; rfl), enabled_write (fun c hc => ?_), h1]
    · simp only [and_true]
      rfl
    · rw [getLsbD_clearBit _ hc]
      by_cases hb : c = bit e.2 <;> simp [hb]
  · rw [if_neg (by bv_omega), if_neg fun h => h1 h.2]
    rfl

theorem promisc_addEntry : (f.addEntry e).promisc = f.promisc := by
  unfold addEntry
  split <;> rfl

theorem promisc_delEntry : (f.delEntry e).promisc = f.promisc := by
  unfold delEntry
  split
  · split <;> rfl
  · rfl

theorem acceptAdd_of_entry (ha : entry a = some e) : f.acceptAdd a = f.addEntry e := by rw [acceptAdd, ha]

theorem acceptDel_of_entry (ha : entry a = some e) : f.acceptDel a = f.delEntry e := by rw [acceptDel, ha]

/-- Adding an entry and deleting it again restores the tables exactly if an entry without count is not enabled. -/
theorem reg_delEntry_addEntry :
    ((f.addEntry e).delEntry e).reg = f.reg ↔ (f.refcnt e = 0 → f.enabled e = false) := by
  constructor
  · intro h h0
    have hc : (f.addEntry e).refcnt e = 1 := by rw [refcnt_addEntry, update_self, h0]; rfl
    have henabled := enabled_delEntry (f := f.addEntry e) (d := e) (e := e)
    rwa [if_pos ⟨rfl, hc⟩, enabled, h] at henabled
  · intro h
    by_cases h0 : f.refcnt e = 0
    · have hbit := h h0
      have hidem : (f.reg e.1 (slot e.2) ||| (1 : BitVec 32) <<< bit e.2) &&& ~~~((1 : BitVec 32) <<< bit e.2) =
          f.reg e.1 (slot e.2) := clear_setBit hbit
      unfold addEntry delEntry write
      simp only [h0, if_true, update_self]
      rw [if_pos (by decide), if_pos (by decide)]
      rw [hidem, update_idem, update_idem, update_eq_self, update_eq_self]
    · have hadd : (f.addEntry e).reg = f.reg := by rw [addEntry, if_neg h0]
      have hcnt : (f.addEntry e).refcnt e = f.refcnt e + 1 := by simp [refcnt_addEntry]
      rw [delEntry, hcnt, ← hadd]
      split
      · rw [if_neg (by bv_omega)]
      · rfl

end Filter

/-! ## Histories of calls -/

inductive Op where
  | clear
  | acceptAll
  | add (enaddr : EnAddr)
  | del (enaddr : EnAddr)

def Op.apply : Op → Filter → Filter
  | .clear, f => f.clear
  | .acceptAll, f => f.acceptAll
  | .add a, f => f.acceptAdd a
  | .del a, f => f.acceptDel a

/-- All entries were accepted since the last clear; the last call is the first of the list. -/
def AcceptedAll : List Op → Prop
  | [] | .clear :: _ => False
  | .acceptAll :: _ => True
  | .add _ :: past | .del _ :: past => AcceptedAll past

/-- The addresses of an entry that were added since the last clear. -/
def additions (e : Entry) : List Op → Nat
  | [] | .clear :: _ => 0
  | .add a :: past => additions e past + if entry a = some e then 1 else 0
  | .acceptAll :: past | .del _ :: past => additions e past

/-- The addresses of an entry that were deleted since the last clear. -/
def deletions (e : Entry) : List Op → Nat
  | [] | .clear :: _ => 0
  | .del a :: past => deletions e past + if entry a = some e then 1 else 0
  | .acceptAll :: past | .add _ :: past => deletions e past

/-- The address was added since the last clear and not deleted after that. -/
def Pending (b : EnAddr) : List Op → Prop
  | [] | .clear :: _ => False
  | .add a :: past => b = a ∨ Pending b past
  | .del a :: past => b ≠ a ∧ Pending b past
  | .acceptAll :: past => Pending b past

abbrev Sys := Filter × List Op

def step (s : Sys) (op : Op) : Option Sys := some (op.apply s.1, op :: s.2)

/-- What the tables have to say after the calls `past`. -/
structure Matches (f : Filter) (past : List Op) : Prop where
  /-- An entry is enabled exactly if all were accepted or more of its addresses were added than deleted. -/
  exact : ∀ e, f.enabled e = true ↔ AcceptedAll past ∨ deletions e past < additions e past
  added : ∀ b e, entry b = some e → Pending b past → f.enabled e = true
  /-- Adding an address and deleting it again restores the tables. -/
  restored : ∀ b, ((f.acceptAdd b).acceptDel b).reg = f.reg
  /-- After all were accepted every multicast address is received. -/
  all : AcceptedAll past → ∀ b e, entry b = some e → f.enabled e = true

/-- The calls after which the tables say what they have to:

* All entries are accepted when those behind the first register are enabled already and no count overflows.
* An address is added when there were no more deletions than additions of its entry; if all entries were accepted,
  when its count does not overflow.
* An address is deleted, unless that is the last of its entry and all entries were accepted, or another address of the
  entry was added and not deleted. -/
def Meets (s : Sys) : Op → Prop
  | .clear => True
  | .acceptAll =>
    (∀ e : Entry, 4 ≤ e.2.toNat → s.1.enabled e = true) ∧ ∀ a e, entry a = some e → s.1.refcnt e + 1 ≠ 0
  | .add a => ∀ e, entry a = some e →
    (AcceptedAll s.2 → s.1.refcnt e + 1 ≠ 0) ∧ (¬ AcceptedAll s.2 → deletions e s.2 ≤ additions e s.2)
  | .del a => ∀ e, entry a = some e → s.1.refcnt e = 1 →
    ¬ AcceptedAll s.2 ∧ ∀ b, entry b = some e → Pending b s.2 → b = a

/-- What holds after every call: without `BSP_mve_mcast_filter_accept_all` the counts are those of the history. -/
structure Inv (s : Sys) : Prop where
  promisc : s.1.promisc = false
  refcnt : ¬ AcceptedAll s.2 → ∀ e, (s.1.refcnt e).toNat = additions e s.2 - deletions e s.2

theorem restored_iff {f : Filter} :
    (∀ b, ((f.acceptAdd b).acceptDel b).reg = f.reg) ↔
      ∀ b e, entry b = some e → f.refcnt e = 0 → f.enabled e = false := by
  refine forall_congr' fun b => ?_
  unfold Filter.acceptAdd Filter.acceptDel
  cases hb : entry b with
  | none => simp
  | some e =>
    simp only [some.injEq, forall_eq']
    exact Filter.reg_delEntry_addEntry

theorem inv_clear {f : Filter} {past : List Op} (hp : f.promisc = false) : Inv (f.clear, .clear :: past) where
  promisc := hp
  refcnt _ _ := rfl

theorem matches_clear {f : Filter} {past : List Op} (hp : f.promisc = false) : Matches f.clear (.clear :: past) where
  exact e := by simp [Filter.enabled_clear hp, AcceptedAll, additions]
  added _ _ _ h := h.elim
  restored := restored_iff.mpr fun _ _ _ _ => Filter.enabled_clear hp
  all h := h.elim

section Steps

variable {f : Filter} {past : List Op} (hm : Matches f past)

include hm in
theorem Matches.refcnt_ne_zero (hall : AcceptedAll past) {b : EnAddr} {e : Entry} (hb : entry b = some e) :
    f.refcnt e ≠ 0 := by
  intro h0
  have hoff := restored_iff.mp hm.restored b e hb h0
  rw [hm.all hall b e hb] at hoff
  exact Bool.noConfusion hoff

theorem matches_acceptAll : Matches f.acceptAll (.acceptAll :: past) ↔ Meets (f, past) .acceptAll := by
  constructor
  · intro h
    refine ⟨fun e he => ?_, fun a e ha h0 => ?_⟩
    · have hon := (h.exact e).mpr (Or.inl trivial)
      rwa [Filter.enabled_acceptAll, decide_eq_false (by omega), Bool.false_or] at hon
    · refine h.refcnt_ne_zero trivial ha ?_
      rw [Filter.refcnt_acceptAll]
      exact h0
  · rintro ⟨hrest, hcnt⟩
    have hon : ∀ e, f.acceptAll.enabled e = true := fun e => by
      rw [Filter.enabled_acceptAll]
      grind
    refine ⟨fun e => ⟨fun _ => Or.inl trivial, fun _ => hon e⟩, fun b e _ _ => hon e, ?_, fun _ b e _ => hon e⟩
    refine restored_iff.mpr fun b e hb h0 => absurd ?_ (hcnt b e hb)
    rw [← Filter.refcnt_acceptAll]
    exact h0

variable (hinv : Inv (f, past))

include hm hinv

theorem enabled_of_refcnt {e : Entry} (h0 : f.refcnt e ≠ 0) : f.enabled e = true := by
  rw [hm.exact]
  by_cases hall : AcceptedAll past
  · exact Or.inl hall
  · have hcnt := hinv.refcnt hall e
    exact Or.inr (by bv_omega)

theorem matches_add {a : EnAddr} (hroom : ∀ e, entry a = some e → additions e past + 1 < 2 ^ 16) :
    Matches (f.acceptAdd a) (.add a :: past) ↔ Meets (f, past) (.add a) := by
  unfold Filter.acceptAdd
  cases ha : entry a with
  | none =>
    simp only [Meets, ha, reduceCtorEq, false_implies, implies_true, iff_true]
    refine ⟨fun e => ?_, fun b e hb hp => ?_, hm.restored, hm.all⟩
    · rw [additions, ha, if_neg (by simp)]
      exact hm.exact e
    · rcases hp with rfl | hp
      · rw [ha] at hb
        exact absurd hb (by simp)
      · exact hm.added b e hb hp
  | some e =>
    have hlt := hroom e ha
    have hself : (f.addEntry e).refcnt e = f.refcnt e + 1 := by simp [Filter.refcnt_addEntry]
    have hon : (f.addEntry e).enabled e = true := by
      rw [Filter.enabled_addEntry]
      split
      · rfl
      · rename_i h0
        exact enabled_of_refcnt hm hinv fun h => h0 ⟨rfl, h⟩
    have hne : ∀ {d}, d ≠ e → (f.addEntry e).enabled d = f.enabled d := fun {d} hd => by
      rw [Filter.enabled_addEntry, if_neg fun h => hd h.1]
    simp only [Meets, ha, some.injEq, forall_eq']
    constructor
    · intro h
      refine ⟨fun hall h0 => h.refcnt_ne_zero hall ha (by rw [hself, h0]), fun hall => ?_⟩
      have hadds := ((h.exact e).mp hon).resolve_left hall
      rw [additions, deletions, if_pos ha] at hadds
      omega
    · rintro ⟨hfull, hless⟩
      have hcount : f.refcnt e + 1 ≠ 0 := by
        by_cases hall : AcceptedAll past
        · exact hfull hall
        · have hcnt := hinv.refcnt hall e
          bv_omega
      refine ⟨fun d => ?_, fun b d hb hp => ?_, restored_iff.mpr fun b d hb h0 => ?_, fun hall b d hb => ?_⟩
      · rw [additions, deletions]
        by_cases hd : d = e
        · subst hd
          rw [if_pos ha, hon]
          refine ⟨fun _ => (em (AcceptedAll past)).imp id fun hall => ?_, fun _ => rfl⟩
          have := hless hall
          omega
        · rw [if_neg fun h => hd (some.inj (h.symm.trans ha)), hne hd]
          exact hm.exact d
      · by_cases hd : d = e
        · rw [hd, hon]
        · rw [hne hd]
          refine hm.added b d hb (hp.resolve_left ?_)
          rintro rfl
          exact hd (some.inj (hb.symm.trans ha))
      · by_cases hd : d = e
        · rw [hd, hself] at h0
          exact absurd h0 hcount
        · rw [hne hd]
          rw [Filter.refcnt_addEntry, update_of_ne hd] at h0
          exact restored_iff.mp hm.restored b d hb h0
      · by_cases hd : d = e
        · rw [hd, hon]
        · rw [hne hd]
          exact hm.all hall b d hb

theorem matches_del {a : EnAddr} :
    Matches (f.acceptDel a) (.del a :: past) ↔ Meets (f, past) (.del a) := by
  unfold Filter.acceptDel
  cases ha : entry a with
  | none =>
    simp only [Meets, ha, reduceCtorEq, false_implies, implies_true, iff_true]
    refine ⟨fun e => ?_, fun b e hb hp => hm.added b e hb hp.2, hm.restored, hm.all⟩
    rw [deletions, ha, if_neg (by simp)]
    exact hm.exact e
  | some e =>
    have hone : f.refcnt e = 1 → (f.delEntry e).enabled e = false := fun h => by
      rw [Filter.enabled_delEntry, if_pos ⟨rfl, h⟩]
    have hne : ∀ {d}, ¬ (d = e ∧ f.refcnt e = 1) → (f.delEntry e).enabled d = f.enabled d := fun hd => by
      rw [Filter.enabled_delEntry, if_neg hd]
    simp only [Meets, ha, some.injEq, forall_eq']
    constructor
    · intro h h1
      refine ⟨fun hall => ?_, fun b hb hp => by_contra fun hba => ?_⟩
      · exact Bool.noConfusion ((hone h1).symm.trans (h.all hall a e ha))
      · exact Bool.noConfusion ((hone h1).symm.trans (h.added b e hb ⟨hba, hp⟩))
    · intro hok
      refine ⟨fun d => ?_, fun b d hb hp => ?_, restored_iff.mpr fun b d hb h0 => ?_, fun hall b d hb => ?_⟩
      · rw [additions, deletions]
        by_cases hd : d = e
        · subst hd
          rw [if_pos ha]
          by_cases h1 : f.refcnt d = 1
          · have hcnt := hinv.refcnt (hok h1).1 d
            rw [hone h1]
            refine ⟨fun h => Bool.noConfusion h, fun h => absurd (h.resolve_left (hok h1).1) ?_⟩
            bv_omega
          · rw [hne fun h => h1 h.2, hm.exact]
            refine or_congr_right' fun hall => ?_
            have hcnt := hinv.refcnt hall d
            bv_omega
        · rw [if_neg fun h => hd (some.inj (h.symm.trans ha)), hne fun h => hd h.1]
          exact hm.exact d
      · rw [hne]
        · exact hm.added b d hb hp.2
        · rintro ⟨rfl, h1⟩
          exact hp.1 ((hok h1).2 b hb hp.2)
      · by_cases hd : d = e ∧ f.refcnt e = 1
        · rw [hd.1, hone hd.2]
        · rw [hne hd]
          refine restored_iff.mp hm.restored b d hb ?_
          rw [Filter.refcnt_delEntry] at h0
          grind
      · rw [hne fun h => (hok h.2).1 hall]
        exact hm.all hall b d hb

end Steps

/-! ## Runs -/

def Op.adds (e : Entry) : Op → Bool
  | .add a => decide (entry a = some e)
  | _ => false

theorem additions_cons_le (e : Entry) (op : Op) (past : List Op) :
    additions e (op :: past) ≤ additions e past + (Op.adds e op).toNat := by
  cases op with
  | clear => exact Nat.zero_le _
  | acceptAll => exact Nat.le_add_right _ _
  | del a => exact Nat.le_add_right _ _
  | add a =>
    rw [additions, Op.adds]
    by_cases ha : entry a = some e <;> simp [ha]

variable {s : Sys} {op : Op}

theorem matches_step (hm : Matches s.1 s.2) (hinv : Inv s)
    (hroom : ∀ e, additions e s.2 + (Op.adds e op).toNat < 2 ^ 16) :
    Matches (op.apply s.1) (op :: s.2) ↔ Meets s op := by
  cases op with
  | clear => exact iff_of_true (matches_clear hinv.promisc) trivial
  | acceptAll => exact matches_acceptAll
  | del a => exact matches_del hm hinv
  | add a =>
    refine matches_add hm hinv fun e he => ?_
    have := hroom e
    rwa [Op.adds, decide_eq_true he] at this

theorem promisc_apply (f : Filter) : (op.apply f).promisc = f.promisc := by
  cases op with
  | clear => rfl
  | acceptAll => rw [Op.apply, Filter.acceptAll_eq]
  | add a =>
    show (f.acceptAdd a).promisc = f.promisc
    unfold Filter.acceptAdd
    split
    · exact Filter.promisc_addEntry
    · rfl
  | del a =>
    show (f.acceptDel a).promisc = f.promisc
    unfold Filter.acceptDel
    split
    · exact Filter.promisc_delEntry
    · rfl

theorem inv_step (hinv : Inv s) (hroom : ∀ e, additions e s.2 + (Op.adds e op).toNat < 2 ^ 16) (hok : Meets s op) :
    Inv (op.apply s.1, op :: s.2) := by
  refine ⟨(promisc_apply s.1).trans hinv.promisc, fun hall d => ?_⟩
  cases op with
  | clear => rfl
  | acceptAll => exact absurd trivial hall
  | add a =>
    have hcnt := hinv.refcnt hall
    unfold Op.apply
    cases ha : entry a with
    | none => simpa [Filter.acceptAdd, additions, deletions, ha] using hcnt d
    | some e =>
      have hle := (hok e ha).2 hall
      have hlt := hroom e
      rw [Op.adds, decide_eq_true ha, Bool.toNat_true] at hlt
      dsimp only
      rw [Filter.acceptAdd_of_entry ha, Filter.refcnt_addEntry, additions, deletions, ha]
      grind
  | del a =>
    have hcnt := hinv.refcnt hall
    unfold Op.apply
    cases ha : entry a with
    | none => simpa [Filter.acceptDel, additions, deletions, ha] using hcnt d
    | some e =>
      dsimp only
      rw [Filter.acceptDel_of_entry ha, Filter.refcnt_delEntry, additions, deletions, ha]
      by_cases hd : d = e
      · subst hd
        have := hcnt d
        rw [update_self, if_pos rfl]
        split <;> bv_omega
      · rw [update_of_ne hd, if_neg fun h => hd (some.inj h).symm]
        exact hcnt d

abbrev AllMatch : Sys → List Op → Prop := StepsMeet step fun s op => Matches (op.apply s.1) (op :: s.2)

theorem allMatch_iff : ∀ (ops : List Op) (s : Sys), Matches s.1 s.2 → Inv s →
    (∀ e, additions e s.2 + ops.countP (Op.adds e) < 2 ^ 16) → (AllMatch s ops ↔ StepsMeet step Meets s ops)
  | [], _, _, _, _ => Iff.rfl
  | op :: ops, s, hm, hinv, hroom => by
    have hone : ∀ e, additions e s.2 + (Op.adds e op).toNat < 2 ^ 16 := fun e => by
      grind
    have hrest : ∀ e, additions e (op :: s.2) + ops.countP (Op.adds e) < 2 ^ 16 := fun e => by
      grind [additions_cons_le]
    have hstep := matches_step hm hinv hone
    simp only [AllMatch, StepsMeet, step, mem_def, some.injEq, forall_eq']
    rw [hstep]
    refine and_congr_right fun hok => ?_
    exact allMatch_iff ops _ (hstep.mpr hok) (inv_step hinv hone hok) hrest

/-- **After a clear outside promiscuous mode, the tables say what they have to after each of the calls exactly if all
    calls meet the condition.** -/
theorem matches_iff_meets (f : Filter) (hp : f.promisc = false) (ops : List Op)
    (hroom : ∀ e, ops.countP (Op.adds e) < 2 ^ 16) :
    AllMatch (f, []) (.clear :: ops) ↔ StepsMeet step Meets (f, []) (.clear :: ops) := by
  have htail := allMatch_iff ops (f.clear, [.clear]) (matches_clear hp) (inv_clear hp) fun e => by
    rw [additions, Nat.zero_add]
    exact hroom e
  have hfirst : Matches f.clear [.clear] := matches_clear hp
  simp only [AllMatch, StepsMeet, step, mem_def, some.injEq, forall_eq', Op.apply] at htail ⊢
  exact and_congr (iff_of_true hfirst trivial) htail

def allNodes : EnAddr := #v[0x33, 0x33, 0, 0, 0, 1]

def powerOn : Filter := ⟨false, fun _ _ => 0, fun _ => 0⟩

/-- An address is added and deleted. -/
theorem matches_iff_meets_allNodes : AllMatch (powerOn, []) [.clear, .add allNodes, .del allNodes] := by
  refine (matches_iff_meets powerOn rfl [.add allNodes, .del allNodes] fun e => ?_).mpr ?_
  · exact Nat.lt_of_le_of_lt List.countP_le_length (by decide)
  · simp only [StepsMeet, step, mem_def, some.injEq, forall_eq', Meets, and_true, true_and]
    refine ⟨fun e _ => ⟨fun h => h.elim, fun _ => Nat.zero_le _⟩, fun e he _ => ⟨id, fun b hb hp => ?_⟩⟩
    exact hp.resolve_right id

/-- After `BSP_mve_mcast_filter_accept_all` most multicast addresses are not received. -/
theorem acceptAll_incomplete : ¬ ∀ f : Filter, f.promisc = false → ∀ ops : List Op,
    (∀ e, ops.countP (Op.adds e) < 2 ^ 16) → AllMatch (f, []) (.clear :: ops) := by
  intro h
  have hall := h powerOn rfl [.acceptAll] fun e => Nat.lt_of_le_of_lt List.countP_le_length (by decide)
  simp only [AllMatch, StepsMeet, step, mem_def, some.injEq, forall_eq', and_true] at hall
  have hon : powerOn.clear.acceptAll.enabled (.other, 0x29) = true :=
    hall.2.all trivial allNodes _ (by decide +kernel)
  rw [Filter.enabled_acceptAll, Filter.enabled_clear rfl] at hon
  exact absurd hon (by decide)

end RtemsLibbsd.Mve

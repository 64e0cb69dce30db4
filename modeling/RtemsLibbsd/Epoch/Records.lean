import Mathlib.Data.List.Count
import Mathlib.Data.Nat.Basic
import RtemsLibbsd.Epoch.Model

/-!
# Records and read sections

What a record says about the read sections that are open on its processor.

* `Tracked` — the counters count the sections, a bucket caches the epoch its sections were opened
  in, the epoch of the record is not newer than any section, and the global epoch is at most one
  ahead of it.
* **`Tracked.begin`**, **`Tracked.finish`**, **`Tracked.advance`** — it is kept by `ckEpochBegin`,
  by `ckEpochEnd` of the last section of a thread, and by an increment of the global epoch.

A record moves on to the other bucket's epoch when a bucket becomes empty.  A section of
`epoch_enter` is in no bucket; what protects it is that no other thread runs on the processor until
it ends, so the sections that end meanwhile were opened after it.
-/

namespace RtemsLibbsd.Epoch

open List Function

/-- `y` was opened before `x`. -/
def Section.Older (x y : Section) : Prop :=
  y.opened ≤ x.opened ∧ y.time < x.time ∧ (y.bucket = none → x.thread = y.thread)

/-- The record `r` and the open sections `l` of its processor, the last one first. -/
structure Tracked (g : Nat) (r : Record) (l : List Section) : Prop where
  active : r.active = l.length
  sense : ∀ x ∈ l, ∀ i, x.bucket = some i → i < CK_EPOCH_SENSE
  count : ∀ i < CK_EPOCH_SENSE, (r.bucket i).count = l.countP fun x => x.bucket = some i
  ref : ∀ i < CK_EPOCH_SENSE, 0 < (r.bucket i).count →
    (r.bucket i).epoch % CK_EPOCH_SENSE = i ∧ r.epoch ≤ (r.bucket i).epoch ∧ (r.bucket i).epoch ≤ g
  cached : ∀ x ∈ l, ∀ i, x.bucket = some i → x.opened = (r.bucket i).epoch
  opened : ∀ x ∈ l, r.epoch ≤ x.opened ∧ x.opened ≤ g
  lag : l ≠ [] → r.epoch ≤ g ∧ g ≤ r.epoch + 1
  order : l.Pairwise Section.Older

section Sections

variable {g : Nat} {r : Record} {l : List Section}

variable {x : Section}

theorem Tracked.count_pos (h : Tracked g r l) (hx : x ∈ l) {i : Nat}
    (hi : x.bucket = some i) : 0 < (r.bucket i).count := by
  rw [h.count i (h.sense x hx i hi)]
  exact countP_pos_iff.mpr ⟨x, hx, by simpa using hi⟩

theorem ckEpochBegin_epoch (g : Nat) (r : Record) (tracked : Bool) :
    (ckEpochBegin g r tracked).epoch = if r.active = 0 then g else r.epoch := by
  unfold ckEpochBegin addref
  cases tracked <;> simp only [if_true, Bool.false_eq_true, if_false] <;> split <;> rfl

@[simp] theorem ckEpochBegin_pending (g : Nat) (r : Record) (tracked : Bool) :
    (ckEpochBegin g r tracked).pending = r.pending := by
  unfold ckEpochBegin addref
  cases tracked <;> simp only [if_true, Bool.false_eq_true, if_false] <;> split <;> rfl

@[simp] theorem ckEpochBegin_nPending (g : Nat) (r : Record) (tracked : Bool) :
    (ckEpochBegin g r tracked).nPending = r.nPending := by
  unfold ckEpochBegin addref
  cases tracked <;> simp only [if_true, Bool.false_eq_true, if_false] <;> split <;> rfl

@[simp] theorem ckEpochEnd_pending (r : Record) (bucket : Option Nat) :
    (ckEpochEnd r bucket).pending = r.pending := by
  unfold ckEpochEnd delref
  cases bucket with
  | none => rfl
  | some i =>
    simp only
    split
    · rfl
    · split <;> rfl

@[simp] theorem ckEpochEnd_nPending (r : Record) (bucket : Option Nat) :
    (ckEpochEnd r bucket).nPending = r.nPending := by
  unfold ckEpochEnd delref
  cases bucket with
  | none => rfl
  | some i =>
    simp only
    split
    · rfl
    · split <;> rfl

/-- The first part of `ckEpochBegin`: the record is active and has an epoch. -/
theorem Tracked.activate (h : Tracked g r l) (b : Record)
    (hb : b = if r.active = 0 then { r with active := 1, epoch := g }
      else { r with active := r.active + 1 }) :
    b.active = l.length + 1 ∧ b.bucket = r.bucket ∧ b.epoch ≤ g ∧ g ≤ b.epoch + 1 ∧
    (∀ y ∈ l, b.epoch ≤ y.opened) ∧
    (∀ i < CK_EPOCH_SENSE, 0 < (r.bucket i).count → b.epoch ≤ (r.bucket i).epoch) := by
  have hactive := h.active
  cases l with
  | nil =>
    rw [length_nil] at hactive
    rw [if_pos hactive] at hb
    subst hb
    refine ⟨rfl, rfl, le_rfl, Nat.le_succ g, forall_mem_nil _, ?_⟩
    intro i hi hpos
    have hcount := h.count i hi
    simp only [countP_nil] at hcount
    omega
  | cons y ys =>
    rw [length_cons] at hactive
    rw [if_neg (by omega)] at hb
    subst hb
    obtain ⟨hle, hlag⟩ := h.lag (cons_ne_nil y ys)
    exact ⟨by simp [hactive], rfl, hle, hlag, fun z hz => (h.opened z hz).1,
      fun i hi hpos => (h.ref i hi hpos).2.1⟩

theorem Tracked.ref_eq (h : Tracked g r l) (hlag : l ≠ [] → g ≤ r.epoch + 1)
    (hpos : 0 < (r.bucket (g % CK_EPOCH_SENSE)).count) :
    (r.bucket (g % CK_EPOCH_SENSE)).epoch = g := by
  have hi : g % CK_EPOCH_SENSE < CK_EPOCH_SENSE := Nat.mod_lt _ (by decide)
  obtain ⟨hpar, hlow, hhigh⟩ := h.ref _ hi hpos
  have hne : l ≠ [] := by
    rintro rfl
    rw [h.count _ hi] at hpos
    simp at hpos
  have := hlag hne
  unfold CK_EPOCH_SENSE at hpar hlow hhigh ⊢
  omega

/-- **A section begins.** -/
theorem Tracked.begin (h : Tracked g r l) {t time : Nat}
    (hown : ∀ y ∈ l, y.bucket = none → t = y.thread) (htime : ∀ y ∈ l, y.time < time)
    (tracked : Bool) :
    Tracked g (ckEpochBegin g r tracked)
      (⟨t, if tracked then some (g % CK_EPOCH_SENSE) else none, g, time⟩ :: l) := by
  obtain ⟨hactive, hbucket, hle, hlag, hopened, href⟩ := h.activate _ rfl
  have horder : ∀ b : Option Nat, (⟨t, b, g, time⟩ :: l : List Section).Pairwise Section.Older := by
    intro b
    refine pairwise_cons.mpr ⟨?_, h.order⟩
    intro y hy
    exact ⟨(h.opened y hy).2, htime y hy, hown y hy⟩
  have hall : ∀ b : Option Nat, ∀ (q : Record), q.epoch ≤ g → (∀ y ∈ l, q.epoch ≤ y.opened) →
      ∀ x ∈ (⟨t, b, g, time⟩ :: l : List Section), q.epoch ≤ x.opened ∧ x.opened ≤ g := by
    intro b q hq hql x hx
    rcases mem_cons.mp hx with rfl | hx
    · exact ⟨hq, le_rfl⟩
    · exact ⟨hql x hx, (h.opened x hx).2⟩
  unfold ckEpochBegin
  cases tracked with
  | false =>
    simp only [Bool.false_eq_true, if_false]
    refine ⟨hactive, ?_, ?_, ?_, ?_, hall _ _ hle hopened, fun _ => ⟨hle, hlag⟩, horder _⟩
    · intro x hx i hi
      rcases mem_cons.mp hx with rfl | hx
      · cases hi
      · exact h.sense x hx i hi
    · intro i hi
      simp [hbucket, h.count i hi]
    · intro i hi hpos
      rw [hbucket] at hpos ⊢
      exact ⟨(h.ref i hi hpos).1, href i hi hpos, (h.ref i hi hpos).2.2⟩
    · intro x hx i hi
      rw [hbucket]
      rcases mem_cons.mp hx with rfl | hx
      · cases hi
      · exact h.cached x hx i hi
  | true =>
    simp only [if_true]
    have hsense : g % CK_EPOCH_SENSE < CK_EPOCH_SENSE := Nat.mod_lt _ (by decide)
    have hnew : (addref g (if r.active = 0 then { r with active := 1, epoch := g }
        else { r with active := r.active + 1 })).bucket =
        update r.bucket (g % CK_EPOCH_SENSE)
          ⟨g, (r.bucket (g % CK_EPOCH_SENSE)).count + 1⟩ := by
      grind [addref, h.ref_eq]
    refine ⟨hactive, ?_, ?_, ?_, ?_, hall _ _ hle hopened, fun _ => ⟨hle, hlag⟩, horder _⟩
    · intro x hx i hi
      rcases mem_cons.mp hx with rfl | hx
      · cases hi
        exact hsense
      · exact h.sense x hx i hi
    · intro i hi
      rw [hnew]
      rcases eq_or_ne i (g % CK_EPOCH_SENSE) with rfl | hne
      · simp [h.count _ hi]
      · rw [update_of_ne hne, countP_cons_of_neg (by simpa using hne.symm), h.count i hi]
    · intro i hi hpos
      rw [hnew] at hpos ⊢
      rcases eq_or_ne i (g % CK_EPOCH_SENSE) with rfl | hne
      · rw [update_self]
        exact ⟨rfl, hle, le_rfl⟩
      · rw [update_of_ne hne] at hpos ⊢
        exact ⟨(h.ref i hi hpos).1, href i hi hpos, (h.ref i hi hpos).2.2⟩
    · intro x hx i hi
      rw [hnew]
      rcases mem_cons.mp hx with rfl | hx
      · cases hi
        simp
      · rcases eq_or_ne i (g % CK_EPOCH_SENSE) with rfl | hne
        · rw [update_self, h.cached x hx _ hi]
          exact h.ref_eq (fun hl => (h.lag hl).2) (h.count_pos hx hi)
        · rw [update_of_ne hne]
          exact h.cached x hx i hi

/-- If a section of `epoch_enter` is open, the thread that runs ends the section that was opened
    last. -/
theorem Tracked.opened_le (h : Tracked g r l) {t : Nat} {x y : Section}
    (hfind : l.find? (fun x => x.thread == t) = some x) (hx : x.bucket ≠ none) (hy : y ∈ l)
    (hnone : y.bucket = none) (hown : t = y.thread) : ∀ z ∈ l, z.opened ≤ x.opened := by
  obtain ⟨-, pre, post, hl, hpre⟩ := find?_eq_some_iff_append.mp hfind
  have horder := h.order
  rw [hl] at horder hy
  obtain ⟨-, hpost, hcross⟩ := pairwise_append.mp horder
  intro z hz
  rw [hl] at hz
  rcases mem_append.mp hz with hz | hz
  · grind [Section.Older]
  · rcases mem_cons.mp hz with rfl | hz
    · exact le_rfl
    · exact ((pairwise_cons.mp hpost).1 z hz).1

theorem delref_spec (r : Record) (i : Nat) :
    (delref r i).active = r.active ∧
    (delref r i).bucket = update r.bucket i ⟨(r.bucket i).epoch, (r.bucket i).count - 1⟩ ∧
    ((delref r i).epoch = r.epoch ∨
      ((r.bucket i).count - 1 = 0 ∧
        0 < ((delref r i).bucket ((i + 1) % CK_EPOCH_SENSE)).count ∧
        (r.bucket i).epoch < ((delref r i).bucket ((i + 1) % CK_EPOCH_SENSE)).epoch ∧
        (delref r i).epoch = ((delref r i).bucket ((i + 1) % CK_EPOCH_SENSE)).epoch)) := by
  unfold delref
  simp only
  split
  · exact ⟨rfl, rfl, .inl rfl⟩
  · split
    · rename_i hother
      exact ⟨rfl, rfl, .inr ⟨by omega, hother.1, hother.2, rfl⟩⟩
    · exact ⟨rfl, rfl, .inl rfl⟩

theorem countP_erase_bucket (hx : x ∈ l) (j : Nat) :
    (l.erase x).countP (fun y => y.bucket = some j) =
      l.countP (fun y => y.bucket = some j) - if x.bucket = some j then 1 else 0 := by
  rw [countP_erase]
  simp [hx]

/-- **The last section of a thread ends.** -/
theorem Tracked.finish (h : Tracked g r l) {t : Nat}
    (hfind : l.find? (fun x => x.thread == t) = some x)
    (hown : ∀ y ∈ l, y.bucket = none → t = y.thread) :
    Tracked g (ckEpochEnd r x.bucket) (l.erase x) ∧ r.epoch ≤ (ckEpochEnd r x.bucket).epoch := by
  have hx : x ∈ l := mem_of_find?_eq_some hfind
  have hlen : (l.erase x).length = l.length - 1 := length_erase_of_mem hx
  have hsub : ∀ y ∈ l.erase x, y ∈ l := fun y hy => mem_of_mem_erase hy
  have hne : l ≠ [] := ne_nil_of_mem hx
  have horder : (l.erase x).Pairwise Section.Older := h.order.sublist erase_sublist
  have hactive := h.active
  unfold ckEpochEnd
  cases hb : x.bucket with
  | none =>
    refine ⟨⟨?_, fun y hy => h.sense y (hsub y hy), ?_, h.ref, fun y hy => h.cached y (hsub y hy),
      fun y hy => h.opened y (hsub y hy), fun _ => h.lag hne, horder⟩, le_rfl⟩
    · show r.active - 1 = _
      omega
    · intro i hi
      rw [countP_erase_bucket hx, hb]
      simpa using h.count i hi
  | some i =>
    have hi : i < CK_EPOCH_SENSE := h.sense x hx i hb
    obtain ⟨hact, hbucket, hepoch⟩ := delref_spec { r with active := r.active - 1 } i
    simp only
    generalize delref { r with active := r.active - 1 } i = q at hact hbucket hepoch ⊢
    have hcount : ∀ j < CK_EPOCH_SENSE,
        (q.bucket j).count = (l.erase x).countP fun y => y.bucket = some j := by
      intro j hj
      rw [hbucket, countP_erase_bucket hx, hb]
      rcases eq_or_ne j i with rfl | hji
      · simp [← h.count j hj]
      · grind [h.count]
    have hcache : ∀ j, (q.bucket j).epoch = (r.bucket j).epoch := by
      intro j
      rw [hbucket]
      grind
    have hpos : ∀ j < CK_EPOCH_SENSE, 0 < (q.bucket j).count → 0 < (r.bucket j).count := by
      intro j hj hq
      rw [hbucket] at hq
      grind
    have hcached : ∀ y ∈ l.erase x, ∀ j, y.bucket = some j → y.opened = (q.bucket j).epoch := by
      intro y hy j hj
      rw [hcache]
      exact h.cached y (hsub y hy) j hj
    -- the epoch of the record, which moves on only over sections that have ended
    have hmove : r.epoch ≤ q.epoch ∧ q.epoch ≤ g ∧
        (∀ j < CK_EPOCH_SENSE, 0 < (q.bucket j).count → q.epoch ≤ (q.bucket j).epoch) ∧
        ∀ y ∈ l.erase x, q.epoch ≤ y.opened := by
      rcases hepoch with heq | ⟨hzero, hother, hlt, heq⟩
      · have heq' : q.epoch = r.epoch := heq
        rw [heq']
        refine ⟨le_rfl, (h.lag hne).1, ?_, fun y hy => (h.opened y (hsub y hy)).1⟩
        intro j hj hq
        rw [hcache]
        exact (h.ref j hj (hpos j hj hq)).2.1
      · have ho : (i + 1) % CK_EPOCH_SENSE < CK_EPOCH_SENSE := Nat.mod_lt _ (by decide)
        obtain ⟨-, hlow, hhigh⟩ := h.ref _ ho (hpos _ ho hother)
        rw [← hcache] at hlow hhigh
        have hzero' : (q.bucket i).count = 0 := by
          rw [hbucket, update_self]
          exact hzero
        have hcases : ∀ j < CK_EPOCH_SENSE, j ≠ i → j = (i + 1) % CK_EPOCH_SENSE := by
          intro j hj hji
          unfold CK_EPOCH_SENSE at hi hj ⊢
          omega
        rw [heq]
        refine ⟨hlow, hhigh, ?_, ?_⟩
        · intro j hj hq
          have hji : j ≠ i := by
            rintro rfl
            omega
          rw [← hcases j hj hji]
        · intro y hy
          cases hyb : y.bucket with
          | some j =>
            have hj : j < CK_EPOCH_SENSE := h.sense y (hsub y hy) j hyb
            grind
          | none =>
            -- the other bucket would be newer than the section opened last
            have hle := h.opened_le hfind (by simp [hb]) (hsub y hy) hyb (hown y (hsub y hy) hyb)
            rw [hcount _ ho] at hother
            obtain ⟨z, hz, hzb⟩ := countP_pos_iff.mp hother
            have hzo := hcached z hz _ (by simpa using hzb)
            have hzx := hle z (hsub z hz)
            have hxo : x.opened = (r.bucket i).epoch := h.cached x hx i hb
            have hlt' : (r.bucket i).epoch < (q.bucket ((i + 1) % CK_EPOCH_SENSE)).epoch := hlt
            omega
    obtain ⟨hmono, hle, hmref, hmopen⟩ := hmove
    have hlag := h.lag hne
    refine ⟨⟨?_, fun y hy => h.sense y (hsub y hy), hcount, ?_, hcached,
      fun y hy => ⟨hmopen y hy, (h.opened y (hsub y hy)).2⟩, fun _ => ⟨hle, by omega⟩, horder⟩, hmono⟩
    · rw [hact, hlen, ← hactive]
    · intro j hj hq
      grind [h.ref]

/-- **The global epoch is incremented** when all records have seen it. -/
theorem Tracked.advance (h : Tracked g r l) (hseen : l ≠ [] → g ≤ r.epoch) :
    Tracked (g + 1) r l := by
  refine ⟨h.active, h.sense, h.count, ?_, h.cached, ?_, ?_, h.order⟩
  · intro i hi hpos
    obtain ⟨hpar, hlow, hhigh⟩ := h.ref i hi hpos
    exact ⟨hpar, hlow, Nat.le_succ_of_le hhigh⟩
  · intro x hx
    exact ⟨(h.opened x hx).1, Nat.le_succ_of_le (h.opened x hx).2⟩
  · intro hl
    have := h.lag hl
    have := hseen hl
    omega

theorem Tracked.same (h : Tracked g r l) {q : Record} (hepoch : q.epoch = r.epoch)
    (hactive : q.active = r.active) (hbucket : q.bucket = r.bucket) : Tracked g q l := by
  refine ⟨hactive.trans h.active, h.sense, ?_, ?_, ?_, ?_, ?_, h.order⟩
  · rw [hbucket]
    exact h.count
  · rw [hbucket, hepoch]
    exact h.ref
  · rw [hbucket]
    exact h.cached
  · rw [hepoch]
    exact h.opened
  · rw [hepoch]
    exact h.lag

theorem Tracked.inactive (h : Tracked g r []) {q : Record} (hactive : q.active = r.active)
    (hbucket : q.bucket = r.bucket) : Tracked g q [] := by
  have hzero : ∀ i < CK_EPOCH_SENSE, (r.bucket i).count = 0 := by
    intro i hi
    simpa using h.count i hi
  refine ⟨hactive.trans h.active, h.sense, ?_, ?_, forall_mem_nil _, forall_mem_nil _,
    fun hl => absurd rfl hl, List.Pairwise.nil⟩
  · rw [hbucket]
    exact h.count
  · intro i hi hpos
    rw [hbucket, hzero i hi] at hpos
    exact absurd hpos (Nat.lt_irrefl 0)

theorem tracked_init : Tracked 1 ⟨0, 0, fun _ => ⟨0, 0⟩, 0, fun _ => []⟩ [] where
  active := rfl
  sense := forall_mem_nil _
  count _ _ := rfl
  ref _ _ h := absurd h (Nat.lt_irrefl 0)
  cached := forall_mem_nil _
  opened := forall_mem_nil _
  lag h := absurd rfl h
  order := List.Pairwise.nil

end Sections

end RtemsLibbsd.Epoch

import RtemsLibbsd.Callout.Model

/-!
# Passes over the callwheel

* `WheelOk` — the lists of the callwheel hold the pending callouts, each in its bucket, and the armings of different
  callouts have different numbers.
* `Left` — a callout that was armed before the pass, is due and was not taken off the wheel in it.
* `Walk` — the callouts that are left are at the cursor or behind it in the current bucket, or in a bucket that is
  still to come.
* `PassOk` — the invariant of the passes; when no pass is under way no callout is left.
-/

namespace RtemsLibbsd.Callout

open Function RtemsLibbsd.ListCursor

variable {C L : Type} {s : Callouts C L}

structure WheelOk (s : Callouts C L) : Prop where
  nodup : ∀ b, (s.wheel b).Nodup
  mem : ∀ b c, c ∈ s.wheel b ↔ s.pending c = true ∧ callout_get_bucket (s.time c) = b
  known : ∀ c, s.pending c = true → s.arming c < s.armings
  distinct : ∀ c d, s.pending c = true → s.pending d = true → s.arming c = s.arming d → c = d
  current : ∀ c, s.curr = some c → s.currArming < s.armings
  other : ∀ c d, s.curr = some c → s.pending d = true → s.arming d ≠ s.currArming

/-- The callout was armed before this pass, it is due, and the pass has not dealt with it. -/
structure Left (s : Callouts C L) (c : C) : Prop where
  pending : s.pending c = true
  due : s.time c ≤ s.lastscan
  before : s.arming c < s.passStart
  untried : s.arming c ∉ s.tried

structure Walk (s : Callouts C L) (cursor : Option C) : Prop where
  ahead : ∀ c, Left s c → callout_get_bucket (s.time c) = s.loop.firstb % callwheelsize ∨
    ∃ j, s.loop.firstb < j ∧ j ≤ s.loop.nowb ∧ j % callwheelsize = callout_get_bucket (s.time c)
  cursor : CursorOk (s.wheel (s.loop.firstb % callwheelsize)) cursor (Left s)
  bound : s.loop.nowb ≤ s.loop.lastb

/-- What the place of the processing thread says about the pass. -/
def PlaceOk (s : Callouts C L) : Pc → Prop
  | .idle => ∀ c, ¬ Left s c
  | .scan => Walk s s.loop.pos
  | .lock | .check | .start | .run | .finish | .wake | .relock =>
    Walk s s.next ∧ s.bucket = s.loop.firstb % callwheelsize

structure PassOk (s : Callouts C L) : Prop where
  wheel : WheelOk s
  past : ∀ c, s.pending c = true → s.lastscan ≤ s.time c ∨ (s.arming c < s.passStart ∧ s.arming c ∉ s.tried)
  began : s.passStart ≤ s.armings
  place : PlaceOk s s.pc

/-- A place where `cc_lock` is dropped during the pass. -/
def Dropped (p : Pc) : Prop := p ≠ .idle ∧ p ≠ .scan

theorem placeOk_dropped {p : Pc} (hp : Dropped p) :
    PlaceOk s p ↔ Walk s s.next ∧ s.bucket = s.loop.firstb % callwheelsize := by
  cases p with
  | idle => exact absurd rfl hp.1
  | scan => exact absurd rfl hp.2
  | lock | check | start | run | finish | wake | relock => exact Iff.rfl

theorem passOk_init : PassOk (callwheelInit C L) where
  wheel :=
    { nodup := fun _ => List.nodup_nil
      mem := fun _ _ => ⟨nofun, nofun⟩
      known := nofun
      distinct := nofun
      current := nofun
      other := nofun }
  past := nofun
  began := Nat.le_refl 0
  place := fun _ h => Bool.noConfusion h.pending

variable {pc : Pc}

theorem PassOk.frame (h : PassOk s) {curr : Option C} {currArming : Nat} {cancel waiting : Bool}
    {owner : L → Option Owner} {drainers : List (Drainer C)} {drained returned : List C}
    {ran stopped ended : List Nat} (hcurr : ∀ c, curr = some c → s.curr = some c ∧ currArming = s.currArming)
    (hpc : pc = s.pc ∨ (Dropped s.pc ∧ Dropped pc)) :
    PassOk { s with
      curr := curr, currArming := currArming, cancel := cancel, waiting := waiting, owner := owner, pc := pc,
      drainers := drainers, drained := drained, returned := returned, ran := ran, stopped := stopped,
      ended := ended } := by
  generalize ht : ({ s with
      curr := curr, currArming := currArming, cancel := cancel, waiting := waiting, owner := owner, pc := pc,
      drainers := drainers, drained := drained, returned := returned, ran := ran, stopped := stopped,
      ended := ended } : Callouts C L) = t
  have hleft : ∀ c, Left t c → Left s c := by
    subst ht
    exact fun c h => ⟨h.pending, h.due, h.before, h.untried⟩
  have hwalk : ∀ cursor, Walk s cursor → Walk t cursor := by
    intro cursor hw
    have hcursor := hw.cursor.mono fun c _ hc => hleft c hc
    subst ht
    exact ⟨fun c hc => hw.ahead c (hleft c hc), hcursor, hw.bound⟩
  have hplace : PlaceOk t s.pc ∧ (Dropped s.pc → ∀ p, Dropped p → PlaceOk t p) := by
    grind [h.place, Dropped, PlaceOk, placeOk_dropped]
  have htplace : PlaceOk t t.pc := by
    grind
  subst ht
  refine ⟨⟨h.wheel.nodup, h.wheel.mem, h.wheel.known, h.wheel.distinct, fun c hc => ?_, fun c d hc hd => ?_⟩,
    h.past, h.began, htplace⟩
  · obtain ⟨hc, heq⟩ := hcurr c hc
    exact heq ▸ h.wheel.current c hc
  · obtain ⟨hc, heq⟩ := hcurr c hc
    exact heq ▸ h.wheel.other c d hc hd

/-! ## The list operations -/

variable [DecidableEq C]

variable {c d : C}

theorem update_eq_true {f : C → Bool} {b : Bool} :
    update f c b d = true ↔ (d = c ∧ b = true) ∨ (d ≠ c ∧ f d = true) := by
  by_cases h : d = c
  · subst h
    simp
  · simp [h]

theorem WheelOk.erase (h : WheelOk s) (c : C) :
    WheelOk { s with
      wheel := update s.wheel (callout_get_bucket (s.time c))
        ((s.wheel (callout_get_bucket (s.time c))).erase c)
      pending := update s.pending c false } := by
  have hsub : ∀ d, update s.pending c false d = true → s.pending d = true := fun d hd =>
    (update_eq_true.mp hd).elim (fun h => Bool.noConfusion h.2) fun h => h.2
  refine ⟨fun b => ?_, fun b d => ?_, fun d hd => h.known d (hsub d hd),
    fun d e hd he => h.distinct d e (hsub d hd) (hsub e he), h.current, fun d e hd he => h.other d e hd (hsub e he)⟩
  · grind [h.nodup]
  · show d ∈ update s.wheel _ _ b ↔ update s.pending c false d = true ∧ _
    by_cases hb : b = callout_get_bucket (s.time c)
    · subst hb
      rw [update_self, (h.nodup _).mem_erase_iff, h.mem]
      grind
    · rw [update_of_ne hb, h.mem]
      grind

theorem WheelOk.unlink (h : WheelOk s) (c : C) : WheelOk (unlink s c) :=
  let herase := h.erase c
  { herase with }

/-- A callout that is not pending is put into a list, with the number of an arming that no other callout has. -/
theorem WheelOk.add (h : WheelOk s) (hc : s.pending c = false) (sbt precision : Nat) {n m : Nat} (hn : n < m)
    (hm : s.armings ≤ m) (hnew : ∀ d, s.pending d = true → s.arming d ≠ n)
    (hcurr : ∀ d, s.curr = some d → n ≠ s.currArming) :
    WheelOk { callout_cc_add s c sbt precision n with armings := m } := by
  have hold : ∀ d, update s.pending c true d = true → d = c ∨ (d ≠ c ∧ s.pending d = true) := fun d hd =>
    (update_eq_true.mp hd).imp_left fun h => h.1
  refine ⟨fun b => ?_, fun b d => ?_, fun d hd => ?_, fun d e hd he heq => ?_, fun d hd => ?_, fun d e hd he => ?_⟩
  · show (update s.wheel _ _ b).Nodup
    by_cases hb : b = callout_get_bucket (max sbt s.lastscan)
    · subst hb
      rw [update_self]
      refine List.nodup_cons.mpr ⟨fun hmem => ?_, h.nodup _⟩
      rw [h.mem, hc] at hmem
      exact Bool.noConfusion hmem.1
    · rw [update_of_ne hb]
      exact h.nodup b
  · show d ∈ update s.wheel _ _ b ↔
      update s.pending c true d = true ∧ callout_get_bucket (update s.time c _ d) = b
    by_cases hd : d = c
    · subst hd
      by_cases hb : b = callout_get_bucket (max sbt s.lastscan)
      · subst hb
        simp
      · rw [update_of_ne hb, h.mem, hc]
        simp [Ne.symm hb]
    · grind [h.mem]
  · show update s.arming c n d < m
    rcases hold d hd with rfl | ⟨hne, hd⟩
    · rw [update_self]
      exact hn
    · rw [update_of_ne hne]
      exact Nat.lt_of_lt_of_le (h.known d hd) hm
  · have heq' : update s.arming c n d = update s.arming c n e := heq
    by_cases hdc : d = c
    · by_cases hec : e = c
      · rw [hdc, hec]
      · rw [hdc, update_self, update_of_ne hec] at heq'
        exact absurd heq'.symm (hnew e ((hold e he).resolve_left hec).2)
    · have hdp := ((hold d hd).resolve_left hdc).2
      by_cases hec : e = c
      · rw [hec, update_self, update_of_ne hdc] at heq'
        exact absurd heq' (hnew d hdp)
      · rw [update_of_ne hdc, update_of_ne hec] at heq'
        exact h.distinct d e hdp ((hold e he).resolve_left hec).2 heq'
  · exact Nat.lt_of_lt_of_le (h.current d hd) hm
  · show update s.arming c n e ≠ s.currArming
    rcases hold e he with rfl | ⟨hne, he⟩
    · rw [update_self]
      exact hcurr d hd
    · rw [update_of_ne hne]
      exact h.other d e hd he

theorem Left.of_erase {t : Callouts C L} (h : Left t d)
    (hpending : t.pending = update s.pending c false) (htime : t.time = s.time)
    (harming : t.arming = s.arming) (hscan : t.lastscan = s.lastscan) (hstart : t.passStart = s.passStart)
    (htried : ∀ n ∈ s.tried, n ∈ t.tried) : Left s d := by
  obtain ⟨hp, hdue, hbefore, huntried⟩ := h
  rw [hpending, update_eq_true] at hp
  rw [htime, hscan] at hdue
  rw [harming, hstart] at hbefore
  rw [harming] at huntried
  rcases hp with ⟨-, hp⟩ | ⟨-, hp⟩
  · cases hp
  · exact ⟨hp, hdue, hbefore, fun hm => huntried (htried _ hm)⟩

/-- The cursor when a callout is taken out of its list: what is left afterwards was left before. -/
theorem Walk.erase {P : C → Prop} {cursor : Option C} (h : Walk s cursor) (hw : WheelOk s) (c : C)
    (hp : ∀ d, P d → Left s d) :
    CursorOk
      (update s.wheel (callout_get_bucket (s.time c))
        ((s.wheel (callout_get_bucket (s.time c))).erase c) (s.loop.firstb % callwheelsize))
      (if cursor = some c then listNext c (s.wheel (callout_get_bucket (s.time c))) else cursor) P := by
  have hcursor := h.cursor.mono fun d _ hd => hp d hd
  by_cases hb : s.loop.firstb % callwheelsize = callout_get_bucket (s.time c)
  · rw [hb, update_self]
    rw [hb] at hcursor
    exact hcursor.remove (hw.nodup _) c
  · have hne : cursor ≠ some c := fun he => by
      rw [he] at hcursor
      exact hb ((hw.mem _ c).mp hcursor.mem).2.symm
    rw [update_of_ne hb, if_neg hne]
    exact hcursor

theorem left_of_unlink (h : Left (unlink s c) d) : Left s d :=
  h.of_erase rfl rfl rfl rfl rfl fun _ hn => hn

theorem PassOk.unlink (h : PassOk s) (hpc : s.pc ≠ .scan) (c : C) : PassOk (unlink s c) where
  wheel := h.wheel.unlink c
  past := fun d hd => h.past d ((update_eq_true.mp hd).elim (fun h => Bool.noConfusion h.2) fun h => h.2)
  began := h.began
  place := by
    have hplace := h.place
    by_cases hidle : s.pc = .idle
    · show PlaceOk (Callout.unlink s c) s.pc
      rw [hidle] at hplace ⊢
      exact fun d hd => hplace d (left_of_unlink hd)
    · have hdropped : Dropped s.pc := ⟨hidle, hpc⟩
      obtain ⟨hwalk, hbucket⟩ := (placeOk_dropped hdropped).mp hplace
      refine (placeOk_dropped (s := Callout.unlink s c) hdropped).mpr ⟨⟨fun d hd => ?_, ?_, hwalk.bound⟩, hbucket⟩
      · exact hwalk.ahead d (left_of_unlink hd)
      · exact hwalk.erase h.wheel c fun d hd => left_of_unlink hd

theorem left_of_add {sbt precision n : Nat} (hn : ¬ (n < s.passStart ∧ n ∉ s.tried))
    (h : Left (callout_cc_add s c sbt precision n) d) : d ≠ c ∧ Left s d := by
  obtain ⟨hp, hdue, hbefore, huntried⟩ := h
  have hne : d ≠ c := by
    rintro rfl
    have harming : (callout_cc_add s d sbt precision n).arming d = n := update_self ..
    rw [harming] at hbefore huntried
    exact hn ⟨hbefore, huntried⟩
  have hpending : (callout_cc_add s c sbt precision n).pending d = s.pending d := update_of_ne hne _ _
  have htime : (callout_cc_add s c sbt precision n).time d = s.time d := update_of_ne hne _ _
  have harming : (callout_cc_add s c sbt precision n).arming d = s.arming d := update_of_ne hne _ _
  rw [hpending] at hp
  rw [htime] at hdue
  rw [harming] at hbefore huntried
  exact ⟨hne, hp, hdue, hbefore, huntried⟩

theorem PassOk.add (h : PassOk s) (hpc : s.pc ≠ .scan) (hc : s.pending c = false) (sbt precision : Nat)
    {n m : Nat} (hnm : n < m) (hm : s.armings ≤ m) (hnew : ∀ d, s.pending d = true → s.arming d ≠ n)
    (hcurr : ∀ d, s.curr = some d → n ≠ s.currArming) (hn : ¬ (n < s.passStart ∧ n ∉ s.tried)) :
    PassOk { callout_cc_add s c sbt precision n with armings := m } where
  wheel := h.wheel.add hc sbt precision hnm hm hnew hcurr
  past := by
    intro d hd
    show s.lastscan ≤ update s.time c (max sbt s.lastscan) d ∨
      (update s.arming c n d < s.passStart ∧ update s.arming c n d ∉ s.tried)
    rcases update_eq_true.mp hd with ⟨rfl, -⟩ | ⟨hne, hd⟩
    · rw [update_self]
      exact .inl (Nat.le_max_right _ _)
    · rw [update_of_ne hne, update_of_ne hne]
      exact h.past d hd
  began := Nat.le_trans h.began hm
  place := by
    have hplace := h.place
    have hleft : ∀ d, Left { callout_cc_add s c sbt precision n with armings := m } d → d ≠ c ∧ Left s d :=
      fun d hd =>
        have hadd : Left (callout_cc_add s c sbt precision n) d := ⟨hd.pending, hd.due, hd.before, hd.untried⟩
        left_of_add hn hadd
    by_cases hidle : s.pc = .idle
    · grind [PlaceOk, callout_cc_add]
    · have hdropped : Dropped s.pc := ⟨hidle, hpc⟩
      obtain ⟨hwalk, hbucket⟩ := (placeOk_dropped hdropped).mp hplace
      refine (placeOk_dropped (s := { callout_cc_add s c sbt precision n with armings := m }) hdropped).mpr
        ⟨⟨fun d hd => ?_, ?_, hwalk.bound⟩, hbucket⟩
      · obtain ⟨hne, hold⟩ := hleft d hd
        have htime : update s.time c (max sbt s.lastscan) d = s.time d := update_of_ne hne _ _
        show callout_get_bucket (update s.time c (max sbt s.lastscan) d) = _ ∨
          ∃ j, _ ∧ _ ∧ _ = callout_get_bucket (update s.time c (max sbt s.lastscan) d)
        rw [htime]
        exact hwalk.ahead d hold
      · have hcursor := hwalk.cursor.mono fun d _ hd => (hleft d hd).2
        show CursorOk (update s.wheel (callout_get_bucket (max sbt s.lastscan)) _
            (s.loop.firstb % callwheelsize))
          (if s.bucket = callout_get_bucket (max sbt s.lastscan) then some c else s.next) _
        rw [hbucket]
        by_cases hb : s.loop.firstb % callwheelsize = callout_get_bucket (max sbt s.lastscan)
        · rw [if_pos hb, hb, update_self]
          exact CursorOk.insert
        · rw [if_neg hb, update_of_ne hb]
          exact hcursor

/-! ## The calls of other threads and of handlers -/

theorem pending_unlinkPending (s : Callouts C L) (c : C) : (unlinkPending s c).pending c = false := by
  unfold unlinkPending
  split
  · exact update_self ..
  · rename_i hp
    exact Bool.eq_false_iff.mpr hp

theorem PassOk.unlinkPending (h : PassOk s) (hpc : s.pc ≠ .scan) (c : C) : PassOk (unlinkPending s c) := by
  unfold Callout.unlinkPending
  split
  · have hun := h.unlink hpc c
    exact hun.frame (fun _ hd => ⟨hd, rfl⟩) (.inl rfl)
  · exact h

theorem unlinkPending_pc (s : Callouts C L) (c : C) : (unlinkPending s c).pc = s.pc := by
  unfold unlinkPending
  split <;> rfl

theorem PassOk.cancelCurrent (h : PassOk s) (cfg : Config C L) (c : C) :
    PassOk (cancelCurrent cfg s c) ∧ (cancelCurrent cfg s c).pc = s.pc := by
  unfold Callout.cancelCurrent
  split
  · exact ⟨h.frame (fun _ hd => ⟨hd, rfl⟩) (.inl rfl), rfl⟩
  · exact ⟨h, rfl⟩

theorem PassOk.reset (h : PassOk s) (hpc : s.pc ≠ .scan) (cfg : Config C L) (c : C) (sbt precision : Nat) :
    PassOk (callout_reset cfg s c sbt precision) := by
  unfold callout_reset
  dsimp only
  obtain ⟨hr, hrpc⟩ := h.cancelCurrent cfg c
  rw [← hrpc] at hpc
  generalize Callout.cancelCurrent cfg s c = r at *
  split
  · exact hr
  · have hq := hr.unlinkPending hpc c
    have hqc := pending_unlinkPending r c
    rw [← unlinkPending_pc r c] at hpc
    refine hq.add hpc hqc sbt precision (Nat.lt_succ_self _) (Nat.le_succ _)
      (fun d hd => ?_) (fun _ hd => ?_) fun hlt => absurd hlt.1 (Nat.not_lt_of_le hq.began)
    · exact Nat.ne_of_lt (hq.wheel.known d hd)
    · exact Nat.ne_of_gt (hq.wheel.current _ hd)

theorem PassOk.stop (h : PassOk s) (hpc : s.pc ≠ .scan) (cfg : Config C L) (c : C) :
    PassOk (callout_stop cfg s c) := by
  unfold callout_stop
  split
  · split
    · exact h.frame (fun d hd => ⟨hd, rfl⟩) (.inl rfl)
    · exact h.unlinkPending hpc c
  · split
    · have hun := h.unlink hpc c
      exact hun.frame (fun d hd => ⟨hd, rfl⟩) (.inl rfl)
    · exact h

theorem PassOk.drainReturn (h : PassOk s) (hpc : s.pc ≠ .scan) (c : C) : PassOk (drainReturn s c) :=
  (h.unlinkPending hpc c).frame (fun _ hd => ⟨hd, rfl⟩) (.inl rfl)

theorem PassOk.drain (h : PassOk s) (hpc : s.pc ≠ .scan) (c : C) : PassOk (callout_drain s c) := by
  unfold callout_drain
  dsimp only
  split
  · exact h.frame (fun d hd => ⟨hd, rfl⟩) (.inl rfl)
  · have hbegun : PassOk { s with drained := c :: s.drained } := h.frame (fun d hd => ⟨hd, rfl⟩) (.inl rfl)
    exact hbegun.drainReturn hpc c

/-! ## The processing thread -/

omit [DecidableEq C] in
theorem nowb_le_lastb (s : Callouts C L) (now : Nat) :
    (callout_process s now).loop.nowb ≤ (callout_process s now).loop.lastb ∧
    (callout_process s now).loop.nowb ≤ callout_hash now ∧
    (callout_process s now).loop.firstb = callout_hash s.lastscan ∧
    ((callout_process s now).loop.nowb < callout_hash now →
      (callout_process s now).loop.nowb = callout_hash s.lastscan + callwheelsize - 1) := by
  obtain ⟨look, hlook, hloop⟩ : ∃ look, 2 ^ 28 ≤ look ∧
      let lastb := callout_hash ((now + look) / 2 ^ 24 * 2 ^ 24) - 1
      let wrapped : Bool := decide (callwheelsize ≤ lastb - callout_hash s.lastscan)
      (callout_process s now).loop.lastb =
          (if wrapped then callout_hash s.lastscan + callwheelsize - 1 else lastb) ∧
        (callout_process s now).loop.nowb =
          (if wrapped ∧ callwheelsize ≤ callout_hash now - callout_hash s.lastscan then
            callout_hash s.lastscan + callwheelsize - 1
          else callout_hash now) := by
    refine ⟨_, ?_, rfl, rfl⟩
    split
    · decide
    · split
      · decide
      · decide
  have hhash : callout_hash now + 16 ≤ callout_hash ((now + look) / 2 ^ 24 * 2 ^ 24) := by
    unfold callout_hash
    omega
  obtain ⟨hlast, hnow⟩ := hloop
  simp only [callwheelsize, decide_eq_true_eq] at hlast hnow ⊢
  refine ⟨?_, ?_, rfl, ?_⟩
  · rw [hlast, hnow]
    split <;> split <;> omega
  · rw [hnow]
    split <;> omega
  · rw [hnow]
    split <;> omega

omit [DecidableEq C] in
theorem hash_range {now x : Nat} (hx : s.lastscan ≤ x) (hdue : x ≤ now) :
    callout_get_bucket x = (callout_process s now).loop.firstb % callwheelsize ∨
      ∃ j, (callout_process s now).loop.firstb < j ∧ j ≤ (callout_process s now).loop.nowb ∧
        j % callwheelsize = callout_get_bucket x := by
  obtain ⟨-, hnow, hfirst, hwrapped⟩ := nowb_le_lastb s now
  have hlow : callout_hash s.lastscan ≤ callout_hash x := Nat.div_le_div_right hx
  have hhigh : callout_hash x ≤ callout_hash now := Nat.div_le_div_right hdue
  unfold callout_get_bucket
  by_cases hin : callout_hash x ≤ (callout_process s now).loop.nowb
  · rcases Nat.lt_or_eq_of_le hlow with hlt | heq
    · exact .inr ⟨_, hlt, hin, rfl⟩
    · exact .inl (heq ▸ rfl)
  · -- the pass goes once around the wheel
    by_cases hmod : callout_hash x % callwheelsize = callout_hash s.lastscan % callwheelsize
    · exact .inl hmod
    · refine .inr ⟨callout_hash s.lastscan +
        (callout_hash x + (callwheelsize - callout_hash s.lastscan % callwheelsize)) % callwheelsize, ?_⟩
      unfold callwheelsize at *
      omega

omit [DecidableEq C] in
theorem PassOk.process (h : PassOk s) (hpc : s.pc = .idle) (now : Nat) : PassOk (callout_process s now) := by
  have hidle : ∀ c, ¬ Left s c := by
    have hplace := h.place
    rw [hpc] at hplace
    exact hplace
  have hpast : ∀ c, s.pending c = true → s.lastscan ≤ s.time c := fun c hc =>
    (h.past c hc).elim id fun hp => Nat.le_of_not_le fun hdue => hidle c ⟨hc, hdue, hp.1, hp.2⟩
  refine ⟨⟨h.wheel.nodup, h.wheel.mem, h.wheel.known, h.wheel.distinct, h.wheel.current, h.wheel.other⟩,
    fun c hc => .inr ⟨h.wheel.known c hc, List.not_mem_nil⟩, Nat.le_refl _, ?_⟩
  refine ⟨fun c hc => ?_, CursorOk.start, (nowb_le_lastb s now).1⟩
  exact hash_range (hpast c hc.pending) hc.due

theorem PassOk.begin (h : PassOk s) (hpc : s.pc = .scan) (hpos : s.loop.pos = some c) :
    PassOk { beginCallout s c with pc := .lock } ∧ s.pending c = true := by
  have hwalk : Walk s (some c) := by
    have hplace := h.place
    rw [hpc] at hplace
    exact hpos ▸ hplace
  obtain ⟨hpending, hbucket⟩ := (h.wheel.mem _ c).mp hwalk.cursor.mem
  have hother : ∀ d, update s.pending c false d = true → s.pending d = true ∧ s.arming d ≠ s.arming c := by
    intro d hd
    obtain ⟨hne, hd⟩ := (update_eq_true.mp hd).resolve_left fun h => Bool.noConfusion h.2
    exact ⟨hd, fun heq => hne (h.wheel.distinct d c hd hpending heq)⟩
  have hleft : ∀ d, Left { beginCallout s c with pc := .lock } d → Left s d := fun d hd =>
    hd.of_erase rfl rfl rfl rfl rfl fun _ hn => List.mem_cons_of_mem _ hn
  have herase := h.wheel.erase c
  have hcursor := hwalk.erase h.wheel c hleft
  rw [if_pos rfl, hbucket] at hcursor
  rw [hbucket] at herase
  refine ⟨⟨⟨herase.nodup, herase.mem, herase.known, herase.distinct, fun d _ => h.wheel.known c hpending,
    fun d e _ he => (hother e he).2⟩, fun d hd => ?_, h.began,
    ⟨fun d hd => hwalk.ahead d (hleft d hd), hcursor, hwalk.bound⟩, rfl⟩, hpending⟩
  obtain ⟨hd, hne⟩ := hother d hd
  exact (h.past d hd).imp_right fun hp => ⟨hp.1, fun hm => (List.mem_cons.mp hm).elim hne hp.2⟩

omit [DecidableEq C] in
theorem PassOk.resume (h : PassOk s) (hpc : Dropped s.pc) : PassOk (resumeScan s) := by
  obtain ⟨hw, -⟩ := (placeOk_dropped hpc).mp h.place
  have hleft : ∀ c, Left (resumeScan s) c → Left s c := fun c hc => ⟨hc.pending, hc.due, hc.before, hc.untried⟩
  exact ⟨⟨h.wheel.nodup, h.wheel.mem, h.wheel.known, h.wheel.distinct, h.wheel.current, h.wheel.other⟩, h.past,
    h.began, fun c hc => hw.ahead c (hleft c hc), hw.cursor.mono fun c _ hc => hleft c hc, hw.bound⟩

theorem PassOk.putBack (h : PassOk s) (hpc : s.pc = .scan) (hpos : s.loop.pos = some c) :
    PassOk (putBack s c) := by
  obtain ⟨hbegin, hpending⟩ := h.begin hpc hpos
  have hdropped : Dropped .lock ∧ Dropped .relock := ⟨⟨nofun, nofun⟩, nofun, nofun⟩
  have hfree : PassOk { beginCallout s c with curr := none, pc := .relock } := hbegin.frame nofun (.inr hdropped)
  have hnot : (beginCallout s c).pending c = false := update_self ..
  have hadd := hfree.add nofun hnot (s.lastscan + s.precision c / 2) (max (s.precision c / 2) 1)
    (h.wheel.known c hpending) (Nat.le_refl s.armings) (fun d hd => hbegin.wheel.other c d rfl hd) nofun
    fun hn => hn.2 List.mem_cons_self
  exact hadd.resume hdropped.2

theorem PassOk.call (h : PassOk s) [DecidableEq L] (hpc : s.pc = .scan) (hpos : s.loop.pos = some c)
    (cfg : Config C L) : PassOk (softclock_call_cc cfg s c) := by
  obtain ⟨hbegin, -⟩ := h.begin hpc hpos
  have hlock : Dropped .lock := ⟨nofun, nofun⟩
  unfold softclock_call_cc
  split
  · exact hbegin.frame (fun _ hd => ⟨hd, rfl⟩) (.inr ⟨hlock, nofun, nofun⟩)
  · split
    · split
      · exact hbegin.frame (fun _ hd => ⟨hd, rfl⟩) (.inr ⟨hlock, nofun, nofun⟩)
      · exact h.putBack hpc hpos
    · exact hbegin

variable {loop : Scan C}

omit [DecidableEq C] in
theorem PassOk.goOn (h : PassOk s) (hplace : PlaceOk { s with loop := loop, pc := pc } pc) :
    PassOk { s with loop := loop, pc := pc } :=
  ⟨⟨h.wheel.nodup, h.wheel.mem, h.wheel.known, h.wheel.distinct, h.wheel.current, h.wheel.other⟩, h.past, h.began,
    hplace⟩

omit [DecidableEq C] in
theorem left_of_goOn (h : Left { s with loop := loop, pc := pc } c) : Left s c :=
  ⟨h.pending, h.due, h.before, h.untried⟩

omit [DecidableEq C] in
theorem Walk.behind (h : Walk s none) (hw : WheelOk s) (hc : Left s c) :
    ∃ j, s.loop.firstb < j ∧ j ≤ s.loop.nowb ∧ j % callwheelsize = callout_get_bucket (s.time c) := by
  refine (h.ahead c hc).resolve_left fun hb => ?_
  exact h.cursor.done c ((hw.mem _ c).mpr ⟨hc.pending, hb⟩) hc

theorem PassOk.passOver (h : PassOk s) (hpc : s.pc = .scan) (hw : Walk s (some c))
    (hdue : ¬ s.time c ≤ s.lastscan) (hfirst : loop.firstb = s.loop.firstb)
    (hnow : loop.nowb = s.loop.nowb) (hlast : loop.lastb = s.loop.lastb ∨ loop.lastb = s.loop.nowb)
    (hnext : loop.pos = listNext c (s.wheel (s.loop.firstb % callwheelsize))) : PassOk { s with loop := loop } := by
  have hgo : PlaceOk { s with loop := loop, pc := s.pc } s.pc → PassOk { s with loop := loop, pc := s.pc } := h.goOn
  refine hgo ?_
  rw [hpc]
  refine ⟨fun d hd => ?_, ?_, ?_⟩
  · show _ = loop.firstb % callwheelsize ∨ ∃ j, loop.firstb < j ∧ j ≤ loop.nowb ∧ _
    rw [hfirst, hnow]
    exact hw.ahead d (left_of_goOn hd)
  · show CursorOk (s.wheel (loop.firstb % callwheelsize)) loop.pos _
    rw [hfirst, hnext]
    refine (hw.cursor.mono fun d _ hd => left_of_goOn hd).advance (h.wheel.nodup _) fun hl => ?_
    exact hdue hl.due
  · grind [hw.bound]

omit [DecidableEq C] in
theorem PassOk.nextBucket (h : PassOk s) (hpc : s.pc = .scan) (hw : Walk s none) :
    PassOk { s with
      loop :=
        { s.loop with
          firstb := s.loop.firstb + 1
          pos := (s.wheel ((s.loop.firstb + 1) % callwheelsize)).head? } } := by
  have hgo : ∀ {loop : Scan C}, PlaceOk { s with loop := loop, pc := s.pc } s.pc →
      PassOk { s with loop := loop, pc := s.pc } := h.goOn
  refine hgo ?_
  rw [hpc]
  refine ⟨fun d hd => ?_, CursorOk.start, hw.bound⟩
  obtain ⟨j, hj, hjn, hjd⟩ := hw.behind h.wheel (left_of_goOn hd)
  rcases Nat.lt_or_eq_of_le hj with hlt | heq
  · exact .inr ⟨j, hlt, hjn, hjd⟩
  · refine .inl ?_
    rw [← hjd, ← heq]

omit [DecidableEq C] in
theorem PassOk.endPass (h : PassOk s) (hw : Walk s none) (hlast : ¬ s.loop.firstb + 1 ≤ s.loop.lastb) :
    PassOk { s with loop := { s.loop with firstb := s.loop.firstb + 1 }, pc := .idle } := by
  refine h.goOn fun d hd => ?_
  obtain ⟨j, hj, hjn, -⟩ := hw.behind h.wheel (left_of_goOn hd)
  exact hlast (Nat.le_trans hj (Nat.le_trans hjn hw.bound))

/-- **Every step keeps the invariant of the passes.** -/
theorem passOk_step [DecidableEq L] {cfg : Config C L} {a : Act C L} {s t : Callouts C L} (h : PassOk s)
    (hstep : step cfg s a = some t) : PassOk t := by
  have hwalk : s.pc = .scan → Walk s s.loop.pos := fun hpc => by
    have hplace := h.place
    rwa [hpc] at hplace
  have hto : ∀ {p q : Pc}, s.pc = p → Dropped p → Dropped q → q = s.pc ∨ (Dropped s.pc ∧ Dropped q) :=
    fun hpc hp hq => .inr ⟨hpc ▸ hp, hq⟩
  cases move_of_step hstep with
  | process now hpc hnow => exact h.process hpc now
  | call c hpc hpos hdue => exact h.call hpc hpos cfg
  | pass c loop hpc hpos hdue hfirst hnow hlast hnext =>
    exact h.passOver hpc (hpos ▸ hwalk hpc) hdue hfirst hnow hlast hnext
  | bucket hpc hpos hlast => exact h.nextBucket hpc (hpos ▸ hwalk hpc)
  | endPass hpc hpos hlast => exact h.endPass (hpos ▸ hwalk hpc) hlast
  | acquire c l hcurr hlock hpc hfree =>
    exact h.frame (fun _ hd => ⟨hd, rfl⟩) (hto hpc ⟨nofun, nofun⟩ ⟨nofun, nofun⟩)
  | skip c hcurr hpc hcancel =>
    unfold unlockProc
    split
    · exact h.frame (fun _ hd => ⟨hd, rfl⟩) (hto hpc ⟨nofun, nofun⟩ ⟨nofun, nofun⟩)
    · exact h.frame (fun _ hd => ⟨hd, rfl⟩) (hto hpc ⟨nofun, nofun⟩ ⟨nofun, nofun⟩)
  | sure c hcurr hpc hcancel => exact h.frame (fun _ hd => ⟨hd, rfl⟩) (hto hpc ⟨nofun, nofun⟩ ⟨nofun, nofun⟩)
  | start hpc => exact h.frame (fun _ hd => ⟨hd, rfl⟩) (hto hpc ⟨nofun, nofun⟩ ⟨nofun, nofun⟩)
  | handlerReset c sbt precision hcurr hpc =>
    refine h.reset ?_ cfg c sbt precision
    rw [hpc]
    nofun
  | handlerLocks a owner hpc => exact h.frame (fun _ hd => ⟨hd, rfl⟩) (.inl rfl)
  | finish owner hpc => exact h.frame (fun _ hd => ⟨hd, rfl⟩) (hto hpc ⟨nofun, nofun⟩ ⟨nofun, nofun⟩)
  | wake hpc hwaiting => exact h.frame nofun (hto hpc ⟨nofun, nofun⟩ ⟨nofun, nofun⟩)
  | done hpc hwaiting =>
    have hfree : PassOk { s with curr := none, pc := .finish } := h.frame nofun (.inl hpc.symm)
    exact hfree.resume ⟨nofun, nofun⟩
  | wakeup hpc => exact h.frame (fun _ hd => ⟨hd, rfl⟩) (hto hpc ⟨nofun, nofun⟩ ⟨nofun, nofun⟩)
  | relock hpc =>
    refine h.resume ?_
    rw [hpc]
    exact ⟨nofun, nofun⟩
  | reset c sbt precision hpc hdrained => exact h.reset hpc cfg c sbt precision
  | stop o c hpc hmay => exact h.stop hpc cfg c
  | drain c hpc => exact h.drain hpc c
  | drainWoken k c hpc hk => exact (h.drainReturn hpc c).frame (fun _ hd => ⟨hd, rfl⟩) (.inl rfl)
  | lockBy t l hfree => exact h.frame (fun _ hd => ⟨hd, rfl⟩) (.inl rfl)
  | unlockBy t l hheld => exact h.frame (fun _ hd => ⟨hd, rfl⟩) (.inl rfl)

end RtemsLibbsd.Callout

import RtemsLibbsd.Epoch.Records

/-!
# Grace periods

A callback is not executed while a read section is open that was open when it was registered.

* `Core` — the records agree with the sections, a pending callback has the value of the global
  epoch that its call loaded, no open section is older than the call of a deferred callback, and the
  calls under way hold a value that no older section has passed.
* `Polled` — what `ck_epoch_poll_deferred` knows at each of its steps: which sections are open on
  the records it has scanned.  `Later` says which changes of an epoch keep that knowledge.
* **`Grace.step`** — every step keeps both.
-/

namespace RtemsLibbsd.Epoch

open Option List RtemsLibbsd.Transition
open Function (update_eq_self update_of_ne update_self)

/-- Records, sections and pending callbacks of the epoch `e`. -/
structure DomainCore (cpus e time : Nat) (d : Domain) : Prop where
  tracked : ∀ c, Tracked d.global (d.record c) (d.sections c)
  cpu : ∀ c, cpus ≤ c → d.sections c = []
  begun : ∀ c, ∀ y ∈ d.sections c, y.time < time
  pending : ∀ c i, ∀ x ∈ (d.record c).pending i,
    x.value % CK_EPOCH_LENGTH = i ∧ x.value ≤ d.global ∧ x.made < x.time ∧ x.time < time
  before : ∀ c i, ∀ x ∈ (d.record c).pending i, ∀ k, ∀ y ∈ d.sections k,
    y.time < x.made → y.opened ≤ x.value
  home : ∀ c i, ∀ x ∈ (d.record c).pending i, x.epoch = e ∧ x.cpu = c

/-- The global epoch that a call has loaded, and when. -/
def Pc.loaded : Pc → Option (Nat × Nat)
  | .valued v m | .sized v m _ | .queued v m | .linked v m _ => some (v, m)
  | _ => none

/-- The global epoch was `v` or larger at the time `m` for the sections open since. -/
def Held (d : Domain) (time v m : Nat) : Prop :=
  v ≤ d.global ∧ m < time ∧ ∀ k, ∀ y ∈ d.sections k, y.time < m → y.opened ≤ v

/-- All epochs, the calls under way, and the callbacks that were deferred for execution. -/
structure Core (cpus : Nat) (calls : List Call) (dom : Nat → Domain)
    (stack : Nat → List Callback) (time : Nat) : Prop where
  domain : ∀ e, DomainCore cpus e time (dom e)
  held : ∀ x ∈ calls, ∀ v m, x.pc.loaded = some (v, m) → Held (dom x.epoch) time v m
  stacked : ∀ c, ∀ x ∈ stack c, x.cpu = c ∧ x.made < x.time ∧ x.time < time
  deferred : ∀ c, ∀ x ∈ stack c, ∀ k, ∀ y ∈ (dom x.epoch).sections k, x.made ≤ y.time

/-- The snapshot of the global epoch and the callbacks of the polling processor. -/
def Snapshot (d : Domain) (c epoch : Nat) : Prop :=
  epoch ≤ d.global ∧ ∀ i, ∀ x ∈ (d.record c).pending i, x.value ≤ epoch

/-- The scan has passed the record of processor `k`: the sections that are open there and older
    than a callback have seen the snapshot, and if the snapshot is current so has the record. -/
def Seen (d : Domain) (c epoch : Nat) (active : Bool) (k : Nat) : Prop :=
  (∀ y ∈ d.sections k, ∀ i, ∀ x ∈ (d.record c).pending i, y.time < x.made →
    active = true ∧ epoch ≤ x.value) ∧
  (d.global = epoch → d.sections k ≠ [] → epoch ≤ (d.record k).epoch)

/-- What the poll of processor `c` knows. -/
def Polled (cpus : Nat) (dom : Nat → Domain) (c : Nat) : Server → Prop
  | .loaded e epoch _ _ => Snapshot (dom e) c epoch
  | .scan e epoch _ todo active _ => Snapshot (dom e) c epoch ∧
      (∀ k < cpus, k ∉ todo → Seen (dom e) c epoch active k) ∧
      (active = false → c ∉ todo → (dom e).sections c = [])
  | .scanEpoch e epoch _ d todo _ => Snapshot (dom e) c epoch ∧
      ∀ k < cpus, k ≠ d → k ∉ todo → Seen (dom e) c epoch true k
  | .cas e epoch _ _ => Snapshot (dom e) c epoch ∧ ∀ k < cpus, Seen (dom e) c epoch true k
  | .tail e epoch _ _ => Snapshot (dom e) c epoch ∧
      ∀ k < cpus, ∀ y ∈ (dom e).sections k, ∀ i, ∀ x ∈ ((dom e).record c).pending i,
        y.time < x.made → epoch ≤ x.value
  | _ => True

/-- A change of an epoch that a poll of processor `c` need not notice. -/
structure Later (d d' : Domain) (c : Nat) : Prop where
  global : d.global ≤ d'.global
  pending : ∀ i, ∀ x ∈ (d'.record c).pending i, x ∈ (d.record c).pending i
  sections : ∀ k, ∀ y ∈ d'.sections k, y ∈ d.sections k ∨
    ∀ i, ∀ x ∈ (d.record c).pending i, x.made ≤ y.time
  own : d.sections c = [] → d'.sections c = []
  record : ∀ k, d'.sections k ≠ [] → d'.global = d.global →
    (d.sections k ≠ [] → (d.record k).epoch ≤ (d'.record k).epoch) ∧
    (d.sections k = [] → d'.global ≤ (d'.record k).epoch)

section Polls

variable {cpus : Nat} {d d' : Domain} {c epoch k : Nat} {active : Bool}

theorem Later.refl (d : Domain) (c : Nat) : Later d d c := by
  refine ⟨le_rfl, fun _ _ h => h, fun _ _ h => .inl h, fun h => h, ?_⟩
  intro k hk _
  exact ⟨fun _ => le_rfl, fun h => absurd h hk⟩

theorem Snapshot.later (h : Snapshot d c epoch) (hl : Later d d' c) : Snapshot d' c epoch :=
  ⟨le_trans h.1 hl.global, fun i x hx => h.2 i x (hl.pending i x hx)⟩

theorem Seen.later (h : Seen d c epoch active k) (hs : Snapshot d c epoch) (hl : Later d d' c) :
    Seen d' c epoch active k := by
  constructor
  · intro y hy i x hx hlt
    have hx' := hl.pending i x hx
    grind [hl.sections, Seen]
  · intro hg hk
    grind [hl.global, hl.record, Snapshot, Seen]

theorem Polled.later {dom dom' : Nat → Domain} {p : Server} (h : Polled cpus dom c p)
    (hl : ∀ e, Later (dom e) (dom' e) c) : Polled cpus dom' c p := by
  cases p with
  | loaded e epoch np es => exact Snapshot.later h (hl e)
  | scan e epoch np todo active es =>
    obtain ⟨hs, hseen, hown⟩ := h
    exact ⟨hs.later (hl e), fun k hk ht => (hseen k hk ht).later hs (hl e),
      fun ha hc => (hl e).own (hown ha hc)⟩
  | scanEpoch e epoch np d todo es =>
    obtain ⟨hs, hseen⟩ := h
    exact ⟨hs.later (hl e), fun k hk hd ht => (hseen k hk hd ht).later hs (hl e)⟩
  | cas e epoch np es =>
    obtain ⟨hs, hseen⟩ := h
    exact ⟨hs.later (hl e), fun k hk => (hseen k hk).later hs (hl e)⟩
  | tail e epoch np es =>
    obtain ⟨hs, hseen⟩ := h
    refine ⟨hs.later (hl e), ?_⟩
    intro k hk y hy i x hx hlt
    have hx' := (hl e).pending i x hx
    rcases (hl e).sections k y hy with hy | hy
    · exact hseen k hk y hy i x hx' hlt
    · have := hy i x hx'
      omega
  | _ => trivial

theorem polled_of_enabled {dom : Nat → Domain} {p : Server} (h : p.disabled = false) :
    Polled cpus dom c p := by
  cases p with
  | loaded e epoch np es => cases h
  | scan e epoch np todo active es => cases h
  | scanEpoch e epoch np d todo es => cases h
  | cas e epoch np es => cases h
  | tail e epoch np es => cases h
  | _ => trivial

theorem later_update {dom : Nat → Domain} {e : Nat} (h : Later (dom e) d' c) (f : Nat) :
    Later (dom f) (Function.update dom e d' f) c := by
  rcases eq_or_ne f e with rfl | hne
  · rw [update_self]
    exact h
  · rw [update_of_ne hne]
    exact Later.refl _ _

end Polls

section Effects

variable {cpus e time : Nat} {d d' : Domain}

variable {time' : Nat}

theorem DomainCore.mono (h : DomainCore cpus e time d) (htime : time ≤ time')
    (hglobal : d.global ≤ d'.global)
    (htracked : ∀ c, Tracked d'.global (d'.record c) (d'.sections c))
    (hsections : ∀ c, ∀ y ∈ d'.sections c, y ∈ d.sections c)
    (hpending : ∀ c i, ∀ x ∈ (d'.record c).pending i, x ∈ (d.record c).pending i) :
    DomainCore cpus e time' d' := by
  refine ⟨htracked, ?_, ?_, ?_, ?_, ?_⟩
  · intro c hc
    refine eq_nil_iff_forall_not_mem.mpr ?_
    intro y hy
    have := hsections c y hy
    simp [h.cpu c hc] at this
  · intro c y hy
    exact lt_of_lt_of_le (h.begun c y (hsections c y hy)) htime
  · intro c i x hx
    grind [h.pending]
  · intro c i x hx k y hy
    exact h.before c i x (hpending c i x hx) k y (hsections k y hy)
  · intro c i x hx
    exact h.home c i x (hpending c i x hx)

theorem DomainCore.enter (h : DomainCore cpus e time d) {t c : Nat} (hc : c < cpus)
    (hown : ∀ y ∈ d.sections c, y.bucket = none → t = y.thread) (tracked : Bool) :
    DomainCore cpus e (time + 1) { d.setRecord c (ckEpochBegin d.global (d.record c) tracked) with
      sections := Function.update d.sections c
        (⟨t, if tracked then some (d.global % CK_EPOCH_SENSE) else none, d.global, time⟩ ::
          d.sections c) } := by
  have hpending : ∀ k i, (Function.update d.record c
      (ckEpochBegin d.global (d.record c) tracked) k).pending i = (d.record k).pending i := by
    intro k i
    rcases eq_or_ne k c with rfl | hk
    · simp
    · rw [update_of_ne hk]
  have hsections : ∀ k, ∀ y ∈ Function.update d.sections c
      ((⟨t, if tracked then some (d.global % CK_EPOCH_SENSE) else none, d.global, time⟩ : Section) ::
        d.sections c) k, y ∈ d.sections k ∨ (y.time = time ∧ k = c) := by
    intro k y hy
    grind
  refine ⟨?_, ?_, ?_, ?_, ?_, ?_⟩
  · intro k
    rcases eq_or_ne k c with rfl | hk
    · simpa [Domain.setRecord] using (h.tracked k).begin hown (h.begun k) tracked
    · simpa [Domain.setRecord, hk] using h.tracked k
  · intro k hk
    have hkc : k ≠ c := by omega
    simpa [hkc] using h.cpu k hk
  · intro k y hy
    rcases hsections k y hy with hy | hy
    · exact Nat.lt_succ_of_lt (h.begun k y hy)
    · omega
  · intro k i x hx
    obtain ⟨h1, h2, h3, h4⟩ := h.pending k i x (hpending k i ▸ hx)
    exact ⟨h1, h2, h3, Nat.lt_succ_of_lt h4⟩
  · intro k i x hx m y hy hlt
    have hx' := hpending k i ▸ hx
    rcases hsections m y hy with hy | hy
    · exact h.before k i x hx' m y hy hlt
    · have := (h.pending k i x hx').2.2
      omega
  · intro k i x hx
    exact h.home k i x (hpending k i ▸ hx)

/-- The stack of its value with the callback `y` on top. -/
def Record.pushed (r : Record) (y : Callback) : Record :=
  let i := y.value % CK_EPOCH_LENGTH
  { r with pending := Function.update r.pending i (y :: r.pending i) }

/-- **A callback is pushed** with the value of the global epoch that its call has loaded. -/
theorem DomainCore.push (h : DomainCore cpus e time d) {y : Callback} (he : y.epoch = e)
    (htime : y.time = time) (hheld : Held d time y.value y.made) (drain : Drain) :
    DomainCore cpus e (time + 1)
      { d.setRecord y.cpu ((d.record y.cpu).pushed y) with drain := drain } := by
  obtain ⟨hv, hm, hbefore⟩ := hheld
  have hpending : ∀ k i, ∀ x ∈ (Function.update d.record y.cpu ((d.record y.cpu).pushed y) k).pending i,
      x ∈ (d.record k).pending i ∨ (x = y ∧ k = y.cpu ∧ i = y.value % CK_EPOCH_LENGTH) := by
    intro k i x hx
    rcases eq_or_ne k y.cpu with rfl | hk
    · rw [update_self] at hx
      unfold Record.pushed at hx
      grind
    · rw [update_of_ne hk] at hx
      exact .inl hx
  refine ⟨?_, h.cpu, ?_, ?_, ?_, ?_⟩
  · intro k
    rcases eq_or_ne k y.cpu with rfl | hk
    · refine (h.tracked y.cpu).same ?_ ?_ ?_ <;> simp [Domain.setRecord, Record.pushed]
    · simpa [Domain.setRecord, hk] using h.tracked k
  · intro k z hz
    exact Nat.lt_succ_of_lt (h.begun k z hz)
  · intro k i x hx
    rcases hpending k i x hx with hx | ⟨rfl, rfl, rfl⟩
    · obtain ⟨h1, h2, h3, h4⟩ := h.pending k i x hx
      exact ⟨h1, h2, h3, Nat.lt_succ_of_lt h4⟩
    · exact ⟨rfl, hv, htime ▸ hm, htime ▸ Nat.lt_succ_self _⟩
  · intro k i x hx j z hz hlt
    rcases hpending k i x hx with hx | ⟨rfl, rfl, rfl⟩
    · exact h.before k i x hx j z hz hlt
    · exact hbefore j z hz hlt
  · intro k i x hx
    rcases hpending k i x hx with hx | ⟨rfl, rfl, rfl⟩
    · exact h.home k i x hx
    · exact ⟨he, rfl⟩

theorem Held.mono {v m time' : Nat} (h : Held d time v m) (htime : time ≤ time')
    (hglobal : d.global ≤ d'.global)
    (hsections : ∀ k, ∀ y ∈ d'.sections k, y ∈ d.sections k ∨ time ≤ y.time) : Held d' time' v m := by
  obtain ⟨hv, hm, hbefore⟩ := h
  refine ⟨le_trans hv hglobal, lt_of_lt_of_le hm htime, ?_⟩
  intro k y hy hlt
  rcases hsections k y hy with hy | hy
  · exact hbefore k y hy hlt
  · omega

variable {calls : List Call} {dom : Nat → Domain} {stack : Nat → List Callback}

theorem Core.update (h : Core cpus calls dom stack time) (htime : time ≤ time')
    (hd : DomainCore cpus e time' d') (hglobal : (dom e).global ≤ d'.global)
    (hsections : ∀ k, ∀ y ∈ d'.sections k, y ∈ (dom e).sections k ∨ time ≤ y.time) :
    Core cpus calls (Function.update dom e d') stack time' := by
  refine ⟨?_, ?_, ?_, ?_⟩
  · intro f
    rcases eq_or_ne f e with rfl | hf
    · rw [update_self]
      exact hd
    · rw [update_of_ne hf]
      have hold := h.domain f
      exact hold.mono htime le_rfl hold.tracked (fun _ _ hy => hy) (fun _ _ _ hx => hx)
  · intro x hx v m hpc
    have hold := h.held x hx v m hpc
    by_cases hf : x.epoch = e
    · rw [hf, update_self]
      exact (hf ▸ hold).mono htime hglobal hsections
    · rw [update_of_ne hf]
      exact hold.mono htime le_rfl fun _ _ hy => .inl hy
  · intro c x hx
    obtain ⟨hc, hm, ht⟩ := h.stacked c x hx
    exact ⟨hc, hm, lt_of_lt_of_le ht htime⟩
  · intro c x hx k y hy
    obtain ⟨-, hm, ht⟩ := h.stacked c x hx
    by_cases hf : x.epoch = e
    · rw [hf, update_self] at hy
      rcases hsections k y hy with hy | hy
      · exact h.deferred c x hx k y (hf ▸ hy)
      · omega
    · rw [update_of_ne hf] at hy
      exact h.deferred c x hx k y hy

/-- The calls under way change: one of them proceeds. -/
theorem Core.recall (h : Core cpus calls dom stack time) {x : Call} (hx : x ∈ calls) {pc : Pc}
    (hpc : ∀ v m, pc.loaded = some (v, m) → x.pc.loaded = some (v, m)) :
    Core cpus ({ x with pc := pc } :: calls.erase x) dom stack time := by
  refine ⟨h.domain, ?_, h.stacked, h.deferred⟩
  intro y hy v m hload
  rcases mem_cons.mp hy with rfl | hy
  · exact h.held x hx v m (hpc v m hload)
  · exact h.held y (mem_of_mem_erase hy) v m hload

theorem Core.defer (h : Core cpus calls dom stack time) (c : Nat) (l : List Callback)
    (hl : ∀ x ∈ l, x ∈ stack c ∨ ((x.cpu = c ∧ x.made < x.time ∧ x.time < time) ∧
      ∀ k, ∀ y ∈ (dom x.epoch).sections k, x.made ≤ y.time)) :
    Core cpus calls dom (Function.update stack c l) time := by
  refine ⟨h.domain, h.held, ?_, ?_⟩
  · intro k x hx
    rcases eq_or_ne k c with rfl | hk
    · grind [h.stacked]
    · rw [update_of_ne hk] at hx
      exact h.stacked k x hx
  · intro k x hx
    rcases eq_or_ne k c with rfl | hk
    · rw [update_self] at hx
      rcases hl x hx with hx | ⟨-, h3⟩
      · exact h.deferred k x hx
      · exact h3
    · rw [update_of_ne hk] at hx
      exact h.deferred k x hx

theorem foldl_push (entries deferred : List Callback) :
    entries.foldl (fun stack x => x :: stack) deferred = entries.reverse ++ deferred := by
  induction entries generalizing deferred with
  | nil => rfl
  | cons x xs ih => simp [ih]

@[simp] theorem dispatch_stack (r : Record) (epoch : Nat) (deferred : List Callback) :
    (dispatch r epoch deferred).2 = (r.pending (epoch % CK_EPOCH_LENGTH)).reverse ++ deferred :=
  foldl_push _ _

@[simp] theorem dispatch_pending (r : Record) (epoch : Nat) (deferred : List Callback) :
    (dispatch r epoch deferred).1.pending =
      Function.update r.pending (epoch % CK_EPOCH_LENGTH) [] := rfl

variable {r : Record}

theorem mem_dispatch_pending {epoch : Nat} {deferred : List Callback} {i : Nat}
    {x : Callback} (hx : x ∈ (dispatch r epoch deferred).1.pending i) : x ∈ r.pending i := by
  rw [dispatch_pending] at hx
  grind

theorem DomainCore.setRecord (h : DomainCore cpus e time d) {c : Nat}
    (htracked : Tracked d.global r (d.sections c))
    (hpending : ∀ i, ∀ x ∈ r.pending i, x ∈ (d.record c).pending i) :
    DomainCore cpus e time (d.setRecord c r) := by
  refine h.mono le_rfl le_rfl ?_ (fun _ _ hy => hy) ?_
  · intro k
    rcases eq_or_ne k c with rfl | hk
    · simpa [Domain.setRecord] using htracked
    · simpa [Domain.setRecord, hk] using h.tracked k
  · intro k i x hx
    rcases eq_or_ne k c with rfl | hk
    · simp only [Domain.setRecord, update_self] at hx
      exact hpending i x hx
    · simpa [Domain.setRecord, hk] using hx

theorem later_setRecord {c k : Nat} (hpending : ∀ i, ∀ x ∈ r.pending i, x ∈ (d.record c).pending i)
    (hepoch : d.sections c ≠ [] → (d.record c).epoch ≤ r.epoch) :
    Later d (d.setRecord c r) k := by
  refine ⟨le_rfl, ?_, fun _ _ hy => .inl hy, fun h => h, ?_⟩
  · intro i x hx
    rcases eq_or_ne k c with rfl | hk
    · simp only [Domain.setRecord, update_self] at hx
      exact hpending i x hx
    · simpa [Domain.setRecord, hk] using hx
  · intro j hj _
    refine ⟨?_, fun h => absurd h hj⟩
    intro hne
    rcases eq_or_ne j c with rfl | hjc
    · simpa [Domain.setRecord] using hepoch hne
    · simp [Domain.setRecord, hjc]

variable {s : State}

/-- **Callbacks older than all open sections are dispatched.** -/
theorem Core.dispatch (h : Core cpus s.calls s.domain s.cbStack s.time) {c epoch : Nat}
    (hclear : ∀ x ∈ ((s.domain e).record c).pending (epoch % CK_EPOCH_LENGTH), ∀ k,
      ∀ y ∈ (s.domain e).sections k, x.made ≤ y.time) :
    Core cpus s.calls (dispatchStep s c e epoch).domain (dispatchStep s c e epoch).cbStack s.time := by
  have hd := h.domain e
  refine (h.defer c _ ?_).update le_rfl (hd.setRecord ?_ ?_) le_rfl fun _ _ hy => .inl hy
  · intro x hx
    rw [dispatch_stack] at hx
    rcases mem_append.mp hx with hx | hx
    · have hx' := mem_reverse.mp hx
      obtain ⟨he, hc⟩ := hd.home c _ x hx'
      have hpend := hd.pending c _ x hx'
      exact .inr ⟨⟨hc, hpend.2.2⟩, by rw [he]; exact hclear x hx'⟩
    · exact .inl hx
  · exact (hd.tracked c).same rfl rfl rfl
  · intro i x hx
    exact mem_dispatch_pending hx

theorem later_dispatch {c epoch k : Nat} (f : Nat) :
    Later (s.domain f) ((dispatchStep s c e epoch).domain f) k := by
  refine later_update (later_setRecord ?_ ?_) f
  · intro i x hx
    exact mem_dispatch_pending hx
  · exact fun _ => le_rfl

theorem dispatchAllStep_eq (s : State) (c e epoch : Nat) :
    dispatchAllStep s c e epoch =
      (List.range CK_EPOCH_LENGTH).foldl (fun s i => dispatchStep s c e i)
        (s.setDomain e ((s.domain e).setRecord c { (s.domain e).record c with epoch := epoch })) := by
  have key : ∀ (l : List Nat) (r : Record) (stack : List Callback),
      (l.foldl (fun s i => dispatchStep s c e i)
        { s.setDomain e ((s.domain e).setRecord c r) with
          cbStack := Function.update s.cbStack c stack }) =
      { s.setDomain e ((s.domain e).setRecord c
          (l.foldl (fun p i => Epoch.dispatch p.1 i p.2) (r, stack)).1) with
        cbStack := Function.update s.cbStack c
          (l.foldl (fun p i => Epoch.dispatch p.1 i p.2) (r, stack)).2 } := by
    intro l
    induction l with
    | nil =>
      intro r stack
      rfl
    | cons i l ih =>
      intro r stack
      rw [foldl_cons, foldl_cons, ← ih]
      simp [dispatchStep, State.setDomain, Domain.setRecord]
  have h := key (List.range CK_EPOCH_LENGTH) { (s.domain e).record c with epoch := epoch }
    (s.cbStack c)
  rw [update_eq_self] at h
  exact h.symm

theorem foldl_dispatch {P : State → Prop} {c e : Nat} (hP : ∀ u i, P u → P (dispatchStep u c e i))
    (l : List Nat) {u : State} (hu : P u) : P (l.foldl (fun s i => dispatchStep s c e i) u) := by
  induction l generalizing u with
  | nil => exact hu
  | cons i l ih => exact ih (hP u i hu)

theorem mem_dispatchAll_pending {deferred : List Callback} {i : Nat} {x : Callback}
    (hx : x ∈ (dispatchAll r deferred).1.pending i) : x ∈ r.pending i := by
  have key : ∀ (l : List Nat) (p : Record × List Callback),
      x ∈ (l.foldl (fun p i => Epoch.dispatch p.1 i p.2) p).1.pending i → x ∈ p.1.pending i := by
    intro l
    induction l with
    | nil => exact fun _ h => h
    | cons j l ih => exact fun p h => mem_dispatch_pending (ih _ h)
  exact key _ (r, deferred) hx

theorem Core.dispatchAll (h : Core cpus s.calls s.domain s.cbStack s.time) {c epoch : Nat}
    (hidle : (s.domain e).sections c = [])
    (hclear : ∀ i, ∀ x ∈ ((s.domain e).record c).pending i, ∀ k,
      ∀ y ∈ (s.domain e).sections k, x.made ≤ y.time) :
    Core cpus s.calls (dispatchAllStep s c e epoch).domain (dispatchAllStep s c e epoch).cbStack s.time := by
  let P : State → Prop := fun u => u.calls = s.calls ∧ u.time = s.time ∧
    Core cpus u.calls u.domain u.cbStack u.time ∧
    ∀ i, ∀ x ∈ ((u.domain e).record c).pending i, ∀ k, ∀ y ∈ (u.domain e).sections k, x.made ≤ y.time
  have hstart : P (s.setDomain e ((s.domain e).setRecord c
      { (s.domain e).record c with epoch := epoch })) := by
    refine ⟨rfl, rfl, ?_, ?_⟩
    · refine h.update le_rfl ((h.domain e).setRecord ?_ fun _ _ hx => hx) le_rfl
        fun _ _ hy => .inl hy
      have htracked := (h.domain e).tracked c
      rw [hidle] at htracked ⊢
      exact htracked.inactive rfl rfl
    · intro i x hx k y hy
      simp only [State.setDomain, Domain.setRecord, update_self] at hx hy
      exact hclear i x hx k y hy
  have hstep : ∀ u i, P u → P (dispatchStep u c e i) := by
    rintro u i ⟨hcalls, htime, hcore, hclr⟩
    refine ⟨hcalls, htime, hcore.dispatch (hclr _), ?_⟩
    intro j x hx k y hy
    simp only [dispatchStep, State.setDomain, Domain.setRecord, update_self] at hx hy
    exact hclr j x (mem_dispatch_pending hx) k y hy
  have hend := foldl_dispatch hstep (List.range CK_EPOCH_LENGTH) hstart
  rw [← dispatchAllStep_eq] at hend
  exact hend.2.2.1

theorem later_dispatchAll {c epoch k : Nat} (hidle : (s.domain e).sections c = [])
    (f : Nat) : Later (s.domain f) ((dispatchAllStep s c e epoch).domain f) k := by
  refine later_update (later_setRecord ?_ ?_) f
  · intro i x hx
    have hx' := mem_dispatchAll_pending hx
    exact hx'
  · exact fun h => absurd hidle h

theorem Core.same (h : Core cpus calls dom stack time) (htime : time ≤ time')
    (hglobal : d'.global = (dom e).global) (hrecord : d'.record = (dom e).record)
    (hsections : d'.sections = (dom e).sections) :
    Core cpus calls (Function.update dom e d') stack time' := by
  have hd := h.domain e
  refine h.update htime (hd.mono htime (le_of_eq hglobal.symm) ?_ ?_ ?_) (le_of_eq hglobal.symm) ?_
  · rw [hglobal, hrecord, hsections]
    exact hd.tracked
  · rw [hsections]
    exact fun _ _ hy => hy
  · rw [hrecord]
    exact fun _ _ _ hx => hx
  · rw [hsections]
    exact fun _ _ hy => .inl hy

theorem later_same {c : Nat} (hglobal : d'.global = d.global) (hrecord : d'.record = d.record)
    (hsections : d'.sections = d.sections) : Later d d' c := by
  have h := Later.refl d c
  refine ⟨le_of_eq hglobal.symm, ?_, ?_, ?_, ?_⟩
  · rw [hrecord]
    exact h.pending
  · rw [hsections]
    exact h.sections
  · rw [hsections]
    exact h.own
  · rw [hsections, hrecord, hglobal]
    exact h.record

end Effects

structure Grace (cpus : Nat) (s : State) : Prop where
  core : Core cpus s.calls s.domain s.cbStack s.time
  polled : ∀ c, Polled cpus s.domain c (s.server c)

section Steps

variable {cpus : Nat} {epochs : List Nat} {s t : State}

theorem own_of_mayRun {k c e : Nat} (he : e ∈ epochs) (h : mayRun epochs s k c = true) :
    ∀ y ∈ (s.domain e).sections c, y.bucket = none → k = y.thread := by
  intro y hy hnone
  unfold mayRun at h
  grind

theorem enabled_of_mayRun {k c : Nat} (h : mayRun epochs s k c = true) :
    (s.server c).disabled = false := by
  unfold mayRun at h
  rw [Bool.and_eq_true] at h
  simpa using h.1

variable {p : Server}

theorem Grace.move (h : Grace cpus s) (hcore : Core cpus t.calls t.domain t.cbStack t.time)
    (hlater : ∀ k ≠ c, ∀ e, Later (s.domain e) (t.domain e) k)
    (hserver : t.server = Function.update s.server c p) (hp : Polled cpus t.domain c p) :
    Grace cpus t := by
  refine ⟨hcore, ?_⟩
  intro k
  rw [hserver]
  rcases eq_or_ne k c with rfl | hk
  · rw [update_self]
    exact hp
  · rw [update_of_ne hk]
    exact (h.polled k).later (hlater k hk)

theorem Grace.thread (h : Grace cpus s) (hc : (s.server c).disabled = false)
    (hcore : Core cpus t.calls t.domain t.cbStack t.time)
    (hlater : ∀ k ≠ c, ∀ e, Later (s.domain e) (t.domain e) k) (hserver : t.server = s.server) :
    Grace cpus t := by
  refine h.move hcore hlater ?_ (polled_of_enabled hc)
  simp [hserver]

theorem Grace.enter (h : Grace cpus s) {k c e : Nat} (hc : c < cpus) (he : e ∈ epochs)
    (hrun : mayRun epochs s k c = true) (tracked : Bool) :
    Grace cpus (epochEnter s k c e tracked) := by
  have hd := h.core.domain e
  have hown := own_of_mayRun he hrun
  have hsections : ∀ (x : Section), x.time = s.time → ∀ j,
      ∀ y ∈ Function.update (s.domain e).sections c (x :: (s.domain e).sections c) j,
      y ∈ (s.domain e).sections j ∨ s.time ≤ y.time := by
    intro x hx j y hy
    grind
  refine h.thread (enabled_of_mayRun hrun)
    (h.core.update (Nat.le_succ _) (hd.enter hc hown tracked) le_rfl (hsections _ rfl)) ?_ rfl
  intro m hm f
  refine later_update ?_ f
  refine ⟨le_rfl, ?_, ?_, ?_, ?_⟩
  · intro i x hx
    simpa [Domain.setRecord, hm] using hx
  · intro j y hy
    refine (hsections _ rfl j y hy).imp_right ?_
    intro hy i x hx
    have hpend := (hd.pending m i x hx).2.2
    omega
  · intro hnil
    simpa [hm] using hnil
  · intro j hj _
    rcases eq_or_ne j c with rfl | hjc
    · have hactive := (hd.tracked j).active
      simp only [Domain.setRecord, update_self, ckEpochBegin_epoch, hactive]
      grind
    · simp only [Domain.setRecord, update_of_ne hjc] at hj ⊢
      exact ⟨fun _ => le_rfl, fun hnil => absurd hnil hj⟩

theorem Grace.exit (h : Grace cpus s) {k c e : Nat} {x : Section} (he : e ∈ epochs)
    (hrun : mayRun epochs s k c = true)
    (hfind : ((s.domain e).sections c).find? (fun x => x.thread == k) = some x) :
    Grace cpus (epochExit s c e x) := by
  have hd := h.core.domain e
  obtain ⟨htracked, hmono⟩ := (hd.tracked c).finish hfind (own_of_mayRun he hrun)
  have hsections : ∀ j, ∀ y ∈ Function.update (s.domain e).sections c
      (((s.domain e).sections c).erase x) j, y ∈ (s.domain e).sections j := by
    intro j y hy
    grind
  have hpending : ∀ j i, (Function.update (s.domain e).record c
      (ckEpochEnd ((s.domain e).record c) x.bucket) j).pending i =
      ((s.domain e).record j).pending i := by
    intro j i
    rcases eq_or_ne j c with rfl | hj
    · simp
    · rw [update_of_ne hj]
  refine h.thread (enabled_of_mayRun hrun)
    (h.core.update le_rfl (hd.mono le_rfl le_rfl ?_ hsections ?_) le_rfl
      fun j y hy => .inl (hsections j y hy))
    ?_ rfl
  · intro j
    rcases eq_or_ne j c with rfl | hj
    · simpa [Domain.setRecord] using htracked
    · simpa [Domain.setRecord, hj] using hd.tracked j
  · intro j i z hz
    exact hpending j i ▸ hz
  · intro m hm f
    refine later_update ?_ f
    refine ⟨le_rfl, ?_, fun j y hy => .inl (hsections j y hy), ?_, ?_⟩
    · intro i z hz
      exact hpending m i ▸ hz
    · intro hnil
      simpa [hm] using hnil
    · intro j hj _
      refine ⟨?_, ?_⟩
      · intro _
        rcases eq_or_ne j c with rfl | hjc
        · simpa [Domain.setRecord] using hmono
        · simp [Domain.setRecord, hjc]
      · intro hnil
        grind

theorem Grace.enable (h : Grace cpus s) (c : Nat) (hp : p.disabled = false) :
    Grace cpus (s.setServer c p) :=
  h.move h.core (fun _ _ _ => Later.refl _ _) rfl (polled_of_enabled hp)

theorem Grace.begin (h : Grace cpus s) (x : Call) (hx : x.pc.loaded = none) :
    Grace cpus { s with calls := x :: s.calls } := by
  refine ⟨⟨h.core.domain, ?_, h.core.stacked, h.core.deferred⟩, h.polled⟩
  intro y hy v m hload
  rcases mem_cons.mp hy with rfl | hy
  · rw [hx] at hload
    cases hload
  · exact h.core.held y hy v m hload

variable {x : Call}

theorem Grace.push (h : Grace cpus s) (hx : x ∈ s.calls)
    (hc : (s.server x.cpu).disabled = false) {v m : Nat} {head : List Callback}
    (hpc : x.pc = .linked v m head)
    (hhead : ((s.domain x.epoch).record x.cpu).pending (v % CK_EPOCH_LENGTH) = head) :
    Grace cpus (push s x v m head) := by
  subst hhead
  have hheld := h.core.held x hx v m (by rw [hpc]; rfl)
  have hd := (h.core.domain x.epoch).push (y := x.callback v m s.time) rfl rfl hheld
  have hcore : Core cpus (s.calls.erase x) s.domain s.cbStack s.time :=
    ⟨h.core.domain, fun y hy => h.core.held y (mem_of_mem_erase hy), h.core.stacked,
      h.core.deferred⟩
  refine h.thread hc (hcore.update (Nat.le_succ _) (hd _) le_rfl fun _ _ hy => .inl hy) ?_ rfl
  intro k hk f
  refine later_update ?_ f
  refine ⟨le_rfl, ?_, fun _ _ hy => .inl hy, fun h => h, ?_⟩
  · intro i z hz
    simpa [Domain.setRecord, hk] using hz
  · intro j hj _
    refine ⟨fun _ => ?_, fun hnil => absurd hnil hj⟩
    rcases eq_or_ne j x.cpu with rfl | hjc
    · simp [Domain.setRecord]
    · simp [Domain.setRecord, hjc]

/-- **The accesses of `epoch_call` keep the grace periods**, if they undo no other store. -/
theorem Grace.access (h : Grace cpus s) (hx : x ∈ s.calls)
    (hc : (s.server x.cpu).disabled = false) (hwhole : Whole s x) : Grace cpus (access s x) := by
  have hd := h.core.domain x.epoch
  unfold Epoch.access
  unfold Whole at hwhole
  cases hpc : x.pc with
  | counted n =>
    exact ⟨h.core.recall hx (by simp [Pc.loaded]), h.polled⟩
  | begun =>
    have hcore : Core cpus s.calls s.domain s.cbStack (s.time + 1) := by
      have hsame : Core cpus s.calls (Function.update s.domain x.epoch (s.domain x.epoch)) s.cbStack (s.time + 1) :=
        h.core.same (Nat.le_succ _) rfl rfl rfl
      rwa [update_eq_self] at hsame
    refine ⟨⟨hcore.domain, ?_, hcore.stacked, hcore.deferred⟩, h.polled⟩
    intro y hy v m hload
    rcases mem_cons.mp hy with rfl | hy
    · cases hload
      exact ⟨le_rfl, Nat.lt_succ_self _, fun k y hy _ => ((hd.tracked k).opened y hy).2⟩
    · exact hcore.held y (mem_of_mem_erase hy) v m hload
  | valued v m =>
    exact ⟨h.core.recall hx (by simp [hpc, Pc.loaded]), h.polled⟩
  | sized v m n =>
    refine h.thread hc (Core.update (h.core.recall hx (by simp [hpc, Pc.loaded])) le_rfl
      (hd.setRecord ((hd.tracked x.cpu).same rfl rfl rfl) fun _ _ hy => hy) le_rfl
      fun _ _ hy => .inl hy) ?_ rfl
    intro k _ f
    refine later_update (later_setRecord ?_ ?_) f
    · exact fun _ _ hy => hy
    · exact fun _ => le_rfl
  | queued v m =>
    exact ⟨h.core.recall hx (by simp [hpc, Pc.loaded]), h.polled⟩
  | linked v m head =>
    rw [hpc] at hwhole
    exact h.push hx hc hpc hwhole

theorem Core.global_le {calls : List Call} {dom : Nat → Domain} {stack : Nat → List Callback}
    {time c e i k : Nat} (h : Core cpus calls dom stack time) {x : Callback}
    (hx : x ∈ ((dom e).record c).pending i) {y : Section} (hy : y ∈ (dom e).sections k)
    (hlt : y.time < x.made) :
    (dom e).global ≤ x.value + 1 := by
  have hd := h.domain e
  have hlag := ((hd.tracked k).lag (ne_nil_of_mem hy)).2
  have hopened := ((hd.tracked k).opened y hy).1
  have hbefore := hd.before c i x hx k y hy hlt
  omega

variable {c e epoch : Nat} {es : List Nat} {np : Int}

/-- **The first dispatch of a poll**: callbacks of the epoch before the last one. -/
theorem Grace.loaded (h : Grace cpus s) (hc : c < cpus) (hpc : s.server c = .loaded e epoch np es) :
    Grace cpus ((dispatchStep s c e (epoch + 2)).setServer c
      (.scan e epoch np (List.range cpus).reverse false es)) := by
  have hp := h.polled c
  rw [hpc] at hp
  have hsnap : Snapshot (s.domain e) c epoch := hp
  have hclear : ∀ x ∈ ((s.domain e).record c).pending ((epoch + 2) % CK_EPOCH_LENGTH), ∀ k,
      ∀ y ∈ (s.domain e).sections k, x.made ≤ y.time := by
    intro x hx k y hy
    by_contra hlt
    have hle := h.core.global_le hx hy (not_le.mp hlt)
    have hmod := ((h.core.domain e).pending c _ x hx).1
    have hval := hsnap.2 _ x hx
    have hglobal := hsnap.1
    unfold CK_EPOCH_LENGTH at hmod
    omega
  refine h.move (h.core.dispatch hclear) (fun k _ f => later_dispatch f) rfl ?_
  refine ⟨hsnap.later (later_dispatch e), ?_, ?_⟩
  · intro k hk hnot
    exact absurd (mem_reverse.mpr (mem_range.mpr hk)) hnot
  · intro _ hnot
    exact absurd (mem_reverse.mpr (mem_range.mpr hc)) hnot

/-- **The grace period without active threads.** -/
theorem Grace.idlePeriod (h : Grace cpus s) (hpc : s.server c = .scan e epoch np [] false es) :
    Grace cpus ((dispatchAllStep s c e epoch).setServer c (.polled e np es)) := by
  have hp := h.polled c
  rw [hpc] at hp
  obtain ⟨-, hseen, hown⟩ := hp
  have hidle := hown rfl not_mem_nil
  have hclear : ∀ i, ∀ x ∈ ((s.domain e).record c).pending i, ∀ k,
      ∀ y ∈ (s.domain e).sections k, x.made ≤ y.time := by
    intro i x hx k y hy
    by_contra hlt
    by_cases hk : k < cpus
    · have := ((hseen k hk not_mem_nil).1 y hy i x hx (not_le.mp hlt)).1
      cases this
    · rw [(h.core.domain e).cpu k (by omega)] at hy
      cases hy
  exact h.move (h.core.dispatchAll hidle hclear) (fun k _ f => later_dispatchAll hidle f) rfl trivial

theorem Grace.scanInactive (h : Grace cpus s) {c e epoch d : Nat} {ds es : List Nat}
    {active : Bool} (hpc : s.server c = .scan e epoch np (d :: ds) active es)
    (hactive : ((s.domain e).record d).active = 0) :
    Grace cpus (s.setServer c (.scan e epoch np ds active es)) := by
  have hp := h.polled c
  rw [hpc] at hp
  obtain ⟨hsnap, hseen, hown⟩ := hp
  have hnil : (s.domain e).sections d = [] := by
    have := ((h.core.domain e).tracked d).active
    rw [hactive] at this
    exact length_eq_zero_iff.mp this.symm
  refine h.move h.core (fun k _ f => Later.refl _ _) rfl ⟨hsnap, ?_, ?_⟩
  · intro k hk hnot
    rcases eq_or_ne k d with rfl | hkd
    · grind [Seen, State.setServer]
    · exact hseen k hk (by simp [hkd, hnot])
  · intro ha hnot
    rcases eq_or_ne c d with rfl | hcd
    · exact hnil
    · exact hown ha (by simp [hcd, hnot])

theorem Grace.scanActive (h : Grace cpus s) {c e epoch d : Nat} {ds es : List Nat}
    {active : Bool} (hpc : s.server c = .scan e epoch np (d :: ds) active es) :
    Grace cpus (s.setServer c (.scanEpoch e epoch np d ds es)) := by
  have hp := h.polled c
  rw [hpc] at hp
  obtain ⟨hsnap, hseen, -⟩ := hp
  refine h.move h.core (fun k _ f => Later.refl _ _) rfl ⟨hsnap, ?_⟩
  intro k hk hkd hnot
  obtain ⟨h1, h2⟩ := hseen k hk (by simp [hkd, hnot])
  exact ⟨fun y hy i x hx hlt => ⟨rfl, (h1 y hy i x hx hlt).2⟩, h2⟩

theorem Grace.scanSeen (h : Grace cpus s) {c e epoch d : Nat} {ds es : List Nat}
    (hpc : s.server c = .scanEpoch e epoch np d ds es)
    (hepoch : ((s.domain e).record d).epoch = epoch) :
    Grace cpus (s.setServer c (.scan e epoch np ds true es)) := by
  have hp := h.polled c
  rw [hpc] at hp
  obtain ⟨hsnap, hseen⟩ := hp
  refine h.move h.core (fun k _ f => Later.refl _ _) rfl ⟨hsnap, ?_, ?_⟩
  · intro k hk hnot
    rcases eq_or_ne k d with rfl | hkd
    · refine ⟨?_, fun _ _ => le_of_eq hepoch.symm⟩
      intro y hy i x hx hlt
      have hopened := (((h.core.domain e).tracked k).opened y hy).1
      have hbefore := (h.core.domain e).before c i x hx k y hy hlt
      exact ⟨rfl, by omega⟩
    · exact hseen k hk hkd hnot
  · intro ha
    cases ha

/-- **The global epoch advances.** -/
theorem Grace.cas (h : Grace cpus s) (hpc : s.server c = .cas e epoch np es) :
    Grace cpus ((s.setDomain e { s.domain e with
      global := if (s.domain e).global = epoch then epoch + 1 else (s.domain e).global }).setServer
        c (.tail e epoch np es)) := by
  have hp := h.polled c
  rw [hpc] at hp
  obtain ⟨hsnap, hseen⟩ := hp
  have hd := h.core.domain e
  have hle : (s.domain e).global ≤
      if (s.domain e).global = epoch then epoch + 1 else (s.domain e).global := by
    split <;> omega
  have htracked : ∀ k, Tracked (if (s.domain e).global = epoch then epoch + 1
      else (s.domain e).global) ((s.domain e).record k) ((s.domain e).sections k) := by
    intro k
    split
    · rename_i hg
      have hadv := (hd.tracked k).advance ?_
      · rwa [hg] at hadv
      · intro hne
        by_cases hk : k < cpus
        · rw [hg]
          exact (hseen k hk).2 hg hne
        · exact absurd (hd.cpu k (by omega)) hne
    · exact hd.tracked k
  have hlater : ∀ k f, Later (s.domain f) (Function.update s.domain e { s.domain e with
      global := if (s.domain e).global = epoch then epoch + 1 else (s.domain e).global } f) k := by
    intro k f
    refine later_update ?_ f
    refine ⟨hle, fun _ _ hx => hx, fun _ _ hy => .inl hy, fun h => h, ?_⟩
    intro j hj _
    exact ⟨fun _ => le_rfl, fun hnil => absurd hnil hj⟩
  refine h.move (h.core.update le_rfl (hd.mono le_rfl hle htracked (fun _ _ hy => hy)
    (fun _ _ _ hx => hx)) hle fun _ _ hy => .inl hy) (fun k _ f => hlater k f) rfl ⟨?_, ?_⟩
  · exact hsnap.later (hlater c e)
  · intro k hk y hy i x hx hlt
    simp only [State.setServer, State.setDomain, update_self] at hy hx
    exact ((hseen k hk).1 y hy i x hx hlt).2

/-- **The last dispatch of a poll**: callbacks of the epoch before the snapshot. -/
theorem Grace.tail (h : Grace cpus s) (hpc : s.server c = .tail e epoch np es) :
    Grace cpus ((dispatchStep s c e (epoch + 3)).setServer c (.polled e np es)) := by
  have hp := h.polled c
  rw [hpc] at hp
  obtain ⟨hsnap, hseen⟩ := hp
  refine h.move (h.core.dispatch ?_) (fun k _ f => later_dispatch f) rfl trivial
  intro x hx k y hy
  by_contra hlt
  by_cases hk : k < cpus
  · have hge := hseen k hk y hy _ x hx (not_le.mp hlt)
    have hmod := ((h.core.domain e).pending c _ x hx).1
    have hval := hsnap.2 _ x hx
    unfold CK_EPOCH_LENGTH at hmod
    omega
  · rw [(h.core.domain e).cpu k (by omega)] at hy
    cases hy

theorem Grace.quiet (h : Grace cpus s) (hp : Polled cpus s.domain c p)
    (hdomain : t.domain = s.domain) (hstack : t.cbStack = s.cbStack) (htime : t.time = s.time)
    (hcalls : t.calls = s.calls)
    (hserver : t.server = Function.update s.server c p) : Grace cpus t := by
  grind [h.move, h.core, Later.refl]

theorem Grace.execute (h : Grace cpus s) {x : Callback} {rest : List Callback}
    (hstack : s.cbStack c = x :: rest) {d : Domain} (hglobal : d.global = (s.domain x.epoch).global)
    (hrecord : d.record = (s.domain x.epoch).record)
    (hsections : d.sections = (s.domain x.epoch).sections) :
    Grace cpus { s.setDomain x.epoch d with
      cbStack := Function.update s.cbStack c rest, executed := x :: s.executed } := by
  refine ⟨?_, ?_⟩
  · refine Core.same (h.core.defer c rest ?_) le_rfl hglobal hrecord hsections
    intro y hy
    exact .inl (hstack ▸ mem_cons_of_mem _ hy)
  · intro k
    exact (h.polled k).later (later_update (later_same hglobal hrecord hsections))

theorem drainCall_cases (h : drainCall s c e = some x) :
    x ∈ s.calls ∧ x.thread = none ∧ x.cpu = c ∧ x.epoch = e := by
  refine ⟨mem_of_find?_eq_some h, ?_⟩
  simpa [and_assoc] using find?_some h

theorem threadCall_cases {k : Nat} (h : threadCall s k = some x) :
    x ∈ s.calls ∧ x.thread = some k :=
  ⟨mem_of_find?_eq_some h, by simpa using find?_some h⟩

theorem Grace.serverStep (h : Grace cpus s) (hc : c < cpus)
    (hwhole : Undisturbed s (.server c)) (hstep : serverStep cpus s c = some t) : Grace cpus t := by
  unfold Epoch.serverStep at hstep
  cases hpc : s.server c with
  | idle => simp [hpc] at hstep
  | drainCall e =>
    simp only [hpc] at hstep
    obtain ⟨x, hx, rfl⟩ := map_eq_some_iff.mp hstep
    obtain ⟨hmem, -, rfl, rfl⟩ := drainCall_cases hx
    have haccess := h.access hmem (by rw [hpc]; rfl) (hwhole x (by simpa [callOf, hpc] using hx))
    split
    · exact haccess.enable x.cpu rfl
    · exact haccess
  | pass es =>
    cases es with
    | nil =>
      simp only [hpc, some.injEq] at hstep
      subst hstep
      exact h.quiet (p := .exec) trivial rfl rfl rfl rfl rfl
    | cons e es =>
      simp only [hpc] at hstep
      split at hstep
      · simp only [some.injEq] at hstep
        subst hstep
        refine h.quiet ?_ rfl rfl rfl rfl rfl
        exact ⟨le_rfl, fun i x hx => ((h.core.domain e).pending c i x hx).2.1⟩
      · simp only [some.injEq] at hstep
        subst hstep
        exact h.quiet (p := .pass es) trivial rfl rfl rfl rfl rfl
  | loaded e epoch np es =>
    simp only [hpc, some.injEq] at hstep
    subst hstep
    exact h.loaded hc hpc
  | scan e epoch np todo active es =>
    cases todo with
    | nil =>
      simp only [hpc] at hstep
      split at hstep
      · rename_i hactive
        simp only [some.injEq] at hstep
        subst hstep
        have hp := h.polled c
        rw [hpc, hactive] at hp
        refine h.quiet ?_ rfl rfl rfl rfl rfl
        exact ⟨hp.1, fun k hk => hp.2.1 k hk not_mem_nil⟩
      · rename_i hactive
        simp only [some.injEq] at hstep
        subst hstep
        rw [Bool.not_eq_true] at hactive
        subst hactive
        exact h.idlePeriod hpc
    | cons d ds =>
      grind [h.scanActive, h.scanInactive]
  | scanEpoch e epoch np d ds es =>
    simp only [hpc] at hstep
    split at hstep
    · simp only [some.injEq] at hstep
      subst hstep
      exact h.quiet (p := .polled e np es) trivial rfl rfl rfl rfl rfl
    · grind [h.scanSeen]
  | cas e epoch np es =>
    simp only [hpc, some.injEq] at hstep
    subst hstep
    exact h.cas hpc
  | tail e epoch np es =>
    simp only [hpc, some.injEq] at hstep
    subst hstep
    exact h.tail hpc
  | polled e np es =>
    simp only [hpc, some.injEq] at hstep
    subst hstep
    exact h.quiet (p := .pass es) trivial rfl rfl rfl rfl rfl
  | exec =>
    simp only [hpc] at hstep
    cases hstack : s.cbStack c with
    | nil =>
      simp only [hstack, some.injEq] at hstep
      subst hstep
      exact h.quiet (p := .idle) trivial rfl rfl rfl rfl rfl
    | cons x rest =>
      grind [h.execute]

/-- **Every step that undoes no store keeps the grace periods.** -/
theorem Grace.step (h : Grace cpus s) {a : Act} (hwhole : Undisturbed s a)
    (hstep : step cpus epochs s a = some t) : Grace cpus t := by
  cases a with
  | enter k c e tracked =>
    grind [h.enter, Epoch.step]
  | exit k c e =>
    obtain ⟨⟨-, he, hrun, -⟩, hfind⟩ := ite_none_right_eq_some.mp hstep
    obtain ⟨x, hx, rfl⟩ := map_eq_some_iff.mp hfind
    exact h.exit he hrun hx
  | callBegin k c e =>
    obtain ⟨-, ⟨⟩⟩ := ite_none_right_eq_some.mp hstep
    exact h.begin _ rfl
  | access k =>
    obtain ⟨x, hx, hstep⟩ := bind_eq_some_iff.mp hstep
    obtain ⟨hrun, ⟨⟩⟩ := ite_none_right_eq_some.mp hstep
    exact h.access (threadCall_cases hx).1 (enabled_of_mayRun hrun) (hwhole x hx)
  | tick c =>
    simp only [Epoch.step] at hstep
    split at hstep
    · cases hstep
      exact ⟨h.core, h.polled⟩
    · cases hstep
      exact h
  | start c =>
    obtain ⟨-, ⟨⟩⟩ := ite_none_right_eq_some.mp hstep
    exact h.quiet (p := .pass epochs) trivial rfl rfl rfl rfl rfl
  | startDrain c e =>
    obtain ⟨-, ⟨⟩⟩ := ite_none_right_eq_some.mp hstep
    have hbegin := h.begin ⟨none, e, c, .counted (s.cbCount c)⟩ rfl
    exact hbegin.move (p := .drainCall e) (hbegin.core.same le_rfl rfl rfl rfl)
      (fun k _ => later_update (later_same rfl rfl rfl)) rfl trivial
  | server c =>
    obtain ⟨⟨hc, -⟩, hserver⟩ := ite_none_right_eq_some.mp hstep
    exact h.serverStep hc hwhole hserver
  | drainBegin e =>
    obtain ⟨-, ⟨⟩⟩ := ite_none_right_eq_some.mp hstep
    exact ⟨h.core.same (Nat.le_succ _) rfl rfl rfl,
      fun k => (h.polled k).later (later_update (later_same rfl rfl rfl))⟩
  | drainReturn e =>
    simp only [Epoch.step] at hstep
    split at hstep
    · cases hstep
    · obtain ⟨-, ⟨⟩⟩ := ite_none_right_eq_some.mp hstep
      exact ⟨h.core.same le_rfl rfl rfl rfl,
        fun k => (h.polled k).later (later_update (later_same rfl rfl rfl))⟩

theorem grace_init : Grace cpus init where
  core :=
    { domain := fun _ =>
        { tracked := fun _ => tracked_init
          cpu := fun _ _ => rfl
          begun := fun _ => forall_mem_nil _
          pending := fun _ _ => forall_mem_nil _
          before := fun _ _ => forall_mem_nil _
          home := fun _ _ => forall_mem_nil _ }
      held := forall_mem_nil _
      stacked := fun _ => forall_mem_nil _
      deferred := fun _ => forall_mem_nil _ }
  polled _ := trivial

end Steps

end RtemsLibbsd.Epoch

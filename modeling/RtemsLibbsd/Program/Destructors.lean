import Mathlib.Data.List.Range
import RtemsLibbsd.DoublyLinked
import RtemsLibbsd.Transition

/-!
# Destructors of a program

Model of `rtems_bsd_program_add_destructor`, `rtems_bsd_program_remove_destructor`, `call_destructors` and the end of
`rtems_bsd_program_call` of `rtemsbsd/rtems/rtems-program.c`.

* A node is known by the number of its addition; a pointer to it stays a pointer to it after it was freed, and any
  use of it is recorded in `fault`.
* `frames` — the functions that wait for a destructor, the inner one first: `rtems_bsd_program_remove_destructor`,
  and the loop of `call_destructors` with its saved next node.
* What a destructor does is part of the run: it may add and remove destructors, and end the program as long as the
  program runs.
* The control structure of the task is gone before the clean-up, so that a destructor cannot be added then, and
  `rtems_bsd_program_exit` ends in its assertion.
* A program removes what it added, and that once.

`call_destructors` frees its nodes without taking them off the list, and its next node is settled before the
destructor is called.  **`destructors_iff`** says which removals during the clean-up go well.
-/

namespace RtemsLibbsd.Program.Destructors

open List RtemsLibbsd.DoublyLinked RtemsLibbsd.Slist RtemsLibbsd.Transition

inductive Caller where
  | removal
  | cleanUp
  deriving DecidableEq

/-- A function that waits for the destructor of `node`. -/
inductive Frame where
  | remove (node : Nat)
  | loop (node : Nat) (tmp : Option Nat)

structure State where
  links : BackLinks Nat
  added : Nat
  freed : List Nat
  /-- `td_prog_ctrl` of the task is set. -/
  control : Bool
  frames : List Frame
  removals : List (Nat × Bool)
  calls : List (Nat × Caller)
  ended : Bool
  fault : Bool

/-- After `LIST_INIT(&prog_ctrl->destructors)`. -/
def init : State where
  links := ⟨⟨none, fun _ => none⟩, fun _ => .head⟩
  added := 0
  freed := []
  control := true
  frames := []
  removals := []
  calls := []
  ended := false
  fault := false

def use (s : State) (nodes : List Nat) (t : State) : State :=
  if nodes.all fun x => decide (x ∉ s.freed) then t else { s with fault := true }

def free (s : State) (node : Nat) : State := use s [node] { s with freed := node :: s.freed }

/-- `rtems_bsd_program_add_destructor`; `mem` says whether `malloc` has a node. -/
def rtemsBsdProgramAddDestructor (s : State) (mem : Bool) : State :=
  if s.control then
    if mem then
      use s s.links.head.toList { s with links := s.links.insertHead s.added, added := s.added + 1 }
    else s
  else s

/-- `rtems_bsd_program_remove_destructor`, up to the call of the destructor if it is called. -/
def rtemsBsdProgramRemoveDestructor (s : State) (node : Nat) (call : Bool) : State :=
  let t : State := { s with links := s.links.remove node, removals := (node, call) :: s.removals }
  use s (s.links.touched node) <|
    if call then { t with calls := t.calls ++ [(node, .removal)], frames := .remove node :: t.frames }
    else free t node

/-- An iteration of `call_destructors`, up to the call of the destructor; the end of `rtems_bsd_program_call` behind
    the last one. -/
def callDestructors (s : State) (node : Option Nat) : State :=
  match node with
  | none => { s with ended := true }
  | some node =>
    use s [node] { s with
      calls := s.calls ++ [(node, .cleanUp)]
      frames := .loop node (s.links.next node) :: s.frames }

def cleanUp (s : State) : State :=
  let t : State := { s with control := false, frames := [] }
  callDestructors t t.links.head

/-- The rest of an iteration of `call_destructors`, and the next one. -/
def nextNode (s : State) (node : Nat) (tmp : Option Nat) : State :=
  if node ∈ s.freed then { s with fault := true } else callDestructors (free s node) tmp

def ret (s : State) : State :=
  match s.frames with
  | [] => cleanUp s
  | .remove node :: frames => free { s with frames := frames } node
  | .loop node tmp :: frames => nextNode { s with frames := frames } node tmp

inductive Action where
  | add (mem : Bool)
  | remove (cookie : Nat) (call : Bool)
  | ret
  | exit

/-- The cookies that were given to `rtems_bsd_program_remove_destructor`. -/
def removed (s : State) : List Nat := s.removals.map Prod.fst

def step (s : State) (a : Action) : Option State :=
  if s.ended || s.fault then none
  else match a with
    | .add mem => some (rtemsBsdProgramAddDestructor s mem)
    | .remove cookie call =>
      if cookie < s.added ∧ cookie ∉ removed s then some (rtemsBsdProgramRemoveDestructor s cookie call) else none
    | .ret => some (ret s)
    | .exit => if s.control then some (cleanUp s) else none

/-- The destructors that were added and not removed, the last one first. -/
def kept (s : State) : List Nat := (List.range s.added).reverse.filter fun c => decide (c ∉ removed s)

def callsOf (s : State) (c : Nat) : List (Nat × Caller) := s.calls.filter fun p => decide (p.1 = c)

/-- The destructors called by the clean-up, in the order of the calls. -/
def cleanedUp (s : State) : List Nat := (s.calls.filter fun p => decide (p.2 = .cleanUp)).map Prod.fst

/-- The calls are those that the additions and removals ask for, and no node was used after it was freed. -/
structure Proper (s : State) : Prop where
  noUse : s.fault = false
  called : ∀ c, (c, true) ∈ s.removals → callsOf s c = [(c, .removal)]
  silent : ∀ c, (c, false) ∈ s.removals → callsOf s c = []
  once : s.ended = true → ∀ c ∈ kept s, callsOf s c = [(c, .cleanUp)]
  order : s.ended = true → cleanedUp s = kept s

/-- The node that `call_destructors` goes on with. -/
def saved (s : State) : Option Nat :=
  match s.frames.getLast? with
  | some (.loop _ tmp) => tmp
  | _ => none

/-- During the clean-up only destructors behind the saved next one are removed. -/
def RemovesBehind (s : State) : Action → Prop
  | .remove cookie _ => s.control = true ∨ (cookie ∉ cleanedUp s ∧ saved s ≠ some cookie)
  | .add _ | .ret | .exit => True

instance (s : State) : (a : Action) → Decidable (RemovesBehind s a)
  | .remove _ _ => inferInstanceAs (Decidable (_ ∨ _))
  | .add _ | .ret | .exit => inferInstanceAs (Decidable True)

/-! ## Uses of nodes -/

section Use

variable {s t : State} {x : Nat}

theorem use_of_alive {nodes : List Nat} (h : ∀ x ∈ nodes, x ∉ s.freed) : use s nodes t = t :=
  if_pos (all_eq_true.mpr fun x hx => decide_eq_true (h x hx))

theorem free_of_alive (h : x ∉ s.freed) : free s x = { s with freed := x :: s.freed } :=
  use_of_alive fun y hy => by rwa [mem_singleton.mp hy]

theorem use_cases (s t : State) (nodes : List Nat) : use s nodes t = t ∨ use s nodes t = { s with fault := true } := by
  unfold use
  split
  · exact .inl rfl
  · exact .inr rfl

end Use

/-! ## The list of what is kept -/

section Kept

variable {s t : State} {c : Nat} {pre suf : List Nat}

theorem mem_kept : c ∈ kept s ↔ c < s.added ∧ c ∉ removed s := by
  unfold kept
  simp

theorem kept_add (ha : t.added = s.added + 1) (hr : removed t = removed s) (hb : ∀ c ∈ removed s, c < s.added) :
    kept t = s.added :: kept s := by
  grind [kept, range_succ]

theorem kept_remove (ha : t.added = s.added) (hr : removed t = c :: removed s) (hs : kept s = pre ++ c :: suf)
    (hn : (kept s).Nodup) : kept t = pre ++ suf := by
  have hfilter : kept t = (kept s).filter fun x => decide (x ≠ c) := by
    unfold kept
    rw [ha, hr, filter_filter]
    simp
  obtain ⟨hpre, hsuf⟩ : c ∉ pre ∧ c ∉ suf := by
    grind
  rw [hfilter, hs, filter_append, filter_cons_of_neg (by simp)]
  congr 1
  · exact filter_eq_self.mpr fun x hx => decide_eq_true fun he => hpre (he ▸ hx)
  · exact filter_eq_self.mpr fun x hx => decide_eq_true fun he => hsuf (he ▸ hx)

end Kept

/-! ## The calls -/

section Calls

variable {s t : State} {c d : Nat} {who : Caller}

theorem callsOf_self (h : t.calls = s.calls ++ [(c, who)]) : callsOf t c = callsOf s c ++ [(c, who)] := by
  unfold callsOf
  simp [h]

theorem callsOf_of_ne (h : t.calls = s.calls ++ [(c, who)]) (hd : d ≠ c) : callsOf t d = callsOf s d := by
  unfold callsOf
  rw [h, filter_append, filter_cons_of_neg (by simpa using Ne.symm hd), filter_nil, append_nil]

theorem cleanedUp_removal (h : t.calls = s.calls ++ [(c, .removal)]) : cleanedUp t = cleanedUp s := by
  unfold cleanedUp
  simp [h]

theorem cleanedUp_cleanUp (h : t.calls = s.calls ++ [(c, .cleanUp)]) : cleanedUp t = cleanedUp s ++ [c] := by
  unfold cleanedUp
  rw [h, filter_append, filter_cons_of_pos (by simp), filter_nil, map_append]
  rfl

end Calls

/-! ## What holds as long as the removals are behind the next node -/

structure Waiting (s : State) (fs : List Nat) : Prop where
  nodup : fs.Nodup
  taken : ∀ x ∈ fs, x ∈ removed s
  alive : ∀ x ∈ fs, x ∉ s.freed

structure Core (s : State) : Prop where
  noUse : s.fault = false
  threaded : Threaded s.links .head (kept s)
  removals : (removed s).Nodup
  bound : ∀ c ∈ removed s, c < s.added
  called : ∀ c, (c, true) ∈ s.removals → callsOf s c = [(c, .removal)]
  silent : ∀ c, (c, false) ∈ s.removals → callsOf s c = []
  others : ∀ c, c ∉ removed s → callsOf s c = if c ∈ cleanedUp s then [(c, .cleanUp)] else []

/-- The program runs, the clean-up calls the destructor of `n`, or it is over. -/
inductive Phase (s : State) : Prop where
  | running (fs : List Nat) (control : s.control = true) (ended : s.ended = false) (cleanedUp_nil : cleanedUp s = [])
      (frames : s.frames = fs.map .remove) (waiting : Waiting s fs) (freed : ∀ x ∈ s.freed, x ∈ removed s)
  | cleaning (fs done : List Nat) (n : Nat) (rest : List Nat) (control : s.control = false) (ended : s.ended = false)
      (kept_eq : kept s = done ++ n :: rest) (cleanedUp_eq : cleanedUp s = done ++ [n])
      (frames : s.frames = fs.map .remove ++ [.loop n rest.head?]) (waiting : Waiting s fs)
      (freed : ∀ x ∈ s.freed, x ∈ done ∨ x ∈ removed s)
  | finished (control : s.control = false) (ended : s.ended = true) (cleanedUp_eq : cleanedUp s = kept s)

structure Inv (s : State) : Prop extends Core s where
  phase : Phase s

theorem inv_init : Inv init where
  noUse := rfl
  threaded := rfl
  removals := nodup_nil
  bound := nofun
  called := nofun
  silent := nofun
  others := fun _ _ => rfl
  phase := .running [] rfl rfl rfl rfl ⟨nodup_nil, nofun, nofun⟩ nofun

theorem Inv.proper {s : State} (h : Inv s) : Proper s := by
  have horder : s.ended = true → cleanedUp s = kept s := by
    intro he
    cases h.phase with
    | running fs _ hne => rw [hne] at he; cases he
    | cleaning fs done n rest _ hne => rw [hne] at he; cases he
    | finished _ _ heq => exact heq
  refine ⟨h.noUse, h.called, h.silent, fun he c hc => ?_, horder⟩
  rw [h.others c (mem_kept.mp hc).2, if_pos (horder he ▸ hc)]

theorem Core.congr {s t : State} (h : Core s) (hf : t.fault = s.fault) (hl : t.links = s.links)
    (ha : t.added = s.added) (hr : t.removals = s.removals) (hc : t.calls = s.calls) : Core t := by
  have hkept : kept t = kept s := by unfold kept removed; rw [ha, hr]
  have hcalls : callsOf t = callsOf s := by unfold callsOf; rw [hc]
  have hclean : cleanedUp t = cleanedUp s := by unfold cleanedUp; rw [hc]
  refine ⟨hf.trans h.noUse, ?_, ?_, ?_, ?_, ?_, ?_⟩
  · rw [hl, hkept]
    exact h.threaded
  · unfold removed
    rw [hr]
    exact h.removals
  · unfold removed
    rw [hr, ha]
    exact h.bound
  · rw [hr, hcalls]
    exact h.called
  · rw [hr, hcalls]
    exact h.silent
  · unfold removed
    rw [hr, hcalls, hclean]
    exact h.others

section Steps

variable {s t : State}

variable {c : Nat}

theorem Core.callsOf_nil (h : Core s) (hr : c ∉ removed s) (hc : c ∉ cleanedUp s) : callsOf s c = [] := by
  rw [h.others c hr, if_neg hc]

/-- **Addition.** -/
theorem Inv.add (h : Inv s) (hc : s.control = true) :
    Inv (rtemsBsdProgramAddDestructor s true) := by
  obtain ⟨fs, -, hend, hnil, hframes, hwait, hfreed⟩ | ⟨_, _, _, _, hno⟩ | ⟨hno⟩ := h.phase
  rotate_left
  · rw [hno] at hc; cases hc
  · rw [hno] at hc; cases hc
  have hhead : s.links.head = (kept s).head? := h.threaded.get_eq_head?
  have halive : ∀ x ∈ s.links.head.toList, x ∉ s.freed := by
    intro x hx hf
    rw [hhead, Option.mem_toList] at hx
    exact (mem_kept.mp (mem_of_mem_head? hx)).2 (hfreed x hf)
  unfold rtemsBsdProgramAddDestructor
  rw [if_pos hc, if_pos rfl, use_of_alive halive]
  generalize ht : ({ s with links := s.links.insertHead s.added, added := s.added + 1 } : State) = t
  have hr : removed t = removed s := by rw [← ht]; rfl
  have hcalls : callsOf t = callsOf s := by rw [← ht]; rfl
  have hclean : cleanedUp t = cleanedUp s := by rw [← ht]; rfl
  have hkept : kept t = s.added :: kept s := kept_add (by rw [← ht]) hr h.bound
  refine ⟨⟨?_, ?_, ?_, ?_, ?_, ?_, ?_⟩, ?_⟩
  · rw [← ht]
    exact h.noUse
  · rw [hkept, ← ht]
    exact h.threaded.insertHead fun hm => Nat.lt_irrefl _ (mem_kept.mp hm).1
  · rw [hr]
    exact h.removals
  · rw [hr, ← ht]
    exact fun c hc => Nat.lt_succ_of_lt (h.bound c hc)
  · rw [hcalls, ← ht]
    exact h.called
  · rw [hcalls, ← ht]
    exact h.silent
  · rw [hr, hcalls, hclean]
    exact h.others
  · refine .running fs ?_ ?_ (hclean.trans hnil) ?_ ?_ ?_
    · rw [← ht]
      exact hc
    · rw [← ht]
      exact hend
    · rw [← ht]
      exact hframes
    · rw [← ht]
      exact ⟨hwait.nodup, hwait.taken, hwait.alive⟩
    · rw [hr, ← ht]
      exact hfreed

/-- The state behind `LIST_REMOVE`, with the call of the destructor if it is called. -/
def unlinked (s : State) (c : Nat) (call : Bool) : State :=
  { s with
    links := s.links.remove c
    removals := (c, call) :: s.removals
    calls := if call then s.calls ++ [(c, .removal)] else s.calls }

theorem cleanedUp_unlinked (s : State) (c : Nat) (call : Bool) : cleanedUp (unlinked s c call) = cleanedUp s := by
  cases call with
  | false => rfl
  | true => exact cleanedUp_removal rfl

theorem callsOf_unlinked_of_ne {c d : Nat} (hd : d ≠ c) (call : Bool) :
    callsOf (unlinked s c call) d = callsOf s d := by
  cases call with
  | false => rfl
  | true => exact callsOf_of_ne rfl hd

theorem removed_unlinked (s : State) (c : Nat) (call : Bool) : removed (unlinked s c call) = c :: removed s := rfl

variable {pre suf : List Nat}

/-- **Removal**, as far as the list and the calls are concerned. -/
theorem Core.unlinked (h : Core s) (hsplit : kept s = pre ++ c :: suf)
    (hclean : c ∉ cleanedUp s) (call : Bool) :
    Core (unlinked s c call) ∧ kept (unlinked s c call) = pre ++ suf := by
  have hthread := h.threaded
  rw [hsplit] at hthread
  obtain ⟨hlt, hnew⟩ : c < s.added ∧ c ∉ removed s := mem_kept.mp (by rw [hsplit]; simp)
  have hkept : kept (Destructors.unlinked s c call) = pre ++ suf :=
    kept_remove (s := s) rfl rfl hsplit h.threaded.nodup
  have hnil : callsOf s c = [] := h.callsOf_nil hnew hclean
  have hmem : ∀ d (b : Bool), (d, b) ∈ s.removals → d ≠ c := by
    rintro d b hd rfl
    exact hnew (mem_map.mpr ⟨_, hd, rfl⟩)
  refine ⟨⟨h.noUse, ?_, ?_, ?_, ?_, ?_, ?_⟩, hkept⟩
  · rw [hkept]
    exact hthread.remove
  · exact nodup_cons.mpr ⟨hnew, h.removals⟩
  · intro d hd
    rcases mem_cons.mp hd with rfl | hd
    · exact hlt
    · exact h.bound d hd
  · intro d hd
    rcases mem_cons.mp hd with he | hd
    · -- the destructor that is removed now
      obtain ⟨rfl, rfl⟩ := Prod.mk.inj he
      rw [callsOf_self (s := s) rfl, hnil]
      rfl
    · rw [callsOf_unlinked_of_ne (hmem d true hd)]
      exact h.called d hd
  · intro d hd
    rcases mem_cons.mp hd with he | hd
    · obtain ⟨rfl, rfl⟩ := Prod.mk.inj he
      exact hnil
    · rw [callsOf_unlinked_of_ne (hmem d false hd)]
      exact h.silent d hd
  · intro d hd
    rw [removed_unlinked, mem_cons, not_or] at hd
    rw [callsOf_unlinked_of_ne hd.1, cleanedUp_unlinked]
    exact h.others d hd.2

variable {call : Bool}

theorem removeDestructor_eq (halive : ∀ x ∈ s.links.touched c, x ∉ s.freed)
    (hc : c ∉ s.freed) : rtemsBsdProgramRemoveDestructor s c call =
      if call then { unlinked s c true with frames := .remove c :: s.frames }
      else { unlinked s c false with freed := c :: s.freed } := by
  unfold rtemsBsdProgramRemoveDestructor
  rw [use_of_alive halive]
  cases call with
  | false => exact free_of_alive hc
  | true => rfl

theorem Core.touched (h : Core s) (hsplit : kept s = pre ++ c :: suf)
    (hpre : ∀ x ∈ pre.getLast?, x ∉ s.freed) (hc : c ∉ s.freed) (hsuf : ∀ x ∈ suf, x ∉ s.freed) :
    ∀ x ∈ s.links.touched c, x ∉ s.freed := by
  have hthread := h.threaded
  rw [hsplit] at hthread
  rw [hthread.touched_eq]
  intro x hx
  rcases mem_cons.mp hx with rfl | hx
  · exact hc
  grind [mem_of_mem_head?]

theorem Core.remove (h : Core s) (hsplit : kept s = pre ++ c :: suf)
    (hclean : c ∉ cleanedUp s) (halive : ∀ x ∈ s.links.touched c, x ∉ s.freed) (hc : c ∉ s.freed)
    (ht : rtemsBsdProgramRemoveDestructor s c call = t) :
    Core t ∧ kept t = pre ++ suf ∧ cleanedUp t = cleanedUp s ∧ removed t = c :: removed s ∧
      t.control = s.control ∧ t.ended = s.ended ∧
      ((t.frames = .remove c :: s.frames ∧ t.freed = s.freed) ∨ (t.frames = s.frames ∧ t.freed = c :: s.freed)) := by
  obtain ⟨hcore, hkept⟩ := h.unlinked hsplit hclean call
  rw [removeDestructor_eq halive hc] at ht
  have hcl := cleanedUp_unlinked s c call
  cases call with
  | false =>
    subst ht
    exact ⟨hcore.congr rfl rfl rfl rfl rfl, hkept, hcl, rfl, rfl, rfl, .inr ⟨rfl, rfl⟩⟩
  | true =>
    subst ht
    exact ⟨hcore.congr rfl rfl rfl rfl rfl, hkept, hcl, rfl, rfl, rfl, .inl ⟨rfl, rfl⟩⟩

theorem Waiting.remove {fs : List Nat} {base : List Frame} (h : Waiting s fs)
    (hs : s.frames = fs.map .remove ++ base) (hnew : c ∉ removed s) (hc : c ∉ s.freed)
    (hr : removed t = c :: removed s)
    (ht : (t.frames = .remove c :: s.frames ∧ t.freed = s.freed) ∨ (t.frames = s.frames ∧ t.freed = c :: s.freed)) :
    ∃ gs, t.frames = gs.map .remove ++ base ∧ Waiting t gs := by
  rcases ht with ⟨hframes, hfreed⟩ | ⟨hframes, hfreed⟩
  · refine ⟨c :: fs, ?_, ?_, ?_, ?_⟩
    · rw [hframes, hs]
      rfl
    · exact nodup_cons.mpr ⟨fun hm => hnew (h.taken c hm), h.nodup⟩
    · intro x hx
      rw [hr]
      rcases mem_cons.mp hx with rfl | hx
      · exact mem_cons_self
      · exact mem_cons_of_mem c (h.taken x hx)
    · intro x hx
      rw [hfreed]
      rcases mem_cons.mp hx with rfl | hx
      · exact hc
      · exact h.alive x hx
  · refine ⟨fs, by rw [hframes, hs], h.nodup, ?_, ?_⟩
    · intro x hx
      rw [hr]
      exact mem_cons_of_mem c (h.taken x hx)
    · intro x hx
      rw [hfreed, mem_cons, not_or]
      exact ⟨fun he => hnew (he ▸ h.taken x hx), h.alive x hx⟩

theorem Waiting.pop {fs : List Nat} {frames : List Frame} {x : Nat} (h : Waiting s (x :: fs)) :
    Waiting { s with frames := frames, freed := x :: s.freed } fs := by
  obtain ⟨hx, hnodup⟩ := nodup_cons.mp h.nodup
  refine ⟨hnodup, fun y hy => h.taken y (mem_cons_of_mem x hy), fun y hy hf => ?_⟩
  rcases mem_cons.mp hf with rfl | hf
  · exact hx hy
  · exact h.alive y (mem_cons_of_mem x hy) hf

theorem freed_remove {P : Nat → Prop} (h : ∀ x ∈ s.freed, P x ∨ x ∈ removed s)
    (hr : removed t = c :: removed s)
    (ht : (t.frames = .remove c :: s.frames ∧ t.freed = s.freed) ∨ (t.frames = s.frames ∧ t.freed = c :: s.freed)) :
    ∀ x ∈ t.freed, P x ∨ x ∈ removed t := by
  intro x hx
  grind

/-- **Removal**, of a destructor behind the saved next one. -/
theorem Inv.remove (h : Inv s) (hlt : c < s.added)
    (hnew : c ∉ removed s) (hok : RemovesBehind s (.remove c call)) : Inv (rtemsBsdProgramRemoveDestructor s c call) := by
  generalize ht : rtemsBsdProgramRemoveDestructor s c call = t
  have hmem : c ∈ kept s := mem_kept.mpr ⟨hlt, hnew⟩
  have hkn : ∀ x ∈ kept s, x ∉ removed s := fun x hx => (mem_kept.mp hx).2
  cases h.phase with
  | running fs hc he hnil hframes hwait hfreed =>
    obtain ⟨pre, suf, hsplit⟩ := append_of_mem hmem
    have halive : ∀ x ∈ kept s, x ∉ s.freed := fun x hx hf => hkn x hx (hfreed x hf)
    have hpre : ∀ x ∈ pre, x ∉ s.freed := fun x hx => halive x (by rw [hsplit]; simp [hx])
    have hsuf : ∀ x ∈ suf, x ∉ s.freed := fun x hx => halive x (by rw [hsplit]; simp [hx])
    have hclean : c ∉ cleanedUp s := by rw [hnil]; exact not_mem_nil
    have htouch := h.touched hsplit (fun x hx => hpre x (mem_of_mem_getLast? hx)) (halive c hmem) hsuf
    obtain ⟨hcore, -, hcl, hr, hcontrol, hended, hfr⟩ := h.toCore.remove hsplit hclean htouch (halive c hmem) ht
    have hbase : s.frames = fs.map .remove ++ [] := by simp [hframes]
    obtain ⟨gs, hgs, hwait'⟩ := hwait.remove hbase hnew (halive c hmem) hr hfr
    refine ⟨hcore, .running gs (hcontrol.trans hc) (hended.trans he) (hcl.trans hnil) ?_ hwait' ?_⟩
    · simp [hgs]
    · intro x hx
      exact (freed_remove (P := fun _ => False) (fun x hx => .inr (hfreed x hx)) hr hfr x hx).resolve_left id
  | cleaning fs done n rest hc he hkept hclean hframes hwait hfreed =>
    obtain hrun | ⟨hnclean, hsaved⟩ := hok
    · rw [hc] at hrun; cases hrun
    have hsv : saved s = rest.head? := by
      unfold saved
      simp [hframes]
    -- the removed one is behind the saved next one
    have hrest : c ∈ rest := by
      grind
    obtain ⟨m, more, rfl⟩ := exists_cons_of_ne_nil (ne_nil_of_mem hrest)
    have hcm : c ∈ more := by
      grind
    obtain ⟨p, q, rfl⟩ := append_of_mem hcm
    have hnodup := h.threaded.nodup
    have halive : ∀ x ∈ n :: m :: (p ++ c :: q), x ∉ s.freed := by
      intro x hx hf
      grind
    have hsplit : kept s = (done ++ n :: m :: p) ++ c :: q := by rw [hkept]; simp
    have hlast : ∀ x ∈ (done ++ n :: m :: p).getLast?, x ∉ s.freed := by
      intro x hx
      rw [getLast?_append_of_ne_nil _ (cons_ne_nil _ _)] at hx
      have hx' := mem_of_mem_getLast? hx
      refine halive x ?_
      exact mem_append_left _ hx'
    have hca : c ∉ s.freed := halive c (by simp)
    have htouch := h.touched hsplit hlast hca fun x hx => halive x (by simp [hx])
    obtain ⟨hcore, hkept', hcl, hr, hcontrol, hended, hfr⟩ := h.toCore.remove hsplit hnclean htouch hca ht
    obtain ⟨gs, hgs, hwait'⟩ := hwait.remove hframes hnew hca hr hfr
    refine ⟨hcore, .cleaning gs done n (m :: (p ++ q)) (hcontrol.trans hc) (hended.trans he) ?_ (hcl.trans hclean) hgs
      hwait' (freed_remove hfreed hr hfr)⟩
    rw [hkept']
    simp
  | finished hc _ heq =>
    grind [RemovesBehind]

theorem Core.callDestructors (h : Core s) {done rest : List Nat} (hc : s.control = false) (he : s.ended = false)
    (hkept : kept s = done ++ rest) (hclean : cleanedUp s = done) (hframes : s.frames = [])
    (hfreed : ∀ x ∈ s.freed, x ∈ done ∨ x ∈ removed s) : Inv (callDestructors s rest.head?) := by
  cases rest with
  | nil =>
    rw [append_nil] at hkept
    exact ⟨h.congr rfl rfl rfl rfl rfl, .finished hc rfl (hclean.trans hkept.symm)⟩
  | cons n rest =>
    have hthread := h.threaded
    have hnodup := hthread.nodup
    rw [hkept] at hthread hnodup
    have hnr : n ∉ removed s := (mem_kept.mp (by rw [hkept]; simp)).2
    have hnd : n ∉ done := fun hd => disjoint_of_nodup_append hnodup hd mem_cons_self
    have halive : n ∉ s.freed := fun hf => (hfreed n hf).elim hnd hnr
    have hnext : s.links.next n = rest.head? := hthread.behind.get_eq_head?
    show Inv (use s [n] _)
    rw [use_of_alive fun x hx => by rwa [mem_singleton.mp hx], hnext]
    generalize ht : ({ s with
      calls := s.calls ++ [(n, .cleanUp)], frames := .loop n rest.head? :: s.frames } : State) = t
    have hcalls : t.calls = s.calls ++ [(n, .cleanUp)] := by rw [← ht]
    have hcl : cleanedUp t = done ++ [n] := by rw [cleanedUp_cleanUp hcalls, hclean]
    have hr : removed t = removed s := by rw [← ht]; rfl
    have hk : kept t = kept s := by rw [← ht]; rfl
    refine ⟨⟨?_, ?_, ?_, ?_, ?_, ?_, ?_⟩, ?_⟩
    · rw [← ht]
      exact h.noUse
    · rw [hk, ← ht]
      exact h.threaded
    · rw [hr]
      exact h.removals
    · rw [hr, ← ht]
      exact h.bound
    · intro c hm
      have hm' : (c, true) ∈ s.removals := by rw [← ht] at hm; exact hm
      rw [callsOf_of_ne hcalls fun he => hnr (he ▸ mem_map.mpr ⟨_, hm', rfl⟩)]
      exact h.called c hm'
    · intro c hm
      have hm' : (c, false) ∈ s.removals := by rw [← ht] at hm; exact hm
      rw [callsOf_of_ne hcalls fun he => hnr (he ▸ mem_map.mpr ⟨_, hm', rfl⟩)]
      exact h.silent c hm'
    · intro c hm
      rw [hr] at hm
      rw [hcl]
      by_cases hcn : c = n
      · subst hcn
        rw [callsOf_self hcalls, h.callsOf_nil hm (hclean ▸ hnd), if_pos (by simp)]
        rfl
      · rw [callsOf_of_ne hcalls hcn, h.others c hm, hclean]
        simp [hcn]
    · refine .cleaning [] done n rest ?_ ?_ (hk.trans hkept) hcl ?_ ⟨nodup_nil, nofun, nofun⟩ ?_
      · rw [← ht]
        exact hc
      · rw [← ht]
        exact he
      · rw [← ht, hframes]
        rfl
      · rw [hr, ← ht]
        exact hfreed

/-- **The end of the program.** -/
theorem Inv.cleanUp (h : Inv s) (hc : s.control = true) : Inv (cleanUp s) := by
  obtain ⟨fs, -, hend, hnil, hframes, hwait, hfreed⟩ | ⟨_, _, _, _, hno⟩ | ⟨hno⟩ := h.phase
  rotate_left
  · rw [hno] at hc; cases hc
  · rw [hno] at hc; cases hc
  have hhead : s.links.head = (kept s).head? := h.threaded.get_eq_head?
  have hcore : Core { s with control := false, frames := [] } := h.toCore.congr rfl rfl rfl rfl rfl
  show Inv (callDestructors _ s.links.head)
  rw [hhead]
  exact hcore.callDestructors rfl hend rfl hnil rfl fun x hx => .inr (hfreed x hx)

/-- **The return** of the program or of a destructor. -/
theorem Inv.ret (h : Inv s) (hend : s.ended = false) : Inv (ret s) := by
  cases h.phase with
  | running fs hc he hnil hframes hwait hfreed =>
    cases fs with
    | nil =>
      grind [Destructors.ret, h.cleanUp]
    | cons x fs =>
      have heq : Destructors.ret s = { s with frames := fs.map .remove, freed := x :: s.freed } := by
        unfold Destructors.ret
        rw [hframes]
        exact free_of_alive (hwait.alive x mem_cons_self)
      rw [heq]
      refine ⟨h.toCore.congr rfl rfl rfl rfl rfl, .running fs hc he hnil rfl ?_ ?_⟩
      · exact hwait.pop
      · intro y hy
        rcases mem_cons.mp hy with rfl | hy
        · exact hwait.taken y mem_cons_self
        · exact hfreed y hy
  | cleaning fs done n rest hc he hkept hclean hframes hwait hfreed =>
    cases fs with
    | nil =>
      have hnodup := h.threaded.nodup
      rw [hkept] at hnodup
      have hnr : n ∉ removed s := (mem_kept.mp (by rw [hkept]; simp)).2
      have halive : n ∉ s.freed := fun hf => (hfreed n hf).elim
        (fun hd => disjoint_of_nodup_append hnodup hd mem_cons_self) hnr
      have heq : Destructors.ret s =
          Destructors.callDestructors { s with frames := [], freed := n :: s.freed } rest.head? := by
        unfold Destructors.ret
        rw [hframes]
        show nextNode { s with frames := [] } n rest.head? = _
        unfold nextNode
        rw [if_neg halive, free_of_alive (s := { s with frames := [] }) halive]
      rw [heq]
      have hcore : Core { s with frames := [], freed := n :: s.freed } := h.toCore.congr rfl rfl rfl rfl rfl
      refine hcore.callDestructors hc he ?_ hclean rfl ?_
      · rw [append_assoc]
        exact hkept
      · intro y hy
        rcases mem_cons.mp hy with rfl | hy
        · exact .inl (by simp)
        · exact (hfreed y hy).imp_left (mem_append_left _)
    | cons x fs =>
      have heq : Destructors.ret s =
          { s with frames := fs.map .remove ++ [.loop n rest.head?], freed := x :: s.freed } := by
        unfold Destructors.ret
        rw [hframes]
        exact free_of_alive (hwait.alive x mem_cons_self)
      rw [heq]
      refine ⟨h.toCore.congr rfl rfl rfl rfl rfl, .cleaning fs done n rest hc he hkept hclean rfl ?_ ?_⟩
      · exact hwait.pop
      · intro y hy
        rcases mem_cons.mp hy with rfl | hy
        · exact .inr (hwait.taken y mem_cons_self)
        · exact hfreed y hy
  | finished hc he heq => rw [hend] at he; cases he

theorem step_cases {a : Action} (h : step s a = some t) : s.ended = false ∧ s.fault = false ∧
    ((∃ mem, a = .add mem ∧ t = rtemsBsdProgramAddDestructor s mem) ∨
      (∃ c call, a = .remove c call ∧ c < s.added ∧ c ∉ removed s ∧ t = rtemsBsdProgramRemoveDestructor s c call) ∨
      (a = .ret ∧ t = ret s) ∨ (a = .exit ∧ s.control = true ∧ t = cleanUp s)) := by
  unfold step at h
  grind

/-- **Step**: an action that removes nothing but what is behind the saved next node keeps the invariant. -/
theorem Inv.step {a : Action} (h : Inv s) (hok : RemovesBehind s a) (hs : step s a = some t) : Inv t := by
  obtain ⟨hend, -, hs⟩ := step_cases hs
  rcases hs with ⟨mem, rfl, rfl⟩ | ⟨c, call, rfl, hlt, hnew, rfl⟩ | ⟨rfl, rfl⟩ | ⟨rfl, hc, rfl⟩
  · grind [rtemsBsdProgramAddDestructor, h.add]
  · exact h.remove hlt hnew hok
  · exact h.ret hend
  · exact h.cleanUp hc

end Steps

/-! ## What any other removal leads to -/

/-- A node was used after it was freed, a destructor was called too often, or the saved next node will be gone when
    `call_destructors` goes on with it. -/
inductive Doomed (s : State) : Prop where
  | fault (h : s.fault = true)
  | called (c : Nat) (hr : (c, true) ∈ s.removals) (h : 1 < (callsOf s c).length)
  | silent (c : Nat) (hr : (c, false) ∈ s.removals) (h : callsOf s c ≠ [])
  | gone (fs : List Nat) (n m : Nat) (control : s.control = false) (ended : s.ended = false)
      (frames : s.frames = fs.map .remove ++ [.loop n (some m)]) (h : m ∈ s.freed ∨ m ∈ fs)

theorem Doomed.not_proper {s : State} (h : Doomed s) (hover : s.ended = true ∨ s.fault = true) : ¬ Proper s := by
  intro hp
  cases h with
  | fault h => rw [hp.noUse] at h; cases h
  | called c hr h =>
    rw [hp.called c hr] at h
    exact absurd h (Nat.lt_irrefl 1)
  | silent c hr h => exact h (hp.silent c hr)
  | gone fs n m _ hend =>
    rcases hover with h | h
    · rw [hend] at h; cases h
    · rw [hp.noUse] at h; cases h

section Doom

variable {s t : State}

structure Later (s t : State) : Prop where
  removals : ∀ r ∈ s.removals, r ∈ t.removals
  calls : ∃ cs, t.calls = s.calls ++ cs

theorem later_of_eq (hr : t.removals = s.removals) (hc : t.calls = s.calls) : Later s t :=
  ⟨fun _ h => hr ▸ h, [], by simp [hc]⟩

theorem Later.trans {u : State} (h : Later s t) (h' : Later t u) : Later s u := by
  obtain ⟨cs, hcs⟩ := h.calls
  obtain ⟨ds, hds⟩ := h'.calls
  exact ⟨fun r hr => h'.removals r (h.removals r hr), cs ++ ds, by simp [hds, hcs]⟩

theorem Later.use {nodes : List Nat} (h : Later s t) : Later s (use s nodes t) := by
  rcases use_cases s t nodes with he | he <;> rw [he]
  · exact h
  · exact later_of_eq rfl rfl

theorem later_free (s : State) (node : Nat) : Later s (free s node) := Later.use (later_of_eq rfl rfl)

theorem later_callDestructors (s : State) (node : Option Nat) : Later s (callDestructors s node) := by
  cases node with
  | none => exact later_of_eq rfl rfl
  | some n => exact Later.use ⟨fun _ h => h, _, rfl⟩

theorem later_cleanUp (s : State) : Later s (cleanUp s) :=
  (later_of_eq (s := s) (t := { s with control := false, frames := [] }) rfl rfl).trans (later_callDestructors _ _)

theorem later_nextNode (s : State) (node : Nat) (tmp : Option Nat) : Later s (nextNode s node tmp) := by
  unfold nextNode
  split
  · exact later_of_eq rfl rfl
  · exact (later_free s node).trans (later_callDestructors _ tmp)

theorem later_ret (s : State) : Later s (ret s) := by
  unfold ret
  split
  · exact later_cleanUp s
  · rename_i node frames _
    exact (later_of_eq (s := s) (t := { s with frames := frames }) rfl rfl).trans (later_free _ node)
  · rename_i node tmp frames _
    exact (later_of_eq (s := s) (t := { s with frames := frames }) rfl rfl).trans (later_nextNode _ node tmp)

theorem later_remove (s : State) (c : Nat) (call : Bool) : Later s (rtemsBsdProgramRemoveDestructor s c call) := by
  refine Later.use ?_
  have hr : ∀ r ∈ s.removals, r ∈ (c, call) :: s.removals := fun r hr => mem_cons_of_mem _ hr
  cases call with
  | false =>
    have hl : Later s { s with links := s.links.remove c, removals := (c, false) :: s.removals } :=
      ⟨hr, [], (append_nil _).symm⟩
    exact hl.trans (later_free _ c)
  | true => exact ⟨hr, _, rfl⟩

theorem later_add (s : State) (mem : Bool) : Later s (rtemsBsdProgramAddDestructor s mem) := by
  unfold rtemsBsdProgramAddDestructor
  split
  · split
    · exact Later.use (later_of_eq rfl rfl)
    · exact later_of_eq rfl rfl
  · exact later_of_eq rfl rfl

variable {a : Action}

theorem later_step (h : step s a = some t) : Later s t := by
  obtain ⟨-, -, h⟩ := step_cases h
  rcases h with ⟨mem, -, rfl⟩ | ⟨c, call, -, -, -, rfl⟩ | ⟨-, rfl⟩ | ⟨-, -, rfl⟩
  · exact later_add s mem
  · exact later_remove s c call
  · exact later_ret s
  · exact later_cleanUp s

theorem Later.callsOf {c : Nat} (h : Later s t) : ∃ cs, callsOf t c = callsOf s c ++ cs := by
  obtain ⟨cs, hcs⟩ := h.calls
  exact ⟨_, by unfold Destructors.callsOf; rw [hcs, filter_append]⟩

theorem remove_outcome (s : State) (c : Nat) (call : Bool) :
    (rtemsBsdProgramRemoveDestructor s c call).fault = true ∨
      (call = true ∧ rtemsBsdProgramRemoveDestructor s c call =
        { unlinked s c true with frames := .remove c :: s.frames }) ∨
      (call = false ∧ rtemsBsdProgramRemoveDestructor s c call = { unlinked s c false with freed := c :: s.freed }) := by
  cases call with
  | true =>
    rcases use_cases s { unlinked s c true with frames := .remove c :: s.frames } (s.links.touched c) with he | he
    · exact .inr (.inl ⟨rfl, he⟩)
    · exact .inl (congrArg State.fault he)
  | false =>
    rcases use_cases s (free (unlinked s c false) c) (s.links.touched c) with he | he
    · rcases use_cases (unlinked s c false) { unlinked s c false with freed := c :: s.freed } [c] with he' | he'
      · exact .inr (.inr ⟨rfl, he.trans he'⟩)
      · exact .inl (congrArg State.fault (he.trans he'))
    · exact .inl (congrArg State.fault he)

theorem nextNode_of_gone {n m : Nat} (h : m ∈ s.freed) : (nextNode s n (some m)).fault = true := by
  unfold nextNode
  grind [use, callDestructors, free]

theorem Doomed.step (h : Doomed s) (hs : step s a = some t) : Doomed t := by
  have hl := later_step hs
  obtain ⟨hend, hf, hs⟩ := step_cases hs
  cases h with
  | fault h => rw [hf] at h; cases h
  | called c hr h =>
    obtain ⟨cs, hcs⟩ := hl.callsOf (c := c)
    refine .called c (hl.removals _ hr) ?_
    rw [hcs, length_append]
    exact Nat.lt_add_right _ h
  | silent c hr h =>
    obtain ⟨cs, hcs⟩ := hl.callsOf (c := c)
    refine .silent c (hl.removals _ hr) ?_
    rw [hcs]
    exact fun he => h (append_eq_nil_iff.mp he).1
  | gone fs n m hc _ hframes h =>
    rcases hs with ⟨mem, -, rfl⟩ | ⟨c, call, -, -, -, rfl⟩ | ⟨-, rfl⟩ | ⟨-, hc', -⟩
    · rw [rtemsBsdProgramAddDestructor, hc]
      exact .gone fs n m hc hend hframes h
    · rcases remove_outcome s c call with he | ⟨-, he⟩ | ⟨-, he⟩
      · exact .fault he
      · rw [he]
        exact .gone (c :: fs) n m hc hend (congrArg (Frame.remove c :: ·) hframes) (h.imp_right (mem_cons_of_mem c))
      · rw [he]
        exact .gone fs n m hc hend hframes (h.imp_left (mem_cons_of_mem c))
    · unfold ret
      rw [hframes]
      cases fs with
      | nil => exact .fault (nextNode_of_gone (h.resolve_right not_mem_nil))
      | cons x fs =>
        rcases use_cases { s with frames := fs.map .remove ++ [.loop n (some m)] }
          { s with frames := fs.map .remove ++ [.loop n (some m)], freed := x :: s.freed } [x] with he | he
        · refine (congrArg Doomed he).mpr (.gone fs n m hc hend rfl ?_)
          grind
        · exact .fault (congrArg State.fault he)
    · rw [hc] at hc'; cases hc'

theorem Inv.doomed (h : Inv s) (hbad : ¬ RemovesBehind s a) (hs : Destructors.step s a = some t) :
    Doomed t := by
  obtain ⟨hend, -, hs⟩ := step_cases hs
  rcases hs with ⟨mem, rfl, -⟩ | ⟨c, call, rfl, hlt, hnew, rfl⟩ | ⟨rfl, -⟩ | ⟨rfl, -, -⟩
  · exact absurd trivial hbad
  · obtain ⟨hrun, hbad⟩ := not_or.mp hbad
    cases h.phase with
    | running fs hc => exact absurd hc hrun
    | finished _ he => rw [hend] at he; cases he
    | cleaning fs done n rest hc he hkept hclean hframes hwait hfreed =>
      have hsv : saved s = rest.head? := by
        unfold saved
        simp [hframes]
      rcases remove_outcome s c call with ho | ⟨rfl, ho⟩ | ⟨rfl, ho⟩
      · exact .fault ho
      · rw [ho]
        by_cases hcl : c ∈ cleanedUp s
        · refine .called c mem_cons_self ?_
          rw [callsOf_self (s := s) (c := c) rfl, h.others c hnew, if_pos hcl]
          exact Nat.lt_add_one 1
        · have hsaved : rest.head? = some c := hsv ▸ Classical.byContradiction fun hno => hbad (.inr ⟨hcl, hno⟩)
          refine .gone (c :: fs) n c hc he ?_ (.inr mem_cons_self)
          show Frame.remove c :: s.frames = _
          rw [hframes, hsaved]
          rfl
      · rw [ho]
        by_cases hcl : c ∈ cleanedUp s
        · refine .silent c mem_cons_self ?_
          show callsOf s c ≠ []
          rw [h.others c hnew, if_pos hcl]
          exact cons_ne_nil _ _
        · have hsaved : rest.head? = some c := hsv ▸ Classical.byContradiction fun hno => hbad (.inr ⟨hcl, hno⟩)
          exact .gone fs n c hc he (by rw [← hsaved]; exact hframes) (.inl mem_cons_self)
  · exact absurd trivial hbad
  · exact absurd trivial hbad

end Doom

/-- **The destructors of a program**: as long as what the clean-up removes is behind the saved next node, every
    destructor is called as the additions and removals ask for and no node is used after it was freed; and only then,
    in a run that came to its end. -/
theorem destructors_iff (as : List Action) {t : State} (hrun : run step init as = some t) :
    (StepsMeet step RemovesBehind init as → Proper t) ∧
      (t.ended = true ∨ t.fault = true → Proper t → StepsMeet step RemovesBehind init as) := by
  refine ⟨fun hmeet => ?_, fun hover hproper => ?_⟩
  · exact (run_invariant_of_meet (fun _ _ _ hi hok hs => Inv.step hi hok hs) as init t inv_init hmeet hrun).proper
  · refine (meet_or_bad (fun _ _ _ hi hok hs => Inv.step hi hok hs) (fun _ _ _ hi hno hs => Inv.doomed hi hno hs)
      (fun _ _ _ hd hs => Doomed.step hd hs) as init t inv_init hrun).resolve_right fun hbad => ?_
    exact hbad.not_proper hover hproper

/-- Three destructors; the last one is removed with its call, and the first one by the second in the clean-up. -/
def tidyProgram : List Action :=
  [.add true, .add true, .add false, .add true, .add true, .remove 3 true, .ret, .ret, .remove 0 false, .ret, .ret]

theorem destructors_iff_tidyProgram : ∃ t, run step init tidyProgram = some t ∧ t.ended = true ∧ Proper t :=
  ⟨_, rfl, rfl, (destructors_iff tidyProgram rfl).1 (by decide)⟩

def removesNext : List Action := [.add true, .add true, .ret, .remove 0 false, .ret]

/-- The clean-up goes on with a node that is gone. -/
theorem removesNext_faults : ∃ t, run step init removesNext = some t ∧ t.fault = true ∧ ¬ Proper t :=
  ⟨_, rfl, rfl, fun h => Bool.noConfusion h.noUse⟩

end RtemsLibbsd.Program.Destructors

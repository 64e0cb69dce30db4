import Mathlib.Algebra.Group.Nat.Defs
import Mathlib.Order.Nat

/-!
# Polling loops

A loop that reads until a value is as it waits for.  A read moves the environment on, so the values of the
later reads may depend on how often was read before.

* `after`, `value` — the state after a number of reads, and the value of one of them.
* `First` — the first read whose value ends the loop.
* `poll` — the loop, with a bound for the number of its rounds.
* `poll_eq_some_iff` — what the loop comes to, if it returns.
* `after_map`, `value_map` — reads of a state that is only a part of the other.
-/

namespace RtemsLibbsd.Polling

universe u v w

variable {σ : Type u} {τ : Type w} {β : Type v}

section Values

variable (read : σ → σ × β)

/-- The state after `n` reads. -/
def after : ℕ → σ → σ
  | 0, s => s
  | n + 1, s => after n (read s).1

/-- The value of the read after `n` reads. -/
def value (n : ℕ) (s : σ) : β := (read (after read n s)).2

variable (done : β → Prop)

/-- The read after `n` reads is the first one whose value ends the loop. -/
structure First (n : ℕ) (s : σ) : Prop where
  ends : done (value read n s)
  before : ∀ m < n, ¬ done (value read m s)

/-- The loop, for at most `fuel` reads. -/
def poll [DecidablePred done] : ℕ → σ → Option σ
  | 0, _ => none
  | fuel + 1, s => if done (read s).2 then some (read s).1 else poll fuel (read s).1

end Values

variable {read : σ → σ × β} {done : β → Prop} {s t : σ} {n fuel : ℕ}

theorem after_succ (n : ℕ) (s : σ) : after read (n + 1) s = after read n (read s).1 := rfl

theorem value_succ (n : ℕ) (s : σ) : value read (n + 1) s = value read n (read s).1 := rfl

theorem first_zero : First read done 0 s ↔ done (read s).2 := by
  constructor
  · exact First.ends
  · intro h
    exact ⟨h, fun m hm => absurd hm (Nat.not_lt_zero m)⟩

theorem first_succ :
    First read done (n + 1) s ↔ ¬ done (read s).2 ∧ First read done n (read s).1 := by
  constructor
  · rintro ⟨hends, hbefore⟩
    refine ⟨hbefore 0 (Nat.succ_pos n), hends, ?_⟩
    intro m hm
    exact hbefore (m + 1) (Nat.succ_lt_succ hm)
  · rintro ⟨hno, hends, hbefore⟩
    refine ⟨hends, ?_⟩
    intro m hm
    cases m with
    | zero => exact hno
    | succ m => exact hbefore m (Nat.lt_of_succ_lt_succ hm)

theorem first_unique {m : ℕ} (hn : First read done n s) (hm : First read done m s) : n = m := by
  rcases lt_trichotomy n m with h | h | h
  · exact absurd hn.ends (hm.before n h)
  · exact h
  · exact absurd hm.ends (hn.before m h)

open Classical in
theorem exists_first (h : ∃ n, done (value read n s)) : ∃ n, First read done n s :=
  ⟨Nat.find h, Nat.find_spec h, fun _ hm => Nat.find_min h hm⟩

variable [DecidablePred done]

theorem poll_eq_some_iff :
    poll read done fuel s = some t ↔ ∃ n < fuel, First read done n s ∧ after read (n + 1) s = t := by
  induction fuel generalizing s with
  | zero => simp [poll]
  | succ fuel ih =>
    rw [poll]
    split
    · rename_i hdone
      constructor
      · intro h
        exact ⟨0, Nat.succ_pos fuel, first_zero.2 hdone, Option.some.inj h⟩
      · rintro ⟨n, _, hfirst, hafter⟩
        obtain rfl := first_unique hfirst (first_zero.2 hdone)
        exact congrArg some hafter
    · rename_i hno
      rw [ih]
      constructor
      · rintro ⟨n, hn, hfirst, hafter⟩
        exact ⟨n + 1, Nat.succ_lt_succ hn, first_succ.2 ⟨hno, hfirst⟩, hafter⟩
      · rintro ⟨n, hn, hfirst, hafter⟩
        cases n with
        | zero => exact absurd hfirst.ends hno
        | succ n => exact ⟨n, Nat.lt_of_succ_lt_succ hn, (first_succ.1 hfirst).2, hafter⟩

theorem poll_of_first (h : First read done n s) : poll read done (n + 1) s = some (after read (n + 1) s) :=
  poll_eq_some_iff.2 ⟨n, Nat.lt_succ_self n, h, rfl⟩

section Map

variable {read' : τ → τ × β} {f : τ → σ}

theorem after_map (hf : ∀ t, f (read' t).1 = (read (f t)).1) (n : ℕ) (t : τ) :
    f (after read' n t) = after read n (f t) := by
  induction n generalizing t with
  | zero => rfl
  | succ n ih => rw [after_succ, after_succ, ih, hf]

theorem value_map (hf : ∀ t, f (read' t).1 = (read (f t)).1) (hv : ∀ t, (read' t).2 = (read (f t)).2)
    (n : ℕ) (t : τ) : value read' n t = value read n (f t) := by
  rw [value, hv, after_map hf, value]

end Map

end RtemsLibbsd.Polling

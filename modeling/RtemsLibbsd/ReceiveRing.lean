import Mathlib.Data.List.Nodup
import Mathlib.Logic.Function.Basic

/-!
# Buffers and frames of a receive ring

A receive ring is a function from slots to buffers.  A filled slot holds a frame, a frame has the number of its
reception, and the driver takes the frames out of the slots.

* `Attached` — the buffers in the slots belong to the driver, every one to one slot.
* `Ledger` — every frame is in one slot, was delivered once, or was dropped.
-/

namespace RtemsLibbsd.ReceiveRing

open Function

universe u

variable {β : Type u} [DecidableEq β]

inductive Owner where
  | free
  | driver
  | stack
deriving DecidableEq

/-- The slots in `P` hold buffers of the driver, different ones. -/
structure Attached (P : Nat → Prop) (slot : Nat → β) (owner : β → Owner) : Prop where
  own : ∀ k, P k → owner (slot k) = .driver
  inj : ∀ j k, P j → P k → slot j = slot k → j = k

section Attached

variable {P Q : Nat → Prop} {slot : Nat → β} {owner : β → Owner} {b : β} {k : Nat} {o : Owner}

omit [DecidableEq β] in
theorem Attached.mono (h : Attached P slot owner) (hPQ : ∀ k, Q k → P k) : Attached Q slot owner :=
  ⟨fun k hk => h.own k (hPQ k hk), fun j k hj hk => h.inj j k (hPQ j hj) (hPQ k hk)⟩

omit [DecidableEq β] in
theorem Attached.ne_of_owner (h : Attached P slot owner) (hb : owner b ≠ .driver) (hk : P k) : slot k ≠ b :=
  fun he => hb (he ▸ h.own k hk)

theorem Attached.setOwner (h : Attached P slot owner) (hb : ∀ k, P k → slot k ≠ b) :
    Attached P slot (update owner b o) :=
  ⟨fun k hk => by rw [update_of_ne (hb k hk)]; exact h.own k hk, h.inj⟩

omit [DecidableEq β] in
theorem Attached.put (h : Attached P slot owner) (hown : owner b = .driver)
    (hb : ∀ j, P j → j ≠ k → slot j ≠ b) (hQ : ∀ j, Q j → j ≠ k → P j) :
    Attached Q (update slot k b) owner := by
  constructor
  · intro j hj
    grind [h.own]
  · intro i j hi hj he
    grind [h.inj]

end Attached

/-- The frames below `count` that are in a slot of `P` or were delivered. -/
structure Ledger (P : Nat → Prop) (frame : Nat → Option Nat) (count : Nat) (delivered : List Nat) : Prop where
  slotLt : ∀ k f, P k → frame k = some f → f < count
  inj : ∀ j k f, P j → P k → frame j = some f → frame k = some f → j = k
  pending : ∀ k f, P k → frame k = some f → f ∉ delivered
  deliveredLt : ∀ f ∈ delivered, f < count
  nodup : delivered.Nodup

section Ledger

variable {P : Nat → Prop} {frame frame' : Nat → Option Nat} {count : Nat} {delivered : List Nat} {k f : Nat}

theorem Ledger.empty : Ledger P (fun _ => none) 0 [] :=
  ⟨nofun, nofun, nofun, nofun, List.nodup_nil⟩

theorem Ledger.sub (h : Ledger P frame count delivered)
    (hframe : ∀ k f, frame' k = some f → frame k = some f) : Ledger P frame' count delivered :=
  ⟨fun k f hk hf => h.slotLt k f hk (hframe k f hf),
    fun j k f hj hk hfj hfk => h.inj j k f hj hk (hframe j f hfj) (hframe k f hfk),
    fun k f hk hf => h.pending k f hk (hframe k f hf), h.deliveredLt, h.nodup⟩

theorem update_none_sub (frame : Nat → Option Nat) (k j f : Nat)
    (h : update frame k none j = some f) : j ≠ k ∧ frame j = some f := by
  grind

theorem Ledger.drop (h : Ledger P frame count delivered) (k : Nat) :
    Ledger P (update frame k none) count delivered :=
  h.sub fun j f hf => (update_none_sub frame k j f hf).2

theorem Ledger.receive (h : Ledger P frame count delivered) (k : Nat) :
    Ledger P (update frame k (some count)) (count + 1) delivered := by
  have hcases (j f : Nat) (hf : update frame k (some count) j = some f) :
      j = k ∧ f = count ∨ j ≠ k ∧ frame j = some f := by
    grind
  have hnew : count ∉ delivered := fun hmem => Nat.lt_irrefl count (h.deliveredLt count hmem)
  refine ⟨fun j f hj hf => ?_, fun i j f hi hj hfi hfj => ?_, fun j f hj hf => ?_,
    fun f hf => Nat.lt_succ_of_lt (h.deliveredLt f hf), h.nodup⟩
  · rcases hcases j f hf with ⟨-, rfl⟩ | ⟨-, hf⟩
    · exact Nat.lt_succ_self f
    · exact Nat.lt_succ_of_lt (h.slotLt j f hj hf)
  · rcases hcases i f hfi with ⟨hik, hif⟩ | ⟨-, hfi'⟩ <;> rcases hcases j f hfj with ⟨hjk, hjf⟩ | ⟨-, hfj'⟩
    · rw [hik, hjk]
    · exact absurd (h.slotLt j f hj hfj') (by rw [hif]; exact Nat.lt_irrefl _)
    · exact absurd (h.slotLt i f hi hfi') (by rw [hjf]; exact Nat.lt_irrefl _)
    · exact h.inj i j f hi hj hfi' hfj'
  · rcases hcases j f hf with ⟨-, rfl⟩ | ⟨-, hf⟩
    · exact hnew
    · exact h.pending j f hj hf

theorem Ledger.deliver (h : Ledger P frame count delivered) (hk : P k) (hf : frame k = some f) :
    Ledger P (update frame k none) count (f :: delivered) := by
  refine ⟨(h.drop k).slotLt, (h.drop k).inj, fun j g hj hg hmem => ?_, fun g hg => ?_,
    List.nodup_cons.mpr ⟨h.pending k f hk hf, h.nodup⟩⟩
  · obtain ⟨hjk, hg⟩ := update_none_sub frame k j g hg
    rcases List.mem_cons.mp hmem with rfl | hmem
    · exact hjk (h.inj j k g hj hk hg hf)
    · exact h.pending j g hj hg hmem
  · rcases List.mem_cons.mp hg with rfl | hg
    · exact h.slotLt k g hk hf
    · exact h.deliveredLt g hg

end Ledger

end RtemsLibbsd.ReceiveRing

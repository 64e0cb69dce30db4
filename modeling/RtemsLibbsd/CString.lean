import Mathlib.Data.List.DropRight
import Mathlib.Data.List.TakeWhile
import Mathlib.Tactic.Basic

/-!
# Strings in memory

An object of characters that a program edits in place, and the functions of the C library on the
strings in it.

* `Memory` — the characters of one object; an address is an offset in it.  An access outside of the
  object has no result.
* `str` — the string at an address.  A string is placed if the memory is `pre ++ (s ++ nul :: post)`
  where `pre` ends at its address and `s` has no terminator in it; each function has an equation for
  a placed string.
* `CStr` — a string that has no terminator in it.
-/

namespace RtemsLibbsd.CString

open Option

open List

def nul : Char := Char.ofNat 0

/-- `isspace` of the C locale. -/
def isspace (c : Char) : Bool := c.toNat = 32 || (9 ≤ c.toNat && c.toNat ≤ 13)

abbrev Memory := List Char

structure CStr where
  chars : List Char
  clean : nul ∉ chars

def CStr.memory (s : CStr) : Memory := s.chars ++ [nul]

section Functions

variable (m : Memory) (p : Nat)

def load : Option Char := m[p]?

def store (c : Char) : Option Memory := if p < m.length then some (m.set p c) else none

/-- The string at `p`, or what is there up to the end of the object. -/
def str : List Char := (m.drop p).takeWhile (· ≠ nul)

def strlen : Option Nat := if p + (str m p).length < m.length then some (str m p).length else none

/-- `strchr`; the address of the character if there is one. -/
def strchr (c : Char) : Option (Option Nat) :=
  match (str m p).findIdx? (· = c) with
  | some i => some (some (p + i))
  | none => (strlen m p).map fun _ => none

def strrchr (c : Char) : Option (Option Nat) :=
  (strlen m p).map fun n => ((str m p).reverse.findIdx? (· = c)).map fun i => p + (n - 1 - i)

/-- `strlcpy` to the object, with its size. -/
def strlcpy (s : List Char) : Memory :=
  let s := s.take (m.length - 1)
  s ++ nul :: m.drop (s.length + 1)

def memmove (dst src n : Nat) : Option Memory :=
  if dst + n ≤ m.length ∧ src + n ≤ m.length then
    some (m.take dst ++ ((m.drop src).take n ++ m.drop (dst + n)))
  else none

/-- `memcpy` of characters that are in another object. -/
def memcpy (dst : Nat) (s : List Char) : Option Memory :=
  if dst + s.length ≤ m.length then some (m.take dst ++ (s ++ m.drop (dst + s.length))) else none

/-- `strtok_r` from `p` on, for delimiters that are not the terminator: the memory and the address of
    the token, with the address where the next call starts or a null pointer. -/
def strtokR (delim : Char → Bool) : Option (Memory × Option (Nat × Option Nat)) := do
  let start := p + ((m.drop p).takeWhile delim).length
  let c ← load m start
  if c = nul then some (m, none)
  else
    let stop := start + ((m.drop start).takeWhile fun c => !delim c && c ≠ nul).length
    let c ← load m stop
    if c = nul then some (m, some (start, none))
    else
      let m ← store m stop nul
      some (m, some (start, some (stop + 1)))

end Functions

@[simp] theorem isspace_nul : isspace nul = false := by decide

theorem nul_not_mem_of_subset {s t : List Char} (h : nul ∉ t) (hs : s ⊆ t) : nul ∉ s := fun hn => h (hs hn)

section Placed

variable {pre s post : List Char}

theorem drop_length_append : (pre ++ post).drop pre.length = post := by
  simp

@[simp] theorem str_placed (hs : nul ∉ s) : str (pre ++ (s ++ nul :: post)) pre.length = s := by
  unfold str
  rw [drop_length_append, takeWhile_append_of_pos]
  · simp
  · intro c hc
    have hne : c ≠ nul := by
      rintro rfl
      exact hs hc
    simpa using hne

@[simp] theorem strlen_placed (hs : nul ∉ s) : strlen (pre ++ (s ++ nul :: post)) pre.length = some s.length := by
  unfold strlen
  rw [str_placed hs, if_pos]
  simp only [length_append, length_cons]
  omega

theorem load_placed (c : Char) : load (pre ++ c :: post) pre.length = some c := by
  unfold load
  rw [getElem?_append_right (Nat.le_refl _), Nat.sub_self]
  rfl

theorem store_placed (c d : Char) : store (pre ++ c :: post) pre.length d = some (pre ++ d :: post) := by
  unfold store
  rw [if_pos (by simp), set_append_right _ _ (Nat.le_refl _), Nat.sub_self]
  rfl

variable {c : Char}

theorem strchr_placed_of_mem {t : List Char} (hs : nul ∉ s) (ht : nul ∉ t) (hc : c ∉ s)
    (hcn : c ≠ nul) :
    strchr (pre ++ (s ++ c :: (t ++ nul :: post))) pre.length c = some (some (pre.length + s.length)) := by
  grind [strchr, str_placed]

theorem strchr_placed_of_not_mem (hs : nul ∉ s) (hc : c ∉ s) :
    strchr (pre ++ (s ++ nul :: post)) pre.length c = some none := by
  grind [strchr, str_placed, strlen_placed]

theorem strrchr_placed_of_mem {t : List Char} (hs : nul ∉ s) (ht : nul ∉ t) (hc : c ∉ t)
    (hcn : c ≠ nul) :
    strrchr (pre ++ (s ++ c :: (t ++ nul :: post))) pre.length c = some (some (pre.length + s.length)) := by
  have hclean : nul ∉ s ++ c :: t := by
    simp only [mem_append, mem_cons, not_or]
    exact ⟨hs, hcn.symm, ht⟩
  have hshape : pre ++ (s ++ c :: (t ++ nul :: post)) = pre ++ ((s ++ c :: t) ++ nul :: post) := by simp
  have hfind : (s ++ c :: t).reverse.findIdx? (fun x => decide (x = c)) = some t.length := by
    grind
  unfold strrchr
  rw [hshape, strlen_placed hclean, str_placed hclean, hfind]
  simp only [map_some, length_append, length_cons]
  congr 3
  omega

theorem store_eq_memcpy (m : Memory) (p : Nat) (c : Char) : store m p c = memcpy m p [c] := by
  unfold store memcpy
  by_cases hp : p < m.length
  · have hfit : p + [c].length ≤ m.length := hp
    rw [if_pos hp, if_pos hfit, set_eq_take_append_cons_drop, if_pos hp]
    rfl
  · have hfit : ¬ p + [c].length ≤ m.length := hp
    rw [if_neg hp, if_neg hfit]

theorem memcpy_memcpy (m : Memory) (p : Nat) (s t : List Char) :
    (memcpy m p s).bind (fun m => memcpy m (p + s.length) t) = memcpy m p (s ++ t) := by
  unfold memcpy
  by_cases hs : p + s.length ≤ m.length
  · have hlen : (m.take p ++ (s ++ m.drop (p + s.length))).length = m.length := by
      simp only [length_append, length_take, length_drop]
      omega
    have htake : (m.take p ++ (s ++ m.drop (p + s.length))).take (p + s.length) = m.take p ++ s := by
      rw [← append_assoc, take_left']
      rw [length_append, length_take, Nat.min_eq_left (by omega)]
    have hdrop : (m.take p ++ (s ++ m.drop (p + s.length))).drop (p + s.length + t.length) =
        m.drop (p + (s ++ t).length) := by
      rw [← append_assoc, ← drop_drop, drop_left', drop_drop, length_append,
        Nat.add_assoc]
      rw [length_append, length_take, Nat.min_eq_left (by omega)]
    rw [if_pos hs, bind_some, hlen, htake, hdrop, length_append, Nat.add_assoc]
    by_cases ht : p + (s.length + t.length) ≤ m.length
    · simp
    · simp
  · rw [if_neg hs, bind_none, if_neg]
    rw [length_append]
    omega

variable {m : Memory}

theorem memcpy_then {p q : Nat} {s t : List Char} (hq : q = p + s.length) :
    (memcpy m p s).bind (fun m => memcpy m q t) = memcpy m p (s ++ t) := by
  rw [hq, memcpy_memcpy]

theorem memcpy_zero (m : Memory) (s : List Char) :
    memcpy m 0 s = if s.length ≤ m.length then some (s ++ m.drop s.length) else none := by
  unfold memcpy
  simp

def Holds (m : Memory) (s : List Char) : Prop := strlen m 0 = some s.length ∧ str m 0 = s

theorem holds_placed (hs : nul ∉ s) : Holds (s ++ nul :: post) s :=
  ⟨@strlen_placed [] s post hs, @str_placed [] s post hs⟩

theorem Holds.unique {s t : List Char} (hs : Holds m s) (ht : Holds m t) : s = t :=
  hs.2.symm.trans ht.2

theorem strlcpy_holds (hs : nul ∉ s) (hm : m ≠ []) :
    Holds (strlcpy m s) s ↔ s.length < m.length := by
  have hpos : 0 < m.length := length_pos_iff.mpr hm
  have htake : nul ∉ s.take (m.length - 1) := fun h => hs (mem_of_mem_take h)
  have hcopy : Holds (strlcpy m s) (s.take (m.length - 1)) := holds_placed htake
  constructor
  · intro h
    have hlen := congrArg List.length (h.unique hcopy)
    rw [length_take] at hlen
    omega
  · intro h
    rw [take_of_length_le (by omega)] at hcopy
    exact hcopy

theorem memmove_left (c : Char) :
    memmove (pre ++ (c :: s ++ nul :: post)) pre.length (pre.length + 1) (s.length + 1) =
      some (pre ++ (s ++ nul :: nul :: post)) := by
  have hsrc : pre ++ (c :: s ++ nul :: post) = (pre ++ [c]) ++ (s ++ nul :: post) := by simp
  have hdst : pre ++ (c :: s ++ nul :: post) = (pre ++ c :: s) ++ nul :: post := by simp
  have hlen : pre.length + 1 = (pre ++ [c]).length := by simp
  have hlen' : pre.length + (s.length + 1) = (pre ++ c :: s).length := by simp
  have hmoved : s ++ nul :: post = (s ++ [nul]) ++ post := by simp
  unfold memmove
  rw [if_pos]
  · rw [take_left, hlen', hdst, drop_length_append, ← hdst, hsrc, hlen, drop_length_append, hmoved,
      take_left' (by simp)]
    simp
  · simp only [length_append, length_cons]
    omega

section Tokens

variable {delim : Char → Bool} {lead tok : List Char}

theorem takeWhile_run {p : Char → Bool} {w : List Char} {d : Char} (hw : ∀ c ∈ w, p c) (hd : p d = false) :
    (w ++ d :: post).takeWhile p = w := by
  rw [takeWhile_append_of_pos hw]
  simp [hd]

theorem strtokR_blank (hdelim : delim nul = false) (hlead : ∀ c ∈ lead, delim c) :
    strtokR (pre ++ (lead ++ nul :: post)) pre.length delim = some (pre ++ (lead ++ nul :: post), none) := by
  have hload : load ((pre ++ lead) ++ nul :: post) (pre ++ lead).length = some nul := load_placed nul
  rw [length_append, append_assoc] at hload
  unfold strtokR
  simp only [bind_eq_bind]
  simp [takeWhile_run hlead hdelim, hload]

theorem strtokR_token (hlead : ∀ c ∈ lead, delim c) (htok : ∀ c ∈ tok, delim c = false) (hclean : nul ∉ tok)
    (hne : tok ≠ []) {d : Char} (hd : delim d = true ∨ d = nul) :
    strtokR (pre ++ (lead ++ (tok ++ d :: post))) pre.length delim =
      some (pre ++ (lead ++ (tok ++ nul :: post)), some (pre.length + lead.length,
        if d = nul then none else some (pre.length + lead.length + tok.length + 1))) := by
  obtain ⟨c, tok', rfl⟩ := exists_cons_of_ne_nil hne
  have hc : delim c = false := htok c mem_cons_self
  have hcn : c ≠ nul := by
    rintro rfl
    exact hclean mem_cons_self
  have hstart : load ((pre ++ lead) ++ c :: (tok' ++ d :: post)) (pre ++ lead).length = some c := load_placed c
  have hload : load ((pre ++ (lead ++ c :: tok')) ++ d :: post) (pre ++ (lead ++ c :: tok')).length = some d :=
    load_placed d
  have hstore : store ((pre ++ (lead ++ c :: tok')) ++ d :: post) (pre ++ (lead ++ c :: tok')).length nul =
      some ((pre ++ (lead ++ c :: tok')) ++ nul :: post) := store_placed d nul
  have hdrop : ((pre ++ lead) ++ (c :: tok' ++ d :: post)).drop (pre ++ lead).length = c :: tok' ++ d :: post :=
    drop_length_append
  have hrun : (c :: tok' ++ d :: post).takeWhile (fun c => !delim c && decide (c ≠ nul)) = c :: tok' := by
    apply takeWhile_run
    · intro x hx
      grind
    · rcases hd with hd | hd <;> simp [hd]
  simp only [length_append, append_assoc, cons_append, length_cons] at hstart hload hstore hdrop hrun
  unfold strtokR
  simp only [bind_eq_bind]
  rw [drop_length_append, cons_append, takeWhile_run hlead hc, hstart, bind_some, if_neg hcn, hdrop,
    hrun, length_cons, Nat.add_assoc, hload, bind_some]
  by_cases hdn : d = nul
  · simp [hdn]
  · rw [if_neg hdn, if_neg hdn, hstore, bind_some]
    simp

end Tokens

end Placed

end RtemsLibbsd.CString

import RtemsLibbsd.Program

/-!
# The heap blocks of a program

Model of `rtems_bsd_program_malloc`, `calloc`, `realloc`, `reallocf`, `strdup` and `strndup` of `rtems-program.c`,
with the bytes of the blocks.

* `Allocated` — a block that the program has, and how many bytes of it were asked for.
* `rtemsBsdProgramAlloc` of a block: the bytes that `realloc` gives, and the tracking item behind the rounded size.
  An access outside of a block or of a string is `invalid`.
* `Served` — what is said of a block that is returned.

The sizes of `Program.lean` wrap, and `strndup` copies one character more than it counts, in the belief that it is the
NUL: **`served_iff`**.
-/

namespace RtemsLibbsd.Program

structure Allocated where
  bytes : List UInt8
  size : Nat
  size_le : size ≤ bytes.length

/-- A block that is returned: its bytes, and where the tracking item is. -/
structure Block where
  bytes : List UInt8
  item : Nat

inductive Outcome where
  /-- `NULL`; whether the block that was given is freed. -/
  | null (freed : Bool)
  | invalid
  | block (b : Block)

def write (bytes : List UInt8) (off : Nat) (data : List UInt8) : Option (List UInt8) :=
  if off + data.length ≤ bytes.length then some (bytes.take off ++ (data ++ bytes.drop (off + data.length))) else none

def Outcome.fill (data : List UInt8) : Outcome → Outcome
  | .block b =>
    match write b.bytes 0 data with
    | none => .invalid
    | some bytes => .block ⟨bytes, b.item⟩
  | o => o

/-- `memcpy` to the block. -/
def Outcome.memcpy (s : List UInt8) (size : Nat) (o : Outcome) : Outcome :=
  match o with
  | .block b => if size ≤ s.length then Outcome.fill (s.take size) (.block b) else .invalid
  | o => o

def strnlen : List UInt8 → Nat → Nat
  | [], _ => 0
  | _ :: _, 0 => 0
  | c :: s, n + 1 => if c = 0 then 0 else strnlen s n + 1

def strlen (s : List UInt8) : Nat := strnlen s s.length

/-- A call of the program.  What is given to it are the bytes from the pointer to the end of the object. -/
inductive Request where
  | malloc (size : Nat)
  | calloc (nelem elsize : Nat)
  | realloc (ptr : Option Allocated) (size : Nat)
  | reallocf (ptr : Option Allocated) (size : Nat)
  | strdup (s : List UInt8) (hs : 0 ∈ s)
  | strndup (s : List UInt8) (size : Nat) (hs : 0 ∈ s ∨ size ≤ s.length)

/-- `realloc` of the C library. -/
abbrev Realloc := Option (List UInt8) → Nat → Option (List UInt8)

structure Documented (realloc : Realloc) : Prop where
  length_eq : ∀ org n bytes, realloc org n = some bytes → bytes.length = n
  keeps : ∀ old n bytes, realloc (some old) n = some bytes →
    bytes.take (min old.length n) = old.take (min old.length n)

section Calls

variable (k w : Nat) (ctrl : Bool) (realloc : Realloc) (item : List UInt8)

/-- `rtems_bsd_program_alloc`; `ctrl` says whether there is a program, `item` is what the tracking item has. -/
def allocBlock (size : Nat) (orgPtr : Option Allocated) : Outcome :=
  if ctrl then
    match realloc (orgPtr.map Allocated.bytes) (sizeWithList k w size) with
    | none => .null false
    | some bytes =>
      match write bytes (sizeAlligned k w size) item with
      | none => .invalid
      | some bytes => .block ⟨bytes, sizeAlligned k w size⟩
  else .null false

def callocBlock (nelem elsize : Nat) : Outcome :=
  let size := elsize * nelem % 2 ^ w
  (allocBlock k w ctrl realloc item size none).fill (List.replicate size 0)

def reallocfBlock (ptr : Option Allocated) (size : Nat) : Outcome :=
  match allocBlock k w ctrl realloc item size ptr with
  | .null _ => .null ptr.isSome
  | o => o

def strdupBlock (s : List UInt8) : Outcome :=
  let size := (strlen s + 1) % 2 ^ w
  (allocBlock k w ctrl realloc item size none).memcpy s size

def strndupBlock (s : List UInt8) (size : Nat) : Outcome :=
  let size := (strnlen s size + 1) % 2 ^ w
  (allocBlock k w ctrl realloc item size none).memcpy s size

def Request.exec : Request → Outcome
  | .malloc size => allocBlock k w ctrl realloc item size none
  | .calloc nelem elsize => callocBlock k w ctrl realloc item nelem elsize
  | .realloc ptr size => allocBlock k w ctrl realloc item size ptr
  | .reallocf ptr size => reallocfBlock k w ctrl realloc item ptr size
  | .strdup s _ => strdupBlock k w ctrl realloc item s
  | .strndup s size _ => strndupBlock k w ctrl realloc item s size

end Calls

def Request.requested : Request → Nat
  | .malloc size => size
  | .calloc nelem elsize => nelem * elsize
  | .realloc _ size => size
  | .reallocf _ size => size
  | .strdup s _ => strlen s + 1
  | .strndup s size _ => strnlen s size + 1

def keptContent (ptr : Option Allocated) (size : Nat) (bytes : List UInt8) : Prop :=
  ∀ a ∈ ptr, bytes.take (min a.size size) = a.bytes.take (min a.size size)

def Request.Content (bytes : List UInt8) : Request → Prop
  | .malloc _ => True
  | .calloc nelem elsize => bytes.take (nelem * elsize) = List.replicate (nelem * elsize) 0
  | .realloc ptr size => keptContent ptr size bytes
  | .reallocf ptr size => keptContent ptr size bytes
  | .strdup s _ => bytes.take (strlen s + 1) = s.take (strlen s) ++ [0]
  | .strndup s size _ => bytes.take (strnlen s size + 1) = s.take (strnlen s size) ++ [0]

structure ServedBlock (item : List UInt8) (r : Request) (b : Block) : Prop where
  usable : r.requested ≤ b.item
  inside : b.item + item.length ≤ b.bytes.length
  tracked : (b.bytes.drop b.item).take item.length = item
  content : r.Content b.bytes

/-- What is said of the outcome of a call: a pointer is one to such a block. -/
def Outcome.Good (item : List UInt8) (r : Request) : Outcome → Prop
  | .null _ => True
  | .invalid => False
  | .block b => ServedBlock item r b

/-- Whatever the C library answers, a pointer that is returned is one to such a block. -/
def Served (k w : Nat) (r : Request) : Prop :=
  ∀ ctrl realloc item, Documented realloc → item.length = allocmemItemSize k →
    (r.exec k w ctrl realloc item).Good item r

/-- The string that is copied ends where `strndup` stops to count, or before. -/
def Request.Ends : Request → Prop
  | .strndup s size _ => 0 ∈ s.take (size + 1)
  | _ => True

section Sizes

variable {k w : Nat}

theorem sizeAlligned_lt_of_wrap {size : Nat} (h : 2 ^ w ≤ roundUp k size) (hs : size < 2 ^ w) :
    sizeAlligned k w size < size := by
  have hmod : size % 2 ^ k ≠ 0 := by
    intro hmod
    rw [roundUp_of_aligned hmod] at h
    omega
  have hpos : 0 < size := by
    by_contra h0
    rw [Nat.eq_zero_of_not_pos h0, Nat.zero_mod] at hmod
    exact hmod rfl
  have hup : roundUp k size = (size / 2 ^ k + 1) * 2 ^ k := by
    simp [roundUp_of_unaligned hmod, Nat.add_mul]
  unfold sizeAlligned
  rw [Nat.and_two_pow_sub_one_eq_mod, if_pos hmod]
  have hmask : (size ||| (2 ^ k - 1)) + 1 = roundUp k size := by
    grind [Masks.or_mask]
  rw [hmask]
  -- what the size is rounded up to is the first multiple of the pointer size that is too large
  have hzero : roundUp k size % 2 ^ w = 0 := by
    rcases Nat.le_total k w with hkw | hkw
    · have hdvd : 2 ^ w = 2 ^ (w - k) * 2 ^ k := by rw [← Nat.pow_add, Nat.sub_add_cancel hkw]
      have hle : size / 2 ^ k + 1 ≤ 2 ^ (w - k) := by
        have : size / 2 ^ k < 2 ^ (w - k) := Nat.div_lt_of_lt_mul (by rw [Nat.mul_comm, ← hdvd]; exact hs)
        omega
      grind [Nat.le_of_mul_le_mul_right, Nat.le_antisymm, Nat.mod_self]
    · exact Nat.mod_eq_zero_of_dvd (Dvd.dvd.mul_left (Nat.pow_dvd_pow 2 hkw) _)
  rw [hzero]
  exact hpos

/-- **There is room for the size and the item exactly when nothing wraps**, be the size reduced or not. -/
theorem room_iff {size size' : Nat} (h : size' = size ∨ size' = size % 2 ^ w) :
    size ≤ sizeAlligned k w size' ∧ sizeAlligned k w size' + allocmemItemSize k ≤ sizeWithList k w size' ↔
      roundUp k size + allocmemItemSize k < 2 ^ w := by
  have hlist : sizeWithList k w size' < 2 ^ w := Nat.mod_lt _ (Nat.two_pow_pos w)
  have hle := le_roundUp k size
  constructor
  · rintro ⟨hsize, hroom⟩
    have hs : size < 2 ^ w := by omega
    obtain rfl : size' = size := h.elim id fun h => h.trans (Nat.mod_eq_of_lt hs)
    have hup : roundUp k size' < 2 ^ w := by
      by_contra hup
      have := sizeAlligned_lt_of_wrap (Nat.le_of_not_lt hup) hs
      omega
    rw [← sizeAlligned_eq hup]
    omega
  · intro hfit
    obtain rfl : size' = size := h.elim id fun h => h.trans (Nat.mod_eq_of_lt (by omega))
    obtain ⟨hlist, hsize⟩ := sizes_of_fits hfit
    exact ⟨hsize, Nat.le_of_eq hlist.symm⟩

end Sizes

section Strings

theorem strnlen_le (s : List UInt8) (n : Nat) : strnlen s n ≤ n := by
  induction s generalizing n with
  | nil => exact Nat.zero_le n
  | cons c s ih =>
    cases n with
    | zero => exact Nat.le_refl 0
    | succ n =>
      unfold strnlen
      split
      · exact Nat.zero_le _
      · exact Nat.succ_le_succ (ih n)

theorem zero_not_mem_take_strnlen (s : List UInt8) (n : Nat) : 0 ∉ s.take (strnlen s n) := by
  induction s generalizing n with
  | nil => simp
  | cons c s ih =>
    cases n with
    | zero => simp [strnlen]
    | succ n =>
      unfold strnlen
      grind

theorem strnlen_stops (s : List UInt8) (n : Nat) :
    s[strnlen s n]? = some 0 ∨ strnlen s n = n ∨ strnlen s n = s.length ∧ 0 ∉ s := by
  induction s generalizing n with
  | nil => exact .inr (.inr ⟨rfl, List.not_mem_nil⟩)
  | cons c s ih =>
    cases n with
    | zero => exact .inr (.inl rfl)
    | succ n =>
      unfold strnlen
      grind

theorem getElem_strnlen_iff {s : List UInt8} {n : Nat} :
    s[strnlen s n]? = some 0 ↔ 0 ∈ s.take (n + 1) := by
  constructor
  · intro h
    have hle := strnlen_le s n
    have : (s.take (n + 1))[strnlen s n]? = some 0 := by rw [List.getElem?_take_of_lt (by omega), h]
    exact List.mem_of_getElem? this
  · intro h
    grind [strnlen_stops, zero_not_mem_take_strnlen, List.take_add_one]

theorem getElem_strlen {s : List UInt8} (hs : 0 ∈ s) : s[strlen s]? = some 0 := by
  unfold strlen
  rw [getElem_strnlen_iff, List.take_of_length_le (Nat.le_succ _)]
  exact hs

theorem take_succ_eq_iff {s : List UInt8} {m : Nat} : s.take (m + 1) = s.take m ++ [0] ↔ s[m]? = some 0 := by
  rw [List.take_add_one, List.append_cancel_left_eq]
  cases s[m]? <;> simp

end Strings

section Writes

theorem write_eq_some {bytes bytes' data : List UInt8} {off : Nat} (h : write bytes off data = some bytes') :
    off + data.length ≤ bytes.length ∧ bytes' = bytes.take off ++ (data ++ bytes.drop (off + data.length)) := by
  unfold write at h
  split at h
  · rename_i hle
    cases h
    exact ⟨hle, rfl⟩
  · cases h

theorem write_valid {bytes data : List UInt8} {off : Nat} (h : off + data.length ≤ bytes.length) :
    ∃ bytes', write bytes off data = some bytes' :=
  ⟨_, if_pos h⟩

theorem write_length {bytes bytes' data : List UInt8} {off : Nat} (h : write bytes off data = some bytes') :
    bytes'.length = bytes.length := by
  obtain ⟨hle, rfl⟩ := write_eq_some h
  simp only [List.length_append, List.length_take, List.length_drop]
  omega

theorem drop_take_write {bytes bytes' data : List UInt8} {off : Nat} (h : write bytes off data = some bytes') :
    (bytes'.drop off).take data.length = data := by
  obtain ⟨hle, rfl⟩ := write_eq_some h
  grind

theorem take_write {bytes bytes' data : List UInt8} {off n : Nat} (h : write bytes off data = some bytes')
    (hn : n ≤ off) : bytes'.take n = bytes.take n := by
  obtain ⟨hle, rfl⟩ := write_eq_some h
  have hlen : n ≤ (bytes.take off).length := by rw [List.length_take]; omega
  rw [List.take_append_of_le_length hlen, List.take_take, Nat.min_eq_left hn]

theorem drop_write {bytes bytes' data : List UInt8} {off n : Nat} (h : write bytes off data = some bytes')
    (hn : off + data.length ≤ n) : bytes'.drop n = bytes.drop n := by
  obtain ⟨hle, rfl⟩ := write_eq_some h
  have hlen : (bytes.take off ++ data).length = off + data.length := by
    rw [List.length_append, List.length_take]; omega
  rw [← List.append_assoc, List.drop_append, List.drop_of_length_le (by omega), List.nil_append, List.drop_drop, hlen]
  congr 1
  omega

end Writes

section Calls

variable {k w : Nat} {ctrl : Bool} {realloc : Realloc} {item : List UInt8}

/-- The block of `rtems_bsd_program_alloc`. -/
structure Placed (k w : Nat) (item : List UInt8) (size : Nat) (b : Block) : Prop where
  item_eq : b.item = sizeAlligned k w size
  length_eq : b.bytes.length = sizeWithList k w size
  inside : b.item + item.length ≤ b.bytes.length

theorem allocBlock_placed (hr : Documented realloc) {size : Nat} {orgPtr : Option Allocated} {b : Block}
    (h : allocBlock k w ctrl realloc item size orgPtr = .block b) :
    Placed k w item size b ∧ (b.bytes.drop b.item).take item.length = item ∧
      ∃ bytes, realloc (orgPtr.map Allocated.bytes) (sizeWithList k w size) = some bytes ∧
        ∀ n ≤ b.item, b.bytes.take n = bytes.take n := by
  unfold allocBlock at h
  cases ctrl with
  | false => cases h
  | true =>
    rw [if_pos rfl] at h
    cases hre : realloc (orgPtr.map Allocated.bytes) (sizeWithList k w size) with
    | none => rw [hre] at h; cases h
    | some bytes =>
      rw [hre] at h
      simp only at h
      split at h
      · cases h
      · rename_i bytes' hw
        cases h
        have hlen : bytes'.length = sizeWithList k w size :=
          (write_length hw).trans (hr.length_eq _ _ _ hre)
        refine ⟨⟨rfl, hlen, ?_⟩, drop_take_write hw, bytes, rfl, fun n hn => take_write hw hn⟩
        rw [write_length hw]
        exact (write_eq_some hw).1

theorem allocBlock_valid (hr : Documented realloc) {size : Nat} {orgPtr : Option Allocated}
    (hroom : sizeAlligned k w size + item.length ≤ sizeWithList k w size) :
    (∃ freed, allocBlock k w ctrl realloc item size orgPtr = .null freed) ∨
      ∃ b, allocBlock k w ctrl realloc item size orgPtr = .block b := by
  unfold allocBlock
  cases ctrl with
  | false => exact .inl ⟨false, rfl⟩
  | true =>
    rw [if_pos rfl]
    cases hre : realloc (orgPtr.map Allocated.bytes) (sizeWithList k w size) with
    | none => exact .inl ⟨false, rfl⟩
    | some bytes =>
      obtain ⟨bytes', hw⟩ := write_valid
        (hr.length_eq _ _ _ hre ▸ hroom)
      exact .inr ⟨⟨bytes', sizeAlligned k w size⟩, by simp only [hw]⟩

theorem fill_block {data : List UInt8} {o : Outcome} {b : Block} (h : o.fill data = .block b) :
    ∃ b₀, o = .block b₀ ∧ b.item = b₀.item ∧ write b₀.bytes 0 data = some b.bytes := by
  cases o with
  | null f => cases h
  | invalid => cases h
  | block b₀ =>
    unfold Outcome.fill at h
    grind

theorem memcpy_block {s : List UInt8} {size : Nat} {o : Outcome} {b : Block} (h : o.memcpy s size = .block b) :
    size ≤ s.length ∧ o.fill (s.take size) = .block b := by
  cases o with
  | null f => cases h
  | invalid => cases h
  | block b₀ =>
    grind [Outcome.memcpy]

/-- What the call passes to `rtems_bsd_program_alloc`. -/
def Request.size (w : Nat) : Request → Nat
  | .malloc size => size
  | .calloc nelem elsize => elsize * nelem % 2 ^ w
  | .realloc _ size => size
  | .reallocf _ size => size
  | .strdup s _ => (strlen s + 1) % 2 ^ w
  | .strndup s size _ => (strnlen s size + 1) % 2 ^ w

theorem exec_placed (hr : Documented realloc) {r : Request} {b : Block}
    (h : r.exec k w ctrl realloc item = .block b) :
    b.item = sizeAlligned k w (r.size w) ∧ b.bytes.length = sizeWithList k w (r.size w) := by
  have hfill : ∀ {size : Nat} {data : List UInt8},
      (allocBlock k w ctrl realloc item size none).fill data = .block b →
        b.item = sizeAlligned k w size ∧ b.bytes.length = sizeWithList k w size := by
    intro size data hf
    obtain ⟨b₀, h₀, hitem, hw⟩ := fill_block hf
    have hp := (allocBlock_placed hr h₀).1
    exact ⟨hitem.trans hp.item_eq, (write_length hw).trans hp.length_eq⟩
  cases r with
  | malloc size =>
    have hp := (allocBlock_placed hr h).1
    exact ⟨hp.item_eq, hp.length_eq⟩
  | calloc nelem elsize => exact hfill h
  | realloc ptr size =>
    have hp := (allocBlock_placed hr h).1
    exact ⟨hp.item_eq, hp.length_eq⟩
  | reallocf ptr size =>
    change reallocfBlock k w ctrl realloc item ptr size = .block b at h
    unfold reallocfBlock at h
    split at h
    · cases h
    · have hp := (allocBlock_placed hr h).1
      exact ⟨hp.item_eq, hp.length_eq⟩
  | strdup s hs => exact hfill (memcpy_block h).2
  | strndup s size hs => exact hfill (memcpy_block h).2

theorem size_eq (w : Nat) (r : Request) : r.size w = r.requested ∨ r.size w = r.requested % 2 ^ w := by
  cases r with
  | calloc nelem elsize => exact .inr (by rw [Request.size, Request.requested, Nat.mul_comm])
  | malloc _ | realloc _ _ | reallocf _ _ => exact .inl rfl
  | strdup _ _ | strndup _ _ _ => exact .inr rfl

theorem fill_served {size : Nat} {data : List UInt8} {b₀ : Block} (hp : Placed k w item size b₀)
    (htracked : (b₀.bytes.drop b₀.item).take item.length = item) (hdata : data.length ≤ b₀.item) :
    ∃ b, Outcome.fill data (.block b₀) = .block b ∧ b.item = b₀.item ∧ b.bytes.length = b₀.bytes.length ∧
      (b.bytes.drop b.item).take item.length = item ∧ b.bytes.take data.length = data := by
  have hinside := hp.inside
  obtain ⟨bytes, hw⟩ := @write_valid b₀.bytes data 0 (by omega)
  refine ⟨⟨bytes, b₀.item⟩, ?_, rfl, write_length hw, ?_, ?_⟩
  · unfold Outcome.fill
    simp only [hw]
  · simp only
    rw [drop_write hw (by omega)]
    exact htracked
  · simpa using drop_take_write hw

theorem memcpy_served {size : Nat} {s : List UInt8} {b₀ : Block} (hp : Placed k w item size b₀)
    (htracked : (b₀.bytes.drop b₀.item).take item.length = item) {m : Nat} (hm : s[m]? = some 0)
    (hroom : m + 1 ≤ b₀.item) :
    ∃ b, Outcome.memcpy s (m + 1) (.block b₀) = .block b ∧ b.item = b₀.item ∧ b.bytes.length = b₀.bytes.length ∧
      (b.bytes.drop b.item).take item.length = item ∧ b.bytes.take (m + 1) = s.take m ++ [0] := by
  obtain ⟨hlt, -⟩ := List.getElem?_eq_some_iff.mp hm
  have hlen : (s.take (m + 1)).length = m + 1 := by rw [List.length_take]; omega
  obtain ⟨b, hb, hitem, hlength, htr, hcontent⟩ :=
    fill_served hp htracked (show (s.take (m + 1)).length ≤ b₀.item by omega)
  refine ⟨b, ?_, hitem, hlength, htr, ?_⟩
  · unfold Outcome.memcpy
    simp only
    rw [if_pos (by omega)]
    exact hb
  · rw [hlen] at hcontent
    rw [hcontent]
    exact take_succ_eq_iff.mpr hm

theorem allocBlock_cases (hr : Documented realloc) (hitem : item.length = allocmemItemSize k) {size : Nat}
    (hroom : sizeAlligned k w size + allocmemItemSize k ≤ sizeWithList k w size) (ptr : Option Allocated) :
    (∃ freed, allocBlock k w ctrl realloc item size ptr = .null freed) ∨
      ∃ b, allocBlock k w ctrl realloc item size ptr = .block b ∧ Placed k w item size b ∧
        (b.bytes.drop b.item).take item.length = item ∧ ∀ n ≤ b.item, keptContent ptr n b.bytes := by
  rcases allocBlock_valid hr (hitem ▸ hroom) with h | ⟨b, hb⟩
  · exact .inl h
  · obtain ⟨hp, htr, bytes, hre, htake⟩ := allocBlock_placed hr hb
    refine .inr ⟨b, hb, hp, htr, fun n hn a ha => ?_⟩
    cases ha
    have hlist : b.item ≤ sizeWithList k w size := by
      have := hp.inside
      have := hp.length_eq
      omega
    have hold := congrArg (List.take (min a.size n)) (hr.keeps _ _ _ hre)
    grind [a.size_le]

theorem served_of_fits {r : Request} (hfit : roundUp k r.requested + allocmemItemSize k < 2 ^ w) (hends : r.Ends) :
    Served k w r := by
  intro ctrl realloc item hr hitem
  obtain ⟨hsize, hroom⟩ := (room_iff (size_eq w r)).mpr hfit
  have hreq : r.size w = r.requested := by
    have hle := le_roundUp k r.requested
    exact (size_eq w r).elim id fun h => h.trans (Nat.mod_eq_of_lt (by omega))
  rw [hreq] at hsize hroom
  -- the block as `rtems_bsd_program_alloc` leaves it
  have halloc : ∀ ptr : Option Allocated, (∀ bytes, keptContent ptr r.requested bytes → r.Content bytes) →
      ((allocBlock k w ctrl realloc item r.requested ptr).Good item r) := by
    intro ptr hcontent
    rcases allocBlock_cases hr hitem hroom ptr with ⟨freed, h⟩ | ⟨b, h, hp, htr, hkept⟩
    · rw [h]
      trivial
    · rw [h]
      exact ⟨hp.item_eq ▸ hsize, hp.inside, htr, hcontent _ (hkept _ (hp.item_eq ▸ hsize))⟩
  -- the block with a string in it
  have hstring : ∀ (s : List UInt8) (m : Nat), s[m]? = some 0 → m + 1 = r.requested →
      (∀ bytes, bytes.take (m + 1) = s.take m ++ [0] → r.Content bytes) →
      ((allocBlock k w ctrl realloc item r.requested none).memcpy s (m + 1)).Good item r := by
    intro s m hm hmreq hcontent
    rcases allocBlock_cases hr hitem hroom none with ⟨freed, h⟩ | ⟨b₀, h, hp, htr, -⟩
    · rw [h]
      trivial
    · obtain ⟨b, hb, hbitem, hlen, htr, htake⟩ :=
        memcpy_served hp htr hm (by rw [hp.item_eq, hmreq]; exact hsize)
      rw [h, hb]
      refine ⟨?_, ?_, htr, hcontent _ htake⟩
      · rw [hbitem, hp.item_eq]; exact hsize
      · rw [hbitem, hlen]; exact hp.inside
  cases r with
  | malloc size => exact halloc none fun _ _ => trivial
  | calloc nelem elsize =>
    change ((allocBlock k w ctrl realloc item (elsize * nelem % 2 ^ w) none).fill _).Good item _
    rw [show elsize * nelem % 2 ^ w = nelem * elsize from hreq]
    rcases allocBlock_cases hr hitem hroom none with ⟨freed, h⟩ | ⟨b₀, h, hp, htr, -⟩
    · simp only [Request.requested] at h
      rw [h]
      trivial
    · have hlen : (List.replicate (nelem * elsize) (0 : UInt8)).length = nelem * elsize := List.length_replicate
      obtain ⟨b, hb, hbitem, hblen, htr, htake⟩ :=
        fill_served hp htr (by rw [hlen, hp.item_eq]; exact hsize)
      simp only [Request.requested] at h
      rw [h, hb]
      refine ⟨?_, ?_, htr, ?_⟩
      · rw [hbitem, hp.item_eq]; exact hsize
      · rw [hbitem, hblen]; exact hp.inside
      · rw [hlen] at htake; exact htake
  | realloc ptr size => exact halloc ptr fun _ h => h
  | reallocf ptr size =>
    grind [reallocfBlock, Outcome.Good, Request.exec, Request.requested, Request.Content]
  | strdup s hs =>
    change ((allocBlock k w ctrl realloc item ((strlen s + 1) % 2 ^ w) none).memcpy s ((strlen s + 1) % 2 ^ w)).Good _ _
    rw [show (strlen s + 1) % 2 ^ w = strlen s + 1 from hreq]
    exact hstring s (strlen s) (getElem_strlen hs) rfl fun _ h => h
  | strndup s size hs =>
    change ((allocBlock k w ctrl realloc item ((strnlen s size + 1) % 2 ^ w) none).memcpy s
      ((strnlen s size + 1) % 2 ^ w)).Good _ _
    rw [show (strnlen s size + 1) % 2 ^ w = strnlen s size + 1 from hreq]
    exact hstring s (strnlen s size) (getElem_strnlen_iff.mpr hends) rfl fun _ h => h

/-- A `realloc` that always has memory. -/
def ampleRealloc : Realloc := fun org n =>
  let old := (org.getD []).take n
  some (old ++ List.replicate (n - old.length) 0)

theorem ampleRealloc_documented : Documented ampleRealloc := by
  constructor
  · intro org n bytes h
    cases h
    rw [List.length_append, List.length_replicate, List.length_take]
    omega
  · intro old n bytes h
    grind [ampleRealloc]

theorem exec_ample_ne_null (r : Request) (freed : Bool) : r.exec k w true ampleRealloc item ≠ .null freed := by
  have halloc : ∀ (size : Nat) (ptr : Option Allocated) (f : Bool),
      allocBlock k w true ampleRealloc item size ptr ≠ .null f := by
    intro size ptr f h
    unfold allocBlock at h
    rw [if_pos rfl] at h
    unfold ampleRealloc at h
    simp only at h
    split at h <;> cases h
  have hfill : ∀ (data : List UInt8) (o : Outcome), (∀ f, o ≠ .null f) → ∀ f, o.fill data ≠ .null f := by
    intro data o ho f h
    cases o with
    | null g => exact ho g rfl
    | invalid => cases h
    | block b =>
      unfold Outcome.fill at h
      simp only at h
      split at h <;> cases h
  have hcopy : ∀ (s : List UInt8) (size : Nat) (o : Outcome), (∀ f, o ≠ .null f) →
      ∀ f, o.memcpy s size ≠ .null f := by
    intro s size o ho f h
    cases o with
    | null g => exact ho g rfl
    | invalid => cases h
    | block b =>
      grind [Outcome.memcpy]
  cases r with
  | malloc size => exact halloc _ _ freed
  | calloc nelem elsize => exact hfill _ _ (halloc _ _) freed
  | realloc ptr size => exact halloc _ _ freed
  | reallocf ptr size =>
    intro h
    grind [reallocfBlock, Request.exec]
  | strdup s hs => exact hcopy _ _ _ (halloc _ _) freed
  | strndup s size hs => exact hcopy _ _ _ (halloc _ _) freed

theorem strndup_take {s : List UInt8} {size : Nat} {hs : 0 ∈ s ∨ size ≤ s.length} {b : Block}
    (h : (Request.strndup s size hs).exec k w ctrl realloc item = .block b)
    (hmod : (strnlen s size + 1) % 2 ^ w = strnlen s size + 1) :
    b.bytes.take (strnlen s size + 1) = s.take (strnlen s size + 1) := by
  change (allocBlock k w ctrl realloc item ((strnlen s size + 1) % 2 ^ w) none).memcpy s _ = _ at h
  obtain ⟨hle, hfill⟩ := memcpy_block h
  obtain ⟨b₀, -, -, hw⟩ := fill_block hfill
  grind [write]

end Calls

/-- **A pointer that is returned is one to a block as it was asked for exactly when the size, rounded up and with the
item, can be represented, and the string of `strndup` ends where the count stops.** -/
theorem served_iff (k w : Nat) (r : Request) :
    Served k w r ↔ roundUp k r.requested + allocmemItemSize k < 2 ^ w ∧ r.Ends := by
  constructor
  · intro h
    have hgood := h true ampleRealloc (List.replicate (allocmemItemSize k) 0) ampleRealloc_documented
      List.length_replicate
    cases ho : r.exec k w true ampleRealloc (List.replicate (allocmemItemSize k) 0) with
    | null f => exact absurd ho (exec_ample_ne_null r f)
    | invalid => rw [ho] at hgood; exact hgood.elim
    | block b =>
      rw [ho] at hgood
      obtain ⟨hitem, hlen⟩ := exec_placed ampleRealloc_documented ho
      have hinside := hgood.inside
      rw [List.length_replicate, hitem, hlen] at hinside
      have hfit := (room_iff (size_eq w r)).mp ⟨hitem ▸ hgood.usable, hinside⟩
      refine ⟨hfit, ?_⟩
      cases r with
      | strndup s size hs =>
        have hle := le_roundUp k (Request.strndup s size hs).requested
        have htake := strndup_take ho (Nat.mod_eq_of_lt (by
          grind [Request.requested]))
        exact getElem_strnlen_iff.mp (take_succ_eq_iff.mp (htake.symm.trans hgood.content))
      | malloc _ | calloc _ _ | realloc _ _ | reallocf _ _ | strdup _ _ => trivial
  · rintro ⟨hfit, hends⟩
    exact served_of_fits hfit hends

/-- The first character of a string of two is copied without a NUL, and a size that cannot be represented gives a
block for nothing but the item. -/
theorem not_served_examples :
    ¬ Served 3 64 (.strndup [97, 98, 0] 1 (.inl (by decide))) ∧ ¬ Served 3 64 (.calloc (2 ^ 32) (2 ^ 32)) ∧
      ¬ Served 3 64 (.malloc (2 ^ 64 - 1)) := by
  have hitem : (List.replicate 24 (0 : UInt8)).length = allocmemItemSize 3 := rfl
  refine ⟨fun h => ?_, fun h => ?_, fun h => ?_⟩
  · have hgood := h true ampleRealloc _ ampleRealloc_documented hitem
    have hcontent : (97 :: 98 :: List.replicate 30 0).take 2 = [97, (0 : UInt8)] := hgood.content
    exact absurd hcontent (by decide)
  · have hgood := h true ampleRealloc _ ampleRealloc_documented hitem
    exact absurd hgood.usable (by decide)
  · have hgood := h true ampleRealloc _ ampleRealloc_documented hitem
    exact absurd hgood.usable (by decide)

end RtemsLibbsd.Program

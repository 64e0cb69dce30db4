import RtemsLibbsd.Mdns

/-!
# One look-up by multicast DNS

What a call of `mdns_gethostbyname` returns, asks and writes, for any name, buffer and answers.

* `Lookup` — the arguments, the machine, the answers in the order of their callbacks, and whether an event of an
  earlier call is pending.
* `mdnsGethostbyname` — the result, whether a query is sent, and the bytes that are written to the buffer.
* `Meets` — the address is one of the requested family, only local names are asked for, and the buffer suffices.

The name test compares no label and the query is for IPv4 addresses only: **`lookup_meets_iff`** says which calls are right.
-/

namespace RtemsLibbsd.Mdns

open List

structure Answer extends ResourceRecord where
  size : NS_IN6ADDRSZ ≤ rdata.length

structure Lookup where
  name : List Char
  af : Nat
  buffer : Nat
  buflen : Nat
  /-- The size of a pointer, and `ALIGNBYTES + 1`. -/
  ptr : Nat
  unit : Nat
  unit_pos : 0 < unit
  /-- `MakeDomainNameFromDNSNameString` succeeds. -/
  qname : Bool
  pending : Bool
  /-- The answers until the task is woken up or has waited ten seconds. -/
  early : List Answer
  late : List Answer

/-- `ALIGN`. -/
def align (unit x : Nat) : Nat := (x + (unit - 1)) / unit * unit

def hLength (af : Nat) : Nat := if af = AF_INET then NS_INADDRSZ else NS_IN6ADDRSZ

def familyType (af : Nat) : Nat := if af = AF_INET then kDNSType_A else kDNSType_AAAA

structure Outcome where
  result : Result
  queried : Bool
  writes : List (Nat × Nat)

namespace Lookup

variable (c : Lookup)

def len : Nat :=
  align c.unit c.buffer - c.buffer + 3 * c.ptr + align c.unit (hLength c.af) + (c.name.length + 1)

def args : Args := ⟨c.name, c.af, decide (c.len ≤ c.buflen), c.qname⟩

def address : Nat := align c.unit c.buffer + 3 * c.ptr

/-- `h_aliases[0]`, the two pointers of `h_addr_list`, and the name. -/
def layout : List (Nat × Nat) :=
  [(align c.unit c.buffer, c.ptr), (align c.unit c.buffer + c.ptr, c.ptr), (align c.unit c.buffer + 2 * c.ptr, c.ptr),
    (c.address + align c.unit (hLength c.af), c.name.length + 1)]

/-- The addresses that the callback stores: `ctx.rrtype` is `kDNSType_A`. -/
def stored (as : List Answer) : List (List UInt8) := as.filterMap fun a => copyAddr kDNSType_A a.toResourceRecord

def mdnsGethostbyname : Outcome :=
  match checkArgs c.args with
  | some res =>
    ⟨res, false, if isLocalName c.name ∧ (c.af = AF_INET ∨ c.af = AF_INET6) ∧ c.len ≤ c.buflen then c.layout else []⟩
  | none =>
    let addrs := stored (c.early ++ c.late)
    ⟨if c.pending ∨ stored c.early ≠ [] then ⟨.success, none, addrs.getLast?⟩ else ⟨.notFound, some .etimedout, none⟩,
      true, c.layout ++ addrs.map fun a => (c.address, a.length)⟩

/-- The characters behind the last dot; a dot at the end does not count. -/
def lastLabel (name : List Char) : List Char :=
  ((if name.getLast? = some '.' then name.dropLast else name).reverse.takeWhile (· ≠ '.')).reverse

def Local : Prop := (lastLabel c.name).map Char.toLower = "local".toList

/-- The result, the query, the stores and the error of a short buffer are as they have to be. -/
structure Meets : Prop where
  address : c.mdnsGethostbyname.result.nss = .success → ∃ bytes, c.mdnsGethostbyname.result.addr = some bytes ∧
    bytes.length = hLength c.af ∧
    ∃ a ∈ c.early ++ c.late, a.rrtype = familyType c.af ∧ bytes = a.rdata.take (hLength c.af)
  queries : c.mdnsGethostbyname.queried = true → c.Local
  inside : ∀ w ∈ c.mdnsGethostbyname.writes, c.buffer ≤ w.1 ∧ w.1 + w.2 ≤ c.buffer + c.buflen
  erange : isLocalName c.name = true → c.af = AF_INET ∨ c.af = AF_INET6 → c.buflen < c.len →
    c.mdnsGethostbyname.result.errno = some .erange

def Answered (as : List Answer) : Prop := ∃ a ∈ as, a.rrtype = kDNSType_A

/-- The call is refused; or the name is local, an IPv4 address is asked for, and an event that is pending does not
    stay without an answer; or it is not, and the call fails. -/
def Right : Prop :=
  checkArgs c.args = none → c.Local ∧
    if c.af = AF_INET then c.pending = true → Answered (c.early ++ c.late)
    else c.pending = false ∧ ¬Answered c.early

variable {c}

theorem le_align {unit x : Nat} (h : 0 < unit) : x ≤ align unit x := by
  unfold align
  have hdiv := Nat.div_add_mod (x + (unit - 1)) unit
  have hmod := Nat.mod_lt (x + (unit - 1)) h
  rw [Nat.mul_comm] at hdiv
  omega

theorem copyAddr_A (a : Answer) :
    copyAddr kDNSType_A a.toResourceRecord = if a.rrtype = kDNSType_A then some (a.rdata.take NS_INADDRSZ) else none := by
  unfold copyAddr
  rw [if_neg (c := kDNSType_A = kDNSType_AAAA ∧ _) (by simp [kDNSType_A, kDNSType_AAAA])]
  simp

variable {as : List Answer}

theorem mem_stored {bytes : List UInt8} :
    bytes ∈ stored as ↔ ∃ a ∈ as, a.rrtype = kDNSType_A ∧ bytes = a.rdata.take NS_INADDRSZ := by
  simp only [stored, mem_filterMap, copyAddr_A, Option.ite_none_right_eq_some, Option.some.injEq, @eq_comm _ bytes]

theorem stored_ne_nil : stored as ≠ [] ↔ Answered as := by
  constructor
  · intro h
    obtain ⟨bytes, hb⟩ := exists_mem_of_ne_nil _ h
    obtain ⟨a, ha, ht, -⟩ := mem_stored.mp hb
    exact ⟨a, ha, ht⟩
  · rintro ⟨a, ha, ht⟩
    exact ne_nil_of_mem (mem_stored.mpr ⟨a, ha, ht, rfl⟩)

theorem length_of_mem_stored {bytes : List UInt8} (h : bytes ∈ stored as) :
    bytes.length = NS_INADDRSZ := by
  obtain ⟨a, -, -, rfl⟩ := mem_stored.mp h
  have := a.size
  unfold NS_IN6ADDRSZ at this
  unfold NS_INADDRSZ
  rw [length_take]
  omega

theorem inside_layout (h : c.len ≤ c.buflen) :
    ∀ w ∈ c.layout, c.buffer ≤ w.1 ∧ w.1 + w.2 ≤ c.buffer + c.buflen := by
  have := le_align (x := c.buffer) c.unit_pos
  unfold len at h
  unfold layout Lookup.address
  simp
  omega

theorem len_le_of_checkArgs (h : checkArgs c.args = none) :
    c.len ≤ c.buflen ∧ (c.af = AF_INET ∨ c.af = AF_INET6) := by
  unfold checkArgs args at h
  grind

theorem inside_writes (c : Lookup) :
    ∀ w ∈ c.mdnsGethostbyname.writes, c.buffer ≤ w.1 ∧ w.1 + w.2 ≤ c.buffer + c.buflen := by
  unfold mdnsGethostbyname
  split
  · dsimp only
    split
    · rename_i hfit
      exact inside_layout hfit.2.2
    · exact fun w hw => absurd hw not_mem_nil
  · rename_i hargs
    obtain ⟨hlen, -⟩ := len_le_of_checkArgs hargs
    intro w hw
    rcases mem_append.mp hw with hw | hw
    · exact inside_layout hlen w hw
    · obtain ⟨bytes, hb, rfl⟩ := mem_map.mp hw
      have hbytes := length_of_mem_stored hb
      have hbuf := le_align (x := c.buffer) c.unit_pos
      have haddr := le_align (x := hLength c.af) c.unit_pos
      have hmin : NS_INADDRSZ ≤ hLength c.af := by
        unfold hLength NS_INADDRSZ NS_IN6ADDRSZ
        split <;> omega
      unfold len at hlen
      unfold Lookup.address
      dsimp only
      omega

theorem erange_of_small (hl : isLocalName c.name = true) (haf : c.af = AF_INET ∨ c.af = AF_INET6)
    (hlen : c.buflen < c.len) : c.mdnsGethostbyname.result.errno = some .erange := by
  have hargs : checkArgs c.args = some ⟨.unavail, some .erange, none⟩ := by
    unfold checkArgs args
    grind
  rw [mdnsGethostbyname, hargs]

theorem checkArgs_ne_success {a : Args} {res : Result} (h : checkArgs a = some res) : res.nss ≠ .success := by
  unfold checkArgs at h
  grind

theorem Right.address (h : c.Right) (hs : c.mdnsGethostbyname.result.nss = .success) :
    ∃ bytes, c.mdnsGethostbyname.result.addr = some bytes ∧ bytes.length = hLength c.af ∧
      ∃ a ∈ c.early ++ c.late, a.rrtype = familyType c.af ∧ bytes = a.rdata.take (hLength c.af) := by
  cases hargs : checkArgs c.args with
  | some res =>
    rw [mdnsGethostbyname, hargs] at hs
    exact absurd hs (checkArgs_ne_success hargs)
  | none =>
    obtain ⟨-, hr⟩ := h hargs
    rw [mdnsGethostbyname, hargs] at hs ⊢
    dsimp only at hs ⊢
    split at hs
    · rename_i hok
      rw [if_pos hok]
      by_cases haf : c.af = AF_INET
      · rw [if_pos haf] at hr
        have hne : stored (c.early ++ c.late) ≠ [] := by
          rcases hok with hp | he
          · exact stored_ne_nil.mpr (hr hp)
          · obtain ⟨a, ha, ht⟩ := stored_ne_nil.mp he
            exact stored_ne_nil.mpr ⟨a, mem_append_left _ ha, ht⟩
        have hmem := getLast_mem hne
        obtain ⟨a, ha, ht, hb⟩ := mem_stored.mp hmem
        rw [hLength, familyType, if_pos haf, if_pos haf]
        exact ⟨_, getLast?_eq_some_getLast hne, length_of_mem_stored hmem, a, ha, ht, hb⟩
      · rw [if_neg haf] at hr
        rcases hok with hp | he
        · rw [hr.1] at hp
          cases hp
        · exact absurd (stored_ne_nil.mp he) hr.2
    · cases hs

theorem Meets.right (h : c.Meets) : c.Right := by
  intro hargs
  have hadd := h.address
  have hq := h.queries
  rw [mdnsGethostbyname, hargs] at hadd hq
  dsimp only at hadd hq
  refine ⟨hq rfl, ?_⟩
  have hsucc : c.pending = true ∨ stored c.early ≠ [] →
      ∃ bytes ∈ stored (c.early ++ c.late), bytes.length = hLength c.af := by
    intro hok
    rw [if_pos hok] at hadd
    obtain ⟨bytes, hb, hlen, -⟩ := hadd rfl
    exact ⟨bytes, mem_of_getLast? hb, hlen⟩
  split
  · intro hp
    obtain ⟨bytes, hb, -⟩ := hsucc (.inl hp)
    exact stored_ne_nil.mp (ne_nil_of_mem hb)
  · rename_i haf
    have hno : ¬(c.pending = true ∨ stored c.early ≠ []) := by
      intro hok
      obtain ⟨bytes, hb, hlen⟩ := hsucc hok
      rw [length_of_mem_stored hb, hLength, if_neg haf] at hlen
      cases hlen
    rw [not_or, stored_ne_nil] at hno
    exact ⟨Bool.eq_false_iff.mpr hno.1, hno.2⟩

/-- **The calls that are right**. -/
theorem lookup_meets_iff (c : Lookup) : c.Meets ↔ c.Right := by
  refine ⟨Meets.right, fun h => ⟨h.address, ?_, inside_writes c, erange_of_small⟩⟩
  intro hq
  cases hargs : checkArgs c.args with
  | some res =>
    rw [mdnsGethostbyname, hargs] at hq
    cases hq
  | none => exact (h hargs).1

/-- An IPv6 address of `a.local` is asked for, and a record with an IPv4 address arrives. -/
def ipv6Lookup : Lookup where
  name := "a.local".toList
  af := AF_INET6
  buffer := 4096
  buflen := 64
  ptr := 8
  unit := 8
  unit_pos := by decide
  qname := true
  pending := false
  early := [⟨⟨kDNSType_A, [10, 0, 0, 1] ++ List.replicate 12 0⟩, by decide⟩]
  late := []

theorem ipv6Lookup_wrong : ipv6Lookup.mdnsGethostbyname.result = ⟨.success, none, some [10, 0, 0, 1]⟩ ∧
    ¬ipv6Lookup.Meets := by
  have hres : ipv6Lookup.mdnsGethostbyname.result = ⟨.success, none, some [10, 0, 0, 1]⟩ := by decide
  refine ⟨hres, fun h => ?_⟩
  obtain ⟨bytes, hb, hlen, -⟩ := h.address (by rw [hres])
  rw [hres] at hb
  cases hb
  exact absurd hlen (by decide)

end Lookup

end RtemsLibbsd.Mdns

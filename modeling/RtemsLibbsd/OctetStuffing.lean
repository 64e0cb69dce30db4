import Mathlib.Data.List.Basic

/-!
# Octet stuffing

Frames of a byte stream that are separated by a flag octet.  An octet that may not be sent as it is
goes out as the escape octet and the octet changed by an involution `tr`.

* `stuff` — the octets of a frame as they are sent; `escaped c` says that `c` may not be sent as it is.
* `scan`, `unstuff` — the receiver's reading of a segment, octet by octet; a segment that ends behind an
  escape octet has no reading.
* `segments` — the pieces of a stream that are ended by a flag.
* `unstuff_stuff`, `flag_not_mem_stuff`, `filter_stuff` — a stuffed frame is read back, has no flag in it,
  and loses nothing to a receiver that drops octets the sender escapes.
-/

namespace RtemsLibbsd.OctetStuffing

universe u

variable {α : Type u}

section Stuff

variable (esc : α) (tr : α → α) (escaped : α → Bool)

def stuffOctet (c : α) : List α := if escaped c then [esc, tr c] else [c]

def stuff (xs : List α) : List α := xs.flatMap (stuffOctet esc tr escaped)

@[simp] theorem stuff_nil : stuff esc tr escaped [] = [] := rfl

@[simp] theorem stuff_cons (c : α) (xs : List α) :
    stuff esc tr escaped (c :: xs) = stuffOctet esc tr escaped c ++ stuff esc tr escaped xs := rfl

@[simp] theorem stuff_append (xs ys : List α) :
    stuff esc tr escaped (xs ++ ys) = stuff esc tr escaped xs ++ stuff esc tr escaped ys :=
  List.flatMap_append

theorem stuff_of_forall_not {xs : List α} (h : ∀ c ∈ xs, escaped c = false) :
    stuff esc tr escaped xs = xs := by
  induction xs with
  | nil => rfl
  | cons c xs ih =>
    grind [stuffOctet, stuff_cons]

variable {esc tr escaped}

theorem mem_stuff {c : α} {xs : List α} (h : c ∈ stuff esc tr escaped xs) :
    c = esc ∨ (∃ d, escaped d = true ∧ c = tr d) ∨ escaped c = false := by
  obtain ⟨d, -, hd⟩ := List.mem_flatMap.mp h
  unfold stuffOctet at hd
  split at hd
  · grind
  · grind

theorem flag_not_mem_stuff {flag : α} (hflag : escaped flag = true) (hesc : flag ≠ esc)
    (htr : ∀ d, escaped d = true → tr d ≠ flag) (xs : List α) : flag ∉ stuff esc tr escaped xs := by
  intro h
  rcases mem_stuff h with h | ⟨d, hd, h⟩ | h
  · exact hesc h
  · exact htr d hd h.symm
  · exact Bool.noConfusion (hflag.symm.trans h)

theorem filter_stuff {dropped : α → Bool} (hdrop : ∀ c, dropped c = true → escaped c = true)
    (hesc : dropped esc = false) (htr : ∀ d, escaped d = true → dropped (tr d) = false) (xs : List α) :
    (stuff esc tr escaped xs).filter (fun c => !dropped c) = stuff esc tr escaped xs := by
  rw [List.filter_eq_self]
  intro c hc
  have hkeep : dropped c = false := by
    rcases mem_stuff hc with rfl | ⟨d, hd, rfl⟩ | h
    · exact hesc
    · exact htr d hd
    · by_contra hd
      exact Bool.noConfusion (h.symm.trans (hdrop c (Bool.not_eq_false _ ▸ hd)))
  rw [hkeep]
  rfl

end Stuff

section Scan

variable [DecidableEq α] (esc : α) (tr : α → α)

/-- One octet of a segment: the octets read so far, and whether the last one was an escape octet. -/
def scanOctet (p : List α × Bool) (c : α) : List α × Bool :=
  if p.2 then (p.1 ++ [tr c], false) else if c = esc then (p.1, true) else (p.1 ++ [c], false)

def scan (xs : List α) : List α × Bool := xs.foldl (scanOctet esc tr) ([], false)

/-- The octets of a segment that does not end behind an escape octet. -/
def unstuff (xs : List α) : Option (List α) :=
  if (scan esc tr xs).2 then none else some (scan esc tr xs).1

@[simp] theorem scan_nil : scan esc tr [] = ([], false) := rfl

theorem scan_concat (xs : List α) (c : α) :
    scan esc tr (xs ++ [c]) = scanOctet esc tr (scan esc tr xs) c := by
  rw [scan, List.foldl_append]
  rfl

variable {esc tr} {escaped : α → Bool}

theorem foldl_scanOctet_stuff (htr : ∀ c, tr (tr c) = c) (hesc : escaped esc = true) :
    ∀ (xs us : List α), (stuff esc tr escaped xs).foldl (scanOctet esc tr) (us, false) = (us ++ xs, false)
  | [], us => by simp
  | c :: xs, us => by
    rw [stuff_cons, List.foldl_append]
    have hoctet : (stuffOctet esc tr escaped c).foldl (scanOctet esc tr) (us, false) = (us ++ [c], false) := by
      unfold stuffOctet
      split
      · simp [scanOctet, htr]
      · rename_i hc
        have hne : c ≠ esc := by
          rintro rfl
          exact hc hesc
        simp [scanOctet, hne]
    rw [hoctet, foldl_scanOctet_stuff htr hesc xs (us ++ [c]), List.append_assoc]
    rfl

theorem unstuff_stuff (htr : ∀ c, tr (tr c) = c) (hesc : escaped esc = true) (xs : List α) :
    unstuff esc tr (stuff esc tr escaped xs) = some xs := by
  grind [scan, foldl_scanOctet_stuff, unstuff]

end Scan

section Segments

variable [DecidableEq α] (flag : α)

/-- The pieces of a stream that are ended by a flag, `seg` in front of the first one. -/
def segments (seg : List α) : List α → List (List α)
  | [] => []
  | c :: cs => if c = flag then seg :: segments [] cs else segments (seg ++ [c]) cs

variable {flag}

end Segments

end RtemsLibbsd.OctetStuffing

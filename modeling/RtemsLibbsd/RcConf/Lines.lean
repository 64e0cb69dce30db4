import Mathlib.Algebra.Group.Nat.Defs
import RtemsLibbsd.CString

/-!
# Lines of rc.conf

Model of `rc_conf_create` of `rtemsbsd/rtems/rtems-bsd-rc-conf.c`, which copies a text and edits the
copy in place.

* `breakLines`, `extractLines` — the two passes.  A line is the address of its first character.
* `linesOf`, `strip` — what the lines of a text are.
* **`rcConfCreate_iff`** — the lines are stored, without an access outside of the copy, if and only if
  the text ends with a newline and there is something left of its first line.

The last line is lost without a newline behind it.  If nothing is left of a line, the index of the
right trim wraps around to the character before the line, which for the first line is not part of the
copy (`lines_lost`).
-/

namespace RtemsLibbsd.RcConf

open Option

open List RtemsLibbsd.CString

abbrev RTEMS_BSD_RC_CONF_MAX_SIZE : Nat := 8 * 1024

/-- The largest `size_t`; the texts that are accepted fit in the memory. -/
structure Target where
  sizeMax : Nat
  fits : RTEMS_BSD_RC_CONF_MAX_SIZE ≤ sizeMax

/-- The first pass from `line` on, over `n` characters. -/
def breakLines (m : Memory) (line lineCount : Nat) : Nat → Option (Memory × Nat)
  | 0 => some (m, lineCount)
  | n + 1 => do
    let c ← load m line
    if c = '\n' then
      let m ← store m line nul
      breakLines m (line + 1) (lineCount + 1) n
    else breakLines m (line + 1) lineCount n

/-- The removal of leading white space from a string of `length` characters. -/
def stripLeft (m : Memory) (marker : Nat) : Nat → Option Memory
  | 0 => do
    let c ← load m marker
    if c ≠ nul ∧ isspace c then none else some m
  | length + 1 => do
    let c ← load m marker
    if c ≠ nul ∧ isspace c then
      let m ← memmove m marker (marker + 1) (length + 1)
      stripLeft m marker length
    else some m

/-- The removal of trailing white space from `marker[length]` on. -/
def stripRight (t : Target) (m : Memory) (marker : Nat) : Nat → Option Memory
  | 0 => some m
  | length + 1 => do
    let i := (marker + (length + 1)) % (t.sizeMax + 1)
    let c ← load m i
    if isspace c then
      let m ← store m i nul
      stripRight t m marker length
    else some m

/-- The removal of the comment from the string at `marker`. -/
def cutComment (m : Memory) (marker : Nat) : Option Memory := do
  let comment ← strchr m marker '#'
  match comment with
  | some p => store m p nul
  | none => some m

/-- What is done with the string at `marker`. -/
def trim (t : Target) (m : Memory) (marker : Nat) : Option Memory := do
  let m ← cutComment m marker
  let length ← strlen m marker
  let m ← stripLeft m marker length
  let length ← strlen m marker
  stripRight t m marker ((length + t.sizeMax) % (t.sizeMax + 1))

/-- The second pass from `line` on, over `n` characters; there is room for `capacity` lines. -/
def extractLines (t : Target) (capacity : Nat) (m : Memory) (marker line : Nat) (lines : List Nat) :
    Nat → Option (Memory × List Nat)
  | 0 => some (m, lines)
  | n + 1 => do
    let c ← load m line
    if c = nul then
      let m ← trim t m marker
      if lines.length < capacity then
        extractLines t capacity m (line + 1) (line + 1) (lines ++ [marker]) n
      else none
    else extractLines t capacity m marker (line + 1) lines n

structure RtemsBsdRcConf where
  name : List Char
  data : Memory
  lineCount : Nat
  lines : List Nat
  line : Nat
  timeout : Int
  verbose : Bool
  waiter : Option Nat
  deriving DecidableEq

/-- The results of `malloc`, `strdup` and `lock_create`, and the task that calls. -/
structure CreateEnv where
  conf : Bool
  copy : Bool
  lines : Bool
  name : Bool
  lock : Bool
  self : Nat

/-- `errno` of `rc_conf_create`. -/
inductive CreateErrno where
  | enomem
  | e2big
  | eio
  deriving DecidableEq

/-- What a call comes to; `fault` is an access outside of an object. -/
inductive CreateOutcome where
  | ok (conf : RtemsBsdRcConf)
  | error (e : CreateErrno)
  | fault
  deriving DecidableEq

def rcConfCreate (t : Target) (env : CreateEnv) (name text : CStr) (timeout : Int) (verbose : Bool) :
    CreateOutcome :=
  let length := text.chars.length
  if env.conf = false then .error .enomem
  else if RTEMS_BSD_RC_CONF_MAX_SIZE ≤ length then .error .e2big
  else if env.copy = false then .error .enomem
  else
    match breakLines text.memory 0 0 length with
    | none => .fault
    | some (copy, lineCount) =>
      if env.lines = false then .error .enomem
      else
        match extractLines t lineCount copy 0 0 [] length with
        | none => .fault
        | some (copy, lines) =>
          if env.name = false then .error .enomem
          else if env.lock = false then .error .eio
          else .ok ⟨name.chars, copy, lines.length, lines, 0, timeout, verbose,
            if 0 ≤ timeout then some env.self else none⟩

/-- The lines of a text; `cur` is what was read of the first one. -/
def linesFrom (cur : List Char) : List Char → List (List Char)
  | [] => if cur = [] then [] else [cur]
  | c :: text => if c = '\n' then cur :: linesFrom [] text else linesFrom (cur ++ [c]) text

/-- The lines of a text, the last one also if no newline follows it. -/
def linesOf (text : List Char) : List (List Char) := linesFrom [] text

def strip (line : List Char) : List Char :=
  ((line.takeWhile (· ≠ '#')).dropWhile isspace).rdropWhile isspace

def RtemsBsdRcConf.texts (conf : RtemsBsdRcConf) : List (List Char) := conf.lines.map (str conf.data)

/-- The call stores the lines of the text, without an access outside of the copy. -/
def Extracts (text : CStr) (outcome : CreateOutcome) : Prop :=
  ∃ conf, outcome = .ok conf ∧ conf.lineCount = conf.lines.length ∧
    conf.texts = (linesOf text.chars).map strip

/-- The text ends with a newline, and there is something left of its first line. -/
structure Regular (text : List Char) : Prop where
  ends : text = [] ∨ text.getLast? = some '\n'
  first : ∀ line ∈ (linesOf text).head?, strip line ≠ []

section Trim

variable (pre : List Char) {s : List Char} (post : List Char)

def Closed (m : Memory) : Prop := ∀ c ∈ m.getLast?, c = nul

theorem closed_nil : Closed [] := by
  intro c hc
  cases hc

theorem Closed.append {a b : Memory} (hb : Closed b) (hne : b ≠ []) : Closed (a ++ b) := by
  intro c hc
  rw [getLast?_append_of_ne_nil a hne] at hc
  exact hb c hc

theorem closed_replicate (k : Nat) {b : Memory} (hb : Closed b) : Closed (nul :: (List.replicate k nul ++ b)) := by
  cases b with
  | nil =>
    have hshape : nul :: (List.replicate k nul ++ []) = List.replicate (k + 1) nul := by
      simp [replicate_succ]
    intro c hc
    rw [hshape, getLast?_replicate] at hc
    simpa using hc.symm
  | cons d b =>
    have hclosed := Closed.append (a := nul :: List.replicate k nul) hb (by simp)
    simpa using hclosed

theorem strip_subset (line : List Char) : strip line ⊆ line := by
  intro c hc
  have hdrop := (List.rdropWhile_prefix isspace _).subset hc
  exact (List.takeWhile_prefix _).subset ((dropWhile_suffix _).subset hdrop)

theorem stripLeft_placed (hs : nul ∉ s) :
    ∃ k, stripLeft (pre ++ (s ++ nul :: post)) pre.length s.length =
        some (pre ++ (s.dropWhile isspace ++ nul :: (List.replicate k nul ++ post))) ∧
      (s.dropWhile isspace).length + k = s.length := by
  induction s generalizing post with
  | nil => exact ⟨0, by simp [stripLeft, load_placed], rfl⟩
  | cons c s ih =>
    have hne : c ≠ nul := by
      rintro rfl
      exact hs mem_cons_self
    have hs' : nul ∉ s := fun h => hs (mem_cons_of_mem _ h)
    have hload : load (pre ++ (c :: s ++ nul :: post)) pre.length = some c := load_placed c
    rw [length_cons]
    unfold stripLeft
    rw [hload]
    simp only [bind_eq_bind, bind_some]
    by_cases hc : isspace c
    · obtain ⟨k, hk, hlen⟩ := ih (nul :: post) hs'
      refine ⟨k + 1, ?_, ?_⟩
      · rw [if_pos ⟨hne, hc⟩, memmove_left, bind_some, hk, dropWhile_cons_of_pos hc]
        simp [replicate_succ']
      · rw [dropWhile_cons_of_pos hc]
        omega
    · refine ⟨0, ?_, ?_⟩
      · rw [if_neg (fun h => hc h.2), dropWhile_cons_of_neg hc]
        simp
      · rw [dropWhile_cons_of_neg hc]
        simp

theorem stripRight_placed (t : Target) (c : Char) (hsize : pre.length + s.length < t.sizeMax) :
    ∃ k, stripRight t (pre ++ (c :: s ++ nul :: post)) pre.length s.length =
        some (pre ++ (c :: s.rdropWhile isspace ++ nul :: (List.replicate k nul ++ post))) ∧
      (s.rdropWhile isspace).length + k = s.length := by
  induction s using List.reverseRecOn generalizing post with
  | nil => exact ⟨0, by simp [stripRight], rfl⟩
  | append_singleton s d ih =>
    rw [length_append, length_singleton] at hsize ⊢
    have hshape : pre ++ (c :: (s ++ [d]) ++ nul :: post) = (pre ++ c :: s) ++ d :: nul :: post := by simp
    have hindex : (pre.length + (s.length + 1)) % (t.sizeMax + 1) = (pre ++ c :: s).length := by
      rw [Nat.mod_eq_of_lt (by omega), length_append, length_cons]
    unfold stripRight
    simp only [bind_eq_bind]
    rw [hindex, hshape, load_placed, bind_some]
    by_cases hd : isspace d
    · obtain ⟨k, hk, hlen⟩ := ih (nul :: post) (by omega)
      have hstored : (pre ++ c :: s) ++ nul :: nul :: post = pre ++ (c :: s ++ nul :: nul :: post) := by simp
      refine ⟨k + 1, ?_, ?_⟩
      · rw [if_pos hd, store_placed, bind_some, hstored, hk, rdropWhile_concat_pos _ _ _ hd]
        simp [replicate_succ']
      · rw [rdropWhile_concat_pos _ _ _ hd]
        omega
    · refine ⟨0, ?_, ?_⟩
      · rw [if_neg hd, rdropWhile_concat_neg _ _ _ hd]
        simp
      · rw [rdropWhile_concat_neg _ _ _ hd]
        simp

theorem stripRight_empty (t : Target) (hclosed : Closed pre) (hsize : (pre ++ nul :: post).length ≤ t.sizeMax) :
    stripRight t (pre ++ nul :: post) pre.length t.sizeMax =
      if pre = [] then none else some (pre ++ nul :: post) := by
  have hfits : 8 * 1024 ≤ t.sizeMax := t.fits
  obtain ⟨n, hn⟩ : ∃ n, t.sizeMax = n + 1 := ⟨t.sizeMax - 1, by omega⟩
  rw [hn] at hsize ⊢
  simp only [stripRight, bind_eq_bind, hn]
  cases pre using List.reverseRecOn with
  | nil =>
    have hindex : (([] : List Char).length + (n + 1)) % (n + 1 + 1) = n + 1 := by
      rw [length_nil, Nat.zero_add]
      exact Nat.mod_eq_of_lt (Nat.lt_succ_self _)
    rw [hindex]
    unfold load
    rw [getElem?_eq_none hsize]
    rfl
  | append_singleton pre d =>
    have hd : d = nul := hclosed d (by simp)
    have hindex : ((pre ++ [d]).length + (n + 1)) % (n + 1 + 1) = pre.length := by
      rw [length_append, length_singleton]
      have hsum : pre.length + 1 + (n + 1) = pre.length + (n + 1 + 1) := by omega
      rw [hsum, Nat.add_mod_right, Nat.mod_eq_of_lt]
      simp only [length_append, length_singleton] at hsize
      omega
    have hshape : (pre ++ [d]) ++ nul :: post = pre ++ d :: nul :: post := by simp
    rw [hindex, hshape, load_placed, bind_some, hd, if_neg (by simp), if_neg (by simp)]

theorem takeWhile_comment {w c : List Char} (hw : '#' ∉ w) : (w ++ '#' :: c).takeWhile (· ≠ '#') = w := by
  rw [takeWhile_append_of_pos]
  · simp
  · intro d hd
    have hne : d ≠ '#' := by
      rintro rfl
      exact hw hd
    simpa using hne

theorem cutComment_placed (hs : nul ∉ s) :
    ∃ junk, cutComment (pre ++ (s ++ nul :: post)) pre.length =
        some (pre ++ (s.takeWhile (· ≠ '#') ++ nul :: (junk ++ post))) ∧
      (s.takeWhile (· ≠ '#')).length + junk.length = s.length ∧ Closed junk := by
  unfold cutComment
  by_cases hc : '#' ∈ s
  · obtain ⟨w, c, rfl, hw⟩ := eq_append_cons_of_mem hc
    simp only [mem_append, mem_cons, not_or] at hs
    have hshape : pre ++ ((w ++ '#' :: c) ++ nul :: post) = pre ++ (w ++ '#' :: (c ++ nul :: post)) := by simp
    have hstore : store ((pre ++ w) ++ '#' :: (c ++ nul :: post)) (pre ++ w).length nul =
        some ((pre ++ w) ++ nul :: (c ++ nul :: post)) := store_placed _ _
    rw [takeWhile_comment hw]
    refine ⟨c ++ [nul], ?_, ?_, ?_⟩
    · rw [hshape, strchr_placed_of_mem hs.1 hs.2.2 hw (by decide)]
      simpa using hstore
    · simp
    · exact Closed.append (fun d hd => by simpa using hd.symm) (by simp)
  · have htake : s.takeWhile (· ≠ '#') = s := by
      rw [takeWhile_eq_self_iff]
      intro d hd
      have hne : d ≠ '#' := by
        rintro rfl
        exact hc hd
      simpa using hne
    rw [htake, strchr_placed_of_not_mem hs hc]
    exact ⟨[], rfl, rfl, closed_nil⟩

theorem rdropWhile_cons {p : Char → Bool} {c : Char} (hc : p c = false) (w : List Char) :
    (c :: w).rdropWhile p = c :: w.rdropWhile p := by
  induction w using List.reverseRecOn with
  | nil => simp [hc]
  | append_singleton w d ih =>
    rw [← cons_append]
    by_cases hd : p d
    · rw [rdropWhile_concat_pos _ _ _ hd, rdropWhile_concat_pos _ _ _ hd, ih]
    · rw [rdropWhile_concat_neg _ _ _ hd, rdropWhile_concat_neg _ _ _ hd, cons_append]

/-- **A line is stripped in place.**  The first line faults if nothing is left of it. -/
theorem trim_placed (t : Target) (hs : nul ∉ s) (hpre : Closed pre)
    (hsize : (pre ++ (s ++ nul :: post)).length ≤ t.sizeMax) :
    if pre = [] ∧ strip s = [] then trim t (pre ++ (s ++ nul :: post)) pre.length = none
    else ∃ junk, trim t (pre ++ (s ++ nul :: post)) pre.length =
        some (pre ++ (strip s ++ nul :: (junk ++ post))) ∧
      (strip s).length + junk.length = s.length ∧ Closed (nul :: junk) := by
  obtain ⟨cut, hcomment, hcut, hclosed⟩ := cutComment_placed pre post hs
  have hclean : nul ∉ s.takeWhile (· ≠ '#') :=
    nul_not_mem_of_subset hs (List.takeWhile_prefix _).subset
  obtain ⟨k, hleft, hk⟩ := stripLeft_placed pre (cut ++ post) hclean
  have hclean' : nul ∉ (s.takeWhile (· ≠ '#')).dropWhile isspace :=
    nul_not_mem_of_subset hclean (dropWhile_suffix _).subset
  have htrim : trim t (pre ++ (s ++ nul :: post)) pre.length =
      stripRight t (pre ++ ((s.takeWhile (· ≠ '#')).dropWhile isspace ++
          nul :: (List.replicate k nul ++ (cut ++ post)))) pre.length
        ((((s.takeWhile (· ≠ '#')).dropWhile isspace).length + t.sizeMax) % (t.sizeMax + 1)) := by
    unfold trim
    grind [strlen_placed]
  have hstrip : strip s = ((s.takeWhile (· ≠ '#')).dropWhile isspace).rdropWhile isspace := rfl
  simp only [length_append, length_cons] at hsize
  rw [htrim, hstrip]
  cases hw : (s.takeWhile (· ≠ '#')).dropWhile isspace with
  | nil =>
    rw [hw] at hk
    have hempty := stripRight_empty pre (List.replicate k nul ++ (cut ++ post)) t hpre (by
      simp only [length_append, length_cons, length_replicate, length_nil] at hk ⊢
      omega)
    simp only [length_nil, Nat.zero_add, rdropWhile_nil, nil_append, and_true]
    rw [Nat.mod_eq_of_lt (Nat.lt_succ_self _), hempty]
    split
    · rfl
    · refine ⟨List.replicate k nul ++ cut, ?_, ?_, closed_replicate k hclosed⟩
      · simp
      · simp only [length_append, length_replicate, length_nil] at hk ⊢
        omega
  | cons c w =>
    have hc : isspace c = false := by
      grind [head?_dropWhile_not]
    rw [hw] at hk
    simp only [length_cons] at hk
    obtain ⟨j, hright, hj⟩ := stripRight_placed pre (List.replicate k nul ++ (cut ++ post)) t c
      (show pre.length + w.length < t.sizeMax by omega)
    have hindex : ((c :: w).length + t.sizeMax) % (t.sizeMax + 1) = w.length := by
      rw [length_cons]
      have hsum : w.length + 1 + t.sizeMax = w.length + (t.sizeMax + 1) := by omega
      rw [hsum, Nat.add_mod_right, Nat.mod_eq_of_lt (by omega)]
    rw [hindex, hright, rdropWhile_cons hc, if_neg (fun h => cons_ne_nil _ _ h.2)]
    refine ⟨List.replicate j nul ++ (List.replicate k nul ++ cut), ?_, ?_, ?_⟩
    · simp
    · simp only [length_append, length_replicate, length_cons]
      omega
    · apply closed_replicate
      cases k with
      | zero => exact hclosed
      | succ k =>
        exact closed_replicate k hclosed

end Trim

def terminatedFrom (cur : List Char) : List Char → List (List Char)
  | [] => []
  | c :: text => if c = '\n' then cur :: terminatedFrom [] text else terminatedFrom (cur ++ [c]) text

def broken (c : Char) : Char := if c = '\n' then nul else c

/-- **The first pass** writes a terminator over each newline and counts the lines that end. -/
theorem breakLines_placed (pre cur text : List Char) (n : Nat) :
    breakLines (pre ++ (text ++ [nul])) pre.length n text.length =
      some (pre ++ (text.map broken ++ [nul]), n + (terminatedFrom cur text).length) := by
  induction text generalizing pre cur n with
  | nil => simp [breakLines, terminatedFrom]
  | cons c text ih =>
    have hload : load (pre ++ (c :: text ++ [nul])) pre.length = some c := load_placed c
    have hstore : store (pre ++ (c :: text ++ [nul])) pre.length nul = some (pre ++ nul :: (text ++ [nul])) :=
      store_placed c nul
    rw [length_cons]
    unfold breakLines
    simp only [bind_eq_bind]
    rw [hload, bind_some]
    by_cases hc : c = '\n'
    · have hnext := ih (pre ++ [nul]) [] (n + 1)
      rw [length_append, length_singleton, append_assoc, append_assoc] at hnext
      rw [if_pos hc, hstore, bind_some]
      refine hnext.trans ?_
      simp [terminatedFrom, broken, hc]
      omega
    · have hnext := ih (pre ++ [c]) (cur ++ [c]) n
      rw [length_append, length_singleton, append_assoc, append_assoc] at hnext
      rw [if_neg hc]
      refine hnext.trans ?_
      simp [terminatedFrom, broken, hc]

/-- **The second pass** stores the stripped lines, unless nothing is left of the first one.  The lines
    before the one that is read do not change any more (`hlines`). -/
theorem extractLines_placed (t : Target) (pre cur text : List Char) (lines : List Nat)
    (texts : List (List Char)) (capacity : Nat) (hpre : Closed pre) (hcur : nul ∉ cur) (htext : nul ∉ text)
    (hsize : pre.length + cur.length + text.length + 1 ≤ t.sizeMax)
    (hcapacity : lines.length + (terminatedFrom cur text).length ≤ capacity)
    (hlines : ∀ z, lines.map (str (pre ++ z)) = texts) :
    if pre = [] ∧ ∃ line ∈ (terminatedFrom cur text).head?, strip line = [] then
      extractLines t capacity (pre ++ (cur ++ (text.map broken ++ [nul]))) pre.length
        (pre.length + cur.length) lines text.length = none
    else ∃ m lines', extractLines t capacity (pre ++ (cur ++ (text.map broken ++ [nul]))) pre.length
        (pre.length + cur.length) lines text.length = some (m, lines') ∧
      lines'.map (str m) = texts ++ (terminatedFrom cur text).map strip := by
  induction text generalizing pre cur lines texts with
  | nil =>
    rw [if_neg (by simp [terminatedFrom])]
    exact ⟨_, lines, rfl, by simp [terminatedFrom, hlines]⟩
  | cons c text ih =>
    simp only [mem_cons, not_or] at htext
    have hload : load (pre ++ (cur ++ ((c :: text).map broken ++ [nul]))) (pre.length + cur.length) =
        some (broken c) := by
      grind [load_placed]
    rw [length_cons] at hsize ⊢
    unfold extractLines
    simp only [bind_eq_bind]
    rw [hload, bind_some]
    by_cases hc : c = '\n'
    · have hterm : terminatedFrom cur (c :: text) = cur :: terminatedFrom [] text := by
        simp [terminatedFrom, hc]
      have hbroken : broken c = nul := by simp [broken, hc]
      have htrim := trim_placed pre (text.map broken ++ [nul]) t hcur hpre (by
        simp only [length_append, length_cons, length_map, length_nil]
        omega)
      rw [hterm] at hcapacity ⊢
      rw [if_pos hbroken, map_cons, hbroken]
      by_cases hblank : pre = [] ∧ strip cur = []
      · rw [if_pos hblank] at htrim
        rw [if_pos ⟨hblank.1, cur, rfl, hblank.2⟩, cons_append, htrim, bind_none]
      · rw [if_neg hblank] at htrim
        obtain ⟨junk, htrim, hlen, hclosed⟩ := htrim
        have hclean : nul ∉ strip cur := nul_not_mem_of_subset hcur (strip_subset cur)
        -- the next line starts behind the terminator that the first pass has written
        have hstart : (pre ++ (strip cur ++ nul :: junk)).length = pre.length + cur.length + 1 := by
          simp only [length_append, length_cons]
          omega
        have hends : Closed (pre ++ (strip cur ++ nul :: junk)) := by
          rw [← append_assoc]
          exact hclosed.append (by simp)
        have hstored : ∀ z, (lines ++ [pre.length]).map (str ((pre ++ (strip cur ++ nul :: junk)) ++ z)) =
            texts ++ [strip cur] := by
          intro z
          grind [str_placed]
        simp only [length_cons] at hcapacity
        have hnext := ih (pre ++ (strip cur ++ nul :: junk)) [] (lines ++ [pre.length])
          (texts ++ [strip cur]) hends not_mem_nil htext.2
          (by rw [hstart, length_nil]; omega)
          (by rw [length_append, length_singleton]; omega) hstored
        rw [if_neg (by simp), hstart] at hnext
        rw [if_neg (by simpa using hblank), cons_append, htrim, bind_some, if_pos (by omega)]
        simpa using hnext
    · have hterm : terminatedFrom cur (c :: text) = terminatedFrom (cur ++ [c]) text := by
        simp [terminatedFrom, hc]
      have hbroken : broken c = c := by simp [broken, hc]
      have hcur' : nul ∉ cur ++ [c] := by
        simp only [mem_append, mem_singleton, not_or]
        exact ⟨hcur, htext.1⟩
      rw [hterm] at hcapacity ⊢
      have hnext := ih pre (cur ++ [c]) lines texts hpre hcur' htext.2
        (by rw [length_append, length_singleton]; omega) hcapacity hlines
      rw [hbroken, if_neg (Ne.symm htext.1), map_cons, hbroken]
      simpa [Nat.add_assoc] using hnext

def Ended (cur text : List Char) : Prop := (text = [] ∧ cur = []) ∨ text.getLast? = some '\n'

theorem ended_cons {c d : Char} {cur cur' text : List Char} :
    Ended cur (c :: d :: text) ↔ Ended cur' (d :: text) := by
  simp [Ended]

theorem linesFrom_of_ended {cur text : List Char} (h : Ended cur text) :
    linesFrom cur text = terminatedFrom cur text := by
  induction text generalizing cur with
  | nil => simpa [Ended, linesFrom, terminatedFrom] using h
  | cons c text ih =>
    have hrest : c = '\n' ∧ text = [] ∨ ∀ cur', Ended cur' text := by
      cases text with
      | nil => exact .inl ⟨by simpa [Ended] using h, rfl⟩
      | cons d text => exact .inr fun cur' => ended_cons.mp h
    unfold linesFrom terminatedFrom
    rcases hrest with ⟨rfl, rfl⟩ | hrest
    · rfl
    · simp [ih (hrest _)]

theorem linesFrom_of_not_ended {cur text : List Char} (h : ¬ Ended cur text) :
    (linesFrom cur text).length = (terminatedFrom cur text).length + 1 := by
  induction text generalizing cur with
  | nil =>
    have hcur : cur ≠ [] := by simpa [Ended] using h
    simp [linesFrom, terminatedFrom, hcur]
  | cons c text ih =>
    unfold linesFrom terminatedFrom
    by_cases hc : c = '\n'
    · have hrest : ¬ Ended [] text := by
        grind [Ended]
      simp [if_pos hc, ih hrest]
    · have hrest : ¬ Ended (cur ++ [c]) text := by
        grind [Ended]
      rw [if_neg hc, if_neg hc, ih hrest]

/-- The allocations succeed, and so does the creation of the lock. -/
def CreateEnv.Succeeds (env : CreateEnv) : Prop :=
  env.conf = true ∧ env.copy = true ∧ env.lines = true ∧ env.name = true ∧ env.lock = true

/-- **What `rc_conf_create` comes to** for a text that is not too long. -/
theorem rcConfCreate_eq (t : Target) {env : CreateEnv} (henv : env.Succeeds) (name : CStr) {text : CStr}
    (hlength : text.chars.length < RTEMS_BSD_RC_CONF_MAX_SIZE) (timeout : Int) (verbose : Bool) :
    if ∃ line ∈ (terminatedFrom [] text.chars).head?, strip line = [] then
      rcConfCreate t env name text timeout verbose = .fault
    else ∃ conf, rcConfCreate t env name text timeout verbose = .ok conf ∧
      conf.lineCount = conf.lines.length ∧ conf.texts = (terminatedFrom [] text.chars).map strip := by
  obtain ⟨hconf, hcopy, hlines, hname, hlock⟩ := henv
  have hfits := t.fits
  have hbreak := breakLines_placed [] [] text.chars 0
  have hextract := extractLines_placed t [] [] text.chars [] [] (terminatedFrom [] text.chars).length
    closed_nil not_mem_nil text.clean (by simp only [length_nil]; omega) (by simp) (fun _ => rfl)
  simp only [nil_append, length_nil, Nat.zero_add, true_and] at hbreak hextract
  have hshort : ¬ RTEMS_BSD_RC_CONF_MAX_SIZE ≤ text.chars.length := Nat.not_le.mpr hlength
  unfold rcConfCreate CStr.memory
  simp only [hconf, hcopy, hlines, hname, hlock, hshort, hbreak, Bool.true_eq_false, if_false]
  by_cases hblank : ∃ line ∈ (terminatedFrom [] text.chars).head?, strip line = []
  · rw [if_pos hblank] at hextract ⊢
    rw [hextract]
  · rw [if_neg hblank] at hextract ⊢
    obtain ⟨m, lines, hextract, htexts⟩ := hextract
    rw [hextract]
    exact ⟨_, rfl, rfl, htexts⟩

/-- **The lines of a text are stored, and only the copy is accessed, if and only if** the text ends with
    a newline and there is something left of its first line. -/
theorem rcConfCreate_iff (t : Target) {env : CreateEnv} (henv : env.Succeeds) (name : CStr) {text : CStr}
    (hlength : text.chars.length < RTEMS_BSD_RC_CONF_MAX_SIZE) (timeout : Int) (verbose : Bool) :
    Extracts text (rcConfCreate t env name text timeout verbose) ↔ Regular text.chars := by
  have hcreate := rcConfCreate_eq t henv name hlength timeout verbose
  constructor
  · rintro ⟨conf, hok, hcount, htexts⟩
    have hended : Ended [] text.chars := by
      by_cases hblank : ∃ line ∈ (terminatedFrom [] text.chars).head?, strip line = []
      · rw [if_pos hblank, hok] at hcreate
        cases hcreate
      · rw [if_neg hblank, hok] at hcreate
        obtain ⟨conf', hconf', -, htexts'⟩ := hcreate
        cases hconf'
        have hlen := congrArg List.length (htexts.symm.trans htexts')
        grind [linesFrom_of_not_ended, linesOf]
    have hlines : linesOf text.chars = terminatedFrom [] text.chars := linesFrom_of_ended hended
    refine ⟨?_, ?_⟩
    · rcases hended with ⟨hnil, -⟩ | hlast
      · exact .inl hnil
      · exact .inr hlast
    · intro line hline hstrip
      rw [hlines] at hline
      rw [if_pos ⟨line, hline, hstrip⟩, hok] at hcreate
      cases hcreate
  · rintro ⟨hends, hfirst⟩
    have hended : Ended [] text.chars := by
      rcases hends with hnil | hlast
      · exact .inl ⟨hnil, rfl⟩
      · exact .inr hlast
    have hlines : linesOf text.chars = terminatedFrom [] text.chars := linesFrom_of_ended hended
    rw [if_neg] at hcreate
    · grind [Extracts]
    · rintro ⟨line, hline, hstrip⟩
      rw [← hlines] at hline
      exact hfirst line hline hstrip

/-- A `size_t` of 32 bits. -/
def target32 : Target := ⟨2 ^ 32 - 1, by decide⟩

def createEnv : CreateEnv := ⟨true, true, true, true, true, 1⟩

def unterminated : CStr := ⟨['a', '=', '1', '\n', 'b', '=', '2'], by decide⟩

def commented : CStr := ⟨['#', '\n', 'a', '=', '1', '\n'], by decide⟩

/-- The second of two lines is not stored, and a comment in the first line makes the call read the
    character before the copy. -/
theorem lines_lost :
    ¬ Extracts unterminated (rcConfCreate target32 createEnv commented unterminated 0 false) ∧
    rcConfCreate target32 createEnv commented commented 0 false = .fault := by
  refine ⟨?_, by decide⟩
  rintro ⟨conf, hok, -, htexts⟩
  cases hok
  exact absurd htexts (by decide)

/-- Two settings with a comment and an empty line between them. -/
def regularText : CStr := ⟨['a', '=', '1', ' ', '#', '\n', '\n', ' ', 'b', '\n'], by decide⟩

theorem rcConfCreate_iff_regularText :
    Extracts regularText (rcConfCreate target32 createEnv commented regularText 0 false) ↔
      Regular regularText.chars :=
  rcConfCreate_iff target32 ⟨rfl, rfl, rfl, rfl, rfl⟩ commented (by decide) 0 false

end RtemsLibbsd.RcConf

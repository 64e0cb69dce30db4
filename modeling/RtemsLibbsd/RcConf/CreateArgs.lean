import Mathlib.Data.List.Infix
import RtemsLibbsd.Heap
import RtemsLibbsd.RcConf.Find
import RtemsLibbsd.RcConf.Services

/-!
# The arguments for the creation of interfaces

Model of `load_create_args` of `rtemsbsd/rtems/rtems-bsd-rc-conf-net.c`: for each line with a key
`create_args_` and a label, an item with a copy of the arguments is appended to the chain `create_args_items`.

* `makeItem` — the item in the heap, built field by field; a failure releases what was built.
* `record`, `loadLoop`, `loadCreateArgs` — the loop over the lines that the search finds.
* `Holds` — an item in the heap is complete.
* `makeItem_spec` — an item is complete, or nothing is left of it.
* `load_ok_iff` — when the chain has the right items after a successful call.
-/

namespace RtemsLibbsd.RcConf

open Option

open List RtemsLibbsd.CString

/-! ## The functions -/

/-- The objects of an item: itself, its strings, and its vector. -/
inductive ItemObj where
  | item (label : Option ℕ) (argc : ℕ) (argv : Option ℕ)
  | text (chars : List Char)
  | vector (argv : List (Option ℕ))

/-- The search, the heap, and the chain `create_args_items`. -/
structure Creation where
  finder : Finder
  heap : Heap ItemObj
  items : List ℕ

namespace Creation

/-- An allocation; the object is the memory with what is written to it at once. -/
def allocate (s : Creation) (o : ItemObj) : Option ℕ × Creation :=
  match s.finder.ask with
  | (false, f) => (none, { s with finder := f })
  | (true, f) => (some s.heap.next, { s with finder := f, heap := s.heap.alloc o })

def write (s : Creation) (i : ℕ) (o : ItemObj) : Creation := { s with heap := s.heap.set i o }

def release (s : Creation) (is : List ℕ) : Creation := { s with heap := is.foldl Heap.free s.heap }

def fail (s : Creation) (e : Errno) : Creation := { s with finder := { s.finder with errno := e } }

end Creation

/-- The loop over the arguments of an item; the strings are copied to the vector at `v`.  The results are
    whether it succeeds and the copies. -/
def copyArgs (v : ℕ) : List (List Char) → List ℕ → Creation → Bool × List ℕ × Creation
  | [], copies, s => (true, copies, s)
  | text :: texts, copies, s =>
    match s.allocate (.text text) with
    | (none, s) => (false, copies, s)
    | (some a, s) =>
      copyArgs v texts (copies ++ [a])
        (s.write v (.vector ((copies ++ [a]).map some ++ List.replicate (texts.length + 1) none)))

/-- The end of the construction, behind the loop over the arguments. -/
def finishItem (item l v : ℕ) : Bool × List ℕ × Creation → Option ℕ × Creation
  | (false, copies, s) => (none, (s.release (copies ++ [v, l, item])).fail .enomem)
  | (true, _, s) => (some item, s)

def makeItem (s : Creation) (label : List Char) (texts : List (List Char)) : Option ℕ × Creation :=
  match s.allocate (.item none 0 none) with
  | (none, s) => (none, s.fail .enomem)
  | (some item, s) =>
    let s := s.write item (.item none texts.length none)
    match s.allocate (.text label) with
    | (none, s) => (none, (s.release [item]).fail .enomem)
    | (some l, s) =>
      let s := s.write item (.item (some l) texts.length none)
      match s.allocate (.vector (List.replicate (texts.length + 1) none)) with
      | (none, s) => (none, (s.release [l, item]).fail .enomem)
      | (some v, s) =>
        let s := s.write item (.item (some l) texts.length (some v))
        finishItem item l v (copyArgs v texts [] s)

def textAt (h : Heap ItemObj) (i : ℕ) : Option (List Char) :=
  match h.obj i with
  | some (.text chars) => some chars
  | _ => none

/-- `item->label`. -/
def labelAt (h : Heap ItemObj) (i : ℕ) : Option (List Char) :=
  match h.obj i with
  | some (.item (some l) _ _) => textAt h l
  | _ => none

/-- The loop over the chain for an item of the label, `none` where it uses an object that is not there. -/
def duplicate (h : Heap ItemObj) (label : List Char) : List ℕ → Option Bool
  | [] => some false
  | item :: items =>
    match labelAt h item with
    | none => none
    | some l => if strcasecmp l label then some true else duplicate h label items

def createArgs : List Char := "create_args_".toList

def createArgsExpression : List Char := "create_args_.*".toList

/-- The body of the loop; the result is whether the loop goes on.  Each argument is a copy of the first
    string of the line. -/
def record (s : Creation) : Bool × Creation :=
  let key := (s.finder.aa.arg 0).getD []
  if key.length < createArgs.length then (false, { s with finder := { s.finder with fault := true } })
  else
    let label := key.drop createArgs.length
    match duplicate s.heap label s.items with
    | none => (false, { s with finder := { s.finder with fault := true } })
    | some true => (false, s.fail .eexist)
    | some false =>
      match makeItem s label (List.replicate s.finder.aa.argc key) with
      | (none, s) => (false, s)
      | (some item, s) => (true, { s with items := s.items ++ [item] })

/-- `rtems_bsd_rc_conf_find_next`. -/
def Creation.findNext (regex : Engine) (s : Creation) : Bool × Creation :=
  match RcConf.findNext regex s.finder with
  | (found, f) => (found, { s with finder := f })

/-- The loop; the search before it found a line or did not.  The result of the function is zero behind the
    loop, whatever the search came to. -/
def loadLoop (regex : Engine) : ℕ → Bool × Creation → Option (ℤ × Creation)
  | 0, _ => none
  | _ + 1, (false, s) => some (0, s)
  | fuel + 1, (true, s) =>
    match record s with
    | (false, s) => some (-1, s)
    | (true, s) => loadLoop regex fuel (s.findNext regex)

def loadCreateArgs (regex : Engine) (s : Creation) : Option (ℤ × Creation) :=
  match find regex s.finder createArgsExpression with
  | (found, f) => loadLoop regex (s.finder.lines.length + 1) (found, { s with finder := f })

/-! ## Items -/

structure Entry where
  label : List Char
  args : List (List Char)
  deriving DecidableEq

/-- An item in the heap that is complete, and its parts: the copies of its arguments, the vector, the label,
    and the item. -/
structure Holds (h : Heap ItemObj) (i : ℕ) (parts : List ℕ) (e : Entry) : Prop where
  complete : ∃ copies v l, parts = copies ++ [v, l, i] ∧
    h.obj i = some (.item (some l) e.args.length (some v)) ∧ h.obj l = some (.text e.label) ∧
    h.obj v = some (.vector (copies.map some ++ [none])) ∧
    List.Forall₂ (fun a text => h.obj a = some (.text text)) copies e.args

/-- A state while the arguments are copied: `done` are those that were. -/
structure Copying (h : Heap ItemObj) (i l v : ℕ) (label : List Char) (done todo : List (List Char))
    (copies : List ℕ) (s : Creation) : Prop where
  grown : Heap.Grown h s.heap (copies ++ [v, l, i])
  item : s.heap.obj i = some (.item (some l) (done ++ todo).length (some v))
  label : s.heap.obj l = some (.text label)
  vector : s.heap.obj v = some (.vector (copies.map some ++ List.replicate (todo.length + 1) none))
  copied : List.Forall₂ (fun a text => s.heap.obj a = some (.text text)) copies done

/-- The next `n` allocations are granted. -/
def Finder.Enough (f : Finder) (n : ℕ) : Prop := ∀ k < n, f.granted (f.asked + k) = true

/-- Behind `n` allocations. -/
def Finder.spent (f : Finder) (n : ℕ) : Finder := { f with asked := f.asked + n }

section

variable {s : Creation} {h : Heap ItemObj} {i l v : ℕ} {label text : List Char} {done texts : List (List Char)}
  {copies : List ℕ}

def Creation.allocated (s : Creation) (o : ItemObj) : Creation :=
  { s with finder := s.finder.spent 1, heap := s.heap.alloc o }

theorem Creation.allocate_granted (s : Creation) (o : ItemObj) (hg : s.finder.granted s.finder.asked = true) :
    s.allocate o = (some s.heap.next, s.allocated o) := by
  simp only [Creation.allocate, Finder.ask, hg]
  rfl

def Creation.refused (s : Creation) : Creation := { s with finder := s.finder.spent 1 }

theorem Creation.allocate_refused (s : Creation) (o : ItemObj) (hg : s.finder.granted s.finder.asked = false) :
    s.allocate o = (none, s.refused) := by
  simp only [Creation.allocate, Finder.ask, hg]
  rfl

theorem Finder.Enough.head {f : Finder} {n : ℕ} (he : f.Enough (n + 1)) : f.granted f.asked = true :=
  he 0 (Nat.succ_pos n)

theorem Finder.enough_succ {f : Finder} {n : ℕ} :
    f.Enough (n + 1) ↔ f.granted f.asked = true ∧ (f.spent 1).Enough n := by
  constructor
  · intro he
    refine ⟨he.head, ?_⟩
    intro k hk
    have hnext := he (k + 1) (Nat.succ_lt_succ hk)
    rwa [Nat.add_comm k 1, ← Nat.add_assoc] at hnext
  · rintro ⟨hfirst, hrest⟩ k hk
    cases k with
    | zero => exact hfirst
    | succ k =>
      have hnext : f.granted (f.asked + 1 + k) = true := hrest k (Nat.lt_of_succ_lt_succ hk)
      rwa [Nat.add_assoc, Nat.add_comm 1 k] at hnext

theorem Finder.spent_spent (f : Finder) (m n : ℕ) : (f.spent m).spent n = f.spent (m + n) := by
  simp only [Finder.spent, Nat.add_assoc]

theorem Copying.step (hc : Copying h i l v label done (text :: texts) copies s) :
    Copying h i l v label (done ++ [text]) texts (copies ++ [s.heap.next])
      ((s.allocated (.text text)).write v
        (.vector ((copies ++ [s.heap.next]).map some ++ List.replicate (texts.length + 1) none))) := by
  have hgrown : Heap.Grown h (s.heap.alloc (.text text)) ((copies ++ [s.heap.next]) ++ [v, l, i]) := by
    refine (hc.grown.alloc (.text text)).perm ?_
    rw [append_assoc]
    exact perm_middle.symm
  have hv : v ∈ (copies ++ [s.heap.next]) ++ [v, l, i] := by simp
  obtain ⟨hset, hself, -, hother⟩ := hgrown.set hv
    (.vector ((copies ++ [s.heap.next]).map some ++ List.replicate (texts.length + 1) none))
  -- the other objects are of another kind than the vector
  have hkeep : ∀ j o, s.heap.obj j = some o → (∀ argv, o ≠ .vector argv) →
      ((s.heap.alloc (.text text)).set v (.vector ((copies ++ [s.heap.next]).map some ++
        List.replicate (texts.length + 1) none))).obj j = some o := by
    intro j o ho hkind
    rw [hother j (Heap.ne_of_obj ho hc.vector (hkind _)), Heap.alloc_ne _ (Nat.ne_of_lt (hc.grown.fresh.lt ho)), ho]
  have hnew : s.heap.next ≠ v := Nat.ne_of_gt (hc.grown.fresh.lt hc.vector)
  refine ⟨hset, ?_, ?_, hself, ?_⟩
  · rw [append_assoc]
    exact hkeep i _ hc.item (by simp)
  · exact hkeep l _ hc.label (by simp)
  · refine rel_append (hc.copied.imp fun a t ha => hkeep a _ ha (by simp)) (.cons ?_ .nil)
    exact (hother _ hnew).trans (Heap.alloc_self _)

theorem copyArgs_enough (hc : Copying h i l v label done texts copies s) (he : s.finder.Enough texts.length) :
    ∃ copies' s', copyArgs v texts copies s = (true, copies', s') ∧
      Copying h i l v label (done ++ texts) [] copies' s' ∧ s'.finder = s.finder.spent texts.length ∧
      s'.items = s.items := by
  induction texts generalizing done copies s with
  | nil =>
    rw [append_nil]
    exact ⟨copies, s, rfl, hc, rfl, rfl⟩
  | cons text texts ih =>
    obtain ⟨copies', s', hrun, hc', hfinder, hitems⟩ := ih hc.step ((Finder.enough_succ.mp he).2)
    grind [copyArgs, Creation.allocate_granted, he.head, Finder.spent, Creation.write, Creation.allocated]

theorem copyArgs_short (hc : Copying h i l v label done texts copies s) (he : ¬ s.finder.Enough texts.length) :
    ∃ copies' s', copyArgs v texts copies s = (false, copies', s') ∧
      Heap.Grown h s'.heap (copies' ++ [v, l, i]) ∧ s'.finder.fault = s.finder.fault ∧ s'.items = s.items := by
  induction texts generalizing done copies s with
  | nil => exact absurd (fun k hk => absurd hk (Nat.not_lt_zero k)) he
  | cons text texts ih =>
    cases hg : s.finder.granted s.finder.asked with
    | false =>
      refine ⟨copies, s.refused, ?_, hc.grown, rfl, rfl⟩
      simp only [copyArgs, Creation.allocate_refused _ _ hg]
    | true =>
      have hrest := fun hrest => he (Finder.enough_succ.mpr ⟨hg, hrest⟩)
      obtain ⟨copies', s', hrun, hgrown, hfault, hitems⟩ := ih hc.step hrest
      refine ⟨copies', s', ?_, hgrown, hfault, hitems⟩
      simp only [copyArgs, Creation.allocate_granted _ _ hg]
      exact hrun

theorem grown_noted {parts : List ℕ} {o o' : ItemObj} (hg : Heap.Grown h s.heap parts) (hi : i ∈ parts) :
    Heap.Grown h ((s.allocated o).write i o').heap (s.heap.next :: parts) ∧
      ((s.allocated o).write i o').heap.obj i = some o' ∧
      ((s.allocated o).write i o').heap.obj s.heap.next = some o ∧
      ∀ j ∈ parts, j ≠ i → ((s.allocated o).write i o').heap.obj j = s.heap.obj j := by
  obtain ⟨hset, hself, -, hother⟩ := (hg.alloc o).set (mem_cons_of_mem _ hi) o'
  have hlt := hg.lt hi
  refine ⟨hset, hself, ?_, ?_⟩
  · exact (hother _ (by omega)).trans (Heap.alloc_self o)
  · intro j hj hji
    exact (hother j hji).trans (Heap.alloc_ne o (Nat.ne_of_lt (hg.lt hj)))

/-- The states of the construction: the item, with its label, with its vector. -/
def Creation.begun (s : Creation) (n : ℕ) : Creation :=
  (s.allocated (.item none 0 none)).write s.heap.next (.item none n none)

def Creation.labelled (s : Creation) (n : ℕ) (label : List Char) : Creation :=
  ((s.begun n).allocated (.text label)).write s.heap.next (.item (some (s.begun n).heap.next) n none)

def Creation.prepared (s : Creation) (n : ℕ) (label : List Char) : Creation :=
  ((s.labelled n label).allocated (.vector (List.replicate (n + 1) none))).write s.heap.next
    (.item (some (s.begun n).heap.next) n (some (s.labelled n label).heap.next))

theorem grown_begun (hf : s.heap.Fresh) (n : ℕ) : Heap.Grown s.heap (s.begun n).heap [s.heap.next] :=
  (((Heap.Grown.refl hf).alloc (.item none 0 none)).set mem_cons_self (.item none n none)).1

theorem grown_labelled (hf : s.heap.Fresh) (n : ℕ) (label : List Char) :
    Heap.Grown s.heap (s.labelled n label).heap [(s.begun n).heap.next, s.heap.next] ∧
      (s.labelled n label).heap.obj (s.begun n).heap.next = some (.text label) := by
  grind [grown_noted, grown_begun, Creation.labelled]

theorem copying_prepared (hf : s.heap.Fresh) (label : List Char) (texts : List (List Char)) :
    Copying s.heap s.heap.next (s.begun texts.length).heap.next (s.labelled texts.length label).heap.next label
      [] texts [] (s.prepared texts.length label) := by
  obtain ⟨hgrown, hlabel⟩ := grown_labelled hf texts.length label
  obtain ⟨hall, hitem, hvector, hother⟩ := @grown_noted (s.labelled texts.length label) s.heap s.heap.next
    [(s.begun texts.length).heap.next, s.heap.next] (.vector (List.replicate (texts.length + 1) none))
    (.item (some (s.begun texts.length).heap.next) texts.length (some (s.labelled texts.length label).heap.next))
    hgrown (by simp)
  have hne : (s.begun texts.length).heap.next ≠ s.heap.next :=
    Nat.ne_of_gt ((grown_begun hf texts.length).lt mem_cons_self)
  exact ⟨hall, hitem, (hother _ mem_cons_self hne).trans hlabel, hvector, .nil⟩

theorem makeItem_prepared (he : s.finder.Enough 3) :
    makeItem s label texts = finishItem s.heap.next (s.begun texts.length).heap.next
      (s.labelled texts.length label).heap.next (copyArgs (s.labelled texts.length label).heap.next texts []
        (s.prepared texts.length label)) := by
  have hitem := Creation.allocate_granted s (.item none 0 none) (he 0 (by decide))
  have hlabel := Creation.allocate_granted (s.begun texts.length) (.text label) (he 1 (by decide))
  have hvector := Creation.allocate_granted (s.labelled texts.length label)
    (.vector (List.replicate (texts.length + 1) none)) (he 2 (by decide))
  grind [Creation.labelled, Creation.begun, makeItem, Creation.prepared]

/-- **With enough memory the item is complete.** -/
theorem makeItem_enough (label : List Char) (hf : s.heap.Fresh) (he : s.finder.Enough (3 + texts.length)) :
    ∃ item parts s', makeItem s label texts = (some item, s') ∧ Holds s'.heap item parts ⟨label, texts⟩ ∧
      Heap.Grown s.heap s'.heap parts ∧ s'.finder = s.finder.spent (3 + texts.length) ∧ s'.items = s.items := by
  have hrest : (s.prepared texts.length label).finder.Enough texts.length := by
    intro k hk
    have hnext := he (3 + k) (by omega)
    rwa [← Nat.add_assoc] at hnext
  obtain ⟨copies, s', hrun, hc, hfinder, hitems⟩ := copyArgs_enough (copying_prepared hf label texts) hrest
  have hitem := hc.item
  rw [append_nil] at hitem
  refine ⟨_, _, s', ?_, ⟨copies, _, _, rfl, hitem, hc.label, hc.vector, hc.copied⟩, hc.grown, ?_, hitems⟩
  · rw [makeItem_prepared fun k hk => he k (by omega), hrun]
    rfl
  · have hprepared : (s.prepared texts.length label).finder = s.finder.spent 3 := rfl
    rw [hfinder, hprepared, Finder.spent_spent]

/-- **Without it, nothing is left of the item.** -/
theorem makeItem_short (label : List Char) (hf : s.heap.Fresh) (he : ¬ s.finder.Enough (3 + texts.length)) :
    ∃ s', makeItem s label texts = (none, s') ∧ Heap.Grown s.heap s'.heap [] ∧
      s'.finder.fault = s.finder.fault ∧ s'.items = s.items := by
  by_cases hthree : s.finder.Enough 3
  · have hrest : ¬ (s.prepared texts.length label).finder.Enough texts.length := by
      intro hrest
      refine he fun k hk => ?_
      by_cases hlt : k < 3
      · exact hthree k hlt
      · have hnext := hrest (k - 3) (by omega)
        have hsum : s.finder.asked + 3 + (k - 3) = s.finder.asked + k := by omega
        rw [← hsum]
        exact hnext
    obtain ⟨copies, s', hrun, hgrown, hfault, hitems⟩ := copyArgs_short (copying_prepared hf label texts) hrest
    rw [← append_nil (copies ++ _)] at hgrown
    refine ⟨(s'.release (copies ++ _)).fail .enomem, ?_, hgrown.freeAll, hfault, hitems⟩
    rw [makeItem_prepared hthree, hrun]
    rfl
  · -- one of the first three objects is missing
    cases hitem : s.finder.granted s.finder.asked with
    | false =>
      refine ⟨s.refused.fail .enomem, ?_, Heap.Grown.refl hf, rfl, rfl⟩
      simp only [makeItem, Creation.allocate_refused _ _ hitem]
    | true =>
      have hfirst := Creation.allocate_granted s (.item none 0 none) hitem
      have hgrown := grown_begun hf texts.length
      cases hlabel : s.finder.granted (s.finder.asked + 1) with
      | false =>
        have hsecond := Creation.allocate_refused (s.begun texts.length) (.text label) hlabel
        simp only [Creation.begun] at hsecond
        refine ⟨((s.begun texts.length).refused.release [s.heap.next]).fail .enomem, ?_, hgrown.free, rfl, rfl⟩
        simp only [makeItem, hfirst, hsecond]
        rfl
      | true =>
        have hvector : s.finder.granted (s.finder.asked + 2) = false := by
          by_contra hthird
          refine hthree fun k hk => ?_
          grind
        have hsecond := Creation.allocate_granted (s.begun texts.length) (.text label) hlabel
        have hthird := Creation.allocate_refused (s.labelled texts.length label)
          (.vector (List.replicate (texts.length + 1) none)) hvector
        simp only [Creation.labelled, Creation.begun] at hsecond hthird
        refine ⟨((s.labelled texts.length label).refused.release
          [(s.begun texts.length).heap.next, s.heap.next]).fail .enomem, ?_,
          (grown_labelled hf texts.length label).1.free.free, rfl, rfl⟩
        simp only [makeItem, hfirst, hsecond, hthird]
        rfl

end

/-! ## Lines -/

/-- The search finds a line: its key has `create_args_` in it. -/
def Matched (line : CStr) : Prop := createArgs <:+: lineKey line

/-- A line of a label: its key begins with `create_args_`. -/
def Labels (line : CStr) : Prop := createArgs <+: lineKey line

instance (line : CStr) : Decidable (Matched line) := inferInstanceAs (Decidable (_ <:+: _))

instance (line : CStr) : Decidable (Labels line) := inferInstanceAs (Decidable (_ <+: _))

def lineLabel (line : CStr) : List Char := (lineKey line).drop createArgs.length

def lineEntry (line : CStr) : Entry := ⟨lineLabel line, lineArgs line⟩

def expected (lines : List CStr) : List Entry := (lines.filter fun line => decide (Labels line)).map lineEntry

def builtEntry (line : CStr) : Entry :=
  ⟨lineLabel line, List.replicate (lineVector line).argc (lineKey line)⟩

/-- The allocations that a line takes: two for its vector, and those of the item. -/
def cost (line : CStr) : ℕ :=
  if line.chars = [] then 0 else if Matched line then 2 + (3 + (lineVector line).argc) else 2

/-- A regular expression of POSIX matches a part of the string. -/
def Posix (regex : Engine) : Prop :=
  ∀ key, regex createArgsExpression key ≠ .failed →
    (regex createArgsExpression key = .found ↔ createArgs <:+: key)

/-- The lines before the first one at which the search ends with an error. -/
def searched (regex : Engine) (granted : ℕ → Bool) : ℕ → List CStr → List CStr
  | _, [] => []
  | asked, line :: rest =>
    if SearchFails regex createArgsExpression granted asked line then []
    else line :: searched regex granted (asked + cost line) rest

/-- A line cannot be recorded behind items of the labels: its label is there, or memory for it is missing. -/
def RecordFails (granted : ℕ → Bool) (asked : ℕ) (labels : List (List Char)) (line : CStr) : Prop :=
  Matched line ∧ ((∃ l ∈ labels, strcasecmp l (lineLabel line) = true) ∨
    ∃ k < 3 + (lineVector line).argc, granted (asked + 2 + k) = false)

/-- One of the lines, of which those before it are recorded, cannot be. -/
def RecordFailsIn (granted : ℕ → Bool) : ℕ → List (List Char) → List CStr → Prop
  | _, _, [] => False
  | asked, labels, line :: rest =>
    RecordFails granted asked labels line ∨
      RecordFailsIn granted (asked + cost line) (if Matched line then labels ++ [lineLabel line] else labels) rest

/-! ## The body of the loop -/

def ChainLabels (h : Heap ItemObj) (items : List ℕ) (labels : List (List Char)) : Prop :=
  List.Forall₂ (fun i l => labelAt h i = some l) items labels

section

variable {s : Creation} {h h' : Heap ItemObj} {line : CStr} {labels : List (List Char)} {items parts : List ℕ}

theorem duplicate_eq (hc : ChainLabels h items labels) (label : List Char) :
    duplicate h label items = some (labels.any fun l => strcasecmp l label) := by
  induction hc with
  | nil => rfl
  | @cons i l items labels hl _ ih =>
    grind [duplicate]

theorem labelAt_grown (hg : Heap.Grown h h' parts) {i : ℕ} {l : List Char} (hl : labelAt h i = some l) :
    labelAt h' i = some l := by
  grind [labelAt, textAt, hg.keeps]

theorem ChainLabels.grown (hc : ChainLabels h items labels) (hg : Heap.Grown h h' parts) :
    ChainLabels h' items labels :=
  hc.imp fun _ _ hl => labelAt_grown hg hl

theorem Holds.labelAt_eq {i : ℕ} {e : Entry} (hh : Holds h i parts e) : labelAt h i = some e.label := by
  obtain ⟨copies, v, l, -, hitem, hlabel, -, -⟩ := hh.complete
  unfold labelAt textAt
  simp only [hitem, hlabel]

theorem Holds.grown {i : ℕ} {e : Entry} {more : List ℕ} (hh : Holds h i parts e) (hg : Heap.Grown h h' more) :
    Holds h' i parts e := by
  obtain ⟨copies, v, l, hparts, hitem, hlabel, hvector, hcopied⟩ := hh.complete
  exact ⟨copies, v, l, hparts, hg.keeps hitem, hg.keeps hlabel, hg.keeps hvector,
    hcopied.imp fun _ _ ha => hg.keeps ha⟩

theorem Matched.key_length (hfound : Matched line) : ¬ (lineKey line).length < createArgs.length := by
  have hle := hfound.length_le
  omega

theorem Matched.key_eq (hfound : Matched line) : (lineVector line).arg 0 = some (lineKey line) := by
  refine (lineArgs_of_key ⟨'c', hfound.subset (by decide), by decide⟩).1

theorem record_eq (hfound : Matched line) (haa : s.finder.aa = lineVector line)
    (hc : ChainLabels s.heap s.items labels) :
    record s =
      if labels.any (fun l => strcasecmp l (lineLabel line)) then (false, s.fail .eexist)
      else
        ((makeItem s (lineLabel line) (builtEntry line).args).1.isSome,
          { (makeItem s (lineLabel line) (builtEntry line).args).2 with
            items := (makeItem s (lineLabel line) (builtEntry line).args).2.items ++
              (makeItem s (lineLabel line) (builtEntry line).args).1.toList }) := by
  unfold record
  rw [haa, hfound.key_eq, getD_some, if_neg hfound.key_length]
  simp only [duplicate_eq hc]
  cases hany : labels.any fun l => strcasecmp l ((lineKey line).drop createArgs.length) with
  | true =>
    unfold lineLabel
    rw [if_pos hany]
  | false =>
    unfold lineLabel
    rw [if_neg (by rw [hany]; exact Bool.false_ne_true)]
    simp only [builtEntry]
    rcases makeItem s ((lineKey line).drop createArgs.length)
      (List.replicate (lineVector line).argc (lineKey line)) with ⟨_ | item, s'⟩
    · simp
    · simp

theorem record_ok (hfound : Matched line) (haa : s.finder.aa = lineVector line)
    (hc : ChainLabels s.heap s.items labels) (hf : s.heap.Fresh) {asked : ℕ} (hasked : s.finder.asked = asked + 2)
    (hno : ¬ RecordFails s.finder.granted asked labels line) :
    ∃ item parts s', record s = (true, s') ∧ s'.items = s.items ++ [item] ∧
      Holds s'.heap item parts (builtEntry line) ∧ Heap.Grown s.heap s'.heap parts ∧
      s'.finder = s.finder.spent (3 + (lineVector line).argc) := by
  have hlength : (builtEntry line).args.length = (lineVector line).argc := length_replicate
  have hfresh : labels.any (fun l => strcasecmp l (lineLabel line)) = false := by
    grind [RecordFails]
  have henough : s.finder.Enough (3 + (builtEntry line).args.length) := by
    intro k hk
    by_contra hg
    rw [hlength] at hk
    rw [hasked, Bool.not_eq_true] at hg
    exact hno ⟨hfound, .inr ⟨k, hk, hg⟩⟩
  obtain ⟨item, parts, s', hmake, hholds, hgrown, hfinder, hitems⟩ :=
    makeItem_enough (lineLabel line) hf henough
  refine ⟨item, parts, { s' with items := s.items ++ [item] }, ?_, rfl, hholds, hgrown, ?_⟩
  · rw [record_eq hfound haa hc, hfresh, hmake, hitems]
    rfl
  · rw [← hlength]
    exact hfinder

theorem record_fails (hfound : Matched line) (haa : s.finder.aa = lineVector line)
    (hc : ChainLabels s.heap s.items labels) (hf : s.heap.Fresh) {asked : ℕ} (hasked : s.finder.asked = asked + 2)
    (hrejected : RecordFails s.finder.granted asked labels line) :
    ∃ s', record s = (false, s') ∧ s'.items = s.items ∧ Heap.Grown s.heap s'.heap [] ∧
      s'.finder.fault = s.finder.fault := by
  have hlength : (builtEntry line).args.length = (lineVector line).argc := length_replicate
  rw [record_eq hfound haa hc]
  cases hany : labels.any fun l => strcasecmp l (lineLabel line) with
  | true => exact ⟨s.fail .eexist, rfl, rfl, Heap.Grown.refl hf, rfl⟩
  | false =>
    have hshort : ¬ s.finder.Enough (3 + (builtEntry line).args.length) := by
      intro henough
      grind [RecordFails, Finder.Enough]
    obtain ⟨s', hmake, hgrown, hfault, hitems⟩ := makeItem_short (lineLabel line) hf hshort
    refine ⟨s', ?_, hitems, hgrown, hfault⟩
    rw [hmake]
    simp

end

/-! ## The loop -/

/-- What a run adds: items that are complete, and no other objects. -/
structure Progress (s s' : Creation) (new : List ℕ) (es : List (List ℕ × Entry)) : Prop where
  items : s'.items = s.items ++ new
  holds : List.Forall₂ (fun i e => Holds s'.heap i e.1 e.2) new es
  grown : Heap.Grown s.heap s'.heap (es.flatMap Prod.fst)
  fault : s'.finder.fault = s.finder.fault

section

variable {regex : Engine} {s s' : Creation} {line : CStr} {rest : List CStr} {labels : List (List Char)}
  {granted : ℕ → Bool} {asked : ℕ}

theorem Progress.none (hitems : s'.items = s.items) (hgrown : Heap.Grown s.heap s'.heap [])
    (hfault : s'.finder.fault = s.finder.fault) : Progress s s' [] [] where
  items := hitems.trans (append_nil _).symm
  holds := .nil
  grown := hgrown
  fault := hfault

theorem Progress.item {s₁ : Creation} {item : ℕ} {parts new : List ℕ} {e : Entry} {es : List (List ℕ × Entry)}
    (hitems : s₁.items = s.items ++ [item]) (hholds : Holds s₁.heap item parts e)
    (hgrown : Heap.Grown s.heap s₁.heap parts) (hfault : s₁.finder.fault = s.finder.fault)
    (hp : Progress s₁ s' new es) : Progress s s' (item :: new) ((parts, e) :: es) where
  items := by simp [hp.items, hitems]
  holds := .cons (hholds.grown hp.grown) hp.holds
  grown := (hgrown.trans hp.grown).perm perm_append_comm
  fault := hp.fault.trans hfault

theorem not_matched_of_empty (hline : line.chars = []) : ¬ Matched line := by
  intro hfound
  have hkey : lineKey line = [] := by
    obtain ⟨chars, clean⟩ := line
    cases hline
    rfl
  have hle := hfound.length_le
  rw [hkey] at hle
  exact absurd hle (by decide)

theorem searched_cons (hok : ¬ SearchFails regex createArgsExpression granted asked line) :
    searched regex granted asked (line :: rest) = line :: searched regex granted (asked + cost line) rest := by
  rw [searched, if_neg hok]

theorem searched_fails (hfails : SearchFails regex createArgsExpression granted asked line) :
    searched regex granted asked (line :: rest) = [] := by
  rw [searched, if_pos hfails]

theorem recordFailsIn_cons_of_not_matched (hno : ¬ Matched line) :
    RecordFailsIn granted asked labels (line :: rest) ↔ RecordFailsIn granted (asked + cost line) labels rest := by
  have hfree : ¬ RecordFails granted asked labels line := fun h => hno h.1
  rw [RecordFailsIn, if_neg hno]
  simp [hfree]

/-- **The loop records the lines that are found up to an error of the search, if none of them is rejected.** -/
theorem loadLoop_run (hposix : Posix regex) {fuel : ℕ} (hs : Searching s.finder createArgsExpression rest)
    (hc : ChainLabels s.heap s.items labels) (hf : s.heap.Fresh) (hfuel : rest.length < fuel) :
    ∃ result s' new es, loadLoop regex fuel (s.findNext regex) = some (result, s') ∧ Progress s s' new es ∧
      (RecordFailsIn s.finder.granted s.finder.asked labels
        (searched regex s.finder.granted s.finder.asked rest) → result = -1) ∧
      (¬ RecordFailsIn s.finder.granted s.finder.asked labels
        (searched regex s.finder.granted s.finder.asked rest) →
        result = 0 ∧ es.map Prod.snd =
          ((searched regex s.finder.granted s.finder.asked rest).filter fun line => decide (Matched line)).map
            builtEntry) := by
  induction rest generalizing s labels fuel with
  | nil =>
    obtain ⟨fuel, rfl⟩ : ∃ n, fuel = n + 1 := ⟨fuel - 1, by omega⟩
    simp only [Creation.findNext, findNext_nil hs]
    exact ⟨0, _, [], [], rfl, Progress.none rfl (Heap.Grown.refl hf) rfl, fun h => absurd h id, fun _ => ⟨rfl, rfl⟩⟩
  | cons line rest ih =>
    obtain ⟨fuel, rfl⟩ : ∃ n, fuel = n + 1 := ⟨fuel - 1, by omega⟩
    rw [length_cons] at hfuel
    by_cases hfails : SearchFails regex createArgsExpression s.finder.granted s.finder.asked line
    · obtain ⟨f', hnext, hfailed⟩ := findNext_fails hs hfails
      simp only [Creation.findNext, hnext, searched_fails hfails]
      exact ⟨0, { s with finder := f' }, [], [], rfl, Progress.none rfl (Heap.Grown.refl hf) hfailed.fault,
        fun h => absurd h id, fun _ => ⟨rfl, rfl⟩⟩
    rw [searched_cons hfails]
    by_cases hempty : line.chars = []
    · have hno := not_matched_of_empty hempty
      have hcost : cost line = 0 := if_pos hempty
      have hnext : s.findNext regex = Creation.findNext regex { s with finder := s.finder.skip } := by
        simp only [Creation.findNext, findNext_empty hs hempty]
      rw [hnext, recordFailsIn_cons_of_not_matched hno, filter_cons_of_neg (by simpa using hno), hcost]
      obtain ⟨result, s', new, es, hrun, hp, hresult⟩ :=
        @ih { s with finder := s.finder.skip } labels (fuel + 1) hs.skip hc hf (by omega)
      exact ⟨result, s', new, es, hrun, ⟨hp.items, hp.holds, hp.grown, hp.fault⟩, hresult⟩
    have hregex : regex createArgsExpression (lineKey line) ≠ .failed :=
      fun h => hfails ⟨hempty, .inr (.inr (.inr h))⟩
    by_cases hfound : Matched line
    · have hnext : s.findNext regex = (true, { s with finder := s.finder.read line }) := by
        simp only [Creation.findNext, findNext_found hs hempty hfails ((hposix _ hregex).mpr hfound)]
      have hcost : cost line = 2 + (3 + (lineVector line).argc) := (if_neg hempty).trans (if_pos hfound)
      rw [hnext, filter_cons_of_pos (by simpa using hfound)]
      simp only [RecordFailsIn, if_pos hfound]
      by_cases hrejected : RecordFails s.finder.granted s.finder.asked labels line
      · obtain ⟨s', hrecord, hitems, hgrown, hfault⟩ :=
          @record_fails { s with finder := s.finder.read line } line labels hfound rfl hc hf _ rfl hrejected
        refine ⟨-1, s', [], [], ?_, Progress.none hitems hgrown hfault, fun _ => rfl, ?_⟩
        · simp only [loadLoop, hrecord]
        · exact fun h => absurd (.inl hrejected) h
      · obtain ⟨item, parts, s₁, hrecord, hitems, hholds, hgrown, hfinder⟩ :=
          @record_ok { s with finder := s.finder.read line } line labels hfound rfl hc hf _ rfl hrejected
        have hs₁ : Searching s₁.finder createArgsExpression rest := by
          rw [hfinder]
          exact ⟨hs.read.usable, hs.read.expression, hs.read.rest⟩
        have hc₁ : ChainLabels s₁.heap s₁.items (labels ++ [lineLabel line]) := by
          rw [hitems]
          exact rel_append (hc.grown hgrown) (.cons hholds.labelAt_eq .nil)
        obtain ⟨result, s', new, es, hrun, hp, hminus, hzero⟩ := @ih s₁ _ fuel hs₁ hc₁ hgrown.fresh (by omega)
        have hgranted : s₁.finder.granted = s.finder.granted := by
          rw [hfinder]
          rfl
        have hasked : s₁.finder.asked = s.finder.asked + cost line := by
          rw [hfinder, hcost, ← Nat.add_assoc]
          rfl
        have hfault : s₁.finder.fault = s.finder.fault := by
          rw [hfinder]
          rfl
        rw [hgranted, hasked] at hminus hzero
        refine ⟨result, s', item :: new, (parts, builtEntry line) :: es, ?_,
          Progress.item hitems hholds hgrown hfault hp, ?_, ?_⟩
        · simp only [loadLoop, hrecord]
          exact hrun
        · rintro (h | h)
          · exact absurd h hrejected
          · exact hminus h
        · intro h
          grind
    · have hpass : regex createArgsExpression (lineKey line) = .noMatch := by
        cases hr : regex createArgsExpression (lineKey line) with
        | found => exact absurd ((hposix _ hregex).mp hr) hfound
        | noMatch => rfl
        | failed => exact absurd hr hregex
      have hcost : cost line = 2 := (if_neg hempty).trans (if_neg hfound)
      have hnext : s.findNext regex = Creation.findNext regex { s with finder := s.finder.read line } := by
        simp only [Creation.findNext, findNext_passes hs hempty hfails hpass]
      rw [hnext, recordFailsIn_cons_of_not_matched hfound, filter_cons_of_neg (by simpa using hfound), hcost]
      obtain ⟨result, s', new, es, hrun, hp, hresult⟩ :=
        @ih { s with finder := s.finder.read line } labels (fuel + 1) hs.read hc hf (by omega)
      exact ⟨result, s', new, es, hrun, ⟨hp.items, hp.holds, hp.grown, hp.fault⟩, hresult⟩

end

/-! ## The function -/

/-- The lines up to an error of the search; without memory for its expression there are none. -/
def searchedLines (regex : Engine) (f : Finder) : List CStr :=
  if f.granted f.asked then searched regex f.granted (f.asked + 1) f.lines else []

def Duplicates : List (List Char) → List Entry → Prop
  | _, [] => False
  | labels, e :: es => (∃ l ∈ labels, strcasecmp l e.label = true) ∨ Duplicates (labels ++ [e.label]) es

/-- What is expected of a call with result `result`: it adds items that are complete, and no other objects; if
    it succeeds, these are the items of the lines, and it does not succeed with a duplicate label. -/
structure LoadOk (s : Creation) (labels : List (List Char)) (result : ℤ) (s' : Creation) : Prop where
  recorded : ∃ new es, Progress s s' new es ∧ (result = 0 → es.map Prod.snd = expected s.finder.lines)
  duplicates : Duplicates labels (expected s.finder.lines) → result = -1

def OnlyKey (line : CStr) : Prop := ∀ a ∈ lineArgs line, a = lineKey line

section

variable {regex : Engine} {s s' : Creation} {line : CStr} {lines : List CStr} {labels : List (List Char)}
  {granted : ℕ → Bool} {asked : ℕ}

theorem loadCreateArgs_run (hposix : Posix regex) (husable : Usable s.finder.aa)
    (hc : ChainLabels s.heap s.items labels) (hf : s.heap.Fresh) :
    ∃ result s' new es, loadCreateArgs regex s = some (result, s') ∧ Progress s s' new es ∧
      (RecordFailsIn s.finder.granted (s.finder.asked + 1) labels (searchedLines regex s.finder) → result = -1) ∧
      (¬ RecordFailsIn s.finder.granted (s.finder.asked + 1) labels (searchedLines regex s.finder) →
        result = 0 ∧ es.map Prod.snd =
          ((searchedLines regex s.finder).filter fun line => decide (Matched line)).map builtEntry) := by
  unfold searchedLines loadCreateArgs find
  rw [if_neg (not_not.mpr husable.marker)]
  cases hg : s.finder.granted s.finder.asked with
  | false =>
    simp only [Finder.ask, hg]
    exact ⟨0, _, [], [], rfl, Progress.none rfl (Heap.Grown.refl hf) rfl, fun h => absurd h id, fun _ => ⟨rfl, rfl⟩⟩
  | true =>
    obtain ⟨f, hf'⟩ : ∃ f, f = ({ s.finder with
        line := 0, asked := s.finder.asked + 1, findRegex := some createArgsExpression } : Finder) := ⟨_, rfl⟩
    have hs : Searching f createArgsExpression s.finder.lines := by
      rw [hf']
      exact ⟨husable, rfl, rfl⟩
    obtain ⟨result, s', new, es, hrun, hp, hresult⟩ :=
      @loadLoop_run regex { s with finder := f } s.finder.lines labels hposix (s.finder.lines.length + 1) hs hc hf
        (Nat.lt_succ_self _)
    simp only [Finder.ask, hg, if_true]
    subst hf'
    exact ⟨result, s', new, es, hrun, ⟨hp.items, hp.holds, hp.grown, hp.fault⟩, hresult⟩

/-! ### What an item says -/

theorem Holds.unique {h : Heap ItemObj} {i : ℕ} {parts parts' : List ℕ} {e e' : Entry} (hh : Holds h i parts e)
    (hh' : Holds h i parts' e') : e = e' := by
  obtain ⟨copies, v, l, -, hitem, hlabel, hvector, hcopied⟩ := hh.complete
  obtain ⟨copies', v', l', -, hitem', hlabel', hvector', hcopied'⟩ := hh'.complete
  have hsame := hitem.symm.trans hitem'
  simp only [some.injEq, ItemObj.item.injEq] at hsame
  obtain ⟨rfl, -, rfl⟩ := hsame
  have hlabels := hlabel.symm.trans hlabel'
  simp only [some.injEq, ItemObj.text.injEq] at hlabels
  have hvectors := hvector.symm.trans hvector'
  simp only [some.injEq, ItemObj.vector.injEq, append_cancel_right_eq] at hvectors
  have hcopies : copies = copies' := map_injective_iff.mpr (fun _ _ heq => some.inj heq) hvectors
  subst hcopies
  have hargs : e.args = e'.args := by
    refine right_unique_forall₂' ?_ hcopied hcopied'
    intro a t t' ht ht'
    exact ItemObj.text.inj (some.inj (ht.symm.trans ht'))
  exact congrArg₂ Entry.mk hlabels hargs

theorem Progress.unique {new new' : List ℕ} {es es' : List (List ℕ × Entry)} (hp : Progress s s' new es)
    (hp' : Progress s s' new' es') : es.map Prod.snd = es'.map Prod.snd := by
  have hnew : new = new' := append_cancel_left (hp.items.symm.trans hp'.items)
  subst hnew
  have hholds : ∀ {es : List (List ℕ × Entry)}, List.Forall₂ (fun i e => Holds s'.heap i e.1 e.2) new es →
      List.Forall₂ (fun i e => ∃ parts, Holds s'.heap i parts e) new (es.map Prod.snd) := by
    intro es h
    exact List.forall₂_map_right_iff.mpr (h.imp fun _ e he => ⟨e.1, he⟩)
  refine right_unique_forall₂' ?_ (hholds hp.holds) (hholds hp'.holds)
  rintro i e e' ⟨parts, he⟩ ⟨parts', he'⟩
  exact he.unique he'

/-! ### The condition -/

theorem Labels.matched (h : Labels line) : Matched line := h.isInfix

theorem Matched.args (hfound : Matched line) :
    (lineArgs line).length = (lineVector line).argc ∧ (lineArgs line).head? = some (lineKey line) :=
  (lineArgs_of_key ⟨'c', hfound.subset (by decide), by decide⟩).2

theorem searched_append (regex : Engine) (granted : ℕ → Bool) (asked : ℕ) (lines : List CStr) :
    searched regex granted asked lines ++ lines.drop (searched regex granted asked lines).length = lines := by
  induction lines generalizing asked with
  | nil => rfl
  | cons line lines ih =>
    grind [searched]

theorem searchedLines_append (regex : Engine) (f : Finder) :
    searchedLines regex f ++ f.lines.drop (searchedLines regex f).length = f.lines := by
  unfold searchedLines
  split
  · exact searched_append _ _ _ _
  · rfl

theorem builtEntry_eq_iff (hfound : Matched line) : builtEntry line = lineEntry line ↔ OnlyKey line := by
  unfold builtEntry lineEntry OnlyKey
  simp only [Entry.mk.injEq, true_and]
  rw [eq_comm, eq_replicate_iff]
  exact and_iff_right hfound.args.1

theorem head_builtEntry (hfound : Matched line) : (builtEntry line).args.head? = some (lineKey line) := by
  obtain ⟨hlength, hhead⟩ := hfound.args
  have hpos : 0 < (lineVector line).argc := by
    grind
  obtain ⟨n, hn⟩ := Nat.exists_eq_succ_of_ne_zero (Nat.ne_of_gt hpos)
  unfold builtEntry
  rw [hn]
  rfl

theorem not_duplicates (hno : ¬ RecordFailsIn granted asked labels lines) :
    ¬ Duplicates labels ((lines.filter fun line => decide (Matched line)).map builtEntry) := by
  induction lines generalizing asked labels with
  | nil => exact id
  | cons line lines ih =>
    rw [RecordFailsIn, not_or] at hno
    by_cases hfound : Matched line
    · grind [Duplicates, builtEntry, RecordFails]
    · grind

/-- What is built of the first lines is what is expected of all of them exactly when those of the first ones
    that are found are of labels and have only their keys, and none of the others is of a label. -/
theorem built_eq_expected_iff (lines rest : List CStr) :
    (lines.filter fun line => decide (Matched line)).map builtEntry = expected (lines ++ rest) ↔
      (∀ line ∈ lines, Matched line → Labels line ∧ OnlyKey line) ∧ ∀ line ∈ rest, ¬ Labels line := by
  have hsplit : expected (lines ++ rest) = expected lines ++ expected rest := by
    unfold expected
    simp
  -- the lines that are found are those of labels
  have hsame : (∀ line ∈ lines, Matched line → Labels line) →
      (lines.filter fun line => decide (Matched line)) = lines.filter fun line => decide (Labels line) := by
    intro hlabels
    apply filter_congr
    intro line hline
    rw [decide_eq_decide]
    exact ⟨hlabels line hline, Labels.matched⟩
  rw [hsplit]
  constructor
  · intro heq
    have hlabels : ∀ line ∈ lines, Matched line → Labels line := by
      intro line hline hfound
      have hmem : builtEntry line ∈ expected lines ++ expected rest := by
        rw [← heq]
        exact mem_map_of_mem (mem_filter.mpr ⟨hline, by simpa using hfound⟩)
      unfold expected at hmem
      rw [← map_append, ← filter_append] at hmem
      obtain ⟨other, hother, hentry⟩ := mem_map.mp hmem
      have hlabel : Labels other := by simpa using (mem_filter.mp hother).2
      have hkeys := congrArg (fun e : Entry => e.args.head?) hentry
      have hkey : lineKey other = lineKey line := by
        have hother : (lineEntry other).args.head? = some (lineKey other) := hlabel.matched.args.2
        exact some.inj (hother.symm.trans (hkeys.trans (head_builtEntry hfound)))
      unfold Labels at hlabel ⊢
      rwa [← hkey]
    rw [hsame hlabels] at heq
    have hlength := congrArg List.length heq
    rw [length_append, expected, length_map, length_map] at hlength
    have hnone : expected rest = [] := eq_nil_of_length_eq_zero (by omega)
    rw [hnone, append_nil] at heq
    refine ⟨fun line hline hfound => ⟨hlabels line hline hfound, ?_⟩, ?_⟩
    · have hmem : line ∈ lines.filter fun line => decide (Labels line) :=
        mem_filter.mpr ⟨hline, decide_eq_true (hlabels line hline hfound)⟩
      exact (builtEntry_eq_iff hfound).mp (map_inj_left.mp heq line hmem)
    · intro line hline hlabel
      have hmem : lineEntry line ∈ expected rest :=
        mem_map_of_mem (mem_filter.mpr ⟨hline, decide_eq_true hlabel⟩)
      rw [hnone] at hmem
      cases hmem
  · rintro ⟨hgood, hrest⟩
    have hnone : expected rest = [] := by
      unfold expected
      rw [map_eq_nil_iff, filter_eq_nil_iff]
      intro line hline
      simpa using hrest line hline
    rw [hsame fun line hline hfound => (hgood line hline hfound).1, hnone, append_nil]
    apply map_congr_left
    intro line hline
    obtain ⟨hmem, hlabel⟩ := mem_filter.mp hline
    have hfound : Matched line := Labels.matched (by simpa using hlabel)
    exact (builtEntry_eq_iff hfound).mpr (hgood line hmem hfound).2

/-- **The arguments are recorded as expected exactly when a line that the search reaches is rejected, or each of
    those that it finds has a key that begins with `create_args_` as its only argument and there is no line of
    a label behind an error of the search.** -/
theorem load_ok_iff (hposix : Posix regex) (husable : Usable s.finder.aa) (hf : s.heap.Fresh)
    (hc : ChainLabels s.heap s.items labels) :
    (∃ result s', loadCreateArgs regex s = some (result, s') ∧ LoadOk s labels result s') ↔
      RecordFailsIn s.finder.granted (s.finder.asked + 1) labels (searchedLines regex s.finder) ∨
        (∀ line ∈ searchedLines regex s.finder, Matched line → Labels line ∧ OnlyKey line) ∧
          ∀ line ∈ s.finder.lines.drop (searchedLines regex s.finder).length, ¬ Labels line := by
  obtain ⟨result, s', new, es, hrun, hp, hminus, hzero⟩ := loadCreateArgs_run hposix husable hc hf
  have hiff := built_eq_expected_iff (searchedLines regex s.finder)
    (s.finder.lines.drop (searchedLines regex s.finder).length)
  rw [searchedLines_append] at hiff
  by_cases hrejected : RecordFailsIn s.finder.granted (s.finder.asked + 1) labels (searchedLines regex s.finder)
  · refine iff_of_true ⟨result, s', hrun, ⟨⟨new, es, hp, ?_⟩, fun _ => hminus hrejected⟩⟩ (.inl hrejected)
    intro hsuccess
    rw [hminus hrejected] at hsuccess
    cases hsuccess
  · obtain ⟨hresult, hes⟩ := hzero hrejected
    rw [or_iff_right hrejected, ← hiff]
    constructor
    · rintro ⟨result', s'', hrun', hok⟩
      grind [hok.recorded, hp.unique]
    · intro heq
      refine ⟨result, s', hrun, ⟨⟨new, es, hp, fun _ => hes.trans heq⟩, ?_⟩⟩
      rw [← heq]
      exact fun hdup => absurd hdup (not_duplicates hrejected)

end

/-! ## Files -/

/-- The engine, as it behaves for the expression of the function. -/
def createArgsEngine : Engine := fun _ key => if createArgs <:+: key then .found else .noMatch

theorem posix_createArgsEngine : Posix createArgsEngine := by
  intro key _
  unfold createArgsEngine
  split <;> simp [*]

def creationOf (lines : List CStr) : Creation :=
  ⟨⟨lines, 0, none, emptyVector, .other 0, fun _ => true, 0, false⟩, Heap.empty, []⟩

/-- `create_args_vlan0`, without arguments. -/
def keyOnly : Creation := creationOf [⟨"create_args_vlan0".toList, by decide⟩]

/-- `create_args_vlan0="vlan 102"`. -/
def twoArguments : Creation := creationOf [⟨"create_args_vlan0=\"vlan 102\"".toList, by decide⟩]

theorem load_ok_iff_keyOnly :
    (∃ result s', loadCreateArgs createArgsEngine keyOnly = some (result, s') ∧ LoadOk keyOnly [] result s') ↔
      RecordFailsIn keyOnly.finder.granted (keyOnly.finder.asked + 1) []
          (searchedLines createArgsEngine keyOnly.finder) ∨
        (∀ line ∈ searchedLines createArgsEngine keyOnly.finder, Matched line → Labels line ∧ OnlyKey line) ∧
          ∀ line ∈ keyOnly.finder.lines.drop (searchedLines createArgsEngine keyOnly.finder).length,
            ¬ Labels line :=
  load_ok_iff posix_createArgsEngine ⟨rfl, by decide⟩ Heap.fresh_empty .nil

/-- The item of a line with arguments has the key in the place of each of them. -/
theorem twoArguments_lost :
    ¬ ∃ result s', loadCreateArgs createArgsEngine twoArguments = some (result, s') ∧
      LoadOk twoArguments [] result s' := by
  have husable : Usable twoArguments.finder.aa := ⟨rfl, by decide⟩
  obtain ⟨result, s', new, es, hrun, hp, -, hzero⟩ :=
    @loadCreateArgs_run createArgsEngine twoArguments [] posix_createArgsEngine husable .nil Heap.fresh_empty
  have hnot : ¬ RecordFailsIn twoArguments.finder.granted (twoArguments.finder.asked + 1) []
      (searchedLines createArgsEngine twoArguments.finder) := by
    rintro (⟨-, ⟨l, hl, -⟩ | ⟨k, -, hg⟩⟩ | hrest)
    · cases hl
    · cases hg
    · exact hrest
  obtain ⟨hresult, hes⟩ := hzero hnot
  rintro ⟨result', s'', hrun', hok⟩
  obtain ⟨rfl, rfl⟩ := Prod.mk.inj (some.inj (hrun.symm.trans hrun'))
  obtain ⟨new', es', hp', hexpected⟩ := hok.recorded
  have hsame := hes.symm.trans ((hp.unique hp').trans (hexpected hresult))
  revert hsame
  decide

end RtemsLibbsd.RcConf

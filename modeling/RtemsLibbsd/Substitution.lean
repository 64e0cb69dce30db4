import Mathlib.Data.List.Basic
import Mathlib.Data.List.Infix

/-!
# Substitution of patterns in a text

The regular expressions that consist of characters, of dots and of groups `([^c]*)`, and the replacement of what
matches them, from left to right and without overlaps.

* `matchAt` — a match at the start of a text, with backtracking; a group is as long as it can be.
* `sub` — the replacement in a text.

A pattern that begins with a marker matches at markers only.  A text is cut at the markers into pieces
(`join`), and if no match goes on into the next piece, the replacement is done piece by piece:

* `Local` — the match in a piece does not depend on what follows the piece.
* `sub_join` — the replacement in a text is the one in its pieces.
* `exists_join`, `join_injective` — each text is cut into pieces in one way.
-/

namespace RtemsLibbsd.Substitution

open List

universe u v

variable {α : Type u}

section Pieces

variable (m : α) (ms : List α)

/-- A text that is cut at the markers `m :: ms`. -/
def join (head : List α) (segs : List (List α)) : List α := head ++ segs.flatMap (m :: ms ++ ·)

def Free (s : List α) : Prop := ¬ m :: ms <:+: s

def Tail (t : List α) : Prop := t = [] ∨ ∃ u, t = m :: ms ++ u

variable {m ms} (hm : m ∉ ms)

theorem free_nil : Free m ms [] := by
  intro h
  cases infix_nil.mp h

variable {s t : List α}

theorem Free.of_infix (h : Free m ms s) (hst : t <:+: s) : Free m ms t := fun ht => h (ht.trans hst)

theorem Free.of_suffix (h : Free m ms s) (hst : t <:+ s) : Free m ms t := h.of_infix hst.isInfix

theorem tail_segs (segs : List (List α)) : Tail m ms (segs.flatMap (m :: ms ++ ·)) := by
  cases segs with
  | nil => exact .inl rfl
  | cons s segs => exact .inr ⟨s ++ segs.flatMap (m :: ms ++ ·), by simp⟩

include hm in
theorem prefix_of_append {x : α} (ht : Tail m ms t) (h : m :: ms <+: x :: s ++ t) :
    m :: ms <+: x :: s := by
  rcases ht with rfl | ⟨u, rfl⟩
  · simpa using h
  rcases prefix_or_prefix_of_prefix h (prefix_append (x :: s) _) with h' | ⟨w, hw⟩
  · exact h'
  rw [← hw, prefix_append_right_inj] at h
  cases w with
  | nil => exact ⟨[], by simp [← hw]⟩
  | cons y w =>
    grind

theorem Free.prefix_iff (hs : Free m ms s) (hne : s ≠ []) (ht : Tail m ms t) (hm : m ∉ ms) :
    ¬ m :: ms <+: s ++ t := by
  intro h
  cases s with
  | nil => exact hne rfl
  | cons x s => exact hs (prefix_of_append hm ht h).isInfix

theorem Free.append (hs : Free m ms s) (ht : Free m ms t) {c : α} (hc : c ∉ m :: ms) :
    Free m ms (s ++ c :: t) := by
  rintro ⟨a, b, hab⟩
  rw [append_assoc] at hab
  rcases append_eq_append_iff.mp hab with ⟨a', hs', ha'⟩ | ⟨c', ha, hc'⟩
  · -- the marker begins in the first part
    rcases append_eq_append_iff.mp ha'.symm with ⟨b', hb, hb'⟩ | ⟨b', hb, _⟩
    · cases b' with
      | nil => exact hs ⟨a, [], by simp [hs', hb]⟩
      | cons y b' =>
        cases (List.cons.inj hb').1
        exact hc (hb ▸ by simp)
    · exact hs ⟨a, b', by simp [hs', hb]⟩
  · cases c' with
    | nil =>
      have := congrArg List.head? hc'
      simp at this
      exact hc (by simp [this])
    | cons y c' =>
      exact ht ⟨c', b, by rw [append_assoc]; exact ((List.cons.inj hc').2).symm⟩

theorem join_append (h₁ h₂ : List α) (ss₁ ss₂ : List (List α)) :
    join m ms h₁ ss₁ ++ (m :: ms ++ join m ms h₂ ss₂) = join m ms h₁ (ss₁ ++ h₂ :: ss₂) := by
  simp [join]

theorem exists_join (s : List α) : ∃ head segs, s = join m ms head segs ∧ ∀ x ∈ head :: segs, Free m ms x := by
  induction h : s.length using Nat.strongRecOn generalizing s with
  | _ n ih =>
    subst h
    by_cases hinf : m :: ms <:+: s
    · obtain ⟨a, b, rfl⟩ := hinf
      grind [join_append]
    · exact ⟨s, [], by simp [join], by simpa [Free] using hinf⟩

theorem append_injective (hm : m ∉ ms) {h h' t t' : List α} (hh : Free m ms h) (hh' : Free m ms h')
    (ht : Tail m ms t) (ht' : Tail m ms t') (heq : h ++ t = h' ++ t') : h = h' ∧ t = t' := by
  -- the longer of the two pieces has no marker in what it has more
  have key : ∀ {x t t' : List α} {h h' : List α}, Free m ms h' → Tail m ms t → Tail m ms t' → h' = h ++ x →
      t = x ++ t' → x = [] := by
    intro x t t' h h' hh' ht ht' hx hxt
    by_contra hne
    rcases ht with rfl | ⟨u, rfl⟩
    · exact hne (append_eq_nil_iff.mp hxt.symm).1
    · have hfree : Free m ms x := hh'.of_suffix ⟨h, hx.symm⟩
      exact hfree.prefix_iff hne ht' hm ⟨u, hxt⟩
  rcases append_eq_append_iff.mp heq with ⟨x, hx, hxt⟩ | ⟨x, hx, hxt⟩
  · cases key hh' ht ht' hx hxt
    exact ⟨by simp [hx], by simp [hxt]⟩
  · cases key hh ht' ht hx hxt
    exact ⟨by simp [hx], by simp [hxt]⟩

/-- **A text is cut into pieces in one way.** -/
theorem join_injective (hm : m ∉ ms) : ∀ {segs segs' : List (List α)} {head head' : List α},
    (∀ x ∈ head :: segs, Free m ms x) → (∀ x ∈ head' :: segs', Free m ms x) →
      join m ms head segs = join m ms head' segs' → head = head' ∧ segs = segs' := by
  intro segs
  induction segs with
  | nil =>
    intro segs' head head' hfree hfree' heq
    obtain ⟨hhead, htail⟩ := append_injective hm (hfree _ mem_cons_self) (hfree' _ mem_cons_self)
      (tail_segs []) (tail_segs segs') heq
    cases segs' with
    | nil => exact ⟨hhead, rfl⟩
    | cons s segs' => simp at htail
  | cons s segs ih =>
    intro segs' head head' hfree hfree' heq
    obtain ⟨hhead, htail⟩ := append_injective hm (hfree _ mem_cons_self) (hfree' _ mem_cons_self)
      (tail_segs (s :: segs)) (tail_segs segs') heq
    cases segs' with
    | nil => simp at htail
    | cons s' segs' =>
      rw [flatMap_cons, flatMap_cons, append_assoc, append_assoc] at htail
      obtain ⟨rfl, rfl⟩ := ih (fun x hx => hfree x (mem_cons_of_mem _ hx))
        (fun x hx => hfree' x (mem_cons_of_mem _ hx)) (append_cancel_left htail)
      exact ⟨hhead, rfl⟩

theorem eq_join_iff (hm : m ∉ ms) {head : List α} {segs : List (List α)} (hfree : ∀ x ∈ head :: segs, Free m ms x)
    (s : List α) : (∃ pre, join m ms head segs = pre ++ (m :: ms ++ s)) ↔
      ∃ before x after, segs = before ++ x :: after ∧ s = x ++ after.flatMap (m :: ms ++ ·) := by
  constructor
  · rintro ⟨pre, hpre⟩
    obtain ⟨h₁, ss₁, hpre₁, hfree₁⟩ := @exists_join α m ms pre
    obtain ⟨h₂, ss₂, hs₂, hfree₂⟩ := @exists_join α m ms s
    have hjoin : join m ms head segs = join m ms h₁ (ss₁ ++ h₂ :: ss₂) := by
      rw [hpre, hpre₁, hs₂, join_append]
    have hall : ∀ x ∈ h₁ :: (ss₁ ++ h₂ :: ss₂), Free m ms x := by
      intro x hx
      rw [← cons_append, mem_append] at hx
      exact hx.elim (hfree₁ x) (hfree₂ x)
    exact ⟨ss₁, h₂, ss₂, (join_injective hm hfree hall hjoin).2, hs₂⟩
  · rintro ⟨before, x, after, rfl, rfl⟩
    exact ⟨join m ms head before, (join_append head x before after).symm⟩

/-- A function on texts that works piece by piece, on texts with pieces in `P`. -/
structure Piecewise (m : α) (ms : List α) (f g : List α → List α) (P : List α → Prop) : Prop where
  join_map : ∀ head segs, Free m ms head → (∀ s ∈ segs, Free m ms s ∧ P s) →
    f (join m ms head segs) = join m ms head (segs.map g)
  free : ∀ s, Free m ms s → P s → Free m ms (g s)

theorem Piecewise.mono {f g : List α → List α} {P P' : List α → Prop} (hf : Piecewise m ms f g P)
    (h : ∀ s, P' s → P s) : Piecewise m ms f g P' :=
  ⟨fun head segs hhead hsegs => hf.join_map head segs hhead fun s hs => ⟨(hsegs s hs).1, h s (hsegs s hs).2⟩,
    fun s hs hP => hf.free s hs (h s hP)⟩

theorem Piecewise.comp {f g f' g' : List α → List α} {P P' : List α → Prop} (hf : Piecewise m ms f g P)
    (hf' : Piecewise m ms f' g' P') (h : ∀ s, Free m ms s → P s → P' (g s)) :
    Piecewise m ms (fun s => f' (f s)) (fun s => g' (g s)) P := by
  refine ⟨fun head segs hhead hsegs => ?_, fun s hs hP => hf'.free _ (hf.free s hs hP) (h s hs hP)⟩
  rw [hf.join_map head segs hhead hsegs, hf'.join_map head (segs.map g) hhead, map_map]
  · rfl
  · intro s hs
    obtain ⟨x, hx, rfl⟩ := mem_map.mp hs
    exact ⟨hf.free x (hsegs x hx).1 (hsegs x hx).2, h x (hsegs x hx).1 (hsegs x hx).2⟩

/-- **A text is unchanged exactly if its pieces are.** -/
theorem Piecewise.eq_iff {f g : List α → List α} {P : List α → Prop} (hf : Piecewise m ms f g P) (hm : m ∉ ms)
    {head : List α} {segs : List (List α)} (hhead : Free m ms head) (hsegs : ∀ s ∈ segs, Free m ms s ∧ P s) :
    f (join m ms head segs) = join m ms head segs ↔ ∀ s ∈ segs, g s = s := by
  rw [hf.join_map head segs hhead hsegs]
  constructor
  · intro h
    have hmap := (join_injective hm (by
        intro x hx
        rcases mem_cons.mp hx with rfl | hx
        · exact hhead
        · obtain ⟨y, hy, rfl⟩ := mem_map.mp hx
          exact hf.free y (hsegs y hy).1 (hsegs y hy).2)
      (by
        intro x hx
        grind) h).2
    exact map_inj_left.mp (hmap.trans (map_id segs).symm)
  · intro h
    rw [map_congr_left h, map_id'']
    exact fun _ => rfl

end Pieces

variable [DecidableEq α]

/-- A character, any character but one, or a group of characters other than one. -/
inductive Item (α : Type u) where
  | char (c : α)
  | dot (but : α)
  | group (stop : α)
  deriving DecidableEq

/-- The longest group for which the rest of the pattern, `k`, matches. -/
def star {β : Type v} (stop : α) (k : List α → Option β) : List α → Option (List α × β)
  | [] => (k []).map ([], ·)
  | x :: xs =>
    if x = stop then (k (x :: xs)).map ([], ·)
    else match star stop k xs with
      | some (cap, b) => some (x :: cap, b)
      | none => (k (x :: xs)).map ([], ·)

/-- A match at the start of a text: the first group, and the text behind the match. -/
def matchAt : List (Item α) → List α → Option (List α × List α)
  | [], s => some ([], s)
  | .group stop :: ps, s => star stop (fun u => (matchAt ps u).map Prod.snd) s
  | .char c :: ps, x :: s => if x = c then matchAt ps s else none
  | .dot but :: ps, x :: s => if x = but then none else matchAt ps s
  | .char _ :: _, [] => none
  | .dot _ :: _, [] => none

/-- A pattern, and the replacement of a match with the given group. -/
structure Rule (α : Type u) where
  pattern : List (Item α)
  repl : List α → List α

/-- The replacement in a text of which some characters are behind a match. -/
def subAux (r : Rule α) : Nat → List α → List α
  | _, [] => []
  | n + 1, _ :: s => subAux r n s
  | 0, x :: s =>
    match matchAt r.pattern (x :: s) with
    | some (cap, rest) => r.repl cap ++ subAux r (s.length - rest.length) s
    | none => x :: subAux r 0 s

def sub (r : Rule α) (s : List α) : List α := subAux r 0 s

def lit (cs : List α) : List (Item α) := cs.map .char

section Match

@[simp] theorem matchAt_nil (s : List α) : matchAt [] s = some ([], s) := rfl

theorem matchAt_group (stop : α) (ps : List (Item α)) (s : List α) :
    matchAt (.group stop :: ps) s = star stop (fun u => (matchAt ps u).map Prod.snd) s :=
  rfl

@[simp] theorem matchAt_char_cons (c x : α) (ps : List (Item α)) (s : List α) :
    matchAt (.char c :: ps) (x :: s) = if x = c then matchAt ps s else none :=
  rfl

@[simp] theorem matchAt_char_nil (c : α) (ps : List (Item α)) : matchAt (.char c :: ps) [] = none := rfl

@[simp] theorem matchAt_dot_cons (but x : α) (ps : List (Item α)) (s : List α) :
    matchAt (.dot but :: ps) (x :: s) = if x = but then none else matchAt ps s :=
  rfl

@[simp] theorem matchAt_dot_nil (but : α) (ps : List (Item α)) : matchAt (.dot but :: ps) [] = none := rfl

theorem matchAt_lit (cs s : List α) (ps : List (Item α)) : matchAt (lit cs ++ ps) (cs ++ s) = matchAt ps s := by
  induction cs with
  | nil => rfl
  | cons c cs ih =>
    show matchAt (.char c :: (lit cs ++ ps)) (c :: (cs ++ s)) = _
    simp [ih]

theorem matchAt_lit_some {cs s : List α} {ps : List (Item α)} {p : List α × List α}
    (h : matchAt (lit cs ++ ps) s = some p) : ∃ u, s = cs ++ u ∧ matchAt ps u = some p := by
  induction cs generalizing s with
  | nil => exact ⟨s, rfl, h⟩
  | cons c cs ih =>
    cases s with
    | nil =>
      cases h
    | cons x s =>
      rw [show lit (c :: cs) ++ ps = .char c :: (lit cs ++ ps) from rfl, matchAt_char_cons] at h
      grind

/-- A group up to the first `stop` behind which the pattern goes on. -/
theorem star_full {β : Type v} {stop : α} {k : List α → Option β} {cap rest : List α} {b : β}
    (hcap : stop ∉ cap) (hk : k (stop :: rest) = some b) : star stop k (cap ++ stop :: rest) = some (cap, b) := by
  induction cap with
  | nil =>
    rw [nil_append, star, if_pos rfl, hk]
    rfl
  | cons x cap ih =>
    rw [mem_cons, not_or] at hcap
    rw [cons_append, star, if_neg (Ne.symm hcap.1), ih hcap.2]

theorem star_some {β : Type v} {stop : α} {k : List α → Option β} {s cap : List α} {b : β}
    (h : star stop k s = some (cap, b)) : ∃ u, s = cap ++ u ∧ stop ∉ cap ∧ k u = some b := by
  induction s generalizing cap with
  | nil =>
    rw [star, Option.map_eq_some_iff] at h
    obtain ⟨b', hb, heq⟩ := h
    cases heq
    exact ⟨[], rfl, by simp, hb⟩
  | cons x s ih =>
    rw [star] at h
    split at h
    · obtain ⟨b', hb, heq⟩ := Option.map_eq_some_iff.mp h
      cases heq
      exact ⟨x :: s, rfl, by simp, hb⟩
    · split at h
      · grind
      · obtain ⟨b', hb, heq⟩ := Option.map_eq_some_iff.mp h
        cases heq
        exact ⟨x :: s, rfl, by simp, hb⟩

theorem matchAt_suffix {ps : List (Item α)} {s cap rest : List α} (h : matchAt ps s = some (cap, rest)) :
    rest <:+ s := by
  induction ps generalizing s cap with
  | nil =>
    cases h
    exact suffix_refl _
  | cons p ps ih =>
    cases p with
    | char c =>
      cases s with
      | nil => cases h
      | cons x s =>
        grind [matchAt_char_cons]
    | dot but =>
      cases s with
      | nil => cases h
      | cons x s =>
        grind [matchAt_dot_cons]
    | group stop =>
      obtain ⟨u, rfl, _, hu⟩ := star_some h
      obtain ⟨⟨cap', rest'⟩, hmatch, heq⟩ := Option.map_eq_some_iff.mp hu
      cases heq
      exact (ih hmatch).trans (suffix_append cap u)

end Match

section Sub

variable (r : Rule α)

theorem subAux_skip (a b : List α) : subAux r a.length (a ++ b) = sub r b := by
  induction a with
  | nil => rfl
  | cons x a ih => exact ih

variable {x : α}

theorem sub_cons_none {s : List α} (h : matchAt r.pattern (x :: s) = none) :
    sub r (x :: s) = x :: sub r s := by
  rw [sub, subAux, h]
  rfl

theorem sub_some {m s rest cap : List α} (hs : s = m ++ rest)
    (h : matchAt r.pattern (x :: s) = some (cap, rest)) : sub r (x :: s) = r.repl cap ++ sub r rest := by
  subst hs
  rw [sub, subAux, h]
  simp only
  simp [subAux_skip]

theorem mem_sub {s : List α} (h : x ∈ sub r s) : x ∈ s ∨ ∃ cap, x ∈ r.repl cap := by
  have key : ∀ (s : List α) (n : Nat), x ∈ subAux r n s → x ∈ s ∨ ∃ cap, x ∈ r.repl cap := by
    intro s
    induction s with
    | nil =>
      intro n h
      cases n <;> cases h
    | cons y s ih =>
      intro n h
      cases n with
      | succ n => exact (ih n h).imp_left (mem_cons_of_mem y)
      | zero =>
        rw [subAux] at h
        grind
  exact key s 0 h

end Sub

section Local

variable (m : α) (ms : List α)

/-- What the pattern matches in the piece does not depend on what follows it. -/
def Local (ps : List (Item α)) (s : List α) : Prop :=
  ∀ t, Tail m ms t → matchAt ps (s ++ t) = (matchAt ps s).map fun p => (p.1, p.2 ++ t)

/-- The pattern has no groups, and no part of it matches at a marker: no character is the first one of the marker, and
    behind a dot there is not the second one. -/
def rejects (m : α) (ms : List α) : List (Item α) → Bool
  | [] => true
  | .char c :: ps => decide (c ≠ m) && rejects m ms ps
  | .dot _ :: .char c :: ps => decide (ms.head? ≠ some c) && !ms.isEmpty && rejects m ms (.char c :: ps)
  | _ => false

variable {m ms}

variable {ps : List (Item α)}

theorem matchAt_tail {p : Item α} (h : rejects m ms (p :: ps) = true) {t : List α}
    (ht : Tail m ms t) : matchAt (p :: ps) t = none := by
  cases p with
  | group stop => cases h
  | char c =>
    rw [rejects, Bool.and_eq_true, decide_eq_true_eq] at h
    rcases ht with rfl | ⟨u, rfl⟩
    · exact matchAt_char_nil c ps
    · simp [if_neg (Ne.symm h.1)]
  | dot but =>
    rcases ht with rfl | ⟨u, rfl⟩
    · exact matchAt_dot_nil but ps
    rcases ps with _ | ⟨_ | _ | _, ps⟩
    · cases h
    · rename_i c
      rw [rejects, Bool.and_eq_true, Bool.and_eq_true, decide_eq_true_eq] at h
      cases ms with
      | nil => cases h.1.2
      | cons x ms =>
        have hx : x ≠ c := fun hx => h.1.1 (by rw [hx]; rfl)
        simp [hx]
    · cases h
    · cases h

theorem rejects_tail {p : Item α} (h : rejects m ms (p :: ps) = true) :
    rejects m ms ps = true := by
  cases p with
  | group stop => cases h
  | char c =>
    rw [rejects, Bool.and_eq_true] at h
    exact h.2
  | dot but =>
    rcases ps with _ | ⟨_ | _ | _, ps⟩
    · cases h
    · rw [rejects, Bool.and_eq_true] at h
      exact h.2
    · cases h
    · cases h

theorem local_of_rejects : ∀ {ps : List (Item α)} {s : List α}, rejects m ms ps = true → Local m ms ps s := by
  intro ps
  induction ps with
  | nil =>
    intro s _ t _
    simp
  | cons p ps ih =>
    intro s hrej t ht
    have ih' := fun s => @ih s (rejects_tail hrej)
    cases s with
    | nil =>
      rw [nil_append, matchAt_tail hrej ht, matchAt_tail hrej (.inl rfl)]
      rfl
    | cons x s =>
      cases p with
      | group stop => cases hrej
      | char c =>
        rw [cons_append, matchAt_char_cons, matchAt_char_cons]
        split
        · exact ih' s t ht
        · rfl
      | dot but =>
        rw [cons_append, matchAt_dot_cons, matchAt_dot_cons]
        split
        · rfl
        · exact ih' s t ht

theorem cap_of_rejects : ∀ {s cap rest : List α}, rejects m ms ps = true →
    matchAt ps s = some (cap, rest) → cap = [] := by
  induction ps with
  | nil =>
    intro s cap rest _ h
    cases h
    rfl
  | cons p ps ih =>
    intro s cap rest hrej h
    cases s with
    | nil =>
      rw [matchAt_tail hrej (.inl rfl)] at h
      cases h
    | cons x s =>
      cases p with
      | group stop => cases hrej
      | char c =>
        rw [matchAt_char_cons] at h
        split at h
        · exact ih (rejects_tail hrej) h
        · cases h
      | dot but =>
        rw [matchAt_dot_cons] at h
        split at h
        · cases h
        · exact ih (rejects_tail hrej) h

theorem star_append {stop : α} (hlocal : ∀ s, Local m ms ps s) {t : List α}
    (ht : Tail m ms t) {s : List α} (hs : stop ∈ s) :
    star stop (fun u => (matchAt ps u).map Prod.snd) (s ++ t) =
      (star stop (fun u => (matchAt ps u).map Prod.snd) s).map fun p => (p.1, p.2 ++ t) := by
  have hk : ∀ s, (matchAt ps (s ++ t)).map Prod.snd = ((matchAt ps s).map Prod.snd).map (· ++ t) := by
    intro s
    rw [hlocal s t ht]
    cases matchAt ps s <;> rfl
  induction s with
  | nil => cases hs
  | cons x s ih =>
    rw [cons_append, star, star, ← cons_append, hk]
    by_cases hx : x = stop
    · rw [if_pos hx, if_pos hx]
      cases matchAt ps (x :: s) <;> rfl
    · rw [if_neg hx, if_neg hx, ih ((mem_cons.mp hs).resolve_left (Ne.symm hx))]
      cases star stop (fun u => (matchAt ps u).map Prod.snd) s with
      | some p => rfl
      | none => cases matchAt ps (x :: s) <;> rfl

theorem local_group {cs : List α} {stop : α} (hcs : m ∉ cs) (hlocal : ∀ s, Local m ms ps s)
    {s : List α} (hs : ∀ u, s = cs ++ u → stop ∈ u) : Local m ms (lit cs ++ .group stop :: ps) s := by
  induction cs generalizing s with
  | nil =>
    intro t ht
    exact star_append hlocal ht (hs s rfl)
  | cons c cs ih =>
    rw [mem_cons, not_or] at hcs
    intro t ht
    show matchAt (.char c :: (lit cs ++ .group stop :: ps)) (s ++ t) =
      (matchAt (.char c :: (lit cs ++ .group stop :: ps)) s).map _
    cases s with
    | nil =>
      rcases ht with rfl | ⟨u, rfl⟩
      · rfl
      · rw [nil_append, cons_append, matchAt_char_cons, if_neg hcs.1]
        rfl
    | cons x s =>
      rw [cons_append, matchAt_char_cons, matchAt_char_cons]
      split
      · rename_i hx
        exact ih hcs.2 (fun u hu => hs u (by rw [hx, hu]; rfl)) t ht
      · rfl

end Local

section Marked

variable {m : α} {ms : List α} {r : Rule α} {ps : List (Item α)} (hr : r.pattern = lit (m :: ms) ++ ps)

def act (m : α) (ms : List α) (ps : List (Item α)) (repl : List α → List α) (s : List α) : List α :=
  match matchAt ps s with
  | some (cap, rest) => repl cap ++ rest
  | none => m :: ms ++ s

include hr in
theorem matchAt_marked {s : List α} (h : ¬ m :: ms <+: s) : matchAt r.pattern s = none := by
  rw [hr]
  cases hmatch : matchAt (lit (m :: ms) ++ ps) s with
  | none => rfl
  | some p =>
    obtain ⟨u, hu, _⟩ := matchAt_lit_some hmatch
    exact absurd ⟨u, hu.symm⟩ h

include hr in
theorem sub_free (hm : m ∉ ms) {t : List α} (ht : Tail m ms t) : ∀ {s : List α}, Free m ms s →
    sub r (s ++ t) = s ++ sub r t := by
  intro s
  induction s with
  | nil => intro _; rfl
  | cons x s ih =>
    intro hs
    have hnone : matchAt r.pattern (x :: (s ++ t)) = none :=
      matchAt_marked hr (hs.prefix_iff (cons_ne_nil x s) ht hm)
    rw [cons_append, sub_cons_none r hnone, ih (hs.of_suffix (suffix_cons x s))]
    rfl

include hr in
theorem sub_marker_none (hm : m ∉ ms) {s : List α} (h : matchAt ps s = none) :
    sub r (m :: ms ++ s) = m :: ms ++ sub r s := by
  have hrest : ∀ l : List α, m ∉ l → sub r (l ++ s) = l ++ sub r s := by
    intro l
    induction l with
    | nil => intro _; rfl
    | cons x l ih =>
      intro hl
      grind [matchAt_marked, sub_cons_none]
  grind [matchAt_lit, sub_cons_none]

include hr in
theorem sub_marker (hm : m ∉ ms) {s t : List α} (hs : Free m ms s) (ht : Tail m ms t) (hlocal : Local m ms ps s) :
    sub r (m :: ms ++ (s ++ t)) = act m ms ps r.repl s ++ sub r t := by
  unfold act
  cases hmatch : matchAt ps s with
  | none =>
    have hnone : matchAt ps (s ++ t) = none := by rw [hlocal t ht, hmatch]; rfl
    rw [sub_marker_none hr hm hnone, sub_free hr hm ht hs, ← append_assoc]
  | some p =>
    obtain ⟨cap, rest⟩ := p
    have hsome : matchAt r.pattern (m :: (ms ++ (s ++ t))) = some (cap, rest ++ t) := by
      rw [hr, ← cons_append, matchAt_lit, hlocal t ht, hmatch]
      rfl
    obtain ⟨pre, hpre⟩ := matchAt_suffix hmatch
    rw [cons_append, sub_some r (m := ms ++ pre) (by rw [← hpre]; simp) hsome,
      sub_free hr hm ht (hs.of_suffix ⟨pre, hpre⟩)]
    simp

include hr in
/-- **The replacement in a text is done in its pieces.** -/
theorem sub_join (hm : m ∉ ms) {head : List α} {segs : List (List α)} (hhead : Free m ms head)
    (hfree : ∀ s ∈ segs, Free m ms s) (hlocal : ∀ s ∈ segs, Local m ms ps s) :
    sub r (join m ms head segs) = head ++ segs.flatMap (act m ms ps r.repl) := by
  rw [join, sub_free hr hm (tail_segs segs) hhead]
  congr 1
  induction segs with
  | nil => rfl
  | cons s segs ih =>
    grind [sub_marker, tail_segs]

end Marked

section Piecewise

variable (m : α) (ms : List α)

def piece (ps : List (Item α)) (out : List α → List α) (s : List α) : List α :=
  match matchAt ps s with
  | some (cap, rest) => out cap ++ rest
  | none => s

variable {m ms}

variable {out : List α → List α}

variable {ps : List (Item α)}

theorem piece_some {s cap rest : List α}
    (h : matchAt ps s = some (cap, rest)) : piece ps out s = out cap ++ rest := by
  rw [piece, h]

theorem piece_none {s : List α} (h : matchAt ps s = none) :
    piece ps out s = s := by
  rw [piece, h]

/-- Substitutions one after the other, none of which finds what another one has put in: the first one that matches is
    made. -/
theorem foldl_piece (fs : List (List (Item α) × (List α → List α)))
    (hstable : ∀ f ∈ fs, ∀ g ∈ fs, ∀ cap rest, matchAt f.1 (g.2 cap ++ rest) = none) (s : List α) :
    fs.foldl (fun s f => piece f.1 f.2 s) s =
      (fs.findSome? fun f => (matchAt f.1 s).map fun p => f.2 p.1 ++ p.2).getD s := by
  induction fs with
  | nil => rfl
  | cons f fs ih =>
    have ih' := ih fun g hg g' hg' => hstable g (mem_cons_of_mem f hg) g' (mem_cons_of_mem f hg')
    rw [foldl_cons, findSome?_cons]
    cases hmatch : matchAt f.1 s with
    | none => rw [piece_none hmatch, ih']; rfl
    | some p =>
      have hstay : ∀ gs : List (List (Item α) × (List α → List α)), (∀ g ∈ gs, g ∈ f :: fs) →
          gs.foldl (fun s f => piece f.1 f.2 s) (f.2 p.1 ++ p.2) = f.2 p.1 ++ p.2 := by
        intro gs
        induction gs with
        | nil => intro _; rfl
        | cons g gs ihg =>
          intro hgs
          grind [piece_none]
      rw [piece_some hmatch, hstay fs fun g hg => mem_cons_of_mem f hg]
      rfl

theorem piecewise_sub {r : Rule α} {P : List α → Prop} (hm : m ∉ ms)
    (hr : r.pattern = lit (m :: ms) ++ ps) (hrepl : ∀ cap, r.repl cap = m :: ms ++ out cap)
    (hlocal : ∀ s, P s → Local m ms ps s) (hfree : ∀ s, Free m ms s → P s → Free m ms (piece ps out s)) :
    Piecewise m ms (sub r) (piece ps out) P := by
  refine ⟨fun head segs hhead hsegs => ?_, hfree⟩
  rw [sub_join hr hm hhead (fun s hs => (hsegs s hs).1) fun s hs => hlocal s (hsegs s hs).2, join, flatMap_map]
  congr 1
  apply flatMap_congr
  intro s _
  unfold act piece
  cases matchAt ps s with
  | none => rfl
  | some p => exact (congrArg (· ++ p.2) (hrepl p.1)).trans (append_assoc _ _ _)

end Piecewise

end RtemsLibbsd.Substitution

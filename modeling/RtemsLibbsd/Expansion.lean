import Mathlib.Data.List.Infix
import Mathlib.Logic.Relation
import RtemsLibbsd.Substitution

/-!
# References in texts

Texts that refer to other texts: a reference is a name between two delimiters.

* `Piece`, `text` — a text, cut into characters and references.
* `Unambiguous` — the text has no other markers than those of its references.
* `expand` — the references to one name replaced, in the pieces; `sub_text` says that the replacement of the markers
  in the text does this.
* `Expands` — some of the references are replaced by what they refer to, and so on.

The texts of a set of definitions are expanded one in the other.  As long as no marker arises from pieces that are put
together, the expansions refer to nothing that the definitions do not lead to (`Expands.refers`), and a name that does
not lead to itself is gone from an expansion in which it was replaced (`not_mem_expand`).
-/

namespace RtemsLibbsd.Expansion

open List RtemsLibbsd.Substitution

universe u v

variable {α : Type u} {T : Type v}

structure Markers (α : Type u) (T : Type v) where
  delim : α
  name : T → List α
  name_injective : Function.Injective name
  delim_not_mem : ∀ t, delim ∉ name t

variable (M : Markers α T)

def Markers.marker (t : T) : List α := M.delim :: (M.name t ++ [M.delim])

inductive Piece (α : Type u) (T : Type v) where
  | lit (c : α)
  | ref (t : T)
  deriving DecidableEq

def Piece.text : Piece α T → List α
  | .lit c => [c]
  | .ref t => M.marker t

def text (ps : List (Piece α T)) : List α := ps.flatMap (Piece.text M)

@[simp] theorem text_nil : text M ([] : List (Piece α T)) = [] := rfl

@[simp] theorem text_lit (c : α) (ps : List (Piece α T)) : text M (.lit c :: ps) = c :: text M ps := rfl

@[simp] theorem text_ref (t : T) (ps : List (Piece α T)) : text M (.ref t :: ps) = M.marker t ++ text M ps := rfl

theorem text_append (ps qs : List (Piece α T)) : text M (ps ++ qs) = text M ps ++ text M qs :=
  flatMap_append

def Ends : Piece α T → Prop
  | .lit c => c = M.delim
  | .ref _ => True

def Unambiguous : List (Piece α T) → Prop
  | [] => True
  | p :: ps => (Ends M p → ∀ t, ¬ M.name t ++ [M.delim] <+: text M ps) ∧ Unambiguous ps

theorem marker_infix {t : T} {ps : List (Piece α T)} (h : Piece.ref t ∈ ps) : M.marker t <:+: text M ps := by
  obtain ⟨qs, rs, rfl⟩ := append_of_mem h
  exact ⟨text M qs, text M rs, by simp [text_append]⟩

theorem name_eq_of_initial {s t : T} {u : List α} (h : M.name s ++ [M.delim] <+: M.name t ++ M.delim :: u) : s = t := by
  have key : ∀ (a b : List α), M.delim ∉ a → M.delim ∉ b → a ++ [M.delim] <+: b ++ M.delim :: u → a = b := by
    intro a
    induction a with
    | nil =>
      intro b _ hb h
      cases b with
      | nil => rfl
      | cons y b => exact absurd ((cons_prefix_cons.mp h).1 ▸ mem_cons_self) hb
    | cons x a ih =>
      intro b ha hb h
      cases b with
      | nil => exact absurd ((cons_prefix_cons.mp h).1 ▸ mem_cons_self) ha
      | cons y b =>
        grind
  exact M.name_injective (key _ _ (M.delim_not_mem s) (M.delim_not_mem t) h)

section Sub

variable [DecidableEq α]

def rule (a : T) (r : List α) : Rule α := ⟨lit (M.marker a), fun _ => r⟩

variable {M}

theorem matchAt_marker {a : T} {r s : List α} {p : List α × List α}
    (h : matchAt (rule M a r).pattern s = some p) : M.marker a <+: s := by
  have h' : matchAt (lit (M.marker a) ++ []) s = some p := by rw [append_nil]; exact h
  obtain ⟨u, rfl, -⟩ := matchAt_lit_some h'
  exact prefix_append _ _

theorem sub_of_not_prefix {a : T} {r : List α} {x : α} {s : List α} (h : ¬ M.marker a <+: x :: s) :
    sub (rule M a r) (x :: s) = x :: sub (rule M a r) s := by
  apply sub_cons_none
  cases hm : matchAt (rule M a r).pattern (x :: s) with
  | none => rfl
  | some p => exact absurd (matchAt_marker hm) h

theorem sub_marker (a : T) (r s : List α) : sub (rule M a r) (M.marker a ++ s) = r ++ sub (rule M a r) s := by
  have hm : matchAt (rule M a r).pattern (M.marker a ++ s) = some ([], s) := by
    have := matchAt_lit (M.marker a) s []
    rwa [append_nil] at this
  exact sub_some (rule M a r) (m := M.name a ++ [M.delim]) rfl hm

theorem sub_plain {a : T} {r u : List α} (hu : M.delim ∉ u) (s : List α) :
    sub (rule M a r) (u ++ s) = u ++ sub (rule M a r) s := by
  induction u with
  | nil => rfl
  | cons x u ih =>
    rw [mem_cons, not_or] at hu
    rw [cons_append, sub_of_not_prefix, ih hu.2, cons_append]
    intro h
    exact hu.1 (cons_prefix_cons.mp h).1

variable [DecidableEq T]

variable (a : T) (qs : List (Piece α T))

def expand (ps : List (Piece α T)) : List (Piece α T) := ps.flatMap fun p => if p = .ref a then qs else [p]

@[simp] theorem expand_nil : expand a qs [] = [] := rfl

@[simp] theorem expand_lit (c : α) (ps : List (Piece α T)) : expand a qs (.lit c :: ps) = .lit c :: expand a qs ps :=
  rfl

theorem expand_ref_self (ps : List (Piece α T)) : expand a qs (.ref a :: ps) = qs ++ expand a qs ps := by
  unfold expand
  simp

variable {a}

theorem expand_ref_ne {t : T} (h : t ≠ a) (ps : List (Piece α T)) :
    expand a qs (.ref t :: ps) = .ref t :: expand a qs ps := by
  unfold expand
  rw [flatMap_cons, if_neg fun hc => h (Piece.ref.inj hc)]
  rfl

theorem expand_append (ps rs : List (Piece α T)) :
    expand a qs (ps ++ rs) = expand a qs ps ++ expand a qs rs :=
  flatMap_append

variable {qs}

variable {ps : List (Piece α T)}

theorem mem_expand {p : Piece α T} (h : p ∈ expand a qs ps) :
    (p ∈ ps ∧ p ≠ .ref a) ∨ (p ∈ qs ∧ Piece.ref a ∈ ps) := by
  obtain ⟨q, hq, hp⟩ := mem_flatMap.mp h
  grind

theorem not_mem_expand (hqs : Piece.ref a ∉ qs) (ps : List (Piece α T)) : Piece.ref a ∉ expand a qs ps := by
  intro h
  rcases mem_expand h with ⟨_, hne⟩ | ⟨hmem, _⟩
  · exact hne rfl
  · exact hqs hmem

theorem expand_of_not_mem (h : Piece.ref a ∉ ps) : expand a qs ps = ps := by
  induction ps with
  | nil => rfl
  | cons p ps ih =>
    rw [mem_cons, not_or] at h
    unfold expand at ih ⊢
    rw [flatMap_cons, if_neg fun hp => h.1 hp.symm, ih h.2]
    rfl

/-- **The replacement of the markers in an unambiguous text is the expansion of its references.** -/
theorem sub_text (h : Unambiguous M ps) :
    sub (rule M a (text M qs)) (text M ps) = text M (expand a qs ps) := by
  induction ps with
  | nil => rfl
  | cons p ps ih =>
    obtain ⟨hp, hps⟩ := h
    -- no match begins with the delimiter that a piece ends with
    have hend : Ends M p → ∀ r, sub (rule M a r) (M.delim :: text M ps) = M.delim :: sub (rule M a r) (text M ps) := by
      intro he r
      apply sub_of_not_prefix
      intro hpre
      exact hp he a (cons_prefix_cons.mp hpre).2
    cases p with
    | lit c =>
      rw [text_lit, expand_lit, text_lit, ← ih hps]
      by_cases hc : c = M.delim
      · rw [hc]
        exact hend hc _
      · apply sub_of_not_prefix
        intro hpre
        exact hc (cons_prefix_cons.mp hpre).1.symm
    | ref t =>
      by_cases ht : t = a
      · subst ht
        rw [text_ref, sub_marker, expand_ref_self, text_append, ih hps]
      · rw [text_ref, expand_ref_ne qs ht, text_ref, ← ih hps]
        -- neither at its own marker, nor in its name, nor at the end of it
        have hne : ¬ M.marker a <+: M.delim :: (M.name t ++ M.delim :: text M ps) := by
          intro hpre
          exact ht (name_eq_of_initial M (cons_prefix_cons.mp hpre).2).symm
        have hcut : ∀ u, M.marker t ++ u = M.delim :: (M.name t ++ M.delim :: u) := by
          intro u
          simp [Markers.marker]
        rw [hcut, hcut, sub_of_not_prefix hne, sub_plain (M.delim_not_mem t), hend trivial]

end Sub

section Definitions

variable (defs : T → List (Piece α T))

/-- Some of the references replaced by expansions of the texts that they refer to. -/
inductive Expands : List (Piece α T) → List (Piece α T) → Prop
  | nil : Expands [] []
  | lit (c : α) {ps qs : List (Piece α T)} (h : Expands ps qs) : Expands (.lit c :: ps) (.lit c :: qs)
  | keep (t : T) {ps qs : List (Piece α T)} (h : Expands ps qs) : Expands (.ref t :: ps) (.ref t :: qs)
  | replace (t : T) {ps qs rs : List (Piece α T)} (ht : Expands (defs t) rs) (h : Expands ps qs) :
      Expands (.ref t :: ps) (rs ++ qs)

def RefersTo (s t : T) : Prop := Piece.ref t ∈ defs s

variable {defs}

theorem Expands.refl : ∀ ps : List (Piece α T), Expands defs ps ps
  | [] => .nil
  | .lit c :: ps => .lit c (Expands.refl ps)
  | .ref t :: ps => .keep t (Expands.refl ps)

theorem Expands.refers {ps qs : List (Piece α T)} (h : Expands defs ps qs) {t : T} (ht : Piece.ref t ∈ qs) :
    Piece.ref t ∈ ps ∨ ∃ s, Piece.ref s ∈ ps ∧ Relation.TransGen (RefersTo defs) s t := by
  induction h with
  | nil => exact .inl ht
  | lit c h ih =>
    grind
  | keep r h ih =>
    grind
  | replace r hr h ihr ih =>
    rcases mem_append.mp ht with ht | ht
    · rcases ihr ht with h | ⟨s, hs, hst⟩
      · exact .inr ⟨r, mem_cons_self, .single h⟩
      · exact .inr ⟨r, mem_cons_self, .head hs hst⟩
    · grind

theorem Expands.leads {a t : T} {qs : List (Piece α T)} (h : Expands defs (defs a) qs) (ht : Piece.ref t ∈ qs) :
    Relation.TransGen (RefersTo defs) a t := by
  rcases h.refers ht with h | ⟨s, hs, hst⟩
  · exact .single h
  · exact .head hs hst

theorem Expands.lit_mem {ps qs : List (Piece α T)} (h : Expands defs ps qs) {c : α} (hc : Piece.lit c ∈ qs) :
    Piece.lit c ∈ ps ∨ ∃ t, Piece.lit c ∈ defs t := by
  induction h with
  | nil => exact .inl hc
  | lit d h ih =>
    grind
  | keep t h ih =>
    grind
  | replace t ht h iht ih =>
    grind

theorem Expands.expand [DecidableEq α] [DecidableEq T] {a : T} {ps qs rs : List (Piece α T)}
    (ha : Expands defs (defs a) qs) (h : Expands defs ps rs) : Expands defs ps (Expansion.expand a qs rs) := by
  induction h with
  | nil => exact .nil
  | lit c h ih => exact .lit c ih
  | @keep t ps rs h ih =>
    by_cases ht : t = a
    · subst ht
      rw [expand_ref_self]
      exact .replace t ha ih
    · rw [expand_ref_ne qs ht]
      exact .keep t ih
  | replace t ht h iht ih =>
    rw [expand_append]
    exact .replace t iht ih

variable {M}

theorem lit_of_initial {n : List α} (hn : M.delim ∉ n) : ∀ {ps : List (Piece α T)}, n ++ [M.delim] <+: text M ps →
    ∀ c ∈ n, Piece.lit c ∈ ps := by
  induction n with
  | nil => exact fun _ c hc => absurd hc not_mem_nil
  | cons x n ih =>
    rw [mem_cons, not_or] at hn
    intro ps h c hc
    cases ps with
    | nil => exact absurd (prefix_nil.mp h) (cons_ne_nil _ _)
    | cons p ps =>
      cases p with
      | ref t => exact absurd (cons_prefix_cons.mp h).1.symm hn.1
      | lit d =>
        grind [text, Piece.text]

/-- A text is unambiguous when each name has a character that is no literal character of the text. -/
theorem unambiguous_of_lit {ps : List (Piece α T)}
    (h : ∀ t, ∃ c ∈ M.name t, Piece.lit c ∉ ps) : Unambiguous M ps := by
  induction ps with
  | nil => trivial
  | cons p ps ih =>
    refine ⟨fun _ t hpre => ?_, ih fun t => ?_⟩
    · obtain ⟨c, hc, hps⟩ := h t
      exact hps (mem_cons_of_mem _ (lit_of_initial (M.delim_not_mem t) hpre c hc))
    · obtain ⟨c, hc, hps⟩ := h t
      exact ⟨c, hc, fun hm => hps (mem_cons_of_mem _ hm)⟩

end Definitions

end RtemsLibbsd.Expansion

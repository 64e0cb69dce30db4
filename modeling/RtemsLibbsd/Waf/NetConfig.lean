import Mathlib.Algebra.Group.Nat.Defs
import Mathlib.Data.List.Infix
import Mathlib.Logic.Function.Basic
import RtemsLibbsd.Expansion
import RtemsLibbsd.Waf.BuildSet

/-!
# The network configuration of the tests

Model of the loop of `waf_libbsd.py` that substitutes the variables of the network configuration in one another.

* `template` — how `re.sub` reads a replacement: a text with escapes, of which `\g<0>` is the match itself.
* `substitute` — one round of the two inner loops, for one pair of tags.
* `settle` — the `while` loop, which goes on while something was updated; it takes fuel here.

A variable is replaced in all others before the next one is, so one pass is enough when no variable leads to itself
and no marker arises from texts that are put together (`settle_ends`).  A text that leads to itself is never reported,
whether the loop ends or not: **`processes_iff`**, which joins this with the loading of the build set.
-/

namespace RtemsLibbsd.Waf

open List Function RtemsLibbsd.Expansion RtemsLibbsd.Substitution

universe u

/-- The keys of `net_cfg`. -/
inductive NetTag where
  | interface0
  | selfIp
  | netmask
  | peerIp
  | gatewayIp
  | nfsMountPath
  | nfsMountOptions
  deriving DecidableEq

def NetTag.key : NetTag → String
  | interface0 => "NET_CFG_INTERFACE_0"
  | selfIp => "NET_CFG_SELF_IP"
  | netmask => "NET_CFG_NETMASK"
  | peerIp => "NET_CFG_PEER_IP"
  | gatewayIp => "NET_CFG_GATEWAY_IP"
  | nfsMountPath => "NET_CFG_NFS_MOUNT_PATH"
  | nfsMountOptions => "NET_CFG_NFS_MOUNT_OPTIONS"

def NetTag.name (t : NetTag) : Text := t.key.toList

def tags : List NetTag := [.interface0, .selfIp, .netmask, .peerIp, .gatewayIp, .nfsMountPath, .nfsMountOptions]

theorem mem_tags (t : NetTag) : t ∈ tags := by cases t <;> decide

theorem NetTag.name_injective : Function.Injective NetTag.name := by
  intro s t h
  have hk : s.key = t.key := String.toList_injective h
  cases s <;> cases t <;> first | rfl | simp [key] at hk

theorem NetTag.at_not_mem (t : NetTag) : '@' ∉ t.name := by cases t <;> simp [name, key]

/-- `'@' + tag + '@'` -/
def netMarkers : Markers Char NetTag := ⟨'@', NetTag.name, NetTag.name_injective, NetTag.at_not_mem⟩

inductive Part where
  | char (c : Char)
  | whole

def isOct (c : Char) : Bool := decide ('0' ≤ c) && decide (c ≤ '7')

def isDigit (c : Char) : Bool := decide ('0' ≤ c) && decide (c ≤ '9')

def isLetter (c : Char) : Bool :=
  (decide ('a' ≤ c) && decide (c ≤ 'z')) || (decide ('A' ≤ c) && decide (c ≤ 'Z'))

def octal (digits : Text) : Nat := digits.foldl (fun n d => 8 * n + (d.toNat - '0'.toNat)) 0

def escapes : List (Char × Char) :=
  [('a', Char.ofNat 7), ('b', Char.ofNat 8), ('f', Char.ofNat 12), ('n', Char.ofNat 10), ('r', Char.ofNat 13),
    ('t', Char.ofNat 9), ('v', Char.ofNat 11), ('\\', '\\')]

/-- What follows `\g`.  The pattern has no groups, so that only the match itself can be named. -/
def groupName (rest : Text) : Option (List Part × Text) :=
  match rest with
  | [] => none
  | c :: rest =>
    let name := rest.takeWhile (· ≠ '>')
    if c = '<' ∧ name ≠ [] ∧ name.all (· = '0') ∧ name.length < rest.length then
      some ([.whole], rest.drop (name.length + 1))
    else none

def escape : Text → Option (List Part × Text)
  | [] => none
  | c :: rest =>
    if c = 'g' then groupName rest
    else if c = '0' then
      let digits := (rest.take 2).takeWhile isOct
      some ([.char (Char.ofNat (octal digits))], rest.drop digits.length)
    else if isDigit c then
      -- a group that the pattern does not have, or three octal digits
      match rest with
      | d :: e :: rest =>
        if isOct c ∧ isOct d ∧ isOct e ∧ octal [c, d, e] ≤ 255 then
          some ([.char (Char.ofNat (octal [c, d, e]))], rest)
        else none
      | _ => none
    else
      match escapes.lookup c with
      | some d => some ([.char d], rest)
      | none => if isLetter c then none else some ([.char '\\', .char c], rest)

/-- The parts of a text, which is no longer than the first argument. -/
def templateAux : Nat → Text → Option (List Part)
  | 0, _ => some []
  | _ + 1, [] => some []
  | n + 1, c :: rest =>
    if c ≠ '\\' then (templateAux n rest).map (.char c :: ·)
    else
      match escape rest with
      | none => none
      | some (parts, rest) => (templateAux n rest).map (parts ++ ·)

/-- The replacement that a text stands for; `none` for `re.error`. -/
def template (repl : Text) : Option (List Part) := templateAux repl.length repl

def Part.fill (m : Text) : Part → Text
  | .char c => [c]
  | .whole => m

def reSub (tag : NetTag) (repl string : Text) : Option Text :=
  (template repl).map fun parts =>
    sub (rule netMarkers tag (parts.flatMap (Part.fill (netMarkers.marker tag)))) string

/-- `net_cfg[tag]['value']` -/
abbrev Values := NetTag → Text

inductive NetError where
  /-- `re.error`, for the value of the tag -/
  | template (tag : NetTag)

def substitute (tag : NetTag) (st : Values × Bool) (rtag : NetTag) : Except NetError (Values × Bool) :=
  if tag ≠ rtag then
    match reSub tag (st.1 tag) (st.1 rtag) with
    | none => .error (.template tag)
    | some value => if value ≠ st.1 rtag then .ok (update st.1 rtag value, true) else .ok st
  else .ok st

/-- The loop over `rtag`. -/
def turn (st : Values × Bool) (tag : NetTag) : Except NetError (Values × Bool) := tags.foldlM (substitute tag) st

/-- One run of the body of the `while` loop. -/
def pass (values : Values) : Except NetError (Values × Bool) := tags.foldlM turn (values, false)

/-- The `while` loop; `none` while it has not ended. -/
def settle : Nat → Values → Option (Except NetError Values)
  | 0, _ => none
  | n + 1, values =>
    match pass values with
    | .error e => some (.error e)
    | .ok (values, updated) => if updated then settle n values else some (.ok values)

def Refers (values : Values) (s t : NetTag) : Prop := netMarkers.marker t <:+: values s

def Cyclic (values : Values) : Prop := ∃ t, Relation.TransGen (Refers values) t t

structure Settles (values : Values) : Prop where
  ends : ∃ n r, settle n values = some r
  reported : Cyclic values → ∃ n e, settle n values = some (.error e)

def Unescaped (values : Values) : Prop := ∀ t, '\\' ∉ values t

/-- The values consist of characters and references, and there is no other marker in them, nor in what they become
when references are replaced. -/
def Separated (values : Values) : Prop :=
  ∃ defs : NetTag → List (Piece Char NetTag), (∀ t, values t = text netMarkers (defs t)) ∧
    ∀ t ps, Expands defs (defs t) ps → Unambiguous netMarkers ps

section Template

theorem templateAux_unescaped {n : Nat} : ∀ {s : Text}, '\\' ∉ s → s.length ≤ n →
    templateAux n s = some (s.map .char) := by
  induction n with
  | zero =>
    intro s _ hn
    rw [length_eq_zero_iff.mp (Nat.le_zero.mp hn)]
    rfl
  | succ n ih =>
    intro s hs hn
    cases s with
    | nil => rfl
    | cons c s =>
      rw [mem_cons, not_or] at hs
      rw [templateAux, if_pos (Ne.symm hs.1), ih hs.2 (Nat.le_of_succ_le_succ hn)]
      rfl

theorem reSub_unescaped {tag : NetTag} {repl : Text} (h : '\\' ∉ repl) (string : Text) :
    reSub tag repl string = some (sub (rule netMarkers tag repl) string) := by
  have hfill : ∀ s : Text, (s.map Part.char).flatMap (Part.fill (netMarkers.marker tag)) = s := by
    intro s
    induction s with
    | nil => rfl
    | cons c s ih => rw [map_cons, flatMap_cons, ih]; rfl
  unfold reSub template
  simp [templateAux_unescaped h (Nat.le_refl _), hfill]

end Template

section Unescaped

variable {values values' : Values} {u u' : Bool}

theorem substitute_unescaped {tag rtag : NetTag} (h : Unescaped values) :
    ∃ st, substitute tag (values, u) rtag = .ok st ∧ Unescaped st.1 := by
  unfold substitute
  by_cases ht : tag ≠ rtag
  · rw [if_pos ht, reSub_unescaped (h tag)]
    simp only
    split
    · refine ⟨_, rfl, fun t hmem => ?_⟩
      change '\\' ∈ update values rtag _ t at hmem
      by_cases htr : t = rtag
      · subst htr
        rw [update_self] at hmem
        rcases mem_sub _ hmem with hm | ⟨_, hm⟩
        · exact h _ hm
        · exact h _ hm
      · rw [update_of_ne htr] at hmem
        exact h t hmem
    · exact ⟨_, rfl, h⟩
  · rw [if_neg ht]
    exact ⟨_, rfl, h⟩

theorem turn_unescaped {st : Values × Bool} (tag : NetTag) (h : Unescaped st.1) :
    ∃ st', turn st tag = .ok st' ∧ Unescaped st'.1 := by
  unfold turn
  induction tags generalizing st with
  | nil => exact ⟨st, rfl, h⟩
  | cons rtag rtags ih =>
    obtain ⟨st₁, h₁, hu₁⟩ := substitute_unescaped (u := st.2) h
    obtain ⟨st₂, h₂, hu₂⟩ := ih hu₁
    refine ⟨st₂, ?_, hu₂⟩
    rw [foldlM_cons, h₁]
    exact h₂

theorem pass_unescaped (h : Unescaped values) : ∃ st, pass values = .ok st ∧ Unescaped st.1 := by
  have key : ∀ (ts : List NetTag) (st : Values × Bool), Unescaped st.1 →
      ∃ st', ts.foldlM turn st = .ok st' ∧ Unescaped st'.1 := by
    intro ts
    induction ts with
    | nil => exact fun st hst => ⟨st, rfl, hst⟩
    | cons t ts ih =>
      intro st hst
      obtain ⟨st₁, h₁, hu₁⟩ := turn_unescaped t hst
      obtain ⟨st₂, h₂, hu₂⟩ := ih st₁ hu₁
      refine ⟨st₂, ?_, hu₂⟩
      rw [foldlM_cons, h₁]
      exact h₂
  exact key tags (values, false) h

theorem settle_unescaped {n : Nat} {e : NetError} : ∀ {values : Values}, Unescaped values →
    settle n values ≠ some (.error e) := by
  induction n with
  | zero => exact fun _ h => nomatch h
  | succ n ih =>
    intro values hv h
    obtain ⟨st, hst, hu⟩ := pass_unescaped hv
    rw [settle, hst] at h
    grind

end Unescaped

section Pieces

variable {defs : NetTag → List (Piece Char NetTag)}

/-- The values are expansions of the definitions, none of them has a backslash, and nothing else in them is a
marker. -/
structure Expanded (defs ps : NetTag → List (Piece Char NetTag)) (values : Values) : Prop where
  text_eq : ∀ t, values t = text netMarkers (ps t)
  expands : ∀ t, Expands defs (defs t) (ps t)

structure Sound (defs : NetTag → List (Piece Char NetTag)) : Prop where
  unambiguous : ∀ t ps, Expands defs (defs t) ps → Unambiguous netMarkers ps
  acyclic : ∀ t, ¬ Relation.TransGen (RefersTo defs) t t

variable (hd : Sound defs) {ps : NetTag → List (Piece Char NetTag)}

/-- The references of the values are among those that were there before. -/
def Inherits (ps ps' : NetTag → List (Piece Char NetTag)) : Prop :=
  ∀ s t, Piece.ref s ∈ ps' t → ∃ t', Piece.ref s ∈ ps t'

theorem Inherits.trans {ps ps₁ ps₂ : NetTag → List (Piece Char NetTag)} (h₁ : Inherits ps ps₁)
    (h₂ : Inherits ps₁ ps₂) : Inherits ps ps₂ := by
  intro s t hs
  obtain ⟨t₁, ht₁⟩ := h₂ s t hs
  exact h₁ s t₁ ht₁

variable {values : Values}

include hd in
theorem Expanded.not_self (h : Expanded defs ps values) (tag : NetTag) : Piece.ref tag ∉ ps tag :=
  fun hm => hd.acyclic tag ((h.expands tag).leads hm)

include hd in
theorem substitute_expanded (u : Bool) (tag rtag : NetTag) (h : Expanded defs ps values)
    (hu : Unescaped values) :
    ∃ values' u', substitute tag (values, u) rtag = .ok (values', u') ∧
      (u' = true → u = true ∨ Piece.ref tag ∈ ps rtag) ∧ Unescaped values' ∧
      Expanded defs (if tag ≠ rtag then update ps rtag (expand tag (ps tag) (ps rtag)) else ps) values' := by
  obtain ⟨st, hst, hust⟩ := substitute_unescaped (u := u) hu
  refine ⟨st.1, st.2, hst, ?_⟩
  unfold substitute at hst
  by_cases ht : tag ≠ rtag
  · have hsub : sub (rule netMarkers tag (values tag)) (values rtag) =
        text netMarkers (expand tag (ps tag) (ps rtag)) := by
      rw [h.text_eq tag, h.text_eq rtag, sub_text (hd.unambiguous rtag _ (h.expands rtag))]
    have hexp : ∀ t, Expands defs (defs t) (update ps rtag (expand tag (ps tag) (ps rtag)) t) := by
      intro t
      by_cases htr : t = rtag
      · subst htr
        rw [update_self]
        exact (h.expands tag).expand (h.expands t)
      · rw [update_of_ne htr]
        exact h.expands t
    rw [if_pos ht, reSub_unescaped (hu tag)] at hst
    simp only [hsub] at hst
    rw [if_pos ht]
    split at hst
    · rename_i hne
      cases hst
      refine ⟨fun _ => .inr ?_, hust, fun t => ?_, hexp⟩
      · by_contra hmem
        rw [expand_of_not_mem hmem, ← h.text_eq rtag] at hne
        exact hne rfl
      · grind [h.text_eq]
    · rename_i heq
      cases hst
      refine ⟨.inl, hust, fun t => ?_, hexp⟩
      by_cases htr : t = rtag
      · subst htr; rw [update_self]; exact (not_not.mp heq).symm
      · rw [update_of_ne htr]; exact h.text_eq t
  · rw [if_neg ht] at hst
    cases hst
    rw [if_neg ht]
    exact ⟨.inl, hust, h⟩

include hd in
theorem turn_expanded (u : Bool) (tag : NetTag) (h : Expanded defs ps values)
    (hu : Unescaped values) :
    ∃ values' u' ps', turn (values, u) tag = .ok (values', u') ∧ Expanded defs ps' values' ∧ Unescaped values' ∧
      Inherits ps ps' ∧ (∀ t, Piece.ref tag ∉ ps' t) ∧ (u' = true → u = true ∨ ∃ s t, Piece.ref s ∈ ps t) := by
  -- the induction is on the tags that are still to come, and the value of `tag` stays as it is
  have key : ∀ (rs : List NetTag) (values : Values) (u : Bool) (ps : NetTag → List (Piece Char NetTag)),
      Expanded defs ps values → Unescaped values →
      ∃ values' u' ps', rs.foldlM (substitute tag) (values, u) = .ok (values', u') ∧ Expanded defs ps' values' ∧
        Unescaped values' ∧ Inherits ps ps' ∧ (∀ t, t ∈ rs ∨ Piece.ref tag ∉ ps t → Piece.ref tag ∉ ps' t) ∧
        (u' = true → u = true ∨ ∃ s t, Piece.ref s ∈ ps t) := by
    intro rs
    induction rs with
    | nil =>
      intro values u ps h hu
      refine ⟨values, u, ps, rfl, h, hu, fun s t hs => ⟨t, hs⟩, fun t ht => ?_, .inl⟩
      exact ht.resolve_left not_mem_nil
    | cons r rs ih =>
      intro values u ps h hu
      obtain ⟨values₁, u₁, h₁, hup₁, hu₁, hexp₁⟩ := substitute_expanded hd u tag r h hu
      obtain ⟨values₂, u₂, ps₂, h₂, hexp₂, hu₂, hinh₂, hgone₂, hup₂⟩ := ih values₁ u₁ _ hexp₁ hu₁
      have hself : Piece.ref tag ∉ ps tag := h.not_self hd tag
      have hinh₁ : Inherits ps
          (if tag ≠ r then update ps r (expand tag (ps tag) (ps r)) else ps) := by
        intro s t hs
        split at hs
        · by_cases htr : t = r
          · grind [mem_expand]
          · rw [update_of_ne htr] at hs
            exact ⟨_, hs⟩
        · exact ⟨_, hs⟩
      have hgone₁ : ∀ t, t = r ∨ Piece.ref tag ∉ ps t →
          Piece.ref tag ∉ (if tag ≠ r then update ps r (expand tag (ps tag) (ps r)) else ps) t := by
        intro t ht
        split
        · grind [not_mem_expand]
        · grind
      refine ⟨values₂, u₂, ps₂, ?_, hexp₂, hu₂, hinh₁.trans hinh₂, ?_, ?_⟩
      · rw [foldlM_cons, h₁]
        exact h₂
      · intro t ht
        rw [mem_cons, or_assoc, or_left_comm] at ht
        exact hgone₂ t (ht.imp_right (hgone₁ t))
      · intro hup
        grind [expand]
  obtain ⟨values', u', ps', h', hexp, hu', hinh, hgone, hup⟩ := key tags values u ps h hu
  exact ⟨values', u', ps', h', hexp, hu', hinh, fun t => hgone t (.inl (mem_tags t)), hup⟩

include hd in
theorem pass_expanded (h : Expanded defs ps values) (hu : Unescaped values) :
    ∃ values' u' ps', pass values = .ok (values', u') ∧ Expanded defs ps' values' ∧ Unescaped values' ∧
      (∀ s t, Piece.ref s ∉ ps' t) ∧ (u' = true → ∃ s t, Piece.ref s ∈ ps t) := by
  have key : ∀ (ts : List NetTag) (values : Values) (u : Bool) (ps : NetTag → List (Piece Char NetTag)),
      Expanded defs ps values → Unescaped values →
      ∃ values' u' ps', ts.foldlM turn (values, u) = .ok (values', u') ∧ Expanded defs ps' values' ∧
        Unescaped values' ∧ Inherits ps ps' ∧ (∀ s ∈ ts, ∀ t, Piece.ref s ∉ ps' t) ∧
        (u' = true → u = true ∨ ∃ s t, Piece.ref s ∈ ps t) := by
    intro ts
    induction ts with
    | nil =>
      intro values u ps h hu
      exact ⟨values, u, ps, rfl, h, hu, fun s t hs => ⟨t, hs⟩, fun s hs => absurd hs not_mem_nil, .inl⟩
    | cons tag ts ih =>
      intro values u ps h hu
      obtain ⟨values₁, u₁, ps₁, h₁, hexp₁, hu₁, hinh₁, hgone₁, hup₁⟩ := turn_expanded hd u tag h hu
      obtain ⟨values₂, u₂, ps₂, h₂, hexp₂, hu₂, hinh₂, hgone₂, hup₂⟩ := ih values₁ u₁ ps₁ hexp₁ hu₁
      refine ⟨values₂, u₂, ps₂, ?_, hexp₂, hu₂, hinh₁.trans hinh₂, ?_, ?_⟩
      · rw [foldlM_cons, h₁]
        exact h₂
      · intro s hs t ht
        rcases mem_cons.mp hs with rfl | hs
        · obtain ⟨t', ht'⟩ := hinh₂ s t ht
          exact hgone₁ t' ht'
        · exact hgone₂ s hs t ht
      · intro hup
        grind [Inherits]
  obtain ⟨values', u', ps', h', hexp, hu', -, hgone, hup⟩ := key tags values false ps h hu
  exact ⟨values', u', ps', h', hexp, hu', fun s => hgone s (mem_tags s), fun hup' =>
    (hup hup').resolve_left Bool.false_ne_true⟩

include hd in
theorem settle_expanded (h : Expanded defs ps values) (hu : Unescaped values) :
    ∃ values' ps', settle 2 values = some (.ok values') ∧ Expanded defs ps' values' ∧
      ∀ s t, Piece.ref s ∉ ps' t := by
  obtain ⟨values₁, u₁, ps₁, h₁, hexp₁, hu₁, hgone₁, -⟩ := pass_expanded hd h hu
  cases u₁ with
  | false =>
    refine ⟨values₁, ps₁, ?_, hexp₁, hgone₁⟩
    rw [settle, h₁]
    rfl
  | true =>
    obtain ⟨values₂, u₂, ps₂, h₂, hexp₂, -, hgone₂, hup₂⟩ := pass_expanded hd hexp₁ hu₁
    have hu₂ : u₂ = false := by
      grind
    subst hu₂
    refine ⟨values₂, ps₂, ?_, hexp₂, hgone₂⟩
    rw [settle, h₁]
    simp only [if_true]
    rw [settle, h₂]
    rfl

end Pieces

theorem settles_of_not_cyclic {values : Values} (hu : Unescaped values) (hs : Separated values)
    (hc : ¬ Cyclic values) : Settles values := by
  obtain ⟨defs, htext, hunamb⟩ := hs
  have hacyc : ∀ t, ¬ Relation.TransGen (RefersTo defs) t t := by
    intro t ht
    refine hc ⟨t, ht.lift id fun a b hab => ?_⟩
    change netMarkers.marker b <:+: values a
    rw [htext a]
    exact marker_infix netMarkers hab
  obtain ⟨values', ps', h, -, -⟩ := settle_expanded ⟨hunamb, hacyc⟩ ⟨htext, fun t => Expands.refl _⟩ hu
  exact ⟨⟨2, _, h⟩, fun hcyc => absurd hcyc hc⟩

section Processes

variable {File : Type u} (fs : FileSystem File) (optionxform : Text → Text)

/-- The build set and the network configuration are read as they should be. -/
structure Processes (f : File) (values : Values) : Prop where
  resolves : Resolves fs optionxform f
  settles : Settles values

variable {fs optionxform}

/-- **No file may lead to itself, no value of an extending file may keep a `%`, and no variable may lead to itself.
This is enough unless a value has a backslash, or texts that are put together make a marker.** -/
theorem processes_iff [Finite File] (f : File) (values : Values) :
    (Processes fs optionxform f values →
      ¬ ExtendsCyclic fs optionxform f ∧ ¬ Refused fs optionxform f ∧ (Unescaped values → ¬ Cyclic values)) ∧
    (¬ ExtendsCyclic fs optionxform f ∧ ¬ Refused fs optionxform f ∧ ¬ Cyclic values ∧ Unescaped values ∧
      Separated values → Processes fs optionxform f values) := by
  constructor
  · intro h
    obtain ⟨hext, href⟩ := (resolves_iff f).mp h.resolves
    refine ⟨hext, href, fun hu hc => ?_⟩
    obtain ⟨n, e, he⟩ := h.settles.reported hc
    exact settle_unescaped hu he
  · rintro ⟨hext, href, hc, hu, hs⟩
    exact ⟨(resolves_iff f).mpr ⟨hext, href⟩, settles_of_not_cyclic hu hs hc⟩

end Processes

/-- The settings of a file with the section `general` only. -/
def generalIni (options : Options) : Ini := ⟨∅, (∅ : AList fun _ : Text => Options).insert general options⟩

theorem generalIni_look {options : Options} {s o v : Text} (h : (generalIni options).look s o = some v) :
    options.lookup o = some v := by
  unfold generalIni Ini.look at h
  by_cases hs : s = general
  · subst hs
    rw [AList.lookup_insert] at h
    simpa using h
  · rw [AList.lookup_insert_ne hs] at h
    simp at h

def defaultOptions : Options := (∅ : Options).insert "name".toList "default".toList

def minimalOptions : Options :=
  ((∅ : Options).insert "extends".toList "default.ini".toList).insert "name".toList "minimal".toList

/-- A file (`false`) and the file it extends (`true`). -/
def twoFiles : FileSystem Bool where
  exists' := fun _ => true
  read := fun f => .ok (generalIni (if f then defaultOptions else minimalOptions))
  sibling := fun _ e => if e = "default.ini".toList then some true else none
  inBuildset := fun _ => none

theorem minimal_plain (s o v : Text) (h : (generalIni minimalOptions).look s o = some v) : '%' ∉ v := by
  replace h := generalIni_look h
  unfold minimalOptions at h
  by_cases hn : o = "name".toList
  · subst hn
    cases h
    decide
  by_cases he : o = "extends".toList
  · subst he
    cases h
    decide
  · rw [AList.lookup_insert_ne hn, AList.lookup_insert_ne he] at h
    simp at h

theorem twoFiles_acyclic : ¬ ExtendsCyclic twoFiles id false := by
  intro h
  obtain ⟨g, ⟨ini, hg⟩, hcyc⟩ := h.next
  cases hg
  obtain ⟨g, ⟨ini, hg⟩, -⟩ := hcyc.next
  cases hg

theorem twoFiles_not_refused : ¬ Refused twoFiles id false := by
  rintro ⟨inis, hchain, -, ini, hini, hstore⟩
  cases hchain with
  | last h => cases hini
  | extend h hg =>
    cases h
    cases hg with
    | extend h _ => cases h
    | last h =>
      grind [storable_of_plain, minimal_plain]

def defaultPieces : NetTag → List (Piece Char NetTag)
  | .nfsMountPath => .ref .peerIp :: "/rtems".toList.map .lit
  | .nfsMountOptions => "nfsv4,minorversion=1".toList.map .lit
  | _ => "10.0.0.1".toList.map .lit

def defaultValues (t : NetTag) : Text := text netMarkers (defaultPieces t)

theorem refers_defaultValues (s t : NetTag) (h : Refers defaultValues s t) : s = .nfsMountPath ∧ t = .peerIp := by
  revert h
  unfold Refers
  cases s <;> cases t <;> decide

theorem defaultValues_acyclic : ¬ Cyclic defaultValues := by
  rintro ⟨t, ht⟩
  grind [refers_defaultValues]

theorem defaultValues_separated : Separated defaultValues := by
  refine ⟨defaultPieces, fun _ => rfl, fun t ps hps => unambiguous_of_lit fun s => ⟨'_', ?_, fun hm => ?_⟩⟩
  · cases s <;> decide
  · -- no literal text has an underscore
    have hlit : ∀ t, Piece.lit '_' ∉ defaultPieces t := by
      intro t
      cases t <;> decide
    rcases hps.lit_mem hm with h | ⟨r, h⟩
    · exact hlit t h
    · exact hlit r h

theorem processes_iff_default : Processes twoFiles id false defaultValues :=
  (processes_iff false defaultValues).2 ⟨twoFiles_acyclic, twoFiles_not_refused, defaultValues_acyclic,
    by intro t; cases t <;> decide, defaultValues_separated⟩

def ownFile : FileSystem Unit where
  exists' := fun _ => true
  read := fun _ => .ok (generalIni minimalOptions)
  sibling := fun _ _ => some ()
  inBuildset := fun _ => none

/-- An address that is defined by itself, with the default mount path. -/
def ownValues (t : NetTag) : Text := if t = .peerIp then "x@NET_CFG_PEER_IP@".toList else defaultValues t

/-- The file is read again and again, and the reference of the address to itself is not reported. -/
theorem ownFile_not_processed :
    (∀ n, loadIni ownFile id n () = none) ∧ Cyclic ownValues ∧ (∀ n e, settle n ownValues ≠ some (.error e)) ∧
      ¬ Resolves ownFile id () ∧ ¬ Settles ownValues := by
  have hext : Extends ownFile id () () := ⟨generalIni minimalOptions, rfl⟩
  have hnone : ∀ n, loadIni ownFile id n () = none := fun n =>
    ExtendsCyclic.not_loaded n ⟨(), .refl, .single hext⟩
  have hcyc : Cyclic ownValues := ⟨.peerIp, .single ⟨"x".toList, [], by decide⟩⟩
  have hun : Unescaped ownValues := by intro t; cases t <;> decide
  have herr : ∀ n e, settle n ownValues ≠ some (.error e) := fun n e => settle_unescaped hun
  refine ⟨hnone, hcyc, herr, fun h => ?_, fun h => ?_⟩
  · obtain ⟨n, r, hr⟩ := h.ends
    rw [hnone n] at hr
    cases hr
  · obtain ⟨n, e, he⟩ := h.reported hcyc
    exact herr n e he

end RtemsLibbsd.Waf

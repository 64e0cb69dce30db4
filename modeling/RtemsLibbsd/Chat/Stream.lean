import Mathlib.Data.List.Induction
import Mathlib.Data.List.TakeWhile
import RtemsLibbsd.Chat.Agreement

/-!
# Strings in the stream of received characters

What `get_string` (`pppd/chat.c`) reports, against the stream of all characters since the call.

* `characters` — the stream: what `get_char` returns in turn, up to a silence.
* `FirstEnd` — the first position at which the expect string or an abort string ends.
* `Exact` — a result for that position, or a silence if there is none.

The buffer starts again at a line end, so a string with one is never found, and any other string is found where it is
in the stream: `suffix_line_iff`.  The result is exact exactly when the strings with line ends are not the first to
end: **`exact_iff_lineEndsApart`**.
-/

namespace RtemsLibbsd.Chat

open List

/-- The characters that `get_char` returns in turn, the tries for the first one given. -/
def characters : Nat → List (Option Byte) → List Byte
  | _, [] => []
  | tries, none :: reads => if tries ≤ 1 then [] else characters (tries - 1) reads
  | _, some c :: reads => (c &&& 0x7f) :: characters MAX_TIMEOUTS reads

def readsBehind : Nat → List (Option Byte) → List (Option Byte)
  | 0, reads => reads
  | _ + 1, [] => []
  | n + 1, none :: reads => readsBehind (n + 1) reads
  | n + 1, some _ :: reads => readsBehind n reads

/-- The expect string ends at the position, or an abort string ends with the character in front of it. -/
def EndsAt (string : List Byte) (aborts : List AbortString) (cs : List Byte) (i : Nat) : Prop :=
  string <:+ cs.take i ∨ 1 ≤ i ∧ ∃ a ∈ aborts, a.val <:+ cs.take i

structure FirstEnd (string : List Byte) (aborts : List AbortString) (cs : List Byte) (i : Nat) : Prop where
  le : i ≤ cs.length
  ends : EndsAt string aborts cs i
  before : ∀ j < i, ¬ EndsAt string aborts cs j

/-- A match at the first position if the expect string ends there, else the number of an abort string that does; a
silence if there is no such position. -/
structure Exact (string : List Byte) (aborts : List AbortString) (reads : List (Option Byte))
    (r : Heard × List (Option Byte)) : Prop where
  matched : ∀ i, FirstEnd string aborts (characters MAX_TIMEOUTS reads) i →
    string <:+ (characters MAX_TIMEOUTS reads).take i → r = (.matched, readsBehind i reads)
  aborted : ∀ i, FirstEnd string aborts (characters MAX_TIMEOUTS reads) i →
    ¬ string <:+ (characters MAX_TIMEOUTS reads).take i →
    ∃ n a, aborts[n]? = some a ∧ a.val <:+ (characters MAX_TIMEOUTS reads).take i ∧ r = (.aborted n, readsBehind i reads)
  silent : (∀ i, ¬ FirstEnd string aborts (characters MAX_TIMEOUTS reads) i) → r.1 = .silent

def isLineEnd (c : Byte) : Bool := c == ch '\n' || c == ch '\r'

def NoLineEnd (t : List Byte) : Prop := ∀ c ∈ t, isLineEnd c = false

/-- At the first position, the expect string has no line end if it is the one that ends there, else one of the abort
strings that end there has none. -/
structure LineEndsApart (string : List Byte) (aborts : List AbortString) (cs : List Byte) : Prop where
  matched : ∀ i, FirstEnd string aborts cs i → string <:+ cs.take i → NoLineEnd string
  aborted : ∀ i, FirstEnd string aborts cs i → ¬ string <:+ cs.take i →
    ∃ a ∈ aborts, NoLineEnd a.val ∧ a.val <:+ cs.take i

section Lines

theorem received_eq (line : List Byte) (c : Byte) : received line c = if isLineEnd c then [] else line ++ [c] := by
  unfold received isLineEnd
  simp

theorem suffix_concat_iff (t xs : List Byte) (x : Byte) : t <:+ xs ++ [x] ↔ t = [] ∨ ∃ t', t = t' ++ [x] ∧ t' <:+ xs := by
  constructor
  · intro h
    rcases eq_nil_or_concat t with rfl | ⟨t', y, rfl⟩
    · exact .inl rfl
    · obtain ⟨before, hbefore⟩ := h
      rw [concat_eq_append, ← append_assoc] at hbefore
      obtain ⟨hxs, hx⟩ := append_inj' hbefore rfl
      obtain rfl := singleton_inj.mp hx
      exact .inr ⟨t', concat_eq_append, before, hxs⟩
  · rintro (rfl | ⟨t', rfl, before, rfl⟩)
    · exact nil_suffix
    · exact ⟨before, (append_assoc ..).symm⟩

theorem suffix_line_iff (t cs : List Byte) : t <:+ cs.foldl received [] ↔ NoLineEnd t ∧ t <:+ cs := by
  induction cs using List.reverseRecOn generalizing t with
  | nil =>
    rw [foldl_nil, suffix_nil]
    refine ⟨fun h => ⟨fun c hc => ?_, h⟩, fun h => h.2⟩
    rw [h] at hc
    cases hc
  | append_singleton cs c ih =>
    rw [foldl_append, foldl_cons, foldl_nil, received_eq]
    cases hc : isLineEnd c with
    | true =>
      rw [if_pos rfl, suffix_nil, suffix_concat_iff]
      constructor
      · rintro rfl
        exact ⟨fun c hc => absurd hc not_mem_nil, .inl rfl⟩
      · rintro ⟨hno, hnil | ⟨t', rfl, -⟩⟩
        · exact hnil
        · have := hno c (mem_append_right _ mem_cons_self)
          exact Bool.noConfusion (hc.symm.trans this)
    | false =>
      rw [if_neg Bool.false_ne_true, suffix_concat_iff, suffix_concat_iff]
      constructor
      · rintro (rfl | ⟨t', rfl, ht'⟩)
        · exact ⟨fun c hc => absurd hc not_mem_nil, .inl rfl⟩
        · obtain ⟨hno, hsuffix⟩ := (ih t').mp ht'
          refine ⟨fun d hd => ?_, .inr ⟨t', rfl, hsuffix⟩⟩
          rcases mem_append.mp hd with hd | hd
          · exact hno d hd
          · rw [mem_singleton.mp hd]
            exact hc
      · rintro ⟨hno, rfl | ⟨t', rfl, ht'⟩⟩
        · exact .inl rfl
        · exact .inr ⟨t', rfl, (ih t').mpr ⟨fun d hd => hno d (mem_append_left _ hd), ht'⟩⟩

end Lines

section Verdict

variable {string : List Byte} {aborts : List AbortString}

/-- What is reported behind a character, with the current line. -/
def verdict (string : List Byte) (aborts : List AbortString) (line : List Byte) : Option Heard :=
  if string <:+ line then some .matched else (aborts.findIdx? fun a => decide (a.val <:+ line)).map .aborted

theorem verdict_none_iff (line : List Byte) :
    verdict string aborts line = none ↔ ¬ string <:+ line ∧ ∀ a ∈ aborts, ¬ a.val <:+ line := by
  unfold verdict
  by_cases h : string <:+ line
  · rw [if_pos h]
    exact ⟨nofun, fun hno => absurd h hno.1⟩
  · rw [if_neg h, Option.map_eq_none_iff, findIdx?_eq_none_iff]
    refine ⟨fun hno => ⟨h, fun a ha => of_decide_eq_false (hno a ha)⟩, fun hno a ha => decide_eq_false (hno.2 a ha)⟩

theorem verdict_cases {line : List Byte} {h : Heard} (hv : verdict string aborts line = some h) :
    h = .matched ∧ string <:+ line ∨
      ¬ string <:+ line ∧ ∃ n a, h = .aborted n ∧ aborts[n]? = some a ∧ a.val <:+ line := by
  unfold verdict at hv
  by_cases hs : string <:+ line
  · rw [if_pos hs] at hv
    exact .inl ⟨(Option.some.inj hv).symm, hs⟩
  · rw [if_neg hs, Option.map_eq_some_iff] at hv
    obtain ⟨n, hn, rfl⟩ := hv
    obtain ⟨hlt, ha, -⟩ := findIdx?_eq_some_iff_getElem.mp hn
    exact .inr ⟨hs, n, aborts[n], rfl, getElem?_eq_getElem hlt, of_decide_eq_true ha⟩

theorem listen_some (tries : Nat) (line : List Byte) (c : Byte) (reads : List (Option Byte)) :
    listen string aborts tries line (some c :: reads) =
      match verdict string aborts (received line (c &&& 0x7f)) with
      | some h => (h, reads)
      | none => listen string aborts MAX_TIMEOUTS (received line (c &&& 0x7f)) reads := by
  grind [verdict, listen]

theorem readsBehind_zero (reads : List (Option Byte)) : readsBehind 0 reads = reads := by
  cases reads <;> rfl

/-- **The outcome of `listen`**: the report at the first position that has one. -/
theorem listen_outcome (tries : Nat) (line : List Byte) (reads : List (Option Byte)) :
    (∃ i h, 1 ≤ i ∧ i ≤ (characters tries reads).length ∧
        verdict string aborts (((characters tries reads).take i).foldl received line) = some h ∧
        (∀ j, 1 ≤ j → j < i → verdict string aborts (((characters tries reads).take j).foldl received line) = none) ∧
        listen string aborts tries line reads = (h, readsBehind i reads)) ∨
      ((∀ i, 1 ≤ i → i ≤ (characters tries reads).length →
          verdict string aborts (((characters tries reads).take i).foldl received line) = none) ∧
        (listen string aborts tries line reads).1 = .silent) := by
  induction reads generalizing tries line with
  | nil => exact .inr ⟨fun i hi hle => absurd (Nat.le_trans hi hle) (Nat.not_succ_le_zero 0), rfl⟩
  | cons r reads ih =>
    cases r with
    | none =>
      unfold characters
      rw [listen]
      by_cases htries : tries ≤ 1
      · grind
      · rw [if_neg htries, if_neg htries]
        rcases ih (tries - 1) line with ⟨i, h, hpos, hle, hv, hbefore, hlisten⟩ | hsilent
        · refine .inl ⟨i, h, hpos, hle, hv, hbefore, hlisten.trans ?_⟩
          obtain ⟨k, rfl⟩ := Nat.exists_eq_add_of_le' hpos
          rfl
        · exact .inr hsilent
    | some c =>
      rw [listen_some]
      unfold characters
      cases hv : verdict string aborts (received line (c &&& 0x7f)) with
      | some h =>
        refine .inl ⟨1, h, Nat.le_refl 1, Nat.succ_pos _, hv, fun j hj hlt => absurd hlt (Nat.not_lt_of_le hj), ?_⟩
        simp [readsBehind]
      | none =>
        rcases ih MAX_TIMEOUTS (received line (c &&& 0x7f)) with ⟨i, h, hpos, hle, hv', hbefore, hlisten⟩ | ⟨hnone, hsilent⟩
        · refine .inl ⟨i + 1, h, Nat.succ_pos i, Nat.succ_le_succ hle, hv', fun j hj hlt => ?_, hlisten⟩
          obtain ⟨k, rfl⟩ := Nat.exists_eq_add_of_le' hj
          grind
        · refine .inr ⟨fun i hi hle => ?_, hsilent⟩
          obtain ⟨k, rfl⟩ := Nat.exists_eq_add_of_le' hi
          grind

end Verdict

section Exactness

variable {string : List Byte} {aborts : List AbortString} {cs : List Byte} {reads : List (Option Byte)}

variable {i : Nat}

theorem exists_firstEnd (hle : i ≤ cs.length) (hends : EndsAt string aborts cs i) :
    ∃ k, FirstEnd string aborts cs k := by
  induction i using Nat.strongRecOn with
  | ind i ih =>
    by_cases hbefore : ∃ j < i, EndsAt string aborts cs j
    · obtain ⟨j, hj, hends⟩ := hbefore
      exact ih j hj (Nat.le_trans (Nat.le_of_lt hj) hle) hends
    · exact ⟨i, hle, hends, fun j hj hends => hbefore ⟨j, hj, hends⟩⟩

theorem endsAt_of_verdict {h : Heard} (hi : 1 ≤ i)
    (hv : verdict string aborts ((cs.take i).foldl received []) = some h) : EndsAt string aborts cs i := by
  rcases verdict_cases hv with ⟨-, hs⟩ | ⟨-, n, a, -, ha, hs⟩
  · exact .inl ((suffix_line_iff _ _).mp hs).2
  · exact .inr ⟨hi, a, mem_of_getElem? ha, ((suffix_line_iff _ _).mp hs).2⟩

theorem verdict_of_apart (h : LineEndsApart string aborts cs) (hi : FirstEnd string aborts cs i) :
    verdict string aborts ((cs.take i).foldl received []) ≠ none := by
  intro hnone
  grind [verdict_none_iff, suffix_line_iff, h.matched, h.aborted]

theorem FirstEnd.pos (hne : string ≠ []) (hi : FirstEnd string aborts cs i) : 1 ≤ i := by
  rcases hi.ends with hs | ⟨hpos, -⟩
  · grind
  · exact hpos

theorem apart_of_exact (hex : Exact string aborts reads (listen string aborts MAX_TIMEOUTS [] reads)) :
    LineEndsApart string aborts (characters MAX_TIMEOUTS reads) := by
  refine ⟨fun i hi hs => ?_, fun i hi hs => ?_⟩
  · have hr := hex.matched i hi hs
    rcases listen_outcome MAX_TIMEOUTS [] reads with ⟨k, h, -, -, hv, -, hlisten⟩ | ⟨-, hsilent⟩
    · obtain rfl : h = .matched := (congrArg Prod.fst (hlisten.symm.trans hr) :)
      rcases verdict_cases hv with ⟨-, hline⟩ | ⟨-, n, a, heq, -, -⟩
      · exact ((suffix_line_iff _ _).mp hline).1
      · cases heq
    · rw [hr] at hsilent
      cases hsilent
  · obtain ⟨n, a, ha, hsuffix, hr⟩ := hex.aborted i hi hs
    rcases listen_outcome MAX_TIMEOUTS [] reads with ⟨k, h, -, -, hv, -, hlisten⟩ | ⟨-, hsilent⟩
    · obtain rfl : h = .aborted n := (congrArg Prod.fst (hlisten.symm.trans hr) :)
      rcases verdict_cases hv with ⟨heq, -⟩ | ⟨-, m, b, heq, hb, hline⟩
      · cases heq
      · cases heq
        obtain rfl : a = b := Option.some.inj (ha.symm.trans hb)
        exact ⟨a, mem_of_getElem? ha, ((suffix_line_iff _ _).mp hline).1, hsuffix⟩
    · rw [hr] at hsilent
      cases hsilent

theorem exact_of_apart (hne : string ≠ []) (hap : LineEndsApart string aborts (characters MAX_TIMEOUTS reads)) :
    Exact string aborts reads (listen string aborts MAX_TIMEOUTS [] reads) := by
  -- the report is the one for the first position
  have hreport : ∀ i, FirstEnd string aborts (characters MAX_TIMEOUTS reads) i →
      ∃ h, verdict string aborts (((characters MAX_TIMEOUTS reads).take i).foldl received []) = some h ∧
        listen string aborts MAX_TIMEOUTS [] reads = (h, readsBehind i reads) := by
    intro i hi
    have hsome := verdict_of_apart hap hi
    rcases listen_outcome MAX_TIMEOUTS [] reads with
      ⟨k, h, hpos, hle, hv, hbefore, hlisten⟩ | ⟨hnone, -⟩
    · obtain rfl : k = i := by
        apply Nat.le_antisymm
        · exact Nat.le_of_not_lt fun hlt => hsome (hbefore i (hi.pos hne) hlt)
        · exact Nat.le_of_not_lt fun hlt => hi.before k hlt (endsAt_of_verdict hpos hv)
      exact ⟨h, hv, hlisten⟩
    · exact absurd (hnone i (hi.pos hne) hi.le) hsome
  refine ⟨fun i hi hs => ?_, fun i hi hs => ?_, fun hnone => ?_⟩
  · obtain ⟨h, hv, hlisten⟩ := hreport i hi
    have hline := (suffix_line_iff _ _).mpr ⟨hap.matched i hi hs, hs⟩
    rcases verdict_cases hv with ⟨rfl, -⟩ | ⟨hno, -⟩
    · exact hlisten
    · exact absurd hline hno
  · obtain ⟨h, hv, hlisten⟩ := hreport i hi
    rcases verdict_cases hv with ⟨-, hline⟩ | ⟨-, n, a, rfl, ha, hline⟩
    · exact absurd ((suffix_line_iff _ _).mp hline).2 hs
    · exact ⟨n, a, ha, ((suffix_line_iff _ _).mp hline).2, hlisten⟩
  · rcases listen_outcome MAX_TIMEOUTS [] reads with
      ⟨k, h, hpos, hle, hv, -, -⟩ | ⟨-, hsilent⟩
    · obtain ⟨i, hi⟩ := exists_firstEnd hle (endsAt_of_verdict hpos hv)
      exact absurd hi (hnone i)
    · exact hsilent

theorem firstEnd_nil : FirstEnd [] aborts cs i ↔ i = 0 := by
  have hzero : EndsAt [] aborts cs 0 := .inl nil_suffix
  constructor
  · intro h
    by_contra hne
    exact h.before 0 (Nat.pos_of_ne_zero hne) hzero
  · rintro rfl
    exact ⟨Nat.zero_le _, hzero, fun j hj => absurd hj (Nat.not_lt_zero j)⟩

/-- **Chat matching**: for every expect string of an accepted length, all abort strings and all characters, what
`get_string` reports is exact, if and only if the strings with line ends are not the first ones to end. -/
theorem exact_iff_lineEndsApart (l : Line) (in_string : List Byte)
    (hlen : (cstr (clean false in_string)).length ≤ STR_LEN) :
    Exact (cstr (clean false in_string)) l.aborts l.reads (get_string l in_string) ↔
      LineEndsApart (cstr (clean false in_string)) l.aborts (characters MAX_TIMEOUTS l.reads) := by
  rw [get_string_of_cleaned l hlen]
  by_cases hnil : cstr (clean false in_string) = []
  · rw [if_pos hnil, hnil]
    refine ⟨fun _ => ⟨fun i _ _ c hc => absurd hc not_mem_nil, fun i _ hs => absurd nil_suffix hs⟩, fun _ => ?_⟩
    refine ⟨fun i hi _ => ?_, fun i _ hs => absurd nil_suffix hs, fun hnone => absurd (firstEnd_nil.mpr rfl) (hnone 0)⟩
    rw [firstEnd_nil.mp hi, readsBehind_zero]
  · rw [if_neg hnil]
    exact ⟨apart_of_exact, exact_of_apart hnil⟩

/-- The modem answers that the line is busy. -/
def busyLine : List (Option Byte) := (text "BUSY\n").map some

theorem exact_iff_lineEndsApart_busy :
    Exact (cstr (clean false (text "CONNECT"))) abortStrings busyLine
        (get_string (firstLine busyLine) (text "CONNECT")) ↔
      LineEndsApart (cstr (clean false (text "CONNECT"))) abortStrings (characters MAX_TIMEOUTS busyLine) :=
  exact_iff_lineEndsApart (firstLine busyLine) (text "CONNECT")
    (Nat.le_trans (length_cstr _) (Nat.le_trans (length_clean _) (by decide)))

theorem clean_plain {s : List Byte} (h : ∀ c ∈ s, c ≠ ch '^' ∧ c ≠ ch '\\' ∧ c ≠ 0) : cstr (clean false s) = s := by
  have hclean : clean false s = s := by
    induction s with
    | nil => rfl
    | cons c s ih =>
      obtain ⟨hcaret, hbackslash, -⟩ := h c mem_cons_self
      unfold clean
      rw [if_neg hcaret, if_pos hbackslash, ih fun d hd => h d (mem_cons_of_mem c hd)]
  rw [hclean]
  exact takeWhile_eq_self_iff.mpr fun c hc => bne_iff_ne.mpr (h c hc).2.2

theorem not_suffix_take {t : List Byte} {c : Byte} (ht : c ∈ t) (hc : c ∉ cs) (i : Nat) : ¬ t <:+ cs.take i :=
  fun h => hc (mem_of_mem_take (h.subset ht))

def ringing : List (Option Byte) := (text "RING\r\nRING").map some

/-- An abort string of the program is received and not reported. -/
theorem ring_not_reported :
    text "RING\r\nRING" ∈ abortStrings.map Subtype.val ∧
      (get_string (firstLine ringing) (text "CONNECT")).1 = .silent ∧
      ¬ Exact (text "CONNECT") abortStrings ringing (get_string (firstLine ringing) (text "CONNECT")) := by
  have hcs : characters MAX_TIMEOUTS ringing = text "RING\r\nRING" := by decide
  have hplain : cstr (clean false (text "CONNECT")) = text "CONNECT" := clean_plain (by decide)
  have hget : get_string (firstLine ringing) (text "CONNECT") =
      listen (text "CONNECT") abortStrings MAX_TIMEOUTS [] ringing := by
    rw [get_string_of_cleaned _ (by rw [hplain]; decide), hplain]
    exact if_neg (by decide)
  have hsilent : (listen (text "CONNECT") abortStrings MAX_TIMEOUTS [] ringing).1 = .silent := by
    rcases @listen_outcome (text "CONNECT") abortStrings MAX_TIMEOUTS [] ringing with
      ⟨k, h, -, -, hv, -, -⟩ | ⟨-, hsilent⟩
    · rcases verdict_cases hv with ⟨-, hline⟩ | ⟨-, n, a, -, ha, hline⟩
      · exact absurd ((suffix_line_iff _ _).mp hline).2 (not_suffix_take (c := ch 'C') (by decide) (by decide) k)
      · obtain ⟨hno, hsuffix⟩ := (suffix_line_iff _ _).mp hline
        have hmem := mem_of_getElem? ha
        simp only [abortStrings, mem_cons, not_mem_nil, or_false] at hmem
        rcases hmem with rfl | rfl | rfl | rfl | rfl
        · exact absurd hsuffix (not_suffix_take (c := ch 'B') (by decide) (by decide) k)
        · exact absurd hsuffix (not_suffix_take (c := ch 'O') (by decide) (by decide) k)
        · exact absurd hsuffix (not_suffix_take (c := ch 'O') (by decide) (by decide) k)
        · exact absurd hsuffix (not_suffix_take (c := ch 'O') (by decide) (by decide) k)
        · exact absurd (hno (ch '\r') (by decide)) (by decide)
    · exact hsilent
  rw [hget]
  refine ⟨by decide, hsilent, fun hex => ?_⟩
  have hends : EndsAt (text "CONNECT") abortStrings (text "RING\r\nRING") 10 :=
    .inr ⟨by decide, _, mem_of_getElem? (i := 4) rfl, suffix_refl _⟩
  obtain ⟨k, hk⟩ := exists_firstEnd (by decide) hends
  by_cases hs : text "CONNECT" <:+ (characters MAX_TIMEOUTS ringing).take k
  · rw [hex.matched k hk hs] at hsilent
    cases hsilent
  · obtain ⟨n, a, -, -, hr⟩ := hex.aborted k hk hs
    rw [hr] at hsilent
    cases hsilent

end Exactness

end RtemsLibbsd.Chat

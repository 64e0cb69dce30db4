import RtemsLibbsd.Chat.Semantics

/-!
# The chat program and the meaning of its scripts

* `putLoop_eq`, `get_string_eq` — `put_string` and `get_string` do what `perform` and `listen` say: the buffer of
  1024 octets keeps enough of the current line.
* `expectLoop_smooth`, `chat_send_smooth` — the same for the steps of a script that are smooth.
* `expectLoop_rough`, `chat_send_rough` — the other ones: the records differ from there on, or `exit_code` is not
  zero although the step is satisfied.
* `chatmain_iff` — both together over whole scripts.
-/

namespace RtemsLibbsd.Chat

open List

/-! ## Sending -/

theorem putLoop_escape (d : Byte) (out : List Byte) (writes : List Bool) {as : List LineAct}
    (h : ∀ ws, putLoop out ws = perform as ws) :
    putLoop (ch '\\' :: d :: out) writes = perform (escapeAct d :: as) writes := by
  have hmore : putLoop out = perform as := funext h
  rw [putLoop, if_neg (by decide), if_neg (by decide)]
  unfold escapeAct
  by_cases hd : d = ch 'd'
  · rw [if_pos hd, if_pos (.inl hd), perform, h]
  · by_cases hk : d = ch 'K'
    · have hp : ¬ (d = ch 'd' ∨ d = ch 'p') := by
        rw [hk]
        decide
      rw [if_neg hd, if_pos hk, if_neg hp, if_pos hk, perform, h]
    · by_cases hp : d = ch 'p'
      · rw [if_neg hd, if_neg hk, if_pos hp, if_pos (.inr hp), perform, h]
      · rw [if_neg hd, if_neg hk, if_neg hp, if_neg (not_or.mpr ⟨hd, hp⟩), if_neg hk, perform, hmore]

theorem lineActs_zero (s : List Byte) : lineActs (0 :: s) = [] := by
  rw [lineActs.eq_def]
  rfl

theorem lineActs_plain {c : Byte} (hzero : c ≠ 0) (hplain : c ≠ ch '\\') (s : List Byte) :
    lineActs (c :: s) = .write c :: lineActs s := by
  rw [lineActs.eq_def]
  dsimp only
  rw [if_neg hzero, if_pos hplain]

theorem putLoop_zero (out : List Byte) (writes : List Bool) : putLoop (0 :: out) writes = ⟨[], true, writes⟩ := by
  rw [putLoop.eq_def]
  dsimp only
  simp

theorem putLoop_plain {c : Byte} (hzero : c ≠ 0) (hplain : c ≠ ch '\\') (out : List Byte) (writes : List Bool) :
    putLoop (c :: out) writes = writeChar c writes (putLoop out) := by
  rw [putLoop.eq_def]
  dsimp only
  rw [if_neg hzero, if_pos hplain]

theorem putLoop_eq (s : List Byte) (writes : List Bool) :
    putLoop (s ++ [0, 0]) writes = perform (lineActs s) writes := by
  induction s using lineActs.induct generalizing writes with
  | case1 =>
    rfl
  | case2 s =>
    rw [lineActs_zero, cons_append, putLoop_zero, perform]
  | case3 c s hzero hplain ih =>
    have hmore : putLoop (s ++ [0, 0]) = perform (lineActs s) := funext ih
    rw [cons_append, putLoop_plain hzero hplain, lineActs_plain hzero hplain, perform, hmore]
  | case4 c hzero hplain =>
    obtain rfl : c = ch '\\' := Classical.not_not.mp hplain
    exact putLoop_escape 0 [0] writes fun _ => rfl
  | case5 c hzero hplain d s ih =>
    obtain rfl : c = ch '\\' := Classical.not_not.mp hplain
    exact putLoop_escape d (s ++ [0, 0]) writes ih

theorem put_string_eq {s : List Byte} (h : s ≠ text "EOT") (writes : List Bool) :
    put_string (if s = text "BREAK" then text "\\K\\c" else s) writes = perform (sendActs s) writes := by
  rw [put_string, putLoop_eq, sendActs, if_neg h]
  by_cases hs : s = text "BREAK"
  · rw [if_pos hs, if_pos hs]
    rfl
  · rw [if_neg hs, if_neg hs]

/-! ## Listening -/

theorem get_char_nil (tries : Nat) : get_char tries [] = (none, []) := by
  induction tries with
  | zero => rfl
  | succ tries ih => exact ih

theorem get_char_length {tries : Nat} {reads rest : List (Option Byte)} {c : Byte}
    (h : get_char tries reads = (some c, rest)) : rest.length < reads.length := by
  induction tries generalizing reads with
  | zero => cases h
  | succ tries ih =>
    match reads with
    | [] =>
      rw [get_char_nil] at h
      cases h
    | none :: reads =>
      have := ih h
      rw [length_cons]
      omega
    | some d :: reads =>
      obtain ⟨-, rfl⟩ := Prod.mk.inj h
      rw [length_cons]
      omega

section Listen

variable {string : List Byte} {aborts : List AbortString}

def hearOctet (string : List Byte) (aborts : List AbortString) (line : List Byte) (c : Byte)
    (reads : List (Option Byte)) : Heard × List (Option Byte) :=
  if string <:+ received line c then (.matched, reads)
  else
    match aborts.findIdx? fun a => decide (a.val <:+ received line c) with
    | some n => (.aborted n, reads)
    | none => listen string aborts MAX_TIMEOUTS (received line c) reads

theorem listen_get_char {tries : Nat} (ht : 0 < tries) (line : List Byte) (reads : List (Option Byte)) :
    listen string aborts tries line reads =
      match get_char tries reads with
      | (none, reads) => (.silent, reads)
      | (some c, reads) => hearOctet string aborts line c reads := by
  induction tries generalizing reads with
  | zero => omega
  | succ tries ih =>
    match reads with
    | [] =>
      rw [get_char_nil]
      rfl
    | none :: reads =>
      rw [listen, get_char]
      rcases Nat.eq_zero_or_pos tries with rfl | hpos
      · rfl
      · rw [if_neg (by omega), Nat.add_sub_cancel, ih hpos]
    | some c :: reads => rfl

/-- The octets from `temp2` on are the end of the current line, `m` of them at least. -/
def Buffered (m : Nat) (s line : List Byte) : Prop := s <:+ line ∧ (s = line ∨ m ≤ s.length)

variable {s line : List Byte} {m : Nat}

theorem buffered_received (h : Buffered m s line) (c : Byte) :
    Buffered (m + 1) (received s c) (received line c) := by
  unfold received
  split
  · exact ⟨suffix_refl [], .inl rfl⟩
  · obtain ⟨⟨before, hbefore⟩, hlong⟩ := h
    refine ⟨⟨before, by rw [← append_assoc, hbefore]⟩, ?_⟩
    grind

theorem Buffered.suffix_iff {s line t : List Byte} (h : Buffered m s line) (ht : t.length ≤ m) :
    t <:+ s ↔ t <:+ line := by
  refine ⟨fun hts => hts.trans h.1, fun htl => ?_⟩
  rcases h.2 with rfl | hlong
  · exact htl
  · exact suffix_of_suffix_length_le htl h.1 (by omega)

theorem Buffered.mono {m k : Nat} (h : Buffered m s line) (hk : k ≤ m) : Buffered k s line :=
  ⟨h.1, h.2.imp_right fun hm => Nat.le_trans hk hm⟩

theorem Buffered.shift (h : Buffered m s line) (hs : m ≤ s.length) :
    Buffered m (s.drop (s.length - m)) line := by
  refine ⟨(drop_suffix _ s).trans h.1, .inr ?_⟩
  rw [length_drop]
  omega

theorem drop_eq_iff_suffix (t s : List Byte) :
    (t.length ≤ s.length ∧ s.drop (s.length - t.length) = t) ↔ t <:+ s := by
  constructor
  · rintro ⟨-, h⟩
    rw [← h]
    exact drop_suffix _ s
  · intro h
    exact ⟨h.length_le, (suffix_iff_eq_drop.mp h).symm⟩

theorem matches_iff {s : List Byte} {c : Byte} (hne : string ≠ []) :
    (string.length ≤ (received s c).length ∧ string.getLast? = some c ∧
      (received s c).drop ((received s c).length - string.length) = string) ↔ string <:+ received s c := by
  rw [← drop_eq_iff_suffix]
  refine ⟨fun h => ⟨h.1, h.2.2⟩, fun h => ⟨h.1, ?_, h.2⟩⟩
  obtain ⟨before, hbefore⟩ := (drop_eq_iff_suffix string (received s c)).mp h
  unfold received at hbefore
  split at hbefore
  · exact absurd (append_eq_nil_iff.mp hbefore).2 hne
  · have hlast := congrArg List.getLast? hbefore
    rwa [getLast?_append_of_ne_nil _ hne, getLast?_concat] at hlast

theorem findAbort_eq (h : Buffered m s line) (hm : FAIL_LEN ≤ m) :
    findAbort aborts s = aborts.findIdx? fun a => decide (a.val <:+ line) := by
  unfold findAbort
  congr 1
  funext a
  rw [decide_eq_decide, drop_eq_iff_suffix, h.suffix_iff (by omega)]

/-- The loop of `get_string` looks for the string in the current line. -/
theorem getStringLoop_eq (hne : string ≠ []) (hlen : string.length ≤ STR_LEN) {fuel : Nat}
    {reads : List (Option Byte)} (hs : Buffered (max string.length FAIL_LEN - 1) s line)
    (hfuel : reads.length < fuel) :
    getStringLoop string aborts fuel s reads = listen string aborts MAX_TIMEOUTS line reads := by
  induction fuel generalizing s line reads with
  | zero => omega
  | succ fuel ih =>
    rw [getStringLoop, listen_get_char (by decide)]
    match hget : get_char MAX_TIMEOUTS reads with
    | (none, rest) => rfl
    | (some c, rest) =>
      have hrest := get_char_length hget
      have hnew := buffered_received hs c
      have hpos : 0 < max string.length FAIL_LEN := Nat.lt_of_lt_of_le (by decide) (Nat.le_max_right _ FAIL_LEN)
      have hmax : max string.length FAIL_LEN ≤ STR_LEN := Nat.max_le.mpr ⟨hlen, by decide⟩
      rw [Nat.sub_add_cancel hpos] at hnew
      have hsuffix : string <:+ received s c ↔ string <:+ received line c := hnew.suffix_iff (by omega)
      have hmatch := (matches_iff (s := s) (c := c) hne).trans hsuffix
      have habort : findAbort aborts (received s c) = _ := findAbort_eq hnew (by omega)
      dsimp only
      unfold hearOctet
      change (if string.length ≤ (received s c).length ∧ string.getLast? = some c ∧
        (received s c).drop ((received s c).length - string.length) = string then _ else _) = _
      by_cases hmat : string <:+ received line c
      · rw [if_pos (hmatch.mpr hmat), if_pos hmat]
      · rw [if_neg fun h => hmat (hmatch.mp h), if_neg hmat]
        change (match findAbort aborts (received s c) with | some n => _ | none => _) = _
        rw [habort]
        cases aborts.findIdx? fun a => decide (a.val <:+ received line c) with
        | some n => rfl
        | none =>
          have hshort : Buffered (max string.length FAIL_LEN - 1) (received s c) (received line c) :=
            hnew.mono (Nat.sub_le _ 1)
          have hkept : Buffered (max string.length FAIL_LEN - 1)
              (if STR_LEN ≤ (received s c).length then
                (received s c).drop ((received s c).length - (max string.length FAIL_LEN - 1))
              else received s c) (received line c) := by
            split
            · exact hshort.shift (by omega)
            · exact hshort
          exact ih hkept (by omega)

end Listen

/-! ## Strings are short enough -/

theorem length_octalEscape (c : Byte) : (octalEscape false c).length ≤ 1 := by
  unfold octalEscape
  split
  · exact Nat.le_refl 1
  · exact Nat.zero_le 1

theorem length_ite_le {p : Prop} [Decidable p] {xs ys : List Byte} {n : Nat} (hx : xs.length ≤ n) (hy : ys.length ≤ n) :
    (if p then xs else ys).length ≤ n := by
  split
  · exact hx
  · exact hy

theorem length_cleanEscape (c : Byte) : (cleanEscape false c).length ≤ 2 := by
  repeat' apply length_ite_le
  all_goals simp

theorem length_clean (s : List Byte) : (clean false s).length ≤ s.length := by
  have hoctal : ∀ v (t u : List Byte), (clean false t).length ≤ t.length → t.length + 1 ≤ u.length →
      (octalEscape false v ++ clean false t).length ≤ u.length := by
    intro v t u ht hu
    have hv := length_octalEscape v
    rw [length_append]
    omega
  fun_induction clean false s with
  | case1 h | case7 _ _ _ h => cases h
  | case2 | case3 | case8 => simp
  | case4 _ _ _ ih | case5 _ _ _ ih | case6 _ _ _ _ ih | case10 _ _ _ _ _ ih =>
    simp only [length_cons]
    omega
  | case9 _ _ _ _ h => cases h.1
  | case11 _ _ _ _ _ _ ih | case12 _ _ _ _ _ _ _ _ _ ih => exact hoctal _ _ _ ih (by simp)
  | case13 _ _ _ _ _ _ _ _ _ _ _ _ ih | case14 _ _ _ _ _ _ _ _ _ _ _ _ ih | case15 _ _ _ _ _ _ _ _ _ ih =>
    exact hoctal _ _ _ ih (by simp)
  | case16 _ _ _ d _ _ _ ih =>
    have hescape := length_cleanEscape d
    simp only [length_append, length_cons]
    omega

theorem length_cstr (s : List Byte) : (cstr s).length ≤ s.length := (takeWhile_sublist _).length_le

theorem length_expect_strtok (escape : Bool) (s : List Byte) :
    (expect_strtok escape s).1.length ≤ s.length ∧ (expect_strtok escape s).2.length ≤ s.length := by
  fun_induction expect_strtok escape s <;> grind

theorem length_expectTokens (n : Nat) (s : List Byte) : ∀ e ∈ expectTokens n s, e.length ≤ s.length := by
  induction n generalizing s with
  | zero => nofun
  | succ n ih =>
    cases s with
    | nil => nofun
    | cons c s =>
      grind [length_expect_strtok, expectTokens]

theorem expectTokens_ne_nil {s : List Byte} (h : s ≠ []) : expectTokens s.length s ≠ [] := by
  cases s with
  | nil => exact absurd rfl h
  | cons c s => exact cons_ne_nil _ _

theorem getnextcommand_script (s : Command) (cs : List Command) :
    getnextcommand (script (s :: cs)) = some (s.text, script cs) := by
  have hplain : ∀ c ∈ s.text, (c != ch '@') = true := fun c hc => bne_iff_ne.mpr (s.plain c hc).1
  have hscript : script (s :: cs) = s.text ++ ch '@' :: script cs := by
    rw [script, flatMap_cons, append_assoc]
    rfl
  have hmem : ch '@' ∈ script (s :: cs) := by
    rw [hscript]
    exact mem_append_right _ mem_cons_self
  rw [getnextcommand, if_pos hmem, hscript, takeWhile_append_of_pos hplain, dropWhile_append_of_pos hplain,
    takeWhile_cons_of_neg (by decide), dropWhile_cons_of_neg (by decide), append_nil,
    take_of_length_le s.short, drop_one, tail_cons]

theorem get_string_of_cleaned (l : Line) {s : List Byte} (hlen : (cstr (clean false s)).length ≤ STR_LEN) :
    get_string l s =
      if cstr (clean false s) = [] then (.matched, l.reads)
      else listen (cstr (clean false s)) l.aborts MAX_TIMEOUTS [] l.reads := by
  unfold get_string
  rw [if_neg (Nat.not_lt_of_le hlen)]
  by_cases hne : cstr (clean false s) = []
  · simp [if_pos hne]
  · rw [if_neg fun h => hne (length_eq_zero_iff.mp h), if_neg hne]
    exact getStringLoop_eq hne hlen ⟨suffix_refl [], .inl rfl⟩ (Nat.lt_succ_self _)

theorem get_string_eq (l : Line) {s : List Byte} (hs : s.length ≤ STR_LEN) :
    get_string l s =
      if cstr (clean false s) = [] then (.matched, l.reads)
      else listen (cstr (clean false s)) l.aborts MAX_TIMEOUTS [] l.reads :=
  get_string_of_cleaned l (Nat.le_trans (length_cstr _) (Nat.le_trans (length_clean s) hs))

theorem hear_eq (c : ChatState) {s : List Byte} (hs : s.length ≤ STR_LEN) :
    c.hear s = ((c.line.listenFor s).1, ⟨(c.line.listenFor s).2, (c.line.listenFor s).1.exitCode c.exitCode⟩) := by
  unfold ChatState.hear
  rw [get_string_eq c.line hs]
  rfl

/-! ## Records only grow -/

def Differ (as bs : List Entry) : Prop :=
  ∃ p x y as' bs', x ≠ y ∧ as = p ++ x :: as' ∧ bs = p ++ y :: bs'

theorem Differ.mono {as bs as' bs' : List Entry} (h : Differ as bs) (ha : as <+: as') (hb : bs <+: bs') :
    Differ as' bs' := by
  obtain ⟨p, x, y, cs, ds, hne, rfl, rfl⟩ := h
  obtain ⟨es, rfl⟩ := ha
  obtain ⟨fs, rfl⟩ := hb
  exact ⟨p, x, y, cs ++ es, ds ++ fs, hne, by simp,
    by simp⟩

theorem Differ.ne {as bs : List Entry} (h : Differ as bs) : as ≠ bs := by
  obtain ⟨p, x, y, cs, ds, hne, rfl, rfl⟩ := h
  intro heq
  exact hne (List.cons.inj (append_cancel_left heq)).1

theorem record_log (l : Line) (e : Entry) : l.log <+: (l.record e).log := prefix_append _ _

theorem hear_log (c : ChatState) (s : List Byte) : c.line.log <+: (c.hear s).2.line.log := record_log _ _

theorem chat_send_log (c : ChatState) (s : List Byte) : c.line.log <+: (chat_send c s).line.log := by
  unfold chat_send
  split
  · exact record_log _ _
  · split
    · exact record_log _ _
    · exact record_log _ _

theorem expectLoop_log (toks : List (List Byte)) (c : ChatState) : c.line.log <+: (expectLoop toks c).line.log := by
  induction toks, c using expectLoop.induct with
  | case1 c => exact prefix_refl _
  | case2 expect c => exact hear_log c expect
  | case3 expect reply rest c r hm =>
    rw [expectLoop, if_pos hm]
    exact hear_log c expect
  | case4 expect reply rest c r hm hcode =>
    rw [expectLoop, if_neg hm, if_pos hcode]
    exact hear_log c expect
  | case5 expect reply rest c r hm hcode ih =>
    rw [expectLoop, if_neg hm, if_neg hcode]
    exact (hear_log c expect).trans ((chat_send_log _ reply).trans ih)

theorem chat_expect_log (c : ChatState) (s : List Byte) : c.line.log <+: (chat_expect c s).line.log := by
  unfold chat_expect
  split
  · exact record_log _ _
  · exact (record_log c.line (.expect s)).trans (expectLoop_log _ ⟨_, c.exitCode⟩)

theorem chatLoop_log (fuel : Nat) (script : List Byte) (c : ChatState) :
    c.line.log <+: (chatLoop fuel script c).line.log := by
  induction fuel generalizing script c with
  | zero => exact prefix_refl _
  | succ fuel ih =>
    grind [chatLoop, chat_expect_log, chat_send_log]

theorem listenFor_log (l : Line) (s : List Byte) : l.log <+: (l.listenFor s).2.log := record_log _ _

theorem send_log (t : Talk) (s : List Byte) : t.line.log <+: (t.send s).line.log := by
  unfold Talk.send
  split
  · exact record_log _ _
  · exact record_log _ _

theorem alternatives_log (toks : List (List Byte)) (t : Talk) :
    t.line.log <+: (alternatives toks t).2.line.log := by
  fun_induction alternatives toks t with
  | case1 t => exact prefix_refl _
  | case2 expect rest t l hl | case3 expect rest t n l hl | case4 expect rest t l hl | case5 expect t l hl =>
    have hlog := listenFor_log t.line expect
    rw [hl] at hlog
    exact hlog
  | case6 expect t l hl reply rest ih =>
    have hlog := listenFor_log t.line expect
    rw [hl] at hlog
    exact hlog.trans ((send_log _ reply).trans ih)

theorem expect_log (t : Talk) (s : List Byte) : t.line.log <+: (t.expect s).2.line.log := by
  unfold Talk.expect
  split
  · exact record_log _ _
  · split
    · exact record_log _ _
    · exact (record_log t.line (.expect s)).trans (alternatives_log _ ⟨_, t.failed⟩)

theorem converse_log (b : Bool) (cs : List (List Byte)) (t : Talk) : t.line.log <+: (converse b cs t).2.line.log := by
  fun_induction converse b cs t with
  | case1 => exact prefix_refl _
  | case2 s cs t r hok ih => exact (expect_log t s).trans ih
  | case3 s cs t r hok => exact expect_log t s
  | case4 s cs t t' hf => exact send_log t s
  | case5 s cs t t' hf ih => exact (send_log t s).trans ih

/-! ## Steps -/

/-- How a step of the program compares to its meaning: it does the same, the records differ, or a step that is
    satisfied leaves a code. -/
inductive Compares (smooth : Prop) (c : ChatState) (r : Bool × Talk) : Prop
  | same (h : smooth) (line : c.line = r.2.line) (code : c.exitCode = 0 ↔ r.1 = true ∧ r.2.failed = false)
  | differ (h : ¬ smooth) (log : Differ c.line.log r.2.line.log)
  | late (h : ¬ smooth) (line : c.line = r.2.line) (code : c.exitCode ≠ 0) (sat : r.1 = true)
      (writes : r.2.failed = false)

section Steps

variable {c : ChatState} {t : Talk}

theorem chat_send_smooth (hline : c.line = t.line) {s : List Byte} (hs : SmoothSend t.line s) :
    (chat_send c s).line = (t.send s).line ∧
      ((chat_send c s).exitCode = c.exitCode ∧ (t.send s).failed = t.failed ∨
        (chat_send c s).exitCode = 2 ∧ (t.send s).failed = true) := by
  unfold chat_send Talk.send
  rw [hline]
  cases hpending : t.line.pending with
  | some k => exact ⟨rfl, .inl ⟨rfl, rfl⟩⟩
  | none =>
    have hne := hs hpending
    rw [put_string_eq hne]
    grind

theorem chat_send_rough (hline : c.line = t.line) {s : List Byte} (hs : ¬ SmoothSend t.line s) :
    Differ (chat_send c s).line.log (t.send s).line.log := by
  obtain ⟨hpending, hs⟩ := Classical.not_imp.mp hs
  obtain rfl : s = text "EOT" := Classical.not_not.mp hs
  unfold chat_send Talk.send
  rw [hline, hpending]
  refine ⟨t.line.log, .send (text "EOT") [], .send (text "EOT") (perform (sendActs (text "EOT")) t.line.writes).out,
    [], [], fun heq => ?_, rfl, rfl⟩
  have hout := (Entry.send.inj heq).2
  rw [sendActs, if_pos rfl, perform, writeChar] at hout
  split at hout
  · cases hout
  · cases hout

theorem exitCode_ne_zero {h : Heard} (e : Nat) (hh : h ≠ .matched) : h.exitCode e ≠ 0 := by
  cases h with
  | matched => exact absurd rfl hh
  | aborted n => exact Nat.succ_ne_zero _
  | silent => exact Nat.succ_ne_zero _
  | tooLong => exact Nat.succ_ne_zero _

theorem exitCode_eq_three {h : Heard} {e : Nat} (hh : h ≠ .matched) : h.exitCode e = 3 ↔ h = .silent := by
  cases h with
  | matched => exact absurd rfl hh
  | aborted n => simp [Heard.exitCode]
  | silent => simp [Heard.exitCode]
  | tooLong => simp [Heard.exitCode]

/-- An expect string that is received; `late` tells whether there was a silence before. -/
theorem compares_matched {late : Bool} {l : Line} {code : Nat}
    (hfirst : late = false → code = 0 ∧ t.failed = false) (hlate : late = true → code ≠ 0) :
    Compares (late = true → t.failed = true) ⟨l, code⟩ (true, { t with line := l }) := by
  cases late with
  | false =>
    obtain ⟨hcode, hfailed⟩ := hfirst rfl
    exact .same nofun rfl ⟨fun _ => ⟨rfl, hfailed⟩, fun _ => hcode⟩
  | true =>
    have hne := hlate rfl
    cases hf : t.failed with
    | true => exact .same (fun _ => rfl) rfl ⟨fun h => absurd h hne, fun h => Bool.noConfusion h.2⟩
    | false => exact .late (fun h => Bool.noConfusion (h rfl)) rfl hne rfl rfl

section Loop

variable {expect : List Byte} {rest : List (List Byte)} {l : Line}

theorem expectLoop_matched (hs : expect.length ≤ STR_LEN) (hl : c.line.listenFor expect = (.matched, l)) :
    expectLoop (expect :: rest) c = ⟨l, c.exitCode⟩ := by
  have hhear := hear_eq c hs
  rw [hl] at hhear
  cases rest with
  | nil => rw [expectLoop, hhear, Heard.exitCode]
  | cons reply rest =>
    rw [expectLoop, hhear]
    simp [Heard.exitCode]

theorem expectLoop_stops {h : Heard} (hs : expect.length ≤ STR_LEN) (hl : c.line.listenFor expect = (h, l))
    (hh : h ≠ .matched) (hend : h = .silent → rest = []) :
    expectLoop (expect :: rest) c = ⟨l, h.exitCode c.exitCode⟩ := by
  have hhear := hear_eq c hs
  rw [hl] at hhear
  cases rest with
  | nil => rw [expectLoop, hhear]
  | cons reply rest =>
    have hne : h ≠ .silent := fun he => cons_ne_nil _ _ (hend he)
    rw [expectLoop, hhear]
    rw [if_neg hh, if_pos fun he => hne ((exitCode_eq_three hh).mp he)]

theorem expectLoop_reply {reply : List Byte} (hs : expect.length ≤ STR_LEN)
    (hl : c.line.listenFor expect = (.silent, l)) :
    expectLoop (expect :: reply :: rest) c = expectLoop rest (chat_send ⟨l, 3⟩ reply) := by
  have hhear := hear_eq c hs
  rw [hl] at hhear
  rw [expectLoop, hhear]
  simp [Heard.exitCode]

end Loop

theorem compares_failed {l : Line} {code : Nat} (hcode : code ≠ 0) :
    Compares True ⟨l, code⟩ (false, { t with line := l }) :=
  .same trivial rfl ⟨fun h => absurd h hcode, fun h => Bool.noConfusion h.1⟩

theorem expectLoop_compares (toks : List (List Byte)) (hshort : ∀ e ∈ toks, e.length ≤ STR_LEN) {late : Bool}
    (hline : c.line = t.line) (hfirst : late = false → toks ≠ [] ∧ c.exitCode = 0 ∧ t.failed = false)
    (hlate : late = true → c.exitCode ≠ 0) :
    Compares (SmoothAlternatives late toks t) (expectLoop toks c) (alternatives toks t) := by
  induction toks, t using alternatives.induct generalizing c late with
  | case1 t =>
    cases late with
    | false => exact absurd rfl (hfirst rfl).1
    | true => exact .same trivial hline ⟨fun h => absurd h (hlate rfl), fun h => Bool.noConfusion h.1⟩
  | case2 expect rest t l hl =>
    rw [expectLoop_matched (hshort expect mem_cons_self) (hline ▸ hl), SmoothAlternatives.eq_def,
      alternatives.eq_def]
    dsimp only
    rw [hl]
    exact compares_matched (fun h => (hfirst h).2) hlate
  | case3 expect rest t n l hl =>
    rw [expectLoop_stops (h := .aborted n) (hshort expect mem_cons_self) (hline ▸ hl) nofun nofun,
      SmoothAlternatives.eq_def, alternatives.eq_def]
    dsimp only
    rw [hl]
    exact compares_failed (exitCode_ne_zero (h := .aborted n) _ nofun)
  | case4 expect rest t l hl =>
    rw [expectLoop_stops (h := .tooLong) (hshort expect mem_cons_self) (hline ▸ hl) nofun nofun,
      SmoothAlternatives.eq_def, alternatives.eq_def]
    dsimp only
    rw [hl]
    exact compares_failed (exitCode_ne_zero (h := .tooLong) _ nofun)
  | case5 expect t l hl =>
    rw [expectLoop_stops (h := .silent) (hshort expect mem_cons_self) (hline ▸ hl) nofun fun _ => rfl,
      SmoothAlternatives.eq_def, alternatives.eq_def]
    dsimp only
    rw [hl]
    exact compares_failed (exitCode_ne_zero (h := .silent) _ nofun)
  | case6 expect t l hl reply rest ih =>
    rw [expectLoop_reply (hshort expect mem_cons_self) (hline ▸ hl), SmoothAlternatives.eq_def,
      alternatives.eq_def]
    dsimp only
    rw [hl]
    by_cases hreply : SmoothSend l reply
    · obtain ⟨hsent, hcodes⟩ := chat_send_smooth (c := ⟨l, 3⟩) (t := { t with line := l }) rfl hreply
      grind
    · refine .differ (fun h => hreply h.1) ?_
      exact (chat_send_rough (c := ⟨l, 3⟩) (t := { t with line := l }) rfl hreply).mono (expectLoop_log _ _)
        (alternatives_log _ _)

theorem chat_expect_compares (hline : c.line = t.line) (hcode : c.exitCode = 0) (hfailed : t.failed = false)
    (s : Command) : Compares (SmoothExpect t s.text) (chat_expect c s.text) (t.expect s.text) := by
  unfold chat_expect Talk.expect SmoothExpect
  rw [hline]
  dsimp only
  cases hkey : keywords.lookup s.text with
  | some k => exact .same nofun rfl ⟨fun _ => ⟨rfl, hfailed⟩, fun _ => hcode⟩
  | none =>
    dsimp only
    by_cases hs : s.text = []
    · rw [if_pos hs, hs]
      exact .same (fun _ => trivial) rfl ⟨fun _ => ⟨rfl, hfailed⟩, fun _ => hcode⟩
    · have hshort : ∀ e ∈ expectTokens s.text.length s.text, e.length ≤ STR_LEN := fun e he =>
        Nat.le_trans (length_expectTokens _ _ e he) (Nat.le_trans s.short (by decide))
      have hloop : Compares (SmoothAlternatives false _ _) _ _ :=
        expectLoop_compares (c := ⟨t.line.record (.expect s.text), c.exitCode⟩)
          (t := ⟨t.line.record (.expect s.text), t.failed⟩) _ hshort rfl
          (fun _ => ⟨expectTokens_ne_nil hs, hcode, hfailed⟩) nofun
      rw [if_neg hs, forall_prop_of_true rfl]
      exact hloop

end Steps

/-! ## Scripts -/

section Scripts

variable {c : ChatState} {t : Talk} {s : Command} {cs : List Command} {fuel : Nat}

theorem chatLoop_of_code (hcode : c.exitCode ≠ 0) (fuel : Nat) (script : List Byte) : chatLoop fuel script c = c := by
  cases fuel with
  | zero => rfl
  | succ fuel =>
    rw [chatLoop]
    split
    · rfl
    · rw [if_pos hcode]

theorem chatLoop_expect (hcode : c.exitCode = 0) :
    chatLoop (fuel + 1) (script (s :: cs)) c =
      if (chat_expect c s.text).exitCode ≠ 0 then chat_expect c s.text
      else
        match getnextcommand (script cs) with
        | none => chat_expect c s.text
        | some (arg, rest) => chatLoop fuel rest (chat_send (chat_expect c s.text) arg) := by
  rw [chatLoop, getnextcommand_script]
  exact (if_neg fun h => h hcode).trans rfl

theorem chatLoop_expect_log (hcode : c.exitCode = 0) :
    (chat_expect c s.text).line.log <+: (chatLoop (fuel + 1) (script (s :: cs)) c).line.log := by
  grind [chatLoop_expect, chat_send_log, chatLoop_log]

theorem converse_expect_log (cs : List (List Byte)) (s : List Byte) :
    (t.expect s).2.line.log <+: (converse true (s :: cs) t).2.line.log := by
  rw [converse]
  split
  · exact converse_log _ _ _
  · exact prefix_refl _

theorem converse_send_log (cs : List (List Byte)) (s : List Byte) :
    (t.send s).line.log <+: (converse false (s :: cs) t).2.line.log := by
  rw [converse]
  split
  · exact prefix_refl _
  · exact converse_log _ _ _

def Agrees (c : ChatState) (r : Bool × Talk) : Prop :=
  c.line.log = r.2.line.log ∧ (c.exitCode = 0 ↔ r.1 = true)

/-- The step is satisfied but leaves a code: the program stops and the script goes on, or it is at its end. -/
theorem not_agrees_of_late (hline : c.line = t.line) (hcode : c.exitCode ≠ 0) (cs : List (List Byte)) :
    ¬ Agrees c (converse false cs t) := by
  rintro ⟨hlog, hend⟩
  cases cs with
  | nil => exact hcode (hend.mpr rfl)
  | cons r cs =>
    have hsend : ∃ e es, (t.send r).line.log = t.line.log ++ e :: es := by
      unfold Talk.send
      split
      · exact ⟨_, [], rfl⟩
      · exact ⟨_, [], rfl⟩
    grind [converse_send_log, length_append]

theorem chatLoop_agrees : ∀ (cs : List Command) (fuel : Nat) (c : ChatState) (t : Talk), c.line = t.line →
    c.exitCode = 0 → t.failed = false → (script cs).length < fuel →
    (Agrees (chatLoop fuel (script cs) c) (converse true (cs.map Command.text) t) ↔
      Smooth true (cs.map Command.text) t)
  | [], fuel, c, t, hline, hcode, _, hfuel => by
    obtain ⟨n, rfl⟩ : ∃ n, fuel = n + 1 := ⟨fuel - 1, by omega⟩
    exact ⟨fun _ => trivial, fun _ => ⟨congrArg Line.log hline, ⟨fun _ => rfl, fun _ => hcode⟩⟩⟩
  | s :: cs, fuel, c, t, hline, hcode, hfailed, hfuel => by
    obtain ⟨n, rfl⟩ : ∃ n, fuel = n + 1 := ⟨fuel - 1, by omega⟩
    rw [map_cons, Smooth]
    cases chat_expect_compares hline hcode hfailed s with
    | differ hsmooth hdiffer =>
      refine ⟨fun hagrees => ?_, fun h => absurd h.1 hsmooth⟩
      exact absurd hagrees.1 (hdiffer.mono (chatLoop_expect_log hcode) (converse_expect_log _ _)).ne
    | late hsmooth hsame hne hsat hwrites =>
      refine ⟨fun hagrees => ?_, fun h => absurd h.1 hsmooth⟩
      rw [chatLoop_expect hcode, if_pos hne, converse, if_pos ⟨hsat, hwrites⟩] at hagrees
      exact absurd hagrees (not_agrees_of_late hsame hne _)
    | same hsmooth hsame hcode' =>
      rw [and_iff_right hsmooth, chatLoop_expect hcode, converse]
      by_cases hok : (t.expect s.text).1 = true ∧ (t.expect s.text).2.failed = false
      · have hzero := hcode'.mpr hok
        rw [if_neg fun h => h hzero, if_pos hok, forall_prop_of_true hok]
        cases cs with
        | nil => exact ⟨fun _ => trivial, fun _ => ⟨congrArg Line.log hsame, ⟨fun _ => rfl, fun _ => hzero⟩⟩⟩
        | cons r cs =>
          rw [getnextcommand_script, map_cons, converse, Smooth]
          dsimp only
          have hlen : (script cs).length < n := by
            have : script (s :: r :: cs) = s.text ++ [ch '@'] ++ (r.text ++ [ch '@'] ++ script cs) := rfl
            grind
          by_cases hsend : SmoothSend (t.expect s.text).2.line r.text
          · obtain ⟨hsent, ⟨hkept, hwrites⟩ | ⟨htwo, hwrites⟩⟩ := chat_send_smooth hsame hsend
            · rw [hok.2] at hwrites
              rw [if_neg (by rw [hwrites]; exact Bool.false_ne_true), and_iff_right hsend,
                forall_prop_of_true hwrites]
              exact chatLoop_agrees cs n _ _ hsent (hkept.trans hzero) hwrites hlen
            · have hne : (chat_send (chat_expect c s.text) r.text).exitCode ≠ 0 := by
                rw [htwo]
                exact Nat.succ_ne_zero 1
              rw [if_pos hwrites, chatLoop_of_code hne]
              refine ⟨fun _ => ⟨hsend, fun h => absurd (h.symm.trans hwrites) Bool.false_ne_true⟩, fun _ => ?_⟩
              exact ⟨congrArg Line.log hsent, ⟨fun h => absurd h hne, fun h => Bool.noConfusion h⟩⟩
          · refine ⟨fun hagrees => ?_, fun h => absurd h.1 hsend⟩
            have hdiffer := (chat_send_rough hsame hsend).mono (chatLoop_log n (script cs) _)
              (converse_send_log (cs.map Command.text) r.text)
            exact absurd hagrees.1 hdiffer.ne
      · rw [if_pos fun h => hok (hcode'.mp h), if_neg hok]
        refine ⟨fun _ h => absurd h hok, fun _ => ⟨congrArg Line.log hsame, ?_⟩⟩
        exact ⟨fun h => absurd (hcode'.mp h) hok, fun h => Bool.noConfusion h⟩

/-- **`chatmain` expects and sends what its script says and returns zero exactly if nothing failed, if and only if
    every command that is visited is smooth.** -/
theorem chatmain_iff (l : Line) (cs : List Command) :
    Agrees (chatmain l (script cs)) (converse true (cs.map Command.text) ⟨l, false⟩) ↔
      Smooth true (cs.map Command.text) ⟨l, false⟩ :=
  chatLoop_agrees cs _ ⟨l, 0⟩ ⟨l, false⟩ rfl rfl rfl (Nat.lt_succ_self _)

end Scripts

def firstLine (reads : List (Option Byte)) : Line := ⟨fun _ => false, abortStrings, reads, [], []⟩

/-- After an empty command nothing is sent for `EOT`; and the code of the silence is returned although the
    alternative `OK` was received. -/
theorem chatmain_slips :
    ¬ Agrees (chatmain (firstLine []) (script [⟨text "", by decide, by decide⟩, ⟨text "EOT", by decide, by decide⟩]))
        (converse true [text "", text "EOT"] ⟨firstLine [], false⟩) ∧
      ¬ Agrees (chatmain (firstLine (List.replicate 10 none ++ (text "OK").map some))
          (script [⟨text "OK-AT-OK", by decide, by decide⟩]))
        (converse true [text "OK-AT-OK"]
          ⟨firstLine (List.replicate 10 none ++ (text "OK").map some), false⟩) := by
  refine ⟨fun h => ?_, fun h => ?_⟩
  · have hlog := h.1
    revert hlog
    decide +kernel
  · have hcode := h.2
    revert hcode
    decide +kernel

end RtemsLibbsd.Chat

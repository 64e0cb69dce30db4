import RtemsLibbsd.Chat.Stream

/-!
# The buffers of the chat program

The arrays of fixed size that `device_script` (`pppd/rtemsmain.c`) and the chat program (`pppd/chat.c`) fill, and the
elements of them that are stored.

* `Fill` — an operation that fills one of the arrays, and `Fill.stores`, what it stores, the terminating zeros
  included.
* `deviceScriptFills` — the operations of a call of `device_script` with the chat program as its dialer, in their
  order.

The script is copied whatever its length, and `get_string` checks for the end of its buffer behind the store of the
terminating zero.  The other arrays are large enough: **`storesInside_iff`**.
-/

namespace RtemsLibbsd.Chat

open List

/-- The arrays: the copy of the script, the command of `chatmain`, the array of `clean`, that of `get_string`, and
`fail_buffer`. -/
inductive Buffer where
  | pScript
  | arg
  | temp
  | temp2
  | fail_buffer

def Buffer.size : Buffer → Nat
  | .pScript => 128
  | .arg => 80
  | .temp => STR_LEN
  | .temp2 => STR_LEN
  | .fail_buffer => FAIL_LEN

structure Store where
  buffer : Buffer
  index : Nat

def Store.Inside (w : Store) : Prop := w.index < w.buffer.size

def firstStores (b : Buffer) (n : Nat) : List Store := (List.range n).map fun i => ⟨b, i⟩

/-- `strcpy`, with the length of the string. -/
def strcpyStores (b : Buffer) (len : Nat) : List Store := firstStores b (len + 1)

/-- The stores of the loop of `get_string`, beside `getStringLoop`. -/
def receiveStores (string : List Byte) (aborts : List AbortString) : Nat → List Byte → List (Option Byte) → List Store
  | 0, _, _ => []
  | fuel + 1, s, reads =>
    match get_char MAX_TIMEOUTS reads with
    | (none, _) => []
    | (some c, reads) =>
      let stores := if c = ch '\n' ∨ c = ch '\r' then [⟨.temp2, 0⟩] else [⟨.temp2, s.length⟩, ⟨.temp2, s.length + 1⟩]
      let s := if c = ch '\n' ∨ c = ch '\r' then [] else s ++ [c]
      stores ++
        if string.length ≤ s.length ∧ string.getLast? = some c ∧ s.drop (s.length - string.length) = string then []
        else
          match findAbort aborts s with
          | some n => (aborts[n]?.map fun a => strcpyStores .fail_buffer a.val.length).getD []
          | none =>
            let minlen := max string.length FAIL_LEN - 1
            if STR_LEN ≤ s.length then
              firstStores .temp2 minlen ++ receiveStores string aborts fuel (s.drop (s.length - minlen)) reads
            else receiveStores string aborts fuel s reads

inductive Fill where
  /-- `device_script` copies the script. -/
  | copy (program : List Byte)
  /-- `getnextcommand` copies the next command. -/
  | command (script : List Byte)
  /-- `expect_strtok` ends a token in `arg`. -/
  | token (index : Nat)
  | clean (sending : Bool) (s : List Byte)
  /-- `get_string` clears its array. -/
  | clear
  /-- The loop of `get_string` with the cleaned string. -/
  | receive (string : List Byte) (aborts : List AbortString) (reads : List (Option Byte))

def Fill.stores : Fill → List Store
  | .copy program => strcpyStores .pScript program.length
  | .command script =>
    match getnextcommand script with
    | none => []
    | some (arg, _) => strcpyStores .arg arg.length
  | .token index => [⟨.arg, index⟩]
  | .clean sending s => firstStores .temp ((Chat.clean sending s).length + 2)
  | .clear => firstStores .temp2 STR_LEN
  | .receive string aborts reads => receiveStores string aborts (reads.length + 1) [] reads

/-- The operations of `get_string`. -/
def getStringFills (l : Line) (in_string : List Byte) : List Fill :=
  let string := cstr (clean false in_string)
  .clear :: .clean false in_string ::
    if STR_LEN < string.length then [] else if string.length = 0 then [] else [.receive string l.aborts l.reads]

/-- The operations of `chat_send`. -/
def chatSendFills (c : ChatState) (s : List Byte) : List Fill :=
  match c.line.pending with
  | some .say => [.clean true s]
  | some .abort => if c.line.aborts.length < MAX_ABORTS then [.clean false s] else []
  | some _ => []
  | none => if s = text "EOT" then [] else [.clean true (if s = text "BREAK" then text "\\K\\c" else s)]

/-- The end of a token at an offset in the command, if it is not at the end of it. -/
def tokenFills (total off : Nat) (token : List Byte) : List Fill :=
  if off + token.length < total then [.token (off + token.length)] else []

/-- The operations of the loop of `chat_expect`, on a command of the length `total`. -/
def expectLoopFills (total : Nat) : Nat → List (List Byte) → ChatState → List Fill
  | _, [], _ => []
  | off, [expect], c => tokenFills total off expect ++ getStringFills c.line expect
  | off, expect :: reply :: rest, c =>
    let next := off + expect.length + 1
    let r := c.hear expect
    tokenFills total off expect ++ tokenFills total next reply ++ getStringFills c.line expect ++
      if r.1 = .matched then []
      else if r.2.exitCode ≠ 3 then []
      else chatSendFills r.2 reply ++ expectLoopFills total (next + reply.length + 1) rest (chat_send r.2 reply)

def chatExpectFills (c : ChatState) (s : List Byte) : List Fill :=
  let c := { c with line := c.line.record (.expect s) }
  match keywords.lookup s with
  | some _ => []
  | none => expectLoopFills s.length 0 (expectTokens s.length s) c

/-- The operations of the loop of `chatmain`. -/
def chatLoopFills : Nat → List Byte → ChatState → List Fill
  | 0, _, _ => []
  | fuel + 1, script, c =>
    .command script ::
      match getnextcommand script with
      | none => []
      | some (arg, script) =>
        if c.exitCode ≠ 0 then []
        else
          chatExpectFills c arg ++
            if (chat_expect c arg).exitCode ≠ 0 then []
            else
              .command script ::
                match getnextcommand script with
                | none => []
                | some (arg', script) =>
                  chatSendFills (chat_expect c arg) arg' ++ chatLoopFills fuel script (chat_send (chat_expect c arg) arg')

/-- The operations of `device_script`: the script is copied, the dialer gets the script itself. -/
def deviceScriptFills (l : Line) (program : List Byte) : List Fill :=
  .copy program :: chatLoopFills (program.length + 1) program ⟨l, 0⟩

def StoresInside (l : Line) (program : List Byte) : Prop :=
  ∀ f ∈ deviceScriptFills l program, ∀ w ∈ f.stores, w.Inside

/-- Until one of the strings ends in the current line, there are fewer than `STR_LEN` characters in it. -/
def ShortLines (string : List Byte) (aborts : List AbortString) (line cs : List Byte) : Prop :=
  ∀ i, 1 ≤ i → i ≤ cs.length → (∀ j, 1 ≤ j → j < i → verdict string aborts ((cs.take j).foldl received line) = none) →
    ((cs.take i).foldl received line).length < STR_LEN

section Receive

variable {string : List Byte} {aborts : List AbortString}

theorem firstStores_inside (b : Buffer) (n : Nat) : (∀ w ∈ firstStores b n, w.Inside) ↔ n ≤ b.size := by
  unfold firstStores
  rw [forall_mem_map]
  constructor
  · intro h
    rcases Nat.eq_zero_or_pos n with rfl | hpos
    · exact Nat.zero_le _
    · have hlast : n - 1 < b.size := h (n - 1) (mem_range.mpr (by omega))
      omega
  · intro h i hi
    exact Nat.lt_of_lt_of_le (mem_range.mp hi) h

theorem characters_get_char {tries : Nat} (ht : 0 < tries) (reads : List (Option Byte)) :
    characters tries reads =
      match get_char tries reads with
      | (none, _) => []
      | (some c, reads) => c :: characters MAX_TIMEOUTS reads := by
  induction tries generalizing reads with
  | zero => omega
  | succ tries ih =>
    match reads with
    | [] =>
      rw [get_char_nil]
      rfl
    | none :: reads =>
      rw [characters, get_char]
      rcases Nat.eq_zero_or_pos tries with rfl | hpos
      · rfl
      · rw [if_neg (by omega), Nat.add_sub_cancel, ih hpos]
    | some c :: reads => rfl

theorem shortLines_cons (line : List Byte) (c : Byte) (cs : List Byte) :
    ShortLines string aborts line (c :: cs) ↔ (received line c).length < STR_LEN ∧
      (verdict string aborts (received line c) = none → ShortLines string aborts (received line c) cs) := by
  constructor
  · intro h
    refine ⟨h 1 (Nat.le_refl 1) (Nat.succ_pos _) fun j hj hlt => absurd hlt (Nat.not_lt_of_le hj), fun hv i hi hle hb => ?_⟩
    refine h (i + 1) (Nat.succ_pos i) (Nat.succ_le_succ hle) fun j hj hlt => ?_
    obtain ⟨k, rfl⟩ := Nat.exists_eq_add_of_le' hj
    grind
  · rintro ⟨hlen, hshort⟩ i hi hle hb
    obtain ⟨k, rfl⟩ := Nat.exists_eq_add_of_le' hi
    rcases Nat.eq_zero_or_pos k with rfl | hk
    · exact hlen
    · have hv := hb 1 (Nat.le_refl 1) (Nat.succ_lt_succ hk)
      refine hshort hv k hk (Nat.le_of_succ_le_succ hle) fun j hj hlt => ?_
      exact hb (j + 1) (Nat.succ_pos j) (Nat.succ_lt_succ hlt)

theorem char_inside (line : List Byte) (c : Byte) (hline : line.length < STR_LEN) :
    (∀ w ∈ if c = ch '\n' ∨ c = ch '\r' then [(⟨.temp2, 0⟩ : Store)]
        else [⟨.temp2, line.length⟩, ⟨.temp2, line.length + 1⟩],
      w.Inside) ↔ (received line c).length < STR_LEN := by
  unfold received
  split
  · rw [forall_mem_singleton]
    exact ⟨fun h => h, fun h => h⟩
  · rw [forall_mem_cons, forall_mem_singleton, length_append, length_singleton]
    exact ⟨fun h => h.2, fun h => ⟨hline, h⟩⟩

theorem findAbort_line (line : List Byte) :
    findAbort aborts line = aborts.findIdx? fun a => decide (a.val <:+ line) :=
  findAbort_eq (m := FAIL_LEN) ⟨suffix_refl line, .inl rfl⟩ (Nat.le_refl _)

theorem abort_inside (n : Nat) :
    ∀ w ∈ (aborts[n]?.map fun a => strcpyStores .fail_buffer a.val.length).getD [], w.Inside := by
  cases aborts[n]? with
  | none => exact fun w hw => absurd hw not_mem_nil
  | some a => exact (firstStores_inside _ _).mpr a.property

/-- **The receive buffer**: nothing is stored behind its end exactly when the lines are short. -/
theorem receive_inside (hne : string ≠ []) (fuel : Nat) {line : List Byte} {reads : List (Option Byte)}
    (hline : line.length < STR_LEN) (hfuel : reads.length < fuel) :
    (∀ w ∈ receiveStores string aborts fuel line reads, w.Inside) ↔
      ShortLines string aborts line (characters MAX_TIMEOUTS reads) := by
  induction fuel generalizing line reads with
  | zero => omega
  | succ fuel ih =>
    rw [receiveStores, characters_get_char (by decide)]
    match hget : get_char MAX_TIMEOUTS reads with
    | (none, rest) =>
      refine ⟨fun _ i hi hle => absurd (Nat.le_trans hi hle) (Nat.not_succ_le_zero 0), fun _ w hw => ?_⟩
      cases hw
    | (some c, rest) =>
      have hrest := get_char_length hget
      have hmatch := matches_iff (s := line) (c := c) hne
      have hreceived : (if c = ch '\n' ∨ c = ch '\r' then [] else line ++ [c]) = received line c := rfl
      rw [shortLines_cons, forall_mem_append, char_inside line c hline, hreceived, findAbort_line]
      unfold verdict
      by_cases hmat : string <:+ received line c
      · grind
      · grind [abort_inside]

end Receive

section Bounds

/-- The size of a command of `chatmain`. -/
abbrev COMMAND_LEN : Nat := 78

/-- What the operations behind the copy of the script are done with. -/
def Fill.Bounded : Fill → Prop
  | .copy _ => False
  | .command _ | .clear => True
  | .token index => index < COMMAND_LEN
  | .clean _ s => s.length ≤ COMMAND_LEN
  | .receive string _ _ => string ≠ [] ∧ string.length ≤ STR_LEN

theorem length_octalEscape_le (sending : Bool) (c : Byte) : (octalEscape sending c).length ≤ 2 := by
  repeat' apply length_ite_le
  all_goals simp

theorem length_cleanEscape_le (sending : Bool) (c : Byte) : (cleanEscape sending c).length ≤ 2 := by
  repeat' apply length_ite_le
  all_goals simp

theorem length_clean_le (sending : Bool) (s : List Byte) : (clean sending s).length ≤ s.length + 2 := by
  have hoctal : ∀ v (t u : List Byte), (clean sending t).length ≤ t.length + 2 → t.length + 2 ≤ u.length →
      (octalEscape sending v ++ clean sending t).length ≤ u.length + 2 := by
    intro v t u ht hu
    have hv := length_octalEscape_le sending v
    rw [length_append]
    omega
  fun_induction clean sending s with
  | case1 | case2 | case7 | case8 | case9 => simp
  | case3 => exact Nat.succ_le_succ (length_ite_le (by simp) (by simp))
  | case4 _ _ _ ih | case5 _ _ _ ih | case6 _ _ _ _ ih | case10 _ _ _ _ _ ih =>
    simp only [length_cons]
    omega
  | case11 _ _ _ _ _ _ ih | case12 _ _ _ _ _ _ _ _ _ ih => exact hoctal _ _ _ ih (by simp)
  | case13 _ _ _ _ _ _ _ _ _ _ _ _ ih | case14 _ _ _ _ _ _ _ _ _ _ _ _ ih | case15 _ _ _ _ _ _ _ _ _ ih =>
    exact hoctal _ _ _ ih (by simp)
  | case16 _ _ _ d _ _ _ ih =>
    grind [length_cleanEscape_le]

theorem getnextcommand_length {script arg rest : List Byte} (h : getnextcommand script = some (arg, rest)) :
    arg.length ≤ COMMAND_LEN := by
  unfold getnextcommand at h
  split at h
  · cases h
    exact length_take_le _ _
  · cases h

theorem getStringFills_bounded (l : Line) {in_string : List Byte} (hs : in_string.length ≤ COMMAND_LEN) :
    ∀ f ∈ getStringFills l in_string, f.Bounded := by
  have hlen : (cstr (clean false in_string)).length ≤ STR_LEN :=
    Nat.le_trans (length_cstr _) (Nat.le_trans (length_clean in_string) (Nat.le_trans hs (by decide)))
  unfold getStringFills
  dsimp only
  rw [if_neg (Nat.not_lt_of_le hlen), forall_mem_cons, forall_mem_cons]
  refine ⟨trivial, hs, ?_⟩
  split
  · exact fun f hf => absurd hf not_mem_nil
  · rename_i hne
    rw [forall_mem_singleton]
    exact ⟨fun hnil => hne (by rw [hnil]; rfl), hlen⟩

theorem chatSendFills_bounded (c : ChatState) {s : List Byte} (hs : s.length ≤ COMMAND_LEN) :
    ∀ f ∈ chatSendFills c s, f.Bounded := by
  have hnone : ∀ f ∈ ([] : List Fill), f.Bounded := fun f hf => absurd hf not_mem_nil
  have hclean : ∀ (sending : Bool) (t : List Byte), t.length ≤ COMMAND_LEN → ∀ f ∈ [Fill.clean sending t], f.Bounded := by
    intro sending t ht f hf
    rw [mem_singleton.mp hf]
    exact ht
  unfold chatSendFills
  split
  · exact hclean true s hs
  · split
    · exact hclean false s hs
    · exact hnone
  · exact hnone
  · split
    · exact hnone
    · split
      · exact hclean true _ (by decide)
      · exact hclean true s hs

theorem tokenFills_bounded {total : Nat} (htotal : total ≤ COMMAND_LEN) (off : Nat) (token : List Byte) :
    ∀ f ∈ tokenFills total off token, f.Bounded := by
  unfold tokenFills
  split
  · rename_i hlt
    rw [forall_mem_singleton]
    exact Nat.lt_of_lt_of_le hlt htotal
  · exact fun f hf => absurd hf not_mem_nil

theorem expectLoopFills_bounded {total : Nat} (htotal : total ≤ COMMAND_LEN) (off : Nat) (tokens : List (List Byte))
    (c : ChatState) (htokens : ∀ t ∈ tokens, t.length ≤ COMMAND_LEN) :
    ∀ f ∈ expectLoopFills total off tokens c, f.Bounded := by
  have hnone : ∀ f ∈ ([] : List Fill), f.Bounded := fun f hf => absurd hf not_mem_nil
  match tokens with
  | [] => exact hnone
  | [expect] =>
    rw [expectLoopFills, forall_mem_append]
    exact ⟨tokenFills_bounded htotal off expect, getStringFills_bounded c.line (htokens expect mem_cons_self)⟩
  | expect :: reply :: rest =>
    obtain ⟨hexpect, htokens⟩ := forall_mem_cons.mp htokens
    obtain ⟨hreply, htokens⟩ := forall_mem_cons.mp htokens
    rw [expectLoopFills, forall_mem_append, forall_mem_append, forall_mem_append]
    refine ⟨⟨⟨tokenFills_bounded htotal _ _, tokenFills_bounded htotal _ _⟩, getStringFills_bounded c.line hexpect⟩, ?_⟩
    split
    · exact hnone
    · split
      · exact hnone
      · rw [forall_mem_append]
        exact ⟨chatSendFills_bounded _ hreply, expectLoopFills_bounded htotal _ rest _ htokens⟩

theorem chatExpectFills_bounded (c : ChatState) {s : List Byte} (hs : s.length ≤ COMMAND_LEN) :
    ∀ f ∈ chatExpectFills c s, f.Bounded := by
  unfold chatExpectFills
  split
  · exact fun f hf => absurd hf not_mem_nil
  · exact expectLoopFills_bounded hs 0 _ _ fun t ht => Nat.le_trans (length_expectTokens _ s t ht) hs

theorem chatLoopFills_bounded (fuel : Nat) (script : List Byte) (c : ChatState) :
    ∀ f ∈ chatLoopFills fuel script c, f.Bounded := by
  have hnone : ∀ f ∈ ([] : List Fill), f.Bounded := fun f hf => absurd hf not_mem_nil
  induction fuel generalizing script c with
  | zero => exact hnone
  | succ fuel ih =>
    rw [chatLoopFills, forall_mem_cons]
    refine ⟨trivial, ?_⟩
    split
    · exact hnone
    · rename_i arg script' harg
      split
      · exact hnone
      · rw [forall_mem_append]
        refine ⟨chatExpectFills_bounded c (getnextcommand_length harg), ?_⟩
        split
        · exact hnone
        · rw [forall_mem_cons]
          refine ⟨trivial, ?_⟩
          split
          · exact hnone
          · rename_i arg' script'' harg'
            rw [forall_mem_append]
            exact ⟨chatSendFills_bounded _ (getnextcommand_length harg'), ih script'' _⟩

/-- Of these operations only the loop of `get_string` can store behind the end of its array. -/
theorem stores_inside {f : Fill} (hf : f.Bounded) :
    (∀ w ∈ f.stores, w.Inside) ↔ ∀ string aborts reads, f = .receive string aborts reads →
      ShortLines string aborts [] (characters MAX_TIMEOUTS reads) := by
  cases f with
  | copy program => exact absurd hf id
  | command script =>
    refine ⟨fun _ _ _ _ h => (nomatch h), fun _ => ?_⟩
    dsimp only [Fill.stores]
    cases harg : getnextcommand script with
    | none => exact fun w hw => absurd hw not_mem_nil
    | some p =>
      have hlen := getnextcommand_length harg
      exact (firstStores_inside .arg _).mpr (Nat.le_trans (Nat.succ_le_succ hlen) (by decide))
  | token index =>
    refine ⟨fun _ _ _ _ h => (nomatch h), fun _ w hw => ?_⟩
    rw [mem_singleton.mp hw]
    exact Nat.lt_of_lt_of_le (show index < COMMAND_LEN from hf) (show COMMAND_LEN ≤ 80 by decide)
  | clean sending s =>
    refine ⟨fun _ _ _ _ h => (nomatch h), fun _ => (firstStores_inside .temp _).mpr ?_⟩
    have hclean := length_clean_le sending s
    have hs : s.length ≤ 78 := hf
    have hsize : Buffer.temp.size = 1024 := rfl
    omega
  | clear => exact ⟨fun _ _ _ _ h => (nomatch h), fun _ => (firstStores_inside _ _).mpr (Nat.le_refl _)⟩
  | receive string aborts reads =>
    refine (receive_inside hf.1 (reads.length + 1) (by decide) (Nat.lt_succ_self _)).trans
      ⟨fun h _ _ _ heq => ?_, fun h => ?_⟩
    · cases heq
      exact h
    · exact h string aborts reads rfl

/-- **The buffers of the chat program**: for every script, every state left by earlier scripts and everything that the
modem sends, the stores of `device_script` stay inside the arrays if and only if the script has fewer than 128
characters, and no call of `get_string` gets as many as `STR_LEN` characters in one line before one of its strings. -/
theorem storesInside_iff (l : Line) (program : List Byte) :
    StoresInside l program ↔ program.length < 128 ∧
      ∀ string aborts reads, .receive string aborts reads ∈ deviceScriptFills l program →
        ShortLines string aborts [] (characters MAX_TIMEOUTS reads) := by
  have hbounded := chatLoopFills_bounded (program.length + 1) program ⟨l, 0⟩
  unfold StoresInside deviceScriptFills
  rw [forall_mem_cons]
  refine and_congr (firstStores_inside .pScript _) ⟨fun h string aborts reads hmem => ?_, fun h f hf => ?_⟩
  · have hmem := (mem_cons.mp hmem).resolve_left nofun
    exact (stores_inside (hbounded _ hmem)).mp (h _ hmem) string aborts reads rfl
  · grind [stores_inside]

def longScript : List Byte := List.replicate 128 (ch 'A')

def longLine : List (Option Byte) := List.replicate STR_LEN (some (ch 'A'))

theorem characters_replicate {c : Byte} (hc : c &&& 0x7f = c) (n tries : Nat) :
    characters tries (List.replicate n (some c)) = List.replicate n c := by
  induction n generalizing tries with
  | zero => rfl
  | succ n ih => rw [replicate_succ, replicate_succ, characters, hc, ih]

theorem line_replicate {c : Byte} (hc : isLineEnd c = false) (n : Nat) (line : List Byte) :
    (List.replicate n c).foldl received line = line ++ List.replicate n c := by
  induction n generalizing line with
  | zero => simp
  | succ n ih =>
    rw [replicate_succ, foldl_cons, received_eq, if_neg (by rw [hc]; exact Bool.false_ne_true), ih,
      append_assoc]
    rfl

/-- The line gets longer than the buffer: none of the strings is all `A`. -/
theorem not_shortLines_longLine : ¬ ShortLines (text "C") abortStrings [] (characters MAX_TIMEOUTS longLine) := by
  intro h
  have hother : ∀ {t : List Byte} {d : Byte} (n : Nat), d ∈ t → d ≠ ch 'A' → ¬ t <:+ List.replicate n (ch 'A') :=
    fun n ht hd hs => hd (eq_of_mem_replicate (hs.subset ht))
  rw [longLine, characters_replicate (by decide)] at h
  have hlong := h STR_LEN (by decide) (by simp) fun j _ _ => by
    rw [take_replicate, line_replicate (by decide), nil_append, verdict_none_iff]
    refine ⟨hother (d := ch 'C') _ (by decide) (by decide), fun a ha => ?_⟩
    simp only [abortStrings, mem_cons, not_mem_nil, or_false] at ha
    rcases ha with rfl | rfl | rfl | rfl | rfl
    · exact hother (d := ch 'B') _ (by decide) (by decide)
    · exact hother (d := ch 'N') _ (by decide) (by decide)
    · exact hother (d := ch 'N') _ (by decide) (by decide)
    · exact hother (d := ch 'N') _ (by decide) (by decide)
    · exact hother (d := ch 'R') _ (by decide) (by decide)
  rw [take_replicate, line_replicate (by decide), nil_append, length_replicate] at hlong
  exact absurd hlong (by decide)

/-- A script of 128 characters overruns its copy; 1024 characters in a line overrun the receive buffer. -/
theorem buffers_overrun :
    ¬ StoresInside (firstLine []) longScript ∧ ¬ StoresInside (firstLine longLine) (text "C@") := by
  refine ⟨fun h => ?_, fun h => ?_⟩
  · have hcopy := (firstStores_inside .pScript _).mp (h (.copy longScript) mem_cons_self)
    rw [longScript, length_replicate] at hcopy
    exact absurd hcopy (by decide)
  · have hcommand : getnextcommand (text "C@") = some (text "C", []) := by decide
    have hclean : cstr (clean false (text "C")) = text "C" := clean_plain (by decide)
    have hfills : Fill.receive (text "C") abortStrings longLine ∈
        getStringFills ((firstLine longLine).record (.expect (text "C"))) (text "C") := by
      exact mem_cons_of_mem _ (mem_cons_of_mem _ mem_cons_self)
    have hexpect : Fill.receive (text "C") abortStrings longLine ∈
        chatExpectFills ⟨firstLine longLine, 0⟩ (text "C") := by
      exact mem_append_right _ hfills
    have hmem : Fill.receive (text "C") abortStrings longLine ∈ deviceScriptFills (firstLine longLine) (text "C@") := by
      exact mem_cons_of_mem _ (mem_cons_of_mem _ (mem_append_left _ hexpect))
    have hbounded : (Fill.receive (text "C") abortStrings longLine).Bounded := show _ ∧ _ from ⟨by decide, by decide⟩
    exact not_shortLines_longLine ((stores_inside hbounded).mp (h _ hmem) _ _ _ rfl)

end Bounds

end RtemsLibbsd.Chat

import RtemsLibbsd.RcConf.Placement

/-!
# Which control strings are accepted

* `Clause`, `Grammatical` — the documented form of a control string: clauses `keyword:items;`, no
  keyword twice, and no list that asks for the end it must not ask for.
* `Decides` — a control string of this form is accepted, any other is rejected with an error.
* **`serviceAdd_decides_iff`** — this is so exactly for plain control strings.

A control string that is not plain is empty, has a second `;` behind a clause, which is read through a
null pointer, or has a list that the loops over items do not get to the end of: the comma behind an
item is not skipped, and an item is compared with a keyword up to its own length only.
-/

namespace RtemsLibbsd.RcConf

open Option

open List

/-- A keyword in some spelling, with the colon, and the text of its list. -/
structure Clause where
  key : Key
  keyword : List Char
  spelled : strcasecmp keyword key.text = true
  text : List Char
  closed : ';' ∉ text

def Clause.items (c : Clause) : List (List Char) := c.text.splitOn ','

def renderClauses : List Clause → List Char
  | [] => []
  | c :: clauses => c.keyword ++ (c.text ++ ';' :: renderClauses clauses)

def Key.stop : Key → Option (List Char)
  | .before => some first
  | .after => some last
  | .require => none

/-- Each keyword at most once, and no item that stands for the wrong end. -/
structure Grammar (clauses : List Clause) : Prop where
  once : (clauses.map Clause.key).Nodup
  ends : ∀ c ∈ clauses, ∀ kw ∈ c.key.stop, ∀ item ∈ c.items, strcasecmp item kw = false

def Grammatical (control : List Char) : Prop := ∃ clauses, Grammar clauses ∧ control = renderClauses clauses

/-- The call succeeds for a grammatical control string, and fails with an error for any other. -/
def Decides {ε : Type} (control : List Char) (outcome : Outcome ε) : Prop :=
  (Grammatical control → ∃ t, outcome = .ok t) ∧
    (¬ Grammatical control → ∃ t e, outcome = .error t e)

/-- A second `;` behind a clause. -/
def Doubled (control : List Char) : Prop :=
  ∃ clauses rest, clauses ≠ [] ∧ (clauses.map Clause.key).Nodup ∧ control = renderClauses clauses ++ ';' :: rest

def Read (kw text : List Char) : Prop := text = [] ∨ ',' ∉ text ∧ abbreviates text kw = false

/-- There are clauses, a single `;` behind each, and lists of at most one item, which does not
    abbreviate the wrong end. -/
structure Plain (control : List Char) : Prop where
  nonempty : control ≠ []
  single : ¬ Doubled control
  lists : ∀ clauses, Grammar clauses → control = renderClauses clauses →
    ∀ c ∈ clauses, ∀ kw ∈ c.key.stop, Read kw c.text

section Scanner

theorem length_of_strcasecmp {a b : List Char} (h : strcasecmp a b = true) : a.length = b.length := by
  have hmap : a.map Char.toLower = b.map Char.toLower := by simpa [strcasecmp] using h
  simpa using congrArg List.length hmap

theorem strncasecmp_start (kw w : List Char) :
    strncasecmp kw w kw.length = true ↔ strcasecmp (w.take kw.length) kw = true := by
  unfold strncasecmp strcasecmp
  rw [take_of_length_le (Nat.le_refl kw.length), beq_iff_eq, beq_iff_eq]
  exact eq_comm

theorem strncasecmp_spelled {kw keyword : List Char} (h : strcasecmp keyword kw = true) (text : List Char) :
    strncasecmp kw (keyword ++ text) kw.length = true := by
  rw [strncasecmp_start, ← length_of_strcasecmp h, take_left]
  exact h

theorem strncasecmp_head {kw w : List Char} (h : strncasecmp kw w kw.length = true) :
    (kw.map Char.toLower).head? = ((w.take kw.length).map Char.toLower).head? := by
  grind [strncasecmp]

variable {w : List Char}

theorem strncasecmp_other {key key' : Key} (h : strncasecmp key.text w key.text.length = true)
    (h' : strncasecmp key'.text w key'.text.length = true) : key = key' := by
  have hhead := strncasecmp_head h
  have hhead' := strncasecmp_head h'
  cases w with
  | nil => cases key <;> cases h
  | cons c w =>
    have hsame : (key.text.map Char.toLower).head? = (key'.text.map Char.toLower).head? := by
      cases key <;> cases key' <;> exact hhead.trans hhead'.symm
    revert hsame
    cases key <;> cases key' <;> decide

theorem setList_spelled {key : Key} {keyword : List Char} (h : strcasecmp keyword key.text = true)
    (text : List Char) (lists : Lists) :
    setList (keyword ++ text) lists = if (lists.get key).isSome then none else some (lists.set text key) := by
  have hstart : ∀ key', strncasecmp key'.text (keyword ++ text) key'.text.length = decide (key' = key) := by
    intro key'
    by_cases hkey : key' = key
    · rw [hkey, strncasecmp_spelled h]
      simp
    · rw [decide_eq_false hkey, Bool.eq_false_iff]
      intro hother
      exact hkey (strncasecmp_other hother (strncasecmp_spelled h text))
  have hdrop : (keyword ++ text).drop key.text.length = text := by
    simp [← length_of_strcasecmp h]
  have hbefore := hstart .before
  have hafter := hstart .after
  have hrequire := hstart .require
  simp only [Key.text] at hbefore hafter hrequire hdrop
  simp only [setList, hbefore, hafter, hrequire]
  grind [Lists.get, Lists.set]

variable {lists lists' : Lists}

theorem setList_eq_some (h : setList w lists = some lists') :
    ∃ key keyword text, w = keyword ++ text ∧ strcasecmp keyword (Key.text key) = true := by
  have hkey : ∃ key : Key, strncasecmp key.text w key.text.length = true := by
    grind [Key.text, setList]
  obtain ⟨key, hkey⟩ := hkey
  exact ⟨key, w.take key.text.length, w.drop key.text.length, (take_append_drop _ _).symm,
    (strncasecmp_start _ _).mp hkey⟩

def setClauses (lists : Lists) : List Clause → Option Lists
  | [] => some lists
  | c :: clauses => if (lists.get c.key).isSome then none else setClauses (lists.set c.text c.key) clauses

theorem Clause.ne_nil (c : Clause) : c.keyword ++ c.text ≠ [] := by
  have hlen := length_of_strcasecmp c.spelled
  intro h
  have hnil : c.keyword = [] := (append_eq_nil_iff.mp h).1
  rw [hnil] at hlen
  cases hkey : c.key <;> rw [hkey] at hlen <;> cases hlen

theorem semicolon_not_mem {keyword : List Char} {key : Key} (h : strcasecmp keyword key.text = true) :
    ';' ∉ keyword := by
  intro hmem
  have hmap : keyword.map Char.toLower = key.text.map Char.toLower := by simpa [strcasecmp] using h
  have hlower : Char.toLower ';' ∈ key.text.map Char.toLower := hmap ▸ mem_map_of_mem hmem
  revert hlower
  cases key <;> decide

variable {clauses : List Clause}

/-- **The loop over the clauses** of a control string. -/
theorem parseControl_clauses (rest : List Char)
    (h : setClauses lists clauses = some lists') {s : Option (List Char)} (hs : s.getD [] = [])
    (hne : s = none ∨ clauses ≠ []) :
    parseControl (renderClauses clauses ++ rest) s lists =
      parseControl rest (if clauses = [] then s else none) lists' := by
  induction clauses generalizing s lists with
  | nil =>
    cases h
    rfl
  | cons c clauses ih =>
    obtain ⟨hset, h⟩ := ite_none_left_eq_some.mp h
    have hclosed : ';' ∉ c.keyword ++ c.text := by
      rw [mem_append, not_or]
      exact ⟨semicolon_not_mem c.spelled, c.closed⟩
    have hshape : renderClauses (c :: clauses) ++ rest =
        (c.keyword ++ c.text) ++ ';' :: (renderClauses clauses ++ rest) := by
      simp [renderClauses]
    rw [hshape, parseControl_text hclosed (.inr c.ne_nil), hs, nil_append, setList_spelled c.spelled,
      if_neg hset, if_neg (cons_ne_nil _ _)]
    refine (ih h rfl (.inl rfl)).trans ?_
    simp

theorem parseControl_open (hw : ';' ∉ w) {s : Option (List Char)} (hs : s.isSome ∨ w ≠ [])
    (lists : Lists) : parseControl w s lists = .einval := by
  induction w generalizing s with
  | nil => simp [parseControl, hs.resolve_right (by simp)]
  | cons ch w ih =>
    simp only [mem_cons, not_or] at hw
    simp only [parseControl, if_neg (Ne.symm hw.1)]
    exact ih hw.2 (.inl rfl)

/-- **What the loop comes to** behind a clause: it gets to the end of the clauses, it finds a second
    `;`, or it fails. -/
theorem parseControl_none (control : List Char) (lists : Lists) :
    ∃ clauses rest lists', setClauses lists clauses = some lists' ∧ control = renderClauses clauses ++ rest ∧
      (rest = [] ∧ parseControl control none lists = .lists lists' ∨
        (∃ rest', rest = ';' :: rest') ∧ parseControl control none lists = .crash ∨
        parseControl control none lists = .einval) := by
  induction hn : control.length using Nat.strongRecOn generalizing control lists with
  | ind n ih =>
    by_cases hmem : ';' ∈ control
    · obtain ⟨w, rest, rfl, hw⟩ := eq_append_cons_of_mem hmem
      by_cases hnil : w = []
      · subst hnil
        refine ⟨[], ';' :: rest, lists, rfl, rfl, .inr (.inl ⟨⟨rest, rfl⟩, ?_⟩)⟩
        simp [parseControl.eq_2]
      · have htext := @parseControl_text lists w rest none hw (.inr hnil)
        rw [getD_none, nil_append] at htext
        cases hset : setList w lists with
        | none =>
          rw [hset] at htext
          exact ⟨[], _, lists, rfl, rfl, .inr (.inr htext)⟩
        | some lists₁ =>
          rw [hset] at htext
          obtain ⟨key, keyword, text, rfl, hspelled⟩ := setList_eq_some hset
          rw [setList_spelled hspelled] at hset
          obtain ⟨hfree, hset⟩ := ite_none_left_eq_some.mp hset
          cases hset
          have hclosed : ';' ∉ text := fun h => hw (mem_append_right _ h)
          obtain ⟨clauses, rest', lists', hclauses, hrest, hcases⟩ :=
            ih rest.length (by rw [← hn, length_append, length_cons]; omega) rest
              (lists.set text key) rfl
          refine ⟨⟨key, keyword, hspelled, text, hclosed⟩ :: clauses, rest', lists', ?_, ?_, ?_⟩
          · rw [setClauses, if_neg hfree]
            exact hclauses
          · rw [hrest]
            simp [renderClauses]
          · simp only [htext]
            exact hcases
    · by_cases hnil : control = []
      · subst hnil
        exact ⟨[], [], lists, rfl, rfl, .inl ⟨rfl, rfl⟩⟩
      · exact ⟨[], control, lists, rfl, rfl, .inr (.inr (parseControl_open hmem (.inr hnil) lists))⟩

theorem setClauses_get (h : setClauses lists clauses = some lists') (key : Key) :
    lists'.get key = (lists.get key).or ((clauses.find? (·.key = key)).map Clause.text) := by
  induction clauses generalizing lists with
  | nil =>
    cases h
    simp
  | cons c clauses ih =>
    obtain ⟨hset, h⟩ := ite_none_left_eq_some.mp h
    rw [ih h, Lists.get_set]
    by_cases hkey : c.key = key
    · subst hkey
      have hnone : lists.get c.key = none := by simpa using hset
      simp [hnone]
    · simp [hkey]

theorem setClauses_isSome {lists : Lists} :
    (setClauses lists clauses).isSome = true ↔
      (clauses.map Clause.key).Nodup ∧ ∀ c ∈ clauses, lists.get c.key = none := by
  induction clauses generalizing lists with
  | nil => simp [setClauses]
  | cons c clauses ih =>
    rw [setClauses]
    cases hc : (lists.get c.key).isSome with
    | true =>
      grind
    | false =>
      have hnone : lists.get c.key = none := by simpa using hc
      rw [if_neg Bool.false_ne_true, ih]
      simp only [map_cons, nodup_cons, Lists.get_set, List.mem_map, not_exists, not_and]
      grind

end Scanner

section Loops

variable {ε : Type}

theorem not_strcasecmp_of_read {kw text : List Char} (hkw : kw ≠ []) (h : Read kw text) :
    ∀ item ∈ text.splitOn ',', strcasecmp item kw = false := by
  intro item hitem
  rw [Bool.eq_false_iff]
  intro hcmp
  have hlen := length_of_strcasecmp hcmp
  rcases h with rfl | ⟨hcomma, habb⟩
  · have hnil : item = [] := by simpa using hitem
    rw [hnil] at hlen
    exact hkw (eq_nil_of_length_eq_zero hlen.symm)
  · grind [splitOn_eq_singleton, abbreviates, strncasecmp, strcasecmp]

theorem itemLoop_isSome {stop : List Char} {place : List (Service ε) → List Char → Nat → List (Service ε)}
    (text : List Char) (chain : List (Service ε)) :
    (itemLoop stop place text chain).isSome = true ↔ Read stop text := by
  have hnil : ∀ chain, itemLoop stop place [] chain = some chain := by
    intro chain
    simp [itemLoop]
  by_cases htext : text = []
  · subst htext
    rw [hnil]
    exact iff_of_true rfl (.inl rfl)
  by_cases hcomma : ',' ∈ text
  · refine iff_of_false ?_ ?_
    · obtain ⟨item, more, rfl, hitem⟩ := eq_append_cons_of_mem hcomma
      have hlen := itemLength_append hitem (.inr ⟨more, rfl⟩)
      have hfail : ∀ chain, itemLoop stop place (',' :: more) chain = none := by
        intro chain
        rw [itemLoop, if_neg (by simp), dif_pos (comma_taken _ _)]
      rw [itemLoop, if_neg htext, hlen, drop_left, hfail]
      simp
    · rintro (hempty | ⟨hfree, -⟩)
      · exact htext hempty
      · exact hfree hcomma
  · have hlen : itemLength text = text.length := by simpa using itemLength_append hcomma (.inl rfl)
    rw [itemLoop, if_neg htext, hlen, drop_length, hnil]
    grind [Read, abbreviates]

end Loops

section Uniqueness

theorem Clause.eq_of_append {c c' : Clause} (h : c.keyword ++ c.text = c'.keyword ++ c'.text) : c = c' := by
  have hstart := strncasecmp_spelled c.spelled c.text
  rw [h] at hstart
  have hkey := strncasecmp_other hstart (strncasecmp_spelled c'.spelled c'.text)
  have hlen : c.keyword.length = c'.keyword.length := by
    rw [length_of_strcasecmp c.spelled, length_of_strcasecmp c'.spelled, hkey]
  obtain ⟨hkeyword, htext⟩ := append_inj h hlen
  cases c
  cases hkey
  cases hkeyword
  cases htext
  rfl

theorem semicolon_split {w w' rest rest' : List Char} (hw : ';' ∉ w) (hw' : ';' ∉ w')
    (h : w ++ ';' :: rest = w' ++ ';' :: rest') : w = w' ∧ rest = rest' := by
  have hpart : ∀ {w rest : List Char}, ';' ∉ w → (w ++ ';' :: rest).takeWhile (· ≠ ';') = w := by
    intro w rest hw
    rw [takeWhile_append_of_pos]
    · simp
    · intro c hc
      refine decide_eq_true ?_
      rintro rfl
      exact hw hc
  grind [append_cancel_left]

theorem renderClauses_inj {clauses clauses' : List Clause} (h : renderClauses clauses = renderClauses clauses') :
    clauses = clauses' := by
  induction clauses generalizing clauses' with
  | nil =>
    cases clauses' with
    | nil => rfl
    | cons c' clauses' => simp [renderClauses] at h
  | cons c clauses ih =>
    cases clauses' with
    | nil => simp [renderClauses] at h
    | cons c' clauses' =>
      have hfree : ∀ c : Clause, ';' ∉ c.keyword ++ c.text := by
        intro c
        rw [mem_append, not_or]
        exact ⟨semicolon_not_mem c.spelled, c.closed⟩
      grind [renderClauses, semicolon_split, Clause.eq_of_append]

end Uniqueness

section Calls

variable {ε : Type} {clauses : List Clause} {lists : Lists}

theorem lists_none_get (key : Key) : (⟨none, none, none⟩ : Lists).get key = none := by
  cases key <;> rfl

/-- The loops over items get to the end of the lists that are set if they do so for each clause. -/
theorem read_iff (h : setClauses ⟨none, none, none⟩ clauses = some lists) :
    (∀ c ∈ clauses, ∀ kw ∈ c.key.stop, Read kw c.text) ↔
      Read last (lists.after.getD []) ∧ Read first (lists.before.getD []) := by
  have hget : ∀ key, lists.get key = (clauses.find? (·.key = key)).map Clause.text := by
    intro key
    simp [setClauses_get h, lists_none_get]
  have hnodup := (setClauses_isSome.mp (isSome_of_eq_some h)).1
  have hkey : ∀ key kw, key.stop = some kw →
      ((∀ c ∈ clauses, c.key = key → Read kw c.text) ↔ Read kw ((lists.get key).getD [])) := by
    intro key kw _
    rw [hget]
    cases hfind : clauses.find? (·.key = key) with
    | none =>
      refine iff_of_true ?_ (.inl rfl)
      intro c hc heq
      simpa [heq] using find?_eq_none.mp hfind c hc
    | some c =>
      grind [inj_on_of_nodup_map]
  have hafter := hkey .after last rfl
  have hbefore := hkey .before first rfl
  simp only [Lists.get] at hafter hbefore
  rw [← hafter, ← hbefore]
  constructor
  · intro hall
    grind [Key.stop]
  · rintro ⟨ha, hb⟩ c hc kw hkw
    cases hck : c.key with
    | before =>
      rw [hck] at hkw
      cases hkw
      exact hb c hc hck
    | after =>
      rw [hck] at hkw
      cases hkw
      exact ha c hc hck
    | require =>
      rw [hck] at hkw
      cases hkw

theorem serviceAdd_lists (s : Services ε) (name control : List Char) (entry : ε)
    (hparse : parseControl control (some []) ⟨none, none, none⟩ = .lists lists) :
    (Read last (lists.after.getD []) ∧ Read first (lists.before.getD []) ∧
      ∃ t, serviceAdd s name (some control) entry ⟨true, true, true⟩ = .ok t) ∨
    (¬ (Read last (lists.after.getD []) ∧ Read first (lists.before.getD [])) ∧
      ∃ t, serviceAdd s name (some control) entry ⟨true, true, true⟩ = .error t .einval) := by
  obtain ⟨srv, hsrv⟩ : ∃ srv : Service ε, srv = ⟨s.next, name, lists, entry⟩ := ⟨_, rfl⟩
  have hafter : (afterLoop srv (lists.after.getD []) (srv :: s.chain)).isSome = true ↔ _ :=
    itemLoop_isSome _ _
  simp only [serviceAdd, hparse, ← hsrv]
  cases ha : afterLoop srv (lists.after.getD []) (srv :: s.chain) with
  | none =>
    grind
  | some chain =>
    have hbefore : (beforeLoop srv (lists.before.getD []) chain).isSome = true ↔ _ := itemLoop_isSome _ _
    rw [ha] at hafter
    simp only
    cases hb : beforeLoop srv (lists.before.getD []) chain with
    | none =>
      grind
    | some chain' =>
      left
      rw [hb] at hbefore
      exact ⟨hafter.mp rfl, hbefore.mp rfl, _, rfl⟩

theorem parseControl_doubled {control : List Char} (h : Doubled control) :
    parseControl control (some []) ⟨none, none, none⟩ = .crash := by
  obtain ⟨clauses, rest, hne, hnodup, rfl⟩ := h
  have hset := setClauses_isSome.mpr ⟨hnodup, fun _ _ => lists_none_get _⟩
  obtain ⟨lists, hset⟩ := isSome_iff_exists.mp hset
  rw [parseControl_clauses _ hset rfl (.inr hne), if_neg hne]
  simp [parseControl]

theorem parseControl_grammar (hg : Grammar clauses) (hne : clauses ≠ []) :
    ∃ lists, setClauses ⟨none, none, none⟩ clauses = some lists ∧
      parseControl (renderClauses clauses) (some []) ⟨none, none, none⟩ = .lists lists := by
  have hset := setClauses_isSome.mpr ⟨hg.once, fun _ _ => lists_none_get _⟩
  obtain ⟨lists, hset⟩ := isSome_iff_exists.mp hset
  have hparse := parseControl_clauses [] hset (s := some []) rfl (.inr hne)
  rw [append_nil, if_neg hne] at hparse
  exact ⟨lists, hset, hparse⟩

/-- **What the scanner comes to** for any control string. -/
theorem parseControl_cases {control : List Char} (hne : control ≠ []) :
    (∃ clauses lists, clauses ≠ [] ∧ setClauses ⟨none, none, none⟩ clauses = some lists ∧
      control = renderClauses clauses ∧
      parseControl control (some []) ⟨none, none, none⟩ = .lists lists) ∨
    (Doubled control ∧ parseControl control (some []) ⟨none, none, none⟩ = .crash) ∨
    parseControl control (some []) ⟨none, none, none⟩ = .einval := by
  obtain ⟨ch, control, rfl⟩ := exists_cons_of_ne_nil hne
  by_cases hch : ch = ';'
  · subst hch
    exact .inr (.inr rfl)
  have hsame : parseControl (ch :: control) (some []) ⟨none, none, none⟩ =
      parseControl (ch :: control) none ⟨none, none, none⟩ := by
    simp [parseControl, hch]
  rw [hsame]
  obtain ⟨clauses, rest, lists, hset, hcontrol, hend | ⟨⟨rest', rfl⟩, hcrash⟩ | heinval⟩ :=
    parseControl_none (ch :: control) ⟨none, none, none⟩
  · obtain ⟨rfl, hlists⟩ := hend
    rw [append_nil] at hcontrol
    refine .inl ⟨clauses, lists, ?_, hset, hcontrol, hlists⟩
    rintro rfl
    cases hcontrol
  · refine .inr (.inl ⟨⟨clauses, rest', ?_, ?_, hcontrol⟩, hcrash⟩)
    · rintro rfl
      simp only [renderClauses, nil_append, List.cons.injEq] at hcontrol
      exact hch hcontrol.1
    · exact (setClauses_isSome.mp (isSome_of_eq_some hset)).1
  · exact .inr (.inr heinval)

end Calls

/-- **The control strings that are accepted** are those of the documented form, and the others are
    rejected, exactly for plain control strings. -/
theorem serviceAdd_decides_iff {ε : Type} (s : Services ε) (name control : List Char) (entry : ε) :
    Decides control (serviceAdd s name (some control) entry ⟨true, true, true⟩) ↔ Plain control := by
  by_cases hnil : control = []
  · subst hnil
    refine iff_of_false ?_ fun h => h.nonempty rfl
    rintro ⟨haccept, -⟩
    obtain ⟨t, ht⟩ := haccept ⟨[], ⟨nodup_nil, fun _ hc => nomatch hc⟩, rfl⟩
    cases ht
  have hsingle : parseControl control (some []) ⟨none, none, none⟩ ≠ .crash → ¬ Doubled control :=
    fun hparse hdoubled => hparse (parseControl_doubled hdoubled)
  rcases parseControl_cases hnil with ⟨clauses, lists, hne, hset, rfl, hparse⟩ | ⟨hdoubled, hparse⟩ | hparse
  · have hsingle := hsingle (by simp [hparse])
    have hread := read_iff hset
    have hnodup := (setClauses_isSome.mp (isSome_of_eq_some hset)).1
    have hgrammar : Grammatical (renderClauses clauses) ↔ Grammar clauses := by
      refine ⟨?_, fun hg => ⟨clauses, hg, rfl⟩⟩
      rintro ⟨clauses', hg, heq⟩
      rwa [renderClauses_inj heq]
    have hplain : Plain (renderClauses clauses) ↔
        (Grammar clauses → Read last (lists.after.getD []) ∧ Read first (lists.before.getD [])) := by
      rw [← hread]
      refine ⟨fun h hg => h.lists clauses hg rfl, fun h => ⟨hnil, hsingle, ?_⟩⟩
      intro clauses' hg heq
      rw [← renderClauses_inj heq] at hg ⊢
      exact h hg
    have hends : Read last (lists.after.getD []) ∧ Read first (lists.before.getD []) → Grammar clauses := by
      rw [← hread]
      intro hall
      refine ⟨hnodup, ?_⟩
      intro c hc kw hkw
      refine not_strcasecmp_of_read ?_ (hall c hc kw hkw)
      cases hck : c.key <;> rw [hck] at hkw <;> cases hkw <;> simp [first, last]
    unfold Decides
    rcases serviceAdd_lists s name _ entry hparse with ⟨ha, hb, t, ht⟩ | ⟨hloop, t, ht⟩
    · grind
    · grind
  · have hcrash : serviceAdd s name (some control) entry ⟨true, true, true⟩ = .crash := by
      simp [serviceAdd, hparse]
    refine iff_of_false ?_ fun h => h.single hdoubled
    grind [Grammatical, Decides]
  · obtain ⟨t, ht⟩ : ∃ t, serviceAdd s name (some control) entry ⟨true, true, true⟩ = .error t .einval := by
      simp [serviceAdd, hparse]
    have hnot : ∀ clauses, Grammar clauses → control ≠ renderClauses clauses := by
      rintro clauses hg rfl
      have hne : clauses ≠ [] := by
        rintro rfl
        exact hnil rfl
      grind [parseControl_grammar]
    rw [ht]
    refine iff_of_true ⟨?_, fun _ => ⟨t, .einval, rfl⟩⟩ ⟨hnil, hsingle (by simp [hparse]), ?_⟩
    · rintro ⟨clauses, hg, heq⟩
      exact absurd heq (hnot clauses hg)
    · intro clauses hg heq
      exact absurd heq (hnot clauses hg)

/-- The clause `after:a,b;`. -/
def twoItems : Clause := ⟨.after, afterKey, by decide, ['a', ',', 'b'], by decide⟩

/-- An `after` list of two names is rejected. -/
theorem items_rejected :
    ¬ Decides ("after:a,b;".toList) (serviceAdd ⟨[], 1⟩ ['s'] (some "after:a,b;".toList) () ⟨true, true, true⟩) := by
  have hgrammar : Grammar [twoItems] := by
    refine ⟨nodup_singleton _, ?_⟩
    intro c hc kw hkw item hitem
    cases mem_singleton.mp hc
    cases hkw
    revert item
    decide
  have hparse : parseControl "after:a,b;".toList (some []) ⟨none, none, none⟩ =
      .lists ⟨none, some ['a', ',', 'b'], none⟩ := by decide
  have hloop (srv : Service Unit) (chain : List (Service Unit)) :
      afterLoop srv ['a', ',', 'b'] chain = none := by
    unfold afterLoop
    rw [itemLoop, if_neg (by decide), dif_neg (by decide), itemLoop, if_neg (by decide), dif_pos (by decide)]
  have heinval : serviceAdd ⟨[], 1⟩ ['s'] (some "after:a,b;".toList) () ⟨true, true, true⟩ =
      .error ⟨[], 2⟩ .einval := by
    unfold serviceAdd
    rw [if_neg (by decide), if_neg (by decide)]
    simp only [hparse, getD_some, hloop]
  rintro ⟨haccept, -⟩
  obtain ⟨t, ht⟩ := haccept ⟨[twoItems], hgrammar, rfl⟩
  rw [heinval] at ht
  cases ht

end RtemsLibbsd.RcConf

import Mathlib.Data.List.Find
import RtemsLibbsd.RcConf.Services

/-!
# Where a service is placed

* `Group`, `render` — control strings of the documented form.
* `KeepsOrder` — a successful `rtems_bsd_rc_conf_service_add` inserts one service, keeps the order of
  the others, and places it by the last item of the `before` list or, without one, of the `after`
  list that is an existing service; one that fails does not change the chain.
* `Clear` — no item abbreviates a keyword where it matters, and the search for an item of the `before`
  list does not stop at the new service before it finds the existing one.
* **`keepsOrder_iff`** — in every state that is reached, these are the same.

A list with a comma is rejected (`itemLoop_spec`): the comma is not skipped, and
the empty item at it is taken for `last` or `first`.
-/

namespace RtemsLibbsd.RcConf

open Option List RtemsLibbsd.Transition

inductive Key where
  | before
  | after
  | require
  deriving DecidableEq

def Key.text : Key → List Char
  | .before => beforeKey
  | .after => afterKey
  | .require => requireKey

structure Group where
  key : Key
  items : List (List Char)

def join (items : List (List Char)) : List Char := [','].intercalate items

def render : List Group → List Char
  | [] => []
  | g :: groups => g.key.text ++ join g.items ++ ';' :: render groups

def WellFormed (groups : List Group) : Prop :=
  ∀ g ∈ groups, ∀ item ∈ g.items, item ≠ [] ∧ ',' ∉ item ∧ ';' ∉ item

def itemsOf (groups : List Group) (key : Key) : List (List Char) :=
  ((groups.find? (·.key = key)).map Group.items).getD []

section Parsing

def Lists.get (lists : Lists) : Key → Option (List Char)
  | .before => lists.before
  | .after => lists.after
  | .require => lists.require

def Lists.set (lists : Lists) (text : List Char) : Key → Lists
  | .before => { lists with before := some text }
  | .after => { lists with after := some text }
  | .require => { lists with require := some text }

@[simp] theorem Lists.get_set (lists : Lists) (text : List Char) (key key' : Key) :
    (lists.set text key).get key' = if key = key' then some text else lists.get key' := by
  cases key <;> cases key' <;> rfl

theorem strncasecmp_key (key key' : Key) (text : List Char) :
    strncasecmp key'.text (key.text ++ text) key'.text.length = decide (key' = key) := by
  cases key <;> cases key' <;> rfl

theorem setList_group (key : Key) (text : List Char) (lists : Lists) :
    setList (key.text ++ text) lists =
      if (lists.get key).isSome then none else some (lists.set text key) := by
  have hbefore : strncasecmp beforeKey (key.text ++ text) beforeKey.length = decide (.before = key) :=
    strncasecmp_key key .before text
  have hafter : strncasecmp afterKey (key.text ++ text) afterKey.length = decide (.after = key) :=
    strncasecmp_key key .after text
  have hrequire : strncasecmp requireKey (key.text ++ text) requireKey.length = decide (.require = key) :=
    strncasecmp_key key .require text
  obtain ⟨before, after, require⟩ := lists
  simp only [setList, hbefore, hafter, hrequire]
  cases key with
  | before => cases before <;> simp [Lists.get, Lists.set, Key.text]
  | after => cases after <;> simp [Lists.get, Lists.set, Key.text]
  | require => cases require <;> simp [Lists.get, Lists.set, Key.text]

variable {lists : Lists}

theorem parseControl_text {w rest : List Char} {s : Option (List Char)}
    (hw : ';' ∉ w) (hs : s.isSome ∨ w ≠ []) :
    parseControl (w ++ ';' :: rest) s lists = match setList (s.getD [] ++ w) lists with
      | none => .einval
      | some lists => parseControl rest none lists := by
  induction w generalizing s with
  | nil =>
    obtain ⟨text, rfl⟩ := isSome_iff_exists.mp (hs.resolve_right (by simp))
    rw [nil_append, getD_some, append_nil]
    cases hset : setList text lists <;> simp [parseControl, hset]
  | cons ch w ih =>
    simp only [mem_cons, not_or] at hw
    have hstep : parseControl (ch :: (w ++ ';' :: rest)) s lists =
        parseControl (w ++ ';' :: rest) (some (s.getD [] ++ [ch])) lists := by
      cases s <;> simp [parseControl, Ne.symm hw.1]
    rw [cons_append, hstep, ih hw.2 (.inl rfl), getD_some, append_assoc]
    rfl

def setGroups (lists : Lists) : List Group → Option Lists
  | [] => some lists
  | g :: groups =>
    if (lists.get g.key).isSome then none else setGroups (lists.set (join g.items) g.key) groups

theorem not_mem_join {items : List (List Char)} (h : ∀ item ∈ items, ';' ∉ item) : ';' ∉ join items := by
  unfold join
  induction items with
  | nil => simp
  | cons a items ih =>
    cases items with
    | nil => simpa using h a
    | cons b items =>
      have ha := h a mem_cons_self
      have hrest := ih fun item hi => h item (mem_cons_of_mem _ hi)
      rw [intercalate_cons_cons]
      simp only [mem_append, not_or]
      exact ⟨⟨ha, by decide⟩, hrest⟩

variable {groups : List Group}

/-- **Parsing a control string** of the documented form. -/
theorem parseControl_render (hw : WellFormed groups) {s : Option (List Char)} (hs : s.getD [] = [])
    (hne : s = none ∨ groups ≠ []) :
    parseControl (render groups) s lists = match setGroups lists groups with
      | none => .einval
      | some lists => .lists lists := by
  induction groups generalizing s lists with
  | nil => simp [render, parseControl, setGroups, hne.resolve_right (by simp)]
  | cons g groups ih =>
    have hitems : ';' ∉ g.key.text ++ join g.items := by
      rw [mem_append, not_or]
      refine ⟨?_, not_mem_join fun item hi => (hw g mem_cons_self item hi).2.2⟩
      cases g.key <;> decide
    have htext : g.key.text ++ join g.items ≠ [] := by
      cases g.key <;> simp [Key.text, beforeKey, afterKey, requireKey]
    rw [render, parseControl_text hitems (.inr htext), hs, nil_append, setList_group, setGroups]
    by_cases hset : (lists.get g.key).isSome
    · simp only [if_pos hset]
    · simp only [if_neg hset]
      exact ih (fun g' hg' => hw g' (mem_cons_of_mem _ hg')) rfl (.inl rfl)

theorem setGroups_get {lists lists' : Lists}
    (h : setGroups lists groups = some lists') (key : Key) :
    lists'.get key = (lists.get key).or ((groups.find? (·.key = key)).map fun g => join g.items) := by
  induction groups generalizing lists with
  | nil =>
    cases h
    simp
  | cons g groups ih =>
    obtain ⟨hset, h⟩ := ite_none_left_eq_some.mp h
    rw [ih h, Lists.get_set]
    by_cases hkey : g.key = key
    · subst hkey
      have hnone : lists.get g.key = none := by simpa using hset
      simp [hnone]
    · simp [hkey]

theorem setGroups_items (h : setGroups ⟨none, none, none⟩ groups = some lists) (key : Key) :
    (lists.get key).getD [] = join (itemsOf groups key) := by
  have hnone : (⟨none, none, none⟩ : Lists).get key = none := by cases key <;> rfl
  rw [setGroups_get h, hnone, none_or, itemsOf]
  cases groups.find? (·.key = key) with
  | none => rfl
  | some g => rfl

end Parsing

section Items

variable {ε : Type}

/-- The item is taken for the keyword: it is a beginning of it. -/
def abbreviates (item kw : List Char) : Bool := strncasecmp item kw item.length

def existing (chain : List (Service ε)) (item : List Char) : Option (Service ε) :=
  chain.find? fun ss => strcasecmp ss.name item

theorem isNamed_append (item rest : List Char) (ss : Service ε) :
    isNamed (item ++ rest) item.length ss = strcasecmp ss.name item := by
  unfold isNamed strncasecmp strcasecmp
  by_cases hlen : ss.name.length = item.length
  · simp [hlen, take_of_length_le (Nat.le_of_eq hlen)]
  · have hne : (ss.name.map Char.toLower == item.map Char.toLower) = false := by
      refine beq_false_of_ne ?_
      intro h
      exact hlen (by simpa using congrArg List.length h)
    simp [hne, beq_false_of_ne hlen]

theorem itemLength_append {item rest : List Char} (hitem : ',' ∉ item)
    (hrest : rest = [] ∨ ∃ more, rest = ',' :: more) : itemLength (item ++ rest) = item.length := by
  have hall : ∀ c ∈ item, (decide (c ≠ ',')) = true := by
    intro c hc
    refine decide_eq_true ?_
    rintro rfl
    exact hitem hc
  unfold itemLength
  rw [takeWhile_append_of_pos hall]
  rcases hrest with rfl | ⟨more, rfl⟩
  · simp
  · simp

theorem comma_taken (more kw : List Char) :
    strncasecmp (',' :: more) kw (itemLength (',' :: more)) = true := by
  simp [itemLength, strncasecmp]

/-- **A loop over a list**: it fails if there is a comma or an item that is taken for the keyword. -/
theorem itemLoop_spec {stop : List Char} {place : List (Service ε) → List Char → Nat → List (Service ε)}
    {items : List (List Char)} (hitems : ∀ item ∈ items, item ≠ [] ∧ ',' ∉ item)
    (chain : List (Service ε)) :
    itemLoop stop place (join items) chain =
      if 1 < items.length ∨ ∃ item ∈ items, abbreviates item stop then none
      else some (items.head?.elim chain fun item => place chain item item.length) := by
  have hnil : ∀ chain, itemLoop stop place [] chain = some chain := by
    intro chain
    simp [itemLoop]
  cases items with
  | nil =>
    exact hnil chain
  | cons a items =>
    obtain ⟨hne, hcomma⟩ := hitems a mem_cons_self
    cases items with
    | nil =>
      have hjoin : join [a] = a := by simp [join]
      have hlen : itemLength a = a.length := by simpa using itemLength_append hcomma (.inl rfl)
      rw [hjoin, itemLoop, if_neg hne, hlen, drop_length, hnil]
      simp [abbreviates]
    | cons b items =>
      have hjoin : join (a :: b :: items) = a ++ ',' :: join (b :: items) := by
        simp [join]
      have hlen := itemLength_append hcomma (.inr ⟨join (b :: items), rfl⟩)
      have hfail : ∀ chain, itemLoop stop place (',' :: join (b :: items)) chain = none := by
        intro chain
        rw [itemLoop, if_neg (by simp), dif_pos (comma_taken _ _)]
      rw [hjoin, itemLoop, if_neg (by simp), hlen, drop_left, hfail]
      simp

end Items

section Places

variable {ε : Type} {chain l₁ l₂ : List (Service ε)} {srv ss : Service ε} {item : List Char}

theorem existing_split (h : existing chain item = some ss) :
    ∃ m₁ m₂, chain = m₁ ++ ss :: m₂ ∧ existing m₁ item = none ∧
      m₁ = chain.takeWhile fun x => !strcasecmp x.name item := by
  obtain ⟨hss, m₁, m₂, rfl, hm₁⟩ := find?_eq_some_iff_append.mp h
  refine ⟨m₁, m₂, rfl, ?_, ?_⟩
  · refine find?_eq_none.mpr ?_
    intro x hx
    simpa using hm₁ x hx
  · rw [takeWhile_append_of_pos hm₁, takeWhile_cons_of_neg (by simpa using hss),
      append_nil]

theorem placeAfter_eq (hnew : srv.node ∉ chain.map Service.node) :
    placeAfter (srv :: chain) srv item item.length =
      match existing chain item with
      | none => srv :: chain
      | some ss => Chain.insert Service.node chain ss.node srv := by
  have hfind : (srv :: chain).find? (fun ss => ss.node != srv.node && isNamed item item.length ss) =
      existing chain item := by
    rw [find?_cons_of_neg (by simp)]
    refine find?_congr ?_
    intro x hx
    have hne : (x.node != srv.node) = true := by
      rw [bne_iff_ne]
      intro heq
      exact hnew (heq ▸ mem_map_of_mem hx)
    rw [hne, Bool.true_and]
    simpa using isNamed_append item [] x
  have hextract : Chain.extract Service.node (srv :: chain) srv.node = chain :=
    @Chain.extract_split _ _ _ Service.node [] chain srv hnew
  unfold placeAfter
  cases hex : existing chain item <;> simp only [hfind, hextract, hex]

theorem insert_before_existing {l : List (Service ε)} (hd : Chain.Distinct Service.node l)
    (hss : existing l item = some ss) :
    (match Chain.previous Service.node l ss.node with
      | none => srv :: l
      | some sp => Chain.insert Service.node l sp srv) =
    l.takeWhile (fun x => !strcasecmp x.name item) ++
      srv :: l.dropWhile (fun x => !strcasecmp x.name item) := by
  obtain ⟨m₁, m₂, hm, -, htake⟩ := existing_split hss
  have hdrop : l.dropWhile (fun x => !strcasecmp x.name item) = ss :: m₂ := by
    grind [takeWhile_append_dropWhile, append_cancel_left]
  rw [← htake, hdrop, hm, Chain.previous_split (hm ▸ hd)]
  have hput := @Chain.insert_behind _ _ _ Service.node m₁ (ss :: m₂) srv (hm ▸ hd)
  rw [← hput]
  cases m₁.getLast?.map Service.node <;> rfl

theorem placeBefore_eq (hnew : srv.node ∉ (l₁ ++ l₂).map Service.node)
    (hd : Chain.Distinct Service.node (l₁ ++ l₂)) :
    placeBefore (l₁ ++ srv :: l₂) srv item item.length =
      if existing l₁ item = none ∧ strcasecmp srv.name item = true then l₁ ++ srv :: l₂
      else
        match existing (l₁ ++ l₂) item with
        | none => l₁ ++ srv :: l₂
        | some _ =>
          (l₁ ++ l₂).takeWhile (fun x => !strcasecmp x.name item) ++
            srv :: (l₁ ++ l₂).dropWhile (fun x => !strcasecmp x.name item) := by
  have hextract : Chain.extract Service.node (l₁ ++ srv :: l₂) srv.node = l₁ ++ l₂ :=
    Chain.extract_split hnew
  have hdn : Chain.Distinct Service.node (l₁ ++ srv :: l₂) := by
    grind [Chain.Distinct]
  have hnamed : isNamed item item.length = fun ss : Service ε => strcasecmp ss.name item := by
    funext x
    simpa using isNamed_append item [] x
  unfold placeBefore
  rw [hextract, hnamed, find?_append, find?_cons]
  cases h₁ : existing l₁ item with
  | some ss =>
    have hall : existing (l₁ ++ l₂) item = some ss := by
      unfold existing at h₁ ⊢
      simp [h₁]
    have hne : ss.node ≠ srv.node := by
      intro heq
      exact hnew (heq ▸ mem_map_of_mem (mem_of_find?_eq_some hall))
    unfold existing at h₁
    rw [h₁, some_or, if_neg (by simp), hall]
    simp only [if_neg hne]
    exact insert_before_existing hd hall
  | none =>
    have h₁' : l₁.find? (fun ss => strcasecmp ss.name item) = none := h₁
    rw [h₁', none_or]
    cases hself : strcasecmp srv.name item with
    | true =>
      simp only [if_true, and_self, Chain.previous_split hdn]
      rw [← Chain.insert_behind hd]
      cases l₁.getLast?.map Service.node <;> rfl
    | false =>
      have hall : existing (l₁ ++ l₂) item = l₂.find? fun ss => strcasecmp ss.name item := by
        unfold existing
        simp [h₁']
      rw [if_neg (by simp), ← hall]
      cases hss : existing (l₁ ++ l₂) item with
      | none => rfl
      | some ss =>
        have hne : ss.node ≠ srv.node := by
          intro heq
          exact hnew (heq ▸ mem_map_of_mem (mem_of_find?_eq_some hss))
        simp only [if_neg hne]
        exact insert_before_existing hd hss

end Places

section Order

variable {ε : Type}

/-- The existing service that the last such item of an `after` list names. -/
def lastAfter (chain : List (Service ε)) (items : List (List Char)) : Option (Service ε) :=
  items.reverse.findSome? fun item =>
    if strcasecmp item first ∨ strcasecmp item last then none else existing chain item

/-- The existing service, or the end, that the last such item of a `before` list names. -/
def lastBefore (chain : List (Service ε)) (items : List (List Char)) : Option (Option (Service ε)) :=
  items.reverse.findSome? fun item =>
    if strcasecmp item last then some none
    else if strcasecmp item first then none
    else (existing chain item).map some

/-- The place between `l₁` and `l₂` is the one that the lists ask for. -/
def Placed (chain : List (Service ε)) (after before : List (List Char)) (l₁ l₂ : List (Service ε)) :
    Prop :=
  match lastBefore chain before with
  | some none => l₂ = []
  | some (some ss) => l₂.head? = some ss
  | none => ∀ ss, lastAfter chain after = some ss → l₁.getLast? = some ss

def items (control : Option (List Group)) (key : Key) : List (List Char) :=
  control.elim [] fun groups => itemsOf groups key

/-- An `rtems_bsd_rc_conf_service_add` inserts one service and places it as its lists say, or fails and
    does not change the chain. -/
def KeepsOrder (s : Services ε) (name : List Char) (control : Option (List Group)) (entry : ε)
    (mem : Memory) : Prop :=
  match serviceAdd s name (control.map render) entry mem with
  | .crash => False
  | .error t _ => t.chain = s.chain
  | .ok t => ∃ srv l₁ l₂, srv.name = name ∧ srv.entry = entry ∧ srv.node ∉ s.chain.map Service.node ∧
      s.chain = l₁ ++ l₂ ∧ t.chain = l₁ ++ srv :: l₂ ∧
      Placed s.chain (items control .after) (items control .before) l₁ l₂

/-- The call fails: there is no memory, no keyword or a repeated one, an item list has a comma, or
    an item of it stands for the end that it must not ask for. -/
def Rejected (groups : List Group) (mem : Memory) : Prop :=
  ¬ (mem.service ∧ mem.name ∧ mem.control) ∨ groups = [] ∨ ¬ (groups.map Group.key).Nodup ∨
  1 < (itemsOf groups .after).length ∨ 1 < (itemsOf groups .before).length ∨
  (∃ a ∈ itemsOf groups .after, abbreviates a last) ∨
  ∃ b ∈ itemsOf groups .before, abbreviates b first

/-- The service behind which the `after` list places the new one. -/
def afterPos (chain : List (Service ε)) (after : List (List Char)) : Option (Service ε) :=
  after.head?.bind fun a => if abbreviates a first then none else existing chain a

/-- An item of the `after` list that is taken for `first` is `first` or no existing service. -/
def AfterClear (chain : List (Service ε)) (after : List (List Char)) : Prop :=
  ∀ a ∈ after, abbreviates a first → strcasecmp a first ∨ existing chain a = none

/-- The item of the `before` list is not misunderstood: if it is taken for `last`, it is `last`, or it
    is not an existing service and the place asked for is the end; if it is an existing service and
    the name of the new service as well, the place by the `after` list is behind the existing
    service or directly before it. -/
def PlaceClear (chain : List (Service ε)) (name : List Char) (after before : List (List Char)) : Prop :=
  match before.head? with
  | none => AfterClear chain after
  | some b =>
    if abbreviates b last then
      strcasecmp b last ∨
        existing chain b = none ∧ ∀ ss, lastAfter chain after = some ss → chain.getLast? = some ss
    else
      match existing chain b with
      | none => AfterClear chain after
      | some _ =>
        strcasecmp name b →
          match afterPos chain after with
          | none => chain.takeWhile (fun x => !strcasecmp x.name b) = []
          | some a =>
            a ∈ chain.takeWhile (fun x => !strcasecmp x.name b) →
              (chain.takeWhile fun x => !strcasecmp x.name b).getLast? = some a

def Clear (s : Services ε) (name : List Char) (control : Option (List Group)) (mem : Memory) : Prop :=
  ∀ groups ∈ control, Rejected groups mem ∨
    PlaceClear s.chain name (itemsOf groups .after) (itemsOf groups .before)

end Order

section Results

variable {ε : Type} {s : Services ε} {chain : List (Service ε)} {srv : Service ε}

theorem setGroups_isSome (lists : Lists) (groups : List Group) :
    (setGroups lists groups).isSome ↔
      (groups.map Group.key).Nodup ∧ ∀ g ∈ groups, lists.get g.key = none := by
  induction groups generalizing lists with
  | nil => simp [setGroups]
  | cons g groups ih =>
    rw [setGroups, map_cons, nodup_cons, forall_mem_cons]
    cases hg : lists.get g.key with
    | some text => simp
    | none =>
      simp only [isSome_none, Bool.false_eq_true, if_false, ih, Lists.get_set, true_and]
      grind

theorem abbreviates_of_strcasecmp {item kw : List Char} (h : strcasecmp item kw = true) :
    abbreviates item kw = true := by
  have hmap : item.map Char.toLower = kw.map Char.toLower := eq_of_beq h
  have hlen : item.length = kw.length := by simpa using congrArg List.length hmap
  simp [abbreviates, strncasecmp, hlen, hmap, take_of_length_le]

variable {after : List (List Char)}

/-- **The place by the `after` list.** -/
theorem afterLoop_place (hitems : ∀ item ∈ after, item ≠ [] ∧ ',' ∉ item)
    (hok : ¬ (1 < after.length ∨ ∃ a ∈ after, abbreviates a last))
    (hnew : srv.node ∉ chain.map Service.node) (hd : Chain.Distinct Service.node chain) :
    ∃ l₁ l₂, chain = l₁ ++ l₂ ∧ l₁.getLast? = afterPos chain after ∧
      afterLoop srv (join after) (srv :: chain) = some (l₁ ++ srv :: l₂) := by
  unfold afterLoop
  rw [itemLoop_spec hitems, if_neg hok]
  unfold afterPos
  cases after.head? with
  | none => exact ⟨[], chain, rfl, rfl, rfl⟩
  | some a =>
    simp only [elim_some, bind_some]
    have habbr : strncasecmp a first a.length = abbreviates a first := rfl
    rw [habbr]
    cases abbreviates a first with
    | true => exact ⟨[], chain, rfl, rfl, rfl⟩
    | false =>
      rw [placeAfter_eq hnew]
      cases hex : existing chain a with
      | none => exact ⟨[], chain, rfl, rfl, rfl⟩
      | some ss =>
        obtain ⟨m₁, m₂, rfl, -⟩ := existing_split hex
        refine ⟨m₁ ++ [ss], m₂, by simp, by simp, ?_⟩
        simp only
        rw [Chain.insert_split hd.split.1]
        simp

theorem afterClear_iff {l₁ : List (Service ε)}
    (hok : ¬ (1 < after.length ∨ ∃ a ∈ after, abbreviates a last))
    (hl : l₁.getLast? = afterPos chain after) :
    (∀ ss, lastAfter chain after = some ss → l₁.getLast? = some ss) ↔ AfterClear chain after := by
  rw [hl]
  unfold lastAfter AfterClear afterPos
  match after, hok with
  | [], _ => simp
  | [a], hok =>
    have hlast : strcasecmp a last = false := by
      rw [Bool.eq_false_iff]
      intro h
      exact hok (.inr ⟨a, by simp, abbreviates_of_strcasecmp h⟩)
    grind
  | a :: b :: rest, hok => exact absurd (.inl (by simp)) hok

variable {b : List Char}

theorem existing_name {ss : Service ε} (h : existing chain b = some ss) :
    strcasecmp ss.name b = true :=
  (find?_eq_some_iff_append.mp h).1

theorem existing_none (h : existing chain b = none) :
    ∀ x ∈ chain, (!strcasecmp x.name b) = true := by
  intro x hx
  simpa using find?_eq_none.mp h x hx

variable {l₁ l₂ : List (Service ε)}

theorem own_place_iff {ss : Service ε}
    (hd : Chain.Distinct Service.node (l₁ ++ l₂)) (hl : l₁.getLast? = afterPos (l₁ ++ l₂) after)
    (hex : existing (l₁ ++ l₂) b = some ss) (hnone : existing l₁ b = none) :
    l₂.head? = some ss ↔ match afterPos (l₁ ++ l₂) after with
      | none => (l₁ ++ l₂).takeWhile (fun x => !strcasecmp x.name b) = []
      | some a =>
        a ∈ (l₁ ++ l₂).takeWhile (fun x => !strcasecmp x.name b) →
          ((l₁ ++ l₂).takeWhile fun x => !strcasecmp x.name b).getLast? = some a := by
  have hex₂ : existing l₂ b = some ss := by
    grind [existing]
  obtain ⟨m₁, m₂, rfl, hm₁, -⟩ := existing_split hex₂
  have hss := existing_name hex₂
  rw [takeWhile_append_of_pos (existing_none hnone), takeWhile_append_of_pos (existing_none hm₁),
    takeWhile_cons_of_neg (by simp [hss]), append_nil, ← hl]
  have hhead : (m₁ ++ ss :: m₂).head? = some ss ↔ m₁ = [] := by
    cases m₁ with
    | nil => simp
    | cons y m₁ =>
      have hy := existing_none hm₁ y mem_cons_self
      grind
  rw [hhead]
  rcases eq_nil_or_concat' l₁ with rfl | ⟨p, a, rfl⟩
  · simp
  · rcases eq_nil_or_concat' m₁ with rfl | ⟨q, c, rfl⟩
    · simp
    · have hne : c ≠ a := by
        rintro rfl
        rw [show p ++ [c] ++ (q ++ [c] ++ ss :: m₂) = p ++ c :: (q ++ c :: ss :: m₂) by simp] at hd
        exact hd.split.2 (by simp)
      have hgetLast : (p ++ [a] ++ (q ++ [c])).getLast? = some c := by
        rw [← append_assoc]
        exact getLast?_concat
      rw [hgetLast]
      simp [hne]

theorem other_place {a : Service ε}
    (hd : Chain.Distinct Service.node (l₁ ++ l₂)) (hl : l₁.getLast? = some a)
    (hex : existing l₁ b ≠ none) : a ∉ (l₁ ++ l₂).takeWhile fun x => !strcasecmp x.name b := by
  obtain ⟨ss, hss⟩ := ne_none_iff_exists'.mp hex
  obtain ⟨m₁, m₂, rfl, hnone, -⟩ := existing_split hss
  have hname := existing_name hss
  rw [append_assoc, takeWhile_append_of_pos (existing_none hnone), cons_append,
    takeWhile_cons_of_neg (by simp [hname]), append_nil]
  intro hmem
  have hlast : a ∈ ss :: m₂ := by
    rw [getLast?_append_of_ne_nil _ (by simp)] at hl
    exact mem_of_getLast? hl
  unfold Chain.Distinct at hd
  rw [append_assoc, map_append, nodup_append] at hd
  exact hd.2.2 _ (mem_map_of_mem hmem) _ (mem_map_of_mem (mem_append_left _ hlast)) rfl

/-- **The place by both lists.** -/
theorem beforeLoop_place {after before : List (List Char)}
    (hitems : ∀ item ∈ before, item ≠ [] ∧ ',' ∉ item)
    (hafter : ¬ (1 < after.length ∨ ∃ a ∈ after, abbreviates a last))
    (hbefore : ¬ (1 < before.length ∨ ∃ b ∈ before, abbreviates b first))
    (hnew : srv.node ∉ (l₁ ++ l₂).map Service.node)
    (hd : Chain.Distinct Service.node (l₁ ++ l₂)) (hl : l₁.getLast? = afterPos (l₁ ++ l₂) after) :
    ∃ k₁ k₂, l₁ ++ l₂ = k₁ ++ k₂ ∧
      beforeLoop srv (join before) (l₁ ++ srv :: l₂) = some (k₁ ++ srv :: k₂) ∧
      (Placed (l₁ ++ l₂) after before k₁ k₂ ↔ PlaceClear (l₁ ++ l₂) srv.name after before) := by
  unfold beforeLoop
  rw [itemLoop_spec hitems, if_neg hbefore]
  unfold Placed PlaceClear lastBefore
  match before, hbefore with
  | [], _ => exact ⟨l₁, l₂, rfl, rfl, afterClear_iff hafter hl⟩
  | b :: c :: rest, hbefore => exact absurd (.inl (by simp)) hbefore
  | [b], hbefore =>
    have hfirst : strcasecmp b first = false := by
      rw [Bool.eq_false_iff]
      intro h
      exact hbefore (.inr ⟨b, by simp, abbreviates_of_strcasecmp h⟩)
    have habbr : strncasecmp b last b.length = abbreviates b last := rfl
    simp only [head?_cons, elim_some, habbr, reverse_singleton, findSome?_cons,
      findSome?_nil, hfirst, Bool.false_eq_true, if_false]
    cases hlast : abbreviates b last with
    | true =>
      rw [Chain.extract_split hnew]
      refine ⟨l₁ ++ l₂, [], by simp, rfl, ?_⟩
      cases strcasecmp b last with
      | true => simp
      | false => cases existing (l₁ ++ l₂) b <;> simp
    | false =>
      have hnot : strcasecmp b last = false := by
        rw [Bool.eq_false_iff]
        intro h
        rw [abbreviates_of_strcasecmp h] at hlast
        cases hlast
      simp only [hnot, Bool.false_eq_true, if_false]
      rw [placeBefore_eq hnew hd]
      cases hex : existing (l₁ ++ l₂) b with
      | none =>
        refine ⟨l₁, l₂, rfl, ?_, afterClear_iff hafter hl⟩
        simp
      | some ss =>
        by_cases hown : existing l₁ b = none ∧ strcasecmp srv.name b = true
        · rw [if_pos hown]
          refine ⟨l₁, l₂, rfl, rfl, ?_⟩
          simp only [map_some, hown.2, forall_const]
          exact own_place_iff hd hl hex hown.1
        · rw [if_neg hown]
          obtain ⟨m₁, m₂, hm, -, htake⟩ := existing_split hex
          refine ⟨_, _, takeWhile_append_dropWhile.symm, rfl, ?_⟩
          have hdrop : (l₁ ++ l₂).dropWhile (fun x => !strcasecmp x.name b) = ss :: m₂ := by
            grind [takeWhile_append_dropWhile, append_cancel_left]
          rw [hdrop]
          simp only [map_some, head?_cons, true_iff]
          intro hname
          have hsome : existing l₁ b ≠ none := fun h => hown ⟨h, hname⟩
          rw [← hl]
          cases hpos : l₁.getLast? with
          | none =>
            rw [getLast?_eq_none_iff.mp hpos] at hsome
            exact absurd rfl hsome
          | some a => exact fun hmem => absurd hmem (other_place hd hpos hsome)

end Results

section Runs

variable {ε : Type} {s t : Services ε} {chain cur : List (Service ε)} {srv : Service ε}

def Inserted (chain : List (Service ε)) (srv : Service ε) (cur : List (Service ε)) : Prop :=
  ∃ l₁ l₂, chain = l₁ ++ l₂ ∧ cur = l₁ ++ srv :: l₂

theorem Inserted.extract (h : Inserted chain srv cur) (hnew : srv.node ∉ chain.map Service.node) :
    Chain.extract Service.node cur srv.node = chain := by
  obtain ⟨l₁, l₂, rfl, rfl⟩ := h
  exact Chain.extract_split hnew

theorem Inserted.distinct (h : Inserted chain srv cur) (hnew : srv.node ∉ chain.map Service.node)
    (hd : Chain.Distinct Service.node chain) : Chain.Distinct Service.node cur := by
  obtain ⟨l₁, l₂, rfl, rfl⟩ := h
  grind [Chain.Distinct]

theorem Inserted.mem (h : Inserted chain srv cur) {x : Service ε} (hx : x ∈ cur) : x = srv ∨ x ∈ chain := by
  obtain ⟨l₁, l₂, rfl, rfl⟩ := h
  grind

theorem inserted_insert (hd : Chain.Distinct Service.node chain) {ss : Service ε} (hss : ss ∈ chain) :
    Inserted chain srv (Chain.insert Service.node chain ss.node srv) := by
  obtain ⟨m₁, m₂, rfl⟩ := append_of_mem hss
  rw [Chain.insert_split hd.split.1]
  exact ⟨m₁ ++ [ss], m₂, by simp, by simp⟩

theorem Inserted.placeAfter (h : Inserted chain srv cur) (hnew : srv.node ∉ chain.map Service.node)
    (hd : Chain.Distinct Service.node chain) (cs : List Char) (l : Nat) :
    Inserted chain srv (placeAfter cur srv cs l) := by
  unfold RcConf.placeAfter
  split
  · exact h
  · rename_i ss hss
    obtain ⟨hne, -⟩ := find?_eq_some_iff_append.mp hss
    have hmem := (h.mem (mem_of_find?_eq_some hss)).resolve_left (by
      rintro rfl
      simp at hne)
    rw [h.extract hnew]
    exact inserted_insert hd hmem

theorem Inserted.placeBefore (h : Inserted chain srv cur) (hnew : srv.node ∉ chain.map Service.node)
    (hd : Chain.Distinct Service.node chain) (cs : List Char) (l : Nat) :
    Inserted chain srv (placeBefore cur srv cs l) := by
  unfold RcConf.placeBefore
  split
  · exact h
  · rename_i ss hss
    simp only [h.extract hnew]
    split
    · exact ⟨[], chain, rfl, rfl⟩
    · rename_i sp hsp
      have hcur := mem_of_find?_eq_some hss
      by_cases hself : ss.node = srv.node
      · rw [if_pos hself] at hsp
        obtain ⟨y, hy, rfl, hne⟩ := Chain.mem_of_previous (h.distinct hnew hd) hcur hsp
        refine inserted_insert hd ((h.mem hy).resolve_left ?_)
        rintro rfl
        exact hne hself.symm
      · rw [if_neg hself] at hsp
        have hmem := (h.mem hcur).resolve_left (fun heq => hself (heq ▸ rfl))
        obtain ⟨y, hy, rfl, -⟩ := Chain.mem_of_previous hd hmem hsp
        exact inserted_insert hd hy

theorem itemLoop_inserted {stop : List Char} {place : List (Service ε) → List Char → Nat → List (Service ε)}
    (hplace : ∀ cur cs l, Inserted chain srv cur → Inserted chain srv (place cur cs l)) :
    ∀ (cc : List Char) (cur t : List (Service ε)), Inserted chain srv cur →
      itemLoop stop place cc cur = some t → Inserted chain srv t := by
  intro cc
  induction hn : cc.length using Nat.strong_induction_on generalizing cc with
  | _ n ih =>
    intro cur t hcur h
    rw [itemLoop] at h
    split at h
    · cases h
      exact hcur
    · split at h
      · cases h
      · rename_i hstop
        have hlt := item_shorter (Bool.eq_false_iff.mpr hstop)
        exact ih _ (hn ▸ hlt) _ rfl _ _ (hplace _ _ _ hcur) h

structure Addressed (s : Services ε) : Prop where
  distinct : Chain.Distinct Service.node s.chain
  taken : ∀ x ∈ s.chain, x.node < s.next

theorem Addressed.new (h : Addressed s) : s.next ∉ s.chain.map Service.node := by
  intro hmem
  obtain ⟨x, hx, hnode⟩ := mem_map.mp hmem
  have := h.taken x hx
  omega

theorem Addressed.insert (h : Addressed s) (hins : Inserted s.chain srv cur) (hsrv : srv.node = s.next) :
    Addressed ⟨cur, s.next + 1⟩ := by
  refine ⟨hins.distinct (hsrv ▸ h.new) h.distinct, ?_⟩
  intro x hx
  rcases hins.mem hx with rfl | hx
  · rw [hsrv]
    exact Nat.lt_succ_self _
  · exact Nat.lt_succ_of_lt (h.taken x hx)

/-- **`rtems_bsd_rc_conf_service_add`** with any control string: one service is inserted, or the chain is
    not changed. -/
theorem Addressed.serviceAdd (h : Addressed s) (name : List Char) (control : Option (List Char))
    (entry : ε) (mem : Memory) :
    match serviceAdd s name control entry mem with
    | .crash => True
    | .error t _ => t.chain = s.chain ∧ s.next ≤ t.next
    | .ok t => ∃ srv cur, srv.node = s.next ∧ Inserted s.chain srv cur ∧ t = ⟨cur, s.next + 1⟩ := by
  unfold RcConf.serviceAdd
  by_cases hservice : mem.service = false
  · rw [if_pos hservice]
    exact ⟨rfl, Nat.le_refl _⟩
  rw [if_neg hservice]
  by_cases hstrdup : mem.name = false ∨ control.isSome ∧ mem.control = false
  · rw [if_pos hstrdup]
    exact ⟨rfl, Nat.le_refl _⟩
  rw [if_neg hstrdup]
  cases control with
  | none => exact ⟨_, _, rfl, ⟨s.chain, [], by simp, rfl⟩, rfl⟩
  | some ctl =>
    simp only
    cases parseControl ctl (some []) ⟨none, none, none⟩ with
    | crash => trivial
    | einval => exact ⟨rfl, Nat.le_succ _⟩
    | lists lists =>
      simp only
      obtain ⟨srv, hsrv⟩ : ∃ srv : Service ε, srv = ⟨s.next, name, lists, entry⟩ := ⟨_, rfl⟩
      have hnode : srv.node = s.next := by rw [hsrv]
      have hnew : srv.node ∉ s.chain.map Service.node := hnode ▸ h.new
      rw [← hsrv]
      cases hafter : afterLoop srv (lists.after.getD []) (srv :: s.chain) with
      | none => exact ⟨rfl, Nat.le_succ _⟩
      | some cur =>
        have hcur : Inserted s.chain srv cur := by
          refine itemLoop_inserted ?_ _ _ _ ⟨[], s.chain, rfl, rfl⟩ hafter
          intro cur cs l hcur
          split
          · exact hcur
          · exact hcur.placeAfter hnew h.distinct cs l
        simp only
        cases hbefore : beforeLoop srv (lists.before.getD []) cur with
        | none => exact ⟨rfl, Nat.le_succ _⟩
        | some cur' =>
          refine ⟨srv, cur', hnode, ?_, rfl⟩
          refine itemLoop_inserted ?_ _ _ _ hcur hbefore
          intro cur cs l hcur
          split
          · rw [hcur.extract hnew]
            exact ⟨s.chain, [], by simp, rfl⟩
          · exact hcur.placeBefore hnew h.distinct cs l

theorem Addressed.step (h : Addressed s) {a : Act ε} (hstep : serviceStep s a = some t) : Addressed t := by
  cases a with
  | remove name =>
    simp only [serviceStep, serviceRemove] at hstep
    cases hfind : s.chain.find? fun srv => strcasecmp name srv.name with
    | none =>
      rw [hfind] at hstep
      cases hstep
      exact h
    | some srv =>
      rw [hfind] at hstep
      cases hstep
      refine ⟨?_, ?_⟩
      · exact h.distinct.sublist (filter_sublist.map _)
      · intro x hx
        exact h.taken x (mem_filter.mp hx).1
  | add name control entry mem =>
    have hspec := h.serviceAdd name control entry mem
    simp only [serviceStep] at hstep
    cases hres : RcConf.serviceAdd s name control entry mem with
    | crash =>
      rw [hres] at hstep
      cases hstep
    | error t' e =>
      rw [hres] at hspec hstep
      cases hstep
      refine ⟨hspec.1 ▸ h.distinct, ?_⟩
      intro x hx
      exact lt_of_lt_of_le (h.taken x (hspec.1 ▸ hx)) hspec.2
    | ok t' =>
      rw [hres] at hspec hstep
      cases hstep
      obtain ⟨srv, cur, hsrv, hins, rfl⟩ := hspec
      exact h.insert hins hsrv

theorem addressed_noServices : Addressed (noServices : Services ε) :=
  ⟨nodup_nil, fun _ hx => nomatch hx⟩

theorem place_unique {k₁ k₂ : List (Service ε)} {after before : List (List Char)} (hchain : chain = k₁ ++ k₂)
    (hnew : srv.node ∉ chain.map Service.node) :
    (∃ srv' l₁ l₂, srv'.name = srv.name ∧ srv'.entry = srv.entry ∧
      srv'.node ∉ chain.map Service.node ∧ chain = l₁ ++ l₂ ∧ k₁ ++ srv :: k₂ = l₁ ++ srv' :: l₂ ∧
      Placed chain after before l₁ l₂) ↔ Placed chain after before k₁ k₂ := by
  constructor
  · rintro ⟨srv', l₁, l₂, -, -, hnew', hl, heq, hplaced⟩
    obtain ⟨rfl, -, rfl⟩ := @Chain.split_unique _ _ _ Service.node _ _ _ _ _ _ (hchain.symm.trans hl)
      (hchain ▸ hnew) (hchain ▸ hnew') heq
    exact hplaced
  · intro hplaced
    exact ⟨srv, k₁, k₂, rfl, rfl, hnew, hchain, rfl, hplaced⟩

theorem Addressed.keepsOrder (h : Addressed s) (name : List Char) {groups : List Group}
    (hw : WellFormed groups) (entry : ε) (mem : Memory) :
    KeepsOrder s name (some groups) entry mem ↔ Rejected groups mem ∨
      PlaceClear s.chain name (itemsOf groups .after) (itemsOf groups .before) := by
  have hitems : ∀ key, ∀ item ∈ itemsOf groups key, item ≠ [] ∧ ',' ∉ item := by
    intro key item hitem
    unfold itemsOf at hitem
    cases hfind : groups.find? (·.key = key) with
    | none =>
      rw [hfind] at hitem
      cases hitem
    | some g =>
      grind [WellFormed]
  unfold KeepsOrder RcConf.serviceAdd
  by_cases hmem : mem.service = true ∧ mem.name = true ∧ mem.control = true
  swap
  · refine iff_of_true ?_ (.inl (.inl hmem))
    grind
  rw [if_neg (by simp [hmem.1]), if_neg (by simp [hmem.2])]
  simp only [map_some]
  by_cases hnil : groups = []
  · refine iff_of_true ?_ (.inl (.inr (.inl hnil)))
    subst hnil
    rfl
  rw [parseControl_render hw rfl (.inr hnil)]
  have hnodup := setGroups_isSome ⟨none, none, none⟩ groups
  have hget : ∀ g ∈ groups, (⟨none, none, none⟩ : Lists).get g.key = none := by
    intro g _
    cases g.key <;> rfl
  cases hset : setGroups ⟨none, none, none⟩ groups with
  | none =>
    refine iff_of_true rfl (.inl (.inr (.inr (.inl ?_))))
    intro hnd
    have := hnodup.mpr ⟨hnd, hget⟩
    rw [hset] at this
    cases this
  | some lists =>
    have hnd := (hnodup.mp (by rw [hset]; rfl)).1
    have hA : lists.after.getD [] = join (itemsOf groups .after) := setGroups_items hset .after
    have hB : lists.before.getD [] = join (itemsOf groups .before) := setGroups_items hset .before
    obtain ⟨srv, hsrv⟩ : ∃ srv : Service ε, srv = ⟨s.next, name, lists, entry⟩ := ⟨_, rfl⟩
    have hnew : srv.node ∉ s.chain.map Service.node := by
      rw [hsrv]
      exact h.new
    simp only [← hsrv, hA, hB]
    by_cases hafter : 1 < (itemsOf groups .after).length ∨ ∃ a ∈ itemsOf groups .after, abbreviates a last
    · have hfail : afterLoop srv (join (itemsOf groups .after)) (srv :: s.chain) = none := by
        unfold afterLoop
        rw [itemLoop_spec (hitems .after), if_pos hafter]
      rw [hfail]
      refine iff_of_true rfl (.inl (.inr (.inr (.inr ?_))))
      grind
    obtain ⟨l₁, l₂, hchain, hpos, hplace⟩ := afterLoop_place (hitems .after) hafter hnew h.distinct
    rw [hplace]
    simp only
    by_cases hbefore : 1 < (itemsOf groups .before).length ∨
        ∃ b ∈ itemsOf groups .before, abbreviates b first
    · have hfail : beforeLoop srv (join (itemsOf groups .before)) (l₁ ++ srv :: l₂) = none := by
        unfold beforeLoop
        rw [itemLoop_spec (hitems .before), if_pos hbefore]
      rw [hfail]
      refine iff_of_true rfl (.inl (.inr (.inr (.inr (.inr ?_)))))
      rcases hbefore with hlen | hfirst
      · exact .inl hlen
      · exact .inr (.inr hfirst)
    obtain ⟨k₁, k₂, hsplit, hres, hiff⟩ :=
      beforeLoop_place (hitems .before) hafter hbefore (hchain ▸ hnew) (hchain ▸ h.distinct) (hchain ▸ hpos)
    rw [← hchain] at hiff hsplit
    rw [hres]
    have hname : srv.name = name := by rw [hsrv]
    have hentry : srv.entry = entry := by rw [hsrv]
    rw [← hname, ← hentry]
    refine (place_unique hsplit hnew).trans (hiff.trans ?_)
    have haccepted : ¬ Rejected groups mem := by
      rintro (hm | hn | hk | ha | hb | ha | hb)
      · exact hm hmem
      · exact hnil hn
      · exact hk hnd
      · exact hafter (.inl ha)
      · exact hbefore (.inl hb)
      · exact hafter (.inr ha)
      · exact hbefore (.inr hb)
    rw [or_iff_right haccepted]

end Runs

/-- **The order of the services**: in every state that is reached, an
    `rtems_bsd_rc_conf_service_add` keeps the order and places the new service as its control string says,
    or fails without effect, exactly if its items are not misunderstood. -/
theorem keepsOrder_iff {ε : Type} (acts : List (Act ε)) (s : Services ε)
    (hrun : run serviceStep noServices acts = some s) (name : List Char)
    (control : Option (List Group)) (hw : ∀ groups ∈ control, WellFormed groups) (entry : ε)
    (mem : Memory) : KeepsOrder s name control entry mem ↔ Clear s name control mem := by
  have h : Addressed s :=
    run_invariant (fun _ _ _ h hst => h.step hst) acts _ s addressed_noServices hrun
  cases control with
  | none =>
    refine ⟨fun _ groups hg => (by cases hg), fun _ => ?_⟩
    unfold KeepsOrder serviceAdd
    by_cases hservice : mem.service = false
    · rw [if_pos hservice]
    rw [if_neg hservice]
    by_cases hstrdup : mem.name = false
    · rw [if_pos (.inl hstrdup)]
    rw [if_neg (by simp [hstrdup])]
    refine ⟨_, s.chain, [], rfl, rfl, h.new, (append_nil _).symm, rfl, ?_⟩
    rintro ss ⟨⟩
  | some groups =>
    rw [h.keepsOrder name (hw groups rfl) entry mem]
    simp [Clear]

/-- The services `x`, `la` and `y`. -/
def threeAdds : List (Act Nat) :=
  [.add ['x'] none 0 ⟨true, true, true⟩, .add ['l', 'a'] none 0 ⟨true, true, true⟩,
   .add ['y'] none 0 ⟨true, true, true⟩]

theorem keepsOrder_iff_threeAdds :
    ∃ s, run serviceStep noServices threeAdds = some s ∧
      KeepsOrder s ['n'] (some [⟨.after, [['x']]⟩, ⟨.before, [['y']]⟩]) 1 ⟨true, true, true⟩ := by
  refine ⟨_, rfl, (keepsOrder_iff threeAdds _ rfl _ _ ?_ _ _).mpr ?_⟩
  · rintro _ ⟨⟩
    unfold WellFormed
    decide
  · rintro _ ⟨⟩
    right
    show strcasecmp ['n'] ['y'] → _
    intro h
    cases h

/-- **Two services that are misplaced**: with the control string `before:la;` a service is placed at
    the end, since `la` is taken for `last`, and with `before:y;` a new service `y` stays first, since
    the search for `y` finds it and not the existing one. -/
theorem threeAdds_misplaces :
    ∃ s, run serviceStep noServices threeAdds = some s ∧
      ¬ KeepsOrder s ['n'] (some [⟨.before, [['l', 'a']]⟩]) 1 ⟨true, true, true⟩ ∧
      ¬ KeepsOrder s ['y'] (some [⟨.before, [['y']]⟩]) 1 ⟨true, true, true⟩ := by
  have hw : ∀ item : List Char, item ≠ [] ∧ ',' ∉ item ∧ ';' ∉ item → WellFormed [⟨.before, [item]⟩] := by
    intro item hitem g hg i hi
    rw [mem_singleton] at hg
    subst hg
    rw [mem_singleton] at hi
    exact hi ▸ hitem
  obtain ⟨s, hs⟩ : ∃ s, run serviceStep noServices threeAdds = some s := ⟨_, rfl⟩
  have h : Addressed s :=
    run_invariant (fun _ _ _ h hst => h.step hst) threeAdds _ s addressed_noServices hs
  refine ⟨s, hs, ?_, ?_⟩
  · rw [h.keepsOrder _ (hw _ (by decide))]
    cases hs
    rintro (hrejected | hclear)
    · unfold Rejected at hrejected
      revert hrejected
      decide
    · rcases hclear with hlast | ⟨hnone, -⟩
      · cases hlast
      · cases hnone
  · rw [h.keepsOrder _ (hw _ (by decide))]
    cases hs
    rintro (hrejected | hclear)
    · unfold Rejected at hrejected
      revert hrejected
      decide
    · cases hclear rfl

end RtemsLibbsd.RcConf

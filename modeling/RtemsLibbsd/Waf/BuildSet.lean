import Mathlib.Algebra.Group.Nat.Defs
import Mathlib.Data.Fintype.Card
import Mathlib.Data.List.AList
import Mathlib.Logic.Relation
import Mathlib.Order.WellFounded
import RtemsLibbsd.Waf.SourceList

/-!
# The files of a build set

Model of `ModuleManager._loadIni` of `builder.py`: the settings of a build configuration file, and of the files it
`extends`.

* `Ini` — a `configparser.ConfigParser`, with its default section and with the interpolation of its values.
* `header` — what is done with a file before the file it extends is read.
* `loadIni` — the recursion over the files; it has nothing that bounds it, so it takes fuel here.
* `copySections` — the settings of the file over those of the file it extends.

What is loaded has each setting from the first of the files that has it (`loadIni_inherits`).  The recursion ends
unless a file extends itself, directly or through others, and then it never does.  The values of a file that extends
another are stored as they are interpolated, and a `%%` that became a `%` is refused: **`resolves_iff`**.
-/

namespace RtemsLibbsd.Waf

open List

universe u

abbrev Options := AList fun _ : Text => Text

inductive IniError where
  | parsing
  | noSection (s : Text)
  | noOption (s o : Text)
  | interpolationDepth
  | interpolationSyntax
  | interpolationMissingOption (o : Text)
  /-- `invalid interpolation syntax in %r at position %d` -/
  | invalidValue (v : Text)

/-- What a value consists of: characters, `%%`, `%(name)s`. -/
inductive Token where
  | char (c : Char)
  | percent
  | reference (name : Text)
  /-- `%` and something else -/
  | bad

/-- `([^)]+)\)s` at the start of a text, and what follows it. -/
def keycre (rest : Text) : Option (Text × Text) :=
  let name := rest.takeWhile (· ≠ ')')
  match rest.drop name.length with
  | c :: d :: rest => if c = ')' ∧ d = 's' ∧ name ≠ [] then some (name, rest) else none
  | _ => none

/-- The tokens of a text, which is no longer than the first argument. -/
def tokensAux : Nat → Text → List Token
  | 0, _ => []
  | _ + 1, [] => []
  | n + 1, c :: rest =>
    if c ≠ '%' then .char c :: tokensAux n rest
    else
      match rest with
      | [] => [.bad]
      | d :: rest =>
        if d = '%' then .percent :: tokensAux n rest
        else if d = '(' then
          match keycre rest with
          | some (name, rest) => .reference name :: tokensAux n rest
          | none => [.bad]
        else [.bad]

def tokens (s : Text) : List Token := tokensAux s.length s

/-- `replace('%%', '')` -/
def removePercents : Text → Text
  | [] => []
  | [c] => [c]
  | c :: d :: rest => if c = '%' ∧ d = '%' then removePercents rest else c :: removePercents (d :: rest)

/-- `_KEYCRE.sub('', …)` of a text, which is no longer than the first argument. -/
def removeReferences : Nat → Text → Text
  | 0, _ => []
  | _ + 1, [] => []
  | _ + 1, [c] => [c]
  | n + 1, c :: d :: rest =>
    if c = '%' ∧ d = '(' then
      match keycre rest with
      | some (_, rest) => removeReferences n rest
      | none => c :: removeReferences n (d :: rest)
    else c :: removeReferences n (d :: rest)

/-- `before_set`: no `%` is left in the value. -/
def validValue (v : Text) : Bool :=
  let tmp := removePercents v
  !(removeReferences tmp.length tmp).contains '%'

/-- A parser that has read a file.  The names of options are those that `optionxform` gives. -/
structure Ini where
  defaults : Options
  sections : AList fun _ : Text => Options

namespace Ini

variable (ini : Ini)

def hasSection (s : Text) : Bool := (ini.sections.lookup s).isSome

/-- The text of an option in a section, or in the default section. -/
def look (s o : Text) : Option Text := ((ini.sections.lookup s).bind (·.lookup o)).or (ini.defaults.lookup o)

def raw (s o : Text) : Option Text := if ini.hasSection s then ini.look s o else none

def hasOption (s o : Text) : Bool := (ini.raw s o).isSome

/-- `options(section)`: those of the section, and then those of the default section. -/
def options (s : Text) : List Text :=
  match ini.sections.lookup s with
  | none => []
  | some os => os.keys ++ ini.defaults.keys.filter fun o => (os.lookup o).isNone

section

variable (optionxform : Text → Text)

/-- `_interpolate_some`.  The first argument is how much deeper it may go. -/
def interpolateSome (s : Text) : Nat → Text → Except IniError Text
  | 0, _ => .error .interpolationDepth
  | depth + 1, value => (tokens value).foldlM (fun accum t =>
      match t with
      | .char c => .ok (accum ++ [c])
      | .percent => .ok (accum ++ ['%'])
      | .bad => .error .interpolationSyntax
      | .reference name =>
        match ini.raw s (optionxform name) with
        | none => .error (.interpolationMissingOption name)
        | some v => if v.contains '%' then do .ok (accum ++ (← interpolateSome s depth v)) else .ok (accum ++ v)) []

def maxInterpolationDepth : Nat := 10

def get (s o : Text) : Except IniError Text :=
  if !ini.hasSection s then .error (.noSection s)
  else
    match ini.look s o with
    | none => .error (.noOption s o)
    | some v => ini.interpolateSome optionxform s maxInterpolationDepth v

end

/-- `add_section` of a section that is not there. -/
def addSection (s : Text) : Ini := { ini with sections := ini.sections.insert s ∅ }

def set (s o v : Text) : Except IniError Ini :=
  if v ≠ [] ∧ !validValue v then .error (.invalidValue v)
  else
    match ini.sections.lookup s with
    | none => .error (.noSection s)
    | some os => .ok { ini with sections := ini.sections.insert s (os.insert o v) }

theorem look_addSection {s : Text} (hs : ini.hasSection s = false) (t o : Text) :
    (ini.addSection s).look t o = ini.look t o := by
  unfold look addSection
  by_cases ht : t = s
  · subst ht
    have hnone : ini.sections.lookup t = none := by simpa [hasSection] using hs
    simp [hnone]
  · rw [AList.lookup_insert_ne ht]

theorem hasSection_addSection (s t : Text) : (ini.addSection s).hasSection t = (decide (t = s) || ini.hasSection t) := by
  unfold hasSection addSection
  by_cases ht : t = s
  · subst ht; simp
  · simp [ht]

variable {ini}

theorem look_set {ini' : Ini} {s o v : Text} (h : ini.set s o v = .ok ini') (t p : Text) :
    ini'.look t p = if t = s ∧ p = o then some v else ini.look t p := by
  unfold set at h
  split at h
  · cases h
  cases hs : ini.sections.lookup s with
  | none => rw [hs] at h; cases h
  | some os =>
    rw [hs] at h
    cases h
    unfold look
    by_cases ht : t = s
    · subst ht
      by_cases hp : p = o
      · subst hp; simp
      · simp [hs, hp]
    · rw [AList.lookup_insert_ne ht, if_neg fun hc => ht hc.1]

theorem hasSection_set {ini' : Ini} {s o v : Text} (h : ini.set s o v = .ok ini') (t : Text) :
    ini'.hasSection t = ini.hasSection t := by
  unfold set at h
  split at h
  · cases h
  cases hs : ini.sections.lookup s with
  | none => rw [hs] at h; cases h
  | some os =>
    rw [hs] at h
    cases h
    unfold hasSection
    by_cases ht : t = s
    · subst ht; simp [hs]
    · rw [AList.lookup_insert_ne ht]

theorem mem_options_iff {s o : Text} : o ∈ ini.options s ↔ ini.hasOption s o = true := by
  unfold options hasOption raw hasSection look
  cases hs : ini.sections.lookup s with
  | none => simp
  | some os =>
    have hkeys : ∀ (a : Options), o ∈ a.keys ↔ (a.lookup o).isSome = true := fun a => AList.lookup_isSome.symm
    rw [mem_append, mem_filter, hkeys, hkeys]
    cases hl : os.lookup o <;> simp [hl]

theorem mem_sections_iff {s : Text} : s ∈ ini.sections.keys ↔ ini.hasSection s = true := AList.lookup_isSome.symm

theorem mem_sections_of_hasOption {s o : Text} (h : ini.hasOption s o = true) : s ∈ ini.sections.keys := by
  rw [mem_sections_iff]
  unfold hasOption raw at h
  by_contra hs
  rw [if_neg hs] at h
  cases h

end Ini

def general : Text := "general".toList

/-- The errors of `_loadIni`. -/
inductive LoadError (File : Type u) where
  | parser (e : IniError)
  /-- `file not found: %s` -/
  | notFound (f : File)
  /-- `'{}' is missing a general section.` -/
  | noGeneral (f : File)
  /-- `'{}' is missing a general/name.` -/
  | noName (f : File)
  /-- `'{}': Invalid file given for general/extends:'{}'` -/
  | invalidExtends (f : File) (e : Text)

/-- The files, as the names in them lead from one to the other. -/
structure FileSystem (File : Type u) where
  exists' : File → Bool
  read : File → Except IniError Ini
  sibling : File → Text → Option File
  /-- The file of a name in `BUILDSET_DIR`. -/
  inBuildset : Text → Option File

section

variable {File : Type u} (fs : FileSystem File) (optionxform : Text → Text)

def extendfile (f : File) (e : Text) : Option File :=
  match fs.sibling f e with
  | some g => some g
  | none => fs.inBuildset e

def header (f : File) : Except (LoadError File) (Ini × Option File) :=
  if !fs.exists' f then .error (.notFound f)
  else
    match fs.read f with
    | .error e => .error (.parser e)
    | .ok ini =>
      if !ini.hasSection general then .error (.noGeneral f)
      else if !ini.hasOption general "name".toList then .error (.noName f)
      else if ini.hasOption general "extends".toList then
        match ini.get optionxform general "extends".toList with
        | .error e => .error (.parser e)
        | .ok e =>
          match extendfile fs f e with
          | some g => .ok (ini, some g)
          | none => .error (.invalidExtends f e)
      else .ok (ini, none)

def copyOption (ini : Ini) (s : Text) (base : Ini) (o : Text) : Except IniError Ini := do
  let val ← ini.get optionxform s o
  base.set s o val

def copySection (ini base : Ini) (s : Text) : Except IniError Ini :=
  let base := if !base.hasSection s then base.addSection s else base
  (ini.options s).foldlM (copyOption optionxform ini s) base

def copySections (ini base : Ini) : Except IniError Ini :=
  ini.sections.keys.foldlM (copySection optionxform ini) base

/-- `_loadIni`; `none` while it has not returned. -/
def loadIni : Nat → File → Option (Except (LoadError File) Ini)
  | 0, _ => none
  | n + 1, f =>
    match header fs optionxform f with
    | .error e => some (.error e)
    | .ok (ini, none) => some (.ok ini)
    | .ok (ini, some g) =>
      match loadIni n g with
      | none => none
      | some (.error e) => some (.error e)
      | some (.ok base) => some ((copySections optionxform ini base).mapError .parser)

/-- The setting of the first file that has it.  The last file is not extended; what it has is not interpolated. -/
def inherited : List Ini → Text → Text → Option Text
  | [], _, _ => none
  | [ini], s, o => ini.look s o
  | ini :: inis, s, o => if ini.hasOption s o then (ini.get optionxform s o).toOption else inherited inis s o

def Interpolates (ini : Ini) : Prop := ∀ s o, ini.hasOption s o = true → ∃ v, ini.get optionxform s o = .ok v

/-- No value of the file is, once interpolated, a text that a parser refuses to store. -/
def Storable (ini : Ini) : Prop := ∀ s o v, ini.hasOption s o = true → ini.get optionxform s o = .ok v →
  v ≠ [] → validValue v = true

inductive Chain : File → List Ini → Prop where
  | last {f : File} {ini : Ini} (h : header fs optionxform f = .ok (ini, none)) : Chain f [ini]
  | extend {f g : File} {ini : Ini} {inis : List Ini} (h : header fs optionxform f = .ok (ini, some g))
      (hg : Chain g inis) : Chain f (ini :: inis)

def Extends (f g : File) : Prop := ∃ ini, header fs optionxform f = .ok (ini, some g)

/-- A file that extends itself, or one of those that it leads to. -/
def ExtendsCyclic (f : File) : Prop :=
  ∃ g, Relation.ReflTransGen (Extends fs optionxform) f g ∧ Relation.TransGen (Extends fs optionxform) g g

/-- A file that extends others has a value whose interpolation is refused by the parser. -/
def Refused (f : File) : Prop :=
  ∃ inis, Chain fs optionxform f inis ∧ (∀ ini ∈ inis.dropLast, Interpolates optionxform ini) ∧
    ∃ ini ∈ inis.dropLast, ¬ Storable optionxform ini

structure Resolves (f : File) : Prop where
  ends : ∃ n r, loadIni fs optionxform n f = some r
  accepted : ∀ inis, Chain fs optionxform f inis → (∀ ini ∈ inis.dropLast, Interpolates optionxform ini) →
    ∃ n cfg, loadIni fs optionxform n f = some (.ok cfg)
  overrides : ∀ n cfg, loadIni fs optionxform n f = some (.ok cfg) → ∃ inis, Chain fs optionxform f inis ∧
    (∀ s, cfg.hasSection s = true ↔ ∃ ini ∈ inis, ini.hasSection s = true) ∧
    ∀ s o, cfg.look s o = inherited optionxform inis s o
  reported : ExtendsCyclic fs optionxform f → ∃ n e, loadIni fs optionxform n f = some (.error e)

end

section Copy

variable (optionxform : Text → Text)

variable {ini base base' : Ini}

theorem copyOption_ok {s o : Text} (h : copyOption optionxform ini s base o = .ok base') :
    ∃ v, ini.get optionxform s o = .ok v ∧ base.set s o v = .ok base' := by
  unfold copyOption at h
  cases hv : ini.get optionxform s o with
  | error e => rw [hv] at h; cases h
  | ok v => rw [hv] at h; exact ⟨v, rfl, h⟩

variable {s : Text}

theorem copyOptions_ok {os : List Text}
    (h : os.foldlM (copyOption optionxform ini s) base = .ok base') (t o : Text) :
    (base'.hasSection t = base.hasSection t) ∧
      base'.look t o = if t = s ∧ o ∈ os then (ini.get optionxform s o).toOption else base.look t o := by
  induction os generalizing base with
  | nil =>
    cases h
    simp
  | cons p os ih =>
    rw [foldlM_cons] at h
    cases hc : copyOption optionxform ini s base p with
    | error e => rw [hc] at h; cases h
    | ok base₁ =>
      rw [hc] at h
      obtain ⟨v, hv, hset⟩ := copyOption_ok optionxform hc
      obtain ⟨hsec, hlook⟩ := ih h
      refine ⟨hsec.trans (Ini.hasSection_set hset t), ?_⟩
      rw [hlook, Ini.look_set hset]
      by_cases ht : t = s
      · by_cases hmem : o ∈ os
        · rw [if_pos ⟨ht, hmem⟩, if_pos ⟨ht, mem_cons_of_mem _ hmem⟩]
        · by_cases hp : o = p
          · subst hp
            rw [if_neg fun hc => hmem hc.2, if_pos ⟨ht, rfl⟩, if_pos ⟨ht, mem_cons_self⟩, hv]
            rfl
          · grind
      · rw [if_neg fun hc => ht hc.1, if_neg fun hc => ht hc.1, if_neg fun hc => ht hc.1]

theorem copySection_ok (h : copySection optionxform ini base s = .ok base') (t o : Text) :
    base'.hasSection t = (decide (t = s) || base.hasSection t) ∧ base'.look t o =
        if t = s ∧ ini.hasOption s o = true then (ini.get optionxform s o).toOption else base.look t o := by
  obtain ⟨hsec, hlook⟩ := copyOptions_ok optionxform h t o
  simp only [Ini.mem_options_iff] at hlook
  cases hs : base.hasSection s with
  | true =>
    grind
  | false =>
    simp only [hs, Bool.not_false, if_true] at hsec hlook
    rw [Ini.hasSection_addSection] at hsec
    rw [Ini.look_addSection base hs] at hlook
    exact ⟨hsec, hlook⟩

theorem copySections_ok (h : copySections optionxform ini base = .ok base') (t o : Text) :
    (base'.hasSection t = true ↔ ini.hasSection t = true ∨ base.hasSection t = true) ∧
      base'.look t o =
        if ini.hasOption t o = true then (ini.get optionxform t o).toOption else base.look t o := by
  -- the induction is on the sections that are still to copy
  have key : ∀ (ss : List Text) (base base' : Ini), ss.foldlM (copySection optionxform ini) base = .ok base' →
      (base'.hasSection t = true ↔ t ∈ ss ∨ base.hasSection t = true) ∧
        base'.look t o =
          if t ∈ ss ∧ ini.hasOption t o = true then (ini.get optionxform t o).toOption else base.look t o := by
    intro ss
    induction ss with
    | nil =>
      intro base base' h
      cases h
      simp
    | cons s ss ih =>
      intro base base' h
      rw [foldlM_cons] at h
      cases hc : copySection optionxform ini base s with
      | error e => rw [hc] at h; cases h
      | ok base₁ =>
        rw [hc] at h
        obtain ⟨hsec₁, hlook₁⟩ := copySection_ok optionxform hc t o
        obtain ⟨hsec, hlook⟩ := ih base₁ base' h
        grind
  obtain ⟨hsec, hlook⟩ := key _ base base' h
  rw [Ini.mem_sections_iff] at hsec
  refine ⟨hsec, ?_⟩
  rw [hlook]
  by_cases ho : ini.hasOption t o = true
  · rw [if_pos ⟨Ini.mem_sections_of_hasOption ho, ho⟩, if_pos ho]
  · rw [if_neg fun hc => ho hc.2, if_neg ho]

theorem set_eq_ok_iff (hs : base.hasSection s = true) (o v : Text) :
    (∃ base', base.set s o v = .ok base') ↔ (v ≠ [] → validValue v = true) := by
  obtain ⟨os, hos⟩ := Option.isSome_iff_exists.mp hs
  unfold Ini.set
  rw [hos]
  by_cases hv : v ≠ [] ∧ (!validValue v) = true
  · grind
  · rw [if_neg hv]
    refine ⟨fun _ hne => ?_, fun _ => ⟨_, rfl⟩⟩
    simpa [hne] using hv

def Copied (ini : Ini) (s o : Text) : Prop := ∃ v, ini.get optionxform s o = .ok v ∧ (v ≠ [] → validValue v = true)

theorem copyOption_eq_ok_iff (hs : base.hasSection s = true) (o : Text) :
    (∃ base', copyOption optionxform ini s base o = .ok base') ↔ Copied optionxform ini s o := by
  constructor
  · rintro ⟨base', h⟩
    obtain ⟨v, hv, hset⟩ := copyOption_ok optionxform h
    exact ⟨v, hv, (set_eq_ok_iff hs o v).mp ⟨base', hset⟩⟩
  · rintro ⟨v, hv, hvalid⟩
    obtain ⟨base', hset⟩ := (set_eq_ok_iff hs o v).mpr hvalid
    refine ⟨base', ?_⟩
    unfold copyOption
    rw [hv]
    exact hset

theorem copyOptions_eq_ok_iff {os : List Text} : ∀ {base : Ini}, base.hasSection s = true →
    ((∃ base', os.foldlM (copyOption optionxform ini s) base = .ok base') ↔ ∀ o ∈ os, Copied optionxform ini s o) := by
  induction os with
  | nil =>
    intro base _
    exact ⟨fun _ o ho => absurd ho not_mem_nil, fun _ => ⟨base, rfl⟩⟩
  | cons p os ih =>
    intro base hs
    rw [forall_mem_cons, foldlM_cons, ← copyOption_eq_ok_iff optionxform hs p]
    cases hc : copyOption optionxform ini s base p with
    | error e =>
      constructor
      · rintro ⟨_, h⟩
        cases h
      · rintro ⟨⟨_, h⟩, _⟩
        cases h
    | ok base₁ =>
      obtain ⟨v, _, hset⟩ := copyOption_ok optionxform hc
      have hs₁ : base₁.hasSection s = true := (Ini.hasSection_set hset s).trans hs
      exact (ih hs₁).trans ⟨fun h => ⟨⟨base₁, rfl⟩, h⟩, fun h => h.2⟩

theorem copySection_eq_ok_iff :
    (∃ base', copySection optionxform ini base s = .ok base') ↔
      ∀ o, ini.hasOption s o = true → Copied optionxform ini s o := by
  simp only [← Ini.mem_options_iff]
  apply copyOptions_eq_ok_iff
  cases hs : base.hasSection s with
  | true => simpa using hs
  | false => simp [Ini.hasSection_addSection]

theorem copySections_eq_ok_iff :
    (∃ base', copySections optionxform ini base = .ok base') ↔
      ∀ s o, ini.hasOption s o = true → Copied optionxform ini s o := by
  have key : ∀ (ss : List Text) (base : Ini), (∃ base', ss.foldlM (copySection optionxform ini) base = .ok base') ↔
      ∀ s ∈ ss, ∀ o, ini.hasOption s o = true → Copied optionxform ini s o := by
    intro ss
    induction ss with
    | nil =>
      intro base
      exact ⟨fun _ s hs => absurd hs not_mem_nil, fun _ => ⟨base, rfl⟩⟩
    | cons s ss ih =>
      intro base
      rw [forall_mem_cons, foldlM_cons, ← copySection_eq_ok_iff optionxform]
      cases hc : copySection optionxform ini base s with
      | error e =>
        constructor
        · rintro ⟨_, h⟩
          cases h
        · rintro ⟨⟨_, h⟩, _⟩
          cases h
      | ok base₁ => exact (ih base₁).trans ⟨fun h => ⟨⟨base₁, rfl⟩, h⟩, fun h => h.2⟩
  rw [copySections, key]
  exact ⟨fun h s o ho => h s (Ini.mem_sections_of_hasOption ho) o ho, fun h s _ o ho => h s o ho⟩

end Copy

section Plain

theorem tokensAux_char {c : Char} (hc : c ≠ '%') (n : Nat) (s : Text) :
    tokensAux (n + 1) (c :: s) = .char c :: tokensAux n s :=
  if_pos hc

theorem tokensAux_plain {n : Nat} : ∀ {s : Text}, '%' ∉ s → s.length ≤ n → tokensAux n s = s.map .char := by
  induction n with
  | zero =>
    intro s _ hn
    rw [length_eq_zero_iff.mp (Nat.le_zero.mp hn)]
    rfl
  | succ n ih =>
    intro s hs hn
    cases s with
    | nil => rfl
    | cons c s =>
      rw [mem_cons, not_or] at hs
      rw [tokensAux_char (Ne.symm hs.1), ih hs.2 (Nat.le_of_succ_le_succ hn)]
      rfl

theorem interpolateSome_plain {ini : Ini} {optionxform : Text → Text} {s v : Text} (hv : '%' ∉ v) (depth : Nat) :
    ini.interpolateSome optionxform s (depth + 1) v = .ok v := by
  have key : ∀ (u accum : Text) (f : Text → Token → Except IniError Text),
      (∀ a c, f a (.char c) = .ok (a ++ [c])) → (u.map .char).foldlM f accum = .ok (accum ++ u) := by
    intro u
    induction u with
    | nil => exact fun accum f _ => by rw [append_nil]; rfl
    | cons c u ih =>
      intro accum f hf
      rw [map_cons, foldlM_cons, hf]
      exact (ih _ f hf).trans (by rw [append_assoc]; rfl)
  unfold Ini.interpolateSome tokens
  rw [tokensAux_plain hv (Nat.le_refl _)]
  exact key v [] _ fun _ _ => rfl

theorem mem_removePercents {c : Char} : ∀ {s : Text}, c ∈ removePercents s → c ∈ s
  | [], h => h
  | [_], h => h
  | _ :: _ :: rest, h => by
    rw [removePercents] at h
    split at h
    · exact mem_cons_of_mem _ (mem_cons_of_mem _ (mem_removePercents h))
    · rcases mem_cons.mp h with rfl | h
      · exact mem_cons_self
      · exact mem_cons_of_mem _ (mem_removePercents h)

theorem removeReferences_plain {n : Nat} : ∀ {s : Text}, '%' ∉ s → '%' ∉ removeReferences n s := by
  induction n with
  | zero => exact fun _ => not_mem_nil
  | succ n ih =>
    intro s hs
    match s with
    | [] => exact not_mem_nil
    | [c] => exact hs
    | c :: d :: rest =>
      rw [mem_cons, not_or] at hs
      rw [removeReferences, if_neg fun hc => hs.1 hc.1.symm, mem_cons, not_or]
      exact ⟨hs.1, ih hs.2⟩

theorem validValue_plain {v : Text} (hv : '%' ∉ v) : validValue v = true := by
  have h : '%' ∉ removeReferences (removePercents v).length (removePercents v) :=
    removeReferences_plain fun hm => hv (mem_removePercents hm)
  simpa [validValue] using h

theorem storable_of_plain {ini : Ini} (optionxform : Text → Text)
    (h : ∀ s o v, ini.look s o = some v → '%' ∉ v) : Storable optionxform ini := by
  intro s o v ho hv _
  have hs : ini.hasSection s = true := Ini.mem_sections_iff.mp (Ini.mem_sections_of_hasOption ho)
  unfold Ini.get at hv
  rw [hs] at hv
  cases hlook : ini.look s o with
  | none => rw [hlook] at hv; cases hv
  | some w =>
    rw [hlook] at hv
    change ini.interpolateSome optionxform s (9 + 1) w = .ok v at hv
    rw [interpolateSome_plain (h s o w hlook)] at hv
    cases hv
    exact validValue_plain (h s o _ hlook)

end Plain

section Load

variable {File : Type u} {fs : FileSystem File} {optionxform : Text → Text}

variable {f : File}

theorem loadIni_of_error {e : LoadError File} (h : header fs optionxform f = .error e) (n : Nat) :
    loadIni fs optionxform (n + 1) f = some (.error e) := by
  simp only [loadIni, h]

theorem loadIni_of_last {ini : Ini} (h : header fs optionxform f = .ok (ini, none)) (n : Nat) :
    loadIni fs optionxform (n + 1) f = some (.ok ini) := by
  simp only [loadIni, h]

theorem loadIni_of_extend {f g : File} {ini : Ini} (h : header fs optionxform f = .ok (ini, some g)) (n : Nat) :
    loadIni fs optionxform (n + 1) f = (loadIni fs optionxform n g).map fun r =>
      r.bind fun base => (copySections optionxform ini base).mapError .parser := by
  simp only [loadIni, h]
  cases loadIni fs optionxform n g with
  | none => rfl
  | some r => cases r <;> rfl

theorem loadIni_inherits {n : Nat} : ∀ {f : File} {cfg : Ini}, loadIni fs optionxform n f = some (.ok cfg) →
    ∃ inis, Chain fs optionxform f inis ∧ inis ≠ [] ∧
      (∀ s, cfg.hasSection s = true ↔ ∃ ini ∈ inis, ini.hasSection s = true) ∧
      ∀ s o, cfg.look s o = inherited optionxform inis s o := by
  induction n with
  | zero =>
    intro f cfg h
    cases h
  | succ n ih =>
    intro f cfg h
    cases hh : header fs optionxform f with
    | error e => rw [loadIni_of_error hh] at h; cases h
    | ok p =>
      obtain ⟨ini, next⟩ := p
      cases next with
      | none =>
        rw [loadIni_of_last hh] at h
        cases h
        exact ⟨[cfg], .last hh, by simp, by simp, fun s o => rfl⟩
      | some g =>
        rw [loadIni_of_extend hh, Option.map_eq_some_iff] at h
        obtain ⟨r, hr, h⟩ := h
        cases r with
        | error e => cases h
        | ok base =>
          obtain ⟨inis, hchain, hne, hsec, hlook⟩ := ih hr
          change (copySections optionxform ini base).mapError _ = _ at h
          cases hc : copySections optionxform ini base with
          | error e => rw [hc] at h; cases h
          | ok cfg' =>
            rw [hc] at h
            cases h
            refine ⟨ini :: inis, .extend hh hchain, by simp, ?_, ?_⟩
            · intro s
              rw [(copySections_ok optionxform hc s []).1, hsec]
              simp
            · intro s o
              rw [(copySections_ok optionxform hc s o).2, hlook]
              cases inis with
              | nil => exact absurd rfl hne
              | cons i inis => rfl

theorem Chain.loads_iff {inis : List Ini} (h : Chain fs optionxform f inis) :
    (∃ n cfg, loadIni fs optionxform n f = some (.ok cfg)) ↔
      ∀ ini ∈ inis.dropLast, ∀ s o, ini.hasOption s o = true → Copied optionxform ini s o := by
  induction h with
  | @last f ini h => exact ⟨fun _ i hi => absurd hi not_mem_nil, fun _ => ⟨1, ini, loadIni_of_last h 0⟩⟩
  | @extend f g ini inis h hg ih =>
    have hne : inis ≠ [] := by cases hg <;> simp
    rw [dropLast_cons_of_ne_nil hne, forall_mem_cons, ← ih]
    constructor
    · rintro ⟨n, cfg, hn⟩
      cases n with
      | zero => cases hn
      | succ n =>
        rw [loadIni_of_extend h, Option.map_eq_some_iff] at hn
        obtain ⟨r, hr, hn⟩ := hn
        cases r with
        | error e => cases hn
        | ok base =>
          refine ⟨(@copySections_eq_ok_iff optionxform ini base).mp ?_, n, base, hr⟩
          change (copySections optionxform ini base).mapError _ = _ at hn
          cases hc : copySections optionxform ini base with
          | error e => rw [hc] at hn; cases hn
          | ok base' => exact ⟨base', rfl⟩
    · rintro ⟨hcopy, n, base, hr⟩
      obtain ⟨cfg, hc⟩ := (copySections_eq_ok_iff optionxform).mpr hcopy
      refine ⟨n + 1, cfg, ?_⟩
      rw [loadIni_of_extend h, hr]
      change some ((copySections optionxform ini base).mapError _) = _
      rw [hc]
      rfl

theorem loadIni_of_extends
    (h : ∀ g, Extends fs optionxform f g → ∃ n r, loadIni fs optionxform n g = some r) :
    ∃ n r, loadIni fs optionxform n f = some r := by
  cases hh : header fs optionxform f with
  | error e => exact ⟨1, .error e, loadIni_of_error hh 0⟩
  | ok p =>
    obtain ⟨ini, next⟩ := p
    cases next with
    | none => exact ⟨1, .ok ini, loadIni_of_last hh 0⟩
    | some g =>
      obtain ⟨n, r, hr⟩ := h g ⟨ini, hh⟩
      exact ⟨n + 1, _, by rw [loadIni_of_extend hh, hr]; rfl⟩

theorem loadIni_extends {f g : File} (h : Extends fs optionxform f g) {n : Nat}
    (hg : loadIni fs optionxform n g = none) : loadIni fs optionxform (n + 1) f = none := by
  obtain ⟨ini, hh⟩ := h
  rw [loadIni_of_extend hh, hg]
  rfl

theorem ExtendsCyclic.next (h : ExtendsCyclic fs optionxform f) :
    ∃ g, Extends fs optionxform f g ∧ ExtendsCyclic fs optionxform g := by
  obtain ⟨g, hfg, hgg⟩ := h
  rcases Relation.ReflTransGen.cases_head hfg with rfl | ⟨f', hff', hf'g⟩
  · obtain ⟨f', hff', hf'⟩ := Relation.TransGen.head'_iff.mp hgg
    exact ⟨f', hff', f, hf', hgg⟩
  · exact ⟨f', hff', g, hf'g, hgg⟩

theorem ExtendsCyclic.not_loaded : ∀ (n : Nat) {f : File}, ExtendsCyclic fs optionxform f →
    loadIni fs optionxform n f = none := by
  intro n
  induction n with
  | zero => exact fun _ => rfl
  | succ n ih =>
    intro f h
    obtain ⟨g, hfg, hg⟩ := h.next
    exact loadIni_extends hfg (ih hg)

theorem loads_of_not_cyclic [Finite File] (h : ¬ ExtendsCyclic fs optionxform f) :
    ∃ n r, loadIni fs optionxform n f = some r := by
  -- the induction is on the files that `f` leads to, those that are extended first
  let After : File → File → Prop := fun a b =>
    Relation.ReflTransGen (Extends fs optionxform) f b ∧ Relation.TransGen (Extends fs optionxform) b a
  have : IsTrans File After := ⟨fun a b c hab hbc => ⟨hbc.1, hbc.2.trans hab.2⟩⟩
  have : Std.Irrefl After := ⟨fun a ha => h ⟨a, ha⟩⟩
  have hwf : WellFounded After := Finite.wellFounded_of_trans_of_irrefl After
  have hall : ∀ a, Relation.ReflTransGen (Extends fs optionxform) f a →
      ∃ n r, loadIni fs optionxform n a = some r := by
    intro a
    induction a using hwf.induction with
    | _ a ih =>
      intro ha
      apply loadIni_of_extends
      intro g hg
      exact ih g ⟨ha, .single hg⟩ (ha.tail hg)
  exact hall f .refl

/-- **The loading of a file is as it should be unless it leads to a file that extends itself, or a value with a `%`
is refused.** -/
theorem resolves_iff [Finite File] (f : File) :
    Resolves fs optionxform f ↔ ¬ ExtendsCyclic fs optionxform f ∧ ¬ Refused fs optionxform f := by
  constructor
  · intro h
    constructor
    · intro hc
      obtain ⟨n, r, hr⟩ := h.ends
      rw [hc.not_loaded n] at hr
      cases hr
    · rintro ⟨inis, hchain, hint, ini, hini, hstore⟩
      apply hstore
      intro s o v ho hv hne
      obtain ⟨v', hv', hvalid⟩ := hchain.loads_iff.mp (h.accepted inis hchain hint) ini hini s o ho
      rw [hv] at hv'
      cases hv'
      exact hvalid hne
  · rintro ⟨hcyc, href⟩
    refine ⟨loads_of_not_cyclic hcyc, ?_, ?_, fun hc => absurd hc hcyc⟩
    · intro inis hchain hint
      rw [hchain.loads_iff]
      intro ini hini s o ho
      obtain ⟨v, hv⟩ := hint ini hini s o ho
      refine ⟨v, hv, fun hne => ?_⟩
      by_contra hvalid
      exact href ⟨inis, hchain, hint, ini, hini, fun hs => hvalid (hs s o v ho hv hne)⟩
    · intro n cfg hcfg
      grind [loadIni_inherits]

end Load

end RtemsLibbsd.Waf

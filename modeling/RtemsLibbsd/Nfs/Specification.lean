import RtemsLibbsd.CString

/-!
# The source of an NFS mount

Model of `getnfsargs` of `rtemsbsd/fs/nfsclient/nfs.c`, which takes `host:path` or `[host]:path` apart.

* `findCut`, `trimSlashes`, `fillHostname` — the parts of the function.  The string is cut in place; an access outside
  of an object has no result.
* `getnfsargs` — the function.  `getaddrinfo` says which hosts are found, no arguments stand for -1.
* `Spec` — a specification and its text.
* `Taken` — the function stays inside of its buffers, and what it accepts is taken apart as it should.
* **`getnfsargs_taken_iff`** — this is so exactly if the host is not empty and fits into its buffer, and the
  brackets have room in theirs.
-/

namespace RtemsLibbsd.NfsSpecification

open Option

open List RtemsLibbsd.CString

def MNAMELEN : Nat := 1024

/-- The buffers of `struct nfs_args`. -/
structure NfsArgs where
  hostname : Memory
  dirpath : Memory
  hname : Memory

def nfsArgsDefaults (maxHostNameLen : Nat) : NfsArgs :=
  ⟨List.replicate (MNAMELEN + 1) nul, List.replicate (MNAMELEN + 1) nul, List.replicate (maxHostNameLen + 5) nul⟩

/-- The addresses of the host, of the path and of the delimiter between them. -/
structure Cut where
  hostp : Nat
  spec : Nat
  delimp : Nat
  haveBracket : Bool

/-- The bracket that closes a host, if the text starts with a host in brackets. -/
def findBracket (spec : Memory) : Option (Option Nat) := do
  let c ← load spec 0
  if c = '[' then
    match ← strchr spec 1 ']' with
    | none => some none
    | some delimp =>
      let c ← load spec (delimp + 1)
      some (if c = ':' then some delimp else none)
  else some none

def findCut (spec : Memory) : Option (Option Cut) := do
  match ← findBracket spec with
  | some delimp => some (some ⟨1, delimp + 2, delimp, true⟩)
  | none =>
    let delimp ← strrchr spec 0 ':'
    some (delimp.map fun delimp => ⟨0, delimp + 1, delimp, false⟩)

/-- The loop that cuts slashes off the string at `p`, which has the length `speclen`. -/
def trimSlashes (m : Memory) (p : Nat) : Nat → Option (Memory × Nat)
  | 0 => some (m, 0)
  | 1 => some (m, 1)
  | speclen + 2 => do
    let c ← load m (p + (speclen + 1))
    if c = '/' then
      let m ← store m (p + (speclen + 1)) nul
      trimSlashes m p (speclen + 1)
    else some (m, speclen + 2)

/-- `hostname` from its parts. -/
def fillHostname (hostname : Memory) (haveBracket : Bool) (host spec : List Char) : Option Memory :=
  let len := host.length
  let speclen := spec.length
  if haveBracket then do
    let hostname ← store hostname 0 '['
    let hostname ← memcpy hostname 1 host
    let hostname ← store hostname (len + 1) ']'
    let hostname ← store hostname (len + 2) ':'
    let hostname ← memcpy hostname (len + 3) spec
    store hostname (len + speclen + 3) nul
  else do
    let hostname ← memcpy hostname 0 host
    let hostname ← store hostname len ':'
    let hostname ← memcpy hostname (len + 1) spec
    store hostname (len + speclen + 1) nul

def getnfsargs (getaddrinfo : List Char → Bool) (args : NfsArgs) (spec : Memory) : Option (Option NfsArgs) := do
  match ← findCut spec with
  | none => some none
  | some cut =>
    let m ← store spec cut.delimp nul
    let speclen ← strlen m cut.spec
    let (m, speclen) ← trimSlashes m cut.spec speclen
    let hostlen ← strlen m cut.hostp
    let pathlen ← strlen m cut.spec
    if MNAMELEN < hostlen + pathlen + 1 then some none
    else
      let host := str m cut.hostp
      let hostname ← if host = [] then some args.hostname
        else fillHostname args.hostname cut.haveBracket host ((m.drop cut.spec).take speclen)
      if getaddrinfo host then
        some (some ⟨hostname, strlcpy args.dirpath (str m cut.spec), strlcpy args.hname host⟩)
      else some none

def Bracketed (text : List Char) : Prop :=
  ∃ host path, ']' ∉ host ∧ text = '[' :: (host ++ ']' :: ':' :: path)

structure Spec where
  bracket : Bool
  host : List Char
  path : List Char
  host_clean : nul ∉ host
  path_clean : nul ∉ path
  path_colon : ':' ∉ path

namespace Spec

variable (s : Spec)

def text : List Char :=
  if s.bracket then '[' :: (s.host ++ ']' :: ':' :: s.path) else s.host ++ ':' :: s.path

/-- What the text says.  A host in brackets is the one up to the first closing bracket. -/
def Read : Prop := if s.bracket then ']' ∉ s.host else ¬ Bracketed s.text

end Spec

/-- The path without its trailing slashes, but for the one of `/`. -/
def trim (path : List Char) : List Char :=
  if path.rdropWhile (· = '/') = [] then path.take 1 else path.rdropWhile (· = '/')

def normalized (s : Spec) : List Char :=
  if s.bracket then '[' :: (s.host ++ ']' :: ':' :: trim s.path) else s.host ++ ':' :: trim s.path

/-- No access is outside of a buffer, and what is accepted is taken apart. -/
def Taken (s : Spec) : Option (Option NfsArgs) → Prop
  | none => False
  | some none => True
  | some (some args) => Holds args.hname s.host ∧ Holds args.dirpath (trim s.path) ∧ Holds args.hostname (normalized s)

def Admitted (s : Spec) : Prop := s.host.length + (trim s.path).length + 1 ≤ MNAMELEN

/-- There is room for the brackets, and the host is not empty and fits. -/
def Fits (maxHostNameLen : Nat) (getaddrinfo : List Char → Bool) (s : Spec) : Prop :=
  (s.bracket = true → s.host ≠ [] → s.host.length + (trim s.path).length + 3 ≤ MNAMELEN) ∧
    (getaddrinfo s.host = true → s.host ≠ [] ∧ s.host.length < maxHostNameLen + 5)

section Paths

variable {pre post path : List Char}

theorem trim_of_not_slash {c : Char} (hc : c ≠ '/') : trim (path ++ [c]) = path ++ [c] := by
  have hkeep : (path ++ [c]).rdropWhile (· = '/') = path ++ [c] := by
    rw [rdropWhile_concat, if_neg (by simpa using hc)]
  unfold trim
  simp [hkeep]

theorem trim_slash (hne : path ≠ []) : trim (path ++ ['/']) = trim path := by
  have hdrop : (path ++ ['/']).rdropWhile (· = '/') = path.rdropWhile (· = '/') := by
    simp
  unfold trim
  rw [hdrop, take_append_of_le_length (length_pos_iff.mpr hne)]

theorem trim_singleton (c : Char) : trim [c] = [c] := by
  unfold trim
  rw [rdropWhile_singleton]
  split
  · rfl
  · simp

theorem trim_subset : trim path ⊆ path := by
  unfold trim
  split
  · exact take_subset 1 path
  · exact (List.rdropWhile_prefix _ path).subset

/-- **The loop over the slashes.** -/
theorem trimSlashes_placed (pre path post : List Char) :
    ∃ post', trimSlashes (pre ++ (path ++ nul :: post)) pre.length path.length =
      some (pre ++ (trim path ++ nul :: post'), (trim path).length) := by
  induction hn : path.length generalizing path post with
  | zero =>
    cases eq_nil_of_length_eq_zero hn
    exact ⟨post, rfl⟩
  | succ speclen ih =>
    obtain ⟨front, c, rfl⟩ : ∃ front c, path = front ++ [c] :=
      ⟨path.dropLast, path.getLast (by rintro rfl; cases hn), (dropLast_append_getLast _).symm⟩
    have hfront : front.length = speclen := by simpa using hn
    cases speclen with
    | zero =>
      cases eq_nil_of_length_eq_zero hfront
      rw [nil_append, trim_singleton]
      exact ⟨post, rfl⟩
    | succ speclen =>
      have hshape : pre ++ ((front ++ [c]) ++ nul :: post) = (pre ++ front) ++ c :: nul :: post := by simp
      have hpos : pre.length + (speclen + 1) = (pre ++ front).length := by simp [hfront]
      have hne : front ≠ [] := by
        rintro rfl
        cases hfront
      rw [trimSlashes, hshape, hpos, load_placed, store_placed]
      by_cases hc : c = '/'
      · subst hc
        obtain ⟨post', htrim⟩ := ih front (nul :: post) hfront
        rw [trim_slash hne]
        refine ⟨post', ?_⟩
        simpa using htrim
      · rw [trim_of_not_slash hc]
        simp [hc, hfront]

end Paths

section Parts

/-- **The parts of `hostname`** are written one behind the other. -/
theorem fillHostname_eq (hostname : Memory) (s : Spec) :
    fillHostname hostname s.bracket s.host (trim s.path) = memcpy hostname 0 (normalized s ++ [nul]) := by
  unfold fillHostname normalized
  simp only [store_eq_memcpy, bind_eq_bind]
  cases s.bracket with
  | true =>
    simp (disch := first | omega | simp) only [if_true, memcpy_then]
    simp
  | false =>
    simp (disch := first | omega | simp) only [Bool.false_eq_true,
      if_false, memcpy_then]
    simp

theorem findBracket_bracket {host path : List Char} (hhost : nul ∉ host) (hpath : nul ∉ path) (hread : ']' ∉ host) :
    findBracket ('[' :: (host ++ ']' :: ':' :: (path ++ [nul]))) = some (some (1 + host.length)) := by
  have hclean : nul ∉ ':' :: path := by
    simp only [mem_cons, not_or]
    exact ⟨by decide, hpath⟩
  have hfind := @strchr_placed_of_mem ['['] host [] ']' (':' :: path) hhost hclean hread (by decide)
  have hload := @load_placed ('[' :: (host ++ [']'])) (path ++ [nul]) ':'
  have hlen : ('[' :: (host ++ [']'])).length = 1 + host.length + 1 := by
    simp only [length_cons, length_append, length_nil]
    omega
  rw [hlen] at hload
  simp only [cons_append, nil_append, append_assoc, length_cons, length_nil, Nat.zero_add]
    at hfind hload
  simp only [findBracket, load, getElem?_cons_zero, bind_eq_bind, bind_some, if_true, hfind]
  rw [← load, hload]
  rfl

theorem findBracket_none {text : List Char} (hclean : nul ∉ text) (hread : ¬ Bracketed text) :
    findBracket (text ++ [nul]) = some none := by
  cases text with
  | nil => rfl
  | cons c text =>
    simp only [mem_cons, not_or] at hclean
    simp only [findBracket, load, cons_append, getElem?_cons_zero, bind_eq_bind, bind_some]
    by_cases hc : c = '['
    · subst hc
      rw [if_pos rfl]
      by_cases hmem : ']' ∈ text
      · obtain ⟨host, rest, rfl, hhost⟩ := eq_append_cons_of_mem hmem
        have hhostclean : nul ∉ host := fun h => hclean.2 (mem_append_left _ h)
        have hrestclean : nul ∉ rest := fun h => hclean.2 (mem_append_right _ (mem_cons_of_mem _ h))
        have hfind := @strchr_placed_of_mem ['['] host [] ']' rest hhostclean hrestclean hhost (by decide)
        have hshape : '[' :: (host ++ ']' :: rest ++ [nul]) = ['['] ++ (host ++ ']' :: (rest ++ [nul])) := by simp
        have hone : (1 : Nat) = ['['].length := rfl
        rw [hshape, hone, hfind, bind_some]
        obtain ⟨c, rest', hrest⟩ : ∃ c rest', rest ++ [nul] = c :: rest' := exists_cons_of_ne_nil (by simp)
        have hload := @load_placed ('[' :: (host ++ [']'])) rest' c
        have hlen : ('[' :: (host ++ [']'])).length = 1 + host.length + 1 := by
          simp only [length_cons, length_append, length_nil]
          omega
        have hplace : ['['] ++ (host ++ ']' :: (rest ++ [nul])) = '[' :: (host ++ [']']) ++ c :: rest' := by
          rw [hrest]
          simp
        rw [hlen, ← hplace] at hload
        simp only [length_cons, length_nil, Nat.zero_add]
        rw [← load, hload, bind_some, if_neg]
        rintro rfl
        cases rest with
        | nil => cases hrest
        | cons c' rest =>
          cases hrest
          exact hread ⟨host, rest, hhost, rfl⟩
      · have hfind := @strchr_placed_of_not_mem ['['] text [] ']' hclean.2 hmem
        grind
    · rw [if_neg hc]

theorem getnfsargs_cut (getaddrinfo : List Char → Bool) (args : NfsArgs) (s : Spec) {lead mid : List Char} {d : Char}
    (hcut : findCut (lead ++ (s.host ++ d :: (mid ++ (s.path ++ [nul])))) =
      some (some ⟨lead.length, lead.length + s.host.length + 1 + mid.length, lead.length + s.host.length, s.bracket⟩)) :
    getnfsargs getaddrinfo args (lead ++ (s.host ++ d :: (mid ++ (s.path ++ [nul])))) =
      if MNAMELEN < s.host.length + (trim s.path).length + 1 then some none
      else (if s.host = [] then some args.hostname else memcpy args.hostname 0 (normalized s ++ [nul])).bind
        fun hostname => if getaddrinfo s.host then
          some (some ⟨hostname, strlcpy args.dirpath (trim s.path), strlcpy args.hname s.host⟩) else some none := by
  have htrim : nul ∉ trim s.path := fun h => s.path_clean (trim_subset h)
  obtain ⟨front, hfront⟩ : ∃ front, front = lead ++ (s.host ++ nul :: mid) := ⟨_, rfl⟩
  have hlen : lead.length + s.host.length + 1 + mid.length = front.length := by
    rw [hfront]
    simp only [length_append, length_cons]
    omega
  have hstore : store (lead ++ (s.host ++ d :: (mid ++ (s.path ++ [nul])))) (lead.length + s.host.length) nul =
      some (front ++ (s.path ++ nul :: [])) := by
    grind [store_placed]
  obtain ⟨post, hslashes⟩ := trimSlashes_placed front s.path []
  have hhost : ∀ rest, front ++ rest = lead ++ (s.host ++ nul :: (mid ++ rest)) := by
    intro rest
    rw [hfront]
    simp
  have hdrop : ((front ++ (trim s.path ++ nul :: post)).drop front.length).take (trim s.path).length = trim s.path := by
    simp
  have hstr : str (front ++ (trim s.path ++ nul :: post)) lead.length = s.host := by
    rw [hhost, str_placed s.host_clean]
  have hhostlen : strlen (front ++ (trim s.path ++ nul :: post)) lead.length = some s.host.length := by
    rw [hhost, strlen_placed s.host_clean]
  unfold getnfsargs
  simp only [hcut, bind_eq_bind, bind_some, hstore, hlen, strlen_placed s.path_clean, hslashes, hhostlen,
    hstr, strlen_placed htrim, str_placed htrim, hdrop, fillHostname_eq]
  split
  · rfl
  split <;> rfl

/-- **The call** for a specification. -/
theorem getnfsargs_eq (getaddrinfo : List Char → Bool) (args : NfsArgs) (s : Spec) (hread : s.Read) :
    getnfsargs getaddrinfo args (s.text ++ [nul]) =
      if MNAMELEN < s.host.length + (trim s.path).length + 1 then some none
      else (if s.host = [] then some args.hostname else memcpy args.hostname 0 (normalized s ++ [nul])).bind
        fun hostname => if getaddrinfo s.host then
          some (some ⟨hostname, strlcpy args.dirpath (trim s.path), strlcpy args.hname s.host⟩) else some none := by
  unfold Spec.Read at hread
  cases hbracket : s.bracket with
  | true =>
    rw [hbracket, if_pos rfl] at hread
    have htext : s.text ++ [nul] = ['['] ++ (s.host ++ ']' :: ([':'] ++ (s.path ++ [nul]))) := by
      simp [Spec.text, hbracket]
    have hfind := findBracket_bracket s.host_clean s.path_clean hread
    rw [htext]
    refine getnfsargs_cut getaddrinfo args s ?_
    simp only [cons_append, nil_append, length_cons, length_nil, Nat.zero_add, hbracket]
    simp [findCut, hfind]
  | false =>
    rw [hbracket, if_neg Bool.false_ne_true] at hread
    have htext : s.text = s.host ++ ':' :: s.path := by simp [Spec.text, hbracket]
    have hclean : nul ∉ s.text := by
      rw [htext]
      simp only [mem_append, mem_cons, not_or]
      exact ⟨s.host_clean, by decide, s.path_clean⟩
    have hnone := findBracket_none hclean hread
    have hlast := @strrchr_placed_of_mem [] s.host [] ':' s.path s.host_clean s.path_clean s.path_colon (by decide)
    have hshape : s.text ++ [nul] = [] ++ (s.host ++ ':' :: ([] ++ (s.path ++ [nul]))) := by simp [htext]
    rw [hshape] at hnone ⊢
    refine getnfsargs_cut getaddrinfo args s ?_
    simp only [nil_append, length_nil, Nat.zero_add, Nat.add_zero] at hnone hlast ⊢
    simp only [findCut, hnone, bind_eq_bind, bind_some, hlast, map_some, hbracket]

end Parts

/-- **Specifications that are taken apart**: the function stays inside of its buffers and is right about what it accepts
    exactly if the length check refuses the specification, or everything fits. -/
theorem getnfsargs_taken_iff (maxHostNameLen : Nat) (getaddrinfo : List Char → Bool) (s : Spec) (hread : s.Read) :
    Taken s (getnfsargs getaddrinfo (nfsArgsDefaults maxHostNameLen) (s.text ++ [nul])) ↔
      (Admitted s → Fits maxHostNameLen getaddrinfo s) := by
  have htrim : nul ∉ trim s.path := fun h => s.path_clean (trim_subset h)
  have hnormal : nul ∉ normalized s := by
    unfold normalized
    split <;> simp only [mem_append, mem_cons, not_or] <;> simp [s.host_clean, htrim] <;> decide
  have hlen : (normalized s).length = s.host.length + (trim s.path).length + if s.bracket then 3 else 1 := by
    unfold normalized
    split <;> simp <;> omega
  rw [getnfsargs_eq getaddrinfo _ s hread]
  by_cases hlong : MNAMELEN < s.host.length + (trim s.path).length + 1
  · rw [if_pos hlong]
    exact iff_of_true trivial fun hadmitted => absurd hadmitted (Nat.not_le.mpr hlong)
  have hadmitted : Admitted s := Nat.not_lt.mp hlong
  have hfits : (Admitted s → Fits maxHostNameLen getaddrinfo s) ↔ Fits maxHostNameLen getaddrinfo s :=
    ⟨fun h => h hadmitted, fun h _ => h⟩
  rw [if_neg hlong, hfits]
  by_cases hempty : s.host = []
  · rw [if_pos hempty, bind_some]
    by_cases hfound : getaddrinfo s.host = true
    · rw [if_pos hfound]
      refine iff_of_false ?_ fun h => (h.2 hfound).1 hempty
      rintro ⟨-, -, hholds⟩
      have hzero : Holds (nfsArgsDefaults maxHostNameLen).hostname [] :=
        @holds_placed [] (List.replicate MNAMELEN nul) (by simp)
      have hnil := congrArg List.length (hholds.unique hzero)
      rw [hlen, length_nil] at hnil
      split at hnil <;> omega
    · rw [if_neg hfound]
      exact iff_of_true trivial ⟨fun _ h => absurd hempty h, fun h => absurd h hfound⟩
  rw [if_neg hempty, memcpy_zero]
  have hroom : (normalized s ++ [nul]).length ≤ (nfsArgsDefaults maxHostNameLen).hostname.length ↔
      (s.bracket = true → s.host.length + (trim s.path).length + 3 ≤ MNAMELEN) := by
    grind [nfsArgsDefaults]
  by_cases hfit : s.bracket = true → s.host.length + (trim s.path).length + 3 ≤ MNAMELEN
  swap
  · rw [if_neg (mt hroom.mp hfit), bind_none]
    exact iff_of_false id fun h => hfit fun hbracket => h.1 hbracket hempty
  rw [if_pos (hroom.mpr hfit), bind_some]
  by_cases hfound : getaddrinfo s.host = true
  · have hhostname : Holds (normalized s ++ [nul] ++ (nfsArgsDefaults maxHostNameLen).hostname.drop
        (normalized s ++ [nul]).length) (normalized s) := by
      rw [append_assoc]
      exact holds_placed hnormal
    grind [strlcpy_holds, nfsArgsDefaults, Taken, normalized, Fits]
  · rw [if_neg hfound]
    exact iff_of_true trivial ⟨fun hbracket _ => hfit hbracket, fun h => absurd h hfound⟩

/-- `[::1]:/export/` -/
def bracketed : Spec where
  bracket := true
  host := [':', ':', '1']
  path := ['/', 'e', 'x', 'p', 'o', 'r', 't', '/']
  host_clean := by decide
  path_clean := by decide
  path_colon := by decide

theorem getnfsargs_taken_iff_bracketed :
    Taken bracketed (getnfsargs (fun _ => true) (nfsArgsDefaults 256) (bracketed.text ++ [nul])) := by
  have hpath : (trim bracketed.path).length = 7 := rfl
  have hread : bracketed.Read := by
    show ']' ∉ bracketed.host
    decide
  have hfits : Fits 256 (fun _ => true) bracketed := by
    refine ⟨?_, ?_⟩
    · intro _ _
      decide
    · intro _
      exact ⟨by decide, by decide⟩
  have htaken := getnfsargs_taken_iff 256 (fun _ => true) bracketed hread
  rw [htaken]
  exact fun _ => hfits

def longHost : Spec where
  bracket := true
  host := List.replicate 1021 'h'
  path := ['/']
  host_clean := fun h => absurd (eq_of_mem_replicate h) (by decide)
  path_clean := by decide
  path_colon := by decide

/-- **The brackets have no room**: the length check admits the host, and the terminator is written outside
    of `hostname`. -/
theorem longHost_outside :
    Admitted longHost ∧
      getnfsargs (fun _ => true) (nfsArgsDefaults 256) (longHost.text ++ [nul]) = none ∧
      ¬ Taken longHost (getnfsargs (fun _ => true) (nfsArgsDefaults 256) (longHost.text ++ [nul])) := by
  have hlen : longHost.host.length = 1021 := length_replicate
  have hpath : (trim longHost.path).length = 1 := rfl
  have hadmitted : ¬ MNAMELEN < longHost.host.length + (trim longHost.path).length + 1 := by
    rw [hlen, hpath]
    decide
  have hread : longHost.Read := fun h => absurd (eq_of_mem_replicate h) (by decide)
  have hempty : longHost.host ≠ [] := cons_ne_nil _ _
  have hroom : ¬ (normalized longHost ++ [nul]).length ≤ (nfsArgsDefaults 256).hostname.length := by
    have hnormal : (normalized longHost ++ [nul]).length = 1026 := by
      simp only [normalized, longHost, if_true, length_cons, length_append, length_replicate]
      rfl
    rw [hnormal, nfsArgsDefaults, length_replicate]
    decide
  have hcall : getnfsargs (fun _ => true) (nfsArgsDefaults 256) (longHost.text ++ [nul]) = none := by
    rw [getnfsargs_eq _ _ _ hread, if_neg hadmitted, if_neg hempty, memcpy_zero, if_neg hroom]
    rfl
  refine ⟨Nat.not_lt.mp hadmitted, hcall, ?_⟩
  rw [hcall]
  exact id

end RtemsLibbsd.NfsSpecification

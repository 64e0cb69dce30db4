import RtemsLibbsd.Substitution

/-!
# Conversion of source texts and back

Model of `fixIncludes`, `revertFixIncludes`, `fixLocalIncludes` and `revertFixLocalIncludes` of `builder.py` and of the
source filters of its converters.  A text is a list of characters, and `re.sub` is the substitution of
`Substitution`; a dot in a pattern is any character but the newline.

* `fromFreeBSDToRTEMS`, `fromRTEMSToFreeBSD` — the converters for the headers and sources of the two spaces.
* `Converts` — a text comes back unchanged, and its conversion too.
* `places` — what is behind each `#include ` of a text.  `Closed` says that no quoted name goes on into the next include.
* `Restored` — the condition at a place: what the first pattern that matches takes is spelled as the replacement says,
  and its group can be found again; if no pattern matches, the text does not name a header that is
  taken for one of RTEMS.

* `converts_iff` — a text is converted and back exactly if each place of it is restored.
* `utilHeader_lost` — the header `util.h` of FreeBSD comes back as a header of RTEMS.
-/

namespace RtemsLibbsd.Converter

open List Substitution

def pattern (s : String) : List (Item Char) := s.toList.map fun c => if c = '.' then .dot '\n' else .char c

/-- `re.sub` of a pattern without groups. -/
def reSub (regex repl : String) (data : List Char) : List Char := sub ⟨pattern regex, fun _ => repl.toList⟩ data

/-- `re.sub('#include "pre([^"]*)post"', '#include <rtems/bsd/local/pre\1post>', data)`. -/
def reSubLocal (pre post : String) (data : List Char) : List Char :=
  sub ⟨pattern "#include \"" ++ (pattern pre ++ .group '"' :: (pattern post ++ pattern "\"")),
    fun cap => "#include <rtems/bsd/local/".toList ++ (pre.toList ++ (cap ++ (post.toList ++ ">".toList)))⟩ data

def fixIncludes (data : List Char) : List Char :=
  let data := reSub "#include <sys/resource.h>" "#include <rtems/bsd/sys/resource.h>" data
  let data := reSub "#include <sys/unistd.h>" "#include <rtems/bsd/sys/unistd.h>" data
  data

def revertFixIncludes (data : List Char) : List Char :=
  let data := reSub "#include <rtems/bsd/" "#include <" data
  let data := reSub "#include <util.h>" "#include <rtems/bsd/util.h>" data
  let data := reSub "#include <bsd.h>" "#include <rtems/bsd/bsd.h>" data
  let data := reSub "#include <zerocopy.h>" "#include <rtems/bsd/zerocopy.h>" data
  let data := reSub "#include <modules.h>" "#include <rtems/bsd/modules.h>" data
  data

def fixLocalIncludes (data : List Char) : List Char :=
  let data := reSubLocal "opt_" "" data
  let data := reSubLocal "" "_if.h" data
  let data := reSubLocal "miidevs" "" data
  let data := reSubLocal "usbdevs" "" data
  data

/-- `re.sub('#include <rtems/bsd/local/([^>]*)>', '#include "\1"', data)`. -/
def revertFixLocalIncludes (data : List Char) : List Char :=
  sub ⟨pattern "#include <rtems/bsd/local/" ++ .group '>' :: pattern ">",
    fun cap => "#include \"".toList ++ (cap ++ "\"".toList)⟩ data

def fromFreeBSDToRTEMSHeaderConverter (data : List Char) : List Char :=
  let data := fixLocalIncludes data
  let data := fixIncludes data
  data

def fromFreeBSDToRTEMSUserSpaceHeaderConverter (data : List Char) : List Char :=
  let data := fixIncludes data
  data

def fromFreeBSDToRTEMSSourceConverter (data : List Char) : List Char :=
  let data := fixLocalIncludes data
  let data := fixIncludes data
  "#include <machine/rtems-bsd-kernel-space.h>\n\n".toList ++ data

def fromFreeBSDToRTEMSUserSpaceSourceConverter (data : List Char) : List Char :=
  let data := fixIncludes data
  "#include <machine/rtems-bsd-user-space.h>\n\n".toList ++ data

def fromRTEMSToFreeBSDHeaderConverter (data : List Char) : List Char :=
  let data := revertFixLocalIncludes data
  let data := revertFixIncludes data
  data

def fromRTEMSToFreeBSDSourceConverter (data : List Char) : List Char :=
  let data := reSub "#include <machine/rtems-bsd-kernel-space.h>\n\n" "" data
  let data := reSub "#include <machine/rtems-bsd-user-space.h>\n\n" "" data
  let data := revertFixLocalIncludes data
  let data := revertFixIncludes data
  data

inductive Space where
  | kernel
  | user

inductive Kind where
  | header
  | source

def fromFreeBSDToRTEMS : Space → Kind → List Char → List Char
  | .kernel, .header => fromFreeBSDToRTEMSHeaderConverter
  | .user, .header => fromFreeBSDToRTEMSUserSpaceHeaderConverter
  | .kernel, .source => fromFreeBSDToRTEMSSourceConverter
  | .user, .source => fromFreeBSDToRTEMSUserSpaceSourceConverter

/-- The reverse converter of a file; both spaces have the same one. -/
def fromRTEMSToFreeBSD : Kind → List Char → List Char
  | .header => fromRTEMSToFreeBSDHeaderConverter
  | .source => fromRTEMSToFreeBSDSourceConverter

def Converts (space : Space) (kind : Kind) (y : List Char) : Prop :=
  let x := fromFreeBSDToRTEMS space kind y
  fromRTEMSToFreeBSD kind x = y ∧ fromFreeBSDToRTEMS space kind (fromRTEMSToFreeBSD kind x) = x

/-- `#include `, without the first character. -/
def directive : List Char := "include ".toList

/-- What is behind each `#include ` of the text. -/
def places (y : List Char) : List (List Char) :=
  y.tails.filterMap fun u => if '#' :: directive <+: u then some (u.drop ('#' :: directive).length) else none

/-- The text has no include of RTEMS: nothing from `rtems/bsd`, and none of the lines that are put in front of sources. -/
def NoRtemsForm (y : List Char) : Prop :=
  ∀ s ∈ places y, ¬ "<rtems/bsd/".toList <+: s ∧ ¬ "<machine/rtems-bsd-".toList <+: s

/-- A quoted name ends before the next `#include `. -/
def ClosedAt : List Char → Prop
  | '"' :: u => '"' ∈ u ∧ ¬ '#' :: directive <:+: u.takeWhile (· != '"')
  | _ => True

instance (s : List Char) : Decidable (ClosedAt s) := by
  unfold ClosedAt
  split <;> infer_instance

def Closed (y : List Char) : Prop := ∀ s ∈ places y, ClosedAt s

/-- A pattern of the forward conversion behind `#include `, the text it stands for, and the replacement. -/
structure Form where
  regex : List (Item Char)
  spell : List Char → List Char
  out : List Char → List Char

def localForm (pre post : String) : Form :=
  ⟨pattern "\"" ++ (pattern pre ++ .group '"' :: (pattern post ++ pattern "\"")),
    fun cap => "\"".toList ++ (pre.toList ++ (cap ++ (post.toList ++ "\"".toList))),
    fun cap => "<rtems/bsd/local/".toList ++ (pre.toList ++ (cap ++ (post.toList ++ ">".toList)))⟩

def plainForm (name : String) : Form :=
  ⟨pattern "<" ++ pattern name, fun _ => "<".toList ++ name.toList, fun _ => "<rtems/bsd/".toList ++ name.toList⟩

/-- The forms that are converted, in the order of the conversion. -/
def forms : Space → List Form
  | .kernel => [localForm "opt_" "", localForm "" "_if.h", localForm "miidevs" "", localForm "usbdevs" "",
      plainForm "sys/resource.h>", plainForm "sys/unistd.h>"]
  | .user => [plainForm "sys/resource.h>", plainForm "sys/unistd.h>"]

/-- The headers that the reverse conversion leaves in `rtems/bsd`. -/
def ownHeaders : List (List (Item Char)) :=
  [pattern "<util.h>", pattern "<bsd.h>", pattern "<zerocopy.h>", pattern "<modules.h>"]

/-- The first form that matches, with its text for the group, the group and the rest. -/
def firstMatch (fs : List Form) (s : List Char) : Option (List Char × List Char × List Char) :=
  fs.findSome? fun f => (matchAt f.regex s).map fun p => (f.spell p.1, p.1, p.2)

/-- The text behind an `#include ` comes back. -/
def RestoredAt (fs : List Form) (s : List Char) : Prop :=
  match firstMatch fs s with
  | some (text, cap, rest) => s = text ++ rest ∧ '>' ∉ cap
  | none => ∀ h ∈ ownHeaders, matchAt h s = none

instance (fs : List Form) (s : List Char) : Decidable (RestoredAt fs s) := by
  unfold RestoredAt
  split <;> infer_instance

def Restored (space : Space) (y : List Char) : Prop := ∀ s ∈ places y, RestoredAt (forms space) s

section Places

theorem marker_notMem : '#' ∉ directive := by decide

theorem directive_unquoted : ∀ c ∈ '#' :: directive, (c != '"') = true := all_eq_true.mp rfl

theorem mem_places {y s : List Char} : s ∈ places y ↔ ∃ pre, y = pre ++ ('#' :: directive ++ s) := by
  unfold places
  rw [mem_filterMap]
  constructor
  · rintro ⟨u, hu, h⟩
    obtain ⟨pre, rfl⟩ := (mem_tails _ _).mp hu
    split at h
    · rename_i hpre
      obtain ⟨v, rfl⟩ := hpre
      cases h
      exact ⟨pre, rfl⟩
    · cases h
  · rintro ⟨pre, rfl⟩
    exact ⟨'#' :: directive ++ s, (mem_tails _ _).mpr ⟨pre, rfl⟩, by simp⟩

theorem place_of_piece {head : List Char} {segs : List (List Char)} {x : List Char} (hx : x ∈ segs) :
    ∃ t, Tail '#' directive t ∧ x ++ t ∈ places (join '#' directive head segs) := by
  obtain ⟨before, after, rfl⟩ := append_of_mem hx
  exact ⟨_, tail_segs after, mem_places.mpr ⟨join '#' directive head before, (join_append head x before after).symm⟩⟩

/-- What holds behind each `#include ` of a text, and in its pieces. -/
theorem forall_places {Q Q' : List Char → Prop} {head : List Char} {segs : List (List Char)}
    (hfree : ∀ x ∈ head :: segs, Free '#' directive x)
    (hQ : ∀ x ∈ segs, ∀ t, Tail '#' directive t → (Q (x ++ t) ↔ Q' x)) :
    (∀ s ∈ places (join '#' directive head segs), Q s) ↔ ∀ x ∈ segs, Q' x := by
  have hplace : ∀ s, s ∈ places (join '#' directive head segs) ↔ _ := fun s =>
    mem_places.trans (eq_join_iff marker_notMem hfree s)
  constructor
  · intro h x hx
    obtain ⟨t, ht, hmem⟩ := @place_of_piece head segs x hx
    exact (hQ x hx t ht).mp (h _ hmem)
  · intro h s hs
    obtain ⟨before, x, after, rfl, rfl⟩ := (hplace s).mp hs
    exact (hQ x (by simp) _ (tail_segs after)).mpr (h x (by simp))

end Places

section Pieces

def PieceClosed (s : List Char) : Prop := ∀ u, s = '"' :: u → '"' ∈ u

/-- A form of the kernel space for names in quotes: its parts are literal, and cannot make up a marker together with a
    name. -/
structure Quoted (pre post : String) : Prop where
  lit : pattern pre = lit pre.toList
  marker : '#' ∉ '"' :: pre.toList
  quote : '"' ∉ pre.toList
  angle : '>' ∉ pre.toList ∧ '>' ∉ post.toList
  rejects : rejects '#' directive (pattern post ++ pattern "\"") = true
  free : ∀ cap, Free '#' directive cap → Free '#' directive (pre.toList ++ (cap ++ post.toList))

variable {pre post : String} (h : Quoted pre post)

theorem localForm_regex (pre post : String) (h : Quoted pre post) : (localForm pre post).regex =
    Substitution.lit ('"' :: pre.toList) ++ .group '"' :: (pattern post ++ pattern "\"") := by
  show pattern "\"" ++ (pattern pre ++ _) = _
  rw [h.lit]
  rfl

include h in
theorem localForm_match {s cap rest : List Char} (hs : matchAt (localForm pre post).regex s = some (cap, rest)) :
    ∃ u, s = '"' :: (pre.toList ++ (cap ++ u)) ∧ '"' ∉ cap ∧
      ∃ c, matchAt (pattern post ++ pattern "\"") u = some (c, rest) := by
  rw [localForm_regex pre post h] at hs
  obtain ⟨v, hv, hstar⟩ := matchAt_lit_some hs
  obtain ⟨u, hu, hcap, hk⟩ := star_some hstar
  obtain ⟨⟨c, rest'⟩, hmatch, heq⟩ := Option.map_eq_some_iff.mp hk
  cases heq
  exact ⟨u, by rw [hv, hu]; rfl, hcap, c, hmatch⟩

variable {s : List Char}

include h in
theorem localForm_local (hs : PieceClosed s) : Local '#' directive (localForm pre post).regex s := by
  rw [localForm_regex pre post h]
  refine local_group h.marker (fun _ => local_of_rejects h.rejects) fun u hu => ?_
  have := hs (pre.toList ++ u) hu
  rw [mem_append] at this
  exact this.resolve_left h.quote

include h in
theorem free_localForm (hs : Free '#' directive s) :
    Free '#' directive (piece (localForm pre post).regex (localForm pre post).out s) := by
  cases hmatch : matchAt (localForm pre post).regex s with
  | none => rwa [piece_none hmatch]
  | some p =>
    obtain ⟨cap, rest⟩ := p
    obtain ⟨u, hu, _, _⟩ := localForm_match h hmatch
    have hcap : Free '#' directive cap := hs.of_infix ⟨'"' :: pre.toList, u, by rw [hu]; simp⟩
    have hrest : Free '#' directive rest := hs.of_suffix (matchAt_suffix hmatch)
    have hdir : Free '#' directive "<rtems/bsd/local".toList := by unfold Free; decide
    have hname := (hdir.append (h.free cap hcap) (c := '/') (by decide)).append hrest (c := '>') (by decide)
    rw [piece_some hmatch]
    have heq : (localForm pre post).out cap ++ rest =
        "<rtems/bsd/local".toList ++ '/' :: (pre.toList ++ (cap ++ post.toList)) ++ '>' :: rest := by
      simp [localForm]
    rw [heq]
    exact hname

theorem closed_localForm (hs : PieceClosed s) :
    PieceClosed (piece (localForm pre post).regex (localForm pre post).out s) := by
  grind [localForm, PieceClosed, piece]

include h in
theorem piecewise_local : Piecewise '#' directive (reSubLocal pre post)
    (piece (localForm pre post).regex (localForm pre post).out) PieceClosed :=
  piecewise_sub marker_notMem rfl (fun _ => rfl) (fun _ hs => localForm_local h hs) fun _ hs _ => free_localForm h hs

/-- `reSub` works piece by piece, where the replacement ends with a character that is in no marker. -/
theorem piecewise_reSub (regex repl : String) (init : List Char) {ps : List (Item Char)} {out : List Char} {c : Char}
    (hregex : pattern regex = Substitution.lit ('#' :: directive) ++ ps)
    (hrepl : repl.toList = '#' :: directive ++ out) (hrej : rejects '#' directive ps = true)
    (hout : out = init ++ [c]) (hc : c ∉ '#' :: directive) (hinit : Free '#' directive init) :
    Piecewise '#' directive (reSub regex repl) (piece ps fun _ => out) fun _ => True := by
  refine piecewise_sub marker_notMem hregex (fun _ => hrepl) (fun _ _ => local_of_rejects hrej) fun s hs _ => ?_
  cases hmatch : matchAt ps s with
  | none => rwa [piece_none hmatch]
  | some p =>
    rw [piece_some hmatch, hout, append_assoc]
    exact hinit.append (hs.of_suffix (matchAt_suffix hmatch)) hc

end Pieces

section Forward

theorem quoted_opt : Quoted "opt_" "" where
  lit := by decide
  marker := by decide
  quote := by decide
  angle := by decide
  rejects := by decide
  free cap hcap := by
    have hopt : Free '#' directive "opt".toList := by unfold Free; decide
    have heq : "opt_".toList ++ (cap ++ "".toList) = "opt".toList ++ '_' :: cap := by simp
    rw [heq]
    exact hopt.append hcap (by decide)

theorem quoted_if : Quoted "" "_if.h" where
  lit := by decide
  marker := by decide
  quote := by decide
  angle := by decide
  rejects := by decide
  free cap hcap := by
    have hif : Free '#' directive "if.h".toList := by unfold Free; decide
    exact hcap.append hif (c := '_') (by decide)

theorem quoted_miidevs : Quoted "miidevs" "" where
  lit := by decide
  marker := by decide
  quote := by decide
  angle := by decide
  rejects := by decide
  free cap hcap := by
    have hmii : Free '#' directive "miidev".toList := by unfold Free; decide
    have heq : "miidevs".toList ++ (cap ++ "".toList) = "miidev".toList ++ 's' :: cap := by simp
    rw [heq]
    exact hmii.append hcap (by decide)

theorem quoted_usbdevs : Quoted "usbdevs" "" where
  lit := by decide
  marker := by decide
  quote := by decide
  angle := by decide
  rejects := by decide
  free cap hcap := by
    have husb : Free '#' directive "usbdev".toList := by unfold Free; decide
    have heq : "usbdevs".toList ++ (cap ++ "".toList) = "usbdev".toList ++ 's' :: cap := by simp
    rw [heq]
    exact husb.append hcap (by decide)

structure Header (name : String) : Prop where
  start : ∃ w, name.toList = 's' :: w
  rejects : Substitution.rejects '#' directive (plainForm name).regex = true

theorem header_resource : Header "sys/resource.h>" := ⟨⟨_, rfl⟩, by decide⟩

theorem header_unistd : Header "sys/unistd.h>" := ⟨⟨_, rfl⟩, by decide⟩

theorem forms_cases {space : Space} {f : Form} (hf : f ∈ forms space) :
    (space = .kernel ∧ ∃ pre post, Quoted pre post ∧ f = localForm pre post) ∨
      ∃ name, Header name ∧ f = plainForm name := by
  cases space with
  | kernel =>
    simp only [forms, mem_cons, not_mem_nil, or_false] at hf
    rcases hf with rfl | rfl | rfl | rfl | rfl | rfl
    · exact .inl ⟨rfl, _, _, quoted_opt, rfl⟩
    · exact .inl ⟨rfl, _, _, quoted_if, rfl⟩
    · exact .inl ⟨rfl, _, _, quoted_miidevs, rfl⟩
    · exact .inl ⟨rfl, _, _, quoted_usbdevs, rfl⟩
    · exact .inr ⟨_, header_resource, rfl⟩
    · exact .inr ⟨_, header_unistd, rfl⟩
  | user =>
    simp only [forms, mem_cons, not_mem_nil, or_false] at hf
    rcases hf with rfl | rfl
    · exact .inr ⟨_, header_resource, rfl⟩
    · exact .inr ⟨_, header_unistd, rfl⟩

def rules (fs : List Form) : List (List (Item Char) × (List Char → List Char)) := fs.map fun f => (f.regex, f.out)

def forwardPiece (space : Space) (s : List Char) : List Char :=
  (rules (forms space)).foldl (fun s f => piece f.1 f.2 s) s

theorem piecewise_fixIncludes : Piecewise '#' directive fixIncludes (forwardPiece .user) fun _ => True :=
  (piecewise_reSub "#include <sys/resource.h>" "#include <rtems/bsd/sys/resource.h>"
    "<rtems/bsd/sys/resource.h".toList (c := '>') rfl rfl (by decide) rfl (by decide) (by unfold Free; decide)).comp
  (piecewise_reSub "#include <sys/unistd.h>" "#include <rtems/bsd/sys/unistd.h>"
    "<rtems/bsd/sys/unistd.h".toList (c := '>') rfl rfl (by decide) rfl (by decide) (by unfold Free; decide))
  fun _ _ _ => trivial

theorem piecewise_fixLocalIncludes : Piecewise '#' directive fixLocalIncludes
    (fun s => (rules [localForm "opt_" "", localForm "" "_if.h", localForm "miidevs" "", localForm "usbdevs" ""]).foldl
      (fun s f => piece f.1 f.2 s) s) PieceClosed :=
  (((piecewise_local quoted_opt).comp (piecewise_local quoted_if) fun _ _ hs => closed_localForm hs).comp
    (piecewise_local quoted_miidevs) fun _ _ hs => closed_localForm (closed_localForm hs)).comp
    (piecewise_local quoted_usbdevs) fun _ _ hs => closed_localForm (closed_localForm (closed_localForm hs))

theorem piecewise_forward_kernel :
    Piecewise '#' directive (fun y => fixIncludes (fixLocalIncludes y)) (forwardPiece .kernel) PieceClosed :=
  piecewise_fixLocalIncludes.comp piecewise_fixIncludes fun _ _ _ => trivial

end Forward

section Reverse

/-- A piece with an include of `rtems/bsd/local` has the end of its name. -/
def Ended (s : List Char) : Prop := ∀ u, s = "<rtems/bsd/local/".toList ++ u → '>' ∈ u

def revertLocalPiece : List Char → List Char :=
  piece (lit "<rtems/bsd/local/".toList ++ .group '>' :: pattern ">") fun cap => "\"".toList ++ (cap ++ "\"".toList)

theorem piecewise_revertFixLocalIncludes : Piecewise '#' directive revertFixLocalIncludes revertLocalPiece Ended := by
  refine piecewise_sub marker_notMem rfl (fun _ => rfl)
    (fun s hs => local_group (by decide) (fun _ => local_of_rejects (by decide)) hs) fun s hs _ => ?_
  cases hmatch : matchAt (lit "<rtems/bsd/local/".toList ++ .group '>' :: pattern ">") s with
  | none => rwa [piece_none hmatch]
  | some p =>
    obtain ⟨cap, rest⟩ := p
    obtain ⟨v, hv, hstar⟩ := matchAt_lit_some hmatch
    obtain ⟨u, hu, _, _⟩ := star_some hstar
    have hcap : Free '#' directive cap := hs.of_infix ⟨"<rtems/bsd/local/".toList, u, by rw [hv, hu]; simp⟩
    have hname : Free '#' directive ([] ++ '"' :: (cap ++ '"' :: rest)) :=
      free_nil.append (hcap.append (hs.of_suffix (matchAt_suffix hmatch)) (by decide)) (by decide)
    rw [piece_some hmatch]
    grind

/-- The headers that are taken back, as a list of substitutions in a piece. -/
def ownRules : List (List (Item Char) × (List Char → List Char)) :=
  [(pattern "<util.h>", fun _ => "<rtems/bsd/util.h>".toList), (pattern "<bsd.h>", fun _ => "<rtems/bsd/bsd.h>".toList),
    (pattern "<zerocopy.h>", fun _ => "<rtems/bsd/zerocopy.h>".toList),
    (pattern "<modules.h>", fun _ => "<rtems/bsd/modules.h>".toList)]

def revertBsdPiece : List Char → List Char := piece (pattern "<rtems/bsd/") fun _ => "<".toList

def ownPiece (s : List Char) : List Char := ownRules.foldl (fun s f => piece f.1 f.2 s) s

theorem piecewise_revertFixIncludes :
    Piecewise '#' directive revertFixIncludes (fun s => ownPiece (revertBsdPiece s)) fun _ => True :=
  ((((piecewise_reSub "#include <rtems/bsd/" "#include <" [] (c := '<') rfl rfl (by decide) rfl (by decide)
      free_nil).comp
    (piecewise_reSub "#include <util.h>" "#include <rtems/bsd/util.h>" "<rtems/bsd/util.h".toList (c := '>') rfl rfl
      (by decide) rfl (by decide) (by unfold Free; decide)) fun _ _ _ => trivial).comp
    (piecewise_reSub "#include <bsd.h>" "#include <rtems/bsd/bsd.h>" "<rtems/bsd/bsd.h".toList (c := '>') rfl rfl
      (by decide) rfl (by decide) (by unfold Free; decide)) fun _ _ _ => trivial).comp
    (piecewise_reSub "#include <zerocopy.h>" "#include <rtems/bsd/zerocopy.h>" "<rtems/bsd/zerocopy.h".toList
      (c := '>') rfl rfl (by decide) rfl (by decide) (by unfold Free; decide)) fun _ _ _ => trivial).comp
    (piecewise_reSub "#include <modules.h>" "#include <rtems/bsd/modules.h>" "<rtems/bsd/modules.h".toList
      (c := '>') rfl rfl (by decide) rfl (by decide) (by unfold Free; decide)) fun _ _ _ => trivial

def reversePiece (s : List Char) : List Char := ownPiece (revertBsdPiece (revertLocalPiece s))

theorem piecewise_reverse : Piecewise '#' directive (fun x => revertFixIncludes (revertFixLocalIncludes x))
    reversePiece Ended :=
  piecewise_revertFixLocalIncludes.comp piecewise_revertFixIncludes fun _ _ _ => trivial

/-- A name that was moved to `rtems/bsd/local` ends at its first angle bracket. -/
theorem reversePiece_local {w rest : List Char} (hw : '>' ∉ w) :
    reversePiece ("<rtems/bsd/local/".toList ++ (w ++ '>' :: rest)) = '"' :: (w ++ '"' :: rest) := by
  have hmatch : matchAt (lit "<rtems/bsd/local/".toList ++ .group '>' :: pattern ">")
      ("<rtems/bsd/local/".toList ++ (w ++ '>' :: rest)) = some (w, rest) := by
    rw [matchAt_lit, matchAt_group, star_full hw (b := rest) rfl]
  unfold reversePiece revertLocalPiece
  rw [piece_some hmatch]
  simp only [append_assoc]
  rfl

/-- A header that was moved to `rtems/bsd`, and not to `rtems/bsd/local`, comes back. -/
theorem reversePiece_sys (w : List Char) : reversePiece ("<rtems/bsd/s".toList ++ w) = "<s".toList ++ w := rfl

theorem reversePiece_plain {s : List Char} (hs : ¬ "<rtems/bsd/".toList <+: s) :
    reversePiece s = s ↔ ∀ h ∈ ownHeaders, matchAt h s = none := by
  have hlocal : revertLocalPiece s = s := by
    apply piece_none
    cases hmatch : matchAt (lit "<rtems/bsd/local/".toList ++ .group '>' :: pattern ">") s with
    | none => rfl
    | some p =>
      obtain ⟨u, rfl, _⟩ := matchAt_lit_some hmatch
      exact absurd ⟨"local/".toList ++ u, rfl⟩ hs
  have hbsd : revertBsdPiece s = s := by
    apply piece_none
    cases hmatch : matchAt (pattern "<rtems/bsd/") s with
    | none => rfl
    | some p =>
      obtain ⟨u, rfl, _⟩ := @matchAt_lit_some Char _ "<rtems/bsd/".toList s [] p hmatch
      exact absurd ⟨u, rfl⟩ hs
  have hstable : ∀ f ∈ ownRules, ∀ g ∈ ownRules, ∀ cap rest, matchAt f.1 (g.2 cap ++ rest) = none := by
    intro f hf g hg cap rest
    simp only [ownRules, mem_cons, not_mem_nil, or_false] at hf hg
    rcases hf with rfl | rfl | rfl | rfl <;> rcases hg with rfl | rfl | rfl | rfl <;> rfl
  have hpat : ownRules.map Prod.fst = ownHeaders := rfl
  unfold reversePiece ownPiece
  rw [hlocal, hbsd, foldl_piece ownRules hstable]
  constructor
  · intro heq h hmem
    rw [← hpat] at hmem
    obtain ⟨f, hf, rfl⟩ := mem_map.mp hmem
    cases hfind : ownRules.findSome? fun f => (matchAt f.1 s).map fun p => f.2 p.1 ++ p.2 with
    | none => simpa using findSome?_eq_none_iff.mp hfind f hf
    | some t =>
      obtain ⟨g, hg, hgt⟩ := exists_of_findSome?_eq_some hfind
      obtain ⟨p, _, rfl⟩ := Option.map_eq_some_iff.mp hgt
      -- what is put in is an include of RTEMS
      grind
  · intro hnone
    have hfind : (ownRules.findSome? fun f => (matchAt f.1 s).map fun p => f.2 p.1 ++ p.2) = none := by
      apply findSome?_eq_none_iff.mpr
      intro f hf
      rw [hnone f.1 (by exact mem_map_of_mem hf)]
      rfl
    rw [hfind]
    rfl

end Reverse

section RoundTrip

def Form.Faithful (f : Form) : Prop := ∀ s cap rest, matchAt f.regex s = some (cap, rest) →
  (reversePiece (f.out cap ++ rest) = s ↔ s = f.spell cap ++ rest ∧ '>' ∉ cap)

theorem faithful_localForm {pre post : String} (h : Quoted pre post) : (localForm pre post).Faithful := by
  intro s cap rest hmatch
  obtain ⟨u, hu, _, _⟩ := localForm_match h hmatch
  by_cases hcap : '>' ∈ cap
  · -- the name ends at the angle bracket in the group
    obtain ⟨a, b, rfl, ha⟩ := eq_append_cons_of_mem hcap
    have hw : '>' ∉ pre.toList ++ a := by simp [h.angle.1, ha]
    have hout : (localForm pre post).out (a ++ '>' :: b) ++ rest =
        "<rtems/bsd/local/".toList ++ ((pre.toList ++ a) ++ '>' :: (b ++ (post.toList ++ '>' :: rest))) := by
      simp [localForm]
    rw [hout, reversePiece_local hw, hu]
    grind [append_cancel_left_eq]
  · have hw : '>' ∉ pre.toList ++ (cap ++ post.toList) := by simp [h.angle.1, h.angle.2, hcap]
    have hout : (localForm pre post).out cap ++ rest =
        "<rtems/bsd/local/".toList ++ ((pre.toList ++ (cap ++ post.toList)) ++ '>' :: rest) := by
      simp [localForm]
    have hspell : (localForm pre post).spell cap ++ rest =
        '"' :: ((pre.toList ++ (cap ++ post.toList)) ++ '"' :: rest) := by
      simp [localForm]
    rw [hout, reversePiece_local hw, ← hspell]
    exact ⟨fun heq => ⟨heq.symm, hcap⟩, fun heq => heq.1.symm⟩

theorem faithful_plainForm {name : String} (h : Header name) : (plainForm name).Faithful := by
  intro s cap rest hmatch
  obtain ⟨w, hname⟩ := h.start
  cases cap_of_rejects h.rejects hmatch
  have hout : (plainForm name).out [] ++ rest = "<rtems/bsd/s".toList ++ (w ++ rest) := by
    simp [plainForm, hname]
  have hspell : (plainForm name).spell [] ++ rest = "<s".toList ++ (w ++ rest) := by
    simp [plainForm, hname]
  rw [hout, reversePiece_sys, ← hspell]
  exact ⟨fun heq => ⟨heq.symm, by simp⟩, fun heq => heq.1.symm⟩

theorem faithful_forms (space : Space) : ∀ f ∈ forms space, f.Faithful := by
  intro f hf
  rcases forms_cases hf with ⟨-, pre, post, h, rfl⟩ | ⟨name, h, rfl⟩
  · exact faithful_localForm h
  · exact faithful_plainForm h

theorem forms_stable (space : Space) : ∀ f ∈ rules (forms space), ∀ g ∈ rules (forms space), ∀ cap rest,
    matchAt f.1 (g.2 cap ++ rest) = none := by
  intro f hf g hg cap rest
  obtain ⟨form, hform, rfl⟩ := mem_map.mp hf
  obtain ⟨form', hform', rfl⟩ := mem_map.mp hg
  have hnone : ∀ t, matchAt form.regex ("<rtems/bsd/".toList ++ t) = none := by
    intro t
    rcases forms_cases hform with ⟨-, pre, post, h, rfl⟩ | ⟨name, h, rfl⟩
    · show matchAt (.char '"' :: _) ('<' :: _) = none
      simp
    · obtain ⟨w, hname⟩ := h.start
      have hregex : (plainForm name).regex = .char '<' :: .char 's' :: w.map fun c =>
          if c = '.' then .dot '\n' else .char c := by
        simp [plainForm, pattern, hname]
      rw [hregex]
      show matchAt (.char '<' :: .char 's' :: _) ('<' :: 'r' :: _) = none
      simp
  have hput : ∃ t, form'.out cap = "<rtems/bsd/".toList ++ t := by
    rcases forms_cases hform' with ⟨-, pre, post, -, rfl⟩ | ⟨name, -, rfl⟩
    · exact ⟨"local/".toList ++ (pre.toList ++ (cap ++ (post.toList ++ ">".toList))), rfl⟩
    · exact ⟨name.toList, rfl⟩
  grind

theorem firstMatch_cases (fs : List Form) (s : List Char) :
    (firstMatch fs s = none ∧
        ((rules fs).findSome? fun f => (matchAt f.1 s).map fun p => f.2 p.1 ++ p.2) = none) ∨
      ∃ f ∈ fs, ∃ cap rest, matchAt f.regex s = some (cap, rest) ∧ firstMatch fs s = some (f.spell cap, cap, rest) ∧
        ((rules fs).findSome? fun f => (matchAt f.1 s).map fun p => f.2 p.1 ++ p.2) = some (f.out cap ++ rest) := by
  induction fs with
  | nil => exact .inl ⟨rfl, rfl⟩
  | cons f fs ih =>
    unfold firstMatch
    rw [show rules (f :: fs) = (f.regex, f.out) :: rules fs from rfl, findSome?_cons, findSome?_cons]
    cases hmatch : matchAt f.regex s with
    | some p => exact .inr ⟨f, mem_cons_self, p.1, p.2, hmatch, rfl, rfl⟩
    | none =>
      grind [firstMatch]

/-- **A piece comes back exactly if it is restored.** -/
theorem roundTrip_piece (space : Space) {s : List Char} (hs : ¬ "<rtems/bsd/".toList <+: s) :
    reversePiece (forwardPiece space s) = s ↔ RestoredAt (forms space) s := by
  unfold forwardPiece RestoredAt
  rw [foldl_piece _ (forms_stable space)]
  rcases firstMatch_cases (forms space) s with ⟨hnone, hfind⟩ | ⟨f, hf, cap, rest, hmatch, hfirst, hfind⟩
  · rw [hfind, hnone]
    exact reversePiece_plain hs
  · rw [hfind, hfirst]
    exact faithful_forms space f hf s cap rest hmatch

theorem ended_forward (space : Space) {s : List Char} (hs : ¬ "<rtems/bsd/".toList <+: s) :
    Ended (forwardPiece space s) := by
  intro u hu
  unfold forwardPiece at hu
  rw [foldl_piece _ (forms_stable space)] at hu
  rcases firstMatch_cases (forms space) s with ⟨_, hfind⟩ | ⟨f, hf, cap, rest, _, _, hfind⟩
  · rw [hfind] at hu
    exact absurd ⟨"local/".toList ++ u, by rw [show s = _ from hu]; rfl⟩ hs
  · rw [hfind] at hu
    have hlocal : ∀ pre post, (localForm pre post).out cap ++ rest = "<rtems/bsd/local/".toList ++ u → '>' ∈ u := by
      intro pre post h
      have : pre.toList ++ (cap ++ (post.toList ++ ">".toList)) ++ rest = u := by
        simpa [localForm] using h
      rw [← this]
      simp
    rcases forms_cases hf with ⟨-, pre, post, -, rfl⟩ | ⟨name, h, rfl⟩
    · exact hlocal pre post hu
    · obtain ⟨w, hname⟩ := h.start
      simp [plainForm, hname] at hu

theorem machine_forward (space : Space) {s : List Char} (hs : ¬ "<machine/rtems-bsd-".toList <+: s) :
    ¬ "<machine/rtems-bsd-".toList <+: forwardPiece space s := by
  unfold forwardPiece
  rw [foldl_piece _ (forms_stable space)]
  rcases firstMatch_cases (forms space) s with ⟨_, hfind⟩ | ⟨f, hf, cap, rest, _, _, hfind⟩
  · rw [hfind]
    exact hs
  · rw [hfind]
    rintro ⟨u, hu⟩
    rcases forms_cases hf with ⟨-, pre, post, -, rfl⟩ | ⟨name, -, rfl⟩
    · simp [localForm] at hu
    · simp [plainForm] at hu

variable {segs : List (List Char)} {ps : List (Item Char)} {head : List Char}

theorem reSub_absent {regex : String} (hregex : pattern regex = lit ('#' :: directive) ++ ps)
    (hrej : rejects '#' directive ps = true)
    (hfree : ∀ x ∈ head :: segs, Free '#' directive x) (hsegs : ∀ s ∈ segs, matchAt ps s = none) :
    reSub regex "" (join '#' directive head segs) = join '#' directive head segs := by
  unfold reSub
  rw [sub_join hregex marker_notMem (hfree head mem_cons_self) (fun s hs => hfree s (mem_cons_of_mem _ hs))
    fun s _ => local_of_rejects hrej, join]
  congr 1
  apply flatMap_congr
  intro s hs
  rw [act, hsegs s hs]

theorem reSub_front {regex : String} (hregex : pattern regex = lit ('#' :: directive) ++ ps)
    (hrej : rejects '#' directive ps = true) {line head cap : List Char}
    (hline : Free '#' directive (line ++ head)) (hmatch : matchAt ps (line ++ head) = some (cap, head))
    (hfree : ∀ x ∈ head :: segs, Free '#' directive x) (hsegs : ∀ s ∈ segs, matchAt ps s = none) :
    reSub regex "" ('#' :: directive ++ (line ++ join '#' directive head segs)) = join '#' directive head segs := by
  have hjoin : '#' :: directive ++ (line ++ join '#' directive head segs) =
      join '#' directive [] ((line ++ head) :: segs) := by
    simp [join]
  have hall : ∀ s ∈ (line ++ head) :: segs, Free '#' directive s := by
    intro s hs
    grind
  rw [hjoin, reSub, sub_join hregex marker_notMem free_nil hall fun s _ => local_of_rejects hrej, flatMap_cons,
    nil_append, act, hmatch, join]
  show head ++ segs.flatMap (act '#' directive ps _) = _
  congr 1
  apply flatMap_congr
  intro s hs
  rw [act, hsegs s hs]

theorem matchAt_pattern (w : String) (s : List Char) : matchAt (pattern w) (w.toList ++ s) = some ([], s) := by
  unfold pattern
  induction w.toList with
  | nil => exact matchAt_nil s
  | cons c cs ih =>
    rw [map_cons, cons_append]
    split
    · rename_i hc
      rw [matchAt_dot_cons, if_neg (by rw [hc]; decide), ih]
    · simp [ih]

theorem matchAt_machine (hsegs : ∀ s ∈ segs, ¬ "<machine/rtems-bsd-".toList <+: s)
    {w : String} (hw : pattern w = lit "<machine/rtems-bsd-".toList ++ ps) :
    ∀ s ∈ segs, matchAt (pattern w) s = none := by
  intro s hs
  cases hmatch : matchAt (pattern w) s with
  | none => rfl
  | some p =>
    rw [hw] at hmatch
    obtain ⟨u, hu, _⟩ := matchAt_lit_some hmatch
    exact absurd ⟨u, hu.symm⟩ (hsegs s hs)

/-- The line that is put in front of a source, behind its `#include `. -/
def sourceLine : Space → String
  | .kernel => "<machine/rtems-bsd-kernel-space.h>\n\n"
  | .user => "<machine/rtems-bsd-user-space.h>\n\n"

theorem free_sourceLine (space : Space) (hhead : Free '#' directive head) :
    Free '#' directive ((sourceLine space).toList ++ head) := by
  obtain ⟨init, hinit, heq⟩ : ∃ init, Free '#' directive init ∧ (sourceLine space).toList = init ++ ['\n'] := by
    cases space with
    | kernel => exact ⟨"<machine/rtems-bsd-kernel-space.h>\n".toList, by unfold Free; decide, by decide⟩
    | user => exact ⟨"<machine/rtems-bsd-user-space.h>\n".toList, by unfold Free; decide, by decide⟩
  rw [heq, append_assoc]
  exact hinit.append hhead (by decide)

theorem pattern_sourceLine (space : Space) :
    ∃ ps, pattern (sourceLine space) = lit "<machine/rtems-bsd-".toList ++ ps := by
  cases space with
  | kernel => exact ⟨pattern "kernel-space.h>\n\n", by decide⟩
  | user => exact ⟨pattern "user-space.h>\n\n", by decide⟩

theorem rejects_sourceLine (space : Space) : rejects '#' directive (pattern (sourceLine space)) = true := by
  cases space <;> decide

theorem pattern_kernelLine : pattern "#include <machine/rtems-bsd-kernel-space.h>\n\n" =
    lit ('#' :: directive) ++ pattern (sourceLine .kernel) := by decide

theorem pattern_userLine : pattern "#include <machine/rtems-bsd-user-space.h>\n\n" =
    lit ('#' :: directive) ++ pattern (sourceLine .user) := by decide

theorem matchAt_otherLine (s : List Char) :
    matchAt (pattern (sourceLine .kernel)) ((sourceLine .user).toList ++ s) = none := by
  have hkernel : pattern (sourceLine .kernel) =
      lit "<machine/rtems-bsd-".toList ++ (.char 'k' :: pattern "ernel-space.h>\n\n") := by decide
  have huser : (sourceLine .user).toList = "<machine/rtems-bsd-".toList ++ 'u' :: "ser-space.h>\n\n".toList := by
    decide
  rw [hkernel, huser, append_assoc, matchAt_lit, cons_append, matchAt_char_cons, if_neg (by decide)]

theorem source_of_header (space : Space)
    (hfree : ∀ x ∈ head :: segs, Free '#' directive x) (hsegs : ∀ s ∈ segs, ¬ "<machine/rtems-bsd-".toList <+: s) :
    fromRTEMSToFreeBSDSourceConverter ('#' :: directive ++ ((sourceLine space).toList ++ join '#' directive head segs)) =
      fromRTEMSToFreeBSDHeaderConverter (join '#' directive head segs) := by
  have hnone : ∀ space', ∀ s ∈ segs, matchAt (pattern (sourceLine space')) s = none := fun space' =>
    (pattern_sourceLine space').elim fun _ hw => matchAt_machine hsegs hw
  have hline := free_sourceLine space (hfree head mem_cons_self)
  have hmatch := matchAt_pattern (sourceLine space) head
  cases space with
  | kernel =>
    have hfront := reSub_front pattern_kernelLine (rejects_sourceLine .kernel) hline hmatch hfree (hnone .kernel)
    have habsent := reSub_absent pattern_userLine (rejects_sourceLine .user) hfree (hnone .user)
    unfold fromRTEMSToFreeBSDSourceConverter
    simp only
    rw [hfront, habsent]
    rfl
  | user =>
    have hfront := reSub_front pattern_userLine (rejects_sourceLine .user) hline hmatch hfree (hnone .user)
    have hjoin : '#' :: directive ++ ((sourceLine .user).toList ++ join '#' directive head segs) =
        join '#' directive [] (((sourceLine .user).toList ++ head) :: segs) := by
      simp [join]
    have hall : ∀ x ∈ [] :: ((sourceLine .user).toList ++ head) :: segs, Free '#' directive x := by
      intro x hx
      rcases mem_cons.mp hx with rfl | hx
      · exact free_nil
      grind
    have hother : ∀ s ∈ ((sourceLine .user).toList ++ head) :: segs, matchAt (pattern (sourceLine .kernel)) s = none := by
      intro s hs
      rcases mem_cons.mp hs with rfl | hs
      · exact matchAt_otherLine head
      · exact hnone .kernel s hs
    have hkept := reSub_absent pattern_kernelLine (rejects_sourceLine .kernel) hall hother
    rw [← hjoin] at hkept
    unfold fromRTEMSToFreeBSDSourceConverter
    simp only
    rw [hkept, hfront]
    rfl

end RoundTrip

section Converts

def Piecable : Space → List Char → Prop
  | .kernel => PieceClosed
  | .user => fun _ => True

theorem piecewise_forward (space : Space) :
    Piecewise '#' directive (fromFreeBSDToRTEMS space .header) (forwardPiece space) (Piecable space) := by
  cases space with
  | kernel => exact piecewise_forward_kernel
  | user => exact piecewise_fixIncludes

theorem piecewise_roundTrip (space : Space) : Piecewise '#' directive
    (fun y => fromRTEMSToFreeBSD .header (fromFreeBSDToRTEMS space .header y))
    (fun s => reversePiece (forwardPiece space s)) fun s => Piecable space s ∧ ¬ "<rtems/bsd/".toList <+: s :=
  ((piecewise_forward space).mono fun _ h => h.1).comp piecewise_reverse fun _ _ h => ended_forward space h.2

theorem local_forms (space : Space) (hs : Piecable space s) :
    ∀ f ∈ forms space, Local '#' directive f.regex s := by
  intro f hf
  rcases forms_cases hf with ⟨rfl, pre, post, h, rfl⟩ | ⟨name, h, rfl⟩
  · exact localForm_local h hs
  · exact local_of_rejects h.rejects

variable {s t : List Char}

theorem firstMatch_append {fs : List Form} (hlocal : ∀ f ∈ fs, Local '#' directive f.regex s)
    (ht : Tail '#' directive t) :
    firstMatch fs (s ++ t) = (firstMatch fs s).map fun p => (p.1, p.2.1, p.2.2 ++ t) := by
  unfold firstMatch
  induction fs with
  | nil => rfl
  | cons f fs ih =>
    rw [findSome?_cons, findSome?_cons, hlocal f mem_cons_self t ht]
    cases matchAt f.regex s with
    | some p => rfl
    | none => exact ih fun g hg => hlocal g (mem_cons_of_mem f hg)

theorem restoredAt_append {fs : List Form} (hlocal : ∀ f ∈ fs, Local '#' directive f.regex s)
    (ht : Tail '#' directive t) : RestoredAt fs (s ++ t) ↔ RestoredAt fs s := by
  have hown : ∀ h ∈ ownHeaders, (matchAt h (s ++ t) = none ↔ matchAt h s = none) := by
    intro h hh
    have hrej : rejects '#' directive h = true := by
      simp only [ownHeaders, mem_cons, not_mem_nil, or_false] at hh
      rcases hh with rfl | rfl | rfl | rfl <;> decide
    rw [local_of_rejects hrej t ht]
    exact Option.map_eq_none_iff
  unfold RestoredAt
  rw [firstMatch_append hlocal ht]
  cases firstMatch fs s with
  | none => exact forall_congr' fun h => forall_congr' fun hh => hown h hh
  | some p =>
    grind [append_cancel_right_eq]

theorem closedAt_append (ht : Tail '#' directive t) (h : ClosedAt (s ++ t)) : PieceClosed s := by
  rintro u rfl
  obtain ⟨hmem, hname⟩ := h
  by_contra hu
  rcases ht with rfl | ⟨v, rfl⟩
  · exact hu ((append_nil u).subst hmem)
  · apply hname
    show '#' :: directive <:+: (u ++ ('#' :: directive ++ v)).takeWhile (· != '"')
    grind [takeWhile_append_of_pos, directive_unquoted]

/-- **A text is converted and back unchanged exactly if what is behind each of its includes is restored.** -/
theorem converts_iff (space : Space) (kind : Kind) (y : List Char) (hform : NoRtemsForm y)
    (hclosed : space = .kernel → Closed y) : Converts space kind y ↔ Restored space y := by
  obtain ⟨head, segs, rfl, hfree⟩ := @exists_join Char '#' directive y
  have hseg : ∀ x ∈ segs, Piecable space x ∧ ¬ "<rtems/bsd/".toList <+: x ∧ ¬ "<machine/rtems-bsd-".toList <+: x := by
    intro x hx
    obtain ⟨t, ht, hmem⟩ := @place_of_piece head segs x hx
    refine ⟨?_, fun h => (hform _ hmem).1 (h.trans (prefix_append x t)),
      fun h => (hform _ hmem).2 (h.trans (prefix_append x t))⟩
    cases space with
    | kernel => exact closedAt_append ht (hclosed rfl _ hmem)
    | user => trivial
  have hhead := hfree head mem_cons_self
  have hforward := (piecewise_forward space).join_map head segs hhead
    fun s hs => ⟨hfree s (mem_cons_of_mem head hs), (hseg s hs).1⟩
  have hheader : fromRTEMSToFreeBSD .header (fromFreeBSDToRTEMS space .header (join '#' directive head segs)) =
      join '#' directive head segs ↔ Restored space (join '#' directive head segs) := by
    rw [(piecewise_roundTrip space).eq_iff marker_notMem hhead
      fun s hs => ⟨hfree s (mem_cons_of_mem head hs), (hseg s hs).1, (hseg s hs).2.1⟩]
    refine Iff.trans ?_ (forall_places hfree fun x hx t ht => restoredAt_append (local_forms space (hseg x hx).1) ht).symm
    exact forall_congr' fun s => forall_congr' fun hs => roundTrip_piece space (hseg s hs).2.1
  have hsource : fromRTEMSToFreeBSD .source (fromFreeBSDToRTEMS space .source (join '#' directive head segs)) =
      fromRTEMSToFreeBSD .header (fromFreeBSDToRTEMS space .header (join '#' directive head segs)) := by
    have hfree' : ∀ x ∈ head :: segs.map (forwardPiece space), Free '#' directive x := by
      intro x hx
      rcases mem_cons.mp hx with rfl | hx
      · exact hhead
      · obtain ⟨s, hs, rfl⟩ := mem_map.mp hx
        exact (piecewise_forward space).free s (hfree s (mem_cons_of_mem head hs)) (hseg s hs).1
    have hmachine : ∀ x ∈ segs.map (forwardPiece space), ¬ "<machine/rtems-bsd-".toList <+: x := by
      intro x hx
      obtain ⟨s, hs, rfl⟩ := mem_map.mp hx
      exact machine_forward space (hseg s hs).2.2
    have hline := source_of_header space hfree' hmachine
    rw [← hforward] at hline
    cases space with
    | kernel => exact hline
    | user => exact hline
  have hback : fromRTEMSToFreeBSD kind (fromFreeBSDToRTEMS space kind (join '#' directive head segs)) =
      join '#' directive head segs ↔ Restored space (join '#' directive head segs) := by
    cases kind with
    | header => exact hheader
    | source => rw [hsource, hheader]
  refine ⟨fun h => hback.mp h.1, fun h => ?_⟩
  have hy := hback.mpr h
  exact ⟨hy, by rw [hy]⟩

theorem converts_iff_inet :
    Converts .kernel .source "#include \"opt_inet.h\"\n#include <sys/unistd.h>\n#include \"bus_if.h\"\n".toList :=
  (converts_iff .kernel .source _
    (show ∀ s ∈ places _, ¬ "<rtems/bsd/".toList <+: s ∧ ¬ "<machine/rtems-bsd-".toList <+: s by decide)
    fun _ => show ∀ s ∈ places _, ClosedAt s by decide).mpr
    (show ∀ s ∈ places _, RestoredAt (forms .kernel) s by decide)

theorem utilHeader_lost :
    NoRtemsForm "#include <util.h>\n".toList ∧ ∀ space kind,
      fromRTEMSToFreeBSD kind (fromFreeBSDToRTEMS space kind "#include <util.h>\n".toList) =
          "#include <rtems/bsd/util.h>\n".toList ∧
        fromFreeBSDToRTEMS space kind
            (fromRTEMSToFreeBSD kind (fromFreeBSDToRTEMS space kind "#include <util.h>\n".toList)) ≠
          fromFreeBSDToRTEMS space kind "#include <util.h>\n".toList := by
  refine ⟨show ∀ s ∈ places _, ¬ "<rtems/bsd/".toList <+: s ∧ ¬ "<machine/rtems-bsd-".toList <+: s by decide,
    fun space kind => ?_⟩
  cases space <;> cases kind <;> decide

end Converts

end RtemsLibbsd.Converter

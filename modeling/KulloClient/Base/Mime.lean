import Mathlib.Data.List.DropRight
import Mathlib.Data.List.Infix
import Mathlib.Data.Set.Card

/-!
# Multipart bodies

A reader of `multipart/form-data` bodies after RFC 2046 and RFC 7578: a body is cut at its delimiters, which must
not occur in what they separate, each part is a block of header fields, a blank line and its octets, and the name of
a part is a parameter of its disposition.
-/

namespace Mime

def text (s : String) : List UInt8 := s.toUTF8.toList

def crlf : List UInt8 := [13, 10]

/-- Two dashes and the boundary. -/
def dashBoundary (boundary : List UInt8) : List UInt8 := 45 :: 45 :: boundary

def delimiter (boundary : List UInt8) : List UInt8 := 13 :: 10 :: dashBoundary boundary

/-! ### The first occurrence of a separator -/

/-- The text before the first occurrence of `sep`, and the text after it. -/
def cut (sep : List UInt8) : List UInt8 → Option (List UInt8 × List UInt8)
  | [] => if sep = [] then some ([], []) else none
  | b :: s =>
    if sep <+: b :: s then some ([], (b :: s).drop sep.length) else (cut sep s).map fun r => (b :: r.1, r.2)

theorem length_of_cut {sep s : List UInt8} {r : List UInt8 × List UInt8} (h : cut sep s = some r) :
    r.2.length + sep.length ≤ s.length := by
  induction s generalizing r with
  | nil =>
    rw [cut] at h
    split at h
    · next hsep =>
      cases h
      simp [hsep]
    · cases h
  | cons b s ih =>
    rw [cut] at h
    split at h
    · next hsep =>
      cases h
      have := hsep.length_le
      simp only [List.length_drop]
      omega
    · obtain ⟨r', hr', rfl⟩ := Option.map_eq_some_iff.mp h
      have := ih hr'
      simp only [List.length_cons]
      omega

theorem cut_of_prefixed {sep s : List UInt8} (hsep : sep ≠ []) : cut sep (sep ++ s) = some ([], s) := by
  rcases sep with _ | ⟨c, sep⟩
  · exact absurd rfl hsep
  · rw [List.cons_append, cut, if_pos (by simp)]
    simp

/-- A separator whose first byte occurs only there is found where it was put, if the text before it is without. -/
theorem cut_append {c : UInt8} {sep before : List UInt8} (hc : c ∉ sep) (hbefore : ¬c :: sep <:+: before)
    (after : List UInt8) : cut (c :: sep) (before ++ (c :: sep ++ after)) = some (before, after) := by
  induction before with
  | nil => exact cut_of_prefixed (by simp)
  | cons b before ih =>
    -- an occurrence that starts in `before` is either inside it or has its own first byte in the middle
    have hstart : ¬c :: sep <+: b :: (before ++ (c :: sep ++ after)) := by
      intro h
      rw [← List.cons_append] at h
      have hbb : b :: before <+: (b :: before) ++ (c :: sep ++ after) := List.prefix_append ..
      rcases List.prefix_or_prefix_of_prefix h hbb with h' | ⟨rest, hrest⟩
      · exact hbefore h'.isInfix
      · rw [← hrest, List.prefix_append_right_inj] at h
        rcases rest with _ | ⟨d, rest⟩
        · rw [List.append_nil] at hrest
          exact hbefore (hrest ▸ List.infix_refl _)
        · have hd : d = b := (List.cons_prefix_cons.mp h).1
          rw [List.cons_append] at hrest
          obtain ⟨hbc, hsep⟩ := List.cons.inj hrest
          exact hc (by rw [← hsep, hd, hbc]; simp)
    have hrest : ¬c :: sep <:+: before := fun h => hbefore (h.trans (List.suffix_cons b before).isInfix)
    rw [List.cons_append, cut, if_neg hstart, ih hrest]
    rfl

/-- Where a delimiter can occur in a line and what follows it. -/
theorem delimiter_line {boundary line rest : List UInt8} (hline : 13 ∉ line)
    (h : delimiter boundary <:+: line ++ (crlf ++ rest)) :
    dashBoundary boundary <+: rest ∨ delimiter boundary <:+: rest := by
  induction line with
  | nil =>
    rw [List.nil_append, crlf, List.cons_append, List.infix_cons_iff] at h
    rcases h with h | h
    · left
      rw [delimiter, List.cons_prefix_cons, List.cons_append, List.cons_prefix_cons] at h
      exact h.2.2
    · right
      rw [List.cons_append, List.infix_cons_iff] at h
      rcases h with h | h
      · rw [delimiter, List.cons_prefix_cons] at h
        exact absurd h.1 (by decide)
      · exact h
  | cons b line ih =>
    rw [List.cons_append, List.infix_cons_iff] at h
    rcases h with h | h
    · rw [delimiter, List.cons_prefix_cons] at h
      exact absurd (h.1 ▸ List.mem_cons_self) hline
    · exact ih (fun hmem => hline (List.mem_cons_of_mem b hmem)) h

/-! ### Bodies -/

/-- A space or a tab. -/
def isLwsp (b : UInt8) : Bool := b == 32 || b == 9

/-- The rest of a delimiter's line is padding. -/
def readPadding (s : List UInt8) : Option (List UInt8) :=
  match s.dropWhile isLwsp with
  | 13 :: 10 :: s => some s
  | _ => none

/-- The delimiter before `s` is the last one: two dashes, padding, and nothing or an epilogue. -/
def closes : List UInt8 → Bool
  | 45 :: 45 :: s =>
    match s.dropWhile isLwsp with
    | [] => true
    | 13 :: 10 :: _ => true
    | _ => false
  | _ => false

theorem length_of_readPadding {s r : List UInt8} (h : readPadding s = some r) : r.length ≤ s.length := by
  rw [readPadding] at h
  have hdrop := (List.dropWhile_sublist isLwsp (l := s)).length_le
  split at h
  · next s' hs =>
    cases h
    rw [hs] at hdrop
    simp only [List.length_cons] at hdrop
    omega
  · cases h

/-- The body parts after a dash boundary, up to the closing delimiter. -/
def bodyParts (boundary s : List UInt8) : Option (List (List UInt8)) :=
  match _hs : readPadding s with
  | none => none
  | some s' =>
    match _hr : cut (delimiter boundary) s' with
    | none => none
    | some r => if closes r.2 then some [r.1] else (bodyParts boundary r.2).map (r.1 :: ·)
termination_by s.length
decreasing_by
  have := length_of_readPadding _hs
  have := length_of_cut _hr
  simp only [delimiter, List.length_cons] at this
  omega

/-- The body parts of a multipart body; a preamble is discarded. -/
def multipart (boundary s : List UInt8) : Option (List (List UInt8)) :=
  if dashBoundary boundary <+: s then bodyParts boundary (s.drop (dashBoundary boundary).length)
  else match cut (delimiter boundary) s with
    | none => none
    | some r => bodyParts boundary r.2

theorem bodyParts_cons {boundary part : List UInt8} (hb : 13 ∉ boundary) (hpart : ¬delimiter boundary <:+: part)
    (rest : List UInt8) :
    bodyParts boundary (crlf ++ (part ++ (delimiter boundary ++ rest))) =
      if closes rest then some [part] else (bodyParts boundary rest).map (part :: ·) := by
  have hpadding : readPadding (crlf ++ (part ++ (delimiter boundary ++ rest))) =
      some (part ++ (delimiter boundary ++ rest)) := rfl
  have hcut : cut (delimiter boundary) (part ++ (delimiter boundary ++ rest)) = some (part, rest) := by
    refine cut_append ?_ hpart rest
    simp [dashBoundary, hb]
  rw [bodyParts, hpadding]
  dsimp only
  rw [hcut]

/-! ### Body parts -/

/-- The lines up to a blank one, and the text after it, which may be missing. -/
def headerBlock (s : List UInt8) : Option (List (List UInt8) × List UInt8) :=
  if s = [] then some ([], [])
  else match _hr : cut crlf s with
    | none => none
    | some r => if r.1 = [] then some ([], r.2) else (headerBlock r.2).map fun block => (r.1 :: block.1, block.2)
termination_by s.length
decreasing_by
  have := length_of_cut _hr
  simp only [crlf, List.length_cons, List.length_nil] at this
  omega

theorem headerBlock_blank (octets : List UInt8) : headerBlock (crlf ++ octets) = some ([], octets) := by
  have hcut : cut crlf (crlf ++ octets) = some ([], octets) := cut_of_prefixed (by simp [crlf])
  rw [headerBlock, if_neg (by simp [crlf]), hcut]
  rfl

theorem headerBlock_line {line : List UInt8} (hne : line ≠ []) (hline : 13 ∉ line) (rest : List UInt8) :
    headerBlock (line ++ (crlf ++ rest)) = (headerBlock rest).map fun block => (line :: block.1, block.2) := by
  have hcrlf : ¬crlf <:+: line := fun h => hline (h.mem (by simp [crlf]))
  have hcut : cut crlf (line ++ (crlf ++ rest)) = some (line, rest) := cut_append (by decide) hcrlf rest
  rw [headerBlock, if_neg (by simp [crlf]), hcut]
  dsimp only
  rw [if_neg hne]

/-- A line that starts with a blank continues the one before it. -/
def unfoldLines (lines : List (List UInt8)) : List (List UInt8) :=
  lines.foldr (fun line unfolded =>
    match unfolded with
    | (b :: next) :: unfolded' => if isLwsp b then (line ++ b :: next) :: unfolded' else line :: unfolded
    | _ => line :: unfolded) []

def lower (b : UInt8) : UInt8 := if 65 ≤ b ∧ b ≤ 90 then b + 32 else b

/-- The name of a header field, in lower case, and its value. -/
def field (line : List UInt8) : Option (List UInt8 × List UInt8) :=
  (cut [58] line).map fun r => (r.1.map lower, r.2.dropWhile isLwsp)

theorem field_append {name : List UInt8} (hname : 58 ∉ name) (value : List UInt8) :
    field (name ++ 58 :: 32 :: value) = some (name.map lower, value.dropWhile isLwsp) := by
  have hcut : cut [58] (name ++ ([58] ++ 32 :: value)) = some (name, 32 :: value) :=
    cut_append (by simp) (fun h => hname (h.mem (by simp))) _
  rw [field, show name ++ 58 :: 32 :: value = name ++ ([58] ++ 32 :: value) from rfl, hcut]
  rfl

/-! ### Parameters -/

/-- A byte of a token: neither a blank, a control character nor one of `()<>@,;:\"/[]?=`. -/
def isTokenChar (b : UInt8) : Bool :=
  32 < b && b < 127 && !(text "()<>@,;:\\\"/[]?=").contains b

/-- The text up to the closing quote and the rest; a backslash stands before a byte that is meant as it is. -/
def quotedText : List UInt8 → Option (List UInt8 × List UInt8)
  | [] => none
  | 92 :: b :: s => (quotedText s).map fun r => (b :: r.1, r.2)
  | 34 :: s => some ([], s)
  | b :: s => if b = 13 then none else (quotedText s).map fun r => (b :: r.1, r.2)

/-- A token or a quoted text, and the rest. -/
def parameterValue : List UInt8 → Option (List UInt8 × List UInt8)
  | 34 :: s => quotedText s
  | s => if s.takeWhile isTokenChar = [] then none else some (s.takeWhile isTokenChar, s.dropWhile isTokenChar)

/-- A text that a quoted text can hold as it is. -/
def Plain (s : List UInt8) : Prop := ∀ b ∈ s, b ≠ 34 ∧ b ≠ 92 ∧ b ≠ 13 ∧ b ≠ 10

instance (s : List UInt8) : Decidable (Plain s) :=
  List.decidableBAll (fun b => b ≠ 34 ∧ b ≠ 92 ∧ b ≠ 13 ∧ b ≠ 10) s

theorem quotedText_append {s : List UInt8} (hs : Plain s) (rest : List UInt8) :
    quotedText (s ++ 34 :: rest) = some (s, rest) := by
  induction s with
  | nil => simp [quotedText]
  | cons b s ih =>
    obtain ⟨hquote, hbackslash, hcr, -⟩ := hs b List.mem_cons_self
    have hrest := ih fun x hx => hs x (List.mem_cons_of_mem b hx)
    rw [List.cons_append, quotedText, if_neg hcr, hrest]
    · rfl
    · intro _ _ h
      exact absurd h hbackslash
    · intro h
      exact absurd h hquote

theorem length_of_quotedText {s : List UInt8} {r : List UInt8 × List UInt8} (h : quotedText s = some r) :
    r.2.length < s.length := by
  induction s using quotedText.induct generalizing r with
  | case1 => cases h
  | case2 b s ih =>
    rw [quotedText, Option.map_eq_some_iff] at h
    obtain ⟨r', hr', rfl⟩ := h
    have := ih hr'
    simp only [List.length_cons]
    omega
  | case3 s =>
    rw [quotedText] at h
    cases h
    simp
  | case4 s hne hquote =>
    rw [quotedText] at h
    · simp at h
    · exact hne
    · exact hquote
  | case5 b s hne hquote hcr ih =>
    rw [quotedText, if_neg hcr, Option.map_eq_some_iff] at h
    · obtain ⟨r', hr', rfl⟩ := h
      have := ih hr'
      simp only [List.length_cons]
      omega
    · exact hne
    · exact hquote

theorem length_of_parameterValue {s : List UInt8} {r : List UInt8 × List UInt8} (h : parameterValue s = some r) :
    r.2.length ≤ s.length := by
  rw [parameterValue.eq_def] at h
  split at h
  · have := length_of_quotedText h
    simp only [List.length_cons]
    omega
  · split at h
    · cases h
    · cases h
      exact (List.dropWhile_sublist isTokenChar).length_le

/-- One `name=value`, the name in lower case, and the rest. -/
def parameter (s : List UInt8) : Option ((List UInt8 × List UInt8) × List UInt8) :=
  match s.dropWhile isTokenChar with
  | 61 :: s' => (parameterValue s').map fun r => (((s.takeWhile isTokenChar).map lower, r.1), r.2)
  | _ => none

theorem length_of_parameter {s : List UInt8} {r : (List UInt8 × List UInt8) × List UInt8}
    (h : parameter s = some r) : r.2.length < s.length := by
  have hdrop := (List.dropWhile_sublist isTokenChar (l := s)).length_le
  rw [parameter] at h
  split at h
  · next s' hs =>
    obtain ⟨r', hr', rfl⟩ := Option.map_eq_some_iff.mp h
    have := length_of_parameterValue hr'
    rw [hs, List.length_cons] at hdrop
    dsimp only
    omega
  · cases h

/-- The parameters of a header field's value: each after a semicolon, with blanks around it. -/
def parameters (s : List UInt8) : Option (List (List UInt8 × List UInt8)) :=
  match _hs : s.dropWhile isLwsp with
  | [] => some []
  | b :: s' =>
    if b ≠ 59 then none
    else match _hr : parameter (s'.dropWhile isLwsp) with
      | none => none
      | some r => (parameters r.2).map (r.1 :: ·)
termination_by s.length
decreasing_by
  have h1 := (List.dropWhile_sublist isLwsp (l := s)).length_le
  have h2 := (List.dropWhile_sublist isLwsp (l := s')).length_le
  have h3 := length_of_parameter _hr
  rw [_hs, List.length_cons] at h1
  omega

/-- An equals sign and the blanks end a token. -/
private theorem isTokenChar_end : isTokenChar 61 = false ∧ ∀ b, isLwsp b = true → isTokenChar b = false := by
  have hblanks : isTokenChar 61 = false ∧ isTokenChar 32 = false ∧ isTokenChar 9 = false := by decide +kernel
  refine ⟨hblanks.1, ?_⟩
  intro b hb
  rcases (by simpa [isLwsp] using hb : b = 32 ∨ b = 9) with rfl | rfl
  · exact hblanks.2.1
  · exact hblanks.2.2

theorem parameters_nil : parameters [] = some [] := by
  rw [parameters]
  rfl

theorem parameter_quoted {name value : List UInt8} (hname : ∀ b ∈ name, isTokenChar b = true) (hvalue : Plain value)
    (rest : List UInt8) :
    parameter (name ++ 61 :: 34 :: (value ++ 34 :: rest)) = some ((name.map lower, value), rest) := by
  have hend := isTokenChar_end.1
  have hdrop : (name ++ 61 :: 34 :: (value ++ 34 :: rest)).dropWhile isTokenChar =
      61 :: 34 :: (value ++ 34 :: rest) := by
    rw [List.dropWhile_append_of_pos hname, List.dropWhile_cons_of_neg (by simp [hend])]
  have htake : (name ++ 61 :: 34 :: (value ++ 34 :: rest)).takeWhile isTokenChar = name := by
    rw [List.takeWhile_append_of_pos hname, List.takeWhile_cons_of_neg (by simp [hend]), List.append_nil]
  rw [parameter, hdrop, htake]
  show (quotedText (value ++ 34 :: rest)).map (fun r => ((name.map lower, r.1), r.2)) = _
  rw [quotedText_append hvalue]
  rfl

theorem parameters_quoted {name value : List UInt8} (hne : name ≠ []) (hname : ∀ b ∈ name, isTokenChar b = true)
    (hvalue : Plain value) (rest : List UInt8) :
    parameters (59 :: 32 :: (name ++ 61 :: 34 :: (value ++ 34 :: rest))) =
      (parameters rest).map ((name.map lower, value) :: ·) := by
  have hstart : (name ++ 61 :: 34 :: (value ++ 34 :: rest)).dropWhile isLwsp =
      name ++ 61 :: 34 :: (value ++ 34 :: rest) := by
    rcases name with _ | ⟨b, name⟩
    · exact absurd rfl hne
    · have hb := hname b List.mem_cons_self
      rw [List.cons_append, List.dropWhile_cons_of_neg]
      intro hblank
      rw [isTokenChar_end.2 b hblank] at hb
      cases hb
  have hparameter : parameter ((32 :: (name ++ 61 :: 34 :: (value ++ 34 :: rest))).dropWhile isLwsp) =
      some ((name.map lower, value), rest) := by
    rw [List.dropWhile_cons_of_pos (by decide), hstart, parameter_quoted hname hvalue]
  have hsemicolon : (59 :: 32 :: (name ++ 61 :: 34 :: (value ++ 34 :: rest))).dropWhile isLwsp =
      59 :: 32 :: (name ++ 61 :: 34 :: (value ++ 34 :: rest)) := List.dropWhile_cons_of_neg (by decide)
  rw [parameters, hsemicolon]
  refine (if_neg (by simp)).trans ?_
  rw [hparameter]

/-- A header field's value: what stands before the parameters, in lower case, and the parameters. -/
def fieldValue (s : List UInt8) : Option (List UInt8 × List (List UInt8 × List UInt8)) :=
  (parameters (s.dropWhile (· ≠ 59))).map fun ps =>
    (((s.takeWhile (· ≠ 59)).rdropWhile isLwsp).map lower, ps)

theorem fieldValue_append {kind : List UInt8} (hkind : 59 ∉ kind) (hblank : kind.rdropWhile isLwsp = kind)
    (ps : List UInt8) :
    fieldValue (kind ++ 59 :: ps) = (parameters (59 :: ps)).map fun r => (kind.map lower, r) := by
  have hall : ∀ b ∈ kind, (decide (b ≠ 59)) = true := fun b hb => decide_eq_true fun h => hkind (h ▸ hb)
  rw [fieldValue, List.dropWhile_append_of_pos hall, List.takeWhile_append_of_pos hall,
    List.dropWhile_cons_of_neg (by decide), List.takeWhile_cons_of_neg (by decide), List.append_nil, hblank]

/-! ### Forms -/

structure FormPart where
  name : List UInt8
  filename : Option (List UInt8)
  contentType : Option (List UInt8)
  octets : List UInt8
  deriving DecidableEq

/-- A part of a form: its disposition is `form-data` and has a name. -/
def formPart (part : List UInt8) : Option FormPart := do
  let block ← headerBlock part
  let fields ← (unfoldLines block.1).mapM field
  let disposition ← fields.lookup (text "content-disposition")
  let value ← fieldValue disposition
  if value.1 = text "form-data" then
    let name ← value.2.lookup (text "name")
    some ⟨name, value.2.lookup (text "filename"), fields.lookup (text "content-type"), block.2⟩
  else none

/-- The parts of a `multipart/form-data` body. -/
def formData (boundary body : List UInt8) : Option (List FormPart) :=
  (multipart boundary body).bind fun parts => parts.mapM formPart

/-! ### Delimiters in the octets -/

/-- Octets that cannot be written after a blank line: they would be cut. -/
def Collides (boundary octets : List UInt8) : Prop :=
  dashBoundary boundary <+: octets ∨ delimiter boundary <:+: octets

instance (boundary octets : List UInt8) : Decidable (Collides boundary octets) := inferInstanceAs (Decidable (_ ∨ _))

/-- The texts of `n` bytes that stand at some position of the octets. -/
def slices (n : Nat) (octets : List UInt8) : List (List UInt8) :=
  (List.range (octets.length + 1)).map fun i => (octets.drop i).take n

/-- Where octets collide with a boundary, they contain it: one position gives one boundary of each length. -/
theorem mem_slices_of_collides {boundary octets : List UInt8} (h : Collides boundary octets) :
    boundary ∈ slices boundary.length octets := by
  rw [slices, List.mem_map]
  rcases h with ⟨rest, hrest⟩ | ⟨before, rest, hrest⟩
  · refine ⟨2, ?_, ?_⟩
    · rw [← hrest]
      simp only [dashBoundary, List.mem_range, List.length_append, List.length_cons]
      omega
    · rw [← hrest]
      simp [dashBoundary]
  · refine ⟨before.length + 4, ?_, ?_⟩
    · rw [← hrest]
      simp only [delimiter, dashBoundary, List.mem_range, List.length_append, List.length_cons]
      omega
    · rw [← hrest, List.append_assoc, ← List.drop_drop, List.drop_left]
      simp [delimiter, dashBoundary]

/-- Boundaries of one length, each of which some text collides with, are at most as many as the texts have bytes,
and one for each text. -/
theorem ncard_collides {n : Nat} {texts : List (List UInt8)} {boundaries : Set (List UInt8)}
    (h : ∀ boundary ∈ boundaries, boundary.length = n ∧ ∃ octets ∈ texts, Collides boundary octets) :
    boundaries.ncard ≤ (texts.map fun octets => octets.length + 1).sum := by
  have hsub : boundaries ⊆ ((texts.flatMap (slices n)).toFinset : Set (List UInt8)) := by
    intro boundary hboundary
    obtain ⟨hlength, octets, hoctets, hcollides⟩ := h boundary hboundary
    have hmem := mem_slices_of_collides hcollides
    rw [hlength] at hmem
    exact Finset.mem_coe.mpr (List.mem_toFinset.mpr (List.mem_flatMap.mpr ⟨octets, hoctets, hmem⟩))
  calc _ ≤ _ := Set.ncard_le_ncard hsub (Finset.finite_toSet _)
    _ = _ := Set.ncard_coe_finset _
    _ ≤ _ := List.toFinset_card_le _
    _ = _ := by simp [List.length_flatMap, slices]

/-! ### Writing a form -/

def encodeParameter (name value : List UInt8) : List UInt8 := 59 :: 32 :: (name ++ 61 :: 34 :: (value ++ [34]))

def disposition (f : FormPart) : List UInt8 :=
  text "Content-Disposition" ++ 58 :: 32 :: (text "form-data" ++ (encodeParameter (text "name") f.name ++
    (f.filename.map (encodeParameter (text "filename"))).getD []))

def contentTypeLine (value : List UInt8) : List UInt8 := text "Content-Type" ++ 58 :: 32 :: value

/-- The lines before the blank one. -/
def header (f : FormPart) : List (List UInt8) := disposition f :: (f.contentType.map contentTypeLine).toList

def encodeBody (f : FormPart) : List UInt8 := (header f).flatMap (· ++ crlf) ++ (crlf ++ f.octets)

def encodePart (boundary : List UInt8) (f : FormPart) : List UInt8 :=
  dashBoundary boundary ++ crlf ++ encodeBody f ++ crlf

def encode (boundary : List UInt8) (forms : List FormPart) : List UInt8 :=
  forms.flatMap (encodePart boundary) ++ (dashBoundary boundary ++ [45, 45] ++ crlf)

/-- What the reading of a header needs of the texts in it. -/
private structure HeaderTexts : Prop where
  cr : ∀ s ∈ ["name", "filename", "form-data", "Content-Disposition", "Content-Type"], 13 ∉ text s
  colon : 58 ∉ text "Content-Disposition" ∧ 58 ∉ text "Content-Type"
  kind : 59 ∉ text "form-data" ∧ (text "form-data").rdropWhile isLwsp = text "form-data"
  token : ∀ s ∈ ["name", "filename"], text s ≠ [] ∧ ∀ b ∈ text s, isTokenChar b = true
  lower : ∀ s ∈ ["name", "filename", "form-data"], (text s).map lower = text s
  lower_disposition : (text "Content-Disposition").map Mime.lower = text "content-disposition"
  lower_contentType : (text "Content-Type").map Mime.lower = text "content-type"
  start_disposition : text "Content-Disposition" = 67 :: text "ontent-Disposition"
  start_contentType : text "Content-Type" = 67 :: text "ontent-Type"
  start_kind : text "form-data" = 102 :: text "orm-data"
  filename_ne : (text "filename" == text "name") = false
  contentType_ne : (text "content-type" == text "content-disposition") = false

private theorem headerTexts : HeaderTexts := by
  constructor <;> decide +kernel

/-- What a part must be like to be read back: the values in its header need no quoting, and its octets neither start
like a delimiter, whose line break would be that of the blank line, nor contain one. -/
structure Writable (boundary : List UInt8) (f : FormPart) : Prop where
  name : Plain f.name
  filename : ∀ v ∈ f.filename, Plain v
  contentType : ∀ v ∈ f.contentType, 13 ∉ v ∧ v.dropWhile isLwsp = v
  octets : ¬Collides boundary f.octets

theorem not_mem_of_plain {s : List UInt8} (hs : Plain s) : 13 ∉ s := fun h => (hs 13 h).2.2.1 rfl

theorem cr_not_mem_encodeParameter {name value : List UInt8} (hname : 13 ∉ name) (hvalue : Plain value) :
    13 ∉ encodeParameter name value := by
  have := not_mem_of_plain hvalue
  simp [encodeParameter, hname, this]

section

variable {boundary : List UInt8} {f : FormPart}

theorem cr_not_mem_disposition (hf : Writable boundary f) : 13 ∉ disposition f := by
  have hname := @cr_not_mem_encodeParameter (text "name") _ (headerTexts.cr _ (by simp)) hf.name
  have hfilename : 13 ∉ (f.filename.map (encodeParameter (text "filename"))).getD [] := by
    rcases hfn : f.filename with _ | v
    · simp
    · exact cr_not_mem_encodeParameter (headerTexts.cr _ (by simp)) (hf.filename v hfn)
  have hfield : 13 ∉ text "Content-Disposition" := headerTexts.cr _ (by simp)
  have hkind : 13 ∉ text "form-data" := headerTexts.cr _ (by simp)
  simp [disposition, hname, hfilename, hfield, hkind]

theorem cr_not_mem_header (hf : Writable boundary f) : ∀ line ∈ header f, 13 ∉ line := by
  intro line hline
  rcases List.mem_cons.mp hline with rfl | hline
  · exact cr_not_mem_disposition hf
  · rcases hct : f.contentType with _ | v
    · simp [hct] at hline
    · have heq : line = contentTypeLine v := by simpa [hct] using hline
      have hfield : 13 ∉ text "Content-Type" := headerTexts.cr _ (by simp)
      have := (hf.contentType v hct).1
      simp [heq, contentTypeLine, hfield, this]

/-- Every line of a header starts with a `C`. -/
theorem header_start (f : FormPart) : ∀ line ∈ header f, ∃ rest, line = 67 :: rest := by
  intro line hline
  rcases List.mem_cons.mp hline with rfl | hline
  · exact ⟨_, by rw [disposition, headerTexts.start_disposition]; rfl⟩
  · rcases hct : f.contentType with _ | v
    · simp [hct] at hline
    · have heq : line = contentTypeLine v := by simpa [hct] using hline
      exact ⟨_, by rw [heq, contentTypeLine, headerTexts.start_contentType]; rfl⟩

/-- The lines before the blank one hide no delimiter. -/
theorem delimiter_lines {lines : List (List UInt8)} {rest : List UInt8} (hcr : ∀ line ∈ lines, 13 ∉ line)
    (hstart : ∀ line ∈ lines, ∃ s, line = 67 :: s)
    (h : delimiter boundary <:+: lines.flatMap (· ++ crlf) ++ (crlf ++ rest)) :
    dashBoundary boundary <+: rest ∨ delimiter boundary <:+: rest := by
  induction lines with
  | nil => exact @delimiter_line boundary [] rest (by simp) h
  | cons line lines ih =>
    rw [List.flatMap_cons, List.append_assoc, List.append_assoc] at h
    rcases delimiter_line (hcr line List.mem_cons_self) h with h | h
    · -- the next line starts with a `C` or is the blank one
      rcases lines with _ | ⟨next, lines⟩
      · rw [List.flatMap_nil, List.nil_append, crlf, List.cons_append, dashBoundary, List.cons_prefix_cons] at h
        exact absurd h.1 (by decide)
      · obtain ⟨s, rfl⟩ := hstart next (by simp)
        rw [List.flatMap_cons, List.cons_append, List.cons_append, List.cons_append, dashBoundary,
          List.cons_prefix_cons] at h
        exact absurd h.1 (by decide)
    · exact ih (fun l hl => hcr l (List.mem_cons_of_mem _ hl)) (fun l hl => hstart l (List.mem_cons_of_mem _ hl)) h

theorem encodeBody_free (hf : Writable boundary f) : ¬delimiter boundary <:+: encodeBody f := by
  intro h
  exact hf.octets (delimiter_lines (cr_not_mem_header hf) (header_start f) h)

theorem headerBlock_lines {lines : List (List UInt8)} (hcr : ∀ line ∈ lines, 13 ∉ line)
    (hstart : ∀ line ∈ lines, ∃ s, line = 67 :: s) (octets : List UInt8) :
    headerBlock (lines.flatMap (· ++ crlf) ++ (crlf ++ octets)) = some (lines, octets) := by
  induction lines with
  | nil => exact headerBlock_blank octets
  | cons line lines ih =>
    obtain ⟨s, hs⟩ := hstart line List.mem_cons_self
    have hrest := ih (fun l hl => hcr l (List.mem_cons_of_mem _ hl)) (fun l hl => hstart l (List.mem_cons_of_mem _ hl))
    rw [List.flatMap_cons, List.append_assoc, List.append_assoc,
      headerBlock_line (by simp [hs]) (hcr line List.mem_cons_self), hrest]
    rfl

theorem unfoldLines_eq {lines : List (List UInt8)} (hstart : ∀ line ∈ lines, ∃ s, line = 67 :: s) :
    unfoldLines lines = lines := by
  induction lines with
  | nil => rfl
  | cons line lines ih =>
    have hrest := ih fun l hl => hstart l (List.mem_cons_of_mem _ hl)
    rw [unfoldLines, List.foldr_cons, ← unfoldLines, hrest]
    rcases lines with _ | ⟨next, lines⟩
    · rfl
    · obtain ⟨s, rfl⟩ := hstart next (by simp)
      rfl

theorem field_disposition (f : FormPart) : field (disposition f) =
    some (text "content-disposition", text "form-data" ++ (encodeParameter (text "name") f.name ++
      (f.filename.map (encodeParameter (text "filename"))).getD [])) := by
  rw [disposition, field_append headerTexts.colon.1, headerTexts.lower_disposition, headerTexts.start_kind,
    List.cons_append, List.dropWhile_cons_of_neg (by decide)]

theorem field_contentTypeLine {value : List UInt8} (hvalue : value.dropWhile isLwsp = value) :
    field (contentTypeLine value) = some (text "content-type", value) := by
  rw [contentTypeLine, field_append headerTexts.colon.2, headerTexts.lower_contentType, hvalue]

/-- The fields of a header that was written from a part. -/
theorem mapM_field_header (hf : Writable boundary f) : (header f).mapM field =
    some ((text "content-disposition", text "form-data" ++ (encodeParameter (text "name") f.name ++
      (f.filename.map (encodeParameter (text "filename"))).getD [])) ::
        (f.contentType.map fun v => (text "content-type", v)).toList) := by
  rw [header, List.mapM_cons, field_disposition]
  rcases hct : f.contentType with _ | v
  · rfl
  · have hv := field_contentTypeLine (hf.contentType v hct).2
    simp [hv]

/-- The parameters of a disposition that was written from a part. -/
theorem parameters_disposition (hf : Writable boundary f) :
    parameters (encodeParameter (text "name") f.name ++
      (f.filename.map (encodeParameter (text "filename"))).getD []) =
        some ((text "name", f.name) :: (f.filename.map fun v => (text "filename", v)).toList) := by
  have hquoted : ∀ (name value rest : List UInt8), encodeParameter name value ++ rest =
      59 :: 32 :: (name ++ 61 :: 34 :: (value ++ 34 :: rest)) := by
    intro name value rest
    simp [encodeParameter]
  have hname : (text "name").map lower = text "name" := headerTexts.lower _ (by simp)
  have hfilename : (text "filename").map lower = text "filename" := headerTexts.lower _ (by simp)
  have htoken := headerTexts.token "name" (by simp)
  have htoken' := headerTexts.token "filename" (by simp)
  rw [hquoted, parameters_quoted htoken.1 htoken.2 hf.name, hname]
  rcases hfn : f.filename with _ | v
  · rw [Option.map_none, Option.getD_none, parameters_nil]
    rfl
  · have hparameters := hquoted (text "filename") v []
    rw [List.append_nil] at hparameters
    rw [Option.map_some, Option.getD_some, hparameters,
      parameters_quoted htoken'.1 htoken'.2 (hf.filename v hfn), parameters_nil, hfilename]
    rfl

theorem formPart_encodeBody (hf : Writable boundary f) : formPart (encodeBody f) = some f := by
  have hblock : headerBlock (encodeBody f) = some (header f, f.octets) :=
    headerBlock_lines (cr_not_mem_header hf) (header_start f) f.octets
  have hkind : (text "form-data").map lower = text "form-data" := headerTexts.lower _ (by simp)
  have hvalue : ∀ ps, fieldValue (text "form-data" ++ (encodeParameter (text "name") f.name ++ ps)) =
      (parameters (encodeParameter (text "name") f.name ++ ps)).map fun r => (text "form-data", r) := by
    intro ps
    have h := fieldValue_append headerTexts.kind.1 headerTexts.kind.2
      (32 :: (text "name" ++ 61 :: 34 :: (f.name ++ [34])) ++ ps)
    rw [hkind] at h
    exact h
  rw [formPart, hblock]
  simp only [Option.bind_eq_bind, Option.bind_some, unfoldLines_eq (header_start f), mapM_field_header hf,
    List.lookup_cons_self, hvalue, parameters_disposition hf, Option.map_some]
  rw [if_pos trivial, List.lookup_cons, headerTexts.filename_ne, List.lookup_cons, headerTexts.contentType_ne]
  rcases f with ⟨name, filename, contentType, octets⟩
  rcases filename with _ | filename <;> rcases contentType with _ | contentType <;> simp

/-- What follows the first dash boundary of a body. -/
def encodeRest (boundary : List UInt8) : List FormPart → List UInt8
  | [] => [45, 45] ++ crlf
  | f :: forms => crlf ++ (encodeBody f ++ (delimiter boundary ++ encodeRest boundary forms))

theorem encode_eq (boundary : List UInt8) (forms : List FormPart) :
    encode boundary forms = dashBoundary boundary ++ encodeRest boundary forms := by
  induction forms with
  | nil => simp [encode, encodeRest]
  | cons f forms ih =>
    have hdelimiter : delimiter boundary = crlf ++ dashBoundary boundary := rfl
    rw [encode] at ih
    rw [encode, List.flatMap_cons, List.append_assoc, ih, encodeRest, encodePart, hdelimiter]
    simp only [List.append_assoc]

theorem bodyParts_encodeRest (hb : 13 ∉ boundary) {forms : List FormPart} (hne : forms ≠ [])
    (hforms : ∀ f ∈ forms, Writable boundary f) :
    bodyParts boundary (encodeRest boundary forms) = some (forms.map encodeBody) := by
  induction forms with
  | nil => exact absurd rfl hne
  | cons f forms ih =>
    rw [encodeRest, bodyParts_cons hb (encodeBody_free (hforms f List.mem_cons_self))]
    rcases forms with _ | ⟨g, forms⟩
    · rfl
    · have hopen : closes (encodeRest boundary (g :: forms)) = false := rfl
      rw [hopen, if_neg (by simp), ih (by simp) fun g' hg' => hforms g' (List.mem_cons_of_mem _ hg')]
      rfl

/-- A form is read back from what was written. -/
theorem formData_encode (hb : 13 ∉ boundary) {forms : List FormPart} (hne : forms ≠ [])
    (hforms : ∀ f ∈ forms, Writable boundary f) : formData boundary (encode boundary forms) = some forms := by
  have hparts : multipart boundary (encode boundary forms) = some (forms.map encodeBody) := by
    rw [multipart, encode_eq, if_pos (List.prefix_append ..), List.drop_left, bodyParts_encodeRest hb hne hforms]
  have hread : (forms.map encodeBody).mapM formPart = some forms := by
    clear hparts hne
    induction forms with
    | nil => rfl
    | cons f forms ih =>
      have hrest := ih fun g hg => hforms g (List.mem_cons_of_mem _ hg)
      rw [List.map_cons, List.mapM_cons, formPart_encodeBody (hforms f List.mem_cons_self), hrest]
      rfl
  rw [formData, hparts, Option.bind_some, hread]

end

end Mime

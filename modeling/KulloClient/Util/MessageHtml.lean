import KulloClient.Base.Substitution
import KulloClient.Util.MasterKeyPem

/-!
# Message texts as HTML

The text is escaped, then web links are made of the addresses in it, in three passes, and links of Kullo addresses.  Each
pass runs on what is not part of a link yet.  A position, an `int` of the source, is a natural number here; the HTML of a
text of at most 2 ^ 25 bytes has less than 2 ^ 31 bytes, and a content has at most 2 ^ 16.
-/

namespace KulloClient

open Regex

namespace Strings

/-! ### The patterns -/

/-- The bytes of a UTF-8 string, each as a character. -/
def utf8 (s : String) : List Char := s.toUTF8.toList.map fun b => Char.ofNat b.toNat

/-- `[^cs]`. -/
def noneOf (cs : List Char) : RegularExpression Char := oneOf (((List.range 256).map Char.ofNat).filter (· ∉ cs))

def optional (r : RegularExpression Char) : RegularExpression Char := r + 1

def hexDigits : List Char := charRange '0' '9' ++ charRange 'a' 'f' ++ charRange 'A' 'F'

/-- `a-zA-Z0-9`. -/
def alphanumeric : List Char := charRange 'a' 'z' ++ charRange 'A' 'Z' ++ charRange '0' '9'

def makeUriPcharPattern (specialChars : List Char) : RegularExpression Char :=
  literal "&amp;".toList +
  (literal ['%'] * oneOf hexDigits * oneOf hexDigits +
  oneOf ('-' :: charRange '0' '9' ++ charRange 'a' 'z' ++ charRange 'A' 'Z' ++ "._~!$'()*+,;=:@".toList ++ specialChars))

def uriPcharPlus : RegularExpression Char := makeUriPcharPattern "[]/?".toList

/-- The letters that are allowed in the names of the .de TLD. -/
def germanLetters : String :=
  "àáâãäåæāăąçćĉċčďđèéêëēĕėęěĝğġģĥħìíîïĩīĭįıðĵķĸĺļľłñńņňŋòóôõöøōŏőœŕŗřśŝşšţťŧùúûüũūŭůűųÿŷŵýźżžþß"

def germanCapitals : String :=
  "ÀÁÂÃÄÅÆĀĂĄÇĆĈĊČĎĐÈÉÊËĒĔĖĘĚĜĞĠĢĤĦÌÍÎÏĨĪĬĮIÐĴĶĸĹĻĽŁÑŃŅŇŊÒÓÔÕÖØŌŎŐŒŔŖŘŚŜŞŠŢŤŦÙÚÛÜŨŪŬŮŰŲŸŶŴÝŹŻŽÞ"

def uriPcharPath : RegularExpression Char :=
  makeUriPcharPattern ("[]".toList ++ utf8 germanLetters ++ utf8 germanCapitals)

/-- `(/pchar*)*`. -/
def uriPathAbempty : RegularExpression Char := (literal ['/'] * uriPcharPath.star).star

def uriQuery : RegularExpression Char := uriPcharPlus.star

def uriFragment : RegularExpression Char := uriQuery

def domainChars : List Char :=
  '-' :: charRange 'a' 'z' ++ charRange 'A' 'Z' ++ charRange '0' '9' ++ utf8 germanLetters

def httpUri : RegularExpression Char :=
  literal "http".toList * optional (literal ['s']) * literal "://".toList *
  (oneOrMore (oneOf domainChars) * (literal ['.'] * oneOrMore (oneOf domainChars)).star) *
  optional (literal [':'] * oneOrMore (oneOf (charRange '0' '9'))) *
  uriPathAbempty *
  optional (literal ['?'] * uriQuery) *
  optional (literal ['#'] * uriFragment)

/-- A match at the start of the text or after a character that is not one of `cs`. -/
def bordered (cs : List Char) (body : RegularExpression Char) : Pattern Char where
  before := .plus .start (.regex (noneOf cs))
  body := body
  after := .regex 1

def linksInMessageRegex : Pattern Char := bordered alphanumeric httpUri

def linksInBracketsRegex : Pattern Char where
  before := .regex (literal ['('])
  body := httpUri
  after := .regex (literal [')'])

def linksBeforePunctuationRegex : Pattern Char where
  before := .regex 1
  body := httpUri
  after := .comp (.regex (oneOf [',', ';', '.', ':'])) (.plus .stop (.regex (oneOf ['\t', '\n', '\r', ' '])))

def kulloAddressRegex : RegularExpression Char :=
  oneOrMore (oneOf alphanumeric) *
  (oneOf ['-', '.', '_'] * oneOrMore (oneOf alphanumeric)).star *
  literal ['#'] *
  oneOrMore (oneOrMore (oneOf alphanumeric) * (literal ['-'] * oneOrMore (oneOf alphanumeric)).star * literal ['.']) *
  (oneOf (charRange 'a' 'z' ++ charRange 'A' 'Z') * (oneOf alphanumeric).star *
    (literal ['-'] * oneOrMore (oneOf alphanumeric)).star)

def kulloAddressInMessageRegex : Pattern Char := bordered ('-' :: '.' :: '#' :: alphanumeric) kulloAddressRegex

def kulloAddressScheme : List Char := "kulloInternal".toList

/-! ### The passes -/

/-- `std::string::find`, from a position on. -/
def findFrom (htmlIn needle : List Char) (pos : Nat) : Option Nat := (find needle (htmlIn.drop pos)).map (· + pos)

/-- The characters from one position to another. -/
def between (s : List Char) (first last : Nat) : List Char := (s.drop first).take (last - first)

/-- The rounds of the loop of `replaceInNonLinkParts`.  It is `none` if the loop does not end or an invalid range is
sliced. -/
def replaceFrom (htmlIn : List Char) (replaceCallback : List Char → List Char) : Nat → Nat → Option (List Char)
  | 0, _ => none
  | rounds + 1, htmlInPos =>
    match findFrom htmlIn "<a ".toList htmlInPos with
    | some linkBegin =>
      -- `std::string::npos + 4` is 3
      let linkEnd := ((findFrom htmlIn "</a>".toList linkBegin).map (· + 4)).getD 3
      if linkEnd < linkBegin then none
      else
        (replaceFrom htmlIn replaceCallback rounds linkEnd).map fun out =>
          replaceCallback (between htmlIn htmlInPos linkBegin) ++ between htmlIn linkBegin linkEnd ++ out
    | none => some (replaceCallback (htmlIn.drop htmlInPos))

def replaceInNonLinkParts (htmlIn : List Char) (replaceCallback : List Char → List Char) : Option (List Char) :=
  replaceFrom htmlIn replaceCallback (htmlIn.length + 1) 0

/-- `<a href="HREF">LABEL</a>`. -/
def anchor (href label : List Char) : List Char := "<a href=\"".toList ++ href ++ "\">".toList ++ label ++ "</a>".toList

def highlightWebLinks (htmlIn : List Char) : Option (List Char) := do
  let out ← replaceInNonLinkParts htmlIn
    (substitute linksInBracketsRegex fun m => "(".toList ++ anchor m.body m.body ++ ")".toList)
  let out ← replaceInNonLinkParts out
    (substitute linksBeforePunctuationRegex fun m => anchor m.body m.body ++ m.after)
  replaceInNonLinkParts out
    (substitute linksInMessageRegex fun m => m.before ++ anchor m.body m.body)

def highlightKulloAdresses (htmlIn : List Char) : Option (List Char) :=
  replaceInNonLinkParts htmlIn
    (substitute kulloAddressInMessageRegex fun m => m.before ++ anchor (kulloAddressScheme ++ [':'] ++ m.body) m.body)

def htmlEscapeChar (c : Char) : List Char :=
  match c with
  | '&' => "&amp;".toList
  | '"' => "&quot;".toList
  | '<' => "&lt;".toList
  | '>' => "&gt;".toList
  | c => [c]

def htmlEscape (plaintext : List Char) : List Char := plaintext.flatMap htmlEscapeChar

def messageTextToHtml (text : List Char) (includeKulloAddresses : Bool) : Option (List Char) := do
  let out ← highlightWebLinks (htmlEscape text)
  if includeKulloAddresses then highlightKulloAdresses out else some out

end Strings

/-! ### Documents -/

/-- A link of a document. -/
structure Link where
  href : List Char
  label : List Char
  deriving DecidableEq

/-- A text with links in it. -/
inductive Html
  | plain (t : List Char)
  | link (t : List Char) (l : Link) (rest : Html)

namespace Html

def render : Html → List Char
  | plain t => t
  | link t l rest => t ++ Strings.anchor l.href l.label ++ rest.render

/-- What is left when the tags are removed. -/
def text : Html → List Char
  | plain t => t
  | link t l rest => t ++ l.label ++ rest.text

def links : Html → List Link
  | plain _ => []
  | link _ l rest => l :: rest.links

/-- The texts before, between and after the links. -/
def stretches : Html → List (List Char)
  | plain t => [t]
  | link t _ rest => t :: rest.stretches

/-- The text before the first link. -/
def first : Html → List Char
  | plain t => t
  | link t _ _ => t

def prepend (t : List Char) : Html → Html
  | plain u => plain (t ++ u)
  | link u l rest => link (t ++ u) l rest

/-- One document, and after it a link and another document. -/
def appendLink (l : Link) (h : Html) : Html → Html
  | plain t => link t l h
  | link t k rest => link t k (appendLink l h rest)

/-- Each stretch of text is replaced by a document. -/
def replaceTexts (f : List Char → Html) : Html → Html
  | plain t => f t
  | link t l rest => appendLink l (replaceTexts f rest) (f t)

section lemmas

variable (h : Html) (t : List Char) (l : Link) (f : List Char → Html)

@[simp] theorem render_prepend : (h.prepend t).render = t ++ h.render := by
  cases h <;> simp [prepend, render]

@[simp] theorem text_prepend : (h.prepend t).text = t ++ h.text := by
  cases h <;> simp [prepend, text]

@[simp] theorem links_prepend : (h.prepend t).links = h.links := by
  cases h <;> rfl

@[simp] theorem first_prepend : (h.prepend t).first = t ++ h.first := by
  cases h <;> rfl

private theorem stretches_eq : h.stretches = h.first :: h.stretches.tail := by
  cases h <;> rfl

@[simp] theorem stretches_prepend : (h.prepend t).stretches = (t ++ h.first) :: h.stretches.tail := by
  cases h <;> rfl

variable (g : Html)

@[simp] theorem render_appendLink :
    (appendLink l h g).render = g.render ++ Strings.anchor l.href l.label ++ h.render := by
  induction g with
  | plain t => rfl
  | link t k rest ih => simp [appendLink, render, ih]

@[simp] theorem text_appendLink : (appendLink l h g).text = g.text ++ l.label ++ h.text := by
  induction g with
  | plain t => rfl
  | link t k rest ih => simp [appendLink, text, ih]

@[simp] theorem links_appendLink : (appendLink l h g).links = g.links ++ l :: h.links := by
  induction g with
  | plain t => rfl
  | link t k rest ih => simp [appendLink, links, ih]

@[simp] theorem stretches_appendLink : (appendLink l h g).stretches = g.stretches ++ h.stretches := by
  induction g with
  | plain t => rfl
  | link t k rest ih => simp [appendLink, stretches, ih]

@[simp] theorem first_appendLink : (appendLink l h g).first = g.first := by
  cases g <;> rfl

private theorem text_replaceTexts {f : List Char → Html} (hf : ∀ t, (f t).text = t) : (h.replaceTexts f).text = h.text := by
  induction h with
  | plain t => exact hf t
  | link t l rest ih => simp [replaceTexts, text, hf, ih]

private theorem mem_links_replaceTexts {f : List Char → Html} {k : Link} :
    k ∈ (h.replaceTexts f).links ↔ k ∈ h.links ∨ ∃ t ∈ h.stretches, k ∈ (f t).links := by
  induction h with
  | plain t => simp [replaceTexts, links, stretches]
  | link t l rest ih =>
    simp only [replaceTexts, links_appendLink, links, stretches, List.mem_append, List.mem_cons, ih, exists_eq_or_imp]
    tauto

private theorem mem_stretches_replaceTexts {f : List Char → Html} {u : List Char} :
    u ∈ (h.replaceTexts f).stretches ↔ ∃ t ∈ h.stretches, u ∈ (f t).stretches := by
  induction h with
  | plain t => simp [replaceTexts, stretches]
  | link t l rest ih =>
    simp only [replaceTexts, stretches_appendLink, stretches, List.mem_append, ih, List.mem_cons, exists_eq_or_imp]

private theorem first_replaceTexts : (h.replaceTexts f).first = (f h.first).first := by
  cases h with
  | plain t => rfl
  | link t l rest => exact first_appendLink (replaceTexts f rest) l (f t)

private theorem first_mem_stretches : h.first ∈ h.stretches := by
  rw [stretches_eq]
  exact List.mem_cons_self

private theorem first_prefix_text : h.first <+: h.text := by
  cases h with
  | plain t => exact List.prefix_rfl
  | link t l rest => exact ⟨l.label ++ rest.text, by simp [first, text]⟩

/-- What is not in a tag is in the text. -/
theorem infix_text_of_mem_stretches {u : List Char} (hu : u ∈ h.stretches) : u <:+: h.text := by
  induction h with
  | plain t =>
    rw [List.mem_singleton.1 hu]
    exact List.infix_rfl
  | link t l rest ih =>
    rcases List.mem_cons.1 hu with rfl | hu
    · exact ⟨[], l.label ++ rest.text, by simp [text]⟩
    · exact (ih hu).trans (List.suffix_append (t ++ l.label) rest.text).isInfix

private theorem infix_text_of_mem_links {k : Link} (hk : k ∈ h.links) : k.label <:+: h.text := by
  induction h with
  | plain t => cases hk
  | link t l rest ih =>
    rcases List.mem_cons.1 hk with rfl | hk
    · exact ⟨t, rest.text, rfl⟩
    · exact (ih hk).trans (List.suffix_append (t ++ l.label) rest.text).isInfix

end lemmas

end Html

namespace Strings

/-! ### A pass over a text -/

/-- The document that a text becomes when its matches are made links. -/
def linkify (scheme : List Char) : List (Piece Char) → Html
  | [] => .plain []
  | .char c :: pieces => (linkify scheme pieces).prepend [c]
  | .found m :: pieces => .link m.before ⟨scheme ++ m.body, m.body⟩ ((linkify scheme pieces).prepend m.after)

section linkify

variable {p : Pattern Char} {scheme : List Char}

/-- Substituting a link for each match writes this document. -/
theorem render_linkify {format : Captures Char → List Char}
    (hformat : ∀ n s, ∀ m ∈ p.matchesAt n s, format m = m.before ++ anchor (scheme ++ m.body) m.body ++ m.after)
    (s : List Char) : (linkify scheme (scan p s)).render = substitute p format s := by
  unfold substitute scan
  generalize s.length = n
  induction s using scan_induction (p := p) (n := n) with
  | nil => rfl
  | char c s _ ih => simp [linkify, ih]
  | found m s hm _ ih => simp [linkify, Html.render, ih, hformat n _ m hm]

private theorem text_linkify (s : List Char) : (linkify scheme (scan p s)).text = s := by
  unfold scan
  generalize s.length = n
  induction s using scan_induction (p := p) (n := n) with
  | nil => rfl
  | char c s _ ih => simp [linkify, ih]
  | found m s hm _ ih => simp [linkify, Html.text, Captures.text, ih]

private theorem links_linkify {s : List Char} {l : Link} (hl : l ∈ (linkify scheme (scan p s)).links) :
    l.label ∈ p.body.matches' ∧ l.href = scheme ++ l.label := by
  unfold scan at hl
  generalize s.length = n at hl
  induction s using scan_induction (p := p) (n := n) with
  | nil => cases hl
  | char c s _ ih =>
    rw [linkify, Html.links_prepend] at hl
    exact ih hl
  | found m s hm _ ih =>
    rw [linkify, Html.links, Html.links_prepend] at hl
    rcases List.mem_cons.1 hl with rfl | hl
    · exact ⟨Pattern.body_of_mem_matchesAt hm, rfl⟩
    · exact ih hl

/-- A match of a bordered pattern that is not at the start of the text. -/
theorem mem_matchesAt_bordered {cs : List Char} {body : RegularExpression Char} {n : Nat} {c : Char}
    {u s : List Char} (hc : [c] ∈ (noneOf cs).matches') (hu : u ∈ body.matches') :
    ⟨[c], u, []⟩ ∈ (bordered cs body).matchesAt n (c :: (u ++ s)) := by
  refine Pattern.mem_matchesAt.2 ⟨u ++ s, s, s, ?_, mem_rests.2 ⟨u, hu, rfl⟩, ?_, ?_⟩
  · unfold bordered
    rw [Anchored.rests, List.mem_append]
    exact .inr (mem_rests.2 ⟨[c], hc, rfl⟩)
  · exact mem_rests.2 ⟨[], rfl, rfl⟩
  · rw [taken_append, show c :: (u ++ s) = [c] ++ (u ++ s) from rfl, taken_append]
    simp [taken]

/-- What is linked by a bordered pattern has at most one character before it and none after it. -/
theorem captures_bordered {cs : List Char} {body : RegularExpression Char} {n : Nat} {s : List Char}
    {m : Captures Char} (hm : m ∈ (bordered cs body).matchesAt n s) : m.before.length ≤ 1 ∧ m.after = [] := by
  obtain ⟨t, u, v, ht, -, hv, rfl⟩ := Pattern.mem_matchesAt.1 hm
  constructor
  · rcases List.mem_append.1 ht with ht | ht
    · rw [Anchored.rests, List.mem_ite_nil_right, List.mem_singleton] at ht
      simp [taken, ht.2]
    · obtain ⟨w, hw, rfl⟩ := mem_rests.1 ht
      obtain ⟨c, -, rfl⟩ := mem_oneOf.1 hw
      rw [taken_append]
      exact Nat.le_refl 1
  · obtain ⟨w, hw, rfl⟩ := mem_rests.1 hv
    rw [taken_append]
    exact hw

private theorem text_ne_nil {p : Pattern Char} (hbody : ∀ u ∈ p.body.matches', 2 ≤ u.length) {n : Nat} {s : List Char}
    {m : Captures Char} (hm : m ∈ p.matchesAt n s) : m.text ≠ [] := by
  intro htext
  have hlength := hbody m.body (Pattern.body_of_mem_matchesAt hm)
  unfold Captures.text at htext
  rw [List.append_eq_nil_iff, List.append_eq_nil_iff] at htext
  rw [htext.1.2] at hlength
  simp at hlength

/-- A text in which a bordered pattern would find something, other than at the start. -/
def Contains (cs : List Char) (body : RegularExpression Char) (t : List Char) : Prop :=
  ∃ c u, [c] ∈ (noneOf cs).matches' ∧ u ∈ body.matches' ∧ c :: u <:+: t

theorem Contains.mono {cs : List Char} {body : RegularExpression Char} {t t' : List Char}
    (h : Contains cs body t) (ht : t <:+: t') : Contains cs body t' := by
  obtain ⟨c, u, hc, hu, hsub⟩ := h
  exact ⟨c, u, hc, hu, hsub.trans ht⟩

variable {cs : List Char} {body : RegularExpression Char}

/-- Where a character is passed over, nothing to be linked begins after it. -/
theorem not_prefix_of_passed (hbody : ∀ u ∈ body.matches', 2 ≤ u.length) {n : Nat} {c : Char} {s : List Char}
    (hpassed : ∀ m ∈ ((bordered cs body).matchesAt n (c :: s)).head?, m.text = []) {d : Char} {u : List Char}
    (hd : [d] ∈ (noneOf cs).matches') (hu : u ∈ body.matches') : ¬ d :: u <+: c :: s := by
  rintro ⟨rest, hrest⟩
  rw [← hrest] at hpassed
  obtain ⟨m, hfirst, hm⟩ := head?_matchesAt (mem_matchesAt_bordered (n := n) (s := rest) hd hu)
  exact text_ne_nil hbody hm (hpassed m hfirst)

/-- No stretch of text between the links contains anything more to link. -/
theorem stretches_linkify (hbody : ∀ u ∈ body.matches', 2 ≤ u.length) (s : List Char) {t : List Char}
    (ht : t ∈ (linkify scheme (scan (bordered cs body) s)).stretches) : ¬ Contains cs body t := by
  unfold scan at ht
  generalize s.length = n at ht
  have hgen : (linkify scheme (scanFrom (bordered cs body) n 0 s)).first <+: s ∧
      ∀ t ∈ (linkify scheme (scanFrom (bordered cs body) n 0 s)).stretches, ¬ Contains cs body t := by
    clear ht
    induction s using scan_induction (p := bordered cs body) (n := n) with
    | nil =>
      refine ⟨List.prefix_rfl, ?_⟩
      intro t ht
      rw [List.mem_singleton.1 ht]
      rintro ⟨c, u, -, -, hsub⟩
      simp at hsub
    | char c s hpassed ih =>
      rw [linkify, Html.first_prepend, Html.stretches_prepend]
      have hstart : [c] ++ (linkify scheme (scanFrom (bordered cs body) n 0 s)).first <+: c :: s :=
        (List.prefix_append_right_inj [c]).2 ih.1
      refine ⟨hstart, ?_⟩
      intro t ht
      rcases List.mem_cons.1 ht with rfl | ht
      · rintro ⟨d, u, hd, hu, hsub⟩
        rcases List.infix_cons_iff.1 hsub with hsub | hsub
        · exact not_prefix_of_passed hbody hpassed hd hu (hsub.trans hstart)
        · exact ih.2 _ (Html.first_mem_stretches _) ⟨d, u, hd, hu, hsub⟩
      · refine ih.2 t ?_
        rw [Html.stretches_eq]
        exact List.mem_cons_of_mem _ ht
    | found m s hm _ ih =>
      obtain ⟨hbefore, hafter⟩ := captures_bordered hm
      rw [linkify, Html.first, Html.stretches, hafter, Html.stretches_prepend, List.nil_append, ← Html.stretches_eq]
      refine ⟨⟨m.body ++ m.after ++ s, by simp [Captures.text]⟩, ?_⟩
      intro t ht
      rcases List.mem_cons.1 ht with rfl | ht
      · rintro ⟨d, u, -, hu, hsub⟩
        have hle := hsub.length_le
        have hu := hbody u hu
        rw [List.length_cons] at hle
        omega
      · exact ih.2 t ht
  exact hgen.2 t ht

/-- Nothing to link is left at the start of the text. -/
theorem first_linkify (hbody : ∀ u ∈ body.matches', 2 ≤ u.length) {s u : List Char} (hu : u ∈ body.matches') :
    ¬ u <+: (linkify scheme (scan (bordered cs body) s)).first := by
  intro hstart
  have hlength := hbody u hu
  have hs : u <+: s := by
    have h := Html.first_prefix_text (linkify scheme (scan (bordered cs body) s))
    rw [text_linkify] at h
    exact hstart.trans h
  obtain ⟨rest, rfl⟩ := hs
  have hmatch : ⟨[], u, []⟩ ∈ (bordered cs body).matchesAt (u ++ rest).length (u ++ rest) := by
    refine Pattern.mem_matchesAt.2 ⟨u ++ rest, rest, rest, ?_, mem_rests.2 ⟨u, hu, rfl⟩, ?_, ?_⟩
    · unfold bordered
      simp [Anchored.rests]
    · exact mem_rests.2 ⟨[], rfl, rfl⟩
    · rw [taken_append]
      simp [taken]
  obtain ⟨c, w, hw⟩ := List.exists_cons_of_ne_nil (show u ++ rest ≠ [] by
    intro hnil
    rw [(List.append_eq_nil_iff.1 hnil).1] at hlength
    simp at hlength)
  unfold scan at hstart
  rw [hw] at hstart hmatch
  rcases scanFrom_cons (p := bordered cs body) (n := (c :: w).length) c w with ⟨-, hnone⟩ | ⟨m, s, hm, -, -, heq⟩
  · obtain ⟨m, hfirst, hm⟩ := head?_matchesAt hmatch
    exact text_ne_nil hbody hm (hnone m hfirst)
  · rw [heq, linkify, Html.first] at hstart
    have hle := hstart.length_le
    have hbefore := (captures_bordered hm).1
    omega

end linkify

/-! ### Looking for the tags -/

section find

variable {c : Char} {needle s t : List Char}

private theorem find_of_prefix (h : needle <+: s) : find needle s = some 0 := by
  cases s with
  | nil => rw [find, if_pos (List.isPrefixOf_iff_prefix.2 h)]
  | cons d s => rw [find, if_pos (List.isPrefixOf_iff_prefix.2 h)]

private theorem find_cons_of_not_prefix {d : Char} (h : ¬ needle <+: d :: s) :
    find needle (d :: s) = (find needle s).map (· + 1) := by
  rw [find, if_neg (fun hstart => h (List.isPrefixOf_iff_prefix.1 hstart))]

/-- What does not hold the first character is skipped. -/
theorem find_skip (h : c ∉ t) : find (c :: needle) (t ++ s) = (find (c :: needle) s).map (· + t.length) := by
  induction t with
  | nil => simp
  | cons d t ih =>
    rw [List.mem_cons, not_or] at h
    have hstart : ¬ c :: needle <+: d :: (t ++ s) := by
      rw [List.cons_prefix_cons]
      exact fun hd => h.1 hd.1
    rw [List.cons_append, find_cons_of_not_prefix hstart, ih h.2, Option.map_map]
    congr 1

/-- A link, with the characters of its tags. -/
theorem anchor_eq (href label : List Char) :
    anchor href label =
      '<' :: 'a' :: ' ' :: 'h' :: 'r' :: 'e' :: 'f' :: '=' :: '"' ::
        (href ++ '"' :: '>' :: (label ++ ['<', '/', 'a', '>'])) := by
  have hopen : "<a href=\"".toList = ['<', 'a', ' ', 'h', 'r', 'e', 'f', '=', '"'] := by simp
  have hmiddle : "\">".toList = ['"', '>'] := by simp
  have hclose : "</a>".toList = ['<', '/', 'a', '>'] := by simp
  unfold anchor
  rw [hopen, hmiddle, hclose]
  simp only [List.append_assoc, List.cons_append, List.nil_append]

private theorem length_anchor (href label : List Char) :
    (anchor href label).length = 9 + href.length + 2 + label.length + 4 := by
  rw [anchor_eq]
  simp only [List.length_cons, List.length_append, List.length_nil]
  omega

private theorem find_anchor (ht : '<' ∉ t) (href label : List Char) :
    find "<a ".toList (t ++ (anchor href label ++ s)) = some t.length := by
  have hneedle : "<a ".toList = ['<', 'a', ' '] := by simp
  have hstart : ['<', 'a', ' '] <+: anchor href label ++ s := by
    rw [anchor_eq]
    exact List.prefix_append ['<', 'a', ' '] _
  rw [hneedle, find_skip ht, find_of_prefix hstart, Option.map_some, Nat.zero_add]

/-- The closing tag of a link is the first one after its opening tag. -/
theorem find_closing {href label : List Char} (hhref : '<' ∉ href) (hlabel : '<' ∉ label) (s : List Char) :
    find "</a>".toList (anchor href label ++ s) = some (9 + href.length + 2 + label.length) := by
  have hneedle : "</a>".toList = ['<', '/', 'a', '>'] := by simp
  have heq : anchor href label ++ s =
      '<' :: ((['a', ' ', 'h', 'r', 'e', 'f', '=', '"'] ++ href ++ ['"', '>'] ++ label) ++ (['<', '/', 'a', '>'] ++ s)) := by
    rw [anchor_eq]
    simp only [List.append_assoc, List.cons_append, List.nil_append]
  have hinner : '<' ∉ ['a', ' ', 'h', 'r', 'e', 'f', '=', '"'] ++ href ++ ['"', '>'] ++ label := by
    simp [hhref, hlabel]
  have hfirst : ¬ ['<', '/', 'a', '>'] <+: '<' :: ((['a', ' ', 'h', 'r', 'e', 'f', '=', '"'] ++ href ++ ['"', '>'] ++
      label) ++ (['<', '/', 'a', '>'] ++ s)) := by
    simp [List.cons_prefix_cons]
  rw [hneedle, heq, find_cons_of_not_prefix hfirst, find_skip hinner, find_of_prefix (List.prefix_append _ s)]
  simp only [Option.map_some, List.length_append, List.length_cons, List.length_nil, Option.some.injEq]
  omega

end find

/-! ### A pass over a document -/

/-- No tag is opened in the texts or in the targets. -/
def TagFree (h : Html) : Prop := '<' ∉ h.text ∧ ∀ l ∈ h.links, '<' ∉ l.href

private theorem replaceFrom_render {replaceCallback : List Char → List Char} {f : List Char → Html}
    (hf : ∀ t, replaceCallback t = (f t).render) {htmlIn : List Char} {h : Html} (hfree : TagFree h)
    {rounds pos : Nat} (hrounds : h.links.length < rounds) (hpos : htmlIn.drop pos = h.render) :
    replaceFrom htmlIn replaceCallback rounds pos = some (h.replaceTexts f).render := by
  induction h generalizing rounds pos with
  | plain t =>
    obtain ⟨rounds, rfl⟩ := Nat.exists_eq_succ_of_ne_zero (by omega : rounds ≠ 0)
    have hnone : findFrom htmlIn "<a ".toList pos = none := by
      have hneedle : "<a ".toList = ['<', 'a', ' '] := by simp
      have hplain : find ['<', 'a', ' '] (Html.plain t).render = none := find_eq_none hfree.1
      unfold findFrom
      rw [hpos, hneedle, hplain]
      rfl
    rw [replaceFrom, hnone, hpos]
    exact congrArg some (hf t)
  | link t l rest ih =>
    obtain ⟨rounds, rfl⟩ := Nat.exists_eq_succ_of_ne_zero (by omega : rounds ≠ 0)
    obtain ⟨htext, hhrefs⟩ := hfree
    simp only [Html.text, List.mem_append, not_or] at htext
    have hhref := hhrefs l (by simp [Html.links])
    have hrender : (Html.link t l rest).render = t ++ (anchor l.href l.label ++ rest.render) := by simp [Html.render]
    rw [hrender] at hpos
    -- the next link begins behind the text and ends with its own closing tag
    have hbegin : findFrom htmlIn "<a ".toList pos = some (t.length + pos) := by
      unfold findFrom
      rw [hpos, find_anchor htext.1.1]
      rfl
    have hdrop : htmlIn.drop (t.length + pos) = anchor l.href l.label ++ rest.render := by
      rw [Nat.add_comm, ← List.drop_drop, hpos, List.drop_left]
    have hend : ((findFrom htmlIn "</a>".toList (t.length + pos)).map (· + 4)).getD 3 =
        t.length + pos + (anchor l.href l.label).length := by
      unfold findFrom
      rw [hdrop, find_closing hhref htext.1.2, length_anchor]
      simp
      omega
    have hdropEnd : htmlIn.drop (t.length + pos + (anchor l.href l.label).length) = rest.render := by
      rw [← List.drop_drop, hdrop, List.drop_left]
    have hbefore : between htmlIn pos (t.length + pos) = t := by
      unfold between
      rw [hpos, Nat.add_sub_cancel, List.take_left]
    have hlink : between htmlIn (t.length + pos) (t.length + pos + (anchor l.href l.label).length) =
        anchor l.href l.label := by
      unfold between
      rw [hdrop, Nat.add_sub_cancel_left, List.take_left]
    have hfewer : rest.links.length < rounds := by
      simp only [Html.links, List.length_cons] at hrounds
      omega
    have hrest := ih ⟨htext.2, fun k hk => hhrefs k (List.mem_cons_of_mem _ hk)⟩ hfewer hdropEnd
    rw [replaceFrom, hbegin]
    dsimp only
    rw [hend, if_neg (by omega), hrest, hbefore, hlink, hf t]
    simp [Html.replaceTexts]

private theorem length_links_le (h : Html) : h.links.length ≤ h.render.length := by
  induction h with
  | plain t => exact Nat.zero_le _
  | link t l rest ih =>
    simp only [Html.links, Html.render, List.length_cons, List.length_append, length_anchor]
    omega

/-- A pass replaces the texts of a document. -/
theorem replaceInNonLinkParts_render {replaceCallback : List Char → List Char} {f : List Char → Html}
    (hf : ∀ t, replaceCallback t = (f t).render) {h : Html} (hfree : TagFree h) :
    replaceInNonLinkParts h.render replaceCallback = some (h.replaceTexts f).render :=
  replaceFrom_render hf hfree (Nat.lt_succ_of_le (length_links_le h)) rfl

/-! ### Escaping -/

private theorem notMem_of_all {cs forbidden : List Char} (h : cs.all (fun c => !forbidden.contains c) = true) {d : Char}
    (hd : d ∈ cs) : d ∉ forbidden := by
  have hfree := List.all_eq_true.1 h d hd
  simpa using hfree

/-- An escaped character opens no tag, closes none and ends no attribute. -/
theorem mem_htmlEscapeChar {c d : Char} (h : d ∈ htmlEscapeChar c) : d ∉ ['<', '>', '"'] := by
  unfold htmlEscapeChar at h
  split at h
  · exact notMem_of_all (by decide) h
  · exact notMem_of_all (by decide) h
  · exact notMem_of_all (by decide) h
  · exact notMem_of_all (by decide) h
  · next hamp hquot hlt hgt =>
    rw [List.mem_singleton.1 h]
    simp only [List.mem_cons, List.not_mem_nil, or_false, not_or]
    exact ⟨hlt, hgt, hquot⟩

private theorem mem_htmlEscape {plaintext : List Char} {d : Char} (h : d ∈ htmlEscape plaintext) : d ∉ ['<', '>', '"'] := by
  obtain ⟨c, -, hd⟩ := List.mem_flatMap.1 h
  exact mem_htmlEscapeChar hd

/-- What a reader of HTML does with the entities that `htmlEscape` writes. -/
def unescape : List Char → List Char
  | '&' :: 'a' :: 'm' :: 'p' :: ';' :: s => '&' :: unescape s
  | '&' :: 'q' :: 'u' :: 'o' :: 't' :: ';' :: s => '"' :: unescape s
  | '&' :: 'l' :: 't' :: ';' :: s => '<' :: unescape s
  | '&' :: 'g' :: 't' :: ';' :: s => '>' :: unescape s
  | c :: s => c :: unescape s
  | [] => []

private theorem unescape_cons {c : Char} (h : c ≠ '&') (s : List Char) : unescape (c :: s) = c :: unescape s := by
  conv_lhs => unfold unescape
  split <;> simp_all

private theorem unescape_append (c : Char) (s : List Char) : unescape (htmlEscapeChar c ++ s) = c :: unescape s := by
  unfold htmlEscapeChar
  split
  · simp [unescape]
  · simp [unescape]
  · simp [unescape]
  · simp [unescape]
  · next hamp hquot hlt hgt => exact unescape_cons hamp s

private theorem unescape_htmlEscape (plaintext : List Char) : unescape (htmlEscape plaintext) = plaintext := by
  induction plaintext with
  | nil => rfl
  | cons c plaintext ih =>
    have hcons : htmlEscape (c :: plaintext) = htmlEscapeChar c ++ htmlEscape plaintext := List.flatMap_cons
    rw [hcons, unescape_append, ih]

/-- What a reader of HTML does with tags: everything up to the next `>` is left out. -/
def dropTags : Bool → List Char → List Char
  | _, [] => []
  | false, c :: s => if c = '<' then dropTags true s else c :: dropTags false s
  | true, c :: s => if c = '>' then dropTags false s else dropTags true s

private theorem dropTags_append {t : List Char} (ht : '<' ∉ t) (s : List Char) :
    dropTags false (t ++ s) = t ++ dropTags false s := by
  induction t with
  | nil => rfl
  | cons c t ih =>
    rw [List.mem_cons, not_or] at ht
    rw [List.cons_append, dropTags, if_neg (Ne.symm ht.1), ih ht.2, List.cons_append]

private theorem dropTags_tag {t : List Char} (ht : '>' ∉ t) (s : List Char) :
    dropTags true (t ++ '>' :: s) = dropTags false s := by
  induction t with
  | nil => rfl
  | cons c t ih =>
    rw [List.mem_cons, not_or] at ht
    rw [List.cons_append, dropTags, if_neg (Ne.symm ht.1), ih ht.2]

private theorem dropTags_anchor {href label : List Char} (hhref : '>' ∉ href) (hlabel : '<' ∉ label) (s : List Char) :
    dropTags false (anchor href label ++ s) = label ++ dropTags false s := by
  have heq : anchor href label ++ s =
      '<' :: ((['a', ' ', 'h', 'r', 'e', 'f', '=', '"'] ++ href ++ ['"']) ++
        '>' :: (label ++ '<' :: (['/', 'a'] ++ '>' :: s))) := by
    rw [anchor_eq]
    simp only [List.append_assoc, List.cons_append, List.nil_append]
  have hopen : '>' ∉ ['a', ' ', 'h', 'r', 'e', 'f', '=', '"'] ++ href ++ ['"'] := by
    simp [hhref]
  have hclose : '>' ∉ ['/', 'a'] := by simp
  rw [heq, dropTags, if_pos rfl, dropTags_tag hopen, dropTags_append hlabel, dropTags, if_pos rfl, dropTags_tag hclose]

/-- Without the tags, a document is its text. -/
theorem dropTags_render {h : Html} (hfree : TagFree h) (hhrefs : ∀ l ∈ h.links, '>' ∉ l.href) :
    dropTags false h.render = h.text := by
  induction h with
  | plain t =>
    have happend := dropTags_append hfree.1 []
    rw [Html.text, List.append_nil] at happend
    rw [Html.render, Html.text, happend]
    exact List.append_nil t
  | link t l rest ih =>
    obtain ⟨htext, hopen⟩ := hfree
    simp only [Html.text, List.mem_append, not_or] at htext
    have hrest := ih ⟨htext.2, fun k hk => hopen k (List.mem_cons_of_mem _ hk)⟩
      (fun k hk => hhrefs k (List.mem_cons_of_mem _ hk))
    rw [Html.render, Html.text, List.append_assoc, dropTags_append htext.1.1,
      dropTags_anchor (hhrefs l List.mem_cons_self) htext.1.2, hrest, List.append_assoc]

/-- Links are opened by `<a href="` and closed by `</a>`, in turn, and no other tag is begun. -/
def tagsBalanced : Bool → List Char → Bool
  | inLink, [] => !inLink
  | inLink, c :: s =>
    if c = '<' then
      (if inLink then ['/', 'a', '>'] else ['a', ' ', 'h', 'r', 'e', 'f', '=', '"']).isPrefixOf s && tagsBalanced (!inLink) s
    else tagsBalanced inLink s

private theorem tagsBalanced_append {t : List Char} (ht : '<' ∉ t) (inLink : Bool) (s : List Char) :
    tagsBalanced inLink (t ++ s) = tagsBalanced inLink s := by
  induction t with
  | nil => rfl
  | cons c t ih =>
    rw [List.mem_cons, not_or] at ht
    rw [List.cons_append, tagsBalanced, if_neg (Ne.symm ht.1), ih ht.2]

private theorem tagsBalanced_tag {inLink : Bool} {tag : List Char}
    (htag : tag = if inLink then ['/', 'a', '>'] else ['a', ' ', 'h', 'r', 'e', 'f', '=', '"']) (s : List Char) :
    tagsBalanced inLink ('<' :: (tag ++ s)) = tagsBalanced (!inLink) s := by
  have hbegun : (if inLink then ['/', 'a', '>'] else ['a', ' ', 'h', 'r', 'e', 'f', '=', '"']).isPrefixOf (tag ++ s) = true := by
    rw [← htag, List.isPrefixOf_iff_prefix]
    exact List.prefix_append tag s
  have hplain : '<' ∉ tag := by
    rw [htag]
    cases inLink <;> decide
  rw [tagsBalanced, if_pos rfl, hbegun, Bool.true_and, tagsBalanced_append hplain]

private theorem tagsBalanced_anchor {href label : List Char} (hhref : '<' ∉ href) (hlabel : '<' ∉ label) (s : List Char) :
    tagsBalanced false (anchor href label ++ s) = tagsBalanced false s := by
  have heq : anchor href label ++ s =
      '<' :: (['a', ' ', 'h', 'r', 'e', 'f', '=', '"'] ++ ((href ++ ['"', '>'] ++ label) ++ '<' :: (['/', 'a', '>'] ++ s))) := by
    rw [anchor_eq]
    simp only [List.append_assoc, List.cons_append, List.nil_append]
  have hinner : '<' ∉ href ++ ['"', '>'] ++ label := by
    simp [hhref, hlabel]
  rw [heq, tagsBalanced_tag (by rfl), tagsBalanced_append hinner]
  exact tagsBalanced_tag (by rfl) s

/-- The tags of a document are those of its links. -/
theorem tagsBalanced_render {h : Html} (hfree : TagFree h) : tagsBalanced false h.render = true := by
  induction h with
  | plain t =>
    have happend := tagsBalanced_append hfree.1 false []
    rw [Html.text, List.append_nil] at happend
    exact happend
  | link t l rest ih =>
    obtain ⟨htext, hopen⟩ := hfree
    simp only [Html.text, List.mem_append, not_or] at htext
    rw [Html.render, List.append_assoc, tagsBalanced_append htext.1.1,
      tagsBalanced_anchor (hopen l List.mem_cons_self) htext.1.2]
    exact ih ⟨htext.2, fun k hk => hopen k (List.mem_cons_of_mem _ hk)⟩

/-! ### The document of a message -/

/-- A link to the web address that it shows. -/
def IsWebLink (l : Link) : Prop := l.label ∈ httpUri.matches' ∧ l.href = l.label

/-- A link to the Kullo address that it shows. -/
def IsKulloLink (l : Link) : Prop :=
  l.label ∈ kulloAddressRegex.matches' ∧ l.href = kulloAddressScheme ++ [':'] ++ l.label

def webDocument (text : List Char) : Html :=
  (((Html.plain (htmlEscape text)).replaceTexts fun t => linkify [] (scan linksInBracketsRegex t)).replaceTexts
    fun t => linkify [] (scan linksBeforePunctuationRegex t)).replaceTexts
    fun t => linkify [] (scan linksInMessageRegex t)

def messageDocument (text : List Char) (includeKulloAddresses : Bool) : Html :=
  if includeKulloAddresses then
    (webDocument text).replaceTexts fun t => linkify (kulloAddressScheme ++ [':']) (scan kulloAddressInMessageRegex t)
  else webDocument text

/-- A document with the escaped text of a message, and with web links and, if they are included, Kullo links. -/
structure IsDocument (text : List Char) (includeKulloAddresses : Bool) (h : Html) : Prop where
  text : h.text = htmlEscape text
  links : ∀ l ∈ h.links, IsWebLink l ∨ includeKulloAddresses = true ∧ IsKulloLink l

namespace IsDocument

variable {text : List Char} {includeKulloAddresses : Bool} {h : Html}

/-- Neither the text nor the target of a link can be taken for a part of a tag. -/
theorem mem_text (hdoc : IsDocument text includeKulloAddresses h) {d : Char} (hd : d ∈ h.text) : d ∉ ['<', '>', '"'] := by
  rw [hdoc.text] at hd
  exact mem_htmlEscape hd

private theorem mem_href (hdoc : IsDocument text includeKulloAddresses h) {l : Link} (hl : l ∈ h.links) {d : Char}
    (hd : d ∈ l.href) : d ∉ ['<', '>', '"'] := by
  have hlabel : ∀ d ∈ l.label, d ∉ ['<', '>', '"'] :=
    fun d hd => hdoc.mem_text ((Html.infix_text_of_mem_links h hl).subset hd)
  rcases hdoc.links l hl with ⟨-, hhref⟩ | ⟨-, -, hhref⟩
  · exact hlabel d (hhref ▸ hd)
  · rw [hhref, List.mem_append] at hd
    rcases hd with hd | hd
    · exact notMem_of_all (by decide) hd
    · exact hlabel d hd

private theorem tagFree (hdoc : IsDocument text includeKulloAddresses h) : TagFree h :=
  ⟨fun hd => hdoc.mem_text hd (by simp), fun _ hl hd => hdoc.mem_href hl hd (by simp)⟩

/-- A pass of links of one kind. -/
theorem replaceTexts (hdoc : IsDocument text includeKulloAddresses h) {p : Pattern Char} {scheme : List Char}
    (hlinks : ∀ l : Link, l.label ∈ p.body.matches' → l.href = scheme ++ l.label →
      IsWebLink l ∨ includeKulloAddresses = true ∧ IsKulloLink l) :
    IsDocument text includeKulloAddresses (h.replaceTexts fun t => linkify scheme (scan p t)) := by
  constructor
  · rw [Html.text_replaceTexts h text_linkify]
    exact hdoc.text
  · intro l hl
    rcases (Html.mem_links_replaceTexts h).1 hl with hl | ⟨t, -, hl⟩
    · exact hdoc.links l hl
    · obtain ⟨hlabel, hhref⟩ := links_linkify hl
      exact hlinks l hlabel hhref

end IsDocument

private theorem isDocument_plain (text : List Char) (includeKulloAddresses : Bool) :
    IsDocument text includeKulloAddresses (.plain (htmlEscape text)) :=
  ⟨rfl, fun _ hl => (List.not_mem_nil hl).elim⟩

private theorem isDocument_webDocument (text : List Char) (includeKulloAddresses : Bool) :
    IsDocument text includeKulloAddresses (webDocument text) := by
  have hweb : ∀ l : Link, l.label ∈ httpUri.matches' → l.href = [] ++ l.label →
      IsWebLink l ∨ includeKulloAddresses = true ∧ IsKulloLink l :=
    fun l hlabel hhref => .inl ⟨hlabel, hhref⟩
  exact (((isDocument_plain text includeKulloAddresses).replaceTexts hweb).replaceTexts hweb).replaceTexts hweb

private theorem isDocument_messageDocument (text : List Char) (includeKulloAddresses : Bool) :
    IsDocument text includeKulloAddresses (messageDocument text includeKulloAddresses) := by
  unfold messageDocument
  split
  · next hinclude =>
    exact (isDocument_webDocument text includeKulloAddresses).replaceTexts
      fun l hlabel hhref => .inr ⟨hinclude, hlabel, hhref⟩
  · exact isDocument_webDocument text includeKulloAddresses

/-! ### The passes write the document -/

private theorem substitute_linksInBrackets (t : List Char) :
    substitute linksInBracketsRegex (fun m => "(".toList ++ anchor m.body m.body ++ ")".toList) t =
      (linkify [] (scan linksInBracketsRegex t)).render := by
  refine (render_linkify ?_ t).symm
  intro n s m hm
  obtain ⟨t, u, v, ht, -, hv, rfl⟩ := Pattern.mem_matchesAt.1 hm
  obtain ⟨w, hw, rfl⟩ := mem_rests.1 ht
  obtain ⟨x, hx, rfl⟩ := mem_rests.1 hv
  have hopen : "(".toList = ['('] := by simp
  have hclose : ")".toList = [')'] := by simp
  rw [taken_append, taken_append, mem_literal.1 hw, mem_literal.1 hx, hopen, hclose, List.nil_append]

private theorem substitute_linksBeforePunctuation (t : List Char) :
    substitute linksBeforePunctuationRegex (fun m => anchor m.body m.body ++ m.after) t =
      (linkify [] (scan linksBeforePunctuationRegex t)).render := by
  refine (render_linkify ?_ t).symm
  intro n s m hm
  obtain ⟨t, u, v, ht, -, -, rfl⟩ := Pattern.mem_matchesAt.1 hm
  obtain ⟨w, hw, rfl⟩ := mem_rests.1 ht
  rw [taken_append, show w = [] from hw, List.nil_append, List.nil_append]

private theorem substitute_bordered (cs : List Char) (body : RegularExpression Char) (scheme t : List Char) :
    substitute (bordered cs body) (fun m => m.before ++ anchor (scheme ++ m.body) m.body) t =
      (linkify scheme (scan (bordered cs body) t)).render := by
  refine (render_linkify ?_ t).symm
  intro n s m hm
  rw [(captures_bordered hm).2, List.append_nil]

/-- The loops end, slice valid ranges, and write the document. -/
theorem messageTextToHtml_eq (text : List Char) (includeKulloAddresses : Bool) :
    messageTextToHtml text includeKulloAddresses = some (messageDocument text includeKulloAddresses).render := by
  have hplain := isDocument_plain text true
  have hweb : ∀ l : Link, l.label ∈ httpUri.matches' → l.href = [] ++ l.label →
      IsWebLink l ∨ true = true ∧ IsKulloLink l := fun l hlabel hhref => .inl ⟨hlabel, hhref⟩
  have hbrackets := hplain.replaceTexts (p := linksInBracketsRegex) hweb
  have hpunctuation := hbrackets.replaceTexts (p := linksBeforePunctuationRegex) hweb
  have hlinks : highlightWebLinks (htmlEscape text) = some (webDocument text).render := by
    unfold highlightWebLinks
    rw [show htmlEscape text = (Html.plain (htmlEscape text)).render from rfl,
      replaceInNonLinkParts_render substitute_linksInBrackets hplain.tagFree]
    refine Eq.trans (Option.bind_some ..) ?_
    rw [replaceInNonLinkParts_render substitute_linksBeforePunctuation hbrackets.tagFree]
    refine Eq.trans (Option.bind_some ..) ?_
    exact replaceInNonLinkParts_render (substitute_bordered alphanumeric httpUri []) hpunctuation.tagFree
  unfold messageTextToHtml
  rw [hlinks]
  refine Eq.trans (Option.bind_some ..) ?_
  unfold messageDocument
  split
  · exact replaceInNonLinkParts_render
      (substitute_bordered ('-' :: '.' :: '#' :: alphanumeric) kulloAddressRegex (kulloAddressScheme ++ [':']))
      (isDocument_webDocument text true).tagFree
  · rfl

/-! ### What is linked -/

private theorem length_mul {r t : RegularExpression Char} {j k : Nat} (hr : ∀ w ∈ r.matches', j ≤ w.length)
    (ht : ∀ w ∈ t.matches', k ≤ w.length) : ∀ w ∈ (r * t).matches', j + k ≤ w.length := by
  intro w hw
  rw [RegularExpression.matches'_mul] at hw
  obtain ⟨u, hu, v, hv, rfl⟩ := Language.mem_mul.1 hw
  have hj := hr u hu
  have hk := ht v hv
  rw [List.length_append]
  omega

private theorem length_any (r : RegularExpression Char) : ∀ w ∈ r.matches', 0 ≤ w.length := fun _ _ => Nat.zero_le _

private theorem length_literal (cs : List Char) : ∀ w ∈ (literal cs).matches', cs.length ≤ w.length := by
  intro w hw
  rw [mem_literal.1 hw]

private theorem length_httpUri : ∀ u ∈ httpUri.matches', 2 ≤ u.length := by
  have hscheme := length_mul (length_mul (length_literal "http".toList) (length_any (optional (literal ['s']))))
    (length_literal "://".toList)
  intro u hu
  have hlength := length_mul (length_mul (length_mul (length_mul (length_mul hscheme (length_any _)) (length_any _))
    (length_any _)) (length_any _)) (length_any _) u hu
  have hhttp : "http".toList.length = 4 := by simp
  rw [hhttp] at hlength
  omega

private theorem length_kulloAddressRegex : ∀ u ∈ kulloAddressRegex.matches', 2 ≤ u.length := by
  have hname : ∀ w ∈ (oneOrMore (oneOf alphanumeric)).matches', 1 ≤ w.length := by
    intro w hw
    exact List.length_pos_iff.2 (mem_oneOrMore_oneOf.1 hw).1
  intro u hu
  exact length_mul (length_mul (length_mul (length_mul hname (length_any _)) (length_literal ['#'])) (length_any _))
    (length_any _) u hu

/-- Safety: the HTML of a message is its escaped text with links set in it.  A link shows the web address or, if they are
included, the Kullo address that it leads to, and no character of the text can end an attribute or open or close a
tag. -/
theorem messageTextToHtml_safe (text : List Char) (includeKulloAddresses : Bool) :
    ∃ h : Html, messageTextToHtml text includeKulloAddresses = some h.render ∧ h.text = htmlEscape text ∧
      (∀ l ∈ h.links, IsWebLink l ∨ includeKulloAddresses = true ∧ IsKulloLink l) ∧
      (∀ d ∈ h.text, d ∉ ['<', '>', '"']) ∧ ∀ l ∈ h.links, ∀ d ∈ l.href, d ∉ ['<', '>', '"'] := by
  have hdoc := isDocument_messageDocument text includeKulloAddresses
  exact ⟨_, messageTextToHtml_eq text includeKulloAddresses, hdoc.text, hdoc.links, fun _ hd => hdoc.mem_text hd,
    fun _ hl _ hd => hdoc.mem_href hl hd⟩

/-- Nothing is lost: who reads the HTML sees the text of the message. -/
theorem messageTextToHtml_shows (text : List Char) (includeKulloAddresses : Bool) :
    (messageTextToHtml text includeKulloAddresses).map (fun html => unescape (dropTags false html)) = some text := by
  have hdoc := isDocument_messageDocument text includeKulloAddresses
  have hhrefs : ∀ l ∈ (messageDocument text includeKulloAddresses).links, '>' ∉ l.href :=
    fun l hl hd => hdoc.mem_href hl hd (by simp)
  rw [messageTextToHtml_eq, Option.map_some, dropTags_render hdoc.tagFree hhrefs, hdoc.text, unescape_htmlEscape]

/-- The HTML of a message is its escaped text with links set in it: the loops end and slice valid ranges only; without
the tags the escaped text is left; the tags are those of the links, opened and closed in turn; neither the text nor a
target has a character that could begin or end a tag or an attribute; and what is linked is a web address, which is also
the target, or a Kullo address, which is the target behind the scheme. -/
theorem messageTextToHtml_wraps (text : List Char) (includeKulloAddresses : Bool) :
    ∃ h : Html, messageTextToHtml text includeKulloAddresses = some h.render ∧ h.text = htmlEscape text ∧
      dropTags false h.render = htmlEscape text ∧ tagsBalanced false h.render = true ∧
      (∀ c ∈ h.text, c ∉ ['<', '>', '"']) ∧ (∀ l ∈ h.links, ∀ c ∈ l.href, c ∉ ['<', '>', '"']) ∧
      ∀ l ∈ h.links, l.label ∈ httpUri.matches' ∧ l.href = l.label ∨
        includeKulloAddresses = true ∧ l.label ∈ kulloAddressRegex.matches' ∧
          l.href = kulloAddressScheme ++ ':' :: l.label := by
  have hdoc := isDocument_messageDocument text includeKulloAddresses
  have hhrefs : ∀ l ∈ (messageDocument text includeKulloAddresses).links, '>' ∉ l.href :=
    fun l hl hc => hdoc.mem_href hl hc (by simp)
  refine ⟨_, messageTextToHtml_eq text includeKulloAddresses, hdoc.text, ?_, tagsBalanced_render hdoc.tagFree,
    fun _ hc => hdoc.mem_text hc, fun _ hl _ hc => hdoc.mem_href hl hc, ?_⟩
  · rw [dropTags_render hdoc.tagFree hhrefs, hdoc.text]
  · intro l hl
    rcases hdoc.links l hl with hweb | ⟨hinclude, hlabel, hhref⟩
    · exact .inl hweb
    · refine .inr ⟨hinclude, hlabel, ?_⟩
      rw [hhref, List.append_assoc]
      rfl

/-- The address `a#b.c` is not the text of its link's target. -/
theorem not_label_eq_href :
    ¬ ∀ text includeKulloAddresses, ∃ h : Html, messageTextToHtml text includeKulloAddresses = some h.render ∧
      h.text = htmlEscape text ∧ ∀ l ∈ h.links, l.href = l.label := by
  intro hall
  obtain ⟨h, hrender, htext, hlinks⟩ := hall ['a', '#', 'b', '.', 'c'] true
  have hkullo : messageTextToHtml ['a', '#', 'b', '.', 'c'] true =
      some (anchor (kulloAddressScheme ++ [':', 'a', '#', 'b', '.', 'c']) ['a', '#', 'b', '.', 'c']) := by decide +kernel
  have hescaped : htmlEscape ['a', '#', 'b', '.', 'c'] = ['a', '#', 'b', '.', 'c'] := by decide
  have hscheme : kulloAddressScheme = 'k' :: "ulloInternal".toList := by
    unfold kulloAddressScheme
    simp
  rw [hkullo, hscheme, Option.some.injEq, anchor_eq] at hrender
  rw [hescaped] at htext
  cases h with
  | plain t =>
    rw [Html.render] at hrender
    rw [Html.text, ← hrender] at htext
    cases htext
  | link t l rest =>
    have hsame := hlinks l List.mem_cons_self
    rw [Html.render, anchor_eq] at hrender
    rw [Html.text] at htext
    cases t with
    | cons c t =>
      have hopen : '<' = c := by simpa using congrArg List.head? hrender
      have hfirst : c = 'a' := by simpa using congrArg List.head? htext
      exact absurd (hopen.trans hfirst) (by decide)
    | nil =>
      -- the target begins with a letter that is not the first one of the text
      simp only [List.cons_append, List.nil_append, List.cons.injEq, true_and, List.append_assoc] at hrender htext
      rw [← hsame] at htext
      cases hhref : l.href with
      | nil =>
        rw [hhref] at hrender
        exact absurd (congrArg List.head? hrender) (by simp)
      | cons c cs =>
        rw [hhref] at hrender htext
        have htarget : 'k' = c := by simpa using congrArg List.head? hrender
        have hfirst : c = 'a' := by simpa using congrArg List.head? htext
        exact absurd (htarget.trans hfirst) (by decide)

private theorem stretches_webDocument {text t : List Char} (ht : t ∈ (webDocument text).stretches) :
    ¬ Contains alphanumeric httpUri t := by
  obtain ⟨u, -, ht⟩ := (Html.mem_stretches_replaceTexts _).1 ht
  exact stretches_linkify length_httpUri u ht

/-- Nothing is missed: outside of the links there is no web address at the start of the text or after a character that
is neither a letter nor a digit; and if Kullo addresses are included, none of these at the start or after a character
that cannot be part of one. -/
theorem messageTextToHtml_complete (text : List Char) (includeKulloAddresses : Bool) :
    ∃ h : Html, messageTextToHtml text includeKulloAddresses = some h.render ∧ h.text = htmlEscape text ∧
      (∀ t ∈ h.stretches, ¬ Contains alphanumeric httpUri t) ∧ (∀ u ∈ httpUri.matches', ¬ u <+: h.first) ∧
      (includeKulloAddresses = true →
        (∀ t ∈ h.stretches, ¬ Contains ('-' :: '.' :: '#' :: alphanumeric) kulloAddressRegex t) ∧
          ∀ u ∈ kulloAddressRegex.matches', ¬ u <+: h.first) := by
  have hfirst : ∀ u ∈ httpUri.matches', ¬ u <+: (webDocument text).first := by
    intro u hu
    unfold webDocument
    rw [Html.first_replaceTexts]
    exact first_linkify length_httpUri hu
  refine ⟨_, messageTextToHtml_eq text includeKulloAddresses,
    (isDocument_messageDocument text includeKulloAddresses).text, ?_⟩
  unfold messageDocument
  split
  -- with the pass for addresses: a stretch of its result lies in one of the pass before
  · refine ⟨?_, ?_, fun _ => ⟨?_, ?_⟩⟩
    · intro t ht hcontains
      obtain ⟨u, hu, ht⟩ := (Html.mem_stretches_replaceTexts _).1 ht
      refine stretches_webDocument hu (hcontains.mono ?_)
      have hsub := Html.infix_text_of_mem_stretches _ ht
      rwa [text_linkify] at hsub
    · intro u hu hstart
      rw [Html.first_replaceTexts] at hstart
      have htext := Html.first_prefix_text (linkify (kulloAddressScheme ++ [':'])
        (scan kulloAddressInMessageRegex (webDocument text).first))
      rw [text_linkify] at htext
      exact hfirst u hu (hstart.trans htext)
    · intro t ht
      obtain ⟨u, -, ht⟩ := (Html.mem_stretches_replaceTexts _).1 ht
      exact stretches_linkify length_kulloAddressRegex u ht
    · intro u hu
      rw [Html.first_replaceTexts]
      exact first_linkify length_kulloAddressRegex hu
  · next hnot => exact ⟨fun t ht => stretches_webDocument ht, hfirst, fun hinclude => absurd hinclude hnot⟩

end Strings

end KulloClient

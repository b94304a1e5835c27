import KulloClient.Util.MasterKey

/-!
# The text form of a master key

The constructor of `MasterKey` from text strips what may be around the lines and cuts each of them at fixed offsets.
A position outside of a string is undefined, and so is a version that nothing was written to.
-/

namespace KulloClient

open Regex

/-- How the constructor fails: with an exception, or by forming a position outside of a string. -/
inductive Fault
  | raised (e : Exn)
  | outOfRange
  deriving DecidableEq

def Fault.isInvalidArgument : Fault → Bool
  | .raised e => e.isInvalidArgument
  | .outOfRange => false

namespace Strings

/-- `std::string::find`. -/
def find (pattern : List Char) : List Char → Option Nat
  | [] => if pattern.isPrefixOf [] then some 0 else none
  | c :: text => if pattern.isPrefixOf (c :: text) then some 0 else (find pattern text).map (· + 1)

/-- `std::string(text.begin() + first, text.begin() + last)`. -/
def slice (text : List Char) (first last : Nat) : Except Fault (List Char) :=
  if last ≤ text.length then .ok ((text.take last).drop first) else .error .outOfRange

private theorem slice_of_le {text : List Char} {first last : Nat} (h : last ≤ text.length) :
    slice text first last = .ok ((text.take last).drop first) := if_pos h

private theorem slice_of_lt {text : List Char} {first last : Nat} (h : text.length < last) :
    slice text first last = .error .outOfRange := if_neg (by omega)

/-- The pattern is found after characters that it does not begin with. -/
theorem find_append {c : Char} {before : List Char} (h : c ∉ before) (pattern rest : List Char) :
    find (c :: pattern) (before ++ c :: pattern ++ rest) = some before.length := by
  induction before with
  | nil =>
    have hprefix : (c :: pattern).isPrefixOf (c :: (pattern ++ rest)) = true :=
      List.isPrefixOf_iff_prefix.mpr (List.prefix_append _ rest)
    rw [List.nil_append, List.cons_append, find, if_pos hprefix]
    rfl
  | cons d before ih =>
    rw [List.mem_cons, not_or] at h
    have hprefix : ¬ (c :: pattern).isPrefixOf (d :: (before ++ c :: pattern ++ rest)) = true := by
      rw [List.isPrefixOf_iff_prefix, List.cons_prefix_cons]
      exact fun hprefix => h.1 hprefix.1
    rw [List.cons_append, List.cons_append, find, if_neg hprefix, ih h.2]
    rfl

theorem find_eq_none {c : Char} {pattern text : List Char} (h : c ∉ text) : find (c :: pattern) text = none := by
  induction text with
  | nil => rfl
  | cons d text ih =>
    rw [List.mem_cons, not_or] at h
    have hprefix : ¬ (c :: pattern).isPrefixOf (d :: text) = true := by
      rw [List.isPrefixOf_iff_prefix, List.cons_prefix_cons]
      exact fun hprefix => h.1 hprefix.1
    rw [find, if_neg hprefix, ih h.2]
    rfl

end Strings

namespace MasterKey

/-! ### The constructor -/

def beginText : List Char := "BEGIN KULLO PRIVATE MASTER KEY".toList

def endText : List Char := "END KULLO PRIVATE MASTER KEY".toList

def framed (text : List Char) : RegularExpression Char :=
  RegularExpression.star (.char '-') * literal text * RegularExpression.star (.char '-')

/-- `MASTER_KEY_HEADER_REGEX`. -/
def masterKeyHeaderRegex : RegularExpression Char := framed beginText

/-- `MASTER_KEY_FOOTER_REGEX`. -/
def masterKeyFooterRegex : RegularExpression Char := framed endText

/-- The two calls of `std::remove`. -/
def withoutReturnsAndTabs (text : List Char) : List Char := (text.filter (· ≠ '\r')).filter (· ≠ '\t')

/-- What is left of the input when header and footer are gone. -/
def stripped (pemKey : List Char) : List Char :=
  let key := withoutReturnsAndTabs pemKey
  let key := replaceAll masterKeyHeaderRegex key []
  let key := replaceAll masterKeyFooterRegex key []
  Strings.trim key

/-- A round of the loop over the lines of the header, with the value of `version_`. -/
def headerLine (version : Option Nat) (line : List Char) : Except Fault (Option Nat) := do
  let line := Strings.trim line
  match Strings.find [':'] line with
  | none => throw (.raised (.invalidArgument "Invalid MasterKey header line: No colon found."))
  | some colonPos =>
    let name ← Strings.slice line 0 colonPos
    let value ← Strings.slice line (colonPos + 1) line.length
    if Strings.toLower name = "version".toList then
      return (Strings.extractUnsigned 32 (Strings.trim value)).orElse fun _ => version
    else
      throw (.raised (.invalidArgument ("MasterKey(): Invalid header name: '" ++ String.ofList name ++ "'")))

/-- A line of the body without its blanks. -/
def bodyLine (line : List Char) : List Char := (Strings.trim line).filter (· ≠ ' ')

/-- A round of the loop over the lines of the body. -/
def bodyBlocks (line : List Char) : Except Fault (List (List Char)) := do
  let line := bodyLine line
  let block1 ← Strings.slice line 0 6
  let block2 ← Strings.slice line 6 12
  let block3 ← Strings.slice line 12 18
  let block4 ← Strings.slice line 18 24
  return [block1, block2, block3, block4]

/-- The lines of the header, if there is one. -/
def headerLines (key : List Char) : List (List Char) :=
  match Strings.find ['\n', '\n'] key with
  | none => []
  | some nnPos => Strings.getLines (Strings.trim (key.take nnPos))

def body (key : List Char) : List Char :=
  match Strings.find ['\n', '\n'] key with
  | none => key
  | some nnPos => key.drop (nnPos + 2)

def readBlocks : List (List Char) → Except Fault (List (List Char))
  | [] => .ok []
  | line :: lines => do
    let blocks ← bodyBlocks line
    let rest ← readBlocks lines
    return blocks ++ rest

variable (uninit : Uninitialized)

/-- The last two statements of the constructor. -/
def checkedKey (blockList : List (List Char)) (version : Option Nat) : Except Fault MasterKey :=
  match h : checkKey uninit blockList with
  | .error e => .error (.raised e)
  | .ok () => .ok ⟨blockListToRawData uninit blockList, version, length_of_checkKey h⟩

/-- `MasterKey(const std::string &)`. -/
def ofPem (pemKey : List Char) : Except Fault MasterKey := do
  let key := stripped pemKey
  let version ← (headerLines key).foldlM headerLine none
  let blockList ← readBlocks (Strings.getLines (body key))
  checkedKey uninit blockList version

/-- `MasterKey::isValid(const std::string &)`. -/
def isValid (pemKey : List Char) : Except Fault Bool :=
  match ofPem uninit pemKey with
  | .ok _ => .ok true
  | .error e => if e.isInvalidArgument then .ok false else .error e

def toPem (k : MasterKey) : List Char :=
  let blocks := k.dataBlocks uninit
  let line := fun i => blocks.getD i [] ++ " ".toList ++ blocks.getD (i + 1) [] ++ " ".toList ++
    blocks.getD (i + 2) [] ++ " ".toList ++ blocks.getD (i + 3) [] ++ "\n".toList
  "-----BEGIN KULLO PRIVATE MASTER KEY-----\n".toList ++ "Version: 1 (256 bit)\n".toList ++ "\n".toList ++
    line 0 ++ line 4 ++ line 8 ++ line 12 ++ "-----END KULLO PRIVATE MASTER KEY-----\n".toList

/-! ### What the input must be like -/

def headerName (line : List Char) : List Char := (Strings.trim line).takeWhile (· ≠ ':')

def headerValue (line : List Char) : List Char :=
  Strings.trim (((Strings.trim line).dropWhile (· ≠ ':')).drop 1)

/-- A line of the header without a colon, or with another name than `version`. -/
def Refused (line : List Char) : Prop :=
  ':' ∉ Strings.trim line ∨ Strings.toLower (headerName line) ≠ "version".toList

/-- The four blocks of a line that is long enough. -/
def cutBlocks (line : List Char) : List (List Char) :=
  [(bodyLine line).take 6, ((bodyLine line).take 12).drop 6, ((bodyLine line).take 18).drop 12,
    ((bodyLine line).take 24).drop 18]

/-- A line of the header is refused; or each line of the body has 24 characters that are not blanks around it or spaces,
and if the blocks are good, then a line of the header has a value. -/
def SafeInput (pemKey : List Char) : Prop :=
  let key := stripped pemKey
  (∃ line ∈ headerLines key, Refused line) ∨
    ((∀ line ∈ Strings.getLines (body key), 24 ≤ (bodyLine line).length) ∧
      (checkKey uninit ((Strings.getLines (body key)).flatMap cutBlocks) = .ok () →
        ∃ line ∈ headerLines key, headerValue line ≠ []))

/-- The constructor makes a key whose version is known, or it throws `std::invalid_argument`. -/
structure Safe (pemKey : List Char) : Prop where
  version : ∀ k, ofPem uninit pemKey = .ok k → k.version ≠ none
  refuses : ∀ e, ofPem uninit pemKey = .error e → e.isInvalidArgument = true ∧ isValid uninit pemKey = .ok false

/-! ### The header -/

private theorem extractUnsigned_eq_none {w : Nat} {text : List Char} :
    Strings.extractUnsigned w text = none ↔ text.dropWhile Strings.isSpace = [] := by
  unfold Strings.extractUnsigned
  split <;> simp_all

private theorem extractUnsigned_headerValue (w : Nat) (line : List Char) :
    Strings.extractUnsigned w (headerValue line) = none ↔ headerValue line = [] := by
  rw [extractUnsigned_eq_none, headerValue, Strings.dropWhile_trim]

private theorem headerLine_eq (version : Option Nat) (line : List Char) :
    (Refused line ∧ ∃ e, headerLine version line = .error e ∧ e.isInvalidArgument = true) ∨
      (¬ Refused line ∧ headerLine version line =
        .ok ((Strings.extractUnsigned 32 (headerValue line)).orElse fun _ => version)) := by
  unfold headerLine Refused headerName headerValue
  dsimp only
  generalize Strings.trim line = text
  by_cases hcolon : ':' ∈ text
  · obtain ⟨name, value, rfl, hname⟩ := List.eq_append_cons_of_mem hcolon
    have hall : ∀ c ∈ name, decide (c ≠ ':') = true := fun c hc => decide_eq_true fun h => hname (h ▸ hc)
    have hfind : Strings.find [':'] (name ++ ':' :: value) = some name.length := by
      have hfind := Strings.find_append hname [] value
      rwa [List.append_assoc, List.singleton_append] at hfind
    have htake : (name ++ ':' :: value).takeWhile (· ≠ ':') = name := by
      rw [List.takeWhile_append_of_pos hall, List.takeWhile_cons_of_neg (by simp), List.append_nil]
    have hdrop : ((name ++ ':' :: value).dropWhile (· ≠ ':')).drop 1 = value := by
      rw [List.dropWhile_append_of_pos hall, List.dropWhile_cons_of_neg (by simp)]
      rfl
    rw [hfind, htake, hdrop]
    dsimp only
    rw [Strings.slice_of_le (by simp), Strings.slice_of_le (Nat.le_refl _), List.drop_zero, List.take_left,
      List.take_length, show name.length + 1 = (name ++ [':']).length by simp,
      show name ++ ':' :: value = (name ++ [':']) ++ value by simp, List.drop_left]
    dsimp only [bind, Except.bind]
    by_cases hversion : Strings.toLower name = "version".toList
    · right
      rw [if_pos hversion]
      refine ⟨?_, rfl⟩
      rintro (h | h)
      · exact h (by simp)
      · exact h hversion
    · left
      rw [if_neg hversion]
      exact ⟨.inr hversion, _, rfl, rfl⟩
  · left
    rw [Strings.find_eq_none hcolon]
    exact ⟨.inl hcolon, _, rfl, rfl⟩

/-- The loop over the header. -/
theorem foldlM_headerLine (lines : List (List Char)) (version : Option Nat) :
    ((∃ line ∈ lines, Refused line) ∧ ∃ e, lines.foldlM headerLine version = .error e ∧ e.isInvalidArgument = true) ∨
      ((∀ line ∈ lines, ¬ Refused line) ∧ ∃ version', lines.foldlM headerLine version = .ok version' ∧
        (version' ≠ none ↔ version ≠ none ∨ ∃ line ∈ lines, headerValue line ≠ [])) := by
  induction lines generalizing version with
  | nil => exact .inr ⟨by simp, version, rfl, by simp⟩
  | cons line lines ih =>
    rw [List.foldlM_cons]
    rcases headerLine_eq version line with ⟨hrefused, e, he, hinvalid⟩ | ⟨hrefused, hok⟩
    · left
      rw [he]
      exact ⟨⟨line, List.mem_cons_self, hrefused⟩, e, rfl, hinvalid⟩
    · rw [hok]
      dsimp only [bind, Except.bind]
      rcases ih ((Strings.extractUnsigned 32 (headerValue line)).orElse fun _ => version) with
        ⟨⟨line', hline', hrefused'⟩, herror⟩ | ⟨hrest, version', hversion', hnone⟩
      · exact .inl ⟨⟨line', List.mem_cons_of_mem line hline', hrefused'⟩, herror⟩
      · right
        refine ⟨List.forall_mem_cons.mpr ⟨hrefused, hrest⟩, version', hversion', ?_⟩
        rw [hnone]
        have hvalue := extractUnsigned_headerValue 32 line
        cases hread : Strings.extractUnsigned 32 (headerValue line) with
        | none =>
          have hempty := hvalue.mp hread
          simp [hempty]
        | some n =>
          have hne : headerValue line ≠ [] := by
            intro hempty
            rw [hvalue.mpr hempty] at hread
            cases hread
          simp [hne]

/-! ### The body -/

private theorem bodyBlocks_of_le {line : List Char} (h : 24 ≤ (bodyLine line).length) : bodyBlocks line = .ok (cutBlocks line) := by
  unfold bodyBlocks
  dsimp only
  rw [Strings.slice_of_le (by omega), Strings.slice_of_le (by omega), Strings.slice_of_le (by omega),
    Strings.slice_of_le h]
  rfl

private theorem bodyBlocks_of_lt {line : List Char} (h : (bodyLine line).length < 24) : bodyBlocks line = .error .outOfRange := by
  unfold bodyBlocks
  dsimp only
  by_cases h6 : 6 ≤ (bodyLine line).length
  · rw [Strings.slice_of_le h6]
    by_cases h12 : 12 ≤ (bodyLine line).length
    · rw [Strings.slice_of_le h12]
      by_cases h18 : 18 ≤ (bodyLine line).length
      · rw [Strings.slice_of_le h18, Strings.slice_of_lt h]
        rfl
      · rw [Strings.slice_of_lt (by omega)]
        rfl
    · rw [Strings.slice_of_lt (by omega)]
      rfl
  · rw [Strings.slice_of_lt (by omega)]
    rfl

private theorem readBlocks_eq (lines : List (List Char)) :
    ((∀ line ∈ lines, 24 ≤ (bodyLine line).length) ∧ readBlocks lines = .ok (lines.flatMap cutBlocks)) ∨
      ((∃ line ∈ lines, (bodyLine line).length < 24) ∧ readBlocks lines = .error .outOfRange) := by
  induction lines with
  | nil => exact .inl ⟨by simp, rfl⟩
  | cons line lines ih =>
    by_cases hline : 24 ≤ (bodyLine line).length
    · rw [readBlocks, bodyBlocks_of_le hline]
      rcases ih with ⟨hlong, hrest⟩ | ⟨⟨line', hline', hshort⟩, hrest⟩
      · left
        rw [hrest]
        exact ⟨List.forall_mem_cons.mpr ⟨hline, hlong⟩, rfl⟩
      · right
        rw [hrest]
        exact ⟨⟨line', List.mem_cons_of_mem line hline', hshort⟩, rfl⟩
    · right
      have hshort : (bodyLine line).length < 24 := by omega
      rw [readBlocks, bodyBlocks_of_lt hshort]
      exact ⟨⟨line, List.mem_cons_self, hshort⟩, rfl⟩

/-! ### Safety -/

variable {uninit}

variable (uninit) in
private theorem checkedKey_cases (blocks : List (List Char)) (version : Option Nat) :
    (checkKey uninit blocks = .ok () ∧ ∃ k, checkedKey uninit blocks version = .ok k ∧
        k.data = blockListToRawData uninit blocks ∧ k.version = version) ∨
      (checkKey uninit blocks ≠ .ok () ∧ ∃ e, checkedKey uninit blocks version = .error e ∧
        e.isInvalidArgument = true) := by
  unfold checkedKey
  split
  · next e h =>
    refine .inr ⟨by rw [h]; simp, _, rfl, ?_⟩
    exact checkKey_raises uninit blocks e h
  · next h => exact .inl ⟨h, _, rfl, rfl, rfl⟩

private theorem isValid_of_refused {pemKey : List Char} {e : Fault} (h : ofPem uninit pemKey = .error e)
    (he : e.isInvalidArgument = true) : isValid uninit pemKey = .ok false := by
  unfold isValid
  rw [h]
  exact if_pos he

theorem Safe.of_error {pemKey : List Char} {e : Fault} (h : ofPem uninit pemKey = .error e)
    (he : e.isInvalidArgument = true) : Safe uninit pemKey := by
  refine ⟨?_, ?_⟩
  · intro k hk
    rw [h] at hk
    cases hk
  · intro e' he'
    rw [h] at he'
    cases he'
    exact ⟨he, isValid_of_refused h he⟩

private theorem ofPem_of_header {pemKey : List Char} {e : Fault}
    (h : (headerLines (stripped pemKey)).foldlM headerLine none = .error e) : ofPem uninit pemKey = .error e := by
  unfold ofPem
  dsimp only
  rw [h]
  rfl

variable (uninit) in
private theorem ofPem_of_body {pemKey : List Char} {version : Option Nat} {e : Fault}
    (h : (headerLines (stripped pemKey)).foldlM headerLine none = .ok version)
    (hread : readBlocks (Strings.getLines (body (stripped pemKey))) = .error e) : ofPem uninit pemKey = .error e := by
  unfold ofPem
  dsimp only
  rw [h, hread]
  rfl

variable (uninit) in
private theorem ofPem_of_blocks {pemKey : List Char} {version : Option Nat} {blocks : List (List Char)}
    (h : (headerLines (stripped pemKey)).foldlM headerLine none = .ok version)
    (hread : readBlocks (Strings.getLines (body (stripped pemKey))) = .ok blocks) :
    ofPem uninit pemKey = checkedKey uninit blocks version := by
  unfold ofPem
  dsimp only
  rw [h, hread]
  rfl

private theorem safe_iff (pemKey : List Char) : Safe uninit pemKey ↔ SafeInput uninit pemKey := by
  unfold SafeInput
  dsimp only
  rcases foldlM_headerLine (headerLines (stripped pemKey)) none with ⟨hrefused, e, he, hinvalid⟩ | ⟨hgood, version, hok, hversion⟩
  · exact ⟨fun _ => .inl hrefused, fun _ => Safe.of_error (ofPem_of_header he) hinvalid⟩
  · have hnot : ¬ ∃ line ∈ headerLines (stripped pemKey), Refused line := by
      rintro ⟨line, hline, hrefused⟩
      exact hgood line hline hrefused
    rcases readBlocks_eq (Strings.getLines (body (stripped pemKey))) with ⟨hlong, hread⟩ | ⟨⟨line, hline, hshort⟩, hread⟩
    · have hpem := ofPem_of_blocks uninit hok hread
      generalize (Strings.getLines (body (stripped pemKey))).flatMap cutBlocks = blocks at hpem ⊢
      rcases checkedKey_cases uninit blocks version with ⟨hcheck, k, hk, -, hkversion⟩ | ⟨hcheck, e, he, hinvalid⟩
      · rw [hk] at hpem
        constructor
        · intro hsafe
          right
          refine ⟨hlong, fun _ => ?_⟩
          have hdefined := hsafe.version k hpem
          rw [hkversion] at hdefined
          rcases hversion.mp hdefined with hnone | hline
          · exact absurd rfl hnone
          · exact hline
        · rintro (hrefused | ⟨-, hwritten⟩)
          · exact absurd hrefused hnot
          · refine ⟨?_, ?_⟩
            · intro k' hk'
              rw [hpem] at hk'
              cases hk'
              rw [hkversion]
              exact hversion.mpr (.inr (hwritten hcheck))
            · intro e he
              rw [hpem] at he
              cases he
      · rw [he] at hpem
        exact ⟨fun _ => .inr ⟨hlong, fun h => absurd h hcheck⟩, fun _ => Safe.of_error hpem hinvalid⟩
    · have hpem := ofPem_of_body uninit hok hread
      constructor
      · intro hsafe
        have hinvalid := (hsafe.refuses .outOfRange hpem).1
        cases hinvalid
      · rintro (hrefused | ⟨hlong, -⟩)
        · exact absurd hrefused hnot
        · have hlong' := hlong line hline
          omega

/-! ### Header and footer -/

private theorem mem_framed {text u : List Char} (h : u ∈ (framed text).matches') :
    ∃ before after : List Char, (∀ c ∈ before, c = '-') ∧ u = before ++ text ++ after := by
  obtain ⟨v, hv, after, -, rfl⟩ := Language.mem_mul.mp h
  obtain ⟨before, hbefore, w, hw, rfl⟩ := Language.mem_mul.mp hv
  refine ⟨before, after, ?_, by rw [mem_literal.mp hw]⟩
  obtain ⟨ws, rfl, hws⟩ := mem_star.mp hbefore
  intro c hc
  obtain ⟨x, hx, hcx⟩ := List.mem_flatten.mp hc
  rw [show x = ['-'] from hws x hx] at hcx
  exact List.mem_singleton.mp hcx

private theorem nil_notMem_framed {c : Char} {text : List Char} : [] ∉ (framed (c :: text)).matches' := by
  intro h
  obtain ⟨before, after, -, heq⟩ := mem_framed h
  simp at heq

private theorem head_framed {c d : Char} {text u : List Char} (h : u ∈ (framed (c :: text)).matches')
    (hd : u.head? = some d) : d = '-' ∨ d = c := by
  obtain ⟨before, after, hbefore, rfl⟩ := mem_framed h
  cases before with
  | nil =>
    injection hd with hd
    exact .inr hd.symm
  | cons b before =>
    injection hd with hd
    exact .inl (hd ▸ hbefore b List.mem_cons_self)

/-- A framed text is found with all dashes around it. -/
private theorem head?_rests_framed {c : Char} {text rest : List Char} (m n : Nat) (hc : c ≠ '-')
    (hrest : rest.head? ≠ some '-') :
    (rests (framed (c :: text)) (List.replicate m '-' ++ c :: text ++ List.replicate n '-' ++ rest)).head? = some rest := by
  have hdrop : ∀ n (rest : List Char), rest.head? ≠ some '-' →
      (List.replicate n '-' ++ rest).dropWhile (· = '-') = rest := by
    intro n rest hrest
    rw [List.dropWhile_append_of_pos (by simp)]
    cases rest with
    | nil => rfl
    | cons d rest => exact List.dropWhile_cons_of_neg (by simpa using hrest)
  have hbefore : (rests (RegularExpression.char '-').star
      (List.replicate m '-' ++ (c :: text ++ (List.replicate n '-' ++ rest)))).head? =
        some (c :: text ++ (List.replicate n '-' ++ rest)) := by
    rw [head?_rests_star_char, hdrop m _ (by simpa using hc)]
  have htext : (rests (literal (c :: text)) (c :: text ++ (List.replicate n '-' ++ rest))).head? =
      some (List.replicate n '-' ++ rest) := by
    rw [rests_literal]
    rfl
  have hafter : (rests (RegularExpression.char '-').star (List.replicate n '-' ++ rest)).head? = some rest := by
    rw [head?_rests_star_char, hdrop n rest hrest]
  rw [List.append_assoc, List.append_assoc]
  exact head?_rests_mul (head?_rests_mul hbefore htext) hafter

/-- The framed text is cut out. -/
private theorem replaceAll_framed {c d : Char} {text before rest : List Char} (m n : Nat) (hc : c ≠ '-')
    (hbefore : ∀ e ∈ before, e ≠ '-' ∧ e ≠ c) (hrest : rest.head? ≠ some '-') (hd : d ∈ c :: text) (hd' : d ∉ rest) :
    replaceAll (framed (c :: text)) (before ++ (List.replicate m '-' ++ c :: text ++ List.replicate n '-' ++ rest)) [] =
      before ++ rest := by
  rw [replaceAll_append _ _ ?_ nil_notMem_framed, replaceAll_match _ (by simp) (head?_rests_framed m n hc hrest),
    List.nil_append, replaceAll_of_notMem _ ?_ hd']
  · intro u hu
    obtain ⟨before, after, -, rfl⟩ := mem_framed hu
    exact List.mem_append_left _ (List.mem_append_right _ hd)
  · intro e he u hu hhead
    rcases head_framed hu hhead with h | h
    · exact (hbefore e he).1 h
    · exact (hbefore e he).2 h

/-! ### Layouts -/

def versionText : List Char := "Version: 1 (256 bit)".toList

variable (uninit)

/-- The blocks of a key, line by line. -/
def quads (k : MasterKey) : List (List (List Char)) :=
  (List.range 4).map fun i => ((k.dataBlocks uninit).drop (4 * i)).take 4

/-- A text of the key as a user may have it: with any number of dashes around header and footer, white space around
these and around the rest, spaces in the lines, and carriage returns and tabs anywhere. -/
structure Layout (k : MasterKey) where
  pem : List Char
  (lead gap gap' trail : List Char)
  beginDashes : Nat × Nat
  endDashes : Nat × Nat
  spaces : Nat
  lines : List (List Char)
  lead_space : ∀ c ∈ lead, Strings.isSpace c = true
  gap_space : ∀ c ∈ gap, Strings.isSpace c = true
  gap'_space : ∀ c ∈ gap', Strings.isSpace c = true
  trail_space : ∀ c ∈ trail, Strings.isSpace c = true
  lines_blocks : lines.map (List.filter (· ≠ ' ')) = (quads uninit k).map List.flatten
  pem_text : withoutReturnsAndTabs pem =
    lead ++ (List.replicate beginDashes.1 '-' ++ beginText ++ List.replicate beginDashes.2 '-' ++
      (gap ++ (versionText ++ List.replicate spaces ' ' ++ '
' :: ['
'] ++ ['
'].intercalate lines) ++
        (gap' ++ (List.replicate endDashes.1 '-' ++ endText ++ List.replicate endDashes.2 '-' ++ trail))))

variable {uninit} {k : MasterKey}

private theorem quads_flatten : (quads uninit k).flatten = k.dataBlocks uninit := rfl

/-- A line has four plausible blocks. -/
private theorem quad_of_mem {q : List (List Char)} (hq : q ∈ quads uninit k) :
    (∃ b₁ b₂ b₃ b₄, q = [b₁, b₂, b₃, b₄]) ∧ ∀ b ∈ q, Plausible b := by
  refine ⟨?_, ?_⟩
  · have hquads : quads uninit k = (List.range 4).map fun i =>
        [blockOf uninit (numberAt k.data (4 * i)), blockOf uninit (numberAt k.data (4 * i + 1)),
          blockOf uninit (numberAt k.data (4 * i + 2)), blockOf uninit (numberAt k.data (4 * i + 3))] := rfl
    rw [hquads] at hq
    obtain ⟨i, -, rfl⟩ := List.mem_map.mp hq
    exact ⟨_, _, _, _, rfl⟩
  · intro b hb
    refine plausible_dataBlocks uninit k b ?_
    rw [← quads_flatten]
    exact List.mem_flatten.mpr ⟨q, hq, hb⟩

private theorem isDigit_of_mem_quads {text : List Char} (h : text ∈ (quads uninit k).map List.flatten) :
    ∀ c ∈ text, c.isDigit = true := by
  obtain ⟨q, hq, rfl⟩ := List.mem_map.mp h
  intro c hc
  obtain ⟨b, hb, hcb⟩ := List.mem_flatten.mp hc
  exact ((quad_of_mem hq).2 b hb).digits c hcb

/-- Lines that have the blocks of the key between spaces. -/
private theorem isDigit_of_mem_lines {lines : List (List Char)}
    (h : lines.map (List.filter (· ≠ ' ')) = (quads uninit k).map List.flatten) {l : List Char} (hl : l ∈ lines) :
    ∀ c ∈ l, c = ' ' ∨ c.isDigit = true := by
  intro c hc
  by_cases hspace : c = ' '
  · exact .inl hspace
  · have hmem : l.filter (· ≠ ' ') ∈ (quads uninit k).map List.flatten := by
      rw [← h]
      exact List.mem_map.mpr ⟨l, hl, rfl⟩
    exact .inr (isDigit_of_mem_quads hmem c (List.mem_filter.mpr ⟨hc, by simpa using hspace⟩))

private theorem bodyLine_eq {l : List Char} (h : ∀ c ∈ l, c = ' ' ∨ c.isDigit = true) :
    bodyLine l = l.filter (· ≠ ' ') := by
  unfold bodyLine
  refine Strings.filter_trim ?_
  intro c hc hspace
  rcases h c hc with rfl | hdigit
  · rfl
  · rw [Strings.isSpace_of_isDigit hdigit] at hspace
    cases hspace

/-- The blocks of a line are cut at their borders. -/
private theorem cutBlocks_quad {l : List Char} {q : List (List Char)} (hq : q ∈ quads uninit k)
    (hl : bodyLine l = q.flatten) : 24 ≤ (bodyLine l).length ∧ cutBlocks l = q := by
  obtain ⟨⟨b₁, b₂, b₃, b₄, rfl⟩, hgood⟩ := quad_of_mem hq
  have h₁ := (hgood b₁ (by simp)).length
  have h₂ := (hgood b₂ (by simp)).length
  have h₃ := (hgood b₃ (by simp)).length
  have h₄ := (hgood b₄ (by simp)).length
  have hflat : bodyLine l = b₁ ++ (b₂ ++ (b₃ ++ b₄)) := by
    rw [hl]
    simp
  unfold cutBlocks
  rw [hflat]
  refine ⟨?_, ?_⟩
  · simp only [List.length_append]
    omega
  · simp [List.take_append, List.drop_append, h₁, h₂, h₃, h₄, List.take_of_length_le, List.drop_of_length_le]

private theorem readBlocks_lines {lines : List (List Char)}
    (h : lines.map (List.filter (· ≠ ' ')) = (quads uninit k).map List.flatten) :
    readBlocks lines = .ok (k.dataBlocks uninit) := by
  have hgen : ∀ (lines : List (List Char)) (qs : List (List (List Char))), (∀ q ∈ qs, q ∈ quads uninit k) →
      (∀ l ∈ lines, ∀ c ∈ l, c = ' ' ∨ c.isDigit = true) →
      lines.map (List.filter (· ≠ ' ')) = qs.map List.flatten → readBlocks lines = .ok qs.flatten := by
    intro lines
    induction lines with
    | nil =>
      intro qs _ _ heq
      rw [List.map_nil] at heq
      rw [List.map_eq_nil_iff.mp heq.symm]
      rfl
    | cons l lines ih =>
      intro qs hqs hlines heq
      cases qs with
      | nil => cases heq
      | cons q qs =>
        rw [List.forall_mem_cons] at hqs hlines
        rw [List.map_cons, List.map_cons] at heq
        injection heq with hhead htail
        obtain ⟨hlong, hcut⟩ := cutBlocks_quad hqs.1 ((bodyLine_eq hlines.1).trans hhead)
        rw [readBlocks, bodyBlocks_of_le hlong, hcut, ih qs hqs.2 hlines.2 htail]
        rfl
  rw [hgen lines (quads uninit k) (fun q hq => hq) (fun l hl => isDigit_of_mem_lines h hl) h, quads_flatten]

/-- The last line without the white space after it. -/
private theorem lines_concat {lines : List (List Char)}
    (h : lines.map (List.filter (· ≠ ' ')) = (quads uninit k).map List.flatten) :
    ∃ before last, lines = before ++ [last] ∧ (∃ c ∈ last, Strings.isSpace c = false) ∧
      (before ++ [last.rdropWhile Strings.isSpace]).map (List.filter (· ≠ ' ')) = (quads uninit k).map List.flatten := by
  have hlength : lines.length = 4 := by
    have hlengths := congrArg List.length h
    rw [List.length_map, List.length_map] at hlengths
    exact hlengths
  have hne : lines ≠ [] := by
    intro hnil
    rw [hnil] at hlength
    cases hlength
  have hsplit := List.dropLast_append_getLast hne
  have hlast : lines.getLast hne ∈ lines := List.getLast_mem hne
  have hchars := isDigit_of_mem_lines h hlast
  refine ⟨lines.dropLast, lines.getLast hne, hsplit.symm, ?_, ?_⟩
  · have hmem : (lines.getLast hne).filter (· ≠ ' ') ∈ (quads uninit k).map List.flatten := by
      rw [← h]
      exact List.mem_map.mpr ⟨_, hlast, rfl⟩
    obtain ⟨q, hq, hflat⟩ := List.mem_map.mp hmem
    have hlong := (cutBlocks_quad hq ((bodyLine_eq hchars).trans hflat.symm)).1
    rw [bodyLine_eq hchars] at hlong
    obtain ⟨c, hc⟩ := List.exists_mem_of_length_pos (Nat.lt_of_lt_of_le (by decide) hlong)
    exact ⟨c, (List.mem_filter.mp hc).1, Strings.isSpace_of_isDigit (isDigit_of_mem_quads hmem c hc)⟩
  · rw [← h, List.map_append, List.map_singleton, Strings.filter_rdropWhile]
    · conv_rhs => rw [← hsplit, List.map_append, List.map_singleton]
    · intro c hc hspace
      rcases hchars c hc with rfl | hdigit
      · rfl
      · rw [Strings.isSpace_of_isDigit hdigit] at hspace
        cases hspace

/-- White space, digits and the version line: neither dashes nor capital letters of header and footer. -/
private def Plain (text : List Char) : Prop :=
  ∀ c ∈ text, Strings.isSpace c = true ∨ c.isDigit = true ∨ c ∈ versionText

private theorem Plain.append {text text' : List Char} (h : Plain text) (h' : Plain text') : Plain (text ++ text') := by
  intro c hc
  rcases List.mem_append.mp hc with hc | hc
  · exact h c hc
  · exact h' c hc

private theorem plain_of_space {text : List Char} (h : ∀ c ∈ text, Strings.isSpace c = true) : Plain text :=
  fun c hc => .inl (h c hc)

private theorem Plain.notMem {text : List Char} (h : Plain text) {c : Char} (hspace : Strings.isSpace c = false)
    (hdigit : c.isDigit = false) (hversion : c ∉ versionText) : c ∉ text := by
  intro hc
  rcases h c hc with h | h | h
  · rw [hspace] at h
    cases h
  · rw [hdigit] at h
    cases h
  · exact hversion h

private theorem plain_lines {lines : List (List Char)}
    (h : lines.map (List.filter (· ≠ ' ')) = (quads uninit k).map List.flatten) : Plain (['\n'].intercalate lines) := by
  intro c hc
  rcases Strings.mem_intercalate hc with rfl | ⟨l, hl, hcl⟩
  · exact .inl rfl
  · rcases isDigit_of_mem_lines h hl c hcl with rfl | hdigit
    · exact .inl rfl
    · exact .inr (.inl hdigit)

private theorem intercalate_concat (before : List (List Char)) (last : List Char) :
    ['\n'].intercalate (before ++ [last]) = (before.map (· ++ ['\n'])).flatten ++ last := by
  induction before with
  | nil => simp
  | cons l before ih =>
    rw [List.cons_append, List.intercalate_cons_of_ne_nil (by simp), ih, List.map_cons, List.flatten_cons]
    simp

private theorem head?_append_ne_dash {w rest : List Char} (hw : ∀ c ∈ w, Strings.isSpace c = true)
    (hrest : rest.head? ≠ some '-') : (w ++ rest).head? ≠ some '-' := by
  cases w with
  | nil => exact hrest
  | cons c w =>
    intro hhead
    injection hhead with hc
    have hspace := hw c List.mem_cons_self
    rw [hc] at hspace
    cases hspace

/-- Header and footer are cut out of a layout. -/
private theorem replaceAll_layout {lead gap text gap' trail : List Char} (m n m' n' : Nat)
    (hlead : ∀ c ∈ lead, Strings.isSpace c = true) (hgap : ∀ c ∈ gap, Strings.isSpace c = true) (htext : Plain text)
    (hfirst : ∃ c rest, text = c :: rest ∧ c ≠ '-') (hgap' : ∀ c ∈ gap', Strings.isSpace c = true)
    (htrail : ∀ c ∈ trail, Strings.isSpace c = true) :
    replaceAll masterKeyFooterRegex
        (replaceAll masterKeyHeaderRegex
          (lead ++ (List.replicate m '-' ++ beginText ++ List.replicate n '-' ++
            (gap ++ text ++ (gap' ++ (List.replicate m' '-' ++ endText ++ List.replicate n' '-' ++ trail))))) []) [] =
      lead ++ gap ++ text ++ gap' ++ trail := by
  -- header and footer start with dashes and a letter that no line in between has
  have hplain : ∀ c ∈ gap ++ text ++ gap', c ≠ '-' ∧ c ≠ 'B' ∧ c ≠ 'E' := by
    have hall := ((plain_of_space hgap).append htext).append (plain_of_space hgap')
    intro c hc
    refine ⟨?_, ?_, ?_⟩
    · rintro rfl
      exact hall.notMem rfl rfl (by decide) hc
    · rintro rfl
      exact hall.notMem rfl rfl (by decide) hc
    · rintro rfl
      exact hall.notMem rfl rfl (by decide) hc
  have hspaces : ∀ w : List Char, (∀ c ∈ w, Strings.isSpace c = true) → ∀ c ∈ w, c ≠ '-' ∧ c ≠ 'B' ∧ c ≠ 'E' := by
    intro w hw c hc
    refine ⟨?_, ?_, ?_⟩ <;> rintro rfl <;> cases hw _ hc
  have hbegin : beginText = 'B' :: "EGIN KULLO PRIVATE MASTER KEY".toList := rfl
  have hend : endText = 'E' :: "ND KULLO PRIVATE MASTER KEY".toList := rfl
  -- behind the header there is no second one
  have hB : 'B' ∉ gap ++ text ++ (gap' ++ (List.replicate m' '-' ++ endText ++ List.replicate n' '-' ++ trail)) := by
    have hfooter : 'B' ∉ List.replicate m' '-' ++ endText ++ List.replicate n' '-' := by
      have hendB : 'B' ∉ endText := by decide
      simp [hendB]
    have hbefore : 'B' ∉ gap ++ text ++ gap' := fun hmem => (hplain _ hmem).2.1 rfl
    have hafter : 'B' ∉ trail := fun hmem => (hspaces trail htrail _ hmem).2.1 rfl
    intro hmem
    rw [← List.append_assoc] at hmem
    rcases List.mem_append.mp hmem with hmem | hmem
    · exact hbefore hmem
    · rcases List.mem_append.mp hmem with hmem | hmem
      · exact hfooter hmem
      · exact hafter hmem
  have hnext : (gap ++ text ++ (gap' ++ (List.replicate m' '-' ++ endText ++ List.replicate n' '-' ++ trail))).head? ≠
      some '-' := by
    rw [List.append_assoc]
    refine head?_append_ne_dash hgap ?_
    obtain ⟨c, rest, rfl, hc⟩ := hfirst
    simpa using hc
  unfold masterKeyHeaderRegex masterKeyFooterRegex
  rw [hbegin, replaceAll_framed m n (by decide) (fun c hc => ⟨(hspaces lead hlead c hc).1, (hspaces lead hlead c hc).2.1⟩)
    hnext (by simp) hB, hend]
  have hassoc : lead ++ (gap ++ text ++ (gap' ++ (List.replicate m' '-' ++ 'E' :: "ND KULLO PRIVATE MASTER KEY".toList ++
      List.replicate n' '-' ++ trail))) =
      (lead ++ gap ++ text ++ gap') ++ (List.replicate m' '-' ++ 'E' :: "ND KULLO PRIVATE MASTER KEY".toList ++
        List.replicate n' '-' ++ trail) := by
    simp only [List.append_assoc]
  rw [hassoc, replaceAll_framed m' n' (by decide) ?_ ?_ List.mem_cons_self ?_]
  · intro c hc
    rw [List.append_assoc, List.append_assoc, ← List.append_assoc gap, List.mem_append] at hc
    rcases hc with hc | hc
    · exact ⟨(hspaces lead hlead c hc).1, (hspaces lead hlead c hc).2.2⟩
    · exact ⟨(hplain c hc).1, (hplain c hc).2.2⟩
  · rw [← List.append_nil trail]
    exact head?_append_ne_dash htrail (by simp)
  · intro hmem
    exact (hspaces trail htrail _ hmem).2.2 rfl

/-- What is left of a layout is the version and the lines. -/
private theorem stripped_layout (L : Layout uninit k) :
    ∃ lines : List (List Char), lines.map (List.filter (· ≠ ' ')) = (quads uninit k).map List.flatten ∧
      stripped L.pem = versionText ++ List.replicate L.spaces ' ' ++ '\n' :: ['\n'] ++ ['\n'].intercalate lines := by
  obtain ⟨before, last, hlines, hlast, hblocks⟩ := lines_concat L.lines_blocks
  refine ⟨_, hblocks, ?_⟩
  have hplain : Plain (versionText ++ List.replicate L.spaces ' ' ++ '\n' :: ['\n'] ++ ['\n'].intercalate L.lines) := by
    refine (Plain.append (Plain.append ?_ ?_) ?_).append (plain_lines L.lines_blocks)
    · exact fun c hc => .inr (.inr hc)
    · exact plain_of_space (by simp [Strings.isSpace])
    · exact plain_of_space (List.all_eq_true.mp (by decide))
  have hfirst : ∃ c rest, versionText ++ List.replicate L.spaces ' ' ++ '\n' :: ['\n'] ++ ['\n'].intercalate L.lines =
      c :: rest ∧ c ≠ '-' := ⟨'V', _, rfl, by decide⟩
  have hlead : ∀ c ∈ L.lead ++ L.gap, Strings.isSpace c = true := by
    intro c hc
    rcases List.mem_append.mp hc with hc | hc
    · exact L.lead_space c hc
    · exact L.gap_space c hc
  have hend : ∀ c ∈ L.gap' ++ L.trail, Strings.isSpace c = true := by
    intro c hc
    rcases List.mem_append.mp hc with hc | hc
    · exact L.gap'_space c hc
    · exact L.trail_space c hc
  unfold stripped
  dsimp only
  rw [L.pem_text, replaceAll_layout _ _ _ _ L.lead_space L.gap_space hplain hfirst L.gap'_space L.trail_space,
    List.append_assoc _ L.gap' L.trail]
  have hdrop : ((L.lead ++ L.gap) ++ ((versionText ++ List.replicate L.spaces ' ' ++ '\n' :: ['\n'] ++
      ['\n'].intercalate L.lines) ++ (L.gap' ++ L.trail))).dropWhile Strings.isSpace =
      (versionText ++ List.replicate L.spaces ' ' ++ '\n' :: ['\n'] ++ ['\n'].intercalate L.lines) ++ (L.gap' ++ L.trail) := by
    rw [List.dropWhile_append_of_pos hlead]
    rfl
  unfold Strings.trim
  rw [List.append_assoc (L.lead ++ L.gap), hdrop, Strings.rdropWhile_append_of_all _ hend, hlines, intercalate_concat,
    intercalate_concat, ← List.append_assoc, Strings.rdropWhile_append_of_exists _ hlast, List.append_assoc]

private theorem getLines_lines {lines : List (List Char)}
    (h : lines.map (List.filter (· ≠ ' ')) = (quads uninit k).map List.flatten) :
    Strings.getLines (['\n'].intercalate lines) = lines := by
  obtain ⟨before, last, rfl, ⟨c, hc, -⟩, -⟩ := lines_concat h
  have hnewline : ∀ l ∈ before ++ [last], '\n' ∉ l := by
    intro l hl hmem
    rcases isDigit_of_mem_lines h hl '\n' hmem with heq | hdigit
    · cases heq
    · cases hdigit
  unfold Strings.getLines
  rw [List.splitOn_intercalate '\n' hnewline (by simp)]
  dsimp only
  rw [List.getLast?_concat, if_neg]
  intro heq
  injection heq with hnil
  rw [hnil] at hc
  cases hc

private theorem getLines_version (n : Nat) :
    Strings.getLines (Strings.trim (versionText ++ List.replicate n ' ')) = [versionText] := by
  have htrim : Strings.trim (versionText ++ List.replicate n ' ') = versionText := by
    have hdrop : (versionText ++ List.replicate n ' ').dropWhile Strings.isSpace =
        versionText ++ List.replicate n ' ' := rfl
    unfold Strings.trim
    rw [hdrop, Strings.rdropWhile_append_of_all _ (by simp [Strings.isSpace])]
    decide
  rw [htrim]
  decide

private theorem headerLine_version : headerLine none versionText = .ok (some 1) := by decide +kernel

/-- A layout is read as the key it is a text of. -/
theorem ofPem_layout (L : Layout uninit k) : ofPem uninit L.pem = .ok ⟨k.data, some 1, k.size⟩ := by
  obtain ⟨lines, hblocks, hstripped⟩ := stripped_layout L
  have hfind : Strings.find ['\n', '\n'] (stripped L.pem) = some (versionText ++ List.replicate L.spaces ' ').length := by
    rw [hstripped]
    refine Strings.find_append ?_ ['\n'] _
    have hversion : '\n' ∉ versionText := by decide
    simp [hversion]
  have hheader : headerLines (stripped L.pem) = [versionText] := by
    unfold headerLines
    rw [hfind]
    dsimp only
    rw [hstripped, List.append_assoc (versionText ++ List.replicate L.spaces ' '), List.take_left]
    exact getLines_version L.spaces
  have hbody : body (stripped L.pem) = ['\n'].intercalate lines := by
    unfold body
    rw [hfind]
    dsimp only
    rw [hstripped, show (versionText ++ List.replicate L.spaces ' ').length + 2 =
      (versionText ++ List.replicate L.spaces ' ' ++ '\n' :: ['\n']).length by simp [Nat.add_assoc], List.drop_left]
  have hversion : (headerLines (stripped L.pem)).foldlM headerLine none = .ok (some 1) := by
    rw [hheader, List.foldlM_cons, headerLine_version]
    rfl
  have hread : readBlocks (Strings.getLines (body (stripped L.pem))) = .ok (k.dataBlocks uninit) := by
    rw [hbody, getLines_lines hblocks, readBlocks_lines hblocks]
  rw [ofPem_of_blocks uninit hversion hread]
  rcases checkedKey_cases uninit (k.dataBlocks uninit) (some 1) with ⟨-, k', hk', hdata, hversion⟩ | ⟨hcheck, -⟩
  · have hkey : k' = ⟨k.data, some 1, k.size⟩ := ext_data (hdata.trans (blockListToRawData_dataBlocks k)) hversion
    rw [hk', hkey]
  · exact absurd (checkKey_dataBlocks uninit k) hcheck

/-! ### The text of a key -/

variable (uninit)

/-- A line of `toPem`. -/
def spacedLine (q : List (List Char)) : List Char := [' '].intercalate q

private theorem filter_of_isDigit {text : List Char} (h : ∀ c ∈ text, c.isDigit = true) :
    text.filter (· ≠ ' ') = text := by
  refine List.filter_eq_self.mpr ?_
  intro c hc
  refine decide_eq_true ?_
  rintro rfl
  cases h _ hc

private theorem map_spacedLine (k : MasterKey) :
    ((quads uninit k).map spacedLine).map (List.filter (· ≠ ' ')) = (quads uninit k).map List.flatten := by
  rw [List.map_map]
  refine List.map_congr_left ?_
  intro q hq
  obtain ⟨⟨b₁, b₂, b₃, b₄, rfl⟩, hgood⟩ := quad_of_mem hq
  have hfilter : ∀ b ∈ [b₁, b₂, b₃, b₄], b.filter (· ≠ ' ') = b :=
    fun b hb => filter_of_isDigit (hgood b hb).digits
  simp only [List.forall_mem_cons] at hfilter
  obtain ⟨h₁, h₂, h₃, h₄, -⟩ := hfilter
  unfold spacedLine
  simp only [Function.comp_apply, List.intercalate_cons_cons, List.intercalate_singleton, List.filter_append, h₁, h₂, h₃,
    h₄]
  simp

private theorem toPem_eq (k : MasterKey) :
    toPem uninit k = List.replicate 5 '-' ++ beginText ++ List.replicate 5 '-' ++
      (['\n'] ++ (versionText ++ List.replicate 0 ' ' ++ '\n' :: ['\n'] ++ ['\n'].intercalate ((quads uninit k).map spacedLine)) ++
        (['\n'] ++ (List.replicate 5 '-' ++ endText ++ List.replicate 5 '-' ++ ['\n']))) := by
  obtain ⟨f, hf⟩ : ∃ f : Nat → List Char, k.dataBlocks uninit =
      [f 0, f 1, f 2, f 3, f 4, f 5, f 6, f 7, f 8, f 9, f 10, f 11, f 12, f 13, f 14, f 15] :=
    ⟨fun i => blockOf uninit (numberAt k.data i), rfl⟩
  have hbegin : "-----BEGIN KULLO PRIVATE MASTER KEY-----\n".toList =
      List.replicate 5 '-' ++ beginText ++ List.replicate 5 '-' ++ ['\n'] := by decide
  have hend : "-----END KULLO PRIVATE MASTER KEY-----\n".toList =
      List.replicate 5 '-' ++ endText ++ List.replicate 5 '-' ++ ['\n'] := by decide
  have hversion : "Version: 1 (256 bit)\n".toList = versionText ++ ['\n'] := by decide
  have hspace : " ".toList = [' '] := rfl
  have hnewline : "\n".toList = ['\n'] := rfl
  unfold toPem quads spacedLine
  rw [hf, hbegin, hend, hversion, hspace, hnewline]
  generalize beginText = b, endText = e, versionText = v
  simp [List.range_succ, List.intercalate_cons_cons]

private theorem withoutReturnsAndTabs_toPem (k : MasterKey) : withoutReturnsAndTabs (toPem uninit k) = toPem uninit k := by
  have hlines : ∀ c ∈ ['\n'].intercalate ((quads uninit k).map spacedLine), c ≠ '\r' ∧ c ≠ '\t' := by
    intro c hc
    rcases Strings.mem_intercalate hc with rfl | ⟨l, hl, hcl⟩
    · decide
    · rcases isDigit_of_mem_lines (map_spacedLine uninit k) hl c hcl with rfl | hdigit
      · decide
      · refine ⟨?_, ?_⟩ <;> rintro rfl <;> cases hdigit
  have hchars : ∀ text : List Char, (text.all fun c => c != '\r' && c != '\t') = true → ∀ c ∈ text, c ≠ '\r' ∧ c ≠ '\t' :=
    fun text htext c hc => by simpa using List.all_eq_true.mp htext c hc
  have hbefore : ∀ c ∈ List.replicate 5 '-' ++ beginText ++ List.replicate 5 '-' ++ ['\n'] ++ versionText ++ ['\n', '\n'],
      c ≠ '\r' ∧ c ≠ '\t' := hchars _ (by decide)
  have hafter : ∀ c ∈ ['\n'] ++ List.replicate 5 '-' ++ endText ++ List.replicate 5 '-' ++ ['\n'], c ≠ '\r' ∧ c ≠ '\t' :=
    hchars _ (by decide)
  have hparts : toPem uninit k =
      (List.replicate 5 '-' ++ beginText ++ List.replicate 5 '-' ++ ['\n'] ++ versionText ++ ['\n', '\n']) ++
        (['\n'].intercalate ((quads uninit k).map spacedLine) ++
          (['\n'] ++ List.replicate 5 '-' ++ endText ++ List.replicate 5 '-' ++ ['\n'])) := by
    rw [toPem_eq]
    simp only [List.append_assoc, List.replicate_zero, List.nil_append]
  have hplain : ∀ c ∈ toPem uninit k, c ≠ '\r' ∧ c ≠ '\t' := by
    intro c hc
    rw [hparts] at hc
    rcases List.mem_append.mp hc with hc | hc
    · exact hbefore c hc
    · rcases List.mem_append.mp hc with hc | hc
      · exact hlines c hc
      · exact hafter c hc
  unfold withoutReturnsAndTabs
  rw [List.filter_eq_self.mpr (fun c hc => decide_eq_true (hplain c hc).1),
    List.filter_eq_self.mpr (fun c hc => decide_eq_true (hplain c hc).2)]

/-- `toPem` as a layout. -/
def Layout.ofKey (k : MasterKey) : Layout uninit k where
  pem := toPem uninit k
  lead := []
  gap := ['\n']
  gap' := ['\n']
  trail := ['\n']
  beginDashes := (5, 5)
  endDashes := (5, 5)
  spaces := 0
  lines := (quads uninit k).map spacedLine
  lead_space := by simp
  gap_space := List.all_eq_true.mp (by decide)
  gap'_space := List.all_eq_true.mp (by decide)
  trail_space := List.all_eq_true.mp (by decide)
  lines_blocks := map_spacedLine uninit k
  pem_text := by rw [withoutReturnsAndTabs_toPem, toPem_eq, List.nil_append]

/-- The text form of keys: every layout of a key, its text first of all, is read as this key, and a text is read safely
exactly if its lines are long enough and its version is there where it is needed. -/
theorem pem_roundTrip :
    (∀ k : MasterKey, ofPem uninit (toPem uninit k) = .ok ⟨k.data, some 1, k.size⟩) ∧
      (∀ (k : MasterKey) (L : Layout uninit k), ofPem uninit L.pem = .ok ⟨k.data, some 1, k.size⟩) ∧
      ∀ pemKey, Safe uninit pemKey ↔ SafeInput uninit pemKey :=
  ⟨fun k => ofPem_layout (Layout.ofKey uninit k), fun _ L => ofPem_layout L, safe_iff⟩

example : (ofPem ⟨fun _ _ => 0, fun _ => 0, fun _ => 0⟩
    (("009167 186544 520379 167502\n092114 170530 357103 015669\n" ++
      "422915 084699 505677 309062\n407924 293407 624445 483701\n").toList)).toOption.map MasterKey.version =
    some none := by
  decide +kernel

/-- A single character is a line that is too short. -/
theorem not_safe_short : ¬ ∀ uninit pemKey, Safe uninit pemKey := by
  intro hclaim
  have hfault : ofPem ⟨fun _ _ => 0, fun _ => 0, fun _ => 0⟩ ['1'] = .error .outOfRange := by decide +kernel
  have hinvalid := ((hclaim _ ['1']).refuses .outOfRange hfault).1
  cases hinvalid

end MasterKey

end KulloClient

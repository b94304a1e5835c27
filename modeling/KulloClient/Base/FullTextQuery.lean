import Mathlib.Data.List.Basic

/-!
# Queries of a full-text index

The language of SQLite's full-text queries, without column filters and `NEAR` groups: how a text is read as tokens,
and which query a list of tokens stands for.  The grammar is ambiguous; what is proved about a list of tokens holds
for each of its derivations.
-/

namespace FullText

/-! ### Tokens -/

inductive QueryToken
  | string (text : List UInt8)
  | bareword (text : List UInt8)
  | star
  | plus
  | and
  | or
  | not
  | leftParen
  | rightParen
  | other (symbol : UInt8)
  deriving DecidableEq

def isBlank (b : UInt8) : Bool := b == 32 || b == 9 || b == 10 || b == 13

/-- A byte of a string without quotes: letters, digits, `_`, the substitute character and all that is not ASCII. -/
def isBareword (b : UInt8) : Bool :=
  128 ≤ b || (48 ≤ b && b ≤ 57) || (65 ≤ b && b ≤ 90) || (97 ≤ b && b ≤ 122) || b == 95 || b == 26

/-- The operators that are one byte. -/
def symbol (b : UInt8) : Option QueryToken :=
  if b = 42 then some .star
  else if b = 43 then some .plus
  else if b = 40 then some .leftParen
  else if b = 41 then some .rightParen
  -- ^ , - : { }
  else if b ∈ [94, 44, 45, 58, 123, 125] then some (.other b)
  else none

def word (text : List UInt8) : QueryToken :=
  if text = [65, 78, 68] then .and
  else if text = [79, 82] then .or
  else if text = [78, 79, 84] then .not
  else .bareword text

/-- The text up to the closing quote, which is written twice inside it, and the rest. -/
def readString : List UInt8 → Option (List UInt8 × List UInt8)
  | [] => none
  | 34 :: 34 :: s => (readString s).map fun r => (34 :: r.1, r.2)
  | 34 :: s => some ([], s)
  | b :: s => (readString s).map fun r => (b :: r.1, r.2)

theorem length_of_readString {s : List UInt8} {r : List UInt8 × List UInt8} (h : readString s = some r) :
    r.2.length < s.length := by
  induction s using readString.induct generalizing r with
  | case1 => cases h
  | case2 s ih =>
    rw [readString, Option.map_eq_some_iff] at h
    obtain ⟨r', hr', rfl⟩ := h
    have := ih hr'
    simp only [List.length_cons]
    omega
  | case3 s hne =>
    rw [readString] at h
    · cases h
      simp
    · exact hne
  | case4 b s hne hquote ih =>
    rw [readString] at h
    · obtain ⟨r', hr', rfl⟩ := Option.map_eq_some_iff.mp h
      have := ih hr'
      simp only [List.length_cons]
      omega
    · exact hne
    · exact hquote

/-- The tokens of a text; a zero ends it. -/
def lex (s : List UInt8) : Option (List QueryToken) :=
  match s with
  | [] => some []
  | b :: s =>
    if b = 0 then some []
    else if isBlank b then lex s
    else if b = 34 then
      match _h : readString s with
      | none => none
      | some r => (lex r.2).map (.string r.1 :: ·)
    else match symbol b with
      | some token => (lex s).map (token :: ·)
      | none =>
        if isBareword b then (lex (s.dropWhile isBareword)).map (word (b :: s.takeWhile isBareword) :: ·) else none
termination_by s.length
decreasing_by
  · simp
  · have := length_of_readString _h
    simp only [List.length_cons]
    omega
  · simp
  · have : (s.dropWhile isBareword).length ≤ s.length := (List.dropWhile_sublist isBareword).length_le
    simp only [List.length_cons]
    omega

theorem lex_nil : lex [] = some [] := by rw [lex]

theorem lex_blank (s : List UInt8) : lex (32 :: s) = lex s := by
  rw [lex, if_neg (by decide), if_pos (by decide)]

theorem lex_star (s : List UInt8) : lex (42 :: s) = (lex s).map (.star :: ·) := by
  rw [lex, if_neg (by decide), if_neg (by decide), if_neg (by decide)]
  rfl

theorem lex_and (s : List UInt8) : lex (65 :: 78 :: 68 :: 32 :: s) = (lex s).map (.and :: ·) := by
  rw [lex, if_neg (by decide), if_neg (by decide), if_neg (by decide)]
  have hsymbol : symbol 65 = none := by decide
  have hword : (78 :: 68 :: 32 :: s).takeWhile isBareword = [78, 68] := rfl
  have hrest : (78 :: 68 :: 32 :: s).dropWhile isBareword = 32 :: s := rfl
  rw [hsymbol]
  dsimp only
  rw [if_pos (by decide), hword, hrest, lex_blank]
  rfl

theorem readString_append {text : List UInt8} (h : 34 ∉ text) {s : List UInt8} (hs : s.head? ≠ some 34) :
    readString (text ++ 34 :: s) = some (text, s) := by
  induction text with
  | nil =>
    rw [List.nil_append, readString]
    rintro s' rfl
    exact hs rfl
  | cons b text ih =>
    rw [List.mem_cons, not_or] at h
    rw [List.cons_append, readString, ih h.2]
    · rfl
    · rintro s' rfl -
      exact h.1 rfl
    · rintro rfl
      exact h.1 rfl

theorem lex_string {text : List UInt8} (h : 34 ∉ text) {s : List UInt8} (hs : s.head? ≠ some 34) :
    lex (34 :: text ++ 34 :: s) = (lex s).map (.string text :: ·) := by
  rw [List.cons_append, lex, if_neg (by decide), if_neg (by decide), if_pos rfl]
  split
  · next hnone =>
    rw [readString_append h hs] at hnone
    cases hnone
  · next hsome =>
    rw [readString_append h hs] at hsome
    cases hsome
    rfl

/-! ### The grammar -/

inductive Query
  | phrase (strings : List (List UInt8)) (isPrefix : Bool)
  | and (left right : Query)
  | or (left right : Query)
  | not (left right : Query)

inductive Phrase : List QueryToken → List (List UInt8) → Prop
  | string (text : List UInt8) : Phrase [.string text] [text]
  | bareword (text : List UInt8) : Phrase [.bareword text] [text]
  | plus {tokens tokens' : List QueryToken} {strings strings' : List (List UInt8)} :
      Phrase tokens strings → Phrase tokens' strings' → Phrase (tokens ++ .plus :: tokens') (strings ++ strings')

inductive Derives : List QueryToken → Query → Prop
  | phrase {tokens : List QueryToken} {strings : List (List UInt8)} :
      Phrase tokens strings → Derives tokens (.phrase strings false)
  | prefixPhrase {tokens : List QueryToken} {strings : List (List UInt8)} :
      Phrase tokens strings → Derives (tokens ++ [.star]) (.phrase strings true)
  | parens {tokens : List QueryToken} {q : Query} :
      Derives tokens q → Derives (.leftParen :: tokens ++ [.rightParen]) q
  | and {tokens tokens' : List QueryToken} {q q' : Query} :
      Derives tokens q → Derives tokens' q' → Derives (tokens ++ .and :: tokens') (.and q q')
  | implicitAnd {tokens tokens' : List QueryToken} {q q' : Query} :
      Derives tokens q → Derives tokens' q' → Derives (tokens ++ tokens') (.and q q')
  | or {tokens tokens' : List QueryToken} {q q' : Query} :
      Derives tokens q → Derives tokens' q' → Derives (tokens ++ .or :: tokens') (.or q q')
  | not {tokens tokens' : List QueryToken} {q q' : Query} :
      Derives tokens q → Derives tokens' q' → Derives (tokens ++ .not :: tokens') (.not q q')

def Query.conjuncts : Query → List Query
  | .and left right => left.conjuncts ++ right.conjuncts
  | q => [q]

/-- What a query may start with. -/
def QueryToken.starts : QueryToken → Bool
  | .string _ | .bareword _ | .leftParen => true
  | _ => false

theorem Phrase.head {tokens : List QueryToken} {strings : List (List UInt8)} (h : Phrase tokens strings) :
    ∃ token rest, tokens = token :: rest ∧ token.starts = true := by
  induction h with
  | string text => exact ⟨_, _, rfl, rfl⟩
  | bareword text => exact ⟨_, _, rfl, rfl⟩
  | plus _ _ ih _ =>
    obtain ⟨token, rest, rfl, hstarts⟩ := ih
    exact ⟨token, _, rfl, hstarts⟩

theorem Derives.head {tokens : List QueryToken} {q : Query} (h : Derives tokens q) :
    ∃ token rest, tokens = token :: rest ∧ token.starts = true := by
  induction h with
  | phrase hp => exact hp.head
  | prefixPhrase hp =>
    obtain ⟨token, rest, rfl, hstarts⟩ := hp.head
    exact ⟨token, _, rfl, hstarts⟩
  | parens _ _ => exact ⟨_, _, rfl, rfl⟩
  | and _ _ ih _ | implicitAnd _ _ ih _ | or _ _ ih _ | not _ _ ih _ =>
    obtain ⟨token, rest, rfl, hstarts⟩ := ih
    exact ⟨token, _, rfl, hstarts⟩

theorem Phrase.getLast {tokens : List QueryToken} {strings : List (List UInt8)} (h : Phrase tokens strings) :
    ∃ rest token, tokens = rest ++ [token] ∧ token ≠ .and := by
  induction h with
  | string text => exact ⟨[], _, rfl, by simp⟩
  | bareword text => exact ⟨[], _, rfl, by simp⟩
  | @plus tokens _ _ _ _ _ _ ih =>
    obtain ⟨rest, token, rfl, hne⟩ := ih
    exact ⟨tokens ++ .plus :: rest, token, by simp, hne⟩

theorem Derives.getLast {tokens : List QueryToken} {q : Query} (h : Derives tokens q) :
    ∃ rest token, tokens = rest ++ [token] ∧ token ≠ .and := by
  induction h with
  | phrase hp => exact hp.getLast
  | prefixPhrase _ => exact ⟨_, _, rfl, by simp⟩
  | parens _ _ => exact ⟨_, _, rfl, by simp⟩
  | @implicitAnd tokens _ _ _ _ _ _ ih =>
    obtain ⟨rest, token, rfl, hne⟩ := ih
    exact ⟨tokens ++ rest, token, by simp, hne⟩
  | @and tokens _ _ _ _ _ _ ih | @or tokens _ _ _ _ _ _ ih | @not tokens _ _ _ _ _ _ ih =>
    obtain ⟨rest, token, rfl, hne⟩ := ih
    exact ⟨tokens ++ _ :: rest, token, by rw [List.append_assoc]; rfl, hne⟩

/-! ### Conjunctions of prefix phrases -/

/-- `"a" * AND "b" *` -/
def conjunction : List (List UInt8) → List QueryToken
  | [] => []
  | [text] => [.string text, .star]
  | text :: texts => .string text :: .star :: .and :: conjunction texts

theorem conjunction_cons_cons (text text' : List UInt8) (texts : List (List UInt8)) :
    conjunction (text :: text' :: texts) = .string text :: .star :: .and :: conjunction (text' :: texts) := rfl

theorem mem_conjunction {texts : List (List UInt8)} {token : QueryToken} (h : token ∈ conjunction texts) :
    (∃ text, token = .string text) ∨ token = .star ∨ token = .and := by
  induction texts using conjunction.induct with
  | case1 => cases h
  | case2 text =>
    simp only [conjunction, List.mem_cons, List.not_mem_nil, or_false] at h
    rcases h with rfl | rfl
    · exact .inl ⟨text, rfl⟩
    · exact .inr (.inl rfl)
  | case3 text texts hne ih =>
    rw [conjunction] at h
    · simp only [List.mem_cons] at h
      rcases h with rfl | rfl | rfl | h
      · exact .inl ⟨text, rfl⟩
      · exact .inr (.inl rfl)
      · exact .inr (.inr rfl)
      · exact ih h
    · exact hne

/-- An `AND` of the tokens stands between two of the phrases. -/
theorem conjunction_eq_append_and {texts : List (List UInt8)} {left right : List QueryToken}
    (h : conjunction texts = left ++ .and :: right) :
    ∃ texts₁ texts₂, texts = texts₁ ++ texts₂ ∧ left = conjunction texts₁ ∧ right = conjunction texts₂ ∧
      texts₁ ≠ [] ∧ texts₂ ≠ [] := by
  induction texts generalizing left with
  | nil => simp [conjunction] at h
  | cons text texts ih =>
    rcases left with _ | ⟨a, _ | ⟨b, left⟩⟩
    · cases texts <;> simp [conjunction] at h
    · cases texts <;> simp [conjunction] at h
    · cases texts with
      | nil =>
        simp [conjunction] at h
      | cons text' texts =>
        rw [conjunction_cons_cons] at h
        simp only [List.cons_append, List.cons.injEq] at h
        obtain ⟨rfl, rfl, h⟩ := h
        rcases left with _ | ⟨c, left⟩
        · simp only [List.nil_append, List.cons.injEq, true_and] at h
          exact ⟨[text], text' :: texts, rfl, rfl, h.symm, by simp, by simp⟩
        · simp only [List.cons_append, List.cons.injEq] at h
          obtain ⟨rfl, h⟩ := h
          obtain ⟨texts₁, texts₂, heq, rfl, hright, hne₁, hne₂⟩ := ih h
          refine ⟨text :: texts₁, texts₂, by rw [heq]; rfl, ?_, hright, by simp, hne₂⟩
          obtain ⟨u, us, rfl⟩ := List.exists_cons_of_ne_nil hne₁
          rfl

/-- A string of the tokens is the first one or comes after an `AND`. -/
theorem conjunction_eq_append_string {texts : List (List UInt8)} {left right : List QueryToken}
    {token token' : QueryToken} (h : conjunction texts = left ++ token :: token' :: right)
    (hstarts : token'.starts = true) : token = .and := by
  induction texts generalizing left with
  | nil => simp [conjunction] at h
  | cons text texts ih =>
    have hstar : QueryToken.star.starts = false := rfl
    have hand : QueryToken.and.starts = false := rfl
    cases texts with
    | nil =>
      rcases left with _ | ⟨a, left⟩
      · simp only [conjunction, List.nil_append, List.cons.injEq] at h
        rw [← h.2.1, hstar] at hstarts
        cases hstarts
      · cases left <;> simp [conjunction] at h
    | cons text' texts =>
      rw [conjunction_cons_cons] at h
      rcases left with _ | ⟨a, _ | ⟨b, _ | ⟨c, left⟩⟩⟩
      · simp only [List.nil_append, List.cons.injEq] at h
        rw [← h.2.1, hstar] at hstarts
        cases hstarts
      · simp only [List.cons_append, List.nil_append, List.cons.injEq] at h
        rw [← h.2.2.1, hand] at hstarts
        cases hstarts
      · simp only [List.cons_append, List.nil_append, List.cons.injEq] at h
        exact h.2.2.1.symm
      · simp only [List.cons_append, List.cons.injEq] at h
        exact ih h.2.2.2

theorem derives_conjunction {texts : List (List UInt8)} (h : texts ≠ []) : ∃ q, Derives (conjunction texts) q := by
  induction texts with
  | nil => exact absurd rfl h
  | cons text texts ih =>
    have hphrase : Derives [.string text, .star] (.phrase [text] true) := .prefixPhrase (.string text)
    cases texts with
    | nil => exact ⟨_, hphrase⟩
    | cons text' texts =>
      obtain ⟨q, hq⟩ := ih (by simp)
      exact ⟨_, .and hphrase hq⟩

private theorem phrase_conjunction {texts : List (List UInt8)} {tokens rest : List QueryToken}
    {strings : List (List UInt8)} (hp : Phrase tokens strings) (h : conjunction texts = tokens ++ rest) :
    ∃ text, tokens = [.string text] ∧ strings = [text] := by
  have hmem : ∀ token ∈ tokens, (∃ text, token = .string text) ∨ token = .star ∨ token = .and := by
    intro token htoken
    have hmem : token ∈ conjunction texts := by
      rw [h]
      exact List.mem_append_left _ htoken
    exact mem_conjunction hmem
  cases hp with
  | string text => exact ⟨text, rfl, rfl⟩
  | bareword text =>
    have := hmem (.bareword text) (by simp)
    simp at this
  | plus _ _ =>
    have := hmem .plus (by simp)
    simp at this

/-- However the tokens are taken apart: one prefix phrase for each text, in order. -/
theorem conjuncts_of_derives {tokens : List QueryToken} {q : Query} (hq : Derives tokens q) :
    ∀ texts : List (List UInt8), conjunction texts = tokens → q.conjuncts = texts.map fun text => .phrase [text] true := by
  induction hq with
  | phrase hp =>
    intro texts h
    obtain ⟨text, rfl, rfl⟩ := phrase_conjunction hp (h.trans (List.append_nil _).symm)
    rcases texts with _ | ⟨text', _ | ⟨_, _⟩⟩ <;> simp [conjunction] at h
  | prefixPhrase hp =>
    intro texts h
    obtain ⟨text, rfl, rfl⟩ := phrase_conjunction hp h
    rcases texts with _ | ⟨text', _ | ⟨_, _⟩⟩
    · simp [conjunction] at h
    · simp only [conjunction, List.cons_append, List.nil_append, List.cons.injEq, QueryToken.string.injEq, and_true] at h
      rw [h]
      rfl
    · simp [conjunction] at h
  | parens _ _ =>
    intro texts h
    have hmem : QueryToken.leftParen ∈ conjunction texts := by rw [h]; simp
    have := mem_conjunction hmem
    simp at this
  | and _ _ ih ih' =>
    intro texts h
    obtain ⟨texts₁, texts₂, rfl, h₁, h₂, -, -⟩ := conjunction_eq_append_and h
    rw [Query.conjuncts, ih texts₁ h₁.symm, ih' texts₂ h₂.symm, List.map_append]
  | implicitAnd hleft hright _ _ =>
    intro texts h
    obtain ⟨token', right, rfl, hstarts⟩ := hright.head
    obtain ⟨left, token, rfl, hne⟩ := hleft.getLast
    rw [List.append_assoc] at h
    exact absurd (conjunction_eq_append_string h hstarts) hne
  | or _ _ _ _ =>
    intro texts h
    have hmem : QueryToken.or ∈ conjunction texts := by rw [h]; simp
    have := mem_conjunction hmem
    simp at this
  | not _ _ _ _ =>
    intro texts h
    have hmem : QueryToken.not ∈ conjunction texts := by rw [h]; simp
    have := mem_conjunction hmem
    simp at this

/-- A string alone is a phrase. -/
theorem derives_string {text : List UInt8} {q : Query} : Derives [.string text] q ↔ q = .phrase [text] false := by
  constructor
  · intro hq
    generalize htokens : [QueryToken.string text] = tokens at hq
    have hmem : ∀ token ∈ tokens, token = .string text := by
      rw [← htokens]
      exact fun _ => List.mem_singleton.mp
    cases hq with
    | phrase hp =>
      cases hp with
      | string _ =>
        cases htokens
        rfl
      | bareword _ => cases htokens
      | plus _ _ => exact absurd (hmem .plus (by simp)) (by simp)
    | prefixPhrase _ => exact absurd (hmem .star (by simp)) (by simp)
    | parens _ => exact absurd (hmem .leftParen (by simp)) (by simp)
    | and _ _ => exact absurd (hmem .and (by simp)) (by simp)
    | implicitAnd hleft hright =>
      obtain ⟨_, _, rfl, -⟩ := hleft.head
      obtain ⟨_, _, rfl, -⟩ := hright.head
      simp at htokens
    | or _ _ => exact absurd (hmem .or (by simp)) (by simp)
    | not _ _ => exact absurd (hmem .not (by simp)) (by simp)
  · intro hq
    rw [hq]
    exact .phrase (.string text)

end FullText

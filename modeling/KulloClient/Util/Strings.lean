import Mathlib.Data.List.DropRight
import Mathlib.Data.List.TakeWhile
import KulloClient.Types

/-!
# Strings

The helpers of `Strings`, and what the code uses of string streams.  A string is the list of its bytes, each as a
character.
-/

namespace KulloClient

namespace Strings

/-- `std::isspace`. -/
def isSpace (c : Char) : Bool := c == ' ' || (9 ≤ c.toNat && c.toNat ≤ 13)

def trim (input : List Char) : List Char := (input.dropWhile isSpace).rdropWhile isSpace

def toLower (s : List Char) : List Char := s.map Char.toLower

def padLeft (input : List Char) (targetLength : Nat) (paddingChar : Char) : List Char :=
  if targetLength ≤ input.length then input else List.replicate (targetLength - input.length) paddingChar ++ input

theorem mem_intercalate {α : Type} {sep : α} {ls : List (List α)} {a : α} (h : a ∈ [sep].intercalate ls) :
    a = sep ∨ ∃ l ∈ ls, a ∈ l := by
  induction ls with
  | nil => simp at h
  | cons l ls ih =>
    by_cases hls : ls = []
    · subst hls
      exact .inr ⟨l, by simp, by simpa using h⟩
    · rw [List.intercalate_cons_of_ne_nil hls, List.mem_append, List.mem_append, List.mem_singleton] at h
      rcases h with (h | h) | h
      · exact .inr ⟨l, by simp, h⟩
      · exact .inl h
      · rcases ih h with h | ⟨l', hl', h⟩
        · exact .inl h
        · exact .inr ⟨l', by simp [hl'], h⟩

/-! ### Trimming -/

theorem rdropWhile_append_of_all {α : Type} {p : α → Bool} (l : List α) {w : List α} (h : ∀ c ∈ w, p c = true) :
    (l ++ w).rdropWhile p = l.rdropWhile p := by
  unfold List.rdropWhile
  rw [List.reverse_append, List.dropWhile_append_of_pos (by simpa using h)]

theorem rdropWhile_append_of_exists {α : Type} {p : α → Bool} (l : List α) {w : List α} (h : ∃ c ∈ w, p c = false) :
    (l ++ w).rdropWhile p = l ++ w.rdropWhile p := by
  have hne : (w.reverse.dropWhile p).isEmpty = false := by
    rw [Bool.eq_false_iff, ne_eq, List.isEmpty_iff, List.dropWhile_eq_nil_iff]
    intro hall
    obtain ⟨c, hc, hpc⟩ := h
    rw [hall c (List.mem_reverse.mpr hc)] at hpc
    cases hpc
  unfold List.rdropWhile
  rw [List.reverse_append, List.dropWhile_append, hne, if_neg (by decide), List.reverse_append, List.reverse_reverse]

/-- What is dropped at the end would not pass the filter. -/
theorem filter_rdropWhile {α : Type} {p q : α → Bool} {l : List α} (h : ∀ c ∈ l, p c = true → q c = false) :
    (l.rdropWhile p).filter q = l.filter q := by
  induction l using List.reverseRecOn with
  | nil => rfl
  | append_singleton l c ih =>
    by_cases hc : p c = true
    · have hq := h c (by simp) hc
      rw [List.rdropWhile_concat_pos p l c hc, ih (fun d hd => h d (List.mem_append_left _ hd)), List.filter_append,
        List.filter_singleton, hq]
      simp
    · rw [List.rdropWhile_concat_neg p l c hc]

private theorem filter_dropWhile {α : Type} {p q : α → Bool} {l : List α} (h : ∀ c ∈ l, p c = true → q c = false) :
    (l.dropWhile p).filter q = l.filter q := by
  induction l with
  | nil => rfl
  | cons c l ih =>
    rw [List.forall_mem_cons] at h
    by_cases hc : p c = true
    · rw [List.dropWhile_cons_of_pos hc, ih h.2, List.filter_cons_of_neg (by rw [h.1 hc]; decide)]
    · rw [List.dropWhile_cons_of_neg hc]

theorem filter_trim {q : Char → Bool} {text : List Char} (h : ∀ c ∈ text, isSpace c = true → q c = false) :
    (trim text).filter q = text.filter q := by
  unfold trim
  rw [filter_rdropWhile, filter_dropWhile h]
  intro c hc
  exact h c ((List.dropWhile_sublist _).subset hc)

theorem dropWhile_trim (text : List Char) : (trim text).dropWhile isSpace = trim text := by
  rw [List.dropWhile_eq_self_iff]
  intro hpos
  have hprefix : trim text <+: text.dropWhile isSpace := List.rdropWhile_prefix isSpace _
  have hpos' : 0 < (text.dropWhile isSpace).length := Nat.lt_of_lt_of_le hpos hprefix.length_le
  have hhead := List.dropWhile_get_zero_not isSpace text hpos'
  have heq : (trim text)[0] = (text.dropWhile isSpace).get ⟨0, hpos'⟩ := hprefix.getElem hpos
  rw [heq]
  exact hhead

/-! ### String streams -/

/-- The lines that `std::getline` reads from a stream, one after the other. -/
def getLines (text : List Char) : List (List Char) :=
  let lines := text.splitOn '\n'
  if lines.getLast? = some [] then lines.dropLast else lines

/-- The digits that are read, as a value of a type of `w` bits; a number that is too large becomes the largest one, and
the negative of one is taken modulo `2 ^ w`. -/
def readDigits (w : Nat) (negative : Bool) (text : List Char) : Nat :=
  let n := Nat.ofDigitChars 10 (text.takeWhile Char.isDigit) 0
  if 2 ^ w ≤ n then 2 ^ w - 1
  else if negative then (2 ^ w - n) % 2 ^ w
  else n

/-- `std::istringstream(text) >> value`, for a variable of an unsigned type of `w` bits.  Where no digit follows, 0 is
written; where there is nothing but blanks, the variable is left as it is. -/
def extractUnsigned (w : Nat) (text : List Char) : Option Nat :=
  match text.dropWhile isSpace with
  | [] => none
  | '-' :: rest => some (readDigits w true rest)
  | '+' :: rest => some (readDigits w false rest)
  | rest => some (readDigits w false rest)

theorem isSpace_of_isDigit {c : Char} (h : c.isDigit = true) : isSpace c = false := by
  unfold Char.isDigit at h
  rw [Bool.and_eq_true, decide_eq_true_eq, decide_eq_true_eq] at h
  have hge : 48 ≤ c.toNat := h.1
  unfold isSpace
  rw [Bool.or_eq_false_iff, beq_eq_false_iff_ne, Bool.and_eq_false_iff]
  refine ⟨?_, .inr (decide_eq_false (by omega))⟩
  rintro rfl
  exact absurd hge (by decide)

/-- Digits are read as the number they write, if it fits. -/
theorem extractUnsigned_digits {w : Nat} {digits : List Char} (hne : digits ≠ []) (h : ∀ c ∈ digits, c.isDigit = true)
    (hfits : Nat.ofDigitChars 10 digits 0 < 2 ^ w) : extractUnsigned w digits = some (Nat.ofDigitChars 10 digits 0) := by
  cases digits with
  | nil => exact absurd rfl hne
  | cons c rest =>
    have hc := h c List.mem_cons_self
    have hspace : (c :: rest).dropWhile isSpace = c :: rest :=
      List.dropWhile_cons_of_neg (by rw [isSpace_of_isDigit hc]; decide)
    have hread : readDigits w false (c :: rest) = Nat.ofDigitChars 10 (c :: rest) 0 := by
      unfold readDigits
      rw [List.takeWhile_eq_self_iff.mpr h]
      dsimp only
      rw [if_neg (by omega)]
      rfl
    unfold extractUnsigned
    rw [hspace]
    split
    · next heq => cases heq
    · next heq =>
      injection heq with hminus
      subst hminus
      cases hc
    · next heq =>
      injection heq with hplus
      subst hplus
      cases hc
    · rw [hread]

/-! ### Decimal numbers -/

theorem toNat_of_isDigit {c : Char} (h : c.isDigit = true) : 48 ≤ c.toNat ∧ c.toNat ≤ 57 := by
  unfold Char.isDigit at h
  rw [Bool.and_eq_true, decide_eq_true_eq, decide_eq_true_eq] at h
  exact h

theorem ofDigitChars_lt {digits : List Char} (h : ∀ c ∈ digits, c.isDigit = true) :
    Nat.ofDigitChars 10 digits 0 < 10 ^ digits.length := by
  induction digits using List.reverseRecOn with
  | nil => exact Nat.one_pos
  | append_singleton digits c ih =>
    have hc := toNat_of_isDigit (h c (by simp))
    have hrest := ih fun d hd => h d (List.mem_append_left _ hd)
    rw [Nat.ofDigitChars_append, Nat.ofDigitChars_cons, Nat.ofDigitChars_nil, List.length_append, List.length_singleton,
      Nat.pow_succ, show ('0' : Char).toNat = 48 from rfl]
    omega

/-- Numbers of the same length are the same if they write the same number. -/
theorem ofDigitChars_injective {digits digits' : List Char} (h : ∀ c ∈ digits, c.isDigit = true)
    (h' : ∀ c ∈ digits', c.isDigit = true) (hlength : digits.length = digits'.length)
    (heq : Nat.ofDigitChars 10 digits 0 = Nat.ofDigitChars 10 digits' 0) : digits = digits' := by
  induction digits using List.reverseRecOn generalizing digits' with
  | nil => exact (List.length_eq_zero_iff.mp hlength.symm).symm
  | append_singleton digits c ih =>
    cases digits' using List.reverseRecOn with
    | nil => simp at hlength
    | append_singleton digits' c' =>
      have hc := toNat_of_isDigit (h c (by simp))
      have hc' := toNat_of_isDigit (h' c' (by simp))
      rw [Nat.ofDigitChars_append, Nat.ofDigitChars_append, Nat.ofDigitChars_cons, Nat.ofDigitChars_cons,
        Nat.ofDigitChars_nil, Nat.ofDigitChars_nil, show ('0' : Char).toNat = 48 from rfl] at heq
      rw [List.length_append, List.length_append, List.length_singleton, List.length_singleton] at hlength
      have hdigits : digits = digits' := by
        refine ih (fun d hd => h d (List.mem_append_left _ hd)) (fun d hd => h' d (List.mem_append_left _ hd)) ?_ ?_
        · omega
        · omega
      have hchar : c = c' := Char.toNat_inj.mp (by omega)
      rw [hdigits, hchar]

/-- A number that is padded with zeros. -/
theorem padLeft_toDigits (n length : Nat) (hpos : 0 < length) (h : n < 10 ^ length) :
    (padLeft (Nat.toDigits 10 n) length '0').length = length ∧
      (∀ c ∈ padLeft (Nat.toDigits 10 n) length '0', c.isDigit = true) ∧
      Nat.ofDigitChars 10 (padLeft (Nat.toDigits 10 n) length '0') 0 = n := by
  have hdigits : ∀ c ∈ Nat.toDigits 10 n, c.isDigit = true :=
    fun c hc => Nat.isDigit_of_mem_toDigits (by decide) (by decide) hc
  have hle : (Nat.toDigits 10 n).length ≤ length := (Nat.length_toDigits_le_iff (by decide) hpos).mpr h
  unfold padLeft
  split
  · exact ⟨by omega, hdigits, Nat.ofDigitChars_ten_toDigits⟩
  · refine ⟨?_, ?_, ?_⟩
    · rw [List.length_append, List.length_replicate]
      omega
    · intro c hc
      rcases List.mem_append.mp hc with hc | hc
      · rw [List.eq_of_mem_replicate hc]
        rfl
      · exact hdigits c hc
    · rw [Nat.ofDigitChars_append, Nat.ofDigitChars_replicate_zero, Nat.mul_zero, Nat.ofDigitChars_ten_toDigits]

end Strings

/-- What `strtol` reads: blanks, a sign and digits, whatever follows them. -/
def leadingNumber (text : List Char) : Option Int :=
  let number (negative : Bool) (rest : List Char) : Option Int :=
    let digits := rest.takeWhile Char.isDigit
    if digits.isEmpty then none
    else some (if negative then -(Nat.ofDigitChars 10 digits 0 : Int) else Nat.ofDigitChars 10 digits 0)
  match text.dropWhile Strings.isSpace with
  | '-' :: rest => number true rest
  | '+' :: rest => number false rest
  | rest => number false rest

theorem leadingNumber_digits {digits : List Char} (h : ∀ c ∈ digits, c.isDigit = true) (hne : digits ≠ []) :
    leadingNumber digits = some (Nat.ofDigitChars 10 digits 0 : Int) := by
  have htake : digits.takeWhile Char.isDigit = digits := List.takeWhile_eq_self_iff.mpr h
  obtain ⟨c, rest, rfl⟩ := List.exists_cons_of_ne_nil hne
  have hc : c.isDigit = true := h c List.mem_cons_self
  have hdrop : (c :: rest).dropWhile Strings.isSpace = c :: rest := by
    rw [List.dropWhile_cons_of_neg]
    simp [Strings.isSpace_of_isDigit hc]
  unfold leadingNumber
  rw [hdrop]
  split
  · next heq =>
    cases heq
    cases hc
  · next heq =>
    cases heq
    cases hc
  · dsimp only
    rw [htake]
    rfl

theorem leadingNumber_toDigits (n : Nat) : leadingNumber (Nat.toDigits 10 n) = some (n : Int) := by
  have hdigits : ∀ c ∈ Nat.toDigits 10 n, c.isDigit = true :=
    fun c hc => Nat.isDigit_of_mem_toDigits (by decide) (by decide) hc
  rw [leadingNumber_digits hdigits Nat.toDigits_ne_nil, Nat.ofDigitChars_ten_toDigits]

end KulloClient

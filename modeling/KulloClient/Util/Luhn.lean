import KulloClient.Util.MasterKey

/-!
# Check digits

The Luhn algorithm on texts of any length: the digit that is generated is the one that is accepted, and a wrong digit or
two digits in the wrong order are detected.  Both loops add up in 32 bits, so that this ends with the length from which
on the sum can wrap.
-/

namespace KulloClient

namespace MasterKey

/-! ### The sum -/

/-- What a digit adds to the sum. -/
def addend (factor n : Nat) : Nat := factor * n / 10 + factor * n % 10

/-- The factor after some rounds. -/
def factorAfter (factor : Nat) : Nat → Nat
  | 0 => factor
  | n + 1 => factorAfter (if factor = 2 then 1 else 2) n

private theorem factorAfter_cases {factor : Nat} (h : factor = 1 ∨ factor = 2) (n : Nat) :
    factorAfter factor n = 1 ∨ factorAfter factor n = 2 := by
  induction n generalizing factor with
  | zero => exact h
  | succ n ih =>
    have hnext : (if factor = 2 then 1 else 2) = 1 ∨ (if factor = 2 then 1 else 2) = 2 := by
      split <;> omega
    exact ih hnext

private theorem luhn_cons (factor : Nat) (c : Char) (cs : List Char) :
    luhn factor (c :: cs) = addend factor (c.toNat - 48) + luhn (if factor = 2 then 1 else 2) cs := rfl

private theorem luhn_append (factor : Nat) (cs ds : List Char) :
    luhn factor (cs ++ ds) = luhn factor cs + luhn (factorAfter factor cs.length) ds := by
  induction cs generalizing factor with
  | nil => simp [luhn, factorAfter]
  | cons c cs ih =>
    rw [List.cons_append, luhn_cons, luhn_cons, ih, List.length_cons, factorAfter]
    omega

private theorem luhn_replicate (factor n : Nat) (c : Char) (k : Nat) (hone : addend 1 (c.toNat - 48) = k)
    (htwo : addend 2 (c.toNat - 48) = k) (hfactor : factor = 1 ∨ factor = 2) :
    luhn factor (List.replicate n c) = k * n := by
  induction n generalizing factor with
  | zero => rfl
  | succ n ih =>
    have hnext : (if factor = 2 then 1 else 2) = 1 ∨ (if factor = 2 then 1 else 2) = 2 := by
      split <;> omega
    have hc : addend factor (c.toNat - 48) = k := by
      rcases hfactor with rfl | rfl
      · exact hone
      · exact htwo
    rw [List.replicate_succ, luhn_cons, ih _ hnext, hc, Nat.mul_succ]
    omega

/-- Two digits with one factor. -/
theorem addend_inj {factor a b : Nat} (hfactor : factor = 1 ∨ factor = 2) (ha : a ≤ 9) (hb : b ≤ 9)
    (h : addend factor a % 10 = addend factor b % 10) : a = b := by
  unfold addend at h
  rcases hfactor with rfl | rfl <;> omega

/-- What a digit gets more with the factor 2: the same for 0 and 9, and otherwise different for every digit. -/
def excess (n : Nat) : Nat := (addend 2 n + 10 - addend 1 n) % 10

private theorem excess_inj : ∀ a b : Fin 10, excess a = excess b → a = b ∨ a = 0 ∧ b = 9 ∨ a = 9 ∧ b = 0 := by decide

/-- Two digits with both factors, in both orders. -/
theorem addend_swap {factor a b : Nat} (hfactor : factor = 1 ∨ factor = 2) (ha : a ≤ 9) (hb : b ≤ 9)
    (h : (addend factor a + addend (if factor = 2 then 1 else 2) b) % 10 =
      (addend factor b + addend (if factor = 2 then 1 else 2) a) % 10) :
    a = b ∨ a = 0 ∧ b = 9 ∨ a = 9 ∧ b = 0 := by
  have hone : ∀ n, n ≤ 9 → addend 1 n ≤ 9 := by
    intro n hn
    unfold addend
    omega
  have ha1 := hone a ha
  have hb1 := hone b hb
  have hexcess : excess a = excess b := by
    unfold excess
    rcases hfactor with rfl | rfl
    · rw [if_neg (by decide)] at h
      omega
    · rw [if_pos rfl] at h
      omega
  have hcases := excess_inj ⟨a, by omega⟩ ⟨b, by omega⟩ hexcess
  simpa [Fin.ext_iff] using hcases

/-! ### Wrong digits -/

/-- The check digit is the one that is accepted, and errors are detected, in texts of this length. -/
structure ErrorsDetected (uninit : Uninitialized) (length : Nat) : Prop where
  generated : ∀ digits : List Char, digits.length + 1 = length → (∀ c ∈ digits, c.isDigit = true) →
    checkLuhn uninit (digits ++ luhnMod10GenerateCheckCharacter uninit digits) = true
  others : ∀ (digits : List Char) (d : Char), digits.length + 1 = length → (∀ c ∈ digits, c.isDigit = true) →
    d.isDigit = true → luhnMod10GenerateCheckCharacter uninit digits ≠ [d] → checkLuhn uninit (digits ++ [d]) = false
  changed : ∀ (before after : List Char) (c d : Char), (before ++ c :: after).length = length →
    (∀ e ∈ before ++ c :: after, e.isDigit = true) → checkLuhn uninit (before ++ c :: after) = true →
    d.isDigit = true → c ≠ d → checkLuhn uninit (before ++ d :: after) = false
  swapped : ∀ (before after : List Char) (c d : Char), (before ++ c :: d :: after).length = length →
    (∀ e ∈ before ++ c :: d :: after, e.isDigit = true) → checkLuhn uninit (before ++ c :: d :: after) = true →
    c ≠ d → ¬ (c = '0' ∧ d = '9' ∨ c = '9' ∧ d = '0') → checkLuhn uninit (before ++ d :: c :: after) = false

variable {uninit : Uninitialized}

theorem eq_of_digits {c d : Char} (hc : c.isDigit = true) (hd : d.isDigit = true) (h : c.toNat - 48 = d.toNat - 48) :
    c = d := by
  have hc' := Strings.toNat_of_isDigit hc
  have hd' := Strings.toNat_of_isDigit hd
  apply Char.toNat_inj.mp
  omega

private theorem checkLuhn_eq_false {block : List Char} (hlength : 9 * block.length < 2 ^ 32) (h : ∀ c ∈ block, c.isDigit = true) :
    checkLuhn uninit block = false ↔ luhn 1 block.reverse % 10 ≠ 0 := by
  rw [← Bool.not_eq_true, checkLuhn_iff hlength h]

private theorem checkLuhn_concat_iff {digits : List Char} {d : Char} (hlength : 9 * (digits.length + 1) < 2 ^ 32)
    (h : ∀ c ∈ digits, c.isDigit = true) (hd : d.isDigit = true) :
    checkLuhn uninit (digits ++ [d]) = true ↔ luhnMod10GenerateCheckCharacter uninit digits = [d] := by
  have hall : ∀ c ∈ digits ++ [d], c.isDigit = true := by
    intro c hc
    rcases List.mem_append.mp hc with hc | hc
    · exact h c hc
    · rw [List.mem_singleton.mp hc]
      exact hd
  have hlength' : 9 * (digits ++ [d]).length < 2 ^ 32 := by
    rw [List.length_append, List.length_singleton]
    exact hlength
  obtain ⟨-, hdigit, hvalue⟩ := digit_mod (10 - luhn 2 digits.reverse % 10)
  have hd' := Strings.toNat_of_isDigit hd
  rw [checkLuhn_iff hlength' hall, luhn_concat d hd, luhnMod10GenerateCheckCharacter_eq uninit h (by omega)]
  constructor
  · intro hsum
    rw [List.singleton_inj]
    apply eq_of_digits hdigit hd
    rw [hvalue]
    omega
  · intro heq
    rw [List.singleton_inj] at heq
    rw [← heq, hvalue]
    omega

private theorem checkLuhn_change {before after : List Char} {c d : Char} (hlength : 9 * (before ++ c :: after).length < 2 ^ 32)
    (h : ∀ e ∈ before ++ c :: after, e.isDigit = true) (hcheck : checkLuhn uninit (before ++ c :: after) = true)
    (hd : d.isDigit = true) (hne : c ≠ d) : checkLuhn uninit (before ++ d :: after) = false := by
  have hc : c.isDigit = true := h c (by simp)
  have hdigits : ∀ e ∈ before ++ d :: after, e.isDigit = true := by
    intro e he
    rcases List.mem_append.mp he with he | he
    · exact h e (List.mem_append_left _ he)
    · rcases List.mem_cons.mp he with rfl | he
      · exact hd
      · exact h e (by simp [he])
  have hlength' : 9 * (before ++ d :: after).length < 2 ^ 32 := by
    rw [List.length_append, List.length_cons] at hlength ⊢
    exact hlength
  have hc' := Strings.toNat_of_isDigit hc
  have hd' := Strings.toNat_of_isDigit hd
  have hfactor := factorAfter_cases (.inl rfl) after.reverse.length
  rw [checkLuhn_iff hlength h, List.reverse_append, List.reverse_cons, List.append_assoc, luhn_append,
    List.singleton_append, luhn_cons] at hcheck
  rw [checkLuhn_eq_false hlength' hdigits, List.reverse_append, List.reverse_cons, List.append_assoc, luhn_append,
    List.singleton_append, luhn_cons]
  intro hcheck'
  apply hne
  apply eq_of_digits hc hd
  apply addend_inj hfactor (by omega) (by omega)
  omega

private theorem checkLuhn_swap {before after : List Char} {c d : Char}
    (hlength : 9 * (before ++ c :: d :: after).length < 2 ^ 32) (h : ∀ e ∈ before ++ c :: d :: after, e.isDigit = true)
    (hcheck : checkLuhn uninit (before ++ c :: d :: after) = true) (hne : c ≠ d)
    (hpair : ¬ (c = '0' ∧ d = '9' ∨ c = '9' ∧ d = '0')) : checkLuhn uninit (before ++ d :: c :: after) = false := by
  have hc : c.isDigit = true := h c (by simp)
  have hd : d.isDigit = true := h d (by simp)
  have hdigits : ∀ e ∈ before ++ d :: c :: after, e.isDigit = true := by
    intro e he
    apply h
    simp only [List.mem_append, List.mem_cons] at he ⊢
    tauto
  have hlength' : 9 * (before ++ d :: c :: after).length < 2 ^ 32 := by
    rw [List.length_append, List.length_cons, List.length_cons] at hlength ⊢
    exact hlength
  have hc' := Strings.toNat_of_isDigit hc
  have hd' := Strings.toNat_of_isDigit hd
  have hfactor := factorAfter_cases (.inl rfl) after.reverse.length
  rw [checkLuhn_iff hlength h, List.reverse_append, List.reverse_cons, List.reverse_cons, List.append_assoc,
    List.append_assoc, luhn_append, List.singleton_append, List.singleton_append, luhn_cons, luhn_cons] at hcheck
  rw [checkLuhn_eq_false hlength' hdigits, List.reverse_append, List.reverse_cons, List.reverse_cons, List.append_assoc,
    List.append_assoc, luhn_append, List.singleton_append, List.singleton_append, luhn_cons, luhn_cons]
  intro hcheck'
  have hzero : ('0' : Char).toNat - 48 = 0 := rfl
  have hnine : ('9' : Char).toNat - 48 = 9 := rfl
  have hswap := @addend_swap (factorAfter 1 after.reverse.length) (d.toNat - 48) (c.toNat - 48) hfactor (by omega)
    (by omega) (by omega)
  rcases hswap with heq | ⟨hd0, hc9⟩ | ⟨hd9, hc0⟩
  · exact hne (eq_of_digits hc hd heq.symm)
  · exact hpair (.inr ⟨eq_of_digits hc rfl (hc9.trans hnine.symm), eq_of_digits hd rfl (hd0.trans hzero.symm)⟩)
  · exact hpair (.inl ⟨eq_of_digits hc rfl (hc0.trans hzero.symm), eq_of_digits hd rfl (hd9.trans hnine.symm)⟩)

/-! ### Long texts -/

/-- The sums of texts of this length fit into 32 bits. -/
def luhnMaxLength : Nat := 477218588

private theorem errorsDetected {length : Nat} (h : length ≤ luhnMaxLength) : ErrorsDetected uninit length := by
  unfold luhnMaxLength at h
  refine ⟨?_, ?_, ?_, ?_⟩
  · intro digits hlength hdigits
    obtain ⟨-, hdigit, -⟩ := digit_mod (10 - luhn 2 digits.reverse % 10)
    have heq := luhnMod10GenerateCheckCharacter_eq uninit hdigits (by omega)
    rw [heq, checkLuhn_concat_iff (by omega) hdigits hdigit]
    exact heq
  · intro digits d hlength hdigits hd hne
    rw [← Bool.not_eq_true, checkLuhn_concat_iff (by omega) hdigits hd]
    exact hne
  · intro before after c d hlength hdigits hcheck hd hne
    exact checkLuhn_change (by omega) hdigits hcheck hd hne
  · intro before after c d hlength hdigits hcheck hne hpair
    exact checkLuhn_swap (by omega) hdigits hcheck hne hpair

/-- From here on the index is a negative number or one of the first characters, so that the last ones are not read. -/
theorem length_indexed_lt {cs : List Char} (h : 2 ^ 31 < cs.length) :
    (Int.bmod (cs.length - 1) (2 ^ 32) + 1).toNat < cs.length := by
  have hle := @Int.bmod_lt ((cs.length : Int) - 1) (2 ^ 32) (by decide)
  omega

private theorem indexed_concat {cs : List Char} (c d : Char) (h : 2 ^ 31 < cs.length + 1) :
    indexed (cs ++ [c]) = indexed (cs ++ [d]) := by
  have hlength : (cs ++ [c]).length = cs.length + 1 := by rw [List.length_append, List.length_singleton]
  have hlength' : (cs ++ [d]).length = cs.length + 1 := by rw [List.length_append, List.length_singleton]
  have hlt := @length_indexed_lt (cs ++ [c]) (by omega)
  unfold indexed
  rw [hlength] at hlt ⊢
  rw [hlength', List.take_append_of_le_length (by omega), List.take_append_of_le_length (by omega)]

/-- A text that passes the check, and still does with another last digit. -/
theorem not_errorsDetected_of_last {cs : List Char} (hdigits : ∀ c ∈ cs, c.isDigit = true)
    {c d : Char} (hc : c.isDigit = true) (hd : d.isDigit = true) (hne : c ≠ d)
    (hcheck : checkLuhn uninit (cs ++ [c]) = true) (hcheck' : checkLuhn uninit (cs ++ [d]) = true) :
    ¬ ErrorsDetected uninit (cs.length + 1) := by
  intro h
  have hall : ∀ e ∈ cs ++ [c], e.isDigit = true := by
    intro e he
    rcases List.mem_append.mp he with he | he
    · exact hdigits e he
    · rw [List.mem_singleton.mp he]
      exact hc
  have hlength : (cs ++ [c]).length = cs.length + 1 := by rw [List.length_append, List.length_singleton]
  rw [h.changed cs [] c d hlength hall hcheck hd hne] at hcheck'
  cases hcheck'

/-- As many nines as it takes, up to 2 ^ 32 − 6 in all: with another 6 the sum is 0. -/
def nearlyWrapping (length : Nat) : List Char :=
  List.replicate (length - luhnMaxLength - 1) '0' ++ List.replicate (luhnMaxLength - 2) '9' ++ ['7', '9']

private theorem nearlyWrapping_digits (length : Nat) : ∀ c ∈ nearlyWrapping length, c.isDigit = true := by
  intro c hc
  unfold nearlyWrapping at hc
  rw [List.mem_append, List.mem_append] at hc
  rcases hc with (hc | hc) | hc
  · rw [List.eq_of_mem_replicate hc]
    rfl
  · rw [List.eq_of_mem_replicate hc]
    rfl
  · rcases List.mem_cons.mp hc with rfl | hc
    · rfl
    · rw [List.mem_singleton.mp hc]
      rfl

private theorem length_nearlyWrapping {length : Nat} (h : luhnMaxLength < length) : (nearlyWrapping length).length + 1 = length := by
  unfold nearlyWrapping
  rw [List.length_append, List.length_append, List.length_replicate, List.length_replicate]
  unfold luhnMaxLength at h ⊢
  simp only [List.length_cons, List.length_nil]
  omega

private theorem luhn_nearlyWrapping (length : Nat) (c : Char) :
    luhn 1 (nearlyWrapping length ++ [c]).reverse = addend 1 (c.toNat - 48) + 4294967290 := by
  have hnines := luhn_replicate 2 (luhnMaxLength - 2) '9' 9 rfl rfl (.inr rfl)
  have hzeros := luhn_replicate (factorAfter 2 (List.replicate (luhnMaxLength - 2) '9').length)
    (length - luhnMaxLength - 1) '0' 0 rfl rfl (factorAfter_cases (.inr rfl) _)
  have hnine : addend 2 (('9' : Char).toNat - 48) = 9 := rfl
  have hseven : addend 1 (('7' : Char).toNat - 48) = 7 := rfl
  unfold nearlyWrapping
  rw [List.reverse_append, List.reverse_append, List.reverse_append, List.reverse_replicate, List.reverse_replicate]
  simp only [List.reverse_cons, List.reverse_nil, List.nil_append, List.cons_append]
  rw [luhn_cons, if_neg (by decide), luhn_cons, if_pos rfl, luhn_cons, if_neg (by decide), luhn_append, hnines, hzeros, hnine,
    hseven]
  unfold luhnMaxLength
  omega

private theorem checkLuhn_nearlyWrapping {length : Nat} (h : luhnMaxLength < length) (hle : length ≤ 2 ^ 31) {c : Char}
    (hc : c.isDigit = true) (hsum : (addend 1 (c.toNat - 48) + 4294967290) % 2 ^ 32 % 10 = 0) :
    checkLuhn uninit (nearlyWrapping length ++ [c]) = true := by
  have hlength := length_nearlyWrapping h
  have hall : ∀ d ∈ (nearlyWrapping length ++ [c]).reverse, d.isDigit = true := by
    intro d hd
    rcases List.mem_append.mp (List.mem_reverse.mp hd) with hd | hd
    · exact nearlyWrapping_digits length d hd
    · rw [List.mem_singleton.mp hd]
      exact hc
  unfold checkLuhn
  rw [indexed_eq (by rw [List.length_append, List.length_singleton]; omega),
    luhnLoop_eq_mod hall (.inl rfl) (by decide), Nat.zero_add, luhn_nearlyWrapping, hsum]
  rfl

private theorem not_errorsDetected {length : Nat} (h : luhnMaxLength < length) : ¬ ErrorsDetected uninit length := by
  by_cases hle : length ≤ 2 ^ 31
  · have hzero := @checkLuhn_nearlyWrapping uninit length h hle '0' rfl (by decide)
    have hsix := @checkLuhn_nearlyWrapping uninit length h hle '6' rfl (by decide)
    have hnot := not_errorsDetected_of_last (nearlyWrapping_digits length) rfl rfl (by decide) hzero hsix
    rw [length_nearlyWrapping h] at hnot
    exact hnot
  · have hdigits : ∀ c ∈ List.replicate (length - 1) '0', c.isDigit = true := by
      intro c hc
      rw [List.eq_of_mem_replicate hc]
      rfl
    have hlength : (List.replicate (length - 1) '0').length + 1 = length := by
      rw [List.length_replicate]
      omega
    -- the last digit is not read, and the others are zeros
    have hread := @indexed_concat (List.replicate (length - 1) '0') '0' '1' (by omega)
    have hcheck : ∀ c : Char, indexed (List.replicate (length - 1) '0' ++ [c]) =
        indexed (List.replicate (length - 1) '0' ++ ['0']) →
        checkLuhn uninit (List.replicate (length - 1) '0' ++ [c]) = true := by
      intro c heq
      obtain ⟨k, hk⟩ : ∃ k, indexed (List.replicate (length - 1) '0' ++ ['0']) = List.replicate k '0' := by
        unfold indexed
        rw [← List.replicate_succ', List.take_replicate]
        exact ⟨_, rfl⟩
      have hzeros : ∀ d ∈ List.replicate k '0', d.isDigit = true := by
        intro d hd
        rw [List.eq_of_mem_replicate hd]
        rfl
      unfold checkLuhn
      rw [heq, hk, List.reverse_replicate, luhnLoop_eq_mod hzeros (.inl rfl) (by decide),
        luhn_replicate 1 k '0' 0 rfl rfl (.inl rfl), Nat.zero_mul]
      rfl
    have hnot := not_errorsDetected_of_last hdigits rfl rfl (by decide) (hcheck '0' rfl) (hcheck '1' hread.symm)
    rw [hlength] at hnot
    exact hnot

/-- Errors are detected exactly in the texts whose sums fit into 32 bits. -/
theorem errorsDetected_iff (uninit : Uninitialized) (length : Nat) :
    ErrorsDetected uninit length ↔ length ≤ luhnMaxLength := by
  constructor
  · intro h
    by_contra hlong
    exact not_errorsDetected (Nat.lt_of_not_le hlong) h
  · exact errorsDetected

/-- One digit more, and the sum can wrap. -/
theorem not_errorsDetected_wrapping :
    ¬ ∀ (uninit : Uninitialized) (length : Nat), ErrorsDetected uninit length := by
  intro h
  exact not_errorsDetected (Nat.lt_succ_self luhnMaxLength) (h ⟨fun _ _ => 0, fun _ => 0, fun _ => 0⟩ (luhnMaxLength + 1))

end MasterKey

end KulloClient

import KulloClient.Types

/-!
# UrlEncoding

A string is the list of its bytes.  The characters are printed through a stream with flags, as numbers of type `int`; for
a `char` with a sign these are negative from 128 on, and a negative number has eight digits.
-/

namespace KulloClient

namespace UrlEncoding

/-! ### The stream -/

/-- `std::stringstream` with base 16 and zeros for filling, and its flags. -/
structure Stream where
  text : Bytes := []
  uppercase : Bool := false
  width : Nat := 0

/-- Formatted output, which resets the width. -/
def Stream.put (s : Stream) (characters : Bytes) : Stream :=
  { s with text := s.text ++ List.replicate (s.width - characters.length) 48 ++ characters, width := 0 }

/-- The digits of an `int`, which is taken without its sign. -/
def hexDigits (uppercase : Bool) (n : Int) : Bytes :=
  (Nat.toDigits 16 (n % 2 ^ 32).toNat).map fun c => UInt8.ofNat (if uppercase then c.toUpper else c).toNat

/-- A `char` as an `int`; whether it has a sign is up to the platform. -/
def charToInt (charSigned : Bool) (chr : UInt8) : Int :=
  if charSigned && decide (128 ≤ chr.toNat) then (chr.toNat : Int) - 256 else chr.toNat

/-- `std::isalnum`, in the locale of a program that sets none. -/
def isalnum (c : Int) : Bool :=
  decide (48 ≤ c ∧ c ≤ 57) || decide (65 ≤ c ∧ c ≤ 90) || decide (97 ≤ c ∧ c ≤ 122)

/-- A round of the loop; 45, 46, 95 and 126 are `-`, `.`, `_` and `~`, and 37 is `%`. -/
def round (charSigned : Bool) (result : Stream) (chr : UInt8) : Stream :=
  if isalnum (charToInt charSigned chr) || chr == 45 || chr == 46 || chr == 95 || chr == 126 then result.put [chr]
  else
    let result := result.put [37]
    let result := { result with uppercase := true, width := 2 }
    let result := result.put (hexDigits result.uppercase (charToInt charSigned chr))
    { result with uppercase := false }

def encode (charSigned : Bool) (input : Bytes) : Bytes := (input.foldl (round charSigned) {}).text

/-! ### The code of a character -/

/-- `[-._~0-9A-Za-z]`. -/
def isUnreserved (chr : UInt8) : Bool :=
  isalnum chr.toNat || chr == 45 || chr == 46 || chr == 95 || chr == 126

/-- An upper case digit. -/
def upperHex (n : Nat) : UInt8 := UInt8.ofNat (if n < 10 then 48 + n else 55 + n)

/-- A character that is a negative number. -/
def isNegative (charSigned : Bool) (chr : UInt8) : Bool := charSigned && decide (128 ≤ chr.toNat)

/-- What is written for a character. -/
def code (charSigned : Bool) (chr : UInt8) : Bytes :=
  if isUnreserved chr then [chr]
  else if isNegative charSigned chr then
    [37, 70, 70, 70, 70, 70, 70, upperHex (chr.toNat / 16), upperHex (chr.toNat % 16)]
  else [37, upperHex (chr.toNat / 16), upperHex (chr.toNat % 16)]

private theorem not_isUnreserved_of_isNegative {charSigned : Bool} {chr : UInt8} (h : isNegative charSigned chr = true) :
    isUnreserved chr = false := by
  have hall : ∀ chr : UInt8, 128 ≤ chr.toNat → isUnreserved chr = false := by
    apply forall_byte
    decide +kernel
  unfold isNegative at h
  rw [Bool.and_eq_true, decide_eq_true_eq] at h
  exact hall chr h.2

/-- The digits of the two kinds of numbers. -/
theorem hexDigits_eq (charSigned : Bool) (chr : UInt8) :
    List.replicate (2 - (hexDigits true (charToInt charSigned chr)).length) 48 ++ hexDigits true (charToInt charSigned chr) =
      if isNegative charSigned chr then
        [70, 70, 70, 70, 70, 70, upperHex (chr.toNat / 16), upperHex (chr.toNat % 16)]
      else [upperHex (chr.toNat / 16), upperHex (chr.toNat % 16)] := by
  revert chr
  apply forall_byte
  cases charSigned <;> decide +kernel

private theorem round_condition (charSigned : Bool) (chr : UInt8) :
    (isalnum (charToInt charSigned chr) || chr == 45 || chr == 46 || chr == 95 || chr == 126) = isUnreserved chr := by
  revert chr
  apply forall_byte
  cases charSigned <;> decide +kernel

/-- A round leaves the flags as it found them. -/
theorem round_eq (charSigned : Bool) (text : Bytes) (chr : UInt8) :
    round charSigned { text := text } chr = { text := text ++ code charSigned chr } := by
  unfold round code
  rw [round_condition]
  by_cases hunreserved : isUnreserved chr = true
  · rw [if_pos hunreserved, if_pos hunreserved]
    simp [Stream.put]
  · rw [if_neg hunreserved, if_neg hunreserved]
    have hdigits := hexDigits_eq charSigned chr
    simp only [Stream.put, List.append_assoc, hdigits, List.length_singleton, Nat.zero_sub, List.replicate_zero,
      List.nil_append]
    by_cases hnegative : isNegative charSigned chr = true
    · rw [if_pos hnegative, if_pos hnegative]
      rfl
    · rw [if_neg hnegative, if_neg hnegative]
      rfl

theorem encode_eq (charSigned : Bool) (input : Bytes) : encode charSigned input = input.flatMap (code charSigned) := by
  have hgen : ∀ text, input.foldl (round charSigned) { text := text } =
      { text := text ++ input.flatMap (code charSigned) } := by
    induction input with
    | nil => simp
    | cons chr input ih =>
      intro text
      rw [List.foldl_cons, round_eq, ih, List.flatMap_cons, List.append_assoc]
  unfold encode
  rw [hgen, List.nil_append]

/-! ### Reading it back -/

/-- The value of a digit, in either case. -/
def hexValue (c : UInt8) : Option Nat :=
  if 48 ≤ c.toNat ∧ c.toNat ≤ 57 then some (c.toNat - 48)
  else if 65 ≤ c.toNat ∧ c.toNat ≤ 70 then some (c.toNat - 55)
  else if 97 ≤ c.toNat ∧ c.toNat ≤ 102 then some (c.toNat - 87)
  else none

/-- Percent-decoding: a `%` with two digits behind it is a byte. -/
def percentDecode : Bytes → Bytes
  | [] => []
  | c :: high :: low :: rest =>
    if c = 37 then
      match hexValue high, hexValue low with
      | some h, some l => UInt8.ofNat (16 * h + l) :: percentDecode rest
      | _, _ => c :: percentDecode (high :: low :: rest)
    else c :: percentDecode (high :: low :: rest)
  | c :: rest => c :: percentDecode rest

/-- Unreserved characters, and triples of `%` and two upper case digits. -/
inductive Encoded : Bytes → Prop
  | nil : Encoded []
  | unreserved {c : UInt8} {rest : Bytes} (hc : isUnreserved c = true) (hrest : Encoded rest) : Encoded (c :: rest)
  | triple {high low : Nat} {rest : Bytes} (hhigh : high < 16) (hlow : low < 16) (hrest : Encoded rest) :
    Encoded (37 :: upperHex high :: upperHex low :: rest)

theorem Encoded.append {u v : Bytes} (hu : Encoded u) (hv : Encoded v) : Encoded (u ++ v) := by
  induction hu with
  | nil => exact hv
  | unreserved hc hrest ih => exact .unreserved hc ih
  | triple hhigh hlow hrest ih => exact .triple hhigh hlow ih

private theorem isUnreserved_upperHex {n : Nat} (h : n < 16) : isUnreserved (upperHex n) = true := by
  have hall : ∀ n < 16, isUnreserved (upperHex n) = true := by decide
  exact hall n h

private theorem hexValue_upperHex {n : Nat} (h : n < 16) : hexValue (upperHex n) = some n := by
  have hall : ∀ n < 16, hexValue (upperHex n) = some n := by decide
  exact hall n h

private theorem digit_lt (chr : UInt8) : chr.toNat / 16 < 16 ∧ chr.toNat % 16 < 16 := by
  have hchr := UInt8.toNat_lt chr
  omega

private theorem encoded_code (charSigned : Bool) (chr : UInt8) : Encoded (code charSigned chr) := by
  obtain ⟨hhigh, hlow⟩ := digit_lt chr
  have hF : isUnreserved 70 = true := by decide
  unfold code
  by_cases hunreserved : isUnreserved chr = true
  · rw [if_pos hunreserved]
    exact .unreserved hunreserved .nil
  · rw [if_neg hunreserved]
    by_cases hnegative : isNegative charSigned chr = true
    · rw [if_pos hnegative]
      have hrest : Encoded [70, 70, 70, 70, upperHex (chr.toNat / 16), upperHex (chr.toNat % 16)] :=
        .unreserved hF (.unreserved hF (.unreserved hF (.unreserved hF
          (.unreserved (isUnreserved_upperHex hhigh) (.unreserved (isUnreserved_upperHex hlow) .nil)))))
      exact @Encoded.triple 15 15 _ (by decide) (by decide) hrest
    · rw [if_neg hnegative]
      exact .triple hhigh hlow .nil

private theorem encoded_encode (charSigned : Bool) (input : Bytes) : Encoded (encode charSigned input) := by
  rw [encode_eq]
  induction input with
  | nil => exact .nil
  | cons chr input ih =>
    rw [List.flatMap_cons]
    exact (encoded_code charSigned chr).append ih

private theorem percentDecode_cons {c : UInt8} (h : c ≠ 37) (rest : Bytes) : percentDecode (c :: rest) = c :: percentDecode rest := by
  match rest with
  | [] => rfl
  | [_] => rfl
  | _ :: _ :: _ => rw [percentDecode, if_neg h]

private theorem percentDecode_triple {high low : Nat} (hhigh : high < 16) (hlow : low < 16) (rest : Bytes) :
    percentDecode (37 :: upperHex high :: upperHex low :: rest) = UInt8.ofNat (16 * high + low) :: percentDecode rest := by
  rw [percentDecode, if_pos rfl, hexValue_upperHex hhigh, hexValue_upperHex hlow]

private theorem ne_percent_of_isUnreserved {c : UInt8} (h : isUnreserved c = true) : c ≠ 37 := by
  rintro rfl
  cases h

/-- What a decoder makes of the code of a character: of a negative one a byte 255, and the digits behind it. -/
def decoded (charSigned : Bool) (chr : UInt8) : Bytes :=
  if isNegative charSigned chr then [255, 70, 70, 70, 70, upperHex (chr.toNat / 16), upperHex (chr.toNat % 16)] else [chr]

private theorem percentDecode_code (charSigned : Bool) (chr : UInt8) (rest : Bytes) :
    percentDecode (code charSigned chr ++ rest) = decoded charSigned chr ++ percentDecode rest := by
  obtain ⟨hhigh, hlow⟩ := digit_lt chr
  have hF : (70 : UInt8) ≠ 37 := by decide
  unfold decoded code
  by_cases hnegative : isNegative charSigned chr = true
  · have hunreserved := not_isUnreserved_of_isNegative hnegative
    have hhex := ne_percent_of_isUnreserved (isUnreserved_upperHex hhigh)
    have hhex' := ne_percent_of_isUnreserved (isUnreserved_upperHex hlow)
    have htriple := @percentDecode_triple 15 15 (by decide) (by decide)
      ([70, 70, 70, 70, upperHex (chr.toNat / 16), upperHex (chr.toNat % 16)] ++ rest)
    rw [if_neg (by rw [hunreserved]; decide), if_pos hnegative, if_pos hnegative]
    refine htriple.trans ?_
    simp only [List.cons_append, List.nil_append, percentDecode_cons hF, percentDecode_cons hhex, percentDecode_cons hhex']
    rfl
  · rw [if_neg hnegative, if_neg hnegative]
    by_cases hunreserved : isUnreserved chr = true
    · rw [if_pos hunreserved]
      exact percentDecode_cons (ne_percent_of_isUnreserved hunreserved) rest
    · have hvalue : 16 * (chr.toNat / 16) + chr.toNat % 16 = chr.toNat := Nat.div_add_mod chr.toNat 16
      rw [if_neg hunreserved]
      refine (percentDecode_triple hhigh hlow rest).trans ?_
      rw [hvalue, UInt8.ofNat_toNat]
      rfl

private theorem percentDecode_encode (charSigned : Bool) (input : Bytes) :
    percentDecode (encode charSigned input) = input.flatMap (decoded charSigned) := by
  rw [encode_eq]
  induction input with
  | nil => rfl
  | cons chr input ih => rw [List.flatMap_cons, List.flatMap_cons, percentDecode_code, ih]

/-- Without negative characters a decoder gives back the text. -/
theorem flatMap_decoded {charSigned : Bool} {input : Bytes} (h : ∀ chr ∈ input, isNegative charSigned chr = false) :
    input.flatMap (decoded charSigned) = input := by
  induction input with
  | nil => rfl
  | cons chr input ih =>
    rw [List.forall_mem_cons] at h
    have hdecoded : decoded charSigned chr = [chr] := by
      unfold decoded
      rw [if_neg (by rw [h.1]; decide)]
    rw [List.flatMap_cons, hdecoded, ih h.2, List.singleton_append]

/-- Each negative character makes what is decoded longer by six bytes. -/
theorem length_flatMap_decoded (charSigned : Bool) (input : Bytes) :
    (input.flatMap (decoded charSigned)).length = input.length + 6 * input.countP (isNegative charSigned) := by
  induction input with
  | nil => rfl
  | cons chr input ih =>
    rw [List.flatMap_cons, List.length_append, ih, List.length_cons]
    unfold decoded
    by_cases hnegative : isNegative charSigned chr = true
    · rw [if_pos hnegative, List.countP_cons_of_pos hnegative]
      simp only [List.length_cons, List.length_nil]
      omega
    · rw [if_neg hnegative, List.countP_cons_of_neg hnegative, List.length_singleton]
      omega

private theorem percentDecode_encode_iff (charSigned : Bool) (input : Bytes) :
    percentDecode (encode charSigned input) = input ↔ ∀ chr ∈ input, isNegative charSigned chr = false := by
  rw [percentDecode_encode]
  constructor
  · intro h
    have hlength := length_flatMap_decoded charSigned input
    rw [h] at hlength
    have hzero : input.countP (isNegative charSigned) = 0 := by omega
    rw [List.countP_eq_zero] at hzero
    intro chr hchr
    exact Bool.not_eq_true _ ▸ hzero chr hchr
  · exact flatMap_decoded

/-! ### Telling the codes apart -/

private theorem upperHex_inj {m n : Nat} (hm : m < 16) (hn : n < 16) (h : upperHex m = upperHex n) : m = n := by
  have hvalue := hexValue_upperHex hm
  rw [h, hexValue_upperHex hn] at hvalue
  exact (Option.some.inj hvalue).symm

theorem eq_of_digits {b c : UInt8} (hhigh : upperHex (b.toNat / 16) = upperHex (c.toNat / 16))
    (hlow : upperHex (b.toNat % 16) = upperHex (c.toNat % 16)) : b = c := by
  have hb := digit_lt b
  have hc := digit_lt c
  have hdiv := upperHex_inj hb.1 hc.1 hhigh
  have hmod := upperHex_inj hb.2 hc.2 hlow
  apply UInt8.toNat_inj.mp
  omega

/-- A digit of a number below 128 is not an `F`. -/
theorem upperHex_ne_F {chr : UInt8} (h : chr.toNat < 128) : upperHex (chr.toNat / 16) ≠ 70 := by
  intro heq
  have hdiv := upperHex_inj (by omega) (by decide) (heq.trans (show (70 : UInt8) = upperHex 15 by decide))
  omega

/-- No code is the beginning of another one. -/
theorem code_append_inj {charSigned : Bool} {b c : UInt8} {u v : Bytes}
    (h : code charSigned b ++ u = code charSigned c ++ v) : b = c ∧ u = v := by
  have hpercent : ∀ {d : UInt8} {w w' : Bytes}, isUnreserved d = true → d :: w = 37 :: w' → False := by
    intro d w w' hd heq
    injection heq with heq
    exact ne_percent_of_isUnreserved hd heq
  have hsmall : ∀ d : UInt8, ∀ d' : UInt8, isNegative charSigned d = false → isNegative charSigned d' = true →
      d.toNat < 128 := by
    intro d d' hd hd'
    unfold isNegative at hd hd'
    rw [Bool.and_eq_true] at hd'
    rw [hd'.1, Bool.true_and, decide_eq_false_iff_not] at hd
    omega
  unfold code at h
  by_cases hb : isUnreserved b = true
  · rw [if_pos hb] at h
    by_cases hc : isUnreserved c = true
    · rw [if_pos hc] at h
      injection h with hbc huv
      exact ⟨hbc, huv⟩
    · rw [if_neg hc] at h
      split at h <;> exact (hpercent hb h).elim
  · rw [if_neg hb] at h
    by_cases hc : isUnreserved c = true
    · rw [if_pos hc] at h
      split at h <;> exact (hpercent hc h.symm).elim
    · rw [if_neg hc] at h
      by_cases hnb : isNegative charSigned b = true
      · rw [if_pos hnb] at h
        by_cases hnc : isNegative charSigned c = true
        · rw [if_pos hnc] at h
          simp only [List.cons_append, List.nil_append, List.cons.injEq, true_and] at h
          exact ⟨eq_of_digits h.1 h.2.1, h.2.2⟩
        · rw [if_neg hnc] at h
          simp only [List.cons_append, List.nil_append, List.cons.injEq, true_and] at h
          exact (upperHex_ne_F (hsmall c b (by simpa using hnc) hnb) h.1.symm).elim
      · rw [if_neg hnb] at h
        by_cases hnc : isNegative charSigned c = true
        · rw [if_pos hnc] at h
          simp only [List.cons_append, List.nil_append, List.cons.injEq, true_and] at h
          exact (upperHex_ne_F (hsmall b c (by simpa using hnb) hnc) h.1).elim
        · rw [if_neg hnc] at h
          simp only [List.cons_append, List.nil_append, List.cons.injEq, true_and] at h
          exact ⟨eq_of_digits h.1 h.2.1, h.2.2⟩

private theorem code_ne_nil (charSigned : Bool) (chr : UInt8) : code charSigned chr ≠ [] := by
  unfold code
  split
  · exact List.cons_ne_nil _ _
  · split <;> exact List.cons_ne_nil _ _

private theorem encode_injective (charSigned : Bool) : Function.Injective (encode charSigned) := by
  intro s t h
  rw [encode_eq, encode_eq] at h
  induction s generalizing t with
  | nil =>
    cases t with
    | nil => rfl
    | cons c t =>
      rw [List.flatMap_cons] at h
      exact (code_ne_nil charSigned c (List.append_eq_nil_iff.mp h.symm).1).elim
  | cons b s ih =>
    cases t with
    | nil =>
      rw [List.flatMap_cons] at h
      exact (code_ne_nil charSigned b (List.append_eq_nil_iff.mp h).1).elim
    | cons c t =>
      rw [List.flatMap_cons, List.flatMap_cons] at h
      obtain ⟨rfl, hrest⟩ := code_append_inj h
      rw [ih hrest]

/-- A string is encoded as URLs want it, and read back, exactly if no `char` of it is negative.  Whatever the string, other
strings have other encodings, and parts are encoded one by one. -/
theorem encode_reversible_iff (charSigned : Bool) :
    (∀ s, (Encoded (encode charSigned s) ∧ percentDecode (encode charSigned s) = s) ↔
      (charSigned = true → ∀ chr ∈ s, chr.toNat < 128)) ∧
    Function.Injective (encode charSigned) ∧
    ∀ s t, encode charSigned (s ++ t) = encode charSigned s ++ encode charSigned t := by
  refine ⟨?_, encode_injective charSigned, ?_⟩
  · intro s
    rw [and_iff_right (encoded_encode charSigned s), percentDecode_encode_iff]
    unfold isNegative
    cases charSigned with
    | false => simp
    | true => simp
  · intro s t
    rw [encode_eq, encode_eq, encode_eq, List.flatMap_append]

/-- The letter ä, in UTF-8: `%FFFFFFC3%FFFFFFA4`. -/
theorem encode_not_reversible_umlaut :
    ¬ ∀ s, Encoded (encode true s) ∧ percentDecode (encode true s) = s := by
  intro h
  have hback := (h [0xc3, 0xa4]).2
  have hread : percentDecode (encode true [0xc3, 0xa4]) ≠ [0xc3, 0xa4] := by decide +kernel
  exact hread hback

end UrlEncoding

end KulloClient

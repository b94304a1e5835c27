import Mathlib.Data.List.GetD
import KulloClient.Base.Regex
import KulloClient.Util.Strings

/-!
# MasterKey

A key is written as 16 blocks of six digits, each of which stands for two bytes and ends with a check digit.  The
constructor reads the blocks with string streams, which pass over what is no digit without a word; only
`isPlausibleSingleBlock` asks for digits.
-/

namespace KulloClient

open Regex

/-- The version is `none` if nothing was written to it. -/
structure MasterKey where
  data : Bytes
  version : Option Nat
  size : data.length = 32
  deriving DecidableEq

namespace MasterKey

theorem ext_data {k k' : MasterKey} (hdata : k.data = k'.data) (hversion : k.version = k'.version) : k = k' := by
  cases k; cases k'; simp_all

/-- What the local variables hold before they are written to: `codePoint` for a text in each round, `valueInt` and `bin`
for a block. -/
structure Uninitialized where
  codePoint : List Char → Nat → Nat
  valueInt : List Char → Nat
  bin : List Char → Nat

/-- `MAX_BLOCK_VALUE`. -/
def maxBlockValue : Nat := 65535

/-- `SINGLE_BLOCK_BASIC_REGEX`. -/
def singleBlockBasicRegex : RegularExpression Char := oneOf (charRange '0' '9') ^ 6

variable (uninit : Uninitialized)

/-! ### The check digit -/

/-- The rounds of the two loops, over `unsigned int`; the characters that are left come last first. -/
def luhnLoop (codePoint : Nat → Nat) (factor sum : Nat) : List Char → Nat
  | [] => sum
  | c :: rest =>
    let n := (Strings.extractUnsigned 32 [c]).getD (codePoint rest.length)
    let addend := factor * n % 2 ^ 32
    luhnLoop codePoint (if factor = 2 then 1 else 2) ((sum + (addend / 10 + addend % 10)) % 2 ^ 32) rest

/-- The characters up to the first index of the loops, which is an `int` made of the length. -/
def indexed (cs : List Char) : List Char := cs.take (Int.bmod (cs.length - 1) (2 ^ 32) + 1).toNat

def checkLuhn (block : List Char) : Bool :=
  luhnLoop (uninit.codePoint block) 1 0 (indexed block).reverse % 10 == 0

def luhnMod10GenerateCheckCharacter (digits : List Char) : List Char :=
  let remainder := luhnLoop (uninit.codePoint digits) 2 0 (indexed digits).reverse % 10
  Nat.toDigits 10 ((10 - remainder) % 10)

/-! ### Blocks -/

/-- The streams do not throw, so that the handlers around the extractions are never reached. -/
def valueInt (block : List Char) : Nat :=
  (Strings.extractUnsigned 32 (block.take 5)).getD (uninit.valueInt block)

def checkRange (block : List Char) : Bool := valueInt uninit block ≤ maxBlockValue

def isPlausibleSingleBlock (block : List Char) : Bool :=
  if !matchAll singleBlockBasicRegex block then false
  else if !checkLuhn uninit block then false
  else if !checkRange uninit block then false
  else true

/-- A round of `checkKey`; the extraction of the check digit has no effect. -/
def checkBlock (block : List Char) : Except Exn Unit :=
  if block.length ≠ 6 then
    .error (.invalidArgument ("MasterKey(): Block digit size is not 6: " ++ String.ofList block))
  else if !checkLuhn uninit block then
    .error (.invalidArgument ("MasterKey(): Block luhn check failed: " ++ String.ofList block))
  else if valueInt uninit block > maxBlockValue then
    .error (.invalidArgument ("MasterKey(): Value of block must be less or equal 65535: " ++
      String.ofList (block.take 5)))
  else .ok ()

def checkKey (blockList : List (List Char)) : Except Exn Unit :=
  if blockList.length ≠ 16 then .error (.invalidArgument "MasterKey(): Input does not have 16 blocks.")
  else blockList.forM (checkBlock uninit)

def bin (block : List Char) : Nat := (Strings.extractUnsigned 16 (block.take 5)).getD (uninit.bin block)

private theorem checkBlock_raises (block : List Char) :
    Imperative.RaisesOnly (fun e => e.isInvalidArgument = true) (checkBlock uninit block) := by
  unfold checkBlock
  split
  · exact Imperative.raisesOnly_error.mpr rfl
  · split
    · exact Imperative.raisesOnly_error.mpr rfl
    · split
      · exact Imperative.raisesOnly_error.mpr rfl
      · exact Imperative.raisesOnly_ok _

theorem checkKey_raises (blockList : List (List Char)) :
    Imperative.RaisesOnly (fun e => e.isInvalidArgument = true) (checkKey uninit blockList) := by
  have hforM : ∀ l : List (List Char),
      Imperative.RaisesOnly (fun e => e.isInvalidArgument = true) (l.forM (checkBlock uninit)) := by
    intro l
    induction l with
    | nil => exact Imperative.raisesOnly_ok _
    | cons b l ih => exact Imperative.raisesOnly_bind (checkBlock_raises uninit b) fun _ _ => ih
  unfold checkKey
  split
  · exact Imperative.raisesOnly_error.mpr rfl
  · exact hforM blockList

/-- The two bytes of a block. -/
def rawBytes (block : List Char) : Bytes :=
  [UInt8.ofNat (bin uninit block >>> 8), UInt8.ofNat (bin uninit block &&& 255)]

def blockListToRawData (blockList : List (List Char)) : Bytes := blockList.flatMap (rawBytes uninit)

private theorem length_blockListToRawData (blockList : List (List Char)) :
    (blockListToRawData uninit blockList).length = 2 * blockList.length := by
  induction blockList with
  | nil => rfl
  | cons b l ih =>
    unfold blockListToRawData at ih ⊢
    rw [List.flatMap_cons, List.length_append, ih, List.length_cons, show (rawBytes uninit b).length = 2 from rfl]
    omega

variable {uninit} in
theorem length_of_checkKey {blockList : List (List Char)} (h : checkKey uninit blockList = .ok ()) :
    (blockListToRawData uninit blockList).length = 32 := by
  rw [length_blockListToRawData]
  unfold checkKey at h
  split at h
  · cases h
  · omega

/-- `MasterKey(const std::vector<std::string> &, std::uint32_t)`. -/
def ofBlocks (dataBlocks : List (List Char)) (version : Nat) : Except Exn MasterKey :=
  match h : checkKey uninit dataBlocks with
  | .error e => .error e
  | .ok () => .ok ⟨blockListToRawData uninit dataBlocks, some version, length_of_checkKey h⟩

/-- `MasterKey(const std::vector<unsigned char> &, std::uint32_t)`. -/
def ofVector (key : Bytes) (version : Nat) : Except Exn MasterKey :=
  if h : key.length * 8 ≠ 256 then .error (.invalidArgument "MasterKey(): Input does not have 256 bits.")
  else .ok ⟨key, some version, by omega⟩

def dataBlocks (k : MasterKey) : List (List Char) :=
  (List.range 16).map fun i =>
    let n := (k.data.getD (2 * i) 0).toNat <<< 8 ||| (k.data.getD (2 * i + 1) 0).toNat
    let blockNumber := Strings.padLeft (Nat.toDigits 10 n) 5 '0'
    blockNumber ++ luhnMod10GenerateCheckCharacter uninit blockNumber

/-! ### What a block stands for -/

/-- The digits of the products, added up, for factors that alternate; the digits come last first. -/
def luhn (factor : Nat) : List Char → Nat
  | [] => 0
  | c :: rest =>
    let addend := factor * (c.toNat - 48)
    addend / 10 + addend % 10 + luhn (if factor = 2 then 1 else 2) rest

/-- Six digits, of which the last one is the check digit of the others, and these are a number of 16 bits. -/
structure Plausible (block : List Char) : Prop where
  length : block.length = 6
  digits : ∀ c ∈ block, c.isDigit = true
  check : luhn 1 block.reverse % 10 = 0
  range : Nat.ofDigitChars 10 (block.take 5) 0 ≤ 65535

variable {uninit}

/-- The sum of the loops wraps. -/
theorem luhnLoop_eq_mod {codePoint : Nat → Nat} {factor sum : Nat} {cs : List Char} (h : ∀ c ∈ cs, c.isDigit = true)
    (hfactor : factor = 1 ∨ factor = 2) (hsum : sum < 2 ^ 32) :
    luhnLoop codePoint factor sum cs = (sum + luhn factor cs) % 2 ^ 32 := by
  induction cs generalizing factor sum with
  | nil =>
    unfold luhnLoop luhn
    rw [Nat.add_zero, Nat.mod_eq_of_lt hsum]
  | cons c cs ih =>
    rw [List.forall_mem_cons] at h
    have hc := Strings.toNat_of_isDigit h.1
    have hread : Strings.extractUnsigned 32 [c] = some (c.toNat - 48) := by
      have hvalue : Nat.ofDigitChars 10 [c] 0 = c.toNat - 48 := by
        rw [Nat.ofDigitChars_cons, Nat.ofDigitChars_nil, show ('0' : Char).toNat = 48 from rfl]
        omega
      rw [← hvalue]
      refine Strings.extractUnsigned_digits (by simp) (by simpa using h.1) ?_
      rw [hvalue]
      omega
    have hfactor' : (if factor = 2 then 1 else 2) = 1 ∨ (if factor = 2 then 1 else 2) = 2 := by
      split <;> omega
    unfold luhnLoop luhn
    rw [hread, Option.getD_some]
    dsimp only
    have hsmall : factor * (c.toNat - 48) ≤ 18 := by
      rcases hfactor with rfl | rfl <;> omega
    generalize factor * (c.toNat - 48) = addend at hsmall ⊢
    rw [Nat.mod_eq_of_lt (show addend < 2 ^ 32 by omega), ih h.2 hfactor' (Nat.mod_lt _ (by decide)), Nat.mod_add_mod,
      Nat.add_assoc]

private theorem luhn_le {factor : Nat} {cs : List Char} (h : ∀ c ∈ cs, c.isDigit = true) (hfactor : factor = 1 ∨ factor = 2) :
    luhn factor cs ≤ 9 * cs.length := by
  induction cs generalizing factor with
  | nil => exact Nat.le_refl 0
  | cons c cs ih =>
    rw [List.forall_mem_cons] at h
    have hc := Strings.toNat_of_isDigit h.1
    have hfactor' : (if factor = 2 then 1 else 2) = 1 ∨ (if factor = 2 then 1 else 2) = 2 := by
      split <;> omega
    have hrest := ih h.2 hfactor'
    have hsmall : factor * (c.toNat - 48) ≤ 18 := by
      rcases hfactor with rfl | rfl <;> omega
    unfold luhn
    dsimp only
    generalize factor * (c.toNat - 48) = addend at hsmall ⊢
    rw [List.length_cons]
    omega

theorem indexed_eq {cs : List Char} (h : cs.length ≤ 2 ^ 31) : indexed cs = cs := by
  unfold indexed
  rw [Int.bmod_eq_of_le (by omega) (by omega)]
  exact List.take_of_length_le (by omega)

theorem checkLuhn_iff {block : List Char} (hlength : 9 * block.length < 2 ^ 32) (h : ∀ c ∈ block, c.isDigit = true) :
    checkLuhn uninit block = true ↔ luhn 1 block.reverse % 10 = 0 := by
  have hsum := @luhn_le 1 block.reverse (by simpa using h) (.inl rfl)
  rw [List.length_reverse] at hsum
  have hmod : luhn 1 block.reverse % 2 ^ 32 = luhn 1 block.reverse := Nat.mod_eq_of_lt (by omega)
  unfold checkLuhn
  rw [indexed_eq (by omega), luhnLoop_eq_mod (by simpa using h) (.inl rfl) (by decide), Nat.zero_add, hmod, beq_iff_eq]

/-- A stream reads the first five digits. -/
theorem extractUnsigned_take {block : List Char} {w : Nat} (hlength : block.length = 6)
    (h : ∀ c ∈ block, c.isDigit = true) (hfits : Nat.ofDigitChars 10 (block.take 5) 0 < 2 ^ w) :
    Strings.extractUnsigned w (block.take 5) = some (Nat.ofDigitChars 10 (block.take 5) 0) := by
  refine Strings.extractUnsigned_digits ?_ (fun c hc => h c (List.mem_of_mem_take hc)) hfits
  intro hnil
  have htake := congrArg List.length hnil
  rw [List.length_take, List.length_nil] at htake
  omega

private theorem valueInt_eq {block : List Char} (hlength : block.length = 6) (h : ∀ c ∈ block, c.isDigit = true) :
    valueInt uninit block = Nat.ofDigitChars 10 (block.take 5) 0 := by
  have hdigits : ∀ c ∈ block.take 5, c.isDigit = true := fun c hc => h c (List.mem_of_mem_take hc)
  have htake : (block.take 5).length = 5 := by
    rw [List.length_take]
    omega
  have hlt := Strings.ofDigitChars_lt hdigits
  rw [htake] at hlt
  unfold valueInt
  rw [extractUnsigned_take hlength h (by omega), Option.getD_some]

private theorem Plausible.bin_eq {block : List Char} (h : Plausible block) :
    bin uninit block = Nat.ofDigitChars 10 (block.take 5) 0 := by
  have hrange := h.range
  unfold bin
  rw [extractUnsigned_take h.length h.digits (by omega), Option.getD_some]

private theorem isPlausibleSingleBlock_iff {block : List Char} :
    isPlausibleSingleBlock uninit block = true ↔ Plausible block := by
  have hmatch : matchAll singleBlockBasicRegex block = true ↔ block.length = 6 ∧ ∀ c ∈ block, c.isDigit = true := by
    have hdigit : ∀ c : Char, c ∈ charRange '0' '9' ↔ c.isDigit = true := by
      intro c
      rw [mem_charRange (by decide), Char.isDigit, Bool.and_eq_true, decide_eq_true_eq, decide_eq_true_eq]
      rfl
    rw [matchAll_iff, singleBlockBasicRegex, mem_oneOf_pow]
    simp only [hdigit]
  have hall : isPlausibleSingleBlock uninit block = true ↔
      matchAll singleBlockBasicRegex block = true ∧ checkLuhn uninit block = true ∧
        checkRange uninit block = true := by
    unfold isPlausibleSingleBlock
    cases matchAll singleBlockBasicRegex block <;> cases checkLuhn uninit block <;> cases checkRange uninit block <;> simp
  rw [hall, hmatch]
  constructor
  · rintro ⟨⟨hlength, hdigits⟩, hluhn, hrange⟩
    refine ⟨hlength, hdigits, (checkLuhn_iff (by omega) hdigits).mp hluhn, ?_⟩
    rw [checkRange, valueInt_eq hlength hdigits] at hrange
    exact of_decide_eq_true hrange
  · rintro ⟨hlength, hdigits, hluhn, hrange⟩
    refine ⟨⟨hlength, hdigits⟩, (checkLuhn_iff (by omega) hdigits).mpr hluhn, ?_⟩
    rw [checkRange, valueInt_eq hlength hdigits]
    exact decide_eq_true hrange

/-! ### The digits of a number -/

/-- The block of a number. -/
def blockOf (uninit : Uninitialized) (n : Nat) : List Char :=
  Strings.padLeft (Nat.toDigits 10 n) 5 '0' ++
    luhnMod10GenerateCheckCharacter uninit (Strings.padLeft (Nat.toDigits 10 n) 5 '0')

theorem digit_mod (n : Nat) : (Nat.toDigits 10 (n % 10)) = [(n % 10).digitChar] ∧
    ((n % 10).digitChar).isDigit = true ∧ ((n % 10).digitChar).toNat - 48 = n % 10 := by
  have hlt : n % 10 < 10 := Nat.mod_lt n (by decide)
  refine ⟨Nat.toDigits_of_lt_base hlt, ?_, Nat.toNat_digitChar_sub_48_of_lt_ten hlt⟩
  rw [Nat.isDigit_digitChar, decide_eq_true hlt]

variable (uninit) in
theorem luhnMod10GenerateCheckCharacter_eq {digits : List Char} (h : ∀ c ∈ digits, c.isDigit = true)
    (hlength : 9 * digits.length < 2 ^ 32) :
    luhnMod10GenerateCheckCharacter uninit digits = [((10 - luhn 2 digits.reverse % 10) % 10).digitChar] := by
  have hsum := @luhn_le 2 digits.reverse (by simpa using h) (.inr rfl)
  rw [List.length_reverse] at hsum
  have hmod : luhn 2 digits.reverse % 2 ^ 32 = luhn 2 digits.reverse := Nat.mod_eq_of_lt (by omega)
  unfold luhnMod10GenerateCheckCharacter
  rw [indexed_eq (by omega), luhnLoop_eq_mod (by simpa using h) (.inr rfl) (by decide), Nat.zero_add, hmod]
  exact (digit_mod _).1

theorem luhn_concat {digits : List Char} (c : Char) (hc : c.isDigit = true) :
    luhn 1 (digits ++ [c]).reverse = c.toNat - 48 + luhn 2 digits.reverse := by
  have hc' := Strings.toNat_of_isDigit hc
  rw [List.reverse_concat, luhn]
  simp only [Nat.one_mul]
  rw [if_neg (by decide)]
  omega

variable (uninit) in
/-- The block of a number of 16 bits is plausible, and the number is read back from it. -/
theorem plausible_blockOf {n : Nat} (h : n ≤ 65535) :
    Plausible (blockOf uninit n) ∧ Nat.ofDigitChars 10 ((blockOf uninit n).take 5) 0 = n := by
  obtain ⟨hlength, hdigits, hvalue⟩ :=
    Strings.padLeft_toDigits n 5 (by decide) (by omega)
  have hcheck := luhnMod10GenerateCheckCharacter_eq uninit hdigits (by omega)
  obtain ⟨-, hdigit, hcode⟩ := digit_mod (10 - luhn 2 (Strings.padLeft (Nat.toDigits 10 n) 5 '0').reverse % 10)
  unfold blockOf
  rw [hcheck]
  generalize Strings.padLeft (Nat.toDigits 10 n) 5 '0' = number at hlength hdigits hvalue hdigit hcode ⊢
  have htake : (number ++ [((10 - luhn 2 number.reverse % 10) % 10).digitChar]).take 5 = number := by
    rw [← hlength, List.take_left]
  rw [htake]
  refine ⟨⟨?_, ?_, ?_, ?_⟩, hvalue⟩
  · rw [List.length_append, hlength]
    rfl
  · intro c hc
    rcases List.mem_append.mp hc with hc | hc
    · exact hdigits c hc
    · rw [List.mem_singleton.mp hc]
      exact hdigit
  · rw [luhn_concat _ hdigit, hcode]
    omega
  · rw [htake, hvalue]
    exact h

/-- A plausible block is the block of its number. -/
theorem Plausible.eq_blockOf {block : List Char} (h : Plausible block) :
    block = blockOf uninit (Nat.ofDigitChars 10 (block.take 5) 0) := by
  obtain ⟨number, c, rfl⟩ : ∃ number c, block = number ++ [c] := by
    have hne : block ≠ [] := by
      intro hnil
      have hlength := h.length
      rw [hnil] at hlength
      cases hlength
    exact ⟨block.dropLast, block.getLast hne, (List.dropLast_append_getLast hne).symm⟩
  have hlength := h.length
  rw [List.length_append, List.length_singleton] at hlength
  have htake : (number ++ [c]).take 5 = number := by
    rw [show 5 = number.length by omega, List.take_left]
  have hdigits : ∀ d ∈ number, d.isDigit = true := fun d hd => h.digits d (List.mem_append_left _ hd)
  have hc : c.isDigit = true := h.digits c (by simp)
  have hrange := h.range
  have hcheck := h.check
  rw [htake] at hrange ⊢
  rw [luhn_concat c hc] at hcheck
  obtain ⟨hpadlength, hpaddigits, hvalue⟩ :=
    Strings.padLeft_toDigits (Nat.ofDigitChars 10 number 0) 5 (by decide) (by omega)
  have hpad : Strings.padLeft (Nat.toDigits 10 (Nat.ofDigitChars 10 number 0)) 5 '0' = number :=
    Strings.ofDigitChars_injective hpaddigits hdigits (by omega) hvalue
  unfold blockOf
  rw [hpad, luhnMod10GenerateCheckCharacter_eq uninit hdigits (by omega)]
  have hc' := Strings.toNat_of_isDigit hc
  have hchar : c = ((10 - luhn 2 number.reverse % 10) % 10).digitChar := by
    refine Char.toNat_inj.mp ?_
    rw [Nat.toNat_digitChar_of_lt_ten (Nat.mod_lt _ (by decide))]
    omega
  rw [← hchar]

/-! ### The bytes of a number -/

/-- The number of two bytes. -/
def numberAt (data : Bytes) (i : Nat) : Nat :=
  (data.getD (2 * i) 0).toNat <<< 8 ||| (data.getD (2 * i + 1) 0).toNat

private theorem numberAt_eq (data : Bytes) (i : Nat) :
    numberAt data i = 256 * (data.getD (2 * i) 0).toNat + (data.getD (2 * i + 1) 0).toNat := by
  have hlow := (data.getD (2 * i + 1) 0).toNat_lt
  unfold numberAt
  rw [← Nat.shiftLeft_add_eq_or_of_lt hlow, Nat.shiftLeft_eq]
  omega

private theorem numberAt_le (data : Bytes) (i : Nat) : numberAt data i ≤ 65535 := by
  have hlow := (data.getD (2 * i + 1) 0).toNat_lt
  have hhigh := (data.getD (2 * i) 0).toNat_lt
  rw [numberAt_eq]
  omega

private theorem dataBlocks_eq (k : MasterKey) : k.dataBlocks uninit = (List.range 16).map fun i => blockOf uninit (numberAt k.data i) :=
  rfl

variable (uninit) in
private theorem getD_blockListToRawData {blocks : List (List Char)} {i : Nat} (hi : i < blocks.length) :
    (blockListToRawData uninit blocks).getD (2 * i) 0 = UInt8.ofNat (bin uninit blocks[i] >>> 8) ∧
      (blockListToRawData uninit blocks).getD (2 * i + 1) 0 = UInt8.ofNat (bin uninit blocks[i] &&& 255) := by
  induction blocks generalizing i with
  | nil => cases hi
  | cons b blocks ih =>
    have hcons : blockListToRawData uninit (b :: blocks) =
        UInt8.ofNat (bin uninit b >>> 8) :: UInt8.ofNat (bin uninit b &&& 255) :: blockListToRawData uninit blocks := rfl
    rw [hcons]
    cases i with
    | zero => exact ⟨rfl, rfl⟩
    | succ i => exact ih (Nat.lt_of_succ_lt_succ hi)

private theorem toNat_bytes {n : Nat} (h : n ≤ 65535) :
    (UInt8.ofNat (n >>> 8)).toNat = n / 256 ∧ (UInt8.ofNat (n &&& 255)).toNat = n % 256 := by
  have hlow : n &&& 255 = n % 256 := Nat.and_two_pow_sub_one_eq_mod n 8
  rw [hlow, Nat.shiftRight_eq_div_pow, UInt8.toNat_ofNat', UInt8.toNat_ofNat']
  omega

/-- The numbers of plausible blocks are found in the bytes. -/
theorem numberAt_blockListToRawData {blocks : List (List Char)} {i : Nat} (hi : i < blocks.length)
    (h : Plausible blocks[i]) :
    numberAt (blockListToRawData uninit blocks) i = Nat.ofDigitChars 10 (blocks[i].take 5) 0 := by
  obtain ⟨hhigh, hlow⟩ := getD_blockListToRawData uninit hi
  obtain ⟨hhigh', hlow'⟩ := toNat_bytes h.range
  rw [numberAt_eq, hhigh, hlow, h.bin_eq, hhigh', hlow']
  omega

/-- A key whose blocks are plausible has these blocks. -/
theorem dataBlocks_blockListToRawData {blocks : List (List Char)} {k : MasterKey} (hlength : blocks.length = 16)
    (h : ∀ b ∈ blocks, Plausible b) (hdata : k.data = blockListToRawData uninit blocks) :
    k.dataBlocks uninit = blocks := by
  rw [dataBlocks_eq, hdata]
  refine List.ext_getElem (by rw [List.length_map, List.length_range, hlength]) ?_
  intro i hi hi'
  have hb := h blocks[i] (List.getElem_mem hi')
  rw [List.getElem_map, List.getElem_range, numberAt_blockListToRawData hi' hb]
  exact hb.eq_blockOf.symm

/-- The blocks of a key have its bytes. -/
theorem blockListToRawData_dataBlocks (k : MasterKey) : blockListToRawData uninit (k.dataBlocks uninit) = k.data := by
  have hsixteen : (k.dataBlocks uninit).length = 16 := by
    rw [dataBlocks_eq, List.length_map, List.length_range]
  have hsize := k.size
  refine List.ext_getElem (by rw [length_blockListToRawData, hsixteen, hsize]) ?_
  intro j hj hj'
  obtain ⟨i, hi⟩ : ∃ i, j = 2 * i ∨ j = 2 * i + 1 := ⟨j / 2, by omega⟩
  have hlt : i < (k.dataBlocks uninit).length := by omega
  have hblock : (k.dataBlocks uninit)[i] = blockOf uninit (numberAt k.data i) := by
    simp only [dataBlocks_eq, List.getElem_map, List.getElem_range]
  obtain ⟨hgood, hvalue⟩ := plausible_blockOf uninit (numberAt_le k.data i)
  obtain ⟨hhigh, hlow⟩ := getD_blockListToRawData uninit hlt
  rw [hblock, hgood.bin_eq, hvalue] at hhigh hlow
  obtain ⟨hhigh', hlow'⟩ := toNat_bytes (numberAt_le k.data i)
  have hlowlt := (k.data.getD (2 * i + 1) 0).toNat_lt
  have hnumber := numberAt_eq k.data i
  rw [← List.getD_eq_getElem _ 0 hj, ← List.getD_eq_getElem _ 0 hj']
  rcases hi with rfl | rfl
  · rw [hhigh]
    refine UInt8.toNat_inj.mp ?_
    omega
  · rw [hlow]
    refine UInt8.toNat_inj.mp ?_
    omega

/-! ### What the constructor accepts -/

private theorem checkBlock_eq_ok {block : List Char} :
    checkBlock uninit block = .ok () ↔
      block.length = 6 ∧ checkLuhn uninit block = true ∧ checkRange uninit block = true := by
  have hrange : checkRange uninit block = true ↔ ¬ valueInt uninit block > maxBlockValue := by
    rw [checkRange, decide_eq_true_eq, Nat.not_lt]
  rw [hrange]
  unfold checkBlock
  by_cases hlength : block.length ≠ 6
  · simp [hlength]
  · rw [if_neg hlength]
    by_cases hluhn : checkLuhn uninit block = true
    · rw [if_neg (by rw [hluhn]; decide)]
      split
      · next h => simp [h]
      · next h => simp [h, hluhn, not_not.mp hlength]
    · rw [if_pos (by rw [Bool.not_eq_true] at hluhn; rw [hluhn]; rfl)]
      simp [hluhn]

private theorem checkKey_eq_ok {blocks : List (List Char)} :
    checkKey uninit blocks = .ok () ↔ blocks.length = 16 ∧
      ∀ b ∈ blocks, b.length = 6 ∧ checkLuhn uninit b = true ∧ checkRange uninit b = true := by
  have hforM : ∀ l : List (List Char), l.forM (checkBlock uninit) = .ok () ↔ ∀ b ∈ l, checkBlock uninit b = .ok () := by
    intro l
    induction l with
    | nil => simp [List.forM, pure, Except.pure]
    | cons b l ih =>
      have hcons : (b :: l).forM (checkBlock uninit) = checkBlock uninit b >>= fun _ => l.forM (checkBlock uninit) := rfl
      rw [hcons, List.forall_mem_cons, ← ih]
      cases checkBlock uninit b <;> simp [bind, Except.bind]
  unfold checkKey
  split
  · next h => simp [h]
  · next h =>
    rw [hforM]
    simp only [checkBlock_eq_ok, not_not.mp h, true_and]

theorem ofBlocks_eq_ok {blocks : List (List Char)} {version : Nat} {k : MasterKey} :
    ofBlocks uninit blocks version = .ok k ↔ checkKey uninit blocks = .ok () ∧
      k.data = blockListToRawData uninit blocks ∧ k.version = some version := by
  unfold ofBlocks
  split
  · next e h => simp [h]
  · next h =>
    constructor
    · intro heq
      injection heq with hk
      rw [← hk]
      exact ⟨h, rfl, rfl⟩
    · rintro ⟨-, hdata, hversion⟩
      exact congrArg _ (ext_data hdata.symm hversion.symm)

private theorem Plausible.passes {block : List Char} (h : Plausible block) :
    block.length = 6 ∧ checkLuhn uninit block = true ∧ checkRange uninit block = true := by
  refine ⟨h.length, (checkLuhn_iff (by rw [h.length]; decide) h.digits).mpr h.check, ?_⟩
  rw [checkRange, valueInt_eq h.length h.digits]
  exact decide_eq_true h.range

private theorem plausible_of_passes {block : List Char}
    (h : block.length = 6 ∧ checkLuhn uninit block = true ∧ checkRange uninit block = true)
    (hdigits : ∀ c ∈ block, c.isDigit = true) : Plausible block := by
  obtain ⟨hlength, hluhn, hrange⟩ := h
  rw [checkRange, valueInt_eq hlength hdigits] at hrange
  exact ⟨hlength, hdigits, (checkLuhn_iff (by omega) hdigits).mp hluhn, of_decide_eq_true hrange⟩

variable (uninit)

/-- The constructor takes 16 plausible blocks and nothing else, and the key gives them back. -/
structure BlocksSpecified (blocks : List (List Char)) (version : Nat) : Prop where
  accepts : (∃ k, ofBlocks uninit blocks version = .ok k) ↔
    blocks.length = 16 ∧ ∀ b ∈ blocks, isPlausibleSingleBlock uninit b = true
  same : ∀ k, ofBlocks uninit blocks version = .ok k → k.dataBlocks uninit = blocks

/-- The blocks pass the checks, and one of them has a character that is no digit. -/
def Misread (blocks : List (List Char)) : Prop :=
  blocks.length = 16 ∧ (∀ b ∈ blocks, b.length = 6 ∧ checkLuhn uninit b = true ∧ checkRange uninit b = true) ∧
    ∃ b ∈ blocks, ∃ c ∈ b, c.isDigit = false

private theorem blocksSpecified_of_not_misread {blocks : List (List Char)} (version : Nat) (h : ¬ Misread uninit blocks) :
    BlocksSpecified uninit blocks version := by
  have hdigits : checkKey uninit blocks = .ok () → ∀ b ∈ blocks, Plausible b := by
    intro hcheck b hb
    obtain ⟨hlength, hpasses⟩ := checkKey_eq_ok.mp hcheck
    refine plausible_of_passes (hpasses b hb) ?_
    intro c hc
    by_contra hdigit
    exact h ⟨hlength, hpasses, b, hb, c, hc, Bool.eq_false_iff.mpr hdigit⟩
  refine ⟨?_, ?_⟩
  · simp only [isPlausibleSingleBlock_iff]
    constructor
    · rintro ⟨k, hk⟩
      have hcheck := (ofBlocks_eq_ok.mp hk).1
      exact ⟨(checkKey_eq_ok.mp hcheck).1, hdigits hcheck⟩
    · rintro ⟨hlength, hgood⟩
      have hcheck : checkKey uninit blocks = .ok () :=
        checkKey_eq_ok.mpr ⟨hlength, fun b hb => (hgood b hb).passes⟩
      exact ⟨⟨blockListToRawData uninit blocks, some version, length_of_checkKey hcheck⟩,
        ofBlocks_eq_ok.mpr ⟨hcheck, rfl, rfl⟩⟩
  · intro k hk
    obtain ⟨hcheck, hdata, -⟩ := ofBlocks_eq_ok.mp hk
    exact dataBlocks_blockListToRawData (checkKey_eq_ok.mp hcheck).1 (hdigits hcheck) hdata

private theorem not_blocksSpecified_of_misread {blocks : List (List Char)} (version : Nat) (h : Misread uninit blocks) :
    ¬ BlocksSpecified uninit blocks version := by
  obtain ⟨hlength, hpasses, b, hb, c, hc, hdigit⟩ := h
  have hcheck : checkKey uninit blocks = .ok () := checkKey_eq_ok.mpr ⟨hlength, hpasses⟩
  rintro ⟨haccepts, -⟩
  obtain ⟨-, hgood⟩ := haccepts.mp
    ⟨⟨blockListToRawData uninit blocks, some version, length_of_checkKey hcheck⟩, ofBlocks_eq_ok.mpr ⟨hcheck, rfl, rfl⟩⟩
  have hdigit' := (isPlausibleSingleBlock_iff.mp (hgood b hb)).digits c hc
  rw [hdigit] at hdigit'
  cases hdigit'

theorem plausible_dataBlocks (k : MasterKey) : ∀ b ∈ k.dataBlocks uninit, Plausible b := by
  intro b hb
  rw [dataBlocks_eq] at hb
  obtain ⟨i, -, rfl⟩ := List.mem_map.mp hb
  exact (plausible_blockOf uninit (numberAt_le k.data i)).1

theorem checkKey_dataBlocks (k : MasterKey) : checkKey uninit (k.dataBlocks uninit) = .ok () := by
  refine checkKey_eq_ok.mpr ⟨?_, fun b hb => (plausible_dataBlocks uninit k b hb).passes⟩
  rw [dataBlocks_eq, List.length_map, List.length_range]

/-- The blocks of a key, for every list of blocks and for every key. -/
theorem blocks_roundTrip (version : Nat) :
    (∀ block, isPlausibleSingleBlock uninit block = true ↔ Plausible block) ∧
      (∀ blocks, BlocksSpecified uninit blocks version ↔ ¬ Misread uninit blocks) ∧
      ∀ k : MasterKey, ofBlocks uninit (k.dataBlocks uninit) version = .ok ⟨k.data, some version, k.size⟩ := by
  refine ⟨fun block => isPlausibleSingleBlock_iff, ?_, ?_⟩
  · intro blocks
    constructor
    · intro hspecified hmisread
      exact not_blocksSpecified_of_misread uninit version hmisread hspecified
    · exact blocksSpecified_of_not_misread uninit version
  · intro k
    exact ofBlocks_eq_ok.mpr
      ⟨checkKey_dataBlocks uninit k, (blockListToRawData_dataBlocks k).symm, rfl⟩

/-- A letter in the place of a check digit that is 0 is not noticed. -/
theorem not_blocksSpecified_letter :
    ¬ ∀ uninit blocks version, BlocksSpecified uninit blocks version := by
  intro hclaim
  refine not_blocksSpecified_of_misread ⟨fun _ _ => 0, fun _ => 0, fun _ => 0⟩ 1 ?_
    (hclaim _ (List.replicate 16 ['0', '0', '0', '0', '0', 'a']) 1)
  refine ⟨rfl, ?_, ['0', '0', '0', '0', '0', 'a'], by simp, 'a', by simp, rfl⟩
  intro b hb
  rw [List.eq_of_mem_replicate hb]
  decide +kernel

end MasterKey

end KulloClient

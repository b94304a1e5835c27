import KulloClient.Base.FullTextQuery
import KulloClient.Util.Platform
import Mathlib.Data.List.Chain
import Mathlib.Data.List.TakeWhile
import Mathlib.Tactic.NormNum

/-!
# MessageSearchDao

What is searched for: `tokenize` walks over the text with a pointer, and `search` puts what it finds into a query of
the full-text index.  A pointer is the list of the bytes from it to the terminating zero; reading behind the zero or
behind the end of a table has no result, and neither has a loop that does not end.
-/

namespace KulloClient

namespace MessageSearchDao

/-! ### Characters -/

def utf8Trans1 : List Nat := [
  0x00, 0x01, 0x02, 0x03, 0x04, 0x05, 0x06, 0x07, 0x08, 0x09, 0x0a, 0x0b, 0x0c, 0x0d, 0x0e, 0x0f,
  0x10, 0x11, 0x12, 0x13, 0x14, 0x15, 0x16, 0x17, 0x18, 0x19, 0x1a, 0x1b, 0x1c, 0x1d, 0x1e, 0x1f,
  0x00, 0x01, 0x02, 0x03, 0x04, 0x05, 0x06, 0x07, 0x08, 0x09, 0x0a, 0x0b, 0x0c, 0x0d, 0x0e, 0x0f,
  0x00, 0x01, 0x02, 0x03, 0x04, 0x05, 0x06, 0x07, 0x00, 0x01, 0x02, 0x03, 0x00, 0x01, 0x00, 0x00]

/-- The bytes of a character after the first one. -/
def isContinuation (b : UInt8) : Bool := b.toNat &&& 0xc0 == 0x80

def appendBits (c : Nat) (b : UInt8) : Nat := (c <<< 6 + (0x3f &&& b.toNat)) % 2 ^ 32

/-- The loop of `utf8Read`. -/
def readContinuation (c : Nat) : Bytes → Option (Nat × Bytes)
  | [] => none
  | b :: input => if isContinuation b then readContinuation (appendBits c b) input else some (c, b :: input)

/-- What is not accepted as a character of several bytes: ASCII, surrogates, and what is no character. -/
def replaceInvalid (c : Nat) : Nat :=
  if c < 0x80 || c &&& 0xFFFFF800 == 0xD800 || c &&& 0xFFFFFFFE == 0xFFFE then 0xFFFD else c

def utf8Read : Bytes → Option (Nat × Bytes)
  | [] => none
  | b :: input =>
    if b.toNat ≥ 0xc0 then do
      let c ← utf8Trans1[b.toNat - 0xc0]?
      let (c, input) ← readContinuation c input
      some (replaceInvalid c, input)
    else some (b.toNat, input)

/-- Ranges of code points that are neither letters nor numbers: the first one and, in ten bits, their number. -/
def aEntry : List Nat := [
  0x00000030, 0x0000E807, 0x00016C06, 0x0001EC2F, 0x0002AC07, 0x0002D001, 0x0002D803, 0x0002EC01,
  0x0002FC01, 0x00035C01, 0x0003DC01, 0x000B0804, 0x000B480E, 0x000B9407, 0x000BB401, 0x000BBC81,
  0x000DD401, 0x000DF801, 0x000E1002, 0x000E1C01, 0x000FD801, 0x00120808, 0x00156806, 0x00162402,
  0x00163C01, 0x00164437, 0x0017CC02, 0x00180005, 0x00181816, 0x00187802, 0x00192C15, 0x0019A804,
  0x0019C001, 0x001B5001, 0x001B580F, 0x001B9C07, 0x001BF402, 0x001C000E, 0x001C3C01, 0x001C4401,
  0x001CC01B, 0x001E980B, 0x001FAC09, 0x001FD804, 0x00205804, 0x00206C09, 0x00209403, 0x0020A405,
  0x0020C00F, 0x00216403, 0x00217801, 0x0023901B, 0x00240004, 0x0024E803, 0x0024F812, 0x00254407,
  0x00258804, 0x0025C001, 0x00260403, 0x0026F001, 0x0026F807, 0x00271C02, 0x00272C03, 0x00275C01,
  0x00278802, 0x0027C802, 0x0027E802, 0x00280403, 0x0028F001, 0x0028F805, 0x00291C02, 0x00292C03,
  0x00294401, 0x0029C002, 0x0029D401, 0x002A0403, 0x002AF001, 0x002AF808, 0x002B1C03, 0x002B2C03,
  0x002B8802, 0x002BC002, 0x002C0403, 0x002CF001, 0x002CF807, 0x002D1C02, 0x002D2C03, 0x002D5802,
  0x002D8802, 0x002DC001, 0x002E0801, 0x002EF805, 0x002F1803, 0x002F2804, 0x002F5C01, 0x002FCC08,
  0x00300403, 0x0030F807, 0x00311803, 0x00312804, 0x00315402, 0x00318802, 0x0031FC01, 0x00320802,
  0x0032F001, 0x0032F807, 0x00331803, 0x00332804, 0x00335402, 0x00338802, 0x00340802, 0x0034F807,
  0x00351803, 0x00352804, 0x00355C01, 0x00358802, 0x0035E401, 0x00360802, 0x00372801, 0x00373C06,
  0x00375801, 0x00376008, 0x0037C803, 0x0038C401, 0x0038D007, 0x0038FC01, 0x00391C09, 0x00396802,
  0x003AC401, 0x003AD006, 0x003AEC02, 0x003B2006, 0x003C041F, 0x003CD00C, 0x003DC417, 0x003E340B,
  0x003E6424, 0x003EF80F, 0x003F380D, 0x0040AC14, 0x00412806, 0x00415804, 0x00417803, 0x00418803,
  0x00419C07, 0x0041C404, 0x0042080C, 0x00423C01, 0x00426806, 0x0043EC01, 0x004D740C, 0x004E400A,
  0x00500001, 0x0059B402, 0x005A0001, 0x005A6C02, 0x005BAC03, 0x005C4803, 0x005CC805, 0x005D4802,
  0x005DC802, 0x005ED023, 0x005F6004, 0x005F7401, 0x0060000F, 0x0062A401, 0x0064800C, 0x0064C00C,
  0x00650001, 0x00651002, 0x0066C011, 0x00672002, 0x00677822, 0x00685C05, 0x00687802, 0x0069540A,
  0x0069801D, 0x0069FC01, 0x006A8007, 0x006AA006, 0x006C0005, 0x006CD011, 0x006D6823, 0x006E0003,
  0x006E840D, 0x006F980E, 0x006FF004, 0x00709014, 0x0070EC05, 0x0071F802, 0x00730008, 0x00734019,
  0x0073B401, 0x0073C803, 0x00770027, 0x0077F004, 0x007EF401, 0x007EFC03, 0x007F3403, 0x007F7403,
  0x007FB403, 0x007FF402, 0x00800065, 0x0081A806, 0x0081E805, 0x00822805, 0x0082801A, 0x00834021,
  0x00840002, 0x00840C04, 0x00842002, 0x00845001, 0x00845803, 0x00847806, 0x00849401, 0x00849C01,
  0x0084A401, 0x0084B801, 0x0084E802, 0x00850005, 0x00852804, 0x00853C01, 0x00864264, 0x00900027,
  0x0091000B, 0x0092704E, 0x00940200, 0x009C0475, 0x009E53B9, 0x00AD400A, 0x00B39406, 0x00B3BC03,
  0x00B3E404, 0x00B3F802, 0x00B5C001, 0x00B5FC01, 0x00B7804F, 0x00B8C00C, 0x00BA001A, 0x00BA6C59,
  0x00BC00D6, 0x00BFC00C, 0x00C00005, 0x00C02019, 0x00C0A807, 0x00C0D802, 0x00C0F403, 0x00C26404,
  0x00C28001, 0x00C3EC01, 0x00C64002, 0x00C6580A, 0x00C70024, 0x00C8001F, 0x00C8A81E, 0x00C94001,
  0x00C98020, 0x00CA2827, 0x00CB003F, 0x00CC0100, 0x01370040, 0x02924037, 0x0293F802, 0x02983403,
  0x0299BC10, 0x029A7C01, 0x029BC008, 0x029C0017, 0x029C8002, 0x029E2402, 0x02A00801, 0x02A01801,
  0x02A02C01, 0x02A08C09, 0x02A0D804, 0x02A1D004, 0x02A20002, 0x02A2D011, 0x02A33802, 0x02A38012,
  0x02A3E003, 0x02A4980A, 0x02A51C0D, 0x02A57C01, 0x02A60004, 0x02A6CC1B, 0x02A77802, 0x02A8A40E,
  0x02A90C01, 0x02A93002, 0x02A97004, 0x02A9DC03, 0x02A9EC01, 0x02AAC001, 0x02AAC803, 0x02AADC02,
  0x02AAF802, 0x02AB0401, 0x02AB7802, 0x02ABAC07, 0x02ABD402, 0x02AF8C0B, 0x03600001, 0x036DFC02,
  0x036FFC02, 0x037FFC01, 0x03EC7801, 0x03ECA401, 0x03EEC810, 0x03F4F802, 0x03F7F002, 0x03F8001A,
  0x03F88007, 0x03F8C023, 0x03F95013, 0x03F9A004, 0x03FBFC01, 0x03FC040F, 0x03FC6807, 0x03FCEC06,
  0x03FD6C0B, 0x03FF8007, 0x03FFA007, 0x03FFE405, 0x04040003, 0x0404DC09, 0x0405E411, 0x0406400C,
  0x0407402E, 0x040E7C01, 0x040F4001, 0x04215C01, 0x04247C01, 0x0424FC01, 0x04280403, 0x04281402,
  0x04283004, 0x0428E003, 0x0428FC01, 0x04294009, 0x0429FC01, 0x042CE407, 0x04400003, 0x0440E016,
  0x04420003, 0x0442C012, 0x04440003, 0x04449C0E, 0x04450004, 0x04460003, 0x0446CC0E, 0x04471404,
  0x045AAC0D, 0x0491C004, 0x05BD442E, 0x05BE3C04, 0x074000F6, 0x07440027, 0x0744A4B5, 0x07480046,
  0x074C0057, 0x075B0401, 0x075B6C01, 0x075BEC01, 0x075C5401, 0x075CD401, 0x075D3C01, 0x075DBC01,
  0x075E2401, 0x075EA401, 0x075F0C01, 0x07BBC002, 0x07C0002C, 0x07C0C064, 0x07C2800F, 0x07C2C40E,
  0x07C3040F, 0x07C3440F, 0x07C4401F, 0x07C4C03C, 0x07C5C02B, 0x07C7981D, 0x07C8402B, 0x07C90009,
  0x07C94002, 0x07CC0021, 0x07CCC006, 0x07CCDC46, 0x07CE0014, 0x07CE8025, 0x07CF1805, 0x07CF8011,
  0x07D0003F, 0x07D10001, 0x07D108B6, 0x07D3E404, 0x07D4003E, 0x07D50004, 0x07D54018, 0x07D7EC46,
  0x07D9140B, 0x07DA0046, 0x07DC0074, 0x38000401, 0x38008060, 0x380400F0]

def aAscii : List Nat := [0xFFFFFFFF, 0xFC00FFFF, 0xF8000001, 0xF8000001]

/-- The binary search of `unicodeIsalnum`. -/
def search (key : Nat) : Nat → Int → Int → Int → Option Int
  | 0, _, _, _ => none
  | fuel + 1, iLo, iHi, iRes =>
    if iHi ≥ iLo then do
      let iTest := (iHi + iLo) / 2
      let entry ← aEntry[iTest.toNat]?
      if key ≥ entry then search key fuel (iTest + 1) iHi iTest else search key fuel iLo (iTest - 1) iRes
    else some iRes

/-- Its assertions have no result when they fail. -/
def unicodeIsalnum (c : Nat) : Option Bool :=
  if c < 128 then do
    let mask ← aAscii[c >>> 5]?
    some (mask &&& (1 <<< (c &&& 0x1F)) == 0)
  else if c < 1 <<< 22 then do
    let key := c <<< 10 ||| 0x3FF
    let iRes ← search key (aEntry.length + 1) 0 (aEntry.length - 1) 0
    let first ← aEntry[0]?
    guard (first < key)
    let entry ← aEntry[iRes.toNat]?
    guard (key ≥ entry)
    some (c ≥ (entry >>> 10) + (entry &&& 0x3FF))
  else some true

def unicodeIsdiacritic (c : Nat) : Bool :=
  if c < 768 || c > 817 then false
  else if c < 768 + 32 then 0x08029FDF &&& (1 <<< (c - 768)) != 0
  else 0x000361F8 &&& (1 <<< (c - 768 - 32)) != 0

/-! ### Tokens -/

def isTokenChar (codePoint : Nat) : Option Bool := do
  some ((← unicodeIsalnum codePoint) || unicodeIsdiacritic codePoint)

/-- A loop of `tokenize`, which goes on for characters of tokens or for all others: where the character that ends it
begins, and the pointer behind it unless that is the terminating zero. -/
def skip (tokenChars : Bool) : Nat → Bytes → Option (Bytes × Option Bytes)
  | 0, _ => none
  | fuel + 1, input => do
    if (← input.head?) = 0 then some (input, none)
    else
      let (codePoint, next) ← utf8Read input
      if (← isTokenChar codePoint) = tokenChars then skip tokenChars fuel next else some (input, some next)

/-- The bytes between two pointers. -/
def between (tokenBegin tokenEnd : Bytes) : Bytes := tokenBegin.take (tokenBegin.length - tokenEnd.length)

def tokenizeLoop : Nat → Bytes → List Bytes → Option (List Bytes)
  | 0, _, _ => none
  | fuel + 1, input, tokens => do
    let (tokenBegin, next) ← skip false (input.length + 1) input
    match next with
    | none => some tokens
    | some input =>
      let (tokenEnd, next) ← skip true (input.length + 1) input
      match next with
      | none => some (tokens ++ [between tokenBegin tokenEnd])
      | some input => tokenizeLoop fuel input (tokens ++ [between tokenBegin tokenEnd])

def tokenize (searchText : Bytes) : Option (List Bytes) := tokenizeLoop (searchText.length + 1) (searchText ++ [0]) []

/-- What `search` looks for: `foo bar` becomes `"foo" * AND "bar" *`. -/
def matcher (tokens : List Bytes) : Bytes :=
  if tokens.isEmpty then toBytes "\"\""
  else
    (tokens.foldl (fun (firstToken, matcher) token =>
      (false, (if firstToken then matcher else matcher ++ toBytes " AND ") ++
        toBytes "\"" ++ token ++ toBytes "\" *")) (true, [])).2

/-! ### Letters and numbers -/

/-- The code points that `aEntry` excludes, ASCII aside, or all that it does not. -/
def isAlnum (c : Nat) : Bool :=
  if c < 128 then (48 ≤ c && c ≤ 57) || (65 ≤ c && c ≤ 90) || (97 ≤ c && c ≤ 122)
  else !aEntry.any fun entry => entry / 1024 ≤ c && c < entry / 1024 + entry % 1024

/-- Ranges do not overlap, and the later ones lie behind. -/
theorem aEntry_pairwise : aEntry.Pairwise fun entry entry' => entry / 1024 + entry % 1024 ≤ entry' / 1024 := by
  have hchain : aEntry.IsChain fun entry entry' => entry / 1024 + entry % 1024 ≤ entry' / 1024 := by decide +kernel
  have : Trans (fun entry entry' : Nat => entry / 1024 + entry % 1024 ≤ entry' / 1024)
      (fun entry entry' : Nat => entry / 1024 + entry % 1024 ≤ entry' / 1024)
      (fun entry entry' : Nat => entry / 1024 + entry % 1024 ≤ entry' / 1024) := ⟨fun h h' => by omega⟩
  exact List.isChain_iff_pairwise.mp hchain

/-- What the binary search knows: its result so far is not too late, and what lies behind `iHi` is. -/
structure SearchInv (c : Nat) (iLo iHi iRes : Int) : Prop where
  lo : 0 ≤ iLo
  hi : iHi < aEntry.length
  res : iRes = iLo - 1 ∨ iLo = 0 ∧ iRes = 0
  below : ∃ entry, aEntry[iRes.toNat]? = some entry ∧ entry / 1024 ≤ c
  above : ∀ (j : Nat) entry, iHi < j → aEntry[j]? = some entry → c < entry / 1024

private theorem search_eq {c : Nat} {fuel : Nat} {iLo iHi iRes : Int} (h : SearchInv c iLo iHi iRes) (hle : iLo ≤ iHi + 1)
    (hfuel : iHi - iLo + 1 < fuel) :
    ∃ i entry, search (c * 1024 + 1023) fuel iLo iHi iRes = some i ∧ aEntry[i.toNat]? = some entry ∧
      entry / 1024 ≤ c ∧ ∀ (j : Nat) entry', i.toNat < j → aEntry[j]? = some entry' → c < entry' / 1024 := by
  induction fuel generalizing iLo iHi iRes with
  | zero => omega
  | succ fuel ih =>
    have hlo := h.lo
    have hhi := h.hi
    have hres := h.res
    unfold search
    by_cases hround : iHi ≥ iLo
    · rw [if_pos hround]
      obtain ⟨m, hm⟩ : ∃ m : Nat, (iHi + iLo) / 2 = (m : Int) := ⟨((iHi + iLo) / 2).toNat, by omega⟩
      have hlt : m < aEntry.length := by omega
      have hentry : aEntry[m]? = some aEntry[m] := List.getElem?_eq_getElem hlt
      rw [hm]
      dsimp only
      rw [Int.toNat_natCast, hentry]
      dsimp only [bind, Option.bind]
      by_cases hkey : aEntry[m] / 1024 ≤ c
      · rw [if_pos (by omega)]
        refine ih ⟨by omega, hhi, .inl (by omega), ⟨aEntry[m], ?_, hkey⟩, h.above⟩ (by omega) (by omega)
        rw [Int.toNat_natCast, hentry]
      · rw [if_neg (by omega)]
        refine ih ⟨hlo, by omega, by omega, h.below, ?_⟩ (by omega) (by omega)
        intro j entry hj hget
        -- the ranges behind the one that was tested come later still
        obtain ⟨hjlt, rfl⟩ := List.getElem?_eq_some_iff.mp hget
        rcases Nat.eq_or_lt_of_le (show m ≤ j by omega) with rfl | hmj
        · omega
        · have := List.pairwise_iff_getElem.mp aEntry_pairwise m j hlt hjlt hmj
          omega
    · rw [if_neg hround]
      obtain ⟨entry, hget, hbelow⟩ := h.below
      refine ⟨iRes, entry, rfl, hget, hbelow, ?_⟩
      intro j entry' hj hget'
      rcases hres with hres | ⟨hlo0, hres⟩
      · exact h.above j entry' (by omega) hget'
      · exact h.above j entry' (by omega) hget'

private theorem any_aEntry_eq {c i entry : Nat} (hget : aEntry[i]? = some entry) (hle : entry / 1024 ≤ c)
    (habove : ∀ (j : Nat) entry', i < j → aEntry[j]? = some entry' → c < entry' / 1024) :
    (aEntry.any fun entry => entry / 1024 ≤ c && c < entry / 1024 + entry % 1024) =
      decide (c < entry / 1024 + entry % 1024) := by
  obtain ⟨hi, rfl⟩ := List.getElem?_eq_some_iff.mp hget
  rw [Bool.eq_iff_iff, List.any_eq_true, decide_eq_true_iff]
  constructor
  · intro h
    obtain ⟨entry', hmem, hin⟩ := h
    rw [Bool.and_eq_true, decide_eq_true_iff, decide_eq_true_iff] at hin
    obtain ⟨j, hj, rfl⟩ := List.getElem_of_mem hmem
    rcases Nat.lt_trichotomy i j with hij | rfl | hji
    · have := habove j aEntry[j] hij (List.getElem?_eq_getElem hj)
      omega
    · exact hin.2
    · have := List.pairwise_iff_getElem.mp aEntry_pairwise j i hj hi hji
      omega
  · intro h
    refine ⟨aEntry[i], List.getElem_mem hi, ?_⟩
    rw [Bool.and_eq_true, decide_eq_true_iff, decide_eq_true_iff]
    exact ⟨hle, h⟩

/-- No loop without end, no failing assertion, no access behind a table. -/
theorem unicodeIsalnum_eq (c : Nat) : unicodeIsalnum c = some (isAlnum c) := by
  unfold unicodeIsalnum
  by_cases hascii : c < 128
  · have hall : ∀ c < 128, (do
        let mask ← aAscii[c >>> 5]?
        some (mask &&& (1 <<< (c &&& 0x1F)) == 0)) = some (isAlnum c) := by decide +kernel
    rw [if_pos hascii]
    exact hall c hascii
  · rw [if_neg hascii]
    have hlen : aEntry.length = 406 := by decide +kernel
    by_cases hbits : c < 1 <<< 22
    · have hkey : c <<< 10 ||| 0x3FF = c * 1024 + 1023 := by
        rw [← Nat.shiftLeft_add_eq_or_of_lt (by decide), Nat.shiftLeft_eq]
      have hfirst : aEntry[0]? = some 0x30 := by decide +kernel
      have hinv : SearchInv c 0 (aEntry.length - 1) 0 := by
        refine ⟨by omega, by omega, .inr ⟨rfl, rfl⟩, ⟨0x30, hfirst, by omega⟩, ?_⟩
        intro j entry hj hget
        obtain ⟨hjlt, -⟩ := List.getElem?_eq_some_iff.mp hget
        omega
      obtain ⟨i, entry, hsearch, hget, hle, habove⟩ :=
        @search_eq c (aEntry.length + 1) 0 (aEntry.length - 1) 0 hinv (by omega) (by omega)
      have hmod : entry &&& 0x3FF = entry % 1024 := Nat.and_two_pow_sub_one_eq_mod entry 10
      rw [if_pos hbits]
      dsimp only
      have hguard : (guard (0x30 < c * 1024 + 1023) : Option Unit) = some () := if_pos (by omega)
      have hguard' : (guard (c * 1024 + 1023 ≥ entry) : Option Unit) = some () := if_pos (by omega)
      simp only [hkey, hsearch, hfirst, hguard, hget, hguard', hmod, Option.bind_eq_bind, Option.bind_some,
        Nat.shiftRight_eq_div_pow]
      have hbound : decide (c ≥ entry / 2 ^ 10 + entry % 1024) = !decide (c < entry / 1024 + entry % 1024) := by
        rw [← decide_not, decide_eq_decide]
        omega
      unfold isAlnum
      rw [if_neg hascii, any_aEntry_eq hget hle habove, hbound]
    · -- too large for the table, whose code points have 22 bits
      have hsum : ∀ entry ∈ aEntry, entry / 1024 + entry % 1024 ≤ 1 <<< 22 := by decide +kernel
      have hany : (aEntry.any fun entry => entry / 1024 ≤ c && c < entry / 1024 + entry % 1024) = false := by
        rw [List.any_eq_false]
        intro entry hmem
        have := hsum entry hmem
        simp only [Bool.and_eq_true, decide_eq_true_iff, not_and]
        omega
      unfold isAlnum
      rw [if_neg hbits, if_neg hascii, hany]
      rfl

/-! ### Characters of a text -/

/-- The first character of a text, its bytes and those after it. -/
def firstChar (b : UInt8) (s : Bytes) : (Nat × Bytes) × Bytes :=
  if b.toNat ≥ 0xc0 then
    ((replaceInvalid ((s.takeWhile isContinuation).foldl appendBits (utf8Trans1.getD (b.toNat - 0xc0) 0)),
      b :: s.takeWhile isContinuation), s.dropWhile isContinuation)
  else ((b.toNat, [b]), s)

private theorem firstChar_append (b : UInt8) (s : Bytes) : (firstChar b s).1.2 ++ (firstChar b s).2 = b :: s := by
  unfold firstChar
  split
  · dsimp only
    rw [List.cons_append, List.takeWhile_append_dropWhile]
  · rfl

private theorem length_firstChar (b : UInt8) (s : Bytes) : (firstChar b s).2.length ≤ s.length := by
  unfold firstChar
  split
  · exact (List.dropWhile_sublist _).length_le
  · exact Nat.le_refl _

/-- The characters before the first NUL, each with its bytes. -/
def characters (s : Bytes) : List (Nat × Bytes) :=
  match s with
  | [] => []
  | b :: s => if b = 0 then [] else (firstChar b s).1 :: characters (firstChar b s).2
termination_by s.length
decreasing_by
  have := length_firstChar b s
  simp only [List.length_cons]
  omega

private theorem characters_nil : characters [] = [] := by rw [characters]

private theorem characters_cons {b : UInt8} (hb : b ≠ 0) (s : Bytes) :
    characters (b :: s) = (firstChar b s).1 :: characters (firstChar b s).2 := by
  rw [characters, if_neg hb]

/-- The terminating zero ends the loop. -/
theorem readContinuation_append (c : Nat) (s : Bytes) :
    readContinuation c (s ++ [0]) =
      some ((s.takeWhile isContinuation).foldl appendBits c, s.dropWhile isContinuation ++ [0]) := by
  have hzero : isContinuation 0 = false := by decide
  induction s generalizing c with
  | nil => rfl
  | cons b s ih =>
    rw [List.cons_append, readContinuation]
    by_cases hb : isContinuation b = true
    · rw [if_pos hb, ih, List.takeWhile_cons_of_pos hb, List.dropWhile_cons_of_pos hb, List.foldl_cons]
    · rw [if_neg hb, List.takeWhile_cons_of_neg hb, List.dropWhile_cons_of_neg hb]
      rfl

private theorem utf8Read_append (b : UInt8) (s : Bytes) :
    utf8Read (b :: (s ++ [0])) = some ((firstChar b s).1.1, (firstChar b s).2 ++ [0]) := by
  unfold utf8Read firstChar
  dsimp only
  by_cases hlead : b.toNat ≥ 0xc0
  · have hlt : b.toNat - 0xc0 < utf8Trans1.length := by
      have := UInt8.toNat_lt b
      show b.toNat - 0xc0 < 64
      omega
    have hget : utf8Trans1[b.toNat - 0xc0]? = some (utf8Trans1.getD (b.toNat - 0xc0) 0) := by
      rw [List.getD_eq_getElem?_getD, List.getElem?_eq_getElem hlt, Option.getD_some]
    rw [if_pos hlead, if_pos hlead, hget]
    simp only [Option.bind_eq_bind, Option.bind_some, readContinuation_append]
  · rw [if_neg hlead, if_neg hlead]

/-- Letters, digits and diacritic marks. -/
def isToken (character : Nat × Bytes) : Bool := isAlnum character.1 || unicodeIsdiacritic character.1

private theorem isTokenChar_eq (character : Nat × Bytes) : isTokenChar character.1 = some (isToken character) := by
  unfold isTokenChar isToken
  rw [unicodeIsalnum_eq]
  rfl

/-! ### Runs of characters -/

/-- The bytes of some characters. -/
def bytesOf (characters : List (Nat × Bytes)) : Bytes := characters.flatMap Prod.snd

/-- The maximal runs of letters, digits and diacritic marks. -/
def tokenRuns (characters : List (Nat × Bytes)) : List (List (Nat × Bytes)) :=
  (characters.splitOnP fun character => !isToken character).filter fun run => !run.isEmpty

private theorem tokenRuns_of_separators {run : List (Nat × Bytes)} (h : ∀ x ∈ run, isToken x = false)
    (rest : List (Nat × Bytes)) : tokenRuns (run ++ rest) = tokenRuns rest := by
  induction run with
  | nil => rfl
  | cons x run ih =>
    have hx : (!isToken x) = true := by rw [h x List.mem_cons_self]; rfl
    rw [List.cons_append]
    unfold tokenRuns at *
    rw [List.splitOnP_cons_eq_if_modifyHead, if_pos hx, List.filter_cons_of_neg (by simp)]
    exact ih fun y hy => h y (List.mem_cons_of_mem x hy)

private theorem tokenRuns_of_tokens {run : List (Nat × Bytes)} (h : ∀ x ∈ run, isToken x = true) (hne : run ≠ []) :
    tokenRuns run = [run] := by
  have hall : ∀ x ∈ run, (!isToken x) = false := by
    intro x hx
    rw [h x hx]
    rfl
  unfold tokenRuns
  rw [List.splitOnP_eq_singleton hall, List.filter_cons_of_pos (by simpa using hne), List.filter_nil]

private theorem tokenRuns_of_tokens_append {run rest : List (Nat × Bytes)} {x : Nat × Bytes}
    (h : ∀ x ∈ run, isToken x = true) (hne : run ≠ []) (hx : isToken x = false) :
    tokenRuns (run ++ x :: rest) = run :: tokenRuns rest := by
  have hall : ∀ x ∈ run, (!isToken x) = false := by
    intro x hx
    rw [h x hx]
    rfl
  unfold tokenRuns
  rw [List.splitOnP_append_cons_of_forall_mem hall x (by rw [hx]; rfl), List.filter_cons_of_pos (by simpa using hne)]

/-- Every run is a run: not empty, and of such characters only. -/
theorem of_mem_tokenRuns {characters run : List (Nat × Bytes)} (h : run ∈ tokenRuns characters) :
    run ≠ [] ∧ ∀ x ∈ run, isToken x = true ∧ x ∈ characters := by
  obtain ⟨hmem, hne⟩ := List.mem_filter.mp h
  refine ⟨by simpa using hne, ?_⟩
  clear h hne
  induction characters generalizing run with
  | nil =>
    rw [List.splitOnP_nil, List.mem_singleton] at hmem
    rw [hmem]
    intro x hx
    cases hx
  | cons y characters ih =>
    rw [List.splitOnP_cons_eq_if_modifyHead] at hmem
    split at hmem
    · rcases List.mem_cons.mp hmem with rfl | hmem
      · intro x hx
        cases hx
      · intro x hx
        obtain ⟨htoken, hx⟩ := ih hmem x hx
        exact ⟨htoken, List.mem_cons_of_mem y hx⟩
    · next hy =>
      obtain ⟨first, rest, hsplit⟩ :=
        List.exists_cons_of_ne_nil (List.splitOnP_ne_nil (fun character => !isToken character) characters)
      rw [hsplit, List.modifyHead_cons] at hmem
      rcases List.mem_cons.mp hmem with rfl | hmem
      · intro x hx
        rcases List.mem_cons.mp hx with rfl | hx
        · exact ⟨by simpa using hy, List.mem_cons_self⟩
        · obtain ⟨htoken, hx⟩ := ih (by rw [hsplit]; exact List.mem_cons_self) x hx
          exact ⟨htoken, List.mem_cons_of_mem y hx⟩
      · intro x hx
        obtain ⟨htoken, hx⟩ := ih (by rw [hsplit]; exact List.mem_cons_of_mem first hmem) x hx
        exact ⟨htoken, List.mem_cons_of_mem y hx⟩

/-! ### The two loops -/

/-- A loop passes over a run, to the terminating zero or to the character behind the run. -/
theorem skip_cases (tokenChars : Bool) {fuel : Nat} {s : Bytes} (hfuel : s.length < fuel) :
    (∃ z, skip tokenChars fuel (s ++ [0]) = some (z, none) ∧ s ++ [0] = bytesOf (characters s) ++ z ∧
      ∀ x ∈ characters s, isToken x = tokenChars) ∨
    ∃ run x p q, skip tokenChars fuel (s ++ [0]) = some (p ++ [0], some (q ++ [0])) ∧
      characters s = run ++ x :: characters q ∧ s = bytesOf run ++ p ∧ p = x.2 ++ q ∧ q.length < s.length ∧
      (∀ x ∈ run, isToken x = tokenChars) ∧ isToken x = !tokenChars := by
  induction fuel generalizing s with
  | zero => omega
  | succ fuel ih =>
    unfold skip
    cases s with
    | nil =>
      refine .inl ⟨[0], rfl, ?_, ?_⟩
      · rw [characters_nil]
        rfl
      · intro x hx
        rw [characters_nil] at hx
        cases hx
    | cons b s =>
      simp only [List.cons_append, List.head?_cons, Option.bind_eq_bind, Option.bind_some]
      -- a zero ends the text for the tokenizer too
      by_cases hb : b = 0
      · subst hb
        have hchars : characters (0 :: s) = [] := by rw [characters, if_pos rfl]
        refine .inl ⟨0 :: (s ++ [0]), by rw [if_pos rfl], by rw [hchars]; rfl, ?_⟩
        intro x hx
        rw [hchars] at hx
        cases hx
      · have happend := firstChar_append b s
        have hlen := length_firstChar b s
        rw [if_neg hb, utf8Read_append, characters_cons hb]
        generalize (firstChar b s).2 = rest at *
        generalize (firstChar b s).1 = x at *
        have htoken : isTokenChar x.1 = some (isToken x) := isTokenChar_eq x
        simp only [Option.bind_some, htoken]
        rw [List.length_cons] at hfuel
        -- the run goes on, or ends in front of this character
        by_cases hx : isToken x = tokenChars
        · rw [if_pos hx]
          rcases ih (show rest.length < fuel by omega) with ⟨z, hskip, hz, hall⟩ | h
          · refine .inl ⟨z, hskip, ?_, ?_⟩
            · rw [bytesOf, List.flatMap_cons, List.append_assoc, ← bytesOf, ← hz, ← List.append_assoc, happend]
              rfl
            · intro y hy
              rcases List.mem_cons.mp hy with rfl | hy
              · exact hx
              · exact hall y hy
          · obtain ⟨run, y, p, q, hskip, hchars, hrest, hp, hq, hall, hy⟩ := h
            refine .inr ⟨x :: run, y, p, q, hskip, by rw [hchars]; rfl, ?_, hp, ?_, ?_, hy⟩
            · rw [bytesOf, List.flatMap_cons, List.append_assoc, ← bytesOf, ← hrest, happend]
            · rw [List.length_cons]
              omega
            · intro w hw
              rcases List.mem_cons.mp hw with rfl | hw
              · exact hx
              · exact hall w hw
        · rw [if_neg hx]
          refine .inr ⟨[], x, b :: s, rest, rfl, rfl, rfl, happend.symm, ?_, ?_, ?_⟩
          · rw [List.length_cons]
            omega
          · intro w hw
            cases hw
          · cases tokenChars <;> simpa using hx

private theorem between_append (a z : Bytes) : between (a ++ z) z = a := by
  unfold between
  rw [List.length_append, Nat.add_sub_cancel]
  exact List.take_left

private theorem length_lt_append (s : Bytes) : s.length < (s ++ [0]).length + 1 := by
  rw [List.length_append, List.length_singleton]
  omega

private theorem tokenizeLoop_eq {fuel : Nat} {s : Bytes} (hfuel : s.length < fuel) (tokens : List Bytes) :
    tokenizeLoop fuel (s ++ [0]) tokens = some (tokens ++ (tokenRuns (characters s)).map bytesOf) := by
  induction fuel generalizing s tokens with
  | zero => omega
  | succ fuel ih =>
    unfold tokenizeLoop
    rcases skip_cases false (length_lt_append s) with ⟨z, hskip, -, hall⟩ | h
    · have hruns : tokenRuns (characters s) = [] := by
        have happend := tokenRuns_of_separators hall []
        rw [List.append_nil] at happend
        rw [happend]
        rfl
      rw [hskip, hruns, List.map_nil, List.append_nil]
      rfl
    · obtain ⟨run, x, p, q, hskip, hchars, -, hp, hq, hall, hx⟩ := h
      rw [hskip, hchars, tokenRuns_of_separators hall]
      simp only [Option.bind_eq_bind, Option.bind_some]
      rcases skip_cases true (length_lt_append q) with ⟨z, hskip', hz, hall'⟩ | h'
      · -- the token reaches to the end of the text
        have htokens : ∀ y ∈ x :: characters q, isToken y = true := by
          intro y hy
          rcases List.mem_cons.mp hy with rfl | hy
          · exact hx
          · exact hall' y hy
        have hbegin : p ++ [0] = bytesOf (x :: characters q) ++ z := by
          rw [hp, List.append_assoc, hz, ← List.append_assoc]
          rfl
        rw [hskip', tokenRuns_of_tokens htokens (by simp)]
        simp only [Option.bind_some]
        rw [hbegin, between_append]
        rfl
      · obtain ⟨run', y, p', q', hskip', hchars', hq', -, hlt, hall', hy⟩ := h'
        have htokens : ∀ y ∈ x :: run', isToken y = true := by
          intro w hw
          rcases List.mem_cons.mp hw with rfl | hw
          · exact hx
          · exact hall' w hw
        have hbegin : p ++ [0] = bytesOf (x :: run') ++ (p' ++ [0]) := by
          rw [hp, hq', bytesOf, bytesOf, List.flatMap_cons]
          simp only [List.append_assoc]
        have hruns : tokenRuns (x :: characters q) = (x :: run') :: tokenRuns (characters q') := by
          rw [hchars', ← List.cons_append]
          exact tokenRuns_of_tokens_append htokens (by simp) hy
        rw [hskip', hruns]
        simp only [Option.bind_some]
        rw [hbegin, between_append, ih (by omega), List.map_cons, List.append_assoc]
        rfl

private theorem tokenize_eq (s : Bytes) : tokenize s = some ((tokenRuns (characters s)).map bytesOf) := by
  unfold tokenize
  rw [tokenizeLoop_eq (Nat.lt_succ_self s.length), List.nil_append]

example : tokenize [32, 97, 195, 164, 44, 49, 0, 98] = some [[97, 195, 164], [49]] := by decide +kernel

/-! ### The bytes of tokens -/

/-- No quote, no blank, no NUL and no operator of the query language. -/
def isHarmless (b : UInt8) : Bool :=
  b != 34 && b != 0 && !FullText.isBlank b && (FullText.symbol b).isNone

private theorem isHarmless_of_isAlnum {b : UInt8} (h : isAlnum b.toNat = true ∨ 128 ≤ b.toNat) : isHarmless b = true := by
  have hascii : ∀ b : UInt8, b.toNat < 128 → isAlnum b.toNat = true → isHarmless b = true := by
    apply forall_byte
    decide +kernel
  have hother : ∀ b : UInt8, 128 ≤ b.toNat → isHarmless b = true := by
    apply forall_byte
    decide +kernel
  rcases h with h | h
  · by_cases hlt : b.toNat < 128
    · exact hascii b hlt h
    · exact hother b (by omega)
  · exact hother b h

/-- The bytes of a character: one of its own, or all of them from 128 on. -/
theorem firstChar_bytes (b : UInt8) (s : Bytes) :
    (firstChar b s).1.2 ≠ [] ∧ ((firstChar b s).1 = (b.toNat, [b]) ∨ ∀ b' ∈ (firstChar b s).1.2, 128 ≤ b'.toNat) := by
  have hcontinuation : ∀ b : UInt8, isContinuation b = true → 128 ≤ b.toNat := by
    apply forall_byte
    decide +kernel
  unfold firstChar
  split
  · next hlead =>
    refine ⟨by simp, .inr ?_⟩
    intro b' hb'
    rcases List.mem_cons.mp hb' with rfl | hb'
    · omega
    · exact hcontinuation b' (List.mem_takeWhile_imp hb')
  · exact ⟨by simp, .inl rfl⟩

/-- The characters are made of all bytes before the first NUL. -/
theorem bytesOf_characters (s : Bytes) : bytesOf (characters s) = s.takeWhile fun b => b != 0 := by
  induction s using characters.induct with
  | case1 =>
    rw [characters_nil]
    rfl
  | case2 s =>
    rw [characters, if_pos rfl, List.takeWhile_cons_of_neg (by simp)]
    rfl
  | case3 b s hb ih =>
    have hbytes : ∀ b' ∈ (firstChar b s).1.2, (b' != 0) = true := by
      intro b' hb'
      rcases (firstChar_bytes b s).2 with heq | hbytes
      · rw [heq, List.mem_singleton] at hb'
        simpa [hb'] using hb
      · have := hbytes b' hb'
        simp only [bne_iff_ne, ne_eq]
        intro hzero
        rw [hzero] at this
        exact absurd this (by decide)
    rw [characters_cons hb, ← firstChar_append b s, List.takeWhile_append_of_pos hbytes, ← ih]
    rfl

private theorem isHarmless_of_mem_characters {s : Bytes} {x : Nat × Bytes} (hx : x ∈ characters s) :
    x.2 ≠ [] ∧ (isToken x = true → ∀ b ∈ x.2, isHarmless b = true) := by
  induction s using characters.induct with
  | case1 =>
    rw [characters_nil] at hx
    cases hx
  | case2 s =>
    rw [characters, if_pos rfl] at hx
    cases hx
  | case3 b s hb ih =>
    rw [characters_cons hb] at hx
    rcases List.mem_cons.mp hx with rfl | hx
    · obtain ⟨hne, hbytes⟩ := firstChar_bytes b s
      refine ⟨hne, ?_⟩
      intro htoken b' hb'
      rcases hbytes with heq | hbytes
      · rw [heq] at htoken hb'
        rw [List.mem_singleton] at hb'
        subst hb'
        apply isHarmless_of_isAlnum
        -- diacritic marks are not ASCII
        by_cases hlt : b'.toNat < 128
        · left
          have hmark : unicodeIsdiacritic b'.toNat = false := by
            unfold unicodeIsdiacritic
            rw [if_pos]
            simp only [Bool.or_eq_true, decide_eq_true_iff]
            omega
          unfold isToken at htoken
          rwa [hmark, Bool.or_false] at htoken
        · right
          omega
      · exact isHarmless_of_isAlnum (.inr (hbytes b' hb'))
    · exact ih hx

private theorem isHarmless_of_mem_tokens {s token : Bytes} (h : token ∈ (tokenRuns (characters s)).map bytesOf) :
    token ≠ [] ∧ ∀ b ∈ token, isHarmless b = true := by
  obtain ⟨run, hrun, rfl⟩ := List.mem_map.mp h
  obtain ⟨hne, hmem⟩ := of_mem_tokenRuns hrun
  constructor
  · obtain ⟨x, rest, rfl⟩ := List.exists_cons_of_ne_nil hne
    intro hnil
    have hbytes := List.append_eq_nil_iff.mp hnil
    exact (isHarmless_of_mem_characters (hmem x List.mem_cons_self).2).1 hbytes.1
  · intro b hb
    obtain ⟨x, hx, hb⟩ := List.mem_flatMap.mp hb
    obtain ⟨htoken, hx⟩ := hmem x hx
    exact (isHarmless_of_mem_characters hx).2 htoken b hb

/-! ### The query -/

private theorem toBytes_quotes : toBytes "\"\"" = [34, 34] := by decide +kernel

private theorem matcher_cons (token : Bytes) (tokens : List Bytes) :
    matcher (token :: tokens) =
      34 :: token ++ [34, 32, 42] ++ tokens.flatMap fun token => 32 :: 65 :: 78 :: 68 :: 32 :: 34 :: token ++ [34, 32, 42] := by
  have hquote : toBytes "\"" = [34] := by decide +kernel
  have hstar : toBytes "\" *" = [34, 32, 42] := by decide +kernel
  have hand : toBytes " AND " = [32, 65, 78, 68, 32] := by decide +kernel
  have hfold : ∀ (tokens : List Bytes) (text : Bytes),
      (tokens.foldl (fun acc token =>
        (false, (if acc.1 then acc.2 else acc.2 ++ toBytes " AND ") ++
          toBytes "\"" ++ token ++ toBytes "\" *")) (false, text)).2 =
        text ++ tokens.flatMap fun token => 32 :: 65 :: 78 :: 68 :: 32 :: 34 :: token ++ [34, 32, 42] := by
    intro tokens
    induction tokens with
    | nil => intro text; simp
    | cons token tokens ih =>
      intro text
      rw [List.foldl_cons]
      dsimp only
      rw [ih, hquote, hstar, hand]
      simp
  unfold matcher
  rw [List.isEmpty_cons, if_neg (by decide), List.foldl_cons]
  refine (hfold tokens _).trans ?_
  rw [hquote, hstar]
  simp

/-- The query language reads one string and one star for each token. -/
theorem lex_matcher {tokens : List Bytes} (hne : tokens ≠ []) (h : ∀ token ∈ tokens, 34 ∉ token) :
    FullText.lex (matcher tokens) = some (FullText.conjunction tokens) := by
  obtain ⟨token, tokens, rfl⟩ := List.exists_cons_of_ne_nil hne
  clear hne
  rw [matcher_cons]
  induction tokens generalizing token with
  | nil =>
    have hlex := FullText.lex_string (h token List.mem_cons_self) (show ([32, 42] : Bytes).head? ≠ some 34 by decide)
    rw [List.flatMap_nil, List.append_nil]
    refine hlex.trans ?_
    rw [FullText.lex_blank, FullText.lex_star, FullText.lex_nil]
    rfl
  | cons token' tokens ih =>
    have hrest := ih token' fun t ht => h t (List.mem_cons_of_mem token ht)
    rw [List.flatMap_cons]
    generalize tokens.flatMap (fun token => 32 :: 65 :: 78 :: 68 :: 32 :: 34 :: token ++ [34, 32, 42]) = rest at *
    have hlex := @FullText.lex_string token (h token List.mem_cons_self)
      (32 :: 42 :: 32 :: 65 :: 78 :: 68 :: 32 :: 34 :: token' ++ [34, 32, 42] ++ rest) (by simp)
    have htext : 34 :: token ++ [34, 32, 42] ++
        (32 :: 65 :: 78 :: 68 :: 32 :: 34 :: token' ++ [34, 32, 42] ++ rest) =
        34 :: token ++ 34 :: (32 :: 42 :: 32 :: 65 :: 78 :: 68 :: 32 :: 34 :: token' ++ [34, 32, 42] ++ rest) := by
      simp
    rw [htext, hlex]
    simp only [List.cons_append] at hrest ⊢
    rw [FullText.lex_blank, FullText.lex_star, FullText.lex_blank, FullText.lex_and, hrest]
    rfl

/-- The tokens are the maximal runs, none of them can end a string or stand for an operator, and the query is a prefix
phrase for each of them. -/
theorem search_text_harmless (s : Bytes) :
    bytesOf (characters s) = s.takeWhile (fun b => b != 0) ∧
    ∃ tokens, tokenize s = some tokens ∧ tokens = (tokenRuns (characters s)).map bytesOf ∧
      (∀ token ∈ tokens, token ≠ [] ∧ ∀ b ∈ token, isHarmless b = true) ∧
      ∃ queryTokens, FullText.lex (matcher tokens) = some queryTokens ∧
        (∃ q, FullText.Derives queryTokens q) ∧
        ∀ q, FullText.Derives queryTokens q →
          q.conjuncts =
            if tokens = [] then [.phrase [[]] false] else tokens.map fun token => .phrase [token] true := by
  refine ⟨bytesOf_characters s, _, tokenize_eq s, rfl, fun _ => isHarmless_of_mem_tokens, ?_⟩
  -- a token has no quote, so it does not end the phrase it is written in
  have hharmless : ∀ token ∈ (tokenRuns (characters s)).map bytesOf, 34 ∉ token := by
    intro token htoken hquote
    have := (isHarmless_of_mem_tokens htoken).2 34 hquote
    revert this
    decide
  generalize (tokenRuns (characters s)).map bytesOf = tokens at *
  by_cases hnil : tokens = []
  · subst hnil
    -- no token is written as the empty phrase
    have hlex : FullText.lex (matcher []) = some [.string []] := by
      have htext : matcher [] = [34, 34] := toBytes_quotes
      have hlex := @FullText.lex_string [] (by simp) [] (by simp)
      rw [FullText.lex_nil] at hlex
      rw [htext]
      exact hlex
    refine ⟨_, hlex, ⟨_, FullText.derives_string.mpr rfl⟩, ?_⟩
    intro q hq
    rw [FullText.derives_string.mp hq, if_pos rfl]
    rfl
  · refine ⟨_, lex_matcher hnil hharmless, FullText.derives_conjunction hnil, ?_⟩
    intro q hq
    rw [if_neg hnil]
    exact FullText.conjuncts_of_derives hq tokens rfl

end MessageSearchDao

end KulloClient

import KulloClient.Base.Gregorian
import KulloClient.Base.Regex
import KulloClient.Types
import KulloClient.Util.Strings

/-!
# DateTime

Timestamps in the format of RFC 3339.  The regular expression checks the form of a text, boost the date, and the
constructor the offset; the time of day is added up as it is, so that an hour like 24 becomes a part of the next day.
What is relied on of boost's dates is `DateLibrary.Documented`.
-/

namespace KulloClient

open Imperative

/-- What the code uses of boost's dates: a date's day number, the year, month and day of a day number, and the text of
a special time.  The errors are the texts of boost's exceptions, which are subclasses of `std::out_of_range`. -/
structure DateLibrary where
  date : Int → Int → Int → Except String Int
  ymd : Int → Except String (Nat × Nat × Nat)
  special : Except String (List Char)

/-- An exception of boost's dates as the rest of the code sees it. -/
def ofBoost {α : Type} (result : Except String α) : Except Exn α :=
  match result with
  | .ok a => .ok a
  | .error message => .error (.outOfRange message)

private theorem ofBoost_raises {α : Type} (result : Except String α) :
    RaisesOnly (fun e => ∃ message, e = .outOfRange message) (ofBoost result) := by
  unfold ofBoost
  split
  · simp
  · rw [raisesOnly_error]; exact ⟨_, rfl⟩

/-- The dates that boost supports. -/
def Supported (year month day : Nat) : Prop := (1400 ≤ year ∧ year ≤ 9999) ∧ Gregorian.IsDate year month day

instance (year month day : Nat) : Decidable (Supported year month day) := inferInstanceAs (Decidable (_ ∧ _))

/-- The documented behaviour of `gregorian::date`: it refuses a date outside its range, and a day number outside the
range has no date. -/
structure DateLibrary.Documented (B : DateLibrary) : Prop where
  date : ∀ year month day : Nat, Supported year month day →
    B.date year month day = .ok (Gregorian.dayNumber year month day)
  dateError : ∀ year month day : Nat, ¬Supported year month day →
    ∃ message, B.date year month day = .error message
  ymd : ∀ year month day, Supported year month day →
    B.ymd (Gregorian.dayNumber year month day) = .ok (year, month, day)
  ymdError : ∀ n : Int, (∀ year month day, Supported year month day → (Gregorian.dayNumber year month day : Int) ≠ n) →
    ∃ message, B.ymd n = .error message

/-- `std::stoi`. -/
def stoi (text : List Char) : Except Exn Int :=
  match leadingNumber text with
  | none => .error (.invalidArgument "stoi")
  | some n => if -2 ^ 31 ≤ n ∧ n < 2 ^ 31 then .ok n else .error (.outOfRange "stoi")

/-- `Util::numeric_cast` to a signed type of `width` bits. -/
def numericCastSigned (width : Nat) (n : Int) : Except Exn Int :=
  if n < -2 ^ (width - 1) then .error (.assertionFailed "bad numeric conversion: negative overflow")
  else if n < 2 ^ (width - 1) then .ok n
  else .error (.assertionFailed "bad numeric conversion: positive overflow")

/-! ### The format -/

/-- What the expression captures. -/
structure Groups where
  year : List Char
  month : List Char
  day : List Char
  hour : List Char
  minute : List Char
  second : List Char
  sign : List Char
  tzHour : List Char
  tzMinute : List Char
  deriving DecidableEq

open Computability Regex in
/-- `RFC3339_REGEX`. -/
def rfc3339Regex : RegularExpression Char :=
  let digit := oneOf (charRange '0' '9')
  let fraction := literal ['.'] * oneOrMore digit + 1
  let zone := oneOf ['Z', 'z'] + oneOf ['+', '-'] * digit ^ 2 * literal [':'] * digit ^ 2
  digit ^ 4 * literal ['-'] * digit ^ 2 * literal ['-'] * digit ^ 2 * oneOf ['T', 't'] *
    digit ^ 2 * literal [':'] * digit ^ 2 * literal [':'] * digit ^ 2 * fraction * zone

/-- `Regex::match` with its groups.  All of them but those of the offset stand at fixed places; the offset is the end
of the text, and `Z` leaves its groups empty. -/
def matchRfc3339 (s : List Char) : Option Groups :=
  if Regex.matchAll rfc3339Regex s then
    -- a zone other than `Z` has six characters
    let offset := if s.getLast? = some 'Z' ∨ s.getLast? = some 'z' then [] else s.drop (s.length - 6)
    some {
      year := s.take 4
      month := (s.drop 5).take 2
      day := (s.drop 8).take 2
      hour := (s.drop 11).take 2
      minute := (s.drop 14).take 2
      second := (s.drop 17).take 2
      sign := offset.take 1
      tzHour := (offset.drop 1).take 2
      tzMinute := (offset.drop 4).take 2 }
  else none

/-! ### The class -/

/-- `dateTime_` in seconds, where `none` is a special time, and `tzOffset_` in seconds. -/
structure DateTime where
  dateTime : Option Int
  tzOffset : Int
  deriving DecidableEq

namespace DateTime

def hours (n : Int) : Int := 3600 * n

def minutes (n : Int) : Int := 60 * n

variable (B : DateLibrary)

/-- The constructor of `Impl` with the fields of a date. -/
def ofFields (year month day hour minute second tzOffsetMinutes : Int) : Except Exn DateTime := do
  let date ← ofBoost (B.date year month day)
  let dateTime := some (86400 * date + (hours hour + minutes minute + second))
  let tzOffset := minutes tzOffsetMinutes
  -- no fields make a special time, but the source asks
  if dateTime.isNone then
    .error (.invalidDateTime "Not a valid RFC 3339 timestamp: date/time out of range")
  else if tzOffset ≤ hours (-24) ∨ tzOffset > hours 24 then
    .error (.invalidDateTime "Not a valid RFC 3339 timestamp: timezone out of range")
  else return { dateTime, tzOffset }

/-- The offset in minutes, for groups that are empty after `Z`. -/
def readOffset (g : Groups) : Except Exn Int :=
  if !g.sign.isEmpty then do
    let sign := if g.sign = ['+'] then 1 else -1
    let tzHour ← stoi g.tzHour
    let tzMinute ← stoi g.tzMinute
    return sign * (tzHour * 60 + tzMinute)
  else .ok 0

/-- The constructor with a string. -/
def ofString (str : List Char) : Except Exn DateTime :=
  if str.isEmpty then .error .emptyDateTime
  else match matchRfc3339 str with
    | some g => do
      let year ← stoi g.year
      let month ← stoi g.month
      let day ← stoi g.day
      let hour ← stoi g.hour
      let minute ← stoi g.minute
      let second ← stoi g.second
      let tzOffsetMinutes ← readOffset g
      ofFields B (← numericCastSigned 16 year) (← numericCastSigned 8 month) (← numericCastSigned 8 day)
        (← numericCastSigned 8 hour) (← numericCastSigned 8 minute) (← numericCastSigned 8 second)
        (← numericCastSigned 16 tzOffsetMinutes)
    | none => .error (.invalidDateTime "Not a valid RFC 3339 timestamp: bad format")

/-- `%0nd`. -/
def padded (width n : Nat) : List Char := Strings.padLeft (Nat.toDigits 10 n) width '0'

def toString (v : DateTime) : Except Exn (List Char) :=
  match v.dateTime with
  | none => ofBoost B.special
  | some dateTime => do
    let date ← ofBoost (B.ymd (dateTime / 86400))
    let time := (dateTime % 86400).toNat
    let sign := if v.tzOffset ≥ 0 then '+' else '-'
    let tzOffsetSeconds := v.tzOffset.natAbs
    let tzHours := tzOffsetSeconds / 60 / 60
    let tzMinutes := tzOffsetSeconds / 60 % 60
    return padded 4 date.1 ++ '-' :: padded 2 date.2.1 ++ '-' :: padded 2 date.2.2 ++ 'T' ::
      padded 2 (time / 3600) ++ ':' :: padded 2 (time / 60 % 60) ++ ':' :: padded 2 (time % 60) ++ sign ::
      padded 2 tzHours ++ ':' :: padded 2 tzMinutes

def utc (v : DateTime) : Except Exn Int :=
  match v.dateTime with
  | none => .error (.assertionFailed "!dateTime_.is_special()")
  | some dateTime => .ok (dateTime - v.tzOffset)

/-- `operator==`. -/
def eq (v w : DateTime) : Except Exn Bool :=
  if v.dateTime.isNone || w.dateTime.isNone then .ok (v.dateTime = w.dateTime)
  else do return decide ((← v.utc) = (← w.utc))

/-- `operator<`. -/
def lt (v w : DateTime) : Except Exn Bool := do return decide ((← v.utc) < (← w.utc))

/-- `operator>`. -/
def gt (v w : DateTime) : Except Exn Bool := do return decide ((← v.utc) > (← w.utc))

/-- `operator<=`. -/
def le (v w : DateTime) : Except Exn Bool := do if ← v.eq w then return true else v.lt w

/-- `operator>=`. -/
def ge (v w : DateTime) : Except Exn Bool := do if ← v.eq w then return true else v.gt w

theorem toString_raises (v : DateTime) : RaisesOnly (fun e => ∃ message, e = .outOfRange message) (v.toString B) := by
  unfold toString
  split
  · exact ofBoost_raises B.special
  · exact raisesOnly_bind (ofBoost_raises _) (fun date _ => raisesOnly_ok _)

end DateTime

/-! ### The grammar -/

structure Digits (n : Nat) where
  chars : List Char
  length : chars.length = n
  digits : ∀ c ∈ chars, c.isDigit = true

def Digits.value {n : Nat} (ds : Digits n) : Nat := Nat.ofDigitChars 10 ds.chars 0

private theorem Digits.value_lt {n : Nat} (ds : Digits n) : ds.value < 10 ^ n := by
  have h := Strings.ofDigitChars_lt ds.digits
  rwa [ds.length] at h

/-- `time-offset`. -/
inductive Zone
  | utc (z : Char) (hz : z = 'Z' ∨ z = 'z')
  | offset (sign : Char) (hsign : sign = '+' ∨ sign = '-') (hour minute : Digits 2)

def Zone.text : Zone → List Char
  | .utc z _ => [z]
  | .offset sign _ hour minute => [sign] ++ hour.chars ++ [':'] ++ minute.chars

def Zone.groups : Zone → List Char × List Char × List Char
  | .utc _ _ => ([], [], [])
  | .offset sign _ hour minute => ([sign], hour.chars, minute.chars)

/-- `date-time`, without the ranges of the fields. -/
structure Timestamp where
  year : Digits 4
  month : Digits 2
  day : Digits 2
  separator : Char
  hour : Digits 2
  minute : Digits 2
  second : Digits 2
  fraction : List Char
  zone : Zone
  hseparator : separator = 'T' ∨ separator = 't'
  hfraction : fraction = [] ∨ ∃ digits, digits ≠ [] ∧ (∀ c ∈ digits, c.isDigit = true) ∧ fraction = '.' :: digits

namespace Timestamp

def text (t : Timestamp) : List Char :=
  t.year.chars ++ ['-'] ++ t.month.chars ++ ['-'] ++ t.day.chars ++ [t.separator] ++
    t.hour.chars ++ [':'] ++ t.minute.chars ++ [':'] ++ t.second.chars ++ t.fraction ++ t.zone.text

def groups (t : Timestamp) : Groups where
  year := t.year.chars
  month := t.month.chars
  day := t.day.chars
  hour := t.hour.chars
  minute := t.minute.chars
  second := t.second.chars
  sign := t.zone.groups.1
  tzHour := t.zone.groups.2.1
  tzMinute := t.zone.groups.2.2

end Timestamp

section

open Computability Regex

private theorem mem_digits {n : Nat} {w : List Char} :
    w ∈ (oneOf (charRange '0' '9') ^ n).matches' ↔ ∃ ds : Digits n, ds.chars = w := by
  rw [mem_oneOf_pow]
  have hrange : ∀ c, c ∈ charRange '0' '9' ↔ c.isDigit = true := by
    intro c
    rw [mem_charRange (by decide), Char.isDigit, Bool.and_eq_true, decide_eq_true_eq, decide_eq_true_eq]
    rfl
  constructor
  · rintro ⟨hlength, hw⟩
    exact ⟨⟨w, hlength, fun c hc => (hrange c).mp (hw c hc)⟩, rfl⟩
  · rintro ⟨ds, rfl⟩
    exact ⟨ds.length, fun c hc => (hrange c).mpr (ds.digits c hc)⟩

private theorem mem_fraction {w : List Char} :
    w ∈ (literal ['.'] * oneOrMore (oneOf (charRange '0' '9')) + 1).matches' ↔
      w = [] ∨ ∃ digits, digits ≠ [] ∧ (∀ c ∈ digits, c.isDigit = true) ∧ w = '.' :: digits := by
  have hrange : ∀ c, c ∈ charRange '0' '9' ↔ c.isDigit = true := by
    intro c
    rw [mem_charRange (by decide), Char.isDigit, Bool.and_eq_true, decide_eq_true_eq, decide_eq_true_eq]
    rfl
  rw [RegularExpression.matches'_add, Language.mem_add, RegularExpression.matches'_mul, Language.mem_mul]
  constructor
  · rintro (⟨u, hu, v, hv, rfl⟩ | hnil)
    · obtain ⟨hne, hdigits⟩ := mem_oneOrMore_oneOf.mp hv
      rw [mem_literal.mp hu]
      exact .inr ⟨v, hne, fun c hc => (hrange c).mp (hdigits c hc), rfl⟩
    · exact .inl hnil
  · rintro (rfl | ⟨digits, hne, hdigits, rfl⟩)
    · exact .inr rfl
    · exact .inl ⟨['.'], mem_literal.mpr rfl, digits,
        mem_oneOrMore_oneOf.mpr ⟨hne, fun c hc => (hrange c).mpr (hdigits c hc)⟩, rfl⟩

private theorem mem_zone {w : List Char} :
    w ∈ (oneOf ['Z', 'z'] + oneOf ['+', '-'] * oneOf (charRange '0' '9') ^ 2 * literal [':'] *
      oneOf (charRange '0' '9') ^ 2).matches' ↔ ∃ zone : Zone, zone.text = w := by
  rw [RegularExpression.matches'_add, Language.mem_add]
  simp only [RegularExpression.matches'_mul]
  constructor
  · rintro (hutc | hoffset)
    · obtain ⟨z, hz, rfl⟩ := mem_oneOf.mp hutc
      exact ⟨.utc z (by simpa using hz), rfl⟩
    · obtain ⟨_, ⟨_, ⟨u, hu, v, hv, rfl⟩, x, hx, rfl⟩, y, hy, rfl⟩ := hoffset
      obtain ⟨sign, hsign, rfl⟩ := mem_oneOf.mp hu
      obtain ⟨hour, rfl⟩ := mem_digits.mp hv
      obtain ⟨minute, rfl⟩ := mem_digits.mp hy
      rw [mem_literal.mp hx]
      exact ⟨.offset sign (by simpa using hsign) hour minute, rfl⟩
  · rintro ⟨zone, rfl⟩
    rcases zone with ⟨z, hz⟩ | ⟨sign, hsign, hour, minute⟩
    · exact .inl (mem_oneOf.mpr ⟨z, by simpa using hz, rfl⟩)
    · exact .inr (Language.append_mem_mul (Language.append_mem_mul (Language.append_mem_mul
        (mem_oneOf.mpr ⟨sign, by simpa using hsign, rfl⟩) (mem_digits.mpr ⟨hour, rfl⟩)) (mem_literal.mpr rfl))
        (mem_digits.mpr ⟨minute, rfl⟩))

/-- The expression matches the timestamps of the grammar and no other text. -/
theorem mem_rfc3339Regex {s : List Char} : s ∈ rfc3339Regex.matches' ↔ ∃ t : Timestamp, t.text = s := by
  unfold rfc3339Regex
  simp only [RegularExpression.matches'_mul]
  constructor
  · rintro ⟨_, ⟨_, ⟨_, ⟨_, ⟨_, ⟨_, ⟨_, ⟨_, ⟨_, ⟨_, ⟨_, ⟨y, hy, h1, hh1, rfl⟩, mo, hmo, rfl⟩, h2, hh2, rfl⟩, d, hd, rfl⟩, sep, hsep,
      rfl⟩, h, hh, rfl⟩, c1, hc1, rfl⟩, mi, hmi, rfl⟩, c2, hc2, rfl⟩, se, hse, rfl⟩, fr, hfr, rfl⟩, zo, hzo, rfl⟩
    obtain ⟨year, rfl⟩ := mem_digits.mp hy
    obtain ⟨month, rfl⟩ := mem_digits.mp hmo
    obtain ⟨day, rfl⟩ := mem_digits.mp hd
    obtain ⟨hour, rfl⟩ := mem_digits.mp hh
    obtain ⟨minute, rfl⟩ := mem_digits.mp hmi
    obtain ⟨second, rfl⟩ := mem_digits.mp hse
    obtain ⟨separator, hseparator, rfl⟩ := mem_oneOf.mp hsep
    obtain ⟨zone, rfl⟩ := mem_zone.mp hzo
    rw [mem_literal.mp hh1, mem_literal.mp hh2, mem_literal.mp hc1, mem_literal.mp hc2]
    exact ⟨⟨year, month, day, separator, hour, minute, second, fr, zone, by simpa using hseparator,
      mem_fraction.mp hfr⟩, rfl⟩
  · rintro ⟨t, rfl⟩
    have hdash : ['-'] ∈ (literal ['-']).matches' := mem_literal.mpr rfl
    have hcolon : [':'] ∈ (literal [':']).matches' := mem_literal.mpr rfl
    have hseparator : [t.separator] ∈ (oneOf ['T', 't']).matches' :=
      mem_oneOf.mpr ⟨t.separator, by simpa using t.hseparator, rfl⟩
    have hyear := mem_digits.mpr ⟨t.year, rfl⟩
    have hmonth := mem_digits.mpr ⟨t.month, rfl⟩
    have hday := mem_digits.mpr ⟨t.day, rfl⟩
    have hhour := mem_digits.mpr ⟨t.hour, rfl⟩
    have hminute := mem_digits.mpr ⟨t.minute, rfl⟩
    have hsecond := mem_digits.mpr ⟨t.second, rfl⟩
    exact Language.append_mem_mul (Language.append_mem_mul (Language.append_mem_mul (Language.append_mem_mul
      (Language.append_mem_mul (Language.append_mem_mul (Language.append_mem_mul (Language.append_mem_mul
      (Language.append_mem_mul (Language.append_mem_mul (Language.append_mem_mul (Language.append_mem_mul
      hyear hdash) hmonth) hdash) hday) hseparator) hhour) hcolon) hminute) hcolon) hsecond)
      (mem_fraction.mpr t.hfraction)) (mem_zone.mpr ⟨t.zone, rfl⟩)

end

private theorem Digits.eq_two (ds : Digits 2) : ∃ a b, ds.chars = [a, b] := List.length_eq_two.mp ds.length

private theorem Digits.eq_four (ds : Digits 4) : ∃ a b c d, ds.chars = [a, b, c, d] := by
  rcases ds with ⟨chars, hlength, -⟩
  obtain ⟨a, rest, rfl, hrest⟩ := List.length_eq_succ_iff.mp hlength
  obtain ⟨b, c, d, rfl⟩ := List.length_eq_three.mp hrest
  exact ⟨a, b, c, d, rfl⟩

/-- The end of a text from which the groups of the offset are taken. -/
theorem zone_groups (front : List Char) (zone : Zone) :
    let s := front ++ zone.text
    let offset := if s.getLast? = some 'Z' ∨ s.getLast? = some 'z' then [] else s.drop (s.length - 6)
    (offset.take 1, (offset.drop 1).take 2, (offset.drop 4).take 2) = zone.groups := by
  rcases zone with ⟨z, hz⟩ | ⟨sign, hsign, hour, minute⟩
  · have hlast : (front ++ [z]).getLast? = some z := List.getLast?_concat ..
    dsimp only [Zone.text]
    rw [hlast, if_pos (by simpa using hz)]
    rfl
  · obtain ⟨a, b, hhour⟩ := hour.eq_two
    obtain ⟨c, d, hminute⟩ := minute.eq_two
    have hd : d.isDigit = true := minute.digits d (by simp [hminute])
    have htext : (Zone.offset sign hsign hour minute).text = [sign, a, b, ':', c, d] := by
      simp [Zone.text, hhour, hminute]
    have hlast : (front ++ [sign, a, b, ':', c, d]).getLast? = some d := by simp
    have hletter : ¬(some d = some 'Z' ∨ some d = some 'z') := by
      rintro (h | h)
      · rw [Option.some.inj h] at hd
        exact absurd hd (by decide)
      · rw [Option.some.inj h] at hd
        exact absurd hd (by decide)
    have hlength : (front ++ [sign, a, b, ':', c, d]).length - 6 = front.length := by simp
    dsimp only
    rw [htext, hlast, if_neg hletter, hlength, List.drop_left]
    simp [Zone.groups, hhour, hminute]

private theorem matchRfc3339_text (t : Timestamp) : matchRfc3339 t.text = some t.groups := by
  have hmatch : Regex.matchAll rfc3339Regex t.text = true := Regex.matchAll_iff.mpr (mem_rfc3339Regex.mpr ⟨t, rfl⟩)
  unfold matchRfc3339
  rw [if_pos hmatch]
  obtain ⟨y₁, y₂, y₃, y₄, hyear⟩ := t.year.eq_four
  obtain ⟨mo₁, mo₂, hmonth⟩ := t.month.eq_two
  obtain ⟨d₁, d₂, hday⟩ := t.day.eq_two
  obtain ⟨h₁, h₂, hhour⟩ := t.hour.eq_two
  obtain ⟨mi₁, mi₂, hminute⟩ := t.minute.eq_two
  obtain ⟨s₁, s₂, hsecond⟩ := t.second.eq_two
  have hzone := zone_groups (t.year.chars ++ ['-'] ++ t.month.chars ++ ['-'] ++ t.day.chars ++ [t.separator] ++
    t.hour.chars ++ [':'] ++ t.minute.chars ++ [':'] ++ t.second.chars ++ t.fraction) t.zone
  dsimp only at hzone
  rw [← Timestamp.text, Prod.ext_iff, Prod.ext_iff] at hzone
  obtain ⟨hsign, htzHour, htzMinute⟩ := hzone
  dsimp only at hsign htzHour htzMinute ⊢
  rw [hsign, htzHour, htzMinute]
  have htext : t.text = y₁ :: y₂ :: y₃ :: y₄ :: '-' :: mo₁ :: mo₂ :: '-' :: d₁ :: d₂ :: t.separator :: h₁ :: h₂ :: ':' ::
      mi₁ :: mi₂ :: ':' :: s₁ :: s₂ :: (t.fraction ++ t.zone.text) := by
    simp [Timestamp.text, hyear, hmonth, hday, hhour, hminute, hsecond]
  rw [htext, Timestamp.groups, hyear, hmonth, hday, hhour, hminute, hsecond]
  rfl

private theorem exists_of_match {s : List Char} {g : Groups} (h : matchRfc3339 s = some g) :
    ∃ t : Timestamp, t.text = s ∧ t.groups = g := by
  have hmatch : Regex.matchAll rfc3339Regex s = true := by
    by_contra hno
    rw [matchRfc3339, if_neg hno] at h
    cases h
  obtain ⟨t, rfl⟩ := mem_rfc3339Regex.mp (Regex.matchAll_iff.mp hmatch)
  rw [matchRfc3339_text] at h
  exact ⟨t, rfl, Option.some.inj h⟩

/-! ### The fields -/

namespace Groups

def number (digits : List Char) : Nat := Nat.ofDigitChars 10 digits 0

def offsetMinutes (g : Groups) : Int :=
  (if g.sign = ['-'] then -1 else 1) * (number g.tzHour * 60 + number g.tzMinute)

def SupportedDate (g : Groups) : Prop := Supported (number g.year) (number g.month) (number g.day)

instance (g : Groups) : Decidable g.SupportedDate := inferInstanceAs (Decidable (Supported _ _ _))

/-- The constructor refuses the offset. -/
def OffsetRefused (g : Groups) : Prop := g.offsetMinutes ≤ -1440 ∨ 1440 < g.offsetMinutes

instance (g : Groups) : Decidable g.OffsetRefused := inferInstanceAs (Decidable (_ ∨ _))

structure TimeInRange (g : Groups) : Prop where
  hour : number g.hour ≤ 23
  minute : number g.minute ≤ 59
  second : number g.second ≤ 60
  tzHour : number g.tzHour ≤ 23
  tzMinute : number g.tzMinute ≤ 59

instance (g : Groups) : Decidable g.TimeInRange :=
  decidable_of_iff (number g.hour ≤ 23 ∧ number g.minute ≤ 59 ∧ number g.second ≤ 60 ∧ number g.tzHour ≤ 23 ∧
    number g.tzMinute ≤ 59)
    ⟨fun ⟨hhour, hminute, hsecond, htzHour, htzMinute⟩ => ⟨hhour, hminute, hsecond, htzHour, htzMinute⟩,
      fun h => ⟨h.hour, h.minute, h.second, h.tzHour, h.tzMinute⟩⟩

/-- The leap second after which no date is supported. -/
def IsLast (g : Groups) : Prop :=
  (number g.year = 9999 ∧ number g.month = 12 ∧ number g.day = 31) ∧
    number g.hour = 23 ∧ number g.minute = 59 ∧ number g.second = 60

instance (g : Groups) : Decidable g.IsLast := inferInstanceAs (Decidable ((_ ∧ _ ∧ _) ∧ _))

/-- The seconds of the day. -/
def seconds (g : Groups) : Nat := 3600 * number g.hour + 60 * number g.minute + number g.second

def dayNumber (g : Groups) : Nat := Gregorian.dayNumber (number g.year) (number g.month) (number g.day)

end Groups

/-- The groups of the offset are empty, or a sign and two numbers. -/
theorem Timestamp.offset_groups (t : Timestamp) :
    (t.groups.sign = [] ∧ t.groups.tzHour = [] ∧ t.groups.tzMinute = []) ∨
    ∃ (sign : Char) (hour minute : Digits 2), (sign = '+' ∨ sign = '-') ∧ t.groups.sign = [sign] ∧
      t.groups.tzHour = hour.chars ∧ t.groups.tzMinute = minute.chars := by
  rcases t with ⟨_, _, _, _, _, _, _, _, zone, _, _⟩
  rcases zone with ⟨z, hz⟩ | ⟨sign, hsign, hour, minute⟩
  · exact .inl ⟨rfl, rfl, rfl⟩
  · exact .inr ⟨sign, hour, minute, hsign, rfl, rfl, rfl⟩

private theorem stoi_digits {n : Nat} (ds : Digits n) (hpos : 0 < n) (hn : n ≤ 4) : stoi ds.chars = .ok (ds.value : Int) := by
  have hne : ds.chars ≠ [] := List.ne_nil_of_length_pos (by rw [ds.length]; exact hpos)
  have hlt := ds.value_lt
  have hpow : 10 ^ n ≤ 10 ^ 4 := Nat.pow_le_pow_right (by decide) hn
  unfold stoi
  rw [leadingNumber_digits ds.digits hne]
  dsimp only
  rw [if_pos ⟨by omega, by unfold Digits.value at hlt; omega⟩]
  rfl

private theorem numericCastSigned_ok {width : Nat} {n : Int} (hlow : -2 ^ (width - 1) ≤ n) (hhigh : n < 2 ^ (width - 1)) :
    numericCastSigned width n = .ok n := by
  unfold numericCastSigned
  rw [if_neg (by omega), if_pos hhigh]

namespace DateTime

variable {B : DateLibrary}

/-- The offset of `Z` is 0, and those of the other zones have four digits. -/
theorem readOffset_text (t : Timestamp) : readOffset t.groups = .ok t.groups.offsetMinutes ∧
    -6039 ≤ t.groups.offsetMinutes ∧ t.groups.offsetMinutes ≤ 6039 := by
  unfold readOffset
  unfold Groups.offsetMinutes
  rcases t.offset_groups with ⟨hsign, hhour, hminute⟩ | ⟨sign, hour, minute, hplus, hsign, hhour, hminute⟩
  · rw [hsign, hhour, hminute]
    exact ⟨rfl, by decide, by decide⟩
  · have hstoi : stoi hour.chars = .ok (Groups.number hour.chars : Int) := stoi_digits hour (by decide) (by decide)
    have hstoi' : stoi minute.chars = .ok (Groups.number minute.chars : Int) :=
      stoi_digits minute (by decide) (by decide)
    have hlt : Groups.number hour.chars < 100 := hour.value_lt
    have hlt' : Groups.number minute.chars < 100 := minute.value_lt
    rw [hsign, hhour, hminute, hstoi, hstoi']
    rcases hplus with rfl | rfl
    · rw [if_pos rfl, if_neg (by decide : ¬['+'] = ['-'])]
      exact ⟨rfl, by omega, by omega⟩
    · rw [if_pos rfl, if_pos (by decide : (!List.isEmpty ['-']) = true)]
      exact ⟨rfl, by omega, by omega⟩

/-- No conversion fails on what the expression captures. -/
theorem conversions (t : Timestamp) :
    (stoi t.groups.year = .ok (t.year.value : Int) ∧ numericCastSigned 16 t.year.value = .ok (t.year.value : Int)) ∧
    (∀ ds : Digits 2, stoi ds.chars = .ok (ds.value : Int) ∧ numericCastSigned 8 ds.value = .ok (ds.value : Int)) ∧
    numericCastSigned 16 t.groups.offsetMinutes = .ok t.groups.offsetMinutes := by
  refine ⟨⟨stoi_digits t.year (by decide) (by decide), ?_⟩, fun ds => ⟨stoi_digits ds (by decide) (by decide), ?_⟩, ?_⟩
  · have := t.year.value_lt
    exact numericCastSigned_ok (by omega) (by omega)
  · have := ds.value_lt
    exact numericCastSigned_ok (by omega) (by omega)
  · obtain ⟨-, hlow, hhigh⟩ := readOffset_text t
    exact numericCastSigned_ok (by omega) (by omega)

private theorem ofString_text (B : DateLibrary) (t : Timestamp) :
    ofString B t.text = ofFields B t.year.value t.month.value t.day.value t.hour.value t.minute.value t.second.value
      t.groups.offsetMinutes := by
  have hne : ¬t.text.isEmpty = true := by
    obtain ⟨a, b, c, d, hyear⟩ := t.year.eq_four
    simp [Timestamp.text, hyear]
  obtain ⟨⟨hyear, hyear'⟩, htwo, hoffset'⟩ := conversions t
  have hoffset := (readOffset_text t).1
  have hmonth : stoi t.groups.month = .ok (t.month.value : Int) := (htwo t.month).1
  have hday : stoi t.groups.day = .ok (t.day.value : Int) := (htwo t.day).1
  have hhour : stoi t.groups.hour = .ok (t.hour.value : Int) := (htwo t.hour).1
  have hminute : stoi t.groups.minute = .ok (t.minute.value : Int) := (htwo t.minute).1
  have hsecond : stoi t.groups.second = .ok (t.second.value : Int) := (htwo t.second).1
  have hmatch := matchRfc3339_text t
  generalize t.text = s at hmatch hne ⊢
  generalize t.groups = g at *
  rw [ofString, if_neg hne, hmatch]
  dsimp only
  rw [hyear, ok_bind, hmonth, ok_bind, hday, ok_bind, hhour, ok_bind, hminute, ok_bind, hsecond, ok_bind, hoffset,
    ok_bind, hyear', ok_bind, (htwo t.month).2, ok_bind, (htwo t.day).2, ok_bind, (htwo t.hour).2, ok_bind,
    (htwo t.minute).2, ok_bind, (htwo t.second).2, ok_bind, hoffset', ok_bind]

/-- What the constructor makes of a supported date. -/
theorem ofFields_supported (hB : B.Documented) {year month day : Nat} (hdate : Supported year month day)
    (hour minute second : Nat) (tzOffsetMinutes : Int) :
    ofFields B year month day hour minute second tzOffsetMinutes =
      if tzOffsetMinutes ≤ -1440 ∨ 1440 < tzOffsetMinutes then
        .error (.invalidDateTime "Not a valid RFC 3339 timestamp: timezone out of range")
      else .ok {
        dateTime := some (86400 * Gregorian.dayNumber year month day + (3600 * hour + 60 * minute + second : Nat))
        tzOffset := 60 * tzOffsetMinutes } := by
  unfold ofFields
  rw [hB.date year month day hdate, ofBoost, ok_bind]
  dsimp only
  have hiff : (minutes tzOffsetMinutes ≤ hours (-24) ∨ minutes tzOffsetMinutes > hours 24) ↔
      (tzOffsetMinutes ≤ -1440 ∨ 1440 < tzOffsetMinutes) := by
    unfold minutes hours
    omega
  simp only [hiff]
  rw [if_neg (by simp)]
  split
  · rfl
  · have hsum : hours hour + minutes minute + second = (3600 * hour + 60 * minute + second : Nat) := by
      unfold hours minutes
      omega
    rw [hsum]
    rfl

/-- What the constructor makes of a timestamp: boost's exception, a refused offset, or a value. -/
theorem ofString_cases (hB : B.Documented) (t : Timestamp) :
    (¬t.groups.SupportedDate ∧ ∃ message, ofString B t.text = .error (.outOfRange message)) ∨
    (t.groups.SupportedDate ∧ t.groups.OffsetRefused ∧ ofString B t.text =
      .error (.invalidDateTime "Not a valid RFC 3339 timestamp: timezone out of range")) ∨
    (t.groups.SupportedDate ∧ ¬t.groups.OffsetRefused ∧ ofString B t.text = .ok {
      dateTime := some (86400 * t.groups.dayNumber + t.groups.seconds)
      tzOffset := 60 * t.groups.offsetMinutes }) := by
  rw [ofString_text]
  by_cases hdate : t.groups.SupportedDate
  · right
    have hfields := ofFields_supported hB hdate t.hour.value t.minute.value t.second.value t.groups.offsetMinutes
    by_cases hrefused : t.groups.OffsetRefused
    · exact .inl ⟨hdate, hrefused, hfields.trans (if_pos hrefused)⟩
    · exact .inr ⟨hdate, hrefused, hfields.trans (if_neg hrefused)⟩
  · left
    obtain ⟨message, hmessage⟩ := hB.dateError _ _ _ hdate
    refine ⟨hdate, message, ?_⟩
    unfold ofFields
    have hmessage' : B.date t.year.value t.month.value t.day.value = .error message := hmessage
    rw [hmessage', ofBoost, error_bind]

/-- A text that the constructor refuses in the two ways that it names. -/
theorem ofString_of_not_match (B : DateLibrary) {s : List Char} (h : ∀ t : Timestamp, t.text ≠ s) :
    ofString B s = .error .emptyDateTime ∨
      ofString B s = .error (.invalidDateTime "Not a valid RFC 3339 timestamp: bad format") := by
  unfold ofString
  split
  · exact .inl rfl
  · split
    · next g hg =>
      obtain ⟨t, ht, -⟩ := exists_of_match hg
      exact absurd ht (h t)
    · exact .inr rfl

/-! ### The text of a value -/

/-- A number as digits. -/
def digitsOf (width n : Nat) (hpos : 0 < width) (h : n < 10 ^ width) : Digits width where
  chars := padded width n
  length := (Strings.padLeft_toDigits n width hpos h).1
  digits := (Strings.padLeft_toDigits n width hpos h).2.1

private theorem value_digitsOf {width n : Nat} (hpos : 0 < width) (h : n < 10 ^ width) :
    Nat.ofDigitChars 10 (digitsOf width n hpos h).chars 0 = n :=
  (Strings.padLeft_toDigits n width hpos h).2.2

/-- A value with a supported day is written as a timestamp of its own fields. -/
theorem toString_supported (hB : B.Documented) {year month day r : Nat} {k : Int}
    (hdate : Supported year month day) (hr : r < 86400) (hk : -6000 < k ∧ k < 6000) :
    ∃ t : Timestamp,
      toString B { dateTime := some (86400 * Gregorian.dayNumber year month day + r), tzOffset := 60 * k } = .ok t.text ∧
      Groups.number t.groups.year = year ∧ Groups.number t.groups.month = month ∧ Groups.number t.groups.day = day ∧
      t.groups.seconds = r ∧ t.groups.offsetMinutes = k := by
  have hmonth := (Gregorian.month_of_isDate hdate.2).2
  have hday : day ≤ 31 := Nat.le_trans hdate.2.2 (Gregorian.daysInMonth_le year month)
  have hyear := hdate.1.2
  let sign := if 60 * k ≥ 0 then '+' else '-'
  let offset := (60 * k).natAbs
  have hsign : sign = '+' ∨ sign = '-' := by
    by_cases h : 60 * k ≥ 0
    · exact .inl (if_pos h)
    · exact .inr (if_neg h)
  have hoffset : offset / 60 / 60 < 100 := by omega
  -- the text that is printed, with the digits of each field
  let t : Timestamp := {
    year := digitsOf 4 year (by decide) (by omega)
    month := digitsOf 2 month (by decide) (by omega)
    day := digitsOf 2 day (by decide) (by omega)
    separator := 'T'
    hour := digitsOf 2 (r / 3600) (by decide) (by omega)
    minute := digitsOf 2 (r / 60 % 60) (by decide) (by omega)
    second := digitsOf 2 (r % 60) (by decide) (by omega)
    fraction := []
    zone := .offset sign hsign (digitsOf 2 (offset / 60 / 60) (by decide) hoffset)
      (digitsOf 2 (offset / 60 % 60) (by decide) (by omega))
    hseparator := .inl rfl
    hfraction := .inl rfl }
  refine ⟨t, ?_, value_digitsOf (by decide) (by omega), value_digitsOf (by decide) (by omega),
    value_digitsOf (by decide) (by omega), ?_, ?_⟩
  · have hdiv : (86400 * (Gregorian.dayNumber year month day : Int) + r) / 86400 = Gregorian.dayNumber year month day := by
      omega
    have hmod : ((86400 * (Gregorian.dayNumber year month day : Int) + r) % 86400).toNat = r := by omega
    unfold toString
    dsimp only
    rw [hdiv, hmod, hB.ymd year month day hdate, ofBoost, ok_bind]
    simp [t, Timestamp.text, Zone.text, digitsOf, sign, offset]
    rfl
  · have hhour : Groups.number t.groups.hour = r / 3600 := value_digitsOf (by decide) (by omega)
    have hminute : Groups.number t.groups.minute = r / 60 % 60 := value_digitsOf (by decide) (by omega)
    have hsecond : Groups.number t.groups.second = r % 60 := value_digitsOf (by decide) (by omega)
    unfold Groups.seconds
    rw [hhour, hminute, hsecond]
    omega
  · have hhour : Groups.number t.groups.tzHour = offset / 60 / 60 := value_digitsOf (by decide) (by omega)
    have hminute : Groups.number t.groups.tzMinute = offset / 60 % 60 := value_digitsOf (by decide) (by omega)
    have hsign' : t.groups.sign = [sign] := rfl
    unfold Groups.offsetMinutes
    rw [hhour, hminute, hsign']
    by_cases h : 60 * k ≥ 0
    · have hplus : sign = '+' := if_pos h
      rw [hplus, if_neg (by decide)]
      omega
    · have hminus : sign = '-' := if_neg h
      rw [hminus, if_pos rfl]
      omega

/-- A value with a supported day and an accepted offset is read back from its text. -/
theorem ofString_toString (hB : B.Documented) {year month day r : Nat} {k : Int} (hdate : Supported year month day)
    (hr : r < 86400) (hk : -1440 < k ∧ k ≤ 1440) :
    ∃ text, toString B { dateTime := some (86400 * Gregorian.dayNumber year month day + r), tzOffset := 60 * k } =
        .ok text ∧
      ofString B text =
        .ok { dateTime := some (86400 * Gregorian.dayNumber year month day + r), tzOffset := 60 * k } := by
  obtain ⟨t, htext, hyear, hmonth, hday, hseconds, hoffset⟩ :=
    toString_supported hB hdate hr (show -6000 < k ∧ k < 6000 by omega)
  refine ⟨t.text, htext, ?_⟩
  have hnumber : t.groups.dayNumber = Gregorian.dayNumber year month day := by
    unfold Groups.dayNumber
    rw [hyear, hmonth, hday]
  rcases ofString_cases hB t with ⟨hno, -⟩ | ⟨-, hrefused, -⟩ | ⟨-, -, h⟩
  · exact absurd (show Supported _ _ _ by rw [hyear, hmonth, hday]; exact hdate) hno
  · unfold Groups.OffsetRefused at hrefused
    rw [hoffset] at hrefused
    omega
  · rw [h, hnumber, hseconds, hoffset]

/-- A time of a supported day with an accepted offset, such as `nowUtc` gives. -/
def IsTime (v : DateTime) : Prop :=
  ∃ year month day r k, Supported year month day ∧ r < 86400 ∧ -1440 < k ∧ k ≤ 1440 ∧
    v = { dateTime := some (86400 * Gregorian.dayNumber year month day + (r : Nat)), tzOffset := 60 * k }

theorem IsTime.ofString_toString (hB : B.Documented) {v : DateTime} (h : v.IsTime) :
    ∃ text, v.toString B = .ok text ∧ ofString B text = .ok v := by
  obtain ⟨year, month, day, r, k, hdate, hr, hlow, hhigh, rfl⟩ := h
  exact DateTime.ofString_toString hB hdate hr ⟨hlow, hhigh⟩

/-! ### When the constructor keeps its promise -/

/-- A timestamp of RFC 3339, with the ranges of its fields. -/
def Rfc3339 (s : List Char) : Prop :=
  ∃ t : Timestamp, t.text = s ∧
    Gregorian.IsDate (Groups.number t.groups.year) (Groups.number t.groups.month) (Groups.number t.groups.day) ∧
    t.groups.TimeInRange

/-- What is asked of the constructor at one text: it fails only with its own exceptions, it accepts only timestamps,
and what it accepts has a text that gives the same instant and offset. -/
structure Meets (B : DateLibrary) (s : List Char) : Prop where
  outcome : ofString B s = .error .emptyDateTime ∨ (∃ message, ofString B s = .error (.invalidDateTime message)) ∨
    ∃ v, ofString B s = .ok v
  form : ∀ v, ofString B s = .ok v → Rfc3339 s
  again : ∀ v, ofString B s = .ok v → ∃ text w, v.toString B = .ok text ∧ ofString B text = .ok w ∧
    w.utc = v.utc ∧ w.tzOffset = v.tzOffset

/-- Where it does: texts in the format have a date that boost supports, and either an offset that is refused, or
fields in range that are not those of the last leap second. -/
def Expected (s : List Char) : Prop :=
  ∀ t : Timestamp, t.text = s → t.groups.SupportedDate ∧
    (t.groups.OffsetRefused ∨ t.groups.TimeInRange ∧ ¬t.groups.IsLast)

/-- Fields in range give less than a day, or a leap second at its end. -/
theorem seconds_of_timeInRange {g : Groups} (h : g.TimeInRange) :
    g.seconds < 86400 ∨
      g.seconds = 86400 ∧ Groups.number g.hour = 23 ∧ Groups.number g.minute = 59 ∧ Groups.number g.second = 60 := by
  obtain ⟨hhour, hminute, hsecond, -, -⟩ := h
  unfold Groups.seconds
  omega

private theorem offset_of_timeInRange {g : Groups} (h : g.TimeInRange) : -1440 < g.offsetMinutes ∧ g.offsetMinutes < 1440 := by
  obtain ⟨-, -, -, hhour, hminute⟩ := h
  unfold Groups.offsetMinutes
  split
  · omega
  · omega

/-- The next day is supported, except after the last one. -/
theorem exists_next_supported {year month day : Nat} (h : Supported year month day)
    (hlast : ¬(year = 9999 ∧ month = 12 ∧ day = 31)) :
    ∃ year' month' day', Supported year' month' day' ∧
      Gregorian.dayNumber year' month' day' = Gregorian.dayNumber year month day + 1 := by
  obtain ⟨year', month', day', hdate, hnumber, hyear⟩ := Gregorian.exists_next h.2
  have hrange := h.1
  exact ⟨year', month', day', ⟨by omega, hdate⟩, hnumber⟩

/-- No day is supported after the last one. -/
theorem dayNumber_le_last {year month day : Nat} (h : Supported year month day) :
    Gregorian.dayNumber year month day ≤ Gregorian.dayNumber 9999 12 31 := by
  have hyear := (Gregorian.daysBeforeMonth_le h.2).2
  have hrange := h.1.2
  have hmono := Gregorian.daysBeforeYear_mono (show year + 1 ≤ 10000 by omega)
  have hend : Gregorian.dayNumber 9999 12 31 = 1721059 + Gregorian.daysBeforeYear 10000 := by decide
  rw [hend]
  unfold Gregorian.dayNumber
  omega

/-- The text of an accepted value whose fields are in range. -/
theorem again_of_timeInRange (hB : B.Documented) {g : Groups} (hdate : g.SupportedDate) (hrange : g.TimeInRange)
    (hlast : ¬g.IsLast) :
    ∃ text, toString B { dateTime := some (86400 * g.dayNumber + g.seconds), tzOffset := 60 * g.offsetMinutes } =
        .ok text ∧
      ofString B text =
        .ok { dateTime := some (86400 * g.dayNumber + g.seconds), tzOffset := 60 * g.offsetMinutes } := by
  have hoffset := offset_of_timeInRange hrange
  have hk : -1440 < g.offsetMinutes ∧ g.offsetMinutes ≤ 1440 := ⟨hoffset.1, by omega⟩
  rcases seconds_of_timeInRange hrange with hlt | ⟨heq, hhour, hminute, hsecond⟩
  · exact ofString_toString hB hdate hlt hk
  · -- the leap second is the first second of the next day
    have hday : ¬(Groups.number g.year = 9999 ∧ Groups.number g.month = 12 ∧ Groups.number g.day = 31) :=
      fun h => hlast ⟨h, hhour, hminute, hsecond⟩
    obtain ⟨year, month, day, hnext, hnumber⟩ := exists_next_supported hdate hday
    have hsum : (86400 * g.dayNumber + g.seconds : Int) = 86400 * Gregorian.dayNumber year month day + (0 : Nat) := by
      rw [heq, hnumber]
      unfold Groups.dayNumber
      omega
    rw [hsum]
    exact ofString_toString hB hnext (by decide) hk

/-- The last leap second has no text. -/
theorem toString_last (hB : B.Documented) {g : Groups} (hlast : g.IsLast) :
    ∃ message, toString B { dateTime := some (86400 * g.dayNumber + g.seconds), tzOffset := 60 * g.offsetMinutes } =
      .error (.outOfRange message) := by
  obtain ⟨⟨hyear, hmonth, hday⟩, hhour, hminute, hsecond⟩ := hlast
  have hseconds : g.seconds = 86400 := by
    unfold Groups.seconds
    rw [hhour, hminute, hsecond]
  have hnumber : g.dayNumber = Gregorian.dayNumber 9999 12 31 := by
    unfold Groups.dayNumber
    rw [hyear, hmonth, hday]
  have hdiv : (86400 * (Gregorian.dayNumber 9999 12 31 : Int) + (86400 : Nat)) / 86400 =
      Gregorian.dayNumber 9999 12 31 + 1 := by omega
  have hnone : ∀ year month day, Supported year month day →
      (Gregorian.dayNumber year month day : Int) ≠ Gregorian.dayNumber 9999 12 31 + 1 := by
    intro year month day h
    have := dayNumber_le_last h
    omega
  obtain ⟨message, hmessage⟩ := hB.ymdError _ hnone
  refine ⟨message, ?_⟩
  unfold toString
  dsimp only
  rw [hnumber, hseconds, hdiv, hmessage, ofBoost, error_bind]

private theorem groups_of_text_eq {t t' : Timestamp} (h : t.text = t'.text) : t.groups = t'.groups := by
  have := matchRfc3339_text t
  rw [h, matchRfc3339_text] at this
  exact (Option.some.inj this).symm

/-- A text that is refused with one of the constructor's own exceptions. -/
theorem Meets.of_error {s : List Char} {e : Exn} (h : ofString B s = .error e)
    (he : e = .emptyDateTime ∨ ∃ message, e = .invalidDateTime message) : Meets B s := by
  have hnone : ∀ v, ofString B s ≠ .ok v := by
    intro v hv
    rw [h] at hv
    cases hv
  refine ⟨?_, fun v hv => absurd hv (hnone v), fun v hv => absurd hv (hnone v)⟩
  rcases he with rfl | ⟨message, rfl⟩
  · exact .inl h
  · exact .inr (.inl ⟨message, h⟩)

private theorem meets_iff (hB : B.Documented) (s : List Char) : Meets B s ↔ Expected s := by
  constructor
  · rintro ⟨houtcome, hform, hagain⟩ t rfl
    rcases ofString_cases hB t with ⟨-, message, h⟩ | ⟨hdate, hrefused, -⟩ | ⟨hdate, -, h⟩
    · rw [h] at houtcome
      rcases houtcome with h' | ⟨_, h'⟩ | ⟨_, h'⟩
      · cases h'
      · cases h'
      · cases h'
    · exact ⟨hdate, .inl hrefused⟩
    · obtain ⟨t', htext, -, hrange⟩ := hform _ h
      rw [groups_of_text_eq htext] at hrange
      refine ⟨hdate, .inr ⟨hrange, fun hlast => ?_⟩⟩
      obtain ⟨message, hmessage⟩ := toString_last hB hlast
      obtain ⟨text, w, htext', -⟩ := hagain _ h
      rw [hmessage] at htext'
      cases htext'
  · intro hexpected
    by_cases hmatch : ∃ t : Timestamp, t.text = s
    · obtain ⟨t, rfl⟩ := hmatch
      obtain ⟨hdate, hfields⟩ := hexpected t rfl
      rcases ofString_cases hB t with ⟨hno, -⟩ | ⟨-, -, h⟩ | ⟨-, haccepted, h⟩
      · exact absurd hdate hno
      · exact .of_error h (.inr ⟨_, rfl⟩)
      · rcases hfields with hrefused | ⟨hrange, hlast⟩
        · exact absurd hrefused haccepted
        · refine ⟨.inr (.inr ⟨_, h⟩), fun v _ => ⟨t, rfl, hdate.2, hrange⟩, ?_⟩
          intro v hv
          rw [h] at hv
          cases hv
          obtain ⟨text, htext, hread⟩ := again_of_timeInRange hB hdate hrange hlast
          exact ⟨text, _, htext, hread, rfl, rfl⟩
    · have hno : ∀ t : Timestamp, t.text ≠ s := fun t ht => hmatch ⟨t, ht⟩
      rcases ofString_of_not_match B hno with h | h
      · exact .of_error h (.inl rfl)
      · exact .of_error h (.inr ⟨_, rfl⟩)

/-! ### The order -/

/-- Seconds of universal time. -/
def instant (v : DateTime) : Int := v.dateTime.getD 0 - v.tzOffset

/-- The comparisons compare instants. -/
theorem compare_instants {v w : DateTime} (hv : v.dateTime.isSome = true) (hw : w.dateTime.isSome = true) :
    v.eq w = .ok (decide (v.instant = w.instant)) ∧ v.lt w = .ok (decide (v.instant < w.instant)) ∧
      v.gt w = .ok (decide (v.instant > w.instant)) ∧ v.le w = .ok (decide (v.instant ≤ w.instant)) ∧
      v.ge w = .ok (decide (v.instant ≥ w.instant)) := by
  have hutc : ∀ u : DateTime, u.dateTime.isSome = true → u.utc = .ok u.instant := by
    intro u hu
    obtain ⟨dateTime, hdateTime⟩ := Option.isSome_iff_exists.mp hu
    unfold utc instant
    rw [hdateTime]
    rfl
  have heq : v.eq w = .ok (decide (v.instant = w.instant)) := by
    have hnone : ¬(v.dateTime.isNone || w.dateTime.isNone) = true := by
      rw [Option.isNone_eq_false_iff.mpr hv, Option.isNone_eq_false_iff.mpr hw]
      decide
    unfold eq
    rw [if_neg hnone, hutc v hv, hutc w hw]
    rfl
  have hlt : v.lt w = .ok (decide (v.instant < w.instant)) := by
    unfold lt
    rw [hutc v hv, hutc w hw]
    rfl
  have hgt : v.gt w = .ok (decide (v.instant > w.instant)) := by
    unfold gt
    rw [hutc v hv, hutc w hw]
    rfl
  refine ⟨heq, hlt, hgt, ?_, ?_⟩
  · unfold le
    rw [heq, ok_bind, hlt]
    by_cases h : v.instant = w.instant
    · rw [if_pos (decide_eq_true h), decide_eq_true (le_of_eq h)]
      rfl
    · have hiff : v.instant < w.instant ↔ v.instant ≤ w.instant := by omega
      rw [if_neg (by simpa using h), decide_eq_decide.mpr hiff]
  · unfold ge
    rw [heq, ok_bind, hgt]
    by_cases h : v.instant = w.instant
    · rw [if_pos (decide_eq_true h), decide_eq_true (ge_of_eq h)]
      rfl
    · have hiff : v.instant > w.instant ↔ v.instant ≥ w.instant := by omega
      rw [if_neg (by simpa using h), decide_eq_decide.mpr hiff]

/-- The instant of an accepted text. -/
theorem instant_of_accepted (hB : B.Documented) {s : List Char} {v : DateTime} (h : ofString B s = .ok v) :
    ∃ t : Timestamp, t.text = s ∧ v.dateTime.isSome = true ∧
      v.instant = 86400 * t.groups.dayNumber + t.groups.seconds - 60 * t.groups.offsetMinutes := by
  by_cases hmatch : ∃ t : Timestamp, t.text = s
  · obtain ⟨t, rfl⟩ := hmatch
    refine ⟨t, rfl, ?_⟩
    rcases ofString_cases hB t with ⟨-, message, h'⟩ | ⟨-, -, h'⟩ | ⟨-, -, h'⟩
    · rw [h'] at h
      cases h
    · rw [h'] at h
      cases h
    · rw [h'] at h
      cases h
      exact ⟨rfl, rfl⟩
  · rcases ofString_of_not_match B (fun t ht => hmatch ⟨t, ht⟩) with h' | h'
    · rw [h'] at h
      cases h
    · rw [h'] at h
      cases h

/-- Timestamps: where the constructor does what is asked of it, and the order of what it accepts. -/
theorem timestamps (hB : B.Documented) :
    (∀ s, Meets B s ↔ Expected s) ∧
    (∀ s v, ofString B s = .ok v → ∃ t : Timestamp, t.text = s ∧
      v.instant = 86400 * t.groups.dayNumber + t.groups.seconds - 60 * t.groups.offsetMinutes) ∧
    (∀ s s' v w, ofString B s = .ok v → ofString B s' = .ok w →
      v.eq w = .ok (decide (v.instant = w.instant)) ∧ v.lt w = .ok (decide (v.instant < w.instant)) ∧
        v.gt w = .ok (decide (v.instant > w.instant)) ∧ v.le w = .ok (decide (v.instant ≤ w.instant)) ∧
        v.ge w = .ok (decide (v.instant ≥ w.instant))) := by
  refine ⟨meets_iff hB, ?_, ?_⟩
  · intro s v h
    obtain ⟨t, htext, -, hinstant⟩ := instant_of_accepted hB h
    exact ⟨t, htext, hinstant⟩
  · intro s s' v w hv hw
    obtain ⟨-, -, hv', -⟩ := instant_of_accepted hB hv
    obtain ⟨-, -, hw', -⟩ := instant_of_accepted hB hw
    exact compare_instants hv' hw'

end DateTime

/-! ### A library of dates -/

/-- The dates of the calendar, with boost's range and messages. -/
def DateLibrary.gregorian : DateLibrary where
  date year month day :=
    if Supported year.toNat month.toNat day.toNat then .ok (Gregorian.dayNumber year.toNat month.toNat day.toNat)
    else if year.toNat < 1400 ∨ 9999 < year.toNat then .error "Year is out of valid range: 1400..9999"
    else if month.toNat < 1 ∨ 12 < month.toNat then .error "Month number is out of range 1..12"
    else if day.toNat < 1 ∨ 31 < day.toNat then .error "Day of month value is out of range 1..31"
    else .error "Day of month is not valid for year"
  ymd n :=
    let date := Gregorian.ofDayNumber n.toNat
    if Supported date.1 date.2.1 date.2.2 ∧ (Gregorian.dayNumber date.1 date.2.1 date.2.2 : Int) = n then .ok date
    else .error "Year is out of valid range: 1400..9999"
  special := .ok "not-a-date-time".toList

theorem DateLibrary.gregorian_documented : DateLibrary.gregorian.Documented where
  date year month day h := by
    unfold gregorian
    dsimp only
    rw [Int.toNat_natCast, Int.toNat_natCast, Int.toNat_natCast, if_pos h]
  dateError year month day h := by
    unfold gregorian
    dsimp only
    rw [Int.toNat_natCast, Int.toNat_natCast, Int.toNat_natCast, if_neg h]
    split
    · exact ⟨_, rfl⟩
    · split
      · exact ⟨_, rfl⟩
      · split
        · exact ⟨_, rfl⟩
        · exact ⟨_, rfl⟩
  ymd year month day h := by
    unfold gregorian
    dsimp only
    rw [Int.toNat_natCast, Gregorian.ofDayNumber_dayNumber h.2, if_pos ⟨h, rfl⟩]
  ymdError n h := by
    unfold gregorian
    dsimp only
    rw [if_neg fun hn => h _ _ _ hn.1 hn.2]
    exact ⟨_, rfl⟩

namespace DateTime

/-- A text in the format is judged by its groups. -/
theorem expected_iff {s : List Char} {g : Groups} (h : matchRfc3339 s = some g) :
    Expected s ↔ g.SupportedDate ∧ (g.OffsetRefused ∨ g.TimeInRange ∧ ¬g.IsLast) := by
  obtain ⟨t, rfl, rfl⟩ := exists_of_match h
  constructor
  · intro hexpected
    exact hexpected t rfl
  · intro hfields t' ht'
    rw [groups_of_text_eq ht']
    exact hfields

/-- A leap second with an offset of less than an hour, and one instant with two offsets. -/
theorem timestamps_offsets :
    Meets .gregorian "2024-02-29T23:59:60.25-00:30".toList ∧
    ∃ v w, ofString .gregorian "2024-01-01T19:45:04+02:15".toList = .ok v ∧
      ofString .gregorian "2024-01-01T17:30:04Z".toList = .ok w ∧ v.eq w = .ok true ∧ v.lt w = .ok false := by
  constructor
  · have hmatch : matchRfc3339 "2024-02-29T23:59:60.25-00:30".toList = some
        ⟨['2', '0', '2', '4'], ['0', '2'], ['2', '9'], ['2', '3'], ['5', '9'], ['6', '0'], ['-'], ['0', '0'],
          ['3', '0']⟩ := by decide +kernel
    exact ((timestamps DateLibrary.gregorian_documented).1 _).mpr ((expected_iff hmatch).mpr (by decide +kernel))
  · have hv : ofString .gregorian "2024-01-01T19:45:04+02:15".toList = .ok ⟨some 212570941504, 8100⟩ := by
      decide +kernel
    have hw : ofString .gregorian "2024-01-01T17:30:04Z".toList = .ok ⟨some 212570933404, 0⟩ := by decide +kernel
    obtain ⟨heq, hlt, -⟩ := (timestamps DateLibrary.gregorian_documented).2.2 _ _ _ _ hv hw
    exact ⟨_, _, hv, hw, heq, hlt⟩

/-- An hour that becomes the next day, a month that boost refuses, an offset of a whole day, and a leap second without
a next day. -/
theorem not_meets :
    ¬Meets .gregorian "2024-01-01T24:00:00Z".toList ∧ ¬Meets .gregorian "2024-13-01T00:00:00Z".toList ∧
      ¬Meets .gregorian "2024-01-01T00:00:00+24:00".toList ∧ ¬Meets .gregorian "9999-12-31T23:59:60Z".toList := by
  have hhour : matchRfc3339 "2024-01-01T24:00:00Z".toList = some
      ⟨['2', '0', '2', '4'], ['0', '1'], ['0', '1'], ['2', '4'], ['0', '0'], ['0', '0'], [], [], []⟩ := by
    decide +kernel
  have hmonth : matchRfc3339 "2024-13-01T00:00:00Z".toList = some
      ⟨['2', '0', '2', '4'], ['1', '3'], ['0', '1'], ['0', '0'], ['0', '0'], ['0', '0'], [], [], []⟩ := by
    decide +kernel
  have hoffset : matchRfc3339 "2024-01-01T00:00:00+24:00".toList = some
      ⟨['2', '0', '2', '4'], ['0', '1'], ['0', '1'], ['0', '0'], ['0', '0'], ['0', '0'], ['+'], ['2', '4'],
        ['0', '0']⟩ := by decide +kernel
  have hlast : matchRfc3339 "9999-12-31T23:59:60Z".toList = some
      ⟨['9', '9', '9', '9'], ['1', '2'], ['3', '1'], ['2', '3'], ['5', '9'], ['6', '0'], [], [], []⟩ := by
    decide +kernel
  rw [meets_iff DateLibrary.gregorian_documented, meets_iff DateLibrary.gregorian_documented,
    meets_iff DateLibrary.gregorian_documented, meets_iff DateLibrary.gregorian_documented, expected_iff hhour,
    expected_iff hmonth, expected_iff hoffset, expected_iff hlast]
  decide +kernel

end DateTime

end KulloClient

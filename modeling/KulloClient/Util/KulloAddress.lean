import KulloClient.Util.Json
import KulloClient.Util.Strings

/-!
# Addresses

`KulloAddress` carries the checks of its constructor, so that every value of the type is a valid address.  The two
regular expressions of the constructor are the automata `matchesUsername` and `matchesDomain`.
-/

namespace KulloClient

namespace KulloAddress

def isLower (c : Char) : Bool := 'a' ≤ c && c ≤ 'z'

def isAlnum (c : Char) : Bool := isLower c || c.isDigit

/-- `[a-z0-9]+(?:S[a-z0-9]+)*` for separators `S`; `inRun` says whether the character read last was alphanumeric. -/
def matchesRuns (separator : Char → Bool) (inRun : Bool) : List Char → Bool
  | [] => inRun
  | c :: cs =>
    if isAlnum c then matchesRuns separator true cs
    else inRun && separator c && matchesRuns separator false cs

/-- `USERNAME_REGEX`. -/
def matchesUsername (s : String) : Bool :=
  matchesRuns (fun c => c == '-' || c == '.' || c == '_') false s.toList

/-- The labels of a domain. -/
def labels (s : String) : List (List Char) :=
  s.toList.splitOn '.'

/-- `DOMAIN_REGEX`: at least two labels, of which the last starts with a letter. -/
def matchesDomain (s : String) : Bool :=
  2 ≤ (labels s).length &&
    (labels s).all (matchesRuns (fun c => c == '-') false) &&
    (((labels s).getLast?.bind List.head?).map isLower).getD false

def usernameMaxLength : Nat := 64

def domainMaxLength : Nat := 255

def isUsername (s : String) : Bool :=
  s.length ≤ usernameMaxLength && matchesUsername s

def isDomain (s : String) : Bool :=
  s.length ≤ domainMaxLength && matchesDomain s

end KulloAddress

/-- `KulloAddress`: the user name and the domain, both in lower case and checked. -/
structure KulloAddress where
  username : String
  domain : String
  validUsername : KulloAddress.isUsername username = true
  validDomain : KulloAddress.isDomain domain = true
  -- the label the source measures starts at the dot before it, so the first one may be a character longer
  shortLabels : (KulloAddress.labels domain).tail.all (fun l => l.length ≤ 63) = true
  shortFirstLabel : ((KulloAddress.labels domain).head?.map List.length).getD 0 ≤ 64
  deriving DecidableEq

namespace KulloAddress

def toLower (cs : List Char) : String := String.ofList (cs.map Char.toLower)

/-- `KulloAddress(const std::string &)`. -/
def ofString (address : String) : Except Exn KulloAddress :=
  let cs := address.toList
  if cs.count '#' ≠ 1 then .error (.invalidArgument "KulloAddress(): address must contain exactly one '#'")
  else
    let username := toLower (cs.takeWhile (· ≠ '#'))
    let domain := toLower (cs.dropWhile (· ≠ '#')).tail
    if hu : isUsername username = true then
      if hd : isDomain domain = true then
        -- one is taken off for the dot in front of a label, also for the first one
        if hl : (labels domain).tail.all (fun l => l.length ≤ 63) = true ∧
            ((labels domain).head?.map List.length).getD 0 ≤ 64 then
          .ok ⟨username, domain, hu, hd, hl.1, hl.2⟩
        else .error (.invalidArgument "KulloAddress(): domain label too long")
      else .error (.invalidArgument "KulloAddress(): invalid domain name")
    else .error (.invalidArgument "KulloAddress(): invalid username")

theorem ofString_raises (address : String) :
    Imperative.RaisesOnly (fun e => e.isInvalidArgument = true) (ofString address) := by
  have hrefused : ∀ m, Imperative.RaisesOnly (fun e : Exn => e.isInvalidArgument = true)
      (.error (.invalidArgument m) : Except Exn KulloAddress) := fun m => Imperative.raisesOnly_error.mpr rfl
  unfold ofString
  dsimp only
  refine iteInduction (fun _ => hrefused _) (fun _ => ?_)
  by_cases hu : isUsername (toLower (address.toList.takeWhile (· ≠ '#'))) = true
  · rw [dif_pos hu]
    by_cases hd : isDomain (toLower (address.toList.dropWhile (· ≠ '#')).tail) = true
    · rw [dif_pos hd]
      split
      · exact Imperative.raisesOnly_ok _
      · exact hrefused _
    · rw [dif_neg hd]
      exact hrefused _
  · rw [dif_neg hu]
    exact hrefused _

def toString (a : KulloAddress) : String :=
  a.username ++ "#" ++ a.domain

/-! ### Addresses as text -/

/-- The characters of user names and of domains. -/
def isNameChar (c : Char) : Bool := isAlnum c || c == '-' || c == '.' || c == '_'

private theorem isNameChar_ne {c d : Char} (h : isNameChar c = true) (hd : isNameChar d = false) : c ≠ d := by
  rintro rfl
  rw [h] at hd
  cases hd

private theorem toLower_of_isNameChar {c : Char} (h : isNameChar c = true) : c.toLower = c := by
  unfold Char.toLower
  refine dif_neg ?_
  rintro ⟨hA, hZ⟩
  have hA' : 65 ≤ c.toNat := hA
  have hZ' : c.toNat ≤ 90 := hZ
  simp only [isNameChar, isAlnum, isLower, Char.isDigit, Bool.or_eq_true, Bool.and_eq_true, decide_eq_true_eq,
    beq_iff_eq] at h
  rcases h with (((⟨hl, _⟩ | ⟨_, hd⟩) | rfl) | rfl) | rfl
  · have hl' : 97 ≤ c.toNat := hl
    omega
  · have hd' : c.toNat ≤ 57 := hd
    omega
  · exact absurd hA' (by decide)
  · exact absurd hA' (by decide)
  · exact absurd hZ' (by decide)

private theorem matchesRuns_chars {separator : Char → Bool} (hsep : ∀ c, separator c = true → isNameChar c = true)
    {cs : List Char} {inRun : Bool} (h : matchesRuns separator inRun cs = true) : ∀ c ∈ cs, isNameChar c = true := by
  induction cs generalizing inRun with
  | nil => simp
  | cons c cs ih =>
    rw [List.forall_mem_cons]
    unfold matchesRuns at h
    split at h
    · next hc => exact ⟨by simp [isNameChar, hc], ih h⟩
    · simp only [Bool.and_eq_true] at h
      exact ⟨hsep c h.1.2, ih h.2⟩

private theorem isNameChar_of_isUsername {s : String} (h : isUsername s = true) : ∀ c ∈ s.toList, isNameChar c = true := by
  simp only [isUsername, Bool.and_eq_true] at h
  refine matchesRuns_chars ?_ h.2
  intro c hc
  simp only [Bool.or_eq_true, beq_iff_eq] at hc
  rcases hc with (rfl | rfl) | rfl <;> decide

private theorem isNameChar_of_isDomain {s : String} (h : isDomain s = true) : ∀ c ∈ s.toList, isNameChar c = true := by
  intro c hc
  simp only [isDomain, matchesDomain, Bool.and_eq_true, List.all_eq_true] at h
  have hsplit : List.intercalate ['.'] (s.toList.splitOn '.') = s.toList := List.intercalate_splitOn '.'
  rw [← hsplit] at hc
  rcases Strings.mem_intercalate hc with rfl | ⟨l, hl, hcl⟩
  · decide
  · refine matchesRuns_chars ?_ (h.2.1.2 l hl) c hcl
    intro c hc
    rw [beq_iff_eq.mp hc]
    decide

private theorem toLower_of_isName {cs : List Char} (h : ∀ c ∈ cs, isNameChar c = true) :
    toLower cs = String.ofList cs := by
  unfold toLower
  congr 1
  exact (List.map_congr_left fun c hc => toLower_of_isNameChar (h c hc)).trans cs.map_id

theorem toList_toString (a : KulloAddress) : a.toString.toList = a.username.toList ++ '#' :: a.domain.toList := by
  simp [toString]

/-- The text of an address reads as the address. -/
theorem ofString_toString (a : KulloAddress) : ofString a.toString = .ok a := by
  have hu := isNameChar_of_isUsername a.validUsername
  have hd := isNameChar_of_isDomain a.validDomain
  have hu' : ∀ c ∈ a.username.toList, decide (c ≠ '#') = true :=
    fun c hc => decide_eq_true (isNameChar_ne (hu c hc) (by decide))
  have hcountu : a.username.toList.count '#' = 0 :=
    List.count_eq_zero.mpr fun hc => isNameChar_ne (hu _ hc) (by decide) rfl
  have hcountd : a.domain.toList.count '#' = 0 :=
    List.count_eq_zero.mpr fun hc => isNameChar_ne (hd _ hc) (by decide) rfl
  have hcount : a.toString.toList.count '#' = 1 := by
    rw [toList_toString, List.count_append, List.count_cons_self, hcountu, hcountd]
  have husername : toLower (a.toString.toList.takeWhile (· ≠ '#')) = a.username := by
    rw [toList_toString, List.takeWhile_append_of_pos hu', List.takeWhile_cons_of_neg (by simp), List.append_nil,
      toLower_of_isName hu, String.ofList_toList]
  have hdomain : toLower (a.toString.toList.dropWhile (· ≠ '#')).tail = a.domain := by
    rw [toList_toString, List.dropWhile_append_of_pos hu', List.dropWhile_cons_of_neg (by simp), List.tail_cons,
      toLower_of_isName hd, String.ofList_toList]
  unfold ofString
  simp only [hcount, husername, hdomain, ne_eq, not_true_eq_false, if_false, a.validUsername, a.validDomain, dite_true,
    a.shortLabels, a.shortFirstLabel, and_self]

theorem toString_injective : Function.Injective toString := by
  intro a b h
  have hok : (.ok a : Except Exn KulloAddress) = .ok b := by
    rw [← ofString_toString a, h, ofString_toString]
  injection hok

theorem toString_ne_empty (a : KulloAddress) : a.toString ≠ "" := by
  intro h
  have := congrArg String.toList h
  rw [toList_toString] at this
  simp at this

private theorem isNameChar_of_mem_toString {a : KulloAddress} {c : Char} (h : c ∈ a.toString.toList) :
    isNameChar c = true ∨ c = '#' := by
  rw [toList_toString, List.mem_append, List.mem_cons] at h
  rcases h with h | h | h
  · exact .inl (isNameChar_of_isUsername a.validUsername c h)
  · exact .inr h
  · exact .inl (isNameChar_of_isDomain a.validDomain c h)

theorem notMem_toString (a : KulloAddress) {c : Char} (hname : isNameChar c = false) (hc : c ≠ '#') :
    c ∉ a.toString.toList := by
  intro h
  rcases isNameChar_of_mem_toString h with h | h
  · exact isNameChar_ne h hname rfl
  · exact hc h

theorem comma_notMem_toString (a : KulloAddress) : ',' ∉ a.toString.toList :=
  a.notMem_toString (by decide) (by decide)

/-- `operator<`, which orders sets of addresses. -/
def lt (a b : KulloAddress) : Bool :=
  decide (a.toString < b.toString)

/-! ### Two users -/

def alice : KulloAddress := ⟨"alice", "kullo.test", by decide, by decide, by decide, by decide⟩

def bob : KulloAddress := ⟨"bob", "kullo.test", by decide, by decide, by decide, by decide⟩

end KulloAddress

/-- `CheckedConverter::toKulloAddress`. -/
def CheckedConverter.toKulloAddress (value : Json) : Except Exn KulloAddress := do
  let addressString ← CheckedConverter.toString value .no
  match KulloAddress.ofString addressString with
  | .ok a => .ok a
  | .error _ => .error (.conversionException "string is not a valid KulloAddress")

theorem CheckedConverter.toKulloAddress_raises (value : Json) :
    Imperative.RaisesOnly (fun e => e.isConversionException = true) (CheckedConverter.toKulloAddress value) := by
  refine Imperative.raisesOnly_bind (CheckedConverter.toString_raises value .no) ?_
  intro s _
  split
  · simp
  · rw [Imperative.raisesOnly_error]; rfl

end KulloClient

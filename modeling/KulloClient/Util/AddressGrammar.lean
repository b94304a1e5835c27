import Mathlib.Data.List.TakeWhile
import KulloClient.Base.Regex
import KulloClient.Util.KulloAddress

/-!
# The grammar of addresses

`construct` is the constructor of `KulloAddress` with its regular expressions and its loop over the labels, as the
source has them; `ofString` agrees with it.  `Grammar` says which strings are addresses.  The loop measures a label from
the dot before it, so that it lets the first one be a character longer.
-/

namespace KulloClient

namespace KulloAddress

open Regex

/-! ### Runs joined by separators -/

/-- Runs of letters and digits, joined by single separators. -/
inductive Runs (separator : Char → Prop) : List Char → Prop
  | run {w : List Char} (hne : w ≠ []) (hw : ∀ c ∈ w, isAlnum c = true) : Runs separator w
  | join {w rest : List Char} {c : Char} (hne : w ≠ []) (hw : ∀ c ∈ w, isAlnum c = true) (hc : separator c)
      (hrest : Runs separator rest) : Runs separator (w ++ c :: rest)

private theorem Runs.ne_nil {separator : Char → Prop} {w : List Char} (h : Runs separator w) : w ≠ [] := by
  cases h with
  | run hne _ => exact hne
  | join hne _ _ _ => simp

/-- A character of a text of runs is alphanumeric or a separator. -/
theorem Runs.mem {separator : Char → Prop} {w : List Char} {d : Char} (h : Runs separator w) (hd : d ∈ w) :
    isAlnum d = true ∨ separator d := by
  induction h with
  | run hne hw => exact .inl (hw d hd)
  | join hne hw hc hrest ih =>
    rcases List.mem_append.mp hd with hd | hd
    · exact .inl (hw d hd)
    · rcases List.mem_cons.mp hd with rfl | hd
      · exact .inr hc
      · exact ih hd

theorem Runs.mono {p q : Char → Prop} (hpq : ∀ c, p c → q c) {w : List Char} (h : Runs p w) : Runs q w := by
  induction h with
  | run hne hw => exact .run hne hw
  | join hne hw hc hrest ih => exact .join hne hw (hpq _ hc) ih

variable {separator : Char → Bool}

private theorem matchesRuns_append {u v : List Char} {inRun : Bool} (hne : u ≠ []) (hu : ∀ c ∈ u, isAlnum c = true) :
    matchesRuns separator inRun (u ++ v) = matchesRuns separator true v := by
  induction u generalizing inRun with
  | nil => exact absurd rfl hne
  | cons c u ih =>
    rw [List.forall_mem_cons] at hu
    rw [List.cons_append, matchesRuns, if_pos hu.1]
    by_cases hnil : u = []
    · subst hnil
      rfl
    · exact ih hnil hu.2

private theorem matchesRuns_iff (hseparator : ∀ c, separator c = true → isAlnum c = false) {w : List Char} :
    matchesRuns separator false w = true ↔ Runs (fun c => separator c = true) w := by
  constructor
  · intro h
    -- within a run the text is the rest of one
    have hgen : ∀ w inRun, matchesRuns separator inRun w = true →
        (inRun = false → Runs (fun c => separator c = true) w) ∧
          (inRun = true → ∀ u : List Char, u ≠ [] → (∀ c ∈ u, isAlnum c = true) →
            Runs (fun c => separator c = true) (u ++ w)) := by
      intro w
      induction w with
      | nil =>
        intro inRun h
        refine ⟨?_, ?_⟩
        · rintro rfl
          cases h
        · intro _ u hne hu
          rw [List.append_nil]
          exact .run hne hu
      | cons c w ih =>
        intro inRun h
        rw [matchesRuns] at h
        by_cases hc : isAlnum c = true
        · rw [if_pos hc] at h
          have hrest := (ih true h).2 rfl
          refine ⟨fun _ => hrest [c] (by simp) (by simpa using hc), ?_⟩
          intro _ u hne hu
          have happend := hrest (u ++ [c]) (by simp) (by
            intro d hd
            rcases List.mem_append.mp hd with hd | hd
            · exact hu d hd
            · rw [List.mem_singleton.mp hd]
              exact hc)
          rwa [List.append_assoc, List.singleton_append] at happend
        · rw [if_neg hc, Bool.and_eq_true, Bool.and_eq_true] at h
          refine ⟨?_, ?_⟩
          · rintro rfl
            cases h.1.1
          · intro _ u hne hu
            exact .join hne hu h.1.2 ((ih false h.2).1 rfl)
    exact (hgen w false h).1 rfl
  · intro h
    induction h with
    | @run w hne hw =>
      rw [← List.append_nil w, matchesRuns_append hne hw]
      rfl
    | join hne hw hc hrest ih =>
      rw [matchesRuns_append hne hw, matchesRuns, if_neg (by simp [hseparator _ hc]), hc, ih]
      rfl

/-! ### The regular expressions -/

/-- `[a-z0-9]`. -/
def alnum : List Char := charRange 'a' 'z' ++ charRange '0' '9'

private theorem mem_lower {c : Char} : c ∈ charRange 'a' 'z' ↔ isLower c = true := by
  rw [mem_charRange (by decide), isLower, Bool.and_eq_true, decide_eq_true_eq, decide_eq_true_eq]

private theorem mem_alnum {c : Char} : c ∈ alnum ↔ isAlnum c = true := by
  have hdigit : c ∈ charRange '0' '9' ↔ c.isDigit = true := by
    rw [mem_charRange (by decide), Char.isDigit, Bool.and_eq_true, decide_eq_true_eq, decide_eq_true_eq]
    rfl
  rw [alnum, List.mem_append, mem_lower, hdigit, isAlnum, Bool.or_eq_true]

/-- `[a-z0-9]+(?:S[a-z0-9]+)*`. -/
def runsRegex (separators : List Char) : RegularExpression Char :=
  oneOrMore (oneOf alnum) * (oneOf separators * oneOrMore (oneOf alnum)).star

/-- `USERNAME_REGEX`. -/
def usernameRegex : RegularExpression Char := runsRegex ['-', '.', '_']

/-- `DOMAIN_REGEX`. -/
def domainRegex : RegularExpression Char :=
  oneOrMore (runsRegex ['-'] * .char '.') *
    (oneOf (charRange 'a' 'z') * (oneOf alnum).star * (oneOf ['-'] * oneOrMore (oneOf alnum)).star)

private theorem mem_alnumRun {w : List Char} :
    w ∈ (oneOrMore (oneOf alnum)).matches' ↔ w ≠ [] ∧ ∀ c ∈ w, isAlnum c = true := by
  rw [mem_oneOrMore_oneOf]
  simp only [mem_alnum]

/-- A run and what follows it. -/
private theorem mem_joined {separators u v : List Char} (hne : u ≠ []) (hu : ∀ c ∈ u, isAlnum c = true)
    (hv : v ∈ (oneOf separators * oneOrMore (oneOf alnum)).star.matches') : Runs (· ∈ separators) (u ++ v) := by
  obtain ⟨ws, rfl, hws⟩ := mem_star.mp hv
  induction ws generalizing u with
  | nil =>
    rw [List.flatten_nil, List.append_nil]
    exact .run hne hu
  | cons x ws ih =>
    rw [List.forall_mem_cons] at hws
    obtain ⟨y, hy, z, hz, rfl⟩ := Language.mem_mul.mp hws.1
    obtain ⟨c, hc, rfl⟩ := mem_oneOf.mp hy
    obtain ⟨hzne, hz⟩ := mem_alnumRun.mp hz
    have hrest := ih hzne hz hws.2 (mem_star.mpr ⟨ws, rfl, hws.2⟩)
    rw [List.flatten_cons, List.singleton_append, List.cons_append]
    exact .join hne hu hc hrest

private theorem mem_runsRegex {separators w : List Char} : w ∈ (runsRegex separators).matches' ↔ Runs (· ∈ separators) w := by
  unfold runsRegex
  rw [RegularExpression.matches'_mul, Language.mem_mul]
  constructor
  · rintro ⟨u, hu, v, hv, rfl⟩
    obtain ⟨hne, hu⟩ := mem_alnumRun.mp hu
    exact mem_joined hne hu hv
  · intro h
    induction h with
    | run hne hw => exact ⟨_, mem_alnumRun.mpr ⟨hne, hw⟩, [], mem_star.mpr ⟨[], rfl, by simp⟩, List.append_nil _⟩
    | join hne hw hc hrest ih =>
      obtain ⟨u, hu, v, hv, rfl⟩ := ih
      obtain ⟨ws, rfl, hws⟩ := mem_star.mp hv
      refine ⟨_, mem_alnumRun.mpr ⟨hne, hw⟩, _, mem_star.mpr ⟨([_] ++ u) :: ws, rfl, ?_⟩, rfl⟩
      rw [List.forall_mem_cons]
      exact ⟨Language.mem_mul.mpr ⟨[_], mem_oneOf.mpr ⟨_, hc, rfl⟩, u, hu, rfl⟩, hws⟩

private theorem matchesUsername_eq (s : String) : matchesUsername s = matchAll usernameRegex s.toList := by
  rw [Bool.eq_iff_iff, matchAll_iff, usernameRegex, mem_runsRegex, matchesUsername, matchesRuns_iff]
  · refine ⟨Runs.mono ?_, Runs.mono ?_⟩ <;> intro c <;> simp [or_assoc]
  · intro c hc
    simp only [Bool.or_eq_true, beq_iff_eq] at hc
    rcases hc with (rfl | rfl) | rfl <;> decide

/-! ### Domains -/

/-- Labels of a domain. -/
structure Labels (labels : List (List Char)) : Prop where
  two : 2 ≤ labels.length
  runs : ∀ l ∈ labels, Runs (· = '-') l
  letter : ∃ c rest, labels.getLast? = some (c :: rest) ∧ isLower c = true

private theorem matchesRuns_label {w : List Char} : matchesRuns (fun c => c == '-') false w = true ↔ Runs (· = '-') w := by
  rw [matchesRuns_iff]
  · refine ⟨Runs.mono ?_, Runs.mono ?_⟩ <;> intro c <;> simp
  · intro c hc
    rw [beq_iff_eq.mp hc]
    decide

private theorem matchesDomain_iff {s : String} : matchesDomain s = true ↔ Labels (labels s) := by
  unfold matchesDomain
  rw [Bool.and_eq_true, Bool.and_eq_true, decide_eq_true_eq, List.all_eq_true]
  simp only [matchesRuns_label]
  constructor
  · rintro ⟨⟨htwo, hruns⟩, hletter⟩
    refine ⟨htwo, hruns, ?_⟩
    cases hlast : (labels s).getLast? with
    | none =>
      rw [hlast] at hletter
      cases hletter
    | some l =>
      cases l with
      | nil =>
        rw [hlast] at hletter
        cases hletter
      | cons c rest =>
        rw [hlast] at hletter
        exact ⟨c, rest, rfl, hletter⟩
  · rintro ⟨htwo, hruns, c, rest, hlast, hletter⟩
    refine ⟨⟨htwo, hruns⟩, ?_⟩
    rw [hlast]
    exact hletter

private theorem Labels.dot_notMem {ls : List (List Char)} (h : Labels ls) : ∀ l ∈ ls, '.' ∉ l := by
  intro l hl hdot
  rcases (h.runs l hl).mem hdot with hc | hc
  · cases hc
  · cases hc

/-- The labels of a domain are found where its dots are. -/
theorem labels_intercalate {ls : List (List Char)} (h : Labels ls) :
    labels (String.ofList (['.'].intercalate ls)) = ls := by
  have hne : ls ≠ [] := by
    intro hnil
    have htwo := h.two
    rw [hnil] at htwo
    cases htwo
  unfold labels
  rw [String.toList_ofList]
  exact List.splitOn_intercalate '.' h.dot_notMem hne

private theorem flatten_dots (ls : List (List Char)) (last : List Char) :
    (ls.map (· ++ ['.'])).flatten ++ last = ['.'].intercalate (ls ++ [last]) := by
  induction ls with
  | nil => rw [List.map_nil, List.flatten_nil, List.nil_append, List.nil_append, List.intercalate_singleton]
  | cons l ls ih =>
    rw [List.map_cons, List.flatten_cons, List.append_assoc, ih, List.cons_append,
      List.intercalate_cons_of_ne_nil (by simp), List.append_assoc]

/-- The last label: `[a-z][a-z0-9]*(?:-[a-z0-9]+)*`. -/
private theorem mem_lastLabel {w : List Char} :
    w ∈ (oneOf (charRange 'a' 'z') * (oneOf alnum).star * (oneOf ['-'] * oneOrMore (oneOf alnum)).star).matches' ↔
      Runs (· = '-') w ∧ ∃ c rest, w = c :: rest ∧ isLower c = true := by
  rw [RegularExpression.matches'_mul, Language.mem_mul]
  constructor
  · rintro ⟨u, hu, v, hv, rfl⟩
    obtain ⟨x, hx, y, hy, rfl⟩ := Language.mem_mul.mp hu
    obtain ⟨c, hc, rfl⟩ := mem_oneOf.mp hx
    have hlower := mem_lower.mp hc
    have hrun : ∀ d ∈ [c] ++ y, isAlnum d = true := by
      rw [List.singleton_append, List.forall_mem_cons]
      refine ⟨by rw [isAlnum, hlower, Bool.true_or], ?_⟩
      intro d hd
      exact mem_alnum.mp (mem_star_oneOf.mp hy d hd)
    refine ⟨(mem_joined (by simp) hrun hv).mono ?_, c, y ++ v, rfl, hlower⟩
    intro d hd
    exact List.mem_singleton.mp hd
  · rintro ⟨hruns, c, rest, rfl, hlower⟩
    have hmem := mem_runsRegex.mpr (hruns.mono fun d hd => List.mem_singleton.mpr hd)
    unfold runsRegex at hmem
    rw [RegularExpression.matches'_mul, Language.mem_mul] at hmem
    obtain ⟨u, hu, v, hv, heq⟩ := hmem
    obtain ⟨hne, hu⟩ := mem_alnumRun.mp hu
    cases u with
    | nil => exact absurd rfl hne
    | cons d u =>
      rw [List.cons_append] at heq
      injection heq with hd hrest
      subst hd
      rw [List.forall_mem_cons] at hu
      refine ⟨[d] ++ u, Language.mem_mul.mpr ⟨[d], mem_oneOf.mpr ⟨d, mem_lower.mpr hlower, rfl⟩, u, ?_, rfl⟩, v, hv, ?_⟩
      · exact mem_star_oneOf.mpr fun e he => mem_alnum.mpr (hu.2 e he)
      · rw [List.append_assoc, hrest, List.singleton_append]

/-- The labels before the last one, each with its dot. -/
private theorem mem_dottedLabels {ws : List (List Char)} :
    (∀ u ∈ ws, u ∈ (runsRegex ['-'] * .char '.').matches') ↔
      ∃ ls : List (List Char), ws = ls.map (· ++ ['.']) ∧ ∀ l ∈ ls, Runs (· = '-') l := by
  have hone : ∀ u, u ∈ (runsRegex ['-'] * .char '.').matches' ↔ ∃ l, u = l ++ ['.'] ∧ Runs (· = '-') l := by
    intro u
    rw [RegularExpression.matches'_mul, Language.mem_mul]
    constructor
    · rintro ⟨l, hl, d, hd, rfl⟩
      refine ⟨l, by rw [show d = ['.'] from hd], (mem_runsRegex.mp hl).mono ?_⟩
      intro c hc
      exact List.mem_singleton.mp hc
    · rintro ⟨l, rfl, hl⟩
      exact ⟨l, mem_runsRegex.mpr (hl.mono fun c hc => List.mem_singleton.mpr hc), ['.'], rfl, rfl⟩
  constructor
  · intro h
    induction ws with
    | nil => exact ⟨[], rfl, by simp⟩
    | cons u ws ih =>
      rw [List.forall_mem_cons] at h
      obtain ⟨l, rfl, hl⟩ := (hone u).mp h.1
      obtain ⟨ls, rfl, hls⟩ := ih h.2
      exact ⟨l :: ls, rfl, List.forall_mem_cons.mpr ⟨hl, hls⟩⟩
  · rintro ⟨ls, rfl, hls⟩ u hu
    obtain ⟨l, hl, rfl⟩ := List.mem_map.mp hu
    exact (hone _).mpr ⟨l, rfl, hls l hl⟩

private theorem mem_domainRegex {w : List Char} :
    w ∈ domainRegex.matches' ↔ ∃ ls, Labels ls ∧ w = ['.'].intercalate ls := by
  unfold domainRegex
  rw [RegularExpression.matches'_mul, Language.mem_mul]
  constructor
  · rintro ⟨u, hu, last, hlast, rfl⟩
    obtain ⟨ws, hne, rfl, hws⟩ := mem_oneOrMore.mp hu
    obtain ⟨ls, rfl, hls⟩ := mem_dottedLabels.mp hws
    obtain ⟨hruns, c, rest, rfl, hlower⟩ := mem_lastLabel.mp hlast
    refine ⟨ls ++ [c :: rest], ⟨?_, ?_, c, rest, List.getLast?_concat, hlower⟩, flatten_dots ls (c :: rest)⟩
    · have hpos : 0 < ls.length := List.length_pos_of_ne_nil fun h => hne (by rw [h]; rfl)
      rw [List.length_append, List.length_singleton]
      omega
    · intro l hl
      rcases List.mem_append.mp hl with hl | hl
      · exact hls l hl
      · rw [List.mem_singleton.mp hl]
        exact hruns
  · rintro ⟨ls, ⟨htwo, hruns, c, rest, hlast, hlower⟩, rfl⟩
    obtain ⟨init, rfl⟩ : ∃ init, ls = init ++ [c :: rest] := List.getLast?_eq_some_iff.mp hlast
    have hinit : init ≠ [] := by
      rintro rfl
      rw [List.nil_append, List.length_singleton] at htwo
      omega
    refine ⟨(init.map (· ++ ['.'])).flatten, mem_oneOrMore.mpr ⟨_, by simpa using hinit, rfl, mem_dottedLabels.mpr
      ⟨init, rfl, fun l hl => hruns l (List.mem_append_left _ hl)⟩⟩, c :: rest, mem_lastLabel.mpr ⟨?_, c, rest, rfl, hlower⟩,
      flatten_dots init (c :: rest)⟩
    exact hruns _ (by simp)

private theorem matchesDomain_eq (s : String) : matchesDomain s = matchAll domainRegex s.toList := by
  rw [Bool.eq_iff_iff, matchAll_iff, mem_domainRegex, matchesDomain_iff]
  constructor
  · intro h
    exact ⟨labels s, h, (List.intercalate_splitOn '.').symm⟩
  · rintro ⟨ls, hls, hs⟩
    have hlabels : labels s = ls := by
      rw [← String.ofList_toList (s := s), hs]
      exact labels_intercalate hls
    rwa [hlabels]

/-! ### The loop over the labels -/

/-- The loop over the label boundaries, from `currentLabelBoundary` on. -/
def labelsFit : List Char → Bool
  | [] => true
  | _ :: rest =>
    -- from the last boundary to the next dot
    let distance := 1 + (rest.takeWhile (· ≠ '.')).length
    if distance - 1 > 63 then false else labelsFit (rest.dropWhile (· ≠ '.'))
termination_by cs => cs.length
decreasing_by
  have hle := (List.dropWhile_sublist (l := rest) (fun c => decide (c ≠ '.'))).length_le
  simp only [List.length_cons]
  omega

/-- What the source does with the string. -/
def construct (address : String) : Except Exn (String × String) :=
  let cs := address.toList
  if cs.count '#' ≠ 1 then .error (.invalidArgument "KulloAddress(): address must contain exactly one '#'")
  else
    let username := toLower (cs.takeWhile (· ≠ '#'))
    let domain := toLower (cs.dropWhile (· ≠ '#')).tail
    if usernameMaxLength < username.length || !matchAll usernameRegex username.toList then
      .error (.invalidArgument "KulloAddress(): invalid username")
    else if domainMaxLength < domain.length || !matchAll domainRegex domain.toList then
      .error (.invalidArgument "KulloAddress(): invalid domain name")
    else if labelsFit domain.toList then .ok (username, domain)
    else .error (.invalidArgument "KulloAddress(): domain label too long")

private theorem labelsFit_dot {ls : List (List Char)} (hdot : ∀ l ∈ ls, '.' ∉ l) (hne : ls ≠ []) :
    labelsFit ('.' :: ['.'].intercalate ls) = true ↔ ∀ l ∈ ls, l.length ≤ 63 := by
  induction ls with
  | nil => exact absurd rfl hne
  | cons l ls ih =>
    rw [List.forall_mem_cons] at hdot
    have hl : ∀ c ∈ l, decide (c ≠ '.') = true := fun c hc => decide_eq_true fun h => hdot.1 (h ▸ hc)
    by_cases hls : ls = []
    · subst hls
      rw [List.intercalate_singleton, labelsFit, List.takeWhile_eq_self_iff.mpr hl, List.dropWhile_eq_nil_iff.mpr hl,
        labelsFit]
      simp
    · have hsplit : ['.'].intercalate (l :: ls) = l ++ '.' :: ['.'].intercalate ls := by
        rw [List.intercalate_cons_of_ne_nil hls, List.append_assoc, List.singleton_append]
      rw [hsplit, labelsFit, List.takeWhile_append_of_pos hl, List.dropWhile_append_of_pos hl,
        List.takeWhile_cons_of_neg (by simp), List.dropWhile_cons_of_neg (by simp), List.append_nil, List.forall_mem_cons]
      split
      · next hlong =>
        constructor
        · intro h
          cases h
        · rintro ⟨hle, -⟩
          omega
      · next hshort =>
        rw [ih hdot.2 hls]
        constructor
        · intro h
          exact ⟨by omega, h⟩
        · intro h
          exact h.2

/-- The first label may be a character longer than the others. -/
theorem labelsFit_iff {first : List Char} {ls : List (List Char)} (h : Labels (first :: ls)) :
    labelsFit (['.'].intercalate (first :: ls)) = true ↔ first.length ≤ 64 ∧ ∀ l ∈ ls, l.length ≤ 63 := by
  have hls : ls ≠ [] := by
    rintro rfl
    have htwo := h.two
    rw [List.length_singleton] at htwo
    omega
  have hdot := h.dot_notMem
  have hne := (h.runs first List.mem_cons_self).ne_nil
  rw [List.forall_mem_cons] at hdot
  cases first with
  | nil => exact absurd rfl hne
  | cons c first =>
    have hl : ∀ d ∈ first, decide (d ≠ '.') = true :=
      fun d hd => decide_eq_true fun h => hdot.1 (h ▸ List.mem_cons_of_mem c hd)
    rw [List.intercalate_cons_of_ne_nil hls, List.append_assoc, List.singleton_append, List.cons_append, labelsFit,
      List.takeWhile_append_of_pos hl, List.dropWhile_append_of_pos hl, List.takeWhile_cons_of_neg (by simp),
      List.dropWhile_cons_of_neg (by simp), List.append_nil, List.length_cons]
    split
    · next hlong =>
      constructor
      · intro h
        cases h
      · rintro ⟨hle, -⟩
        omega
    · next hshort =>
      rw [labelsFit_dot hdot.2 hls]
      constructor
      · intro h
        exact ⟨by omega, h⟩
      · intro h
        exact h.2

private theorem labelsFit_eq {s : String} (h : matchesDomain s = true) :
    labelsFit s.toList = true ↔
      (labels s).tail.all (fun l => l.length ≤ 63) = true ∧ ((labels s).head?.map List.length).getD 0 ≤ 64 := by
  have hlabels := matchesDomain_iff.mp h
  have hs : s.toList = ['.'].intercalate (labels s) := (List.intercalate_splitOn '.').symm
  rw [hs]
  cases hls : labels s with
  | nil =>
    rw [hls] at hlabels
    exact absurd hlabels.two (by simp)
  | cons first ls =>
    rw [hls] at hlabels
    rw [labelsFit_iff hlabels, List.tail_cons, List.all_eq_true, and_comm]
    simp only [decide_eq_true_eq]
    rfl

private theorem check_eq (maxLength length : Nat) (isMatch : Bool) :
    (decide (maxLength < length) || !isMatch) = !(decide (length ≤ maxLength) && isMatch) := by
  rw [Bool.not_and, ← decide_not]
  simp only [Nat.not_le]

private theorem username_check (s : String) :
    (decide (usernameMaxLength < s.length) || !matchAll usernameRegex s.toList) = !isUsername s := by
  rw [check_eq, ← matchesUsername_eq, isUsername]

private theorem domain_check (s : String) :
    (decide (domainMaxLength < s.length) || !matchAll domainRegex s.toList) = !isDomain s := by
  rw [check_eq, ← matchesDomain_eq, isDomain]

/-- `ofString` is the constructor of the source. -/
theorem construct_eq (address : String) :
    construct address = (ofString address).map fun a => (a.username, a.domain) := by
  unfold construct ofString
  dsimp only
  by_cases hcount : address.toList.count '#' ≠ 1
  · rw [if_pos hcount, if_pos hcount]
    rfl
  · rw [if_neg hcount, if_neg hcount, username_check, domain_check]
    by_cases hu : isUsername (toLower (address.toList.takeWhile (· ≠ '#'))) = true
    · rw [dif_pos hu, if_neg (by rw [hu]; decide)]
      by_cases hd : isDomain (toLower (address.toList.dropWhile (· ≠ '#')).tail) = true
      · have hmatches := hd
        rw [isDomain, Bool.and_eq_true] at hmatches
        have hfit := labelsFit_eq hmatches.2
        rw [dif_pos hd, if_neg (by rw [hd]; decide)]
        by_cases hl : labelsFit (toLower (address.toList.dropWhile (· ≠ '#')).tail).toList = true
        · rw [if_pos hl, dif_pos (hfit.mp hl)]
          rfl
        · rw [if_neg hl, dif_neg (fun h => hl (hfit.mpr h))]
          rfl
      · rw [dif_neg hd, if_pos (by rw [Bool.not_eq_true] at hd; rw [hd]; rfl)]
        rfl
    · rw [dif_neg hu, if_pos (by rw [Bool.not_eq_true] at hu; rw [hu]; rfl)]
      rfl

/-! ### The grammar -/

structure IsUsername (w : List Char) : Prop where
  runs : Runs (· ∈ ['-', '.', '_']) w
  short : w.length ≤ 64

/-- Labels joined by dots, of which the first is at most `longest` characters long and the others 63. -/
structure IsDomain (longest : Nat) (w : List Char) : Prop where
  labelled : ∃ first rest, Labels (first :: rest) ∧ w = ['.'].intercalate (first :: rest) ∧ first.length ≤ longest ∧
    ∀ l ∈ rest, l.length ≤ 63
  short : w.length ≤ 255

/-- A user name and a domain, in lower case. -/
def Grammar (longest : Nat) (address : List Char) : Prop :=
  ∃ username domain, address = username ++ '#' :: domain ∧ '#' ∉ username ∧ '#' ∉ domain ∧
    IsUsername (username.map Char.toLower) ∧ IsDomain longest (domain.map Char.toLower)

/-- The length of the first label after the first `'#'`. -/
def firstLabelLength (address : List Char) : Nat :=
  ((address.dropWhile (· ≠ '#')).tail.takeWhile (· ≠ '.')).length

private theorem takeWhile_hash {username domain : List Char} (h : '#' ∉ username) :
    (username ++ '#' :: domain).takeWhile (· ≠ '#') = username ∧
      ((username ++ '#' :: domain).dropWhile (· ≠ '#')).tail = domain := by
  have hall : ∀ c ∈ username, decide (c ≠ '#') = true := fun c hc => decide_eq_true fun heq => h (heq ▸ hc)
  rw [List.takeWhile_append_of_pos hall, List.dropWhile_append_of_pos hall, List.takeWhile_cons_of_neg (by simp),
    List.dropWhile_cons_of_neg (by simp), List.append_nil, List.tail_cons]
  exact ⟨rfl, rfl⟩

private theorem count_hash {cs : List Char} :
    cs.count '#' = 1 ↔ ∃ username domain, cs = username ++ '#' :: domain ∧ '#' ∉ username ∧ '#' ∉ domain := by
  constructor
  · intro h
    have hmem : '#' ∈ cs := List.count_pos_iff.mp (by omega)
    obtain ⟨username, domain, rfl, hu⟩ := List.eq_append_cons_of_mem hmem
    rw [List.count_append, List.count_cons_self, List.count_eq_zero_of_not_mem hu] at h
    exact ⟨username, domain, rfl, hu, List.count_eq_zero.mp (by omega)⟩
  · rintro ⟨username, domain, rfl, hu, hd⟩
    rw [List.count_append, List.count_cons_self, List.count_eq_zero_of_not_mem hu, List.count_eq_zero_of_not_mem hd]

private theorem toLower_eq_dot {c : Char} : c.toLower = '.' ↔ c = '.' := by
  constructor
  · intro h
    unfold Char.toLower at h
    split at h
    · next hupper =>
      have hge : 65 ≤ c.val.toNat := hupper.1
      have hle : c.val.toNat ≤ 90 := hupper.2
      have hval : (c.val + ('a'.val - 'A'.val)).toNat = 46 := congrArg (fun d : Char => d.val.toNat) h
      rw [UInt32.toNat_add, show ('a'.val - 'A'.val).toNat = 32 from rfl] at hval
      omega
    · exact h
  · rintro rfl
    rfl

/-- The first label is found in the string as it is in the domain. -/
private theorem firstLabelLength_eq {username domain first : List Char} {rest : List (List Char)} (hu : '#' ∉ username)
    (hlabels : Labels (first :: rest)) (hdomain : domain.map Char.toLower = ['.'].intercalate (first :: rest)) :
    firstLabelLength (username ++ '#' :: domain) = first.length := by
  have hrest : rest ≠ [] := by
    rintro rfl
    have htwo := hlabels.two
    rw [List.length_singleton] at htwo
    omega
  have hdot := hlabels.dot_notMem first List.mem_cons_self
  have hfirst : ∀ c ∈ first, decide (c ≠ '.') = true := fun c hc => decide_eq_true fun heq => hdot (heq ▸ hc)
  have htake : (domain.map Char.toLower).takeWhile (· ≠ '.') = first := by
    rw [hdomain, List.intercalate_cons_of_ne_nil hrest, List.append_assoc, List.singleton_append,
      List.takeWhile_append_of_pos hfirst, List.takeWhile_cons_of_neg (by simp), List.append_nil]
  have hlower : ((fun c => decide (c ≠ '.')) ∘ Char.toLower) = fun c => decide (c ≠ '.') := by
    funext c
    simp only [Function.comp_apply, ne_eq, toLower_eq_dot]
  rw [List.takeWhile_map, hlower] at htake
  unfold firstLabelLength
  rw [(takeWhile_hash hu).2, ← htake, List.length_map]

private theorem Grammar.firstLabelLength_le {longest : Nat} {address : List Char} (h : Grammar longest address) :
    firstLabelLength address ≤ longest := by
  obtain ⟨username, domain, rfl, hu, -, -, ⟨⟨first, rest, hlabels, hdomain, hlongest, -⟩, -⟩⟩ := h
  rwa [firstLabelLength_eq hu hlabels hdomain]

private theorem Grammar.of_firstLabelLength {longest longest' : Nat} {address : List Char} (h : Grammar longest address)
    (hlength : firstLabelLength address ≤ longest') : Grammar longest' address := by
  obtain ⟨username, domain, rfl, hu, hd, husername, ⟨⟨first, rest, hlabels, hdomain, -, hrest⟩, hshort⟩⟩ := h
  rw [firstLabelLength_eq hu hlabels hdomain] at hlength
  exact ⟨username, domain, rfl, hu, hd, husername, ⟨first, rest, hlabels, hdomain, hlength, hrest⟩, hshort⟩

private theorem isDomain_iff {domain : String} :
    (isDomain domain = true ∧ labelsFit domain.toList = true) ↔ IsDomain 64 domain.toList := by
  have hsplit : domain.toList = ['.'].intercalate (labels domain) := (List.intercalate_splitOn '.').symm
  rw [isDomain, Bool.and_eq_true, decide_eq_true_eq, matchesDomain_iff]
  constructor
  · rintro ⟨⟨hshort, hlabels⟩, hfit⟩
    refine ⟨?_, hshort⟩
    cases hls : labels domain with
    | nil =>
      rw [hls] at hlabels
      exact absurd hlabels.two (by simp)
    | cons first rest =>
      rw [hls] at hlabels hsplit
      rw [hsplit] at hfit
      obtain ⟨hfirst, hrest⟩ := (labelsFit_iff hlabels).mp hfit
      exact ⟨first, rest, hlabels, hsplit, hfirst, hrest⟩
  · rintro ⟨⟨first, rest, hlabels, hdomain, hfirst, hrest⟩, hshort⟩
    have hls : labels domain = first :: rest := by
      rw [← String.ofList_toList (s := domain), hdomain]
      exact labels_intercalate hlabels
    rw [hls]
    refine ⟨⟨hshort, hlabels⟩, ?_⟩
    rw [hdomain]
    exact (labelsFit_iff hlabels).mpr ⟨hfirst, hrest⟩

private theorem isUsername_iff {username : String} : isUsername username = true ↔ IsUsername username.toList := by
  rw [isUsername, Bool.and_eq_true, decide_eq_true_eq, matchesUsername_eq, matchAll_iff, usernameRegex, mem_runsRegex]
  constructor
  · rintro ⟨hshort, hruns⟩
    exact ⟨hruns, hshort⟩
  · rintro ⟨hruns, hshort⟩
    exact ⟨hshort, hruns⟩

/-- What an accepted string consists of. -/
theorem ofString_eq_ok {address : String} {a : KulloAddress} (h : ofString address = .ok a) :
    ∃ username domain, address.toList = username ++ '#' :: domain ∧ '#' ∉ username ∧ '#' ∉ domain ∧
      a.username = toLower username ∧ a.domain = toLower domain := by
  have hconstruct := construct_eq address
  rw [h] at hconstruct
  unfold construct at hconstruct
  dsimp only at hconstruct
  split at hconstruct
  · cases hconstruct
  · next hcount =>
    obtain ⟨username, domain, hsplit, hu, hd⟩ := count_hash.mp (not_not.mp hcount)
    rw [hsplit, (takeWhile_hash hu).1, (takeWhile_hash hu).2] at hconstruct
    refine ⟨username, domain, hsplit, hu, hd, ?_⟩
    split at hconstruct
    · cases hconstruct
    · split at hconstruct
      · cases hconstruct
      · split at hconstruct
        · injection hconstruct with heq
          exact ⟨(Prod.ext_iff.mp heq).1.symm, (Prod.ext_iff.mp heq).2.symm⟩
        · cases hconstruct

/-- What the code accepts. -/
theorem ofString_accepts (address : String) : (∃ a, ofString address = .ok a) ↔ Grammar 64 address.toList := by
  constructor
  · rintro ⟨a, ha⟩
    obtain ⟨username, domain, hsplit, hu, hd, husername, hdomain⟩ := ofString_eq_ok ha
    refine ⟨username, domain, hsplit, hu, hd, ?_, ?_⟩
    · have hvalid := isUsername_iff.mp a.validUsername
      rwa [husername, toLower, String.toList_ofList] at hvalid
    · have hmatches := a.validDomain
      rw [isDomain, Bool.and_eq_true] at hmatches
      have hvalid := isDomain_iff.mp ⟨a.validDomain, (labelsFit_eq hmatches.2).mpr ⟨a.shortLabels, a.shortFirstLabel⟩⟩
      rwa [hdomain, toLower, String.toList_ofList] at hvalid
  · rintro ⟨username, domain, hsplit, hu, hd, husername, hdomain⟩
    have hcount := count_hash.mpr ⟨username, domain, hsplit, hu, hd⟩
    have husername' : isUsername (toLower username) = true := by
      rwa [isUsername_iff, toLower, String.toList_ofList]
    have hdomain' : isDomain (toLower domain) = true ∧ labelsFit (toLower domain).toList = true := by
      rwa [isDomain_iff, toLower, String.toList_ofList]
    have hmatches := hdomain'.1
    rw [isDomain, Bool.and_eq_true] at hmatches
    have hfit := (labelsFit_eq hmatches.2).mp hdomain'.2
    rw [hsplit] at hcount
    refine ⟨⟨toLower username, toLower domain, husername', hdomain'.1, hfit.1, hfit.2⟩, ?_⟩
    unfold ofString
    simp only [hsplit, hcount, (takeWhile_hash hu).1, (takeWhile_hash hu).2, ne_eq, not_true_eq_false, if_false,
      husername', hdomain'.1, hfit.1, hfit.2, dite_true, and_self]

private theorem toString_of_ofString {address : String} {a : KulloAddress} (h : ofString address = .ok a) :
    a.toString = toLower address.toList := by
  obtain ⟨username, domain, hsplit, -, -, husername, hdomain⟩ := ofString_eq_ok h
  rw [← String.toList_inj, toList_toString, husername, hdomain, hsplit]
  unfold toLower
  rw [String.toList_ofList, String.toList_ofList, String.toList_ofList, List.map_append, List.map_cons]
  rfl

/-- The constructor as its addresses are meant to be: it accepts the grammar and refuses the rest, and addresses are
strings up to case. -/
structure Specified (address : String) : Prop where
  accepts : (∃ a, ofString address = .ok a) ↔ Grammar 63 address.toList
  refuses : ∀ e, ofString address = .error e → e.isInvalidArgument = true
  text : ∀ a, ofString address = .ok a → a.toString = toLower address.toList ∧ ofString a.toString = .ok a
  identity : ∀ a address' a', ofString address = .ok a → ofString address' = .ok a' →
    (a = a' ↔ toLower address.toList = toLower address'.toList)

/-- The constructor is as specified but for strings whose first label is a character too long. -/
theorem specified_iff (address : String) :
    Specified address ↔ ¬ (Grammar 64 address.toList ∧ firstLabelLength address.toList = 64) := by
  constructor
  -- the code lets the first label have one character more
  · rintro ⟨haccepts, -, -, -⟩ ⟨hgrammar, hlength⟩
    have hshort := (haccepts.mp ((ofString_accepts address).mpr hgrammar)).firstLabelLength_le
    omega
  · intro hnot
    refine ⟨?_, ofString_raises address, ?_, ?_⟩
    · rw [ofString_accepts]
      constructor
      · intro hgrammar
        refine hgrammar.of_firstLabelLength ?_
        have hle := hgrammar.firstLabelLength_le
        have hne : firstLabelLength address.toList ≠ 64 := fun h => hnot ⟨hgrammar, h⟩
        omega
      · intro hgrammar
        refine hgrammar.of_firstLabelLength ?_
        have hle := hgrammar.firstLabelLength_le
        omega
    · intro a ha
      exact ⟨toString_of_ofString ha, ofString_toString a⟩
    · intro a address' a' ha ha'
      rw [← toString_of_ofString ha, ← toString_of_ofString ha']
      exact toString_injective.eq_iff.symm

/-- Its first label has 64 characters. -/
def longFirstLabel : String := "a#" ++ String.ofList (List.replicate 64 'b') ++ ".c"

theorem not_specified_longFirstLabel : ¬ ∀ address, Specified address := by
  intro hclaim
  have hok : ∃ a, ofString longFirstLabel = .ok a := by
    have hisOk : (ofString longFirstLabel).toOption.isSome = true := by decide +kernel
    cases ha : ofString longFirstLabel with
    | error e =>
      rw [ha] at hisOk
      cases hisOk
    | ok a => exact ⟨a, rfl⟩
  have hlength : firstLabelLength longFirstLabel.toList = 64 := by decide +kernel
  have hshort := ((hclaim longFirstLabel).accepts.mp hok).firstLabelLength_le
  omega

end KulloAddress

end KulloClient

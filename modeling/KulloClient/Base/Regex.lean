import Mathlib.Computability.RegularExpressions

/-!
# Matching and replacing with regular expressions

A backtracking matcher tries the ways in which an expression matches a beginning of the text, and takes the first one;
`rests` lists what each of them leaves.  It prefers the left side of an alternative and more rounds of a repetition.
`matchAll` asks for the whole text, and `replaceAll` replaces the matches from left to right.
-/

namespace Regex

open Computability

variable {α : Type*}

/-! ### Expressions -/

/-- A character class. -/
def oneOf (cs : List α) : RegularExpression α := (cs.map .char).foldr (· + ·) 0

def literal (cs : List α) : RegularExpression α := (cs.map .char).foldr (· * ·) 1

def oneOrMore (r : RegularExpression α) : RegularExpression α := r * r.star

/-- The characters from one to another. -/
def charRange (first last : Char) : List Char :=
  (List.range (last.toNat + 1 - first.toNat)).map fun i => Char.ofNat (first.toNat + i)

theorem mem_charRange {first last c : Char} (hlast : last.toNat < 0xd800) :
    c ∈ charRange first last ↔ first ≤ c ∧ c ≤ last := by
  have hvalid : ∀ n, n ≤ last.toNat → (Char.ofNat n).toNat = n := by
    intro n hn
    have hchar : n.isValidChar := .inl (by omega)
    unfold Char.ofNat
    rw [dif_pos hchar]
    rfl
  unfold charRange
  rw [List.mem_map]
  constructor
  · rintro ⟨i, hi, rfl⟩
    rw [List.mem_range] at hi
    have hi' : first.toNat + i ≤ last.toNat := by omega
    have heq := hvalid _ hi'
    constructor
    · change first.toNat ≤ (Char.ofNat (first.toNat + i)).toNat
      omega
    · change (Char.ofNat (first.toNat + i)).toNat ≤ last.toNat
      omega
  · rintro ⟨hfirst, hle⟩
    have hfirst' : first.toNat ≤ c.toNat := hfirst
    have hle' : c.toNat ≤ last.toNat := hle
    refine ⟨c.toNat - first.toNat, ?_, ?_⟩
    · rw [List.mem_range]
      omega
    · rw [Nat.add_sub_cancel' hfirst', Char.ofNat_toNat]

theorem mem_oneOf {cs : List α} {w : List α} : w ∈ (oneOf cs).matches' ↔ ∃ c ∈ cs, w = [c] := by
  unfold oneOf
  induction cs with
  | nil => simp [Language.notMem_zero]
  | cons c cs ih =>
    rw [List.map_cons, List.foldr_cons, RegularExpression.matches'_add, Language.mem_add, ih]
    constructor
    · rintro (hw | ⟨d, hd, hw⟩)
      · exact ⟨c, List.mem_cons_self, hw⟩
      · exact ⟨d, List.mem_cons_of_mem c hd, hw⟩
    · rintro ⟨d, hd, hw⟩
      rcases List.mem_cons.mp hd with rfl | hd
      · exact .inl hw
      · exact .inr ⟨d, hd, hw⟩

theorem mem_literal {cs w : List α} : w ∈ (literal cs).matches' ↔ w = cs := by
  unfold literal
  induction cs generalizing w with
  | nil => exact Language.mem_one w
  | cons c cs ih =>
    rw [List.map_cons, List.foldr_cons, RegularExpression.matches'_mul, Language.mem_mul]
    constructor
    · rintro ⟨u, hu, v, hv, rfl⟩
      rw [ih.mp hv, show u = [c] from hu, List.singleton_append]
    · rintro rfl
      exact ⟨[c], rfl, cs, ih.mpr rfl, rfl⟩

theorem mem_star {r : RegularExpression α} {w : List α} :
    w ∈ r.star.matches' ↔ ∃ ws : List (List α), w = ws.flatten ∧ ∀ u ∈ ws, u ∈ r.matches' :=
  Language.mem_kstar

theorem mem_oneOrMore {r : RegularExpression α} {w : List α} :
    w ∈ (oneOrMore r).matches' ↔ ∃ ws : List (List α), ws ≠ [] ∧ w = ws.flatten ∧ ∀ u ∈ ws, u ∈ r.matches' := by
  unfold oneOrMore
  rw [RegularExpression.matches'_mul, Language.mem_mul]
  constructor
  · rintro ⟨u, hu, v, hv, rfl⟩
    obtain ⟨ws, rfl, hws⟩ := mem_star.mp hv
    exact ⟨u :: ws, List.cons_ne_nil _ _, List.flatten_cons.symm, List.forall_mem_cons.mpr ⟨hu, hws⟩⟩
  · rintro ⟨ws, hne, rfl, hws⟩
    cases ws with
    | nil => exact absurd rfl hne
    | cons u ws =>
      rw [List.forall_mem_cons] at hws
      exact ⟨u, hws.1, ws.flatten, mem_star.mpr ⟨ws, rfl, hws.2⟩, List.flatten_cons.symm⟩

theorem flatten_map_singleton (w : List α) : (w.map fun c => [c]).flatten = w := by
  induction w with
  | nil => rfl
  | cons c w ih => rw [List.map_cons, List.flatten_cons, ih, List.singleton_append]

theorem mem_star_oneOf {cs w : List α} : w ∈ (oneOf cs).star.matches' ↔ ∀ c ∈ w, c ∈ cs := by
  rw [mem_star]
  constructor
  · rintro ⟨ws, rfl, hws⟩ c hc
    obtain ⟨u, hu, hcu⟩ := List.mem_flatten.mp hc
    obtain ⟨d, hd, rfl⟩ := mem_oneOf.mp (hws u hu)
    rwa [List.mem_singleton.mp hcu]
  · intro hw
    refine ⟨w.map fun c => [c], (flatten_map_singleton w).symm, ?_⟩
    intro u hu
    obtain ⟨c, hc, rfl⟩ := List.mem_map.mp hu
    exact mem_oneOf.mpr ⟨c, hw c hc, rfl⟩

theorem mem_oneOrMore_oneOf {cs w : List α} :
    w ∈ (oneOrMore (oneOf cs)).matches' ↔ w ≠ [] ∧ ∀ c ∈ w, c ∈ cs := by
  unfold oneOrMore
  rw [RegularExpression.matches'_mul, Language.mem_mul]
  constructor
  · rintro ⟨u, hu, v, hv, rfl⟩
    obtain ⟨c, hc, rfl⟩ := mem_oneOf.mp hu
    refine ⟨by simp, ?_⟩
    rw [List.singleton_append, List.forall_mem_cons]
    exact ⟨hc, mem_star_oneOf.mp hv⟩
  · rintro ⟨hne, hw⟩
    cases w with
    | nil => exact absurd rfl hne
    | cons c w =>
      rw [List.forall_mem_cons] at hw
      exact ⟨[c], mem_oneOf.mpr ⟨c, hw.1, rfl⟩, w, mem_star_oneOf.mpr hw.2, rfl⟩

theorem mem_oneOf_pow {cs w : List α} {n : Nat} :
    w ∈ (oneOf cs ^ n).matches' ↔ w.length = n ∧ ∀ c ∈ w, c ∈ cs := by
  induction n generalizing w with
  | zero =>
    rw [RegularExpression.matches'_pow, pow_zero, Language.mem_one, List.length_eq_zero_iff]
    constructor
    · rintro rfl
      exact ⟨rfl, by simp⟩
    · exact And.left
  | succ n ih =>
    rw [RegularExpression.matches'_pow, pow_succ', ← RegularExpression.matches'_pow, Language.mem_mul]
    constructor
    · rintro ⟨u, hu, v, hv, rfl⟩
      obtain ⟨c, hc, rfl⟩ := mem_oneOf.mp hu
      obtain ⟨hlength, hv⟩ := ih.mp hv
      rw [List.singleton_append, List.length_cons, hlength, List.forall_mem_cons]
      exact ⟨rfl, hc, hv⟩
    · rintro ⟨hlength, hw⟩
      cases w with
      | nil => cases hlength
      | cons c w =>
        rw [List.length_cons] at hlength
        rw [List.forall_mem_cons] at hw
        exact ⟨[c], mem_oneOf.mpr ⟨c, hw.1, rfl⟩, w, ih.mpr ⟨by omega, hw.2⟩, rfl⟩

/-! ### The matcher -/

/-- The rounds of a repetition; a round that takes nothing is not made. -/
def starRests (rests : List α → List (List α)) : Nat → List α → List (List α)
  | 0, s => [s]
  | n + 1, s => ((rests s).filter fun t => t.length < s.length).flatMap (starRests rests n) ++ [s]

variable [DecidableEq α]

def rests : RegularExpression α → List α → List (List α)
  | .zero, _ => []
  | .epsilon, s => [s]
  | .char _, [] => []
  | .char a, c :: s => if a = c then [s] else []
  | .plus r t, s => rests r s ++ rests t s
  | .comp r t, s => (rests r s).flatMap (rests t)
  | .star r, s => starRests (rests r) s.length s

theorem rests_mul (r t : RegularExpression α) (s : List α) : rests (r * t) s = (rests r s).flatMap (rests t) := rfl

theorem rests_star (r : RegularExpression α) (s : List α) : rests r.star s = starRests (rests r) s.length s := rfl

/-- Does the expression match the whole text? -/
def matchAll (r : RegularExpression α) (s : List α) : Bool := (rests r s).any List.isEmpty

omit [DecidableEq α] in
theorem mem_starRests {f : List α → List (List α)} {l : Language α}
    (hf : ∀ s t, t ∈ f s ↔ ∃ w ∈ l, s = w ++ t) {n : Nat} {s t : List α} (hn : s.length ≤ n) :
    t ∈ starRests f n s ↔ ∃ w ∈ l∗, s = w ++ t := by
  induction n generalizing s with
  | zero =>
    have hs : s = [] := List.length_eq_zero_iff.mp (Nat.le_zero.mp hn)
    subst hs
    rw [starRests, List.mem_singleton]
    constructor
    · rintro rfl
      exact ⟨[], Language.nil_mem_kstar l, rfl⟩
    · rintro ⟨w, -, hw⟩
      exact (List.append_eq_nil_iff.mp hw.symm).2
  | succ n ih =>
    rw [starRests, List.mem_append, List.mem_singleton, List.mem_flatMap]
    constructor
    · rintro (⟨u, hu, ht⟩ | rfl)
      · obtain ⟨hu, hshort⟩ := List.mem_filter.mp hu
        obtain ⟨v, hv, rfl⟩ := (hf s u).mp hu
        have hlt := of_decide_eq_true hshort
        obtain ⟨w, hw, rfl⟩ := (ih (by omega)).mp ht
        refine ⟨v ++ w, ?_, (List.append_assoc v w t).symm⟩
        obtain ⟨ws, rfl, hws⟩ := Language.mem_kstar.mp hw
        exact Language.mem_kstar.mpr ⟨v :: ws, List.flatten_cons.symm, List.forall_mem_cons.mpr ⟨hv, hws⟩⟩
      · exact ⟨[], Language.nil_mem_kstar l, rfl⟩
    · rintro ⟨w, hw, rfl⟩
      obtain ⟨ws, rfl, hws⟩ := Language.mem_kstar_iff_exists_nonempty.mp hw
      cases ws with
      | nil => exact .inr rfl
      | cons v ws =>
        rw [List.forall_mem_cons] at hws
        have hpos : 0 < v.length := List.length_pos_of_ne_nil hws.1.2
        rw [List.flatten_cons, List.append_assoc]
        rw [List.flatten_cons, List.append_assoc, List.length_append] at hn
        refine .inl ⟨ws.flatten ++ t, ?_, ?_⟩
        · rw [List.mem_filter]
          refine ⟨(hf _ _).mpr ⟨v, hws.1.1, rfl⟩, ?_⟩
          rw [decide_eq_true_eq, @List.length_append _ v]
          omega
        · exact (ih (by omega)).mpr ⟨ws.flatten, Language.join_mem_kstar fun y hy => (hws.2 y hy).1, rfl⟩

/-- The matcher finds the prefixes that the expression matches. -/
theorem mem_rests {r : RegularExpression α} {s t : List α} : t ∈ rests r s ↔ ∃ w ∈ r.matches', s = w ++ t := by
  induction r generalizing s t with
  | zero => simp [rests, Language.notMem_zero]
  | epsilon =>
    rw [rests, List.mem_singleton]
    constructor
    · rintro rfl
      exact ⟨[], rfl, rfl⟩
    · rintro ⟨w, hw, rfl⟩
      rw [show w = [] from hw, List.nil_append]
  | char a =>
    constructor
    · intro ht
      cases s with
      | nil => cases ht
      | cons c s =>
        rw [rests] at ht
        split at ht
        · next hc =>
          rw [List.mem_singleton.mp ht, hc]
          exact ⟨[c], rfl, rfl⟩
        · cases ht
    · rintro ⟨w, hw, rfl⟩
      rw [show w = [a] from hw, List.singleton_append, rests, if_pos rfl]
      exact List.mem_singleton.mpr rfl
  | plus r u ihr ihu =>
    rw [rests, List.mem_append, ihr, ihu]
    constructor
    · rintro (⟨w, hw, rfl⟩ | ⟨w, hw, rfl⟩)
      · exact ⟨w, .inl hw, rfl⟩
      · exact ⟨w, .inr hw, rfl⟩
    · rintro ⟨w, hw | hw, rfl⟩
      · exact .inl ⟨w, hw, rfl⟩
      · exact .inr ⟨w, hw, rfl⟩
  | comp r u ihr ihu =>
    rw [rests, List.mem_flatMap]
    constructor
    · rintro ⟨v, hv, ht⟩
      obtain ⟨w, hw, rfl⟩ := ihr.mp hv
      obtain ⟨x, hx, rfl⟩ := ihu.mp ht
      exact ⟨w ++ x, Language.mem_mul.mpr ⟨w, hw, x, hx, rfl⟩, (List.append_assoc w x t).symm⟩
    · rintro ⟨y, hy, rfl⟩
      obtain ⟨w, hw, x, hx, rfl⟩ := Language.mem_mul.mp hy
      exact ⟨x ++ t, ihr.mpr ⟨w, hw, List.append_assoc w x t⟩, ihu.mpr ⟨x, hx, rfl⟩⟩
  | star r ih => exact mem_starRests (fun s t => ih) (Nat.le_refl _)

theorem matchAll_iff {r : RegularExpression α} {s : List α} : matchAll r s = true ↔ s ∈ r.matches' := by
  unfold matchAll
  rw [List.any_eq_true]
  constructor
  · rintro ⟨t, ht, hempty⟩
    obtain ⟨w, hw, rfl⟩ := mem_rests.mp ht
    rwa [List.isEmpty_iff.mp hempty, List.append_nil]
  · intro hs
    exact ⟨[], mem_rests.mpr ⟨s, hs, (List.append_nil s).symm⟩, rfl⟩

/-! ### The preferred match -/

omit [DecidableEq α] in
theorem head?_flatMap {l : List (List α)} {f : List α → List (List α)} {s t : List α} (hl : l.head? = some s)
    (hf : (f s).head? = some t) : (l.flatMap f).head? = some t := by
  cases l with
  | nil => cases hl
  | cons x l =>
    cases hl
    rw [List.flatMap_cons, List.head?_append, hf, Option.some_or]

theorem head?_rests_mul {r t : RegularExpression α} {s u v : List α} (hr : (rests r s).head? = some u)
    (ht : (rests t u).head? = some v) : (rests (r * t) s).head? = some v :=
  head?_flatMap hr ht

theorem rests_literal (cs s : List α) : rests (literal cs) (cs ++ s) = [s] := by
  induction cs with
  | nil => rfl
  | cons c cs ih =>
    have hc : rests (.char c) (c :: (cs ++ s)) = [cs ++ s] := if_pos rfl
    unfold literal at ih ⊢
    rw [List.map_cons, List.foldr_cons, rests_mul, List.cons_append, hc, List.flatMap_singleton, ih]

/-- A repetition of one character takes as many of them as there are. -/
theorem head?_rests_star_char (a : α) (s : List α) :
    (rests (RegularExpression.char a).star s).head? = some (s.dropWhile (· = a)) := by
  rw [rests_star]
  have hgen : ∀ n s, s.length ≤ n →
      (starRests (rests (.char a)) n s).head? = some (s.dropWhile (· = a)) := by
    intro n
    induction n with
    | zero =>
      intro s hs
      rw [List.length_eq_zero_iff.mp (Nat.le_zero.mp hs)]
      rfl
    | succ n ih =>
      intro s hs
      cases s with
      | nil => rfl
      | cons c s =>
        rw [List.length_cons] at hs
        by_cases hc : a = c
        · have hround : (rests (.char a) (c :: s)).filter (fun t => t.length < (c :: s).length) = [s] := by
            rw [rests, if_pos hc, List.filter_singleton, List.length_cons, decide_eq_true (Nat.lt_succ_self _)]
            rfl
          rw [starRests, hround, List.flatMap_singleton, List.head?_append, ih s (by omega), Option.some_or,
            List.dropWhile_cons_of_pos (by simpa using hc.symm)]
        · have hround : (rests (.char a) (c :: s)).filter (fun t => t.length < (c :: s).length) = [] := by
            rw [rests, if_neg hc]
            rfl
          rw [starRests, hround, List.dropWhile_cons_of_neg (by simpa using fun h : c = a => hc h.symm)]
          rfl
  exact hgen s.length s (Nat.le_refl _)

/-! ### Replacing -/

/-- The replacements from left to right, with the number of characters that are still part of the last match.  A match
of the empty text is passed over. -/
def replaceFrom (r : RegularExpression α) (by' : List α) : Nat → List α → List α
  | _, [] => []
  | n + 1, _ :: s => replaceFrom r by' n s
  | 0, c :: s =>
    match (rests r (c :: s)).head? with
    | none => c :: replaceFrom r by' 0 s
    | some t => if t.length ≤ s.length then by' ++ replaceFrom r by' (s.length - t.length) s else c :: replaceFrom r by' 0 s

def replaceAll (r : RegularExpression α) (s by' : List α) : List α := replaceFrom r by' 0 s

theorem replaceFrom_append (r : RegularExpression α) (by' w s : List α) :
    replaceFrom r by' w.length (w ++ s) = replaceFrom r by' 0 s := by
  induction w with
  | nil => rfl
  | cons c w ih => exact ih

/-- The text begins with a match. -/
theorem replaceAll_match {r : RegularExpression α} {w s : List α} (by' : List α) (hw : w ≠ [])
    (h : (rests r (w ++ s)).head? = some s) : replaceAll r (w ++ s) by' = by' ++ replaceAll r s by' := by
  cases w with
  | nil => exact absurd rfl hw
  | cons c w =>
    have hlength : (w ++ s).length - s.length = w.length := by
      rw [List.length_append]
      omega
    have hle : s.length ≤ (w ++ s).length := by
      rw [List.length_append]
      omega
    unfold replaceAll
    rw [List.cons_append, replaceFrom]
    rw [List.cons_append] at h
    rw [h]
    dsimp only
    rw [if_pos hle, hlength, replaceFrom_append]

/-- No match begins with the first characters of the text. -/
theorem replaceAll_append {r : RegularExpression α} {w : List α} (s by' : List α)
    (h : ∀ c ∈ w, ∀ u ∈ r.matches', u.head? = some c → False) (hnil : [] ∉ r.matches') :
    replaceAll r (w ++ s) by' = w ++ replaceAll r s by' := by
  induction w with
  | nil => rfl
  | cons c w ih =>
    rw [List.forall_mem_cons] at h
    have hnone : (rests r (c :: (w ++ s))).head? = none := by
      cases hrests : rests r (c :: (w ++ s)) with
      | nil => rfl
      | cons t ts =>
        obtain ⟨u, hu, heq⟩ := mem_rests.mp (hrests ▸ List.mem_cons_self)
        cases u with
        | nil => exact absurd hu hnil
        | cons d u =>
          injection heq with hd
          exact (h.1 (d :: u) hu (by rw [hd, List.head?_cons])).elim
    unfold replaceAll at ih ⊢
    rw [List.cons_append, replaceFrom, hnone, ih h.2, List.cons_append]

/-- A character that every match has is not in the text. -/
theorem replaceAll_of_notMem {r : RegularExpression α} {a : α} {s : List α} (by' : List α)
    (h : ∀ u ∈ r.matches', a ∈ u) (ha : a ∉ s) : replaceAll r s by' = s := by
  unfold replaceAll
  induction s with
  | nil => rfl
  | cons c s ih =>
    have hnone : (rests r (c :: s)).head? = none := by
      cases hrests : rests r (c :: s) with
      | nil => rfl
      | cons t ts =>
        obtain ⟨u, hu, heq⟩ := mem_rests.mp (hrests ▸ List.mem_cons_self)
        refine absurd ?_ ha
        rw [heq]
        exact List.mem_append_left t (h u hu)
    rw [List.mem_cons, not_or] at ha
    rw [replaceFrom, hnone, ih ha.2]

end Regex

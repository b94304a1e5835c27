import KulloClient.Base.Regex

/-!
# Substitution with captured groups

A pattern has three parts, captured separately; the first and the last may be anchored to the ends of the text.
`scan` cuts a text into what the matches capture and the characters between them, from left to right, and `substitute`
writes something for each match.
-/

namespace Regex

open Computability

variable {α : Type*}

/-! ### Anchors -/

/-- Expressions with anchors. -/
inductive Anchored (α : Type*)
  | regex (r : RegularExpression α)
  | start
  | stop
  | plus (r t : Anchored α)
  | comp (r t : Anchored α)

namespace Anchored

variable [DecidableEq α]

/-- What the ways to match a beginning leave, in a text of `n` characters. -/
def rests (n : Nat) : Anchored α → List α → List (List α)
  | .regex r, s => Regex.rests r s
  | .start, s => if s.length = n then [s] else []
  | .stop, s => if s = [] then [s] else []
  | .plus r t, s => rests n r s ++ rests n t s
  | .comp r t, s => (rests n r s).flatMap (rests n t)

theorem suffix_of_mem_rests {n : Nat} {r : Anchored α} {s t : List α} (h : t ∈ r.rests n s) : t <:+ s := by
  induction r generalizing s t with
  | regex r =>
    obtain ⟨w, -, rfl⟩ := mem_rests.1 h
    exact List.suffix_append w t
  | start =>
    rw [rests, List.mem_ite_nil_right, List.mem_singleton] at h
    rw [h.2]
  | stop =>
    rw [rests, List.mem_ite_nil_right, List.mem_singleton] at h
    rw [h.2]
  | plus r u ihr ihu =>
    rw [rests, List.mem_append] at h
    rcases h with h | h
    · exact ihr h
    · exact ihu h
  | comp r u ihr ihu =>
    rw [rests, List.mem_flatMap] at h
    obtain ⟨v, hv, ht⟩ := h
    exact (ihu ht).trans (ihr hv)

end Anchored

/-! ### Matches -/

structure Pattern (α : Type*) where
  before : Anchored α
  body : RegularExpression α
  after : Anchored α

/-- What a match captures. -/
structure Captures (α : Type*) where
  before : List α
  body : List α
  after : List α
  deriving DecidableEq

def Captures.text (c : Captures α) : List α := c.before ++ c.body ++ c.after

/-- What was read from `s` when `t` is left. -/
def taken (s t : List α) : List α := s.take (s.length - t.length)

theorem taken_append_of_suffix {s t : List α} (h : t <:+ s) : taken s t ++ t = s := by
  obtain ⟨w, rfl⟩ := h
  simp [taken]

theorem taken_append (w t : List α) : taken (w ++ t) t = w := by
  simp [taken]

variable [DecidableEq α]

namespace Pattern

variable (p : Pattern α)

/-- The ways to match a beginning of `s`, in a text of `n` characters. -/
def matchesAt (n : Nat) (s : List α) : List (Captures α) :=
  (p.before.rests n s).flatMap fun t =>
    (Regex.rests p.body t).flatMap fun u =>
      (p.after.rests n u).map fun v => ⟨taken s t, taken t u, taken u v⟩

variable {p}

theorem mem_matchesAt {n : Nat} {s : List α} {c : Captures α} :
    c ∈ p.matchesAt n s ↔ ∃ t u v, t ∈ p.before.rests n s ∧ u ∈ Regex.rests p.body t ∧ v ∈ p.after.rests n u ∧
      c = ⟨taken s t, taken t u, taken u v⟩ := by
  unfold matchesAt
  simp only [List.mem_flatMap, List.mem_map]
  constructor
  · rintro ⟨t, ht, u, hu, v, hv, rfl⟩
    exact ⟨t, u, v, ht, hu, hv, rfl⟩
  · rintro ⟨t, u, v, ht, hu, hv, rfl⟩
    exact ⟨t, ht, u, hu, v, hv, rfl⟩

theorem prefix_of_mem_matchesAt {n : Nat} {s : List α} {c : Captures α} (h : c ∈ p.matchesAt n s) : c.text <+: s := by
  obtain ⟨t, u, v, ht, hu, hv, rfl⟩ := mem_matchesAt.1 h
  have ht := Anchored.suffix_of_mem_rests ht
  have hu : u <:+ t := Anchored.suffix_of_mem_rests (n := n) (r := .regex p.body) hu
  have hv := Anchored.suffix_of_mem_rests hv
  refine ⟨v, ?_⟩
  unfold Captures.text
  rw [List.append_assoc, taken_append_of_suffix hv, List.append_assoc, taken_append_of_suffix hu,
    taken_append_of_suffix ht]

theorem body_of_mem_matchesAt {n : Nat} {s : List α} {c : Captures α} (h : c ∈ p.matchesAt n s) :
    c.body ∈ p.body.matches' := by
  obtain ⟨t, u, v, -, hu, -, rfl⟩ := mem_matchesAt.1 h
  obtain ⟨w, hw, rfl⟩ := mem_rests.1 hu
  rwa [taken_append]

end Pattern

/-! ### Scanning -/

/-- A character that is passed over, or a match. -/
inductive Piece (α : Type*)
  | char (a : α)
  | found (c : Captures α)

def Piece.text : Piece α → List α
  | .char a => [a]
  | .found c => c.text

/-- The pieces from left to right, with the number of characters that are still part of the last match.  A match of the
empty text is passed over. -/
def scanFrom (p : Pattern α) (n : Nat) : Nat → List α → List (Piece α)
  | _, [] => []
  | k + 1, _ :: s => scanFrom p n k s
  | 0, a :: s =>
    match (p.matchesAt n (a :: s)).head? with
    | none => .char a :: scanFrom p n 0 s
    | some c => if c.text = [] then .char a :: scanFrom p n 0 s else .found c :: scanFrom p n (c.text.length - 1) s

def scan (p : Pattern α) (s : List α) : List (Piece α) := scanFrom p s.length 0 s

/-- Every match is replaced by what `format` makes of its captures. -/
def substitute (p : Pattern α) (format : Captures α → List α) (s : List α) : List α :=
  (scan p s).flatMap fun
    | .char a => [a]
    | .found c => format c

section scanning

variable {p : Pattern α} {n : Nat}

theorem scanFrom_drop (k : Nat) (s : List α) : scanFrom p n k s = scanFrom p n 0 (s.drop k) := by
  induction k generalizing s with
  | zero => rfl
  | succ k ih =>
    cases s with
    | nil => rfl
    | cons a s => exact ih s

/-- The scan at a position: no match begins there (or an empty one), or the first one is taken. -/
theorem scanFrom_cons (a : α) (s : List α) :
    (scanFrom p n 0 (a :: s) = .char a :: scanFrom p n 0 s ∧
      ∀ c ∈ (p.matchesAt n (a :: s)).head?, c.text = []) ∨
    ∃ c rest, c ∈ p.matchesAt n (a :: s) ∧ c.text ≠ [] ∧ a :: s = c.text ++ rest ∧
      scanFrom p n 0 (a :: s) = .found c :: scanFrom p n 0 rest := by
  rw [scanFrom]
  cases hfirst : (p.matchesAt n (a :: s)).head? with
  | none => exact .inl ⟨rfl, by simp⟩
  | some c =>
    by_cases hc : c.text = []
    · exact .inl ⟨by simp [hc], by simpa using hc⟩
    · have hmem : c ∈ p.matchesAt n (a :: s) := List.mem_of_head? hfirst
      obtain ⟨rest, hrest⟩ := Pattern.prefix_of_mem_matchesAt hmem
      refine .inr ⟨c, rest, hmem, hc, hrest.symm, ?_⟩
      have hdrop : s.drop (c.text.length - 1) = rest := by
        obtain ⟨b, w, hw⟩ := List.exists_cons_of_ne_nil hc
        rw [hw] at hrest ⊢
        injection hrest with _ hs
        rw [← hs]
        simp
      dsimp only
      rw [if_neg hc, scanFrom_drop, hdrop]

/-- Induction along a scan. -/
theorem scan_induction {motive : List α → List (Piece α) → Prop} (nil : motive [] [])
    (char : ∀ a s, (∀ c ∈ (p.matchesAt n (a :: s)).head?, c.text = []) → motive s (scanFrom p n 0 s) →
      motive (a :: s) (.char a :: scanFrom p n 0 s))
    (found : ∀ c s, c ∈ p.matchesAt n (c.text ++ s) → c.text ≠ [] → motive s (scanFrom p n 0 s) →
      motive (c.text ++ s) (.found c :: scanFrom p n 0 s))
    (s : List α) : motive s (scanFrom p n 0 s) := by
  induction hlen : s.length using Nat.strong_induction_on generalizing s with
  | _ m ih =>
    cases s with
    | nil => exact nil
    | cons a s =>
      rcases scanFrom_cons (p := p) (n := n) a s with ⟨heq, hnone⟩ | ⟨c, rest, hmem, hc, hrest, heq⟩
      · rw [heq]
        exact char a s hnone (ih s.length (by rw [← hlen]; simp) s rfl)
      · have hlt : rest.length < m := by
          have hpos : 0 < c.text.length := List.length_pos_iff.2 hc
          rw [← hlen, hrest, List.length_append]
          omega
        rw [heq, hrest]
        exact found c rest (hrest ▸ hmem) hc (ih rest.length hlt rest rfl)

/-- Where the text is passed over, no match begins: what matches somewhere has a first match there. -/
theorem head?_matchesAt {s : List α} {c : Captures α} (h : c ∈ p.matchesAt n s) :
    ∃ d ∈ (p.matchesAt n s).head?, d ∈ p.matchesAt n s := by
  cases hfirst : p.matchesAt n s with
  | nil =>
    rw [hfirst] at h
    cases h
  | cons d ds => exact ⟨d, by simp, by simp⟩

end scanning

end Regex

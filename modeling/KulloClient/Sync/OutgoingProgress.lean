import Mathlib.Algebra.Ring.Int.Defs
import Mathlib.Algebra.Ring.Nat
import Mathlib.Data.List.Pairwise

/-!
# The progress of what is sent

The uploader and the sender count in the same way: what was uploaded so far, and an estimate of what remains.  A progress
is recorded as the two sums before they are stored in 64 bits.
-/

namespace KulloClient

/-- The conversion to `std::size_t`. -/
@[irreducible] def toSize (n : Int) : Nat := (n % 2 ^ 64).toNat

/-- The conversion to `std::int64_t`. -/
@[irreducible] def toInt64 (n : Int) : Int := n.bmod (2 ^ 64)

/-- `SyncOutgoingMessagesProgress`. -/
structure OutgoingProgress where
  uploadedBytes : Int := 0
  totalBytes : Int := 0
  deriving DecidableEq

/-- `Http::TransferProgress`, the upload half. -/
structure TransferProgress where
  uploadTransferred : Nat
  uploadTotal : Nat
  deriving DecidableEq

/-- The sums that make up a progress. -/
structure ProgressSums where
  uploaded : Int
  total : Int
  deriving DecidableEq

def ProgressSums.toProgress (s : ProgressSums) : OutgoingProgress := ⟨toInt64 s.uploaded, toInt64 s.total⟩

/-- The progress before a message. -/
def startSums (previouslyUploaded estimatedRemaining : Nat) : ProgressSums :=
  ⟨previouslyUploaded, previouslyUploaded + estimatedRemaining⟩

/-- What the progress callback computes: the estimate without the current message, plus what its upload really takes. -/
def transferSums (previouslyUploaded estimatedRemaining estimatedSize : Nat) (transfer : TransferProgress) :
    ProgressSums :=
  let uploadTotal := max transfer.uploadTotal transfer.uploadTransferred
  let improvedEstimate : Int :=
    if 0 < uploadTotal then (estimatedRemaining : Int) - estimatedSize + uploadTotal else estimatedRemaining
  ⟨previouslyUploaded + transfer.uploadTransferred, previouslyUploaded + improvedEstimate⟩

/-- The members that count, and every progress emitted so far. -/
structure Meter where
  previouslyUploaded : Nat := 0
  estimatedRemaining : Nat := 0
  progress : OutgoingProgress := {}
  progressed : List ProgressSums := []
  deriving DecidableEq

namespace Meter

/-- The start of an iteration. -/
def start (m : Meter) (size : Nat) : Meter :=
  let sums := startSums m.previouslyUploaded size
  { m with estimatedRemaining := size, progress := sums.toProgress, progressed := m.progressed ++ [sums] }

/-- The progress callback. -/
def transfer (m : Meter) (estimatedSize : Nat) (t : TransferProgress) : Meter :=
  let sums := transferSums m.previouslyUploaded m.estimatedRemaining estimatedSize t
  if sums.toProgress ≠ m.progress then
    { m with progress := sums.toProgress, progressed := m.progressed ++ [sums] }
  else m

theorem transfer_of_ne {m : Meter} {estimatedSize : Nat} {t : TransferProgress} {sums : ProgressSums}
    (hsums : transferSums m.previouslyUploaded m.estimatedRemaining estimatedSize t = sums)
    (h : sums.toProgress ≠ m.progress) : m.transfer estimatedSize t =
      { m with progress := sums.toProgress, progressed := m.progressed ++ [sums] } := by
  subst hsums
  exact if_pos h

theorem transfer_of_eq {m : Meter} {estimatedSize : Nat} {t : TransferProgress} {sums : ProgressSums}
    (hsums : transferSums m.previouslyUploaded m.estimatedRemaining estimatedSize t = sums)
    (h : ¬ sums.toProgress ≠ m.progress) : m.transfer estimatedSize t = m := by
  subst hsums
  exact if_neg h

/-- A callback counts nothing. -/
theorem transfer_eq (m : Meter) (estimatedSize : Nat) (t : TransferProgress) :
    (m.transfer estimatedSize t).previouslyUploaded = m.previouslyUploaded ∧
      (m.transfer estimatedSize t).estimatedRemaining = m.estimatedRemaining := by
  unfold transfer
  generalize transferSums m.previouslyUploaded m.estimatedRemaining estimatedSize t = sums
  by_cases h : sums.toProgress ≠ m.progress
  · simp [h]
  · simp [h]

/-- The callbacks of one request. -/
def transfers (m : Meter) (estimatedSize : Nat) (ts : List TransferProgress) : Meter :=
  ts.foldl (fun m t => m.transfer estimatedSize t) m

theorem transfers_cons (m : Meter) (estimatedSize : Nat) (t : TransferProgress) (ts : List TransferProgress) :
    m.transfers estimatedSize (t :: ts) = (m.transfer estimatedSize t).transfers estimatedSize ts := by
  unfold transfers
  rw [List.foldl_cons]

theorem transfers_eq (m : Meter) (estimatedSize : Nat) (ts : List TransferProgress) :
    (m.transfers estimatedSize ts).previouslyUploaded = m.previouslyUploaded := by
  induction ts generalizing m with
  | nil => rfl
  | cons t ts ih => rw [transfers_cons, ih, (m.transfer_eq estimatedSize t).1]

/-- The end of a request. -/
def finish (m : Meter) (size : Nat) : Meter :=
  { m with previouslyUploaded := toSize (m.previouslyUploaded + size) }

end Meter

/-! ### Conversions that change nothing -/

private theorem toSize_of_lt {n : Nat} (h : n < 2 ^ 64) : toSize n = n := by
  unfold toSize
  omega

private theorem toInt64_of_lt {n : Int} (h0 : 0 ≤ n) (h : n < 2 ^ 63) : toInt64 n = n := by
  unfold toInt64
  rw [Int.bmod_eq_emod_of_lt] <;> omega

/-- Sums that are what is reported. -/
structure ProgressSums.Sane (s : ProgressSums) : Prop where
  nonneg : 0 ≤ s.uploaded
  le : s.uploaded ≤ s.total
  lt : s.total < 2 ^ 63

theorem ProgressSums.Sane.toProgress_eq {s : ProgressSums} (h : s.Sane) : s.toProgress = ⟨s.uploaded, s.total⟩ := by
  have h0 := h.nonneg
  have hle := h.le
  have hlt := h.lt
  unfold toProgress
  rw [toInt64_of_lt h0 (by omega), toInt64_of_lt (by omega) hlt]

/-- A callback reports sane sums when the estimate covers the message that is sent. -/
theorem transferSums_sane {previouslyUploaded estimatedRemaining estimatedSize : Nat} {t : TransferProgress}
    (hestimate : estimatedSize ≤ estimatedRemaining)
    (hlt : previouslyUploaded + estimatedRemaining + max t.uploadTotal t.uploadTransferred < 2 ^ 63) :
    (transferSums previouslyUploaded estimatedRemaining estimatedSize t).Sane := by
  constructor
  · simp only [transferSums]
    omega
  · simp only [transferSums]
    split <;> omega
  · simp only [transferSums]
    split <;> omega

/-! ### What the operations keep -/

/-- Every progress so far was sane, they never decreased, and the last request has transferred at most `n` bytes. -/
structure Meter.Upto (m : Meter) (n : Nat) : Prop where
  sane : ∀ s ∈ m.progressed, s.Sane
  ascending : m.progressed.Pairwise (fun s s' => s.uploaded ≤ s'.uploaded)
  below : ∀ s ∈ m.progressed, s.uploaded ≤ m.previouslyUploaded + n

namespace Meter.Upto

variable {m : Meter} {n n' : Nat}

theorem mono (h : m.Upto n) (hle : n ≤ n') : m.Upto n' where
  sane := h.sane
  ascending := h.ascending
  below := by
    intro s hs
    have := h.below s hs
    omega

/-- A progress that is emitted after the others. -/
theorem emit {sums : ProgressSums} {m' : Meter} (h : m.Upto n) (hprogressed : m'.progressed = m.progressed ++ [sums])
    (hprev : m'.previouslyUploaded = m.previouslyUploaded) (hsane : sums.Sane)
    (huploaded : sums.uploaded = m.previouslyUploaded + n') (hle : n ≤ n') : m'.Upto n' where
  sane := by
    intro s hs
    rw [hprogressed, List.mem_append, List.mem_singleton] at hs
    rcases hs with hs | rfl
    · exact h.sane s hs
    · exact hsane
  ascending := by
    rw [hprogressed, List.pairwise_append]
    refine ⟨h.ascending, List.pairwise_singleton _ _, ?_⟩
    intro s hs s' hs'
    rw [List.mem_singleton.mp hs', huploaded]
    have := h.below s hs
    omega
  below := by
    intro s hs
    rw [hprogressed, List.mem_append, List.mem_singleton] at hs
    rcases hs with hs | rfl
    · have := h.below s hs
      omega
    · omega

theorem start {size : Nat} (h : m.Upto 0) (hlt : m.previouslyUploaded + size < 2 ^ 63) : (m.start size).Upto 0 := by
  refine h.emit rfl rfl ⟨?_, ?_, ?_⟩ ?_ (Nat.le_refl 0)
  all_goals
    simp only [startSums]
    omega

/-- A callback that fits into the estimate. -/
theorem transfer {estimatedSize : Nat} {t : TransferProgress} (h : m.Upto n) (hle : n ≤ t.uploadTransferred)
    (hestimate : estimatedSize ≤ m.estimatedRemaining)
    (hlt : m.previouslyUploaded + m.estimatedRemaining + max t.uploadTotal t.uploadTransferred < 2 ^ 63) :
    (m.transfer estimatedSize t).Upto t.uploadTransferred := by
  unfold Meter.transfer
  dsimp only
  split
  · exact h.emit rfl rfl (transferSums_sane hestimate hlt) rfl hle
  · exact h.mono hle

theorem transfers {estimatedSize bound : Nat} {ts : List TransferProgress} (h : m.Upto n)
    (hfirst : ∀ t ∈ ts, n ≤ t.uploadTransferred) (hn : n ≤ bound)
    (hascending : ts.Pairwise (fun t t' => t.uploadTransferred ≤ t'.uploadTransferred))
    (hbound : ∀ t ∈ ts, t.uploadTransferred ≤ bound) (hestimate : ts ≠ [] → estimatedSize ≤ m.estimatedRemaining)
    (hlt : ∀ t ∈ ts, m.previouslyUploaded + m.estimatedRemaining + max t.uploadTotal t.uploadTransferred < 2 ^ 63) :
    (m.transfers estimatedSize ts).Upto bound := by
  induction ts generalizing m n with
  | nil => exact h.mono hn
  | cons t ts ih =>
    rw [List.pairwise_cons] at hascending
    have hsame := m.transfer_eq estimatedSize t
    have hstep := h.transfer (hfirst t (by simp)) (hestimate (by simp)) (hlt t (by simp))
    rw [Meter.transfers_cons]
    refine ih hstep hascending.1 (hbound t (by simp)) hascending.2 (fun t' ht' => hbound t' (by simp [ht'])) ?_ ?_
    · intro _
      rw [hsame.2]
      exact hestimate (by simp)
    · intro t' ht'
      rw [hsame.1, hsame.2]
      exact hlt t' (by simp [ht'])

theorem finish {size : Nat} (h : m.Upto size) (hlt : m.previouslyUploaded + size < 2 ^ 64) :
    (m.finish size).Upto 0 where
  sane := h.sane
  ascending := h.ascending
  below := by
    intro s hs
    have hsum : toSize ((m.previouslyUploaded : Int) + size) = m.previouslyUploaded + size :=
      toSize_of_lt (n := m.previouslyUploaded + size) hlt
    have := h.below s hs
    simp only [Meter.finish, hsum]
    omega

end Meter.Upto

end KulloClient

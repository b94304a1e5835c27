import KulloClient.Types

/-!
# PBKDF

Argon2 as the code calls it: which inputs it accepts, and the error texts of the others.  What it computes from inputs
that it accepts is a parameter; that can still fail, for want of memory or of threads.
-/

namespace KulloClient

open Imperative

/-- The fields of `argon2_context` that are not constant. -/
structure Argon2Context where
  outlen : UInt32
  pwd : Bytes
  pwdlen : UInt32
  salt : Bytes
  saltlen : UInt32
  tCost : UInt32
  mCost : UInt32
  lanes : UInt32
  threads : UInt32

/-- `argon2i_ctx` behind the validation: the output, or what `argon2_error_message` says. -/
structure Argon2 where
  fill : Argon2Context → Except String Bytes
  length_fill : ∀ ctx out, fill ctx = .ok out → out.length = ctx.outlen.toNat

namespace Argon2

/-- `validate_inputs`; the limits of the type of a length are not checked again. -/
def validateInputs (ctx : Argon2Context) : Except String Unit :=
  if 4 > ctx.outlen then .error "Output is too short"
  else if 8 > ctx.saltlen then .error "Salt is too short"
  else if 8 > ctx.mCost then .error "Memory cost is too small"
  else if ctx.mCost < 8 * ctx.lanes then .error "Memory cost is too small"
  else if 1 > ctx.tCost then .error "Time cost is too small"
  else if 1 > ctx.lanes then .error "Too few lanes"
  else if 0xFFFFFF < ctx.lanes then .error "Too many lanes"
  else if 1 > ctx.threads then .error "Not enough threads"
  else if 0xFFFFFF < ctx.threads then .error "Too many threads"
  else .ok ()

def argon2iCtx (A : Argon2) (ctx : Argon2Context) : Except String Bytes := do
  validateInputs ctx
  A.fill ctx

/-- The inputs that pass the validation. -/
structure Valid (ctx : Argon2Context) : Prop where
  outlen : 4 ≤ ctx.outlen.toNat
  saltlen : 8 ≤ ctx.saltlen.toNat
  mCost : 8 ≤ ctx.mCost.toNat
  tCost : 1 ≤ ctx.tCost.toNat
  lanes : 1 ≤ ctx.lanes.toNat ∧ ctx.lanes.toNat ≤ 0xFFFFFF ∧ 8 * ctx.lanes.toNat ≤ ctx.mCost.toNat
  threads : 1 ≤ ctx.threads.toNat ∧ ctx.threads.toNat ≤ 0xFFFFFF

private theorem validateInputs_eq_ok {ctx : Argon2Context} : validateInputs ctx = .ok () ↔ Valid ctx := by
  have hmul : (8 * ctx.lanes).toNat = 8 * ctx.lanes.toNat % 2 ^ 32 := UInt32.toNat_mul 8 ctx.lanes
  have hlanes := ctx.lanes.toNat_lt
  simp only [validateInputs, gt_iff_lt, UInt32.lt_iff_toNat_lt, hmul]
  have h1 : (1 : UInt32).toNat = 1 := rfl
  have h4 : (4 : UInt32).toNat = 4 := rfl
  have h8 : (8 : UInt32).toNat = 8 := rfl
  have hmax : (0xFFFFFF : UInt32).toNat = 0xFFFFFF := rfl
  rw [h1, h4, h8, hmax]
  constructor
  · intro h
    split_ifs at h
    constructor <;> omega
  · intro h
    have hout := h.outlen
    have hsalt := h.saltlen
    have hm := h.mCost
    have ht := h.tCost
    have hl := h.lanes
    have hthreads := h.threads
    rw [if_neg (by omega), if_neg (by omega), if_neg (by omega), if_neg (by omega), if_neg (by omega),
      if_neg (by omega), if_neg (by omega), if_neg (by omega), if_neg (by omega)]

end Argon2

namespace Pbkdf

/-- What `argon2i` fills in. -/
def context (times memoryKiB parallelism : UInt32) (password salt : Bytes) (outputBytes : Nat) : Argon2Context where
  outlen := UInt32.ofNat outputBytes
  pwd := password
  pwdlen := UInt32.ofNat password.length
  salt := salt
  saltlen := UInt32.ofNat salt.length
  tCost := times
  mCost := memoryKiB
  lanes := parallelism
  threads := parallelism

def argon2i (A : Argon2) (times memoryKiB parallelism : UInt32) (password salt : Bytes) (outputBytes : Nat) :
    Except Exn Bytes :=
  match A.argon2iCtx (context times memoryKiB parallelism password salt outputBytes) with
  | .ok output => .ok output
  | .error errmsg => .error (.pbkdfFailed ("argon2i_ctx failed: " ++ errmsg))

/-- What is accepted for an output of 32 bytes, of a salt whose length fits its type. -/
structure Usable (times memoryKiB parallelism : UInt32) (salt : Bytes) : Prop where
  salt : 8 ≤ salt.length % 2 ^ 32
  memory : 8 ≤ memoryKiB.toNat ∧ 8 * parallelism.toNat ≤ memoryKiB.toNat
  times : 1 ≤ times.toNat
  parallelism : 1 ≤ parallelism.toNat ∧ parallelism.toNat ≤ 0xFFFFFF

private theorem valid_context {times memoryKiB parallelism : UInt32} {password salt : Bytes} :
    Argon2.Valid (context times memoryKiB parallelism password salt 32) ↔ Usable times memoryKiB parallelism salt := by
  constructor
  · intro h
    have hsalt : 8 ≤ salt.length % 2 ^ 32 := h.saltlen
    exact ⟨hsalt, ⟨h.mCost, h.lanes.2.2⟩, h.tCost, ⟨h.lanes.1, h.lanes.2.1⟩⟩
  · intro h
    have hout : 4 ≤ (UInt32.ofNat 32).toNat := by decide
    exact ⟨hout, h.salt, h.memory.1, h.times, ⟨h.parallelism.1, h.parallelism.2, h.memory.2⟩, h.parallelism⟩

/-- A key is derived from usable inputs, unless memory or threads are missing; everything else raises `PBKDFFailed`. -/
theorem argon2i_cases (A : Argon2) (times memoryKiB parallelism : UInt32) (password salt : Bytes) :
    (Usable times memoryKiB parallelism salt ∧ ∃ output,
      A.fill (context times memoryKiB parallelism password salt 32) = .ok output ∧ output.length = 32 ∧
      argon2i A times memoryKiB parallelism password salt 32 = .ok output) ∨
    (¬ (Usable times memoryKiB parallelism salt ∧
        ∃ output, A.fill (context times memoryKiB parallelism password salt 32) = .ok output) ∧
      ∃ message, argon2i A times memoryKiB parallelism password salt 32 = .error (.pbkdfFailed message)) := by
  unfold argon2i Argon2.argon2iCtx
  rw [← @valid_context times memoryKiB parallelism password salt, ← Argon2.validateInputs_eq_ok]
  cases hvalid : Argon2.validateInputs (context times memoryKiB parallelism password salt 32) with
  | error errmsg =>
    right
    refine ⟨?_, _, rfl⟩
    rintro ⟨h, -⟩
    cases h
  | ok _ =>
    rw [ok_bind]
    cases hfill : A.fill (context times memoryKiB parallelism password salt 32) with
    | error errmsg =>
      right
      refine ⟨?_, _, rfl⟩
      rintro ⟨-, _, h⟩
      cases h
    | ok output =>
      left
      exact ⟨rfl, output, rfl, A.length_fill _ output hfill, rfl⟩

end Pbkdf

end KulloClient

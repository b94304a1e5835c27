import KulloClient.Base.Fuel
import KulloClient.Codec.AttachmentFilters

/-!
# GZip

zlib's streams in three loops: `compress` and `decompress`, which hold everything in memory, and `write` of
`GZipDecompressingFilter`.  The numbers of bytes that zlib is told are of type `uInt`, whatever the lengths of the
vectors are; a loop of the code has its number of rounds as fuel here.
-/

namespace KulloClient

open Pipeline Fuel

inductive ReturnCode
  | ok
  | streamEnd
  | needDict
  | streamError
  | dataError
  | memError
  | bufError
  deriving DecidableEq

/-- `std::to_string(rc)` -/
def ReturnCode.text : ReturnCode → String
  | ok => "0"
  | streamEnd => "1"
  | needDict => "2"
  | streamError => "-2"
  | dataError => "-3"
  | memError => "-4"
  | bufError => "-5"

/-- What a call of `::inflate` leaves in the stream: the output it wrote, and the input it has not used. -/
structure Inflated (Inflater : Type) where
  rc : ReturnCode
  output : Bytes
  rest : Bytes
  msg : String
  state : Inflater

/-- The one call of `::deflate` with `Z_FINISH`. -/
structure Deflated where
  rc : ReturnCode
  output : Bytes
  msg : String

/-- zlib, with the settings of the code: what it writes for an input and `avail_out`. -/
structure Zlib where
  Inflater : Type
  inflateInit : Inflater
  inflate : Inflater → Bytes → Nat → Inflated Inflater
  deflateBound : Nat → Nat
  deflate : Bytes → Nat → Deflated

variable (Z : Zlib)

/-- The conversion to `uInt`, in which `avail_in` and `avail_out` are kept. -/
def uInt (n : Nat) : Nat := n % 2 ^ 32

namespace GZip

def compress (data : Bytes) : Except Exn Bytes :=
  let compressed := Z.deflate (data.take (uInt data.length)) (uInt (Z.deflateBound data.length))
  if compressed.rc ≠ .streamEnd then
    .error (.gzipStreamError ("deflate error " ++ compressed.rc.text ++ ": " ++ compressed.msg))
  else .ok compressed.output

/-- The loop of `decompress`; `size` is the size of the vector, and `decompressed` what is written there. -/
def decompressLoop : Nat → Z.Inflater → Bytes → Nat → Bytes → Option (Except Exn Bytes)
  | 0, _, _, _, _ => none
  | fuel + 1, zstream, input, size, decompressed =>
    let availOut := uInt (size - decompressed.length)
    let r := Z.inflate zstream input availOut
    match r.rc with
    | .ok => decompressLoop fuel r.state r.rest size (decompressed ++ r.output)
    | .bufError =>
      if 0 < availOut - r.output.length then some (.error (.gzipStreamError "Z_BUF_ERROR but avail_out > 0"))
      else decompressLoop fuel r.state r.rest (size * 3 / 2) (decompressed ++ r.output)
    | .streamEnd => some (.ok (decompressed ++ r.output))
    | rc => some (.error (.gzipStreamError ("inflate error " ++ rc.text ++ ": " ++ r.msg)))

def decompress (fuel : Nat) (compressed : Bytes) : Option (Except Exn Bytes) :=
  decompressLoop Z fuel Z.inflateInit (compressed.take (uInt compressed.length)) (1 * 1024 * 1024) []

/-! ### GZipDecompressingFilter -/

structure DecompressingFilter where
  zstream : Z.Inflater
  hasSeenInput : Bool := false
  finished : Bool := false

def outputBufferSize : Nat := 1 * 1024 * 1024

namespace DecompressingFilter

variable {Z}

/-- Outputs without bytes are not written. -/
def produced (b : Bytes) (f : DecompressingFilter Z) : List (Bytes × DecompressingFilter Z) :=
  if b.isEmpty then [] else [(b, f)]

/-- The loop of `write`. -/
def writeLoop : Nat → DecompressingFilter Z → Bytes → Option (Emission Exn Bytes (DecompressingFilter Z))
  | 0, _, _ => none
  | fuel + 1, f, input =>
    let r := Z.inflate f.zstream input outputBufferSize
    match r.rc with
    | .ok =>
      let f := { f with zstream := r.state }
      if r.rest.isEmpty then some ⟨produced r.output f, none, f⟩
      else (writeLoop fuel f r.rest).map fun e => ⟨produced r.output f ++ e.chunks, e.raised, e.state⟩
    | .streamEnd =>
      let f := { f with zstream := r.state, finished := true }
      some ⟨produced r.output f,
        if r.rest.isEmpty then none else some (.gzipStreamError "Encountered extra input after stream end"), f⟩
    | rc =>
      some (.fail (.gzipStreamError ("inflate error " ++ rc.text ++ ": " ++ r.msg))
        { f with zstream := r.state, finished := true })

def write (fuel : Nat) (f : DecompressingFilter Z) (buffer : Bytes) :
    Option (Emission Exn Bytes (DecompressingFilter Z)) :=
  if buffer.isEmpty then some (.done f)
  else
    let f := { f with hasSeenInput := true }
    if f.finished then some (.fail (.gzipStreamError "Tried to write to a finished stream") f)
    else writeLoop fuel f (buffer.take (uInt buffer.length))

def close (f : DecompressingFilter Z) : Emission Exn Bytes (DecompressingFilter Z) :=
  if f.hasSeenInput && !f.finished then
    .fail (.gzipStreamError "Tried to close non-empty but unfinished stream") f
  else .done f

/-- Some calls of `write`, up to one that raises. -/
def writeAll (fuel : Nat) (f : DecompressingFilter Z) : List Bytes → Option (Emission Exn Bytes (DecompressingFilter Z))
  | [] => some (.done f)
  | buffer :: rest =>
    (f.write fuel buffer).bind fun e =>
      match e.raised with
      | some _ => some e
      | none => (e.state.writeAll fuel rest).map fun e' => ⟨e.chunks ++ e'.chunks, e'.raised, e'.state⟩

/-- Some calls of `write`, and `close` unless one of them raised. -/
def run (fuel : Nat) (f : DecompressingFilter Z) (writes : List Bytes) :
    Option (Emission Exn Bytes (DecompressingFilter Z)) :=
  (f.writeAll fuel writes).map fun e => e.andThen close

end DecompressingFilter

/-- A fresh filter. -/
def decompressingFilter : DecompressingFilter Z := { zstream := Z.inflateInit }

/-! ### The contract of zlib -/

/-- What the code relies on: `gzip` is the compressed stream of a text; `Decodes` says that a stream still to be read
gives the text still to be written; `pending` is output that is due for input already used, at most `ratio` bytes for
each.  `inflate` may use and write as little as it likes, but does something if it can, ends with the last byte of the
stream, and does not use that byte before all output is written. -/
structure Contract (gzip : Bytes → Bytes) (Decodes : Z.Inflater → Bytes → Bytes → Prop) (pending : Z.Inflater → Nat)
    (ratio : Nat) : Prop where
  deflate_fits : ∀ data room, (gzip data).length ≤ room → ∃ msg, Z.deflate data room = ⟨.streamEnd, gzip data, msg⟩
  deflate_short : ∀ data room, room < (gzip data).length → (Z.deflate data room).rc ≠ .streamEnd
  deflateBound : ∀ data, (gzip data).length ≤ Z.deflateBound data.length
  length_output : ∀ s input room, (Z.inflate s input room).output.length ≤ room
  used : ∀ s input room, ∃ consumed, input = consumed ++ (Z.inflate s input room).rest ∧
    pending (Z.inflate s input room).state + (Z.inflate s input room).output.length ≤ pending s + ratio * consumed.length
  progress : ∀ s input room, (Z.inflate s input room).rc = .ok →
    (Z.inflate s input room).rest ≠ input ∨ (Z.inflate s input room).output ≠ []
  no_progress : ∀ s input room, (Z.inflate s input room).rc = .bufError →
    (Z.inflate s input room).rest = input ∧ (Z.inflate s input room).output = [] ∧ (input = [] ∨ room = 0)
  decodes_gzip : ∀ data, Decodes Z.inflateInit (gzip data) data
  unfinished : ∀ s input data, Decodes s input data → input ≠ []
  decodes_going : ∀ s input room after data, Decodes s (input ++ after) data →
    (Z.inflate s input room).rc = .ok ∨ (Z.inflate s input room).rc = .bufError →
    ∃ data', data = (Z.inflate s input room).output ++ data' ∧
      Decodes (Z.inflate s input room).state ((Z.inflate s input room).rest ++ after) data'
  decodes_end : ∀ s input room after data, Decodes s (input ++ after) data →
    (Z.inflate s input room).rc ≠ .ok → (Z.inflate s input room).rc ≠ .bufError →
    (Z.inflate s input room).rc = .streamEnd ∧ (Z.inflate s input room).rest = [] ∧ after = [] ∧
      (Z.inflate s input room).output = data

variable {Z} {gzip : Bytes → Bytes} {Decodes : Z.Inflater → Bytes → Bytes → Prop} {pending : Z.Inflater → Nat} {ratio : Nat}

/-- A bound on the input and output that are left. -/
def left (pending : Z.Inflater → Nat) (ratio : Nat) (s : Z.Inflater) (input : Bytes) : Nat :=
  pending s + (ratio + 1) * input.length

private theorem left_inflate (h : Contract Z gzip Decodes pending ratio) (s : Z.Inflater) (input : Bytes) (room : Nat) :
    left pending ratio (Z.inflate s input room).state (Z.inflate s input room).rest ≤ left pending ratio s input ∧
      ((Z.inflate s input room).rc = .ok →
        left pending ratio (Z.inflate s input room).state (Z.inflate s input room).rest < left pending ratio s input) := by
  obtain ⟨consumed, hinput, hbound⟩ := h.used s input room
  have hprogress := h.progress s input room
  generalize Z.inflate s input room = r at *
  have hlen : input.length = consumed.length + r.rest.length := by
    rw [← List.length_append, ← hinput]
  unfold left
  rw [hlen, Nat.mul_add, Nat.add_mul ratio 1 consumed.length]
  refine ⟨by omega, fun hok => ?_⟩
  have hpos : 0 < consumed.length ∨ 0 < r.output.length := by
    rcases hprogress hok with hrest | houtput
    · left
      rw [List.length_pos_iff]
      intro hnil
      rw [hnil, List.nil_append] at hinput
      exact hrest hinput.symm
    · right
      exact List.length_pos_iff.mpr houtput
  omega

/-! ### The loops end -/

private theorem writeLoop_returns (h : Contract Z gzip Decodes pending ratio) (f : DecompressingFilter Z) (input : Bytes) :
    Returns (fun fuel => f.writeLoop fuel input) fun _ => True := by
  induction hleft : left pending ratio f.zstream input using Nat.strongRecOn generalizing f input with
  | ind n ih =>
    apply Returns.succ
    unfold DecompressingFilter.writeLoop
    dsimp only
    have hless := (left_inflate h f.zstream input outputBufferSize).2
    cases hrc : (Z.inflate f.zstream input outputBufferSize).rc with
    | ok =>
      dsimp only
      split
      · exact returns_some trivial
      · exact (ih _ (hleft ▸ hless hrc) { f with zstream := _ } _ rfl).map fun _ h => h
    | _ => exact returns_some trivial

/-- Growing by half. -/
def grow (size : Nat) : Nat := size * 3 / 2

private theorem le_grow (size : Nat) : size ≤ grow size := by
  unfold grow
  omega

private theorem dvd_half (n : Nat) {size : Nat} (h : ∀ j, 2 ^ 32 ∣ grow^[j] size / 2) : 2 ^ n ∣ size / 2 := by
  induction n generalizing size with
  | zero => exact Nat.one_dvd _
  | succ n ih =>
    -- half of the size is even, so half of the next size is three quarters of this one
    obtain ⟨k, hk⟩ := h 0
    have hgrown : 2 ^ n ∣ grow size / 2 := ih fun j => h (j + 1)
    have hsize : grow size / 2 * 2 = 3 * (size / 2) := by
      have hk' : size / 2 = 2 ^ 32 * k := hk
      unfold grow
      omega
    have hmul : 2 ^ (n + 1) ∣ 3 * (size / 2) := by
      rw [← hsize, Nat.pow_succ]
      exact Nat.mul_dvd_mul_right hgrown 2
    exact (Nat.Coprime.pow_left (n + 1) (by decide)).dvd_of_dvd_mul_left hmul

/-- However much is written, growing makes room for more that is not a multiple of 2 ^ 32. -/
theorem grow_makes_room {written size : Nat} (hwritten : written ≤ size) (hsize : 2 ≤ size) :
    ∃ j, uInt (grow^[j] size - written) ≠ 0 := by
  by_contra hnone
  have hfull : ∀ j, uInt (grow^[j] size - written) = 0 := fun j => by_contra fun hj => hnone ⟨j, hj⟩
  have hle : ∀ j, written ≤ grow^[j] size := by
    intro j
    induction j with
    | zero => exact hwritten
    | succ j ih =>
      rw [Function.iterate_succ_apply']
      exact Nat.le_trans ih (le_grow _)
  have hhalf : ∀ j, 2 ^ 32 ∣ grow^[j] size / 2 := by
    intro j
    have hj := hfull j
    have hnext := hfull (j + 1)
    have hlej := hle j
    rw [Function.iterate_succ_apply'] at hnext
    generalize grow^[j] size = s at *
    unfold uInt at hj hnext
    unfold grow at hnext
    omega
  have hdvd := dvd_half size hhalf
  have hpow := Nat.le_of_dvd (by omega) hdvd
  have hlt : size < 2 ^ size := Nat.lt_two_pow_self
  omega

/-- A round of `decompress` ends it, or makes `left` smaller, or makes the vector larger because it is full. -/
theorem decompressLoop_round (h : Contract Z gzip Decodes pending ratio) {n : Nat}
    (hless : ∀ s input size decompressed, left pending ratio s input < n → decompressed.length ≤ size → 2 ≤ size →
      Returns (fun fuel => decompressLoop Z fuel s input size decompressed) fun _ => True)
    {s : Z.Inflater} {input : Bytes} {size : Nat} {decompressed : Bytes} (hleft : left pending ratio s input < n + 1)
    (hwritten : decompressed.length ≤ size) (hsize : 2 ≤ size)
    (hfull : uInt (size - decompressed.length) = 0 → ∀ s', left pending ratio s' input < n + 1 →
      Returns (fun fuel => decompressLoop Z fuel s' input (grow size) decompressed) fun _ => True) :
    Returns (fun fuel => decompressLoop Z fuel s input size decompressed) fun _ => True := by
  apply Returns.succ
  unfold decompressLoop
  dsimp only
  generalize hroom : uInt (size - decompressed.length) = room at *
  obtain ⟨hle, hlt⟩ := left_inflate h s input room
  have hlength := h.length_output s input room
  have hnone := h.no_progress s input room
  generalize Z.inflate s input room = r at *
  cases hrc : r.rc with
  | ok =>
    refine hless _ _ _ _ ?_ ?_ hsize
    · have hlt' := hlt hrc
      omega
    · rw [List.length_append]
      have hmod : room ≤ size - decompressed.length := hroom ▸ Nat.mod_le _ _
      omega
  | bufError =>
    dsimp only
    obtain ⟨hrest, houtput, -⟩ := hnone hrc
    split
    · exact returns_some trivial
    · next hempty =>
      rw [houtput, List.length_nil] at hempty
      rw [houtput, List.append_nil, hrest]
      rw [hrest] at hle
      exact hfull (by omega) r.state (by omega)
  | _ => exact returns_some trivial

private theorem decompressLoop_returns (h : Contract Z gzip Decodes pending ratio) (n : Nat) {s : Z.Inflater} {input : Bytes}
    {size : Nat} {decompressed : Bytes} (hleft : left pending ratio s input < n) (hwritten : decompressed.length ≤ size)
    (hsize : 2 ≤ size) : Returns (fun fuel => decompressLoop Z fuel s input size decompressed) fun _ => True := by
  induction n generalizing s input size decompressed with
  | zero => exact absurd hleft (Nat.not_lt_zero _)
  | succ n ih =>
    obtain ⟨j, hj⟩ := grow_makes_room hwritten hsize
    induction j generalizing s size with
    | zero =>
      exact decompressLoop_round h (fun _ _ _ _ hleft hwritten hsize => ih hleft hwritten hsize) hleft hwritten hsize
        fun hfull => absurd hfull hj
    | succ j ihj =>
      refine decompressLoop_round h (fun _ _ _ _ hleft hwritten hsize => ih hleft hwritten hsize) hleft hwritten hsize
        fun _ s' hleft' => ?_
      have hle := le_grow size
      exact ihj hleft' (by omega) (by omega) hj

private theorem decompress_returns (h : Contract Z gzip Decodes pending ratio) (compressed : Bytes) :
    Returns (fun fuel => decompress Z fuel compressed) fun _ => True :=
  decompressLoop_returns h _ (Nat.lt_succ_self _) (Nat.zero_le _) (by decide)

private theorem write_returns (h : Contract Z gzip Decodes pending ratio) (f : DecompressingFilter Z) (buffer : Bytes) :
    Returns (fun fuel => f.write fuel buffer) fun _ => True := by
  unfold DecompressingFilter.write
  dsimp only
  split
  · exact returns_some trivial
  · split
    · exact returns_some trivial
    · exact writeLoop_returns h _ _

/-! ### What the loops write -/

/-- `decompress` in the middle of a stream: it writes the rest of the text, or sees that the stream has been cut off. -/
theorem decompressLoop_eq (h : Contract Z gzip Decodes pending ratio) {fuel : Nat} {s : Z.Inflater} {input after : Bytes}
    {size : Nat} {decompressed data : Bytes} {r : Except Exn Bytes} (hdecodes : Decodes s (input ++ after) data)
    (hr : decompressLoop Z fuel s input size decompressed = some r) :
    r = if after.isEmpty then .ok (decompressed ++ data)
      else .error (.gzipStreamError "Z_BUF_ERROR but avail_out > 0") := by
  induction fuel generalizing s input size decompressed data with
  | zero => cases hr
  | succ fuel ih =>
    unfold decompressLoop at hr
    dsimp only at hr
    generalize uInt (size - decompressed.length) = room at hr
    have hgoing := h.decodes_going s input room after data hdecodes
    have hend := h.decodes_end s input room after data hdecodes
    have hnone := h.no_progress s input room
    generalize Z.inflate s input room = i at *
    by_cases hok : i.rc = .ok
    · obtain ⟨data', rfl, hnext⟩ := hgoing (.inl hok)
      rw [hok] at hr
      rw [ih hnext hr, List.append_assoc]
    · by_cases hbuf : i.rc = .bufError
      · obtain ⟨data', rfl, hnext⟩ := hgoing (.inr hbuf)
        obtain ⟨hrest, houtput, hstuck⟩ := hnone hbuf
        rw [hbuf] at hr
        dsimp only at hr
        split at hr
        · next hroom =>
          -- there is room, so it is the input that is missing
          have hinput : input = [] := hstuck.resolve_right (by omega)
          have hafter : after ≠ [] := by
            have hne := h.unfinished _ _ _ hdecodes
            rwa [hinput, List.nil_append] at hne
          cases hr
          rw [if_neg (by simpa using hafter)]
        · rw [ih hnext hr, List.append_assoc]
      · obtain ⟨hrc, -, hafter, houtput⟩ := hend hok hbuf
        rw [hrc] at hr
        cases hr
        rw [hafter, houtput]
        rfl

/-- A stream shorter than `avail_in` can say. -/
theorem take_uInt {bytes : Bytes} (h : bytes.length < 2 ^ 32) : bytes.take (uInt bytes.length) = bytes := by
  unfold uInt
  rw [Nat.mod_eq_of_lt h, List.take_length]

private theorem decompress_gzip (h : Contract Z gzip Decodes pending ratio) {data compressed : Bytes} (after : Bytes)
    (hgzip : gzip data = compressed ++ after) (hlength : compressed.length < 2 ^ 32) :
    Returns (fun fuel => decompress Z fuel compressed) fun r =>
      r = if after.isEmpty then .ok data else .error (.gzipStreamError "Z_BUF_ERROR but avail_out > 0") := by
  refine (decompress_returns h compressed).of_all fun fuel r hr => ?_
  unfold decompress at hr
  rw [take_uInt hlength] at hr
  have hdecodes := h.decodes_gzip data
  rw [hgzip] at hdecodes
  exact decompressLoop_eq h hdecodes hr

namespace DecompressingFilter

private theorem output_produced (b : Bytes) (f : DecompressingFilter Z) : ((produced b f).map Prod.fst).flatten = b := by
  unfold produced
  split
  · next hempty => rw [List.isEmpty_iff.mp hempty]; rfl
  · simp

/-- Chunks, and those of an emission after them. -/
theorem flatten_output_append (chunks : List (Bytes × DecompressingFilter Z))
    (e : Emission Exn Bytes (DecompressingFilter Z)) :
    (⟨chunks ++ e.chunks, e.raised, e.state⟩ : Emission Exn Bytes (DecompressingFilter Z)).output.flatten =
      (chunks.map Prod.fst).flatten ++ e.output.flatten := by
  unfold Emission.output
  rw [List.map_append, List.flatten_append]

/-- A filter that still has to read a stream and to write its text. -/
def Between (Decodes : Z.Inflater → Bytes → Bytes → Prop) (f : DecompressingFilter Z) (after data : Bytes) : Prop :=
  if f.finished then after = [] ∧ data = [] else Decodes f.zstream after data

private theorem writeLoop_eq (h : Contract Z gzip Decodes pending ratio) {fuel : Nat} {f : DecompressingFilter Z}
    {input after data : Bytes} {e : Emission Exn Bytes (DecompressingFilter Z)} (hopen : f.finished = false)
    (hinput : input ≠ []) (hdecodes : Decodes f.zstream (input ++ after) data) (he : f.writeLoop fuel input = some e) :
    e.raised = none ∧ e.state.hasSeenInput = f.hasSeenInput ∧
      ∃ data', data = e.output.flatten ++ data' ∧ Between Decodes e.state after data' := by
  induction fuel generalizing f input data e with
  | zero => cases he
  | succ fuel ih =>
    unfold writeLoop at he
    dsimp only at he
    have hgoing := h.decodes_going f.zstream input outputBufferSize after data hdecodes
    have hend := h.decodes_end f.zstream input outputBufferSize after data hdecodes
    have hnone := h.no_progress f.zstream input outputBufferSize
    generalize Z.inflate f.zstream input outputBufferSize = i at *
    -- there is input and room
    have hbuf : i.rc ≠ .bufError := by
      intro hrc
      rcases (hnone hrc).2.2 with hnil | hroom
      · exact hinput hnil
      · exact absurd hroom (by decide)
    by_cases hok : i.rc = .ok
    · obtain ⟨data', rfl, hnext⟩ := hgoing (.inl hok)
      rw [hok] at he
      dsimp only at he
      split at he
      · next hrest =>
        cases he
        refine ⟨rfl, rfl, data', ?_, ?_⟩
        · rw [Emission.output, output_produced]
        · rw [List.isEmpty_iff.mp hrest, List.nil_append] at hnext
          unfold Between
          rwa [if_neg (by simp [hopen])]
      · next hrest =>
        obtain ⟨e', he', rfl⟩ := Option.map_eq_some_iff.mp he
        obtain ⟨hraised, hseen, data'', rfl, hbetween⟩ := ih (f := { f with zstream := i.state }) hopen
          (fun hnil => hrest (by rw [hnil]; rfl)) hnext he'
        refine ⟨hraised, hseen, data'', ?_, hbetween⟩
        rw [flatten_output_append, output_produced, List.append_assoc]
    · obtain ⟨hrc, hrest, hafter, houtput⟩ := hend hok hbuf
      rw [hrc] at he
      cases he
      refine ⟨?_, rfl, [], ?_, hafter, rfl⟩
      · rw [hrest]
        rfl
      · rw [Emission.output, output_produced, houtput, List.append_nil]

private theorem write_between (h : Contract Z gzip Decodes pending ratio) {f : DecompressingFilter Z} {buffer after data : Bytes}
    (hlength : buffer.length < 2 ^ 32) (hf : Between Decodes f (buffer ++ after) data) :
    Returns (fun fuel => f.write fuel buffer) fun e =>
      e.raised = none ∧ e.state.hasSeenInput = (f.hasSeenInput || !buffer.isEmpty) ∧
        ∃ data', data = e.output.flatten ++ data' ∧ Between Decodes e.state after data' := by
  by_cases hbuffer : buffer = []
  · subst hbuffer
    exact returns_some ⟨rfl, (Bool.or_false _).symm, data, rfl, hf⟩
  · have hopen : f.finished = false := by
      by_contra hfinished
      unfold Between at hf
      rw [if_pos (by simpa using hfinished)] at hf
      exact hbuffer (List.append_eq_nil_iff.mp hf.1).1
    unfold Between at hf
    rw [if_neg (by simp [hopen])] at hf
    have hempty : buffer.isEmpty = false := by simpa using hbuffer
    unfold write
    simp only [hempty, hopen, Bool.false_eq_true, if_false]
    rw [take_uInt hlength]
    refine (writeLoop_returns h _ _).of_all fun fuel e he => ?_
    obtain ⟨hraised, hseen, hrest⟩ := writeLoop_eq (f := { f with hasSeenInput := true, finished := false }) h rfl hbuffer hf he
    exact ⟨hraised, by rw [hseen]; simp, hrest⟩

private theorem writeAll_between (h : Contract Z gzip Decodes pending ratio) {f : DecompressingFilter Z} {writes : List Bytes}
    {after data : Bytes} (hlength : ∀ buffer ∈ writes, buffer.length < 2 ^ 32)
    (hf : Between Decodes f (writes.flatten ++ after) data) :
    Returns (fun fuel => f.writeAll fuel writes) fun e =>
      e.raised = none ∧ e.state.hasSeenInput = (f.hasSeenInput || !writes.flatten.isEmpty) ∧
        ∃ data', data = e.output.flatten ++ data' ∧ Between Decodes e.state after data' := by
  induction writes generalizing f data with
  | nil => exact returns_some ⟨rfl, (Bool.or_false _).symm, data, rfl, hf⟩
  | cons buffer rest ih =>
    rw [List.flatten_cons, List.append_assoc] at hf
    have hbuffer := write_between h (hlength buffer List.mem_cons_self) hf
    refine hbuffer.bind fun e he => ?_
    obtain ⟨hraised, hseen, data', rfl, hbetween⟩ := he
    rw [hraised]
    refine (ih (fun b hb => hlength b (List.mem_cons_of_mem buffer hb)) hbetween).map fun e' he' => ?_
    obtain ⟨hraised', hseen', data'', rfl, hbetween'⟩ := he'
    refine ⟨hraised', ?_, data'', ?_, hbetween'⟩
    · rw [hseen', hseen, List.flatten_cons]
      cases buffer <;> simp
    · rw [flatten_output_append, List.append_assoc]
      rfl

/-- The whole stream: its text is written, and closing is fine. -/
theorem run_gzip (h : Contract Z gzip Decodes pending ratio) {data : Bytes} {writes : List Bytes}
    (hgzip : gzip data = writes.flatten) (hlength : writes.flatten.length < 2 ^ 32) :
    Returns (fun fuel => (decompressingFilter Z).run fuel writes) fun e => e.raised = none ∧ e.output.flatten = data := by
  have hdecodes := h.decodes_gzip data
  rw [hgzip, ← List.append_nil writes.flatten] at hdecodes
  have hall : ∀ buffer ∈ writes, buffer.length < 2 ^ 32 := fun buffer hb =>
    Nat.lt_of_le_of_lt (List.sublist_flatten_of_mem hb).length_le hlength
  refine (writeAll_between (f := decompressingFilter Z) h hall hdecodes).map fun e he => ?_
  obtain ⟨hraised, hseen, data', rfl, hbetween⟩ := he
  unfold Between at hbetween
  split at hbetween
  · next hfinished =>
    obtain ⟨-, rfl⟩ := hbetween
    have hclose : e.state.close = .done e.state := by
      unfold close
      rw [hfinished, Bool.not_true, Bool.and_false]
      rfl
    unfold Emission.andThen
    rw [hraised]
    dsimp only
    rw [hclose]
    refine ⟨rfl, ?_⟩
    unfold Emission.output Emission.done
    rw [List.append_nil, List.append_nil]
  · exact absurd rfl (h.unfinished _ _ _ hbetween)

/-- A stream that has been cut off: the writes are fine, but not the close. -/
theorem run_prefix (h : Contract Z gzip Decodes pending ratio) {data after : Bytes} {writes : List Bytes}
    (hgzip : gzip data = writes.flatten ++ after) (hlength : writes.flatten.length < 2 ^ 32) (hwrites : writes.flatten ≠ [])
    (hafter : after ≠ []) :
    (Returns (fun fuel => (decompressingFilter Z).writeAll fuel writes) fun e => e.raised = none) ∧
      Returns (fun fuel => (decompressingFilter Z).run fuel writes) fun e =>
        e.raised = some (.gzipStreamError "Tried to close non-empty but unfinished stream") := by
  have hdecodes := h.decodes_gzip data
  rw [hgzip] at hdecodes
  have hall : ∀ buffer ∈ writes, buffer.length < 2 ^ 32 := fun buffer hb =>
    Nat.lt_of_le_of_lt (List.sublist_flatten_of_mem hb).length_le hlength
  have hwrite := writeAll_between (f := decompressingFilter Z) h hall hdecodes
  refine ⟨hwrite.mono fun e he => he.1, hwrite.map fun e he => ?_⟩
  obtain ⟨hraised, hseen, data', rfl, hbetween⟩ := he
  have hunfinished : e.state.finished = false := by
    by_contra hfinished
    unfold Between at hbetween
    rw [if_pos (by simpa using hfinished)] at hbetween
    exact hafter hbetween.1
  have hinput : e.state.hasSeenInput = true := by
    rw [hseen, List.isEmpty_eq_false_iff.mpr hwrites]
    simp
  have hclose : e.state.close =
      .fail (.gzipStreamError "Tried to close non-empty but unfinished stream") e.state := by
    unfold close
    rw [hunfinished, hinput]
    rfl
  unfold Emission.andThen
  rw [hraised]
  dsimp only
  rw [hclose]
  rfl

end DecompressingFilter

/-! ### Round trips -/

/-- What is compressed comes back, from both decompressors, and a stream that was cut off is rejected by both. -/
def RoundTrips (Z : Zlib) (data : Bytes) : Prop :=
  ∃ compressed, compress Z data = .ok compressed ∧
    (∀ writes : List Bytes, writes.flatten = compressed →
      Returns (fun fuel => (decompressingFilter Z).run fuel writes) fun e => e.raised = none ∧ e.output.flatten = data) ∧
    (Returns (fun fuel => decompress Z fuel compressed) fun r => r = .ok data) ∧
    ∀ before, before ≠ [] → before ≠ compressed → before <+: compressed →
      (∀ writes : List Bytes, writes.flatten = before →
        (Returns (fun fuel => (decompressingFilter Z).writeAll fuel writes) fun e => e.raised = none) ∧
          Returns (fun fuel => (decompressingFilter Z).run fuel writes) fun e =>
            e.raised = some (.gzipStreamError "Tried to close non-empty but unfinished stream")) ∧
      Returns (fun fuel => decompress Z fuel before) fun r =>
        r = .error (.gzipStreamError "Z_BUF_ERROR but avail_out > 0")

private theorem uInt_lt (n : Nat) : uInt n < 2 ^ 32 := Nat.mod_lt n (by decide)

private theorem compress_eq_ok (h : Contract Z gzip Decodes pending ratio) {data compressed : Bytes}
    (hok : compress Z data = .ok compressed) :
    compressed = gzip (data.take (uInt data.length)) ∧ compressed.length ≤ uInt (Z.deflateBound data.length) := by
  unfold compress at hok
  dsimp only at hok
  have hroom : (gzip (data.take (uInt data.length))).length ≤ uInt (Z.deflateBound data.length) := by
    by_contra hlarge
    have hshort := h.deflate_short (data.take (uInt data.length)) (uInt (Z.deflateBound data.length)) (by omega)
    rw [if_pos hshort] at hok
    cases hok
  obtain ⟨msg, hdeflate⟩ := h.deflate_fits _ _ hroom
  rw [hdeflate] at hok
  cases hok
  exact ⟨rfl, hroom⟩

private theorem compress_of_fits (h : Contract Z gzip Decodes pending ratio) {data : Bytes} (hlength : data.length < 2 ^ 32)
    (hroom : (gzip data).length ≤ uInt (Z.deflateBound data.length)) : compress Z data = .ok (gzip data) := by
  obtain ⟨msg, hdeflate⟩ := h.deflate_fits _ _ hroom
  unfold compress
  rw [take_uInt hlength, hdeflate]
  rfl

private theorem roundTrips_of_fits (h : Contract Z gzip Decodes pending ratio) {data : Bytes} (hlength : data.length < 2 ^ 32)
    (hroom : (gzip data).length ≤ uInt (Z.deflateBound data.length)) : RoundTrips Z data := by
  have hgzip : (gzip data).length < 2 ^ 32 := Nat.lt_of_le_of_lt hroom (uInt_lt _)
  refine ⟨gzip data, compress_of_fits h hlength hroom, fun writes hwrites => ?_, ?_, ?_⟩
  · exact DecompressingFilter.run_gzip h hwrites.symm (by rwa [hwrites])
  · exact decompress_gzip h [] (List.append_nil _).symm hgzip
  · rintro before hne hproper ⟨after, hafter⟩
    have hafter' : after ≠ [] := by
      intro hnil
      rw [hnil, List.append_nil] at hafter
      exact hproper hafter
    have hshort : before.length < 2 ^ 32 := by
      have hle : before.length + after.length = (gzip data).length := by rw [← hafter, List.length_append]
      omega
    refine ⟨fun writes hwrites => ?_, ?_⟩
    · exact DecompressingFilter.run_prefix h (by rw [hwrites, hafter]) (by rwa [hwrites]) (by rwa [hwrites]) hafter'
    · refine (decompress_gzip h after hafter.symm hshort).mono fun r hr => ?_
      rw [hr, if_neg (by simpa using hafter')]

/-- What is longer than `avail_in` can say comes back shorter. -/
theorem decompress_compress_of_long (h : Contract Z gzip Decodes pending ratio) {data compressed : Bytes}
    (hok : compress Z data = .ok compressed) :
    Returns (fun fuel => decompress Z fuel compressed) fun r => r = .ok (data.take (uInt data.length)) := by
  obtain ⟨hgzip, hroom⟩ := compress_eq_ok h hok
  exact decompress_gzip h [] (by rw [hgzip, List.append_nil]) (Nat.lt_of_le_of_lt hroom (uInt_lt _))

/-- Both loops end for every input.  What is compressed comes back just if its length fits into `avail_in`, and the
compressed stream into what `avail_out` says of `deflateBound`, as it does unless the bound needs more than 32 bits. -/
theorem roundTrips_iff (h : Contract Z gzip Decodes pending ratio) :
    (∀ (f : DecompressingFilter Z) (buffer : Bytes), Returns (fun fuel => f.write fuel buffer) fun _ => True) ∧
      (∀ compressed : Bytes, Returns (fun fuel => decompress Z fuel compressed) fun _ => True) ∧
      (∀ data : Bytes, RoundTrips Z data ↔
        data.length < 2 ^ 32 ∧ (gzip data).length ≤ uInt (Z.deflateBound data.length)) ∧
      ∀ data : Bytes, data.length < 2 ^ 32 → Z.deflateBound data.length < 2 ^ 32 → RoundTrips Z data := by
  refine ⟨write_returns h, decompress_returns h, fun data => ⟨?_, fun hfits => ?_⟩, fun data hlength hbound => ?_⟩
  · rintro ⟨compressed, hok, -, hreturns, -⟩
    obtain ⟨hgzip, hroom⟩ := compress_eq_ok h hok
    obtain ⟨r, ⟨hdata, htake⟩, -⟩ := hreturns.and (decompress_compress_of_long h hok)
    rw [hdata] at htake
    have hsame : data = data.take (uInt data.length) := Except.ok.inj htake
    -- `avail_in` has kept the length modulo 2^32 only
    have hlength : data.length < 2 ^ 32 := by
      have hlt := uInt_lt data.length
      have hlen := congrArg List.length hsame
      rw [List.length_take] at hlen
      omega
    rw [take_uInt hlength] at hgzip
    exact ⟨hlength, hgzip ▸ hroom⟩
  · exact roundTrips_of_fits h hfits.1 hfits.2
  · refine roundTrips_of_fits h hlength ?_
    unfold uInt
    rw [Nat.mod_eq_of_lt hbound]
    exact h.deflateBound data

/-! ### The runs of inflate -/

/-- The calls of `::inflate` on one buffer, as the attachments stream sees them. -/
def inflateRun (Z : Zlib) : Nat → Z.Inflater → Bytes → Option (InflateRun Z.Inflater)
  | 0, _, _ => none
  | fuel + 1, s, input =>
    let r := Z.inflate s input outputBufferSize
    match r.rc with
    | .ok =>
      if r.rest.isEmpty then some ⟨[(r.output, r.state)], .needsInput⟩
      else (inflateRun Z fuel r.state r.rest).map fun run => ⟨(r.output, r.state) :: run.outputs, run.final⟩
    | .streamEnd => some ⟨[], .streamEnd r.output r.state r.rest⟩
    | rc => some ⟨[], .failed (rc.text ++ ": " ++ r.msg)⟩

/-- A platform with the runs of this zlib. -/
def streamPlatform (P : StreamPlatform) (Z : Zlib) (inflate : Z.Inflater → Bytes → InflateRun Z.Inflater) :
    StreamPlatform :=
  { P with Inflater := Z.Inflater, inflateInit := Z.inflateInit, inflate := inflate }

namespace DecompressingFilter

variable {P : StreamPlatform} {inflate : Z.Inflater → Bytes → InflateRun Z.Inflater}

def toStream (P : StreamPlatform) (inflate : Z.Inflater → Bytes → InflateRun Z.Inflater) (f : DecompressingFilter Z) :
    GZipDecompressingFilter (streamPlatform P Z inflate) where
  zstream := f.zstream
  hasSeenInput := f.hasSeenInput
  finished := f.finished

/-- What the filter of the attachments stream makes of a run. -/
def ofRun (P : StreamPlatform) (inflate : Z.Inflater → Bytes → InflateRun Z.Inflater)
    (f : GZipDecompressingFilter (streamPlatform P Z inflate)) (run : InflateRun Z.Inflater) :
    Emission Exn Bytes (GZipDecompressingFilter (streamPlatform P Z inflate)) :=
  let chunks := run.outputs.flatMap fun out => GZipDecompressingFilter.produced out.1 { f with zstream := out.2 }
  let zstream : Z.Inflater := (run.outputs.getLast?.map Prod.snd).getD f.zstream
  match run.final with
  | .needsInput => ⟨chunks, none, { f with zstream := zstream }⟩
  | .failed message =>
    ⟨chunks, some (.gzipStreamError ("inflate error " ++ message)), { f with zstream := zstream, finished := true }⟩
  | .streamEnd output zstream rest =>
    let f := { f with zstream := zstream, finished := true }
    ⟨chunks ++ GZipDecompressingFilter.produced output f,
      if rest.isEmpty then none else some (.gzipStreamError "Encountered extra input after stream end"), f⟩

/-- The first call of a run. -/
theorem ofRun_cons (f : GZipDecompressingFilter (streamPlatform P Z inflate)) (b : Bytes) (s : Z.Inflater)
    (run : InflateRun Z.Inflater) :
    ofRun P inflate f ⟨(b, s) :: run.outputs, run.final⟩ =
      ⟨GZipDecompressingFilter.produced b { f with zstream := s } ++ (ofRun P inflate { f with zstream := s } run).chunks,
        (ofRun P inflate { f with zstream := s } run).raised, (ofRun P inflate { f with zstream := s } run).state⟩ := by
  obtain ⟨outputs, final⟩ := run
  have hlast : ((((b, s) :: outputs).getLast?.map Prod.snd).getD f.zstream : Z.Inflater) =
      (outputs.getLast?.map Prod.snd).getD s := by
    rw [List.getLast?_cons]
    cases outputs.getLast? <;> rfl
  unfold ofRun
  dsimp only
  rw [hlast]
  cases final <;> simp [List.append_assoc]

private theorem produced_toStream (b : Bytes) (f : DecompressingFilter Z) (g : GZipDecompressingFilter (streamPlatform P Z inflate)) :
    (produced b f).map Prod.fst = (GZipDecompressingFilter.produced b g).map Prod.fst := by
  unfold produced GZipDecompressingFilter.produced
  split <;> rfl

private theorem writeLoop_ofRun {fuel : Nat} {f : DecompressingFilter Z} {input : Bytes} {run : InflateRun Z.Inflater}
    (hrun : inflateRun Z fuel f.zstream input = some run) :
    ∃ e, f.writeLoop fuel input = some e ∧ e.output = (ofRun P inflate (f.toStream P inflate) run).output ∧
      e.raised = (ofRun P inflate (f.toStream P inflate) run).raised ∧
      (e.raised = none → e.state.toStream P inflate = (ofRun P inflate (f.toStream P inflate) run).state) := by
  induction fuel generalizing f input run with
  | zero => cases hrun
  | succ fuel ih =>
    unfold inflateRun at hrun
    unfold writeLoop
    dsimp only at hrun ⊢
    generalize Z.inflate f.zstream input outputBufferSize = r at *
    cases hrc : r.rc with
    | ok =>
      rw [hrc] at hrun
      dsimp only at hrun ⊢
      split at hrun
      · next hrest =>
        cases hrun
        rw [if_pos hrest]
        refine ⟨_, rfl, ?_, rfl, fun _ => rfl⟩
        unfold Emission.output ofRun
        dsimp only
        rw [List.flatMap_singleton]
        exact produced_toStream _ _ _
      · next hrest =>
        obtain ⟨run', hrun', rfl⟩ := Option.map_eq_some_iff.mp hrun
        obtain ⟨e, he, houtput, hraised, hstate⟩ := ih (f := { f with zstream := r.state }) hrun'
        rw [if_neg hrest, he, ofRun_cons]
        refine ⟨_, rfl, ?_, hraised, hstate⟩
        unfold Emission.output at *
        rw [List.map_append, List.map_append, houtput]
        exact congrArg (· ++ _) (produced_toStream _ _ _)
    | streamEnd =>
      rw [hrc] at hrun
      cases hrun
      refine ⟨_, rfl, ?_, rfl, fun _ => rfl⟩
      unfold Emission.output ofRun
      exact produced_toStream _ _ _
    | _ =>
      rw [hrc] at hrun
      cases hrun
      exact ⟨_, rfl, rfl, by simp [Emission.fail, ofRun, String.append_assoc], fun hnone => by cases hnone⟩

/-- The filter of the attachments stream does what this one does, if its runs are those of the loop here. -/
theorem write_toStream {fuel : Nat} {f : DecompressingFilter Z} {buffer : Bytes} (hlength : buffer.length < 2 ^ 32)
    (hrun : inflateRun Z fuel f.zstream buffer = some (inflate f.zstream buffer)) :
    ∃ e, f.write fuel buffer = some e ∧ e.output = ((f.toStream P inflate).write buffer).output ∧
      e.raised = ((f.toStream P inflate).write buffer).raised ∧
      (e.raised = none → e.state.toStream P inflate = ((f.toStream P inflate).write buffer).state) := by
  by_cases hempty : buffer.isEmpty = true
  · have hwrite : f.write fuel buffer = some (.done f) := if_pos hempty
    have hstream : (f.toStream P inflate).write buffer = .done (f.toStream P inflate) := if_pos hempty
    rw [hstream]
    exact ⟨_, hwrite, rfl, rfl, fun _ => rfl⟩
  · by_cases hfinished : f.finished = true
    · have hwrite : f.write fuel buffer =
          some (.fail (.gzipStreamError "Tried to write to a finished stream") { f with hasSeenInput := true }) :=
        (if_neg hempty).trans (if_pos hfinished)
      have hstream : (f.toStream P inflate).write buffer =
          .fail (.gzipStreamError "Tried to write to a finished stream")
            (DecompressingFilter.toStream P inflate { f with hasSeenInput := true }) :=
        (if_neg hempty).trans (if_pos hfinished)
      rw [hstream]
      exact ⟨_, hwrite, rfl, rfl, fun _ => rfl⟩
    · have hwrite : f.write fuel buffer = writeLoop fuel { f with hasSeenInput := true } buffer := by
        have hopen : f.write fuel buffer =
            writeLoop fuel { f with hasSeenInput := true } (buffer.take (uInt buffer.length)) :=
          (if_neg hempty).trans (if_neg hfinished)
        rw [hopen, take_uInt hlength]
      have hstream : (f.toStream P inflate).write buffer =
          ofRun P inflate (DecompressingFilter.toStream P inflate { f with hasSeenInput := true })
            (inflate f.zstream buffer) := by
        refine (if_neg hempty).trans ((if_neg hfinished).trans ?_)
        unfold ofRun
        dsimp only [streamPlatform, toStream]
        cases (inflate f.zstream buffer).final <;> rfl
      rw [hstream, hwrite]
      exact writeLoop_ofRun (f := { f with hasSeenInput := true }) hrun

end DecompressingFilter

/-! ### A zlib that can be run -/

/-- What `inflate` is about to read, or the byte it has not written yet. -/
inductive Reading
  | tag
  | literal
  | pending (b : UInt8)
  | trailer

/-- A byte is written as 1 and the byte, and the end as 0 and 0. -/
def literals (data : Bytes) : Bytes := data.flatMap (fun b => [1, b]) ++ [0, 0]

def inflateLiterals : Reading → Bytes → Nat → Inflated Reading
  | .tag, 0 :: rest, _ => ⟨.ok, [], rest, "", .trailer⟩
  | .tag, _ :: rest, _ => ⟨.ok, [], rest, "", .literal⟩
  | .literal, b :: rest, _ => ⟨.ok, [], rest, "", .pending b⟩
  | .pending b, input, _ + 1 => ⟨.ok, [b], input, "", .tag⟩
  | .trailer, 0 :: rest, _ => ⟨.streamEnd, [], rest, "", .trailer⟩
  | .trailer, _ :: rest, _ => ⟨.dataError, [], rest, "incorrect data check", .trailer⟩
  | s, input, _ => ⟨.bufError, [], input, "", s⟩

def literalZlib : Zlib where
  Inflater := Reading
  inflateInit := .tag
  inflate := inflateLiterals
  deflateBound n := 2 * n + 2
  deflate data room :=
    if (literals data).length ≤ room then ⟨.streamEnd, literals data, ""⟩ else ⟨.ok, (literals data).take room, ""⟩

def LiteralsLeft : Reading → Bytes → Bytes → Prop
  | .tag, input, data => input = literals data
  | .literal, input, data => ∃ b rest, data = b :: rest ∧ input = b :: literals rest
  | .pending b, input, data => ∃ rest, data = b :: rest ∧ input = literals rest
  | .trailer, input, data => data = [] ∧ input = [0]

def literalPending : Reading → Nat
  | .pending _ => 1
  | _ => 0

private theorem literals_cons (b : UInt8) (data : Bytes) : literals (b :: data) = 1 :: b :: literals data := rfl

private theorem length_literals (data : Bytes) : (literals data).length = 2 * data.length + 2 := by
  induction data with
  | nil => rfl
  | cons b data ih =>
    rw [literals_cons, List.length_cons, List.length_cons, List.length_cons, ih]
    omega

private theorem literalsLeft_going {s : Reading} {input after data : Bytes} (room : Nat)
    (h : LiteralsLeft s (input ++ after) data) :
    ((inflateLiterals s input room).rc = .ok ∨ (inflateLiterals s input room).rc = .bufError) ∧
        (∃ data', data = (inflateLiterals s input room).output ++ data' ∧
          LiteralsLeft (inflateLiterals s input room).state ((inflateLiterals s input room).rest ++ after) data') ∨
      (inflateLiterals s input room).rc = .streamEnd ∧ (inflateLiterals s input room).rest = [] ∧ after = [] ∧
        (inflateLiterals s input room).output = data := by
  cases s with
  | tag =>
    cases input with
    | nil => exact .inl ⟨.inr rfl, data, rfl, h⟩
    | cons c rest =>
      cases data with
      | nil =>
        obtain ⟨rfl, hrest⟩ : c = 0 ∧ rest ++ after = [0] := List.cons_eq_cons.mp h
        exact .inl ⟨.inl rfl, [], rfl, rfl, hrest⟩
      | cons b data =>
        obtain ⟨rfl, hrest⟩ : c = 1 ∧ rest ++ after = b :: literals data := List.cons_eq_cons.mp h
        exact .inl ⟨.inl rfl, b :: data, rfl, b, data, rfl, hrest⟩
  | literal =>
    obtain ⟨b, data', rfl, hinput⟩ := h
    cases input with
    | nil => exact .inl ⟨.inr rfl, b :: data', rfl, b, data', rfl, hinput⟩
    | cons c rest =>
      obtain ⟨rfl, hrest⟩ := List.cons_eq_cons.mp hinput
      exact .inl ⟨.inl rfl, c :: data', rfl, data', rfl, hrest⟩
  | pending b =>
    obtain ⟨data', rfl, hinput⟩ := h
    cases room with
    | zero => exact .inl ⟨.inr rfl, b :: data', rfl, data', rfl, hinput⟩
    | succ room => exact .inl ⟨.inl rfl, data', rfl, hinput⟩
  | trailer =>
    obtain ⟨rfl, hinput⟩ := h
    cases input with
    | nil => exact .inl ⟨.inr rfl, [], rfl, rfl, hinput⟩
    | cons c rest =>
      obtain ⟨rfl, hrest⟩ := List.cons_eq_cons.mp hinput
      obtain ⟨rfl, rfl⟩ := List.append_eq_nil_iff.mp hrest
      exact .inr ⟨rfl, rfl, rfl, rfl⟩

/-- What a call uses and writes, and when it does nothing. -/
theorem inflateLiterals_step (s : Reading) (input : Bytes) (room : Nat) :
    (inflateLiterals s input room).output.length ≤ room ∧
      (∃ consumed, input = consumed ++ (inflateLiterals s input room).rest ∧
        literalPending (inflateLiterals s input room).state + (inflateLiterals s input room).output.length ≤
          literalPending s + 1 * consumed.length) ∧
      ((inflateLiterals s input room).rc = .ok →
        (inflateLiterals s input room).rest ≠ input ∨ (inflateLiterals s input room).output ≠ []) ∧
      ((inflateLiterals s input room).rc = .bufError →
        (inflateLiterals s input room).rest = input ∧ (inflateLiterals s input room).output = [] ∧
          (input = [] ∨ room = 0)) := by
  unfold inflateLiterals
  split
  · exact ⟨by simp, ⟨[0], rfl, by simp [literalPending]⟩, by simp, by simp⟩
  · exact ⟨by simp, ⟨[_], rfl, by simp [literalPending]⟩, by simp, by simp⟩
  · exact ⟨by simp, ⟨[_], rfl, by simp [literalPending]⟩, by simp, by simp⟩
  · exact ⟨by simp, ⟨[], rfl, by simp [literalPending]⟩, by simp, by simp⟩
  · exact ⟨by simp, ⟨[0], rfl, by simp [literalPending]⟩, by simp, by simp⟩
  · exact ⟨by simp, ⟨[_], rfl, by simp [literalPending]⟩, by simp, by simp⟩
  · refine ⟨by simp, ⟨[], rfl, by simp⟩, by simp, fun _ => ⟨rfl, rfl, ?_⟩⟩
    cases s with
    | tag => cases input with
      | nil => exact .inl rfl
      | cons c rest => simp_all
    | literal => cases input with
      | nil => exact .inl rfl
      | cons c rest => simp_all
    | pending b => cases room with
      | zero => exact .inr rfl
      | succ room => simp_all
    | trailer => cases input with
      | nil => exact .inl rfl
      | cons c rest => simp_all

private theorem contract_literalZlib : Contract literalZlib literals LiteralsLeft literalPending 1 where
  deflate_fits data room hroom := ⟨"", if_pos hroom⟩
  deflate_short data room hroom := by
    have hdeflate : literalZlib.deflate data room = ⟨.ok, (literals data).take room, ""⟩ := if_neg (by omega)
    rw [hdeflate]
    intro hrc
    cases hrc
  deflateBound data := Nat.le_of_eq (length_literals data)
  length_output s input room := (inflateLiterals_step s input room).1
  used s input room := (inflateLiterals_step s input room).2.1
  progress s input room := (inflateLiterals_step s input room).2.2.1
  no_progress s input room := (inflateLiterals_step s input room).2.2.2
  decodes_gzip data := rfl
  unfinished s input data h := by
    rintro rfl
    cases s with
    | tag =>
      have hlength := congrArg List.length (h : [] = literals data)
      rw [length_literals] at hlength
      cases hlength
    | literal =>
      obtain ⟨b, rest, -, hinput⟩ := h
      cases hinput
    | pending b =>
      obtain ⟨rest, -, hinput⟩ := h
      have hlength := congrArg List.length hinput
      rw [length_literals] at hlength
      cases hlength
    | trailer => cases h.2
  decodes_going s input room after data h hrc := by
    rcases literalsLeft_going room h with ⟨-, hgoing⟩ | ⟨hend, -⟩
    · exact hgoing
    · rcases hrc with hrc | hrc
      · cases hend.symm.trans hrc
      · cases hend.symm.trans hrc
  decodes_end s input room after data h hok hbuf := by
    rcases literalsLeft_going room h with ⟨hgoing, -⟩ | hend
    · rcases hgoing with hrc | hrc
      · exact absurd hrc hok
      · exact absurd hrc hbuf
    · exact hend

/-- Two bytes there and back. -/
theorem roundTrips_literals : RoundTrips literalZlib [65, 66] :=
  ((roundTrips_iff contract_literalZlib).2.2.1 [65, 66]).mpr (by decide)

/-- Data of 4 GiB: `avail_in` is 0, and what comes back is empty. -/
theorem not_roundTrips_long :
    compress literalZlib (List.replicate (2 ^ 32) 7) = .ok [0, 0] ∧
      decompress literalZlib 5 [0, 0] = some (.ok []) ∧ ¬RoundTrips literalZlib (List.replicate (2 ^ 32) 7) := by
  have hzero : (List.replicate (2 ^ 32) (7 : UInt8)).take (uInt (2 ^ 32)) = [] := by
    rw [show uInt (2 ^ 32) = 0 from by decide, List.take_zero]
  refine ⟨?_, by rfl, ?_⟩
  · have hroom : uInt (literalZlib.deflateBound (2 ^ 32)) = 2 := by decide
    unfold compress
    rw [List.length_replicate, hzero, hroom]
    rfl
  · rintro ⟨compressed, hok, -, hreturns, -⟩
    obtain ⟨r, ⟨hdata, htake⟩, -⟩ := hreturns.and (decompress_compress_of_long contract_literalZlib hok)
    rw [hdata, List.length_replicate, hzero] at htake
    have hlength := congrArg List.length (Except.ok.inj htake)
    rw [List.length_replicate, List.length_nil] at hlength
    cases hlength

end GZip

end KulloClient

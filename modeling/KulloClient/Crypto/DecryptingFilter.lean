import KulloClient.Codec.AttachmentFilters

/-!
# Decryption in pieces

`DecryptingFilter` cuts what it is given so that the cipher gets whole multiples of its granularity and enough for its
final call.  Where the cuts are depends only on how much was written so far; for a cipher that is a function of the
stream, neither the plaintext nor the verdict on the tag depends on the calls of `write`.
-/

namespace KulloClient

open Pipeline

namespace DecryptingFilter

/-! ### The cuts -/

/-- The lengths of `write`, without the cipher: the block for the cipher, and the new buffer. -/
def cut (minFinalSize granularity : Nat) (buffer data : Bytes) : Bytes × Bytes :=
  let totalBytesAvailable := buffer.length + data.length - minFinalSize
  let totalBytesToWrite := totalBytesAvailable - totalBytesAvailable % granularity
  let bufferBytesToWrite := min totalBytesToWrite buffer.length
  let dataBytesToWrite := totalBytesToWrite - bufferBytesToWrite
  (buffer.take bufferBytesToWrite ++ data.take dataBytesToWrite,
    buffer.drop bufferBytesToWrite ++ data.drop dataBytesToWrite)

/-- The blocks that are not empty, in their order, and the last buffer. -/
def cuts (minFinalSize granularity : Nat) (buffer : Bytes) : List Bytes → List Bytes × Bytes
  | [] => ([], buffer)
  | data :: rest =>
    let (block, buffer) := cut minFinalSize granularity buffer data
    let (blocks, last) := cuts minFinalSize granularity buffer rest
    (if block.isEmpty then blocks else block :: blocks, last)

/-- How much of `n` bytes goes to the cipher before the last call. -/
def updated (minFinalSize granularity n : Nat) : Nat := n - minFinalSize - (n - minFinalSize) % granularity

variable {m g : Nat}

private theorem dvd_updated (n : Nat) : g ∣ updated m g n := Nat.dvd_sub_mod (n - m)

private theorem updated_le (n : Nat) : updated m g n ≤ n := by
  unfold updated
  omega

/-- What is kept is less than a final block and a granule, and enough for the final block. -/
theorem kept_bounds (hg : 0 < g) (n : Nat) : n - updated m g n < m + g ∧ (m ≤ n → m ≤ n - updated m g n) := by
  have hmod := Nat.mod_lt (n - m) hg
  have hle := Nat.mod_le (n - m) g
  unfold updated
  constructor
  · omega
  · intro h
    omega

/-- A block goes on where the ones before it ended. -/
theorem updated_add (n d : Nat) :
    updated m g (n + d) = updated m g n + updated m g (n - updated m g n + d) := by
  obtain ⟨k, hk⟩ := dvd_updated (m := m) (g := g) n
  have hle : updated m g n ≤ n - m := Nat.sub_le _ _
  have hsplit : n + d - m = (n - updated m g n + d - m) + g * k := by omega
  have hmod : (n + d - m) % g = (n - updated m g n + d - m) % g := by
    rw [hsplit, Nat.add_mul_mod_self_left]
  have hmodle := Nat.mod_le (n - updated m g n + d - m) g
  have hnew : updated m g (n + d) = n + d - m - (n - updated m g n + d - m) % g := by
    unfold updated at hmod ⊢
    rw [hmod]
  have hrest : updated m g (n - updated m g n + d) =
      n - updated m g n + d - m - (n - updated m g n + d - m) % g := rfl
  omega

/-- The cut is made in buffer and data as if they were one. -/
theorem cut_eq (buffer data : Bytes) :
    cut m g buffer data =
      ((buffer ++ data).take (updated m g (buffer.length + data.length)),
        (buffer ++ data).drop (updated m g (buffer.length + data.length))) := by
  unfold cut
  change (buffer.take (min (updated m g (buffer.length + data.length)) buffer.length) ++
      data.take (updated m g (buffer.length + data.length) - min (updated m g (buffer.length + data.length)) buffer.length),
    buffer.drop (min (updated m g (buffer.length + data.length)) buffer.length) ++
      data.drop (updated m g (buffer.length + data.length) - min (updated m g (buffer.length + data.length)) buffer.length)) = _
  generalize updated m g (buffer.length + data.length) = total
  rw [List.take_append, List.drop_append]
  by_cases h : total ≤ buffer.length
  · rw [Nat.min_eq_left h, Nat.sub_self, Nat.sub_eq_zero_of_le h]
  · have hle : buffer.length ≤ total := by omega
    rw [Nat.min_eq_right hle, List.take_length, List.drop_length, List.take_of_length_le hle, List.drop_of_length_le hle]

/-- After `before`, the blocks go on where its blocks ended, and the last buffer is what no block has. -/
theorem cuts_spec (before : Bytes) (writes : List Bytes) :
    before.take (updated m g before.length) ++ (cuts m g (before.drop (updated m g before.length)) writes).1.flatten =
        (before ++ writes.flatten).take (updated m g (before ++ writes.flatten).length) ∧
      (cuts m g (before.drop (updated m g before.length)) writes).2 =
        (before ++ writes.flatten).drop (updated m g (before ++ writes.flatten).length) ∧
      ∀ b ∈ (cuts m g (before.drop (updated m g before.length)) writes).1, b ≠ [] ∧ g ∣ b.length := by
  induction writes generalizing before with
  | nil => simp [cuts]
  | cons data rest ih =>
    have hle := updated_le (m := m) (g := g) before.length
    have hadd := updated_add (m := m) (g := g) before.length data.length
    have hlen : (before.drop (updated m g before.length)).length = before.length - updated m g before.length :=
      List.length_drop
    have hcut := cut_eq (m := m) (g := g) (before.drop (updated m g before.length)) data
    have hrest := ih (before ++ data)
    rw [hlen] at hcut
    have htotal : (before ++ data).take (updated m g (before ++ data).length) =
        before.take (updated m g before.length) ++ (before.drop (updated m g before.length) ++ data).take
          (updated m g (before.length - updated m g before.length + data.length)) := by
      rw [List.length_append, hadd, List.take_add, List.take_append_of_le_length hle, List.drop_append_of_le_length hle]
    have hkept : (before ++ data).drop (updated m g (before ++ data).length) =
        (before.drop (updated m g before.length) ++ data).drop
          (updated m g (before.length - updated m g before.length + data.length)) := by
      rw [List.length_append, hadd, ← List.drop_drop, List.drop_append_of_le_length hle]
    rw [htotal, hkept] at hrest
    obtain ⟨hblocks, hlast, hall⟩ := hrest
    unfold cuts
    rw [hcut]
    dsimp only
    rw [List.flatten_cons, ← List.append_assoc]
    split
    · next hempty =>
      rw [List.isEmpty_iff.mp hempty, List.append_nil] at hblocks
      exact ⟨hblocks, hlast, hall⟩
    · next hne =>
      refine ⟨?_, hlast, ?_⟩
      · rw [List.flatten_cons, ← List.append_assoc, hblocks]
      · intro b hb
        rcases List.mem_cons.mp hb with rfl | hb
        · refine ⟨fun h => hne (List.isEmpty_iff.mpr h), ?_⟩
          have hbound : updated m g (before.length - updated m g before.length + data.length) ≤
              (before.drop (updated m g before.length) ++ data).length := by
            rw [List.length_append, hlen]
            exact updated_le _
          rw [List.length_take_of_le hbound]
          exact dvd_updated _
        · exact hall b hb

/-! ### The calls of the cipher -/

variable {P : StreamPlatform}

/-- The cipher is given the blocks, and the last one to finish: what comes out, and how it ends. -/
def drive (cipher : P.Cipher) (last : Bytes) : List Bytes → List Bytes × Option Exn
  | [] =>
    match P.finish cipher last with
    | .error e => ([], some (ofCrypto e))
    | .ok output => ([output], none)
  | block :: blocks =>
    match P.update cipher block with
    | .error e => ([], some (ofCrypto e))
    | .ok (output, cipher) => (output :: (drive cipher last blocks).1, (drive cipher last blocks).2)

def writeAll (f : DecryptingFilter P) : List Bytes → Emission Exn Bytes (DecryptingFilter P)
  | [] => .done f
  | data :: rest => (f.write data).andThen fun f => f.writeAll rest

/-- Some calls of `write`, and `close` unless one of them raised. -/
def run (f : DecryptingFilter P) (writes : List Bytes) : Emission Exn Bytes (DecryptingFilter P) :=
  (f.writeAll writes).andThen close

private theorem run_cons (f : DecryptingFilter P) (data : Bytes) (rest : List Bytes) :
    f.run (data :: rest) = (f.write data).andThen fun f => f.run rest := by
  unfold run
  rw [writeAll, Emission.andThen_assoc]

/-- A write to a filter that was started: the assertion holds, and only a block with bytes goes to the cipher. -/
theorem write_eq {f : DecryptingFilter P} (hf : f.writtenTo = true) (data : Bytes) :
    f.write data =
      let (block, kept) := cut P.minimumFinalSize P.updateGranularity f.buffer data
      if block.isEmpty then .done { f with buffer := kept }
      else
        match P.update f.cipher block with
        | .error e => .fail (ofCrypto e) f
        | .ok (inout, cipher) => ⟨[(inout, { f with cipher := cipher })], none, { f with cipher := cipher, buffer := kept }⟩ := by
  have hlen : (cut P.minimumFinalSize P.updateGranularity f.buffer data).1.length =
      updated P.minimumFinalSize P.updateGranularity (f.buffer.length + data.length) := by
    rw [cut_eq, List.length_take_of_le]
    rw [List.length_append]
    exact updated_le _
  unfold write
  rw [if_pos hf]
  exact if_neg (not_not.mpr hlen)

/-- The first write starts the cipher. -/
theorem write_start {f : DecryptingFilter P} (hf : f.writtenTo = false) (data : Bytes) :
    f.write data =
      { f with cipher := P.start f.cipher SymmetricCryptor.attachmentsIV, writtenTo := true }.write data := by
  unfold write
  simp [hf]

/-- The run of a filter that was started is that of the cipher on the blocks. -/
theorem run_eq_drive {f : DecryptingFilter P} (hf : f.writtenTo = true) (writes : List Bytes) :
    ((f.run writes).output, (f.run writes).raised) =
      drive f.cipher (cuts P.minimumFinalSize P.updateGranularity f.buffer writes).2
        (cuts P.minimumFinalSize P.updateGranularity f.buffer writes).1 := by
  induction writes generalizing f with
  | nil =>
    unfold run writeAll cuts drive
    rw [Emission.done_andThen, close, if_pos hf]
    cases P.finish f.cipher f.buffer <;> rfl
  | cons data rest ih =>
    rw [run_cons, write_eq hf]
    unfold cuts
    dsimp only
    generalize cut P.minimumFinalSize P.updateGranularity f.buffer data = c
    obtain ⟨block, kept⟩ := c
    dsimp only
    split
    · rw [Emission.done_andThen]
      exact ih (f := { f with buffer := kept }) hf
    · unfold drive
      cases P.update f.cipher block with
      | error e => rfl
      | ok r =>
        obtain ⟨output, cipher⟩ := r
        have hrest := ih (f := { f with cipher := cipher, buffer := kept }) hf
        dsimp only at hrest ⊢
        rw [← hrest]
        rfl

/-- What is kept stays less than a final block and a granule, also if the cipher raises. -/
theorem write_keeps (hg : 0 < P.updateGranularity) {f : DecryptingFilter P}
    (hbuffer : f.buffer.length < P.minimumFinalSize + P.updateGranularity) (data : Bytes) :
    (f.write data).state.buffer.length < P.minimumFinalSize + P.updateGranularity := by
  have hstarted : ∀ f : DecryptingFilter P, f.writtenTo = true →
      f.buffer.length < P.minimumFinalSize + P.updateGranularity →
      (f.write data).state.buffer.length < P.minimumFinalSize + P.updateGranularity := by
    intro f hf hbuffer
    have hkept : (cut P.minimumFinalSize P.updateGranularity f.buffer data).2.length <
        P.minimumFinalSize + P.updateGranularity := by
      rw [cut_eq, List.length_drop, List.length_append]
      exact (kept_bounds hg _).1
    rw [write_eq hf]
    dsimp only
    split
    · exact hkept
    · cases P.update f.cipher (cut P.minimumFinalSize P.updateGranularity f.buffer data).1 with
      | error e => exact hbuffer
      | ok r => exact hkept
  by_cases hf : f.writtenTo = true
  · exact hstarted f hf hbuffer
  · rw [write_start (by simpa using hf)]
    exact hstarted _ rfl hbuffer

private theorem writeAll_keeps (hg : 0 < P.updateGranularity) {f : DecryptingFilter P}
    (hbuffer : f.buffer.length < P.minimumFinalSize + P.updateGranularity) (writes : List Bytes) :
    (f.writeAll writes).state.buffer.length < P.minimumFinalSize + P.updateGranularity := by
  induction writes generalizing f with
  | nil => exact hbuffer
  | cons data rest ih =>
    have hdata := write_keeps hg hbuffer data
    rw [writeAll, Emission.state_andThen]
    split
    · exact ih hdata
    · exact hdata

/-! ### Ciphers that stream -/

variable (P) in
/-- `Botan::Cipher_Mode`: blocks may come in one piece or in several, as long as they are multiples of the granularity,
and `finish` takes the rest of the message if there is enough of it. -/
structure Streaming : Prop where
  update_total : ∀ (c : P.Cipher) (a : Bytes), P.updateGranularity ∣ a.length → ∃ x c', P.update c a = .ok (x, c')
  update_append : ∀ (c : P.Cipher) (a b x y : Bytes) (c₁ c₂ : P.Cipher),
    P.updateGranularity ∣ a.length → P.updateGranularity ∣ b.length →
    P.update c a = .ok (x, c₁) → P.update c₁ b = .ok (y, c₂) → P.update c (a ++ b) = .ok (x ++ y, c₂)
  finish_append : ∀ (c : P.Cipher) (a b x : Bytes) (c' : P.Cipher),
    P.updateGranularity ∣ a.length → P.minimumFinalSize ≤ b.length →
    P.update c a = .ok (x, c') → P.finish c (a ++ b) = (P.finish c' b).map (x ++ ·)

private theorem dvd_flatten {blocks : List Bytes} (h : ∀ b ∈ blocks, b ≠ [] ∧ g ∣ b.length) : g ∣ blocks.flatten.length := by
  induction blocks with
  | nil => simp
  | cons b rest ih =>
    rw [List.flatten_cons, List.length_append]
    exact Nat.dvd_add (h b List.mem_cons_self).2 (ih fun b' hb => h b' (List.mem_cons_of_mem b hb))

/-- Several blocks are as good as one. -/
theorem drive_flatten (h : Streaming P) (c : P.Cipher) (last : Bytes) {blocks : List Bytes} (hne : blocks ≠ [])
    (hall : ∀ b ∈ blocks, b ≠ [] ∧ P.updateGranularity ∣ b.length) :
    (drive c last blocks).1.flatten = (drive c last [blocks.flatten]).1.flatten ∧
      (drive c last blocks).2 = (drive c last [blocks.flatten]).2 := by
  induction blocks generalizing c with
  | nil => exact absurd rfl hne
  | cons a rest ih =>
    have ha := (hall a List.mem_cons_self).2
    by_cases hrest : rest = []
    · subst hrest
      simp
    · have hall' : ∀ b ∈ rest, b ≠ [] ∧ P.updateGranularity ∣ b.length :=
        fun b hb => hall b (List.mem_cons_of_mem a hb)
      obtain ⟨x, c₁, hx⟩ := h.update_total c a ha
      obtain ⟨y, c₂, hy⟩ := h.update_total c₁ rest.flatten (dvd_flatten hall')
      have hxy := h.update_append c a rest.flatten x y c₁ c₂ ha (dvd_flatten hall') hx hy
      obtain ⟨houtput, hraised⟩ := ih c₁ hrest hall'
      simp only [drive, hy] at houtput hraised
      simp only [drive, List.flatten_cons, hx, hxy]
      rw [houtput, hraised]
      simp

/-- Two divisions of the same text give the same plaintext and the same verdict. -/
theorem drive_congr (h : Streaming P) (c : P.Cipher) (last : Bytes) {blocks blocks' : List Bytes}
    (hall : ∀ b ∈ blocks, b ≠ [] ∧ P.updateGranularity ∣ b.length)
    (hall' : ∀ b ∈ blocks', b ≠ [] ∧ P.updateGranularity ∣ b.length) (hflat : blocks.flatten = blocks'.flatten) :
    (drive c last blocks).1.flatten = (drive c last blocks').1.flatten ∧
      (drive c last blocks).2 = (drive c last blocks').2 := by
  have hnil : ∀ {bs : List Bytes}, (∀ b ∈ bs, b ≠ [] ∧ P.updateGranularity ∣ b.length) → bs.flatten = [] → bs = [] := by
    intro bs hbs hempty
    rw [List.flatten_eq_nil_iff] at hempty
    exact List.eq_nil_iff_forall_not_mem.mpr fun b hb => (hbs b hb).1 (hempty b hb)
  by_cases hne : blocks = []
  · subst hne
    rw [hnil hall' hflat.symm]
    exact ⟨rfl, rfl⟩
  · have hne' : blocks' ≠ [] := by
      intro h'
      subst h'
      exact hne (hnil hall hflat)
    obtain ⟨houtput, hraised⟩ := drive_flatten h c last hne hall
    obtain ⟨houtput', hraised'⟩ := drive_flatten h c last hne' hall'
    rw [houtput, hraised, houtput', hraised', hflat]
    exact ⟨rfl, rfl⟩

/-- The verdict, and the plaintext if it is good, are those of one call of `finish`. -/
theorem drive_eq_finish (h : Streaming P) (c : P.Cipher) (last : Bytes) (blocks : List Bytes)
    (hall : ∀ b ∈ blocks, b ≠ [] ∧ P.updateGranularity ∣ b.length)
    (hlast : blocks ≠ [] → P.minimumFinalSize ≤ last.length) :
    match P.finish c (blocks.flatten ++ last) with
    | .error e => (drive c last blocks).2 = some (ofCrypto e)
    | .ok plaintext => (drive c last blocks).2 = none ∧ (drive c last blocks).1.flatten = plaintext := by
  by_cases hne : blocks = []
  · subst hne
    simp only [drive, List.flatten_nil, List.nil_append]
    cases P.finish c last <;> simp
  · obtain ⟨houtput, hraised⟩ := drive_flatten h c last hne hall
    obtain ⟨x, c', hx⟩ := h.update_total c blocks.flatten (dvd_flatten hall)
    rw [h.finish_append c blocks.flatten last x c' (dvd_flatten hall) (hlast hne) hx, houtput, hraised]
    simp only [drive, hx]
    cases P.finish c' last <;> simp [Except.map]

/-- The blocks, the last block and the cipher's verdict for one ciphertext, written in at least one call. -/
theorem run_spec (hg : 0 < P.updateGranularity) (cipher : P.Cipher) {writes : List Bytes} (hne : writes ≠ []) :
    ∃ blocks last,
      ((DecryptingFilter.run { cipher := cipher } writes).output, (DecryptingFilter.run { cipher := cipher } writes).raised) =
        drive (P.start cipher SymmetricCryptor.attachmentsIV) last blocks ∧
      blocks.flatten = writes.flatten.take (updated P.minimumFinalSize P.updateGranularity writes.flatten.length) ∧
      last = writes.flatten.drop (updated P.minimumFinalSize P.updateGranularity writes.flatten.length) ∧
      (∀ b ∈ blocks, b ≠ [] ∧ P.updateGranularity ∣ b.length) ∧
      (blocks ≠ [] → P.minimumFinalSize ≤ last.length) := by
  obtain ⟨data, rest, rfl⟩ := List.exists_cons_of_ne_nil hne
  have hrun : DecryptingFilter.run { cipher := cipher } (data :: rest) = DecryptingFilter.run (P := P)
      { cipher := P.start cipher SymmetricCryptor.attachmentsIV, writtenTo := true } (data :: rest) := by
    rw [run_cons, run_cons, write_start rfl]
  have hdrive := run_eq_drive (P := P)
    (f := { cipher := P.start cipher SymmetricCryptor.attachmentsIV, writtenTo := true }) rfl (data :: rest)
  have hspec := cuts_spec (m := P.minimumFinalSize) (g := P.updateGranularity) [] (data :: rest)
  rw [List.nil_append, List.drop_nil, List.take_nil, List.nil_append] at hspec
  obtain ⟨hblocks, hlast, hall⟩ := hspec
  refine ⟨_, _, hrun ▸ hdrive, hblocks, hlast, hall, fun hblocks' => ?_⟩
  rw [hlast, List.length_drop]
  generalize (data :: rest).flatten = ciphertext at hblocks
  -- a block that is not empty leaves enough for the last one
  obtain ⟨b, hb⟩ := List.exists_mem_of_ne_nil _ hblocks'
  have hpos : 0 < (ciphertext.take (updated P.minimumFinalSize P.updateGranularity ciphertext.length)).length := by
    rw [← hblocks]
    have hle := (List.sublist_flatten_of_mem hb).length_le
    have hb' := List.length_pos_iff.mpr (hall b hb).1
    omega
  rw [List.length_take] at hpos
  have hmin : P.minimumFinalSize ≤ ciphertext.length := by
    unfold updated at hpos
    omega
  exact (kept_bounds hg ciphertext.length).2 hmin

/-- Decryption does not depend on the division of the ciphertext into calls of `write`: what goes to the cipher is the
ciphertext, cut where the cipher allows it, and plaintext and verdict are those of one call of `finish`.  A filter that
was never written to does not use the cipher, whose verdict on the empty text is then not asked for. -/
theorem run_division (hg : 0 < P.updateGranularity) (cipher : P.Cipher) :
    (∀ writes : List Bytes, writes ≠ [] → ∃ blocks last,
      ((DecryptingFilter.run { cipher := cipher } writes).output, (DecryptingFilter.run { cipher := cipher } writes).raised) =
        drive (P.start cipher SymmetricCryptor.attachmentsIV) last blocks ∧
      blocks.flatten ++ last = writes.flatten ∧
      (∀ b ∈ blocks, b ≠ [] ∧ P.updateGranularity ∣ b.length) ∧
      (P.minimumFinalSize ≤ writes.flatten.length → P.minimumFinalSize ≤ last.length)) ∧
    (∀ writes : List Bytes, (DecryptingFilter.writeAll { cipher := cipher } writes).state.buffer.length <
      P.minimumFinalSize + P.updateGranularity) ∧
    (Streaming P → ∀ writes : List Bytes, writes ≠ [] →
      (match P.finish (P.start cipher SymmetricCryptor.attachmentsIV) writes.flatten with
        | .error e => (DecryptingFilter.run { cipher := cipher } writes).raised = some (ofCrypto e)
        | .ok plaintext =>
          (DecryptingFilter.run { cipher := cipher } writes).raised = none ∧
            (DecryptingFilter.run { cipher := cipher } writes).output.flatten = plaintext) ∧
      ∀ writes' : List Bytes, writes' ≠ [] → writes'.flatten = writes.flatten →
        (DecryptingFilter.run { cipher := cipher } writes').raised =
            (DecryptingFilter.run { cipher := cipher } writes).raised ∧
          (DecryptingFilter.run { cipher := cipher } writes').output.flatten =
            (DecryptingFilter.run { cipher := cipher } writes).output.flatten) ∧
    DecryptingFilter.run { cipher := cipher } [] = .done { cipher := cipher } := by
  refine ⟨fun writes hne => ?_, fun writes => ?_, fun h writes hne => ⟨?_, fun writes' hne' hflat => ?_⟩, rfl⟩
  · obtain ⟨blocks, last, hrun, hblocks, hlast, hall, -⟩ := run_spec hg cipher hne
    refine ⟨blocks, last, hrun, ?_, hall, fun hmin => ?_⟩
    · rw [hblocks, hlast, List.take_append_drop]
    · rw [hlast, List.length_drop]
      exact (kept_bounds hg _).2 hmin
  -- the filter starts with an empty buffer
  · have hempty : ([] : Bytes).length < P.minimumFinalSize + P.updateGranularity := by
      rw [List.length_nil]
      omega
    exact writeAll_keeps hg (f := { cipher := cipher }) hempty writes
  · obtain ⟨blocks, last, hrun, hblocks, hlast, hall, hmin⟩ := run_spec hg cipher hne
    have hdrive := drive_eq_finish h (P.start cipher SymmetricCryptor.attachmentsIV) last blocks hall hmin
    have hall' : blocks.flatten ++ last = writes.flatten := by rw [hblocks, hlast, List.take_append_drop]
    rw [hall', ← hrun] at hdrive
    exact hdrive
  · obtain ⟨blocks, last, hrun, hblocks, hlast, hall, -⟩ := run_spec hg cipher hne
    obtain ⟨blocks', last', hrun', hblocks', hlast', hall', -⟩ := run_spec hg cipher hne'
    rw [hflat, ← hblocks] at hblocks'
    rw [hflat, ← hlast] at hlast'
    -- both runs keep the same last block and cut the same text before it
    have hsame := drive_congr h (P.start cipher SymmetricCryptor.attachmentsIV) last hall' hall hblocks'
    rw [hlast', Prod.ext_iff] at hrun'
    rw [← hrun'.1, ← hrun'.2, ← hrun] at hsame
    exact ⟨hsame.2, hsame.1⟩

end DecryptingFilter

/-! ### A platform that streams -/

def addUp (sum : UInt8) (text : Bytes) : UInt8 := text.foldl (· + ·) sum

private theorem addUp_append (sum : UInt8) (a b : Bytes) : addUp sum (a ++ b) = addUp (addUp sum a) b := List.foldl_append

/-- The last byte is the tag. -/
def finishSum (sum : UInt8) (text : Bytes) : Except BotanError Bytes :=
  match text.getLast? with
  | none => .error (.other "final block too short")
  | some tag => if addUp sum text.dropLast = tag then .ok text.dropLast else .error .integrityFailure

private theorem finishSum_append (sum : UInt8) (a : Bytes) {b : Bytes} (hne : b ≠ []) :
    finishSum sum (a ++ b) = (finishSum (addUp sum a) b).map (a ++ ·) := by
  obtain ⟨tag, htag⟩ : ∃ tag, b.getLast? = some tag := ⟨_, List.getLast?_eq_some_getLast hne⟩
  have hall : (a ++ b).getLast? = some tag := by rw [List.getLast?_append, htag]; rfl
  simp only [finishSum, hall, htag, List.dropLast_append_of_ne_nil hne, addUp_append]
  by_cases hsum : addUp (addUp sum a) b.dropLast = tag
  · rw [if_pos hsum, if_pos hsum, Except.map]
  · rw [if_neg hsum, if_neg hsum, Except.map]

/-- A platform that can be run: the cipher adds up the bytes it is given, and the tag must be their sum. -/
def StreamPlatform.summing : StreamPlatform where
  Cipher := UInt8
  Inflater := Unit
  setKey _ := .ok 0
  start c _ := c
  minimumFinalSize := 1
  updateGranularity := 2
  update c text := .ok (text, addUp c text)
  finish := finishSum
  inflateInit := ()
  inflate := StreamPlatform.transparent.inflate
  sha512 := StreamPlatform.transparent.sha512
  hexDecode := StreamPlatform.transparent.hexDecode

private theorem streaming_summing : DecryptingFilter.Streaming StreamPlatform.summing where
  update_total c a _ := ⟨a, _, rfl⟩
  update_append c a b x y c₁ c₂ _ _ hx hy := by
    cases hx
    cases hy
    exact congrArg (fun sum => Except.ok (a ++ b, sum)) (addUp_append c a b)
  finish_append c a b x c' _ hb hx := by
    cases hx
    exact finishSum_append c a (List.length_pos_iff.mp hb)

namespace DecryptingFilter

/-- A ciphertext of five bytes, in three calls of `write` and in one. -/
theorem run_division_summing :
    0 < StreamPlatform.summing.updateGranularity ∧ Streaming StreamPlatform.summing ∧
      [[1], [], [2, 3, 4, 10]] ≠ ([] : List Bytes) ∧ [[1, 2, 3, 4, 10]] ≠ ([] : List Bytes) ∧
      StreamPlatform.summing.finish (0 : UInt8) [1, 2, 3, 4, 10] = .ok [1, 2, 3, 4] ∧
      (DecryptingFilter.run (P := .summing) { cipher := (0 : UInt8) } [[1], [], [2, 3, 4, 10]]).output.flatten =
        (DecryptingFilter.run (P := .summing) { cipher := (0 : UInt8) } [[1, 2, 3, 4, 10]]).output.flatten :=
  ⟨by decide, streaming_summing, by decide, by decide, by rfl,
    ((((run_division (P := .summing) (by decide) (0 : UInt8)).2.2.1 streaming_summing [[1, 2, 3, 4, 10]] (by decide)).2
      [[1], [], [2, 3, 4, 10]] (by decide) rfl)).2⟩

/-- The empty ciphertext in no call of `write` and in one: only the second asks for the verdict. -/
theorem run_nil_ne_run_empty :
    0 < StreamPlatform.summing.updateGranularity ∧ Streaming StreamPlatform.summing ∧
      ([] : List Bytes).flatten = ([[]] : List Bytes).flatten ∧
      (DecryptingFilter.run (P := .summing) { cipher := (0 : UInt8) } []).raised = none ∧
      (DecryptingFilter.run (P := .summing) { cipher := (0 : UInt8) } [[]]).raised =
        some (.botanException "final block too short") :=
  ⟨by decide, streaming_summing, rfl, rfl, by rfl⟩

end DecryptingFilter

end KulloClient

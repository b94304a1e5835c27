import KulloClient.Base.Pipeline
import KulloClient.Codec.MessageEncoder

/-!
# The filters of the attachments stream

`SizeLimitingFilter`, `DecryptingFilter` and `GZipDecompressingFilter`, in the order in which a block of attachments
passes them, and the two calls their chain gets: one write of the whole block, and a close.
-/

namespace KulloClient

open Pipeline

/-- How the calls of `::inflate` on one buffer end, after those that returned `Z_OK`. -/
inductive InflateEnd (Inflater : Type)
  | needsInput
  | streamEnd (output : Bytes) (state : Inflater) (rest : Bytes)
  | failed (message : String)

/-- The calls of `::inflate` on one buffer: the output of each call that returned `Z_OK`, with the state after it. -/
structure InflateRun (Inflater : Type) where
  outputs : List (Bytes × Inflater)
  final : InflateEnd Inflater

/-- What the filters and sinks of the attachments stream call: Botan's AES-256/GCM in pieces, SHA-512 and hexadecimal
decoding, and zlib. -/
structure StreamPlatform where
  Cipher : Type
  Inflater : Type
  setKey : Bytes → Except BotanError Cipher
  /-- `start` with an IV. -/
  start : Cipher → Bytes → Cipher
  minimumFinalSize : Nat
  updateGranularity : Nat
  update : Cipher → Bytes → Except BotanError (Bytes × Cipher)
  finish : Cipher → Bytes → Except BotanError Bytes
  inflateInit : Inflater
  inflate : Inflater → Bytes → InflateRun Inflater
  sha512 : Bytes → Bytes
  hexDecode : String → Except BotanError Bytes

def hexDigit (c : Char) : Nat := if c.isDigit then c.toNat - '0'.toNat else c.toNat - 'a'.toNat + 10

def hexBytes : List Char → Bytes
  | high :: low :: rest => UInt8.ofNat (16 * hexDigit high + hexDigit low) :: hexBytes rest
  | _ => []

/-- A platform that can be run: the tag is one byte, which must be 0, a compressed stream ends with its first 255, and
the hash of a text is its beginning. -/
def StreamPlatform.transparent : StreamPlatform where
  Cipher := Unit
  Inflater := Unit
  setKey _ := .ok ()
  start _ _ := ()
  minimumFinalSize := 1
  updateGranularity := 1
  update _ text := .ok (text, ())
  finish _ text := if text = [0] then .ok [] else .error .integrityFailure
  inflateInit := ()
  inflate _ text :=
    if text.contains 255 then
      ⟨[], .streamEnd (text.takeWhile (· ≠ 255)) () ((text.dropWhile (· ≠ 255)).drop 1)⟩
    else ⟨[(text, ())], .needsInput⟩
  sha512 text := (text ++ List.replicate 64 0).take 64
  hexDecode hash := .ok (hexBytes hash.toList)

variable (P : StreamPlatform)

/-! ### SizeLimitingFilter -/

namespace SizeLimitingFilter

def write (maxSize bytesWritten : Nat) (data : Bytes) : Emission Exn Bytes Nat :=
  let bytesWritten := bytesWritten + data.length
  if maxSize < bytesWritten then .fail (.invalidContentFormat "Attachments are too large") bytesWritten
  else ⟨[(data, bytesWritten)], none, bytesWritten⟩

end SizeLimitingFilter

/-! ### DecryptingFilter -/

structure DecryptingFilter where
  cipher : P.Cipher
  writtenTo : Bool := false
  buffer : Bytes := []

namespace DecryptingFilter

variable {P}

def ofCrypto : BotanError → Exn
  | .integrityFailure => .integrityFailure "DecryptingFilter::doWrite()"
  | .other message => .botanException message

def write (f : DecryptingFilter P) (data : Bytes) : Emission Exn Bytes (DecryptingFilter P) :=
  let f := if f.writtenTo then f
    else { f with cipher := P.start f.cipher SymmetricCryptor.attachmentsIV, writtenTo := true }
  -- what may be the authentication tag is kept back
  let totalBytesAvailable := f.buffer.length + data.length - P.minimumFinalSize
  let totalBytesToWrite := totalBytesAvailable - totalBytesAvailable % P.updateGranularity
  let bufferBytesToWrite := min totalBytesToWrite f.buffer.length
  let dataBytesToWrite := totalBytesToWrite - bufferBytesToWrite
  let writeBuf := f.buffer.take bufferBytesToWrite ++ data.take dataBytesToWrite
  let buffer := f.buffer.drop bufferBytesToWrite ++ data.drop dataBytesToWrite
  if writeBuf.length ≠ totalBytesToWrite then .fail (.assertionFailed "writeBuf.size() == totalBytesToWrite") f
  else if writeBuf.isEmpty then .done { f with buffer := buffer }
  else
    match P.update f.cipher writeBuf with
    | .error e => .fail (ofCrypto e) f
    | .ok (inout, cipher) => ⟨[(inout, { f with cipher := cipher })], none, { f with cipher := cipher, buffer := buffer }⟩

/-- The rest is decrypted and the authentication tag is checked. -/
def close (f : DecryptingFilter P) : Emission Exn Bytes (DecryptingFilter P) :=
  if f.writtenTo then
    match P.finish f.cipher f.buffer with
    | .error e => .fail (ofCrypto e) f
    | .ok output => ⟨[(output, f)], none, f⟩
  else .done f

end DecryptingFilter

/-! ### GZipDecompressingFilter -/

structure GZipDecompressingFilter where
  zstream : P.Inflater
  hasSeenInput : Bool := false
  finished : Bool := false

namespace GZipDecompressingFilter

variable {P}

/-- Outputs without bytes are not written. -/
def produced (b : Bytes) (f : GZipDecompressingFilter P) : List (Bytes × GZipDecompressingFilter P) :=
  if b.isEmpty then [] else [(b, f)]

def write (f : GZipDecompressingFilter P) (buffer : Bytes) : Emission Exn Bytes (GZipDecompressingFilter P) :=
  if buffer.isEmpty then .done f
  else
    let f := { f with hasSeenInput := true }
    if f.finished then .fail (.gzipStreamError "Tried to write to a finished stream") f
    else
      let run := P.inflate f.zstream buffer
      let chunks := run.outputs.flatMap fun out => produced out.1 { f with zstream := out.2 }
      let zstream := (run.outputs.getLast?.map Prod.snd).getD f.zstream
      match run.final with
      | .needsInput => ⟨chunks, none, { f with zstream := zstream }⟩
      | .failed message =>
        ⟨chunks, some (.gzipStreamError ("inflate error " ++ message)), { f with zstream := zstream, finished := true }⟩
      | .streamEnd output zstream rest =>
        let f := { f with zstream := zstream, finished := true }
        ⟨chunks ++ produced output f,
          if rest.isEmpty then none else some (.gzipStreamError "Encountered extra input after stream end"), f⟩

def close (f : GZipDecompressingFilter P) : Emission Exn Bytes (GZipDecompressingFilter P) :=
  if f.hasSeenInput && !f.finished then
    .fail (.gzipStreamError "Tried to close non-empty but unfinished stream") f
  else .done f

end GZipDecompressingFilter

/-! ### The chain -/

/-- The filters of the chain, first the one that is written to. -/
structure AttachmentFilters where
  bytesWritten : Nat := 0
  decrypting : DecryptingFilter P
  gzip : GZipDecompressingFilter P

namespace AttachmentFilters

variable {P}

def new (cipher : P.Cipher) : AttachmentFilters P where
  decrypting := { cipher := cipher }
  gzip := { zstream := P.inflateInit }

/-- `FilterChain::write`, up to the sink. -/
def write (f : AttachmentFilters P) (block : Bytes) : Emission Exn Bytes (AttachmentFilters P) :=
  let limited := SizeLimitingFilter.write messageAttachmentsMaxBytes f.bytesWritten block
  let decrypted := limited.pipe DecryptingFilter.write f.decrypting
  let unzipped := decrypted.pipe GZipDecompressingFilter.write f.gzip
  unzipped.map fun state => ⟨state.1.1, state.1.2, state.2⟩

/-- The part of `FilterChain::close` that closes the filters. -/
def close (f : AttachmentFilters P) : Emission Exn Bytes (AttachmentFilters P) :=
  let decrypted := f.decrypting.close
  let unzipped := decrypted.pipe GZipDecompressingFilter.write f.gzip
  (unzipped.map fun state => ⟨f.bytesWritten, state.1, state.2⟩).andThen fun f =>
    f.gzip.close.map fun gzip => { f with gzip := gzip }

/-- What a block comes to: the chunks for the sink, written and then at the close. -/
def output (f : AttachmentFilters P) (block : Bytes) : List Bytes :=
  (f.write block).output ++ (f.write block).state.close.output

/-- Filters that were not written to have nothing for the sink. -/
theorem new_close (cipher : P.Cipher) : (new cipher).close = Emission.done (new cipher) := rfl

end AttachmentFilters

end KulloClient

import Cove.Core.Footer

/-!
# Compressed sections

The bytes of a section in a file, and the payload they stand for, in a build with both codecs.

- `CodecLibraries`: what the codecs are asked to do, and `Lossless`: that they undo it.
- `encodePayloadForCodec`, `sectionPayload`: the two directions.
- `payloadFromRaw_encode`: **what was written for a codec is read back**.
-/

namespace Cove

open Checked

/-- The libraries behind the codecs; their failures are texts. -/
structure CodecLibraries where
  lz4Compress : List UInt8 → List UInt8
  lz4Decompress : List UInt8 → Nat → Except String (List UInt8)
  zstdEncode : List UInt8 → Except String (List UInt8)
  zstdDecode : List UInt8 → Except String (List UInt8)

/-- The libraries decompress what they compressed. -/
structure CodecLibraries.Lossless (codecs : CodecLibraries) : Prop where
  lz4 : ∀ payload, codecs.lz4Decompress (codecs.lz4Compress payload) payload.length = .ok payload
  zstd : ∀ payload raw, codecs.zstdEncode payload = .ok raw → codecs.zstdDecode raw = .ok payload

section

variable (codecs : CodecLibraries)

/-- `lz4_decompress`. -/
def lz4Decompress (raw : List UInt8) (expectedLen : Nat) : Except CoveError (List UInt8) :=
  (codecs.lz4Decompress raw expectedLen).mapError
    fun e => .badSection s!"LZ4 decompression failed: {e}"

/-- `zstd_compress`. -/
def zstdCompress (payload : List UInt8) : Except CoveError (List UInt8) :=
  (codecs.zstdEncode payload).mapError fun e => .badSection s!"Zstd compression failed: {e}"

/-- `zstd_decompress`. -/
def zstdDecompress (raw : List UInt8) (expectedLen : Nat) : Except CoveError (List UInt8) := do
  let out ← (codecs.zstdDecode raw).mapError
    fun e => .badSection s!"Zstd decompression failed: {e}"
  if out.length ≠ expectedLen then
    .error (.badSection (s!"Zstd produced {out.length} bytes but section declares " ++
      s!"uncompressed_length={expectedLen}"))
  else .ok out

/-- `encode_payload_for_codec`. -/
def encodePayloadForCodec (payload : List UInt8) (compression : Nat) :
    Except CoveError (List UInt8) :=
  match CompressionCodec.fromU8 compression with
  | none => .error (.badSection s!"unknown compression codec {compression}")
  | some .none => .ok payload
  | some .lz4 => .ok (codecs.lz4Compress payload)
  | some .zstd => zstdCompress codecs payload

/-- `payload_from_raw`. -/
def payloadFromRaw (raw : List UInt8) (length uncompressedLength compression : Nat) :
    Except CoveError (List UInt8) :=
  match CompressionCodec.fromU8 compression with
  | none => .error (.badSection s!"unknown compression codec {compression}")
  | some .none =>
    if uncompressedLength ≠ length then
      .error (.badSection "uncompressed_length must equal length when codec=None")
    else .ok raw
  | some .lz4 => lz4Decompress codecs raw uncompressedLength
  | some .zstd => zstdDecompress codecs raw uncompressedLength

/-- `payload_raw_bytes`. -/
def payloadRawBytes (fileData : List UInt8) (offset length : Nat) :
    Except CoveError (List UInt8) := do
  let stop ← checkedAdd offset length
  if stop > fileData.length then .error .offsetRange else .ok (fieldBytes fileData offset length)

/-- `section_payload`. -/
def sectionPayload (fileData : List UInt8) (entry : CoveSectionEntryV1) :
    Except CoveError (List UInt8) := do
  let raw ← payloadRawBytes fileData entry.offset entry.length
  payloadFromRaw codecs raw entry.length entry.uncompressedLength entry.compression

end

variable {codecs : CodecLibraries} {payload raw : List UInt8} {compression : Nat}

/-- **What was written for a codec is read back.** -/
theorem payloadFromRaw_encode (hcodecs : codecs.Lossless)
    (h : encodePayloadForCodec codecs payload compression = .ok raw) :
    payloadFromRaw codecs raw raw.length payload.length compression = .ok payload := by
  unfold encodePayloadForCodec at h
  unfold payloadFromRaw
  cases hcodec : CompressionCodec.fromU8 compression with
  | none =>
    rw [hcodec] at h
    cases h
  | some codec =>
    rw [hcodec] at h
    cases codec with
    | none =>
      obtain rfl := Except.ok.inj h
      exact if_neg (not_not_intro rfl)
    | lz4 =>
      obtain rfl := Except.ok.inj h
      exact mapError_eq_ok.mpr (hcodecs.lz4 payload)
    | zstd =>
      have hdecode := hcodecs.zstd payload raw (mapError_eq_ok.mp h)
      show zstdDecompress codecs raw payload.length = .ok payload
      unfold zstdDecompress
      rw [mapError_eq_ok.mpr hdecode, ok_bind, if_neg (not_not_intro rfl)]

/-- Without a codec nothing changes, so the lengths agree. -/
theorem length_eq_of_encode_none (h : encodePayloadForCodec codecs payload 0 = .ok raw) :
    raw.length = payload.length := by
  obtain rfl := Except.ok.inj h
  rfl

end Cove

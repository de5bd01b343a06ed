/-!
# The header of a WAV file

A WAV file is a list of chunks after a short tag.  The format chunk tells the sample rate, the
channels and the size of a sample; the length of the data chunk then tells how many samples there
are.  Reading stops at the data chunk.
-/

namespace Soundscape

/-- Why a header cannot be read. -/
inductive WavError where
  | tooShort
  | malformed (reason : String)
  /-- The samples are kept in a way that is not known. -/
  | unsupported
  deriving Repr, DecidableEq

def WavError.message : WavError → String
  | tooShort => "Failed to read enough bytes."
  | malformed reason => "Ill-formed WAVE file: " ++ reason
  | unsupported => "The wave format of the file is not supported."

/-- What a header tells about the length of a file. -/
structure WavHeader where
  rate : Nat
  frames : Nat
  deriving Repr, DecidableEq

namespace WavHeader

abbrev ByteReader := StateT Nat (Except WavError)

def take (bytes : ByteArray) (n : Nat) : ByteReader (List UInt8) := fun position =>
  if position + n ≤ bytes.size then
    .ok ((bytes.extract position (position + n)).toList, position + n)
  else .error .tooShort

def skip (bytes : ByteArray) (n : Nat) : ByteReader Unit := fun position =>
  if position + n ≤ bytes.size then .ok ((), position + n) else .error .tooShort

def number (bs : List UInt8) : Nat := bs.foldr (fun b n => b.toNat + 256 * n) 0

def takeNumber (bytes : ByteArray) (n : Nat) : ByteReader Nat := number <$> take bytes n

def fail {A : Type} (reason : String) : ByteReader A := throw (.malformed reason)

def tag (name : String) : List UInt8 := name.toUTF8.toList

/-- What the format chunk tells. -/
structure Format where
  channels : Nat
  rate : Nat
  sampleBytes : Nat

/-- The rest of the format chunk of plain samples. -/
def plainRest (bytes : ByteArray) (size bits : Nat) : ByteReader Unit := do
  if size != 16 && size != 18 && size != 40 then fail "unexpected fmt chunk size"
  if size != 16 then
    skip bytes 2
    if bits != 8 && bits != 16 && bits != 24 then fail "bits per sample is not 8 or 16"
  if size == 40 then skip bytes 22

/-- The rest of the format chunk of floating-point samples. -/
def floatRest (bytes : ByteArray) (size bits : Nat) : ByteReader Unit := do
  if size != 16 && size != 18 then fail "unexpected fmt chunk size"
  if size == 18 then
    if (← takeNumber bytes 2) != 0 then fail "unexpected WAVEFORMATEX size"
  if bits != 32 then fail "bits per sample is not 32"

/-- The end that all known kinds of samples have in common. -/
def kindSuffix : List UInt8 :=
  [0x00, 0x00, 0x00, 0x00, 0x10, 0x00, 0x80, 0x00, 0x00, 0xaa, 0x00, 0x38, 0x9b, 0x71]

/-- The rest of the format chunk that names the kind of its samples at length. -/
def extensibleRest (bytes : ByteArray) (size : Nat) : ByteReader Unit := do
  if size < 40 then fail "unexpected fmt chunk size"
  if (← takeNumber bytes 2) != 22 then fail "unexpected WAVEFORMATEXTENSIBLE size"
  skip bytes 6
  let kind ← take bytes 16
  if kind != [1, 0] ++ kindSuffix && kind != [3, 0] ++ kindSuffix then throw .unsupported

/-- The format chunk, of which the size is known. -/
def format (bytes : ByteArray) (size : Nat) : ByteReader Format := do
  if size < 16 then fail "invalid fmt chunk size"
  let kind ← takeNumber bytes 2
  let channels ← takeNumber bytes 2
  let rate ← takeNumber bytes 4
  let byteRate ← takeNumber bytes 4
  let block ← takeNumber bytes 2
  let bits ← takeNumber bytes 2
  if channels == 0 then fail "file contains zero channels"
  let sampleBytes := block / channels
  if UInt16.size ≤ sampleBytes * 8 || sampleBytes * 8 < bits then
    fail "sample bits exceeds size of sample"
  if byteRate != block * rate % UInt32.size then fail "inconsistent fmt chunk"
  if bits % 8 != 0 then fail "bits per sample is not a multiple of 8"
  if bits == 0 then fail "bits per sample is 0"
  match kind with
  | 1 => plainRest bytes size bits
  | 3 => floatRest bytes size bits
  | 0xfffe => extensibleRest bytes size
  | _ => throw .unsupported
  pure { channels, rate, sampleBytes }

/-- Reads chunks up to the data chunk. -/
def chunks (bytes : ByteArray) : Nat → Option Format → ByteReader WavHeader
  | 0, _ => throw .tooShort
  | turns + 1, known => do
    let name ← take bytes 4
    let size ← takeNumber bytes 4
    if name == tag "fmt " then
      chunks bytes turns (some (← format bytes size))
    else if name == tag "fact" then
      skip bytes 4
      chunks bytes turns known
    else if name == tag "data" then
      match known with
      | none => fail "missing fmt chunk"
      | some f =>
        let samples := size / f.sampleBytes
        if samples * f.sampleBytes != size then
          fail "data chunk length is not a multiple of sample size"
        if samples % f.channels != 0 then fail "invalid data chunk length"
        pure { rate := f.rate, frames := samples / f.channels }
    else
      skip bytes size
      chunks bytes turns known

/-- Reads a header. -/
def read (bytes : ByteArray) : Except WavError WavHeader :=
  let reader : ByteReader WavHeader := do
    if (← take bytes 4) != tag "RIFF" then fail "no RIFF tag found"
    skip bytes 4
    if (← take bytes 4) != tag "WAVE" then fail "no WAVE tag found"
    chunks bytes (bytes.size + 1) none
  Prod.fst <$> reader 0

end WavHeader

end Soundscape

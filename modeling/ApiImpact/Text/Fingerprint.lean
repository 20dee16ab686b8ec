/-!
Fingerprints of text: SipHash with one compression round and three finalization rounds, keys zero,
over the UTF-8 bytes followed by one byte `0xff`.
-/

namespace ApiImpact.Text

/-- The four words of the hash. -/
structure SipState where
  v0 : UInt64
  v1 : UInt64
  v2 : UInt64
  v3 : UInt64

/-- `x` rotated left by `n` bits, for `n` between 1 and 63. -/
def rotateLeft (x : UInt64) (n : UInt64) : UInt64 :=
  (x <<< n) ||| (x >>> (64 - n))

/-- One round. -/
def SipState.round (s : SipState) : SipState :=
  let v0 := s.v0 + s.v1
  let v1 := rotateLeft s.v1 13 ^^^ v0
  let v0 := rotateLeft v0 32
  let v2 := s.v2 + s.v3
  let v3 := rotateLeft s.v3 16 ^^^ v2
  let v0 := v0 + v3
  let v3 := rotateLeft v3 21 ^^^ v0
  let v2 := v2 + v1
  let v1 := rotateLeft v1 17 ^^^ v2
  let v2 := rotateLeft v2 32
  ⟨v0, v1, v2, v3⟩

/-- Takes one word in. -/
def SipState.absorb (s : SipState) (word : UInt64) : SipState :=
  let mixed := SipState.round { s with v3 := s.v3 ^^^ word }
  { mixed with v0 := mixed.v0 ^^^ word }

/-- The state before any word. -/
def SipState.start : SipState :=
  ⟨0x736f6d6570736575, 0x646f72616e646f6d, 0x6c7967656e657261, 0x7465646279746573⟩

/-- The word of up to eight bytes, lowest byte first. -/
def littleEndian (bytes : List UInt8) : UInt64 :=
  bytes.foldr (fun b word => (word <<< 8) ||| b.toUInt64) 0

/-- Takes all whole words of `bytes` in, then the rest with the length modulo 256 in the top byte. -/
def SipState.absorbAll (s : SipState) (length : Nat) : List UInt8 → SipState
  | b0 :: b1 :: b2 :: b3 :: b4 :: b5 :: b6 :: b7 :: rest =>
    (s.absorb (littleEndian [b0, b1, b2, b3, b4, b5, b6, b7])).absorbAll length rest
  | rest => s.absorb (littleEndian rest ||| (UInt64.ofNat (length % 256) <<< 56))

/-- The hash of the bytes taken in. -/
def SipState.finish (s : SipState) : UInt64 :=
  let last := SipState.round (SipState.round (SipState.round { s with v2 := s.v2 ^^^ 0xff }))
  last.v0 ^^^ last.v1 ^^^ last.v2 ^^^ last.v3

/-- The fingerprint of `text`. -/
def fingerprint (text : String) : UInt64 :=
  let bytes := text.toUTF8.toList ++ [0xff]
  (SipState.start.absorbAll bytes.length bytes).finish

end ApiImpact.Text

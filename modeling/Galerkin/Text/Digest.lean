/-!
Digests of texts: SHA-256 of their bytes, written with sixty-four digits.
-/

namespace Galerkin.Text

/-- What a digest keeps of the blocks so far. -/
structure Digest where
  a : UInt32
  b : UInt32
  c : UInt32
  d : UInt32
  e : UInt32
  f : UInt32
  g : UInt32
  h : UInt32

namespace Digest

def initial : Digest :=
  ⟨0x6a09e667, 0xbb67ae85, 0x3c6ef372, 0xa54ff53a, 0x510e527f, 0x9b05688c, 0x1f83d9ab, 0x5be0cd19⟩

/-- The fractions of the cube roots of the first primes. -/
def constants : List UInt32 :=
  [0x428a2f98, 0x71374491, 0xb5c0fbcf, 0xe9b5dba5, 0x3956c25b, 0x59f111f1, 0x923f82a4, 0xab1c5ed5,
    0xd807aa98, 0x12835b01, 0x243185be, 0x550c7dc3, 0x72be5d74, 0x80deb1fe, 0x9bdc06a7, 0xc19bf174,
    0xe49b69c1, 0xefbe4786, 0x0fc19dc6, 0x240ca1cc, 0x2de92c6f, 0x4a7484aa, 0x5cb0a9dc, 0x76f988da,
    0x983e5152, 0xa831c66d, 0xb00327c8, 0xbf597fc7, 0xc6e00bf3, 0xd5a79147, 0x06ca6351, 0x14292967,
    0x27b70a85, 0x2e1b2138, 0x4d2c6dfc, 0x53380d13, 0x650a7354, 0x766a0abb, 0x81c2c92e, 0x92722c85,
    0xa2bfe8a1, 0xa81a664b, 0xc24b8b70, 0xc76c51a3, 0xd192e819, 0xd6990624, 0xf40e3585, 0x106aa070,
    0x19a4c116, 0x1e376c08, 0x2748774c, 0x34b0bcb5, 0x391c0cb3, 0x4ed8aa4a, 0x5b9cca4f, 0x682e6ff3,
    0x748f82ee, 0x78a5636f, 0x84c87814, 0x8cc70208, 0x90befffa, 0xa4506ceb, 0xbef9a3f7, 0xc67178f2]

def rotate (x n : UInt32) : UInt32 := (x >>> n) ||| (x <<< (32 - n))

/-- The words of a block and those that follow from them. -/
def schedule : Nat → List UInt32 → List UInt32
  | 0, ws => ws
  | n + 1, ws =>
    let x := ws.getD 1 0
    let y := ws.getD 14 0
    let next := (rotate y 17 ^^^ rotate y 19 ^^^ (y >>> 10)) + ws.getD 9 0 +
      (rotate x 7 ^^^ rotate x 18 ^^^ (x >>> 3)) + ws.getD 0 0
    ws.getD 0 0 :: schedule n (ws.drop 1 ++ [next])

def round (s : Digest) (k w : UInt32) : Digest :=
  let t := s.h + (rotate s.e 6 ^^^ rotate s.e 11 ^^^ rotate s.e 25) + ((s.e &&& s.f) ^^^ (~~~s.e &&& s.g)) + k + w
  let u := (rotate s.a 2 ^^^ rotate s.a 13 ^^^ rotate s.a 22) + ((s.a &&& s.b) ^^^ (s.a &&& s.c) ^^^ (s.b &&& s.c))
  ⟨t + u, s.a, s.b, s.c, s.d + t, s.e, s.f, s.g⟩

def absorb (s : Digest) (block : List UInt32) : Digest :=
  let t := (constants.zip (schedule 48 block)).foldl (fun s (k, w) => s.round k w) s
  ⟨s.a + t.a, s.b + t.b, s.c + t.c, s.d + t.d, s.e + t.e, s.f + t.f, s.g + t.g, s.h + t.h⟩

def absorbBlocks : Nat → Digest → List UInt32 → Digest
  | 0, s, _ => s
  | n + 1, s, ws => absorbBlocks n (s.absorb (ws.take 16)) (ws.drop 16)

/-- A message is closed with a bit and its length, at the end of a block. -/
def padded (bytes : List UInt8) : List UInt8 :=
  let size := (List.range 8).map fun i => UInt8.ofNat ((8 * bytes.length) >>> (56 - 8 * i))
  bytes ++ 0x80 :: (List.replicate ((119 - bytes.length % 64) % 64) 0 ++ size)

def words : List UInt8 → List UInt32
  | p :: q :: r :: s :: rest =>
    ((p.toUInt32 <<< 24) ||| (q.toUInt32 <<< 16) ||| (r.toUInt32 <<< 8) ||| s.toUInt32) :: words rest
  | _ => []

def hexDigits (x : UInt32) : List Char := (List.range 8).map fun i => Nat.digitChar ((x.toNat >>> (28 - 4 * i)) % 16)

/-- The digits of the digest of some characters. -/
def ofChars (cs : List Char) : List Char :=
  let ws := words (padded (cs.flatMap String.utf8EncodeChar))
  let s := absorbBlocks (ws.length / 16) initial ws
  [s.a, s.b, s.c, s.d, s.e, s.f, s.g, s.h].flatMap hexDigits

end Digest

/-- The digest of a text. -/
def sha256 (text : String) : String := String.ofList (Digest.ofChars text.toList)

theorem length_sha256 (text : String) : (sha256 text).length = 64 := by
  simp [sha256, Digest.ofChars, Digest.hexDigits]

example : sha256 "abc" = "ba7816bf8f01cfea414140de5dae2223b00361a396177a9cb410ff61f20015ad" := by decide +kernel

end Galerkin.Text

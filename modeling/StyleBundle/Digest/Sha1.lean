/-!
# SHA-1

The name of a cache entry is the SHA-1 digest of the source's path in hexadecimal. The digest is
taken over the message padded to whole blocks of sixteen words, by eighty rounds a block.
-/

namespace StyleBundle.Digest.Sha1

/-- The five words of a digest. -/
structure State where
  /-- First word. -/
  a : UInt32
  /-- Second word. -/
  b : UInt32
  /-- Third word. -/
  c : UInt32
  /-- Fourth word. -/
  d : UInt32
  /-- Fifth word. -/
  e : UInt32
  deriving DecidableEq

/-- The state before the first block. -/
def State.initial : State :=
  ⟨0x67452301, 0xEFCDAB89, 0x98BADCFE, 0x10325476, 0xC3D2E1F0⟩

/-- The word with its bits turned left. -/
def rotateLeft (x n : UInt32) : UInt32 := (x <<< n) ||| (x >>> (32 - n))

/-- The bytes of a number, most significant first. -/
def bigEndian : (width n : Nat) → List UInt8
  | 0, _ => []
  | width + 1, n => bigEndian width (n / 256) ++ [(n % 256).toUInt8]

/-- The message with a one bit, zeros up to a whole number of blocks, and its length in bits. -/
def pad (message : List UInt8) : List UInt8 :=
  let n := message.length
  message ++ 0x80 :: List.replicate ((119 - n % 64) % 64) 0 ++ bigEndian 8 (n * 8)

/-- The words that four bytes each write. -/
def words : List UInt8 → List UInt32
  | a :: b :: c :: d :: rest =>
    (a.toUInt32 <<< 24 ||| b.toUInt32 <<< 16 ||| c.toUInt32 <<< 8 ||| d.toUInt32) :: words rest
  | _ => []

/-- The words used by the rounds, given the last sixteen in reverse; each new one is made of four
of them. -/
def schedule : Nat → List UInt32 → List UInt32
  | 0, _ => []
  | n + 1, last =>
    let w (i : Nat) := last.getD i 0
    let new := rotateLeft (w 2 ^^^ w 7 ^^^ w 13 ^^^ w 15) 1
    new :: schedule n (new :: last.take 15)

/-- The mixing function and the constant of a round. -/
def mix (round : Nat) (s : State) : UInt32 × UInt32 :=
  if round < 20 then ((s.b &&& s.c) ||| (~~~s.b &&& s.d), 0x5A827999)
  else if round < 40 then (s.b ^^^ s.c ^^^ s.d, 0x6ED9EBA1)
  else if round < 60 then ((s.b &&& s.c) ||| (s.b &&& s.d) ||| (s.c &&& s.d), 0x8F1BBCDC)
  else (s.b ^^^ s.c ^^^ s.d, 0xCA62C1D6)

/-- One round. -/
def State.round (s : State) (round : Nat) (word : UInt32) : State :=
  let (f, k) := mix round s
  ⟨rotateLeft s.a 5 + f + s.e + k + word, s.a, rotateLeft s.b 30, s.c, s.d⟩

/-- The rounds from a given number on. -/
def State.rounds (s : State) (round : Nat) : List UInt32 → State
  | [] => s
  | word :: rest => (s.round round word).rounds (round + 1) rest

/-- The state after one block. -/
def State.block (s : State) (block : List UInt32) : State :=
  let t := s.rounds 0 (block ++ schedule 64 block.reverse)
  ⟨s.a + t.a, s.b + t.b, s.c + t.c, s.d + t.d, s.e + t.e⟩

/-- The state after so many blocks. -/
def State.blocks (s : State) : Nat → List UInt32 → State
  | 0, _ => s
  | n + 1, message => (s.block (message.take 16)).blocks n (message.drop 16)

/-- The digest of a message. -/
def digest (message : List UInt8) : State :=
  let padded := words (pad message)
  State.initial.blocks (padded.length / 16) padded

/-- Eight hexadecimal digits. -/
def hexWord (w : UInt32) : List Char :=
  (List.range 8).map fun i => Nat.digitChar ((w.toNat >>> (4 * (7 - i))) % 16)

/-- The digest of a message in hexadecimal. -/
def hexDigest (message : List UInt8) : String :=
  let s := digest message
  String.ofList ([s.a, s.b, s.c, s.d, s.e].flatMap hexWord)

end StyleBundle.Digest.Sha1

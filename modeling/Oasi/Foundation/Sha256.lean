import Oasi.Foundation.Numerals

/-! # SHA-256

The digest function of the standard library: messages are padded to blocks of
64 bytes and each block is compressed into the state in 64 rounds.
-/

namespace Oasi

namespace Sha256

/-- The constants of the rounds. -/
def roundConstants : List UInt32 :=
  [0x428a2f98, 0x71374491, 0xb5c0fbcf, 0xe9b5dba5, 0x3956c25b, 0x59f111f1, 0x923f82a4, 0xab1c5ed5,
    0xd807aa98, 0x12835b01, 0x243185be, 0x550c7dc3, 0x72be5d74, 0x80deb1fe, 0x9bdc06a7, 0xc19bf174,
    0xe49b69c1, 0xefbe4786, 0x0fc19dc6, 0x240ca1cc, 0x2de92c6f, 0x4a7484aa, 0x5cb0a9dc, 0x76f988da,
    0x983e5152, 0xa831c66d, 0xb00327c8, 0xbf597fc7, 0xc6e00bf3, 0xd5a79147, 0x06ca6351, 0x14292967,
    0x27b70a85, 0x2e1b2138, 0x4d2c6dfc, 0x53380d13, 0x650a7354, 0x766a0abb, 0x81c2c92e, 0x92722c85,
    0xa2bfe8a1, 0xa81a664b, 0xc24b8b70, 0xc76c51a3, 0xd192e819, 0xd6990624, 0xf40e3585, 0x106aa070,
    0x19a4c116, 0x1e376c08, 0x2748774c, 0x34b0bcb5, 0x391c0cb3, 0x4ed8aa4a, 0x5b9cca4f, 0x682e6ff3,
    0x748f82ee, 0x78a5636f, 0x84c87814, 0x8cc70208, 0x90befffa, 0xa4506ceb, 0xbef9a3f7, 0xc67178f2]

/-- The eight words of the state. -/
structure Words where
  a : UInt32
  b : UInt32
  c : UInt32
  d : UInt32
  e : UInt32
  f : UInt32
  g : UInt32
  h : UInt32

def initial : Words :=
  ⟨0x6a09e667, 0xbb67ae85, 0x3c6ef372, 0xa54ff53a,
    0x510e527f, 0x9b05688c, 0x1f83d9ab, 0x5be0cd19⟩

def rotateRight (word count : UInt32) : UInt32 := (word >>> count) ||| (word <<< (32 - count))

def smallSigma0 (word : UInt32) : UInt32 :=
  rotateRight word 7 ^^^ rotateRight word 18 ^^^ (word >>> 3)

def smallSigma1 (word : UInt32) : UInt32 :=
  rotateRight word 17 ^^^ rotateRight word 19 ^^^ (word >>> 10)

def bigSigma0 (word : UInt32) : UInt32 :=
  rotateRight word 2 ^^^ rotateRight word 13 ^^^ rotateRight word 22

def bigSigma1 (word : UInt32) : UInt32 :=
  rotateRight word 6 ^^^ rotateRight word 11 ^^^ rotateRight word 25

/-- So many words of the message schedule, from the sixteen that come next. -/
def schedule : Nat → List UInt32 → List UInt32
  | 0, _ => []
  | _ + 1, [] => []
  | count + 1, word :: window =>
      let next := smallSigma1 (window.getD 13 0) + window.getD 8 0 +
        smallSigma0 (window.getD 0 0) + word
      word :: schedule count (window ++ [next])

def round (words : Words) (constant word : UInt32) : Words :=
  let choice := (words.e &&& words.f) ^^^ (~~~words.e &&& words.g)
  let majority := (words.a &&& words.b) ^^^ (words.a &&& words.c) ^^^ (words.b &&& words.c)
  let first := words.h + bigSigma1 words.e + choice + constant + word
  let second := bigSigma0 words.a + majority
  ⟨first + second, words.a, words.b, words.c, words.d + first, words.e, words.f, words.g⟩

/-- Four bytes as a word, most significant first. -/
def wordsOf : Bytes → List UInt32
  | first :: second :: third :: fourth :: rest =>
      ((first.toUInt32 <<< 24) ||| (second.toUInt32 <<< 16) ||| (third.toUInt32 <<< 8) |||
        fourth.toUInt32) :: wordsOf rest
  | _ => []

def wordBytes (word : UInt32) : Bytes :=
  [(word >>> 24).toUInt8, (word >>> 16).toUInt8, (word >>> 8).toUInt8, word.toUInt8]

def compress (words : Words) (block : Bytes) : Words :=
  let rounds := (roundConstants.zip (schedule 64 (wordsOf block))).foldl
    (fun words step => round words step.1 step.2) words
  ⟨words.a + rounds.a, words.b + rounds.b, words.c + rounds.c, words.d + rounds.d,
    words.e + rounds.e, words.f + rounds.f, words.g + rounds.g, words.h + rounds.h⟩

/-- The message, the bit 1, zeros, and the bit length in eight bytes. -/
def pad (message : Bytes) : Bytes :=
  let bits := 8 * message.length
  message ++ [0x80] ++ List.replicate ((119 - message.length % 64) % 64) 0 ++
    wordBytes (UInt32.ofNat (bits / 4294967296)) ++ wordBytes (UInt32.ofNat bits)

/-- The state after so many blocks. -/
def compressBlocks : Nat → Words → Bytes → Words
  | 0, words, _ => words
  | count + 1, words, bytes =>
      compressBlocks count (compress words (bytes.take 64)) (bytes.drop 64)

end Sha256

open Sha256 in
/-- `hashlib.sha256(message).digest()` -/
def sha256 (message : Bytes) : Bytes :=
  let padded := pad message
  let words := compressBlocks (padded.length / 64) initial padded
  [words.a, words.b, words.c, words.d, words.e, words.f, words.g, words.h].flatMap wordBytes

theorem length_sha256 (message : Bytes) : (sha256 message).length = 32 := by
  simp [sha256, Sha256.wordBytes]

/-- `.hex()` of bytes. -/
def hexOf (bytes : Bytes) : String :=
  String.ofList (bytes.flatMap fun byte => hexDigits 2 byte.toNat)

/-- `hashlib.sha256(message).hexdigest()` -/
def hexdigest (message : Bytes) : String := hexOf (sha256 message)

example : hexdigest (utf8 "abc") =
    "ba7816bf8f01cfea414140de5dae2223b00361a396177a9cb410ff61f20015ad" := by decide +kernel

/-- A digest is written in hexadecimal digits. -/
theorem mem_hexdigest {message : Bytes} {char : Char} (h : char ∈ (hexdigest message).toList) :
    ∃ digit < 16, char = digit.digitChar := by
  rw [hexdigest, hexOf, String.toList_ofList, List.mem_flatMap] at h
  obtain ⟨byte, _, hchar⟩ := h
  exact mem_hexDigits hchar

end Oasi

import LittleScript.Compression.Bits

namespace LittleScript.Compression.Zstd

/-!
# The check value of a frame's content

A 64-bit hash: four lanes take in the content eight bytes each at a time, are folded into one
number, and the bytes left over are mixed in one group after the other.
-/

namespace ContentHash

/-- The five multipliers of the hash. -/
def primeOne : UInt64 := 0x9e3779b185ebca87

@[inherit_doc primeOne]
def primeTwo : UInt64 := 0xc2b2ae3d27d4eb4f

@[inherit_doc primeOne]
def primeThree : UInt64 := 0x165667b19e3779f9

@[inherit_doc primeOne]
def primeFour : UInt64 := 0x85ebca77c2b2ae63

@[inherit_doc primeOne]
def primeFive : UInt64 := 0x27d4eb2f165667c5

/-- Turn a word to the left. -/
def rotate (word amount : UInt64) : UInt64 :=
  (word <<< amount) ||| (word >>> (64 - amount))

/-- The word that a text spells, its lowest byte first. -/
def word (text : Text) : UInt64 :=
  UInt64.ofNat (ofLittleEndian text)

/-- Take a word into a lane. -/
def round (lane input : UInt64) : UInt64 :=
  rotate (lane + input * primeTwo) 31 * primeOne

/-- Fold a lane into the hash. -/
def fold (hash lane : UInt64) : UInt64 :=
  (hash ^^^ round 0 lane) * primeOne + primeFour

/-- The four lanes. -/
structure Lanes where
  first : UInt64 := primeOne + primeTwo
  second : UInt64 := primeTwo
  third : UInt64 := 0
  fourth : UInt64 := 0 - primeOne

/-- Take 32 bytes into the lanes. -/
def Lanes.take (lanes : Lanes) (text : Text) : Lanes where
  first := round lanes.first (word (text.take 8))
  second := round lanes.second (word ((text.drop 8).take 8))
  third := round lanes.third (word ((text.drop 16).take 8))
  fourth := round lanes.fourth (word ((text.drop 24).take 8))

/-- Take a number of stretches of 32 bytes; the text is what follows them. -/
def Lanes.takeAll : Nat → Lanes → Text → Lanes × Text
  | 0, lanes, text => (lanes, text)
  | count + 1, lanes, text => takeAll count (lanes.take (text.take 32)) (text.drop 32)

/-- The lanes as one number. -/
def Lanes.merge (lanes : Lanes) : UInt64 :=
  let sum := rotate lanes.first 1 + rotate lanes.second 7 + rotate lanes.third 12 +
    rotate lanes.fourth 18
  fold (fold (fold (fold sum lanes.first) lanes.second) lanes.third) lanes.fourth

/-- Mix in groups of eight bytes. -/
def mixLong : Nat → UInt64 → Text → UInt64 × Text
  | 0, hash, text => (hash, text)
  | count + 1, hash, text =>
      mixLong count (rotate (hash ^^^ round 0 (word (text.take 8))) 27 * primeOne + primeFour)
        (text.drop 8)

/-- Mix in a group of four bytes, if there is one. -/
def mixShort (hash : UInt64) (text : Text) : UInt64 × Text :=
  if text.length < 4 then (hash, text)
  else
    (rotate (hash ^^^ word (text.take 4) * primeOne) 23 * primeTwo + primeThree, text.drop 4)

/-- Mix in single bytes. -/
def mixBytes (hash : UInt64) (text : Text) : UInt64 :=
  text.foldl (fun hash byte => rotate (hash ^^^ byte.toUInt64 * primeFive) 11 * primeOne) hash

/-- Spread the last bits over the whole word. -/
def finish (hash : UInt64) : UInt64 :=
  let hash := (hash ^^^ (hash >>> 33)) * primeTwo
  let hash := (hash ^^^ (hash >>> 29)) * primeThree
  hash ^^^ (hash >>> 32)

end ContentHash

open ContentHash in
/-- The hash of a text. -/
def contentHash (text : Text) : UInt64 :=
  let (lanes, rest) := Lanes.takeAll (text.length / 32) {} text
  let start := if text.length < 32 then primeFive else lanes.merge
  let (hash, rest) := mixLong (rest.length / 8) (start + UInt64.ofNat text.length) rest
  let (hash, rest) := mixShort hash rest
  finish (mixBytes hash rest)

end LittleScript.Compression.Zstd

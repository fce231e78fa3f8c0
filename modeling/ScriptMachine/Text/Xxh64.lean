/-! XXH64, the 64-bit hash of a sequence of bytes, with seed zero. Four
accumulators take the bytes in stripes of 32; what is left is taken in words of
eight and four bytes and then byte by byte. -/
namespace ScriptMachine.Text.Xxh64

def prime1 : UInt64 := 0x9E3779B185EBCA87
def prime2 : UInt64 := 0xC2B2AE3D27D4EB4F
def prime3 : UInt64 := 0x165667B19E3779F9
def prime4 : UInt64 := 0x85EBCA77C2B2AE63
def prime5 : UInt64 := 0x27D4EB2F165667C5

def rotate (x bits : UInt64) : UInt64 :=
  (x <<< bits) ||| (x >>> (64 - bits))

def word (bytes : List UInt8) : UInt64 :=
  bytes.foldr (fun b acc => (acc <<< 8) ||| b.toUInt64) 0

def round (acc lane : UInt64) : UInt64 :=
  rotate (acc + lane * prime2) 31 * prime1

structure Lanes where
  a : UInt64
  b : UInt64
  c : UInt64
  d : UInt64
  deriving DecidableEq, Repr

def Lanes.start : Lanes :=
  ⟨prime1 + prime2,prime2,0,0 - prime1⟩

def Lanes.absorb (lanes : Lanes) (bytes : List UInt8) : Lanes :=
  ⟨round lanes.a (word (bytes.take 8)),
    round lanes.b (word ((bytes.drop 8).take 8)),
    round lanes.c (word ((bytes.drop 16).take 8)),
    round lanes.d (word ((bytes.drop 24).take 8))⟩

def stripes : Nat → Lanes → List UInt8 → Lanes
  | 0, lanes, _ => lanes
  | n + 1, lanes, bytes => stripes n (lanes.absorb bytes) (bytes.drop 32)

def merge (acc lane : UInt64) : UInt64 :=
  (acc ^^^ round 0 lane) * prime1 + prime4

def Lanes.join (lanes : Lanes) : UInt64 :=
  let sum := rotate lanes.a 1 + rotate lanes.b 7 + rotate lanes.c 12 + rotate lanes.d 18
  merge (merge (merge (merge sum lanes.a) lanes.b) lanes.c) lanes.d

def longWords : Nat → UInt64 → List UInt8 → UInt64
  | 0, acc, _ => acc
  | n + 1, acc, bytes =>
    longWords n (rotate (acc ^^^ round 0 (word (bytes.take 8))) 27 * prime1 + prime4) (bytes.drop 8)

def shortWord (acc : UInt64) (bytes : List UInt8) : UInt64 :=
  rotate (acc ^^^ (word (bytes.take 4) * prime1)) 23 * prime2 + prime3

def lastBytes (acc : UInt64) (bytes : List UInt8) : UInt64 :=
  bytes.foldl (fun acc b => rotate (acc ^^^ (b.toUInt64 * prime5)) 11 * prime1) acc

def tail (acc : UInt64) (bytes : List UInt8) : UInt64 :=
  let longs := bytes.length / 8
  let acc := longWords longs acc bytes
  let rest := bytes.drop (8 * longs)
  if rest.length < 4 then lastBytes acc rest
  else lastBytes (shortWord acc rest) (rest.drop 4)

def avalanche (acc : UInt64) : UInt64 :=
  let acc := (acc ^^^ (acc >>> 33)) * prime2
  let acc := (acc ^^^ (acc >>> 29)) * prime3
  acc ^^^ (acc >>> 32)

def hash (bytes : List UInt8) : UInt64 :=
  let full := bytes.length / 32
  let start := if full = 0 then prime5 else (stripes full Lanes.start bytes).join
  avalanche (tail (start + bytes.length.toUInt64) (bytes.drop (32 * full)))

end ScriptMachine.Text.Xxh64

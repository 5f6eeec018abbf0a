/-!
# Deflated data

Deflated data is a sequence of blocks of bits. A block holds bytes as they are, or codes for bytes
and for repetitions of earlier bytes, which are either fixed or described at its beginning.
-/

namespace RequestRouting.Gzip

/-- Data that is read bit by bit, the lowest bit of a byte first. -/
structure Bits where
  bytes : List UInt8
  used : Nat := 0

namespace Bits

/-- Reads a bit. -/
def bit? (s : Bits) : Option (Nat × Bits) :=
  match s.bytes with
  | [] => none
  | b :: rest =>
    let value := b.toNat / Nat.pow 2 s.used % 2
    if s.used = 7 then some (value, ⟨rest, 0⟩) else some (value, ⟨b :: rest, s.used + 1⟩)

/-- Reads a number of the given width, its lowest bit first. -/
def number? (s : Bits) : Nat → Option (Nat × Bits)
  | 0 => some (0, s)
  | n + 1 => do
    let (low, s) ← s.bit?
    let (high, s) ← s.number? n
    some (low + 2 * high, s)

/-- The bytes from the next full byte on. -/
def align (s : Bits) : List UInt8 := if s.used = 0 then s.bytes else s.bytes.drop 1

end Bits

/-- A code: for every length of code words, how many there are, and the symbols in the order of
their code words. -/
structure Code where
  counts : List Nat
  symbols : Array Nat

namespace Code

/-- The code in which the symbols have code words of the given lengths, zero meaning none. -/
def ofLengths (lengths : List Nat) : Code where
  counts := (List.range 15).map fun n => lengths.count (n + 1)
  symbols := ((List.range 15).flatMap fun n =>
    lengths.zipIdx.filterMap fun (length, symbol) =>
      if length = n + 1 then some symbol else none).toArray

/-- How many code words of the greatest length are left, if code words of the given lengths are
taken; nothing if there aren't enough of them. -/
def room? : Nat → List Nat → Option Nat
  | left, [] => some left
  | left, count :: counts => if 2 * left < count then none else room? (2 * left - count) counts

/-- Whether every sequence of bits starts with a code word, unless there is one code word at most. -/
def isComplete (code : Code) : Bool :=
  code.symbols.size ≤ 1 || room? 1 code.counts = some 0

/-- Reads a code word bit by bit. The word read so far, the first word of the current length and the
place of its symbol tell whether the word is complete. -/
def read? (symbols : Array Nat) (word first place : Nat) : List Nat → Bits → Option (Nat × Bits)
  | [], _ => none
  | count :: counts, s => do
    let (bit, s) ← s.bit?
    let word := word + bit
    if word < first + count then
      let symbol ← symbols[place + (word - first)]?
      some (symbol, s)
    else read? symbols (word * 2) ((first + count) * 2) (place + count) counts s

/-- Reads a symbol. -/
def symbol? (code : Code) (s : Bits) : Option (Nat × Bits) :=
  read? code.symbols 0 0 0 code.counts s

end Code

/-- The least lengths of repetitions, with the number of bits that add to them. -/
def lengthTable : List (Nat × Nat) :=
  [(3, 0), (4, 0), (5, 0), (6, 0), (7, 0), (8, 0), (9, 0), (10, 0), (11, 1), (13, 1), (15, 1),
   (17, 1), (19, 2), (23, 2), (27, 2), (31, 2), (35, 3), (43, 3), (51, 3), (59, 3), (67, 4),
   (83, 4), (99, 4), (115, 4), (131, 5), (163, 5), (195, 5), (227, 5), (258, 0)]

/-- The least distances of repetitions, with the number of bits that add to them. -/
def distanceTable : List (Nat × Nat) :=
  [(1, 0), (2, 0), (3, 0), (4, 0), (5, 1), (7, 1), (9, 2), (13, 2), (17, 3), (25, 3), (33, 4),
   (49, 4), (65, 5), (97, 5), (129, 6), (193, 6), (257, 7), (385, 7), (513, 8), (769, 8),
   (1025, 9), (1537, 9), (2049, 10), (3073, 10), (4097, 11), (6145, 11), (8193, 12), (12289, 12),
   (16385, 13), (24577, 13)]

/-- Repeats bytes from the given distance before the end. -/
def repeatBytes (out : ByteArray) (distance : Nat) : Nat → Option ByteArray
  | 0 => some out
  | n + 1 =>
    if distance = 0 || out.size < distance then none
    else repeatBytes (out.push (out.get! (out.size - distance))) distance n

/-- Reads the codes of a block up to its end. -/
def readCodes (literals distances : Code) : Nat → Bits → ByteArray → Option (Bits × ByteArray)
  | 0, _, _ => none
  | fuel + 1, s, out => do
    let (symbol, s) ← literals.symbol? s
    if symbol < 256 then readCodes literals distances fuel s (out.push (.ofNat symbol))
    else if symbol = 256 then some (s, out)
    else
      let (least, bits) ← lengthTable[symbol - 257]?
      let (extra, s) ← s.number? bits
      let (symbol, s) ← distances.symbol? s
      let (leastDistance, bits) ← distanceTable[symbol]?
      let (extraDistance, s) ← s.number? bits
      let out ← repeatBytes out (leastDistance + extraDistance) (least + extra)
      readCodes literals distances fuel s out

/-- The fixed code of bytes and lengths. -/
def fixedLiterals : Code := .ofLengths
  (List.replicate 144 8 ++ List.replicate 112 9 ++ List.replicate 24 7 ++ List.replicate 8 8)

/-- The fixed code of distances. -/
def fixedDistances : Code := .ofLengths (List.replicate 30 5)

/-- The order in which the lengths of the code of lengths are given. -/
def lengthOrder : List Nat := [16, 17, 18, 0, 8, 7, 9, 6, 10, 5, 11, 4, 12, 3, 13, 2, 14, 1, 15]

/-- Reads lengths of code words, adding to those read so far in reverse. -/
def readLengths (code : Code) (total : Nat) : Nat → Bits → List Nat → Option (List Nat × Bits)
  | 0, _, _ => none
  | fuel + 1, s, read =>
    if total ≤ read.length then if read.length = total then some (read.reverse, s) else none
    else do
      let (symbol, s) ← code.symbol? s
      if symbol < 16 then readLengths code total fuel s (symbol :: read)
      else if symbol = 16 then
        let last ← read.head?
        let (n, s) ← s.number? 2
        readLengths code total fuel s (List.replicate (n + 3) last ++ read)
      else if symbol = 17 then
        let (n, s) ← s.number? 3
        readLengths code total fuel s (List.replicate (n + 3) 0 ++ read)
      else
        let (n, s) ← s.number? 7
        readLengths code total fuel s (List.replicate (n + 11) 0 ++ read)

/-- Reads the codes described at the beginning of a block, which must be complete. -/
def readDescribed (s : Bits) : Option ((Code × Code) × Bits) := do
  let (literals, s) ← s.number? 5
  let (distances, s) ← s.number? 5
  let (lengths, s) ← s.number? 4
  guard (literals + 257 ≤ 286 && distances + 1 ≤ 30)
  let (given, s) ← (List.range (lengths + 4)).foldlM
    (fun (given, s) _ => do
      let (n, s) ← Bits.number? s 3
      some (given ++ [n], s)) (([] : List Nat), s)
  let code := Code.ofLengths ((List.range 19).map fun symbol =>
    ((lengthOrder.zip given).find? (·.1 = symbol)).elim 0 (·.2))
  let (all, s) ← readLengths code (literals + 257 + (distances + 1)) 400 s []
  let codes := (Code.ofLengths (all.take (literals + 257)), Code.ofLengths (all.drop (literals + 257)))
  guard (code.isComplete && codes.1.isComplete && codes.2.isComplete)
  some (codes, s)

/-- Reads a block of bytes as they are. -/
def readStored (s : Bits) (out : ByteArray) : Option (Bits × ByteArray) :=
  match s.align with
  | a :: b :: c :: d :: rest =>
    let n := a.toNat + 256 * b.toNat
    if n + (c.toNat + 256 * d.toNat) = 65535 && n ≤ rest.length then
      some (⟨rest.drop n, 0⟩, (rest.take n).foldl .push out)
    else none
  | _ => none

/-- Reads blocks up to the last one. The fuel bounds the number of blocks and of codes. -/
def readBlocks : Nat → Bits → ByteArray → Option (Bits × ByteArray)
  | 0, _, _ => none
  | fuel + 1, s, out => do
    let (last, s) ← s.bit?
    let (kind, s) ← s.number? 2
    let (s, out) ←
      if kind = 0 then readStored s out
      else if kind = 1 then readCodes fixedLiterals fixedDistances fuel s out
      else if kind = 2 then do
        let ((literals, distances), s) ← readDescribed s
        readCodes literals distances fuel s out
      else none
    if last = 1 then some (s, out) else readBlocks fuel s out

/-- Reads deflated data, yielding what follows it. Every block and code takes a bit at least. -/
def inflate (bytes : List UInt8) : Option (List UInt8 × ByteArray) :=
  (readBlocks (8 * bytes.length + 1) ⟨bytes, 0⟩ .empty).map fun (s, out) => (s.align, out)

end RequestRouting.Gzip

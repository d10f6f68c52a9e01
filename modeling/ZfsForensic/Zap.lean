import ZfsForensic.Read

/-!
# ZAP objects

A ZAP is a persistent map from names to values: a micro-ZAP is one block of 64-byte entries, a fat-ZAP a header block and hash
leaves of 24-byte chunks. The format is told by the first word, and every integer of the object is read little-endian.

A name is kept as the bytes of its UTF-8 form. The listing of values and the listing of value bytes have each their own walk over
the leaves.
-/

namespace ZfsForensic

open Octets Checked Checked.Run

/-- The block type of a micro-ZAP. -/
def zbtMicro : UInt64 := 0x8000000000000003

/-- The block type of a fat-ZAP header. -/
def zbtHeader : UInt64 := 0x8000000000000001

/-- The block type of a fat-ZAP leaf. -/
def zbtLeaf : UInt64 := 0x8000000000000000

/-- The magic of a fat-ZAP leaf. -/
def zapLeafMagic : UInt32 := 0x02ab1eaf

/-- Size of one micro-ZAP entry. -/
def mzapEntSize : Nat := 64

/-- Header size before the micro-ZAP entries. -/
def mzapHdrSize : Nat := 64

/-- Maximum micro-ZAP name length. -/
def mzapNameLen : Nat := 50

/-- Size of one fat-ZAP leaf chunk. -/
def zapLeafChunksize : Nat := 24

/-- Leaf header size, before the hash table. -/
def zapLeafHdrSize : Nat := 48

/-- Bytes of payload in one array chunk. -/
def zapLeafArrayBytes : Nat := 21

/-- The type of an array chunk. -/
def zapChunkArray : UInt8 := 251

/-- The type of an entry chunk. -/
def zapChunkEntry : UInt8 := 252

/-- The cap on a whole ZAP object: 64 MiB. -/
def maxZapBytes : Nat := 64 * 1024 * 1024

/-- Read a ZAP object's data: its blocks `0..=dn_maxblkid`, appended, the count capped. -/
def readZapObject (disk : Disk) (dnode : Dnode) : Run (Except ZfsError Bytes) :=
  let blockSize := dnode.dataBlockSize
  if blockSize = 0 then pure (.error (.truncated "zap object (zero block size)" 1 0))
  else
    let nblocks := min (satAdd dnode.dnMaxblkid.toNat 1) (maxZapBytes / blockSize)
    readBlocks disk dnode nblocks 0 []

/-! ## micro-ZAP -/

/-- The entries `i, i + 1, …` of a micro-ZAP, `n` slots of them; a slot without a name is skipped. -/
def microEntries (block : Bytes) : Nat → Nat → List (Bytes × UInt64)
  | _, 0 => []
  | i, n + 1 =>
    let off := mzapHdrSize + i * mzapEntSize
    match slice? block (off + 14) (off + 14 + mzapNameLen) with
    | none => []
    | some nameBytes =>
      let name := nameBytes.takeWhile (· != 0)
      if name = [] then microEntries block (i + 1) n
      else (fromUtf8Lossy name, leU64 block off) :: microEntries block (i + 1) n

/-- The entries of a micro-ZAP block. -/
def microList (block : Bytes) : List (Bytes × UInt64) :=
  microEntries block 0 ((block.length - mzapHdrSize) / mzapEntSize)

/-! ## fat-ZAP -/

/-- Whether a leaf begins at an offset: its block type and its magic. -/
def leafAt (block : Bytes) (off : Nat) : Bool := leU64 block off == zbtLeaf && leU32 block (off + 24) == zapLeafMagic

/-- The smallest candidate size at which a leaf begins. -/
def fatBlockSizeFrom (block : Bytes) : List Nat → Nat
  | [] => block.length
  | shift :: shifts =>
    let bs := 1 <<< shift
    if block.length ≤ bs then block.length
    else if leafAt block bs then bs
    else fatBlockSizeFrom block shifts

/-- The fat-ZAP block size, found by probing 512 bytes to 128 KiB for the first leaf; else the length of the object. -/
def fatBlockSize (block : Bytes) : Nat := fatBlockSizeFrom block [9, 10, 11, 12, 13, 14, 15, 16, 17]

/-- The loop of `arrayBytes`: at most as many hops as the leaf has chunks. -/
def arrayBytesLoop (leaf : Bytes) (chunkArea nchunks want : Nat) : Nat → UInt16 → Bytes → Bytes
  | 0, _, out => out
  | hops + 1, nc, out =>
    if nc ≠ 0xffff ∧ nc.toNat < nchunks ∧ out.length < want then
      let co := chunkArea + nc.toNat * zapLeafChunksize
      if u8At leaf co ≠ zapChunkArray then out
      else
        match slice? leaf (co + 1) (co + 1 + zapLeafArrayBytes) with
        | none => out
        | some payload =>
          arrayBytesLoop leaf chunkArea nchunks want hops (leU16 leaf (co + 1 + zapLeafArrayBytes)) (out ++ payload)
    else out

/-- Follow a chain of array chunks from `start`, and keep up to `want` bytes of its payload. -/
def arrayBytes (leaf : Bytes) (chunkArea nchunks : Nat) (start : UInt16) (want : Nat) : Bytes :=
  (arrayBytesLoop leaf chunkArea nchunks want nchunks start []).take want

/-- The name of an entry: its bytes without the closing NUL, as text. -/
def leName (name : Bytes) : Bytes := fromUtf8Lossy (if name.getLast? = some 0 then name.dropLast else name)

/-- The first eight bytes of a value, folded big-endian. -/
def foldValue (valueBytes : Bytes) : UInt64 := (valueBytes.take 8).foldl (fun v b => (v <<< 8) ||| b.toUInt64) 0

/-- The loop of `fatLeafEntries` over the chunks from `ci` on, `n` of them. -/
def fatLeafEntriesLoop (leaf : Bytes) (chunkArea nchunks : Nat) :
    Nat → Nat → List (Bytes × UInt64) → List (Bytes × UInt64)
  | _, 0, out => out
  | ci, n + 1, out =>
    let co := chunkArea + ci * zapLeafChunksize
    if u8At leaf co ≠ zapChunkEntry then fatLeafEntriesLoop leaf chunkArea nchunks (ci + 1) n out
    else
      let leIntSize := (u8At leaf (co + 1)).toNat
      let leNameChunk := leU16 leaf (co + 4)
      let leNameNumints := (leU16 leaf (co + 6)).toNat
      let leValueChunk := leU16 leaf (co + 8)
      let leValueNumints := (leU16 leaf (co + 10)).toNat
      let nameBytes := arrayBytes leaf chunkArea nchunks leNameChunk leNameNumints
      let name := leName nameBytes
      let want := satMul leIntSize leValueNumints
      let valueBytes := arrayBytes leaf chunkArea nchunks leValueChunk want
      let value := foldValue valueBytes
      fatLeafEntriesLoop leaf chunkArea nchunks (ci + 1) n (if name ≠ [] then out ++ [(name, value)] else out)

/-- The entries of one leaf, in chunk order, each value folded to a word. -/
def fatLeafEntries (leaf : Bytes) (blockSize : Nat) (out : List (Bytes × UInt64)) : List (Bytes × UInt64) :=
  let nhash := 1 <<< (trailingZeros 64 blockSize - 5)
  let chunkArea := zapLeafHdrSize + nhash * 2
  if leaf.length ≤ chunkArea then out
  else
    let nchunks := (leaf.length - chunkArea) / zapLeafChunksize
    fatLeafEntriesLoop leaf chunkArea nchunks 0 nchunks out

/-- The loop of `fatList` over the blocks from `off` on. -/
def fatListLoop (block : Bytes) (blockSize : Nat) : Nat → Nat → List (Bytes × UInt64) → List (Bytes × UInt64)
  | 0, _, out => out
  | fuel + 1, off, out =>
    if off + zapLeafHdrSize ≤ block.length then
      let leaf := (block.drop off).take (min (off + blockSize) block.length - off)
      fatListLoop block blockSize fuel (off + blockSize)
        (if leU64 leaf 0 = zbtLeaf ∧ leU32 leaf 24 = zapLeafMagic then fatLeafEntries leaf blockSize out else out)
    else out

/-- The entries of a fat-ZAP, each value folded to a word. Its blocks begin at the multiples of the block size, so that many turns
are enough. -/
def fatList (block : Bytes) : List (Bytes × UInt64) :=
  let blockSize := fatBlockSize block
  if blockSize = 0 then [] else fatListLoop block blockSize (block.length / blockSize) blockSize []

/-- The loop of `fatLeafEntriesArrays` over the chunks from `ci` on, `n` of them. -/
def fatLeafEntriesArraysLoop (leaf : Bytes) (chunkArea nchunks : Nat) :
    Nat → Nat → List (Bytes × Bytes) → List (Bytes × Bytes)
  | _, 0, out => out
  | ci, n + 1, out =>
    let co := chunkArea + ci * zapLeafChunksize
    if u8At leaf co ≠ zapChunkEntry then fatLeafEntriesArraysLoop leaf chunkArea nchunks (ci + 1) n out
    else
      let leIntSize := (u8At leaf (co + 1)).toNat
      let leNameChunk := leU16 leaf (co + 4)
      let leNameNumints := (leU16 leaf (co + 6)).toNat
      let leValueChunk := leU16 leaf (co + 8)
      let leValueNumints := (leU16 leaf (co + 10)).toNat
      let name := leName (arrayBytes leaf chunkArea nchunks leNameChunk leNameNumints)
      let want := satMul leIntSize leValueNumints
      let valueBytes := arrayBytes leaf chunkArea nchunks leValueChunk want
      fatLeafEntriesArraysLoop leaf chunkArea nchunks (ci + 1) n (if name ≠ [] then out ++ [(name, valueBytes)] else out)

/-- The entries of one leaf, in chunk order, each value its bytes. -/
def fatLeafEntriesArrays (leaf : Bytes) (blockSize : Nat) (out : List (Bytes × Bytes)) : List (Bytes × Bytes) :=
  let nhash := 1 <<< (trailingZeros 64 blockSize - 5)
  let chunkArea := zapLeafHdrSize + nhash * 2
  if leaf.length ≤ chunkArea then out
  else
    let nchunks := (leaf.length - chunkArea) / zapLeafChunksize
    fatLeafEntriesArraysLoop leaf chunkArea nchunks 0 nchunks out

/-- The loop of `fatListArrays` over the blocks from `off` on. -/
def fatListArraysLoop (block : Bytes) (blockSize : Nat) : Nat → Nat → List (Bytes × Bytes) → List (Bytes × Bytes)
  | 0, _, out => out
  | fuel + 1, off, out =>
    if off + zapLeafHdrSize ≤ block.length then
      let leaf := (block.drop off).take (min (off + blockSize) block.length - off)
      fatListArraysLoop block blockSize fuel (off + blockSize)
        (if leU64 leaf 0 = zbtLeaf ∧ leU32 leaf 24 = zapLeafMagic then fatLeafEntriesArrays leaf blockSize out else out)
    else out

/-- The entries of a fat-ZAP, each value its bytes. -/
def fatListArrays (block : Bytes) : List (Bytes × Bytes) :=
  let blockSize := fatBlockSize block
  if blockSize = 0 then [] else fatListArraysLoop block blockSize (block.length / blockSize) blockSize []

/-! ## Listings -/

/-- List every entry of a ZAP object. -/
def zapList (block : Bytes) : List (Bytes × UInt64) :=
  if leU64 block 0 = zbtMicro then microList block
  else if leU64 block 0 = zbtHeader then fatList block
  else []

/-- Look up a name in a ZAP object's data. -/
def zapLookup (block : Bytes) (name : Bytes) : Option UInt64 :=
  ((zapList block).find? (fun e => e.1 == name)).map Prod.snd

/-- The eight bytes of a word, least significant first. -/
def toLeBytes (v : UInt64) : Bytes := encode .little 8 v.toNat

/-- List every entry of a ZAP object with the bytes of its value. -/
def zapListArrays (block : Bytes) : List (Bytes × Bytes) :=
  if leU64 block 0 = zbtMicro then (microList block).map (fun e => (e.1, toLeBytes e.2))
  else if leU64 block 0 = zbtHeader then fatListArrays block
  else []

/-- An object that begins with no known block type has no entry. -/
theorem zapList_of_ne {block : Bytes} (hm : leU64 block 0 ≠ zbtMicro) (hh : leU64 block 0 ≠ zbtHeader) :
    zapList block = [] := by
  rw [zapList, if_neg hm, if_neg hh]

end ZfsForensic

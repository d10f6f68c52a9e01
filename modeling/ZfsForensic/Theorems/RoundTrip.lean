import ZfsForensic.Lemmas.Encode

/-!
# The core decoders invert their layouts

Block pointers, uberblocks and dnodes of one slot are read back from their bytes in both byte orders. The two serialisations of an
uberblock do not give one record: each keeps the 128 bytes of its root pointer as they stand, and these are in its own order.
What the copies decode to is the same pointer.
-/

namespace ZfsForensic

open Octets

/-- Every stored record is decoded from its bytes in either byte order: a pointer as it is, an uberblock and a dnode up to the
byte order they carry, and the uberblock's copy of its root pointer, which decodes to the same pointer. -/
theorem parse_inverts_encode :
    (∀ (e : Endian) (p : Blkptr), p.Stored → Blkptr.parse (p.encode e) e = p) ∧
    (∀ (e : Endian) (ub : Uberblock) (rest : Bytes), ub.Stored →
      Uberblock.parse (ub.encode e ++ rest) = some (ub.inOrder e) ∧ (ub.inOrder e).rootbpFull = ub.rootbpFull) ∧
    (∀ (e : Endian) (d : Dnode), d.Stored → Dnode.parse (d.encode e) e = some { d with endian := e }) :=
  ⟨fun e _ h => Blkptr.parse_encode h e, fun e _ rest h => Uberblock.parse_encode e h rest,
    fun e _ h => Dnode.parse_encode e h⟩

/-! ## Records with every bit of a field set -/

/-- A pointer whose fields are as large as they can be, next to fields of zero. -/
def fullBlkptr : Blkptr :=
  { dvas := #v[⟨0xffffff, 0, 0x7fffffffffffffff, false⟩, ⟨0, 0xffffff, 0, true⟩, ⟨1, 2, 3, false⟩]
    lsizeRaw := 0xffff
    psizeRaw := 0
    compression := 0x7f
    embedded := false
    checksum := 0
    objectType := 0xff
    level := 0
    dedup := true
    byteorder := .big
    logicalBirth := 0xffffffffffffffff
    fill := 1
    checksumWords := #v[0, 0xffffffffffffffff, 0x0123456789abcdef, 7]
    embeddedLsize := 0
    embeddedPsize := 0
    embeddedPayload := Vector.replicate 112 0 }

theorem fullBlkptr_stored : fullBlkptr.Stored := by
  refine ⟨rfl, fun d hd => ?_, by decide, by decide, by decide, by decide, rfl, rfl, rfl⟩
  have hcases : d = ⟨0xffffff, 0, 0x7fffffffffffffff, false⟩ ∨ d = ⟨0, 0xffffff, 0, true⟩ ∨ d = ⟨1, 2, 3, false⟩ := by
    simpa [fullBlkptr] using hd
  rcases hcases with rfl | rfl | rfl <;> exact ⟨by decide, by decide, by decide⟩

/-- An uberblock rooted at that pointer. -/
def fullUberblock : Uberblock :=
  { endian := .little
    magic := uberblockMagic
    version := 5000
    txg := 0xffffffffffffffff
    guidSum := 0x0123456789abcdef
    timestamp := 0
    rootbp := fullBlkptr.summary
    rootbpRaw := fullBlkptr.encodeVector .little }

theorem rootbpFull_fullUberblock : fullUberblock.rootbpFull = fullBlkptr := Blkptr.parse_encode fullBlkptr_stored .little

theorem fullUberblock_stored : fullUberblock.Stored := by
  refine ⟨rfl, ?_, ?_⟩
  · rw [rootbpFull_fullUberblock]
    exact fullBlkptr_stored
  · rw [rootbpFull_fullUberblock]
    rfl

/-- A dnode of two such pointers and a bonus of three bytes. -/
def fullDnode : Dnode :=
  { dnType := 19
    dnIndblkshift := 17
    dnNlevels := 1
    dnNblkptr := 2
    dnBonustype := 44
    dnChecksum := 0
    dnCompress := 0
    dnFlags := 3
    dnDatablkszsec := 0xffff
    dnBonuslen := 3
    dnExtraSlots := 0
    dnMaxblkid := 0xffffffffffffffff
    dnUsed := 1
    endian := .little
    blkptrs := [fullBlkptr, fullBlkptr]
    bonus := [1, 2, 3] }

theorem fullDnode_stored : fullDnode.Stored :=
  ⟨rfl, rfl, fun _ hp => (by simpa [fullDnode] using hp : _ = fullBlkptr) ▸ fullBlkptr_stored, rfl, by decide⟩

/-- The decoders on these records, in big-endian order. -/
theorem parse_inverts_encode_full :
    Blkptr.parse (fullBlkptr.encode .big) .big = fullBlkptr ∧
      Uberblock.parse (fullUberblock.encode .big ++ zeros 856) = some (fullUberblock.inOrder .big) ∧
      Dnode.parse (fullDnode.encode .big) .big = some { fullDnode with endian := .big } :=
  ⟨parse_inverts_encode.1 .big fullBlkptr fullBlkptr_stored,
    (parse_inverts_encode.2.1 .big fullUberblock (zeros 856) fullUberblock_stored).1,
    parse_inverts_encode.2.2 .big fullDnode fullDnode_stored⟩

/-- The two serialisations of an uberblock do not decode to one record up to the byte order: the copies of the root pointer are
the reverse of each other, word by word. -/
theorem uberblock_keeps_raw_rootbp :
    fullUberblock.Stored ∧ ∃ r r', Uberblock.parse (fullUberblock.encode .little ++ zeros 856) = some r ∧
      Uberblock.parse (fullUberblock.encode .big ++ zeros 856) = some r' ∧ { r with endian := r'.endian } ≠ r' := by
  refine ⟨fullUberblock_stored, _, _, (Uberblock.parse_encode .little fullUberblock_stored _).1,
    (Uberblock.parse_encode .big fullUberblock_stored _).1, fun heq => ?_⟩
  have hraw := congrArg (fun r : Uberblock => r.rootbpRaw.toList[1]?) heq
  simp only [Uberblock.inOrder, rootbpFull_fullUberblock] at hraw
  exact absurd hraw (by decide)

end ZfsForensic

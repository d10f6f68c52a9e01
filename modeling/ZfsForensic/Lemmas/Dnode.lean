import ZfsForensic.Dnode

/-!
# What a dnode parse reads

A parse reads the 64-byte core, the block pointers that fit the slots, and the bonus behind them. It is unchanged by bytes behind
these, and it loses something exactly where the bytes end before them.
-/

namespace ZfsForensic

open Octets

theorem u8At_append_left {x y : Bytes} {i : Nat} (h : i < x.length) : u8At (x ++ y) i = u8At x i := by
  rw [u8At, u8At, List.getElem?_append_left h]

theorem Reader.u16_append_left (rd : Reader) {x y : Bytes} {off : Nat} (h : off + 2 ≤ x.length) :
    rd.u16 (x ++ y) off = rd.u16 x off := by
  obtain ⟨e⟩ := rd
  rw [Reader.u16_eq, Reader.u16_eq, readUint_append_left h]

theorem Reader.u64_append_left (rd : Reader) {x y : Bytes} {off : Nat} (h : off + 8 ≤ x.length) :
    rd.u64 (x ++ y) off = rd.u64 x off := by
  obtain ⟨e⟩ := rd
  rw [Reader.u64_eq, Reader.u64_eq, readUint_append_left h]

namespace Dnode

/-- The number of block pointers a parse of `raw` decodes. -/
def nblkptrOf (raw : Bytes) : Nat := clampNblkptr (u8At raw 3) (u8At raw 12)

/-- The offset of the bonus buffer in `raw`. -/
def bonusOffOf (raw : Bytes) : Nat := dnodeCoreSize + nblkptrOf raw * blkptrSize

/-- The length of the bonus buffer of `raw`. -/
def bonusLenOf (raw : Bytes) (e : Endian) : Nat := clampBonuslen ((Reader.mk e).u16 raw 10) (u8At raw 12) (nblkptrOf raw)

/-- The bytes a parse of `raw` reads: the core, the pointers and the bonus. -/
def extentOf (raw : Bytes) (e : Endian) : Nat := bonusOffOf raw + bonusLenOf raw e

theorem extentOf_le_totalBytes (raw : Bytes) (e : Endian) : extentOf raw e ≤ totalBytes (u8At raw 12) :=
  clampBonuslen_fits _ _ _

/-- Every pointer is decoded where the bytes supply them all. -/
theorem length_parseBlkptrs {raw : Bytes} (e : Endian) {i n : Nat} (h : dnodeCoreSize + (i + n) * blkptrSize ≤ raw.length) :
    (parseBlkptrs raw e i n).length = n := by
  induction n generalizing i with
  | zero => rfl
  | succ n ih =>
    have hfit : dnodeCoreSize + i * blkptrSize + blkptrSize ≤ raw.length := by
      unfold blkptrSize at *
      omega
    rw [parseBlkptrs, slice?_of_le (by omega) hfit]
    dsimp only
    rw [List.length_cons, ih (by rw [Nat.add_right_comm]; exact h)]

/-- Some pointer is lost where they do not. -/
theorem length_parseBlkptrs_lt {raw : Bytes} (e : Endian) {i n : Nat}
    (h : raw.length < dnodeCoreSize + (i + n) * blkptrSize) (hi : dnodeCoreSize + i * blkptrSize ≤ raw.length) :
    (parseBlkptrs raw e i n).length < n := by
  induction n generalizing i with
  | zero =>
    rw [Nat.add_zero] at h
    omega
  | succ n ih =>
    rw [parseBlkptrs]
    by_cases hfit : dnodeCoreSize + i * blkptrSize + blkptrSize ≤ raw.length
    · rw [slice?_of_le (by omega) hfit]
      dsimp only
      have hrest := ih (i := i + 1) (by rw [Nat.add_right_comm]; exact h) (by rw [Nat.succ_mul]; omega)
      rw [List.length_cons]
      omega
    · rw [slice?_eq_none_of_lt (by omega)]
      simp

/-- Bytes behind the pointers do not change them. -/
theorem parseBlkptrs_append {x : Bytes} (y : Bytes) (e : Endian) {i n : Nat}
    (h : dnodeCoreSize + (i + n) * blkptrSize ≤ x.length) :
    parseBlkptrs (x ++ y) e i n = parseBlkptrs x e i n := by
  induction n generalizing i with
  | zero => rfl
  | succ n ih =>
    have hfit : dnodeCoreSize + i * blkptrSize + blkptrSize ≤ x.length := by
      unfold blkptrSize at *
      omega
    rw [parseBlkptrs, parseBlkptrs, slice?_append_left hfit, ih (by rw [Nat.add_right_comm]; exact h)]

section Append

variable {x : Bytes} (y : Bytes) (e : Endian) (hcore : dnodeCoreSize ≤ x.length)

include hcore

theorem nblkptrOf_append : nblkptrOf (x ++ y) = nblkptrOf x := by
  unfold dnodeCoreSize at hcore
  rw [nblkptrOf, nblkptrOf, u8At_append_left (by omega), u8At_append_left (by omega)]

theorem extentOf_append : extentOf (x ++ y) e = extentOf x e := by
  have hn := nblkptrOf_append y hcore
  unfold dnodeCoreSize at hcore
  rw [extentOf, extentOf, bonusOffOf, bonusOffOf, bonusLenOf, bonusLenOf, hn, Reader.u16_append_left _ (by omega),
    u8At_append_left (by omega)]

/-- A parse of a longer string has the pointers and the bonus of that string, and the core of the shorter one. -/
theorem parse_append :
    parse (x ++ y) e = (parse x e).map (fun d =>
      { d with
        blkptrs := parseBlkptrs (x ++ y) e 0 (nblkptrOf x)
        bonus := (slice? (x ++ y) (bonusOffOf x) (extentOf x e)).getD [] }) := by
  have hcore64 : 64 ≤ x.length := hcore
  unfold parse
  rw [if_neg (by rw [List.length_append]; omega), if_neg (by omega)]
  simp only [Option.map_some, extentOf, bonusOffOf, bonusLenOf, nblkptrOf,
    u8At_append_left (show 0 < x.length by omega), u8At_append_left (show 1 < x.length by omega),
    u8At_append_left (show 2 < x.length by omega), u8At_append_left (show 3 < x.length by omega),
    u8At_append_left (show 4 < x.length by omega), u8At_append_left (show 5 < x.length by omega),
    u8At_append_left (show 6 < x.length by omega), u8At_append_left (show 7 < x.length by omega),
    u8At_append_left (show 12 < x.length by omega), Reader.u16_append_left _ (show 8 + 2 ≤ x.length by omega),
    Reader.u16_append_left _ (show 10 + 2 ≤ x.length by omega),
    Reader.u64_append_left _ (show 16 + 8 ≤ x.length by omega),
    Reader.u64_append_left _ (show 24 + 8 ≤ x.length by omega)]

/-- Cutting a dnode short loses nothing exactly where the cut is behind all it holds. -/
theorem parse_append_eq_iff (hwhole : extentOf x e ≤ (x ++ y).length) :
    parse (x ++ y) e = parse x e ↔ extentOf x e ≤ x.length := by
  have hself : parse x e = (parse x e).map (fun d =>
      { d with blkptrs := parseBlkptrs x e 0 (nblkptrOf x), bonus := (slice? x (bonusOffOf x) (extentOf x e)).getD [] }) := by
    have := parse_append (x := x) [] e hcore
    rwa [List.append_nil] at this
  obtain ⟨d, hd⟩ : ∃ d, parse x e = some d := by
    unfold parse
    rw [if_neg (Nat.not_lt.2 hcore)]
    exact ⟨_, rfl⟩
  have hoff : bonusOffOf x ≤ extentOf x e := Nat.le_add_right _ _
  rw [parse_append y e hcore]
  constructor
  · intro h
    rw [hself, hd] at h
    simp only [Option.map_some, Option.some.injEq, Dnode.mk.injEq, true_and] at h
    obtain ⟨hptrs, hbonus⟩ := h
    by_contra hlt
    rw [Nat.not_le] at hlt
    by_cases hfit : bonusOffOf x ≤ x.length
    · -- the pointers fit, so the bonus is what is cut off
      have hlen := congrArg List.length hbonus
      rw [slice?_eq_none_of_lt hlt, slice?_of_le hoff hwhole] at hlen
      simp only [Option.getD_some, Option.getD_none, List.length_take, List.length_drop, List.length_nil] at hlen
      omega
    · have hfull : (parseBlkptrs (x ++ y) e 0 (nblkptrOf x)).length = nblkptrOf x :=
        length_parseBlkptrs e (by rw [Nat.zero_add]; exact hoff.trans hwhole)
      have hcut : (parseBlkptrs x e 0 (nblkptrOf x)).length < nblkptrOf x :=
        length_parseBlkptrs_lt e (by rw [Nat.zero_add]; exact Nat.not_le.1 hfit) (by omega)
      rw [hptrs] at hfull
      omega
  · intro hle
    have hptrs : parseBlkptrs (x ++ y) e 0 (nblkptrOf x) = parseBlkptrs x e 0 (nblkptrOf x) :=
      parseBlkptrs_append y e (by rw [Nat.zero_add]; exact hoff.trans hle)
    rw [hptrs, slice?_append_left hle]
    exact hself.symm

end Append

/-- A dnode that parses from all its bytes has every pointer and every byte of bonus its slots hold. -/
theorem lengths_of_parse {raw : Bytes} {e : Endian} {d : Dnode} (h : parse raw e = some d) (hle : extentOf raw e ≤ raw.length) :
    d.blkptrs.length = nblkptrOf raw ∧ d.bonus.length = bonusLenOf raw e := by
  have hoff : bonusOffOf raw ≤ extentOf raw e := Nat.le_add_right _ _
  unfold parse at h
  split at h
  · exact absurd h (by simp)
  · simp only [Option.some.injEq] at h
    subst h
    refine ⟨length_parseBlkptrs e (by rw [Nat.zero_add]; exact hoff.trans hle), ?_⟩
    change ((slice? raw (bonusOffOf raw) (extentOf raw e)).getD []).length = _
    rw [slice?_of_le hoff hle, Option.getD_some, List.length_take, List.length_drop]
    unfold extentOf at hle ⊢
    omega

end Dnode

end ZfsForensic

import ZfsForensic.Blkptr

/-!
# Block checksums

fletcher2, fletcher4 and SHA-256 over the on-disk bytes, and the non-fatal `verify`. Words are read in the block's byte order;
a trailing partial word is ignored. The sums are `u64` and wrap.
-/

namespace ZfsForensic

open Octets

/-- The checksum function of a block pointer (`zio_checksum`). -/
inductive ChecksumType where
  | inherit
  | on
  | off
  | label
  | gangHeader
  | zilog
  | fletcher2
  | fletcher4
  | sha256
  | other (v : UInt8)
deriving DecidableEq, Repr

/-- Map a raw on-disk value to a checksum function. -/
def ChecksumType.fromRaw (v : UInt8) : ChecksumType :=
  match v.toNat with
  | 0 => .inherit
  | 1 => .on
  | 2 => .off
  | 3 => .label
  | 4 => .gangHeader
  | 5 => .zilog
  | 6 => .fletcher2
  | 7 => .fletcher4
  | 8 => .sha256
  | _ => .other v

/-- The four running sums of fletcher4. -/
structure Fletcher4 where
  a : UInt64
  b : UInt64
  c : UInt64
  d : UInt64

/-- One step of fletcher4: `a += w; b += a; c += b; d += c`. -/
def Fletcher4.step (s : Fletcher4) (w : UInt64) : Fletcher4 :=
  let a := s.a + w
  let b := s.b + a
  let c := s.c + b
  let d := s.d + c
  ⟨a, b, c, d⟩

/-- The `i`-th 32-bit word of a block, in its byte order. -/
def fletcher4Word (data : Bytes) (endian : Endian) (i : Nat) : UInt64 :=
  match endian with
  | .little => (leU32 data (i * 4)).toUInt64
  | .big => (beU32 data (i * 4)).toUInt64

/-- The words fletcher4 sums, in order. -/
def fletcher4Words (data : Bytes) (endian : Endian) : List UInt64 :=
  (List.range (data.length / 4)).map (fletcher4Word data endian)

/-- fletcher4 over `data` in the block's byte order. -/
def fletcher4 (data : Bytes) (endian : Endian) : Vector UInt64 4 :=
  let s := (fletcher4Words data endian).foldl Fletcher4.step ⟨0, 0, 0, 0⟩
  #v[s.a, s.b, s.c, s.d]

/-- The four running sums of fletcher2. -/
structure Fletcher2 where
  a0 : UInt64
  a1 : UInt64
  b0 : UInt64
  b1 : UInt64

/-- One step of fletcher2: `a0 += w0; a1 += w1; b0 += a0; b1 += a1`. -/
def Fletcher2.step (s : Fletcher2) (w : UInt64 × UInt64) : Fletcher2 :=
  let a0 := s.a0 + w.1
  let a1 := s.a1 + w.2
  ⟨a0, a1, s.b0 + a0, s.b1 + a1⟩

/-- The 64-bit word of a block at an offset, in its byte order. -/
def fletcher2Word (data : Bytes) (endian : Endian) (off : Nat) : UInt64 :=
  match endian with
  | .little => leU64 data off
  | .big => beU64 data off

/-- The pairs of words fletcher2 sums, in order. -/
def fletcher2Words (data : Bytes) (endian : Endian) : List (UInt64 × UInt64) :=
  (List.range (data.length / 16)).map
    (fun i => (fletcher2Word data endian (i * 16), fletcher2Word data endian (i * 16 + 8)))

/-- fletcher2 over `data` in the block's byte order. -/
def fletcher2 (data : Bytes) (endian : Endian) : Vector UInt64 4 :=
  let s := (fletcher2Words data endian).foldl Fletcher2.step ⟨0, 0, 0, 0⟩
  #v[s.a0, s.a1, s.b0, s.b1]

/-- The `i`-th 64-bit big-endian word of a digest. -/
def digestWord (digest : Vector UInt8 32) (i : Nat) : UInt64 := beU64 digest.toList (i * 8)

/-- SHA-256 over `data`, packed as four big-endian words. -/
def sha256 (Γ : Ctx) (data : Bytes) : Vector UInt64 4 :=
  let digest := Γ.sha256Digest data
  #v[digestWord digest 0, digestWord digest 1, digestWord digest 2, digestWord digest 3]

/-- Verify `data` against an expected checksum: `none` when the function is not verified here. -/
def verify (Γ : Ctx) (kind : ChecksumType) (endian : Endian) (data : Bytes) (expected : Vector UInt64 4) : Option Bool :=
  match kind with
  | .fletcher4 => some (fletcher4 data endian == expected)
  | .fletcher2 => some (fletcher2 data endian == expected)
  | .sha256 => some (sha256 Γ data == expected)
  | _ => none

/-! ## Sums of zero -/

theorem fletcher4Word_eq (data : Bytes) (e : Endian) (i : Nat) :
    fletcher4Word data e i = (UInt32.ofNat (readUint e 4 data (i * 4))).toUInt64 := by
  cases e <;> rfl

theorem toNat_fletcher4Word_lt (data : Bytes) (e : Endian) (i : Nat) : (fletcher4Word data e i).toNat < 2 ^ 32 := by
  rw [fletcher4Word_eq, UInt32.toNat_toUInt64]
  exact UInt32.toNat_lt _

/-- A block of zeros has words of zero. -/
theorem fletcher4Words_zeros (n : Nat) (e : Endian) : fletcher4Words (zeros n) e = List.replicate (n / 4) 0 := by
  refine List.eq_replicate_iff.2 ⟨by rw [fletcher4Words, List.length_map, List.length_range, length_zeros], fun w hw => ?_⟩
  obtain ⟨i, -, rfl⟩ := List.mem_map.1 hw
  rw [fletcher4Word_eq, readUint_zeros]
  rfl

theorem fletcher4_zeros (n : Nat) (e : Endian) : fletcher4 (zeros n) e = #v[0, 0, 0, 0] := by
  have hfold : ∀ k, (List.replicate k (0 : UInt64)).foldl Fletcher4.step ⟨0, 0, 0, 0⟩ = ⟨0, 0, 0, 0⟩ := by
    intro k
    induction k with
    | zero => rfl
    | succ k ih => exact ih
  rw [fletcher4, fletcher4Words_zeros, hfold]

/-- The first sum is the sum of the words, as long as it does not wrap. -/
theorem toNat_foldl_step_a {ws : List UInt64} {s : Fletcher4} (hfit : s.a.toNat + (ws.map UInt64.toNat).sum < 2 ^ 64) :
    (ws.foldl Fletcher4.step s).a.toNat = s.a.toNat + (ws.map UInt64.toNat).sum := by
  induction ws generalizing s with
  | nil => rfl
  | cons w ws ih =>
    rw [List.map_cons, List.sum_cons] at hfit
    have hstep : (s.step w).a.toNat = s.a.toNat + w.toNat := by
      rw [Fletcher4.step, UInt64.toNat_add]
      omega
    rw [List.foldl_cons, ih (by rw [hstep]; omega), hstep, List.map_cons, List.sum_cons, Nat.add_assoc]

/-- A block of less than 16 GiB with a word that is not zero has a first sum that is not zero. -/
theorem fletcher4_ne_zero {data : Bytes} {e : Endian} (hlen : data.length < 2 ^ 34) {w : UInt64} (hw : w ∈ fletcher4Words data e)
    (hne : w ≠ 0) : fletcher4 data e ≠ #v[0, 0, 0, 0] := by
  have hbound : ∀ n ∈ (fletcher4Words data e).map UInt64.toNat, n ≤ 2 ^ 32 := by
    intro n hn
    obtain ⟨x, hx, rfl⟩ := List.mem_map.1 hn
    obtain ⟨i, -, rfl⟩ := List.mem_map.1 hx
    exact (toNat_fletcher4Word_lt data e i).le
  have hsum := List.sum_le_card_nsmul _ _ hbound
  have hcount : ((fletcher4Words data e).map UInt64.toNat).length = data.length / 4 := by
    rw [List.length_map, fletcher4Words, List.length_map, List.length_range]
  have hle : w.toNat ≤ ((fletcher4Words data e).map UInt64.toNat).sum := List.le_sum_of_mem (List.mem_map_of_mem hw)
  have hpos : 0 < w.toNat := by
    rw [Nat.pos_iff_ne_zero, ne_eq, ← UInt64.toNat_zero, UInt64.toNat_inj]
    exact hne
  rw [hcount, smul_eq_mul] at hsum
  intro heq
  have hfirst := congrArg (fun v => (v[0]).toNat) heq
  have hfit : (0 : UInt64).toNat + ((fletcher4Words data e).map UInt64.toNat).sum < 2 ^ 64 := by
    rw [UInt64.toNat_zero]
    omega
  have ha := toNat_foldl_step_a (s := ⟨0, 0, 0, 0⟩) hfit
  rw [UInt64.toNat_zero, Nat.zero_add] at ha
  have hzero : ((fletcher4Words data e).foldl Fletcher4.step ⟨0, 0, 0, 0⟩).a.toNat = 0 := hfirst
  omega
/-- So it does not verify against sums of zero. -/
theorem verify_fletcher4_zero (Γ : Ctx) {data : Bytes} {e : Endian} (hlen : data.length < 2 ^ 34) {i : Nat} (hi : i < data.length / 4)
    (hne : fletcher4Word data e i ≠ 0) : verify Γ .fletcher4 e data #v[0, 0, 0, 0] = some false := by
  rw [verify, Option.some.injEq, beq_eq_false_iff_ne]
  exact fletcher4_ne_zero hlen (List.mem_map_of_mem (List.mem_range.2 hi)) hne

end ZfsForensic

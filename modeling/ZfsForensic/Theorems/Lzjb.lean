import ZfsForensic.Lemmas.Streams
import ZfsForensic.Lemmas.Image

/-!
# lzjb: the decoder against every encoder

An encoder of lzjb chooses its matches freely. `LzjbTokens` is any choice it can make: literals and matches, each match within what was
produced before it. A stream is its serialisation in groups of eight behind a copymap, and the decoder yields what the tokens expand to,
whatever follows the stream in the block.
-/

namespace ZfsForensic

open Octets

/-- An item of an lzjb stream. -/
inductive LzjbToken where
  | literal (byte : UInt8)
  | copy (len dist : Nat) (len_le : 3 ≤ len ∧ len ≤ 66) (dist_le : 1 ≤ dist ∧ dist ≤ 1023)

namespace LzjbToken

/-- The copymap bit of a token. -/
def isMatch : LzjbToken → Bool
  | literal _ => false
  | copy _ _ _ _ => true

/-- The bytes of a token: a literal as it is, a match as its length and its distance in two bytes. -/
def encode : LzjbToken → Bytes
  | literal byte => [byte]
  | copy len dist _ _ => [UInt8.ofNat (((len - 3) <<< 2) ||| (dist >>> 8)), UInt8.ofNat (dist &&& 0xff)]

/-- The output with a token expanded behind it. -/
def expand (out : Bytes) : LzjbToken → Bytes
  | literal byte => out ++ [byte]
  | copy len dist _ _ => Window.repeatBack dist len out

/-- A match begins within the output. -/
def InReach (out : Bytes) : LzjbToken → Prop
  | literal _ => True
  | copy _ dist _ _ => dist ≤ out.length

/-- The copymap of a group: bit `i` is set when token `i` is a match. -/
def copymap : List LzjbToken → Nat
  | [] => 0
  | t :: ts => Nat.bit t.isMatch (copymap ts)

/-- The tokens expanded in turn behind the output. -/
def expandAll (out : Bytes) (ts : List LzjbToken) : Bytes := ts.foldl expand out

/-- Every match begins within the output of the tokens before it. -/
def AllInReach (out : Bytes) : List LzjbToken → Prop
  | [] => True
  | t :: ts => t.InReach out ∧ AllInReach (t.expand out) ts

/-- The tokens in groups of eight, each behind its copymap. -/
def serialise : List LzjbToken → Bytes
  | [] => []
  | t :: ts => UInt8.ofNat (copymap ((t :: ts).take 8)) :: (((t :: ts).take 8).flatMap encode ++ serialise ((t :: ts).drop 8))
termination_by ts => ts.length
decreasing_by
  simp only [List.length_drop, List.length_cons]
  omega

theorem copymap_lt (ts : List LzjbToken) : copymap ts < 2 ^ ts.length := by
  induction ts with
  | nil => exact Nat.one_pos
  | cons t ts ih =>
    rw [copymap, List.length_cons, Nat.pow_succ, Nat.bit_val]
    cases t.isMatch <;> simp <;> omega

theorem testBit_copymap (g : List LzjbToken) (t : LzjbToken) (ts : List LzjbToken) :
    (copymap (g ++ t :: ts)).testBit g.length = t.isMatch := by
  induction g with
  | nil => exact Nat.testBit_bit_zero _ _
  | cons _ g ih => exact (Nat.testBit_bit_succ _ _ _).trans ih

/-- The two bytes of a match hold its length and its distance. -/
theorem decode_copy {len dist : Nat} (hlen : 3 ≤ len ∧ len ≤ 66) (hdist : 1 ≤ dist ∧ dist ≤ 1023) :
    ((UInt8.ofNat (((len - 3) <<< 2) ||| (dist >>> 8))).toNat >>> 2) + 3 = len ∧
      (((UInt8.ofNat (((len - 3) <<< 2) ||| (dist >>> 8))).toNat <<< 8) ||| (UInt8.ofNat (dist &&& 0xff)).toNat) &&& 0x3ff = dist := by
  have hlow : dist &&& 0xff = dist % 2 ^ 8 := Nat.and_two_pow_sub_one_eq_mod dist 8
  have hhigh : dist >>> 8 = dist / 2 ^ 8 := Nat.shiftRight_eq_div_pow dist 8
  have hb0 : ((len - 3) <<< 2) ||| (dist >>> 8) = 4 * (len - 3) + dist / 256 := by
    rw [← Nat.shiftLeft_add_eq_or_of_lt (by omega), Nat.shiftLeft_eq]
    omega
  have hb1 : (UInt8.ofNat (dist &&& 0xff)).toNat = dist % 256 := by
    rw [hlow, UInt8.toNat_ofNat']
    omega
  have hb0' : (UInt8.ofNat (((len - 3) <<< 2) ||| (dist >>> 8))).toNat = 4 * (len - 3) + dist / 256 := by
    rw [hb0, UInt8.toNat_ofNat']
    omega
  rw [hb0', hb1]
  constructor
  · rw [Nat.shiftRight_eq_div_pow]
    omega
  · rw [← Nat.shiftLeft_add_eq_or_of_lt (by omega), Nat.shiftLeft_eq]
    have hmask : ∀ n : Nat, n &&& 0x3ff = n % 2 ^ 10 := fun n => Nat.and_two_pow_sub_one_eq_mod n 10
    rw [hmask]
    omega

/-- The item of a token in reach is read back. -/
theorem lzjbNext_encode {out : Bytes} {t : LzjbToken} (h : t.InReach out) (rest : Bytes) :
    lzjbNext t.isMatch out (t.encode ++ rest) = some (rest, t.expand out) := by
  cases t with
  | literal byte => rfl
  | copy len dist hlen hdist =>
    obtain ⟨hl, hd⟩ := decode_copy hlen hdist
    have hreach : dist ≤ out.length := h
    simp only [encode, isMatch, List.cons_append, List.nil_append, lzjbNext, if_true]
    rw [hl, hd, if_pos ⟨hdist.1, hreach⟩]
    rfl

theorem allInReach_append {out : Bytes} {g ts : List LzjbToken} (h : AllInReach out (g ++ ts)) :
    AllInReach out g ∧ AllInReach (expandAll out g) ts := by
  induction g generalizing out with
  | nil => exact ⟨trivial, h⟩
  | cons t g ih =>
    obtain ⟨ht, hg⟩ := h
    exact ⟨⟨ht, (ih hg).1⟩, (ih hg).2⟩

/-- A group behind its copymap: the items left of it are expanded in turn. -/
theorem lzjbOutput_group {map : UInt8} (done : List LzjbToken) {g : List LzjbToken} {out : Bytes} (hmap : map.toNat = copymap (done ++ g))
    (hlen : (done ++ g).length ≤ 8) (hreach : AllInReach out g) (rest : Bytes) :
    lzjbOutput map done.length out (g.flatMap encode ++ rest) = lzjbOutput map (done ++ g).length (expandAll out g) rest := by
  induction g generalizing done out with
  | nil =>
    rw [List.append_nil]
    rfl
  | cons t g ih =>
    have hbit : map.toNat.testBit done.length = t.isMatch := by
      rw [hmap, testBit_copymap]
    have hnext : lzjbNext (map.toNat.testBit done.length) out (t.encode ++ (g.flatMap encode ++ rest)) =
        some (g.flatMap encode ++ rest, t.expand out) := by
      rw [hbit, lzjbNext_encode hreach.1]
    have hsplit : done ++ t :: g = done ++ [t] ++ g := by
      rw [List.append_assoc, List.singleton_append]
    have hdone : (done ++ [t]).length = done.length + 1 := by
      rw [List.length_append, List.length_singleton]
    rw [hsplit] at hmap hlen ⊢
    rw [List.flatMap_cons, List.append_assoc, lzjbOutput_of_some (by rw [List.length_append] at hlen; omega) hnext, ← hdone,
      ih (done ++ [t]) hmap hlen hreach.2]
    rfl

/-- The stream of a serialisation begins with the expansion of its tokens. -/
theorem expandAll_prefix_lzjbOutput {ts : List LzjbToken} {out : Bytes} (hreach : AllInReach out ts) (map : UInt8) (rest : Bytes) :
    expandAll out ts <+: lzjbOutput map 8 out (serialise ts ++ rest) := by
  induction ts using serialise.induct generalizing out map with
  | case1 => exact prefix_lzjbOutput _ _ _ _
  | case2 t ts ih =>
    have hsplit := List.take_append_drop 8 (t :: ts)
    rw [← hsplit] at hreach
    obtain ⟨hgroup, hrest⟩ := allInReach_append hreach
    have hlen : ((t :: ts).take 8).length ≤ 8 := by
      rw [List.length_take]
      omega
    have hmap : (UInt8.ofNat (copymap ((t :: ts).take 8))).toNat = copymap ([] ++ (t :: ts).take 8) := by
      have hlt := Nat.lt_of_lt_of_le (copymap_lt ((t :: ts).take 8)) (Nat.pow_le_pow_right Nat.two_pos hlen)
      rw [UInt8.toNat_ofNat', Nat.mod_eq_of_lt hlt, List.nil_append]
    have houtput := lzjbOutput_group [] hmap hlen hgroup (serialise ((t :: ts).drop 8) ++ rest)
    have hall : expandAll out (t :: ts) = expandAll (expandAll out ((t :: ts).take 8)) ((t :: ts).drop 8) := by
      rw [expandAll, expandAll, expandAll, ← List.foldl_append, hsplit]
    rw [serialise, List.cons_append, lzjbOutput_load, List.append_assoc]
    rw [List.length_nil, List.nil_append] at houtput
    rw [houtput, hall]
    -- a group of fewer than eight is the last one
    by_cases hfull : ((t :: ts).take 8).length = 8
    · rw [hfull]
      exact ih hrest _
    · have hlast : (t :: ts).drop 8 = [] := by
        rw [List.length_take] at hfull
        rw [List.drop_eq_nil_iff]
        omega
      rw [hlast]
      exact prefix_lzjbOutput _ _ _ _

end LzjbToken

/-- The tokens of an encoder: every match within the output of the tokens before it. -/
structure LzjbTokens where
  tokens : List LzjbToken
  inReach : LzjbToken.AllInReach [] tokens

/-- What the tokens expand to. -/
def LzjbTokens.expansion (e : LzjbTokens) : Bytes := LzjbToken.expandAll [] e.tokens

/-- The stream of the tokens. -/
def LzjbTokens.serialised (e : LzjbTokens) : Bytes := LzjbToken.serialise e.tokens

/-- Every encoding decompresses to its expansion, to any length it has and with anything behind it. -/
theorem decompress_lzjb_serialised (Γ : Ctx) (e : LzjbTokens) (t : Bytes) {lsize : Nat} (h : lsize ≤ e.expansion.length) :
    decompress Γ .lzjb (e.serialised ++ t) lsize = .ok (e.expansion.take lsize) := by
  have hpre : e.expansion <+: lzjbStream (e.serialised ++ t) := LzjbToken.expandAll_prefix_lzjbOutput e.inReach 0 t
  have hle : lsize ≤ (lzjbStream (e.serialised ++ t)).length := Nat.le_trans h hpre.length_le
  rw [decompress, (reaches_decompressLzjb (e.serialised ++ t) lsize).ok hle, Window.take_of_prefix hpre h]

example : decompressLzjb [0x00, 0x41, 0x42, 0x43, 0x44] 4 = .ok [0x41, 0x42, 0x43, 0x44] := by decide

/-- Two literals, and a match of three bytes that overlaps its own output. -/
def overlapping : LzjbTokens :=
  { tokens := [.literal 0x41, .literal 0x42, .copy 3 2 (by decide) (by decide)]
    inReach := ⟨trivial, trivial, Nat.le_refl 2, trivial⟩ }

/-- The overlapping match, cut after its second byte. -/
theorem decompress_lzjb_overlapping :
    overlapping.serialised = [0x04, 0x41, 0x42, 0x00, 0x02] ∧ 4 ≤ overlapping.expansion.length ∧
      decompress plainCtx .lzjb (overlapping.serialised ++ [0xff]) 4 = .ok (overlapping.expansion.take 4) := by
  refine ⟨?_, by decide, decompress_lzjb_serialised plainCtx overlapping [0xff] (by decide)⟩
  simp [overlapping, LzjbTokens.serialised, LzjbToken.serialise, LzjbToken.copymap, LzjbToken.isMatch, LzjbToken.encode, Nat.bit]

end ZfsForensic

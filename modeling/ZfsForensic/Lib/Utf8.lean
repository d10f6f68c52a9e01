import ZfsForensic.Lib.Octets

/-!
# Lossy UTF-8

A byte string read as UTF-8 text, every maximal ill-formed part replaced by one U+FFFD. Text is kept as the bytes of its UTF-8
form, so a string is read as itself exactly when it is UTF-8, the bytes of some characters.
-/

namespace Octets

/-- The UTF-8 form of U+FFFD. -/
def replacementChar : Bytes := [0xef, 0xbf, 0xbd]

/-- Whether a byte continues a character. -/
def isCont (b : UInt8) : Bool := b &&& 0xc0 == 0x80

/-- The byte at an offset, or zero past the end. -/
def byteOr0 (s : Bytes) (i : Nat) : UInt8 := s[i]?.getD 0

/-- Whether a three-byte character may begin with these two bytes. -/
def second3Ok (b0 b1 : UInt8) : Bool :=
  (b0 == 0xe0 && 0xa0 ≤ b1 && b1 ≤ 0xbf) || (0xe1 ≤ b0 && b0 ≤ 0xec && 0x80 ≤ b1 && b1 ≤ 0xbf) ||
    (b0 == 0xed && 0x80 ≤ b1 && b1 ≤ 0x9f) || (0xee ≤ b0 && b0 ≤ 0xef && 0x80 ≤ b1 && b1 ≤ 0xbf)

/-- Whether a four-byte character may begin with these two bytes. -/
def second4Ok (b0 b1 : UInt8) : Bool :=
  (b0 == 0xf0 && 0x90 ≤ b1 && b1 ≤ 0xbf) || (0xf1 ≤ b0 && b0 ≤ 0xf3 && 0x80 ≤ b1 && b1 ≤ 0xbf) ||
    (b0 == 0xf4 && 0x80 ≤ b1 && b1 ≤ 0x8f)

/-- The first character of a nonempty string: whether it is well-formed, and how many bytes it or its maximal ill-formed part
takes. -/
def utf8Step (s : Bytes) : Bool × Nat :=
  let b0 := byteOr0 s 0
  if b0 < 0x80 then (true, 1)
  else if 0xc2 ≤ b0 ∧ b0 ≤ 0xdf then
    if isCont (byteOr0 s 1) then (true, 2) else (false, 1)
  else if 0xe0 ≤ b0 ∧ b0 ≤ 0xef then
    if !second3Ok b0 (byteOr0 s 1) then (false, 1)
    else if !isCont (byteOr0 s 2) then (false, 2)
    else (true, 3)
  else if 0xf0 ≤ b0 ∧ b0 ≤ 0xf4 then
    if !second4Ok b0 (byteOr0 s 1) then (false, 1)
    else if !isCont (byteOr0 s 2) then (false, 2)
    else if !isCont (byteOr0 s 3) then (false, 3)
    else (true, 4)
  else (false, 1)

/-- `fromUtf8Lossy` on a string of at most `n` bytes. -/
def fromUtf8LossyAux : Nat → Bytes → Bytes
  | 0, _ => []
  | _ + 1, [] => []
  | n + 1, b :: s =>
    let (ok, k) := utf8Step (b :: s)
    (if ok then (b :: s).take k else replacementChar) ++ fromUtf8LossyAux n ((b :: s).drop k)

/-- The text of a byte string, ill-formed parts replaced. -/
def fromUtf8Lossy (s : Bytes) : Bytes := fromUtf8LossyAux s.length s

/-- The bytes of an ASCII literal. -/
def ascii (s : String) : Bytes := s.toList.map (fun c => UInt8.ofNat c.toNat)

/-! ## Well-formed text -/

/-- Whether a byte string is UTF-8: the bytes of some characters, one after the other. -/
def IsUtf8 (s : Bytes) : Prop := ∃ cs : List Char, s = cs.flatMap String.utf8EncodeChar

theorem isUtf8_nil : IsUtf8 [] := ⟨[], rfl⟩

theorem isUtf8_append {c : Char} {s : Bytes} (h : IsUtf8 s) : IsUtf8 (String.utf8EncodeChar c ++ s) := by
  obtain ⟨cs, rfl⟩ := h
  exact ⟨c :: cs, rfl⟩

/-- A byte continues a character when it is one of `80` to `bf`. -/
theorem isCont_iff (b : UInt8) : isCont b = true ↔ 0x80 ≤ b.toNat ∧ b.toNat ≤ 0xbf := by
  have h : ∀ n : Fin 256, isCont (UInt8.ofNat n.val) = true ↔ 0x80 ≤ n.val ∧ n.val ≤ 0xbf := by
    decide +kernel
  simpa using h ⟨b.toNat, b.toNat_lt⟩

theorem isCont_ofNat {n : Nat} (h : n < 64) : isCont (UInt8.ofNat (n + 0x80)) = true := by
  rw [isCont_iff, UInt8.toNat_ofNat', Nat.mod_eq_of_lt (by omega)]
  omega

theorem second3Ok_iff (b0 b1 : UInt8) :
    second3Ok b0 b1 = true ↔
      (b0.toNat = 0xe0 ∧ 0xa0 ≤ b1.toNat ∧ b1.toNat ≤ 0xbf) ∨
      (0xe1 ≤ b0.toNat ∧ b0.toNat ≤ 0xec ∧ 0x80 ≤ b1.toNat ∧ b1.toNat ≤ 0xbf) ∨
      (b0.toNat = 0xed ∧ 0x80 ≤ b1.toNat ∧ b1.toNat ≤ 0x9f) ∨
      (0xee ≤ b0.toNat ∧ b0.toNat ≤ 0xef ∧ 0x80 ≤ b1.toNat ∧ b1.toNat ≤ 0xbf) := by
  simp only [second3Ok, Bool.or_eq_true, Bool.and_eq_true, beq_iff_eq, decide_eq_true_eq, UInt8.le_iff_toNat_le,
    ← UInt8.toNat_inj, UInt8.reduceToNat, or_assoc, and_assoc]

theorem second4Ok_iff (b0 b1 : UInt8) :
    second4Ok b0 b1 = true ↔
      (b0.toNat = 0xf0 ∧ 0x90 ≤ b1.toNat ∧ b1.toNat ≤ 0xbf) ∨
      (0xf1 ≤ b0.toNat ∧ b0.toNat ≤ 0xf3 ∧ 0x80 ≤ b1.toNat ∧ b1.toNat ≤ 0xbf) ∨
      (b0.toNat = 0xf4 ∧ 0x80 ≤ b1.toNat ∧ b1.toNat ≤ 0x8f) := by
  simp only [second4Ok, Bool.or_eq_true, Bool.and_eq_true, beq_iff_eq, decide_eq_true_eq, UInt8.le_iff_toNat_le,
    ← UInt8.toNat_inj, UInt8.reduceToNat, or_assoc, and_assoc]

/-- The forms of a well-formed first character, by its length. -/
theorem utf8Step_eq_true_iff (s : Bytes) (k : Nat) :
    utf8Step s = (true, k) ↔
      (k = 1 ∧ (byteOr0 s 0).toNat < 0x80) ∨
      (k = 2 ∧ 0xc2 ≤ (byteOr0 s 0).toNat ∧ (byteOr0 s 0).toNat ≤ 0xdf ∧ isCont (byteOr0 s 1) = true) ∨
      (k = 3 ∧ second3Ok (byteOr0 s 0) (byteOr0 s 1) = true ∧ isCont (byteOr0 s 2) = true) ∨
      (k = 4 ∧ second4Ok (byteOr0 s 0) (byteOr0 s 1) = true ∧ isCont (byteOr0 s 2) = true ∧
        isCont (byteOr0 s 3) = true) := by
  have h3 : second3Ok (byteOr0 s 0) (byteOr0 s 1) = true → 0xe0 ≤ (byteOr0 s 0).toNat ∧ (byteOr0 s 0).toNat ≤ 0xef := by
    rw [second3Ok_iff]
    omega
  have h4 : second4Ok (byteOr0 s 0) (byteOr0 s 1) = true → 0xf0 ≤ (byteOr0 s 0).toNat ∧ (byteOr0 s 0).toNat ≤ 0xf4 := by
    rw [second4Ok_iff]
    omega
  simp only [utf8Step, UInt8.lt_iff_toNat_lt, UInt8.le_iff_toNat_le, UInt8.reduceToNat]
  generalize (byteOr0 s 0).toNat = b0 at *
  generalize second3Ok (byteOr0 s 0) (byteOr0 s 1) = ok3 at *
  generalize second4Ok (byteOr0 s 0) (byteOr0 s 1) = ok4 at *
  grind

/-- A character is read as well-formed, whatever follows it. -/
theorem utf8Step_utf8EncodeChar (c : Char) (s : Bytes) :
    utf8Step (String.utf8EncodeChar c ++ s) = (true, (String.utf8EncodeChar c).length) := by
  have hmax : c.val.toNat < 0xd800 ∨ (0xdfff < c.val.toNat ∧ c.val.toNat < 0x110000) := c.valid
  rw [utf8Step_eq_true_iff]
  unfold String.utf8EncodeChar
  dsimp only
  generalize c.val.toNat = v at hmax
  split
  · refine Or.inl ⟨rfl, ?_⟩
    simp [byteOr0]
    omega
  split
  · refine Or.inr (Or.inl ⟨rfl, ?_, ?_, isCont_ofNat (by omega)⟩)
    · simp [byteOr0]
      omega
    · simp [byteOr0]
      omega
  split
  · refine Or.inr (Or.inr (Or.inl ⟨rfl, ?_, isCont_ofNat (by omega)⟩))
    simp [byteOr0, second3Ok_iff]
    omega
  · refine Or.inr (Or.inr (Or.inr ⟨rfl, ?_, isCont_ofNat (by omega), isCont_ofNat (by omega)⟩))
    simp [byteOr0, second4Ok_iff]
    omega

/-- A continuation byte lies inside the string. -/
theorem lt_length_of_isCont {s : Bytes} {i : Nat} (h : isCont (byteOr0 s i) = true) : i < s.length := by
  by_contra hlen
  rw [byteOr0, List.getElem?_eq_none (by omega)] at h
  exact absurd h (by decide)

theorem take_byteOr0 {s : Bytes} {k : Nat} (h : k ≤ s.length) : s.take k = (List.range k).map (byteOr0 s) := by
  refine List.ext_getElem? fun i => ?_
  by_cases hi : i < k
  · rw [List.getElem?_take_of_lt hi, List.getElem?_map, List.getElem?_range hi, Option.map_some, byteOr0,
      List.getElem?_eq_getElem (by omega), Option.getD_some]
  · rw [List.getElem?_eq_none (by simp; omega), List.getElem?_eq_none (by simp; omega)]

/-- The character with a number, when that number is one of a character. -/
theorem exists_char_val {v : Nat} (h : v < 0xd800 ∨ (0xdfff < v ∧ v < 0x110000)) : ∃ c : Char, c.val.toNat = v := by
  refine ⟨⟨UInt32.ofNat v, ?_⟩, ?_⟩
  · simp only [UInt32.isValidChar, Nat.isValidChar, UInt32.toNat_ofNat']
    rw [Nat.mod_eq_of_lt (by omega)]
    exact h
  · simp only [UInt32.toNat_ofNat']
    omega

/-- What is read as a well-formed first character is the bytes of one. -/
theorem exists_char_of_utf8Step {s : Bytes} {k : Nat} (hs : s ≠ []) (h : utf8Step s = (true, k)) :
    ∃ c : Char, s.take k = String.utf8EncodeChar c ∧ k = (String.utf8EncodeChar c).length := by
  have hchar : ∀ (v : Nat) (bs : Bytes), (v < 0xd800 ∨ (0xdfff < v ∧ v < 0x110000)) → k ≤ s.length →
      s.take k = bs → (∀ c : Char, c.val.toNat = v → String.utf8EncodeChar c = bs) →
      ∃ c : Char, s.take k = String.utf8EncodeChar c ∧ k = (String.utf8EncodeChar c).length := by
    intro v bs hv hk htake henc
    obtain ⟨c, hc⟩ := exists_char_val hv
    refine ⟨c, htake.trans (henc c hc).symm, ?_⟩
    rw [henc c hc, ← htake, List.length_take]
    omega
  rcases (utf8Step_eq_true_iff s k).1 h with ⟨rfl, h0⟩ | ⟨rfl, h0, h0', h1⟩ | ⟨rfl, h01, h2⟩ | ⟨rfl, h01, h2, h3⟩
  · have hlen : 1 ≤ s.length := List.length_pos_iff.2 hs
    refine hchar (byteOr0 s 0).toNat _ (by omega) hlen (take_byteOr0 hlen) fun c hc => ?_
    simp only [String.utf8EncodeChar, hc]
    rw [if_pos (by omega)]
    simp
  · have hlen := lt_length_of_isCont h1
    rw [isCont_iff] at h1
    refine hchar ((byteOr0 s 0).toNat % 32 * 64 + (byteOr0 s 1).toNat % 64) _ (by omega) hlen (take_byteOr0 hlen)
      fun c hc => ?_
    simp only [String.utf8EncodeChar, hc]
    rw [if_neg (by omega), if_pos (by omega)]
    simp only [List.range, List.range.loop, List.map_cons, List.map_nil, List.cons.injEq, ← UInt8.toNat_inj,
      UInt8.toNat_ofNat', and_true]
    omega
  · have hlen := lt_length_of_isCont h2
    rw [isCont_iff] at h2
    rw [second3Ok_iff] at h01
    refine hchar ((byteOr0 s 0).toNat % 16 * 4096 + (byteOr0 s 1).toNat % 64 * 64 + (byteOr0 s 2).toNat % 64) _
      (by omega) hlen (take_byteOr0 hlen) fun c hc => ?_
    simp only [String.utf8EncodeChar, hc]
    rw [if_neg (by omega), if_neg (by omega), if_pos (by omega)]
    have hb0 : 0xe0 ≤ (byteOr0 s 0).toNat ∧ (byteOr0 s 0).toNat ≤ 0xef := by omega
    have hb1 : 0x80 ≤ (byteOr0 s 1).toNat ∧ (byteOr0 s 1).toNat ≤ 0xbf := by omega
    clear h01
    simp only [List.range, List.range.loop, List.map_cons, List.map_nil, List.cons.injEq, ← UInt8.toNat_inj,
      UInt8.toNat_ofNat', and_true]
    omega
  · have hlen := lt_length_of_isCont h3
    rw [isCont_iff] at h2 h3
    rw [second4Ok_iff] at h01
    refine hchar ((byteOr0 s 0).toNat % 8 * 262144 + (byteOr0 s 1).toNat % 64 * 4096 + (byteOr0 s 2).toNat % 64 * 64 +
      (byteOr0 s 3).toNat % 64) _ (by omega) hlen (take_byteOr0 hlen) fun c hc => ?_
    simp only [String.utf8EncodeChar, hc]
    rw [if_neg (by omega), if_neg (by omega), if_neg (by omega)]
    have hb0 : 0xf0 ≤ (byteOr0 s 0).toNat ∧ (byteOr0 s 0).toNat ≤ 0xf4 := by omega
    have hb1 : 0x80 ≤ (byteOr0 s 1).toNat ∧ (byteOr0 s 1).toNat ≤ 0xbf := by omega
    clear h01
    simp only [List.range, List.range.loop, List.map_cons, List.map_nil, List.cons.injEq, ← UInt8.toNat_inj,
      UInt8.toNat_ofNat', and_true]
    omega

theorem fromUtf8LossyAux_cons (n : Nat) (b : UInt8) (s : Bytes) :
    fromUtf8LossyAux (n + 1) (b :: s) =
      (if (utf8Step (b :: s)).1 then (b :: s).take (utf8Step (b :: s)).2 else replacementChar) ++
        fromUtf8LossyAux n ((b :: s).drop (utf8Step (b :: s)).2) := rfl

/-- A character is read as itself, and the text behind it is read on its own. -/
theorem fromUtf8LossyAux_utf8EncodeChar (n : Nat) (c : Char) (s : Bytes) :
    fromUtf8LossyAux (n + 1) (String.utf8EncodeChar c ++ s) = String.utf8EncodeChar c ++ fromUtf8LossyAux n s := by
  have hstep := utf8Step_utf8EncodeChar c s
  have hne : String.utf8EncodeChar c ++ s ≠ [] := by
    intro h
    have := congrArg List.length (List.append_eq_nil_iff.1 h).1
    rw [String.length_utf8EncodeChar, List.length_nil] at this
    exact absurd this c.utf8Size_pos.ne'
  obtain ⟨b, t, hbt⟩ := List.exists_cons_of_ne_nil hne
  rw [hbt] at hstep ⊢
  rw [fromUtf8LossyAux_cons, hstep, if_pos rfl, ← hbt, List.take_left, List.drop_left]

theorem fromUtf8LossyAux_of_chars (cs : List Char) (n : Nat) (hn : (cs.flatMap String.utf8EncodeChar).length ≤ n) :
    fromUtf8LossyAux n (cs.flatMap String.utf8EncodeChar) = cs.flatMap String.utf8EncodeChar := by
  induction cs generalizing n with
  | nil =>
    cases n with
    | zero => rfl
    | succ n => rfl
  | cons c cs ih =>
    have hpos := c.utf8Size_pos
    rw [List.flatMap_cons, List.length_append, String.length_utf8EncodeChar] at hn
    obtain ⟨n, rfl⟩ := Nat.exists_eq_succ_of_ne_zero (n := n) (by omega)
    rw [List.flatMap_cons, fromUtf8LossyAux_utf8EncodeChar, ih n (by omega)]

/-- A string that begins with U+FFFD begins with a well-formed character. -/
theorem utf8Step_replacementChar (s : Bytes) : utf8Step (replacementChar ++ s) = (true, 3) :=
  utf8Step_utf8EncodeChar (Char.ofNat 0xfffd) s

/-- A string that is its own reading is UTF-8: an ill-formed part would be read as U+FFFD, which is well-formed. -/
theorem isUtf8_of_fromUtf8LossyAux (n : Nat) (s : Bytes) (hn : s.length ≤ n) (h : fromUtf8LossyAux n s = s) :
    IsUtf8 s := by
  induction n generalizing s with
  | zero =>
    rw [List.length_eq_zero_iff.1 (Nat.le_zero.1 hn)]
    exact isUtf8_nil
  | succ n ih =>
    cases s with
    | nil => exact isUtf8_nil
    | cons b s =>
      rw [fromUtf8LossyAux_cons] at h
      cases hok : (utf8Step (b :: s)).1 with
      | false =>
        rw [hok, if_neg Bool.false_ne_true] at h
        rw [← h, utf8Step_replacementChar] at hok
        exact absurd hok (by decide)
      | true =>
        rw [hok, if_pos rfl] at h
        have hstep : utf8Step (b :: s) = (true, (utf8Step (b :: s)).2) := Prod.ext hok rfl
        obtain ⟨c, htake, hk⟩ := exists_char_of_utf8Step (List.cons_ne_nil b s) hstep
        have hrest : fromUtf8LossyAux n ((b :: s).drop (utf8Step (b :: s)).2) = (b :: s).drop (utf8Step (b :: s)).2 := by
          refine @List.append_cancel_left _ ((b :: s).take (utf8Step (b :: s)).2) _ _ ?_
          rw [h, List.take_append_drop]
        have hpos := c.utf8Size_pos
        rw [String.length_utf8EncodeChar] at hk
        rw [← List.take_append_drop (utf8Step (b :: s)).2 (b :: s), htake]
        refine isUtf8_append (ih _ ?_ hrest)
        rw [List.length_drop]
        rw [List.length_cons] at hn ⊢
        omega

/-- A byte string is read as itself exactly when it is UTF-8. -/
theorem fromUtf8Lossy_eq_self_iff (s : Bytes) : fromUtf8Lossy s = s ↔ IsUtf8 s := by
  constructor
  · intro h
    exact isUtf8_of_fromUtf8LossyAux s.length s (Nat.le_refl _) h
  · rintro ⟨cs, rfl⟩
    exact fromUtf8LossyAux_of_chars cs _ (Nat.le_refl _)

/-- A lone continuation byte and a truncated character are each replaced once; the text around them is kept. -/
example : fromUtf8Lossy [0x61, 0x80, 0x62, 0xe2, 0x82] = [0x61, 0xef, 0xbf, 0xbd, 0x62, 0xef, 0xbf, 0xbd] := by decide

end Octets

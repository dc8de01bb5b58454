import OpTable.Proofs.Except
import OpTable.Proofs.Text.Lines
import OpTable.Text.Utf8

/-!
# Well-formed bytes

`Sequence` is the table of the byte sequences that stand for one scalar value. The decoder takes
these off the front and nothing else, and they are what the encoder writes, so bytes are decoded to
a text exactly when they are its encoding (`decode_eq_ok_iff`).
-/

namespace OpTable.Text.Utf8

/-- The byte goes on with a scalar value; its upper bits are `10`. -/
def IsTail (b : UInt8) : Prop := 128 ≤ b.toNat ∧ b.toNat ≤ 191

/-- The byte `c` can be the second one after the first byte `b`. Some first bytes narrow the range:
no scalar value is written longer than needed, is a surrogate, or is above U+10FFFF. -/
def Follows (b c : UInt8) : Prop :=
  IsTail c ∧ (b.toNat = 224 → 160 ≤ c.toNat) ∧ (b.toNat = 237 → c.toNat ≤ 159) ∧
    (b.toNat = 240 → 144 ≤ c.toNat) ∧ (b.toNat = 244 → c.toNat ≤ 143)

/-- The bytes stand for the scalar value. -/
inductive Sequence : List UInt8 → Char → Prop where
  | one {b : UInt8} {ch : Char} (hb : b.toNat < 128) (hch : ch.toNat = b.toNat) : Sequence [b] ch
  | two {b c : UInt8} {ch : Char} (hb : 194 ≤ b.toNat ∧ b.toNat ≤ 223) (hc : Follows b c)
      (hch : ch.toNat = b.toNat % 32 * 64 + c.toNat % 64) : Sequence [b, c] ch
  | three {b c d : UInt8} {ch : Char} (hb : 224 ≤ b.toNat ∧ b.toNat ≤ 239) (hc : Follows b c)
      (hd : IsTail d)
      (hch : ch.toNat = (b.toNat % 16 * 64 + c.toNat % 64) * 64 + d.toNat % 64) :
      Sequence [b, c, d] ch
  | four {b c d e : UInt8} {ch : Char} (hb : 240 ≤ b.toNat ∧ b.toNat ≤ 244) (hc : Follows b c)
      (hd : IsTail d) (he : IsTail e)
      (hch : ch.toNat =
        ((b.toNat % 8 * 64 + c.toNat % 64) * 64 + d.toNat % 64) * 64 + e.toNat % 64) :
      Sequence [b, c, d, e] ch

/-! ### Classes of bytes -/

theorem within_iff {low high b : UInt8} :
    within low high b = true ↔ low.toNat ≤ b.toNat ∧ b.toNat ≤ high.toNat := by
  rw [within, Bool.and_eq_true, decide_eq_true_iff, decide_eq_true_iff, UInt8.le_iff_toNat_le,
    UInt8.le_iff_toNat_le]

theorem within_tail_iff {b : UInt8} : within 0x80 0xBF b = true ↔ IsTail b := within_iff

theorem within_secondRange_iff {b c : UInt8} :
    within (secondRange b).1 (secondRange b).2 c = true ↔ Follows b c := by
  have hE0 : b = 0xE0 ↔ b.toNat = 224 := UInt8.toNat_inj.symm
  have hED : b = 0xED ↔ b.toNat = 237 := UInt8.toNat_inj.symm
  have hF0 : b = 0xF0 ↔ b.toNat = 240 := UInt8.toNat_inj.symm
  have hF4 : b = 0xF4 ↔ b.toNat = 244 := UInt8.toNat_inj.symm
  unfold secondRange Follows IsTail
  simp only [hE0, hED, hF0, hF4]
  split
  · simp only [within_iff, UInt8.reduceToNat]
    omega
  · split
    · simp only [within_iff, UInt8.reduceToNat]
      omega
    · split
      · simp only [within_iff, UInt8.reduceToNat]
        omega
      · split
        · simp only [within_iff, UInt8.reduceToNat]
          omega
        · simp only [within_iff, UInt8.reduceToNat]
          omega

theorem sequenceLength?_eq (b : UInt8) : sequenceLength? b =
    if b.toNat < 128 then some 1
    else if 194 ≤ b.toNat ∧ b.toNat ≤ 223 then some 2
    else if 224 ≤ b.toNat ∧ b.toNat ≤ 239 then some 3
    else if 240 ≤ b.toNat ∧ b.toNat ≤ 244 then some 4
    else none := by
  simp only [sequenceLength?, within_iff, UInt8.lt_iff_toNat_lt]
  rfl

theorem sequenceLength?_eq_some_iff {b : UInt8} {n : Nat} : sequenceLength? b = some n ↔
    (n = 1 ∧ b.toNat < 128) ∨ (n = 2 ∧ 194 ≤ b.toNat ∧ b.toNat ≤ 223) ∨
      (n = 3 ∧ 224 ≤ b.toNat ∧ b.toNat ≤ 239) ∨ (n = 4 ∧ 240 ≤ b.toNat ∧ b.toNat ≤ 244) := by
  rw [sequenceLength?_eq]
  split
  · rw [Option.some.injEq]
    omega
  · split
    · rw [Option.some.injEq]
      omega
    · split
      · rw [Option.some.injEq]
        omega
      · split
        · rw [Option.some.injEq]
          omega
        · simp only [reduceCtorEq, false_iff]
          omega

/-! ### Values -/

theorem toNat_ofNat {n : Nat} (h : n.isValidChar) : (Char.ofNat n).toNat = n := by
  rw [Char.ofNat, dif_pos h]
  rfl

theorem eq_of_toNat {c d : Char} (h : c.toNat = d.toNat) : c = d := by
  rw [Char.ext_iff, ← UInt32.toNat_inj]
  exact h

theorem toNat_assemble {first : UInt8} {bits n : Nat} {tail : List UInt8}
    (hn : tail.foldl (fun n b => n * 64 + b.toNat % 64) (first.toNat % 2 ^ bits) = n)
    (h : n < 55296 ∨ 57343 < n ∧ n < 1114112) : (assemble first bits tail).toNat = n := by
  rw [assemble, hn]
  exact toNat_ofNat h

theorem assemble_eq {first : UInt8} {bits : Nat} {tail : List UInt8} {ch : Char}
    (h : ch.toNat = tail.foldl (fun n b => n * 64 + b.toNat % 64) (first.toNat % 2 ^ bits)) :
    assemble first bits tail = ch :=
  eq_of_toNat (toNat_assemble h.symm ch.valid)

/-! ### One scalar value -/

theorem sequence_of_next {b : UInt8} {rest r : List UInt8} {ch : Char}
    (h : next b rest = .scalar ch r) : ∃ front, b :: rest = front ++ r ∧ Sequence front ch := by
  unfold next at h
  dsimp only at h
  split at h
  next hlength =>
    cases h
    have hb := sequenceLength?_eq_some_iff.mp hlength
    exact ⟨[b], rfl, .one (by omega) (toNat_ofNat (.inl (by omega)))⟩
  next hlength =>
    have hb := sequenceLength?_eq_some_iff.mp hlength
    split at h
    · cases h
    next c s =>
    split at h
    next hc =>
      cases h
      have hc := within_secondRange_iff.mp hc
      have hrange := hc
      unfold Follows IsTail at hrange
      exact ⟨[b, c], rfl, .two (by omega) hc (toNat_assemble rfl (by omega))⟩
    · cases h
  next hlength =>
    have hb := sequenceLength?_eq_some_iff.mp hlength
    split at h
    · cases h
    next c s =>
    split at h
    next hc =>
      split at h
      · cases h
      next d t =>
      split at h
      next hd =>
        cases h
        have hc := within_secondRange_iff.mp hc
        have hd := within_tail_iff.mp hd
        have hrange := hc
        unfold Follows IsTail at hrange
        exact ⟨[b, c, d], rfl, .three (by omega) hc hd (toNat_assemble rfl (by omega))⟩
      · cases h
    · cases h
  next n hone htwo hthree hlength =>
    have hb := sequenceLength?_eq_some_iff.mp hlength
    have hn : n ≠ 1 ∧ n ≠ 2 ∧ n ≠ 3 := ⟨hone, htwo, hthree⟩
    split at h
    · cases h
    next c s =>
    split at h
    next hc =>
      split at h
      · cases h
      next d t =>
      split at h
      next hd =>
        split at h
        · cases h
        next e u =>
        split at h
        next he =>
          cases h
          have hc := within_secondRange_iff.mp hc
          have hd := within_tail_iff.mp hd
          have he := within_tail_iff.mp he
          have hrange := hc
          unfold Follows IsTail at hrange
          exact ⟨[b, c, d, e], rfl, .four (by omega) hc hd he (toNat_assemble rfl (by omega))⟩
        · cases h
      · cases h
    · cases h
  · cases h

theorem next_of_sequence {front : List UInt8} {ch : Char} (h : Sequence front ch)
    (r : List UInt8) : ∃ b rest, front ++ r = b :: rest ∧ next b rest = .scalar ch r := by
  cases h with
  | @one b _ hb hch =>
    have hlength : sequenceLength? b = some 1 := sequenceLength?_eq_some_iff.mpr (by omega)
    have hvalue : Char.ofNat b.toNat = ch := by rw [← hch, Char.ofNat_toNat]
    refine ⟨b, r, rfl, ?_⟩
    simp only [next, hlength, hvalue]
  | @two b c _ hb hc hch =>
    have hlength : sequenceLength? b = some 2 := sequenceLength?_eq_some_iff.mpr (by omega)
    have hvalue : assemble b 5 [c] = ch := assemble_eq hch
    refine ⟨b, c :: r, rfl, ?_⟩
    simp only [next, hlength, within_secondRange_iff.mpr hc, if_true, hvalue]
  | @three b c d _ hb hc hd hch =>
    have hlength : sequenceLength? b = some 3 := sequenceLength?_eq_some_iff.mpr (by omega)
    have hvalue : assemble b 4 [c, d] = ch := assemble_eq hch
    refine ⟨b, c :: d :: r, rfl, ?_⟩
    simp only [next, hlength, within_secondRange_iff.mpr hc, within_tail_iff.mpr hd, if_true,
      hvalue]
  | @four b c d e _ hb hc hd he hch =>
    have hlength : sequenceLength? b = some 4 := sequenceLength?_eq_some_iff.mpr (by omega)
    have hvalue : assemble b 3 [c, d, e] = ch := assemble_eq hch
    refine ⟨b, c :: d :: e :: r, rfl, ?_⟩
    simp only [next, hlength, within_secondRange_iff.mpr hc, within_tail_iff.mpr hd,
      within_tail_iff.mpr he, if_true, hvalue]

/-! ### Bytes of a scalar value -/

theorem ofNat_eq_of_toNat {n : Nat} {b : UInt8} (h : n = b.toNat) : UInt8.ofNat n = b := by
  rw [h, UInt8.ofNat_toNat]

theorem Sequence.eq_utf8EncodeChar {front : List UInt8} {ch : Char} (h : Sequence front ch) :
    front = String.utf8EncodeChar ch := by
  have hval : ch.val.toNat = ch.toNat := rfl
  cases h with
  | @one b _ hb hch =>
    simp only [String.utf8EncodeChar, hval, hch]
    rw [if_pos (by omega), UInt8.ofNat_toNat]
  | @two b c _ hb hc hch =>
    unfold Follows IsTail at hc
    simp only [String.utf8EncodeChar, hval, hch]
    rw [if_neg (by omega), if_pos (by omega), ofNat_eq_of_toNat (b := b) (by omega),
      ofNat_eq_of_toNat (b := c) (by omega)]
  | @three b c d _ hb hc hd hch =>
    unfold Follows at hc
    unfold IsTail at hc hd
    simp only [String.utf8EncodeChar, hval, hch]
    rw [if_neg (by omega), if_neg (by omega), if_pos (by omega),
      ofNat_eq_of_toNat (b := b) (by omega), ofNat_eq_of_toNat (b := c) (by omega),
      ofNat_eq_of_toNat (b := d) (by omega)]
  | @four b c d e _ hb hc hd he hch =>
    unfold Follows at hc
    unfold IsTail at hc hd he
    simp only [String.utf8EncodeChar, hval, hch]
    rw [if_neg (by omega), if_neg (by omega), if_neg (by omega),
      ofNat_eq_of_toNat (b := b) (by omega), ofNat_eq_of_toNat (b := c) (by omega),
      ofNat_eq_of_toNat (b := d) (by omega), ofNat_eq_of_toNat (b := e) (by omega)]

theorem toNat_ofNat_of_lt {n : Nat} (h : n < 256) : (UInt8.ofNat n).toNat = n := by
  rw [UInt8.toNat_ofNat', Nat.mod_eq_of_lt h]

theorem sequence_utf8EncodeChar (ch : Char) : Sequence (String.utf8EncodeChar ch) ch := by
  have hvalid : ch.toNat < 55296 ∨ 57343 < ch.toNat ∧ ch.toNat < 1114112 := ch.valid
  have hval : ch.val.toNat = ch.toNat := rfl
  simp only [String.utf8EncodeChar, hval]
  split
  next hle =>
    have hb := toNat_ofNat_of_lt (n := ch.toNat) (by omega)
    exact .one (by omega) (by omega)
  next hgt =>
  split
  next hle =>
    have hb := toNat_ofNat_of_lt (n := ch.toNat / 64 % 32 + 192) (by omega)
    have hc := toNat_ofNat_of_lt (n := ch.toNat % 64 + 128) (by omega)
    exact .two (by omega) (by unfold Follows IsTail; omega) (by omega)
  next hgt' =>
  split
  next hle =>
    have hb := toNat_ofNat_of_lt (n := ch.toNat / 4096 % 16 + 224) (by omega)
    have hc := toNat_ofNat_of_lt (n := ch.toNat / 64 % 64 + 128) (by omega)
    have hd := toNat_ofNat_of_lt (n := ch.toNat % 64 + 128) (by omega)
    exact .three (by omega) (by unfold Follows IsTail; omega) (by unfold IsTail; omega) (by omega)
  next hgt'' =>
    have hb := toNat_ofNat_of_lt (n := ch.toNat / 262144 % 8 + 240) (by omega)
    have hc := toNat_ofNat_of_lt (n := ch.toNat / 4096 % 64 + 128) (by omega)
    have hd := toNat_ofNat_of_lt (n := ch.toNat / 64 % 64 + 128) (by omega)
    have he := toNat_ofNat_of_lt (n := ch.toNat % 64 + 128) (by omega)
    exact .four (by omega) (by unfold Follows IsTail; omega) (by unfold IsTail; omega)
      (by unfold IsTail; omega) (by omega)

/-! ### Texts -/

theorem encode_cons (c : Char) (text : List Char) :
    encode (c :: text) = String.utf8EncodeChar c ++ encode text := List.flatMap_cons

theorem encode_append (a b : List Char) : encode (a ++ b) = encode a ++ encode b :=
  List.flatMap_append

theorem decodeFrom_of_next {b : UInt8} {rest r : List UInt8} {c : Char}
    (h : next b rest = .scalar c r) (start : Nat) : decodeFrom start (b :: rest) =
      (decodeFrom (start + 1 + (rest.length - r.length)) r).map (c :: ·) := by
  rw [decodeFrom]
  split
  next c' r' h' =>
    rw [h] at h'
    cases h'
    cases decodeFrom (start + 1 + (rest.length - r.length)) r with
    | ok cs => rfl
    | error fault => rfl
  next h' =>
    rw [h] at h'
    cases h'
  next h' =>
    rw [h] at h'
    cases h'

theorem decodeFrom_encode (start : Nat) (text : List Char) :
    decodeFrom start (encode text) = .ok text := by
  induction text generalizing start with
  | nil => rw [encode, List.flatMap_nil, decodeFrom]
  | cons c text ih =>
    obtain ⟨b, rest, hbytes, hnext⟩ := next_of_sequence (sequence_utf8EncodeChar c) (encode text)
    rw [encode_cons, hbytes, decodeFrom_of_next hnext, ih]
    rfl

theorem exists_next_of_decodeFrom {start : Nat} {b : UInt8} {rest : List UInt8}
    {text : List Char} (h : decodeFrom start (b :: rest) = .ok text) :
    ∃ c r, next b rest = .scalar c r := by
  rw [decodeFrom] at h
  split at h
  next c r hnext => exact ⟨c, r, hnext⟩
  · cases h
  · cases h

theorem eq_encode_of_decodeFrom {start : Nat} {bytes : List UInt8} {text : List Char}
    (h : decodeFrom start bytes = .ok text) : bytes = encode text := by
  induction hn : bytes.length using Nat.strongRecOn generalizing start bytes text with
  | ind n ih =>
    cases bytes with
    | nil =>
      rw [decodeFrom] at h
      cases h
      rfl
    | cons b rest =>
      obtain ⟨c, r, hnext⟩ := exists_next_of_decodeFrom h
      obtain ⟨front, hfront, hsequence⟩ := sequence_of_next hnext
      rw [decodeFrom_of_next hnext, Except.map_eq_ok_iff] at h
      obtain ⟨cs, hcs, rfl⟩ := h
      have hlength := length_of_next_scalar hnext
      rw [List.length_cons] at hn
      have hrest := ih r.length (by omega) hcs rfl
      rw [hfront, encode_cons, hsequence.eq_utf8EncodeChar, ← hrest]

/-- The bytes that are decoded are the encodings of texts. -/
theorem decode_eq_ok_iff {bytes : List UInt8} {text : List Char} :
    decode bytes = .ok text ↔ bytes = encode text := by
  constructor
  · exact eq_encode_of_decodeFrom
  · rintro rfl
    exact decodeFrom_encode 0 text

theorem encode_injective {text other : List Char} (h : encode text = encode other) :
    text = other :=
  Except.ok.inj ((decode_eq_ok_iff.mpr rfl).symm.trans (decode_eq_ok_iff.mpr h))

/-- The bytes are the encoding of a text. -/
def IsUtf8 (bytes : List UInt8) : Prop := ∃ text, decode bytes = .ok text

instance (bytes : List UInt8) : Decidable (IsUtf8 bytes) :=
  match h : decode bytes with
  | .ok text => .isTrue ⟨text, h⟩
  | .error _ => .isFalse fun ⟨_, htext⟩ => nomatch h.symm.trans htext

theorem isUtf8_encode (text : List Char) : IsUtf8 (encode text) :=
  ⟨text, decode_eq_ok_iff.mpr rfl⟩

/-! ### ASCII characters -/

/-- The byte of an ASCII character stands for nothing else. -/
theorem Sequence.eq_of_mem {front : List UInt8} {ch : Char} (h : Sequence front ch) {b : UInt8}
    (hb : b ∈ front) (hascii : b.toNat < 128) : front = [b] ∧ ch.toNat = b.toNat := by
  cases h with
  | one hfirst hch =>
    rw [List.mem_singleton.mp hb]
    exact ⟨rfl, hch⟩
  | two hfirst hc hch =>
    unfold Follows IsTail at hc
    simp only [List.mem_cons, List.not_mem_nil, or_false] at hb
    rcases hb with rfl | rfl <;> omega
  | three hfirst hc hd hch =>
    unfold Follows at hc
    unfold IsTail at hc hd
    simp only [List.mem_cons, List.not_mem_nil, or_false] at hb
    rcases hb with rfl | rfl | rfl <;> omega
  | four hfirst hc hd he hch =>
    unfold Follows at hc
    unfold IsTail at hc hd he
    simp only [List.mem_cons, List.not_mem_nil, or_false] at hb
    rcases hb with rfl | rfl | rfl | rfl <;> omega

section Ascii

variable {b : UInt8} {c : Char} (hb : b.toNat < 128) (hc : c.toNat = b.toNat)

include hb hc

theorem utf8EncodeChar_ascii : String.utf8EncodeChar c = [b] :=
  (Sequence.one hb hc).eq_utf8EncodeChar.symm

theorem eq_of_mem_utf8EncodeChar {d : Char} (h : b ∈ String.utf8EncodeChar d) : d = c := by
  obtain ⟨-, hd⟩ := (sequence_utf8EncodeChar d).eq_of_mem h hb
  exact eq_of_toNat (hd.trans hc.symm)

theorem mem_of_mem_encode {text : List Char} (h : b ∈ encode text) : c ∈ text := by
  obtain ⟨d, hd, hmem⟩ := List.mem_flatMap.mp h
  rwa [← eq_of_mem_utf8EncodeChar hb hc hmem]

theorem mem_encode_of_mem {text : List Char} (h : c ∈ text) : b ∈ encode text := by
  refine List.mem_flatMap.mpr ⟨c, h, ?_⟩
  rw [utf8EncodeChar_ascii hb hc]
  exact List.mem_singleton_self b

theorem encode_cons_ascii (text : List Char) : encode (c :: text) = b :: encode text := by
  rw [encode_cons, utf8EncodeChar_ascii hb hc]
  rfl

theorem encode_concat (text : List Char) : encode (text ++ [c]) = encode text ++ [b] := by
  rw [encode_append, encode_cons_ascii hb hc]
  rfl

theorem getLast?_of_getLast?_encode {text : List Char} (h : (encode text).getLast? = some b) :
    text.getLast? = some c := by
  rcases List.eq_nil_or_concat text with rfl | ⟨init, d, rfl⟩
  · cases h
  · rw [List.concat_eq_append] at h ⊢
    have hne : String.utf8EncodeChar d ≠ [] := by
      intro hnil
      have hsequence := sequence_utf8EncodeChar d
      rw [hnil] at hsequence
      cases hsequence
    have hlast : (String.utf8EncodeChar d).getLast? = some b := by
      rw [encode_append, encode_cons, List.getLast?_append] at h
      rw [List.getLast?_eq_some_getLast hne]
      simpa [encode, List.getLast?_eq_some_getLast hne] using h
    rw [eq_of_mem_utf8EncodeChar hb hc (List.mem_of_getLast? hlast), List.getLast?_concat]

/-- A mark at the end is dropped from the bytes as it is dropped from the text. -/
theorem dropLastMark_encode (text : List Char) :
    Line.dropLastMark b (encode text) = encode (Line.dropLastMark c text) := by
  by_cases hlast : text.getLast? = some c
  · obtain ⟨init, rfl⟩ := List.getLast?_eq_some_iff.mp hlast
    rw [encode_concat hb hc, Line.dropLastMark_concat, Line.dropLastMark_concat]
  · have hbytes : (encode text).getLast? ≠ some b :=
      fun h => hlast (getLast?_of_getLast?_encode hb hc h)
    rw [Line.dropLastMark, if_neg hbytes, Line.dropLastMark, if_neg hlast]

end Ascii

end OpTable.Text.Utf8

import Shmily.Foundation.OnesComplement
import Shmily.Net.Segments

/-! # The Internet checksum

`generate_checksum` adds the words of a buffer in 32 bits and folds the carries in twice. For
the lengths that fit into a packet this is the addition with end-around carry.
-/

namespace Shmily.Net

open Foundation Lib OnesComplement

theorem getLE_wordAt (area : ByteArea) (offset : Nat) :
    area.getLE 2 offset = (wordAt area offset).toNat := by
  have hlt : area.getLE 2 offset < 2 ^ 16 := area.getLE_lt 2 offset
  rw [wordAt, BitVec.toNat_ofNat, Nat.mod_eq_of_lt hlt]

/-- A word of a part is a word of the whole. -/
theorem wordAt_shift {area other : ByteArea} {offset offset' : Nat}
    (hsame : ∀ i < 2, area (offset + i) = other (offset' + i)) :
    wordAt area offset = wordAt other offset' := by
  have hlow : area offset = other offset' := hsame 0 (by decide)
  have hhigh : area (offset + 1) = other (offset' + 1) := hsame 1 (by decide)
  simp only [wordAt, ByteArea.getLE, hlow, hhigh]

/-! ## `generate_checksum` -/

theorem sumWords_toNat (pkt : ByteArea) (words offset : Nat) (checksum : BitVec 32) :
    (sumWords pkt words offset checksum).toNat =
      (checksum.toNat + littleSum (pkt.bytes offset (2 * words))) % 2 ^ 32 := by
  induction words generalizing offset checksum with
  | zero => exact (Nat.mod_eq_of_lt checksum.isLt).symm
  | succ words ih =>
      have hword : ((wordAt pkt offset).setWidth 32).toNat = pkt.getLE 2 offset := by
        rw [getLE_wordAt, BitVec.toNat_setWidth]
        exact Nat.mod_eq_of_lt (by have := (wordAt pkt offset).isLt; omega)
      rw [sumWords, ih, BitVec.toNat_add, hword, Nat.mul_succ, ByteArea.littleSum_bytes_add_two,
        Nat.mod_add_mod, Nat.add_assoc]

/-- The carries of a 32-bit sum, added twice, leave one digit. -/
theorem fold_digit {sum folded : Nat} (hsum : sum < 2 ^ 32)
    (hfolded : folded = sum / 65536 + sum % 65536) :
    (folded + folded / 65536) % 65536 ≡ sum [MOD 65535] ∧
      ((folded + folded / 65536) % 65536 = 0 ↔ sum = 0) := by
  have hmod : folded ≡ sum [MOD 65535] := by
    unfold Nat.ModEq
    omega
  -- the first fold leaves at most one carry for the second
  rcases Nat.lt_or_ge folded 65536 with hlt | hge
  · rw [Nat.div_eq_of_lt hlt, Nat.add_zero, Nat.mod_eq_of_lt hlt]
    exact ⟨hmod, by omega⟩
  · have hle : folded ≤ 131070 := by omega
    have hcarry : folded / 65536 = 1 := by omega
    have hlow : (folded + 1) % 65536 = folded - 65535 := by omega
    rw [hcarry, hlow]
    refine ⟨Nat.ModEq.trans ?_ hmod, by omega⟩
    unfold Nat.ModEq
    omega

/-- Folded and complemented, the sum of the words of some bytes is their checksum. -/
theorem fold_toNat {sum : BitVec 32} {bytes : List Byte} (hsum : sum.toNat = littleSum bytes) :
    let folded := (sum >>> 16) + (sum &&& 0xffff)
    ((~~~(folded + (folded >>> 16))).setWidth 16).toNat = OnesComplement.checksum bytes := by
  have hlt := sum.isLt
  have hhigh : (sum >>> 16).toNat = sum.toNat / 65536 := by
    rw [BitVec.toNat_ushiftRight, Nat.shiftRight_eq_div_pow]
  have hlow : (sum &&& 0xffff).toNat = sum.toNat % 65536 := by
    rw [BitVec.toNat_and]
    exact Nat.and_two_pow_sub_one_eq_mod _ 16
  have hfolded : ((sum >>> 16) + (sum &&& 0xffff)).toNat =
      sum.toNat / 65536 + sum.toNat % 65536 := by
    rw [BitVec.toNat_add, hhigh, hlow]
    omega
  intro folded
  have hcarry : (folded + (folded >>> 16)).toNat = folded.toNat + folded.toNat / 65536 := by
    rw [BitVec.toNat_add, BitVec.toNat_ushiftRight, Nat.shiftRight_eq_div_pow]
    exact Nat.mod_eq_of_lt (by rw [hfolded]; omega)
  obtain ⟨hmod, hzero⟩ := fold_digit hlt hfolded
  rw [hsum, ← sum_littleWords] at hmod hzero
  have hdigit : onesSum 65536 (littleWords bytes) = (folded.toNat + folded.toNat / 65536) % 65536 :=
    onesSum_unique littleWords_lt (Nat.mod_lt _ (by decide)) hmod hzero
  rw [OnesComplement.checksum, hdigit, BitVec.toNat_setWidth, BitVec.toNat_not, hcarry]
  omega

theorem sumWords_succ (pkt : ByteArea) (words offset : Nat) (checksum : BitVec 32) :
    sumWords pkt (words + 1) offset checksum =
      sumWords pkt words offset checksum + (wordAt pkt (offset + 2 * words)).setWidth 32 := by
  induction words generalizing offset checksum with
  | zero => rfl
  | succ words ih =>
      rw [sumWords, ih, sumWords, Nat.mul_succ, Nat.add_assoc offset 2, Nat.add_comm 2]

/-- An odd last byte makes a word with whatever is behind it. -/
theorem generateChecksum_odd (pkt : ByteArea) {len : Nat} (hodd : len % 2 = 1) :
    generateChecksum pkt len = generateChecksum pkt (len + 1) := by
  have heven : ¬ (len + 1) % 2 = 1 := by omega
  have hwords : (len + 1) / 2 = len / 2 + 1 := by omega
  unfold generateChecksum
  dsimp only
  rw [if_pos hodd, if_neg heven, hwords, sumWords_succ, Nat.zero_add, Nat.mul_comm 2]

theorem generateChecksum_words (pkt : ByteArea) {words : Nat} (hwords : words ≤ 2 ^ 16) :
    (generateChecksum pkt (2 * words)).toNat =
      OnesComplement.checksum (pkt.bytes 0 (2 * words)) := by
  have heven : ¬ 2 * words % 2 = 1 := by omega
  have hle := littleSum_le (pkt.bytes 0 (2 * words))
  rw [ByteArea.length_bytes] at hle
  have hsum := sumWords_toNat pkt words 0 0
  have hzero : (0 : BitVec 32).toNat = 0 := rfl
  rw [hzero, Nat.zero_add, Nat.mod_eq_of_lt (by omega)] at hsum
  unfold generateChecksum
  dsimp only
  rw [if_neg heven, Nat.mul_div_cancel_left words (by decide)]
  exact fold_toNat hsum

/-- A zero byte behind an odd last byte pads it to a word. -/
theorem generateChecksum_toNat {pkt : ByteArea} {len : Nat} (hlen : len < 2 ^ 17)
    (hpad : len % 2 = 1 → pkt len = 0) :
    (generateChecksum pkt len).toNat = OnesComplement.checksum (pkt.bytes 0 len) := by
  rcases Nat.mod_two_eq_zero_or_one len with heven | hodd
  · obtain ⟨words, rfl⟩ := Nat.dvd_of_mod_eq_zero heven
    exact generateChecksum_words pkt (by omega)
  · have hnext : len + 1 = 2 * ((len + 1) / 2) := by omega
    have hbytes : pkt.bytes 0 (len + 1) = pkt.bytes 0 len ++ [0] := by
      rw [ByteArea.bytes_add, Nat.zero_add, ← hpad hodd]
      rfl
    have hsame : OnesComplement.checksum (pkt.bytes 0 (len + 1)) =
        OnesComplement.checksum (pkt.bytes 0 len) := by
      rw [hbytes]
      exact checksum_append_zero (by rw [ByteArea.length_bytes, hodd])
    rw [generateChecksum_odd pkt hodd, ← hsame, hnext]
    exact generateChecksum_words pkt (by omega)

/-- The checksum makes up for the sum of the words. -/
theorem generateChecksum_spec {pkt : ByteArea} {len : Nat} (hlen : len < 2 ^ 17)
    (hpad : len % 2 = 1 → pkt len = 0) :
    littleSum (pkt.bytes 0 len) + (generateChecksum pkt len).toNat ≡ 0 [MOD 65535] := by
  rw [generateChecksum_toNat hlen hpad]
  exact littleSum_add_checksum _

/-- A checksum adds to the sum of a header in which it was zero. -/
theorem littleSum_putWord {area : ByteArea} {len : Nat} (position : Nat) {word : BitVec 16}
    (hzero : wordAt area (2 * position) = 0) (hlen : 2 * position + 2 ≤ len) :
    littleSum ((putWord area (2 * position) word).bytes 0 len) =
      littleSum (area.bytes 0 len) + word.toNat := by
  have hget : area.getLE 2 (0 + 2 * position) = 0 := by
    rw [Nat.zero_add, getLE_wordAt, hzero]
    rfl
  have hsum := ByteArea.littleSum_bytes_putLE position word.isLt hget hlen
  rwa [Nat.zero_add] at hsum

theorem putArray_at {area : ByteArea} {offset n : Nat} {array : Fin n → Byte} (i : Fin n) :
    putArray area offset array (offset + i) = array i := by
  rw [putArray, ByteArea.copyIn_at (Nat.le_add_right _ _) (by omega), Nat.zero_add,
    Nat.add_sub_cancel_left, bytesOf, dif_pos i.isLt]

theorem putArray_of_not {area : ByteArea} {offset n k : Nat} {array : Fin n → Byte}
    (hout : ¬ (offset ≤ k ∧ k < offset + n)) : putArray area offset array k = area k :=
  ByteArea.copyIn_of_not hout

/-! ## The IP header -/

section

variable (data : ByteArea) (ipAddr targetIp : IpAddr) (nextProto : Byte) (totalLen : BitVec 16)

/-- The header checksum is correct for every content of the header. -/
theorem verifies_formatIpv4 :
    Verifies ((formatIpv4 data ipAddr targetIp nextProto totalLen).bytes 0 ipHeaderSize) := by
  rw [verifies_iff]
  unfold formatIpv4
  extract_lets a b c d e f g h i j
  have hzero : wordAt j (2 * 5) = 0 := by
    simp (disch := decide) only [j, i, h, wordAt_putArray, wordAt_putWord_self]
  have hfirst : j 0 = 0x45 := rfl
  have hsum : littleSum ((putWord j 10 (generateChecksum j 20)).bytes 0 ipHeaderSize) =
      littleSum (j.bytes 0 20) + (generateChecksum j 20).toNat :=
    littleSum_putWord 5 hzero (by decide)
  have hpos : 0x45 ≤ littleSum (j.bytes 0 (18 + 2)) := by
    rw [ByteArea.littleSum_bytes_add_two, ByteArea.getLE, hfirst, Nat.add_assoc]
    exact Nat.le_add_right _ _
  have hspec : littleSum (j.bytes 0 20) + (generateChecksum j 20).toNat ≡ 0 [MOD 65535] :=
    generateChecksum_spec (by decide) (fun hodd => absurd hodd (by decide))
  rw [hsum]
  exact ⟨hspec, Nat.ne_of_gt (Nat.lt_of_lt_of_le (by decide : 0 < 0x45) (Nat.le_add_right_of_le hpos))⟩

theorem formatIpv4_totalLen :
    wordAt (formatIpv4 data ipAddr targetIp nextProto totalLen) 2 = swapWord totalLen := by
  simp (disch := decide) only [formatIpv4, wordAt_putArray, wordAt_putWord, wordAt_update,
    wordAt_putWord_self]

theorem formatIpv4_srcIp :
    (formatIpv4 data ipAddr targetIp nextProto totalLen).bytes 12 4 = List.ofFn ipAddr := by
  refine ByteArea.bytes_eq_ofFn fun i => ?_
  unfold formatIpv4
  rw [putWord_of_not (by omega), putArray_of_not (by omega), putArray_at]

theorem formatIpv4_dstIp :
    (formatIpv4 data ipAddr targetIp nextProto totalLen).bytes 16 4 = List.ofFn targetIp := by
  refine ByteArea.bytes_eq_ofFn fun i => ?_
  unfold formatIpv4
  rw [putWord_of_not (by omega), putArray_at]

end

/-! ## The specification -/

/-- `generate_checksum` returns the checksum of the bytes, an odd last one padded with zero, and
the header that `format_packet` writes is verified. -/
theorem generateChecksum_eq_checksum :
    (∀ (pkt : ByteArea) (len : Nat), len < 65536 → pkt len = 0 →
      (generateChecksum pkt len).toNat = checksum (pkt.bytes 0 len)) ∧
    ∀ (data : ByteArea) (ipAddr targetIp : IpAddr) (nextProto : Byte) (totalLen : BitVec 16),
      Verifies ((formatIpv4 data ipAddr targetIp nextProto totalLen).bytes 0 ipHeaderSize) := by
  constructor
  · intro pkt len hlen hpad
    exact generateChecksum_toNat (Nat.lt_trans hlen (by decide)) fun _ => hpad
  · intro data ipAddr targetIp nextProto totalLen
    exact verifies_formatIpv4 data ipAddr targetIp nextProto totalLen

/-- Three bytes, of which the last is padded, and the header of an empty UDP packet. -/
theorem generateChecksum_three_bytes :
    (generateChecksum (fun i => [0xff, 0xff, 7].getD i 0) 3).toNat = checksum [0xff, 0xff, 7] ∧
      Verifies ((formatIpv4 .zeros ![172, 17, 0, 2] ![172, 17, 0, 1] 0x11 28).bytes 0 20) :=
  ⟨generateChecksum_eq_checksum.1 _ 3 (by decide) rfl, generateChecksum_eq_checksum.2 _ _ _ _ _⟩

end Shmily.Net

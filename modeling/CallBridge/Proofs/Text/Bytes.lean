import CallBridge.Text.Units

/-!
# Bytes back to text

The decoder takes the bytes of a character back to that character, whatever stands behind them
(`decodeFrom_utf8EncodeChar`), so the bytes of a text are read as that text. Main statement:
`decodeBytes_encodeBytes`.
-/

namespace CallBridge.Text

variable {n low high : Nat} {rest : List UInt8}

/-! ### One byte -/

theorem toNat_ofNat_lt (h : n < 256) : (UInt8.ofNat n).toNat = n := by
  rw [UInt8.toNat_ofNat', Nat.mod_eq_of_lt h]

/-- Behind the first byte of a character, the next six bits of a number complete it. -/
theorem decodeFrom_last (bits : Nat) (hlow : low ≤ n % 64 + 128) (hhigh : n % 64 + 128 ≤ high) :
    decodeFrom (some ⟨bits, 1, low, high⟩) (UInt8.ofNat (n % 64 + 128) :: rest) =
      Char.ofNat (bits * 64 + n % 64) :: decodeFrom none rest := by
  have hbits : (n % 64 + 128) % 64 = n % 64 := by omega
  rw [decodeFrom, toNat_ofNat_lt (by omega), if_pos ⟨hlow, hhigh⟩, hbits]
  exact if_pos (Nat.le_refl 1)

/-- Or they are kept and further bytes are awaited. -/
theorem decodeFrom_middle (bits missing : Nat) (hlow : low ≤ n % 64 + 128)
    (hhigh : n % 64 + 128 ≤ high) :
    decodeFrom (some ⟨bits, missing + 2, low, high⟩) (UInt8.ofNat (n % 64 + 128) :: rest) =
      decodeFrom (some ⟨bits * 64 + n % 64, missing + 1, 0x80, 0xbf⟩) rest := by
  have hbits : (n % 64 + 128) % 64 = n % 64 := by omega
  rw [decodeFrom, toNat_ofNat_lt (by omega), if_pos ⟨hlow, hhigh⟩, hbits]
  exact if_neg (show ¬ missing + 2 ≤ 1 by omega)

/-! ### First bytes -/

theorem lead_ascii (hn : n < 128) : lead (UInt8.ofNat n) = .whole (Char.ofNat n) := by
  rw [lead, toNat_ofNat_lt (by omega)]
  exact if_pos hn

theorem lead_two (hshort : 0x80 ≤ n) (hlong : n < 0x800) :
    lead (UInt8.ofNat (n / 64 % 32 + 192)) = .start ⟨n / 64, 1, 0x80, 0xbf⟩ := by
  have hmod : n / 64 % 32 = n / 64 := Nat.mod_eq_of_lt (by omega)
  rw [hmod, lead, toNat_ofNat_lt (by omega)]
  rw [if_neg (by omega), if_neg (by omega), if_pos (by omega), Nat.add_sub_cancel]

/-- The first byte of three bounds the second one: the number is not shorter, and no half of a
surrogate pair. -/
theorem lead_three (hshort : 0x800 ≤ n) (hlong : n < 0x10000) (hhalf : n < 0xd800 ∨ 0xdfff < n) :
    ∃ low high, lead (UInt8.ofNat (n / 4096 % 16 + 224)) = .start ⟨n / 4096, 2, low, high⟩ ∧
      low ≤ n / 64 % 64 + 128 ∧ n / 64 % 64 + 128 ≤ high := by
  have hmod : n / 4096 % 16 = n / 4096 := Nat.mod_eq_of_lt (by omega)
  rw [hmod, lead, toNat_ofNat_lt (by omega)]
  rw [if_neg (by omega), if_neg (by omega), if_neg (by omega)]
  split
  · next hfirst => exact ⟨_, _, by rw [show n / 4096 = 0 by omega], by omega, by omega⟩
  split
  · next hfirst => exact ⟨_, _, by rw [show n / 4096 = 0xd by omega], by omega, by omega⟩
  rw [if_pos (by omega), Nat.add_sub_cancel]
  exact ⟨_, _, rfl, by omega, by omega⟩

/-- The first byte of four bounds the second one: the number is not shorter, and not too large. -/
theorem lead_four (hshort : 0x10000 ≤ n) (hlong : n < 0x110000) :
    ∃ low high, lead (UInt8.ofNat (n / 262144 % 8 + 240)) = .start ⟨n / 262144, 3, low, high⟩ ∧
      low ≤ n / 4096 % 64 + 128 ∧ n / 4096 % 64 + 128 ≤ high := by
  have hmod : n / 262144 % 8 = n / 262144 := Nat.mod_eq_of_lt (by omega)
  rw [hmod, lead, toNat_ofNat_lt (by omega)]
  rw [if_neg (by omega), if_neg (by omega), if_neg (by omega), if_neg (by omega),
    if_neg (by omega), if_neg (by omega)]
  split
  · next hfirst => exact ⟨_, _, by rw [show n / 262144 = 0 by omega], by omega, by omega⟩
  split
  · next hfirst => exact ⟨_, _, by rw [Nat.add_sub_cancel], by omega, by omega⟩
  rw [if_pos (by omega)]
  exact ⟨_, _, by rw [show n / 262144 = 4 by omega], by omega, by omega⟩

theorem decodeFrom_whole {b : UInt8} {c : Char} (h : lead b = .whole c) :
    decodeFrom none (b :: rest) = c :: decodeFrom none rest := by
  rw [decodeFrom, h]

theorem decodeFrom_start {b : UInt8} {p : Pending} (h : lead b = .start p) :
    decodeFrom none (b :: rest) = decodeFrom (some p) rest := by
  rw [decodeFrom, h]

/-! ### Characters and texts -/

/-- The bytes of a character are read as that character. -/
theorem decodeFrom_utf8EncodeChar (c : Char) (rest : List UInt8) :
    decodeFrom none (String.utf8EncodeChar c ++ rest) = c :: decodeFrom none rest := by
  have hvalid : c.toNat < 0xd800 ∨ 0xdfff < c.toNat ∧ c.toNat < 0x110000 := c.valid
  have hc : c.val.toNat = c.toNat := rfl
  suffices h : decodeFrom none (String.utf8EncodeChar c ++ rest) =
      Char.ofNat c.toNat :: decodeFrom none rest by rwa [Char.ofNat_toNat] at h
  generalize c.toNat = n at hvalid hc
  rw [String.utf8EncodeChar, hc]
  split
  · next hone =>
    rw [List.cons_append, List.nil_append, decodeFrom_whole (lead_ascii (by omega))]
  split
  · next htwo =>
    rw [List.cons_append, decodeFrom_start (lead_two (by omega) (by omega)), List.cons_append,
      List.nil_append, decodeFrom_last _ (by omega) (by omega)]
    rw [show n / 64 * 64 + n % 64 = n by omega]
  split
  · next hthree =>
    obtain ⟨low, high, hlead, hlow, hhigh⟩ :=
      lead_three (n := n) (by omega) (by omega) (hvalid.imp_right And.left)
    rw [List.cons_append, decodeFrom_start hlead, List.cons_append,
      decodeFrom_middle _ _ hlow hhigh, List.cons_append, List.nil_append,
      decodeFrom_last _ (by omega) (by omega)]
    rw [show (n / 4096 * 64 + n / 64 % 64) * 64 + n % 64 = n by omega]
  · next hfour =>
    obtain ⟨low, high, hlead, hlow, hhigh⟩ := lead_four (n := n) (by omega) (by omega)
    rw [List.cons_append, decodeFrom_start hlead, List.cons_append,
      decodeFrom_middle _ _ hlow hhigh, List.cons_append,
      decodeFrom_middle _ _ (by omega) (by omega), List.cons_append, List.nil_append,
      decodeFrom_last _ (by omega) (by omega)]
    rw [show ((n / 262144 * 64 + n / 4096 % 64) * 64 + n / 64 % 64) * 64 + n % 64 = n by omega]

/-- The bytes of a text are read as that text. -/
theorem decodeBytes_encodeBytes (cs : List Char) : decodeBytes (encodeBytes cs) = cs := by
  induction cs with
  | nil => rfl
  | cons c cs ih =>
    rw [encodeBytes, List.flatMap_cons, decodeBytes, decodeFrom_utf8EncodeChar]
    exact congrArg (c :: ·) ih

/-! ### Bytes of ASCII -/

/-- A fact about characters of one byte is checked for each of them. -/
theorem forall_ascii {p : Char → Prop} (h : ∀ n < 128, p (Char.ofNat n)) {c : Char}
    (hc : c.toNat < 128) : p c :=
  Char.ofNat_toNat c ▸ h c.toNat hc

theorem utf8EncodeChar_ascii {c : Char} (hc : c.toNat < 128) :
    String.utf8EncodeChar c = [UInt8.ofNat c.toNat] :=
  if_pos (Nat.le_of_lt_succ hc)

/-- No byte of a longer character is one of ASCII. -/
theorem le_of_mem_utf8EncodeChar {c : Char} (hc : 128 ≤ c.toNat) {b : UInt8}
    (hb : b ∈ String.utf8EncodeChar c) : 128 ≤ b.toNat := by
  have hval : c.val.toNat = c.toNat := rfl
  have hlarge {n : Nat} (hlow : 128 ≤ n) (hhigh : n < 256) : 128 ≤ (UInt8.ofNat n).toNat := by
    rwa [toNat_ofNat_lt hhigh]
  rw [String.utf8EncodeChar, hval] at hb
  split at hb
  · omega
  split at hb
  · simp only [List.mem_cons, List.not_mem_nil, or_false] at hb
    rcases hb with rfl | rfl <;> exact hlarge (by omega) (by omega)
  split at hb
  · simp only [List.mem_cons, List.not_mem_nil, or_false] at hb
    rcases hb with rfl | rfl | rfl <;> exact hlarge (by omega) (by omega)
  · simp only [List.mem_cons, List.not_mem_nil, or_false] at hb
    rcases hb with rfl | rfl | rfl | rfl <;> exact hlarge (by omega) (by omega)

/-- A character of one byte that stands in a text stands among its bytes. -/
theorem mem_encodeBytes {c : Char} {cs : List Char} (hc : c.toNat < 128) (h : c ∈ cs) :
    UInt8.ofNat c.toNat ∈ encodeBytes cs := by
  refine List.mem_flatMap.2 ⟨c, h, ?_⟩
  rw [utf8EncodeChar_ascii hc]
  exact List.mem_singleton_self _

theorem encodeBytes_cons (c : Char) (cs : List Char) :
    encodeBytes (c :: cs) = String.utf8EncodeChar c ++ encodeBytes cs := List.flatMap_cons

/-- Where the bytes of a text begin with a byte of ASCII, the text begins with its character. -/
theorem exists_of_encodeBytes_eq_cons {cs : List Char} {b : UInt8} (hb : b.toNat < 128)
    (h : encodeBytes cs = b :: rest) :
    ∃ c more, cs = c :: more ∧ c.toNat < 128 ∧ b = UInt8.ofNat c.toNat ∧ encodeBytes more = rest := by
  cases cs with
  | nil => cases h
  | cons c more =>
    rw [encodeBytes_cons] at h
    by_cases hc : c.toNat < 128
    · rw [utf8EncodeChar_ascii hc] at h
      obtain ⟨rfl, hrest⟩ := List.cons.inj h
      exact ⟨c, more, rfl, hc, rfl, hrest⟩
    · obtain ⟨first, others, hfirst⟩ : ∃ first others, String.utf8EncodeChar c = first :: others :=
        List.exists_cons_of_ne_nil (List.ne_nil_of_length_pos (by simp [Char.utf8Size_pos]))
      rw [hfirst] at h
      obtain ⟨rfl, -⟩ := List.cons.inj h
      have hlarge := le_of_mem_utf8EncodeChar (by omega) (hfirst ▸ List.mem_cons_self ..)
      exact absurd hb (Nat.not_lt.2 hlarge)

end CallBridge.Text

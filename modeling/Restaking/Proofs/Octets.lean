import Restaking.Text.Base64
import Mathlib.Data.List.TakeWhile

/-!
# Texts as bytes, bytes as texts

Two encodings are undone by their readers. A text written as UTF-8 is read as its characters, and
none of the symbols is a malformed byte (`symbols_encode`). Bytes written in base64 are read back
(`decode?_encode`): a text in base64 is a row of six-bit values and the signs that fill up the last
group, and a row of six-bit values determines the bytes.
-/

namespace Restaking

/-- Members that a partial function undoes one by one are undone together. -/
theorem mapM_map_eq_some {α β : Type} {f : β → Option α} {g : α → β} {xs : List α}
    (h : ∀ a ∈ xs, f (g a) = some a) : (xs.map g).mapM f = some xs := by
  induction xs with
  | nil => rfl
  | cons a rest ih =>
    obtain ⟨ha, hrest⟩ := List.forall_mem_cons.1 h
    rw [List.map_cons, List.mapM_cons, ha, ih hrest]
    rfl

/-! ## UTF-8 -/

namespace Utf8

theorem charAt?_encode (c : Char) (rest : Bytes) :
    charAt? (String.utf8EncodeChar c ++ rest) = some c := by
  have hle : (String.utf8EncodeChar c).length ≤ 4 := by
    rw [String.length_utf8EncodeChar]
    exact c.utf8Size_le_four
  have hbytes : ∀ l : Bytes, ByteArray.mk l.toArray = l.toByteArray := fun l =>
    ByteArray.ext List.data_toByteArray.symm
  unfold charAt?
  rw [List.take_append, List.take_of_length_le hle, hbytes, List.toByteArray_append]
  exact ByteArray.utf8DecodeChar?_utf8EncodeChar_append

/-- Bytes that are pending are passed over. -/
theorem symbolsFrom_eq_drop (pending : Nat) (bytes : Bytes) :
    symbolsFrom pending bytes = symbols (bytes.drop pending) := by
  induction pending generalizing bytes with
  | zero => rfl
  | succ pending ih =>
    cases bytes with
    | nil => simp only [symbolsFrom, symbols, List.drop_nil]
    | cons b rest =>
      rw [symbolsFrom, ih]
      rfl

theorem symbols_encodeChar (c : Char) (rest : Bytes) :
    symbols (String.utf8EncodeChar c ++ rest) = some c :: symbols rest := by
  have hchar := charAt?_encode c rest
  have hlength := String.length_utf8EncodeChar c
  have hpos := c.utf8Size_pos
  cases hbytes : String.utf8EncodeChar c with
  | nil =>
    rw [hbytes, List.length_nil] at hlength
    omega
  | cons b tail =>
    rw [hbytes, List.cons_append] at hchar
    rw [hbytes, List.length_cons] at hlength
    rw [List.cons_append, symbols, symbolsFrom, hchar]
    have hdrop : (tail ++ rest).drop (c.utf8Size - 1) = rest := List.drop_left' (by omega)
    change some c :: symbolsFrom (c.utf8Size - 1) (tail ++ rest) = some c :: symbols rest
    rw [symbolsFrom_eq_drop, hdrop]

/-- The symbols of a text's bytes are its characters. -/
theorem symbols_encode (text : String) : symbols (encode text) = text.toList.map some := by
  unfold encode
  induction text.toList with
  | nil => rfl
  | cons c rest ih => rw [List.flatMap_cons, symbols_encodeChar, ih, List.map_cons]

end Utf8

/-! ## Base64 -/

namespace Base64

/-- The six-bit values that the bytes are cut into; zeros fill up the last one. -/
def sextets : Bytes → List Nat
  | [] => []
  | [a] => [a.toNat / 4, a.toNat % 4 * 16]
  | [a, b] => [a.toNat / 4, a.toNat % 4 * 16 + b.toNat / 16, b.toNat % 16 * 4]
  | a :: b :: c :: rest =>
    a.toNat / 4 :: (a.toNat % 4 * 16 + b.toNat / 16) :: (b.toNat % 16 * 4 + c.toNat / 64)
      :: c.toNat % 64 :: sextets rest

theorem value?_symbol {n : Nat} (h : n < 64) : value? (symbol n) = some n := by
  have hall : ∀ k : Fin 64, value? (symbol k) = some k.val := by decide
  exact hall ⟨n, h⟩

theorem symbol_ne_sign {n : Nat} (h : n < 64) : symbol n ≠ '=' := by
  have hall : ∀ k : Fin 64, symbol k ≠ '=' := by decide
  exact hall ⟨n, h⟩

theorem sextets_lt (bytes : Bytes) : ∀ n ∈ sextets bytes, n < 64 := by
  induction bytes using sextets.induct with
  | case1 => exact fun _ hn => absurd hn List.not_mem_nil
  | case2 a =>
    have ha := a.toNat_lt
    simp only [sextets, List.forall_mem_cons]
    refine ⟨by omega, by omega, fun _ hn => absurd hn List.not_mem_nil⟩
  | case3 a b =>
    have ha := a.toNat_lt
    have hb := b.toNat_lt
    simp only [sextets, List.forall_mem_cons]
    refine ⟨by omega, by omega, by omega, fun _ hn => absurd hn List.not_mem_nil⟩
  | case4 a b c rest ih =>
    have ha := a.toNat_lt
    have hb := b.toNat_lt
    have hc := c.toNat_lt
    simp only [sextets, List.forall_mem_cons]
    exact ⟨by omega, by omega, by omega, by omega, ih⟩

/-- Base64 is the symbols of the six-bit values, and the signs that their number asks for. -/
theorem encodeChars_eq (bytes : Bytes) :
    encodeChars bytes =
      (sextets bytes).map symbol ++ List.replicate (padding (sextets bytes).length) '=' := by
  induction bytes using sextets.induct with
  | case1 => rfl
  | case2 a => rfl
  | case3 a b => rfl
  | case4 a b c rest ih =>
    have hpadding : ∀ n, padding (n + 1 + 1 + 1 + 1) = padding n := by
      intro n
      unfold padding
      omega
    simp only [encodeChars, sextets, List.map_cons, List.cons_append, List.length_cons]
    rw [ih, hpadding]

theorem ofSextets?_sextets (bytes : Bytes) : ofSextets? (sextets bytes) = some bytes := by
  induction bytes using sextets.induct with
  | case1 => rfl
  | case2 a =>
    have hfirst : a.toNat / 4 * 4 + a.toNat % 4 * 16 / 16 = a.toNat := by omega
    rw [sextets, ofSextets?, if_pos (by omega), hfirst, UInt8.ofNat_toNat]
  | case3 a b =>
    have hb := b.toNat_lt
    have hfirst : a.toNat / 4 * 4 + (a.toNat % 4 * 16 + b.toNat / 16) / 16 = a.toNat := by omega
    have hsecond :
        (a.toNat % 4 * 16 + b.toNat / 16) % 16 * 16 + b.toNat % 16 * 4 / 4 = b.toNat := by omega
    rw [sextets, ofSextets?, if_pos (by omega), hfirst, hsecond, UInt8.ofNat_toNat,
      UInt8.ofNat_toNat]
  | case4 a b c rest ih =>
    have hb := b.toNat_lt
    have hc := c.toNat_lt
    have hfirst : a.toNat / 4 * 4 + (a.toNat % 4 * 16 + b.toNat / 16) / 16 = a.toNat := by omega
    have hsecond : (a.toNat % 4 * 16 + b.toNat / 16) % 16 * 16 +
        (b.toNat % 16 * 4 + c.toNat / 64) / 4 = b.toNat := by omega
    have hthird :
        (b.toNat % 16 * 4 + c.toNat / 64) % 4 * 64 + c.toNat % 64 = c.toNat := by omega
    rw [sextets, ofSextets?, ih, hfirst, hsecond, hthird, UInt8.ofNat_toNat, UInt8.ofNat_toNat,
      UInt8.ofNat_toNat]
    rfl

theorem decodeChars?_encodeChars (bytes : Bytes) :
    decodeChars? (encodeChars bytes) = some bytes := by
  have hbody : ∀ c ∈ (sextets bytes).map symbol, decide (c ≠ '=') = true := by
    intro c hc
    obtain ⟨n, hn, rfl⟩ := List.mem_map.1 hc
    exact decide_eq_true (symbol_ne_sign (sextets_lt bytes n hn))
  have hvalues : ((sextets bytes).map symbol).mapM value? = some (sextets bytes) :=
    mapM_map_eq_some fun n hn => value?_symbol (sextets_lt bytes n hn)
  have htake : (List.replicate (padding (sextets bytes).length) '=').takeWhile (· ≠ '=') = [] := by
    simp
  have hdrop : (List.replicate (padding (sextets bytes).length) '=').dropWhile (· ≠ '=') =
      List.replicate (padding (sextets bytes).length) '=' := by
    simp
  have hsigns : (List.replicate (padding (sextets bytes).length) '=').all (· = '=') = true ∧
      (List.replicate (padding (sextets bytes).length) '=').length ≤
        padding ((sextets bytes).map symbol).length :=
    ⟨by simp, by rw [List.length_replicate, List.length_map]⟩
  unfold decodeChars?
  rw [encodeChars_eq, List.takeWhile_append_of_pos hbody, List.dropWhile_append_of_pos hbody,
    htake, hdrop, List.append_nil]
  dsimp only
  rw [if_pos hsigns, hvalues]
  exact ofSextets?_sextets bytes

/-- Bytes are read back from their text. -/
theorem decode?_encode (bytes : Bytes) : decode? (encode bytes) = some bytes := by
  unfold decode? encode
  rw [String.toList_ofList]
  exact decodeChars?_encodeChars bytes

end Base64

end Restaking

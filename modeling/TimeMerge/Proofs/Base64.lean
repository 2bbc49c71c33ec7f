import TimeMerge.Proofs.Characters
import TimeMerge.Text.Base64

/-!
# Base64 read back

Bytes are written in base64 three at a time, as four symbols of six bits each; what is missing of the
last three is made up by padding. Reading gives them again.
-/
namespace TimeMerge.Base64

/-- The symbols in the order of their values. -/
def alphabet : List Char :=
  "ABCDEFGHIJKLMNOPQRSTUVWXYZabcdefghijklmnopqrstuvwxyz0123456789+/".toList

def symbol (v : Nat) : Char := alphabet.getD v '='

def symbols : Bytes → List Char
  | [] => []
  | [a] => [symbol (a.toNat / 4), symbol (a.toNat % 4 * 16), '=', '=']
  | [a, b] =>
    [symbol (a.toNat / 4), symbol (a.toNat % 4 * 16 + b.toNat / 16), symbol (b.toNat % 16 * 4), '=']
  | a :: b :: c :: rest =>
    symbol (a.toNat / 4) :: symbol (a.toNat % 4 * 16 + b.toNat / 16) ::
      symbol (b.toNat % 16 * 4 + c.toNat / 64) :: symbol (c.toNat % 64) :: symbols rest

def encode (bytes : Bytes) : String := String.ofList (symbols bytes)

/-- A symbol as the byte that it is. -/
def code (v : Nat) : UInt8 := UInt8.ofNat (symbol v).toNat

variable {v : Nat}

theorem value?_code (h : v < 64) : value? (code v) = some v := by
  have hall : ∀ v < 64, value? (code v) = some v := by decide +kernel
  exact hall v h

theorem code_ne_pad (h : v < 64) : code v ≠ pad := by
  have hall : ∀ v < 64, code v ≠ pad := by decide +kernel
  exact hall v h

theorem encodeChar_symbol (h : v < 64) : String.utf8EncodeChar (symbol v) = [code v] := by
  have hall : ∀ v < 64, (symbol v).toNat < 128 := by decide +kernel
  exact Utf8.encodeChar_of_ascii (hall v h)

theorem encodeChar_pad : String.utf8EncodeChar '=' = [pad] := by decide

theorem ofNat_shiftRight {n k : Nat} {a : UInt8} (h : (n >>> k) % 256 = a.toNat) :
    UInt8.ofNat (n >>> k) = a := by
  rw [← UInt8.toNat_inj, UInt8.toNat_ofNat', h]

theorem pack_two_values (u v : Nat) :
    pack [u, v] = ([UInt8.ofNat ((u * 64 + v) >>> 4)], (u * 64 + v) % 16) := by
  simp [pack, List.range_succ]

theorem pack_three_values (u v w : Nat) :
    pack [u, v, w] = ([UInt8.ofNat (((u * 64 + v) * 64 + w) >>> 10),
      UInt8.ofNat (((u * 64 + v) * 64 + w) >>> 2)], ((u * 64 + v) * 64 + w) % 4) := by
  simp [pack, List.range_succ]

theorem pack_four_values (u v w x : Nat) :
    pack [u, v, w, x] = ([UInt8.ofNat ((((u * 64 + v) * 64 + w) * 64 + x) >>> 16),
      UInt8.ofNat ((((u * 64 + v) * 64 + w) * 64 + x) >>> 8),
      UInt8.ofNat ((((u * 64 + v) * 64 + w) * 64 + x) >>> 0)], 0) := by
  simp [pack, List.range_succ, Nat.mod_one]

/-- The symbols of one byte, of two and of three leave no bits over. -/
theorem pack_one (a : UInt8) : pack [a.toNat / 4, a.toNat % 4 * 16] = ([a], 0) := by
  have ha := a.toNat_lt
  rw [pack_two_values, ofNat_shiftRight (a := a) (by omega), Prod.mk.injEq]
  exact ⟨rfl, by omega⟩

theorem pack_two (a b : UInt8) :
    pack [a.toNat / 4, a.toNat % 4 * 16 + b.toNat / 16, b.toNat % 16 * 4] = ([a, b], 0) := by
  have ha := a.toNat_lt
  have hb := b.toNat_lt
  rw [pack_three_values, ofNat_shiftRight (a := a) (by omega), ofNat_shiftRight (a := b) (by omega),
    Prod.mk.injEq]
  exact ⟨rfl, by omega⟩

theorem pack_three (a b c : UInt8) :
    pack [a.toNat / 4, a.toNat % 4 * 16 + b.toNat / 16, b.toNat % 16 * 4 + c.toNat / 64,
      c.toNat % 64] = ([a, b, c], 0) := by
  have ha := a.toNat_lt
  have hb := b.toNat_lt
  have hc := c.toNat_lt
  rw [pack_four_values, ofNat_shiftRight (a := a) (by omega), ofNat_shiftRight (a := b) (by omega),
    ofNat_shiftRight (a := c) (by omega)]

theorem lastValues_code (h : v < 64) (offset index : Nat) (bytes : Bytes) :
    lastValues offset index none (code v :: bytes) =
      (lastValues offset (index + 1) none bytes).map fun r => (v :: r.1, r.2) := by
  rw [lastValues, if_neg (code_ne_pad h), value?_code h]

theorem values_code (h : v < 64) (offset : Nat) (bytes : Bytes) :
    values offset (code v :: bytes) = (values (offset + 1) bytes).map (v :: ·) := by
  rw [values, value?_code h]

/-- Four symbols that others follow. -/
theorem decodeQuads_quad {u v w x : Nat} (hu : u < 64) (hv : v < 64) (hw : w < 64) (hx : x < 64)
    (offset : Nat) {bytes : Bytes} (hbytes : bytes ≠ []) :
    decodeQuads offset (code u :: code v :: code w :: code x :: bytes) =
      (decodeQuads (offset + 4) bytes).map ((pack [u, v, w, x]).1 ++ ·) := by
  obtain ⟨e, rest, rfl⟩ := List.exists_cons_of_ne_nil hbytes
  rw [decodeQuads, values_code hu, values_code hv, values_code hw, values_code hx]
  rfl

/-- The last four symbols. -/
theorem decodeQuads_last {quad : Bytes} {vs : List Nat} {padding : Option Nat} (offset : Nat)
    (hvalues : lastValues offset 0 none quad = .ok (vs, padding)) (hlength : quad.length = 4)
    (henough : 2 ≤ vs.length) (hspare : (pack vs).2 = 0) :
    decodeQuads offset quad = .ok (pack vs).1 := by
  have hlast : decodeQuads offset quad = decodeLast offset quad := by
    refine decodeQuads.eq_2 offset quad ?_
    rintro a b c d e rest rfl
    simp at hlength
  rw [hlast, decodeLast, hvalues]
  dsimp only
  rw [if_neg (by omega), if_neg (by omega), if_neg (by omega)]

/-- The symbols of bytes, as the bytes that they are. -/
def codes (bytes : Bytes) : Bytes := (symbols bytes).flatMap String.utf8EncodeChar

theorem codes_one (a : UInt8) :
    codes [a] = [code (a.toNat / 4), code (a.toNat % 4 * 16), pad, pad] := by
  have ha := a.toNat_lt
  simp only [codes, symbols, List.flatMap_cons, List.flatMap_nil, encodeChar_pad,
    encodeChar_symbol (v := a.toNat / 4) (by omega),
    encodeChar_symbol (v := a.toNat % 4 * 16) (by omega)]
  rfl

theorem codes_two (a b : UInt8) : codes [a, b] = [code (a.toNat / 4),
    code (a.toNat % 4 * 16 + b.toNat / 16), code (b.toNat % 16 * 4), pad] := by
  have ha := a.toNat_lt
  have hb := b.toNat_lt
  simp only [codes, symbols, List.flatMap_cons, List.flatMap_nil, encodeChar_pad,
    encodeChar_symbol (v := a.toNat / 4) (by omega),
    encodeChar_symbol (v := a.toNat % 4 * 16 + b.toNat / 16) (by omega),
    encodeChar_symbol (v := b.toNat % 16 * 4) (by omega)]
  rfl

theorem codes_three (a b c : UInt8) (rest : Bytes) : codes (a :: b :: c :: rest) =
    code (a.toNat / 4) :: code (a.toNat % 4 * 16 + b.toNat / 16) ::
      code (b.toNat % 16 * 4 + c.toNat / 64) :: code (c.toNat % 64) :: codes rest := by
  have ha := a.toNat_lt
  have hb := b.toNat_lt
  simp only [codes, symbols, List.flatMap_cons,
    encodeChar_symbol (v := a.toNat / 4) (by omega),
    encodeChar_symbol (v := a.toNat % 4 * 16 + b.toNat / 16) (by omega),
    encodeChar_symbol (v := b.toNat % 16 * 4 + c.toNat / 64) (by have := c.toNat_lt; omega),
    encodeChar_symbol (v := c.toNat % 64) (by omega)]
  rfl

theorem length_codes (bytes : Bytes) : (codes bytes).length % 4 = 0 := by
  induction bytes using symbols.induct with
  | case1 => rfl
  | case2 a => simp [codes_one]
  | case3 a b => simp [codes_two]
  | case4 a b c rest ih =>
    rw [codes_three]
    simp only [List.length_cons]
    omega

theorem decodeQuads_codes (bytes : Bytes) (offset : Nat) :
    decodeQuads offset (codes bytes) = .ok bytes := by
  induction bytes using symbols.induct generalizing offset with
  | case1 => rfl
  | case2 a =>
    have ha := a.toNat_lt
    have hvalues : lastValues offset 0 none (codes [a]) =
        .ok ([a.toNat / 4, a.toNat % 4 * 16], some (offset + 2)) := by
      rw [codes_one, lastValues_code (by omega), lastValues_code (by omega)]
      rfl
    rw [decodeQuads_last offset hvalues (by rw [codes_one]; rfl) (Nat.le_refl 2) (by rw [pack_one]),
      pack_one]
  | case3 a b =>
    have ha := a.toNat_lt
    have hb := b.toNat_lt
    have hvalues : lastValues offset 0 none (codes [a, b]) =
        .ok ([a.toNat / 4, a.toNat % 4 * 16 + b.toNat / 16, b.toNat % 16 * 4], some (offset + 3)) := by
      rw [codes_two, lastValues_code (by omega), lastValues_code (by omega),
        lastValues_code (by omega)]
      rfl
    rw [decodeQuads_last offset hvalues (by rw [codes_two]; rfl) (Nat.le_succ 2) (by rw [pack_two]),
      pack_two]
  | case4 a b c rest ih =>
    have ha := a.toNat_lt
    have hb := b.toNat_lt
    have hc := c.toNat_lt
    by_cases hrest : codes rest = []
    · -- these are the last three bytes: no symbols are read as no bytes
      obtain rfl : [] = rest := by
        have hnil := ih 0
        rw [hrest] at hnil
        exact Except.ok.inj hnil
      have hvalues : lastValues offset 0 none (codes [a, b, c]) = .ok ([a.toNat / 4,
          a.toNat % 4 * 16 + b.toNat / 16, b.toNat % 16 * 4 + c.toNat / 64, c.toNat % 64], none) := by
        rw [codes_three, lastValues_code (by omega), lastValues_code (by omega),
          lastValues_code (by omega), lastValues_code (by omega)]
        rfl
      rw [decodeQuads_last offset hvalues (by rw [codes_three]; rfl) (by simp) (by rw [pack_three]),
        pack_three]
    · rw [codes_three, decodeQuads_quad (by omega) (by omega) (by omega) (by omega) offset hrest, ih,
        pack_three]
      rfl

/-- What is written in base64 is read again. -/
theorem decode_encode (bytes : Bytes) : decode (Utf8.encode (encode bytes)) = .ok bytes := by
  have hcodes : Utf8.encode (encode bytes) = codes bytes := Utf8.encode_ofList (symbols bytes)
  have hquads := decodeQuads_codes bytes 0
  have hlength := length_codes bytes
  rw [hcodes, decode]
  split
  · rw [if_neg (by omega), hquads]
  · rename_i hnone
    rw [List.getLast?_eq_none_iff.1 hnone] at hquads
    exact hquads

end TimeMerge.Base64

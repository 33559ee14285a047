import Mathlib.Data.List.Basic
import Mathlib.Algebra.Order.Group.Nat

/-! # Fixed-width records in byte strings

A `Codec` writes each value as exactly `width` bytes and reads such a record back. A
sequence of values is written as the concatenation of its records and read back by cutting
the bytes into chunks of `width` bytes, as `<[u8]>::chunks` does: `chunks_flatMap` says that
the chunks are then the records. Machine words in either byte order (`u64::to_be_bytes`, and
the little-endian words of SSZ), SSZ booleans and byte arrays are codecs, and a fixed-size
container is built from its fields' codecs by `Codec.prod` and `Codec.map`. -/

namespace FixedCodec

/-- A codec of values as records of `width` bytes, with its laws. -/
structure Codec (α : Type) where
  width : Nat
  encode : α → List UInt8
  decode : List UInt8 → Option α
  width_pos : 0 < width
  length_encode : ∀ a, (encode a).length = width
  decode_encode : ∀ a, decode (encode a) = some a

variable {α : Type}

/-! ## Cutting into chunks -/

/-- The chunks of `n` elements, the last one shorter, cut while `fuel` lasts. -/
def chunksAux (n : Nat) : Nat → List α → List (List α)
  | 0, _ => []
  | _ + 1, [] => []
  | fuel + 1, a :: l => (a :: l).take n :: chunksAux n fuel ((a :: l).drop n)

/-- `<[T]>::chunks(n)`: consecutive chunks of `n` elements, the last one shorter when `n`
does not divide the length. Each chunk takes at least one element, so the length is enough
fuel. -/
def chunks (n : Nat) (l : List α) : List (List α) := chunksAux n l.length l

/-- Any fuel above the length cuts the same chunks. -/
theorem chunksAux_eq_chunks {n : Nat} (hn : 0 < n) :
    ∀ (fuel : Nat) (l : List α), l.length ≤ fuel → chunksAux n fuel l = chunks n l
  | 0, l, h => by
    rw [List.length_eq_zero_iff.mp (Nat.le_zero.mp h)]
    rfl
  | _ + 1, [], _ => rfl
  | fuel + 1, a :: l, h => by
    have hdrop : ((a :: l).drop n).length ≤ l.length := by
      rw [List.length_drop, List.length_cons]
      omega
    rw [chunks, List.length_cons, chunksAux, chunksAux,
      chunksAux_eq_chunks hn fuel _ (Nat.le_trans hdrop (by simpa using h)),
      chunksAux_eq_chunks hn l.length _ hdrop]
termination_by fuel => fuel
decreasing_by
  · omega
  · simp only [List.length_cons] at h
    omega

@[simp] theorem chunks_nil (n : Nat) : chunks n ([] : List α) = [] := rfl

/-- A first record of exactly `n` elements is the first chunk. -/
theorem chunks_append {n : Nat} (hn : 0 < n) {l₁ : List α} (l₂ : List α)
    (h : l₁.length = n) : chunks n (l₁ ++ l₂) = l₁ :: chunks n l₂ := by
  obtain ⟨a, l, rfl⟩ : ∃ a l, l₁ = a :: l := List.exists_cons_of_ne_nil (by
    rintro rfl
    simp at h
    omega)
  have htake : (a :: l ++ l₂).take n = a :: l := by rw [← h, List.take_left]
  have hdrop : (a :: l ++ l₂).drop n = l₂ := by rw [← h, List.drop_left]
  rw [chunks, List.cons_append, List.length_cons, chunksAux, ← List.cons_append, htake, hdrop,
    chunksAux_eq_chunks hn _ _ (by simp)]

/-- Records of `c.width` bytes written one after the other are cut back into the records. -/
theorem chunks_flatMap (c : Codec α) (xs : List α) :
    chunks c.width (xs.flatMap c.encode) = xs.map c.encode := by
  induction xs with
  | nil => rfl
  | cons x xs ih =>
    rw [List.flatMap_cons, chunks_append c.width_pos _ (c.length_encode x), ih, List.map_cons]

/-! ## Big-endian words -/

/-- The `k` low base-256 digits of `n`, most significant first. -/
def beBytes : Nat → Nat → List UInt8
  | 0, _ => []
  | k + 1, n => beBytes k (n / 256) ++ [UInt8.ofNat (n % 256)]

/-- The number whose base-256 digits, most significant first, are `bytes`. -/
def beValue (bytes : List UInt8) : Nat := bytes.foldl (fun acc b => acc * 256 + b.toNat) 0

@[simp] theorem length_beBytes (k n : Nat) : (beBytes k n).length = k := by
  induction k generalizing n with
  | zero => rfl
  | succ k ih => simp [beBytes, ih]

theorem beValue_append_singleton (bytes : List UInt8) (b : UInt8) :
    beValue (bytes ++ [b]) = beValue bytes * 256 + b.toNat := by
  simp [beValue, List.foldl_append]

theorem beValue_beBytes (k n : Nat) : beValue (beBytes k n) = n % 256 ^ k := by
  induction k generalizing n with
  | zero => simp [beBytes, beValue, Nat.mod_one]
  | succ k ih =>
    have hdigit : (UInt8.ofNat (n % 256)).toNat = n % 256 := by
      simp
    rw [beBytes, beValue_append_singleton, ih, hdigit, Nat.pow_succ, Nat.mul_comm (256 ^ k) 256,
      Nat.mod_mul]
    omega

/-- `u64::to_be_bytes`. -/
def u64ToBeBytes (x : UInt64) : List UInt8 := beBytes 8 x.toNat

/-- `u64::from_be_bytes` of a slice converted into a `[u8; 8]`, which fails unless the slice
has eight bytes. -/
def u64FromBeBytes (bytes : List UInt8) : Option UInt64 :=
  if bytes.length = 8 then some (UInt64.ofNat (beValue bytes)) else none

theorem u64FromBeBytes_u64ToBeBytes (x : UInt64) : u64FromBeBytes (u64ToBeBytes x) = some x := by
  have hlt : x.toNat < 256 ^ 8 := x.toNat_lt
  rw [u64FromBeBytes, u64ToBeBytes, if_pos (length_beBytes 8 _), beValue_beBytes,
    Nat.mod_eq_of_lt hlt, UInt64.ofNat_toNat]

example : u64ToBeBytes 258 = [0, 0, 0, 0, 0, 0, 1, 2] := by decide

/-- Big-endian `u64` records. -/
def beU64 : Codec UInt64 where
  width := 8
  encode := u64ToBeBytes
  decode := u64FromBeBytes
  width_pos := by decide
  length_encode _ := length_beBytes 8 _
  decode_encode := u64FromBeBytes_u64ToBeBytes

@[simp] theorem beU64_width : beU64.width = 8 := rfl

/-- A `u64` in little-endian order, as SSZ writes it. -/
def u64ToLeBytes (x : UInt64) : List UInt8 := (u64ToBeBytes x).reverse

def u64FromLeBytes (bytes : List UInt8) : Option UInt64 := u64FromBeBytes bytes.reverse

/-- Little-endian `u64` records. -/
def leU64 : Codec UInt64 where
  width := 8
  encode := u64ToLeBytes
  decode := u64FromLeBytes
  width_pos := by decide
  length_encode x := by simp [u64ToLeBytes, u64ToBeBytes]
  decode_encode x := by rw [u64FromLeBytes, u64ToLeBytes, List.reverse_reverse,
    u64FromBeBytes_u64ToBeBytes]

/-! ## SSZ fields and containers -/

/-- An SSZ `bool`: one byte, `1` for true and `0` for false; any other byte is rejected. -/
def boolFromByte : List UInt8 → Option Bool
  | [b] => if b = 0 then some false else if b = 1 then some true else none
  | _ => none

def sszBool : Codec Bool where
  width := 1
  encode b := [if b then 1 else 0]
  decode := boolFromByte
  width_pos := by decide
  length_encode _ := rfl
  decode_encode b := by cases b <;> decide

/-- A byte array `[u8; n]`, written as it is. -/
def bytesN (n : Nat) (hn : 0 < n) : Codec (Vector UInt8 n) where
  width := n
  encode v := v.toList
  decode bytes := if h : bytes.length = n then some ⟨bytes.toArray, by simpa using h⟩ else none
  width_pos := hn
  length_encode v := by simp
  decode_encode v := by
    obtain ⟨arr, rfl⟩ := v
    simp

namespace Codec

variable {β γ : Type}

/-- Two records side by side, the layout of two fixed-size fields of an SSZ container. -/
def prod (c₁ : Codec α) (c₂ : Codec β) : Codec (α × β) where
  width := c₁.width + c₂.width
  encode p := c₁.encode p.1 ++ c₂.encode p.2
  decode bytes := do
    let a ← c₁.decode (bytes.take c₁.width)
    let b ← c₂.decode (bytes.drop c₁.width)
    pure (a, b)
  width_pos := by
    have := c₁.width_pos
    omega
  length_encode p := by simp [c₁.length_encode, c₂.length_encode]
  decode_encode p := by
    have hlen := c₁.length_encode p.1
    have htake : (c₁.encode p.1 ++ c₂.encode p.2).take c₁.width = c₁.encode p.1 := by
      rw [← hlen, List.take_left]
    have hdrop : (c₁.encode p.1 ++ c₂.encode p.2).drop c₁.width = c₂.encode p.2 := by
      rw [← hlen, List.drop_left]
    simp only [htake, hdrop, c₁.decode_encode, c₂.decode_encode]
    rfl

/-- The records of `c` read as values of `γ`: `f` rebuilds every value from what `g` takes
out of it. -/
def map (c : Codec β) (f : β → γ) (g : γ → β) (h : ∀ x, f (g x) = x) : Codec γ where
  width := c.width
  encode x := c.encode (g x)
  decode bytes := (c.decode bytes).map f
  width_pos := c.width_pos
  length_encode x := c.length_encode (g x)
  decode_encode x := by rw [c.decode_encode, Option.map_some, h]

end Codec

end FixedCodec

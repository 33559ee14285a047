import Vibehouse.Shuffle.Index
import Vibehouse.Lib.FixedVector
import Mathlib.Data.List.Nodup
import Mathlib.Data.List.Perm.Subperm

/-! # Swap-or-not shuffling of a whole list

`shuffle_list` runs the rounds of `compute_shuffled_index` over a whole list in place. A round
visits each pair of positions once, from both ends: the positions up to the pivot, pairing
`i` with `pivot - i`, then those after it, pairing `i` with `n - 1 - (i - pivot - 1)`. The bit
of the larger member `j` is read through a cursor, a digest and a byte that are recomputed only
when `j` enters a new block of 256 positions or a new byte. Each loop is shown to read the list
through `doRound` on the positions it has visited (`PairLoop`), and a round through `doRound`
on every position; the rounds then compose as in `compute_shuffled_index`. -/

namespace Vibehouse.Shuffle

open FixedVector

/-! ## The source -/

section Source

variable (sha256 : List UInt8 → Vector UInt8 32)

/-- `Buf::raw_pivot`: the hash of the first 33 bytes of the buffer, the seed and the round. -/
def rawPivot (seed : Vector UInt8 32) (round : UInt8) : Nat :=
  bytesToInt64 (sha256 (seed.toList ++ [round]))

/-- `Buf::hash` after `mix_in_position(position)`. -/
def bufHash (seed : Vector UInt8 32) (round : UInt8) (position : Nat) : Vector UInt8 32 :=
  sha256 (seed.toList ++ [round] ++ positionWindow position)

/-- The variables of either loop of a round: the list, `source` and `byte_v`. -/
structure LoopState where
  input : List Nat
  source : Vector UInt8 32
  byteV : UInt8

/-- The body of either loop of a round at positions `i` and `j`: rehash when `j` enters a new
block of 256 positions, reload the byte when it enters a new byte, and swap on the bit of
`j`. -/
def loopStep (seed : Vector UInt8 32) (round : UInt8) (s : LoopState) (i j : Nat) : LoopState :=
  let source := if j &&& 0xff = 0xff then bufHash sha256 seed round (j >>> 8) else s.source
  let byteV := if j &&& 0x07 = 0x07 then source.toList.getD ((j &&& 0xff) >>> 3) 0 else s.byteV
  let bitV := (byteV.toNat >>> (j &&& 0x07)) &&& 0x01
  ⟨if bitV = 1 then swap s.input i j else s.input, source, byteV⟩

/-- The variables before either loop: the digest and the byte of its first `j`. -/
def loopStart (seed : Vector UInt8 32) (round : UInt8) (input : List Nat) (j : Nat) :
    LoopState :=
  let source := bufHash sha256 seed round (j >>> 8)
  ⟨input, source, source.toList.getD ((j &&& 0xff) >>> 3) 0⟩

/-- One round of `shuffle_list`. -/
def shuffleRound (seed : Vector UInt8 32) (round : UInt8) (input : List Nat) : List Nat :=
  let listSize := input.length
  let pivot := rawPivot sha256 seed round % listSize
  let mirror := (pivot + 1) >>> 1
  let s := (List.range mirror).foldl (fun s i => loopStep sha256 seed round s i (pivot - i))
    (loopStart sha256 seed round input pivot)
  let mirror := (pivot + listSize + 1) >>> 1
  let end_ := listSize - 1
  let s := (List.range' (pivot + 1) (mirror - (pivot + 1))).zipIdx.foldl
    (fun s (i, loopIter) => loopStep sha256 seed round s i (end_ - loopIter))
    (loopStart sha256 seed round s.input end_)
  s.input

/-- `shuffle_list`: shuffles when `forwards`, un-shuffles otherwise. -/
def shuffleList (input : List Nat) (rounds : UInt8) (seed : Vector UInt8 32) (forwards : Bool) :
    Option (List Nat) :=
  let listSize := input.length
  if input = [] ∨ listSize > usizeMax / 2 ∨ listSize > 2 ^ 24 ∨ rounds = 0 then none
  else
    -- the loop's `r` counts up from 0 when shuffling and down from `rounds - 1` when not
    let order := if forwards then List.range rounds.toNat else (List.range rounds.toNat).reverse
    some (order.foldl (fun input r => shuffleRound sha256 seed (UInt8.ofNat r) input) input)

end Source

/-! ## The cursor -/

section Cursor

variable (sha256 : List UInt8 → Vector UInt8 32) (seed : Vector UInt8 32) (round : UInt8)

@[simp] theorem and_0xff (j : Nat) : j &&& 0xff = j % 256 := Nat.and_two_pow_sub_one_eq_mod j 8

@[simp] theorem and_0x07 (j : Nat) : j &&& 0x07 = j % 8 := Nat.and_two_pow_sub_one_eq_mod j 3

@[simp] theorem shiftRight_8 (j : Nat) : j >>> 8 = j / 256 := Nat.shiftRight_eq_div_pow j 8

@[simp] theorem shiftRight_3 (j : Nat) : j >>> 3 = j / 8 := Nat.shiftRight_eq_div_pow j 3

theorem shiftRight_1 (j : Nat) : j >>> 1 = j / 2 := Nat.shiftRight_eq_div_pow j 1

/-- The cursor of a loop reads position `j`: `source` is the hash of `j`'s block and `byte_v`
is `j`'s byte of it. -/
def ReadsAt (s : LoopState) (j : Nat) : Prop :=
  s.source = bufHash sha256 seed round (j / 256) ∧
    s.byteV = s.source.toList.getD (j % 256 / 8) 0

theorem readsAt_loopStart (input : List Nat) (j : Nat) :
    ReadsAt sha256 seed round (loopStart sha256 seed round input j) j := by
  simp [ReadsAt, loopStart]

/-- One pass from a cursor at `j` or at the position after it: the cursor moves to `j` and the
swap is decided by the bit of `j`. -/
theorem loopStep_eq {s : LoopState} {i j c : Nat} (hc : c = j ∨ c = j + 1)
    (hs : ReadsAt sha256 seed round s c) :
    loopStep sha256 seed round s i j =
      ⟨if bitAt sha256 seed round j then swap s.input i j else s.input,
        bufHash sha256 seed round (j / 256),
        (bufHash sha256 seed round (j / 256)).toList.getD (j % 256 / 8) 0⟩ := by
  obtain ⟨hsource, hbyte⟩ := hs
  -- a cursor one position ahead is in the same block and byte unless `j` ends one
  have hblock : j % 256 ≠ 255 → c / 256 = j / 256 := by omega
  have hbyteIdx : j % 8 ≠ 7 → c % 256 / 8 = j % 256 / 8 := by omega
  have hsource' : (if j % 256 = 255 then bufHash sha256 seed round (j / 256) else s.source) =
      bufHash sha256 seed round (j / 256) := by
    split_ifs with h255
    · rfl
    · rw [hsource, hblock h255]
  have hbyte' : (if j % 8 = 7 then (bufHash sha256 seed round (j / 256)).toList.getD
      (j % 256 / 8) 0 else s.byteV) =
      (bufHash sha256 seed round (j / 256)).toList.getD (j % 256 / 8) 0 := by
    split_ifs with h7
    · rfl
    · rw [hbyte, hsource, hblock (by omega), hbyteIdx h7]
  simp only [loopStep, and_0xff, and_0x07, shiftRight_8, shiftRight_3, hsource', hbyte',
    Nat.and_one_is_mod]
  rfl

end Cursor

/-! ## A loop of a round -/

/-- The positions a loop over the pairs `(a + k', b - k')` has visited after `k` passes. -/
def Visited (a b k x : Nat) : Prop := (a ≤ x ∧ x < a + k) ∨ (b + 1 - k ≤ x ∧ x ≤ b)

instance (a b k x : Nat) : Decidable (Visited a b k x) := inferInstanceAs (Decidable (_ ∨ _))

section Loop

variable (sha256 : List UInt8 → Vector UInt8 32) (seed : Vector UInt8 32) (round : UInt8)

/-- What a loop of a round has done after `k` passes over the pairs `(a + k', b - k')`: the list
has its length, reads the original through `doRound` on the positions visited and unchanged
elsewhere, and its cursor is at the last `j` or, before the first pass, at `b`. -/
structure PairLoop (pivot : Nat) (l : List Nat) (a b k : Nat) (s : LoopState) : Prop where
  length_eq : s.input.length = l.length
  getElem?_eq : ∀ x < l.length, s.input[x]? =
    l[if Visited a b k x then doRound sha256 seed x pivot round l.length else x]?
  readsAt : ReadsAt sha256 seed round s (b - k) ∨ ReadsAt sha256 seed round s (b - k + 1)

theorem pairLoop_start (pivot : Nat) (l : List Nat) (a b : Nat) :
    PairLoop sha256 seed round pivot l a b 0 (loopStart sha256 seed round l b) := by
  refine ⟨rfl, fun x _ => ?_, .inl (readsAt_loopStart sha256 seed round l b)⟩
  rw [if_neg (by unfold Visited; omega)]
  rfl

/-- One pass over a pair whose members `doRound` exchanges exactly when the bit of the larger
is set: the pair joins the visited positions. -/
theorem PairLoop.step {pivot : Nat} {l : List Nat} {a b k : Nat} {s : LoopState}
    (h : PairLoop sha256 seed round pivot l a b k s) (hij : a + k < b - k) (hb : b < l.length)
    (hdi : doRound sha256 seed (a + k) pivot round l.length =
      if bitAt sha256 seed round (b - k) then b - k else a + k)
    (hdj : doRound sha256 seed (b - k) pivot round l.length =
      if bitAt sha256 seed round (b - k) then a + k else b - k) :
    PairLoop sha256 seed round pivot l a b (k + 1)
      (loopStep sha256 seed round s (a + k) (b - k)) := by
  obtain ⟨c, hc, hr⟩ : ∃ c, (c = b - k ∨ c = b - k + 1) ∧ ReadsAt sha256 seed round s c := by
    rcases h.readsAt with hr | hr
    · exact ⟨_, .inl rfl, hr⟩
    · exact ⟨_, .inr rfl, hr⟩
  rw [loopStep_eq sha256 seed round hc hr]
  have hi : a + k < s.input.length := by rw [h.length_eq]; omega
  have hj : b - k < s.input.length := by rw [h.length_eq]; omega
  -- the pair was not visited before, and only the pair is newly visited
  have hvi : ¬ Visited a b k (a + k) := by unfold Visited; omega
  have hvj : ¬ Visited a b k (b - k) := by unfold Visited; omega
  have hvisit : ∀ x, x ≠ a + k → x ≠ b - k → (Visited a b (k + 1) x ↔ Visited a b k x) := by
    intro x hxi hxj
    unfold Visited
    omega
  refine ⟨by split_ifs <;> simp [h.length_eq], fun x hx => ?_,
    .inr (by rw [show b - (k + 1) + 1 = b - k by omega]; exact ⟨rfl, rfl⟩)⟩
  by_cases hbit : bitAt sha256 seed round (b - k)
  · rw [if_pos hbit, getElem?_swap hi hj]
    by_cases hxi : x = a + k
    · subst hxi
      rw [if_pos rfl, h.getElem?_eq _ (by omega), if_neg hvj,
        if_pos (show Visited a b (k + 1) (a + k) by unfold Visited; omega), hdi, if_pos hbit]
    · by_cases hxj : x = b - k
      · subst hxj
        rw [if_neg hxi, if_pos rfl, h.getElem?_eq _ (by omega), if_neg hvi,
          if_pos (show Visited a b (k + 1) (b - k) by unfold Visited; omega), hdj, if_pos hbit]
      · rw [if_neg hxi, if_neg hxj, h.getElem?_eq _ hx, if_congr (hvisit x hxi hxj) rfl rfl]
  · rw [if_neg hbit, h.getElem?_eq _ hx]
    by_cases hxi : x = a + k
    · subst hxi
      rw [if_neg hvi, if_pos (show Visited a b (k + 1) (a + k) by unfold Visited; omega), hdi,
        if_neg hbit]
    · by_cases hxj : x = b - k
      · subst hxj
        rw [if_neg hvj, if_pos (show Visited a b (k + 1) (b - k) by unfold Visited; omega), hdj,
          if_neg hbit]
      · rw [if_congr (hvisit x hxi hxj) rfl rfl]

/-- A member of a pair with its partner above it moves on the bit of the partner. -/
theorem doRound_of_partner_le {pivot n i j : Nat} (hflip : flipOf pivot n i = j) (hij : i ≤ j) :
    doRound sha256 seed i pivot round n = if bitAt sha256 seed round j then j else i := by
  rw [doRound_eq, hflip, Nat.max_eq_right hij]

/-- A member of a pair with its partner below it moves on its own bit. -/
theorem doRound_of_partner_ge {pivot n i j : Nat} (hflip : flipOf pivot n j = i) (hij : i ≤ j) :
    doRound sha256 seed j pivot round n = if bitAt sha256 seed round j then i else j := by
  rw [doRound_eq, hflip, Nat.max_eq_left hij]

/-- A position that is its own partner stays. -/
theorem doRound_of_flipOf_self {pivot n x : Nat} (h : flipOf pivot n x = x) :
    doRound sha256 seed x pivot round n = x := by
  rw [doRound_eq, h]
  split_ifs <;> rfl

/-- A round keeps the positions after the pivot after it. -/
theorem doRound_gt {pivot n x : Nat} (hpx : pivot < x) (hx : x < n) :
    pivot < doRound sha256 seed x pivot round n := by
  rw [doRound_eq, flipOf_of_lt hpx hx]
  split_ifs <;> omega

/-- A whole loop of `K` passes over pairs of partners `(a + k, b - k)`. -/
theorem pairLoop_foldl (pivot : Nat) {l : List Nat} {a b : Nat} (K : Nat)
    (hK : a + 2 * K ≤ b + 1) (hb : b < l.length)
    (hpair : ∀ k < K, flipOf pivot l.length (a + k) = b - k ∧
      flipOf pivot l.length (b - k) = a + k) :
    PairLoop sha256 seed round pivot l a b K
      ((List.range K).foldl (fun s k => loopStep sha256 seed round s (a + k) (b - k))
        (loopStart sha256 seed round l b)) := by
  induction K with
  | zero => exact pairLoop_start sha256 seed round pivot l a b
  | succ K ih =>
    rw [List.range_succ, List.foldl_append, List.foldl_cons, List.foldl_nil]
    have hk := hpair K (by omega)
    exact (ih (by omega) fun k hk' => hpair k (by omega)).step sha256 seed round (by omega) hb
      (doRound_of_partner_le sha256 seed round hk.1 (by omega))
      (doRound_of_partner_ge sha256 seed round hk.2 (by omega))

end Loop

/-! ## A round -/

section Round

variable (sha256 : List UInt8 → Vector UInt8 32) (seed : Vector UInt8 32) (round : UInt8)

theorem zipIdx_range' (a K t : Nat) :
    (List.range' a K).zipIdx t = (List.range K).map fun k => (a + k, t + k) := by
  induction K generalizing a t with
  | zero => rfl
  | succ K ih =>
    rw [List.range'_succ, List.zipIdx_cons, ih, List.range_succ_eq_map, List.map_cons,
      List.map_map]
    congr 1
    simp only [List.map_inj_left, Function.comp_apply, Prod.mk.injEq]
    intro k _
    constructor <;> omega

/-- A round of `shuffle_list` reads the list through `doRound` at every position. -/
theorem shuffleRound_spec (l : List Nat) (hn : 0 < l.length) :
    (shuffleRound sha256 seed round l).length = l.length ∧
      ∀ x < l.length, (shuffleRound sha256 seed round l)[x]? =
        l[doRound sha256 seed x (roundPivot sha256 seed round l.length) round l.length]? := by
  have hp : roundPivot sha256 seed round l.length < l.length := roundPivot_lt sha256 seed _ round hn
  unfold shuffleRound
  dsimp only
  rw [show rawPivot sha256 seed round % l.length = roundPivot sha256 seed round l.length from rfl,
    shiftRight_1, shiftRight_1, zipIdx_range', List.foldl_map]
  generalize roundPivot sha256 seed round l.length = p at hp ⊢
  -- the first loop pairs `k` with `p - k`: every position up to `p` but a middle one
  have h1 := pairLoop_foldl sha256 seed round p (a := 0) (b := p) ((p + 1) / 2) (by omega) hp
    fun k hk => ⟨by rw [flipOf_of_le (by omega) hp]; omega,
      by rw [flipOf_of_le (by omega) hp]; omega⟩
  simp only [Nat.zero_add] at h1 ⊢
  generalize (List.range ((p + 1) / 2)).foldl _ _ = s1 at h1 ⊢
  have hlen1 := h1.length_eq
  -- the second loop pairs `p + 1 + k` with `n - 1 - k`: every position after `p` but a middle one
  have h2 := pairLoop_foldl sha256 seed round p (l := s1.input) (a := p + 1) (b := l.length - 1)
    ((p + l.length + 1) / 2 - (p + 1)) (by omega) (by omega)
    fun k hk => ⟨by rw [hlen1, flipOf_of_lt (by omega) (by omega)]; omega,
      by rw [hlen1, flipOf_of_lt (by omega) (by omega)]; omega⟩
  generalize (List.range ((p + l.length + 1) / 2 - (p + 1))).foldl _ _ = s2 at h2 ⊢
  refine ⟨by rw [h2.length_eq, hlen1], fun x hx => ?_⟩
  rw [h2.getElem?_eq x (by omega), hlen1]
  by_cases hxp : x ≤ p
  · rw [if_neg (by unfold Visited; omega), h1.getElem?_eq x hx]
    split_ifs with hv
    · rfl
    · -- the middle position of the first half is its own partner
      rw [doRound_of_flipOf_self sha256 seed round (by rw [flipOf_of_le hxp hp]; unfold Visited at hv; omega)]
  · have hxp' : p < x := Nat.lt_of_not_le hxp
    have hd : p < doRound sha256 seed x p round l.length := doRound_gt sha256 seed round hxp' hx
    have hdn : doRound sha256 seed x p round l.length < l.length := doRound_lt sha256 seed round hx
    split_ifs with hv
    · rw [h1.getElem?_eq _ hdn, if_neg (by unfold Visited; omega)]
    · -- the middle position of the second half is its own partner
      have hself : doRound sha256 seed x p round l.length = x :=
        doRound_of_flipOf_self sha256 seed round
          (by rw [flipOf_of_lt hxp' hx]; unfold Visited at hv; omega)
      rw [h1.getElem?_eq _ hx, if_neg (by unfold Visited; omega), hself]

end Round

/-! ## Whole shuffles -/

section Shuffle

variable (sha256 : List UInt8 → Vector UInt8 32) (seed : Vector UInt8 32)

/-- Rounds run in the order of `rounds` read the list through the per-index rounds in the
reverse order. -/
theorem foldl_shuffleRound (rounds : List Nat) (l : List Nat) (hn : 0 < l.length) :
    (rounds.foldl (fun input r => shuffleRound sha256 seed (UInt8.ofNat r) input) l).length =
        l.length ∧
      ∀ x < l.length,
        (rounds.foldl (fun input r => shuffleRound sha256 seed (UInt8.ofNat r) input) l)[x]? =
          l[roundsFold sha256 seed l.length rounds.reverse x]? := by
  induction rounds generalizing l with
  | nil => exact ⟨rfl, fun x _ => rfl⟩
  | cons r rounds ih =>
    obtain ⟨hlen, hget⟩ := shuffleRound_spec sha256 seed (UInt8.ofNat r) l hn
    obtain ⟨hlen', hget'⟩ := ih (shuffleRound sha256 seed (UInt8.ofNat r) l) (by omega)
    rw [List.foldl_cons]
    refine ⟨hlen'.trans hlen, fun x hx => ?_⟩
    rw [hget' x (by omega), hlen, List.reverse_cons, roundsFold_append_singleton,
      hget _ (roundsFold_lt sha256 seed _ _ hx)]

theorem shuffleList_eq_some {l : List Nat} (hn : 0 < l.length) (hmax : l.length ≤ 2 ^ 24)
    {rounds : UInt8} (hr : 1 ≤ rounds) (forwards : Bool) :
    shuffleList sha256 l rounds seed forwards =
      some ((if forwards then List.range rounds.toNat else (List.range rounds.toNat).reverse).foldl
        (fun input r => shuffleRound sha256 seed (UInt8.ofNat r) input) l) := by
  have hr0 : rounds ≠ 0 := by
    intro h
    rw [h] at hr
    exact absurd hr (by decide)
  have hl : l ≠ [] := fun h => by simp [h] at hn
  rw [shuffleList, if_neg (by simp only [not_or]; exact ⟨hl, by unfold usizeMax; omega, by omega, hr0⟩)]

/-- Two lists that agree at every position of the first are equal when their lengths are. -/
theorem eq_of_getElem? {l l' : List Nat} (hlen : l'.length = l.length)
    (h : ∀ x < l.length, l'[x]? = l[x]?) : l' = l := by
  apply List.ext_getElem?
  intro x
  by_cases hx : x < l.length
  · exact h x hx
  · rw [List.getElem?_eq_none (by omega), List.getElem?_eq_none (by omega)]

/-- A list read through a map of the positions with a left inverse on them is a permutation of
the list it reads. -/
theorem perm_of_getElem? {l l' : List Nat} {σ τ : Nat → Nat} (hlen : l'.length = l.length)
    (hσ : ∀ x < l.length, σ x < l.length) (hτ : ∀ x < l.length, τ (σ x) = x)
    (h : ∀ x < l.length, l'[x]? = l[σ x]?) : l'.Perm l := by
  have hl' : l' = ((List.range l.length).map σ).map (l.getD · 0) := by
    refine eq_of_getElem? (by simp [hlen]) fun x hx => ?_
    replace hx : x < l.length := by simpa using hx
    rw [h x hx, List.getElem?_map, List.getElem?_map, List.getElem?_range hx, Option.map_some,
      Option.map_some, List.getD_eq_getElem?_getD, List.getElem?_eq_getElem (hσ x hx),
      Option.getD_some]
  have hl : l = (List.range l.length).map (l.getD · 0) := by
    refine (eq_of_getElem? (by simp) fun x hx => ?_).symm
    rw [List.getElem?_map, List.getElem?_range hx, Option.map_some, List.getD_eq_getElem?_getD,
      List.getElem?_eq_getElem hx, Option.getD_some]
  -- the positions read are `0..n` in another order
  have hnodup : ((List.range l.length).map σ).Nodup := by
    refine List.Nodup.map_on (fun x hx y hy hxy => ?_) List.nodup_range
    rw [← hτ x (List.mem_range.1 hx), hxy, hτ y (List.mem_range.1 hy)]
  have hsub : (List.range l.length).map σ ⊆ List.range l.length := by
    intro y hy
    obtain ⟨x, hx, rfl⟩ := List.mem_map.1 hy
    exact List.mem_range.2 (hσ x (List.mem_range.1 hx))
  have hperm := ((hnodup.subperm hsub).perm_of_length_le (by simp)).map (l.getD · 0)
  rw [← hl] at hperm
  rwa [hl']

/-- What `shuffle_list` returns is a permutation of its input, in either direction. -/
theorem shuffleList_perm {l out : List Nat} {rounds : UInt8} {forwards : Bool}
    (h : shuffleList sha256 l rounds seed forwards = some out) : out.Perm l := by
  rw [shuffleList] at h
  split at h
  · cases h
  rename_i hguard
  have hn : 0 < l.length := List.length_pos_iff.2 fun hl => hguard (Or.inl hl)
  dsimp only at h
  generalize (if forwards then List.range rounds.toNat else (List.range rounds.toNat).reverse) =
    order at h
  rw [Option.some.injEq] at h
  subst h
  obtain ⟨hlen, hget⟩ := foldl_shuffleRound sha256 seed order l hn
  refine perm_of_getElem? hlen (fun x hx => roundsFold_lt sha256 seed _ _ hx)
    (τ := roundsFold sha256 seed l.length order) (fun x hx => ?_) hget
  simpa using roundsFold_reverse_roundsFold sha256 seed _ hn order.reverse hx

end Shuffle

/-- `shuffle_list` agrees with `compute_shuffled_index` for every hash function: un-shuffling reads
the list through the per-index permutation, and shuffling and un-shuffling undo each other. -/
theorem shuffleList_agrees (sha256 : List UInt8 → Vector UInt8 32) (n : Nat) (hn : 1 ≤ n)
    (hmax : n ≤ 2 ^ 24) (seed : Vector UInt8 32) (rounds : UInt8) (hr : 1 ≤ rounds)
    (l : List Nat) (hl : l.length = n) :
    shuffleList sha256 l rounds seed false =
        (List.range n).mapM (fun i => (computeShuffledIndex sha256 i n seed rounds).bind (l[·]?)) ∧
      (shuffleList sha256 l rounds seed true).bind (shuffleList sha256 · rounds seed false) =
        some l ∧
      (shuffleList sha256 l rounds seed false).bind (shuffleList sha256 · rounds seed true) =
        some l := by
  subst hl
  have hn0 : 0 < l.length := hn
  have hlt := roundsFold_lt sha256 seed l.length
  -- un-shuffling runs the rounds from the last down, shuffling from the first up
  obtain ⟨hlenB, hgetB⟩ := foldl_shuffleRound sha256 seed (List.range rounds.toNat).reverse l hn0
  rw [List.reverse_reverse] at hgetB
  obtain ⟨hlenF, hgetF⟩ := foldl_shuffleRound sha256 seed (List.range rounds.toNat) l hn0
  rw [shuffleList_eq_some sha256 seed hn0 hmax hr false,
    shuffleList_eq_some sha256 seed hn0 hmax hr true, if_neg Bool.false_ne_true, if_pos rfl,
    Option.bind_some, Option.bind_some]
  generalize hB : (List.range rounds.toNat).reverse.foldl _ l = B at hlenB hgetB
  generalize hF : (List.range rounds.toNat).foldl _ l = F at hlenF hgetF
  refine ⟨?_, ?_, ?_⟩
  · -- each entry is the one `compute_shuffled_index` names
    rw [FixedVector.mapM_eq_some_map
      (g := fun i => l.getD (roundsFold sha256 seed l.length (List.range rounds.toNat) i) 0)]
    · refine congrArg some (eq_of_getElem? (by simp [hlenB]) fun x hx => ?_)
      have hx' : x < l.length := by simpa using hx
      rw [hgetB x hx', List.getElem?_map, List.getElem?_range hx', Option.map_some,
        List.getD_eq_getElem?_getD, List.getElem?_eq_getElem (hlt _ hx'), Option.getD_some]
    · intro i hi
      have hi' : i < l.length := List.mem_range.1 hi
      rw [computeShuffledIndex_eq sha256 seed _ _ hi' hmax, Option.bind_some,
        List.getD_eq_getElem?_getD, List.getElem?_eq_getElem (hlt _ hi'), Option.getD_some]
  · -- un-shuffling the shuffle: each round met again in reverse order
    obtain ⟨hlen, hget⟩ := foldl_shuffleRound sha256 seed (List.range rounds.toNat).reverse F
      (by omega)
    rw [List.reverse_reverse, hlenF] at hget
    rw [shuffleList_eq_some sha256 seed (by omega) (by omega) hr false, if_neg Bool.false_ne_true]
    refine congrArg some (eq_of_getElem? (by rw [hlen, hlenF]) fun x hx => ?_)
    rw [hget x hx, hgetF _ (hlt _ hx), roundsFold_reverse_roundsFold sha256 seed _ hn0 _ hx]
  · -- shuffling the un-shuffle
    obtain ⟨hlen, hget⟩ := foldl_shuffleRound sha256 seed (List.range rounds.toNat) B (by omega)
    rw [hlenB] at hget
    rw [shuffleList_eq_some sha256 seed (by omega) (by omega) hr true, if_pos rfl]
    refine congrArg some (eq_of_getElem? (by rw [hlen, hlenB]) fun x hx => ?_)
    have hrev := roundsFold_reverse_roundsFold sha256 seed _ hn0 (List.range rounds.toNat).reverse hx
    rw [List.reverse_reverse] at hrev
    rw [hget x hx, hgetB _ (hlt _ hx), hrev]

/-- A constant hash on a list of three, in one round. -/
theorem shuffleList_agrees_three :
    1 ≤ 3 ∧ 3 ≤ 2 ^ 24 ∧ (1 : UInt8) ≤ 1 ∧ [10, 20, 30].length = 3 ∧
      (shuffleList (fun _ => Vector.replicate 32 0xa5) [10, 20, 30] 1 (Vector.replicate 32 7) false =
          (List.range 3).mapM (fun i => (computeShuffledIndex (fun _ => Vector.replicate 32 0xa5) i 3
            (Vector.replicate 32 7) 1).bind ([10, 20, 30][·]?)) ∧
        (shuffleList (fun _ => Vector.replicate 32 0xa5) [10, 20, 30] 1 (Vector.replicate 32 7)
            true).bind (shuffleList (fun _ => Vector.replicate 32 0xa5) · 1 (Vector.replicate 32 7)
              false) = some [10, 20, 30] ∧
        (shuffleList (fun _ => Vector.replicate 32 0xa5) [10, 20, 30] 1 (Vector.replicate 32 7)
            false).bind (shuffleList (fun _ => Vector.replicate 32 0xa5) · 1 (Vector.replicate 32 7)
              true) = some [10, 20, 30]) :=
  ⟨by decide, by decide, by decide, rfl,
    shuffleList_agrees _ 3 (by decide) (by decide) _ 1 (by decide) [10, 20, 30] rfl⟩

end Vibehouse.Shuffle

import PinbaEngine.Lib.StripeFold

/-! # xxHash

    `xxhash.c` hashes a whole input at once, or a stream of chunks through a state that
    keeps what is left of a stripe. Both hashes, of 32 and of 64 bits, absorb stripes of
    four words and finish with the rest; they differ in the word and in the arithmetic.
    The keys of `pinba_map` are hashed by the 64 bit one.

    A pointer into an input is the bytes from there to the end. Reads behind the end and
    copies behind the memory of a state have no result. What a macro repeats for aligned
    inputs is the same code.
-/

namespace PinbaEngine

namespace XXHash

open StripeFold

/-! ## Section 1: Memory reads -/

/-- The order of the bytes of an integer. -/
inductive XXH_endianess where
  | XXH_bigEndian
  | XXH_littleEndian
deriving DecidableEq

open XXH_endianess

/-- The bytes of an integer of the processor. -/
def stored (cpu : XXH_endianess) (size x : Nat) : List UInt8 :=
  match cpu with
  | XXH_littleEndian => bytes size x
  | XXH_bigEndian => (bytes size x).reverse

/-- The integer of the processor with these bytes. -/
def loaded (cpu : XXH_endianess) (l : List UInt8) : Nat :=
  match cpu with
  | XXH_littleEndian => word l
  | XXH_bigEndian => word l.reverse

/-- The first byte of the integer 1. -/
def XXH_CPU_LITTLE_ENDIAN (cpu : XXH_endianess) : XXH_endianess :=
  if (stored cpu 4 1).head? = some 1 then XXH_littleEndian else XXH_bigEndian

/-- `XXH_readLE32_align` and `XXH_readLE64_align`: copy an integer of `size` bytes, swap
    it if the bytes are said to be the other way round. -/
def XXH_readLE (cpu endian : XXH_endianess) (size : Nat) (ptr : List UInt8) : Option Nat :=
  if size ≤ ptr.length then
    let value := loaded cpu (ptr.take size)
    some (if endian = XXH_littleEndian then value else swap size value)
  else none

theorem XXH_CPU_LITTLE_ENDIAN_eq (cpu : XXH_endianess) : XXH_CPU_LITTLE_ENDIAN cpu = cpu := by
  cases cpu <;> decide

/-- With the order of the processor the bytes are read lowest one first. -/
theorem XXH_readLE_eq (cpu : XXH_endianess) {size : Nat} {ptr : List UInt8}
    (h : size ≤ ptr.length) : XXH_readLE cpu cpu size ptr = some (word (ptr.take size)) := by
  unfold XXH_readLE
  rw [if_pos h]
  cases cpu with
  | XXH_littleEndian => rfl
  | XXH_bigEndian =>
    have hlen : (ptr.take size).length = size := by simp [h]
    have hswap := swap_word_reverse (ptr.take size)
    rw [hlen] at hswap
    exact congrArg some hswap

/-! ## Section 2: One hash, two widths -/

structure Accumulators (W : Type) where
  v1 : W
  v2 : W
  v3 : W
  v4 : W

/-- What the hashes of 32 and of 64 bits do not share. -/
structure Width (W : Type) where
  /-- The bytes of a word. -/
  size : Nat
  pos : 0 < size
  /-- The conversion from a longer integer. -/
  cast : Nat → W
  /-- The accumulators before the first stripe. -/
  start : W → Accumulators W
  /-- An accumulator takes a word in. -/
  round : W → W → W
  /-- The accumulators after the last stripe become one word. -/
  converge : Accumulators W → W
  /-- The word for inputs shorter than a stripe. -/
  short : W → W
  /-- The length goes in. -/
  add_length : W → W → W
  /-- The words and bytes after the last stripe, and the mixing at the end. -/
  finish : XXH_endianess → XXH_endianess → W → List UInt8 → Option W

namespace Width

variable {W : Type} (X : Width W)

/-- The bytes of a stripe, and of the memory of a state. -/
def stripe : Nat := 4 * X.size

def read (cpu endian : XXH_endianess) (p : List UInt8) : Option W :=
  (XXH_readLE cpu endian X.size p).map X.cast

/-- The four rounds of a stripe. -/
def rounds (cpu endian : XXH_endianess) (v : Accumulators W) (p : List UInt8) :
    Option (Accumulators W) := do
  let k1 ← X.read cpu endian p
  let p := p.drop X.size
  let k2 ← X.read cpu endian p
  let p := p.drop X.size
  let k3 ← X.read cpu endian p
  let p := p.drop X.size
  let k4 ← X.read cpu endian p
  some ⟨X.round v.v1 k1, X.round v.v2 k2, X.round v.v3 k3, X.round v.v4 k4⟩

/-- `do { .. } while (p <= limit)`. -/
def rounds_loop (cpu endian : XXH_endianess) (v : Accumulators W) (p : List UInt8) :
    Option (Accumulators W × List UInt8) :=
  (X.rounds cpu endian v p).bind fun v =>
    if X.stripe ≤ (p.drop X.stripe).length then rounds_loop cpu endian v (p.drop X.stripe)
    else some (v, p.drop X.stripe)
termination_by p.length
decreasing_by
  have hpos := X.pos
  unfold stripe at *
  rw [List.length_drop] at *
  omega

/-- The hash of a whole input. -/
def endian_align (cpu endian : XXH_endianess) (input : List UInt8) (seed : W) : Option W :=
  if X.stripe ≤ input.length then do
    let (v, p) ← X.rounds_loop cpu endian (X.start seed) input
    X.finish cpu endian (X.add_length (X.converge v) (X.cast input.length)) p
  else X.finish cpu endian (X.add_length (X.short seed) (X.cast input.length)) input

/-- The memory of a state. -/
abbrev Bytes (size : Nat) : Type := { l : List UInt8 // l.length = size }

/-- `XXH_istate32_t` and `XXH_istate64_t`. -/
structure State where
  total_len : Nat
  seed : W
  v : Accumulators W
  memsize : Nat
  memory : Bytes X.stripe

/-- `XXH_memcpy` to `memory + offset`. -/
def XXH_memcpy {size : Nat} (memory : Bytes size) (offset : Nat) (src : List UInt8) :
    Option (Bytes size) :=
  if h : offset + src.length ≤ size then
    some ⟨memory.1.take offset ++ src ++ memory.1.drop (offset + src.length), by
      have hsize := memory.2
      rw [List.length_append, List.length_append, List.length_take, List.length_drop, hsize]
      omega⟩
  else none

variable {X}

namespace State

/-- The memory stays as it is. -/
def reset (state : X.State) (seed : W) : X.State :=
  { state with seed := seed, v := X.start seed, total_len := 0, memsize := 0 }

/-- Some data is left from the previous update: complete its stripe. -/
def complete (state : X.State) (cpu endian : XXH_endianess) (p : List UInt8) :
    Option (X.State × List UInt8) :=
  if state.memsize = 0 then some (state, p)
  else do
    let memory ← XXH_memcpy state.memory state.memsize (p.take (X.stripe - state.memsize))
    let v ← X.rounds cpu endian state.v memory.1
    some ({ state with v := v, memory := memory, memsize := 0 }, p.drop (X.stripe - state.memsize))

/-- The stripes of the input itself. The 32 bit code compares with `bEnd-16`, which may
    lie before the input. -/
def whole_stripes (state : X.State) (cpu endian : XXH_endianess) (p : List UInt8) :
    Option (X.State × List UInt8) :=
  if X.stripe ≤ p.length then do
    let (v, p) ← X.rounds_loop cpu endian state.v p
    some ({ state with v := v }, p)
  else some (state, p)

/-- Keep what is left. -/
def keep (state : X.State) (p : List UInt8) : Option X.State :=
  if p = [] then some state
  else do
    let memory ← XXH_memcpy state.memory 0 p
    some { state with memory := memory, memsize := p.length }

def update_endian (state : X.State) (cpu endian : XXH_endianess) (input : List UInt8) :
    Option X.State :=
  let state := { state with total_len := (state.total_len + input.length) % 2 ^ 64 }
  if (state.memsize + input.length) % 2 ^ 64 < X.stripe then do
    let memory ← XXH_memcpy state.memory state.memsize input
    some { state with memory := memory, memsize := state.memsize + input.length }
  else do
    let (state, p) ← state.complete cpu endian input
    let (state, p) ← state.whole_stripes cpu endian p
    state.keep p

def digest_endian (state : X.State) (cpu endian : XXH_endianess) : Option W :=
  let p := state.memory.1.take state.memsize
  if X.stripe ≤ state.total_len then
    X.finish cpu endian (X.add_length (X.converge state.v) (X.cast state.total_len)) p
  else X.finish cpu endian (X.add_length (X.short state.seed) (X.cast state.total_len)) p

/-- A sequence of updates. -/
def updates (state : X.State) (cpu endian : XXH_endianess) (chunks : List (List UInt8)) :
    Option X.State :=
  chunks.foldlM (fun state chunk => state.update_endian cpu endian chunk) state

end State

end Width

/-! ## Section 3: The hash of 32 bits -/

def PRIME32_1 : UInt32 := 2654435761
def PRIME32_2 : UInt32 := 2246822519
def PRIME32_3 : UInt32 := 3266489917
def PRIME32_4 : UInt32 := 668265263
def PRIME32_5 : UInt32 := 374761393

def XXH_rotl32 (x r : UInt32) : UInt32 := (x <<< r) ||| (x >>> (32 - r))

def XXH_readLE32 (cpu endian : XXH_endianess) (ptr : List UInt8) : Option UInt32 :=
  (XXH_readLE cpu endian 4 ptr).map UInt32.ofNat

/-- `while (p+4<=bEnd)`. -/
def words32 (cpu endian : XXH_endianess) (h32 : UInt32) (p : List UInt8) :
    Option (UInt32 × List UInt8) :=
  if 4 ≤ p.length then
    (XXH_readLE32 cpu endian p).bind fun k =>
      words32 cpu endian (XXH_rotl32 (h32 + k * PRIME32_3) 17 * PRIME32_4) (p.drop 4)
  else some (h32, p)
termination_by p.length
decreasing_by
  rw [List.length_drop]
  omega

/-- `while (p<bEnd)`. -/
def bytes32 (h32 : UInt32) (p : List UInt8) : UInt32 :=
  p.foldl (fun h32 b => XXH_rotl32 (h32 + b.toUInt32 * PRIME32_5) 11 * PRIME32_1) h32

def avalanche32 (h32 : UInt32) : UInt32 :=
  let h32 := h32 ^^^ (h32 >>> 15)
  let h32 := h32 * PRIME32_2
  let h32 := h32 ^^^ (h32 >>> 13)
  let h32 := h32 * PRIME32_3
  h32 ^^^ (h32 >>> 16)

def width32 : Width UInt32 where
  size := 4
  pos := by decide
  cast := UInt32.ofNat
  start seed := ⟨seed + PRIME32_1 + PRIME32_2, seed + PRIME32_2, seed + 0, seed - PRIME32_1⟩
  round v k := XXH_rotl32 (v + k * PRIME32_2) 13 * PRIME32_1
  converge v := XXH_rotl32 v.v1 1 + XXH_rotl32 v.v2 7 + XXH_rotl32 v.v3 12 + XXH_rotl32 v.v4 18
  short seed := seed + PRIME32_5
  add_length h32 len := h32 + len
  finish cpu endian h32 p := do
    let (h32, p) ← words32 cpu endian h32 p
    some (avalanche32 (bytes32 h32 p))

abbrev XXH32_state_t : Type := width32.State

def XXH32_endian_align (cpu endian : XXH_endianess) (input : List UInt8) (seed : UInt32) :
    Option UInt32 :=
  width32.endian_align cpu endian input seed

def XXH32 (cpu : XXH_endianess) (input : List UInt8) (seed : UInt32) : Option UInt32 :=
  XXH32_endian_align cpu (XXH_CPU_LITTLE_ENDIAN cpu) input seed

def XXH32_reset (state : XXH32_state_t) (seed : UInt32) : XXH32_state_t := state.reset seed

def XXH32_update (cpu : XXH_endianess) (state : XXH32_state_t) (input : List UInt8) :
    Option XXH32_state_t :=
  state.update_endian cpu (XXH_CPU_LITTLE_ENDIAN cpu) input

def XXH32_digest (cpu : XXH_endianess) (state : XXH32_state_t) : Option UInt32 :=
  state.digest_endian cpu (XXH_CPU_LITTLE_ENDIAN cpu)

/-! ## Section 4: The hash of 64 bits -/

def PRIME64_1 : UInt64 := 11400714785074694791
def PRIME64_2 : UInt64 := 14029467366897019727
def PRIME64_3 : UInt64 := 1609587929392839161
def PRIME64_4 : UInt64 := 9650029242287828579
def PRIME64_5 : UInt64 := 2870177450012600261

def XXH_rotl64 (x r : UInt64) : UInt64 := (x <<< r) ||| (x >>> (64 - r))

def XXH_readLE64 (cpu endian : XXH_endianess) (ptr : List UInt8) : Option UInt64 :=
  (XXH_readLE cpu endian 8 ptr).map UInt64.ofNat

/-- What becomes of an accumulator, or of a word after the last stripe. -/
def spread64 (v : UInt64) : UInt64 := XXH_rotl64 (v * PRIME64_2) 31 * PRIME64_1

def merge64 (h64 v : UInt64) : UInt64 := (h64 ^^^ spread64 v) * PRIME64_1 + PRIME64_4

/-- `while (p+8<=bEnd)`. -/
def words64 (cpu endian : XXH_endianess) (h64 : UInt64) (p : List UInt8) :
    Option (UInt64 × List UInt8) :=
  if 8 ≤ p.length then
    (XXH_readLE64 cpu endian p).bind fun k1 =>
      words64 cpu endian (XXH_rotl64 (h64 ^^^ spread64 k1) 27 * PRIME64_1 + PRIME64_4) (p.drop 8)
  else some (h64, p)
termination_by p.length
decreasing_by
  rw [List.length_drop]
  omega

/-- `if (p+4<=bEnd)`. -/
def half64 (cpu endian : XXH_endianess) (h64 : UInt64) (p : List UInt8) :
    Option (UInt64 × List UInt8) :=
  if 4 ≤ p.length then do
    let k ← XXH_readLE32 cpu endian p
    some (XXH_rotl64 (h64 ^^^ (k.toUInt64 * PRIME64_1)) 23 * PRIME64_2 + PRIME64_3, p.drop 4)
  else some (h64, p)

/-- `while (p<bEnd)`. -/
def bytes64 (h64 : UInt64) (p : List UInt8) : UInt64 :=
  p.foldl (fun h64 b => XXH_rotl64 (h64 ^^^ (b.toUInt64 * PRIME64_5)) 11 * PRIME64_1) h64

def avalanche64 (h64 : UInt64) : UInt64 :=
  let h64 := h64 ^^^ (h64 >>> 33)
  let h64 := h64 * PRIME64_2
  let h64 := h64 ^^^ (h64 >>> 29)
  let h64 := h64 * PRIME64_3
  h64 ^^^ (h64 >>> 32)

def width64 : Width UInt64 where
  size := 8
  pos := by decide
  cast := UInt64.ofNat
  start seed := ⟨seed + PRIME64_1 + PRIME64_2, seed + PRIME64_2, seed + 0, seed - PRIME64_1⟩
  round v k := XXH_rotl64 (v + k * PRIME64_2) 31 * PRIME64_1
  converge v :=
    let h64 := XXH_rotl64 v.v1 1 + XXH_rotl64 v.v2 7 + XXH_rotl64 v.v3 12 + XXH_rotl64 v.v4 18
    merge64 (merge64 (merge64 (merge64 h64 v.v1) v.v2) v.v3) v.v4
  short seed := seed + PRIME64_5
  add_length h64 len := h64 + len
  finish cpu endian h64 p := do
    let (h64, p) ← words64 cpu endian h64 p
    let (h64, p) ← half64 cpu endian h64 p
    some (avalanche64 (bytes64 h64 p))

abbrev XXH64_state_t : Type := width64.State

def XXH64_endian_align (cpu endian : XXH_endianess) (input : List UInt8) (seed : UInt64) :
    Option UInt64 :=
  width64.endian_align cpu endian input seed

def XXH64 (cpu : XXH_endianess) (input : List UInt8) (seed : UInt64) : Option UInt64 :=
  XXH64_endian_align cpu (XXH_CPU_LITTLE_ENDIAN cpu) input seed

def XXH64_reset (state : XXH64_state_t) (seed : UInt64) : XXH64_state_t := state.reset seed

def XXH64_update (cpu : XXH_endianess) (state : XXH64_state_t) (input : List UInt8) :
    Option XXH64_state_t :=
  state.update_endian cpu (XXH_CPU_LITTLE_ENDIAN cpu) input

def XXH64_digest (cpu : XXH_endianess) (state : XXH64_state_t) : Option UInt64 :=
  state.digest_endian cpu (XXH_CPU_LITTLE_ENDIAN cpu)

/-! ## Section 5: Streams -/

namespace Width

variable {W : Type} {X : Width W} {cpu : XXH_endianess} {v : Accumulators W} {p : List UInt8}

theorem stripe_pos (X : Width W) : 0 < X.stripe := by
  have hpos := X.pos
  unfold stripe
  omega

/-- The word that an accumulator takes in. -/
def lane (X : Width W) (p : List UInt8) : W := X.cast (word (p.take X.size))

/-- The rounds of a stripe without a look at the order of bytes. -/
def absorb (X : Width W) (v : Accumulators W) (p : List UInt8) : Accumulators W :=
  ⟨X.round v.v1 (X.lane p), X.round v.v2 (X.lane (p.drop X.size)),
    X.round v.v3 (X.lane ((p.drop X.size).drop X.size)),
    X.round v.v4 (X.lane (((p.drop X.size).drop X.size).drop X.size))⟩

/-- The state of the hash after some data, and what is left of it. -/
def absorbed (X : Width W) (seed : W) (data : List UInt8) : Accumulators W × List UInt8 :=
  stripes X.stripe X.absorb (X.start seed) data

theorem read_eq (h : X.size ≤ p.length) : X.read cpu cpu p = some (X.lane p) := by
  unfold read
  rw [XXH_readLE_eq cpu h]
  rfl

theorem lane_take {n : Nat} (h : X.size ≤ n) : X.lane (p.take n) = X.lane p := by
  unfold lane
  rw [List.take_take, Nat.min_eq_left h]

/-- A stripe absorbs its own bytes only. -/
theorem absorb_take : X.absorb v (p.take X.stripe) = X.absorb v p := by
  unfold absorb stripe
  simp only [List.drop_take]
  rw [lane_take (by omega), lane_take (by omega), lane_take (by omega), lane_take (by omega)]

theorem rounds_eq (h : X.stripe ≤ p.length) : X.rounds cpu cpu v p = some (X.absorb v p) := by
  unfold stripe at h
  unfold rounds
  rw [read_eq (by omega)]
  dsimp only [Option.bind_eq_bind, Option.bind_some]
  rw [read_eq (by rw [List.length_drop]; omega)]
  dsimp only [Option.bind_some]
  rw [read_eq (by rw [List.length_drop, List.length_drop]; omega)]
  dsimp only [Option.bind_some]
  rw [read_eq (by rw [List.length_drop, List.length_drop, List.length_drop]; omega)]
  rfl

/-- The loop absorbs all whole stripes. -/
theorem rounds_loop_eq (h : X.stripe ≤ p.length) :
    X.rounds_loop cpu cpu v p = some (stripes X.stripe X.absorb v p) := by
  induction v, p using stripes.induct X.stripe X.absorb with
  | case1 v p hle ih =>
    rw [rounds_loop, rounds_eq h, Option.bind_some, stripes_of_le X.stripe_pos h, absorb_take]
    rw [absorb_take] at ih
    by_cases hmore : X.stripe ≤ (p.drop X.stripe).length
    · rw [if_pos hmore]
      exact ih hmore
    · rw [if_neg hmore, stripes_of_lt (by omega)]
  | case2 v p hnot => exact absurd ⟨X.stripe_pos, h⟩ hnot

/-- The hash at once: stripes, the length, the rest. -/
theorem endian_align_eq (input : List UInt8) (seed : W) :
    X.endian_align cpu cpu input seed =
      X.finish cpu cpu (X.add_length
        (if X.stripe ≤ input.length then X.converge (X.absorbed seed input).1 else X.short seed)
        (X.cast input.length)) (X.absorbed seed input).2 := by
  unfold endian_align absorbed
  by_cases h : X.stripe ≤ input.length
  · rw [if_pos h, if_pos h, rounds_loop_eq h]
    rfl
  · rw [if_neg h, if_neg h, stripes_of_lt (by omega)]

/-! ### The state of a stream -/

/-- The bytes that the state keeps. -/
def State.kept (state : X.State) : List UInt8 := state.memory.1.take state.memsize

/-- The state has seen the data. -/
structure State.Follows (state : X.State) (seed : W) (data : List UInt8) : Prop where
  seeded : state.seed = seed
  total : state.total_len = data.length
  room : state.memsize < X.stripe
  data : X.absorbed seed data = (state.v, state.kept)

namespace State

variable {state : X.State} {seed : W} {data input : List UInt8}

@[simp] theorem length_memory (memory : Bytes X.stripe) : memory.1.length = X.stripe := memory.2

theorem length_kept (h : state.memsize ≤ X.stripe) : state.kept.length = state.memsize := by
  simp [kept, h]

theorem memcpy_eq {size offset : Nat} (memory : Bytes size) {src : List UInt8}
    (h : offset + src.length ≤ size) : ∃ memory' : Bytes size,
      XXH_memcpy memory offset src = some memory' ∧
        memory'.1.take (offset + src.length) = memory.1.take offset ++ src := by
  unfold XXH_memcpy
  rw [dif_pos h]
  refine ⟨_, rfl, ?_⟩
  have hlen : (memory.1.take offset ++ src).length = offset + src.length := by
    rw [List.length_append, List.length_take, memory.2]
    omega
  exact List.take_left' hlen

theorem follows_reset (state : X.State) (seed : W) : (state.reset seed).Follows seed [] where
  seeded := rfl
  total := rfl
  room := X.stripe_pos
  data := by
    rw [absorbed, stripes_of_lt X.stripe_pos, kept]
    rfl

/-- A chunk that does not complete the stripe. -/
theorem follows_short (h : state.Follows seed data) (hlt : state.memsize + input.length < X.stripe) :
    ∃ memory, XXH_memcpy state.memory state.memsize input = some memory ∧
      Follows { state with total_len := data.length + input.length, memory := memory, memsize := state.memsize + input.length }
        seed (data ++ input) := by
  obtain ⟨memory, hcopy, htake⟩ := memcpy_eq state.memory (Nat.le_of_lt hlt)
  refine ⟨memory, hcopy, h.seeded, List.length_append.symm, hlt, ?_⟩
  have hkept := h.data
  unfold Width.absorbed at hkept ⊢
  rw [stripes_append, hkept, feed]
  have hlen : (state.kept ++ input).length < X.stripe := by
    rw [List.length_append, length_kept h.room.le]
    exact hlt
  rw [stripes_of_lt hlen]
  exact congrArg _ htake.symm

/-- What is kept and the start of the input make a stripe. -/
theorem complete_eq (state : X.State) (cpu : XXH_endianess) (hsize : state.memsize < X.stripe)
    (hle : X.stripe ≤ state.memsize + input.length) :
    ∃ state' p, state.complete cpu cpu input = some (state', p) ∧ state'.seed = state.seed ∧
      state'.total_len = state.total_len ∧ state'.memsize = 0 ∧
      stripes X.stripe X.absorb state.v (state.kept ++ input) =
        stripes X.stripe X.absorb state'.v p := by
  unfold complete
  by_cases hzero : state.memsize = 0
  · rw [if_pos hzero]
    refine ⟨state, input, rfl, rfl, rfl, hzero, ?_⟩
    rw [kept, hzero, List.take_zero, List.nil_append]
  · rw [if_neg hzero]
    have hfill : state.memsize + (input.take (X.stripe - state.memsize)).length = X.stripe := by
      rw [List.length_take]
      omega
    obtain ⟨memory, hcopy, htake⟩ := memcpy_eq state.memory hfill.le
    have hmemory : memory.1 = state.kept ++ input.take (X.stripe - state.memsize) := by
      rw [hfill, List.take_of_length_le (length_memory memory).le] at htake
      exact htake
    rw [hcopy]
    dsimp only [Option.bind_eq_bind, Option.bind_some]
    rw [rounds_eq (length_memory memory).ge]
    refine ⟨_, _, rfl, rfl, rfl, rfl, ?_⟩
    -- the memory is the first stripe of all that is to be absorbed
    show _ = stripes X.stripe X.absorb (X.absorb state.v memory.1) _
    rw [← stripes_stripe X.stripe_pos (length_memory memory), hmemory, List.append_assoc,
      List.take_append_drop]

theorem whole_stripes_eq (p : List UInt8) :
    state.whole_stripes cpu cpu p =
      some ({ state with v := (stripes X.stripe X.absorb state.v p).1 },
        (stripes X.stripe X.absorb state.v p).2) := by
  unfold whole_stripes
  by_cases h : X.stripe ≤ p.length
  · rw [if_pos h, rounds_loop_eq h]
    rfl
  · rw [if_neg h, stripes_of_lt (by omega)]

theorem keep_eq (state : X.State) (hzero : state.memsize = 0) (hlt : p.length < X.stripe) :
    ∃ state', state.keep p = some state' ∧ state'.seed = state.seed ∧
      state'.total_len = state.total_len ∧ state'.memsize < X.stripe ∧
      (state'.v, state'.kept) = (state.v, p) := by
  unfold keep
  by_cases hnil : p = []
  · rw [if_pos hnil]
    refine ⟨state, rfl, rfl, rfl, by omega, ?_⟩
    rw [kept, hzero, List.take_zero, hnil]
  · rw [if_neg hnil]
    obtain ⟨memory, hcopy, htake⟩ := memcpy_eq state.memory
      (show 0 + p.length ≤ X.stripe by omega)
    rw [hcopy]
    refine ⟨_, rfl, rfl, rfl, hlt, ?_⟩
    rw [Nat.zero_add, List.take_zero, List.nil_append] at htake
    exact congrArg _ htake

/-- Every update follows the stream. -/
theorem follows_update (cpu : XXH_endianess) (input : List UInt8) (h : state.Follows seed data)
    (hlen : (data ++ input).length < 2 ^ 64) :
    ∃ state', state.update_endian cpu cpu input = some state' ∧
      state'.Follows seed (data ++ input) := by
  have hsize := h.room
  rw [List.length_append] at hlen
  -- what is kept is part of the data
  have hkept : state.memsize ≤ data.length := by
    have hdata := h.data
    by_cases hshort : data.length < X.stripe
    · rw [Width.absorbed, stripes_of_lt hshort] at hdata
      have hall : data = state.kept := congrArg Prod.snd hdata
      rw [hall, length_kept hsize.le]
    · omega
  have htotal : (state.total_len + input.length) % 2 ^ 64 = data.length + input.length := by
    rw [h.total]
    exact Nat.mod_eq_of_lt hlen
  have hroom : (state.memsize + input.length) % 2 ^ 64 = state.memsize + input.length :=
    Nat.mod_eq_of_lt (by omega)
  unfold update_endian
  simp only [htotal, hroom]
  by_cases hlt : state.memsize + input.length < X.stripe
  · rw [if_pos hlt]
    obtain ⟨memory, hcopy, hfollows⟩ := follows_short h hlt
    rw [hcopy]
    exact ⟨_, rfl, hfollows⟩
  · rw [if_neg hlt]
    obtain ⟨state₁, p, hcomplete, hseed₁, htotal₁, hzero₁, hstripes⟩ :=
      complete_eq { state with total_len := data.length + input.length } cpu hsize
        (by simpa using hlt)
    rw [hcomplete]
    dsimp only [Option.bind_eq_bind, Option.bind_some]
    rw [whole_stripes_eq]
    dsimp only [Option.bind_some]
    obtain ⟨state₂, hkeep, hseed₂, htotal₂, hsize₂, hrest⟩ :=
      keep_eq { state₁ with v := (stripes X.stripe X.absorb state₁.v p).1 } hzero₁
        (length_stripes_lt X.stripe_pos state₁.v p)
    refine ⟨state₂, hkeep, ?_, ?_, hsize₂, ?_⟩
    · exact hseed₂.trans (hseed₁.trans h.seeded)
    · exact (htotal₂.trans htotal₁).trans List.length_append.symm
    · rw [hrest]
      have hdata := h.data
      unfold Width.absorbed at hdata ⊢
      rw [stripes_append, hdata]
      exact hstripes

theorem follows_updates (cpu : XXH_endianess) (chunks : List (List UInt8)) (h : state.Follows seed data)
    (hlen : (data ++ chunks.flatten).length < 2 ^ 64) :
    ∃ state', state.updates cpu cpu chunks = some state' ∧
      state'.Follows seed (data ++ chunks.flatten) := by
  induction chunks generalizing state data with
  | nil => exact ⟨state, rfl, by simpa using h⟩
  | cons chunk chunks ih =>
    rw [List.flatten_cons, ← List.append_assoc] at hlen ⊢
    obtain ⟨state₁, hupdate, h₁⟩ := follows_update cpu chunk h (by
      rw [List.length_append] at hlen
      omega)
    obtain ⟨state₂, hupdates, h₂⟩ := ih h₁ hlen
    refine ⟨state₂, ?_, h₂⟩
    show ((state.update_endian cpu cpu chunk).bind fun state => state.updates cpu cpu chunks) = _
    rw [hupdate]
    exact hupdates

/-- The digest is the hash of all that the state has seen. -/
theorem digest_of_follows (h : state.Follows seed data) :
    state.digest_endian cpu cpu = X.endian_align cpu cpu data seed := by
  rw [endian_align_eq, h.data]
  unfold digest_endian
  rw [h.total, h.seeded]
  by_cases hle : X.stripe ≤ data.length
  · rw [if_pos hle, if_pos hle]
    rfl
  · rw [if_neg hle, if_neg hle]
    rfl

/-- A stream of chunks has the hash of the whole. -/
theorem digest_updates (state : X.State) (seed : W) (chunks : List (List UInt8))
    (hlen : chunks.flatten.length < 2 ^ 64) :
    ((state.reset seed).updates cpu cpu chunks).bind (fun state => state.digest_endian cpu cpu) =
      X.endian_align cpu cpu chunks.flatten seed := by
  obtain ⟨state', hupdates, h⟩ := follows_updates cpu chunks
    (follows_reset state seed) (by simpa using hlen)
  rw [hupdates]
  exact digest_of_follows h

end State

end Width

theorem XXH32_update_eq (cpu : XXH_endianess) :
    XXH32_update cpu = fun state input => state.update_endian cpu cpu input := by
  funext state input
  rw [XXH32_update, XXH_CPU_LITTLE_ENDIAN_eq]

theorem XXH64_update_eq (cpu : XXH_endianess) :
    XXH64_update cpu = fun state input => state.update_endian cpu cpu input := by
  funext state input
  rw [XXH64_update, XXH_CPU_LITTLE_ENDIAN_eq]

/-! ## Section 6: Processors -/

/-- The same result on all processors. -/
def Portable {α : Type} (f : XXH_endianess → Option α) : Prop := ∃ r, ∀ cpu, f cpu = some r

variable {α β : Type} {f : XXH_endianess → Option α} {p : List UInt8}

theorem Portable.bind {g : XXH_endianess → α → Option β} (hf : Portable f)
    (hg : ∀ r, Portable fun cpu => g cpu r) : Portable fun cpu => (f cpu).bind (g cpu) := by
  obtain ⟨r, hr⟩ := hf
  obtain ⟨r', hr'⟩ := hg r
  refine ⟨r', fun cpu => ?_⟩
  show (f cpu).bind (g cpu) = some r'
  rw [hr cpu]
  exact hr' cpu

theorem portable_some (r : α) : Portable fun _ => some r := ⟨r, fun _ => rfl⟩

theorem portable_readLE32 (h : 4 ≤ p.length) : Portable fun cpu => XXH_readLE32 cpu cpu p :=
  ⟨_, fun cpu => congrArg (Option.map UInt32.ofNat) (XXH_readLE_eq cpu h)⟩

theorem portable_readLE64 (h : 8 ≤ p.length) : Portable fun cpu => XXH_readLE64 cpu cpu p :=
  ⟨_, fun cpu => congrArg (Option.map UInt64.ofNat) (XXH_readLE_eq cpu h)⟩

theorem portable_words32 (h32 : UInt32) (p : List UInt8) :
    Portable fun cpu => words32 cpu cpu h32 p := by
  induction hn : p.length using Nat.strong_induction_on generalizing h32 p with
  | h n ih =>
    subst hn
    by_cases h : 4 ≤ p.length
    · have hturn : (fun cpu => words32 cpu cpu h32 p) = fun cpu =>
          (XXH_readLE32 cpu cpu p).bind fun k =>
            words32 cpu cpu (XXH_rotl32 (h32 + k * PRIME32_3) 17 * PRIME32_4) (p.drop 4) := by
        funext cpu
        rw [words32, if_pos h]
      rw [hturn]
      refine (portable_readLE32 h).bind fun k => ih _ ?_ _ _ rfl
      rw [List.length_drop]
      omega
    · have hend : (fun cpu => words32 cpu cpu h32 p) = fun _ => some (h32, p) := by
        funext cpu
        rw [words32, if_neg h]
      rw [hend]
      exact portable_some _

theorem portable_words64 (h64 : UInt64) (p : List UInt8) :
    Portable fun cpu => words64 cpu cpu h64 p := by
  induction hn : p.length using Nat.strong_induction_on generalizing h64 p with
  | h n ih =>
    subst hn
    by_cases h : 8 ≤ p.length
    · have hturn : (fun cpu => words64 cpu cpu h64 p) = fun cpu =>
          (XXH_readLE64 cpu cpu p).bind fun k1 =>
            words64 cpu cpu (XXH_rotl64 (h64 ^^^ spread64 k1) 27 * PRIME64_1 + PRIME64_4) (p.drop 8) := by
        funext cpu
        rw [words64, if_pos h]
      rw [hturn]
      refine (portable_readLE64 h).bind fun k1 => ih _ ?_ _ _ rfl
      rw [List.length_drop]
      omega
    · have hend : (fun cpu => words64 cpu cpu h64 p) = fun _ => some (h64, p) := by
        funext cpu
        rw [words64, if_neg h]
      rw [hend]
      exact portable_some _

theorem portable_half64 (h64 : UInt64) (p : List UInt8) :
    Portable fun cpu => half64 cpu cpu h64 p := by
  unfold half64
  by_cases h : 4 ≤ p.length
  · simp only [if_pos h]
    exact (portable_readLE32 h).bind fun k => portable_some _
  · simp only [if_neg h]
    exact portable_some _

theorem portable_finish32 (h32 : UInt32) (p : List UInt8) :
    Portable fun cpu => width32.finish cpu cpu h32 p :=
  (portable_words32 h32 p).bind fun _ => portable_some _

theorem portable_finish64 (h64 : UInt64) (p : List UInt8) :
    Portable fun cpu => width64.finish cpu cpu h64 p :=
  (portable_words64 h64 p).bind fun r => (portable_half64 r.1 r.2).bind fun _ => portable_some _

theorem portable_XXH32 (input : List UInt8) (seed : UInt32) :
    Portable fun cpu => XXH32 cpu input seed := by
  unfold XXH32 XXH32_endian_align
  simp only [XXH_CPU_LITTLE_ENDIAN_eq, Width.endian_align_eq]
  exact portable_finish32 _ _

theorem portable_XXH64 (input : List UInt8) (seed : UInt64) :
    Portable fun cpu => XXH64 cpu input seed := by
  unfold XXH64 XXH64_endian_align
  simp only [XXH_CPU_LITTLE_ENDIAN_eq, Width.endian_align_eq]
  exact portable_finish64 _ _

/-- Both hashes read nothing behind the end of any input, and give the same on processors
    with either order of bytes. -/
theorem hashes_portable (input : List UInt8) (seed32 : UInt32) (seed64 : UInt64) :
    (∃ h32, ∀ cpu, XXH32 cpu input seed32 = some h32) ∧
      ∃ h64, ∀ cpu, XXH64 cpu input seed64 = some h64 :=
  ⟨portable_XXH32 input seed32, portable_XXH64 input seed64⟩

/-! ## Section 7: Digests -/

/-- Whatever the chunks and whatever the state was used for before, there is a digest, and it
    is the hash of the chunks one after the other. The copies into the memory of the state
    are checked here: one that leaves it has no digest. -/
theorem stream_digests (cpu : XXH_endianess) (state32 : XXH32_state_t) (state64 : XXH64_state_t)
    (seed32 : UInt32) (seed64 : UInt64) (chunks : List (List UInt8))
    (hlen : chunks.flatten.length < 2 ^ 64) :
    (∃ h32, (chunks.foldlM (XXH32_update cpu) (XXH32_reset state32 seed32)).bind (XXH32_digest cpu) =
        some h32 ∧ XXH32 cpu chunks.flatten seed32 = some h32) ∧
      ∃ h64, (chunks.foldlM (XXH64_update cpu) (XXH64_reset state64 seed64)).bind (XXH64_digest cpu) =
        some h64 ∧ XXH64 cpu chunks.flatten seed64 = some h64 := by
  have h32 : (chunks.foldlM (XXH32_update cpu) (XXH32_reset state32 seed32)).bind (XXH32_digest cpu) =
      XXH32 cpu chunks.flatten seed32 := by
    unfold XXH32 XXH32_digest
    rw [XXH32_update_eq, XXH_CPU_LITTLE_ENDIAN_eq]
    exact Width.State.digest_updates state32 seed32 chunks hlen
  have h64 : (chunks.foldlM (XXH64_update cpu) (XXH64_reset state64 seed64)).bind (XXH64_digest cpu) =
      XXH64 cpu chunks.flatten seed64 := by
    unfold XXH64 XXH64_digest
    rw [XXH64_update_eq, XXH_CPU_LITTLE_ENDIAN_eq]
    exact Width.State.digest_updates state64 seed64 chunks hlen
  obtain ⟨hash32, hhash32⟩ := portable_XXH32 chunks.flatten seed32
  obtain ⟨hash64, hhash64⟩ := portable_XXH64 chunks.flatten seed64
  exact ⟨⟨hash32, h32.trans (hhash32 cpu), hhash32 cpu⟩, ⟨hash64, h64.trans (hhash64 cpu), hhash64 cpu⟩⟩

/-- A stripe in two pieces. -/
theorem stream_digests_two_chunks :
    let chunks : List (List UInt8) := [List.replicate 20 7, List.replicate 15 9]
    let state : XXH64_state_t := ⟨0, 0, ⟨0, 0, 0, 0⟩, 0, ⟨List.replicate 32 0, rfl⟩⟩
    ∃ h64, (chunks.foldlM (XXH64_update .XXH_bigEndian) (XXH64_reset state 2001)).bind
        (XXH64_digest .XXH_bigEndian) = some h64 ∧
      XXH64 .XXH_bigEndian (List.replicate 20 7 ++ List.replicate 15 9) 2001 = some h64 := by
  intro chunks state
  exact (stream_digests .XXH_bigEndian ⟨0, 0, ⟨0, 0, 0, 0⟩, 0, ⟨List.replicate 16 0, rfl⟩⟩ state 0
    2001 chunks (by decide)).2

end XXHash

end PinbaEngine

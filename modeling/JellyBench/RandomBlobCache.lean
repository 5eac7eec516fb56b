import JellyBench.Config
import Mathlib.Data.Nat.ModEq
/-!
# The cache of random blobs

The generator is the stream of outputs it has still to give. How a
`uniform_int_distribution` turns outputs into a number is up to the standard
library: `UniformInt` says only that every number between its bounds can come
out, and no other.
-/
namespace JellyBench

/-- `std::mt19937`, as the outputs to come. -/
abbrev Random := Nat → UInt32

namespace Random

def next (random : Random) : UInt32 × Random := (random 0, fun n => random (n + 1))

def cons (x : UInt32) (random : Random) : Random
  | 0 => x
  | n + 1 => random n

@[simp] theorem next_cons (x : UInt32) (random : Random) : (cons x random).next = (x, random) := rfl

end Random

/-- `std::uniform_int_distribution<size_t>(a, b)`, for `a ≤ b`. A draw returns on every
stream; one that draws again until it has a number may not. -/
structure UniformInt where
  draw : UInt64 → UInt64 → Random → UInt64 × Random
  within : ∀ a b random, a ≤ b → a ≤ (draw a b random).1 ∧ (draw a b random).1 ≤ b
  onto : ∀ a b v random, a ≤ v → v ≤ b → ∃ random', draw a b random' = (v, random)

/-- Two outputs, reduced to the range. -/
def UniformInt.reduce : UniformInt where
  draw a b random :=
    let (low, random) := random.next
    let (high, random) := random.next
    (.ofNat (a.toNat + (low.toNat + 2 ^ 32 * high.toNat) % (b.toNat - a.toNat + 1)), random)
  within a b random h := by
    rw [UInt64.le_iff_toNat_le] at h ⊢
    rw [UInt64.le_iff_toNat_le]
    have hb := b.toNat_lt
    have hmod := Nat.mod_lt ((random 0).toNat + 2 ^ 32 * (random 1).toNat) (Nat.succ_pos (b.toNat - a.toNat))
    simp only [Random.next, UInt64.toNat_ofNat', Nat.succ_eq_add_one, Nat.zero_add] at hmod ⊢
    rw [Nat.mod_eq_of_lt (by omega)]
    omega
  onto a b v random ha hv := by
    rw [UInt64.le_iff_toNat_le] at ha hv
    have hv64 := v.toNat_lt
    refine ⟨.cons (.ofNat (v.toNat - a.toNat)) (.cons (.ofNat ((v.toNat - a.toNat) / 2 ^ 32)) random), ?_⟩
    simp only [Random.next_cons, Prod.mk.injEq, and_true]
    apply UInt64.toNat_inj.1
    simp only [UInt64.toNat_ofNat', UInt32.toNat_ofNat']
    have hsplit : (v.toNat - a.toNat) % 2 ^ 32 + 2 ^ 32 * ((v.toNat - a.toNat) / 2 ^ 32 % 2 ^ 32) =
        v.toNat - a.toNat := by omega
    have hle : v.toNat - a.toNat < b.toNat - a.toNat + 1 := by omega
    rw [hsplit, Nat.mod_eq_of_lt hle, Nat.add_sub_cancel' ha, Nat.mod_eq_of_lt hv64]

/-- `m_blobs`, a vector with room for `(2^63 - 1) / 8` pointers. -/
structure RandomBlobCache where
  blobs : List Bytes
  size_lt : blobs.length < 2 ^ 60

namespace RandomBlobCache

/-- `m_blobs.push_back` -/
def pushBack (cache : RandomBlobCache) (blob : Bytes) : Except Stop RandomBlobCache :=
  if h : cache.blobs.length + 1 < 2 ^ 60 then .ok ⟨cache.blobs ++ [blob], by simpa using h⟩
  else .error (.exception "std::length_error")

/-- The inner loop of the constructor: `n` bytes. -/
def fill : Nat → Random → Bytes × Random
  | 0, random => ([], random)
  | n + 1, random =>
    let (x, random) := random.next
    let (bytes, random) := fill n random
    (.ofNat (x.toNat % 64) :: bytes, random)

section
variable (size : UniformInt) (config : Config)

/-- One blob. A vector of bytes cannot reserve 2^63 of them. -/
def makeBlob (random : Random) : Except Stop (Bytes × Random) :=
  let (blobSize, random) := size.draw config.minBlobSize config.maxBlobSize random
  if blobSize.toNat < 2 ^ 63 then .ok (fill blobSize.toNat random)
  else .error (.exception "std::length_error")

/-- The outer loop of the constructor, with `n` turns to go. -/
def build : Nat → RandomBlobCache → Random → Except Stop (RandomBlobCache × Random)
  | 0, cache, random => .ok (cache, random)
  | n + 1, cache, random => do
    let (blob, random) ← makeBlob size config random
    let cache ← cache.pushBack blob
    build n cache random

def init (random : Random) : Except Stop (RandomBlobCache × Random) :=
  if config.minBlobSize ≤ config.maxBlobSize then
    build size config config.randomBlobCacheSize.toNat ⟨[], Nat.two_pow_pos 60⟩ random
  else .error (.undefined .distributionBounds)

end

/-- `JELLY_ASSERT(m_blobs.size() > 0)` is not checked in a release build. -/
def getRandomBlob (distribution : UniformInt) (cache : RandomBlobCache) (random : Random) :
    Except Stop (Bytes × Random) :=
  if cache.blobs.length = 0 then .error (.undefined .noBlobs)
  else
    let (i, random) := distribution.draw 0 (.ofNat (cache.blobs.length - 1)) random
    match cache.blobs[i.toNat]? with
    | some blob => .ok (blob, random)
    | none => .error (.undefined .badIndex)

/-! ## What the constructor leaves -/

theorem fill_length (n : Nat) (random : Random) : (fill n random).1.length = n := by
  induction n generalizing random with
  | zero => rfl
  | succ n ih => exact congrArg (· + 1) (ih _)

/-- The blob's size is one the distribution can draw. -/
theorem makeBlob_ok {size : UniformInt} {config : Config} (h : config.minBlobSize ≤ config.maxBlobSize)
    {random random' : Random} {blob : Bytes} (hb : makeBlob size config random = .ok (blob, random')) :
    config.minBlobSize.toNat ≤ blob.length ∧ blob.length ≤ config.maxBlobSize.toNat ∧ blob.length < 2 ^ 63 := by
  obtain ⟨hmin, hmax⟩ := size.within _ _ random h
  unfold makeBlob at hb
  simp only at hb
  split_ifs at hb with hlt
  have hlen := fill_length (size.draw config.minBlobSize config.maxBlobSize random).1.toNat
    (size.draw config.minBlobSize config.maxBlobSize random).2
  rw [Except.ok.inj hb] at hlen
  rw [hlen]
  exact ⟨UInt64.le_iff_toNat_le.1 hmin, UInt64.le_iff_toNat_le.1 hmax, hlt⟩

theorem makeBlob_error {size : UniformInt} {config : Config} {random : Random} {stop : Stop}
    (h : makeBlob size config random = .error stop) : stop = .exception "std::length_error" := by
  unfold makeBlob at h
  simp only at h
  split_ifs at h
  exact (Except.error.inj h).symm

/-- A blob of the smallest size can come out, with any outputs after it. -/
theorem makeBlob_min (size : UniformInt) {config : Config} (h : config.minBlobSize ≤ config.maxBlobSize)
    (hlt : config.minBlobSize.toNat < 2 ^ 63) (rest : Random) :
    ∃ random blob, makeBlob size config random = .ok (blob, rest) ∧ blob.length = config.minBlobSize.toNat := by
  have hfill : ∀ n, ∃ random, (fill n random).2 = rest := by
    intro n
    induction n with
    | zero => exact ⟨rest, rfl⟩
    | succ n ih =>
      obtain ⟨random, hr⟩ := ih
      exact ⟨.cons 0 random, hr⟩
  obtain ⟨random, hr⟩ := hfill config.minBlobSize.toNat
  obtain ⟨random', hd⟩ := size.onto config.minBlobSize config.maxBlobSize config.minBlobSize random (UInt64.le_refl _) h
  refine ⟨random', (fill config.minBlobSize.toNat random).1, ?_, fill_length _ _⟩
  unfold makeBlob
  rw [hd]
  simp only [if_pos hlt, ← hr]

theorem pushBack_ok {cache cache' : RandomBlobCache} {blob : Bytes} (h : cache.pushBack blob = .ok cache') :
    cache'.blobs = cache.blobs ++ [blob] := by
  unfold pushBack at h
  split_ifs at h
  rw [← Except.ok.inj h]

theorem pushBack_error {cache : RandomBlobCache} {blob : Bytes} {stop : Stop}
    (h : cache.pushBack blob = .error stop) : stop = .exception "std::length_error" := by
  unfold pushBack at h
  split_ifs at h
  exact (Except.error.inj h).symm

/-- One turn of the outer loop. -/
theorem build_succ {size : UniformInt} {config : Config} {n : Nat} {cache : RandomBlobCache} {random : Random} :
    build size config (n + 1) cache random =
      match makeBlob size config random with
      | .error stop => .error stop
      | .ok (blob, random) =>
        match cache.pushBack blob with
        | .error stop => .error stop
        | .ok cache => build size config n cache random := by
  rw [build]
  cases hb : makeBlob size config random with
  | error stop => rfl
  | ok r =>
    cases hp : cache.pushBack r.1 with
    | error stop => simp only [Bind.bind, Except.bind, hp]
    | ok cache' => simp only [Bind.bind, Except.bind, hp]

/-- The blobs added have sizes between the bounds. -/
theorem build_ok {size : UniformInt} {config : Config} (h : config.minBlobSize ≤ config.maxBlobSize) {n : Nat}
    {cache cache' : RandomBlobCache} {random random' : Random}
    (hb : build size config n cache random = .ok (cache', random')) :
    ∃ blobs, cache'.blobs = cache.blobs ++ blobs ∧ blobs.length = n ∧ ∀ blob ∈ blobs,
      config.minBlobSize.toNat ≤ blob.length ∧ blob.length ≤ config.maxBlobSize.toNat ∧ blob.length < 2 ^ 63 := by
  induction n generalizing cache random with
  | zero =>
    cases hb
    exact ⟨[], by simp, rfl, by simp⟩
  | succ n ih =>
    rw [build_succ] at hb
    cases hm : makeBlob size config random with
    | error stop => rw [hm] at hb; cases hb
    | ok r =>
      obtain ⟨blob, random₁⟩ := r
      cases hp : cache.pushBack blob with
      | error stop => simp only [hm, hp] at hb; cases hb
      | ok cache₁ =>
        simp only [hm, hp] at hb
        obtain ⟨blobs, hblobs, hlen, hall⟩ := ih hb
        refine ⟨blob :: blobs, ?_, by rw [List.length_cons, hlen], ?_⟩
        · rw [hblobs, pushBack_ok hp, List.append_assoc, List.singleton_append]
        · intro b hmem
          rcases List.mem_cons.1 hmem with rfl | hmem
          · exact makeBlob_ok h hm
          · exact hall b hmem

theorem build_error {size : UniformInt} {config : Config} {n : Nat} {cache : RandomBlobCache} {random : Random}
    {stop : Stop} (h : build size config n cache random = .error stop) : stop = .exception "std::length_error" := by
  induction n generalizing cache random with
  | zero => cases h
  | succ n ih =>
    rw [build_succ] at h
    cases hm : makeBlob size config random with
    | error stop' =>
      rw [hm] at h
      rw [← Except.error.inj h]
      exact makeBlob_error hm
    | ok r =>
      cases hp : cache.pushBack r.1 with
      | error stop' =>
        simp only [hm, hp] at h
        rw [← Except.error.inj h]
        exact pushBack_error hp
      | ok cache₁ =>
        simp only [hm, hp] at h
        exact ih h

/-- The loop can end with smallest blobs only, and any outputs after it. -/
theorem build_min (size : UniformInt) {config : Config} (h : config.minBlobSize ≤ config.maxBlobSize) {n : Nat}
    (hlt : 0 < n → config.minBlobSize.toNat < 2 ^ 63) (rest : Random) :
    ∃ random, ∀ cache : RandomBlobCache, cache.blobs.length + n < 2 ^ 60 →
      ∃ cache' blobs, build size config n cache random = .ok (cache', rest) ∧
        cache'.blobs = cache.blobs ++ blobs ∧ blobs.length = n ∧
        ∀ blob ∈ blobs, blob.length = config.minBlobSize.toNat := by
  induction n with
  | zero => exact ⟨rest, fun cache _ => ⟨cache, [], rfl, by simp, rfl, by simp⟩⟩
  | succ n ih =>
    -- Blob `n` uses up the outputs in front of those of the rest.
    have hmin := hlt (Nat.succ_pos n)
    obtain ⟨random₁, hrest⟩ := ih fun _ => hmin
    obtain ⟨random, blob, hm, hlen⟩ := makeBlob_min size h hmin random₁
    refine ⟨random, fun cache hn => ?_⟩
    have hp : cache.pushBack blob = .ok ⟨cache.blobs ++ [blob], by rw [List.length_append]; simp; omega⟩ :=
      dif_pos (by omega)
    obtain ⟨cache', blobs, hb, hblobs, hl, hall⟩ := hrest ⟨cache.blobs ++ [blob], by simp; omega⟩ (by simp; omega)
    refine ⟨cache', blob :: blobs, ?_, ?_, by rw [List.length_cons, hl], ?_⟩
    · rw [build_succ, hm]
      simp only [hp]
      exact hb
    · rw [hblobs, List.append_assoc, List.singleton_append]
    · intro b hmem
      rcases List.mem_cons.1 hmem with rfl | hmem
      · exact hlen
      · exact hall b hmem

theorem getRandomBlob_ok (distribution : UniformInt) {cache : RandomBlobCache} (h : cache.blobs ≠ [])
    (random : Random) : ∃ blob ∈ cache.blobs, ∃ random', cache.getRandomBlob distribution random = .ok (blob, random') := by
  have hlen : cache.blobs.length ≠ 0 := fun h0 => h (List.eq_nil_of_length_eq_zero h0)
  have hsize := cache.size_lt
  obtain ⟨-, hi⟩ := distribution.within 0 (.ofNat (cache.blobs.length - 1)) random (UInt64.le_iff_toNat_le.2 (Nat.zero_le _))
  rw [UInt64.le_iff_toNat_le, UInt64.toNat_ofNat', Nat.mod_eq_of_lt (by omega)] at hi
  unfold getRandomBlob
  rw [if_neg hlen]
  generalize distribution.draw 0 (.ofNat (cache.blobs.length - 1)) random = r at hi
  have hget : cache.blobs[r.1.toNat]? = some cache.blobs[r.1.toNat] := List.getElem?_eq_getElem (by omega)
  simp only [hget]
  exact ⟨_, List.getElem_mem _, _, rfl⟩

end RandomBlobCache

end JellyBench

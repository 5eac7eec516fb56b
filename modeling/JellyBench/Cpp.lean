import Mathlib.Algebra.Group.Nat.Defs
import Mathlib.Algebra.Ring.Int.Defs
import Mathlib.Tactic.Common
/-!
# What the sources take from C++

How a function can fail to return, the conversions between its integer types
that the sources rely on, and `atoi`. A 64-bit little-endian machine, like the
one in the README.
-/
namespace JellyBench

abbrev Bytes := List UInt8

/-! ## Not returning -/

/-- Operations to which the language or a library gives no meaning. -/
inductive Undefined where
  /-- A `uniform_int_distribution` with its lower bound above its upper one. -/
  | distributionBounds
  /-- `GetRandomBlob` on no blobs: `m_blobs.size() - 1` wraps. -/
  | noBlobs
  /-- `random() % m_blobKeyCount` with a zero divisor. -/
  | zeroDivisor
  /-- `&randomBlob[0]` of an empty vector. -/
  | emptyFront
  /-- `sqlite3_bind_blob` with a negative length. -/
  | negativeLength
  /-- An index at or past the size of a vector. -/
  | badIndex
  /-- A null or dangling pointer is dereferenced. -/
  | badPointer
  /-- `fscanf` reads a number its variable cannot hold. -/
  | badNumber
  deriving DecidableEq, Repr

/-- Why control did not come back to the caller. -/
inductive Stop where
  /-- A `JELLY_ALWAYS_ASSERT`, or a `JELLY_ASSERT` where these are checked, failed and
  ended the process. -/
  | assertion (message : String)
  /-- An exception nobody catches. -/
  | exception (what : String)
  | undefined (u : Undefined)
  /-- The process was stopped from outside. -/
  | killed
  /-- A loop still runs after the iterations it was given. -/
  | running
  deriving DecidableEq, Repr

/-- `JELLY_ALWAYS_ASSERT` -/
def alwaysAssert (condition : Bool) (message : String) : Except Stop Unit :=
  if condition then .ok () else .error (.assertion message)

@[simp] theorem alwaysAssert_true (message : String) : alwaysAssert true message = .ok () := rfl

@[simp] theorem alwaysAssert_false (message : String) :
    alwaysAssert false message = .error (.assertion message) := rfl

/-! ## Integers -/

/-- `(int)size`, for a size of `n`: the value modulo 2^32 from -2^31 on. -/
def intOfSize (n : Nat) : Int := (n + 2 ^ 31) % 2 ^ 32 - 2 ^ 31

theorem intOfSize_small {n : Nat} (h : n < 2 ^ 31) : intOfSize n = n := by
  unfold intOfSize; omega

theorem intOfSize_le (n : Nat) : intOfSize n ≤ n := by
  unfold intOfSize; omega

/-- Only a size below 2^31 survives the cast. -/
theorem lt_of_intOfSize {n : Nat} (h : intOfSize n = n) : n < 2 ^ 31 := by
  unfold intOfSize at h; omega

/-- `(size_t)value` -/
def sizeOfInt (value : Int32) : UInt64 := UInt64.ofInt value.toInt

/-- The four bytes of a `uint32_t` in memory. -/
def bytesOfUInt32 (x : UInt32) : Bytes :=
  [.ofNat x.toNat, .ofNat (x.toNat / 2 ^ 8), .ofNat (x.toNat / 2 ^ 16), .ofNat (x.toNat / 2 ^ 24)]

/-- `*(const uint32_t*)p` for a `p` to exactly four bytes. -/
def uint32OfBytes : Bytes → Option UInt32
  | [a, b, c, d] => some (.ofNat (a.toNat + 2 ^ 8 * b.toNat + 2 ^ 16 * c.toNat + 2 ^ 24 * d.toNat))
  | _ => none

@[simp] theorem uint32OfBytes_bytes (x : UInt32) : uint32OfBytes (bytesOfUInt32 x) = some x := by
  simp only [uint32OfBytes, bytesOfUInt32, Option.some.injEq]
  apply UInt32.toNat_inj.1
  have := x.toNat_lt
  simp only [UInt32.toNat_ofNat', UInt8.toNat_ofNat']
  omega

theorem bytes_of_uint32OfBytes {bs : Bytes} {x : UInt32} (h : uint32OfBytes bs = some x) :
    bs = bytesOfUInt32 x := by
  match bs, h with
  | [a, b, c, d], h =>
    simp only [uint32OfBytes, Option.some.injEq] at h
    subst h
    have := a.toNat_lt
    have := b.toNat_lt
    have := c.toNat_lt
    have := d.toNat_lt
    simp only [bytesOfUInt32, List.cons.injEq, and_true, ← UInt8.toNat_inj, UInt8.toNat_ofNat',
      UInt32.toNat_ofNat']
    omega

@[simp] theorem bytesOfUInt32_inj {x y : UInt32} : bytesOfUInt32 x = bytesOfUInt32 y ↔ x = y :=
  ⟨fun h => by simpa using congrArg uint32OfBytes h, fun h => h ▸ rfl⟩

/-! ## Strings -/

/-- `s[0]`, the terminating NUL for an empty string. -/
def firstChar (s : String) : Char := s.toList.headD '\x00'

/-- `s + 1` -/
def afterFirst (s : String) : String := String.ofList (s.toList.drop 1)

/-- `isspace` -/
def isSpace (c : Char) : Bool := c = ' ' || ('\t' ≤ c && c ≤ '\r')

theorem isSpace_digit {c : Char} (h : c.isDigit = true) : isSpace c = false := by
  have hzero : '0' ≤ c := by simpa [Char.isDigit, Char.le_def] using (And.left (by simpa [Char.isDigit] using h))
  refine Bool.eq_false_iff.2 fun hs => ?_
  simp only [isSpace, Bool.or_eq_true, decide_eq_true_eq, Bool.and_eq_true] at hs
  rcases hs with rfl | ⟨-, hle⟩
  · contradiction
  · have hcontra := Char.le_trans hzero hle
    contradiction

/-- The number a run of digits starts with. -/
def digits (n : Nat) : List Char → Nat
  | c :: cs => if '0' ≤ c && c ≤ '9' then digits (10 * n + (c.toNat - '0'.toNat)) cs else n
  | [] => n

/-- `atoi`: white space, a sign and digits; 0 without digits. C leaves numbers
that do not fit an `int` open, they wrap here. -/
def atoi (s : String) : Int32 :=
  match s.toList.dropWhile isSpace with
  | '-' :: cs => .ofInt (-(digits 0 cs))
  | '+' :: cs => .ofInt (digits 0 cs)
  | cs => .ofInt (digits 0 cs)

example : (atoi "  -12x", atoi "+7", atoi "no", atoi "") = (-12, 7, 0, 0) := by decide

end JellyBench

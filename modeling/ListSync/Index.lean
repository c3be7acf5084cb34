/-!
# Index arithmetic

Absolute list indices are signed and counts unsigned 64-bit numbers. Both are kept as plain
integers here, so that laws about them are laws of arithmetic. The range is a predicate,
`Index.InRange`, and every place where a result is bent back into the range names the rule it
follows:

* `Index.clamp`, and with it `Index.add` and `Index.sub`, stop at the ends of the range;
* `Index.ofCount` stops at the greatest index;
* `Index.wrapCount` and `Index.toCount` read the same 64 bits with the other sign convention.

Where none of these rules is followed, arithmetic is plain: it is right only as long as it stays
within the range. `Index.plain` and `Index.plainCount` check that, and stop a computation that does
not.
-/

namespace ListSync

/-- The greatest count. -/
def maxCount : Nat := 0xffffffffffffffff

namespace Index

/-- The least index. -/
def least : Int := -0x8000000000000000

/-- The greatest index. -/
def greatest : Int := 0x7fffffffffffffff

/-- A number is an index when it fits 64 bits with sign. -/
def InRange (i : Int) : Prop := least ≤ i ∧ i ≤ greatest

instance (i : Int) : Decidable (InRange i) := inferInstanceAs (Decidable (_ ∧ _))

/-- The index closest to a number. -/
def clamp (i : Int) : Int := max least (min greatest i)

/-- Move an index, stopping at the ends of the range. -/
def add (i d : Int) : Int := clamp (i + d)

/-- Move an index back, stopping at the ends of the range. -/
def sub (i d : Int) : Int := clamp (i - d)

/-- The index closest to a count. -/
def ofCount (n : Nat) : Int := min greatest n

/-- The index with the same 64 bits as a count. -/
def wrapCount (n : Nat) : Int := Int.bmod n 0x10000000000000000

/-- The count with the same 64 bits as an index. -/
def toCount (i : Int) : Nat := (i % 0x10000000000000000).toNat

/-! ## Within the range nothing is bent -/

/-- An index is closest to itself. -/
theorem clamp_eq_self {i : Int} (h : InRange i) : clamp i = i := by
  simp only [InRange, clamp] at *; omega

/-- What is closest to a number is an index. -/
theorem inRange_clamp (i : Int) : InRange (clamp i) := by
  simp only [InRange, clamp, least, greatest]; omega

/-- A sum that is an index is not bent. -/
theorem add_eq_add {i d : Int} (h : InRange (i + d)) : add i d = i + d := clamp_eq_self h

/-- A difference that is an index is not bent. -/
theorem sub_eq_sub {i d : Int} (h : InRange (i - d)) : sub i d = i - d := clamp_eq_self h

/-- A bent sum is an index. -/
theorem inRange_add (i d : Int) : InRange (add i d) := inRange_clamp _

/-- A bent difference is an index. -/
theorem inRange_sub (i d : Int) : InRange (sub i d) := inRange_clamp _

/-- A count up to the greatest index is not bent. -/
theorem ofCount_eq_self {n : Nat} (h : (n : Int) ≤ greatest) : ofCount n = n := by
  simp only [ofCount]; omega

/-- A count up to the greatest index does not wrap. -/
theorem wrapCount_eq_self {n : Nat} (h : (n : Int) ≤ greatest) : wrapCount n = n := by
  have bound : (n : Int) ≤ 9223372036854775807 := h
  unfold wrapCount
  rw [Int.bmod_eq_of_le]
  all_goals omega

/-- An index from zero on is the count of the same value. -/
theorem toCount_eq_toNat {i : Int} (h0 : 0 ≤ i) (h : i ≤ greatest) : toCount i = i.toNat := by
  have bound : i ≤ 9223372036854775807 := h
  simp only [toCount]
  rw [Int.emod_eq_of_lt h0 (by omega)]

/-! ## Plain arithmetic -/

/-- A result of plain arithmetic that does not fit 64 bits. -/
structure Overflow where
  value : Int
deriving DecidableEq, Repr

/-- A result of plain arithmetic on indices. -/
def plain (i : Int) : Except Overflow Int := if InRange i then .ok i else .error ⟨i⟩

/-- A result of plain arithmetic on counts. -/
def plainCount (n : Nat) : Except Overflow Nat := if n ≤ maxCount then .ok n else .error ⟨n⟩

section

variable {β : Type}

/-- Plain arithmetic goes on with a result that is an index. -/
theorem plain_bind {i : Int} (h : InRange i) (f : Int → Except Overflow β) :
    plain i >>= f = f i := by
  rw [plain, if_pos h]
  rfl

/-- Plain arithmetic stops at a result that is no index. -/
theorem plain_bind_of_not {i : Int} (h : ¬InRange i) (f : Int → Except Overflow β) :
    plain i >>= f = .error ⟨i⟩ := by
  rw [plain, if_neg h]
  rfl

/-- Plain arithmetic gives a value if its first result is an index and the rest gives that value. -/
theorem plain_bind_eq_ok_iff {i : Int} {f : Int → Except Overflow β} {b : β} :
    plain i >>= f = .ok b ↔ InRange i ∧ f i = .ok b := by
  by_cases h : InRange i
  · rw [plain_bind h]
    exact (and_iff_right h).symm
  · rw [plain_bind_of_not h]
    exact ⟨nofun, fun given => absurd given.1 h⟩

/-- Plain arithmetic goes on with a result that is a count. -/
theorem plainCount_bind {n : Nat} (h : n ≤ maxCount) (f : Nat → Except Overflow β) :
    plainCount n >>= f = f n := by
  rw [plainCount, if_pos h]
  rfl

end

end Index

end ListSync

import Mathlib

/-!
# Numbers and texts on the wire

The big-endian bytes of a number in a given width, and the bytes of an ASCII text.  Numbers that fit
the width are read back, so strings that are put together from parts of fixed widths determine the
parts.
-/

namespace Wire

abbrev Bytes := List UInt8

def bigEndian : ℕ → ℕ → Bytes
  | 0, _ => []
  | width + 1, n => bigEndian width (n / 256) ++ [UInt8.ofNat n]

def ofBigEndian (bytes : Bytes) : ℕ := bytes.foldl (fun n byte => n * 256 + byte.toNat) 0

@[simp] theorem length_bigEndian (width n : ℕ) : (bigEndian width n).length = width := by
  induction width generalizing n with
  | zero => rfl
  | succ _ ih => rw [bigEndian, List.length_append, ih, List.length_singleton]

theorem ofBigEndian_bigEndian {width n : ℕ} (fits : n < 256 ^ width) :
    ofBigEndian (bigEndian width n) = n := by
  induction width generalizing n with
  | zero =>
    rw [pow_zero, Nat.lt_one_iff] at fits
    rw [fits]
    rfl
  | succ _ ih =>
    have upper := ih (n := n / 256) (Nat.div_lt_of_lt_mul (by rwa [pow_succ'] at fits))
    unfold ofBigEndian at upper ⊢
    rw [bigEndian, List.foldl_append, List.foldl_cons, List.foldl_nil, UInt8.toNat_ofNat']
    omega

theorem bigEndian_injective {width n m : ℕ} (fits : n < 256 ^ width) (fits' : m < 256 ^ width)
    (same : bigEndian width n = bigEndian width m) : n = m := by
  have read := congrArg ofBigEndian same
  rwa [ofBigEndian_bigEndian fits, ofBigEndian_bigEndian fits'] at read

theorem append_lt_append {a b : Bytes} (length : a.length = b.length) (lt : a < b) {x y : Bytes} :
    a ++ x < b ++ y := by
  induction lt with
  | nil => simp at length
  | rel lt => exact .rel lt
  | cons _ ih => exact .cons (ih (by simpa using length))

/-- Big-endian bytes are ordered as the numbers are. -/
theorem bigEndian_lt {width n m : ℕ} (lt : n < m) (fits : m < 256 ^ width) :
    bigEndian width n < bigEndian width m := by
  induction width generalizing n m with
  | zero =>
    omega
  | succ width ih =>
    rw [bigEndian]
    rcases (Nat.div_le_div_right lt.le : n / 256 ≤ m / 256).lt_or_eq with upper | same
    · exact append_lt_append (by simp)
        (ih upper (Nat.div_lt_of_lt_mul (by rwa [pow_succ'] at fits)))
    · rw [same]
      apply List.Lex.append_left
      apply List.Lex.rel
      rw [UInt8.lt_iff_toNat_lt, UInt8.toNat_ofNat', UInt8.toNat_ofNat']
      omega

/-- `u32::to_be_bytes`. -/
def be32 (n : UInt32) : Bytes := bigEndian 4 n.toNat

def be64 (n : UInt64) : Bytes := bigEndian 8 n.toNat

def be128 (n : ℤ) : Bytes := bigEndian 16 (n % 2 ^ 128).toNat

/-- `u32::from_be_bytes`. -/
def ofBe32 (bytes : Bytes) : UInt32 := UInt32.ofNat (ofBigEndian bytes)

/-- The `u32` at an offset, where missing bytes count as zero. -/
def be32At (bytes : Bytes) (offset : ℕ) : UInt32 :=
  ofBe32 ((List.range 4).map fun i => bytes.getD (i + offset) 0)

@[simp] theorem length_be32 (n : UInt32) : (be32 n).length = 4 := length_bigEndian 4 _

@[simp] theorem length_be64 (n : UInt64) : (be64 n).length = 8 := length_bigEndian 8 _

theorem be32_injective : Function.Injective be32 := fun n m same =>
  UInt32.toNat_inj.1 (bigEndian_injective n.toNat_lt m.toNat_lt same)

theorem be64_injective : Function.Injective be64 := fun n m same =>
  UInt64.toNat_inj.1 (bigEndian_injective n.toNat_lt m.toNat_lt same)

def ascii (text : String) : Bytes := text.toList.map fun c => UInt8.ofNat c.toNat

theorem be32_append_inj {n m : UInt32} {x y : Bytes} (same : be32 n ++ x = be32 m ++ y) :
    n = m ∧ x = y := by
  obtain ⟨front, back⟩ := List.append_inj same (by simp)
  exact ⟨be32_injective front, back⟩

theorem be64_append_inj {n m : UInt64} {x y : Bytes} (same : be64 n ++ x = be64 m ++ y) :
    n = m ∧ x = y := by
  obtain ⟨front, back⟩ := List.append_inj same (by simp)
  exact ⟨be64_injective front, back⟩

end Wire

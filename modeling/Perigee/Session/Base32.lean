import Perigee.Data.BitString
import Perigee.Data.Wire

/-!
# The base-32 text of a secret

Both directions pass the bits through a register of 32 bits.  The encoder never clears it, so that
old bits are shifted out at the top; the decoder masks it.  Each keeps the sequence of bits, up to
fewer than five at the end, and from that the round trip follows (`base32_round_trip`).
-/

namespace Session

open Wire BitString

/-! ## The code -/

/-- The letters `A` to `Z` and the digits `2` to `7`. -/
def alphabet : Bytes := (List.range 26).map (fun i => UInt8.ofNat (65 + i)) ++
  (List.range 6).map fun i => UInt8.ofNat (50 + i)

def padding : UInt8 := 61

def toAsciiUppercase (c : UInt8) : UInt8 := if 97 ≤ c ∧ c ≤ 122 then c - 32 else c

def toAsciiLowercase (c : UInt8) : UInt8 := if 65 ≤ c ∧ c ≤ 90 then c + 32 else c

/-- The register of the loops, with what has been put out. -/
structure Register where
  out : Bytes := []
  buffer : BitVec 32 := 0
  bits : ℕ := 0

theorem digit_lt (x : BitVec 32) : (x &&& 31).toNat < alphabet.length :=
  Nat.lt_succ_of_le Nat.and_le_right

def digit (x : BitVec 32) : UInt8 := alphabet.get ⟨(x &&& 31).toNat, digit_lt x⟩

/-- The `while` loop of the encoder. -/
def drain (buffer : BitVec 32) : ℕ → Bytes → Register
  | bits + 5, out => drain buffer bits (out ++ [digit (buffer >>> bits)])
  | bits, out => ⟨out, buffer, bits⟩

def encodeByte (s : Register) (b : UInt8) : Register :=
  drain (s.buffer <<< 8 ||| b.toBitVec.setWidth 32) (s.bits + 8) s.out

def base32Encode (data : Bytes) : Bytes :=
  let s := data.foldl encodeByte {}
  if 0 < s.bits then s.out ++ [digit (s.buffer <<< (5 - s.bits))] else s.out

def decodeByte (s : Register) (c : UInt8) : Option Register := do
  let v ← alphabet.findIdx? (· = toAsciiUppercase c)
  let buffer := s.buffer <<< 5 ||| BitVec.ofNat 32 v
  let bits := s.bits + 5
  if 8 ≤ bits then
    pure ⟨s.out ++ [⟨(buffer >>> (bits - 8)).setWidth 8⟩],
      buffer &&& ((1#32 <<< (bits - 8)) - 1), bits - 8⟩
  else
    pure ⟨s.out, buffer, bits⟩

def base32Decode (s : Bytes) : Option Bytes := do
  let s ← (s.rdropWhile (· = padding)).foldlM decodeByte {}
  pure s.out

/-! ## The bits -/

def byteBits (b : UInt8) : List Bool := lowBits 8 b.toBitVec

/-- The bits that a character stands for in either case. -/
def digitBits (c : UInt8) : List Bool :=
  lowBits 5 (BitVec.ofNat 32 (alphabet.findIdx (· = toAsciiUppercase c)))

theorem byteBits_length (b : UInt8) : (byteBits b).length = 8 := length_lowBits 8 b.toBitVec

theorem digitBits_length (c : UInt8) : (digitBits c).length = 5 := length_lowBits 5 _

theorem byteBits_injective : Function.Injective byteBits := fun _ _ same =>
  UInt8.toBitVec_inj.1 (BitVec.eq_of_getLsbD_eq (lowBits_eq_iff.1 same))

theorem digitBits_digit (x : BitVec 32) : digitBits (digit x) = lowBits 5 x := by
  have found : ∀ i : Fin alphabet.length,
      alphabet.findIdx (· = toAsciiUppercase (alphabet.get i)) = i := by decide
  rw [digitBits, digit, found, lowBits_eq_iff]
  intro i below
  have mask : ∀ i < 5, (31#32).getLsbD i = true := by decide
  simp [mask i below]

/-- The characters put out so far and the low bits of the register are the bits of what was read. -/
structure Carries (data : List Bool) (s : Register) : Prop where
  few : s.bits < 5
  text : s.out.flatMap digitBits ++ lowBits s.bits s.buffer = data
  letters : ∀ c ∈ s.out, c ∈ alphabet

theorem drain_carries {buffer : BitVec 32} {n : ℕ} {out : Bytes} {data : List Bool}
    (text : out.flatMap digitBits ++ lowBits n buffer = data) (letters : ∀ c ∈ out, c ∈ alphabet) :
    Carries data (drain buffer n out) := by
  fun_induction drain buffer n out with
  | case1 n out ih =>
    have split : lowBits (n + 5) buffer = lowBits 5 (buffer >>> n) ++ lowBits n buffer := by
      rw [Nat.add_comm, lowBits_add]
    refine ih ?_ ?_
    · rw [List.flatMap_append, List.flatMap_singleton, digitBits_digit, List.append_assoc]
      exact text
    · exact List.forall_mem_append.2 ⟨letters, List.forall_mem_singleton.2 (List.get_mem ..)⟩
  | case2 n out small =>
    refine ⟨?_, text, letters⟩
    by_contra large
    exact small (n - 5) (by simp only at large; omega)

theorem Carries.encodeByte {data : List Bool} {s : Register} (carries : Carries data s)
    (b : UInt8) : Carries (data ++ byteBits b) (encodeByte s b) := by
  have small : (b.toBitVec.setWidth 32).toNat < 2 ^ 8 := by
    rw [BitVec.toNat_setWidth]
    exact (Nat.mod_le ..).trans_lt b.toBitVec.isLt
  have room := carries.few
  have same : lowBits 8 (b.toBitVec.setWidth 32) = byteBits b :=
    lowBits_eq_iff.2 fun i _ => by simp [show i < 32 by omega]
  refine drain_carries ?_ carries.letters
  rw [lowBits_shiftLeft_or (by omega) small, ← List.append_assoc, carries.text, same]

theorem encode_carries (data : Bytes) :
    Carries (data.flatMap byteBits) (data.foldl Session.encodeByte {}) := by
  induction data using List.reverseRecOn with
  | nil => exact ⟨by decide, rfl, List.forall_mem_nil _⟩
  | append_singleton _ b ih =>
    rw [List.flatMap_append, List.foldl_append]
    exact ih.encodeByte b

/-- The text has the bits of the data, followed by fewer than five more. -/
theorem base32Encode_bits (data : Bytes) :
    (∀ c ∈ base32Encode data, c ∈ alphabet) ∧ ∃ fill : List Bool, fill.length < 5 ∧
      (base32Encode data).flatMap digitBits = data.flatMap byteBits ++ fill := by
  have carries := encode_carries data
  unfold base32Encode
  generalize data.foldl encodeByte {} = s at carries ⊢
  have few := carries.few
  dsimp only
  split_ifs with left
  · refine ⟨List.forall_mem_append.2 ⟨carries.letters, List.forall_mem_singleton.2
      (List.get_mem ..)⟩, lowBits (5 - s.bits) 0#32, ?_, ?_⟩
    · rw [length_lowBits]
      omega
    · have last : lowBits (s.bits + (5 - s.bits)) (s.buffer <<< (5 - s.bits) ||| 0#32) =
          lowBits s.bits s.buffer ++ lowBits (5 - s.bits) 0#32 :=
        lowBits_shiftLeft_or (by omega) (Nat.two_pow_pos _)
      rw [BitVec.or_zero, Nat.add_sub_cancel' few.le] at last
      rw [List.flatMap_append, List.flatMap_singleton, digitBits_digit, last, ← List.append_assoc,
        carries.text]
  · refine ⟨carries.letters, [], by decide, ?_⟩
    have text := carries.text
    rw [Nat.eq_zero_of_not_pos left, lowBits, List.append_nil] at text
    rw [text, List.append_nil]

/-- The bits of the bytes put out so far and those that wait in the register. -/
def Register.held (s : Register) : List Bool := s.out.flatMap byteBits ++ lowBits s.bits s.buffer

theorem decodeByte_bits {s : Register} {c : UInt8} (few : s.bits < 8)
    (known : toAsciiUppercase c ∈ alphabet) :
    ∃ s', decodeByte s c = some s' ∧ s'.bits < 8 ∧ s'.held = s.held ++ digitBits c := by
  have below : alphabet.findIdx (· = toAsciiUppercase c) < 32 :=
    List.findIdx_lt_length_of_exists ⟨_, known, decide_eq_true rfl⟩
  have found := List.findIdx?_eq_some_iff_findIdx_eq.2 ⟨below, rfl⟩
  have taken : lowBits (s.bits + 5) (s.buffer <<< 5 |||
      BitVec.ofNat 32 (alphabet.findIdx (· = toAsciiUppercase c))) =
        lowBits s.bits s.buffer ++ digitBits c := by
    refine lowBits_shiftLeft_or (by omega) ?_
    exact (Nat.mod_le ..).trans_lt below
  simp only [decodeByte, found, Option.bind_eq_bind, Option.bind_some]
  generalize s.buffer <<< 5 ||| _ = buffer at taken ⊢
  rw [Register.held, List.append_assoc, ← taken]
  split_ifs with full
  · refine ⟨_, rfl, by dsimp only; omega, ?_⟩
    have mask : ∀ k < 8, ∀ i < k, ((1#32 <<< k) - 1).getLsbD i = true := by decide
    have out : byteBits ⟨(buffer >>> (s.bits + 5 - 8)).setWidth 8⟩ =
        lowBits 8 (buffer >>> (s.bits + 5 - 8)) :=
      lowBits_eq_iff.2 fun i below => by simp [below]
    have kept : lowBits (s.bits + 5 - 8) (buffer &&& ((1#32 <<< (s.bits + 5 - 8)) - 1)) =
        lowBits (s.bits + 5 - 8) buffer :=
      lowBits_eq_iff.2 fun i below => by
        rw [BitVec.getLsbD_and, mask _ (by omega) i below, Bool.and_true]
    have split := lowBits_add 8 (s.bits + 5 - 8) buffer
    rw [Nat.add_sub_cancel' full] at split
    rw [split, Register.held, List.flatMap_append, List.flatMap_singleton, out, kept,
      List.append_assoc]
  · exact ⟨_, rfl, not_le.1 full, rfl⟩

theorem decode_bits {text : Bytes} (known : ∀ c ∈ text, toAsciiUppercase c ∈ alphabet)
    {s : Register} (few : s.bits < 8) :
    ∃ s', text.foldlM decodeByte s = some s' ∧ s'.bits < 8 ∧
      s'.held = s.held ++ text.flatMap digitBits := by
  induction text generalizing s with
  | nil => exact ⟨s, rfl, few, (List.append_nil _).symm⟩
  | cons _ _ ih =>
    obtain ⟨known, later⟩ := List.forall_mem_cons.1 known
    obtain ⟨_, one, few₁, held₁⟩ := decodeByte_bits few known
    obtain ⟨s₂, rest, few₂, held₂⟩ := ih later few₁
    refine ⟨s₂, ?_, few₂, ?_⟩
    · rw [List.foldlM_cons, one]
      exact rest
    · rw [held₂, held₁, List.flatMap_cons, List.append_assoc]

theorem rdropWhile_padding {text : Bytes} (clear : padding ∉ text) (count : ℕ) :
    (text ++ List.replicate count padding).rdropWhile (· = padding) = text := by
  induction count with
  | zero =>
    rw [List.replicate_zero, List.append_nil, List.rdropWhile_eq_self_iff]
    intro some last
    exact clear (of_decide_eq_true last ▸ List.getLast_mem some)
  | succ _ ih =>
    rw [List.replicate_succ', ← List.append_assoc, List.rdropWhile_concat_pos _ _ _ (by decide), ih]

/-- A text with the bits of the data, and fewer than five more, is decoded to the data. -/
theorem base32Decode_of_bits {data text : Bytes} {fill : List Bool}
    (known : ∀ c ∈ text, toAsciiUppercase c ∈ alphabet) (few : fill.length < 5)
    (same : text.flatMap digitBits = data.flatMap byteBits ++ fill) (count : ℕ) :
    base32Decode (text ++ List.replicate count padding) = some data := by
  have clear : padding ∉ text := fun h => absurd (known padding h) (by decide)
  obtain ⟨s, run, _, held⟩ := decode_bits known (s := {}) (by decide)
  rw [same] at held
  have count_eq : s.out.length = data.length := by
    have total := congrArg List.length held
    simp only [Register.held, List.length_append, length_blocks byteBits_length, length_lowBits,
      List.length_nil] at total
    omega
  rw [base32Decode, rdropWhile_padding clear, run]
  exact congrArg some (blocks_injective byteBits_length byteBits_injective count_eq held)

/-- The text of a byte string is decoded to it, in either case and with any padding; it has
as many characters as there are groups of five bits, all from the alphabet. -/
theorem base32_round_trip (data : Bytes) :
    (∀ count, base32Decode (base32Encode data ++ List.replicate count padding) = some data) ∧
      (∀ count, base32Decode ((base32Encode data).map toAsciiLowercase ++
        List.replicate count padding) = some data) ∧
      (base32Encode data).length = (8 * data.length + 4) / 5 ∧
      ∀ c ∈ base32Encode data, c ∈ alphabet := by
  obtain ⟨letters, _, few, same⟩ := base32Encode_bits data
  have upper : ∀ c ∈ alphabet, toAsciiUppercase c = c := by decide +kernel
  have lower : ∀ c ∈ alphabet, toAsciiUppercase (toAsciiLowercase c) = c := by
    decide +kernel
  refine ⟨base32Decode_of_bits ?_ few same, base32Decode_of_bits ?_ few ?_, ?_, letters⟩
  · intro c h
    rw [upper c (letters c h)]
    exact letters c h
  · refine List.forall_mem_map.2 fun c h => ?_
    rw [lower c (letters c h)]
    exact letters c h
  · rw [← same, List.flatMap_map]
    refine List.flatMap_congr fun c h => ?_
    rw [digitBits, digitBits, lower c (letters c h), upper c (letters c h)]
  · have total := congrArg List.length same
    rw [List.length_append, length_blocks byteBits_length, length_blocks digitBits_length] at total
    omega

end Session

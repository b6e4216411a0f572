import Mathlib.Algebra.Group.Nat.Defs
import Merkle.Binary

/-!
# The binary form: one for each value, and none in front of another

Reading a value off the front of bytes succeeds exactly when the bytes start with the form that is
written for the value (`Codec.Exact`). Every way of building a codec keeps this, from fixed-width
numbers up to proofs with their siblings. That forms are canonical and prefix-free follows from it
and from nothing else about a codec (`Codec.Exact.canonical`).
-/
namespace Merkle.ByteOrder

theorem ofLittleEndian_lt (bytes : List UInt8) : ofLittleEndian bytes < 256 ^ bytes.length := by
  induction bytes with
  | nil => simp [ofLittleEndian]
  | cons b rest ih =>
    have hb := b.toNat_lt
    simp only [ofLittleEndian, List.length_cons, Nat.pow_succ]
    omega

theorem ofLittleEndian_littleEndian (width n : Nat) (h : n < 256 ^ width) :
    ofLittleEndian (littleEndian width n) = n := by
  induction width generalizing n with
  | zero => simp [littleEndian, ofLittleEndian] at h ⊢; omega
  | succ width ih =>
    have small : n / 256 < 256 ^ width := by
      apply Nat.div_lt_of_lt_mul
      rw [Nat.pow_succ] at h
      omega
    simp only [littleEndian, ofLittleEndian, ih _ small, UInt8.toNat_ofNat']
    omega

end Merkle.ByteOrder

namespace Merkle.Binary

namespace Codec

variable {α β : Type}

/-- A value is read exactly where its form stands, with any bytes behind it. Values that do not fit
are never read. -/
def Exact (codec : Codec α) (Fits : α → Prop) : Prop :=
  ∀ (bytes : List UInt8) (value : α) (rest : List UInt8),
    codec.decode bytes = .ok (value, rest) ↔ Fits value ∧ bytes = codec.encode value ++ rest

/-- Each value that fits has one form, and forms can be told apart where one follows another. -/
structure Canonical (codec : Codec α) (Fits : α → Prop) : Prop where
  /-- Reading gives a value exactly if its form is a prefix of the bytes. -/
  decode_iff_prefix : ∀ bytes value,
    (∃ rest, codec.decode bytes = .ok (value, rest)) ↔ Fits value ∧ codec.encode value <+: bytes
  /-- Reading undoes writing, and leaves what follows alone. -/
  decode_encode : ∀ value rest, Fits value →
    codec.decode (codec.encode value ++ rest) = .ok (value, rest)
  /-- Writing a value again gives the bytes that it was read from. -/
  encode_decode : ∀ bytes value rest,
    codec.decode bytes = .ok (value, rest) → codec.encode value ++ rest = bytes
  /-- A form that has been cut short is refused. -/
  refused_of_cut : ∀ value bytes, Fits value → bytes <+: codec.encode value →
    bytes ≠ codec.encode value → ∃ fault, codec.decode bytes = .error fault
  /-- The form of a value does not start with the form of another. -/
  eq_of_prefix : ∀ value value', Fits value → Fits value' →
    codec.encode value <+: codec.encode value' → value = value'

variable {codec : Codec α} {Fits : α → Prop}

theorem Exact.decode_append (exact : codec.Exact Fits) {value : α} (fits : Fits value)
    (rest : List UInt8) : codec.decode (codec.encode value ++ rest) = .ok (value, rest) :=
  (exact _ _ _).mpr ⟨fits, rfl⟩

theorem Exact.decode_iff_prefix (exact : codec.Exact Fits) (bytes : List UInt8) (value : α) :
    (∃ rest, codec.decode bytes = .ok (value, rest)) ↔
      Fits value ∧ codec.encode value <+: bytes := by
  constructor
  · rintro ⟨rest, read⟩
    obtain ⟨fits, rfl⟩ := (exact _ _ _).mp read
    exact ⟨fits, List.prefix_append _ _⟩
  · rintro ⟨fits, rest, rfl⟩
    exact ⟨rest, exact.decode_append fits rest⟩

/-- The longer form, read, gives both values. -/
theorem Exact.eq_of_prefix (exact : codec.Exact Fits) {value value' : α} (fits : Fits value)
    (fits' : Fits value') (shorter : codec.encode value <+: codec.encode value') :
    value = value' := by
  obtain ⟨rest, longer⟩ := shorter
  have read := exact.decode_append fits rest
  have read' := exact.decode_append fits' []
  rw [List.append_nil, ← longer, read] at read'
  cases read'
  rfl

/-- What is read off a form that has been cut short would be a second value in front of it. -/
theorem Exact.refused_of_cut (exact : codec.Exact Fits) {value : α} {bytes : List UInt8}
    (fits : Fits value) (cut : bytes <+: codec.encode value) (short : bytes ≠ codec.encode value) :
    ∃ fault, codec.decode bytes = .error fault := by
  cases read : codec.decode bytes with
  | error fault => exact ⟨fault, rfl⟩
  | ok result =>
    obtain ⟨value', rest⟩ := result
    obtain ⟨fits', rfl⟩ := (exact _ _ _).mp read
    have front : codec.encode value' <+: codec.encode value :=
      (List.prefix_append _ rest).trans cut
    obtain rfl := exact.eq_of_prefix fits' fits front
    exact absurd (cut.eq_of_length_le (by simp)) short

theorem Exact.canonical (exact : codec.Exact Fits) : codec.Canonical Fits where
  decode_iff_prefix := exact.decode_iff_prefix
  decode_encode _ rest fits := exact.decode_append fits rest
  encode_decode _ _ _ read := ((exact _ _ _).mp read).2.symm
  refused_of_cut _ _ := exact.refused_of_cut
  eq_of_prefix _ _ := exact.eq_of_prefix

theorem Exact.congr {Fits' : α → Prop} (exact : codec.Exact Fits)
    (same : ∀ value, Fits value ↔ Fits' value) : codec.Exact Fits' := by
  intro bytes value rest
  rw [exact, same]

/-! ## Codecs built from others -/

/-- Numbers that fit their bytes. -/
theorem number_exact (width : Nat) : (number width).Exact (· < 256 ^ width) := by
  intro bytes value rest
  simp only [number]
  constructor
  · intro read
    split at read
    next long =>
      cases read
      have count : (bytes.take width).length = width := by
        rw [List.length_take]
        omega
      have low := ByteOrder.ofLittleEndian_lt (bytes.take width)
      have again := ByteOrder.littleEndian_ofLittleEndian (bytes.take width)
      rw [count] at low again
      exact ⟨low, by rw [again, List.take_append_drop]⟩
    next => cases read
  · rintro ⟨fits, rfl⟩
    have count := ByteOrder.length_littleEndian width value
    rw [if_pos (by simp), List.take_left' count, List.drop_left' count,
      ByteOrder.ofLittleEndian_littleEndian width value fits]

theorem decode_pair_eq_ok_iff {first : Codec α} {second : Codec β} {bytes rest : List UInt8}
    {a : α} {b : β} :
    (first.pair second).decode bytes = .ok ((a, b), rest) ↔
      ∃ behind, first.decode bytes = .ok (a, behind) ∧ second.decode behind = .ok (b, rest) := by
  simp only [pair, bind, Except.bind, pure, Except.pure]
  cases first.decode bytes with
  | error fault => simp
  | ok result =>
    obtain ⟨a', behind⟩ := result
    cases read : second.decode behind with
    | error fault => simp +contextual [read]
    | ok result' =>
      obtain ⟨b', rest'⟩ := result'
      simp +contextual [read, and_assoc]

theorem Exact.pair {Fits' : β → Prop} {second : Codec β} (exact : codec.Exact Fits)
    (exact' : second.Exact Fits') :
    (codec.pair second).Exact fun value => Fits value.1 ∧ Fits' value.2 := by
  rintro bytes ⟨a, b⟩ rest
  rw [decode_pair_eq_ok_iff]
  constructor
  · rintro ⟨behind, read, read'⟩
    obtain ⟨fits, rfl⟩ := (exact _ _ _).mp read
    obtain ⟨fits', rfl⟩ := (exact' _ _ _).mp read'
    exact ⟨⟨fits, fits'⟩, by simp [Codec.pair]⟩
  · rintro ⟨⟨fits, fits'⟩, rfl⟩
    refine ⟨second.encode b ++ rest, ?_, exact'.decode_append fits' rest⟩
    simp only [Codec.pair, List.append_assoc]
    exact exact.decode_append fits _

/-- Values of another type, where the way there and back loses none and the way back and there loses
none that fits. -/
theorem Exact.via (exact : codec.Exact Fits) {back : β → α} {forth : α → β}
    (forth_back : ∀ b, forth (back b) = b) (back_forth : ∀ a, Fits a → back (forth a) = a) :
    (codec.via back forth).Exact fun value => Fits (back value) := by
  intro bytes value rest
  simp only [Codec.via, bind, Except.bind, pure, Except.pure]
  constructor
  · intro read
    split at read
    next => cases read
    next result inner =>
      obtain ⟨a, behind⟩ := result
      cases read
      obtain ⟨fits, rfl⟩ := (exact _ _ _).mp inner
      rw [back_forth a fits]
      exact ⟨fits, rfl⟩
  · rintro ⟨fits, rfl⟩
    rw [exact.decode_append fits rest]
    simp [forth_back]

/-- As many values as asked for, behind those that have been read. -/
theorem Exact.decodeMany_eq_ok_iff (exact : codec.Exact Fits) {count : Nat} {read : List α}
    {bytes rest : List UInt8} {values : List α} :
    decodeMany codec read count bytes = .ok (values, rest) ↔
      ∃ more, values = read.reverse ++ more ∧ more.length = count ∧ (∀ value ∈ more, Fits value) ∧
        bytes = more.flatMap codec.encode ++ rest := by
  induction count generalizing read bytes with
  | zero =>
    simp only [decodeMany, List.length_eq_zero_iff]
    constructor
    · intro done
      cases done
      exact ⟨[], by simp⟩
    · rintro ⟨more, rfl, rfl, -, rfl⟩
      simp
  | succ count ih =>
    simp only [decodeMany]
    constructor
    · intro done
      split at done
      next => cases done
      next value behind first =>
        obtain ⟨fits, rfl⟩ := (exact _ _ _).mp first
        obtain ⟨more, rfl, rfl, all_fit, rfl⟩ := ih.mp done
        exact ⟨value :: more, by simp, by simp, by simpa using ⟨fits, all_fit⟩, by simp⟩
    · rintro ⟨more, rfl, length_eq, all_fit, rfl⟩
      cases more with
      | nil => simp at length_eq
      | cons value more =>
        simp only [List.mem_cons, forall_eq_or_imp] at all_fit
        rw [List.flatMap_cons, List.append_assoc, exact.decode_append all_fit.1]
        exact ih.mpr ⟨more, by simp, by simpa using length_eq, all_fit.2, rfl⟩

/-- Lists whose length fits the eight bytes in front. -/
theorem Exact.list (exact : codec.Exact Fits) :
    (list codec).Exact fun values => values.length < 256 ^ 8 ∧ ∀ value ∈ values, Fits value := by
  intro bytes values rest
  simp only [Codec.list, bind, Except.bind]
  constructor
  · intro read
    split at read
    next => cases read
    next result counted =>
      obtain ⟨count, behind⟩ := result
      obtain ⟨fits, rfl⟩ := (number_exact 8 _ _ _).mp counted
      obtain ⟨more, rfl, rfl, all_fit, rfl⟩ := exact.decodeMany_eq_ok_iff.mp read
      exact ⟨⟨fits, all_fit⟩, by simp⟩
  · rintro ⟨⟨fits, all_fit⟩, rfl⟩
    rw [List.append_assoc, (number_exact 8).decode_append fits]
    exact exact.decodeMany_eq_ok_iff.mpr ⟨values, rfl, rfl, all_fit, rfl⟩

end Codec

/-! ## The values of this library -/

theorem uint32_exact : uint32.Exact fun _ => True := by
  have exact := (Codec.number_exact 4).via (fun _ => UInt32.ofNat_toNat)
    (fun _ small => UInt32.toNat_ofNat_of_lt' small)
  exact exact.congr fun n => by simpa using n.toNat_lt

theorem uint64_exact : uint64.Exact fun _ => True := by
  have exact := (Codec.number_exact 8).via (fun _ => UInt64.ofNat_toNat)
    (fun _ small => UInt64.toNat_ofNat_of_lt' small)
  exact exact.congr fun n => by simpa using n.toNat_lt

theorem digest_exact : digest.Exact fun _ => True := by
  intro bytes d rest
  simp only [digest, true_and]
  constructor
  · intro read
    split at read
    next =>
      cases read
      simp
    next => cases read
  · rintro rfl
    have count := d.length_bytes
    rw [dif_pos (by simp [count])]
    simp [List.take_left' count, List.drop_left' count]

/-- The position of an algorithm names it and no other. -/
theorem getElem?_all_eq_some_iff {position : Nat} {a : Algorithm} :
    Algorithm.all[position]? = some a ↔ position = Algorithm.all.idxOf a := by
  constructor
  · intro named
    match position with
    | 0 | 1 | 2 =>
      cases named
      rfl
    | position + 3 => cases named
  · rintro rfl
    cases a <;> rfl

theorem algorithm_exact : algorithm.Exact fun _ => True := by
  intro bytes a rest
  simp only [algorithm, true_and, bind, Except.bind]
  constructor
  · intro read
    split at read
    next => cases read
    next result counted =>
      obtain ⟨position, behind⟩ := result
      obtain ⟨-, rfl⟩ := (Codec.number_exact 4 _ _ _).mp counted
      split at read
      next named =>
        cases read
        have position_eq : position = Algorithm.all.idxOf a := getElem?_all_eq_some_iff.mp named
        rw [position_eq]
      next => cases read
  · rintro rfl
    have small : Algorithm.all.idxOf a < 256 ^ 4 := by cases a <;> decide
    rw [(Codec.number_exact 4).decode_append small]
    simp only [getElem?_all_eq_some_iff.mpr rfl]

theorem config_exact : config.Exact fun _ => True := by
  have exact : config.Exact fun _ => True ∧ True :=
    (algorithm_exact.pair uint64_exact).via (fun _ => rfl) (fun _ _ => rfl)
  exact exact.congr fun _ => by simp

/-- A proof has a form when its siblings can be counted in eight bytes. -/
theorem proof_exact : proof.Exact fun p => p.siblings.length < UInt64.size := by
  have exact : proof.Exact fun p =>
      True ∧ True ∧ p.siblings.length < 256 ^ 8 ∧ ∀ d ∈ p.siblings, True :=
    (digest_exact.pair (uint32_exact.pair digest_exact.list)).via (fun _ => rfl) (fun _ _ => rfl)
  exact exact.congr fun _ => by simp [UInt64.size]

/-- Digests, algorithms, configurations and proofs each have one form, which is found in front of
any bytes. Only lists too long for a count of eight bytes have none. -/
theorem forms_canonical :
    digest.Canonical (fun _ => True) ∧ algorithm.Canonical (fun _ => True) ∧
      config.Canonical (fun _ => True) ∧
      proof.Canonical (fun p => p.siblings.length < UInt64.size) :=
  ⟨digest_exact.canonical, algorithm_exact.canonical, config_exact.canonical,
    proof_exact.canonical⟩

end Merkle.Binary

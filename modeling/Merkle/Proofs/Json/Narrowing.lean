import Mathlib.Algebra.Group.Nat.Defs
import Merkle.Proofs.Json.Judging
import Merkle.Proofs.Json.RoundTrip

/-!
# Narrowing: numbers and lists that do not fit their place

A text may have numbers of any size where a proof has bytes and an index, and lists of any length
where it has digests (`ProofNumbers`). It is read as a proof only if it gives the numbers of that
proof: none is wrapped around, no list is filled up or cut off. Every other such text is malformed
(`numbers_not_narrowed`).
-/
namespace Merkle.Json

variable {more : List Token} {text whole : List UInt8}

/-! ## Numbers -/

theorem judges_byte (n : Nat) : Judges byte [decimal n] (·.toNat = n) := by
  apply (judges_natural .byte (by decide) n).map UInt8.ofNat
  intro value ⟨same, small⟩
  rw [same, UInt8.toNat_ofNat']
  omega

theorem judges_index (n : Nat) : Judges index [decimal n] (·.toNat = n) := by
  apply (judges_natural .index (by decide) n).map UInt32.ofNat
  intro value ⟨same, small⟩
  have few : n ≤ 2 ^ 32 - 1 := small
  rw [same, UInt32.toNat_ofNat']
  omega

/-! ## Lists of numbers -/

/-- Numbers with commas between them, in brackets. -/
def numbersTokens (numbers : List Nat) : List Token :=
  enclosedTokens openBracket closeBracket (numbers.map fun n => [decimal n])

/-- Numbers are taken as bytes up to the count that is wanted, or one of them is refused, or there
are not as many. The numbers that have not been taken are still there. -/
theorem run_bytes_numbers (numbers : List Nat) {first : Bool} {count : Nat}
    (spaced : Spaced
      (separated first (numbers.map fun n => [decimal n]) ++ [closeBracket] :: more) text) :
    Refused ((bytes first count).run text) ∨
      ∃ taken others rest, (bytes first count).run text = .ok (taken, rest) ∧
        numbers = taken.val.map UInt8.toNat ++ others ∧
        Spaced (separated (first && count == 0) (others.map fun n => [decimal n]) ++
          [closeBracket] :: more) rest := by
  induction count generalizing numbers first text with
  | zero =>
    right
    refine ⟨⟨[], rfl⟩, numbers, text, rfl, rfl, ?_⟩
    simpa using spaced
  | succ count ih =>
    cases numbers with
    | nil =>
      left
      obtain ⟨rest, ended, behind⟩ := run_element_done first spaced
      exact refused_bind_of_ok ended ⟨_, rfl, rfl⟩
    | cons n numbers =>
      obtain ⟨start, follows, spaced⟩ := run_element_decimal spaced
      rcases judges_byte n _ (decimal n ++ start) (ends_separated ends_closeBracket _)
          (.here spaced) with refused | ⟨b, middle, same, read, spaced⟩
      · exact .inl (refused_bind_of_ok follows (refused_bind refused))
      · rcases ih numbers spaced with refused | ⟨taken, others, rest, read_more, parts, behind⟩
        · exact .inl
            (refused_bind_of_ok follows (refused_bind_of_ok read (refused_bind refused)))
        · right
          refine ⟨⟨b :: taken.val, by rw [List.length_cons, taken.property]⟩, others, rest, ?_, ?_,
            ?_⟩
          · rw [bytes, Reader.run_bind_of_ok follows]
            simp only [if_true]
            rw [Reader.run_bind_of_ok read, Reader.run_bind_of_ok read_more]
            rfl
          · rw [parts, List.map_cons, same, List.cons_append]
          · simpa using behind

/-- A list with a place for no more numbers has to end there. -/
theorem refused_endOfList {n : Nat} {items : List (List Token)}
    (spaced : Spaced (separated false ([decimal n] :: items) ++ more) text) :
    Refused (endOfList.run text) := by
  rw [separated_next] at spaced
  obtain ⟨middle, comma_peeked, spaced⟩ := run_peekToken_spaced (by decide) spaced
  obtain ⟨c, digits, written, digit, -⟩ := exists_decimal_eq_cons n
  rw [written] at spaced
  obtain ⟨rest, peeked, -⟩ := run_peekToken_spaced (isSpace_of_isDigit digit) spaced
  have goes_on : c ≠ closeBracket := ne_closeBracket_of_isDigit digit
  refine ⟨⟨.trailingCharacters, (c :: (digits ++ rest)).length - 1⟩, ?_, rfl⟩
  rw [endOfList, Reader.run_bind_of_ok comma_peeked]
  simp only [List.nil_append, if_true, if_neg (by decide : ¬ comma = closeBracket)]
  rw [Reader.run_bind_of_ok (Reader.run_skip _), List.tail_cons, Reader.run_bind_of_ok peeked]
  simp [goes_on]

theorem judges_digestElements (numbers : List Nat) :
    Judges digestElements
      (separated true (numbers.map fun n => [decimal n]) ++ [[closeBracket]])
      (·.bytes.map UInt8.toNat = numbers) := by
  intro more text ends spaced
  rw [List.append_assoc] at spaced
  rcases run_bytes_numbers numbers spaced with
    refused | ⟨taken, others, middle, read, parts, spaced⟩
  · exact .inl (refused_bind refused)
  · cases others with
    | nil =>
      right
      obtain ⟨rest, ended, behind⟩ := reads_endOfList more middle ends spaced
      rw [List.append_nil] at parts
      refine ⟨⟨taken.val, taken.property⟩, rest, parts.symm, ?_, behind⟩
      rw [digestElements, Reader.run_bind_of_ok read]
      simp only
      rw [Reader.run_bind_of_ok ended]
      rfl
    | cons n others =>
      left
      exact refused_bind_of_ok read (refused_bind (refused_endOfList spaced))

theorem judges_digest (numbers : List Nat) :
    Judges digest (numbersTokens numbers) (·.bytes.map UInt8.toNat = numbers) :=
  (enters_list _ _).judges (judges_digestElements numbers)

/-- Each round takes one list off the siblings that are still to come, as the digest that it stands
for, or refuses it. -/
theorem digestsFrom_numbers (lists : List (List Nat)) {first : Bool} {read : List Digest}
    (le : Within text whole)
    (spaced : Spaced (separated first (lists.map numbersTokens) ++ [closeBracket] :: more) text) :
    Refused (digestsFrom first read whole text le) ∨
    ∃ taken rest within, taken.map (·.bytes.map UInt8.toNat) = lists ∧
      digestsFrom first read whole text le = .ok ⟨read.reverse ++ taken, rest, within⟩ ∧
      Spaced more rest := by
  induction lists generalizing first read text with
  | nil =>
    right
    obtain ⟨rest, ended, behind⟩ := run_element_done first spaced
    obtain ⟨within, result⟩ := Reader.exists_eq_of_run ended
    refine ⟨[], rest, .tail (within.trans le), rfl, ?_, behind⟩
    rw [digestsFrom, result, List.append_nil]
    rfl
  | cons numbers lists ih =>
    obtain ⟨start, follows, spaced⟩ :=
      run_element (by decide : isSpace openBracket = false) (by decide) spaced
    obtain ⟨within, result⟩ := Reader.exists_eq_of_run follows
    rcases judges_digestElements numbers _ start (ends_separated ends_closeBracket _) spaced with
      ⟨stop, failed, malformed⟩ | ⟨d, middle, same, digest_read, spaced⟩
    · refine .inl ⟨stop, ?_, malformed⟩
      rw [digestsFrom]
      simp only [result, List.nil_append, if_true, Reader.eq_error_of_run failed]
    · obtain ⟨within', result'⟩ := Reader.exists_eq_of_run digest_read
      have round : digestsFrom first read whole text le =
          digestsFrom false (d :: read) whole middle
            (within'.trans (.of_cons (within.trans le))) := by
        rw [digestsFrom]
        simp only [result, List.nil_append, if_true, result']
      rw [round]
      rcases ih _ spaced with refused | ⟨taken, rest, within'', sames, result'', behind⟩
      · exact .inl refused
      · refine .inr ⟨d :: taken, rest, within'', ?_, ?_, behind⟩
        · rw [List.map_cons, same, sames]
        · rw [result'', List.reverse_cons, List.append_assoc, List.singleton_append]

theorem judges_siblings (lists : List (List Nat)) :
    Judges siblings (enclosedTokens openBracket closeBracket (lists.map numbersTokens))
      (·.map (·.bytes.map UInt8.toNat) = lists) := by
  apply (enters_list _ _).judges
  intro more text ends spaced
  rw [List.append_assoc] at spaced
  rcases digestsFrom_numbers lists (.refl text) spaced with
    ⟨stop, failed, malformed⟩ | ⟨taken, rest, within, same, result, behind⟩
  · refine .inl ⟨stop, ?_, malformed⟩
    rw [Reader.run, Reader.loop, failed]
  · exact .inr ⟨taken, rest, same, Reader.run_of_eq result, behind⟩

/-! ## Proofs -/

/-- What a text gives for the fields of a proof: numbers of any size, in lists of any length. -/
structure ProofNumbers where
  leaf : List Nat
  leafIndex : Nat
  siblings : List (List Nat)

namespace ProofNumbers

/-- The numbers of a proof. -/
def ofProof (proof : InclusionProof) : ProofNumbers :=
  ⟨proof.leaf.bytes.map UInt8.toNat, proof.leafIndex.toNat,
    proof.siblings.map (·.bytes.map UInt8.toNat)⟩

/-- The compact text, in the form of a proof. -/
def toJson (numbers : ProofNumbers) : String :=
  Text.ofAscii (encodeObject
    [(leafKey, encodeList (numbers.leaf.map decimal)),
      (indexKey, decimal numbers.leafIndex),
      (siblingsKey, encodeList (numbers.siblings.map fun list => encodeList (list.map decimal)))])

/-- The tokens of that text. -/
def toTokens (numbers : ProofNumbers) : List Token :=
  enclosedTokens openBrace closeBrace
    [memberTokens leafKey (numbersTokens numbers.leaf),
      memberTokens indexKey [decimal numbers.leafIndex],
      memberTokens siblingsKey
        (enclosedTokens openBracket closeBracket (numbers.siblings.map numbersTokens))]

theorem numbersTokens_bytes (d : Digest) :
    numbersTokens (d.bytes.map UInt8.toNat) = digestTokens d := by
  rw [numbersTokens, digestTokens, List.map_map]
  rfl

theorem toTokens_ofProof (proof : InclusionProof) :
    (ofProof proof).toTokens = proofTokens proof := by
  simp [ofProof, toTokens, proofTokens, siblingsTokens, numbersTokens_bytes, Function.comp_def]

theorem ascii_numbersTokens (numbers : List Nat) : Ascii (numbersTokens numbers) :=
  ascii_enclosedTokens (by decide) (by decide)
    (List.forall_mem_map.mpr fun n _ => ascii_decimal n)

theorem ascii_toTokens (numbers : ProofNumbers) : Ascii numbers.toTokens := by
  have siblings : Ascii
      (enclosedTokens openBracket closeBracket (numbers.siblings.map numbersTokens)) :=
    ascii_enclosedTokens (by decide) (by decide)
      (List.forall_mem_map.mpr fun list _ => ascii_numbersTokens list)
  apply ascii_enclosedTokens (by decide) (by decide)
  simp only [List.forall_mem_cons, List.not_mem_nil, false_imp_iff, implies_true, and_true]
  exact ⟨ascii_memberTokens (by decide) (ascii_numbersTokens _),
    ascii_memberTokens (by decide) (ascii_decimal _), ascii_memberTokens (by decide) siblings⟩

theorem flatten_numbersTokens (numbers : List Nat) :
    (numbersTokens numbers).flatten = encodeList (numbers.map decimal) := by
  rw [numbersTokens, flatten_enclosedTokens, encodeList, List.map_map]
  simp [Function.comp_def]

/-- The compact text is the tokens without white space. -/
theorem utf8_toJson (numbers : ProofNumbers) :
    Text.utf8 numbers.toJson = numbers.toTokens.flatten := by
  have flatten : numbers.toTokens.flatten = encodeObject
      [(leafKey, encodeList (numbers.leaf.map decimal)),
        (indexKey, decimal numbers.leafIndex),
        (siblingsKey,
          encodeList (numbers.siblings.map fun list => encodeList (list.map decimal)))] := by
    rw [toTokens, flatten_enclosedTokens, encodeObject]
    simp [flatten_memberTokens, flatten_enclosedTokens, flatten_numbersTokens, encodeList,
      Function.comp_def]
  rw [toJson, ← flatten]
  exact utf8_ofAscii_flatten numbers.ascii_toTokens

/-- Each field is read as what is written for it, or refused. -/
theorem folds_toTokens (numbers : ProofNumbers) :
    Folds (JudgesMember proofField) (· = {})
      [memberTokens leafKey (numbersTokens numbers.leaf),
        memberTokens indexKey [decimal numbers.leafIndex],
        memberTokens siblingsKey
          (enclosedTokens openBracket closeBracket (numbers.siblings.map numbersTokens))]
      (fun draft => ∃ proof, ofProof proof = numbers ∧
        draft = ⟨some proof.leaf, some proof.leafIndex, some proof.siblings⟩) := by
  have leaf_judged : JudgesMember proofField (· = {})
      (memberTokens leafKey (numbersTokens numbers.leaf))
      (fun draft => ∃ leaf : Digest, leaf.bytes.map UInt8.toNat = numbers.leaf ∧
        draft = ⟨some leaf, none, none⟩) := by
    refine .member (spells_plain (by decide)) ?_
    intro draft empty
    rw [empty]
    exact (takesField_leaf {}).judges rfl (judges_digest numbers.leaf)
  have index_judged : JudgesMember proofField
      (fun draft => ∃ leaf : Digest, leaf.bytes.map UInt8.toNat = numbers.leaf ∧
        draft = ⟨some leaf, none, none⟩)
      (memberTokens indexKey [decimal numbers.leafIndex])
      (fun draft => ∃ (leaf : Digest) (leafIndex : UInt32),
        leaf.bytes.map UInt8.toNat = numbers.leaf ∧ leafIndex.toNat = numbers.leafIndex ∧
        draft = ⟨some leaf, some leafIndex, none⟩) := by
    refine .member (spells_plain (by decide)) ?_
    intro draft ⟨leaf, leaf_eq, read⟩
    rw [read]
    apply ((takesField_index _).judges rfl (judges_index numbers.leafIndex)).imp
    intro next ⟨leafIndex, index_eq, next_eq⟩
    exact ⟨leaf, leafIndex, leaf_eq, index_eq, next_eq⟩
  refine .member leaf_judged (.member index_judged (.member (.member (spells_plain (by decide)) ?_)
    (.done _)))
  intro draft ⟨leaf, leafIndex, leaf_eq, index_eq, read⟩
  rw [read]
  apply ((takesField_siblings _).judges rfl (judges_siblings numbers.siblings)).imp
  intro next ⟨siblings, siblings_eq, next_eq⟩
  exact ⟨⟨leaf, leafIndex, siblings⟩, by rw [ofProof, leaf_eq, index_eq, siblings_eq], next_eq⟩

theorem judges_proof (numbers : ProofNumbers) :
    Judges Json.proof numbers.toTokens (ofProof · = numbers) := by
  apply (enters_fields .proof _ _).judges
  apply (numbers.folds_toTokens.judges rfl).bind_pure
  intro draft ⟨proof, same, read⟩
  exact ⟨proof, same, by rw [read]; rfl⟩

/-- The numbers of a proof fit their places. -/
theorem fits_ofProof (proof : InclusionProof) :
    (∀ list ∈ (ofProof proof).leaf :: (ofProof proof).siblings,
      list.length = 32 ∧ ∀ n ∈ list, n ≤ 255) ∧ (ofProof proof).leafIndex ≤ 2 ^ 32 - 1 := by
  have digest_fits (d : Digest) : (d.bytes.map UInt8.toNat).length = 32 ∧
      ∀ n ∈ d.bytes.map UInt8.toNat, n ≤ 255 := by
    refine ⟨by rw [List.length_map, d.length_bytes], ?_⟩
    exact List.forall_mem_map.mpr fun b _ => Nat.le_of_lt_succ b.toNat_lt
  refine ⟨?_, Nat.le_of_lt_succ proof.leafIndex.toNat_lt⟩
  exact List.forall_mem_cons.mpr
    ⟨digest_fits proof.leaf, List.forall_mem_map.mpr fun d _ => digest_fits d⟩

end ProofNumbers

/-! ## Whole texts -/

/-- Numbers of any size and lists of any length in the place of a proof's are read as a proof only
if they are the numbers of that proof. A list that has not exactly 32 entries, an entry beyond 255
or an index beyond 32 bits makes the text malformed, wherever it stands and however large it is. The
text may have white space around its tokens; the compact one is among these texts. -/
theorem numbers_not_narrowed (numbers : ProofNumbers) :
    Spaced numbers.toTokens (Text.utf8 numbers.toJson) ∧
    ∀ text, Spaced numbers.toTokens (Text.utf8 text) →
      ((∃ list ∈ numbers.leaf :: numbers.siblings, list.length ≠ 32) ∨
          (∃ list ∈ numbers.leaf :: numbers.siblings, ∃ n ∈ list, 255 < n) ∨
          2 ^ 32 - 1 < numbers.leafIndex →
        ClientFault (InclusionProof.ofJson text)) ∧
      ∀ proof, InclusionProof.ofJson text = .ok proof ↔ numbers = .ofProof proof := by
  refine ⟨by rw [numbers.utf8_toJson]; exact spaced_flatten _, ?_⟩
  intro text spaced
  have judged : ClientFault (InclusionProof.ofJson text) ∨
      ∃ proof, .ofProof proof = numbers ∧ InclusionProof.ofJson text = .ok proof :=
    numbers.judges_proof.parse spaced
  constructor
  · intro malformed
    rcases judged with fault | ⟨proof, same, -⟩
    · exact fault
    · exfalso
      obtain ⟨lists_fit, index_fits⟩ := ProofNumbers.fits_ofProof proof
      rw [same] at lists_fit index_fits
      rcases malformed with ⟨list, here, length⟩ | ⟨list, here, n, inside, large⟩ | large
      · exact length (lists_fit list here).1
      · exact Nat.not_le_of_lt large ((lists_fit list here).2 n inside)
      · exact Nat.not_le_of_lt large index_fits
  · intro proof
    constructor
    · intro read
      rcases judged with ⟨error, failed, -⟩ | ⟨proof', same, read'⟩
      · rw [read] at failed
        cases failed
      · rw [read] at read'
        rw [Except.ok.inj read', same]
    · intro same
      rw [same, ProofNumbers.toTokens_ofProof] at spaced
      exact proof_roundTrip.read_spaced proof text spaced

/-- Short lists, an entry beyond 255 and an index beyond 32 bits in one text; an index beyond the
greatest double; a list of 33 entries; and the numbers of a proof. -/
theorem numbers_not_narrowed_each_fault :
    ClientFault (InclusionProof.ofJson
      "\x7b\"leaf\":[256],\"leaf_index\":4294967296,\"siblings\":[[0]]\x7d") ∧
    ClientFault (InclusionProof.ofJson
      (ProofNumbers.toJson ⟨List.replicate 32 7, 10 ^ 200 * 10 ^ 200, [List.replicate 32 0]⟩)) ∧
    ClientFault (InclusionProof.ofJson
      (ProofNumbers.toJson ⟨List.replicate 32 7, 5, [List.replicate 33 0]⟩)) ∧
    InclusionProof.ofJson (ProofNumbers.toJson (.ofProof ⟨.zero, 5, [.zero]⟩)) =
      .ok ⟨.zero, 5, [.zero]⟩ := by
  have entry : decimal 256 = [0x32, 0x35, 0x36] := by simp [decimal]
  have index : decimal 4294967296 =
      [0x34, 0x32, 0x39, 0x34, 0x39, 0x36, 0x37, 0x32, 0x39, 0x36] := by simp [decimal]
  have zero : decimal 0 = [0x30] := by simp [decimal]
  have short_tokens :
      Text.utf8 "\x7b\"leaf\":[256],\"leaf_index\":4294967296,\"siblings\":[[0]]\x7d" =
        (ProofNumbers.toTokens ⟨[256], 4294967296, [[0]]⟩).flatten := by
    simp only [ProofNumbers.toTokens, numbersTokens, List.map_cons, List.map_nil, entry, index,
      zero]
    rfl
  have short_text : Spaced (ProofNumbers.toTokens ⟨[256], 4294967296, [[0]]⟩)
      (Text.utf8 "\x7b\"leaf\":[256],\"leaf_index\":4294967296,\"siblings\":[[0]]\x7d") := by
    rw [short_tokens]
    exact spaced_flatten _
  refine ⟨?_, ?_, ?_, ?_⟩
  · exact ((numbers_not_narrowed _).2 _ short_text).1 (.inl ⟨[256], List.mem_cons_self, by decide⟩)
  · obtain ⟨spaced, judged⟩ := numbers_not_narrowed
      ⟨List.replicate 32 7, 10 ^ 200 * 10 ^ 200, [List.replicate 32 0]⟩
    exact (judged _ spaced).1 (.inr (.inr (by decide)))
  · obtain ⟨spaced, judged⟩ := numbers_not_narrowed
      ⟨List.replicate 32 7, 5, [List.replicate 33 0]⟩
    exact (judged _ spaced).1 (.inl ⟨List.replicate 33 0, by simp, by decide⟩)
  · obtain ⟨spaced, judged⟩ := numbers_not_narrowed (.ofProof ⟨.zero, 5, [.zero]⟩)
    exact ((judged _ spaced).2 _).mpr rfl

end Merkle.Json

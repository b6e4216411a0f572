import Merkle.Proofs.Json.Reading

/-!
# Round trip: values read back from their JSON texts

Each reader of this library reads its value from the value's tokens (`Reads`), from numbers up to
proofs with their siblings. So the compact text and every text with white space around its tokens
stand for the value that was written (`RoundTrip`). A configuration is also loaded from them, unless
its threshold is zero.
-/
namespace Merkle.Json

variable {α : Type} {more : List Token} {text : List UInt8}

/-- What is written is the tokens of the value, and every text of those tokens is read as it. -/
structure RoundTrip (tokens : α → List Token) (write : α → String)
    (read : String → Except Error α) : Prop where
  /-- The compact text is the tokens without white space. -/
  utf8_write : ∀ value, Text.utf8 (write value) = (tokens value).flatten
  /-- White space before, between and behind the tokens changes nothing. -/
  read_spaced : ∀ value text, Spaced (tokens value) (Text.utf8 text) → read text = .ok value
  read_write : ∀ value, read (write value) = .ok value

theorem RoundTrip.of_reads {reader : Reader α} {tokens : α → List Token} {encode : α → List UInt8}
    (ascii : ∀ value, Ascii (tokens value))
    (flatten : ∀ value, (tokens value).flatten = encode value)
    (reads : ∀ value, Reads reader (tokens value) value) :
    RoundTrip tokens (fun value => Text.ofAscii (encode value)) (parse reader) := by
  have written (value : α) : Text.utf8 (Text.ofAscii (encode value)) = (tokens value).flatten := by
    rw [← flatten]
    exact utf8_ofAscii_flatten (ascii value)
  refine ⟨written, fun value _ spaced => (reads value).parse spaced, fun value => ?_⟩
  apply (reads value).parse
  rw [written]
  exact spaced_flatten _

/-! ## Digests -/

theorem reads_byte (b : UInt8) : Reads byte [decimal b.toNat] b := by
  have small : b.toNat ≤ 255 := Nat.le_of_lt_succ b.toNat_lt
  have reads := (reads_natural .byte small (by decide)).map UInt8.ofNat
  rwa [UInt8.ofNat_toNat] at reads

/-- As many bytes as are wanted are taken off the list. -/
theorem run_bytes {l : List UInt8} {count : Nat} (length : l.length = count) {first : Bool}
    (spaced : Spaced (separated first (l.map fun b => [decimal b.toNat]) ++ [closeBracket] :: more)
      text) :
    ∃ rest, (bytes first count).run text = .ok (⟨l, length⟩, rest) ∧
      Spaced ([closeBracket] :: more) rest := by
  induction l generalizing first count text with
  | nil =>
    subst length
    exact ⟨text, rfl, spaced⟩
  | cons b l ih =>
    cases count with
    | zero => cases length
    | succ count =>
      -- The first digit has only been looked at: the number is still there as a whole.
      obtain ⟨start, follows, spaced⟩ := run_element_decimal spaced
      obtain ⟨middle, read, spaced⟩ := reads_byte b _ (decimal b.toNat ++ start)
        (ends_separated ends_closeBracket _) (.here spaced)
      obtain ⟨rest, read_more, behind⟩ := ih (Nat.succ.inj length) spaced
      refine ⟨rest, ?_, behind⟩
      rw [bytes, Reader.run_bind_of_ok follows]
      simp only [if_true]
      rw [Reader.run_bind_of_ok read, Reader.run_bind_of_ok read_more]
      rfl

theorem reads_digestElements (d : Digest) :
    Reads digestElements
      (separated true (d.bytes.map fun b => [decimal b.toNat]) ++ [[closeBracket]]) d := by
  intro more text ends spaced
  rw [List.append_assoc] at spaced
  obtain ⟨middle, read, spaced⟩ := run_bytes d.length_bytes spaced
  obtain ⟨rest, ended, behind⟩ := reads_endOfList more middle ends spaced
  refine ⟨rest, ?_, behind⟩
  rw [digestElements, Reader.run_bind_of_ok read]
  simp only
  rw [Reader.run_bind_of_ok ended]
  rfl

theorem reads_digest (d : Digest) : Reads digest (digestTokens d) d :=
  (enters_list _ _).reads (reads_digestElements d)

/-- Each round takes one digest off the siblings that are still to come, and puts it in front of
those that have been read. -/
theorem digestsFrom_spaced (siblings : List Digest) {first : Bool} {read : List Digest}
    {whole : List UInt8} (le : Within text whole)
    (spaced : Spaced (separated first (siblings.map digestTokens) ++ [closeBracket] :: more) text) :
    ∃ rest within, digestsFrom first read whole text le =
      .ok ⟨read.reverse ++ siblings, rest, within⟩ ∧ Spaced more rest := by
  induction siblings generalizing first read text with
  | nil =>
    obtain ⟨rest, ended, behind⟩ := run_element_done first spaced
    obtain ⟨within, result⟩ := Reader.exists_eq_of_run ended
    refine ⟨rest, .tail (within.trans le), ?_, behind⟩
    rw [digestsFrom, result, List.append_nil]
    rfl
  | cons d siblings ih =>
    obtain ⟨start, follows, spaced⟩ :=
      run_element (by decide : isSpace openBracket = false) (by decide) spaced
    obtain ⟨within, result⟩ := Reader.exists_eq_of_run follows
    obtain ⟨middle, digest_read, spaced⟩ :=
      reads_digestElements d _ start (ends_separated ends_closeBracket _) spaced
    obtain ⟨within', result'⟩ := Reader.exists_eq_of_run digest_read
    obtain ⟨rest, within'', result'', behind⟩ :=
      ih (within'.trans (.of_cons (within.trans le))) spaced
    refine ⟨rest, within'', ?_, behind⟩
    rw [List.reverse_cons, List.append_assoc, List.singleton_append] at result''
    rw [digestsFrom, ← result'']
    simp only [result, List.nil_append, if_true, result']

theorem reads_siblings (siblings : List Digest) :
    Reads Json.siblings (siblingsTokens siblings) siblings := by
  apply (enters_list _ _).reads
  intro more text ends spaced
  rw [List.append_assoc] at spaced
  obtain ⟨rest, within, result, behind⟩ := digestsFrom_spaced siblings (.refl text) spaced
  exact ⟨rest, Reader.run_of_eq result, behind⟩

/-! ## Algorithms -/

theorem plain_name (algorithm : Algorithm) : Plain (Text.utf8 algorithm.name) := by
  cases algorithm <;> decide

/-- The name may be spelt in any way. -/
theorem reads_algorithm_of_spells {token : Token} {algorithm : Algorithm}
    (spells : Spells token (Text.utf8 algorithm.name)) :
    Reads Json.algorithm [quoteMark :: token] algorithm := by
  intro more text ends spaced
  rw [List.singleton_append] at spaced
  obtain ⟨rest, peeked, behind⟩ := run_peekToken_spaced (by decide) spaced
  refine ⟨rest, ?_, behind⟩
  rw [Json.algorithm, Reader.run_bind_of_ok peeked]
  simp only [if_true]
  rw [Reader.run_bind_of_ok (Reader.run_skip _), List.tail_cons,
    Reader.run_bind_of_ok (spells rest), algorithmNamed, Text.ofUtf8_utf8,
    Algorithm.ofName?_name, Reader.run_pure]

theorem reads_algorithm (algorithm : Algorithm) :
    Reads Json.algorithm (algorithmTokens algorithm) algorithm :=
  reads_algorithm_of_spells (spells_plain (plain_name algorithm))

/-! ## Configurations -/

theorem reads_threshold (n : UInt64) : Reads threshold [decimal n.toNat] n := by
  have small : n.toNat ≤ UInt64.size - 1 := Nat.le_of_lt_succ n.toNat_lt
  have reads := (reads_natural .threshold small (by decide)).map UInt64.ofNat
  rwa [UInt64.ofNat_toNat] at reads

theorem takesField_algorithm (draft : ConfigDraft) :
    TakesField configField draft algorithmKey draft.algorithm Json.algorithm
      fun value => { draft with algorithm := some value } := by
  rw [TakesField, configField, if_pos rfl]

theorem takesField_threshold (draft : ConfigDraft) :
    TakesField configField draft thresholdKey draft.threshold threshold
      fun value => { draft with threshold := some value } := by
  rw [TakesField, configField, if_neg (by decide), if_pos rfl]

theorem folds_config (config : Config) :
    Folds (ReadsMember configField) {}
      [memberTokens algorithmKey (algorithmTokens config.algorithm),
        memberTokens thresholdKey [decimal config.parallelThreshold.toNat]]
      ⟨some config.algorithm, some config.parallelThreshold⟩ :=
  .member (.member (spells_plain (by decide))
      ((takesField_algorithm _).reads rfl (reads_algorithm config.algorithm)))
    (.member (.member (spells_plain (by decide))
        ((takesField_threshold _).reads rfl (reads_threshold config.parallelThreshold))) (.done _))

theorem reads_config (config : Config) : Reads Json.config (configTokens config) config :=
  (enters_fields .config _ _).reads ((folds_config config).members.map ConfigDraft.config)

/-! ## Proofs -/

theorem reads_index (n : UInt32) : Reads index [decimal n.toNat] n := by
  have small : n.toNat ≤ UInt32.size - 1 := Nat.le_of_lt_succ n.toNat_lt
  have reads := (reads_natural .index small (by decide)).map UInt32.ofNat
  rwa [UInt32.ofNat_toNat] at reads

theorem takesField_leaf (draft : ProofDraft) :
    TakesField proofField draft leafKey draft.leaf digest
      fun value => { draft with leaf := some value } := by
  rw [TakesField, proofField, if_pos rfl]

theorem takesField_index (draft : ProofDraft) :
    TakesField proofField draft indexKey draft.leafIndex index
      fun value => { draft with leafIndex := some value } := by
  rw [TakesField, proofField, if_neg (by decide), if_pos rfl]

theorem takesField_siblings (draft : ProofDraft) :
    TakesField proofField draft siblingsKey draft.siblings siblings
      fun value => { draft with siblings := some value } := by
  rw [TakesField, proofField, if_neg (by decide), if_neg (by decide), if_pos rfl]

theorem folds_proof (proof : InclusionProof) :
    Folds (ReadsMember proofField) {}
      [memberTokens leafKey (digestTokens proof.leaf),
        memberTokens indexKey [decimal proof.leafIndex.toNat],
        memberTokens siblingsKey (siblingsTokens proof.siblings)]
      ⟨some proof.leaf, some proof.leafIndex, some proof.siblings⟩ :=
  .member (.member (spells_plain (by decide))
      ((takesField_leaf _).reads rfl (reads_digest proof.leaf)))
    (.member (.member (spells_plain (by decide))
        ((takesField_index _).reads rfl (reads_index proof.leafIndex)))
      (.member (.member (spells_plain (by decide))
          ((takesField_siblings _).reads rfl (reads_siblings proof.siblings))) (.done _)))

theorem reads_proof (proof : InclusionProof) : Reads Json.proof (proofTokens proof) proof := by
  apply (enters_fields .proof _ _).reads
  intro more text ends spaced
  obtain ⟨rest, read, behind⟩ := (folds_proof proof).members more text ends spaced
  exact ⟨rest, by rw [proofObject, Reader.run_bind_of_ok read]; rfl, behind⟩

/-! ## Round trips -/

theorem digest_roundTrip : RoundTrip digestTokens Digest.toJson Digest.ofJson :=
  .of_reads ascii_digestTokens flatten_digestTokens reads_digest

theorem algorithm_roundTrip : RoundTrip algorithmTokens Algorithm.toJson Algorithm.ofJson :=
  .of_reads ascii_algorithmTokens flatten_algorithmTokens reads_algorithm

theorem config_roundTrip : RoundTrip configTokens Config.toJson Config.ofJson :=
  .of_reads ascii_configTokens flatten_configTokens reads_config

theorem proof_roundTrip : RoundTrip proofTokens InclusionProof.toJson InclusionProof.ofJson :=
  .of_reads ascii_proofTokens flatten_proofTokens reads_proof

/-- A configuration that has been read is loaded if it passes its check. -/
theorem load_of_ofJson {text : String} {config : Config} (read : Config.ofJson text = .ok config) :
    Config.load text =
      if config.parallelThreshold = 0 then
        .error { kind := .invalidConfig, reason := .zeroThreshold }
      else .ok config := by
  rw [Config.load, read]
  change (do config.validate; pure config) = _
  by_cases zero : config.parallelThreshold = 0
  · rw [Config.validate, if_pos zero, if_pos zero]
    rfl
  · rw [Config.validate, if_neg zero, if_neg zero]
    rfl

/-- All values are read back from their texts, with any white space around the tokens. From the text
of a configuration it is loaded too, or refused for a threshold of zero; and a proof that has been
read leads to the same roots as the one that was written. -/
theorem values_round_trip :
    RoundTrip digestTokens Digest.toJson Digest.ofJson ∧
    RoundTrip algorithmTokens Algorithm.toJson Algorithm.ofJson ∧
    RoundTrip configTokens Config.toJson Config.ofJson ∧
    RoundTrip proofTokens InclusionProof.toJson InclusionProof.ofJson ∧
    (∀ (config : Config) (text : String), Spaced (configTokens config) (Text.utf8 text) →
      (1 ≤ config.parallelThreshold → Config.load text = .ok config) ∧
      (config.parallelThreshold = 0 →
        ∃ error, Config.load text = .error error ∧ error.kind = .invalidConfig ∧
          error.code.code = 1009 ∧ error.reason = .zeroThreshold)) ∧
    ∀ (proof : InclusionProof) (text : String), Spaced (proofTokens proof) (Text.utf8 text) →
      ∃ read, InclusionProof.ofJson text = .ok read ∧
        ∀ hasher root, read.verify hasher root = proof.verify hasher root := by
  refine ⟨digest_roundTrip, algorithm_roundTrip, config_roundTrip, proof_roundTrip, ?_, ?_⟩
  · intro config text spaced
    have loaded := load_of_ofJson (config_roundTrip.read_spaced config text spaced)
    constructor
    · intro positive
      rw [loaded, if_neg]
      rintro zero
      rw [zero] at positive
      exact absurd positive (by decide)
    · intro zero
      rw [if_pos zero] at loaded
      exact ⟨_, loaded, rfl, rfl, rfl⟩
  · intro proof text spaced
    exact ⟨proof, proof_roundTrip.read_spaced proof text spaced, fun _ _ => rfl⟩

/-- White space of every kind around the tokens of a name and of a configuration that is not loaded;
and the compact texts of one that is, and of a proof. -/
theorem values_round_trip_with_white_space :
    Algorithm.ofJson "\r\n\"double_sha256\"\t" = .ok .doubleSha256 ∧
    (∃ error, Config.load
        "\x7b\n\"algorithm\" : \"sha256\",\t\"parallel_threshold\":\r0 \x7d\n" = .error error ∧
      error.kind = .invalidConfig ∧ error.code.code = 1009 ∧ error.reason = .zeroThreshold) ∧
    Config.load (Config.toJson ⟨.blake3, 1⟩) = .ok ⟨.blake3, 1⟩ ∧
    ∃ read, InclusionProof.ofJson (InclusionProof.toJson ⟨.zero, 5, [.zero]⟩) = .ok read ∧
      ∀ hasher root, read.verify hasher root = Tree.verify hasher root .zero 5 [.zero] := by
  obtain ⟨-, algorithms, configs, proofs, loads, verdicts⟩ := values_round_trip
  have name_text : Text.utf8 "\r\n\"double_sha256\"\t" =
      [0x0d, 0x0a] ++ (encodeName "double_sha256" ++ [0x09]) := by decide
  have name_spaced : Spaced (algorithmTokens .doubleSha256)
      (Text.utf8 "\r\n\"double_sha256\"\t") := by
    rw [name_text]
    exact .token (by decide) (.done (by decide))
  have zero_tokens : configTokens ⟨.sha256, 0⟩ =
      [[openBrace], encodeName algorithmKey, [colonMark], encodeName "sha256", [comma],
        encodeName thresholdKey, [colonMark], [0x30], [closeBrace]] := by
    simp [configTokens, enclosedTokens, separated, memberTokens, algorithmTokens, Algorithm.name,
      decimal]
  have zero_text : Text.utf8
      "\x7b\n\"algorithm\" : \"sha256\",\t\"parallel_threshold\":\r0 \x7d\n" =
      [openBrace] ++ ([0x0a] ++ (encodeName algorithmKey ++ ([0x20] ++ ([colonMark] ++ ([0x20] ++
        (encodeName "sha256" ++ ([comma] ++ ([0x09] ++ (encodeName thresholdKey ++ ([colonMark] ++
          ([0x0d] ++ ([0x30] ++ ([0x20] ++ ([closeBrace] ++ [0x0a])))))))))))))) := by decide
  have zero_spaced : Spaced (configTokens ⟨.sha256, 0⟩)
      (Text.utf8 "\x7b\n\"algorithm\" : \"sha256\",\t\"parallel_threshold\":\r0 \x7d\n") := by
    rw [zero_tokens, zero_text]
    exact .here (.token (by decide) (.token (by decide) (.token (by decide) (.here
      (.token (by decide) (.here (.token (by decide) (.token (by decide)
        (.done (by decide))))))))))
  refine ⟨algorithms.read_spaced _ _ name_spaced, (loads _ _ zero_spaced).2 rfl, ?_, ?_⟩
  · refine (loads ⟨.blake3, 1⟩ _ ?_).1 (by decide)
    rw [configs.utf8_write]
    exact spaced_flatten _
  · refine verdicts ⟨.zero, 5, [.zero]⟩ _ ?_
    rw [proofs.utf8_write]
    exact spaced_flatten _

end Merkle.Json

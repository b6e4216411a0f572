import Merkle.Proofs.Json.Awaiting
import Merkle.Proofs.Json.RoundTrip

/-!
# Truncation: texts that end too early

A written text without its end is never read as another value, nor is anything in it called wrong.
For each type of values the reader awaits what is written, from numbers up to proofs with any number
of siblings; as nothing stands behind a whole text, the text that is left can only end too early
(`truncated_texts`).
-/
namespace Merkle.Json

/-! ## Numbers and digests -/

theorem guesses_byte (b : UInt8) : Guesses byte (decimal b.toNat) b := by
  have small : b.toNat ≤ 255 := Nat.le_of_lt_succ b.toNat_lt
  have guesses := (guesses_natural .byte small (by decide)).map UInt8.ofNat
  rwa [UInt8.ofNat_toNat] at guesses

theorem guesses_threshold (n : UInt64) : Guesses threshold (decimal n.toNat) n := by
  have small : n.toNat ≤ UInt64.size - 1 := Nat.le_of_lt_succ n.toNat_lt
  have guesses := (guesses_natural .threshold small (by decide)).map UInt64.ofNat
  rwa [UInt64.ofNat_toNat] at guesses

theorem guesses_index (n : UInt32) : Guesses index (decimal n.toNat) n := by
  have small : n.toNat ≤ UInt32.size - 1 := Nat.le_of_lt_succ n.toNat_lt
  have guesses := (guesses_natural .index small (by decide)).map UInt32.ofNat
  rwa [UInt32.ofNat_toNat] at guesses

/-- A byte in front of others that have been counted. -/
def consByte {count : Nat} (b : UInt8) (more : { l : List UInt8 // l.length = count }) :
    { l : List UInt8 // l.length = count + 1 } :=
  ⟨b :: more.val, by rw [List.length_cons, more.property]⟩

/-- A byte, and others behind it that may be guessed; where the byte itself has been guessed, the
text is at its end. -/
theorem guesses_byte_bytes (b : UInt8) {l : List UInt8} {count : Nat} (length : l.length = count)
    (guesses : Guesses (bytes false count)
      (separated false (l.map fun b => [decimal b.toNat])).flatten ⟨l, length⟩) :
    Guesses (do
        let b ← byte
        return consByte b (← bytes false count))
      (decimal b.toNat ++ (separated false (l.map fun b => [decimal b.toNat])).flatten)
      (consByte b ⟨l, length⟩) := by
  refine (guesses_byte b).bind (fun other _ => ?_) (fun _ => endsNumber_separated _)
    (guesses.map (consByte b))
  cases count with
  | zero => exact .inr ⟨_, trivial, rfl⟩
  | succ count => exact .inl ⟨_, rfl, rfl⟩

/-- Bytes in a list; the last one may be guessed. -/
theorem guesses_bytes {l : List UInt8} {count : Nat} (length : l.length = count) (first : Bool) :
    Guesses (bytes first count) (separated first (l.map fun b => [decimal b.toNat])).flatten
      ⟨l, length⟩ := by
  induction l generalizing first count with
  | nil =>
    subst length
    exact (awaits_pure _).guesses
  | cons b l ih =>
    cases count with
    | zero => cases length
    | succ count =>
      have from_byte := guesses_byte_bytes b (Nat.succ.inj length) (ih (Nat.succ.inj length) false)
      intro text lost behind more ends cut
      obtain ⟨c, digits, written, digit, -⟩ := exists_decimal_eq_cons b.toNat
      have opens : c ≠ closeBracket := ne_closeBracket_of_isDigit digit
      rw [List.map_cons, flatten_separated_cons, List.flatten_singleton, List.append_assoc,
        written] at cut
      rw [written] at from_byte
      rcases element_of_cut (isSpace_of_isDigit digit) opens cut with starves | ⟨rest, read, same⟩
      · exact .inl starves.bind
      · have entered := from_byte (c :: rest) lost behind more ends (congrArg (c :: ·) same)
        unfold Starves at entered ⊢
        rw [bytes, Reader.run_bind_of_ok read]
        exact entered

theorem awaits_digestElements (d : Digest) :
    Awaits digestElements
      (separated true (d.bytes.map fun b => [decimal b.toNat]) ++ [[closeBracket]]).flatten d := by
  rw [List.flatten_append, List.flatten_singleton]
  exact (guesses_bytes d.length_bytes true).awaits_bind (fun _ => ⟨_, rfl, rfl⟩)
    (endsNumber_cons (by decide)) (awaits_endOfList.map fun _ => d)

theorem awaits_digest (d : Digest) : Awaits digest (digestTokens d).flatten d :=
  awaits_list .digest (awaits_digestElements d)

/-- Each round takes one digest off the siblings that are still to come. -/
theorem loopAwaits_digestsFrom (siblings : List Digest) (first : Bool) (read : List Digest) :
    LoopAwaits (digestsFrom first read)
      (separated first (siblings.map digestTokens) ++ [[closeBracket]]).flatten
      (read.reverse ++ siblings) := by
  induction siblings generalizing first read with
  | nil =>
    intro whole text le lost behind more cut
    rcases element_done_of_cut first cut with ⟨stop, failed, ended⟩ | ⟨rest, found, others⟩
    · refine .inl ⟨stop, ?_, ended⟩
      rw [digestsFrom, Reader.eq_error_of_run failed]
    · obtain ⟨within, result⟩ := Reader.exists_eq_of_run found
      refine .inr ⟨rest, .tail (within.trans le), ?_, others⟩
      rw [digestsFrom, result, List.append_nil]
      rfl
  | cons d siblings ih =>
    intro whole text le lost behind more cut
    rw [List.flatten_append, List.map_cons, flatten_separated_cons, List.append_assoc,
      List.append_assoc, List.append_assoc] at cut
    rcases element_of_cut (by decide) (by decide) cut with
      ⟨stop, failed, ended⟩ | ⟨rest, found, others⟩
    · refine .inl ⟨stop, ?_, ended⟩
      rw [digestsFrom, Reader.eq_error_of_run failed]
    · obtain ⟨within, result⟩ := Reader.exists_eq_of_run found
      rcases (awaits_digestElements d).outcome more others with
        ⟨stop, failed, ended⟩ | ⟨middle, within', result', following⟩
      · refine .inl ⟨stop, ?_, ended⟩
        rw [digestsFrom]
        simp only [result, if_true, failed]
      · have later := ih false (d :: read)
        rw [List.reverse_cons, List.append_assoc, List.singleton_append] at later
        rw [digestsFrom]
        simp only [result, if_true, result']
        refine later whole middle _ lost behind more ?_
        rw [List.flatten_append, List.append_assoc, following]

theorem awaits_siblings (siblings : List Digest) :
    Awaits Json.siblings (siblingsTokens siblings).flatten siblings :=
  awaits_list .siblings (loopAwaits_digestsFrom siblings true []).awaits

/-! ## Names -/

theorem awaits_algorithm (algorithm : Algorithm) :
    Awaits Json.algorithm (algorithmTokens algorithm).flatten algorithm := by
  have named : algorithmNamed (Text.utf8 algorithm.name) = pure algorithm := by
    rw [algorithmNamed, Text.ofUtf8_utf8, Algorithm.ofName?_name]
  have awaits : Awaits (string >>= algorithmNamed)
      ((Text.utf8 algorithm.name ++ [quoteMark]) ++ []) algorithm :=
    (awaits_string (plain_name algorithm)).bind (by rw [named]; exact awaits_pure algorithm)
  rw [List.append_nil] at awaits
  rw [algorithmTokens, List.flatten_singleton]
  exact awaits_token (by decide) ⟨_, rfl, rfl⟩
    (fun _ => Reader.run_bind_of_ok (Reader.run_skip _)) awaits

/-! ## Configurations and proofs -/

theorem awaits_configMembers (config : Config) :
    Folds (AwaitsMember configField) {}
      [memberTokens algorithmKey (algorithmTokens config.algorithm),
        memberTokens thresholdKey [decimal config.parallelThreshold.toNat]]
      ⟨some config.algorithm, some config.parallelThreshold⟩ := by
  have threshold_written : Guesses threshold [decimal config.parallelThreshold.toNat].flatten
      config.parallelThreshold := by
    rw [List.flatten_singleton]
    exact guesses_threshold config.parallelThreshold
  exact .member (.member (by decide)
      ((takesField_algorithm _).guesses rfl (awaits_algorithm config.algorithm).guesses))
    (.member (.member (by decide) ((takesField_threshold _).guesses rfl threshold_written))
      (.done _))

theorem awaits_config (config : Config) : Awaits Json.config (configTokens config).flatten config :=
  awaits_fields .config ((awaits_configMembers config).awaits.map ConfigDraft.config)

theorem awaits_proofMembers (proof : InclusionProof) :
    Folds (AwaitsMember proofField) {}
      [memberTokens leafKey (digestTokens proof.leaf),
        memberTokens indexKey [decimal proof.leafIndex.toNat],
        memberTokens siblingsKey (siblingsTokens proof.siblings)]
      ⟨some proof.leaf, some proof.leafIndex, some proof.siblings⟩ := by
  have index_written : Guesses index [decimal proof.leafIndex.toNat].flatten proof.leafIndex := by
    rw [List.flatten_singleton]
    exact guesses_index proof.leafIndex
  exact .member (.member (by decide)
      ((takesField_leaf _).guesses rfl (awaits_digest proof.leaf).guesses))
    (.member (.member (by decide) ((takesField_index _).guesses rfl index_written))
      (.member (.member (by decide)
          ((takesField_siblings _).guesses rfl (awaits_siblings proof.siblings).guesses))
        (.done _)))

theorem awaits_proof (proof : InclusionProof) :
    Awaits Json.proof (proofTokens proof).flatten proof := by
  apply awaits_fields
  have awaits : Awaits proofObject ((separated true _ ++ [[closeBrace]]).flatten ++ []) proof :=
    (awaits_proofMembers proof).awaits.bind (awaits_pure proof)
  rwa [List.append_nil] at awaits

/-! ## Whole texts -/

theorem utf8_append (s t : String) : Text.utf8 (s ++ t) = Text.utf8 s ++ Text.utf8 t := by
  simp [Text.utf8]

/-- The error of a text that ends too early, which is not the client's. -/
def EndedEarly {β : Type} (result : Except Error β) : Prop :=
  ∃ error, result = .error error ∧ error.kind = .serialization ∧ error.code.code = 6001 ∧
    error.isServer = true ∧ error.isClient = false

/-- Nothing is behind a whole text, so a text that has been cut short cannot be read. -/
theorem endedEarly_parse {α : Type} {reader : Reader α} {tokens : List Token} {value : α}
    {whole cut lost : String} (awaits : Awaits reader tokens.flatten value)
    (utf8_whole : Text.utf8 whole = tokens.flatten) (parts : cut ++ lost = whole)
    (short : lost ≠ "") : EndedEarly (parse reader cut) := by
  have more : Text.utf8 lost ≠ [] := fun none_lost => short (Text.utf8_inj.mp none_lost)
  rw [← utf8_whole, ← parts, utf8_append] at awaits
  rcases awaits.read_or_starves more (List.append_nil _).symm with
    ⟨stop, failed, ended⟩ | ⟨rest, -, others⟩
  · have same : Error.ofJsonFailure (Reader.locate (Text.utf8 cut) stop) =
        { kind := .serialization, reason := .jsonText (Reader.locate (Text.utf8 cut) stop) } := by
      rw [Error.ofJsonFailure, Reader.locate, if_pos ended]
    have refused := parse_of_error failed
    rw [same] at refused
    exact ⟨_, refused, rfl, rfl, rfl, rfl⟩
  · exact absurd (List.append_eq_nil_iff.mp others).2 more

/-- Nothing is loaded from a text that cannot be read. -/
theorem EndedEarly.load {text : String} (ended : EndedEarly (Config.ofJson text)) :
    EndedEarly (Config.load text) := by
  obtain ⟨error, failed, rest⟩ := ended
  refine ⟨error, ?_, rest⟩
  rw [Config.load, failed]
  rfl

/-- A written text without its end, down to the empty text, is never read, and the error is always
that of a text that ends too early: for every value, wherever the cut falls. A configuration is not
loaded from it either, whatever its threshold. -/
theorem truncated_texts :
    (∀ (d : Digest) (cut lost : String), cut ++ lost = d.toJson → lost ≠ "" →
      EndedEarly (Digest.ofJson cut)) ∧
    (∀ (algorithm : Algorithm) (cut lost : String), cut ++ lost = algorithm.toJson → lost ≠ "" →
      EndedEarly (Algorithm.ofJson cut)) ∧
    (∀ (config : Config) (cut lost : String), cut ++ lost = config.toJson → lost ≠ "" →
      EndedEarly (Config.ofJson cut) ∧ EndedEarly (Config.load cut)) ∧
    ∀ (proof : InclusionProof) (cut lost : String), cut ++ lost = proof.toJson → lost ≠ "" →
      EndedEarly (InclusionProof.ofJson cut) := by
  refine ⟨?_, ?_, ?_, ?_⟩
  · intro d cut lost parts short
    exact endedEarly_parse (awaits_digest d) (digest_roundTrip.utf8_write d) parts short
  · intro algorithm cut lost parts short
    exact endedEarly_parse (awaits_algorithm algorithm) (algorithm_roundTrip.utf8_write algorithm)
      parts short
  · intro config cut lost parts short
    have ended : EndedEarly (Config.ofJson cut) :=
      endedEarly_parse (awaits_config config) (config_roundTrip.utf8_write config) parts short
    exact ⟨ended, ended.load⟩
  · intro proof cut lost parts short
    exact endedEarly_parse (awaits_proof proof) (proof_roundTrip.utf8_write proof) parts short

/-- The empty text; a name without its last quote; a threshold without its last digit; and a proof
that breaks off in its leaf. -/
theorem truncated_texts_within_values :
    EndedEarly (Digest.ofJson "") ∧ EndedEarly (Algorithm.ofJson "\"sha256") ∧
      EndedEarly (Config.load "\x7b\"algorithm\":\"sha256\",\"parallel_threshold\":6") ∧
      EndedEarly (InclusionProof.ofJson "\x7b\"leaf\":[0,0,0,0,0,0,0,0,0,0,0,0,0,0,0,0,0") := by
  obtain ⟨digests, algorithms, configs, proofs⟩ := truncated_texts
  have zero : decimal (0 : UInt8).toNat = [0x30] := by simp [decimal]
  have zeros : digestTokens .zero =
      enclosedTokens openBracket closeBracket (List.replicate 32 [[0x30]]) := by
    rw [digestTokens, Digest.zero, List.map_replicate, zero]
  have digest_parts :
      "" ++ "[0,0,0,0,0,0,0,0,0,0,0,0,0,0,0,0,0,0,0,0,0,0,0,0,0,0,0,0,0,0,0,0]" =
        Digest.toJson .zero := by
    rw [← Text.utf8_inj, digest_roundTrip.utf8_write, zeros]
    rfl
  have sixty_four : decimal (64 : UInt64).toNat = [0x36, 0x34] := by simp [decimal]
  have config_parts : "\x7b\"algorithm\":\"sha256\",\"parallel_threshold\":6" ++ "4\x7d" =
      Config.toJson ⟨.sha256, 64⟩ := by
    rw [← Text.utf8_inj, config_roundTrip.utf8_write, configTokens, sixty_four]
    rfl
  have five : decimal (5 : UInt32).toNat = [0x35] := by simp [decimal]
  have proof_parts : "\x7b\"leaf\":[0,0,0,0,0,0,0,0,0,0,0,0,0,0,0,0,0" ++
      ",0,0,0,0,0,0,0,0,0,0,0,0,0,0,0],\"leaf_index\":5,\"siblings\":[]\x7d" =
        InclusionProof.toJson ⟨.zero, 5, []⟩ := by
    rw [← Text.utf8_inj, proof_roundTrip.utf8_write, proofTokens, zeros, five]
    rfl
  exact ⟨digests _ _ _ digest_parts (by decide),
    algorithms .sha256 _ "\"" (by decide) (by decide),
    (configs _ _ _ config_parts (by decide)).2, proofs _ _ _ proof_parts (by decide)⟩

end Merkle.Json

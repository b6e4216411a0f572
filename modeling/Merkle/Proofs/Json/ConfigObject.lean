import Merkle.Proofs.Json.RoundTrip
import Merkle.Proofs.Json.Skipping

/-!
# Objects of configurations: members in any order, known and unknown

The members of an object are folded into a draft one by one. As long as each known key comes once,
the draft holds the values that the members give, in whatever order they come and whatever unknown
members stand between them; a known key that comes again ends the reading with a fault, wherever it
stands (`load_config_object`).
-/
namespace Merkle.Json

/-- A member of the object of a configuration; `other` has a key that no field has. -/
inductive ConfigMember where
  | algorithm (value : Algorithm)
  | threshold (value : UInt64)
  | other (key : String)
  deriving DecidableEq, Repr

namespace ConfigMember

/-- The algorithm that the member gives. -/
def algorithm? : ConfigMember → Option Algorithm
  | .algorithm value => some value
  | _ => none

/-- The threshold that the member gives. -/
def threshold? : ConfigMember → Option UInt64
  | .threshold value => some value
  | _ => none

/-- Whether a field has the key. -/
def isKnown : ConfigMember → Bool
  | .other _ => false
  | _ => true

/-- The member as tokens. Its key and the name of an algorithm may be spelled in any way, and under
an unknown key stands any well-formed value. -/
inductive Written : ConfigMember → List Token → Prop
  | algorithm {value : Algorithm} {key name : Token} (keyed : Quoted algorithmKey key)
      (named : Quoted value.name name) : Written (.algorithm value) [key, [colonMark], name]
  | threshold {value : UInt64} {key : Token} (keyed : Quoted thresholdKey key) :
      Written (.threshold value) [key, [colonMark], decimal value.toNat]
  | other {key : String} {token : Token} {value : List Token} (keyed : Quoted key token)
      (unknown : key ≠ algorithmKey ∧ key ≠ thresholdKey) (wellFormed : WellFormed value) :
      Written (.other key) (token :: [colonMark] :: value)

end ConfigMember

open ConfigMember

/-- A text is an object of the members in this order, with any white space. -/
def ObjectText (members : List ConfigMember) (text : String) : Prop :=
  ∃ items, List.Forall₂ Written members items ∧
    Spaced (enclosedTokens openBrace closeBrace items) (Text.utf8 text)

/-- The algorithms that the members give. -/
def algorithms (members : List ConfigMember) : List Algorithm := members.filterMap algorithm?

/-- The thresholds that the members give. -/
def thresholds (members : List ConfigMember) : List UInt64 := members.filterMap threshold?

/-- The configuration that the members give, with defaults for what they do not. -/
def given (members : List ConfigMember) : Config :=
  ⟨(algorithms members).head?.getD .blake3,
    (thresholds members).head?.getD Config.defaultThreshold⟩

/-! ## One member -/

namespace ConfigDraft

/-- The draft does not have the member's field yet. -/
def Room (draft : ConfigDraft) : ConfigMember → Prop
  | .algorithm _ => draft.algorithm = none
  | .threshold _ => draft.threshold = none
  | .other _ => True

/-- The draft with the member's field. -/
def add (draft : ConfigDraft) : ConfigMember → ConfigDraft
  | .algorithm value => { draft with algorithm := some value }
  | .threshold value => { draft with threshold := some value }
  | .other _ => draft

/-- The algorithms of a draft and of the members still to come. -/
def algorithms (draft : ConfigDraft) (members : List ConfigMember) : List Algorithm :=
  draft.algorithm.toList ++ Json.algorithms members

/-- The thresholds of a draft and of the members still to come. -/
def thresholds (draft : ConfigDraft) (members : List ConfigMember) : List UInt64 :=
  draft.threshold.toList ++ Json.thresholds members

variable {draft : ConfigDraft} {member : ConfigMember} {members : List ConfigMember}

/-- What is given stays the same when a member moves into the draft. -/
theorem given_add (room : draft.Room member) :
    (draft.add member).algorithms members = draft.algorithms (member :: members) ∧
      (draft.add member).thresholds members = draft.thresholds (member :: members) := by
  cases member with
  | algorithm value =>
    change draft.algorithm = none at room
    refine ⟨?_, rfl⟩
    simp [algorithms, add, Json.algorithms, algorithm?, room]
  | threshold value =>
    change draft.threshold = none at room
    refine ⟨rfl, ?_⟩
    simp [thresholds, add, Json.thresholds, threshold?, room]
  | other key => exact ⟨rfl, rfl⟩

/-- There is room for what is given once. -/
theorem room_of_once (algorithm_once : (draft.algorithms (member :: members)).length ≤ 1)
    (threshold_once : (draft.thresholds (member :: members)).length ≤ 1) : draft.Room member := by
  cases member with
  | algorithm value =>
    change draft.algorithm = none
    cases given : draft.algorithm with
    | none => rfl
    | some earlier =>
      simp [algorithms, Json.algorithms, algorithm?, given] at algorithm_once
  | threshold value =>
    change draft.threshold = none
    cases given : draft.threshold with
    | none => rfl
    | some earlier =>
      simp [thresholds, Json.thresholds, threshold?, given] at threshold_once
  | other key => trivial

end ConfigDraft

variable {draft : ConfigDraft} {member : ConfigMember} {members : List ConfigMember}
  {item more : List Token} {items : List (List Token)} {text : List UInt8}

/-- What becomes of a draft when the key of a member has been read. -/
structure KeyRead (draft : ConfigDraft) (member : ConfigMember) (key : List UInt8)
    (value : List Token) : Prop where
  /-- A member that there is room for is added. -/
  reads : draft.Room member →
    Reads (configField key draft) ([colonMark] :: value) (draft.add member)
  /-- Another value for a field is a fault, before the value is looked at. -/
  fails : ¬ draft.Room member → ∀ text, ∃ name unread,
    (configField key draft).run text = .error ⟨.duplicateField name, unread⟩

/-- A member with a field of its own, which the draft has or not. -/
theorem KeyRead.of_field {α : Type} {name : String} {earlier : Option α} {reader : Reader α}
    {put : α → ConfigDraft} {given : α} {value : List Token}
    (takes : TakesField configField draft name earlier reader put)
    (room_iff : draft.Room member ↔ earlier = none) (added : draft.add member = put given)
    (reads : Reads reader value given) : KeyRead draft member (Text.utf8 name) value where
  reads room := by
    rw [added]
    exact takes.reads (room_iff.mp room) reads
  fails full text := by
    obtain ⟨unread, failed⟩ := takes.fails (fun absent => full (room_iff.mpr absent)) text
    exact ⟨name, unread, failed⟩

theorem ConfigMember.Written.keyRead (written : Written member item) (draft : ConfigDraft) :
    ∃ key token value, item = (quoteMark :: token) :: [colonMark] :: value ∧ Spells token key ∧
      KeyRead draft member key value := by
  cases written with
  | algorithm keyed named =>
    obtain ⟨token, rfl, spells⟩ := keyed.spells
    obtain ⟨behind, rfl, name_spells⟩ := named.spells
    exact ⟨_, token, _, rfl, spells, .of_field (takesField_algorithm draft) Iff.rfl rfl
      (reads_algorithm_of_spells name_spells)⟩
  | @threshold value key keyed =>
    obtain ⟨token, rfl, spells⟩ := keyed.spells
    exact ⟨_, token, _, rfl, spells, .of_field (takesField_threshold draft) Iff.rfl rfl
      (reads_threshold value)⟩
  | @other key _ value keyed unknown wellFormed =>
    obtain ⟨token, rfl, spells⟩ := keyed.spells
    refine ⟨_, token, _, rfl, spells, ⟨?_, fun full => absurd trivial full⟩⟩
    intro _
    rw [configField, if_neg (fun same => unknown.1 (Text.utf8_inj.mp same)),
      if_neg (fun same => unknown.2 (Text.utf8_inj.mp same))]
    exact wellFormed.reads_unknownField.map fun _ => draft

/-! ## All members -/

/-- Members that give no field twice are folded into a draft of what they give. -/
theorem folds_members (written : List.Forall₂ Written members items)
    (algorithm_once : (draft.algorithms members).length ≤ 1)
    (threshold_once : (draft.thresholds members).length ≤ 1) :
    Folds (ReadsMember configField) draft items
      ⟨(draft.algorithms members).head?, (draft.thresholds members).head?⟩ := by
  induction written generalizing draft with
  | nil =>
    have unchanged : draft =
        ⟨(draft.algorithms []).head?, (draft.thresholds []).head?⟩ := by
      obtain ⟨algorithm, threshold⟩ := draft
      cases algorithm <;> cases threshold <;> rfl
    rw [← unchanged]
    exact .done draft
  | cons written _ ih =>
    have room := ConfigDraft.room_of_once algorithm_once threshold_once
    obtain ⟨key, token, value, rfl, spells, read⟩ := written.keyRead draft
    rw [← (ConfigDraft.given_add room).1] at algorithm_once ⊢
    rw [← (ConfigDraft.given_add room).2] at threshold_once ⊢
    exact .member (.member spells (read.reads room)) (ih algorithm_once threshold_once)

/-- A field that is given twice is a fault, wherever the second value stands. -/
theorem membersFrom_twice (written : List.Forall₂ Written members items)
    (twice : 1 < (draft.algorithms members).length ∨ 1 < (draft.thresholds members).length)
    {first : Bool} {whole : List UInt8} (le : Within text whole)
    (spaced : Spaced (separated first items ++ [closeBrace] :: more) text) :
    ∃ name unread, membersFrom configField first draft whole text le =
      .error ⟨.duplicateField name, unread⟩ := by
  induction written generalizing draft first text with
  | nil =>
    exfalso
    obtain ⟨algorithm, threshold⟩ := draft
    revert twice
    cases algorithm <;> cases threshold <;> simp [ConfigDraft.algorithms, ConfigDraft.thresholds,
      algorithms, thresholds]
  | @cons member item members items written _ ih =>
    obtain ⟨key, token, value, rfl, spells, read⟩ := written.keyRead draft
    by_cases room : draft.Room member
    · obtain ⟨rest, within, round, spaced⟩ :=
        membersFrom_reads spells (read.reads room) ends_closeBrace le spaced
      rw [round]
      rw [← (ConfigDraft.given_add room).1, ← (ConfigDraft.given_add room).2] at twice
      exact ih twice within spaced
    · obtain ⟨start, inside, -, round⟩ := membersFrom_spells configField draft spells le spaced
      obtain ⟨name, unread, failed⟩ := read.fails room start
      refine ⟨name, unread, ?_⟩
      simp only [round, Reader.eq_error_of_run failed]

/-! ## Whole texts -/

theorem ofJson_objectText {text : String} (object : ObjectText members text)
    (algorithm_once : (algorithms members).length ≤ 1)
    (threshold_once : (thresholds members).length ≤ 1) :
    Config.ofJson text = .ok (given members) := by
  obtain ⟨items, written, spaced⟩ := object
  have folds : Folds (ReadsMember configField) {} items
      ⟨(algorithms members).head?, (thresholds members).head?⟩ :=
    folds_members written algorithm_once threshold_once
  exact ((enters_fields .config _ _).reads (folds.members.map ConfigDraft.config)).parse spaced

theorem load_objectText_twice {text : String} (object : ObjectText members text)
    (twice : 1 < (algorithms members).length ∨ 1 < (thresholds members).length) :
    ∃ name failure, Config.load text = .error (.ofJsonFailure failure) ∧
      failure.fault = .duplicateField name := by
  obtain ⟨items, written, spaced⟩ := object
  obtain ⟨inside, same, spaced⟩ := enters_fields .config configObject configList _ _ spaced
  -- The empty draft adds nothing to what the members give.
  have twice : 1 < (ConfigDraft.algorithms {} members).length ∨
      1 < (ConfigDraft.thresholds {} members).length := twice
  obtain ⟨name, unread, failed⟩ := membersFrom_twice written twice (.refl inside) spaced
  have members_failed : (Json.members configField {}).run inside =
      .error ⟨.duplicateField name, unread⟩ := by
    rw [Reader.run, Json.members, Reader.loop, failed]
  have config_failed : Json.config.run (Text.utf8 text) = .error ⟨.duplicateField name, unread⟩ :=
    same.trans (Reader.run_bind_of_error members_failed)
  refine ⟨name, Reader.locate (Text.utf8 text) ⟨.duplicateField name, unread⟩, ?_, rfl⟩
  rw [Config.load, Config.ofJson, parse_of_error config_failed]
  rfl

/-- A list of at most one value has no other order. -/
theorem eq_of_perm_of_once {α : Type} {l l' : List α} (perm : l'.Perm l) (once : l.length ≤ 1) :
    l' = l := by
  match l, once with
  | [], _ => exact perm.eq_nil
  | [value], _ => exact List.perm_singleton.mp perm

/-- What unknown members do not give is decided by the known ones, in any order if it is given
once. -/
theorem filterMap_of_perm {α : Type} {members' : List ConfigMember}
    {field : ConfigMember → Option α} (unknown : ∀ key, field (.other key) = none)
    (perm : (members'.filter isKnown).Perm (members.filter isKnown))
    (once : (members.filterMap field).length ≤ 1) :
    members'.filterMap field = members.filterMap field := by
  have known_only (members : List ConfigMember) :
      (members.filter isKnown).filterMap field = members.filterMap field := by
    rw [List.filterMap_filter]
    congr 1
    funext member
    cases member with
    | algorithm value => rfl
    | threshold value => rfl
    | other key => exact (unknown key).symm
  apply eq_of_perm_of_once _ once
  rw [← known_only, ← known_only members]
  exact perm.filterMap field

theorem validate_of_load {text : String} {config : Config}
    (loaded : Config.load text = .ok config) : config.validate = .ok () := by
  cases read : Config.ofJson text with
  | error error =>
    rw [Config.load, read] at loaded
    cases loaded
  | ok config' =>
    rw [load_of_ofJson read] at loaded
    split at loaded
    · cases loaded
    next positive =>
      cases loaded
      rw [Config.validate, if_neg positive]

/-- The meaning of the object of a configuration. Where each field is given at most once, the text
is loaded with what is given and with defaults for what is not, or refused for a threshold of zero;
the order of the members and the members under other keys do not matter. A field that is given
twice is a fault of the text. Whatever is loaded, from any text, has passed its check. -/
theorem load_config_object :
    (∀ members text, ObjectText members text →
      (algorithms members).length ≤ 1 → (thresholds members).length ≤ 1 →
        (1 ≤ (given members).parallelThreshold → Config.load text = .ok (given members)) ∧
        ((given members).parallelThreshold = 0 → ∃ error, Config.load text = .error error ∧
          error.kind = .invalidConfig ∧ error.code.code = 1009 ∧
          error.reason = .zeroThreshold) ∧
        ∀ members' text', ObjectText members' text' →
          (members'.filter isKnown).Perm (members.filter isKnown) →
            Config.load text' = Config.load text) ∧
    (∀ members text, ObjectText members text →
      1 < (algorithms members).length ∨ 1 < (thresholds members).length →
        ∃ error, Config.load text = .error error ∧ error.kind = .invalidFormat ∧
          error.code.code = 1008) ∧
    ∀ text config, Config.load text = .ok config → config.validate = .ok () := by
  refine ⟨?_, ?_, fun text config loaded => validate_of_load loaded⟩
  · intro members text object algorithm_once threshold_once
    have loaded := load_of_ofJson (ofJson_objectText object algorithm_once threshold_once)
    refine ⟨?_, ?_, ?_⟩
    · intro positive
      rw [loaded, if_neg]
      intro zero
      rw [zero] at positive
      exact absurd positive (by decide)
    · intro zero
      rw [if_pos zero] at loaded
      exact ⟨_, loaded, rfl, rfl, rfl⟩
    · intro members' text' object' perm
      have same : algorithms members' = algorithms members :=
        filterMap_of_perm (fun _ => rfl) perm algorithm_once
      have same' : thresholds members' = thresholds members :=
        filterMap_of_perm (fun _ => rfl) perm threshold_once
      rw [← same] at algorithm_once
      rw [← same'] at threshold_once
      rw [load_of_ofJson (ofJson_objectText object' algorithm_once threshold_once), loaded, given,
        given, same, same']
  · intro members text object twice
    obtain ⟨name, failure, failed, duplicate⟩ := load_objectText_twice object twice
    have kind : (Error.ofJsonFailure failure).kind = .invalidFormat := by
      rw [Error.ofJsonFailure, duplicate]
      rfl
    refine ⟨_, failed, kind, ?_⟩
    change (Error.ofJsonFailure failure).kind.code = 1008
    rw [kind]
    rfl

/-- Both fields in the other order, with an escape in a key, behind an unknown member that holds a
list, an object and half of a surrogate pair; the same fields alone; a threshold of zero; and a
field given twice. -/
theorem load_config_object_nested :
    let nested := "\n\x7b\"n\":[\x7b\"\\ud83d\":-1.5e3\x7d],\"parallel_threshold\":7," ++
      "\"\\u0061lgorithm\":\"sha256\"\x7d"
    Config.load nested = .ok ⟨.sha256, 7⟩ ∧
      Config.load (Config.toJson ⟨.sha256, 7⟩) = Config.load nested ∧
      Config.validate ⟨.sha256, 7⟩ = .ok () ∧
      (∃ error, Config.load "\x7b\"parallel_threshold\":0\x7d" = .error error ∧
        error.kind = .invalidConfig ∧ error.code.code = 1009 ∧ error.reason = .zeroThreshold) ∧
      ∃ error, Config.load "\x7b\"parallel_threshold\":7,\"parallel_threshold\":7\x7d" =
        .error error ∧ error.kind = .invalidFormat ∧ error.code.code = 1008 := by
  intro nested
  obtain ⟨once, twice, valid⟩ := load_config_object
  have letter_a : FourHex [0x30, 0x30, 0x36, 0x31] (((0 * 16 + 0) * 16 + 6) * 16 + 1) :=
    .digits ⟨_, List.mem_cons_self, rfl⟩ ⟨_, List.mem_cons_self, rfl⟩
      ⟨_, List.mem_cons_self, rfl⟩ ⟨_, List.mem_cons_self, rfl⟩
  have surrogate : FourHex [0x64, 0x38, 0x33, 0x64] (((13 * 16 + 8) * 16 + 3) * 16 + 13) :=
    .digits ⟨_, List.mem_cons_self, rfl⟩ ⟨_, List.mem_cons_self, rfl⟩
      ⟨_, List.mem_cons_self, rfl⟩ ⟨_, List.mem_cons_self, rfl⟩
  have escaped_key : Quoted algorithmKey (Text.utf8 "\"\\u0061lgorithm\"") :=
    ⟨_, .cons (.unit letter_a) (forall₂_spelling_plain (by decide)), by decide⟩
  have half : StringToken (Text.utf8 "\"\\ud83d\"") :=
    ⟨[_], List.forall_mem_singleton.mpr (.unit surrogate), by decide⟩
  have number : NumberToken (Text.utf8 "-1.5e3") :=
    ⟨[minus], [0x31], [point, 0x35], [letterE, 0x33], by decide,
      ⟨by decide, by decide⟩, .inr ⟨[0x35], by decide, rfl⟩,
      .inr ⟨letterE, [], [0x33], by decide, by decide, by decide, rfl⟩, by decide⟩
  have inner : WellFormed (enclosedTokens openBrace closeBrace
      ([(Text.utf8 "\"\\ud83d\"", [Text.utf8 "-1.5e3"])].map fun m => m.1 :: [colonMark] :: m.2)) :=
    .object (List.forall_mem_singleton.mpr half)
      (List.forall_mem_singleton.mpr (.scalar (.number number)))
  have seven : decimal (7 : UInt64).toNat = [0x37] := by simp [decimal]
  have threshold : Written (.threshold 7) [encodeName thresholdKey, [colonMark], [0x37]] := by
    rw [← seven]
    exact .threshold (quoted_encodeName (by decide))
  have object : ObjectText [.other "n", .threshold 7, .algorithm .sha256] nested := by
    refine ⟨_, .cons (.other (quoted_encodeName (by decide)) (by decide)
      (.list (List.forall_mem_singleton.mpr inner)))
      (.cons threshold (.cons (.algorithm escaped_key (quoted_encodeName (by decide))) .nil)), ?_⟩
    exact .token (by decide : Blank [0x0a]) (spaced_flatten _)
  have fields_text :
      ObjectText [.algorithm .sha256, .threshold 7] (Config.toJson ⟨.sha256, 7⟩) := by
    refine ⟨_, .cons (.algorithm (quoted_encodeName (by decide)) (quoted_encodeName (by decide)))
      (.cons (.threshold (quoted_encodeName (by decide))) .nil), ?_⟩
    rw [config_roundTrip.utf8_write]
    exact spaced_flatten _
  have zero : decimal (0 : UInt64).toNat = [0x30] := by simp [decimal]
  have zero_text : ObjectText [.threshold 0] "\x7b\"parallel_threshold\":0\x7d" := by
    refine ⟨_, .cons (.threshold (quoted_encodeName (by decide))) .nil, ?_⟩
    rw [zero]
    exact spaced_flatten _
  have twice_text : ObjectText [.threshold 7, .threshold 7]
      "\x7b\"parallel_threshold\":7,\"parallel_threshold\":7\x7d" :=
    ⟨_, .cons threshold (.cons threshold .nil), spaced_flatten _⟩
  obtain ⟨loaded, -, reordered⟩ := once _ nested object (by decide) (by decide)
  have nested_loaded : Config.load nested = .ok ⟨.sha256, 7⟩ := loaded (by decide)
  exact ⟨nested_loaded, reordered _ _ fields_text (by decide), valid _ _ nested_loaded,
    (once _ _ zero_text (by decide) (by decide)).2.1 (by decide),
    twice _ _ twice_text (.inr (by decide))⟩

end Merkle.Json

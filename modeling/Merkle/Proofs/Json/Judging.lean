import Merkle.Proofs.Json.Reading

/-!
# Judging: readers before tokens that may not fit

Tokens of the right form may still say what no value can hold. A reader that `Judges` them takes a
value only if it stands for all that is written, and otherwise refuses the text; which of the two it
does is left open, so that a refusal anywhere ends the whole. What is refused so is malformed rather
than unfinished, and the fault is the client's (`Judges.parse`).
-/
namespace Merkle.Json

variable {α β σ : Type} {reader : Reader α} {tokens more : List Token} {text whole : List UInt8}
  {StandsFor : α → Prop}

/-! ## Readers that judge -/

/-- A text is refused for what it says; more of it would not help. -/
def Refused (outcome : Except Stop α) : Prop :=
  ∃ stop, outcome = .error stop ∧ stop.fault.isEndOfInput = false

/-- The reader finds a value that stands for the tokens, whatever white space there is, and leaves
what follows; or it refuses the text. -/
def Judges (reader : Reader α) (tokens : List Token) (StandsFor : α → Prop) : Prop :=
  ∀ more text, Ends more → Spaced (tokens ++ more) text →
    Refused (reader.run text) ∨
      ∃ value rest, StandsFor value ∧ reader.run text = .ok (value, rest) ∧ Spaced more rest

theorem refused_bind {next : α → Reader β} (refused : Refused (reader.run text)) :
    Refused ((reader >>= next).run text) := by
  obtain ⟨stop, failed, malformed⟩ := refused
  exact ⟨stop, Reader.run_bind_of_error failed, malformed⟩

theorem refused_bind_of_ok {next : α → Reader β} {value : α} {rest : List UInt8}
    (read : reader.run text = .ok (value, rest)) (refused : Refused ((next value).run rest)) :
    Refused ((reader >>= next).run text) := by
  rwa [Reader.run_bind_of_ok read]

/-- What is made of a value without reading on is judged with it. -/
theorem Judges.bind_pure {StandsFor' : β → Prop} {next : α → Reader β}
    (judges : Judges reader tokens StandsFor)
    (makes : ∀ value, StandsFor value → ∃ result, StandsFor' result ∧ next value = pure result) :
    Judges (reader >>= next) tokens StandsFor' := by
  intro more text ends spaced
  rcases judges more text ends spaced with refused | ⟨value, rest, stands, read, behind⟩
  · exact .inl (refused_bind refused)
  · obtain ⟨result, stands', made⟩ := makes value stands
    refine .inr ⟨result, rest, stands', ?_, behind⟩
    rw [Reader.run_bind_of_ok read, made, Reader.run_pure]

theorem Judges.imp {StandsFor' : α → Prop} (judges : Judges reader tokens StandsFor)
    (implies : ∀ value, StandsFor value → StandsFor' value) : Judges reader tokens StandsFor' := by
  intro more text ends spaced
  rcases judges more text ends spaced with refused | ⟨value, rest, stands, read, behind⟩
  · exact .inl refused
  · exact .inr ⟨value, rest, implies value stands, read, behind⟩

theorem Judges.map {StandsFor' : β → Prop} (judges : Judges reader tokens StandsFor) (f : α → β)
    (keeps : ∀ value, StandsFor value → StandsFor' (f value)) :
    Judges (do return f (← reader)) tokens StandsFor' :=
  judges.bind_pure fun value stands => ⟨f value, keeps value stands, rfl⟩

theorem Enters.judges {outer inner : Reader α} {token : Token} (enters : Enters outer inner token)
    (judges : Judges inner tokens StandsFor) : Judges outer (token :: tokens) StandsFor := by
  intro more text ends spaced
  rw [List.cons_append] at spaced
  obtain ⟨middle, same, spaced⟩ := enters _ text spaced
  rw [same]
  exact judges more middle ends spaced

/-! ## Numbers -/

/-- A number is read as itself, or refused because it is beyond the limit. -/
theorem judges_natural (wanted : Wanted) {limit : Nat} (limited : limit < UInt64.size) (n : Nat) :
    Judges (natural wanted limit) [decimal n] (fun value => value = n ∧ n ≤ limit) := by
  intro more text ends spaced
  by_cases small : n ≤ limit
  · obtain ⟨rest, read, behind⟩ := reads_natural wanted small limited more text ends spaced
    exact .inr ⟨n, rest, ⟨rfl, small⟩, read, behind⟩
  · left
    obtain ⟨first, digits, written, digit, -⟩ := exists_decimal_eq_cons n
    rw [List.singleton_append, written] at spaced
    obtain ⟨rest, next, behind⟩ := spaced.dropWhile_cons (isSpace_of_isDigit digit)
    rw [← List.cons_append, ← written] at next
    have judged := run_natural_eq wanted limit next
    have ends_number := behind.endsNumber ends
    by_cases held : n < UInt64.size
    · have beyond : ¬ ((0 : Int) ≤ n ∧ (n : Int) ≤ limit) := by omega
      rw [run_number_decimal held ends_number] at judged
      simp only [if_neg beyond] at judged
      exact ⟨_, judged, rfl⟩
    · rcases run_number_decimal_of_large (Nat.le_of_not_lt held) ends_number with
        ⟨bits, read⟩ | ⟨unread, failed⟩
      · rw [read] at judged
        exact ⟨_, judged, rfl⟩
      · rw [failed] at judged
        exact ⟨_, judged, rfl⟩

/-! ## Members -/

/-- The key of a member is spelt in some way, and its value takes every draft of one kind on to a
draft of another, unless it is refused. -/
inductive JudgesMember (field : List UInt8 → σ → Reader σ) (Before : σ → Prop) :
    List Token → (σ → Prop) → Prop
  | member {After : σ → Prop} {key : List UInt8} {token : Token} {value : List Token}
      (spells : Spells token key)
      (judges : ∀ draft, Before draft → Judges (field key draft) ([colonMark] :: value) After) :
      JudgesMember field Before ((quoteMark :: token) :: [colonMark] :: value) After

variable {field : List UInt8 → σ → Reader σ} {Before Last : σ → Prop} {draft : σ}
  {items : List (List Token)}

theorem TakesField.judges {name : String} {earlier : Option α} {put : α → σ}
    (takes : TakesField field draft name earlier reader put) (absent : earlier = none)
    (judges : Judges reader tokens StandsFor) :
    Judges (field (Text.utf8 name) draft) ([colonMark] :: tokens)
      (fun next => ∃ value, StandsFor value ∧ next = put value) := by
  rw [takes, absent]
  exact ((enters_fieldValue name reader).judges judges).map put
    fun value stands => ⟨value, stands, rfl⟩

theorem Folds.membersFrom_judged (folds : Folds (JudgesMember field) Before items Last)
    (before : Before draft) {first : Bool} (le : Within text whole)
    (spaced : Spaced (separated first items ++ [closeBrace] :: more) text) :
    Refused (Json.membersFrom field first draft whole text le) ∨
    ∃ last rest within, Last last ∧
      Json.membersFrom field first draft whole text le = .ok ⟨last, rest, within⟩ ∧
      Spaced more rest := by
  induction folds generalizing draft first text with
  | done Before =>
    obtain ⟨rest, within, result, behind⟩ := membersFrom_done le spaced
    exact .inr ⟨draft, rest, within, before, result, behind⟩
  | member here _ ih =>
    cases here with
    | member spells judges =>
      obtain ⟨start, inside, spaced, round⟩ := membersFrom_spells field draft spells le spaced
      rw [round]
      rcases judges draft before _ start (ends_separated ends_closeBrace _) spaced with
        ⟨stop, failed, malformed⟩ | ⟨next, rest, after, read, spaced⟩
      · refine .inl ⟨stop, ?_, malformed⟩
        rw [Reader.eq_error_of_run failed]
      · obtain ⟨within, result⟩ := Reader.exists_eq_of_run read
        simp only [result]
        exact ih after _ spaced

theorem Folds.judges (folds : Folds (JudgesMember field) Before items Last)
    (before : Before draft) :
    Judges (Json.members field draft) (separated true items ++ [[closeBrace]]) Last := by
  intro more text ends spaced
  rw [List.append_assoc] at spaced
  rcases folds.membersFrom_judged before (.refl text) spaced with
    ⟨stop, failed, malformed⟩ | ⟨last, rest, within, holds, result, behind⟩
  · refine .inl ⟨stop, ?_, malformed⟩
    rw [Reader.run, Json.members, Reader.loop, failed]
  · exact .inr ⟨last, rest, holds, Reader.run_of_eq result, behind⟩

/-! ## Whole texts -/

/-- The error of a malformed text, which is the client's fault. -/
def ClientFault {β : Type} (result : Except Error β) : Prop :=
  ∃ error, result = .error error ∧ error.kind = .invalidFormat ∧ error.code.code = 1008 ∧
    error.isClient = true ∧ error.isServer = false

/-- A whole text of the tokens is read as a value that stands for them, or it is malformed. -/
theorem Judges.parse {text : String} (judges : Judges reader tokens StandsFor)
    (spaced : Spaced tokens (Text.utf8 text)) :
    ClientFault (parse reader text) ∨
      ∃ value, StandsFor value ∧ Json.parse reader text = .ok value := by
  rcases judges [] _ ends_nil (by rwa [List.append_nil]) with
    ⟨stop, failed, malformed⟩ | ⟨value, rest, stands, read, behind⟩
  · left
    have same : Error.ofJsonFailure (Reader.locate (Text.utf8 text) stop) =
        { kind := .invalidFormat, reason := .jsonText (Reader.locate (Text.utf8 text) stop) } := by
      rw [Error.ofJsonFailure, Reader.locate]
      simp [malformed]
    have refused := parse_of_error failed
    rw [same] at refused
    exact ⟨_, refused, rfl, rfl, rfl, rfl⟩
  · right
    refine ⟨value, stands, ?_⟩
    rw [Json.parse, Reader.readAll, read]
    simp only [behind.dropWhile_nil]
    rfl

end Merkle.Json

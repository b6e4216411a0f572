import Merkle.Json
import Merkle.Proofs.Json.Spacing

/-!
# Reading: what a reader finds in spaced tokens

A reader that `Reads` a value from tokens finds it with any white space around them, and leaves a
text of the tokens behind. That remaining text is what carries the loops over elements and members:
each round takes one item off the tokens that are still to come.
-/
namespace Merkle.Json

variable {α β σ : Type} {reader : Reader α} {value : α} {token : Token} {tokens more : List Token}
  {text : List UInt8}

namespace Reader

theorem run_bind_of_ok {first : Reader α} {next : α → Reader β} {rest : List UInt8}
    (read : first.run text = .ok (value, rest)) :
    (first >>= next).run text = (next value).run rest := by
  rw [run_bind, read]

theorem run_bind_of_error {first : Reader α} {next : α → Reader β} {stop : Stop}
    (failed : first.run text = .error stop) : (first >>= next).run text = .error stop := by
  rw [run_bind, failed]

/-- What `run` gives, with the bound that it leaves out. -/
theorem exists_eq_of_run {rest : List UInt8} (read : reader.run text = .ok (value, rest)) :
    ∃ within, reader text = .ok ⟨value, rest, within⟩ := by
  unfold run at read
  split at read
  · cases read
  next result =>
    cases read
    exact ⟨_, result⟩

theorem eq_error_of_run {stop : Stop} (failed : reader.run text = .error stop) :
    reader text = .error stop := by
  unfold run at failed
  split at failed
  next result =>
    cases failed
    exact result
  · cases failed

theorem run_of_eq {rest : List UInt8} {within : Within rest text}
    (read : reader text = .ok ⟨value, rest, within⟩) : reader.run text = .ok (value, rest) := by
  rw [run, read]

end Reader

/-! ## What stands behind a value -/

/-- A comma, the end of a list or an object, or nothing more. -/
def Ends (more : List Token) : Prop :=
  ∀ token, more.head? = some token →
    token = [comma] ∨ token = [closeBracket] ∨ token = [closeBrace]

theorem ends_nil : Ends [] := fun _ absent => absurd absent (by simp)

theorem ends_closeBracket : Ends ([closeBracket] :: more) := by
  rintro _ ⟨rfl⟩
  exact .inr (.inl rfl)

theorem ends_closeBrace : Ends ([closeBrace] :: more) := by
  rintro _ ⟨rfl⟩
  exact .inr (.inr rfl)

/-- Behind an item that is not the last stands a comma. -/
theorem ends_separated (ends : Ends more) (items : List (List Token)) :
    Ends (separated false items ++ more) := by
  cases items with
  | nil => exact ends
  | cons item items =>
    rw [separated_next]
    rintro _ ⟨rfl⟩
    exact .inl rfl

theorem isSpace_iff {b : UInt8} :
    isSpace b = true ↔ ((b = 0x20 ∨ b = 0x0a) ∨ b = 0x09) ∨ b = 0x0d := by
  simp only [isSpace, Bool.or_eq_true, decide_eq_true_eq]

theorem isSpace_of_isDigit {b : UInt8} (digit : isDigit b = true) : isSpace b = false := by
  rw [Bool.eq_false_iff, ne_eq, isSpace_iff]
  rintro (((rfl | rfl) | rfl) | rfl) <;> exact absurd digit (by decide)

theorem ne_closeBracket_of_isDigit {b : UInt8} (digit : isDigit b = true) : b ≠ closeBracket := by
  intro same
  rw [same] at digit
  exact absurd digit (by decide)

/-- No number goes on there. -/
theorem Spaced.endsNumber (spaced : Spaced more text) (ends : Ends more) : EndsNumber text := by
  have of_space {b : UInt8} {space : List UInt8} (blank : Blank space)
      (here : space.head? = some b) :
      isDigit b = false ∧ b ≠ point ∧ b ≠ letterE ∧ b ≠ capitalE := by
    rcases isSpace_iff.mp (blank b (List.mem_of_mem_head? here)) with
      ((rfl | rfl) | rfl) | rfl <;> decide
  intro b here
  cases spaced with
  | done blank => exact of_space blank here
  | @token space rest token _ blank behind =>
    cases space with
    | cons c space => exact of_space blank here
    | nil =>
      rcases ends token rfl with rfl | rfl | rfl <;> cases here <;> decide

/-! ## Values -/

/-- A reader finds a value in tokens, whatever white space there is, and leaves what follows. -/
def Reads (reader : Reader α) (tokens : List Token) (value : α) : Prop :=
  ∀ more text, Ends more → Spaced (tokens ++ more) text →
    ∃ rest, reader.run text = .ok (value, rest) ∧ Spaced more rest

theorem Reads.map (reads : Reads reader tokens value) (f : α → β) :
    Reads (do return f (← reader)) tokens (f value) := by
  intro more text ends spaced
  obtain ⟨rest, read, behind⟩ := reads more text ends spaced
  exact ⟨rest, by rw [Reader.run_bind_of_ok read, Reader.run_pure], behind⟩

/-- A whole text of the tokens stands for the value. -/
theorem Reads.readAll (reads : Reads reader tokens value) (spaced : Spaced tokens text) :
    reader.readAll text = .ok value := by
  obtain ⟨rest, read, behind⟩ := reads [] text ends_nil (by rwa [List.append_nil])
  simp only [Reader.readAll, read, behind.dropWhile_nil]

/-- A fault is reported with its place. -/
theorem parse_of_error {text : String} {stop : Stop}
    (failed : reader.run (Text.utf8 text) = .error stop) :
    parse reader text = .error (.ofJsonFailure (Reader.locate (Text.utf8 text) stop)) := by
  rw [Json.parse, Reader.readAll, failed]
  rfl

theorem Reads.parse {text : String} (reads : Reads reader tokens value)
    (spaced : Spaced tokens (Text.utf8 text)) : parse reader text = .ok value := by
  rw [Json.parse, reads.readAll spaced]
  rfl

/-- The first byte of the next token is shown, and the token stays unread. -/
theorem run_peekToken_spaced {b : UInt8} (visible : isSpace b = false)
    (spaced : Spaced ((b :: token) :: tokens) text) :
    ∃ rest, Reader.peekToken.run text = .ok (some b, b :: (token ++ rest)) ∧
      Spaced tokens rest := by
  obtain ⟨rest, next, behind⟩ := spaced.dropWhile_cons visible
  exact ⟨rest, by rw [Reader.run_peekToken, next]; rfl, behind⟩

/-- In front of a token one reader is the other behind it. -/
def Enters (outer inner : Reader α) (token : Token) : Prop :=
  ∀ tokens text, Spaced (token :: tokens) text →
    ∃ rest, outer.run text = inner.run rest ∧ Spaced tokens rest

theorem Enters.reads {outer inner : Reader α} (enters : Enters outer inner token)
    (reads : Reads inner tokens value) : Reads outer (token :: tokens) value := by
  intro more text ends spaced
  rw [List.cons_append] at spaced
  obtain ⟨middle, same, spaced⟩ := enters _ text spaced
  rw [same]
  exact reads more middle ends spaced

/-- Behind white space a written number is read first, and then judged by its value. -/
theorem run_natural_eq (wanted : Wanted) (limit : Nat) {n : Nat} {rest : List UInt8}
    (next : text.dropWhile isSpace = decimal n ++ rest) :
    (natural wanted limit).run text =
      match number.run (decimal n ++ rest) with
      | .error stop => .error stop
      | .ok (.integer value, behind) =>
        if 0 ≤ value ∧ value ≤ limit then .ok (value.toNat, behind)
        else .error ⟨.integerOutOfRange value wanted, behind.length⟩
      | .ok (.double bits, behind) => .error ⟨.wrongType (.double bits) wanted, behind.length⟩ := by
  obtain ⟨first, digits, written, digit, -⟩ := exists_decimal_eq_cons n
  have peeked : Reader.peekToken.run text = .ok (some first, decimal n ++ rest) := by
    rw [Reader.run_peekToken, next, written]
    rfl
  rw [natural, Reader.run_bind_of_ok peeked]
  simp only [digit, or_true, if_true]
  rw [Reader.run_bind]
  cases number.run (decimal n ++ rest) with
  | error stop => rfl
  | ok read =>
    obtain ⟨found, behind⟩ := read
    cases found with
    | integer value =>
      simp only
      split <;> rfl
    | double bits => rfl

/-- A written number within the limit, behind white space. -/
theorem run_natural (wanted : Wanted) {n limit : Nat} (small : n ≤ limit)
    (limited : limit < UInt64.size) {rest : List UInt8} (ends : EndsNumber rest)
    (next : text.dropWhile isSpace = decimal n ++ rest) :
    (natural wanted limit).run text = .ok (n, rest) := by
  have within : (0 : Int) ≤ n ∧ (n : Int) ≤ limit := by omega
  rw [run_natural_eq wanted limit next, run_number_decimal (by omega) ends]
  simp only [if_pos within, Int.toNat_natCast]

theorem reads_natural (wanted : Wanted) {n limit : Nat} (small : n ≤ limit)
    (limited : limit < UInt64.size) : Reads (natural wanted limit) [decimal n] n := by
  intro more text ends spaced
  obtain ⟨first, digits, written, digit, -⟩ := exists_decimal_eq_cons n
  rw [List.singleton_append, written] at spaced
  obtain ⟨rest, next, behind⟩ := spaced.dropWhile_cons (isSpace_of_isDigit digit)
  refine ⟨rest, run_natural wanted small limited (behind.endsNumber ends) ?_, behind⟩
  rw [next, written, List.cons_append]

/-! ## Strings -/

/-- What stands between the opening quote and the end of the token spells the bytes. -/
def Spells (token : Token) (bytes : List UInt8) : Prop :=
  ∀ rest, string.run (token ++ rest) = .ok (bytes, rest)

/-- Bytes that stand for themselves in a string. -/
def Plain (bytes : List UInt8) : Prop :=
  ∀ b ∈ bytes, b ≠ quoteMark ∧ b ≠ backslash ∧ ¬ b < 0x20

instance (bytes : List UInt8) : Decidable (Plain bytes) := List.decidableBAll _ bytes

/-- Plain bytes are taken one by one. -/
theorem stringFrom_plain {bytes rest whole : List UInt8} (plain : Plain bytes)
    (read : List UInt8) (le : Within (bytes ++ rest) whole) :
    ∃ within, stringFrom read whole (bytes ++ rest) le =
      stringFrom (bytes.reverse ++ read) whole rest within := by
  induction bytes generalizing read with
  | nil => exact ⟨le, rfl⟩
  | cons b bytes ih =>
    obtain ⟨no_quote, no_escape, no_control⟩ := plain b List.mem_cons_self
    have behind : Plain bytes := fun c here => plain c (List.mem_cons_of_mem b here)
    obtain ⟨within, result⟩ := ih behind (b :: read) (.of_cons le)
    refine ⟨within, ?_⟩
    rw [List.reverse_cons, List.append_assoc, List.singleton_append, ← result]
    simp [stringFrom, no_quote, no_escape, no_control]

/-- The closing quote ends a string. -/
theorem stringFrom_quote {rest whole : List UInt8} (read : List UInt8)
    (le : Within (quoteMark :: rest) whole) :
    stringFrom read whole (quoteMark :: rest) le = .ok ⟨read.reverse, rest, .of_cons le⟩ := by
  simp [stringFrom]

theorem spells_plain {bytes : List UInt8} (plain : Plain bytes) :
    Spells (bytes ++ [quoteMark]) bytes := by
  intro rest
  rw [List.append_assoc, List.singleton_append]
  obtain ⟨within, result⟩ := stringFrom_plain plain [] (.refl _)
  rw [stringFrom_quote, List.append_nil, List.reverse_reverse] at result
  exact Reader.run_of_eq result

/-! ## Lists -/

theorem run_element_done (first : Bool) (spaced : Spaced ([closeBracket] :: more) text) :
    ∃ rest, (element first).run text = .ok (false, closeBracket :: rest) ∧ Spaced more rest := by
  obtain ⟨rest, peeked, behind⟩ := run_peekToken_spaced (by decide) spaced
  exact ⟨rest, by rw [element, Reader.run_bind_of_ok peeked]; rfl, behind⟩

/-- An element that follows is left to be read, without the comma in front of it. -/
theorem run_element {b : UInt8} {item : List Token} {items : List (List Token)} {first : Bool}
    (visible : isSpace b = false) (opens : b ≠ closeBracket)
    (spaced : Spaced (separated first (((b :: token) :: item) :: items) ++ more) text) :
    ∃ rest, (element first).run text = .ok (true, b :: (token ++ rest)) ∧
      Spaced (item ++ (separated false items ++ more)) rest := by
  cases first with
  | true =>
    rw [separated_first, List.cons_append] at spaced
    obtain ⟨rest, peeked, behind⟩ := run_peekToken_spaced visible spaced
    refine ⟨rest, ?_, behind⟩
    rw [element, Reader.run_bind_of_ok peeked]
    simp [opens]
  | false =>
    rw [separated_next, List.cons_append] at spaced
    obtain ⟨middle, comma_peeked, spaced⟩ := run_peekToken_spaced (by decide) spaced
    obtain ⟨rest, peeked, behind⟩ := run_peekToken_spaced visible spaced
    refine ⟨rest, ?_, behind⟩
    rw [element, Reader.run_bind_of_ok comma_peeked]
    simp only [List.nil_append, Bool.false_eq_true, if_false, if_true,
      if_neg (by decide : ¬ comma = closeBracket)]
    rw [Reader.run_bind_of_ok (Reader.run_skip _), List.tail_cons, Reader.run_bind_of_ok peeked]
    simp [opens]

/-- A number that is an element is left to be read as a whole. -/
theorem run_element_decimal {n : Nat} {items : List (List Token)} {first : Bool}
    (spaced : Spaced (separated first ([decimal n] :: items) ++ more) text) :
    ∃ rest, (element first).run text = .ok (true, decimal n ++ rest) ∧
      Spaced (separated false items ++ more) rest := by
  obtain ⟨c, digits, written, digit, -⟩ := exists_decimal_eq_cons n
  rw [written] at spaced ⊢
  exact run_element (isSpace_of_isDigit digit) (ne_closeBracket_of_isDigit digit) spaced

theorem reads_endOfList : Reads endOfList [[closeBracket]] () := by
  intro more text ends spaced
  obtain ⟨rest, peeked, behind⟩ := run_peekToken_spaced (by decide) spaced
  exact ⟨rest, by rw [endOfList, Reader.run_bind_of_ok peeked]; rfl, behind⟩

/-- Where a bracket has to come, its elements are read behind it. -/
theorem enters_list (inner otherwise : Reader α) :
    Enters (do
        if (← Reader.peekToken) = some openBracket then
          Reader.skip
          inner
        else otherwise)
      inner [openBracket] := by
  intro tokens text spaced
  obtain ⟨rest, peeked, behind⟩ := run_peekToken_spaced (by decide) spaced
  refine ⟨rest, ?_, behind⟩
  rw [Reader.run_bind_of_ok peeked, if_pos rfl]
  exact Reader.run_bind_of_ok (Reader.run_skip _)

/-! ## Objects -/

theorem run_member_done (first : Bool) (spaced : Spaced ([closeBrace] :: more) text) :
    ∃ rest, (member first).run text = .ok (false, closeBrace :: rest) ∧ Spaced more rest := by
  obtain ⟨rest, peeked, behind⟩ := run_peekToken_spaced (by decide) spaced
  exact ⟨rest, by rw [member, Reader.run_bind_of_ok peeked]; rfl, behind⟩

/-- A member that follows is left to be read from the quote of its key on. -/
theorem run_member {item : List Token} {items : List (List Token)} {first : Bool}
    (spaced : Spaced (separated first (((quoteMark :: token) :: item) :: items) ++ more) text) :
    ∃ rest, (member first).run text = .ok (true, quoteMark :: (token ++ rest)) ∧
      Spaced (item ++ (separated false items ++ more)) rest := by
  cases first with
  | true =>
    rw [separated_first, List.cons_append] at spaced
    obtain ⟨rest, peeked, behind⟩ := run_peekToken_spaced (by decide) spaced
    exact ⟨rest, by rw [member, Reader.run_bind_of_ok peeked]; rfl, behind⟩
  | false =>
    rw [separated_next, List.cons_append] at spaced
    obtain ⟨middle, comma_peeked, spaced⟩ := run_peekToken_spaced (by decide) spaced
    obtain ⟨rest, peeked, behind⟩ := run_peekToken_spaced (by decide) spaced
    refine ⟨rest, ?_, behind⟩
    rw [member, Reader.run_bind_of_ok comma_peeked]
    simp only [List.nil_append, Bool.false_eq_true, if_false, if_true,
      if_neg (by decide : ¬ comma = closeBrace)]
    rw [Reader.run_bind_of_ok (Reader.run_skip _), List.tail_cons, Reader.run_bind_of_ok peeked]
    rfl

theorem run_colon (spaced : Spaced ([colonMark] :: tokens) text) :
    ∃ rest, colon.run text = .ok ((), rest) ∧ Spaced tokens rest := by
  obtain ⟨rest, peeked, behind⟩ := run_peekToken_spaced (by decide) spaced
  exact ⟨rest, by rw [colon, Reader.run_bind_of_ok peeked]; rfl, behind⟩

/-- The value of a field that has not been there before stands behind its colon. -/
theorem enters_fieldValue (name : String) (reader : Reader α) :
    Enters (fieldValue name none reader) reader [colonMark] := by
  intro tokens text spaced
  obtain ⟨rest, colon_read, behind⟩ := run_colon spaced
  exact ⟨rest, Reader.run_bind_of_ok colon_read, behind⟩

/-- Another value for a field is a fault, before it is looked at. -/
theorem run_fieldValue_again (name : String) (earlier : α) (reader : Reader α)
    (text : List UInt8) :
    ∃ unread, (fieldValue name (some earlier) reader).run text =
      .error ⟨.duplicateField name, unread⟩ := by
  change ∃ unread, (duplicateField name : Reader α).run text = _
  rw [duplicateField, Reader.run_bind, Reader.run_peekToken]
  simp only
  split
  · exact ⟨_, rfl⟩
  · exact ⟨_, rfl⟩

/-- Under its name a field is read and put into the draft, unless the draft has it from earlier. -/
def TakesField (field : List UInt8 → σ → Reader σ) (draft : σ) (name : String)
    (earlier : Option α) (reader : Reader α) (put : α → σ) : Prop :=
  field (Text.utf8 name) draft = do return put (← fieldValue name earlier reader)

section Fields

variable {field : List UInt8 → σ → Reader σ} {draft : σ} {name : String} {earlier : Option α}
  {put : α → σ}

theorem TakesField.reads (takes : TakesField field draft name earlier reader put)
    (absent : earlier = none) (reads : Reads reader tokens value) :
    Reads (field (Text.utf8 name) draft) ([colonMark] :: tokens) (put value) := by
  rw [takes, absent]
  exact ((enters_fieldValue name reader).reads reads).map put

theorem TakesField.fails (takes : TakesField field draft name earlier reader put)
    (present : earlier ≠ none) (text : List UInt8) :
    ∃ unread, (field (Text.utf8 name) draft).run text =
      .error ⟨.duplicateField name, unread⟩ := by
  obtain ⟨first, rfl⟩ := Option.ne_none_iff_exists'.mp present
  obtain ⟨unread, failed⟩ := run_fieldValue_again name first reader text
  rw [takes]
  exact ⟨unread, Reader.run_bind_of_error failed⟩

end Fields

/-- Members in order lead from one draft to another, each by one step. -/
inductive Folds (step : σ → List Token → σ → Prop) : σ → List (List Token) → σ → Prop
  | done (draft : σ) : Folds step draft [] draft
  | member {draft next last : σ} {item : List Token} {items : List (List Token)}
      (here : step draft item next) (behind : Folds step next items last) :
      Folds step draft (item :: items) last

/-- The key of a member is spelt in some way, and its value behind the colon takes the draft on. -/
inductive ReadsMember (field : List UInt8 → σ → Reader σ) (draft : σ) : List Token → σ → Prop
  | member {next : σ} {key : List UInt8} {token : Token} {value : List Token}
      (spells : Spells token key) (reads : Reads (field key draft) ([colonMark] :: value) next) :
      ReadsMember field draft ((quoteMark :: token) :: [colonMark] :: value) next

variable {field : List UInt8 → σ → Reader σ} {draft next last : σ} {key : List UInt8}
  {items : List (List Token)} {first : Bool} {whole : List UInt8}

/-- The end of the members leaves the draft as it is. -/
theorem membersFrom_done (le : Within text whole) (spaced : Spaced ([closeBrace] :: more) text) :
    ∃ rest within, membersFrom field first draft whole text le = .ok ⟨draft, rest, within⟩ ∧
      Spaced more rest := by
  obtain ⟨rest, read, behind⟩ := run_member_done first spaced
  obtain ⟨within, result⟩ := Reader.exists_eq_of_run read
  refine ⟨rest, .tail (within.trans le), ?_, behind⟩
  rw [membersFrom, result]
  rfl

/-- Behind its key a member is left to its field, whatever comes of it. -/
theorem membersFrom_key (field : List UInt8 → σ → Reader σ) (draft : σ) {rest start : List UInt8}
    (found : (member first).run text = .ok (true, quoteMark :: rest))
    (spelt : string.run rest = .ok (key, start)) (le : Within text whole) :
    ∃ inside : Within start whole, membersFrom field first draft whole text le =
      match field key draft start with
      | .error stop => .error stop
      | .ok ⟨draft, next, h⟩ => membersFrom field false draft whole next (h.trans inside) := by
  obtain ⟨within, result⟩ := Reader.exists_eq_of_run found
  obtain ⟨within', result'⟩ := Reader.exists_eq_of_run spelt
  refine ⟨within'.trans (.of_cons (within.trans le)), ?_⟩
  rw [membersFrom]
  cases taken : field key draft start with
  | error stop => simp only [result, result', taken]
  | ok outcome => simp only [result, result', taken]

theorem membersFrom_spells (field : List UInt8 → σ → Reader σ) (draft : σ)
    (spells : Spells token key) {value : List Token} (le : Within text whole)
    (spaced : Spaced (separated first (((quoteMark :: token) :: value) :: items) ++ more) text) :
    ∃ start, ∃ inside : Within start whole,
      Spaced (value ++ (separated false items ++ more)) start ∧
      membersFrom field first draft whole text le =
        match field key draft start with
        | .error stop => .error stop
        | .ok ⟨draft, next, h⟩ => membersFrom field false draft whole next (h.trans inside) := by
  obtain ⟨start, found, spaced⟩ := run_member spaced
  obtain ⟨inside, round⟩ := membersFrom_key field draft found (spells start) le
  exact ⟨start, inside, spaced, round⟩

/-- One round of the loop: a member takes the draft on. -/
theorem membersFrom_reads (spells : Spells token key) {value : List Token}
    (reads : Reads (field key draft) ([colonMark] :: value) next) (ends : Ends more)
    (le : Within text whole)
    (spaced : Spaced
      (separated first (((quoteMark :: token) :: [colonMark] :: value) :: items) ++ more) text) :
    ∃ rest within, membersFrom field first draft whole text le =
      membersFrom field false next whole rest within ∧
        Spaced (separated false items ++ more) rest := by
  obtain ⟨start, inside, spaced, round⟩ := membersFrom_spells field draft spells le spaced
  obtain ⟨rest, read, behind⟩ := reads _ start (ends_separated ends items) spaced
  obtain ⟨within, result⟩ := Reader.exists_eq_of_run read
  simp only [result] at round
  exact ⟨rest, _, round, behind⟩

theorem Folds.membersFrom (folds : Folds (ReadsMember field) draft items last)
    (le : Within text whole)
    (spaced : Spaced (separated first items ++ [closeBrace] :: more) text) :
    ∃ rest within, Json.membersFrom field first draft whole text le =
      .ok ⟨last, rest, within⟩ ∧ Spaced more rest := by
  -- On the members still to come; only the first of all stands without a comma in front.
  induction folds generalizing first text with
  | done draft => exact membersFrom_done le spaced
  | member here _ ih =>
    cases here with
    | member spells reads =>
      obtain ⟨rest, within, round, spaced⟩ :=
        membersFrom_reads spells reads ends_closeBrace le spaced
      rw [round]
      exact ih within spaced

theorem Folds.members (folds : Folds (ReadsMember field) draft items last) :
    Reads (Json.members field draft) (separated true items ++ [[closeBrace]]) last := by
  intro more text ends spaced
  rw [List.append_assoc] at spaced
  obtain ⟨rest, within, result, behind⟩ := folds.membersFrom (.refl text) spaced
  exact ⟨rest, Reader.run_of_eq result, behind⟩

/-- A value with fields is read as an object where its text starts as one. -/
theorem enters_fields (wanted : Wanted) (fromObject fromList : Reader α) :
    Enters (fields wanted fromObject fromList) fromObject [openBrace] := by
  intro tokens text spaced
  obtain ⟨rest, peeked, behind⟩ := run_peekToken_spaced (by decide) spaced
  refine ⟨rest, ?_, behind⟩
  rw [fields, Reader.run_bind_of_ok peeked]
  simp only [if_neg (by decide : ¬ openBrace = openBracket), if_true]
  exact Reader.run_bind_of_ok (Reader.run_skip _)

end Merkle.Json

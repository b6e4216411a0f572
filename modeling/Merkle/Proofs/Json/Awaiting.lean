import Merkle.Proofs.Json.Reading

/-!
# Awaiting: readers before a text that has been cut short

Where the end of a written text is missing, a reader meets the end of the text where it needs more
(`Starves`), or has its own part of the text as a whole and reads it (`Awaits`). Only a number may
be taken for a shorter one, and then nothing is left for the reader that comes next (`Guesses`).
Both are cases of one notion, which readers keep that run one behind the other (`Meets.bind`); a
loop over a text is an induction on what is still to come.
-/
namespace Merkle.Json

variable {α β σ : Type} {text lost behind written written' : List UInt8} {c : UInt8}

/-- The text ends where the reader needs more of it. -/
def Starves (reader : Reader α) (text : List UInt8) : Prop :=
  ∃ stop, reader.run text = .error stop ∧ stop.fault.isEndOfInput = true

/-- What is written is read from each text that more bytes would complete, unless the text ends
before. At its end the reader may also take a part of it for the whole, as one of the values that it
may guess. `ends` is asked of what stands behind. -/
def Meets (guessed : α → Prop) (ends : List UInt8 → Prop) (reader : Reader α)
    (written : List UInt8) (value : α) : Prop :=
  ∀ text lost behind, lost ≠ [] → ends behind → text ++ lost = written ++ behind →
    Starves reader text ∨ (∃ other, guessed other ∧ reader.run text = .ok (other, [])) ∨
      ∃ rest, reader.run text = .ok (value, rest) ∧ rest ++ lost = behind

/-- The reader guesses nothing, whatever stands behind. -/
def Awaits (reader : Reader α) (written : List UInt8) (value : α) : Prop :=
  Meets (fun _ => False) (fun _ => True) reader written value

/-- The reader may guess any value, where no number goes on behind. -/
def Guesses (reader : Reader α) (written : List UInt8) (value : α) : Prop :=
  Meets (fun _ => True) EndsNumber reader written value

/-! ## Readers one behind the other -/

section Readers

variable {first reader : Reader α} {next : α → Reader β} {value : α} {value' : β}

theorem Starves.bind (starves : Starves first text) : Starves (first >>= next) text := by
  obtain ⟨stop, failed, ended⟩ := starves
  exact ⟨stop, Reader.run_bind_of_error failed, ended⟩

theorem Starves.bind_of_ok {rest : List UInt8} (read : first.run text = .ok (value, rest))
    (starves : Starves (next value) rest) : Starves (first >>= next) text := by
  obtain ⟨stop, failed, ended⟩ := starves
  exact ⟨stop, (Reader.run_bind_of_ok read).trans failed, ended⟩

/-- Behind a guess the next reader has nothing to read: it starves, or makes a guess of it. -/
theorem Meets.bind {guessed : α → Prop} {guessed' : β → Prop} {ends ends' : List UInt8 → Prop}
    (meets : Meets guessed ends first written value)
    (at_end : ∀ other, guessed other → Starves (next other) [] ∨
      ∃ result, guessed' result ∧ (next other).run [] = .ok (result, []))
    (ends_behind : ∀ behind, ends' behind → ends (written' ++ behind))
    (then_meets : Meets guessed' ends' (next value) written' value') :
    Meets guessed' ends' (first >>= next) (written ++ written') value' := by
  intro text lost behind more ended cut
  rw [List.append_assoc] at cut
  rcases meets text lost _ more (ends_behind behind ended) cut with
    starves | ⟨other, guess, read⟩ | ⟨middle, read, cut⟩
  · exact .inl starves.bind
  · rcases at_end other guess with starves | ⟨result, guess', read'⟩
    · exact .inl (.bind_of_ok read starves)
    · exact .inr (.inl ⟨result, guess', (Reader.run_bind_of_ok read).trans read'⟩)
  · rcases then_meets middle lost behind more ended cut with
      starves | ⟨other, guess, read'⟩ | ⟨rest, read', cut⟩
    · exact .inl (.bind_of_ok read starves)
    · exact .inr (.inl ⟨other, guess, (Reader.run_bind_of_ok read).trans read'⟩)
    · exact .inr (.inr ⟨rest, (Reader.run_bind_of_ok read).trans read', cut⟩)

theorem meets_pure (guessed : α → Prop) (ends : List UInt8 → Prop) (value : α) :
    Meets guessed ends (pure value : Reader α) [] value :=
  fun text _ _ _ _ cut => .inr (.inr ⟨text, rfl, cut⟩)

theorem awaits_pure (value : α) : Awaits (pure value : Reader α) [] value :=
  meets_pure _ _ value

theorem Awaits.read_or_starves (awaits : Awaits reader written value) (more : lost ≠ [])
    (cut : text ++ lost = written ++ behind) :
    Starves reader text ∨ ∃ rest, reader.run text = .ok (value, rest) ∧ rest ++ lost = behind := by
  rcases awaits text lost behind more trivial cut with starves | ⟨_, guess, _⟩ | read
  · exact .inl starves
  · exact guess.elim
  · exact .inr read

theorem Awaits.guesses (awaits : Awaits reader written value) : Guesses reader written value :=
  fun _ _ _ more _ cut => (awaits.read_or_starves more cut).imp_right .inr

theorem Awaits.bind (awaits : Awaits first written value)
    (then_awaits : Awaits (next value) written' value') :
    Awaits (first >>= next) (written ++ written') value' :=
  Meets.bind awaits (fun _ guess => guess.elim) (fun _ _ => trivial) then_awaits

theorem Awaits.bind_guesses (awaits : Awaits first written value)
    (then_guesses : Guesses (next value) written' value') :
    Guesses (first >>= next) (written ++ written') value' :=
  Meets.bind awaits (fun _ guess => guess.elim) (fun _ _ => trivial) then_guesses

/-- What guesses is no danger in front of a reader that starves at the end of a text. -/
theorem Guesses.awaits_bind (guesses : Guesses first written value)
    (at_end : ∀ other, Starves (next other) []) (ends : ∀ behind, EndsNumber (written' ++ behind))
    (then_awaits : Awaits (next value) written' value') :
    Awaits (first >>= next) (written ++ written') value' :=
  Meets.bind guesses (fun other _ => .inl (at_end other)) (fun behind _ => ends behind) then_awaits

theorem Meets.map {guessed : β → Prop} {ends : List UInt8 → Prop} (f : α → β)
    (meets : Meets (fun other => guessed (f other)) ends reader written value) :
    Meets guessed ends (do return f (← reader)) written (f value) := by
  have joined : Meets guessed ends (do return f (← reader)) (written ++ []) (f value) :=
    meets.bind (fun other guess => .inr ⟨f other, guess, rfl⟩) (fun _ ends => ends)
      (meets_pure guessed ends (f value))
  rwa [List.append_nil] at joined

theorem Awaits.map (awaits : Awaits reader written value) (f : α → β) :
    Awaits (do return f (← reader)) written (f value) :=
  Meets.map f awaits

theorem Guesses.map (guesses : Guesses reader written value) (f : α → β) :
    Guesses (do return f (← reader)) written (f value) :=
  Meets.map f guesses

end Readers

/-! ## Single bytes -/

/-- A text that starts like the written one, or nothing at all. -/
theorem cut_cons (cut : text ++ lost = c :: behind) :
    text = [] ∨ ∃ rest, text = c :: rest ∧ rest ++ lost = behind := by
  cases text with
  | nil => exact .inl rfl
  | cons b rest =>
    obtain ⟨rfl, same⟩ := List.cons.inj cut
    exact .inr ⟨rest, rfl, same⟩

theorem run_peekToken_cons (visible : isSpace c = false) (k : Option UInt8 → Reader α)
    (rest : List UInt8) :
    (Reader.peekToken >>= k).run (c :: rest) = (k (some c)).run (c :: rest) := by
  have shown : (c :: rest).dropWhile isSpace = c :: rest :=
    List.dropWhile_cons_of_neg (by simp [visible])
  apply Reader.run_bind_of_ok
  rw [Reader.run_peekToken, shown]
  rfl

/-- A reader that is told what to do by a byte, and goes on behind it. -/
theorem awaits_token {k : Option UInt8 → Reader α} {next : Reader α} {value : α}
    (visible : isSpace c = false) (at_end : Starves (k none) [])
    (here : ∀ rest, (k (some c)).run (c :: rest) = next.run rest)
    (awaits : Awaits next written value) :
    Awaits (Reader.peekToken >>= k) (c :: written) value := by
  intro text lost behind more ends cut
  rcases cut_cons cut with rfl | ⟨rest, rfl, others⟩
  · exact .inl (.bind_of_ok rfl at_end)
  · have same : (Reader.peekToken >>= k).run (c :: rest) = next.run rest :=
      (run_peekToken_cons visible k rest).trans (here rest)
    unfold Starves
    rw [same]
    exact awaits rest lost behind more ends others

theorem awaits_colon : Awaits colon [colonMark] () :=
  awaits_token (by decide) ⟨_, rfl, rfl⟩ (fun _ => rfl) (awaits_pure ())

theorem awaits_endOfList : Awaits endOfList [closeBracket] () :=
  awaits_token (by decide) ⟨_, rfl, rfl⟩ (fun _ => rfl) (awaits_pure ())

theorem starves_wrongType (wanted : Wanted) : Starves (wrongType wanted : Reader α) [] :=
  ⟨_, rfl, rfl⟩

/-- What is read from behind an opening bracket. -/
theorem awaits_list {inner : Reader α} (wanted : Wanted) {value : α}
    (awaits : Awaits inner written value) :
    Awaits (do
        if (← Reader.peekToken) = some openBracket then
          Reader.skip
          inner
        else wrongType wanted)
      (openBracket :: written) value :=
  awaits_token (by decide) (starves_wrongType wanted)
    (fun _ => Reader.run_bind_of_ok (Reader.run_skip _)) awaits

/-- A value with fields, written as an object. -/
theorem awaits_fields (wanted : Wanted) {fromObject fromList : Reader α} {value : α}
    (awaits : Awaits fromObject written value) :
    Awaits (fields wanted fromObject fromList) (openBrace :: written) value :=
  awaits_token (by decide) ⟨_, rfl, rfl⟩ (fun _ => Reader.run_bind_of_ok (Reader.run_skip _)) awaits

/-! ## Numbers -/

/-- What starts like a written number is one. -/
theorem exists_decimal_of_append {n : Nat} (nonempty : text ≠ []) (cut : text ++ lost = decimal n) :
    ∃ m, m ≤ n ∧ text = decimal m := by
  fun_induction decimal n generalizing lost with
  | case1 n small =>
    rcases List.append_eq_singleton_iff.mp cut with ⟨rfl, -⟩ | ⟨rfl, -⟩
    · exact absurd rfl nonempty
    · exact ⟨n, Nat.le_refl n, by rw [decimal, if_pos small]⟩
  | case2 n large ih =>
    rcases List.append_eq_append_iff.mp cut with ⟨others, front, -⟩ | ⟨others, front, last⟩
    · obtain ⟨m, below, same⟩ := ih front.symm
      exact ⟨m, Nat.le_trans below (Nat.div_le_self n 10), same⟩
    · cases others with
      | nil => exact ⟨n / 10, Nat.div_le_self n 10, by rw [front, List.append_nil]⟩
      | cons d others =>
        obtain ⟨rfl, rest⟩ := List.cons.inj last
        obtain ⟨rfl, rfl⟩ := List.append_eq_nil_iff.mp rest.symm
        have whole : decimal n = decimal (n / 10) ++ [UInt8.ofNat (0x30 + n % 10)] := by
          rw [decimal, if_neg large]
        exact ⟨n, Nat.le_refl n, front.trans whole.symm⟩

theorem endsNumber_cons
    (other : isDigit c = false ∧ c ≠ point ∧ c ≠ letterE ∧ c ≠ capitalE) (behind : List UInt8) :
    EndsNumber (c :: behind) := by
  rintro _ ⟨rfl⟩
  exact other

theorem endsNumber_of_append (ends : EndsNumber (text ++ lost)) : EndsNumber text := by
  intro b here
  apply ends b
  cases text with
  | nil => cases here
  | cons c text => exact here

theorem dropWhile_isSpace_decimal (n : Nat) (rest : List UInt8) :
    (decimal n ++ rest).dropWhile isSpace = decimal n ++ rest := by
  obtain ⟨first, digits, written, digit, -⟩ := exists_decimal_eq_cons n
  rw [written, List.cons_append, List.dropWhile_cons_of_neg]
  simp [isSpace_of_isDigit digit]

/-- A number that breaks off is taken for the number that its digits so far make. -/
theorem guesses_natural (wanted : Wanted) {n limit : Nat} (small : n ≤ limit)
    (limited : limit < UInt64.size) : Guesses (natural wanted limit) (decimal n) n := by
  intro text lost behind _ ends cut
  by_cases nonempty : text = []
  · subst nonempty
    exact .inl ⟨_, rfl, rfl⟩
  · right
    rcases List.append_eq_append_iff.mp cut with ⟨others, part, -⟩ | ⟨rest, rfl, rfl⟩
    · obtain ⟨m, below, rfl⟩ := exists_decimal_of_append nonempty part.symm
      left
      refine ⟨m, trivial, run_natural wanted (Nat.le_trans below small) limited ?_ ?_⟩
      · exact fun b absent => by cases absent
      · have next := dropWhile_isSpace_decimal m []
        rwa [List.append_nil] at next ⊢
    · right
      exact ⟨rest, run_natural wanted small limited (endsNumber_of_append ends)
        (dropWhile_isSpace_decimal n rest), rfl⟩

/-! ## Loops over a text -/

/-- A loop that has come to some rest of a text awaits what is written from there on. -/
def LoopAwaits (run : (whole text : List UInt8) → Within text whole → Outcome α whole)
    (written : List UInt8) (value : α) : Prop :=
  ∀ whole text, ∀ le : Within text whole, ∀ lost behind,
    lost ≠ [] → text ++ lost = written ++ behind →
    (∃ stop, run whole text le = .error stop ∧ stop.fault.isEndOfInput = true) ∨
      ∃ rest within, run whole text le = .ok ⟨value, rest, within⟩ ∧ rest ++ lost = behind

theorem LoopAwaits.awaits
    {run : (whole text : List UInt8) → Within text whole → Outcome α whole} {value : α}
    (loop : LoopAwaits run written value) : Awaits (Reader.loop run) written value := by
  intro text lost behind more _ cut
  rcases loop text text (.refl text) lost behind more cut with
    ⟨stop, failed, ended⟩ | ⟨rest, within, read, cut⟩
  · refine .inl ⟨stop, ?_, ended⟩
    rw [Reader.run, Reader.loop, failed]
  · exact .inr (.inr ⟨rest, Reader.run_of_eq read, cut⟩)

/-- What an awaiting reader gives, with the bound that `run` leaves out. -/
theorem Awaits.outcome {reader : Reader α} {value : α} (awaits : Awaits reader written value)
    (more : lost ≠ []) (cut : text ++ lost = written ++ behind) :
    (∃ stop, reader text = .error stop ∧ stop.fault.isEndOfInput = true) ∨
      ∃ rest within, reader text = .ok ⟨value, rest, within⟩ ∧ rest ++ lost = behind := by
  rcases awaits.read_or_starves more cut with ⟨stop, failed, ended⟩ | ⟨rest, read, cut⟩
  · exact .inl ⟨stop, Reader.eq_error_of_run failed, ended⟩
  · obtain ⟨within, result⟩ := Reader.exists_eq_of_run read
    exact .inr ⟨rest, within, result, cut⟩

/-! ## Strings -/

theorem loopAwaits_stringFrom {bytes : List UInt8} (plain : Plain bytes) (read : List UInt8) :
    LoopAwaits (stringFrom read) (bytes ++ [quoteMark]) (read.reverse ++ bytes) := by
  induction bytes generalizing read with
  | nil =>
    intro whole text le lost behind more cut
    rcases cut_cons cut with rfl | ⟨rest, rfl, others⟩
    · exact .inl ⟨⟨.endOfInput .string, 0⟩, by rw [stringFrom], rfl⟩
    · right
      rw [stringFrom_quote, List.append_nil]
      exact ⟨rest, _, rfl, others⟩
  | cons b bytes ih =>
    obtain ⟨no_quote, no_escape, no_control⟩ := plain b List.mem_cons_self
    have behind_plain : Plain bytes := fun c here => plain c (List.mem_cons_of_mem b here)
    intro whole text le lost behind more cut
    rcases cut_cons cut with rfl | ⟨rest, rfl, others⟩
    · exact .inl ⟨⟨.endOfInput .string, 0⟩, by rw [stringFrom], rfl⟩
    · have round : stringFrom read whole (b :: rest) le =
          stringFrom (b :: read) whole rest (.of_cons le) := by
        rw [stringFrom]
        simp only [if_neg no_quote, if_neg no_escape, if_neg no_control]
      have later := ih behind_plain (b :: read)
      rw [List.reverse_cons, List.append_assoc, List.singleton_append] at later
      rw [round]
      exact later whole rest _ lost behind more others

theorem awaits_string {bytes : List UInt8} (plain : Plain bytes) :
    Awaits string (bytes ++ [quoteMark]) bytes :=
  (loopAwaits_stringFrom plain []).awaits

/-! ## Lists -/

/-- Items joined by commas, from the first one on. -/
theorem flatten_separated_cons (first : Bool) (item : List Token) (items : List (List Token)) :
    (separated first (item :: items)).flatten =
      (if first then [] else [comma]) ++ (item.flatten ++ (separated false items).flatten) := by
  cases first <;> simp [separated]

/-- Behind a number that is an item stands a comma or what stands behind all items. -/
theorem endsNumber_separated (items : List (List Token)) (ends : EndsNumber behind) :
    EndsNumber ((separated false items).flatten ++ behind) := by
  cases items with
  | nil => exact ends
  | cons item items =>
    rw [flatten_separated_cons]
    exact endsNumber_cons (by decide) _

/-- An element that follows is left to be read, unless the text ends in front of it. -/
theorem element_of_cut {first : Bool} (visible : isSpace c = false) (opens : c ≠ closeBracket)
    (cut : text ++ lost = (if first then [] else [comma]) ++ c :: behind) :
    Starves (element first) text ∨
      ∃ rest, (element first).run text = .ok (true, c :: rest) ∧ rest ++ lost = behind := by
  cases first with
  | true =>
    rcases cut_cons cut with rfl | ⟨rest, rfl, others⟩
    · exact .inl ⟨_, rfl, rfl⟩
    · refine .inr ⟨rest, ?_, others⟩
      rw [element, run_peekToken_cons visible]
      simp [opens]
  | false =>
    rcases cut_cons cut with rfl | ⟨middle, rfl, others⟩
    · exact .inl ⟨_, rfl, rfl⟩
    · rcases cut_cons others with rfl | ⟨rest, rfl, following⟩
      · exact .inl ⟨_, rfl, rfl⟩
      · refine .inr ⟨rest, ?_, following⟩
        rw [element, run_peekToken_cons (by decide)]
        simp only [Bool.false_eq_true, if_false, if_true,
          if_neg (by decide : ¬ comma = closeBracket)]
        rw [Reader.run_bind_of_ok (Reader.run_skip _), List.tail_cons, run_peekToken_cons visible]
        simp [opens]

theorem element_done_of_cut (first : Bool) (cut : text ++ lost = closeBracket :: behind) :
    Starves (element first) text ∨
      ∃ rest, (element first).run text = .ok (false, closeBracket :: rest) ∧
        rest ++ lost = behind := by
  rcases cut_cons cut with rfl | ⟨rest, rfl, others⟩
  · exact .inl ⟨_, rfl, rfl⟩
  · exact .inr ⟨rest, rfl, others⟩

/-! ## Objects -/

/-- A member that follows is left to be read from the quote of its key on. -/
theorem member_of_cut {first : Bool}
    (cut : text ++ lost = (if first then [] else [comma]) ++ quoteMark :: behind) :
    Starves (member first) text ∨
      ∃ rest, (member first).run text = .ok (true, quoteMark :: rest) ∧ rest ++ lost = behind := by
  cases first with
  | true =>
    rcases cut_cons cut with rfl | ⟨rest, rfl, others⟩
    · exact .inl ⟨_, rfl, rfl⟩
    · exact .inr ⟨rest, rfl, others⟩
  | false =>
    rcases cut_cons cut with rfl | ⟨middle, rfl, others⟩
    · exact .inl ⟨_, rfl, rfl⟩
    · rcases cut_cons others with rfl | ⟨rest, rfl, following⟩
      · exact .inl ⟨_, rfl, rfl⟩
      · exact .inr ⟨rest, rfl, following⟩

theorem member_done_of_cut (first : Bool) (cut : text ++ lost = closeBrace :: behind) :
    Starves (member first) text ∨
      ∃ rest, (member first).run text = .ok (false, closeBrace :: rest) ∧
        rest ++ lost = behind := by
  rcases cut_cons cut with rfl | ⟨rest, rfl, others⟩
  · exact .inl ⟨_, rfl, rfl⟩
  · exact .inr ⟨rest, rfl, others⟩

theorem TakesField.guesses {field : List UInt8 → σ → Reader σ} {draft : σ} {name : String}
    {earlier : Option α} {reader : Reader α} {put : α → σ} {value : α}
    (takes : TakesField field draft name earlier reader put) (absent : earlier = none)
    (guesses : Guesses reader written value) :
    Guesses (field (Text.utf8 name) draft) (colonMark :: written) (put value) := by
  have behind_colon : Guesses (fieldValue name none reader) (colonMark :: written) value :=
    awaits_colon.bind_guesses guesses
  rw [takes, absent]
  exact behind_colon.map put

/-- The key of a member is written without escapes, and its value behind the colon takes the draft
on. -/
inductive AwaitsMember (field : List UInt8 → σ → Reader σ) (draft : σ) : List Token → σ → Prop
  | member {next : σ} {key : String} {value : List Token} (plain : Plain (Text.utf8 key))
      (guesses : Guesses (field (Text.utf8 key) draft) (colonMark :: value.flatten) next) :
      AwaitsMember field draft (memberTokens key value) next

variable {field : List UInt8 → σ → Reader σ} {draft last : σ} {items : List (List Token)}

/-- No member is missing from an object that has not been closed. -/
theorem membersFrom_nil (first : Bool) (draft : σ) (whole : List UInt8) (le : Within [] whole) :
    membersFrom field first draft whole [] le = .error ⟨.endOfInput .object, 0⟩ := by
  rw [membersFrom]
  rfl

/-- One round of the loop, unless the text ends in it: a member takes the draft on. -/
theorem membersFrom_of_cut {next : σ} {item : List Token} {first : Bool} {whole : List UInt8}
    (here : AwaitsMember field draft item next) (le : Within text whole) (more : lost ≠ [])
    (ends : EndsNumber behind)
    (cut : text ++ lost = (if first then [] else [comma]) ++ (item.flatten ++ behind)) :
    (∃ stop, membersFrom field first draft whole text le = .error stop ∧
      stop.fault.isEndOfInput = true) ∨
      ∃ rest within, membersFrom field first draft whole text le =
        membersFrom field false next whole rest within ∧ rest ++ lost = behind := by
  cases here with
  | @member _ key value plain guesses =>
    rw [flatten_memberTokens, encodeName] at cut
    simp only [List.append_assoc, List.cons_append] at cut
    rcases member_of_cut cut with ⟨stop, failed, ended⟩ | ⟨rest, found, others⟩
    · refine .inl ⟨stop, ?_, ended⟩
      rw [membersFrom, Reader.eq_error_of_run failed]
    rcases (awaits_string plain).read_or_starves more (others.trans (List.append_cons ..)) with
      ⟨stop, failed, ended⟩ | ⟨start, spelt, others⟩
    · obtain ⟨within, result⟩ := Reader.exists_eq_of_run found
      refine .inl ⟨stop, ?_, ended⟩
      rw [membersFrom]
      simp only [result, Reader.eq_error_of_run failed]
    obtain ⟨inside, round⟩ := membersFrom_key field draft found spelt le
    rw [List.nil_append, ← List.cons_append] at others
    rcases guesses start lost behind more ends others with
      ⟨stop, failed, ended⟩ | ⟨other, -, guessed⟩ | ⟨rest, read, following⟩
    · refine .inl ⟨stop, ?_, ended⟩
      simp only [round, Reader.eq_error_of_run failed]
    · -- Behind a guessed value the object would have to be closed.
      obtain ⟨within, result⟩ := Reader.exists_eq_of_run guessed
      refine .inl ⟨⟨.endOfInput .object, 0⟩, ?_, rfl⟩
      simp only [round, result, membersFrom_nil]
    · obtain ⟨within, result⟩ := Reader.exists_eq_of_run read
      simp only [result] at round
      exact .inr ⟨rest, _, round, following⟩

theorem Folds.loopAwaits (folds : Folds (AwaitsMember field) draft items last) (first : Bool) :
    LoopAwaits (Json.membersFrom field first draft)
      (separated first items ++ [[closeBrace]]).flatten last := by
  induction folds generalizing first with
  | done draft =>
    intro whole text le lost behind more cut
    rcases member_done_of_cut first cut with ⟨stop, failed, ended⟩ | ⟨rest, found, others⟩
    · refine .inl ⟨stop, ?_, ended⟩
      rw [Json.membersFrom, Reader.eq_error_of_run failed]
    · obtain ⟨within, result⟩ := Reader.exists_eq_of_run found
      refine .inr ⟨rest, .tail (within.trans le), ?_, others⟩
      rw [Json.membersFrom, result]
      rfl
  | @member draft next last item items here _ ih =>
    intro whole text le lost behind more cut
    rw [List.flatten_append, flatten_separated_cons, List.append_assoc, List.append_assoc,
      List.append_assoc] at cut
    have closed : EndsNumber (closeBrace :: behind) := endsNumber_cons (by decide) behind
    have ends := endsNumber_separated items closed
    rcases membersFrom_of_cut here le more ends cut with stopped | ⟨rest, within, round, others⟩
    · exact .inl stopped
    · rw [round]
      apply ih false whole rest within lost behind more
      rw [List.flatten_append, List.append_assoc, others]
      rfl

theorem Folds.awaits (folds : Folds (AwaitsMember field) draft items last) :
    Awaits (Json.members field draft) (separated true items ++ [[closeBrace]]).flatten last :=
  (folds.loopAwaits true).awaits

end Merkle.Json

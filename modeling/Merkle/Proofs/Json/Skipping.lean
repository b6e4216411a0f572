import Merkle.Proofs.Json.Strings

/-!
# Skipping: a value that nobody asked for is passed over

Skipping is a machine with a phase and a list of open containers. What it does to a text is said by
what it does to the tokens of the text (`Passes`), one step at a time; the steps compose, and by
induction on how a value is built they lead from its first token to what stands behind its last
(`WellFormed.skips`), whatever containers are open around it.
-/
namespace Merkle.Json

variable {token : Token} {tokens value more : List Token} {text : List UInt8}
  {frame : Frame} {frames : List Frame}

/-! ## Scalars -/

theorem ne_of_isDigit {b c : UInt8} (digit : isDigit b = true) (other : isDigit c = false) :
    b ≠ c := by
  rintro rfl
  exact absurd (digit.symm.trans other) (by decide)

theorem run_letters (wanted rest : List UInt8) :
    (letters wanted).run (wanted ++ rest) = .ok ((), rest) := by
  induction wanted with
  | nil => rfl
  | cons b wanted ih =>
    rw [List.cons_append, letters, Reader.run_bind_of_ok (Reader.run_next?_cons b _)]
    simp only [if_true]
    exact ih

/-- A number starts with its sign or with a digit. -/
theorem NumberToken.exists_cons (number : NumberToken token) :
    ∃ b behind, token = b :: behind ∧ (b = minus ∨ isDigit b = true) := by
  obtain ⟨sign, whole, fraction, exponent, known, ⟨⟨nonempty, digits⟩, -⟩, -, -, rfl⟩ := number
  obtain ⟨first, others, rfl⟩ := List.exists_cons_of_ne_nil nonempty
  simp only [List.mem_cons, List.not_mem_nil, or_false] at known
  rcases known with rfl | rfl
  · exact ⟨first, _, rfl, .inr (digits first List.mem_cons_self)⟩
  · exact ⟨minus, _, rfl, .inl rfl⟩

/-- The first byte of a scalar tells it from white space and from all brackets. -/
theorem Scalar.exists_cons (scalar : Scalar token) :
    ∃ b behind, token = b :: behind ∧ isSpace b = false ∧ b ≠ closeBracket ∧ b ≠ closeBrace ∧
      Frame.openedBy? b = none := by
  cases scalar with
  | literal known =>
    have first : ∀ word ∈ literals, ∃ b behind, word = b :: behind ∧ isSpace b = false ∧
        b ≠ closeBracket ∧ b ≠ closeBrace ∧ Frame.openedBy? b = none := by
      intro word here
      simp only [literals, List.mem_cons, List.not_mem_nil, or_false] at here
      rcases here with rfl | rfl | rfl
      · exact ⟨letterN, _, rfl, by decide⟩
      · exact ⟨letterT, _, rfl, by decide⟩
      · exact ⟨letterF, _, rfl, by decide⟩
    exact first token known
  | number number =>
    obtain ⟨b, behind, rfl, rfl | digit⟩ := number.exists_cons
    · exact ⟨minus, behind, rfl, by decide⟩
    · refine ⟨b, behind, rfl, isSpace_of_isDigit digit, ne_of_isDigit digit (by decide),
        ne_of_isDigit digit (by decide), ?_⟩
      rw [Frame.openedBy?, if_neg (ne_of_isDigit digit (by decide)),
        if_neg (ne_of_isDigit digit (by decide))]
  | string string =>
    obtain ⟨pieces, -, rfl⟩ := string
    exact ⟨quoteMark, _, rfl, by decide⟩

theorem Scalar.reads (scalar : Scalar token) : Reads skipScalar [token] () := by
  intro more text ends spaced
  rw [List.singleton_append] at spaced
  obtain ⟨b, behind, rfl, visible, -⟩ := scalar.exists_cons
  obtain ⟨rest, peeked, following⟩ := run_peekToken_spaced visible spaced
  refine ⟨rest, ?_, following⟩
  rw [skipScalar, Reader.run_bind_of_ok peeked]
  cases scalar with
  | literal known =>
    have words : literals = [letterN :: [letterU, 0x6c, 0x6c], letterT :: [0x72, letterU, letterE],
        letterF :: [0x61, 0x6c, 0x73, letterE]] := by decide
    simp only [words, List.mem_cons, List.not_mem_nil, or_false] at known
    rcases known with ⟨rfl, rfl⟩ | ⟨rfl, rfl⟩ | ⟨rfl, rfl⟩
    · simp only [if_true]
      exact (Reader.run_bind_of_ok (Reader.run_skip _)).trans (run_letters _ rest)
    · simp only [if_neg (by decide : ¬ letterT = letterN), if_true]
      exact (Reader.run_bind_of_ok (Reader.run_skip _)).trans (run_letters _ rest)
    · simp only [if_neg (by decide : ¬ letterF = letterN), if_neg (by decide : ¬ letterF = letterT),
        if_true]
      exact (Reader.run_bind_of_ok (Reader.run_skip _)).trans (run_letters _ rest)
  | number number =>
    obtain ⟨numeral, scanned⟩ := run_scan .invalidNumber number (following.endsNumber ends)
    obtain ⟨c, digits, same, starts⟩ := number.exists_cons
    obtain ⟨rfl, rfl⟩ := List.cons.inj same
    have no_word : b ≠ letterN ∧ b ≠ letterT ∧ b ≠ letterF ∧ b ≠ quoteMark := by
      rcases starts with rfl | digit
      · decide
      · exact ⟨ne_of_isDigit digit (by decide), ne_of_isDigit digit (by decide),
          ne_of_isDigit digit (by decide), ne_of_isDigit digit (by decide)⟩
    simp only [no_word, starts, if_false, if_true]
    exact run_discard scanned
  | string string =>
    obtain ⟨tail, same, skipped⟩ := string.run_skipString
    obtain ⟨rfl, rfl⟩ := List.cons.inj same
    simp only [if_neg (by decide : ¬ quoteMark = letterN),
      if_neg (by decide : ¬ quoteMark = letterT), if_neg (by decide : ¬ quoteMark = letterF),
      if_true]
    exact (Reader.run_bind_of_ok (Reader.run_skip _)).trans (skipped rest)

/-! ## Steps -/

/-- From some tokens the machine comes to others, whatever white space there is. -/
def Passes (phase : Phase) (frames : List Frame) (tokens : List Token) (phase' : Phase)
    (frames' : List Frame) (tokens' : List Token) : Prop :=
  ∀ whole text, ∀ le : Within text whole, Spaced tokens text →
    ∃ rest within, skipFrom phase frames whole text le = skipFrom phase' frames' whole rest within ∧
      Spaced tokens' rest

theorem Passes.trans {phase phase' phase'' : Phase} {frames frames' frames'' : List Frame}
    {tokens tokens' tokens'' : List Token}
    (first : Passes phase frames tokens phase' frames' tokens')
    (second : Passes phase' frames' tokens' phase'' frames'' tokens'') :
    Passes phase frames tokens phase'' frames'' tokens'' := by
  intro whole text le spaced
  obtain ⟨middle, within, passed, spaced⟩ := first whole text le spaced
  obtain ⟨rest, within', passed', following⟩ := second whole middle within spaced
  exact ⟨rest, within', passed.trans passed', following⟩

/-- The byte that starts the container. -/
def Frame.opening : Frame → UInt8
  | .list => openBracket
  | .object => openBrace

theorem Frame.openedBy?_opening (frame : Frame) : openedBy? frame.opening = some frame := by
  cases frame <;> decide

theorem Frame.isSpace_opening (frame : Frame) : isSpace frame.opening = false := by
  cases frame <;> decide

theorem Frame.isSpace_closing (frame : Frame) : isSpace frame.closing = false := by
  cases frame <;> decide

theorem Frame.closing_ne_comma (frame : Frame) : frame.closing ≠ comma := by
  cases frame <;> decide

theorem Frame.ends_closing (frame : Frame) : Ends ([frame.closing] :: more) := by
  cases frame with
  | list => exact ends_closeBracket
  | object => exact ends_closeBrace

/-- A value is dispatched on by its first byte. -/
theorem skipFrom_value (frames : List Frame) {b : UInt8} {rest whole : List UInt8}
    (le : Within text whole) (next : text.dropWhile isSpace = b :: rest) :
    ∃ inside : Within rest whole, skipFrom .value frames whole text le =
      match Frame.openedBy? b with
      | some frame =>
        match frame.ended? rest with
        | .error stop => .error stop
        | .ok ⟨true, behind, h⟩ =>
          skipFrom .follow frames whole behind.tail (.tail (h.trans inside))
        | .ok ⟨false, behind, h⟩ =>
          match frame.lead behind with
          | .error stop => .error stop
          | .ok ⟨_, element, h'⟩ =>
            skipFrom .value (frame :: frames) whole element (h'.trans (h.trans inside))
      | none =>
        match skipScalar text with
        | .error stop => .error stop
        | .ok ⟨_, behind, h⟩ => skipFrom .follow frames whole behind (h.trans le) := by
  refine ⟨.of_cons (.trans (.of_dropWhile next) le), ?_⟩
  rw [skipFrom]
  split
  next none_left => rw [next] at none_left; cases none_left
  next c others here =>
    rw [next] at here
    obtain ⟨rfl, rfl⟩ := List.cons.inj here
    rfl

/-- Behind a value inside a container comes a comma or the end of the container. -/
theorem skipFrom_follow (frame : Frame) (frames : List Frame) {b : UInt8}
    {rest whole : List UInt8} (le : Within text whole)
    (next : text.dropWhile isSpace = b :: rest) :
    ∃ inside : Within rest whole, skipFrom .follow (frame :: frames) whole text le =
      if b = comma then
        match frame.lead rest with
        | .error stop => .error stop
        | .ok ⟨_, element, h⟩ => skipFrom .value (frame :: frames) whole element (h.trans inside)
      else if b = frame.closing then skipFrom .follow frames whole rest inside
      else .error ⟨frame.expectedEnd, rest.length⟩ := by
  refine ⟨.of_cons (.trans (.of_dropWhile next) le), ?_⟩
  rw [skipFrom]
  split
  next none_left => rw [next] at none_left; cases none_left
  next c others here =>
    rw [next] at here
    obtain ⟨rfl, rfl⟩ := List.cons.inj here
    rfl

theorem passes_scalar (scalar : Scalar token) (ends : Ends more) :
    Passes .value frames (token :: more) .follow frames more := by
  intro whole text le spaced
  obtain ⟨rest, read, following⟩ := scalar.reads more text ends spaced
  obtain ⟨within, result⟩ := Reader.exists_eq_of_run read
  obtain ⟨b, behind, rfl, visible, -, -, closed⟩ := scalar.exists_cons
  obtain ⟨after, next, -⟩ := spaced.dropWhile_cons visible
  obtain ⟨inside, step⟩ := skipFrom_value frames le next
  refine ⟨rest, within.trans le, ?_, following⟩
  simp only [step, closed, result]

/-- A container that is closed at once. -/
theorem passes_empty (frame : Frame) :
    Passes .value frames ([frame.opening] :: [frame.closing] :: more) .follow frames more := by
  intro whole text le spaced
  obtain ⟨inner, next, spaced⟩ := spaced.dropWhile_cons frame.isSpace_opening
  rw [List.nil_append] at next
  obtain ⟨rest, peeked, following⟩ := run_peekToken_spaced frame.isSpace_closing spaced
  have ended : frame.ended?.run inner = .ok (true, frame.closing :: rest) := by
    rw [Frame.ended?, Reader.run_bind_of_ok peeked]
    simp
  obtain ⟨within, result⟩ := Reader.exists_eq_of_run ended
  obtain ⟨inside, step⟩ := skipFrom_value frames le next
  refine ⟨rest, .tail (within.trans inside), ?_, following⟩
  simp only [step, frame.openedBy?_opening, result, List.tail_cons]

/-! ## Items of containers -/

/-- What stands in a container of a kind: values in a list, members with their keys in an object. -/
inductive Item : Frame → List Token → List Token → Prop
  | element {value : List Token} : Item .list value value
  | member {key : Token} {value : List Token} (named : StringToken key) :
      Item .object (key :: [colonMark] :: value) value

/-- What comes in front of the value of an item is passed over. -/
theorem Item.lead (item : Item frame tokens value) (spaced : Spaced (tokens ++ more) text) :
    ∃ rest, frame.lead.run text = .ok ((), rest) ∧ Spaced (value ++ more) rest := by
  cases item with
  | element => exact ⟨text, rfl, spaced⟩
  | member named =>
    obtain ⟨behind, rfl, skipped⟩ := named.run_skipString
    obtain ⟨start, peeked, spaced⟩ := run_peekToken_spaced (by decide) spaced
    obtain ⟨rest, coloned, following⟩ := run_colon spaced
    refine ⟨rest, ?_, following⟩
    rw [Frame.lead, skipKey, Reader.run_bind_of_ok peeked]
    simp only [if_true]
    rw [Reader.run_bind_of_ok (Reader.run_skip _), List.tail_cons,
      Reader.run_bind_of_ok (skipped start), coloned]

/-- The first item of a container, behind its opening byte; it does not look like the end. -/
theorem passes_open {b : UInt8} (item : Item frame ((b :: token) :: tokens) value)
    (visible : isSpace b = false) (inner : b ≠ frame.closing) :
    Passes .value frames ([frame.opening] :: (b :: token) :: (tokens ++ more)) .value
      (frame :: frames) (value ++ more) := by
  intro whole text le spaced
  obtain ⟨start, next, spaced⟩ := spaced.dropWhile_cons frame.isSpace_opening
  rw [List.nil_append] at next
  obtain ⟨behind, peeked, spaced⟩ := run_peekToken_spaced visible spaced
  have open_still : frame.ended?.run start = .ok (false, b :: (token ++ behind)) := by
    rw [Frame.ended?, Reader.run_bind_of_ok peeked]
    simp [inner]
  obtain ⟨within, result⟩ := Reader.exists_eq_of_run open_still
  -- The first byte has only been looked at, and the lead is read from the whole item.
  obtain ⟨rest, led, following⟩ := item.lead (.here spaced)
  rw [List.cons_append] at led
  obtain ⟨within', result'⟩ := Reader.exists_eq_of_run led
  obtain ⟨inside, step⟩ := skipFrom_value frames le next
  refine ⟨rest, within'.trans (within.trans inside), ?_, following⟩
  simp only [step, frame.openedBy?_opening, result, result']

theorem passes_comma (item : Item frame tokens value) :
    Passes .follow (frame :: frames) ([comma] :: (tokens ++ more)) .value (frame :: frames)
      (value ++ more) := by
  intro whole text le spaced
  obtain ⟨start, next, spaced⟩ := spaced.dropWhile_cons (by decide)
  rw [List.nil_append] at next
  obtain ⟨rest, led, following⟩ := item.lead spaced
  obtain ⟨within, result⟩ := Reader.exists_eq_of_run led
  obtain ⟨inside, step⟩ := skipFrom_follow frame frames le next
  refine ⟨rest, within.trans inside, ?_, following⟩
  simp only [step, if_true, result]

theorem passes_close (frame : Frame) :
    Passes .follow (frame :: frames) ([frame.closing] :: more) .follow frames more := by
  intro whole text le spaced
  obtain ⟨rest, next, following⟩ := spaced.dropWhile_cons frame.isSpace_closing
  rw [List.nil_append] at next
  obtain ⟨inside, step⟩ := skipFrom_follow frame frames le next
  refine ⟨rest, inside, ?_, following⟩
  rw [step, if_neg frame.closing_ne_comma, if_pos rfl]

/-! ## Values -/

/-- A value is passed over, whatever containers are open around it. -/
def Skips (tokens : List Token) : Prop :=
  ∀ frames more, Ends more → Passes .value frames (tokens ++ more) .follow frames more

/-- An item of a container: its value is passed over, and it does not look like the end. -/
structure SkipsItem (frame : Frame) (item : List Token) : Prop where
  exists_value : ∃ value, Item frame item value ∧ Skips value
  exists_cons : ∃ b token tokens, item = (b :: token) :: tokens ∧ isSpace b = false ∧
    b ≠ frame.closing

/-- Behind an item of a container, the other items up to its end. -/
theorem passes_items {items : List (List Token)} (skips : ∀ item ∈ items, SkipsItem frame item) :
    Passes .follow (frame :: frames) (separated false items ++ [frame.closing] :: more)
      .follow frames more := by
  induction items with
  | nil => exact passes_close frame
  | cons item items ih =>
    obtain ⟨⟨⟨value, led, skipped⟩, -⟩, others⟩ := List.forall_mem_cons.mp skips
    rw [separated_next]
    exact (passes_comma led).trans
      ((skipped _ _ (ends_separated frame.ends_closing items)).trans (ih others))

theorem skips_container (frame : Frame) {items : List (List Token)}
    (skips : ∀ item ∈ items, SkipsItem frame item) :
    Skips (enclosedTokens frame.opening frame.closing items) := by
  intro frames more ends
  rw [enclosedTokens, List.cons_append, List.append_assoc]
  cases items with
  | nil => exact passes_empty frame
  | cons item items =>
    obtain ⟨⟨⟨value, led, skipped⟩, b, token, tokens, rfl, visible, inner⟩, others⟩ :=
      List.forall_mem_cons.mp skips
    rw [separated_first, List.cons_append]
    exact (passes_open led visible inner).trans
      ((skipped _ _ (ends_separated frame.ends_closing items)).trans (passes_items others))

/-- The first byte of a value is no white space and ends no container. -/
theorem WellFormed.exists_cons (wellFormed : WellFormed tokens) :
    ∃ b token behind, tokens = (b :: token) :: behind ∧ isSpace b = false ∧
      b ≠ closeBracket ∧ b ≠ closeBrace := by
  cases wellFormed with
  | scalar scalar =>
    obtain ⟨b, behind, rfl, visible, no_bracket, no_brace, -⟩ := scalar.exists_cons
    exact ⟨b, behind, [], rfl, visible, no_bracket, no_brace⟩
  | list elements => exact ⟨openBracket, [], _, rfl, by decide⟩
  | object keys values => exact ⟨openBrace, [], _, rfl, by decide⟩

/-- Every well-formed value is passed over, by induction on its containers. -/
theorem WellFormed.skips (wellFormed : WellFormed tokens) : Skips tokens := by
  induction wellFormed with
  | scalar scalar => exact fun frames more ends => passes_scalar scalar ends
  | list elements ih =>
    apply skips_container .list
    intro item here
    obtain ⟨b, token, behind, first, visible, no_bracket, -⟩ := (elements item here).exists_cons
    exact ⟨⟨item, .element, ih item here⟩, b, token, behind, first, visible, no_bracket⟩
  | object keys values ih =>
    apply skips_container .object
    intro item here
    obtain ⟨m, member, rfl⟩ := List.mem_map.mp here
    obtain ⟨pieces, -, quoted⟩ := keys m member
    exact ⟨⟨m.2, .member (keys m member), ih m member⟩, quoteMark, _, _, by rw [quoted], by decide,
      by decide⟩

theorem WellFormed.reads_skipValue (wellFormed : WellFormed tokens) :
    Reads skipValue tokens () := by
  intro more text ends spaced
  obtain ⟨rest, within, passed, following⟩ :=
    wellFormed.skips [] more ends text text (.refl text) spaced
  refine ⟨rest, ?_, following⟩
  have done : skipFrom .follow [] text rest within = .ok ⟨(), rest, within⟩ := by
    rw [skipFrom]
  exact Reader.run_of_eq (passed.trans done)

/-- A member that no field has. -/
theorem WellFormed.reads_unknownField (wellFormed : WellFormed tokens) :
    Reads unknownField ([colonMark] :: tokens) () := by
  intro more text ends spaced
  obtain ⟨middle, coloned, spaced⟩ := run_colon spaced
  obtain ⟨rest, read, following⟩ := wellFormed.reads_skipValue more middle ends spaced
  exact ⟨rest, by rw [unknownField, Reader.run_bind_of_ok coloned, read], following⟩

end Merkle.Json

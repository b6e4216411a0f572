import Merkle.Text.Visible

/-!
# Quoted text: how a character or a text appears inside a message

Tab, line feed, carriage return, NUL and the backslash have escapes of one letter, so has the quote
that encloses the text; other characters that are not visible are written by their code point in
hexadecimal. The quote of the other kind stands for itself (`shows_iff`). No two characters are
shown alike (`quoteChar_inj`).
-/
namespace Merkle.Text

/-- The mark around quoted text: single around a character, double around a text. -/
inductive Quote where
  | single | double
  deriving DecidableEq, Repr

def Quote.mark : Quote → Char
  | .single => '\x27'
  | .double => '\x22'

/-- A code point in lower-case hexadecimal between braces, without leading zeros. -/
def escapeCode (c : Char) : List Char :=
  ['\\', 'u', '{'] ++ Nat.toDigits 16 c.toNat ++ ['}']

/-- A character as it stands between quotes of the given kind. -/
def escapeChar (quote : Quote) (c : Char) : List Char :=
  if c = '\x00' then ['\\', '0']
  else if c = '\t' then ['\\', 't']
  else if c = '\r' then ['\\', 'r']
  else if c = '\n' then ['\\', 'n']
  else if c = '\\' then ['\\', '\\']
  else if c = quote.mark then ['\\', c]
  else if isVisible c then [c]
  else escapeCode c

/-- Characters between quotes of the given kind. -/
def quote (kind : Quote) (cs : List Char) : String :=
  String.ofList (kind.mark :: cs.flatMap (escapeChar kind) ++ [kind.mark])

/-- A character between single quotes. -/
def quoteChar (c : Char) : String := quote .single [c]

/-- A text between double quotes. -/
def quoteString (s : String) : String := quote .double s.toList

/-! ## What is shown -/

/-- The characters with an escape of one letter, and the letter. -/
def namedEscapes (kind : Quote) : List (Char × Char) :=
  [('\x00', '0'), ('\t', 't'), ('\r', 'r'), ('\n', 'n'), ('\\', '\\'), (kind.mark, kind.mark)]

/-- What stands for a character between quotes of the given kind. -/
inductive Shows (kind : Quote) : Char → List Char → Prop
  | named {c letter : Char} (known : (c, letter) ∈ namedEscapes kind) : Shows kind c ['\\', letter]
  | itself {c : Char} (unnamed : ∀ letter, (c, letter) ∉ namedEscapes kind)
      (visible : ∀ run ∈ hiddenRanges, ¬ (run.1 ≤ c.toNat ∧ c.toNat ≤ run.2)) : Shows kind c [c]
  | code {c : Char} (unnamed : ∀ letter, (c, letter) ∉ namedEscapes kind)
      (hidden : ∃ run ∈ hiddenRanges, run.1 ≤ c.toNat ∧ c.toNat ≤ run.2) :
      Shows kind c (['\\', 'u', '{'] ++ Nat.toDigits 16 c.toNat ++ ['}'])

variable {kind : Quote} {c c' : Char} {shown : List Char}

theorem shows_escapeChar (kind : Quote) (c : Char) : Shows kind c (escapeChar kind c) := by
  unfold escapeChar
  split
  next zero => exact .named (by simp [namedEscapes, zero])
  split
  next tab => exact .named (by simp [namedEscapes, tab])
  split
  next carriage => exact .named (by simp [namedEscapes, carriage])
  split
  next feed => exact .named (by simp [namedEscapes, feed])
  split
  next backslash => exact .named (by simp [namedEscapes, backslash])
  split
  next mark => exact .named (by simp [namedEscapes, mark])
  next zero tab carriage feed backslash mark =>
    have unnamed : ∀ letter, (c, letter) ∉ namedEscapes kind := by
      simp [namedEscapes, zero, tab, carriage, feed, backslash, mark]
    split
    next visible =>
      refine .itself unnamed ?_
      intro run mem inside
      have hidden := (isVisible_eq_false_iff c).mpr ⟨run, mem, inside⟩
      rw [visible] at hidden
      cases hidden
    next hidden => exact .code unnamed ((isVisible_eq_false_iff c).mp (by simpa using hidden))

/-- Two characters with an escape have the same letter just when they are the same. -/
theorem namedEscapes_inj (kind : Quote) :
    ∀ p ∈ namedEscapes kind, ∀ q ∈ namedEscapes kind, (p.1 = q.1 ↔ p.2 = q.2) := by
  cases kind <;> decide

theorem digitChar_inj {n m : Nat} (small : n < 16) (small' : m < 16)
    (same : n.digitChar = m.digitChar) : n = m := by
  have all : ∀ n m : Fin 16, n.val.digitChar = m.val.digitChar → n.val = m.val := by decide
  exact all ⟨n, small⟩ ⟨m, small'⟩ same

/-- By induction on the number, from its last digit on. -/
theorem toDigits_inj {n m : Nat} (same : Nat.toDigits 16 n = Nat.toDigits 16 m) : n = m := by
  induction n using Nat.strongRecOn generalizing m with
  | _ n ih =>
    rw [@Nat.toDigits_eq_if 16 n (by decide), @Nat.toDigits_eq_if 16 m (by decide)] at same
    by_cases small : n < 16
    · by_cases small' : m < 16
      · exact digitChar_inj small small' (by simpa [small, small'] using same)
      · simp [small, small', List.singleton_eq_append_iff] at same
    · by_cases small' : m < 16
      · simp [small, small', List.append_eq_singleton_iff] at same
      · rw [if_neg small, if_neg small', List.append_singleton_inj] at same
        have high := ih (n / 16) (by omega) same.1
        have low := digitChar_inj (Nat.mod_lt n (by decide)) (Nat.mod_lt m (by decide)) same.2
        omega

theorem Shows.unique {shown' : List Char} (shows : Shows kind c shown)
    (shows' : Shows kind c shown') : shown = shown' := by
  cases shows with
  | named known =>
    cases shows' with
    | named known' =>
      obtain rfl := (namedEscapes_inj kind _ known _ known').mp rfl
      rfl
    | itself unnamed => exact absurd known (unnamed _)
    | code unnamed => exact absurd known (unnamed _)
  | itself unnamed visible =>
    cases shows' with
    | named known' => exact absurd known' (unnamed _)
    | itself => rfl
    | code _ hidden =>
      obtain ⟨run, mem, inside⟩ := hidden
      exact absurd inside (visible run mem)
  | code unnamed hidden =>
    cases shows' with
    | named known' => exact absurd known' (unnamed _)
    | itself _ visible =>
      obtain ⟨run, mem, inside⟩ := hidden
      exact absurd inside (visible run mem)
    | code => rfl

/-- One character, two, and at least five: the lengths tell the three ways apart. -/
theorem Shows.char_inj (shows : Shows kind c shown) (shows' : Shows kind c' shown) : c = c' := by
  cases shows with
  | named known =>
    generalize same : ['\\', _] = shown at shows'
    cases shows' with
    | named known' =>
      simp only [List.cons.injEq, true_and, and_true] at same
      exact (namedEscapes_inj kind _ known _ known').mpr same
    | itself => simp at same
    | code => simp at same
  | itself =>
    generalize same : [c] = shown at shows'
    cases shows' with
    | named => simp at same
    | itself => simpa using same
    | code => simp at same
  | code =>
    generalize same : ['\\', 'u', '{'] ++ Nat.toDigits 16 c.toNat ++ ['}'] = shown at shows'
    cases shows' with
    | named => simp at same
    | itself => simp at same
    | code =>
      simp only [List.append_singleton_inj, List.append_cancel_left_eq, and_true] at same
      exact Char.toNat_inj.mp (toDigits_inj same)

theorem shows_iff : Shows kind c shown ↔ shown = escapeChar kind c := by
  constructor
  · intro shows
    exact shows.unique (shows_escapeChar kind c)
  · rintro rfl
    exact shows_escapeChar kind c

theorem quoteChar_eq (c : Char) :
    quoteChar c = "\x27" ++ String.ofList (escapeChar .single c) ++ "\x27" := by
  apply String.toList_inj.mp
  simp [quoteChar, quote, Quote.mark]

/-- What is shown determines the character. -/
theorem quoteChar_inj : quoteChar c = quoteChar c' ↔ c = c' := by
  constructor
  · intro same
    have shown : escapeChar .single c = escapeChar .single c' := by
      simpa [quoteChar, quote, String.ofList_inj] using same
    exact (shows_escapeChar .single c).char_inj (shows_iff.mpr shown)
  · rintro rfl
    rfl

end Merkle.Text

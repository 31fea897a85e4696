/-
# String literals

A string literal stands between double quotes, or raw between backticks.
Three delimiters in place of one make it a multi-line literal, which may hold
line ends and single delimiters and closes with three delimiters again.

The content is a sequence of units.  In a raw literal each character is a unit
of its own.  Otherwise a backslash begins an escape, which may denote nothing
and then counts as written; in a multi-line literal a backslash before a
line end joins the two lines; and a backslash with nothing after it that it
could escape stands for itself.

A literal is read unit by unit up to the closing delimiter.  A line end in a
literal that is not multi-line, or the end of the text, leaves it open.
-/

import Lexis.Quoted.Escape

namespace Lexis

/-- The character that delimits a literal. -/
inductive Quote
  | double | backtick
deriving DecidableEq, Repr

/-- The character itself. -/
def Quote.char : Quote → Char
  | .double => '\x22'
  | .backtick => '\x60'

/-- The form of a literal. -/
structure QuoteForm where
  /-- The delimiting character. -/
  quote : Quote
  /-- Whether three delimiters stand for one, so that lines may end inside. -/
  multiline : Bool
deriving DecidableEq, Repr

/-- Whether escapes have no meaning in literals of the form. -/
def QuoteForm.isRaw (f : QuoteForm) : Bool := f.quote == .backtick

/-- What opens and closes a literal of the form. -/
def QuoteForm.delimiter (f : QuoteForm) : List Char :=
  List.replicate (if f.multiline then 3 else 1) f.quote.char

/-- A part of the content of a literal. -/
inductive QuoteUnit
  /-- A character that stands for itself. -/
  | plain (c : Char)
  /-- A backslash and what it escapes. -/
  | escape (e : Escape)
  /-- A backslash and the line end after it. -/
  | continuation (lineEnd : List Char)
  /-- A backslash before the place where an open literal ends. -/
  | dangling
deriving DecidableEq, Repr

namespace QuoteUnit

/-- The unit as it is written. -/
def chars : QuoteUnit → List Char
  | .plain c => [c]
  | .escape e => e.chars
  | .continuation lineEnd => '\\' :: lineEnd
  | .dangling => ['\\']

/-- The characters that the unit adds to the value of the literal. -/
def content : QuoteUnit → List Char
  | .plain c => [c]
  | .escape e => match e.value? with
    | some c => [c]
    | none => e.chars
  | .continuation _ => []
  | .dangling => ['\\']

/-- Whether the unit is an escape that denotes nothing. -/
def isMalformed : QuoteUnit → Bool
  | .escape e => e.value?.isNone
  | _ => false

/-- The unit that a backslash begins before the text. -/
def readEscaped (multiline : Bool) : List Char → QuoteUnit
  | [] => .dangling
  | c :: cs =>
    if isLineEnd c then
      if multiline then
        .continuation (if c = '\r' ∧ cs.head? = some '\n' then [c, '\n'] else [c])
      else .dangling
    else .escape (Escape.read c cs)

theorem chars_ne_nil (u : QuoteUnit) : u.chars ≠ [] := by
  cases u with
  | escape e => cases e <;> simp [chars, Escape.chars]
  | _ => simp [chars]

theorem length_chars_pos (u : QuoteUnit) : 0 < u.chars.length :=
  List.length_pos_iff.2 u.chars_ne_nil

theorem isPrefix_chars_readEscaped (multiline : Bool) (text : List Char) :
    (readEscaped multiline text).chars <+: '\\' :: text := by
  cases text with
  | nil => exact ⟨[], rfl⟩
  | cons c cs =>
    simp only [readEscaped]
    split
    · split
      · split
        · rename_i h
          obtain ⟨rfl, hc⟩ := h
          obtain ⟨rest, rfl⟩ := List.head?_eq_some_iff.1 hc
          exact ⟨rest, rfl⟩
        · exact ⟨cs, rfl⟩
      · exact ⟨c :: cs, rfl⟩
    · exact Escape.isPrefix_chars_read c cs

end QuoteUnit

namespace QuoteForm

/-- Whether the closing delimiter stands at the head of the text. -/
def closesAt (f : QuoteForm) (text : List Char) : Bool := f.delimiter.isPrefixOf text

/-- The next unit of the content; there is none where the literal is left open. -/
def unit? (f : QuoteForm) : List Char → Option QuoteUnit
  | [] => none
  | c :: cs =>
    if isLineEnd c ∧ f.multiline = false then none
    else if c = '\\' ∧ f.isRaw = false then some (QuoteUnit.readEscaped f.multiline cs)
    else some (.plain c)

/-- The units up to the end of the literal, and whether it is closed there. -/
def readUnits (f : QuoteForm) (text : List Char) : List QuoteUnit × Bool :=
  if f.closesAt text then ([], true)
  else
    match _h : f.unit? text with
    | none => ([], false)
    | some u =>
      let (units, closed) := f.readUnits (text.drop u.chars.length)
      (u :: units, closed)
termination_by text.length
decreasing_by
  have hu := u.length_chars_pos
  have ht : text ≠ [] := by rintro rfl; simp [unit?] at _h
  have := List.length_pos_iff.2 ht
  simp only [List.length_drop]
  omega

theorem isPrefix_chars_unit? {f : QuoteForm} {text : List Char} {u : QuoteUnit}
    (h : f.unit? text = some u) : u.chars <+: text := by
  cases text with
  | nil => simp [unit?] at h
  | cons c cs =>
    simp only [unit?] at h
    split at h
    · simp at h
    · split at h
      · rename_i hc
        obtain rfl := Option.some.inj h
        rw [hc.1]
        exact QuoteUnit.isPrefix_chars_readEscaped _ _
      · obtain rfl := Option.some.inj h
        exact ⟨cs, rfl⟩

/-- What is written after the opening delimiter. -/
def body (f : QuoteForm) (units : List QuoteUnit) (closed : Bool) : List Char :=
  units.flatMap QuoteUnit.chars ++ if closed then f.delimiter else []

/-- The units of a literal and the delimiter that closes it are a front of the text. -/
theorem isPrefix_body_readUnits (f : QuoteForm) (text : List Char) :
    f.body (f.readUnits text).1 (f.readUnits text).2 <+: text := by
  fun_induction readUnits f text with
  | case1 text h => simpa [body] using List.isPrefixOf_iff_prefix.1 h
  | case2 text _ h => exact ⟨text, rfl⟩
  | case3 text _ u h units closed hr ih =>
    obtain ⟨rest, hu⟩ := isPrefix_chars_unit? h
    obtain ⟨rest', hb⟩ := ih
    rw [hr] at hb
    refine ⟨rest', ?_⟩
    subst hu
    simp only [List.drop_left] at hb
    simp only [body, List.flatMap_cons, List.append_assoc] at hb ⊢
    rw [hb]

end QuoteForm

/-- A string literal. -/
structure Quoted where
  /-- The delimiter and the number of lines. -/
  form : QuoteForm
  /-- The content. -/
  units : List QuoteUnit
  /-- Whether the closing delimiter stands after the content. -/
  closed : Bool
deriving DecidableEq, Repr

namespace Quoted

/-- The literal as it is written. -/
def chars (q : Quoted) : List Char := q.form.delimiter ++ q.form.body q.units q.closed

/-- The string that the literal denotes. -/
def value (q : Quoted) : List Char := q.units.flatMap QuoteUnit.content

/-- The literal whose first character is `c`, a double quote or a backtick. -/
def read (c : Char) (text : List Char) : Quoted :=
  let quote : Quote := if c = '\x60' then .backtick else .double
  let multiline := [c, c].isPrefixOf text
  let form : QuoteForm := ⟨quote, multiline⟩
  let (units, closed) := form.readUnits (if multiline then text.drop 2 else text)
  ⟨form, units, closed⟩

/-- **A string literal is a front of the text** that its delimiter begins. -/
theorem isPrefix_chars_read {c : Char} (h : c = '\x22' ∨ c = '\x60') (text : List Char) :
    (read c text).chars <+: c :: text := by
  have hq : (if c = '\x60' then Quote.backtick else Quote.double).char = c := by
    rcases h with rfl | rfl <;> rfl
  simp only [read, chars, QuoteForm.delimiter, hq]
  by_cases hm : [c, c].isPrefixOf text = true
  · simp only [hm, if_true]
    obtain ⟨rest', rfl⟩ := List.isPrefixOf_iff_prefix.1 hm
    obtain ⟨rest, hb⟩ := QuoteForm.isPrefix_body_readUnits
      ⟨if c = '\x60' then Quote.backtick else Quote.double, true⟩ rest'
    exact ⟨rest, congrArg (c :: c :: c :: ·) hb⟩
  · simp only [hm]
    obtain ⟨rest, hb⟩ := QuoteForm.isPrefix_body_readUnits
      ⟨if c = '\x60' then Quote.backtick else Quote.double, false⟩ text
    exact ⟨rest, congrArg (c :: ·) hb⟩

end Quoted

end Lexis

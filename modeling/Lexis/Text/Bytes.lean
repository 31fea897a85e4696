/-
# Byte offsets in a text

A text is the list of its characters.  Offsets into it count the bytes of its
UTF-8 form `utf8`, so an offset can lie past the end or inside a character.  The cuts
of this file are therefore partial: `dropBytes?`, `takeBytes?` and `slice?`
answer `none` where the offset is no boundary between two characters of the
text.

The main lemmas say what a successful cut means: `dropBytes? n cs = some rest`
exactly if `cs` is some `front` of `n` bytes followed by `rest`.
-/

namespace Lexis.Text

/-- The number of bytes of a text in UTF-8. -/
def byteLength : List Char → Nat
  | [] => 0
  | c :: cs => c.utf8Size + byteLength cs

/-- The bytes of a text in UTF-8. -/
def utf8 (cs : List Char) : List UInt8 := cs.flatMap String.utf8EncodeChar

/-- The text after its first `n` bytes. -/
def dropBytes? : Nat → List Char → Option (List Char)
  | 0, cs => some cs
  | _ + 1, [] => none
  | n + 1, c :: cs =>
    if c.utf8Size ≤ n + 1 then dropBytes? (n + 1 - c.utf8Size) cs else none

/-- The first `n` bytes of the text. -/
def takeBytes? : Nat → List Char → Option (List Char)
  | 0, _ => some []
  | _ + 1, [] => none
  | n + 1, c :: cs =>
    if c.utf8Size ≤ n + 1 then (takeBytes? (n + 1 - c.utf8Size) cs).map (c :: ·) else none

/-- The text from byte `start` up to byte `stop`. -/
def slice? (start stop : Nat) (cs : List Char) : Option (List Char) :=
  if start ≤ stop then (dropBytes? start cs).bind (takeBytes? (stop - start)) else none

@[simp] theorem byteLength_nil : byteLength [] = 0 := rfl

@[simp] theorem byteLength_cons (c : Char) (cs : List Char) :
    byteLength (c :: cs) = c.utf8Size + byteLength cs := rfl

@[simp] theorem byteLength_append (as bs : List Char) :
    byteLength (as ++ bs) = byteLength as + byteLength bs := by
  induction as with
  | nil => simp
  | cons c cs ih => simp [ih, Nat.add_assoc]

theorem byteLength_pos {cs : List Char} (h : cs ≠ []) : 0 < byteLength cs := by
  cases cs with
  | nil => exact absurd rfl h
  | cons c cs => have := c.utf8Size_pos; simp only [byteLength_cons]; omega

theorem byteLength_eq_zero {cs : List Char} : byteLength cs = 0 ↔ cs = [] := by
  constructor
  · intro h
    by_cases hcs : cs = []
    · exact hcs
    · have := byteLength_pos hcs; omega
  · rintro rfl; rfl

theorem length_utf8 (cs : List Char) : (utf8 cs).length = byteLength cs := by
  induction cs with
  | nil => rfl
  | cons c cs ih =>
    rw [utf8, List.flatMap_cons, List.length_append, String.length_utf8EncodeChar, byteLength_cons,
      ← ih]
    rfl

theorem utf8_append (as bs : List Char) : utf8 (as ++ bs) = utf8 as ++ utf8 bs :=
  List.flatMap_append

/-- The byte of a line feed begins no other character. -/
theorem head?_utf8EncodeChar_eq_lineFeed_iff (c : Char) :
    (String.utf8EncodeChar c).head? = some 10 ↔ c = '\n' := by
  have hsmall : ∀ n < 256, UInt8.ofNat n = 10 → n = 10 := by decide +kernel
  constructor
  · intro h
    rw [String.utf8EncodeChar] at h
    have hval : c.val.toNat = 10 := by
      repeat' split at h
      -- the first of several bytes is 192 at least
      all_goals
        have := hsmall _ (by omega) (Option.some.inj h)
        omega
    exact Char.ext (UInt32.toNat_inj.1 hval)
  · rintro rfl
    rfl

/-- **The next byte is a line feed** exactly if the next character is one. -/
theorem getElem?_utf8_eq_lineFeed_iff (before after : List Char) :
    (utf8 (before ++ after))[byteLength before]? = some 10 ↔ after.head? = some '\n' := by
  rw [utf8_append, List.getElem?_append_right (Nat.le_of_eq (length_utf8 before)), length_utf8,
    Nat.sub_self]
  cases after with
  | nil => simp [utf8]
  | cons c cs =>
    have hne : String.utf8EncodeChar c ≠ [] := by
      rw [← List.length_pos_iff, String.length_utf8EncodeChar]
      exact c.utf8Size_pos
    rw [utf8, List.flatMap_cons, ← List.head?_eq_getElem?, List.head?_append,
      List.head?_eq_some_head hne, Option.some_or, ← List.head?_eq_some_head hne,
      head?_utf8EncodeChar_eq_lineFeed_iff, List.head?_cons, Option.some.injEq]

@[simp] theorem dropBytes?_zero (cs : List Char) : dropBytes? 0 cs = some cs := by
  cases cs <;> rfl

@[simp] theorem takeBytes?_zero (cs : List Char) : takeBytes? 0 cs = some [] := by
  cases cs <;> rfl

theorem dropBytes?_add_utf8Size (c : Char) (n : Nat) (cs : List Char) :
    dropBytes? (c.utf8Size + n) (c :: cs) = dropBytes? n cs := by
  obtain ⟨k, hk⟩ : ∃ k, c.utf8Size + n = k + 1 := ⟨c.utf8Size + n - 1, by
    have := c.utf8Size_pos; omega⟩
  rw [hk, dropBytes?, if_pos (by omega), show k + 1 - c.utf8Size = n by omega]

theorem takeBytes?_add_utf8Size (c : Char) (n : Nat) (cs : List Char) :
    takeBytes? (c.utf8Size + n) (c :: cs) = (takeBytes? n cs).map (c :: ·) := by
  obtain ⟨k, hk⟩ : ∃ k, c.utf8Size + n = k + 1 := ⟨c.utf8Size + n - 1, by
    have := c.utf8Size_pos; omega⟩
  rw [hk, takeBytes?, if_pos (by omega), show k + 1 - c.utf8Size = n by omega]

/-- Cutting off the bytes of a front leaves what follows it. -/
@[simp] theorem dropBytes?_byteLength_append (front rest : List Char) :
    dropBytes? (byteLength front) (front ++ rest) = some rest := by
  induction front with
  | nil => simp
  | cons c cs ih => rw [byteLength_cons, List.cons_append, dropBytes?_add_utf8Size, ih]

/-- Taking the bytes of a front gives the front. -/
@[simp] theorem takeBytes?_byteLength_append (front rest : List Char) :
    takeBytes? (byteLength front) (front ++ rest) = some front := by
  induction front with
  | nil => simp
  | cons c cs ih => rw [byteLength_cons, List.cons_append, takeBytes?_add_utf8Size, ih]; rfl

theorem dropBytes?_eq_some_iff {n : Nat} {cs rest : List Char} :
    dropBytes? n cs = some rest ↔ ∃ front, cs = front ++ rest ∧ byteLength front = n := by
  constructor
  · intro h
    fun_induction dropBytes? n cs with
    | case1 cs => exact ⟨[], by simp_all⟩
    | case2 n => simp at h
    | case3 n c cs hc ih =>
      obtain ⟨front, rfl, hn⟩ := ih h
      exact ⟨c :: front, rfl, by simp only [byteLength_cons]; omega⟩
    | case4 => simp at h
  · rintro ⟨front, rfl, rfl⟩
    exact dropBytes?_byteLength_append front rest

theorem takeBytes?_eq_some_iff {n : Nat} {cs front : List Char} :
    takeBytes? n cs = some front ↔ ∃ rest, cs = front ++ rest ∧ byteLength front = n := by
  constructor
  · intro h
    fun_induction takeBytes? n cs generalizing front with
    | case1 cs => obtain rfl := Option.some.inj h; exact ⟨cs, rfl, rfl⟩
    | case2 n => simp at h
    | case3 n c cs hc ih =>
      obtain ⟨front', h', rfl⟩ := Option.map_eq_some_iff.1 h
      obtain ⟨rest, rfl, hn⟩ := ih h'
      exact ⟨rest, rfl, by simp only [byteLength_cons]; omega⟩
    | case4 => simp at h
  · rintro ⟨rest, rfl, rfl⟩
    exact takeBytes?_byteLength_append front rest

/-- **What a slice is:** the middle of a text whose front ends at `start` and
whose middle ends at `stop`. -/
theorem slice?_eq_some_iff {start stop : Nat} {cs middle : List Char} :
    slice? start stop cs = some middle ↔
      ∃ front rest, cs = front ++ middle ++ rest ∧ byteLength front = start ∧
        byteLength front + byteLength middle = stop := by
  unfold slice?
  constructor
  · intro h
    split at h
    · rename_i hle
      obtain ⟨tail, h₁, h₂⟩ := Option.bind_eq_some_iff.1 h
      obtain ⟨front, rfl, hf⟩ := dropBytes?_eq_some_iff.1 h₁
      obtain ⟨rest, rfl, hm⟩ := takeBytes?_eq_some_iff.1 h₂
      exact ⟨front, rest, by simp, hf, by omega⟩
    · simp at h
  · rintro ⟨front, rest, rfl, rfl, rfl⟩
    rw [if_pos (by omega), List.append_assoc, dropBytes?_byteLength_append, Option.bind_some,
      Nat.add_sub_cancel_left, takeBytes?_byteLength_append]

/-- Of two cuts of one text the earlier one leaves more ahead, by the text between them. -/
theorem exists_run_of_byteLength_le {behind ahead before rest : List Char}
    (htext : behind ++ ahead = before ++ rest)
    (hle : byteLength behind ≤ byteLength before) :
    ∃ run, before = behind ++ run ∧ ahead = run ++ rest := by
  rcases List.append_eq_append_iff.1 htext with hrun | ⟨run, rfl, rfl⟩
  · exact hrun
  · rw [byteLength_append] at hle
    obtain rfl := byteLength_eq_zero.1 (show byteLength run = 0 by omega)
    exact ⟨[], by simp, by simp⟩

/-- **Slices that follow each other** make up the slice over both. -/
theorem slice?_append {a b c : Nat} {cs front back : List Char}
    (hfront : slice? a b cs = some front) (hback : slice? b c cs = some back) :
    slice? a c cs = some (front ++ back) := by
  obtain ⟨before, after, rfl, rfl, rfl⟩ := slice?_eq_some_iff.1 hfront
  obtain ⟨before', after', htext, hstart, rfl⟩ := slice?_eq_some_iff.1 hback
  rw [List.append_assoc before'] at htext
  rw [← byteLength_append] at hstart
  obtain ⟨run, rfl, rfl⟩ := exists_run_of_byteLength_le htext (Nat.le_of_eq hstart.symm)
  obtain rfl : run = [] := byteLength_eq_zero.1 (by
    rw [byteLength_append _ run] at hstart
    omega)
  refine slice?_eq_some_iff.2 ⟨before, after', by simp, rfl, ?_⟩
  rw [List.append_nil, byteLength_append, byteLength_append, Nat.add_assoc]

end Lexis.Text
